import VideoPipeline.Detector.Batcher

/-!
# The detector's consume loop

`DetectorWorker._handle` with `FrameProcessor.process` inside it, and the batcher they share with
the age watchdog (`stream_detector/consumer.py`, `stream_detector/processing.py`). A `Phase` is a
suspension point of the handler, named after what it waits for.
-/

namespace VideoPipeline

open Amqp

namespace Worker

inductive Phase where
  | idle
  | loading (d : Delivery)
  | detecting (d : Delivery)
  | claiming (d : Delivery) (faces : List BoundingBox)
  | settling (d : Delivery) (v : Verdict)
  | adding (d : Delivery) (r : RespObject)
  | flushing (jobId : String)
  | counting (jobId : String)
  deriving DecidableEq, Repr

/-- The delivery that `process` is working on. -/
def Phase.inProcess : Phase → Option Delivery
  | .loading d    => some d
  | .detecting d  => some d
  | .claiming d _ => some d
  | _             => none

/-- The delivery in the handler's hand, which is neither settled nor in the buffer. -/
def Phase.current : Phase → List Delivery
  | .loading d    => [d]
  | .detecting d  => [d]
  | .claiming d _ => [d]
  | .settling d _ => [d]
  | .adding d _   => [d]
  | _             => []

/-- What `FrameStore.get` and the decoding of its answer give. -/
inductive LoadReply where
  | frame
  | missing
  | undecodable
  | storeError
  | raised
  deriving DecidableEq, Repr

/-- Where a collaborator of the handler, or another task, lets the worker go on. `detected` has no
faces when the detection raises an exception that reaches the `except Exception` around it. -/
inductive Op where
  | loaded (r : LoadReply)
  | detected (faces : Option (List BoundingBox))
  | claimed (r : ClaimReply)
  | settled
  | add (now : ℚ)
  | counted
  | batcher (e : Batcher.Event)
  deriving DecidableEq, Repr

end Worker

structure Worker where
  phase : Worker.Phase := .idle
  batcher : Batcher := {}
  processed : ℕ := 0
  duplicates : ℕ := 0
  deadLettered : ℕ := 0
  requeued : ℕ := 0
  stale : ℕ := 0
  deriving DecidableEq, Repr

namespace Worker

/-- The branches of `_handle` on what `process` gives. -/
def handle (w : Worker) (d : Delivery) (o : Outcome) : Worker × List Act :=
  (match o with
    | .result r   => { w with phase := .adding d r }
    | .duplicate  => { w with duplicates := w.duplicates + 1, phase := .settling d .acked }
    | .stale      => { w with stale := w.stale + 1, phase := .settling d .acked }
    | .permanent  =>
      { w with deadLettered := w.deadLettered + 1, phase := .settling d .deadLettered }
    | .transient  =>
      if d.redelivered then
        { w with deadLettered := w.deadLettered + 1, phase := .settling d .deadLettered }
      else { w with requeued := w.requeued + 1, phase := .settling d .requeued }
    | .unexpected =>
      { w with deadLettered := w.deadLettered + 1, phase := .settling d .deadLettered },
    [.outcome d o])

/-- The next delivery is handed to the handler, whose first step is the freshness check. -/
def take (cfg : DetectorSettings) (w : Worker) (d : Delivery) (now : ℚ) :
    Option (Worker × List Act) :=
  match w.phase with
  | .idle =>
    if 0 < cfg.maxFrameAgeSec ∧ cfg.maxFrameAgeSec < d.ref.ageSec now then
      some ((w.handle d .stale).1, .handed d :: (w.handle d .stale).2)
    else some ({ w with phase := .loading d }, [.handed d])
  | _ => none

/-- `_load_frame` classifies what the store gave. -/
def loadOutcome : LoadReply → Option Outcome
  | .frame       => none
  | .missing     => some .permanent
  | .undecodable => some .permanent
  | .storeError  => some .transient
  | .raised      => some .unexpected

/-- The end of `process`: the frame is reported only under a won claim. -/
def claimOutcome (d : Delivery) (faces : List BoundingBox) : ClaimReply → Outcome
  | .won        => .result ⟨faces, d.ref.videoId, d.ref.frameId⟩
  | .failedOpen => .result ⟨faces, d.ref.videoId, d.ref.frameId⟩
  | .lost       => .duplicate
  | .raised     => .unexpected

/-- `add` has returned: the result is the batcher's, and the job's counter is next. -/
def added (w : Worker) (jobId : String) : Worker :=
  { w with processed := w.processed + 1, phase := .counting jobId }

/-- The handler goes on when the size flush it is waiting for has ended. -/
def afterFlush (w : Worker) : Worker :=
  match w.phase with
  | .flushing jobId => if w.batcher.locked then w else w.added jobId
  | _               => w

/-- The delivery in hand is settled and the handler waits for the next one. -/
def released (w : Worker) : Worker := { w with phase := .idle }

/-- The batch ack has ended the flush. -/
def batchAcked (w : Worker) (batch : List Pending) : Worker :=
  afterFlush { w with batcher := { w.batcher with
    flushing := none
    batchesFlushed := w.batcher.batchesFlushed + 1
    resultsFlushed := w.batcher.resultsFlushed + batch.length } }

/-- The oldest item of a failed batch is nacked and `batch` is left. -/
def itemNacked (w : Worker) (reason : Reason) (batch : List Pending) : Worker :=
  afterFlush { w with batcher := { w.batcher with
    flushing := if batch.isEmpty then none else some ⟨reason, batch, .nacking⟩ } }

def step (cfg : DetectorSettings) (w : Worker) : Op → Option (Worker × List Act)
  | .loaded r =>
    match w.phase with
    | .loading d =>
      match loadOutcome r with
      | some o => some (w.handle d o)
      | none   => some ({ w with phase := .detecting d }, [])
    | _ => none
  | .detected faces =>
    match w.phase with
    | .detecting d =>
      match faces with
      | some faces => some ({ w with phase := .claiming d faces }, [])
      | none       => some (w.handle d .unexpected)
    | _ => none
  | .claimed r =>
    match w.phase with
    | .claiming d faces =>
      let res := w.handle d (claimOutcome d faces r)
      some (res.1, .claim (dedupKey d.ref.jobId d.ref.frameId) cfg.dedupTtlSec r :: res.2)
    | _ => none
  | .settled =>
    match w.phase with
    | .settling d v => some (w.released, [.settle (v.call d.tag)])
    | _ => none
  | .add now =>
    match w.phase with
    | .adding d r =>
      match w.batcher.add cfg ⟨r, d⟩ now with
      | some (b, acts) =>
        some (afterFlush { w with batcher := b, phase := .flushing d.ref.jobId }, acts)
      | none => none
    | _ => none
  | .counted =>
    match w.phase with
    | .counting jobId => some ({ w with phase := .idle }, [.counted jobId])
    | _ => none
  | .batcher e =>
    match w.batcher.step cfg e with
    | some (b, acts) => some (afterFlush { w with batcher := b }, acts)
    | none => none

/-! ### What a step of the worker does -/

/-- The steps of a worker, with what each does to the delivery in hand and to the buffer. -/
inductive Rule (cfg : DetectorSettings) (w : Worker) : Op → Worker → List Act → Prop where
  /-- `process` goes on to its next suspension point. -/
  | proceed {op : Op} {p : Phase} (d : Delivery) (hw : w.phase.inProcess = some d)
      (hp : p.inProcess = some d) : Rule cfg w op { w with phase := p } []
  /-- `process` raises before it has asked the guard. -/
  | fail {op : Op} (d : Delivery) (o : Outcome) (hw : w.phase.inProcess = some d)
      (ho : o = .permanent ∨ o = .transient ∨ o = .unexpected) :
      Rule cfg w op (w.handle d o).1 (w.handle d o).2
  /-- The guard answers. -/
  | claimed (d : Delivery) (faces : List BoundingBox) (r : ClaimReply)
      (hw : w.phase = .claiming d faces) :
      Rule cfg w (.claimed r) (w.handle d (claimOutcome d faces r)).1
        [.claim (dedupKey d.ref.jobId d.ref.frameId) cfg.dedupTtlSec r,
          .outcome d (claimOutcome d faces r)]
  /-- The delivery in hand is settled on its own. -/
  | settled (d : Delivery) (v : Verdict) (hw : w.phase = .settling d v) :
      Rule cfg w .settled w.released [.settle (v.call d.tag)]
  /-- The result is buffered and the buffer is not full. -/
  | buffered (d : Delivery) (r : RespObject) (now : ℚ) (t : ℚ) (hw : w.phase = .adding d r)
      (hb : w.batcher.flushing = none) :
      Rule cfg w (.add now)
        (added { w with batcher := { w.batcher with
          oldestAt := t
          pending := w.batcher.pending ++ [⟨r, d⟩] } } d.ref.jobId) []
  /-- The result is buffered and fills the buffer, which goes to the sink. -/
  | filled (d : Delivery) (r : RespObject) (now : ℚ) (t : ℚ) (hw : w.phase = .adding d r)
      (hb : w.batcher.flushing = none) :
      Rule cfg w (.add now)
        { w with
          phase := .flushing d.ref.jobId
          batcher := { w.batcher with
            oldestAt := t
            pending := []
            flushing := some ⟨.size, w.batcher.pending ++ [⟨r, d⟩], .sinking⟩ } }
        [.sinkCalled (w.batcher.pending ++ [⟨r, d⟩])]
  /-- The watchdog or an explicit flush finds nothing to do. -/
  | nothing (e : Batcher.Event) (hb : w.batcher.flushing = none) :
      Rule cfg w (.batcher e) w.afterFlush []
  /-- The watchdog or an explicit flush takes the buffer to the sink. -/
  | flushed (e : Batcher.Event) (reason : Reason) (hb : w.batcher.flushing = none)
      (hp : w.batcher.pending ≠ []) :
      Rule cfg w (.batcher e)
        { w with batcher := { w.batcher with
          pending := []
          flushing := some ⟨reason, w.batcher.pending, .sinking⟩ } }
        [.sinkCalled w.batcher.pending]
  | sinkReturned (reason : Reason) (batch : List Pending)
      (hb : w.batcher.flushing = some ⟨reason, batch, .sinking⟩) :
      Rule cfg w (.batcher .sinkReturned)
        { w with batcher := { w.batcher with flushing := some ⟨reason, batch, .acking⟩ } }
        [.sinkReturned batch]
  | sinkRaised (reason : Reason) (batch : List Pending)
      (hb : w.batcher.flushing = some ⟨reason, batch, .sinking⟩) :
      Rule cfg w (.batcher .sinkRaised)
        { w with batcher := { w.batcher with flushing := some ⟨reason, batch, .nacking⟩ } }
        [.sinkRaised batch]
  /-- The whole batch is acked, which ends the flush. -/
  | batchAcked (reason : Reason) (batch : List Pending)
      (hb : w.batcher.flushing = some ⟨reason, batch, .acking⟩) :
      Rule cfg w (.batcher .settleNext) (w.batchAcked batch)
        [.settle (.ack (Batcher.maxTag batch) true)]
  /-- The next item of a failed batch is nacked, the last one ends the flush. -/
  | itemNacked (reason : Reason) (p : Pending) (batch : List Pending)
      (hb : w.batcher.flushing = some ⟨reason, p :: batch, .nacking⟩) :
      Rule cfg w (.batcher .settleNext) (w.itemNacked reason batch)
        [.settle (.nack p.delivery.tag true)]
  | counted (jobId : String) (hw : w.phase = .counting jobId) :
      Rule cfg w .counted { w with phase := .idle } [.counted jobId]

lemma afterFlush_of_locked {w : Worker} (h : w.batcher.flushing ≠ none) : w.afterFlush = w := by
  have hl : w.batcher.locked = true := by
    simpa [Batcher.locked, Option.isSome_iff_ne_none] using h
  unfold afterFlush
  split <;> simp [hl]

lemma afterFlush_flushing (w : Worker) (jobId : String) {b : Batcher} (hb : b.flushing = none) :
    afterFlush { w with batcher := b, phase := .flushing jobId } =
      added { w with batcher := b } jobId := by
  simp [afterFlush, added, Batcher.locked, hb]

/-- A step of the batcher on behalf of another task is one of the rules. -/
lemma Rule.of_batcher_step {cfg : DetectorSettings} {w : Worker} {e : Batcher.Event}
    {b : Batcher} {acts : List Act} (h : w.batcher.step cfg e = some (b, acts)) :
    Rule cfg w (.batcher e) (afterFlush { w with batcher := b }) acts := by
  cases Batcher.Rule.of_step h with
  | nothing _ hb => exact .nothing e hb
  | flushed reason _ hb hp =>
    rw [afterFlush_of_locked (Option.some_ne_none _)]
    exact .flushed e reason hb hp
  | sinkReturned reason batch hb =>
    rw [afterFlush_of_locked (Option.some_ne_none _)]
    exact .sinkReturned reason batch hb
  | sinkRaised reason batch hb =>
    rw [afterFlush_of_locked (Option.some_ne_none _)]
    exact .sinkRaised reason batch hb
  | batchAcked reason batch hb => exact .batchAcked reason batch hb
  | itemNacked reason p batch hb => exact .itemNacked reason p batch hb

/-- Every step of a worker is one of the rules. -/
theorem Rule.of_step {cfg : DetectorSettings} {w w' : Worker} {op : Op} {acts : List Act}
    (h : w.step cfg op = some (w', acts)) : Rule cfg w op w' acts := by
  cases op with
  | loaded r =>
    simp only [step] at h
    split at h
    · next d hw =>
      have hin : w.phase.inProcess = some d := by simp [hw, Phase.inProcess]
      cases r <;> simp only [loadOutcome] at h <;> cases h
      · exact .proceed d hin rfl
      · exact .fail d .permanent hin (by simp)
      · exact .fail d .permanent hin (by simp)
      · exact .fail d .transient hin (by simp)
      · exact .fail d .unexpected hin (by simp)
    · cases h
  | detected faces =>
    simp only [step] at h
    split at h
    · next d hw =>
      have hin : w.phase.inProcess = some d := by simp [hw, Phase.inProcess]
      cases faces <;> cases h
      · exact .fail d .unexpected hin (by simp)
      · exact .proceed d hin rfl
    · cases h
  | claimed r =>
    simp only [step] at h
    split at h
    · next d faces hw => cases h; exact .claimed d faces r hw
    · cases h
  | settled =>
    simp only [step] at h
    split at h
    · next d v hw => cases h; exact .settled d v hw
    · cases h
  | add now =>
    simp only [step] at h
    split at h
    · next d r hw =>
      split at h
      · next b acts' hadd =>
        cases h
        obtain ⟨hb, t, ⟨rfl, rfl⟩ | ⟨rfl, rfl⟩⟩ := Batcher.add_cases hadd
        · rw [afterFlush_flushing]
          · exact .buffered d r now t hw hb
          · exact hb
        · rw [afterFlush_of_locked (by simp)]
          exact .filled d r now t hw hb
      · cases h
    · cases h
  | counted =>
    simp only [step] at h
    split at h
    · next jobId hw => cases h; exact .counted jobId hw
    · cases h
  | batcher e =>
    simp only [step] at h
    split at h
    · next hb => cases h; exact Rule.of_batcher_step hb
    · cases h

/-- A handler that takes a delivery was idle, and starts on it or sheds it. -/
lemma take_cases {cfg : DetectorSettings} {w w' : Worker} {d : Delivery} {now : ℚ}
    {acts : List Act} (h : w.take cfg d now = some (w', acts)) :
    w.phase = .idle ∧
      ((w' = { w with phase := .loading d } ∧ acts = [.handed d]) ∨
        (0 < cfg.maxFrameAgeSec ∧ w' = (w.handle d .stale).1 ∧
          acts = [.handed d, .outcome d .stale])) := by
  unfold take at h
  split at h
  · next hw =>
    refine ⟨hw, ?_⟩
    split at h
    · next hage => cases h; exact .inr ⟨hage.1, rfl, rfl⟩
    · cases h; exact .inl ⟨rfl, rfl⟩
  · cases h

/-! ### The deliveries a worker has to settle -/

/-- The deliveries whose results are in the batcher. -/
def buffered (w : Worker) : List Delivery := w.batcher.buffered.map Pending.delivery

/-- The deliveries a worker has to settle, oldest first. -/
def held (w : Worker) : List Delivery := w.buffered ++ w.phase.current

/-- A flush in progress has something left to settle. -/
def WellFormed (w : Worker) : Prop := ∀ f, w.batcher.flushing = some f → f.batch ≠ []

/-- No settlement is among the acts. -/
def Quiet (acts : List Act) : Prop := ∀ s, Act.settle s ∉ acts

@[simp] lemma afterFlush_batcher (w : Worker) : w.afterFlush.batcher = w.batcher := by
  unfold afterFlush
  split
  · split <;> rfl
  · rfl

@[simp] lemma afterFlush_current (w : Worker) :
    w.afterFlush.phase.current = w.phase.current := by
  unfold afterFlush
  split
  · next hw =>
    split
    · rfl
    · simp [added, hw, Phase.current]
  · rfl

@[simp] lemma afterFlush_held (w : Worker) : w.afterFlush.held = w.held := by
  simp [held, buffered]

@[simp] lemma handle_batcher (w : Worker) (d : Delivery) (o : Outcome) :
    (w.handle d o).1.batcher = w.batcher := by
  cases o <;> first | rfl | (simp only [handle]; split <;> rfl)

@[simp] lemma handle_current (w : Worker) (d : Delivery) (o : Outcome) :
    (w.handle d o).1.phase.current = [d] := by
  cases o <;> first | rfl | (simp only [handle]; split <;> rfl)

@[simp] lemma handle_acts (w : Worker) (d : Delivery) (o : Outcome) :
    (w.handle d o).2 = [.outcome d o] := rfl

@[simp] lemma handle_held (w : Worker) (d : Delivery) (o : Outcome) :
    (w.handle d o).1.held = w.buffered ++ [d] := by
  simp only [held, buffered, handle_batcher, handle_current]

lemma idle_held {w : Worker} (hw : w.phase = .idle) : w.held = w.buffered := by
  simp [held, hw, Phase.current]

lemma current_of_inProcess {p : Phase} {d : Delivery} (h : p.inProcess = some d) :
    p.current = [d] := by
  cases p <;> simp_all [Phase.inProcess, Phase.current]

lemma buffered_of_none {w : Worker} (h : w.batcher.flushing = none) :
    w.buffered = w.batcher.pending.map Pending.delivery := by
  simp [buffered, Batcher.buffered, Batcher.inFlush_none h]

lemma buffered_of_some {w : Worker} {f : Flush} (h : w.batcher.flushing = some f) :
    w.buffered = f.batch.map Pending.delivery ++ w.batcher.pending.map Pending.delivery := by
  simp [buffered, Batcher.buffered, Batcher.inFlush_some h]

/-- Every step leaves the well-formedness of the flush in progress. -/
theorem Rule.wellFormed {cfg : DetectorSettings} {w w' : Worker} {op : Op} {acts : List Act}
    (h : Rule cfg w op w' acts) (hw : w.WellFormed) : w'.WellFormed := by
  cases h with
  | proceed | settled | counted | nothing | fail | claimed =>
    intro f hf
    exact hw f (by simpa [released] using hf)
  | buffered d r now t _ hb =>
    intro f hf
    exact hw f hf
  | filled =>
    rintro f ⟨⟩
    simp
  | flushed _ _ _ hp =>
    rintro f ⟨⟩
    exact hp
  | sinkReturned reason batch hb =>
    rintro f ⟨⟩
    exact hw ⟨reason, batch, .sinking⟩ hb
  | sinkRaised reason batch hb =>
    rintro f ⟨⟩
    exact hw ⟨reason, batch, .sinking⟩ hb
  | batchAcked =>
    intro f hf
    simp [Worker.batchAcked] at hf
  | itemNacked _ _ batch =>
    intro f hf
    cases batch with
    | nil => simp [Worker.itemNacked] at hf
    | cons q batch =>
      simp only [Worker.itemNacked, afterFlush_batcher, List.isEmpty_cons, Bool.false_eq_true,
        if_false, Option.some.injEq] at hf
      subst hf
      simp

lemma settling_held {w : Worker} {d : Delivery} {v : Verdict} (hw : w.phase = .settling d v) :
    w.held = w.buffered ++ [d] := by
  simp [held, hw, Phase.current]

@[simp] lemma released_held (w : Worker) : w.released.held = w.buffered := by
  simp [held, released, buffered, Phase.current]

lemma flushing_held {w : Worker} {f : Flush} (hb : w.batcher.flushing = some f) :
    w.held = f.batch.map Pending.delivery ++
      (w.batcher.pending.map Pending.delivery ++ w.phase.current) := by
  simp [held, buffered_of_some hb]

@[simp] lemma batchAcked_held (w : Worker) (batch : List Pending) :
    (w.batchAcked batch).held = w.batcher.pending.map Pending.delivery ++ w.phase.current := by
  simp [batchAcked, held, buffered_of_none]

@[simp] lemma itemNacked_held (w : Worker) (reason : Reason) (batch : List Pending) :
    (w.itemNacked reason batch).held = batch.map Pending.delivery ++
      (w.batcher.pending.map Pending.delivery ++ w.phase.current) := by
  cases batch <;> simp [itemNacked, held, buffered, Batcher.buffered]

/-- A step either settles nothing and leaves the held deliveries, or settles the delivery in
hand, the whole batch that was delivered, or the oldest item of a failed batch. -/
theorem Rule.quiet_or_settles {cfg : DetectorSettings} {w w' : Worker} {op : Op}
    {acts : List Act} (h : Rule cfg w op w' acts) :
    (w'.held = w.held ∧ Quiet acts) ∨
    (∃ d v, w.phase = .settling d v ∧ op = .settled ∧ w' = w.released ∧
      acts = [.settle (v.call d.tag)]) ∨
    (∃ reason batch, w.batcher.flushing = some ⟨reason, batch, .acking⟩ ∧
      op = .batcher .settleNext ∧ w' = w.batchAcked batch ∧
      acts = [.settle (.ack (Batcher.maxTag batch) true)]) ∨
    (∃ reason p batch, w.batcher.flushing = some ⟨reason, p :: batch, .nacking⟩ ∧
      op = .batcher .settleNext ∧ w' = w.itemNacked reason batch ∧
      acts = [.settle (.nack p.delivery.tag true)]) := by
  cases h with
  | settled d v hw => exact .inr (.inl ⟨d, v, hw, rfl, rfl, rfl⟩)
  | batchAcked reason batch hb => exact .inr (.inr (.inl ⟨reason, batch, hb, rfl, rfl, rfl⟩))
  | itemNacked reason p batch hb =>
    exact .inr (.inr (.inr ⟨reason, p, batch, hb, rfl, rfl, rfl⟩))
  | proceed d hw hp =>
    left
    simp [Worker.held, Worker.buffered, current_of_inProcess hw, current_of_inProcess hp, Quiet]
  | fail d o hw =>
    left
    simp [Worker.held, Worker.buffered, current_of_inProcess hw, Quiet]
  | claimed d faces r hw =>
    left
    have hc : w.phase.current = [d] := by rw [hw]; rfl
    simp [Worker.held, Worker.buffered, hc, Quiet]
  | buffered d r now t hw hb =>
    left
    simp [Worker.held, Worker.buffered, Batcher.buffered, added, hw, hb, Phase.current, Quiet]
  | filled d r now t hw hb =>
    left
    simp [Worker.held, Worker.buffered, Batcher.buffered, hw, hb, Phase.current, Quiet]
  | nothing e hb =>
    left
    simp [Quiet]
  | flushed e reason hb hp =>
    left
    simp [Worker.held, Worker.buffered, Batcher.buffered, hb, Quiet]
  | sinkReturned reason batch hb =>
    left
    simp [Worker.held, Worker.buffered, Batcher.buffered, hb, Quiet]
  | sinkRaised reason batch hb =>
    left
    simp [Worker.held, Worker.buffered, Batcher.buffered, hb, Quiet]
  | counted jobId hw =>
    left
    simp [Worker.held, Worker.buffered, hw, Phase.current, Quiet]

/-- Taking a delivery adds it to the held ones and settles nothing. -/
lemma take_effect {cfg : DetectorSettings} {w w' : Worker} {d : Delivery} {now : ℚ}
    {acts : List Act} (h : w.take cfg d now = some (w', acts)) :
    w'.held = w.held ++ [d] ∧ w'.batcher = w.batcher ∧ Quiet acts := by
  obtain ⟨hw, ⟨rfl, rfl⟩ | ⟨-, rfl, rfl⟩⟩ := take_cases h
  · rw [idle_held hw]
    exact ⟨rfl, rfl, by simp [Quiet]⟩
  · rw [idle_held hw, handle_held]
    exact ⟨rfl, handle_batcher w d .stale, by simp [Quiet]⟩

/-- In terms of the held deliveries: a step settles nothing, or one of them, or the batch of a
flush, which is at the front. -/
theorem Rule.effect {cfg : DetectorSettings} {w w' : Worker} {op : Op} {acts : List Act}
    (h : Rule cfg w op w' acts) :
    (w'.held = w.held ∧ Quiet acts) ∨
    (∃ pre d post, ∃ v : Verdict, w.held = pre ++ d :: post ∧ w'.held = pre ++ post ∧
      acts = [.settle (v.call d.tag)]) ∨
    (∃ reason batch post, w.batcher.flushing = some ⟨reason, batch, .acking⟩ ∧
      w.held = batch.map Pending.delivery ++ post ∧ w'.held = post ∧
      acts = [.settle (.ack (Batcher.maxTag batch) true)]) := by
  rcases h.quiet_or_settles with hq | ⟨d, v, hp, -, rfl, rfl⟩ | ⟨reason, batch, hb, -, rfl, rfl⟩ |
    ⟨reason, p, batch, hb, -, rfl, rfl⟩
  · exact .inl hq
  · refine .inr (.inl ⟨w.buffered, d, [], v, settling_held hp, ?_, rfl⟩)
    rw [released_held, List.append_nil]
  · exact .inr (.inr ⟨reason, batch, _, hb, flushing_held hb, batchAcked_held w batch, rfl⟩)
  · exact .inr (.inl ⟨[], p.delivery, _, .requeued, flushing_held hb,
      itemNacked_held w reason batch, rfl⟩)

end Worker

end VideoPipeline
