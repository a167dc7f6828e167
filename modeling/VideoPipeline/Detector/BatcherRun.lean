import VideoPipeline.Lib.Machine
import VideoPipeline.Detector.Batcher

/-!
# The life of a result batcher

`ResultBatcher` of `stream_detector/batching.py` with the tasks that use it: callers of `add` and of
`flush`, the age watchdog that `start` creates, and `stop`. A task that waits for the lock does
nothing until it gets it, so a call is one event, at the moment it gets the lock, and the tasks that
wait get the lock in any order.
-/

namespace VideoPipeline

open Amqp

namespace Batcher

/-- The task of a flush in progress is cancelled. A settlement that it was waiting for may have
taken effect nevertheless. -/
def interrupted (b : Batcher) (tookEffect : Bool) : Batcher × List Act :=
  ({ b with flushing := none },
    match tookEffect, b.flushing with
    | true, some ⟨_, batch, .acking⟩      => [.settle (.ack (maxTag batch) true)]
    | true, some ⟨_, p :: _, .nacking⟩    => [.settle (.nack p.delivery.tag true)]
    | _, _                                => [])

end Batcher

namespace BatcherRun

/-- The task of the age watchdog: not created yet, asleep or waiting for the lock, in a flush since
it read the clock, ended by an exception, or cancelled. -/
inductive Timer where
  | unstarted
  | sleeping
  | flushing (now : ℚ)
  | failed
  | stopped
  deriving DecidableEq, Repr

/-- Where `stop` is: not called, waiting for the lock after the watchdog's end, in its own flush,
returned, or left by an exception of its flush or of the watchdog. -/
inductive Stop where
  | notCalled
  | waiting
  | flushing
  | returned
  | flushRaised
  | timerRaised
  deriving DecidableEq, Repr

/-- What can be observed. -/
inductive Out where
  | added (p : Pending) (now : ℚ)
  | act (a : Act)
  deriving DecidableEq, Repr

inductive Event where
  | start
  | add (p : Pending) (now : ℚ)
  | flush
  | wake (now : ℚ)
  | sinkReturned
  | sinkRaised
  | settled
  | settleRaises
  | stop (tookEffect : Bool)
  | stopFlush
  deriving DecidableEq, Repr

end BatcherRun

structure BatcherRun where
  batcher : Batcher := {}
  timer : BatcherRun.Timer := .unstarted
  stop : BatcherRun.Stop := .notCalled
  /-- What the clock read last. -/
  clock : ℚ := 0
  /-- The clock time of the watchdog's wake-up, if the last step completed one. -/
  woken : Option ℚ := none
  /-- What was pending when `stop` was called. -/
  atStop : List Pending := []
  deriving DecidableEq, Repr

namespace BatcherRun

/-- The flush of a task is over, or it had nothing to do, and the task goes on. -/
def goOn (s : BatcherRun) : BatcherRun :=
  if s.batcher.locked then s
  else { s with
    timer := match s.timer with
      | .flushing _ => .sleeping
      | timer       => timer
    stop := if s.stop = .flushing then .returned else s.stop
    woken := match s.timer with
      | .flushing now => some now
      | _             => none }

/-- The settlement that a flush waits for raises, in the task that runs the flush. -/
def settleRaises (s : BatcherRun) : Option BatcherRun :=
  match s.batcher.flushing with
  | some f =>
    if f.stage = .sinking then none
    else
      some { s with
        batcher := { s.batcher with flushing := none }
        timer := match s.timer with
          | .flushing _ => .failed
          | timer       => timer
        stop := if s.stop = .flushing then .flushRaised else s.stop }
  | none => none

/-- `stop` up to its flush: the watchdog is cancelled and awaited. -/
def stopTimer (s : BatcherRun) (tookEffect : Bool) : BatcherRun × List Out :=
  match s.timer with
  | .failed     => ({ s with stop := .timerRaised }, [])
  | .unstarted  => ({ s with stop := .waiting }, [])
  | .flushing _ =>
    ({ s with
        batcher := (s.batcher.interrupted tookEffect).1
        timer := .stopped
        stop := .waiting },
      (s.batcher.interrupted tookEffect).2.map .act)
  | _           => ({ s with timer := .stopped, stop := .waiting }, [])

def next (cfg : DetectorSettings) (s : BatcherRun) : Event → Option (BatcherRun × List Out)
  | .start =>
    if s.timer = .unstarted ∧ s.stop = .notCalled then some ({ s with timer := .sleeping }, [])
    else none
  | .add p now =>
    (s.batcher.add cfg p now).map fun r =>
      ({ s with batcher := r.1, clock := now }, .added p now :: r.2.map .act)
  | .flush => s.batcher.flush.map fun r => ({ s with batcher := r.1 }, r.2.map .act)
  | .wake now =>
    if s.timer = .sleeping then
      (s.batcher.ageWatchdog cfg now).map fun r =>
        ({ s with batcher := r.1, timer := .flushing now, clock := now }.goOn, r.2.map .act)
    else none
  | .sinkReturned => s.batcher.sinkReturned.map fun r => ({ s with batcher := r.1 }, r.2.map .act)
  | .sinkRaised => s.batcher.sinkRaised.map fun r => ({ s with batcher := r.1 }, r.2.map .act)
  | .settled =>
    s.batcher.settleNext.map fun r => ({ s with batcher := r.1 }.goOn, r.2.map .act)
  | .settleRaises => s.settleRaises.map fun s' => (s', [])
  | .stop tookEffect =>
    if s.stop = .notCalled then
      some ({ s with atStop := s.batcher.pending }.stopTimer tookEffect)
    else none
  | .stopFlush =>
    if s.stop = .waiting then
      s.batcher.flush.map fun r =>
        ({ s with batcher := r.1, stop := .flushing }.goOn, r.2.map .act)
    else none

def step (cfg : DetectorSettings) (s : BatcherRun) (e : Event) : Option (BatcherRun × List Out) :=
  { s with woken := none }.next cfg e

/-- The tasks of a batcher, in any interleaving. -/
def machine (cfg : DetectorSettings) : Machine BatcherRun Event Out := ⟨step cfg⟩

/-! ### What a step does -/

/-- The watchdog is inside a flush. -/
def Timer.inFlush : Timer → Bool
  | .flushing _ => true
  | _           => false

variable {cfg : DetectorSettings} {s s' : BatcherRun} {e : Event} {h o : List Out}

/-- What each event does, with its guards. A settlement that raises ends the watchdog only if it is
the watchdog that runs the flush, and `stop` cancels the watchdog wherever it is. -/
inductive Rule (cfg : DetectorSettings) (s : BatcherRun) :
    Event → BatcherRun → List Out → Prop where
  | start (ht : s.timer = .unstarted) (hstop : s.stop = .notCalled) :
      Rule cfg s .start { s with timer := .sleeping, woken := none } []
  | add (p : Pending) (now : ℚ) {b' : Batcher} {acts : List Act}
      (hb : s.batcher.add cfg p now = some (b', acts)) :
      Rule cfg s (.add p now) { s with batcher := b', clock := now, woken := none }
        (.added p now :: acts.map .act)
  | flush {b' : Batcher} {acts : List Act} (hb : s.batcher.step cfg .flush = some (b', acts)) :
      Rule cfg s .flush { s with batcher := b', woken := none } (acts.map .act)
  | wake (now : ℚ) {b' : Batcher} {acts : List Act} (ht : s.timer = .sleeping)
      (hb : s.batcher.step cfg (.ageWatchdog now) = some (b', acts)) :
      Rule cfg s (.wake now)
        { s with batcher := b', timer := .flushing now, clock := now, woken := none }.goOn
        (acts.map .act)
  | sinkReturned {b' : Batcher} {acts : List Act}
      (hb : s.batcher.step cfg .sinkReturned = some (b', acts)) :
      Rule cfg s .sinkReturned { s with batcher := b', woken := none } (acts.map .act)
  | sinkRaised {b' : Batcher} {acts : List Act}
      (hb : s.batcher.step cfg .sinkRaised = some (b', acts)) :
      Rule cfg s .sinkRaised { s with batcher := b', woken := none } (acts.map .act)
  | settled {b' : Batcher} {acts : List Act}
      (hb : s.batcher.step cfg .settleNext = some (b', acts)) :
      Rule cfg s .settled { s with batcher := b', woken := none }.goOn (acts.map .act)
  | settleRaises (timer : Timer)
      (ht : timer = if s.timer.inFlush then .failed else s.timer) :
      Rule cfg s .settleRaises
        { s with
          batcher := { s.batcher with flushing := none }
          timer := timer
          stop := if s.stop = .flushing then .flushRaised else s.stop
          woken := none } []
  | stopFailed (tookEffect : Bool) (hstop : s.stop = .notCalled) (ht : s.timer = .failed) :
      Rule cfg s (.stop tookEffect)
        { s with atStop := s.batcher.pending, stop := .timerRaised, woken := none } []
  | stopIdle (tookEffect : Bool) (timer : Timer) (hstop : s.stop = .notCalled)
      (ht : timer = if s.timer = .unstarted then .unstarted else .stopped)
      (hout : s.timer.inFlush = false) :
      Rule cfg s (.stop tookEffect)
        { s with
          atStop := s.batcher.pending
          timer := timer
          stop := .waiting
          woken := none } []
  | stopCancels (tookEffect : Bool) (hstop : s.stop = .notCalled)
      (hin : s.timer.inFlush = true) :
      Rule cfg s (.stop tookEffect)
        { s with
          atStop := s.batcher.pending
          batcher := (s.batcher.interrupted tookEffect).1
          timer := .stopped
          stop := .waiting
          woken := none }
        ((s.batcher.interrupted tookEffect).2.map .act)
  | stopFlush {b' : Batcher} {acts : List Act} (hstop : s.stop = .waiting)
      (hb : s.batcher.step cfg .flush = some (b', acts)) :
      Rule cfg s .stopFlush { s with batcher := b', stop := .flushing, woken := none }.goOn
        (acts.map .act)

/-- Every step is one of the rules. -/
theorem Rule.of_step (hs : BatcherRun.step cfg s e = some (s', o)) : Rule cfg s e s' o := by
  rw [BatcherRun.step] at hs
  cases e with
  | start =>
    simp only [next] at hs
    split at hs
    · next hg =>
      cases hs
      exact .start hg.1 hg.2
    · cases hs
  | add p now =>
    simp only [next, Option.map_eq_some_iff, Prod.mk.injEq] at hs
    obtain ⟨⟨b', acts⟩, hb, rfl, rfl⟩ := hs
    exact .add p now hb
  | flush =>
    simp only [next, Option.map_eq_some_iff, Prod.mk.injEq] at hs
    obtain ⟨⟨b', acts⟩, hb, rfl, rfl⟩ := hs
    exact .flush hb
  | wake now =>
    simp only [next] at hs
    split at hs
    · next ht =>
      simp only [Option.map_eq_some_iff, Prod.mk.injEq] at hs
      obtain ⟨⟨b', acts⟩, hb, rfl, rfl⟩ := hs
      exact .wake now ht hb
    · cases hs
  | sinkReturned =>
    simp only [next, Option.map_eq_some_iff, Prod.mk.injEq] at hs
    obtain ⟨⟨b', acts⟩, hb, rfl, rfl⟩ := hs
    exact .sinkReturned hb
  | sinkRaised =>
    simp only [next, Option.map_eq_some_iff, Prod.mk.injEq] at hs
    obtain ⟨⟨b', acts⟩, hb, rfl, rfl⟩ := hs
    exact .sinkRaised hb
  | settled =>
    simp only [next, Option.map_eq_some_iff, Prod.mk.injEq] at hs
    obtain ⟨⟨b', acts⟩, hb, rfl, rfl⟩ := hs
    exact .settled hb
  | settleRaises =>
    simp only [next, Option.map_eq_some_iff, Prod.mk.injEq] at hs
    obtain ⟨s₁, hraises, rfl, rfl⟩ := hs
    rw [BatcherRun.settleRaises] at hraises
    split at hraises
    · split at hraises
      · cases hraises
      · cases hraises
        exact .settleRaises _ (by cases s.timer <;> rfl)
    · cases hraises
  | stop tookEffect =>
    simp only [next] at hs
    split at hs
    · next hstop =>
      simp only [stopTimer, Option.some.injEq] at hs
      split at hs
      · next ht =>
        cases hs
        exact .stopFailed tookEffect hstop ht
      · next ht =>
        cases hs
        have ht : s.timer = .unstarted := ht
        exact .stopIdle tookEffect _ hstop (by rw [if_pos ht, ht]) (by rw [ht]; rfl)
      · next ht =>
        cases hs
        have ht : s.timer = .flushing _ := ht
        exact .stopCancels tookEffect hstop (by rw [ht]; rfl)
      · next hne hun hfl =>
        cases hs
        have hfl : ∀ now, s.timer ≠ .flushing now := hfl
        apply Rule.stopIdle tookEffect _ hstop
        · rw [if_neg hun]
        · cases ht : s.timer with
          | flushing now => exact absurd ht (hfl now)
          | _ => rfl
    · cases hs
  | stopFlush =>
    simp only [next] at hs
    split at hs
    · next hstop =>
      simp only [Option.map_eq_some_iff, Prod.mk.injEq] at hs
      obtain ⟨⟨b', acts⟩, hb, rfl, rfl⟩ := hs
      exact .stopFlush hstop hb
    · cases hs

/-! ### What a history tells -/

/-- A flush as it is observed: the list that was passed to the sink, whether the call has raised,
and the settlements. -/
structure FlushRecord where
  batch : List Pending
  raised : Option Bool := none
  settles : List Settle := []
  deriving DecidableEq, Repr

/-- What is observed belongs to the last flush that began. -/
def record (fs : List FlushRecord) : Out → List FlushRecord
  | .act (.sinkCalled batch) => { batch } :: fs
  | .act (.sinkReturned _)   => fs.modifyHead fun f => { f with raised := some false }
  | .act (.sinkRaised _)     => fs.modifyHead fun f => { f with raised := some true }
  | .act (.settle c)         => fs.modifyHead fun f => { f with settles := f.settles ++ [c] }
  | _                        => fs

/-- The flushes of a history, the last one first. -/
def flushes (h : List Out) : List FlushRecord := h.foldl record []

def Out.added? : Out → Option (Pending × ℚ)
  | .added p now => some (p, now)
  | .act _       => none

def Out.sunk? : Out → Option (List Pending)
  | .act (.sinkCalled batch) => some batch
  | _                        => none

/-- The sink call of a flush ends. -/
def Out.isSinkEnd : Out → Bool
  | .act (.sinkReturned _) | .act (.sinkRaised _) => true
  | _ => false

/-- What was added, in the order in which the calls got the lock, with the times. -/
def added (h : List Out) : List (Pending × ℚ) := h.filterMap Out.added?

/-- The lists that were passed to the sink, in order. -/
def sunk (h : List Out) : List (List Pending) := h.filterMap Out.sunk?

/-- What was added and not passed to the sink, with the times. -/
def waiting (h : List Out) : List (Pending × ℚ) := (added h).drop (sunk h).flatten.length

/-- A flush that has settled its deliveries as its sink call ended. -/
def FlushRecord.Settled (f : FlushRecord) : Prop :=
  (f.raised = some false ∧ f.settles = [.ack (Batcher.maxTag f.batch) true]) ∨
    (f.raised = some true ∧ f.settles = f.batch.map fun p => .nack p.delivery.tag true)

@[simp] lemma added_append (h o : List Out) : added (h ++ o) = added h ++ added o :=
  List.filterMap_append

@[simp] lemma sunk_append (h o : List Out) : sunk (h ++ o) = sunk h ++ sunk o :=
  List.filterMap_append

lemma flushes_append (h o : List Out) : flushes (h ++ o) = o.foldl record (flushes h) :=
  List.foldl_append

/-! ### What a step does to the batcher -/

/-- What a step does to the batcher, and what is observed of it, as long as no flush is left before
its end. -/
inductive Effect (cfg : DetectorSettings) (b : Batcher) : Batcher → List Out → Prop where
  | nothing : Effect cfg b b []
  | added (p : Pending) (now t : ℚ) (hb : b.flushing = none)
      (hlt : b.pending.length + 1 < cfg.batchMaxSize) :
      Effect cfg b { b with oldestAt := t, pending := b.pending ++ [p] } [.added p now]
  | filled (p : Pending) (now t : ℚ) (hb : b.flushing = none)
      (hle : cfg.batchMaxSize ≤ b.pending.length + 1) :
      Effect cfg b
        { b with
          oldestAt := t
          pending := []
          flushing := some ⟨.size, b.pending ++ [p], .sinking⟩ }
        [.added p now, .act (.sinkCalled (b.pending ++ [p]))]
  | ruled {e : Batcher.Event} {b' : Batcher} {acts : List Act} (h : Batcher.Rule b e b' acts) :
      Effect cfg b b' (acts.map .act)

/-- The flush in progress is left before its end, after a last settlement perhaps. -/
def Left (b b' : Batcher) (o : List Out) : Prop :=
  b' = { b with flushing := none } ∧ ∃ cs : List Settle, o = cs.map fun c => .act (.settle c)

/-- The event makes the task that runs a flush leave it. -/
def leaves (s : BatcherRun) : Event → Bool
  | .settleRaises => true
  | .stop _       => s.timer.inFlush
  | _             => false

@[simp] lemma goOn_batcher (s : BatcherRun) : s.goOn.batcher = s.batcher := by
  rw [goOn]
  split <;> rfl

lemma left_interrupted (b : Batcher) (tookEffect : Bool) :
    Left b (b.interrupted tookEffect).1 ((b.interrupted tookEffect).2.map .act) := by
  refine ⟨rfl, ?_⟩
  unfold Batcher.interrupted
  dsimp only
  split
  · exact ⟨[_], rfl⟩
  · exact ⟨[_], rfl⟩
  · exact ⟨[], rfl⟩

/-- Every step has an effect, or a task leaves its flush. -/
theorem effect_of_step (hs : step cfg s e = some (s', o)) :
    Effect cfg s.batcher s'.batcher o ∨ (s.leaves e = true ∧ Left s.batcher s'.batcher o) := by
  cases Rule.of_step hs with
  | start _ _ | stopFailed _ _ _ | stopIdle _ _ _ _ _ => exact .inl .nothing
  | add p now hadd =>
    obtain ⟨hb, ⟨hlt, rfl, rfl⟩ | ⟨hle, rfl, rfl⟩⟩ := Batcher.add_spec hadd
    · exact .inl (.added p now _ hb hlt)
    · exact .inl (.filled p now _ hb hle)
  | flush hb | sinkReturned hb | sinkRaised hb => exact .inl (.ruled (.of_step hb))
  | wake _ _ hb | settled hb | stopFlush _ hb =>
    rw [goOn_batcher]
    exact .inl (.ruled (.of_step hb))
  | settleRaises _ _ => exact .inr ⟨rfl, rfl, [], rfl⟩
  | stopCancels tookEffect _ hin => exact .inr ⟨hin, left_interrupted _ _⟩

/-! ### What is added is passed to the sink, in order -/

/-- What was added is what was passed to the sink and what is pending, and the lists that were
passed have the sizes that they may have. -/
structure Kept (cfg : DetectorSettings) (b : Batcher) (h : List Out) : Prop where
  added_eq : (added h).map Prod.fst = (sunk h).flatten ++ b.pending
  lt_max : b.pending.length < cfg.batchMaxSize
  sizes : ∀ batch ∈ sunk h, 1 ≤ batch.length ∧ batch.length ≤ cfg.batchMaxSize

variable {b b' : Batcher}

lemma Kept.quiet (hk : Kept cfg b h) (hp : b'.pending = b.pending) (ha : added o = [])
    (hn : sunk o = []) : Kept cfg b' (h ++ o) := by
  refine ⟨?_, hp ▸ hk.lt_max, ?_⟩
  · rw [added_append, sunk_append, ha, hn, hp, List.append_nil, List.append_nil, hk.added_eq]
  · rw [sunk_append, hn, List.append_nil]
    exact hk.sizes

/-- The buffer goes to the sink, after what joins it. -/
lemma Kept.swap (hk : Kept cfg b h) (hp : b'.pending = [])
    (ha : b.pending ++ (added o).map Prod.fst = (sunk o).flatten)
    (hs : ∀ batch ∈ sunk o, 1 ≤ batch.length ∧ batch.length ≤ cfg.batchMaxSize) :
    Kept cfg b' (h ++ o) := by
  refine ⟨?_, ?_, ?_⟩
  · rw [added_append, sunk_append, List.map_append, hk.added_eq, hp, List.append_nil,
      List.flatten_append, ← ha, List.append_assoc]
  · rw [hp]
    exact cfg.maxSize_pos
  · intro batch hb
    rw [sunk_append, List.mem_append] at hb
    exact hb.elim (hk.sizes batch) (hs batch)

lemma Kept.effect (hk : Kept cfg b h) (he : Effect cfg b b' o) : Kept cfg b' (h ++ o) := by
  cases he with
  | nothing => exact hk.quiet rfl rfl rfl
  | added p now t hb hlt =>
    refine ⟨?_, ?_, ?_⟩
    · rw [added_append, sunk_append, List.map_append, hk.added_eq, List.append_assoc]
      simp [BatcherRun.added, sunk, Out.added?, Out.sunk?]
    · simpa using hlt
    · simpa [sunk, Out.sunk?] using hk.sizes
  | filled p now t hb hle =>
    have hlt := hk.lt_max
    apply hk.swap rfl
    · show b.pending ++ [p] = [b.pending ++ [p]].flatten
      rw [List.flatten_singleton]
    · intro batch hbatch
      rw [List.mem_singleton.mp hbatch, List.length_append, List.length_singleton]
      exact ⟨Nat.le_add_left 1 _, hlt⟩
  | ruled hr =>
    cases hr with
    | nothing _ hb => exact hk.quiet rfl rfl rfl
    | flushed reason _ hb hp =>
      apply hk.swap rfl
      · show b.pending ++ [] = [b.pending].flatten
        rw [List.append_nil, List.flatten_singleton]
      · intro batch hbatch
        rw [List.mem_singleton.mp hbatch]
        exact ⟨List.length_pos_of_ne_nil hp, hk.lt_max.le⟩
    | sinkReturned reason batch hb => exact hk.quiet rfl rfl rfl
    | sinkRaised reason batch hb => exact hk.quiet rfl rfl rfl
    | batchAcked reason batch hb => exact hk.quiet rfl rfl rfl
    | itemNacked reason p batch hb => exact hk.quiet rfl rfl rfl

/-- Whoever leaves a flush neither adds nor calls the sink. -/
lemma Left.quiet (hl : Left b b' o) : added o = [] ∧ sunk o = [] := by
  obtain ⟨-, cs, rfl⟩ := hl
  constructor
  · simp [added, Out.added?, Function.comp_def]
  · simp [sunk, Out.sunk?, Function.comp_def]

lemma Kept.left (hk : Kept cfg b h) (hl : Left b b' o) : Kept cfg b' (h ++ o) := by
  obtain ⟨ha, hn⟩ := hl.quiet
  obtain ⟨rfl, -⟩ := hl
  exact Kept.quiet hk rfl ha hn

/-- Nothing is lost, doubled or reordered on the way to the sink, in any run. -/
theorem kept_of_reach {ok : BatcherRun → List Out → Event → Prop} {c : ℚ}
    (hr : (machine cfg).Reach ok { clock := c } s h) : Kept cfg s.batcher h := by
  apply hr.invariant (P := fun s h => Kept cfg s.batcher h)
  · exact ⟨rfl, cfg.maxSize_pos, List.forall_mem_nil _⟩
  · intro s h e s' o _ hk _ hs
    rcases effect_of_step hs with he | ⟨-, hl⟩
    · exact hk.effect he
    · exact hk.left hl

/-! ### Every flush settles its deliveries -/

/-- What is recorded of the flush in progress. -/
def InProgress : Option Flush → List FlushRecord → Prop
  | none, fs                      => fs = []
  | some ⟨_, batch, .sinking⟩, fs => fs = [{ batch := batch }]
  | some ⟨_, batch, .acking⟩, fs  => fs = [{ batch := batch, raised := some false }]
  | some ⟨_, batch, .nacking⟩, fs =>
    ∃ done, fs = [⟨done ++ batch, some true, done.map fun p => .nack p.delivery.tag true⟩]

/-- The sink call of a flush has returned. -/
def FlushRecord.succeeded (f : FlushRecord) : Bool := f.raised = some false

/-- The flushes that are over are settled and counted. -/
structure Recorded (b : Batcher) (current past : List FlushRecord) : Prop where
  inProgress : InProgress b.flushing current
  settled : ∀ f ∈ past, f.Settled
  batches : b.batchesFlushed = past.countP FlushRecord.succeeded
  results :
    b.resultsFlushed = ((past.filter FlushRecord.succeeded).map fun f => f.batch.length).sum

lemma Recorded.begin {current past : List FlushRecord} (hc : Recorded b current past)
    (hb : b.flushing = none) (reason : Reason) (batch : List Pending) (pending : List Pending)
    (t : ℚ) :
    flushes h = current ++ past →
      Recorded { b with
        oldestAt := t
        pending := pending
        flushing := some ⟨reason, batch, .sinking⟩ } [{ batch := batch }] past ∧
      ({ batch := batch } : FlushRecord) :: flushes h = [{ batch := batch }] ++ past := by
  intro heq
  have hnil : current = [] := by
    have hp := hc.inProgress
    rw [hb] at hp
    exact hp
  rw [heq, hnil]
  exact ⟨⟨rfl, hc.settled, hc.batches, hc.results⟩, rfl⟩

lemma recorded_effect {current past : List FlushRecord} (hc : Recorded b current past)
    (hf : flushes h = current ++ past) (he : Effect cfg b b' o) :
    ∃ current' past', Recorded b' current' past' ∧ flushes (h ++ o) = current' ++ past' := by
  rw [flushes_append]
  cases he with
  | nothing => exact ⟨current, past, hc, hf⟩
  | added p now t hb hlt =>
    exact ⟨current, past, ⟨hc.inProgress, hc.settled, hc.batches, hc.results⟩, hf⟩
  | filled p now t hb hle => exact ⟨_, past, hc.begin hb _ _ _ _ hf⟩
  | ruled hr =>
    have hp := hc.inProgress
    cases hr with
    | nothing _ hb => exact ⟨current, past, hc, hf⟩
    | flushed reason _ hb _ => exact ⟨_, past, hc.begin hb _ _ _ _ hf⟩
    | sinkReturned reason batch hb =>
      rw [hb] at hp
      rw [hf, hp]
      exact ⟨_, past, ⟨rfl, hc.settled, hc.batches, hc.results⟩, rfl⟩
    | sinkRaised reason batch hb =>
      rw [hb] at hp
      rw [hf, hp]
      exact ⟨_, past, ⟨⟨[], rfl⟩, hc.settled, hc.batches, hc.results⟩, rfl⟩
    | batchAcked reason batch hb =>
      rw [hb] at hp
      rw [hf, hp]
      refine ⟨[], ⟨batch, some false, [.ack (Batcher.maxTag batch) true]⟩ :: past,
        ⟨rfl, ?_, ?_, ?_⟩, rfl⟩
      · exact List.forall_mem_cons.mpr ⟨.inl ⟨rfl, rfl⟩, hc.settled⟩
      · rw [List.countP_cons_of_pos rfl, hc.batches]
      · show b.resultsFlushed + batch.length = _
        rw [List.filter_cons_of_pos rfl, List.map_cons, List.sum_cons, hc.results, Nat.add_comm]
    | itemNacked reason p batch hb =>
      rw [hb] at hp
      obtain ⟨done, rfl⟩ := hp
      rw [hf]
      have hnacks : (done ++ [p]).map (fun p => Settle.nack p.delivery.tag true) =
          done.map (fun p => .nack p.delivery.tag true) ++ [.nack p.delivery.tag true] := by
        rw [List.map_append, List.map_singleton]
      cases batch with
      | nil =>
        -- the last nack ends the flush, which did not succeed and is not counted
        refine ⟨[], ⟨done ++ [p], some true, _⟩ :: past, ⟨rfl, ?_, ?_, ?_⟩, rfl⟩
        · exact List.forall_mem_cons.mpr ⟨.inr ⟨rfl, hnacks.symm⟩, hc.settled⟩
        · rw [List.countP_cons_of_neg Bool.false_ne_true]
          exact hc.batches
        · rw [List.filter_cons_of_neg Bool.false_ne_true]
          exact hc.results
      | cons q batch =>
        refine ⟨_, past, ⟨⟨done ++ [p], rfl⟩, hc.settled, hc.batches, hc.results⟩, ?_⟩
        rw [hnacks, List.append_assoc]
        rfl

/-- As long as no task leaves its flush, the flushes that are over are settled and counted. -/
theorem recorded_of_reach {ok : BatcherRun → List Out → Event → Prop} {c : ℚ}
    (hok : ∀ s h e, ok s h e → s.leaves e = false)
    (hr : (machine cfg).Reach ok { clock := c } s h) :
    ∃ current past, Recorded s.batcher current past ∧ flushes h = current ++ past := by
  apply hr.invariant (P := fun s h =>
    ∃ current past, Recorded s.batcher current past ∧ flushes h = current ++ past)
  · exact ⟨[], [], ⟨rfl, List.forall_mem_nil _, rfl, rfl⟩, rfl⟩
  · rintro s h e s' o _ ⟨current, past, hc, hf⟩ ho hs
    rcases effect_of_step hs with he | ⟨hl, -⟩
    · exact recorded_effect hc hf he
    · rw [hok _ _ _ ho] at hl
      cases hl

/-! ### Sink calls do not overlap -/

/-- A sink call is made after every earlier one has ended. -/
def AfterSinkEnds (h : List Out) (x : Out) : Prop :=
  x.sunk?.isSome → (sunk h).length = h.countP Out.isSinkEnd

/-- The sink calls in progress: none or that of the flush. -/
def inSink (b : Batcher) : ℕ :=
  match b.flushing with
  | some ⟨_, _, .sinking⟩ => 1
  | _                     => 0

/-- The sink calls that have ended are all but the one in progress. -/
structure Sequential (b : Batcher) (h : List Out) : Prop where
  ended : (sunk h).length = h.countP Out.isSinkEnd + inSink b
  caused : Machine.Caused AfterSinkEnds h

lemma inSink_none (hb : b.flushing = none) : inSink b = 0 := by
  rw [inSink, hb]

/-- What is not about the sink changes nothing. -/
lemma Sequential.quiet (hq : Sequential b h) (hb : inSink b' = inSink b) {x : Out}
    (hx : x.sunk? = none) (hend : x.isSinkEnd = false) : Sequential b' (h ++ [x]) := by
  have hsunk : sunk [x] = [] := List.filterMap_cons_none hx
  have hends : [x].countP Out.isSinkEnd = 0 := by
    rw [List.countP_singleton, hend, if_neg Bool.false_ne_true]
  constructor
  · rw [sunk_append, hsunk, List.append_nil, List.countP_append, hends, Nat.add_zero, hb, hq.ended]
  · apply hq.caused.append_of
    intro o₁ y o₂ heq hy
    have hmem : y ∈ [x] := by
      rw [heq]
      simp
    rw [List.mem_singleton.mp hmem, hx] at hy
    cases hy

/-- With the lock free, the sink is called. -/
lemma Sequential.call (hq : Sequential b h) (hb : b.flushing = none) (hb' : inSink b' = 1)
    (batch : List Pending) : Sequential b' (h ++ [.act (.sinkCalled batch)]) := by
  have hended := hq.ended
  rw [inSink_none hb, Nat.add_zero] at hended
  constructor
  · rw [sunk_append, List.length_append, hended, List.countP_append, hb']
    rfl
  · apply hq.caused.append_of
    intro o₁ x o₂ heq _
    have hnil : o₁ = [] := by
      cases o₁ with
      | nil => rfl
      | cons y o₁ => simp at heq
    rw [hnil, List.append_nil]
    exact hended

/-- The call in progress ends. -/
lemma Sequential.end (hq : Sequential b h) (hb : inSink b = 1) (hb' : inSink b' = 0) {x : Out}
    (hx : x.sunk? = none) (hend : x.isSinkEnd = true) : Sequential b' (h ++ [x]) := by
  constructor
  · have hsunk : sunk [x] = [] := List.filterMap_cons_none hx
    rw [sunk_append, hsunk, List.append_nil, List.countP_append, List.countP_singleton, if_pos hend,
      hb', hq.ended, hb]
  · apply hq.caused.append_of
    intro o₁ y o₂ heq hy
    have hmem : y ∈ [x] := by
      rw [heq]
      simp
    rw [List.mem_singleton.mp hmem, hx] at hy
    cases hy

lemma Sequential.effect (hq : Sequential b h) (he : Effect cfg b b' o) :
    Sequential b' (h ++ o) := by
  cases he with
  | nothing =>
    rw [List.append_nil]
    exact hq
  | added p now t hb hlt =>
    apply hq.quiet <;> rfl
  | filled p now t hb hle =>
    have hadded : Sequential b (h ++ [.added p now]) := by
      apply hq.quiet <;> rfl
    rw [List.append_cons h]
    apply Sequential.call hadded hb
    rfl
  | ruled hr =>
    cases hr with
    | nothing _ hb =>
      rw [List.map_nil, List.append_nil]
      exact hq
    | flushed reason _ hb hp => exact hq.call hb rfl _
    | sinkReturned reason batch hb => exact hq.end (by rw [inSink, hb]) rfl rfl rfl
    | sinkRaised reason batch hb => exact hq.end (by rw [inSink, hb]) rfl rfl rfl
    | batchAcked reason batch hb =>
      apply hq.quiet _ rfl rfl
      rw [inSink, inSink, hb]
    | itemNacked reason p batch hb =>
      apply hq.quiet _ rfl rfl
      rw [inSink, inSink, hb]
      cases batch <;> rfl

lemma sequential_of_reach {ok : BatcherRun → List Out → Event → Prop} {c : ℚ}
    (hok : ∀ s h e, ok s h e → s.leaves e = false)
    (hr : (machine cfg).Reach ok { clock := c } s h) :
    Sequential s.batcher h := by
  apply hr.invariant (P := fun s h => Sequential s.batcher h)
  · exact ⟨rfl, .nil⟩
  · intro s h e s' o _ hq ho hs
    rcases effect_of_step hs with he | ⟨hl, -⟩
    · exact hq.effect he
    · rw [hok _ _ _ ho] at hl
      cases hl

/-! ### The batcher as a whole -/

/-- A settlement raises, or a task is cancelled. -/
def Event.isDisturbance : Event → Bool
  | .settleRaises | .stop _ => true
  | _ => false

/-- Settlements succeed and no task is cancelled. -/
def Undisturbed (_ : BatcherRun) (_ : List Out) (e : Event) : Prop := e.isDisturbance = false

instance (s : BatcherRun) (h : List Out) (e : Event) : Decidable (Undisturbed s h e) :=
  inferInstanceAs (Decidable (e.isDisturbance = false))

lemma Undisturbed.leaves_eq (ho : Undisturbed s h e) : s.leaves e = false := by
  cases e <;> first | rfl | cases ho

/-- In every run with settlements that succeed and without cancellation, results are neither lost
nor doubled nor reordered on their way to the sink, sink calls have the right sizes and do not
overlap, a failed flush nacks each of its deliveries and nothing else, and the counters count what
succeeded. -/
theorem batcher_keeps_results {c : ℚ} (hr : (machine cfg).Reach Undisturbed { clock := c } s h)
    (hfree : s.batcher.locked = false) :
    (added h).map Prod.fst = (sunk h).flatten ++ s.batcher.pending ∧
    (∀ batch ∈ sunk h, 1 ≤ batch.length ∧ batch.length ≤ cfg.batchMaxSize) ∧
    Machine.Caused AfterSinkEnds h ∧
    (∀ f ∈ flushes h, f.raised = some true →
      f.settles = f.batch.map fun p => .nack p.delivery.tag true) ∧
    s.batcher.batchesFlushed = (flushes h).countP FlushRecord.succeeded ∧
    s.batcher.resultsFlushed =
      (((flushes h).filter FlushRecord.succeeded).map fun f => f.batch.length).sum := by
  have hkept := kept_of_reach hr
  have hseq := sequential_of_reach (fun _ _ _ => Undisturbed.leaves_eq) hr
  obtain ⟨current, past, hrec, hf⟩ := recorded_of_reach (fun _ _ _ => Undisturbed.leaves_eq) hr
  have hnil := hrec.inProgress
  rw [Batcher.locked_eq_false.mp hfree] at hnil
  have hnil : current = [] := hnil
  rw [hf, hnil, List.nil_append]
  refine ⟨hkept.added_eq, hkept.sizes, hseq.caused, ?_, hrec.batches, hrec.results⟩
  intro f hf hraised
  rcases hrec.settled f hf with ⟨hret, -⟩ | ⟨-, hnacks⟩
  · rw [hraised] at hret
    cases hret
  · exact hnacks

/-- An item with its delivery, under a tag. -/
def item (tag : ℕ) : Pending :=
  ⟨⟨[], "video", tag⟩, ⟨⟨"job", "video", tag, 0, 0, "blob"⟩, tag, false⟩⟩

/-- Two items fill the buffer and their sink call raises. A third one grows old, and its sink call
returns. -/
theorem batcher_keeps_results_two_flushes :
    ∃ cfg s h, (machine cfg).Reach Undisturbed {} s h ∧ s.batcher.locked = false ∧
      (added h).length = 3 ∧ (added h).map Prod.fst = (sunk h).flatten ++ s.batcher.pending ∧
      (∀ f ∈ flushes h, f.raised = some true →
        f.settles = f.batch.map fun p => .nack p.delivery.tag true) ∧
      s.batcher.batchesFlushed = (flushes h).countP FlushRecord.succeeded := by
  have hrun : ∃ s h, (machine { batchMaxSize := 2 }).Reach Undisturbed {} s h ∧
      s.batcher.locked = false ∧ (added h).length = 3 :=
    Machine.Reach.exists_of_exec [.start, .add (item 1) 0, .add (item 2) 0, .sinkRaised, .settled,
      .settled, .add (item 3) 1, .wake 2, .sinkReturned, .settled] (by decide +kernel)
  obtain ⟨s, h, hr, hfree, hlen⟩ := hrun
  obtain ⟨hadded, -, -, hnacks, hbatches, -⟩ := batcher_keeps_results hr hfree
  exact ⟨_, s, h, hr, hfree, hlen, hadded, hnacks, hbatches⟩

end BatcherRun

end VideoPipeline
