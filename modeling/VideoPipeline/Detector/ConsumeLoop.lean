import VideoPipeline.Detector.Replica

/-!
# The consume loop and the exceptions of its collaborators

`DetectorWorker.run` over the deliveries its consumer yields. The handler settles a delivery or
gives it to the batcher whatever the frame store, the detector, the guard and the sink raise. The
progress update is awaited outside its `try`: an exception of `increment_processed` leaves `_handle`
and ends the loop.
-/

namespace VideoPipeline

open Amqp

/-! ## What is left to do for the results of a worker -/

/-- What is left to do in a flush: the sink call ends and the results are settled. -/
def Flush.load (f : Flush) : ℕ :=
  match f.stage with
  | .sinking => 2 * f.batch.length
  | _ => f.batch.length

lemma Flush.load_sinking (reason : Reason) (batch : List Pending) :
    Flush.load ⟨reason, batch, .sinking⟩ = 2 * batch.length := rfl

/-- What is left to do with the results in the batcher, each of which has still to be flushed. -/
def Batcher.load (b : Batcher) : ℕ :=
  3 * b.pending.length + (b.flushing.map Flush.load).getD 0

/-- What is left to do in a phase. -/
def Worker.Phase.load : Worker.Phase → ℕ
  | .idle => 0
  | .loading _ => 9
  | .detecting _ => 8
  | .claiming _ _ => 7
  | .adding _ _ => 6
  | .flushing _ => 2
  | .settling _ _ | .counting _ => 1

def Worker.load (w : Worker) : ℕ := w.phase.load + w.batcher.load

def Worker.Op.isTick : Worker.Op → Bool
  | .batcher e => e.isTick
  | _ => false

namespace Batcher

variable {cfg : DetectorSettings} {b b' : Batcher} {e : Event} {acts : List Act}

lemma load_none (h : b.flushing = none) : b.load = 3 * b.pending.length := by
  rw [load, h]
  rfl

lemma load_some {f : Flush} (h : b.flushing = some f) :
    b.load = 3 * b.pending.length + f.load := by
  rw [load, h]
  rfl

/-- A result joins the buffer with what is left to do for it. -/
lemma add_load {p : Pending} {now : ℚ} (h : b.add cfg p now = some (b', acts)) :
    b'.load ≤ b.load + 3 := by
  obtain ⟨hb, t, ⟨rfl, -⟩ | ⟨rfl, -⟩⟩ := add_cases h
  · rw [load_none hb, load_none (by exact hb), List.length_append, List.length_singleton]
    exact Nat.le_of_eq (Nat.mul_succ 3 _)
  · rw [load_none hb, load_some rfl, Flush.load_sinking, List.length_nil, List.length_append,
      List.length_singleton]
    omega

/-- A step of the batcher leaves less to do, a tick at least no more. -/
lemma Rule.load_le (hr : Rule b e b' acts) (hb : ∀ f, b.flushing = some f → f.batch ≠ []) :
    b'.load ≤ b.load ∧ (e.isTick = false → b'.load < b.load) := by
  have of_lt : b'.load < b.load → b'.load ≤ b.load ∧ (e.isTick = false → b'.load < b.load) :=
    fun hlt => ⟨hlt.le, fun _ => hlt⟩
  cases hr with
  | nothing he => exact ⟨Nat.le_refl _, fun hno => absurd (he.symm.trans hno) Bool.noConfusion⟩
  | flushed reason he hf =>
    refine ⟨?_, fun hno => absurd (he.symm.trans hno) Bool.noConfusion⟩
    rw [load_none hf, load_some rfl, Flush.load_sinking, List.length_nil]
    omega
  | sinkReturned reason batch hf | sinkRaised reason batch hf =>
    apply of_lt
    rw [load_some rfl, load_some hf]
    exact Nat.add_lt_add_left (lt_two_mul_self (List.length_pos_iff.mpr (hb _ hf))) _
  | batchAcked reason batch hf =>
    apply of_lt
    rw [load_none rfl, load_some hf]
    exact Nat.lt_add_of_pos_right (List.length_pos_iff.mpr (hb _ hf))
  | itemNacked reason p batch hf =>
    apply of_lt
    rw [load_some hf]
    cases batch with
    | nil => exact Nat.lt_add_of_pos_right Nat.one_pos
    | cons q batch => exact Nat.add_lt_add_left (Nat.lt_succ_self _) _

/-- A flush in progress can go on: the sink call ends, or the next settlement is made. -/
lemma exists_step (cfg : DetectorSettings) {f : Flush} (hf : b.flushing = some f)
    (hne : f.batch ≠ []) :
    ∃ e : Event, e.isTick = false ∧ (b.step cfg e).isSome = true := by
  obtain ⟨reason, batch, stage⟩ := f
  cases stage with
  | sinking => exact ⟨.sinkReturned, rfl, by simp [step, sinkReturned, hf]⟩
  | acking => exact ⟨.settleNext, rfl, by simp [step, settleNext, hf]⟩
  | nacking =>
    cases batch with
    | nil => exact absurd rfl hne
    | cons p batch => exact ⟨.settleNext, rfl, by simp [step, settleNext, hf]⟩

end Batcher

namespace Worker

variable {cfg : DetectorSettings} {w w' : Worker} {op : Op} {d : Delivery} {acts : List Act}

lemma handle_load (w : Worker) (d : Delivery) (o : Outcome) :
    (w.handle d o).1.load ≤ 6 + w.batcher.load := by
  rw [load, handle_batcher]
  refine Nat.add_le_add_right ?_ _
  cases o with
  | transient =>
    simp only [handle]
    split <;> exact (by decide : 1 ≤ 6)
  | result => exact Nat.le_refl 6
  | _ => exact (by decide : 1 ≤ 6)

lemma afterFlush_load (w : Worker) : w.afterFlush.load ≤ w.load := by
  rw [load, load, afterFlush_batcher]
  refine Nat.add_le_add_right ?_ _
  unfold afterFlush
  split
  · next jobId hw =>
    split
    · exact Nat.le_refl _
    · rw [hw]
      exact (by decide : 1 ≤ 2)
  · exact Nat.le_refl _

/-- In the phases before the guard has answered, the end of `process` leaves less to do. -/
lemma handle_load_lt (w : Worker) (hp : 6 < w.phase.load) (d : Delivery) (o : Outcome) :
    (w.handle d o).1.load < w.load :=
  (w.handle_load d o).trans_lt (Nat.add_lt_add_right hp _)

lemma phase_load_lt {p : Phase} (hp : p.load < w.phase.load) :
    load { w with phase := p } < w.load :=
  Nat.add_lt_add_right hp _

/-- A step of the worker leaves less to do, a tick at least no more. -/
lemma step_load (hw : w.WellFormed) (h : w.step cfg op = some (w', acts)) :
    w'.load ≤ w.load ∧ (op.isTick = false → w'.load < w.load) := by
  have of_lt : w'.load < w.load → w'.load ≤ w.load ∧ (op.isTick = false → w'.load < w.load) :=
    fun hlt => ⟨hlt.le, fun _ => hlt⟩
  cases op with
  | loaded r =>
    apply of_lt
    simp only [step] at h
    split at h
    · next d hp =>
      split at h
      · next o _ =>
        have hlt := handle_load_lt w (by simp [hp, Phase.load]) d o
        rwa [Option.some.inj h] at hlt
      · cases h
        apply phase_load_lt
        simp [hp, Phase.load]
    · cases h
  | detected faces =>
    apply of_lt
    simp only [step] at h
    split at h
    · next d hp =>
      cases faces with
      | none =>
        have hlt := handle_load_lt w (by simp [hp, Phase.load]) d .unexpected
        rwa [Option.some.inj h] at hlt
      | some faces =>
        cases h
        apply phase_load_lt
        simp [hp, Phase.load]
    · cases h
  | claimed r =>
    apply of_lt
    simp only [step] at h
    split at h
    · next d faces hp =>
      cases h
      apply handle_load_lt
      simp [hp, Phase.load]
    · cases h
  | settled | counted =>
    apply of_lt
    simp only [step] at h
    split at h
    · next hp =>
      cases h
      apply phase_load_lt
      simp [hp, Phase.load]
    · cases h
  | add now =>
    apply of_lt
    simp only [step] at h
    split at h
    · next d r hp =>
      split at h
      · next b acts' hadd =>
        obtain ⟨rfl, -⟩ := Prod.mk.inj (Option.some.inj h)
        calc load (afterFlush { w with batcher := b, phase := .flushing d.ref.jobId })
            ≤ 2 + b.load := afterFlush_load _
          _ ≤ 2 + (w.batcher.load + 3) := Nat.add_le_add_left (Batcher.add_load hadd) 2
          _ < 6 + w.batcher.load := by omega
          _ = w.load := by rw [load, hp]; rfl
      · cases h
    · cases h
  | batcher e =>
    simp only [step] at h
    split at h
    · next b acts' hb =>
      have hload := (Batcher.Rule.of_step hb).load_le hw
      have hflush := afterFlush_load { w with batcher := b }
      obtain ⟨rfl, -⟩ := Prod.mk.inj (Option.some.inj h)
      have hle : load { w with batcher := b } ≤ w.load := Nat.add_le_add_left hload.1 _
      refine ⟨hflush.trans hle, fun hq => lt_of_le_of_lt hflush ?_⟩
      exact Nat.add_lt_add_left (hload.2 hq) _
    · cases h

/-- A handler that waits for a size flush has not been let go on. -/
lemma afterFlush_locked (w : Worker) {jobId : String} (hp : w.afterFlush.phase = .flushing jobId) :
    w.afterFlush.batcher.flushing ≠ none := by
  rw [afterFlush_batcher]
  intro hb
  unfold afterFlush at hp
  split at hp
  · rw [if_neg (by rw [Batcher.locked_eq_false.mpr hb]; decide)] at hp
    cases hp
  · next hne => exact hne jobId hp

lemma handle_ne_flushing (w : Worker) (d : Delivery) (o : Outcome) (jobId : String) :
    (w.handle d o).1.phase ≠ .flushing jobId := by
  intro h
  have hc := w.handle_current d o
  rw [h] at hc
  cases hc

/-- The handler waits for a flush only while one is in progress. -/
lemma Rule.flushing_locked (hr : Rule cfg w op w' acts) (jobId : String)
    (hp : w'.phase = .flushing jobId) : w'.batcher.flushing ≠ none := by
  cases hr with
  | proceed d hin hp' =>
    obtain rfl : _ = Phase.flushing jobId := hp
    cases hp'
  | fail d o => exact absurd hp (handle_ne_flushing w d o jobId)
  | claimed d faces r => exact absurd hp (handle_ne_flushing w d _ jobId)
  | settled | counted | buffered => cases hp
  | filled | flushed | sinkReturned | sinkRaised => exact Option.some_ne_none _
  | nothing => exact afterFlush_locked _ hp
  | batchAcked => exact afterFlush_locked _ hp
  | itemNacked => exact afterFlush_locked _ hp

/-- A handler that is not idle can go on, or else the flush it waits for can. -/
lemma exists_step (cfg : DetectorSettings) (hw : w.WellFormed)
    (hlocked : ∀ jobId, w.phase = .flushing jobId → w.batcher.flushing ≠ none)
    (hidle : w.phase ≠ .idle) : ∃ op : Op, op.isTick = false ∧ (w.step cfg op).isSome = true := by
  have hflush : w.batcher.flushing ≠ none →
      ∃ op : Op, op.isTick = false ∧ (w.step cfg op).isSome = true := by
    intro hb
    obtain ⟨f, hf⟩ := Option.ne_none_iff_exists'.mp hb
    obtain ⟨e, he, hs⟩ := Batcher.exists_step cfg hf (hw f hf)
    obtain ⟨r, hr⟩ := Option.isSome_iff_exists.mp hs
    exact ⟨.batcher e, he, by simp [step, hr]⟩
  cases hp : w.phase with
  | idle => exact absurd hp hidle
  | loading d => exact ⟨.loaded .frame, rfl, by simp [step, hp, loadOutcome]⟩
  | detecting d => exact ⟨.detected none, rfl, by simp [step, hp]⟩
  | claiming d faces => exact ⟨.claimed .won, rfl, by simp [step, hp]⟩
  | settling d v => exact ⟨.settled, rfl, by simp [step, hp]⟩
  | counting jobId => exact ⟨.counted, rfl, by simp [step, hp]⟩
  | flushing jobId => exact hflush (hlocked jobId hp)
  | adding d r =>
    by_cases hb : w.batcher.flushing = none
    · refine ⟨.add 0, rfl, ?_⟩
      simp [step, hp, Batcher.add, Batcher.locked, hb]
    · exact hflush hb

lemma take_isSome (cfg : DetectorSettings) (hp : w.phase = .idle) (d : Delivery) (now : ℚ) :
    (w.take cfg d now).isSome = true := by
  simp only [take, hp]
  split <;> rfl

lemma take_load {now : ℚ} (h : w.take cfg d now = some (w', acts)) : w'.load ≤ w.load + 9 := by
  obtain ⟨hp, ⟨rfl, -⟩ | ⟨-, rfl, -⟩⟩ := take_cases h
  · show 9 + w.batcher.load ≤ w.phase.load + w.batcher.load + 9
    omega
  · refine (handle_load w d .stale).trans ?_
    show 6 + w.batcher.load ≤ w.phase.load + w.batcher.load + 9
    omega

end Worker

/-! ## The loop -/

/-- `DetectorWorker.run` over the deliveries its consumer has still to yield, until an exception
leaves `_handle`. -/
structure ConsumeLoop where
  waiting : List Delivery
  worker : Worker := {}
  raised : Bool := false

namespace ConsumeLoop

inductive Event where
  | next (now : ℚ)
  | work (op : Worker.Op)
  | incrementRaised
  deriving DecidableEq, Repr

inductive Output where
  | act (a : Act)
  | incrementRaised (jobId : String)
  deriving DecidableEq, Repr

def step (cfg : DetectorSettings) (s : ConsumeLoop) : Event → Option (ConsumeLoop × List Output)
  | .next now =>
    match s.waiting with
    | d :: ds =>
      if s.raised then none
      else
        match s.worker.take cfg d now with
        | some (w, acts) => some ({ s with waiting := ds, worker := w }, acts.map .act)
        | none => none
    | [] => none
  | .work op =>
    match s.worker.step cfg op with
    | some (w, acts) => some ({ s with worker := w }, acts.map .act)
    | none => none
  | .incrementRaised =>
    match s.worker.phase with
    | .counting jobId =>
      some ({ s with worker := s.worker.released, raised := true }, [.incrementRaised jobId])
    | _ => none

def machine (cfg : DetectorSettings) : Machine ConsumeLoop Event Output := ⟨step cfg⟩

/-- The loop or one of its collaborators goes on: not a timer, and not the exception. -/
def Event.goesOn : Event → Bool
  | .next _ => true
  | .work op => !op.isTick
  | .incrementRaised => false

def Output.handed? : Output → Option Delivery
  | .act (.handed d) => some d
  | _ => none

/-- The deliveries handed to `_handle`, in order. -/
def handed (h : List Output) : List Delivery := h.filterMap Output.handed?

/-- The delivery was settled, on its own or with a batch. -/
def Settled (h : List Output) (d : Delivery) : Prop :=
  ∃ c : Settle, .act (.settle c) ∈ h ∧ c.Covers d.tag

/-- What is left to do for the deliveries that wait and for the worker. -/
def load (s : ConsumeLoop) : ℕ := 10 * s.waiting.length + s.worker.load

@[simp] lemma handed_append (h₁ h₂ : List Output) :
    handed (h₁ ++ h₂) = handed h₁ ++ handed h₂ := List.filterMap_append

lemma Settled.append {h : List Output} {d : Delivery} (hs : Settled h d) (out : List Output) :
    Settled (h ++ out) d := by
  obtain ⟨c, hc, hcov⟩ := hs
  exact ⟨c, List.mem_append_left _ hc, hcov⟩

/-! ### What a step of the loop does -/

variable {cfg : DetectorSettings} {deliveries : List Delivery} {s s' : ConsumeLoop} {e : Event}
  {out h : List Output}

inductive Rule (cfg : DetectorSettings) (s : ConsumeLoop) :
    Event → ConsumeLoop → List Output → Prop where
  | next (now : ℚ) (d : Delivery) (ds : List Delivery) (w : Worker) (acts : List Act)
      (hw : s.waiting = d :: ds) (hr : s.raised = false)
      (ht : s.worker.take cfg d now = some (w, acts)) :
      Rule cfg s (.next now) { s with waiting := ds, worker := w } (acts.map .act)
  | work (op : Worker.Op) (w : Worker) (acts : List Act)
      (hs : s.worker.step cfg op = some (w, acts)) :
      Rule cfg s (.work op) { s with worker := w } (acts.map .act)
  | incrementRaised (jobId : String) (hp : s.worker.phase = .counting jobId) :
      Rule cfg s .incrementRaised { s with worker := s.worker.released, raised := true }
        [.incrementRaised jobId]

lemma Rule.of_step (h : s.step cfg e = some (s', out)) : Rule cfg s e s' out := by
  cases e with
  | next now =>
    simp only [step] at h
    split at h
    · next d ds hw =>
      split at h
      · cases h
      · next hr =>
        split at h
        · next w acts ht =>
          cases h
          exact .next now d ds w acts hw (Bool.eq_false_of_not_eq_true hr) ht
        · cases h
    · cases h
  | work op =>
    simp only [step] at h
    split at h
    · next w acts hs => cases h; exact .work op w acts hs
    · cases h
  | incrementRaised =>
    simp only [step] at h
    split at h
    · next jobId hp => cases h; exact .incrementRaised jobId hp
    · cases h

lemma handed_map_act {acts : List Act} (h : ∀ d, Act.handed d ∉ acts) :
    handed (acts.map .act) = [] := by
  rw [handed, List.filterMap_eq_nil_iff]
  intro o ho
  obtain ⟨a, ha, rfl⟩ := List.mem_map.mp ho
  cases a with
  | handed d => exact absurd ha (h d)
  | _ => rfl

lemma handed_take {w w' : Worker} {d : Delivery} {now : ℚ} {acts : List Act}
    (h : w.take cfg d now = some (w', acts)) : handed (acts.map .act) = [d] := by
  obtain ⟨-, ⟨-, rfl⟩ | ⟨-, -, rfl⟩⟩ := Worker.take_cases h <;> rfl

/-- What holds of a loop over the deliveries that has emitted `h`. -/
structure Inv (deliveries : List Delivery) (s : ConsumeLoop) (h : List Output) : Prop where
  wellFormed : s.worker.WellFormed
  locked : ∀ jobId, s.worker.phase = .flushing jobId → s.worker.batcher.flushing ≠ none
  inTurn : handed h ++ s.waiting = deliveries
  owned : ∀ d ∈ handed h, d ∈ s.worker.held ∨ Settled h d
  raised : s.raised = true ↔ ∃ jobId, .incrementRaised jobId ∈ h

namespace Inv

lemma start : Inv deliveries ⟨deliveries, {}, false⟩ [] := by
  refine ⟨fun f hf => ?_, fun jobId hp => ?_, rfl, fun d hd => ?_, ?_⟩
  · cases hf
  · cases hp
  · cases hd
  · simp

lemma rule (hinv : Inv deliveries s h) (hr : Rule cfg s e s' out) :
    Inv deliveries s' (h ++ out) := by
  have hact : ∀ {acts : List Act}, (∃ jobId, Output.incrementRaised jobId ∈ h ++ acts.map .act) ↔
      ∃ jobId, .incrementRaised jobId ∈ h := by
    intro acts
    simp
  cases hr with
  | next now d ds w acts hw hraised ht =>
    obtain ⟨hheld, hb, -⟩ := Worker.take_effect ht
    refine ⟨?_, ?_, ?_, ?_, ?_⟩
    · intro f hf
      exact hinv.wellFormed f (by rw [← hb]; exact hf)
    · intro jobId hp
      obtain ⟨-, ⟨rfl, -⟩ | ⟨-, rfl, -⟩⟩ := Worker.take_cases ht
      · cases hp
      · exact absurd hp (s.worker.handle_ne_flushing d .stale jobId)
    · rw [handed_append, handed_take ht, ← hinv.inTurn, hw, List.append_assoc]
      rfl
    · intro x hx
      rw [handed_append, handed_take ht, List.mem_append, List.mem_singleton] at hx
      rw [show ConsumeLoop.worker _ = w from rfl, hheld, List.mem_append, List.mem_singleton]
      obtain hx | rfl := hx
      · exact (hinv.owned x hx).imp .inl fun hs => hs.append _
      · exact .inl (.inr rfl)
    · rw [hact]
      exact hinv.raised
  | work op w acts hs =>
    have hrule := Worker.Rule.of_step hs
    refine ⟨hrule.wellFormed hinv.wellFormed, hrule.flushing_locked, ?_, ?_, ?_⟩
    · rw [handed_append, handed_map_act hrule.not_handed, List.append_nil]
      exact hinv.inTurn
    · intro d hd
      rw [handed_append, handed_map_act hrule.not_handed, List.append_nil] at hd
      obtain hheld | hset := hinv.owned d hd
      · rcases hrule.effect with ⟨heq, -⟩ | ⟨pre, x, post, v, hw, hw', rfl⟩ |
          ⟨reason, batch, post, -, hw, hw', rfl⟩
        · exact .inl (heq ▸ hheld)
        · rw [show ConsumeLoop.worker _ = w from rfl, hw']
          rw [hw] at hheld
          by_cases hdx : d = x
          · subst hdx
            exact .inr ⟨v.call d.tag, by simp, by simp⟩
          · exact .inl (by simpa [hdx] using hheld)
        · rw [hw, List.mem_append] at hheld
          obtain hmem | hmem := hheld
          · obtain ⟨p, hp, rfl⟩ := List.mem_map.mp hmem
            exact .inr ⟨.ack (Batcher.maxTag batch) true, by simp, Batcher.tag_le_maxTag hp⟩
          · exact .inl (hw' ▸ hmem)
      · exact .inr (hset.append _)
    · rw [hact]
      exact hinv.raised
  | incrementRaised jobId hp =>
    refine ⟨hinv.wellFormed, fun _ hidle => ?_, ?_, ?_, ?_⟩
    · cases hidle
    · rw [handed_append]
      exact (congrArg (· ++ s.waiting) (List.append_nil _)).trans hinv.inTurn
    · intro d hd
      have hd : d ∈ handed h := by simpa [handed, Output.handed?] using hd
      have hheld : s.worker.held = s.worker.released.held := by
        simp [Worker.held, Worker.released, Worker.buffered, hp, Worker.Phase.current]
      exact (hinv.owned d hd).imp (fun hmem => hheld ▸ hmem) fun hs => hs.append _
    · exact iff_of_true rfl ⟨jobId, by simp⟩

lemma of_reach {ok : ConsumeLoop → List Output → Event → Prop}
    (hr : (machine cfg).Reach ok ⟨deliveries, {}, false⟩ s h) : Inv deliveries s h :=
  hr.invariant start fun _ _ _ _ _ _ hinv _ hs => hinv.rule (Rule.of_step hs)

/-- A loop that no exception has left can go on until everything is handled. -/
lemma exists_step (hinv : Inv deliveries s h) (hraised : s.raised = false)
    (hleft : s.waiting ≠ [] ∨ s.worker.phase ≠ .idle) :
    ∃ e : Event, e.goesOn = true ∧ (s.step cfg e).isSome = true := by
  by_cases hidle : s.worker.phase = .idle
  · obtain ⟨d, ds, hw⟩ := List.exists_cons_of_ne_nil (hleft.resolve_right fun hne => hne hidle)
    obtain ⟨r, hr⟩ := Option.isSome_iff_exists.mp (Worker.take_isSome cfg hidle d 0)
    exact ⟨.next 0, rfl, by simp [step, hw, hraised, hr]⟩
  · obtain ⟨op, htick, hs⟩ := Worker.exists_step cfg hinv.wellFormed hinv.locked hidle
    obtain ⟨r, hr⟩ := Option.isSome_iff_exists.mp hs
    refine ⟨.work op, ?_, by simp [step, hr]⟩
    rw [Event.goesOn, htick]
    rfl

/-- Every step leaves less to do, a timer at least no more. -/
lemma load_le (hinv : Inv deliveries s h) (hr : Rule cfg s e s' out) :
    s'.load ≤ s.load ∧ (e.goesOn = true → s'.load < s.load) := by
  cases hr with
  | next now d ds w acts hw hraised ht =>
    have hload := Worker.take_load ht
    have hlt : load { s with waiting := ds, worker := w } < s.load := by
      rw [load, load, hw, List.length_cons]
      show 10 * ds.length + w.load < 10 * (ds.length + 1) + s.worker.load
      omega
    exact ⟨hlt.le, fun _ => hlt⟩
  | work op w acts hs =>
    obtain ⟨hle, hlt⟩ := Worker.step_load hinv.wellFormed hs
    refine ⟨Nat.add_le_add_left hle _, fun hq => Nat.add_lt_add_left (hlt ?_) _⟩
    simpa [Event.goesOn] using hq
  | incrementRaised jobId hp =>
    refine ⟨Nat.add_le_add_left ?_ _, fun hq => by cases hq⟩
    exact Nat.add_le_add_right (Nat.zero_le _) _

end Inv

/-! ### What stops the loop -/

/-- The loop over the deliveries goes on: no exception has left `_handle`, what was handed to it is
settled or the batcher's but for the delivery in its hand, and whatever happens next it gets to the
rest of the deliveries in turn, after finitely many steps and without getting stuck. -/
structure Going (cfg : DetectorSettings) (deliveries : List Delivery) (s : ConsumeLoop)
    (h : List Output) : Prop where
  returns : s.raised = false
  inTurn : handed h ++ s.waiting = deliveries
  owned : ∀ d ∈ handed h, d ∈ s.worker.phase.current ∨ d ∈ s.worker.buffered ∨ Settled h d
  goesOn : s.waiting ≠ [] ∨ s.worker.phase ≠ .idle →
    ∃ e : Event, e.goesOn = true ∧ (s.step cfg e).isSome = true
  finite : ∀ es s' h', (machine cfg).exec Machine.anyStep s h es = some (s', h') →
    es.countP Event.goesOn ≤ s.load

lemma Inv.finite (hinv : Inv deliveries s h) {es : List Event} {h' : List Output}
    (he : (machine cfg).exec Machine.anyStep s h es = some (s', h')) :
    es.countP Event.goesOn + s'.load ≤ s.load :=
  Machine.countP_le_of_exec (I := Inv deliveries)
    (fun _ _ _ _ _ hi hs => hi.rule (Rule.of_step hs))
    (fun _ _ _ _ _ hi hs => (hi.load_le (Rule.of_step hs)).2)
    (fun _ _ _ _ _ hi hs => (hi.load_le (Rule.of_step hs)).1) hinv he

/-- Whatever the frame store, the detector, the guard and the sink raise in whatever order of steps:
the loop goes on exactly as long as `increment_processed` has not raised. -/
theorem going_iff (cfg : DetectorSettings) (deliveries : List Delivery) {s : ConsumeLoop}
    {h : List Output} (hr : (machine cfg).Reach Machine.anyStep ⟨deliveries, {}, false⟩ s h) :
    s.Going cfg deliveries h ↔ ∀ jobId, .incrementRaised jobId ∉ h := by
  have hinv := Inv.of_reach hr
  constructor
  · intro hg jobId hmem
    have hraised := hinv.raised.mpr ⟨jobId, hmem⟩
    rw [hg.returns] at hraised
    cases hraised
  · intro hno
    have hreturns : s.raised = false :=
      Bool.eq_false_of_not_eq_true fun ht => (hinv.raised.mp ht).elim hno
    refine ⟨hreturns, hinv.inTurn, fun d hd => ?_, hinv.exists_step hreturns, fun es s' h' he => ?_⟩
    · obtain hheld | hset := hinv.owned d hd
      · rw [Worker.held, List.mem_append] at hheld
        obtain hb | hc := hheld
        · exact .inr (.inl hb)
        · exact .inl hc
      · exact .inr (.inr hset)
    · exact (Nat.le_add_right _ _).trans (hinv.finite he)

/-- Two frames, the first of which the store fails to load. -/
theorem going_iff_run : ∃ cfg deliveries s h,
    (machine cfg).Reach Machine.anyStep ⟨deliveries, {}, false⟩ s h ∧ deliveries.length = 2 ∧
      s.waiting = [] ∧ s.Going cfg deliveries h := by
  have hrun : ∃ s h, (machine {batchMaxSize := 1}).Reach Machine.anyStep
      ⟨[⟨⟨"j", "v", 0, 0, 0, "frame:j:0"⟩, 1, false⟩, ⟨⟨"j", "v", 6, 0, 0, "frame:j:6"⟩, 2, false⟩],
        {}, false⟩ s h ∧ s.waiting = [] ∧ h.all fun o => !o matches .incrementRaised _ :=
    Machine.Reach.exists_of_exec
      [.next 0, .work (.loaded .storeError), .work .settled, .next 0, .work (.loaded .frame),
        .work (.detected (some [])), .work (.claimed .won), .work (.add 0),
        .work (.batcher .sinkRaised), .work (.batcher .settleNext), .work .counted]
      (by decide +kernel)
  obtain ⟨s, h, hr, hw, hno⟩ := hrun
  refine ⟨_, _, s, h, hr, rfl, hw, (going_iff _ _ hr).mpr fun jobId hmem => ?_⟩
  have := List.all_eq_true.mp hno _ hmem
  cases this

/-- A loop that an exception has left hands out nothing more. -/
lemma handed_of_raised (hraised : s.raised = true) {es : List Event} {h' : List Output}
    (he : (machine cfg).exec Machine.anyStep s h es = some (s', h')) : handed h' = handed h := by
  induction es generalizing s h with
  | nil =>
    simp only [Machine.exec, Option.some.injEq, Prod.mk.injEq] at he
    rw [he.2]
  | cons e es ih =>
    simp only [Machine.exec] at he
    split at he
    · split at he
      · next s₁ o hs =>
        cases Rule.of_step hs with
        | next now d ds w acts hw hr =>
          rw [hr] at hraised
          cases hraised
        | work op w acts hstep =>
          rw [ih (by exact hraised) he, handed_append,
            handed_map_act (Worker.Rule.of_step hstep).not_handed, List.append_nil]
        | incrementRaised jobId hp =>
          rw [ih rfl he, handed_append]
          exact List.append_nil _
      · cases he
    · cases he

/-- The progress update of the first frame raises, and the second is never handled. -/
theorem increment_stops_the_stream : ∃ cfg deliveries s h,
    (machine cfg).Reach Machine.anyStep ⟨deliveries, {}, false⟩ s h ∧ s.waiting ≠ [] ∧
      ¬s.Going cfg deliveries h ∧
      ∀ es s' h', (machine cfg).exec Machine.anyStep s h es = some (s', h') →
        handed h' ≠ deliveries := by
  have hrun : ∃ s h, (machine {}).Reach Machine.anyStep
      ⟨[⟨⟨"j", "v", 0, 0, 0, "frame:j:0"⟩, 1, false⟩, ⟨⟨"j", "v", 6, 0, 0, "frame:j:6"⟩, 2, false⟩],
        {}, false⟩ s h ∧ s.waiting ≠ [] ∧ s.raised = true ∧ (handed h).length = 1 :=
    Machine.Reach.exists_of_exec
      [.next 0, .work (.loaded .frame), .work (.detected (some [])), .work (.claimed .won),
        .work (.add 0), .incrementRaised]
      (by decide +kernel)
  obtain ⟨s, h, hr, hw, hraised, hlen⟩ := hrun
  refine ⟨_, _, s, h, hr, hw, fun hg => ?_, fun es s' h' he hall => ?_⟩
  · rw [hg.returns] at hraised
    cases hraised
  · rw [handed_of_raised hraised he] at hall
    rw [hall] at hlen
    cases hlen

end ConsumeLoop

end VideoPipeline
