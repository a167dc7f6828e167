import VideoPipeline.Lib.Machine
import VideoPipeline.Detector.Flow

/-!
# The shutdown of a detector

`run` of `stream_detector/main.py` closes the consumer's connection, then cancels the worker's task
and waits for it. The `finally` of `DetectorWorker.run` stops the batcher, which cancels the age
watchdog and flushes what is left. A settlement on a closed connection raises. A task that is
cancelled while it waits for the sink leaves the call to its thread.
-/

namespace VideoPipeline

open Amqp

namespace DetectorRun

/-- Where `main.run` is. -/
inductive Main where
  | waiting
  | closing
  | awaiting
  | returned
  deriving DecidableEq, Repr

/-- Where `DetectorWorker.run` is: in its loop, at the watchdog's end in `ResultBatcher.stop`, in
the flush after it, or done. -/
inductive Runner where
  | looping
  | stopping
  | draining
  | ended
  deriving DecidableEq, Repr

/-- The task of the age watchdog. -/
inductive Timer where
  | alive
  | failed
  | stopped
  deriving DecidableEq, Repr

end DetectorRun

structure DetectorRun where
  main : DetectorRun.Main := .waiting
  runner : DetectorRun.Runner := .looping
  timer : DetectorRun.Timer := .alive
  /-- The consumer's connection. -/
  isOpen : Bool := true
  inbox : List Delivery := []
  worker : Worker := {}
  /-- The batches of sink calls whose task was cancelled. -/
  detached : List (List Pending) := []
  deriving DecidableEq, Repr

namespace DetectorRun

inductive Event where
  | deliver (d : Delivery)
  | take (now : ℚ)
  | work (op : Worker.Op)
  | incrementRaised
  /-- The stop event fires, or the worker's task has ended. -/
  | wake
  | connectionClosed
  | cancelRunner
  | stopTimer
  | drained
  | detachedEnds (i : ℕ) (raises : Bool)
  | returns
  deriving DecidableEq, Repr

/-- The task that is in the flush with this reason is cancelled. Its sink call goes on without
it. -/
def abandon (s : DetectorRun) (reason : Reason) : DetectorRun :=
  match s.worker.batcher.flushing with
  | some f =>
    if f.reason = reason then
      { s with
        worker := { s.worker with batcher := { s.worker.batcher with flushing := none } }
        detached := if f.stage = .sinking then s.detached ++ [f.batch] else s.detached }
    else s
  | none => s

/-- The handler is left by an exception or a cancellation, and `finally` stops the batcher. -/
def leaveHandler (s : DetectorRun) : DetectorRun :=
  { s with worker := s.worker.released, runner := .stopping }

/-- The settlement that a flush is about to make raises, in the task that called the flush. -/
def flushRaises (s : DetectorRun) (f : Flush) : DetectorRun :=
  let s := { s with
    worker := { s.worker with batcher := { s.worker.batcher with flushing := none } } }
  match f.reason with
  | .size => s.leaveHandler
  | .age => { s with timer := .failed }
  | .explicit => { s with runner := .ended }

/-- Whose step it is: the handler's in the loop, the watchdog's while it lives. A flush in progress
goes on in the task that called it. -/
def canWork (s : DetectorRun) : Worker.Op → Bool
  | .batcher (.ageWatchdog _) => s.timer = .alive
  | .batcher .flush => false
  | .batcher _ => true
  | _ => s.runner = .looping

/-- A step of the worker, whose settlements raise on a closed connection. -/
def workStep (cfg : DetectorSettings) (s : DetectorRun) (op : Worker.Op) :
    Option (DetectorRun × List Act) :=
  if s.canWork op then
    match s.isOpen, op with
    | false, .settled =>
      match s.worker.phase with
      | .settling _ _ => some (s.leaveHandler, [])
      | _ => none
    | false, .batcher .settleNext =>
      match s.worker.batcher.flushing with
      | some f => if f.stage = .sinking then none else some (s.flushRaises f, [])
      | none => none
    | _, _ => (s.worker.step cfg op).map fun r => ({ s with worker := r.1 }, r.2)
  else none

/-- `ResultBatcher.stop`: the watchdog's exception, if it ended with one, leaves `stop`. -/
def stopBatcher (s : DetectorRun) : Option (DetectorRun × List Act) :=
  if s.timer = .failed then some ({ s with runner := .ended }, [])
  else
    let s := { s.abandon .age with timer := .stopped }
    s.worker.batcher.flush.map fun r =>
      ({ s with worker := { s.worker with batcher := r.1 }, runner := .draining }, r.2)

def step (cfg : DetectorSettings) (s : DetectorRun) : Event → Option (DetectorRun × List Act)
  | .deliver d => if s.isOpen then some ({ s with inbox := s.inbox ++ [d] }, []) else none
  | .take now =>
    match s.runner, s.inbox with
    | .looping, d :: ds =>
      (s.worker.take cfg d now).map fun r => ({ s with inbox := ds, worker := r.1 }, r.2)
    | _, _ => none
  | .work op => s.workStep cfg op
  | .incrementRaised =>
    match s.runner, s.worker.phase with
    | .looping, .counting _ => some (s.leaveHandler, [])
    | _, _ => none
  | .wake => if s.main = .waiting then some ({ s with main := .closing }, []) else none
  | .connectionClosed =>
    if s.main = .closing ∧ s.isOpen then some ({ s with isOpen := false }, []) else none
  | .cancelRunner =>
    if s.main = .closing ∧ ¬s.isOpen then
      let s := { s with main := .awaiting }
      match s.runner with
      | .looping => some ((s.abandon .size).leaveHandler, [])
      | .stopping => some (s, [])
      | .draining => some ({ s.abandon .explicit with runner := .ended }, [])
      | .ended => some (s, [])
    else none
  | .stopTimer => if s.runner = .stopping then s.stopBatcher else none
  | .drained =>
    if s.runner = .draining ∧ s.worker.batcher.flushing = none then
      some ({ s with runner := .ended }, [])
    else none
  | .detachedEnds i raises =>
    match s.detached[i]? with
    | some batch =>
      some ({ s with detached := s.detached.eraseIdx i },
        [if raises then .sinkRaised batch else .sinkReturned batch])
    | none => none
  | .returns =>
    if s.main = .awaiting ∧ s.runner = .ended then some ({ s with main := .returned }, []) else none

/-- `main.run` of a detector, as a machine. -/
def machine (cfg : DetectorSettings) : Machine DetectorRun Event Act := ⟨step cfg⟩

/-- The results of the sink calls that succeeded. -/
def reported (h : List Act) : List Pending := h.flatMap Act.returned

/-- The delivery has been acked, on its own or with a batch. -/
def Acked (h : List Act) (d : Delivery) : Prop :=
  ∃ tag multiple, .settle (.ack tag multiple) ∈ h ∧ (Settle.ack tag multiple).Covers d.tag

/-- No flush waits for its ack when the connection is closed or its task cancelled, and no sink call
succeeds on a closed connection or without its task. -/
def acksInTime (s : DetectorRun) (_ : List Act) : Event → Prop
  | .connectionClosed | .cancelRunner | .stopTimer =>
    ∀ f ∈ s.worker.batcher.flushing, f.stage ≠ .acking
  | .work (.batcher .sinkReturned) => s.isOpen = true
  | .detachedEnds _ raises => raises = true
  | _ => True

end DetectorRun

/-! ## The results that wait for their ack -/

namespace Worker

/-- The results whose sink call has returned and whose ack is next. -/
def acking (w : Worker) : List Pending :=
  match w.batcher.flushing with
  | some ⟨_, batch, .acking⟩ => batch
  | _ => []

variable {cfg : DetectorSettings} {w w' : Worker} {op : Op} {acts : List Act} {p : Pending}

lemma acking_of_none (h : w.batcher.flushing = none) : w.acking = [] := by
  rw [acking, h]

lemma acking_of_stage (h : ∀ f ∈ w.batcher.flushing, f.stage ≠ .acking) : w.acking = [] := by
  rw [acking]
  split
  · next hf => exact absurd rfl (h _ hf)
  · rfl

lemma acking_congr (h : w'.batcher = w.batcher) : w'.acking = w.acking := by
  rw [acking, acking, h]

/-- A returned result waits for its ack until it gets it. -/
lemma Rule.acking_cases (hr : Rule cfg w op w' acts)
    (hp : p ∈ w.acking ∨ p ∈ acts.flatMap Act.returned) :
    p ∈ w'.acking ∨ ∃ t, .settle (.ack t true) ∈ acts ∧ p.delivery.tag ≤ t := by
  have of_same : w'.batcher = w.batcher → acts.flatMap Act.returned = [] →
      p ∈ w'.acking ∨ ∃ t, .settle (.ack t true) ∈ acts ∧ p.delivery.tag ≤ t := by
    intro hb hret
    rw [hret] at hp
    rw [acking_congr hb]
    exact .inl (hp.resolve_right List.not_mem_nil)
  have of_none : w.batcher.flushing = none → acts.flatMap Act.returned = [] →
      p ∈ w'.acking ∨ ∃ t, .settle (.ack t true) ∈ acts ∧ p.delivery.tag ≤ t := by
    intro hb hret
    rw [acking_of_none hb, hret] at hp
    exact absurd hp (by simp)
  cases hr with
  | proceed | settled | counted => exact of_same rfl rfl
  | fail d o => exact of_same (handle_batcher w d o) rfl
  | claimed d faces r => exact of_same (handle_batcher w d _) rfl
  | buffered _ _ _ _ _ hb => exact of_none hb rfl
  | filled _ _ _ _ _ hb => exact of_none hb rfl
  | nothing _ hb => exact of_none hb rfl
  | flushed _ _ hb => exact of_none hb rfl
  | sinkReturned reason batch hb =>
    left
    rw [acking, hb, List.flatMap_singleton] at hp
    exact hp.resolve_left List.not_mem_nil
  | sinkRaised reason batch hb =>
    rw [acking, hb, List.flatMap_singleton] at hp
    exact absurd hp (by simp [Act.returned])
  | batchAcked reason batch hb =>
    rw [acking, hb, List.flatMap_singleton] at hp
    exact .inr ⟨Batcher.maxTag batch, List.mem_singleton_self _,
      Batcher.tag_le_maxTag (hp.resolve_right List.not_mem_nil)⟩
  | itemNacked reason q batch hb =>
    rw [acking, hb, List.flatMap_singleton] at hp
    exact absurd hp (by simp [Act.returned])

/-- Results get to wait for their ack when a sink call returns. -/
lemma Rule.acking_origin (hr : Rule cfg w op w' acts) (hp : p ∈ w'.acking) :
    p ∈ w.acking ∨ op = .batcher .sinkReturned := by
  have of_same : w'.batcher = w.batcher → p ∈ w.acking ∨ op = .batcher .sinkReturned := by
    intro hb
    rw [acking_congr hb] at hp
    exact .inl hp
  have of_stage : (∀ f ∈ w'.batcher.flushing, f.stage ≠ .acking) →
      p ∈ w.acking ∨ op = .batcher .sinkReturned := by
    intro hf
    rw [acking_of_stage hf] at hp
    cases hp
  cases hr with
  | proceed | settled | counted => exact of_same rfl
  | fail d o => exact of_same (handle_batcher w d o)
  | claimed d faces r => exact of_same (handle_batcher w d _)
  | buffered _ _ _ _ _ hb => exact of_stage fun f hf => by cases hb.symm.trans hf
  | nothing _ hb => exact of_same (afterFlush_batcher w)
  | filled | flushed | sinkRaised =>
    refine of_stage fun f hf => ?_
    obtain rfl := Option.some.inj hf
    exact Stage.noConfusion
  | sinkReturned => exact .inr rfl
  | batchAcked =>
    refine of_stage fun f hf => ?_
    rw [Worker.batchAcked, afterFlush_batcher] at hf
    cases hf
  | itemNacked reason q batch =>
    refine of_stage fun f hf => ?_
    rw [Worker.itemNacked, afterFlush_batcher] at hf
    cases batch with
    | nil => cases hf
    | cons r batch =>
      obtain rfl := Option.some.inj hf
      exact Stage.noConfusion

/-- The handler waits for a delivery, and nothing is buffered or in a flush. -/
structure Idle (w : Worker) : Prop where
  phase : w.phase = .idle
  flushing : w.batcher.flushing = none
  pending : w.batcher.pending = []

/-- An idle worker has no step but those that find nothing to do. -/
lemma Idle.step (hw : w.Idle) (hs : w.step cfg op = some (w', acts)) :
    w' = w ∧ op ≠ .batcher .sinkReturned := by
  obtain ⟨hp, hf, hn⟩ := hw
  have of_some : ∀ {f : Flush}, w.batcher.flushing = some f → False := by
    intro f hb
    cases hf.symm.trans hb
  cases op with
  | batcher e =>
    simp only [Worker.step] at hs
    split at hs
    · next b acts' hb =>
      cases hs
      cases Batcher.Rule.of_step hb with
      | nothing he =>
        constructor
        · change w.afterFlush = w
          rw [afterFlush, hp]
        · intro hop
          rw [Op.batcher.inj hop] at he
          cases he
      | flushed _ _ _ hne => exact absurd hn hne
      | sinkReturned _ _ hf' | sinkRaised _ _ hf' | batchAcked _ _ hf' | itemNacked _ _ _ hf' =>
        exact (of_some hf').elim
    · cases hs
  | _ =>
    simp only [Worker.step, hp] at hs
    cases hs

end Worker

namespace DetectorRun

variable {cfg : DetectorSettings} {s s' : DetectorRun} {e : Event} {out h : List Act}

/-! ## What a step does -/

/-- Nothing is reported or settled, and only a flush that is given up stops to wait for its ack. -/
structure Silent (s : DetectorRun) (e : Event) (s' : DetectorRun) (out : List Act) : Prop where
  open_eq : s'.isOpen = s.isOpen
  acking : s'.worker.acking = s.worker.acking ∨ s'.worker.acking = [] ∧
    (e = .cancelRunner ∨ e = .stopTimer ∨ s.isOpen = false)
  reported : reported out = []
  settle : ∀ c, Act.settle c ∉ out
  main : s'.main = s.main ∨ s'.main = .closing ∨ s.isOpen = false ∨ s.main = .awaiting

lemma abandon_acking (s : DetectorRun) (reason : Reason) :
    (s.abandon reason).worker.acking = s.worker.acking ∨
      (s.abandon reason).worker.acking = [] := by
  unfold abandon
  split
  · split
    · exact .inr rfl
    · exact .inl rfl
  · exact .inl rfl

@[simp] lemma abandon_isOpen (s : DetectorRun) (reason : Reason) :
    (s.abandon reason).isOpen = s.isOpen := by
  unfold abandon
  split
  · split <;> rfl
  · rfl

@[simp] lemma abandon_main (s : DetectorRun) (reason : Reason) :
    (s.abandon reason).main = s.main := by
  unfold abandon
  split
  · split <;> rfl
  · rfl

@[simp] lemma flushRaises_isOpen (s : DetectorRun) (f : Flush) :
    (s.flushRaises f).isOpen = s.isOpen := by
  unfold flushRaises
  split <;> rfl

@[simp] lemma flushRaises_main (s : DetectorRun) (f : Flush) :
    (s.flushRaises f).main = s.main := by
  unfold flushRaises
  split <;> rfl

lemma flushRaises_acking (s : DetectorRun) (f : Flush) :
    (s.flushRaises f).worker.acking = [] := by
  unfold flushRaises
  split <;> rfl

/-- The worker goes on as it does on its own, and settles only on an open connection, or a
settlement raises. -/
lemma workStep_cases {op : Worker.Op} (hs : s.workStep cfg op = some (s', out)) :
    (Worker.Rule cfg s.worker op s'.worker out ∧ s' = { s with worker := s'.worker } ∧
      (s.isOpen = false → ∀ c, Act.settle c ∉ out)) ∨
    Silent s (.work op) s' out := by
  simp only [workStep] at hs
  split at hs
  · split at hs
    · split at hs
      · cases hs
        exact .inr ⟨rfl, .inl rfl, rfl, fun c => List.not_mem_nil, .inl rfl⟩
      · cases hs
    · next ho _ =>
      split at hs
      · next f hf =>
        split at hs
        · cases hs
        · cases hs
          exact .inr ⟨flushRaises_isOpen s f, .inr ⟨flushRaises_acking s f, .inr (.inr ho)⟩, rfl,
            fun c => List.not_mem_nil, .inl (flushRaises_main s f)⟩
      · cases hs
    · next hsettled hnext _ =>
      left
      obtain ⟨⟨w, acts⟩, hw, heq⟩ := Option.map_eq_some_iff.mp hs
      cases heq
      have hr := Worker.Rule.of_step hw
      refine ⟨hr, rfl, fun ho c hc => ?_⟩
      rcases hr.quiet_or_settles with ⟨-, hq⟩ | ⟨d, v, -, rfl, -⟩ | ⟨_, _, -, rfl, -⟩ |
        ⟨_, _, _, -, rfl, -⟩
      · exact hq c hc
      · exact hsettled ho rfl
      · exact hnext ho rfl
      · exact hnext ho rfl
  · cases hs

/-- A step that leaves the connection and the batcher alone is silent. -/
lemma Silent.of_batcher_eq (ho : s'.isOpen = s.isOpen)
    (hb : s'.worker.batcher = s.worker.batcher)
    (hm : s'.main = s.main ∨ s'.main = .closing ∨ s.isOpen = false ∨ s.main = .awaiting) :
    Silent s e s' [] :=
  ⟨ho, .inl (Worker.acking_congr hb), rfl, fun _ => List.not_mem_nil, hm⟩

/-- The task that is cancelled gives up the flush it is in. -/
lemma Silent.of_abandoned (hc : s.isOpen = false) (ho : s'.isOpen = s.isOpen)
    (ha : s'.worker.acking = s.worker.acking ∨ s'.worker.acking = []) :
    Silent s .cancelRunner s' [] :=
  ⟨ho, ha.imp id fun h => ⟨h, .inl rfl⟩, rfl, fun _ => List.not_mem_nil, .inr (.inr (.inl hc))⟩

lemma Silent.of_cancel (hs : s.step cfg .cancelRunner = some (s', out)) :
    Silent s .cancelRunner s' out := by
  simp only [step] at hs
  split at hs
  · next hm =>
    have hc : s.isOpen = false := Bool.eq_false_of_not_eq_true hm.2
    split at hs <;> cases hs
    · exact .of_abandoned hc (abandon_isOpen _ _)
        (abandon_acking { s with main := .awaiting } .size)
    · exact .of_abandoned hc rfl (.inl rfl)
    · exact .of_abandoned hc (abandon_isOpen _ _)
        (abandon_acking { s with main := .awaiting } .explicit)
    · exact .of_abandoned hc rfl (.inl rfl)
  · cases hs

/-- The watchdog gives up the flush it is in, and the buffer goes to the sink. -/
lemma Silent.of_stopBatcher (cfg : DetectorSettings) (hs : s.stopBatcher = some (s', out)) :
    Silent s .stopTimer s' out := by
  simp only [stopBatcher] at hs
  split at hs
  · cases hs
    exact .of_batcher_eq rfl rfl (.inl rfl)
  · obtain ⟨⟨b, acts⟩, hb, heq⟩ := Option.map_eq_some_iff.mp hs
    cases heq
    have hflush : (s.abandon .age).worker.batcher.step cfg .flush = some (b, acts) := hb
    have hr := Batcher.Rule.of_step hflush
    have hacts : DetectorRun.reported acts = [] ∧ (∀ c, Act.settle c ∉ acts) ∧
        ∀ f ∈ b.flushing, f.stage ≠ .acking := by
      cases hr with
      | nothing _ hnone =>
        exact ⟨rfl, fun c => List.not_mem_nil, fun f hf => by cases hnone.symm.trans hf⟩
      | flushed reason =>
        refine ⟨rfl, by simp, fun f hf => ?_⟩
        obtain rfl := Option.some.inj hf
        exact Stage.noConfusion
    exact ⟨abandon_isOpen _ _, .inr ⟨Worker.acking_of_stage hacts.2.2, .inr (.inl rfl)⟩,
      hacts.1, hacts.2.1, .inl (abandon_main _ _)⟩

/-- A step is one of the worker, the end of a detached sink call, the end of the connection, or
silent. -/
theorem step_cases (hs : s.step cfg e = some (s', out)) :
    (∃ op, e = .work op ∧ Worker.Rule cfg s.worker op s'.worker out ∧
      s' = { s with worker := s'.worker } ∧ (s.isOpen = false → ∀ c, Act.settle c ∉ out)) ∨
    (∃ i raises batch, e = .detachedEnds i raises ∧ s' = { s with detached := s'.detached } ∧
      out = [if raises then .sinkRaised batch else .sinkReturned batch]) ∨
    (e = .connectionClosed ∧ s' = { s with isOpen := false } ∧ out = []) ∨
    Silent s e s' out := by
  cases e with
  | work op =>
    rcases workStep_cases hs with hw | hsil
    · exact .inl ⟨op, rfl, hw⟩
    · exact .inr (.inr (.inr hsil))
  | detachedEnds i raises =>
    simp only [step] at hs
    split at hs
    · next batch _ =>
      cases hs
      exact .inr (.inl ⟨i, raises, batch, rfl, rfl, rfl⟩)
    · cases hs
  | connectionClosed =>
    simp only [step] at hs
    split at hs <;> cases hs
    exact .inr (.inr (.inl ⟨rfl, rfl, rfl⟩))
  | take now =>
    simp only [step] at hs
    split at hs
    · next d ds _ _ =>
      obtain ⟨⟨w, acts⟩, hw, heq⟩ := Option.map_eq_some_iff.mp hs
      cases heq
      obtain ⟨-, hb, hq⟩ := Worker.take_effect hw
      refine .inr (.inr (.inr ⟨rfl, .inl (Worker.acking_congr hb), ?_, hq, .inl rfl⟩))
      exact (Worker.take_flow hw).2.2.2.2
    · cases hs
  | cancelRunner => exact .inr (.inr (.inr (.of_cancel hs)))
  | stopTimer =>
    simp only [step] at hs
    split at hs
    · exact .inr (.inr (.inr (.of_stopBatcher cfg hs)))
    · cases hs
  | deliver | incrementRaised | drained =>
    simp only [step] at hs
    split at hs <;> cases hs
    exact .inr (.inr (.inr (.of_batcher_eq rfl rfl (.inl rfl))))
  | wake =>
    simp only [step] at hs
    split at hs <;> cases hs
    exact .inr (.inr (.inr (.of_batcher_eq rfl rfl (.inr (.inl rfl)))))
  | returns =>
    simp only [step] at hs
    split at hs
    · next hm =>
      cases hs
      exact .inr (.inr (.inr (.of_batcher_eq rfl rfl (.inr (.inr (.inr hm.1))))))
    · cases hs

/-! ## Acks and the end of the connection -/

lemma Acked.append {d : Delivery} (ha : Acked h d) (out : List Act) : Acked (h ++ out) d := by
  obtain ⟨tag, multiple, hmem, hcov⟩ := ha
  exact ⟨tag, multiple, List.mem_append_left _ hmem, hcov⟩

/-- What holds along a run in which every successful sink call is followed by its ack in time. -/
structure Inv (s : DetectorRun) (h : List Act) : Prop where
  acked : ∀ p ∈ reported h, Acked h p.delivery ∨ p ∈ s.worker.acking
  closed : s.isOpen = false → s.worker.acking = []
  main : s.main = .awaiting ∨ s.main = .returned → s.isOpen = false

namespace Inv

lemma init : Inv {} [] := by
  refine ⟨fun p hp => ?_, fun hc => ?_, fun hm => ?_⟩
  · cases hp
  · cases hc
  · rcases hm with hm | hm <;> cases hm

/-- A step that reports nothing leaves the results where they are or gives up none of them. -/
lemma acked_of_same (hinv : Inv s h) (hrep : reported out = [])
    (hacking : ∀ p ∈ s.worker.acking, p ∈ s'.worker.acking) :
    ∀ p ∈ reported (h ++ out), Acked (h ++ out) p.delivery ∨ p ∈ s'.worker.acking := by
  intro p hp
  rw [reported, List.flatMap_append, ← reported, ← reported, hrep, List.append_nil] at hp
  exact (hinv.acked p hp).imp (fun ha => ha.append out) (hacking p)

lemma step (hinv : Inv s h) (hs : s.step cfg e = some (s', out)) (hok : acksInTime s h e) :
    Inv s' (h ++ out) := by
  rcases step_cases hs with ⟨op, rfl, hr, hs', -⟩ | ⟨i, raises, batch, rfl, hs', rfl⟩ |
    ⟨rfl, rfl, rfl⟩ | hsil
  · have hopen : s'.isOpen = s.isOpen := by rw [hs']
    refine ⟨fun p hp => ?_, fun hc => ?_, fun hm => ?_⟩
    · rw [reported, List.flatMap_append, List.mem_append] at hp
      have hnext : p ∈ s.worker.acking ∨ p ∈ out.flatMap Act.returned →
          Acked (h ++ out) p.delivery ∨ p ∈ s'.worker.acking := by
        intro hp
        obtain hmem | ⟨t, ht, hle⟩ := hr.acking_cases hp
        · exact .inr hmem
        · exact .inl ⟨t, true, List.mem_append_right _ ht, hle⟩
      obtain hp | hp := hp
      · rcases hinv.acked p hp with ha | hmem
        · exact .inl (ha.append out)
        · exact hnext (.inl hmem)
      · exact hnext (.inr hp)
    · rw [hopen] at hc
      rw [List.eq_nil_iff_forall_not_mem]
      intro p hp
      obtain hmem | rfl := hr.acking_origin hp
      · rw [hinv.closed hc] at hmem
        cases hmem
      · -- a sink call that returns has found the connection open
        have ho : s.isOpen = true := hok
        rw [hc] at ho
        cases ho
    · rw [hs'] at hm ⊢
      exact hinv.main hm
  · obtain rfl : raises = true := hok
    rw [hs']
    exact ⟨hinv.acked_of_same rfl fun _ hp => hp, hinv.closed, hinv.main⟩
  · exact ⟨hinv.acked_of_same rfl fun _ hp => hp, fun _ => Worker.acking_of_stage hok,
      fun _ => rfl⟩
  · -- a flush that is given up does not wait for its ack
    have hacking : ∀ p ∈ s.worker.acking, p ∈ s'.worker.acking := by
      intro p hp
      rcases hsil.acking with heq | ⟨-, rfl | rfl | hc⟩
      · rwa [heq]
      · rw [Worker.acking_of_stage hok] at hp
        cases hp
      · rw [Worker.acking_of_stage hok] at hp
        cases hp
      · rw [hinv.closed hc] at hp
        cases hp
    refine ⟨hinv.acked_of_same hsil.reported hacking, fun hc => ?_, fun hm => ?_⟩
    · rw [hsil.open_eq] at hc
      rcases hsil.acking with heq | ⟨hnil, -⟩
      · rw [heq, hinv.closed hc]
      · exact hnil
    · rw [hsil.open_eq]
      rcases hsil.main with heq | heq | hc | hw
      · exact hinv.main (heq ▸ hm)
      · rw [heq] at hm
        rcases hm with hm | hm <;> cases hm
      · exact hc
      · exact hinv.main (.inl hw)

end Inv

/-- If no flush waits for its ack when the connection closes and no sink call succeeds after that,
then when `run` has returned every delivery of a successful sink call has been acked. -/
theorem acked_when_returned (hr : (machine cfg).Reach acksInTime {} s h)
    (hm : s.main = .returned) {p : Pending} (hp : p ∈ reported h) : Acked h p.delivery := by
  have hinv : Inv s h := hr.invariant .init fun _ _ _ _ _ _ hinv hok hs => hinv.step hs hok
  rcases hinv.acked p hp with ha | hacking
  · exact ha
  · rw [hinv.closed (hinv.main (.inr hm))] at hacking
    cases hacking

instance (s : DetectorRun) (h : List Act) (e : Event) : Decidable (acksInTime s h e) := by
  unfold acksInTime
  split <;> infer_instance

/-- The only batch is acked before the stop event, and nothing is left at the shutdown. -/
theorem acked_when_returned_run : ∃ cfg s h, (machine cfg).Reach acksInTime {} s h ∧
    s.main = .returned ∧ ∃ p ∈ reported h, Acked h p.delivery := by
  have hrun : ∃ s h, (machine {batchMaxSize := 1}).Reach acksInTime {} s h ∧
      s.main = .returned ∧ ∃ p ∈ reported h, p.delivery.tag = 1 :=
    Machine.Reach.exists_of_exec
      [.deliver ⟨⟨"j", "v", 0, 0, 0, blobKey "j" 0⟩, 1, false⟩, .take 0, .work (.loaded .frame),
        .work (.detected (some [])), .work (.claimed .won), .work (.add 0),
        .work (.batcher .sinkReturned), .work (.batcher .settleNext), .work .counted,
        .wake, .connectionClosed, .cancelRunner, .stopTimer, .drained, .returns]
      (by decide +kernel)
  obtain ⟨s, h, hr, hm, p, hp, -⟩ := hrun
  exact ⟨_, s, h, hr, hm, p, hp, acked_when_returned hr hm hp⟩

/-! ## A detector with nothing in hand -/

/-- The worker and the inbox are empty when the connection is closed, and no sink call is in
progress when the watchdog is cancelled. -/
def nothingInHand (s : DetectorRun) (_ : List Act) : Event → Prop
  | .connectionClosed => s.worker.Idle ∧ s.inbox = []
  | .stopTimer => s.worker.batcher.flushing = none
  | _ => True

/-- What holds along a run in which the detector has nothing in hand when it is shut down. -/
structure Empty (s : DetectorRun) : Prop where
  idle : s.isOpen = false → s.worker.Idle ∧ s.inbox = []
  detached : s.detached = []

lemma abandon_of_none (hf : s.worker.batcher.flushing = none) (reason : Reason) :
    s.abandon reason = s := by
  rw [abandon, hf]

namespace Empty

lemma init : Empty {} := by
  refine ⟨fun hc => ?_, rfl⟩
  cases hc

lemma workStep (he : Empty s) {op : Worker.Op} (hs : s.workStep cfg op = some (s', out)) :
    Empty s' := by
  simp only [DetectorRun.workStep] at hs
  split at hs
  · split at hs
    · next ho _ =>
      split at hs
      · next hp =>
        -- the handler settles nothing once the connection is closed
        rw [(he.idle ho).1.phase] at hp
        cases hp
      · cases hs
    · next ho _ =>
      split at hs
      · next hf =>
        rw [(he.idle ho).1.flushing] at hf
        cases hf
      · cases hs
    · obtain ⟨⟨w, acts⟩, hw, heq⟩ := Option.map_eq_some_iff.mp hs
      cases heq
      refine ⟨fun hc => ?_, he.detached⟩
      obtain ⟨hidle, hi⟩ := he.idle hc
      obtain ⟨rfl, -⟩ := hidle.step hw
      exact ⟨hidle, hi⟩
  · cases hs

lemma stopBatcher (cfg : DetectorSettings) (he : Empty s) (hf : s.worker.batcher.flushing = none)
    (hs : s.stopBatcher = some (s', out)) : Empty s' := by
  simp only [DetectorRun.stopBatcher, abandon_of_none hf] at hs
  split at hs
  · cases hs
    exact ⟨he.idle, he.detached⟩
  · obtain ⟨⟨b, acts⟩, hb, heq⟩ := Option.map_eq_some_iff.mp hs
    cases heq
    refine ⟨fun hc => ?_, he.detached⟩
    obtain ⟨hidle, hi⟩ := he.idle hc
    have hflush : s.worker.batcher.step cfg .flush = some (b, acts) := hb
    cases Batcher.Rule.of_step hflush with
    | nothing => exact ⟨hidle, hi⟩
    | flushed _ _ _ hne => exact absurd hidle.pending hne

lemma step (he : Empty s) (hs : s.step cfg e = some (s', out)) (hok : nothingInHand s h e) :
    Empty s' := by
  cases e with
  | deliver d =>
    simp only [DetectorRun.step] at hs
    split at hs
    · next ho =>
      cases hs
      exact ⟨fun hc => absurd (ho.symm.trans hc) Bool.noConfusion, he.detached⟩
    · cases hs
  | take now =>
    simp only [DetectorRun.step] at hs
    split at hs
    · next hi =>
      obtain ⟨⟨w, acts⟩, -, heq⟩ := Option.map_eq_some_iff.mp hs
      cases heq
      refine ⟨fun hc => ?_, he.detached⟩
      rw [(he.idle hc).2] at hi
      cases hi
    · cases hs
  | work op => exact he.workStep hs
  | incrementRaised =>
    simp only [DetectorRun.step] at hs
    split at hs
    · next hp =>
      cases hs
      refine ⟨fun hc => ?_, he.detached⟩
      rw [(he.idle hc).1.phase] at hp
      cases hp
    · cases hs
  | connectionClosed =>
    simp only [DetectorRun.step] at hs
    split at hs <;> cases hs
    exact ⟨fun _ => hok, he.detached⟩
  | cancelRunner =>
    simp only [DetectorRun.step] at hs
    split at hs
    · next hm =>
      have hc : s.isOpen = false := Bool.eq_false_of_not_eq_true hm.2
      obtain ⟨⟨hp, hf, hn⟩, hi⟩ := he.idle hc
      have habandon : ∀ reason, ({ s with main := .awaiting } : DetectorRun).abandon reason =
          { s with main := .awaiting } := abandon_of_none hf
      simp only [habandon] at hs
      split at hs <;> cases hs
      · exact ⟨fun _ => ⟨⟨rfl, hf, hn⟩, hi⟩, he.detached⟩
      · exact ⟨he.idle, he.detached⟩
      · exact ⟨he.idle, he.detached⟩
      · exact ⟨he.idle, he.detached⟩
    · cases hs
  | stopTimer =>
    simp only [DetectorRun.step] at hs
    split at hs
    · exact he.stopBatcher cfg hok hs
    · cases hs
  | detachedEnds i raises =>
    simp only [DetectorRun.step, he.detached] at hs
    cases hs
  | wake | drained | returns =>
    simp only [DetectorRun.step] at hs
    split at hs <;> cases hs
    exact ⟨he.idle, he.detached⟩

end Empty

/-- A detector that has nothing in hand when it is shut down acks in time. -/
theorem acksInTime_of_nothingInHand (hr : (machine cfg).Reach nothingInHand {} s h) :
    (machine cfg).Reach acksInTime {} s h := by
  refine hr.mono_step fun s h e s' out hr hok hs => ?_
  have he : Empty s :=
    hr.invariant (P := fun s _ => Empty s) .init fun _ _ _ _ _ _ he hok hs => he.step hs hok
  have of_flushing : s.worker.batcher.flushing = none →
      ∀ f ∈ s.worker.batcher.flushing, f.stage ≠ .acking := by
    intro hf f hmem
    cases hf.symm.trans hmem
  cases e with
  | connectionClosed => exact of_flushing hok.1.flushing
  | stopTimer => exact of_flushing hok
  | cancelRunner =>
    simp only [machine, step] at hs
    split at hs
    · next hm => exact of_flushing (he.idle (Bool.eq_false_of_not_eq_true hm.2)).1.flushing
    · cases hs
  | detachedEnds i raises =>
    simp only [machine, step, he.detached] at hs
    cases hs
  | work op =>
    -- a sink call that returns after the close would need a flush in progress
    have hret : op = .batcher .sinkReturned → s.isOpen = true := by
      rintro rfl
      by_contra hopen
      have hc : s.isOpen = false := Bool.eq_false_of_not_eq_true hopen
      change s.workStep cfg (.batcher .sinkReturned) = some (s', out) at hs
      simp only [workStep, hc] at hs
      split at hs
      · obtain ⟨⟨w, acts⟩, hw, -⟩ := Option.map_eq_some_iff.mp hs
        exact ((he.idle hc).1.step hw).2 rfl
      · cases hs
    cases op with
    | batcher e =>
      cases e with
      | sinkReturned => exact hret rfl
      | _ => trivial
    | _ => trivial
  | deliver | take | incrementRaised | wake | drained | returns => trivial

/-! ## After the connection is closed -/

/-- Nothing is acked on a closed connection. -/
lemma acked_of_closed (hc : s.isOpen = false) (hs : s.step cfg e = some (s', out)) (d : Delivery) :
    s'.isOpen = false ∧ (Acked (h ++ out) d ↔ Acked h d) := by
  have hno : s'.isOpen = false ∧ ∀ c, Act.settle c ∉ out := by
    rcases step_cases hs with ⟨op, rfl, -, hs', hq⟩ | ⟨i, raises, batch, rfl, hs', rfl⟩ |
      ⟨rfl, rfl, rfl⟩ | hsil
    · exact ⟨by rw [hs', hc], hq hc⟩
    · refine ⟨by rw [hs', hc], fun c hmem => ?_⟩
      cases raises <;> cases List.mem_singleton.mp hmem
    · exact ⟨rfl, fun c => List.not_mem_nil⟩
    · exact ⟨hsil.open_eq.trans hc, hsil.settle⟩
  refine ⟨hno.1, ?_, fun ha => ha.append out⟩
  rintro ⟨tag, multiple, hmem, hcov⟩
  rcases List.mem_append.mp hmem with hmem | hmem
  · exact ⟨tag, multiple, hmem, hcov⟩
  · exact absurd hmem (hno.2 _)

/-- A delivery that was not acked when the connection was closed is never acked. -/
theorem never_acked (hc : s.isOpen = false) {d : Delivery} (hd : ¬Acked h d) {es : List Event}
    {h' : List Act} (he : (machine cfg).exec Machine.anyStep s h es = some (s', h')) :
    ¬Acked h' d := by
  induction es generalizing s h with
  | nil =>
    simp only [Machine.exec, Option.some.injEq, Prod.mk.injEq] at he
    rwa [← he.2]
  | cons e es ih =>
    simp only [Machine.exec] at he
    split at he
    · split at he
      · next s₁ o hs =>
        obtain ⟨hc', hiff⟩ := acked_of_closed (h := h) hc hs d
        exact ih hc' (fun ha => hd (hiff.mp ha)) he
      · cases he
    · cases he

/-- Without an ack nothing is acked. -/
lemma not_acked_of_quiet (hq : h.all fun a => !(a matches .settle (.ack _ _))) (d : Delivery) :
    ¬Acked h d := by
  rintro ⟨tag, multiple, hmem, -⟩
  have hno := List.all_eq_true.mp hq _ hmem
  cases hno

/-- The stop event fires while a result is buffered. Its sink call in the final flush succeeds, and
the ack is refused because the connection has been closed before. -/
theorem not_acked_when_returned : ∃ s h, (machine {}).Reach Machine.anyStep {} s h ∧
    s.main = .returned ∧ ∃ p ∈ reported h, ¬Acked h p.delivery := by
  have hrun : ∃ s h, (machine {}).Reach Machine.anyStep {} s h ∧ s.main = .returned ∧
      (∃ p ∈ reported h, p.delivery.tag = 1) ∧ h.all fun a => !(a matches .settle (.ack _ _)) :=
    Machine.Reach.exists_of_exec
      [.deliver ⟨⟨"j", "v", 0, 0, 0, blobKey "j" 0⟩, 1, false⟩, .take 0, .work (.loaded .frame),
        .work (.detected (some [])), .work (.claimed .won), .work (.add 0), .work .counted,
        .wake, .connectionClosed, .cancelRunner, .stopTimer,
        .work (.batcher .sinkReturned), .work (.batcher .settleNext), .returns]
      (by decide +kernel)
  obtain ⟨s, h, hr, hm, ⟨p, hp, -⟩, hq⟩ := hrun
  exact ⟨s, h, hr, hm, p, hp, not_acked_of_quiet hq p.delivery⟩

end DetectorRun

end VideoPipeline
