import VideoPipeline.Analyzer.Backpressure

/-!
# Cancelling a run

The task that awaits `run` may be cancelled at each of its await points. A thread that decodes
cannot be stopped by that: the stop sentinels are put while it goes on, the publisher tasks end, and
`run` exits under it. As long as `run` is not cancelled while its decode loop runs, the loop is over
whenever `run` has exited.
-/

namespace VideoPipeline

/-- Where the executor has the decode function. -/
inductive Decode where
  | queued
  | started
  /-- The call was cancelled before a thread has taken it. -/
  | dropped
  deriving DecidableEq, Repr

/-- How `run` exits. -/
inductive RunExit where
  | returned
  | raised (exc : String)
  | cancelled
  deriving DecidableEq, Repr

/-- One call of `run`, and the source that its caller closes. -/
structure RunCall where
  stream : Stream
  decode : Decode
  /-- `run` leaves with the cancellation. -/
  cancelled : Bool
  /-- The publisher tasks that have not ended are cancelled. -/
  gatherCancelled : Bool
  closed : Bool

namespace RunCall

def start (cfg : Dispatch) (sampler : FrameSampler) (prior : Option JobRecord)
    (items : List Item) : RunCall :=
  ⟨.start cfg sampler prior items, .queued, false, false, false⟩

def thread (s : RunCall) : Thread := s.stream.pipeline.thread

def main (s : RunCall) : Main := s.stream.pipeline.main

def withMain (s : RunCall) (m : Main) : RunCall :=
  { s with stream.pipeline.main := m }

@[simp] lemma withMain_thread (s : RunCall) (m : Main) : (s.withMain m).thread = s.thread := rfl

@[simp] lemma withMain_main (s : RunCall) (m : Main) : (s.withMain m).main = m := rfl

/-- What `run` has exited with. -/
def exit? (s : RunCall) : Option RunExit :=
  match s.main with
  | .finished =>
    if s.cancelled then some .cancelled
    else
      match s.thread with
      | .raised exc => some (.raised exc)
      | _           => some .returned
  | _ => none

inductive Event where
  /-- A thread of the executor takes the decode function. -/
  | begin
  /-- A step of the pipeline. -/
  | own (e : Stream.Event)
  | cancel
  /-- A publisher task ends by its cancellation. -/
  | workerCancelled (w : ℕ)
  /-- The caller closes the source. -/
  | close
  deriving DecidableEq, Repr

inductive Output where
  | out (o : Stream.Output)
  | closed
  deriving DecidableEq, Repr

/-- The steps of the decode thread. -/
def ofThread : Stream.Event → Bool
  | .quit | .own .advance | .own .handle | .own .enqueue | .own .look
  | .own (.sourceRaised _) => true
  | _                      => false

def ofWorker : Stream.Event → Bool
  | .own (.worker _ _) => true
  | _                  => false

/-- The function has been started for a step of the thread, and a step of a publisher task is not
cancelled. -/
def allows (s : RunCall) (e : Stream.Event) : Bool :=
  (!ofThread e || s.decode == .started) && (!ofWorker e || !s.gatherCancelled)

/-- `Task.cancel` on the task that awaits `run`. -/
def cancel (cfg : Dispatch) (s : RunCall) : Option RunCall :=
  match s.main with
  | .awaiting =>
    some { s.withMain (.stopping cfg.settings.analyzerPublishers) with
      decode := if s.decode = .queued then .dropped else s.decode
      cancelled := true }
  -- the `put` of a sentinel raises, which leaves the `finally` block
  | .stopping (_ + 1) => some { s.withMain .finished with cancelled := true }
  | .stopping 0       => some { s with cancelled := true, gatherCancelled := true }
  | .finished         => none

def step (cfg : Dispatch) (s : RunCall) : Event → Option (RunCall × List Output)
  | .begin => if s.decode = .queued then some ({ s with decode := .started }, []) else none
  | .own e =>
    if s.allows e then
      (s.stream.step cfg e).map fun r => ({ s with stream := r.1 }, r.2.map .out)
    else none
  | .cancel => (s.cancel cfg).map fun s' => (s', [])
  | .workerCancelled w =>
    if s.gatherCancelled ∧ w < cfg.settings.analyzerPublishers ∧
        s.stream.pipeline.workers w ≠ .done then
      some ({ s with
        stream.pipeline.workers := Function.update s.stream.pipeline.workers w .done }, [])
    else none
  | .close =>
    if s.main = .finished ∧ s.closed = false then some ({ s with closed := true }, [.closed])
    else none

def machine (cfg : Dispatch) : Machine RunCall Event Output := ⟨step cfg⟩

/-- The decode loop has ended, or it was never begun. -/
def DecodeOver (s : RunCall) : Prop := s.thread.isOver = true ∨ s.decode = .dropped

instance (s : RunCall) : Decidable s.DecodeOver := inferInstanceAs (Decidable (_ ∨ _))

/-- The decode loop runs. -/
def decoding (s : RunCall) : Bool := s.decode == .started && !s.thread.isOver

/-- `run` is not cancelled while its decode loop runs. -/
def SparesDecode (s : RunCall) (_ : List Output) (e : Event) : Prop :=
  e = .cancel → s.decoding = false

instance (s : RunCall) (h : List Output) (e : Event) : Decidable (SparesDecode s h e) :=
  inferInstanceAs (Decidable (_ → _))

variable {cfg : Dispatch} {s s' : RunCall} {st st' : Stream} {e : Event} {h out : List Output}

/-! ### What a step does -/

/-- The steps of a call of `run`. -/
inductive Rule (cfg : Dispatch) (s : RunCall) : Event → RunCall → List Output → Prop where
  | begin (hd : s.decode = .queued) : Rule cfg s .begin { s with decode := .started } []
  | own (e : Stream.Event) (st : Stream) (out : List Stream.Output)
      (hthread : ofThread e = true → s.decode = .started) (hr : Stream.Rule cfg s.stream e st out) :
      Rule cfg s (.own e) { s with stream := st } (out.map .out)
  | cancelDecode (hm : s.main = .awaiting) :
      Rule cfg s .cancel
        { s.withMain (.stopping cfg.settings.analyzerPublishers) with
          decode := if s.decode = .queued then .dropped else s.decode
          cancelled := true } []
  | cancelPut (n : ℕ) (hm : s.main = .stopping (n + 1)) :
      Rule cfg s .cancel { s.withMain .finished with cancelled := true } []
  | cancelGather (hm : s.main = .stopping 0) :
      Rule cfg s .cancel { s with cancelled := true, gatherCancelled := true } []
  | workerCancelled (w : ℕ) (hw : w < cfg.settings.analyzerPublishers)
      (hd : s.stream.pipeline.workers w ≠ .done) :
      Rule cfg s (.workerCancelled w)
        { s with stream.pipeline.workers := Function.update s.stream.pipeline.workers w .done } []
  | close (hm : s.main = .finished) (hc : s.closed = false) :
      Rule cfg s .close { s with closed := true } [.closed]

lemma Rule.of_step (hs : step cfg s e = some (s', out)) : Rule cfg s e s' out := by
  cases e with
  | begin =>
    simp only [step] at hs
    split at hs
    · next hd =>
      cases hs
      exact .begin hd
    · cases hs
  | own e =>
    simp only [step] at hs
    split at hs
    · next hallow =>
      obtain ⟨⟨st, out⟩, hst, heq⟩ := Option.map_eq_some_iff.mp hs
      cases heq
      refine .own e st out ?_ (.of_step hst)
      intro hthread
      simpa [allows, hthread] using (Bool.and_eq_true_iff.mp hallow).1
    · cases hs
  | cancel =>
    simp only [step, cancel] at hs
    split at hs
    · next hm =>
      cases hs
      exact .cancelDecode hm
    · next n hm =>
      cases hs
      exact .cancelPut n hm
    · next hm =>
      cases hs
      exact .cancelGather hm
    · cases hs
  | workerCancelled w =>
    simp only [step] at hs
    split at hs
    · next hw =>
      cases hs
      exact .workerCancelled w hw.2.1 hw.2.2
    · cases hs
  | close =>
    simp only [step] at hs
    split at hs
    · next hm =>
      cases hs
      exact .close hm.1 hm.2
    · cases hs

/-- A step of the thread leaves the task that awaits it, and another step leaves the thread. That
task goes on from the thread when it is over. -/
lemma thread_or {e : Stream.Event} {out : List Stream.Output} (hr : Stream.Rule cfg st e st' out) :
    (ofThread e = true ∧ st.pipeline.thread.isOver = false ∧
      st'.pipeline.main = st.pipeline.main) ∨
    (ofThread e = false ∧ st'.pipeline.thread = st.pipeline.thread ∧
      (st.pipeline.main = .awaiting →
        st'.pipeline.main = .awaiting ∨ st.pipeline.thread.isOver = true) ∧
      (st.pipeline.main = .finished → st'.pipeline.main = .finished)) := by
  cases hr with
  | quit ht | exhausted ht | yielded it items ht => exact .inl ⟨rfl, by rw [ht]; rfl, rfl⟩
  | own e p' out hadv hr =>
    cases hr with
    | aborted | exhausted | skip | keep => exact absurd rfl hadv
    | failure f ht | frame f ht | enqueue f ht | look ht | sourceRaised exc ht =>
      exact .inl ⟨rfl, by rw [ht]; rfl, rfl⟩
    | disconnect => exact .inr ⟨rfl, rfl, fun hm => .inl hm, id⟩
    | decodeDone hm ht =>
      refine .inr ⟨rfl, rfl, fun _ => .inr ht, fun hfin => ?_⟩
      rw [hm] at hfin
      cases hfin
    | putStop n hm =>
      refine .inr ⟨rfl, rfl, fun hm' => ?_, fun hm' => ?_⟩ <;>
      · rw [hm] at hm'
        cases hm'
    | gathered hm =>
      refine .inr ⟨rfl, rfl, fun hm' => ?_, fun _ => rfl⟩
      rw [hm] at hm'
      cases hm'
    | worker w op p' out hw hr =>
      obtain ⟨ht, hm⟩ := hr.frame
      exact .inr ⟨rfl, ht, fun h => .inl (hm.trans h), fun h => hm.trans h⟩

/-! ### The decode loop and the exit -/

/-- A function that is not started decodes nothing, and the source is closed after the exit. -/
structure Closes (s : RunCall) : Prop where
  looking : s.decode ≠ .started → s.thread = .looking
  closed : s.closed = true → s.main = .finished

lemma Closes.step (hc : Closes s) (hr : Rule cfg s e s' out) : Closes s' := by
  cases hr with
  | begin => exact ⟨fun hne => absurd rfl hne, hc.closed⟩
  | own e st out hthread hr =>
    rcases thread_or hr with ⟨he, -, hm⟩ | ⟨-, ht, -, hfin⟩
    · exact ⟨fun hne => absurd (hthread he) hne, fun hcl => hm.trans (hc.closed hcl)⟩
    · exact ⟨fun hne => ht.trans (hc.looking hne), fun hcl => hfin (hc.closed hcl)⟩
  | cancelDecode hm =>
    constructor
    · intro hne
      apply hc.looking
      intro hst
      rw [hst] at hne
      exact hne rfl
    · intro hcl
      have hfin := hc.closed hcl
      rw [hm] at hfin
      cases hfin
  | cancelPut n hm => exact ⟨hc.looking, fun _ => rfl⟩
  | cancelGather | workerCancelled => exact ⟨hc.looking, hc.closed⟩
  | close hm => exact ⟨hc.looking, fun _ => hm⟩

theorem Closes.of_reach {ok : RunCall → List Output → Event → Prop} {sampler : FrameSampler}
    {prior : Option JobRecord} {items : List Item}
    (hr : (machine cfg).Reach ok (start cfg sampler prior items) s h) : Closes s := by
  refine hr.invariant (P := fun s _ => Closes s) ⟨fun _ => rfl, ?_⟩ ?_
  · intro hcl
    cases hcl
  · exact fun _ _ _ _ _ _ hc _ hs => hc.step (.of_step hs)

/-- A step leaves the decode loop over once `run` does not await it. -/
lemma over_step (hover : s.main ≠ .awaiting → s.DecodeOver) (hok : SparesDecode s h e)
    (hr : Rule cfg s e s' out) (hm' : s'.main ≠ .awaiting) : s'.DecodeOver := by
  cases hr with
  | begin hd =>
    rcases hover hm' with h | h
    · exact .inl h
    · rw [hd] at h
      cases h
  | own e st out hthread hr =>
    rcases thread_or hr with ⟨he, hnot, hm⟩ | ⟨-, ht, hgo, -⟩
    · rcases hover (fun h => hm' (hm.trans h)) with h | h
      · exact absurd (hnot.symm.trans h) Bool.false_ne_true
      · rw [hthread he] at h
        cases h
    · by_cases hm : s.main = .awaiting
      · rcases hgo hm with h | h
        · exact absurd h hm'
        · exact .inl ((congrArg Thread.isOver ht).trans h)
      · rcases hover hm with h | h
        · exact .inl ((congrArg Thread.isOver ht).trans h)
        · exact .inr h
  | cancelDecode hm =>
    have hspared := hok rfl
    cases hd : s.decode with
    | queued | dropped => exact .inr (by simp)
    | started =>
      have hended : s.thread.isOver = true := by simpa [decoding, hd] using hspared
      exact .inl hended
  | cancelPut n hm | cancelGather hm => exact hover (by rw [hm]; simp)
  | workerCancelled | close => exact hover hm'

/-- When `run` has exited in a run in which it was not cancelled while its decode loop ran, the loop
is over: nothing is being put, no step of the thread is possible, and the source is closed after
that. -/
theorem decode_over_at_exit {sampler : FrameSampler} {prior : Option JobRecord}
    {items : List Item}
    (hr : (machine cfg).Reach SparesDecode (start cfg sampler prior items) s h) :
    (s.closed = true → s.exit? ≠ none) ∧
    (s.exit? ≠ none → s.DecodeOver ∧ (∀ f, s.thread ≠ .putting f) ∧
      ∀ e, ofThread e = true → s.step cfg (.own e) = none) := by
  have hcloses := Closes.of_reach hr
  have hover : s.main ≠ .awaiting → s.DecodeOver := by
    refine hr.invariant (P := fun s _ => s.main ≠ .awaiting → s.DecodeOver) ?_ ?_
    · exact fun hm => absurd rfl hm
    · exact fun _ _ _ _ _ _ hover hok hs => over_step hover hok (.of_step hs)
  constructor
  · intro hcl
    rw [exit?, hcloses.closed hcl]
    dsimp only
    split
    · intro h
      cases h
    · split <;> simp
  · intro hexit
    have hm : s.main ≠ .awaiting := by
      intro hm
      rw [exit?, hm] at hexit
      exact hexit rfl
    have hdone := hover hm
    refine ⟨hdone, ?_, ?_⟩
    · intro f hf
      rcases hdone with h | h
      · rw [hf] at h
        cases h
      · have hlook := hcloses.looking (by simp [h])
        rw [hf] at hlook
        cases hlook
    · intro e he
      by_contra hne
      obtain ⟨⟨s', out⟩, hs⟩ := Option.ne_none_iff_exists'.mp hne
      cases Rule.of_step hs with
      | own e st out hthread hr =>
        rcases thread_or hr with ⟨-, hnot, -⟩ | ⟨he', -⟩
        · rcases hdone with h | h
          · exact absurd (hnot.symm.trans h) Bool.false_ne_true
          · rw [hthread he] at h
            cases h
        · rw [he] at he'
          cases he'

/-- The decode thread raises, `run` is cancelled at the `put` of the second sentinel, and the source
is closed. -/
theorem decode_over_at_exit_cancelled :
    ∃ cfg sampler items s h, (machine cfg).Reach SparesDecode (start cfg sampler none items) s h ∧
      s.exit? = some .cancelled ∧ s.closed = true ∧ s.DecodeOver ∧
      ∀ e, ofThread e = true → s.step cfg (.own e) = none := by
  have hrun : ∃ s h, (machine ⟨{analyzerPublishers := 2, analyzerQueueSize := 1}, .clip [],
      "j", "v"⟩).Reach SparesDecode
      (start ⟨{analyzerPublishers := 2, analyzerQueueSize := 1}, .clip [], "j", "v"⟩ .everyFrame
        none []) s h ∧
      s.exit? = some .cancelled ∧ s.closed = true :=
    Machine.Reach.exists_of_exec
      [.begin, .own (.own (.sourceRaised "decoder")), .own (.own .decodeDone),
        .own (.own .putStop), .cancel, .close]
      (by decide +kernel)
  obtain ⟨s, h, hr, hexit, hclosed⟩ := hrun
  obtain ⟨hover, -, hnone⟩ :=
    (decode_over_at_exit hr).2 (by rw [hexit]; exact Option.some_ne_none _)
  exact ⟨_, _, _, s, h, hr, hexit, hclosed, hover, hnone⟩

/-! ### A put that blocks -/

/-- `run` has exited, the thread waits for a place in the full queue, and no task is left that takes
from it. -/
structure Stuck (cfg : Dispatch) (s : RunCall) (f : SampledFrame) : Prop where
  exited : s.main = .finished
  putting : s.thread = .putting f
  full : cfg.settings.analyzerQueueSize ≤ s.stream.pipeline.queue.length
  done : ∀ w < cfg.settings.analyzerPublishers, s.stream.pipeline.workers w = .done

lemma Stuck.step {f : SampledFrame} (hst : Stuck cfg s f) (hr : Rule cfg s e s' out) :
    Stuck cfg s' f := by
  obtain ⟨hexit, hput, hfull, hdone⟩ := hst
  cases hr with
  | begin | close => exact ⟨hexit, hput, hfull, hdone⟩
  | cancelDecode hm | cancelPut n hm | cancelGather hm =>
    rw [hexit] at hm
    cases hm
  | workerCancelled w hw hd => exact absurd (hdone w hw) hd
  | own e st out hthread hr =>
    rw [thread] at hput
    rw [main] at hexit
    cases hr with
    | quit ht | exhausted ht | yielded it items ht =>
      rw [hput] at ht
      cases ht
    | own e p' out hadv hr =>
      cases hr with
      | aborted | exhausted | skip | keep => exact absurd rfl hadv
      | failure f' ht | frame f' ht | look ht | sourceRaised exc ht =>
        rw [hput] at ht
        cases ht
      | enqueue f' ht hq => exact absurd hq (not_lt.mpr hfull)
      | disconnect hm | decodeDone hm | putStop n hm | gathered hm =>
        rw [hexit] at hm
        cases hm
      | worker w op p' out hw hr =>
        cases hr with
        | gaveUp f' exc hh =>
          rw [hdone w hw] at hh
          cases hh
        | checkpointRaised exc hh =>
          rw [hdone w hw] at hh
          cases hh
        | stop q hh | drain f' q hh | take f' q hh | stored f' now hh | published f' ref hh
        | confirmed f' ref hh | snapshot f' ref hh | checkpointWritten c hh
        | checkpointReturned hh =>
          rw [hdone w hw] at hh
          cases hh

/-- The put blocks for good. -/
theorem Stuck.of_reach {ok : RunCall → List Output → Event → Prop} {f : SampledFrame}
    (hst : Stuck cfg s f) (hr : (machine cfg).Reach ok s s' h) : Stuck cfg s' f :=
  hr.invariant (P := fun s _ => Stuck cfg s f) hst
    fun _ _ _ _ _ _ hst _ hs => hst.step (.of_step hs)

instance (cfg : Dispatch) (s : RunCall) (f : SampledFrame) : Decidable (Stuck cfg s f) :=
  decidable_of_iff
    (s.main = .finished ∧ s.thread = .putting f ∧
      cfg.settings.analyzerQueueSize ≤ s.stream.pipeline.queue.length ∧
      ∀ w < cfg.settings.analyzerPublishers, s.stream.pipeline.workers w = .done)
    ⟨fun h => ⟨h.1, h.2.1, h.2.2.1, h.2.2.2⟩, fun h => ⟨h.exited, h.putting, h.full, h.done⟩⟩

/-- `run` is cancelled while it awaits the decode thread. Its task puts the sentinel and exits, the
thread decodes two more frames, and the source is closed while the thread waits for a place in the
queue, for ever. -/
theorem cancel_strands_thread :
    ∃ cfg sampler items s h f, (machine cfg).Reach Machine.anyStep
        (start cfg sampler none items) s h ∧
      s.exit? = some .cancelled ∧ s.closed = true ∧ ¬ s.DecodeOver ∧
      ∀ s' h', (machine cfg).Reach Machine.anyStep s s' h' → s'.thread = .putting f := by
  have hrun : ∃ s h, (machine ⟨{analyzerPublishers := 1, analyzerQueueSize := 1}, .clip [], "j",
      "v"⟩).Reach Machine.anyStep (start ⟨{analyzerPublishers := 1, analyzerQueueSize := 1},
        .clip [], "j", "v"⟩ .everyFrame none
        [.frame ⟨0, 0, 0, [], 1, 1⟩, .frame ⟨1, 1, 1, [], 1, 1⟩]) s h ∧
      s.exit? = some .cancelled ∧ s.closed = true ∧ ¬ s.DecodeOver ∧
      Stuck ⟨{analyzerPublishers := 1, analyzerQueueSize := 1}, .clip [], "j", "v"⟩ s
        ⟨1, 1, 1, [], 1, 1⟩ :=
    Machine.Reach.exists_of_exec
      [.begin, .cancel, .own (.own .putStop), .own (.own (.worker 0 .take)), .own (.own .gathered),
        .own (.own .advance), .own (.own .handle), .own (.own .enqueue), .own (.own .look),
        .own (.own .advance), .own (.own .handle), .close]
      (by decide +kernel)
  obtain ⟨s, h, hr, hexit, hclosed, hnot, hstuck⟩ := hrun
  exact ⟨_, _, _, s, h, _, hr, hexit, hclosed, hnot,
    fun s' h' hr' => (hstuck.of_reach hr').putting⟩

end RunCall

end VideoPipeline
