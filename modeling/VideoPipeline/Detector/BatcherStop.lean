import VideoPipeline.Detector.BatcherRun

/-!
# Stopping a result batcher

`stop` cancels the age watchdog, awaits it and flushes. What is buffered is settled as long as the
watchdog is not inside a flush of its own: that flush is left by the cancellation after the buffer
was swapped out, and nobody settles its deliveries.
-/

namespace VideoPipeline

open Amqp

namespace BatcherRun

variable {cfg : DetectorSettings} {s s' : BatcherRun} {e : Event} {h o : List Out} {b b' : Batcher}

/-- The flush settles a delivery as its sink call ended: it acks it or it nacks it with requeue. -/
def FlushRecord.Settles (f : FlushRecord) (p : Pending) : Prop :=
  p ∈ f.batch ∧
    ((f.raised = some false ∧ ∃ c ∈ f.settles, c.verdict = .acked ∧ c.Covers p.delivery.tag) ∨
      (f.raised = some true ∧ .nack p.delivery.tag true ∈ f.settles))

instance (f : FlushRecord) (p : Pending) : Decidable (f.Settles p) :=
  inferInstanceAs (Decidable (_ ∧ (_ ∨ _)))

/-- Nothing is pending, and everything that was added is settled. -/
def AllSettled (s : BatcherRun) (h : List Out) : Prop :=
  s.batcher.pending = [] ∧ ∀ x ∈ added h, ∃ f ∈ flushes h, f.Settles x.1

instance (s : BatcherRun) (h : List Out) : Decidable (AllSettled s h) :=
  inferInstanceAs (Decidable (_ ∧ _))

lemma FlushRecord.Settled.settles {f : FlushRecord} (hf : f.Settled) {p : Pending}
    (hp : p ∈ f.batch) : f.Settles p := by
  rcases hf with ⟨hret, hack⟩ | ⟨hraise, hnacks⟩
  · refine ⟨hp, .inl ⟨hret, .ack (Batcher.maxTag f.batch) true, ?_, rfl,
      Batcher.tag_le_maxTag hp⟩⟩
    rw [hack]
    exact List.mem_singleton_self _
  · refine ⟨hp, .inr ⟨hraise, ?_⟩⟩
    rw [hnacks]
    exact List.mem_map_of_mem hp

/-- Settlements succeed, and `stop` is called while no `add` is in progress. -/
def StopsAlone (s : BatcherRun) : Event → Prop
  | .settleRaises => False
  | .add _ _      => s.stop = .notCalled
  | .stop _       => s.batcher.flushing.map Flush.reason ≠ some .size
  | _             => True

instance (s : BatcherRun) : (e : Event) → Decidable (StopsAlone s e)
  | .settleRaises => inferInstanceAs (Decidable False)
  | .add _ _      => inferInstanceAs (Decidable (s.stop = .notCalled))
  | .stop _       => inferInstanceAs (Decidable (s.batcher.flushing.map Flush.reason ≠ some .size))
  | .start        => inferInstanceAs (Decidable True)
  | .flush        => inferInstanceAs (Decidable True)
  | .wake _       => inferInstanceAs (Decidable True)
  | .sinkReturned => inferInstanceAs (Decidable True)
  | .sinkRaised   => inferInstanceAs (Decidable True)
  | .settled      => inferInstanceAs (Decidable True)
  | .stopFlush    => inferInstanceAs (Decidable True)

/-- Every part of a flush of the history is a list that was passed to the sink. -/
lemma sunk_eq_flushes (h : List Out) :
    sunk h = (flushes h).reverse.map FlushRecord.batch := by
  induction h using List.reverseRecOn with
  | nil => rfl
  | append_singleton h x ih =>
    rw [sunk_append, ih, flushes_append]
    generalize flushes h = fs
    show _ = ((record fs x).reverse.map FlushRecord.batch)
    cases x with
    | added p now => exact List.append_nil _
    | act a =>
      cases a with
      | sinkCalled batch => simp [sunk, Out.sunk?, record]
      | sinkReturned batch | sinkRaised batch | settle c =>
        cases fs <;> simp [sunk, Out.sunk?, record]
      | _ => exact List.append_nil _

/-- `stop` has begun its flush. -/
def Stop.hasFlushed : Stop → Bool
  | .flushing | .returned | .flushRaised => true
  | _ => false

/-- The flush of `stop` takes all that is pending, and nothing is added after it. -/
structure Drained (s : BatcherRun) : Prop where
  pending : s.stop.hasFlushed = true → s.batcher.pending = []
  free : s.stop = .returned → s.batcher.flushing = none

lemma Effect.drained (he : Effect cfg b b' o) (hp : b.pending = []) (ho : BatcherRun.added o = []) :
    b'.pending = [] ∧ (b.flushing = none → b'.flushing = none) := by
  cases he with
  | nothing => exact ⟨hp, id⟩
  | added p now t hb hlt => cases ho
  | filled p now t hb hle => cases ho
  | ruled hr =>
    cases hr with
    | nothing _ hb => exact ⟨hp, id⟩
    | flushed reason _ hb hne => exact absurd hp hne
    | sinkReturned reason batch hb | sinkRaised reason batch hb | itemNacked reason p batch hb =>
      refine ⟨hp, ?_⟩
      intro hfree
      rw [hb] at hfree
      cases hfree
    | batchAcked reason batch hb => exact ⟨hp, fun _ => rfl⟩

/-- How `stop` gets on in a step: it begins its flush with the buffer taken, and it returns with the
lock free. -/
structure StopStep (s s' : BatcherRun) : Prop where
  pending : s'.stop.hasFlushed = true → s.stop.hasFlushed = true ∨ s'.batcher.pending = []
  free : s'.stop = .returned → s.stop = .returned ∨ s'.batcher.flushing = none

lemma StopStep.same (heq : s'.stop = s.stop) : StopStep s s' := by
  constructor
  · intro h
    rw [heq] at h
    exact .inl h
  · intro h
    rw [heq] at h
    exact .inl h

lemma StopStep.goOn {s₁ : BatcherRun} (hs : s₁.stop = s.stop) : StopStep s s₁.goOn := by
  rw [BatcherRun.goOn]
  split
  · exact .same hs
  · next hl =>
    have hfree := Batcher.locked_eq_false.mp (Bool.eq_false_of_not_eq_true hl)
    constructor
    · intro h
      dsimp only at h
      split at h
      · next hf =>
        left
        rw [← hs, hf]
        rfl
      · exact .inl (hs ▸ h)
    · intro _
      exact .inr hfree

lemma pending_flushLocked (b : Batcher) (reason : Reason) :
    (b.flushLocked reason).1.pending = [] := by
  rcases b.flushLocked_cases reason with ⟨hnil, heq⟩ | ⟨-, heq⟩
  · rw [heq]
    exact hnil
  · rw [heq]

lemma pending_of_flush {acts : List Act} (hb : b.flush = some (b', acts)) : b'.pending = [] := by
  rw [Batcher.flush] at hb
  split at hb
  · cases hb
  · have hpend := pending_flushLocked b .explicit
    rw [Option.some.inj hb] at hpend
    exact hpend

lemma stopStep_of_step (hs : step cfg s e = some (s', o)) : StopStep s s' := by
  cases Rule.of_step hs with
  | start _ _ | add _ _ _ | flush _ | sinkReturned _ | sinkRaised _ => exact .same rfl
  | wake _ _ _ | settled _ => exact .goOn rfl
  | settleRaises _ _ =>
    constructor
    · intro h
      dsimp only at h
      split at h
      · next hflush =>
        rw [hflush]
        exact .inl rfl
      · exact .inl h
    · intro hret
      dsimp only at hret
      split at hret
      · cases hret
      · exact .inl hret
  | stopFailed _ _ _ | stopIdle _ _ _ _ _ | stopCancels _ _ _ =>
    constructor
    · intro h
      cases h
    · intro h
      cases h
  | stopFlush _ hb =>
    have hpend := pending_of_flush hb
    constructor
    · intro _
      rw [goOn_batcher]
      exact .inr hpend
    · intro hret
      rcases (StopStep.goOn rfl).free hret with h | h
      · cases h
      · exact .inr h

@[simp] lemma added_map_act (acts : List Act) : added (acts.map .act) = [] := by
  induction acts with
  | nil => rfl
  | cons a acts ih => exact ih

/-- Only `add` adds. -/
lemma added_of_step (hs : step cfg s e = some (s', o)) (he : ∀ p now, e ≠ .add p now) :
    added o = [] := by
  cases Rule.of_step hs with
  | add p now _ => exact absurd rfl (he p now)
  | start _ _ | settleRaises _ _ | stopFailed _ _ _ | stopIdle _ _ _ _ _ => rfl
  | _ => exact added_map_act _

/-- Settlements succeed, and `stop` is called while no `add` is in progress and while the watchdog
is not inside a flush. -/
def StopsOutsideFlush (s : BatcherRun) (_ : List Out) (e : Event) : Prop :=
  StopsAlone s e ∧ s.leaves e = false

lemma drained_of_reach {c : ℚ} (hr : (machine cfg).Reach StopsOutsideFlush { clock := c } s h) :
    Drained s := by
  apply hr.invariant (P := fun s _ => Drained s)
  · exact ⟨fun _ => rfl, fun _ => rfl⟩
  · intro s h e s' o _ hd ho hs
    have hstep := stopStep_of_step hs
    rcases effect_of_step hs with he | ⟨hl, -⟩
    · have hdrained : s.stop.hasFlushed = true →
          s'.batcher.pending = [] ∧ (s.batcher.flushing = none → s'.batcher.flushing = none) := by
        intro hstop
        apply he.drained (hd.pending hstop)
        apply added_of_step hs
        rintro p now rfl
        have hnot : s.stop = .notCalled := ho.1
        rw [hnot] at hstop
        cases hstop
      constructor
      · intro hstop
        rcases hstep.pending hstop with hbefore | hpend
        · exact (hdrained hbefore).1
        · exact hpend
      · intro hret
        rcases hstep.free hret with hbefore | hfree
        · exact (hdrained (by rw [hbefore]; rfl)).2 (hd.free hbefore)
        · exact hfree
    · rw [ho.2] at hl
      cases hl

/-- When `stop` returns, nothing is pending and everything that was added is settled, in every run
in which the watchdog is not inside a flush when `stop` is called. -/
theorem stop_settles {c : ℚ} (hr : (machine cfg).Reach StopsOutsideFlush { clock := c } s h)
    (hstop : s.stop = .returned) : AllSettled s h := by
  have hdrained := drained_of_reach hr
  have hpend := hdrained.pending (by rw [hstop]; rfl)
  have hkept := (kept_of_reach hr).added_eq
  obtain ⟨current, past, hrec, hf⟩ := recorded_of_reach (fun _ _ _ ho => ho.2) hr
  have hnil := hrec.inProgress
  rw [hdrained.free hstop] at hnil
  have hnil : current = [] := hnil
  refine ⟨hpend, ?_⟩
  intro x hx
  have hmem : x.1 ∈ (sunk h).flatten := by
    rw [hpend, List.append_nil] at hkept
    rw [← hkept]
    exact List.mem_map_of_mem hx
  rw [sunk_eq_flushes, List.mem_flatten] at hmem
  obtain ⟨batch, hbatch, hx⟩ := hmem
  rw [List.mem_map] at hbatch
  obtain ⟨f, hfmem, rfl⟩ := hbatch
  rw [List.mem_reverse] at hfmem
  refine ⟨f, hfmem, ?_⟩
  rw [hf, hnil, List.nil_append] at hfmem
  exact (hrec.settled f hfmem).settles hx

instance (s : BatcherRun) (h : List Out) (e : Event) : Decidable (StopsOutsideFlush s h e) :=
  inferInstanceAs (Decidable (_ ∧ _))

/-- `stop` waits for a flush of another task, whose sink call raises. -/
theorem stop_settles_after_failed_flush :
    ∃ s h, (machine {}).Reach StopsOutsideFlush {} s h ∧ s.stop = .returned ∧
      (added h).length = 1 ∧ AllSettled s h := by
  have hrun : ∃ s h, (machine {}).Reach StopsOutsideFlush {} s h ∧ s.stop = .returned ∧
      (added h).length = 1 :=
    Machine.Reach.exists_of_exec [.start, .add (item 1) 0, .flush, .stop false, .sinkRaised,
      .settled, .stopFlush] (by decide +kernel)
  obtain ⟨s, h, hr, hstop, hlen⟩ := hrun
  exact ⟨s, h, hr, hstop, hlen, stop_settles hr hstop⟩

/-- The watchdog waits for the sink when `stop` cancels it. Its flush is left, and the delivery is
neither acked nor nacked. -/
theorem stop_abandons_flush :
    ∃ s h, (machine {}).Reach (fun s _ e => StopsAlone s e) {} s h ∧ s.stop = .returned ∧
      h = [.added (item 1) 0, .act (.sinkCalled [item 1])] ∧ ¬ AllSettled s h :=
  Machine.Reach.exists_of_exec [.start, .add (item 1) 0, .wake 1, .stop false, .stopFlush]
    (by decide +kernel)

end BatcherRun

end VideoPipeline
