import VideoPipeline.Detector.Fleet

/-!
# No frame is reported twice

With a guard that keeps its keys and never answers without recording, a claim is won once for each
frame, and the result that was won under it leaves the buffer of its detector once.
-/

namespace VideoPipeline

namespace Fleet

variable {cfg : DetectorSettings} {n : ℕ} {f f' : Fleet} {e : Event} {out h : List Output}

/-- How often a frame has been in a sink call or is going to be in the next one. -/
def reports (n : ℕ) (f : Fleet) (h : List Output) (k : String) : ℕ :=
  (called h).countP (fun p => p.key = k) +
    ∑ d ∈ Finset.range n, (f.replicas d).worker.awaiting.countP fun p => p.key = k

/-- A frame is on its way to the sink at most once, and only under a claim. -/
def ReportedOnce (n : ℕ) (f : Fleet) (h : List Output) : Prop :=
  ∀ k, reports n f h k ≤ if k ∈ f.guard then 1 else 0

/-- What a step of a worker adds to the reports is what `process` gave. -/
lemma reports_work {d : ℕ} {op : Worker.Op} {as : List Act} (hd : d < n)
    (hw : Worker.Rule cfg (f.replicas d).worker op (f'.replicas d).worker as)
    (has : acts out = as) (hne : ∀ i, i ≠ d → f'.replicas i = f.replicas i) (k : String) :
    reports n f' (h ++ out) k =
      reports n f h k + (as.flatMap Act.won).countP fun p => p.key = k := by
  have hsum := Family.sum_of_ne
    (fun r : Replica => r.worker.awaiting.countP fun p => p.key = k) hd hne
  have hflow := congrArg (List.countP fun p => decide (p.key = k)) hw.flow.1
  rw [List.countP_append, List.countP_append] at hflow
  simp only [reports, called_append, List.countP_append]
  rw [show called out = as.flatMap Act.called by rw [called, has]]
  omega

theorem ReportedOnce.step (ho : ReportedOnce n f h) (hr : Rule cfg n f e f' out)
    (hok : guardKeeps f h e) : ReportedOnce n f' (h ++ out) := by
  intro k
  have hk := ho k
  rcases hr.effect with ⟨-, hguard, hsame, hcall, -⟩ |
    ⟨d, op, pos, as, rfl, hd, hw, hg, has, hne⟩ | ⟨d, pos, rfl, hd, hguard, rfl, hnew, hne⟩
  · have hnot : ∀ key, e ≠ .expire key := by
      rintro key rfl
      exact hok
    rw [hguard hnot]
    simp only [reports, called_append, hcall, List.append_nil, (hsame _).2] at hk ⊢
    exact hk
  · rw [reports_work hd hw has hne]
    rcases hw.answer_cases hg with ⟨hgd, hwon, -⟩ |
      ⟨x, faces, -, ⟨-, hfree, hgd, hwon, -⟩ | ⟨rfl, -⟩ | ⟨-, -, hgd, hwon, -⟩⟩
    · rw [hgd, hwon]
      exact hk
    · rw [hgd, hwon]
      by_cases hkx : k = x.ref.key
      · subst hkx
        rw [if_neg hfree] at hk
        rw [if_pos List.mem_cons_self]
        simp only [List.countP_cons, List.countP_nil, Pending.key, decide_true, if_true]
        omega
      · have hmem : k ∈ x.ref.key :: f.guard ↔ k ∈ f.guard := by simp [hkx]
        simp only [hmem, List.countP_cons, List.countP_nil, Pending.key,
          decide_eq_true_eq, Ne.symm hkx, if_false]
        exact hk
    · exact hok.elim
    · rw [hgd, hwon]
      exact hk
  · have hsum := Family.sum_of_ne
      (fun r : Replica => r.worker.awaiting.countP fun p => p.key = k) hd hne
    have hzero : (f'.replicas d).worker.awaiting = [] := by rw [hnew]; rfl
    rw [hguard]
    simp only [reports, List.append_nil, hzero, List.countP_nil] at hk hsum ⊢
    omega

lemma ReportedOnce.of_reach (hr : (machine cfg n).Reach guardKeeps Fleet.init f h) :
    ReportedOnce n f h := by
  refine hr.invariant ?_ ?_
  · intro k
    simp [reports, called, acts, Fleet.init, Replica.init, Worker.awaiting, Worker.Phase.adding?]
  · intro f h e f' out _ ho hok hs
    exact ho.step (Rule.of_step hs) hok

lemma ReportedOnce.countP_le_one (ho : ReportedOnce n f h) (k : String) :
    (called h).countP (fun p => p.key = k) ≤ 1 :=
  calc (called h).countP (fun p => p.key = k) ≤ reports n f h k := Nat.le_add_right _ _
    _ ≤ 1 := (ho k).trans (by split <;> omega)

/-- Whatever is published, redelivered, requeued or lost in a crash, no frame occurs twice in the
batches of all sink calls. -/
theorem reported_at_most_once (hr : (machine cfg n).Reach guardKeeps Fleet.init f h)
    (jobId : String) (frameId : ℤ) :
    (called h).countP
      (fun p => p.delivery.ref.jobId = jobId ∧ p.delivery.ref.frameId = frameId) ≤ 1 := by
  calc (called h).countP
        (fun p => p.delivery.ref.jobId = jobId ∧ p.delivery.ref.frameId = frameId)
      ≤ (called h).countP fun p => p.key = dedupKey jobId frameId := by
        apply List.countP_mono_left
        intro p _ hp
        obtain ⟨rfl, rfl⟩ := of_decide_eq_true hp
        exact decide_eq_true rfl
    _ ≤ 1 := (ReportedOnce.of_reach hr).countP_le_one _

/-- Two detectors get the same frame, published twice, and one of them its first copy twice. -/
theorem reported_at_most_once_run :
    ∃ f h, (machine {batchMaxSize := 1} 2).Reach guardKeeps Fleet.init f h ∧
      (published h).length = 2 ∧ (called h).length = 1 ∧
      (called h).countP (fun p => p.delivery.ref.jobId = "j" ∧ p.delivery.ref.frameId = 0) ≤ 1 := by
  have hrun : ∃ f h, (machine {batchMaxSize := 1} 2).Reach guardKeeps Fleet.init f h ∧
      ((published h).length = 2 ∧ (called h).length = 1) :=
    Machine.Reach.exists_of_exec
      [.publish ⟨"j", "v", 0, 0, 0, blobKey "j" 0⟩, .publish ⟨"j", "v", 0, 0, 0, blobKey "j" 0⟩,
        .deliver 0 0 1, .deliver 1 0 1, .take 0 0 0, .take 1 0 0,
        .work 0 (.loaded .frame) 0, .work 1 (.loaded .frame) 0,
        .work 0 (.detected (some [])) 0, .work 1 (.detected (some [])) 0,
        .work 1 (.claimed .won) 0, .work 0 (.claimed .lost) 0, .work 0 .settled 0,
        .work 1 (.add 0) 0, .work 1 (.batcher .sinkRaised) 0, .work 1 (.batcher .settleNext) 0,
        .work 1 .counted 0, .deliver 0 0 2, .take 0 0 0, .work 0 (.loaded .frame) 0,
        .work 0 (.detected (some [])) 0, .work 0 (.claimed .lost) 0, .work 0 .settled 0]
      (by decide)
  obtain ⟨f, h, hr, hp, hc⟩ := hrun
  exact ⟨f, h, hr, hp, hc, reported_at_most_once hr "j" 0⟩

end Fleet

end VideoPipeline
