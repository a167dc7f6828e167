import VideoPipeline.Detector.AtMostOnce

/-!
# What the progress counter of a job counts

`increment_processed` is called once for every result that `process` gives, when the result is in
the buffer. Whether it is delivered is decided by the flush: the results of a sink call that raises
are dropped, and the redelivered frames are duplicates.
-/

namespace VideoPipeline

open Amqp

/-- The progress update of the job. -/
def Act.isCounted (jobId : String) : Act → Bool
  | .counted j => j = jobId
  | _ => false

namespace Worker

variable {cfg : DetectorSettings} {w w' : Worker} {op : Op} {acts : List Act}

/-- The job of a result that is about to be buffered or counted. -/
def Phase.uncounted? : Phase → Option String
  | .adding d _ => some d.ref.jobId
  | .flushing jobId | .counting jobId => some jobId
  | _ => none

/-- How many results of the job are not counted yet: one or none. -/
def uncounted (jobId : String) (w : Worker) : ℕ :=
  if w.phase.uncounted? = some jobId then 1 else 0

/-- The result belongs to the job. -/
def ofJob (jobId : String) (p : Pending) : Bool := p.delivery.ref.jobId = jobId

lemma uncounted_congr {jobId : String} (h : w'.phase.uncounted? = w.phase.uncounted?) :
    w'.uncounted jobId = w.uncounted jobId := by
  rw [uncounted, uncounted, h]

lemma afterFlush_uncounted (w : Worker) : w.afterFlush.phase.uncounted? = w.phase.uncounted? := by
  unfold afterFlush
  split
  · next hp =>
    split
    · rfl
    · rw [hp]
      rfl
  · rfl

lemma uncounted_of_inProcess {p : Phase} {d : Delivery} (h : p.inProcess = some d) :
    p.uncounted? = none := by
  cases p <;> first | rfl | cases h

lemma handle_uncounted (w : Worker) (d : Delivery) (o : Outcome) (jobId : String) :
    (w.handle d o).1.uncounted jobId = (Act.outcome d o).won.countP (ofJob jobId) := by
  cases o with
  | result r =>
    simp only [handle, uncounted, Phase.uncounted?, Act.won, List.countP_cons, List.countP_nil,
      ofJob, Option.some.injEq, decide_eq_true_eq, Nat.zero_add]
  | transient =>
    simp only [handle]
    split <;> rfl
  | _ => rfl

/-- Every result is counted once it is in the buffer. -/
lemma Rule.counted_balance (hr : Rule cfg w op w' acts) (jobId : String) :
    acts.countP (Act.isCounted jobId) + w'.uncounted jobId =
      w.uncounted jobId + (acts.flatMap Act.won).countP (ofJob jobId) := by
  have of_same : w'.phase.uncounted? = w.phase.uncounted? →
      acts.countP (Act.isCounted jobId) = 0 → acts.flatMap Act.won = [] →
      acts.countP (Act.isCounted jobId) + w'.uncounted jobId =
        w.uncounted jobId + (acts.flatMap Act.won).countP (ofJob jobId) := by
    intro hp hc hw
    rw [hc, hw, uncounted_congr hp, List.countP_nil, Nat.zero_add, Nat.add_zero]
  have of_handle : ∀ d o, w.phase.uncounted? = none → w' = (w.handle d o).1 →
      acts.countP (Act.isCounted jobId) = 0 → acts.flatMap Act.won = (Act.outcome d o).won →
      acts.countP (Act.isCounted jobId) + w'.uncounted jobId =
        w.uncounted jobId + (acts.flatMap Act.won).countP (ofJob jobId) := by
    intro d o hp hw' hc hwon
    have hw : w.uncounted jobId = 0 := by
      rw [uncounted, hp]
      rfl
    rw [hc, hw', handle_uncounted, hw, hwon]
  cases hr with
  | proceed d hw hp =>
    exact of_same ((uncounted_of_inProcess hp).trans (uncounted_of_inProcess hw).symm) rfl rfl
  | fail d o hw ho =>
    refine of_handle d o (uncounted_of_inProcess hw) rfl rfl ?_
    rw [handle_acts, List.flatMap_singleton]
  | claimed d faces r hw =>
    refine of_handle d (claimOutcome d faces r) (by rw [hw]; rfl) rfl rfl ?_
    rw [List.flatMap_cons, List.flatMap_singleton]
    rfl
  | settled d v hw => exact of_same (by rw [hw]; rfl) rfl rfl
  | buffered d r now t hw => exact of_same (by rw [hw]; rfl) rfl rfl
  | filled d r now t hw => exact of_same (by rw [hw]; rfl) rfl rfl
  | flushed | sinkReturned | sinkRaised => exact of_same rfl rfl rfl
  | nothing => exact of_same (afterFlush_uncounted w) rfl rfl
  | batchAcked => exact of_same (afterFlush_uncounted _) rfl rfl
  | itemNacked => exact of_same (afterFlush_uncounted _) rfl rfl
  | counted j hw =>
    rw [uncounted, uncounted, hw]
    simp [Phase.uncounted?, Act.isCounted, Act.won, List.countP_cons]

lemma take_counted {d : Delivery} {now : ℚ} (h : w.take cfg d now = some (w', acts))
    (jobId : String) : acts.countP (Act.isCounted jobId) = 0 ∧
      w'.uncounted jobId = w.uncounted jobId := by
  obtain ⟨hp, ⟨rfl, rfl⟩ | ⟨-, rfl, rfl⟩⟩ := take_cases h
  · refine ⟨rfl, uncounted_congr ?_⟩
    rw [hp]
    rfl
  · refine ⟨rfl, uncounted_congr ?_⟩
    rw [hp]
    rfl

/-- What is on its way goes on, is returned or is raised, and comes from `process`. -/
lemma Rule.results_balance (hr : Rule cfg w op w' acts) (q : Pending → Bool) :
    (acts.flatMap Act.returned ++ acts.flatMap Act.raised).countP q + w'.unreturned.countP q =
      w.unreturned.countP q + (acts.flatMap Act.won).countP q := by
  obtain ⟨hcall, hsink⟩ := hr.flow
  have hcall := congrArg (List.countP q) hcall
  have hsink := congrArg (List.countP q) hsink
  simp only [unreturned, List.countP_append] at hcall hsink ⊢
  omega

lemma take_results {d : Delivery} {now : ℚ} (h : w.take cfg d now = some (w', acts)) :
    acts.flatMap Act.returned ++ acts.flatMap Act.raised = [] := by
  obtain ⟨-, ⟨-, rfl⟩ | ⟨-, -, rfl⟩⟩ := take_cases h <;> rfl

end Worker

namespace Fleet

variable {cfg : DetectorSettings} {n : ℕ} {f f' : Fleet} {e : Event} {out h : List Output}
  {ok : Fleet → List Output → Event → Prop}

/-- No detector crashes. -/
def noCrash : Event → Prop
  | .crash _ _ => False
  | _ => True

instance : DecidablePred noCrash
  | .crash _ _ => inferInstanceAs (Decidable False)
  | .publish _ | .deliver _ _ _ | .take _ _ _ | .work _ _ _ | .expire _ =>
    inferInstanceAs (Decidable True)

/-- The guard keeps its keys and answers by recording, and no detector crashes. -/
def calm (f : Fleet) (h : List Output) (e : Event) : Prop := guardKeeps f h e ∧ noCrash e

instance (f : Fleet) (h : List Output) (e : Event) : Decidable (calm f h e) :=
  inferInstanceAs (Decidable (_ ∧ _))

/-- The results of the sink calls that raised. -/
def raised (h : List Output) : List Pending := (acts h).flatMap Act.raised

/-- The results that `process` gave. -/
def won (h : List Output) : List Pending := (acts h).flatMap Act.won

/-- The counter of the job, to which every progress update adds one. -/
def processed (h : List Output) (jobId : String) : ℕ := (acts h).countP (Act.isCounted jobId)

/-- The distinct frame ids of the job in the sink calls that succeeded. -/
def reportedFrames (h : List Output) (jobId : String) : Finset ℤ :=
  (((returned h).filter (Worker.ofJob jobId)).map fun p => p.result.frameId).toFinset

/-- The queue is drained, no delivery is in process and the batchers are empty. -/
def Quiescent (n : ℕ) (f : Fleet) : Prop :=
  f.queue = [] ∧ ∀ d < n, (f.replicas d).prefetched = [] ∧
    (f.replicas d).worker.phase = .idle ∧ (f.replicas d).worker.batcher.pending = [] ∧
    (f.replicas d).worker.batcher.flushing = none

/-- A step of the fleet is a step of one worker, or none, or a crash of one. -/
lemma Rule.sum_cases (hr : Rule cfg n f e f' out) (m : Worker → ℕ) :
    (acts out = [] ∧ ∑ d ∈ Finset.range n, m (f'.replicas d).worker =
      ∑ d ∈ Finset.range n, m (f.replicas d).worker) ∨
    (∃ w w', ∑ d ∈ Finset.range n, m (f'.replicas d).worker + m w =
        ∑ d ∈ Finset.range n, m (f.replicas d).worker + m w' ∧
      ((∃ op, Worker.Rule cfg w op w' (acts out)) ∨
        ∃ x now, w.take cfg x now = some (w', acts out))) ∨
    (¬noCrash e ∧ acts out = [] ∧ ∃ w, ∑ d ∈ Finset.range n, m (f'.replicas d).worker + m w =
      ∑ d ∈ Finset.range n, m (f.replicas d).worker + m {}) := by
  have hsum := fun (d : ℕ) (r : Replica) (hd : d < n) =>
    Family.sum_update (fun r : Replica => m r.worker) f.replicas r hd
  cases hr with
  | publish ref => exact .inl ⟨rfl, rfl⟩
  | expire key => exact .inl ⟨rfl, rfl⟩
  | deliver d i tag x c hd hx hc =>
    refine .inl ⟨rfl, ?_⟩
    have := hsum d { f.replicas d with
      channel := c
      prefetched := (f.replicas d).prefetched ++ [⟨x.ref, tag, x.redelivered⟩] } hd
    dsimp only at this ⊢
    omega
  | take d i now x w as hd hx hw =>
    rw [acts_map_act]
    refine .inr (.inl ⟨_, w, ?_, .inr ⟨x, now, hw⟩⟩)
    exact hsum d { f.replicas d with
      worker := w
      prefetched := (f.replicas d).prefetched.eraseIdx i } hd
  | work d op pos w as guard hd hw hg =>
    rw [acts_perform]
    refine .inr (.inl ⟨_, w, ?_, .inl ⟨op, Worker.Rule.of_step hw⟩⟩)
    exact hsum d { f.replicas d with
      worker := w
      channel := (perform (f.replicas d).channel as).1 } hd
  | crash d pos hd => exact .inr (.inr ⟨id, rfl, _, hsum d Replica.init hd⟩)

section Balance

variable {m : Worker → ℕ} {l g : List Act → ℕ} (hm : m {} = 0)
  (hloss : ∀ as bs, l (as ++ bs) = l as + l bs) (hgain : ∀ as bs, g (as ++ bs) = g as + g bs)

include hm hloss hgain

/-- Where every step of a worker changes a quantity by what its acts gain and lose, so does every
run without a crash. -/
lemma conserved (hwork : ∀ w op w' as, Worker.Rule cfg w op w' as → l as + m w' = m w + g as)
    (htake : ∀ w x now w' as, w.take cfg x now = some (w', as) → l as + m w' = m w + g as)
    (hr : (machine cfg n).Reach (fun _ _ e => noCrash e) Fleet.init f h) :
    l (acts h) + ∑ d ∈ Finset.range n, m (f.replicas d).worker = g (acts h) := by
  have hloss₀ : l [] = 0 := by simpa using hloss [] []
  have hgain₀ : g [] = 0 := by simpa using hgain [] []
  induction hr with
  | init =>
    show l [] + ∑ d ∈ Finset.range n, m {} = g []
    rw [hloss₀, hgain₀, hm, Finset.sum_const_zero, Nat.zero_add]
  | @step f f' h out e hr ho hs ih =>
    rw [acts_append, hloss, hgain]
    rcases (Rule.of_step hs).sum_cases m with ⟨hnil, hsame⟩ | ⟨w, w', hsum, hw⟩ | ⟨hcrash, -, -⟩
    · rw [hnil, hloss₀, hgain₀, hsame]
      exact ih
    · have hbal : l (acts out) + m w' = m w + g (acts out) := by
        rcases hw with ⟨op, hw⟩ | ⟨x, now, hw⟩
        · exact hwork _ _ _ _ hw
        · exact htake _ _ _ _ _ hw
      omega
    · exact absurd ho hcrash

/-- Where every step of a worker loses no more than it has and gains, so does every run. A crash
only makes the worker forget what it has. -/
lemma lost_le_gained (hwork : ∀ w op w' as, Worker.Rule cfg w op w' as → l as + m w' ≤ m w + g as)
    (htake : ∀ w x now w' as, w.take cfg x now = some (w', as) → l as + m w' ≤ m w + g as)
    (hr : (machine cfg n).Reach ok Fleet.init f h) :
    l (acts h) + ∑ d ∈ Finset.range n, m (f.replicas d).worker ≤ g (acts h) := by
  have hloss₀ : l [] = 0 := by simpa using hloss [] []
  have hgain₀ : g [] = 0 := by simpa using hgain [] []
  induction hr with
  | init =>
    show l [] + ∑ d ∈ Finset.range n, m {} ≤ g []
    rw [hloss₀, hgain₀, hm, Finset.sum_const_zero, Nat.zero_add]
  | @step f f' h out e hr ho hs ih =>
    rw [acts_append, hloss, hgain]
    rcases (Rule.of_step hs).sum_cases m with ⟨hnil, hsame⟩ | ⟨w, w', hsum, hw⟩ |
      ⟨-, hnil, w, hsum⟩
    · rw [hnil, hloss₀, hgain₀, hsame]
      exact ih
    · have hbal : l (acts out) + m w' ≤ m w + g (acts out) := by
        rcases hw with ⟨op, hw⟩ | ⟨x, now, hw⟩
        · exact hwork _ _ _ _ hw
        · exact htake _ _ _ _ _ hw
      omega
    · rw [hnil, hloss₀, hgain₀]
      omega

end Balance

/-- A sink call that has returned was made. -/
lemma returned_le_called (hr : (machine cfg n).Reach ok Fleet.init f h) (q : Pending → Bool) :
    (returned h).countP q ≤ (called h).countP q := by
  have hle := lost_le_gained (m := fun w => w.sinking.countP q)
    (l := fun as => (as.flatMap Act.returned).countP q)
    (g := fun as => (as.flatMap Act.called).countP q) rfl
    (fun _ _ => by rw [List.flatMap_append, List.countP_append])
    (fun _ _ => by rw [List.flatMap_append, List.countP_append])
    (fun w op w' as hw => by
      have hflow := congrArg (List.countP q) hw.flow.2
      simp only [List.countP_append] at hflow
      omega)
    (fun w x now w' as hw => by
      rw [(Worker.take_flow hw).1, (Worker.take_flow hw).2.2.2.2, List.countP_nil]
      omega) hr
  exact (Nat.le_add_right _ _).trans hle

/-- A sink call is of results that `process` gave. -/
lemma called_le_won (hr : (machine cfg n).Reach ok Fleet.init f h) (q : Pending → Bool) :
    (called h).countP q ≤ (won h).countP q := by
  have hle := lost_le_gained (m := fun w => w.awaiting.countP q)
    (l := fun as => (as.flatMap Act.called).countP q)
    (g := fun as => (as.flatMap Act.won).countP q) rfl
    (fun _ _ => by rw [List.flatMap_append, List.countP_append])
    (fun _ _ => by rw [List.flatMap_append, List.countP_append])
    (fun w op w' as hw => by
      have hflow := congrArg (List.countP q) hw.flow.1
      rw [List.countP_append, List.countP_append] at hflow
      omega)
    (fun w x now w' as hw => by
      rw [(Worker.take_flow hw).2.1, (Worker.take_flow hw).2.2.2.1, List.countP_nil]
      omega) hr
  exact (Nat.le_add_right _ _).trans hle

/-- What is counted is a result that `process` gave. -/
lemma processed_le_won (hr : (machine cfg n).Reach ok Fleet.init f h) (jobId : String) :
    processed h jobId ≤ (won h).countP (Worker.ofJob jobId) := by
  have hle := lost_le_gained (m := Worker.uncounted jobId) (l := List.countP (Act.isCounted jobId))
    (g := fun as => (as.flatMap Act.won).countP (Worker.ofJob jobId)) rfl
    (fun _ _ => List.countP_append) (fun _ _ => by rw [List.flatMap_append, List.countP_append])
    (fun w op w' as hw => (hw.counted_balance jobId).le)
    (fun w x now w' as hw => by
      rw [(Worker.take_counted hw jobId).1, (Worker.take_counted hw jobId).2]
      omega) hr
  exact (Nat.le_add_right _ _).trans hle

lemma sum_eq_zero_of_quiescent {m : Worker → ℕ}
    (hm : ∀ w : Worker, w.phase = .idle → w.batcher.pending = [] → w.batcher.flushing = none →
      m w = 0) (hq : Quiescent n f) : ∑ d ∈ Finset.range n, m (f.replicas d).worker = 0 := by
  apply Finset.sum_eq_zero
  intro d hd
  obtain ⟨-, hidle, hpending, hflushing⟩ := hq.2 d (Finset.mem_range.mp hd)
  exact hm _ hidle hpending hflushing

/-- Without a crash every result is counted, or about to be. -/
lemma processed_balance (hr : (machine cfg n).Reach (fun _ _ e => noCrash e) Fleet.init f h)
    (jobId : String) :
    processed h jobId + ∑ d ∈ Finset.range n, (f.replicas d).worker.uncounted jobId =
      (won h).countP (Worker.ofJob jobId) :=
  conserved (m := Worker.uncounted jobId)
    (l := List.countP (Act.isCounted jobId))
    (g := fun as => (as.flatMap Act.won).countP (Worker.ofJob jobId)) rfl
    (fun _ _ => List.countP_append) (fun _ _ => by rw [List.flatMap_append, List.countP_append])
    (fun _ _ _ _ hw => hw.counted_balance jobId)
    (fun _ _ _ _ _ hw => by
      rw [(Worker.take_counted hw jobId).1, (Worker.take_counted hw jobId).2,
        (Worker.take_flow hw).2.2.1, List.countP_nil, Nat.zero_add, Nat.add_zero]) hr

section Quiescent

variable (hr : (machine cfg n).Reach calm Fleet.init f h) (hq : Quiescent n f)

include hr hq in
/-- At rest every result has been counted. -/
lemma processed_eq_won (jobId : String) :
    processed h jobId = (won h).countP (Worker.ofJob jobId) := by
  have hbal := processed_balance (hr.mono fun _ _ _ hok => hok.2) jobId
  rw [sum_eq_zero_of_quiescent (fun w hp _ _ => by rw [Worker.uncounted, hp]; rfl) hq,
    Nat.add_zero] at hbal
  exact hbal

include hr hq in
/-- At rest every result has been in a sink call that returned or raised. -/
lemma won_eq_returned (q : Pending → Bool) :
    (won h).countP q = (returned h).countP q + (raised h).countP q := by
  have hbal := conserved (m := fun w => w.unreturned.countP q)
    (l := fun as => (as.flatMap Act.returned ++ as.flatMap Act.raised).countP q)
    (g := fun as => (as.flatMap Act.won).countP q) rfl
    (fun as bs => by simp only [List.flatMap_append, List.countP_append]; omega)
    (fun _ _ => by rw [List.flatMap_append, List.countP_append])
    (fun _ _ _ _ hw => hw.results_balance q)
    (fun w x now w' as hw => by
      obtain ⟨hs, ha, hwon, -, -⟩ := Worker.take_flow hw
      rw [Worker.take_results hw, hwon, Worker.unreturned, Worker.unreturned, hs, ha,
        List.countP_nil, Nat.zero_add, Nat.add_zero]) (hr.mono fun _ _ _ hok => hok.2)
  have hzero := sum_eq_zero_of_quiescent (m := fun w => w.unreturned.countP q)
    (fun w hp hpend hflush => by
      rw [Worker.unreturned, Worker.sinking_of_none hflush, Worker.awaiting, hp, hpend]
      rfl) hq
  rw [hzero, Nat.add_zero, List.countP_append] at hbal
  exact hbal.symm

end Quiescent

lemma Labelled.of_reach (hr : (machine cfg n).Reach ok Fleet.init f h) : Labelled f h := by
  refine hr.invariant ⟨fun d p hp => ?_, fun p hp => ?_⟩ fun _ _ _ _ _ _ hl _ hs =>
    hl.step (Rule.of_step hs)
  · cases hp
  · cases hp

/-- Where no key occurs twice, neither does a frame of a job. -/
lemma nodup_frameIds {ps : List Pending} {jobId : String}
    (honce : ∀ i, ps.countP (fun p => p.key = dedupKey jobId i) ≤ 1) :
    ((ps.filter (Worker.ofJob jobId)).map fun p => p.delivery.ref.frameId).Nodup := by
  rw [List.nodup_iff_count_le_one]
  intro i
  rw [List.count, List.countP_map, List.countP_filter]
  refine (List.countP_mono_left ?_).trans (honce i)
  intro p hp hq
  simp only [Function.comp_apply, Bool.and_eq_true, beq_iff_eq] at hq
  obtain ⟨hi, hj⟩ := hq
  have hj : p.delivery.ref.jobId = jobId := of_decide_eq_true hj
  apply decide_eq_true
  rw [Pending.key, FrameRef.key, hj, hi]

/-- The reported frames of a job are as many as its results that were returned. -/
lemma card_reportedFrames (hr : (machine cfg n).Reach calm Fleet.init f h) (jobId : String) :
    (reportedFrames h jobId).card = (returned h).countP (Worker.ofJob jobId) := by
  have honce := ReportedOnce.of_reach (hr.mono fun _ _ _ hok => hok.1)
  have hnodup :
      (((returned h).filter (Worker.ofJob jobId)).map fun p => p.delivery.ref.frameId).Nodup :=
    nodup_frameIds fun i => (returned_le_called hr _).trans (honce.countP_le_one _)
  have hlabel : ((returned h).filter (Worker.ofJob jobId)).map (fun p => p.result.frameId) =
      ((returned h).filter (Worker.ofJob jobId)).map fun p => p.delivery.ref.frameId :=
    List.map_congr_left fun p hp => ((Labelled.of_reach hr).2 p (List.mem_filter.mp hp).1).2
  rw [reportedFrames, hlabel, List.toFinset_card_of_nodup hnodup, List.length_map,
    List.countP_eq_length_filter]

/-- When the queue is drained and the detectors are at rest, the counter of a job is the number of
its frames that were reported exactly if no sink call that held one of its results has raised. -/
theorem processed_eq_iff (hr : (machine cfg n).Reach calm Fleet.init f h) (hq : Quiescent n f)
    (jobId : String) :
    processed h jobId = (reportedFrames h jobId).card ↔
      ∀ p ∈ raised h, p.delivery.ref.jobId ≠ jobId := by
  rw [processed_eq_won hr hq, won_eq_returned hr hq, card_reportedFrames hr]
  calc (returned h).countP (Worker.ofJob jobId) + (raised h).countP (Worker.ofJob jobId) =
        (returned h).countP (Worker.ofJob jobId)
      ↔ (raised h).countP (Worker.ofJob jobId) = 0 := Nat.add_eq_left
    _ ↔ ∀ p ∈ raised h, p.delivery.ref.jobId ≠ jobId := by
        rw [List.countP_eq_zero]
        simp only [Worker.ofJob, decide_eq_true_eq, ne_eq]

instance (n : ℕ) (f : Fleet) : Decidable (Quiescent n f) := by
  unfold Quiescent
  infer_instance

/-- Two frames of a job are reported in one batch, one of them after a retry. -/
theorem processed_eq_iff_run : ∃ f h, (machine {batchMaxSize := 2} 1).Reach calm Fleet.init f h ∧
    Quiescent 1 f ∧ processed h "j" = 2 ∧ (reportedFrames h "j").card = 2 := by
  have hrun : ∃ f h, (machine {batchMaxSize := 2} 1).Reach calm Fleet.init f h ∧
      Quiescent 1 f ∧ processed h "j" = 2 ∧ raised h = [] :=
    Machine.Reach.exists_of_exec
      [.publish ⟨"j", "v", 0, 0, 0, blobKey "j" 0⟩, .publish ⟨"j", "v", 6, 0, 0, blobKey "j" 6⟩,
        .deliver 0 0 1, .take 0 0 0, .work 0 (.loaded .storeError) 0, .work 0 .settled 0,
        .deliver 0 0 2, .take 0 0 0, .work 0 (.loaded .frame) 0, .work 0 (.detected (some [])) 0,
        .work 0 (.claimed .won) 0, .work 0 (.add 0) 0, .work 0 .counted 0,
        .deliver 0 0 3, .take 0 0 0, .work 0 (.loaded .frame) 0, .work 0 (.detected (some [])) 0,
        .work 0 (.claimed .won) 0, .work 0 (.add 0) 0, .work 0 (.batcher .sinkReturned) 0,
        .work 0 (.batcher .settleNext) 0, .work 0 .counted 0]
      (by decide +kernel)
  obtain ⟨f, h, hr, hq, hp, hno⟩ := hrun
  refine ⟨f, h, hr, hq, hp, ?_⟩
  rw [← (processed_eq_iff hr hq "j").mpr (by rw [hno]; simp), hp]

/-- The flush of the only frame fails: it is counted, and its redelivery is a duplicate. -/
theorem processed_not_reported : ∃ f h, (machine {batchMaxSize := 1} 1).Reach calm Fleet.init f h ∧
    Quiescent 1 f ∧ processed h "j" = 1 ∧ (reportedFrames h "j").card = 0 :=
  Machine.Reach.exists_of_exec
    [.publish ⟨"j", "v", 0, 0, 0, blobKey "j" 0⟩, .deliver 0 0 1, .take 0 0 0,
      .work 0 (.loaded .frame) 0, .work 0 (.detected (some [])) 0, .work 0 (.claimed .won) 0,
      .work 0 (.add 0) 0, .work 0 (.batcher .sinkRaised) 0, .work 0 (.batcher .settleNext) 0,
      .work 0 .counted 0,
      .deliver 0 0 2, .take 0 0 0, .work 0 (.loaded .frame) 0, .work 0 (.detected (some [])) 0,
      .work 0 (.claimed .lost) 0, .work 0 .settled 0]
    (by decide +kernel)

end Fleet

end VideoPipeline
