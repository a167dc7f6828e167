import VideoPipeline.Analyzer.Chain

/-!
# Checkpoints that do not go backwards

A checkpoint call carries the progress that the run had when the call was started. The calls of
different tasks may overlap, so one that was started earlier may take effect later and put the
record back. As long as the calls of each run take effect in the order in which they were started,
the record of a job only goes forward, over all the runs that resume it.
-/

namespace VideoPipeline

/-- A progress that the other one has passed or is at. -/
def Checkpoint.Le (c c' : Checkpoint) : Prop :=
  c.framesDispatched ≤ c'.framesDispatched ∧ c.lastSourceIndex ≤ c'.lastSourceIndex

instance : DecidableRel Checkpoint.Le := fun _ _ => inferInstanceAs (Decidable (_ ∧ _))

lemma Checkpoint.Le.refl (c : Checkpoint) : c.Le c := ⟨le_rfl, le_rfl⟩

lemma Checkpoint.Le.trans {c c' c'' : Checkpoint} (h : c.Le c') (h' : c'.Le c'') : c.Le c'' :=
  ⟨h.1.trans h'.1, h.2.trans h'.2⟩

namespace Pipeline

variable {c₀ c : Checkpoint} {h h₁ : List Output}

/-- The progress with which a checkpoint call is started. -/
def Output.snapshot? : Output → Option Checkpoint
  | .confirmed _ snapshot => snapshot
  | _                     => none

/-- The progress that a checkpoint call writes. -/
def Output.checkpoint? : Output → Option Checkpoint
  | .checkpoint c => some c
  | _             => none

/-- The checkpoint calls in the order in which they were started. -/
def snapshots (h : List Output) : List Checkpoint := h.filterMap Output.snapshot?

/-- The checkpoint calls in the order in which they took effect. -/
def checkpoints (h : List Output) : List Checkpoint := h.filterMap Output.checkpoint?

/-- The progress of a run only goes forward. -/
lemma progressAfter_le (c₀ : Checkpoint) (hp : h₁ <+: h) :
    (progressAfter c₀ h₁).Le (progressAfter c₀ h) := by
  obtain ⟨h₂, rfl⟩ := hp
  constructor
  · simp only [progressAfter, confirmedRefs_append, List.length_append]
    omega
  · simp only [progressAfter, confirmedRefs_append, watermark_append]
    exact le_watermark _ _

lemma snapshot_eq (hc : Machine.Caused (Snapshot c₀) h) (hmem : c ∈ snapshots h) :
    ∃ h₁, h₁ <+: h ∧ c = progressAfter c₀ h₁ := by
  obtain ⟨x, hx, hxc⟩ := List.mem_filterMap.mp hmem
  obtain ⟨h₁, h₂, rfl⟩ := List.append_of_mem hx
  cases x with
  | confirmed ref snapshot =>
    refine ⟨h₁ ++ [.confirmed ref snapshot], ⟨h₂, by simp⟩, ?_⟩
    obtain rfl : snapshot = some c := hxc
    exact hc h₁ _ h₂ rfl ref c rfl
  | _ => cases hxc

/-- A call that is started later carries a later progress. -/
lemma snapshots_pairwise (hc : Machine.Caused (Snapshot c₀) h) :
    (snapshots h).Pairwise Checkpoint.Le := by
  induction h using List.reverseRecOn with
  | nil => exact .nil
  | append_singleton h x ih =>
    rw [snapshots, List.filterMap_append, List.pairwise_append]
    refine ⟨ih hc.of_append, ?_, ?_⟩
    · cases hx : x.snapshot? with
      | none =>
        rw [List.filterMap_cons_none hx]
        exact .nil
      | some c =>
        rw [List.filterMap_cons_some hx]
        exact List.pairwise_singleton _ _
    · intro d hd c hmem
      obtain ⟨h₁, hp, rfl⟩ := snapshot_eq hc.of_append hd
      obtain ⟨y, hy, hyc⟩ := List.mem_filterMap.mp hmem
      rw [List.mem_singleton.mp hy] at hyc
      cases x with
      | confirmed ref snapshot =>
        obtain rfl : snapshot = some c := hyc
        rw [hc h _ [] rfl ref c rfl]
        exact progressAfter_le c₀ (hp.trans (List.prefix_append _ _))
      | _ => cases hyc

/-- The progress that a task is about to write. -/
def unwritten : PublishWorker → List Checkpoint
  | .checkpointing c => [c]
  | _                => []

/-- The calls of a single task take effect in their order: the one that it awaits was started
last. -/
def WritesInOrder (p : Pipeline) (h : List Output) : Prop :=
  ∃ l, snapshots h = l ++ unwritten (p.workers 0) ∧ (checkpoints h).Sublist l

lemma WritesInOrder.append {p p' : Pipeline} {out : List Output} (hw : WritesInOrder p h)
    (ho : ∃ l, unwritten (p.workers 0) ++ snapshots out = l ++ unwritten (p'.workers 0) ∧
      (checkpoints out).Sublist l) : WritesInOrder p' (h ++ out) := by
  obtain ⟨l, hsnap, hsub⟩ := hw
  obtain ⟨l', hsnap', hsub'⟩ := ho
  refine ⟨l ++ l', ?_, ?_⟩
  · rw [snapshots, List.filterMap_append, ← snapshots, hsnap, List.append_assoc,
      List.append_assoc]
    exact congrArg (l ++ ·) hsnap'
  · rw [checkpoints, List.filterMap_append]
    exact hsub.append hsub'

lemma WritesInOrder.step {cfg : Dispatch} {p p' : Pipeline} {e : Event} {out : List Output}
    (hw : WritesInOrder p h) (hone : cfg.settings.analyzerPublishers = 1)
    (hr : Rule cfg p e p' out) : WritesInOrder p' (h ++ out) := by
  apply hw.append
  cases hr with
  | worker w op p' out hlt hr =>
    obtain rfl : w = 0 := by omega
    cases hr with
    | snapshot f ref h0 => exact ⟨[], by simp [h0, unwritten, snapshots, Output.snapshot?], .slnil⟩
    | checkpointWritten c h0 =>
      refine ⟨[c], ?_, .refl _⟩
      simp [h0, unwritten, snapshots, Output.snapshot?]
    | checkpointRaised exc =>
      refine ⟨unwritten (p.workers 0), ?_, List.nil_sublist _⟩
      simp [unwritten, snapshots, Output.snapshot?]
    | gaveUp f exc h0 =>
      have hnone : unwritten (p.workers 0) = [] := by
        cases ht : p.workers 0 <;> rw [ht] at h0 <;> first | rfl | cases h0
      rw [hnone]
      exact ⟨[], by simp [unwritten, snapshots, Output.snapshot?], .slnil⟩
    | drain f q h0 => exact ⟨[], by simp [snapshots, Output.snapshot?], .slnil⟩
    | stop q h0 | take f q h0 | stored f now h0 | published f ref h0 | confirmed f ref h0
    | checkpointReturned h0 =>
      exact ⟨[], by simp [h0, unwritten, snapshots, Output.snapshot?], .slnil⟩
  | _ => exact ⟨[], by simp [snapshots, Output.snapshot?], .slnil⟩

theorem WritesInOrder.of_reach {cfg : Dispatch} {p : Pipeline} {sampler : FrameSampler}
    {prior : Option JobRecord} {ok : Pipeline → List Output → Event → Prop}
    (hone : cfg.settings.analyzerPublishers = 1)
    (hr : (machine cfg).Reach ok (start cfg sampler prior) p h) : WritesInOrder p h := by
  refine hr.invariant ⟨[], rfl, .slnil⟩ ?_
  exact fun _ _ _ _ _ _ hw _ hs => hw.step hone (.of_step hs)

end Pipeline

namespace Chain

open Analysis (Output Run lastRun)
open Pipeline (checkpoints snapshots)

variable {req : Request} {s s' : Analysis} {e : Event} {out h : List Output} {job : Job}
  {p : Pipeline} {run : Run} {jobId : String} {c : Checkpoint}

/-- What the record has been, one entry for each state. -/
abbrev Series := List (Option (String × Checkpoint))

variable {ps : Series}

/-- The progress of a job, whenever the record was its. -/
def progressOf (jobId : String) (ps : Series) : List Checkpoint :=
  ps.filterMap fun x => x.bind fun r => if r.1 = jobId then some r.2 else none

/-- The checkpoint call that takes effect in a step. -/
def takesEffect? (s : Analysis) : Event → Option Checkpoint
  | .call (.run (.worker w .checkpointWritten) _) =>
    match s.phase with
    | .running _ p =>
      match p.workers w with
      | .checkpointing c => some c
      | _                => none
    | _ => none
  | _ => none

/-- The checkpoint calls of the run take effect in the order in which they were started. -/
def inOrder (s : Analysis) (h : List Output) (e : Event) : Prop :=
  ∀ c ∈ takesEffect? s e, ∀ run ∈ lastRun h,
    (checkpoints run.log ++ [c]).Sublist (snapshots run.log)

instance (s : Analysis) (h : List Output) (e : Event) : Decidable (inOrder s h e) :=
  inferInstanceAs (Decidable (∀ c ∈ takesEffect? s e, ∀ run ∈ lastRun h, _))

/-- The id that is drawn for a job that may be created. -/
def drawn? : Event → Option String
  | .call (.found _ jobId) => some jobId
  | _                      => none

/-- An id that is drawn is new. -/
def freshId (ps : Series) (e : Event) : Prop := ∀ jobId ∈ drawn? e, progressOf jobId ps = []

instance (ps : Series) (e : Event) : Decidable (freshId ps e) :=
  inferInstanceAs (Decidable (∀ jobId ∈ drawn? e, _))

/-! ### What the current run has written -/

/-- The run of a request that may still write its progress. -/
def writing? : Phase → Option (Job × Pipeline)
  | .running job p | .saving job p => some (job, p)
  | _                              => none

/-- The record has the progress that the run has started with or has last written, and the calls of
the run have taken effect in their order. -/
structure Recorded (s : Analysis) (h : List Output) (jobId : String) (run : Run) : Prop where
  last : lastRun h = some run
  progress : ∃ c, persisted s = some (jobId, c) ∧ (c = run.start ∨ c ∈ checkpoints run.log)
  ordered : (checkpoints run.log).Sublist (snapshots run.log)

/-- The run of every request that may still write is recorded. -/
def AllRecorded (s : Analysis) (h : List Output) : Prop :=
  ∀ job p, writing? s.phase = some (job, p) → ∃ run, Recorded s h job.jobId run

/-- The record is not after a progress that no written checkpoint is after. -/
lemma Recorded.le (hr : Recorded s h jobId run) {l : List Pipeline.Output}
    (hpers : persisted s = some (jobId, c))
    (hle : ∀ d ∈ checkpoints run.log, d.Le (Pipeline.progressAfter run.start l)) :
    c.Le (Pipeline.progressAfter run.start l) := by
  obtain ⟨c', hpers', hc⟩ := hr.progress
  obtain rfl : c' = c := by
    rw [hpers] at hpers'
    cases hpers'
    rfl
  rcases hc with rfl | hmem
  · exact Pipeline.progressAfter_le run.start List.nil_prefix
  · exact hle c' hmem

/-- A call that takes effect in its order does not put the record back. -/
lemma Recorded.le_of_inOrder {w : ℕ} {now : ℚ} {c' : Checkpoint}
    (hr : Recorded s h job.jobId run) (ha : At req run job p) (hp : s.phase = .running job p)
    (hw : p.workers w = .checkpointing c')
    (hok : inOrder s h (.call (.run (.worker w .checkpointWritten) now)))
    (hpers : persisted s = some (job.jobId, c)) : c.Le c' := by
  have hsub := hok c' (by simp [takesEffect?, hp, hw]) run hr.last
  obtain ⟨l, -, rfl⟩ := ha.tracked.checkpoint_eq hw
  apply hr.le hpers
  intro d hd
  have hpair := (Pipeline.snapshots_pairwise ha.tracked.snapshots).sublist hsub
  rw [List.pairwise_append] at hpair
  exact hpair.2.2 d hd _ (List.mem_singleton_self _)

/-- The closing checkpoint does not put the record back. -/
lemma Recorded.le_progress (hr : Recorded s h job.jobId run) (ha : At req run job p)
    (hpers : persisted s = some (job.jobId, c)) : c.Le p.state.progress := by
  rw [ha.progress_eq]
  apply hr.le hpers
  intro d hd
  obtain ⟨l, hl, rfl⟩ := Pipeline.snapshot_eq ha.tracked.snapshots (hr.ordered.subset hd)
  exact Pipeline.progressAfter_le run.start hl

lemma checkpoints_eq_nil {o : List Pipeline.Output} (ho : ∀ c, .checkpoint c ∉ o) :
    checkpoints o = [] := by
  apply List.filterMap_eq_nil_iff.mpr
  intro x hx
  cases x with
  | checkpoint c => exact absurd hx (ho c)
  | _ => rfl

/-- A run that goes on without a checkpoint stays recorded. -/
lemma Recorded.goOn (hr : Recorded s h jobId run) {o : List Pipeline.Output}
    (ho : ∀ c, .checkpoint c ∉ o) (hrec : persisted s' = persisted s) :
    Recorded s' (h ++ o.map .run) jobId { run with log := run.log ++ o } := by
  have hsame : checkpoints (run.log ++ o) = checkpoints run.log := by
    rw [checkpoints, List.filterMap_append, ← checkpoints, ← checkpoints, checkpoints_eq_nil ho,
      List.append_nil]
  refine ⟨?_, ?_, ?_⟩
  · rw [Analysis.lastRun_append_run, hr.last]
    rfl
  · rw [hrec, hsame]
    exact hr.progress
  · rw [hsame, snapshots, List.filterMap_append]
    exact hr.ordered.trans (List.sublist_append_left _ _)

/-- A run whose checkpoint takes effect in its order stays recorded. -/
lemma Recorded.checkpoint {w : ℕ} {now : ℚ} (hr : Recorded s h job.jobId run)
    (hp : s.phase = .running job p) (hw : p.workers w = .checkpointing c)
    (hok : inOrder s h (.call (.run (.worker w .checkpointWritten) now)))
    (hrec : persisted s' = (persisted s).map fun r => (r.1, c)) :
    Recorded s' (h ++ [.run (.checkpoint c)]) job.jobId
      { run with log := run.log ++ [.checkpoint c] } := by
  have hlog : checkpoints (run.log ++ [.checkpoint c]) = checkpoints run.log ++ [c] :=
    List.filterMap_append
  refine ⟨?_, ⟨c, ?_, .inr ?_⟩, ?_⟩
  · rw [← List.map_singleton, Analysis.lastRun_append_run, hr.last]
    rfl
  · obtain ⟨c', hpers, -⟩ := hr.progress
    rw [hrec, hpers]
    rfl
  · rw [hlog]
    exact List.mem_append_right _ (List.mem_singleton_self c)
  · have hsnap : snapshots (run.log ++ [.checkpoint c]) = snapshots run.log := by
      rw [snapshots, List.filterMap_append]
      exact List.append_nil _
    rw [hlog, hsnap]
    exact hok c (by simp [takesEffect?, hp, hw]) run hr.last

lemma AllRecorded.step (hall : AllRecorded s h) (hinv : Inv req s h) (hok : inOrder s h e)
    (hs : step req s e = some (s', out)) : AllRecorded s' (h ++ out) := by
  intro job p hw
  cases e with
  | request expired =>
    simp only [Chain.step] at hs
    split at hs
    · cases hs
      cases hw
    · cases hs
  | call e =>
    cases Analysis.Rule.of_step hs with
    | created now r hp =>
      cases hw
      exact ⟨_, Analysis.lastRun_append_begun h _ _, ⟨_, rfl, .inl rfl⟩, List.nil_sublist _⟩
    | resumed now prior hp =>
      cases hw
      refine ⟨_, Analysis.lastRun_append_begun h _ _, ⟨prior.progress, ?_, .inl rfl⟩,
        List.nil_sublist _⟩
      rw [persisted_setStatus _ s.phase]
      exact hinv.resuming hp
    | run e now job p p' o hp hs' =>
      cases hw
      obtain ⟨run, hr⟩ := hall job p (by rw [hp]; rfl)
      rcases (Pipeline.Rule.of_step hs').checkpoint_cases with hnone | ⟨w, c, rfl, hw, rfl⟩
      · refine ⟨_, hr.goOn hnone ?_⟩
        rw [persisted, writeCheckpoints_eq_self hnone]
        rfl
      · exact ⟨_, hr.checkpoint hp hw hok (persisted_checkpoint _ s.phase _ _ _)⟩
    | returned job p hp =>
      cases hw
      obtain ⟨run, hr⟩ := hall job p (by rw [hp]; rfl)
      rw [List.append_nil]
      exact ⟨run, hr.last, hr.progress, hr.ordered⟩
    | _ => cases hw

theorem AllRecorded.of_reach (hr : (machine req).Reach inOrder start s h) : AllRecorded s h := by
  refine hr.invariant ?_ ?_
  · intro job p hw
    cases hw
  · intro s h e s' out hreach hall hok hs
    exact hall.step (.of_reach hreach) hok hs

/-! ### The record over time -/

/-- A step leaves the progress of a job or moves it forward, or it creates the job. -/
lemma persisted_step (hall : AllRecorded s h) (hinv : Inv req s h) (hok : inOrder s h e)
    (hs : step req s e = some (s', out)) (hpers : persisted s' = some (jobId, c)) :
    (∃ c₀, persisted s = some (jobId, c₀) ∧ c₀.Le c) ∨
    ∃ r, s.phase = .creating r ∧ r.jobId = jobId := by
  have hsaved : ∀ job p, s.phase = .saving job p →
      (persisted s).map (fun r => (r.1, p.state.progress)) = some (jobId, c) →
      ∃ c₀, persisted s = some (jobId, c₀) ∧ c₀.Le c := by
    intro job p hp hmap
    obtain ⟨⟨j, c₀⟩, hpers₀, heq⟩ := Option.map_eq_some_iff.mp hmap
    cases heq
    obtain ⟨run, hr⟩ := hall job p (by rw [hp]; rfl)
    have ha := hinv.at_of_last (by rw [hp]; rfl) hr.last
    obtain ⟨c', hpers', -⟩ := hr.progress
    obtain rfl : j = job.jobId := congrArg Prod.fst (Option.some.inj (hpers₀.symm.trans hpers'))
    exact ⟨_, hpers₀, hr.le_progress ha hpers₀⟩
  cases e with
  | request expired =>
    simp only [Chain.step] at hs
    split at hs
    · cases hs
      cases expired with
      | false => exact .inl ⟨c, hpers, .refl c⟩
      | true => cases hpers
    · cases hs
  | call e =>
    cases Analysis.Rule.of_step hs with
    | created now r hp =>
      cases hpers
      exact .inr ⟨r, hp, rfl⟩
    | createRaised exc took now r hp =>
      cases took with
      | false => exact .inl ⟨c, hpers, .refl c⟩
      | true =>
        cases hpers
        exact .inr ⟨r, hp, rfl⟩
    | resumed now prior hp | marked now job p hp =>
      rw [persisted_setStatus _ s.phase] at hpers
      exact .inl ⟨c, hpers, .refl c⟩
    | resumeRaised exc took now | markRaised exc took now =>
      cases took with
      | false => exact .inl ⟨c, hpers, .refl c⟩
      | true =>
        rw [if_pos rfl, persisted_setStatus _ s.phase] at hpers
        exact .inl ⟨c, hpers, .refl c⟩
    | saved now job p hp =>
      rw [persisted_checkpoint _ s.phase] at hpers
      exact .inl (hsaved job p hp hpers)
    | saveRaised exc took now job p hp =>
      cases took with
      | false => exact .inl ⟨c, hpers, .refl c⟩
      | true =>
        rw [if_pos rfl, persisted_checkpoint _ s.phase] at hpers
        exact .inl (hsaved job p hp hpers)
    | run e now job p p' o hp hs' =>
      rcases (Pipeline.Rule.of_step hs').checkpoint_cases with hnone | ⟨w, c', rfl, hw, rfl⟩
      · rw [persisted, writeCheckpoints_eq_self hnone] at hpers
        exact .inl ⟨c, hpers, .refl c⟩
      · obtain ⟨run, hr⟩ := hall job p (by rw [hp]; rfl)
        have ha := hinv.at_of_last (by rw [hp]; rfl) hr.last
        obtain ⟨c₀, hpers₀, -⟩ := hr.progress
        have hrec : some (jobId, c) = (persisted s).map fun r => (r.1, c') :=
          hpers.symm.trans (persisted_checkpoint _ s.phase _ _ _)
        rw [hpers₀] at hrec
        cases hrec
        exact .inl ⟨c₀, hpers₀, hr.le_of_inOrder ha hp hw hok hpers₀⟩
    | _ => exact .inl ⟨c, hpers, .refl c⟩

/-- Only a request that has just drawn an id is about to create a job. -/
lemma creating_step {r : JobRecord} (hs : step req s e = some (s', out))
    (hp' : s'.phase = .creating r) : r.jobId ∈ drawn? e ∧ persisted s' = persisted s := by
  cases e with
  | request expired =>
    simp only [Chain.step] at hs
    split at hs
    · cases hs
      cases hp'
    · cases hs
  | call e =>
    cases Analysis.Rule.of_step hs with
    | create now jobId hp =>
      cases hp'
      exact ⟨rfl, rfl⟩
    | _ => cases hp'

lemma progressOf_append (jobId : String) (ps qs : Series) :
    progressOf jobId (ps ++ qs) = progressOf jobId ps ++ progressOf jobId qs :=
  List.filterMap_append

lemma mem_progressOf : c ∈ progressOf jobId ps ↔ some (jobId, c) ∈ ps := by
  rw [progressOf, List.mem_filterMap]
  constructor
  · rintro ⟨x, hx, hxc⟩
    obtain ⟨⟨j, d⟩, rfl, hjd⟩ := Option.bind_eq_some_iff.mp hxc
    split at hjd
    · next hj =>
      obtain rfl : j = jobId := hj
      cases hjd
      exact hx
    · cases hjd
  · intro hmem
    refine ⟨_, hmem, ?_⟩
    rw [Option.bind_some, if_pos rfl]

lemma progressOf_singleton_pairwise (jobId : String) (x : Option (String × Checkpoint)) :
    (progressOf jobId [x]).Pairwise Checkpoint.Le := by
  rcases x with - | ⟨j, d⟩
  · exact .nil
  · by_cases hj : j = jobId <;> simp [progressOf, hj]

/-- The progress of each job has only gone forward, and a job that is about to be created has had
none. -/
structure Rising (s : Analysis) (ps : Series) : Prop where
  mem : persisted s ∈ ps
  sorted : ∀ jobId, (progressOf jobId ps).Pairwise Checkpoint.Le
  below : ∀ jobId c, persisted s = some (jobId, c) → ∀ d ∈ progressOf jobId ps, d.Le c
  creating : ∀ r, s.phase = .creating r → progressOf r.jobId ps = []

lemma Rising.step (hr : Rising s ps) (hall : AllRecorded s h) (hinv : Inv req s h)
    (hok : inOrder s h e) (hfresh : freshId ps e) (hs : step req s e = some (s', out)) :
    Rising s' (ps ++ [persisted s']) := by
  have hle : ∀ jobId c, persisted s' = some (jobId, c) → ∀ d ∈ progressOf jobId ps, d.Le c := by
    intro jobId c hpers d hd
    rcases persisted_step hall hinv hok hs hpers with ⟨c₀, hpers₀, hc⟩ | ⟨r, hp, rfl⟩
    · exact (hr.below jobId c₀ hpers₀ d hd).trans hc
    · rw [hr.creating r hp] at hd
      cases hd
  refine ⟨List.mem_append_right _ (List.mem_singleton_self _), ?_, ?_, ?_⟩
  · intro jobId
    rw [progressOf_append, List.pairwise_append]
    refine ⟨hr.sorted jobId, progressOf_singleton_pairwise jobId _, ?_⟩
    intro d hd c hc
    exact hle jobId c (List.mem_singleton.mp (mem_progressOf.mp hc)).symm d hd
  · intro jobId c hpers d hd
    rw [progressOf_append, List.mem_append] at hd
    rcases hd with hd | hd
    · exact hle jobId c hpers d hd
    · have hpers' := List.mem_singleton.mp (mem_progressOf.mp hd)
      rw [hpers] at hpers'
      cases hpers'
      exact .refl c
  · intro r hp'
    obtain ⟨hdrawn, hsame⟩ := creating_step hs hp'
    have hnew := hfresh r.jobId hdrawn
    apply List.eq_nil_iff_forall_not_mem.mpr
    intro c hc
    rw [mem_progressOf, hsame, List.mem_append, List.mem_singleton] at hc
    have hmem : some (r.jobId, c) ∈ ps := by
      rcases hc with hc | hc
      · exact hc
      · rw [hc]
        exact hr.mem
    rw [← mem_progressOf, hnew] at hmem
    cases hmem

/-- A chain of requests with what the record has been. -/
abbrev recorder (req : Request) : Machine (Analysis × Series) Event Output :=
  (machine req).watched persisted

/-- As long as the checkpoint calls of every run take effect in the order in which they were
started, the record of each job only goes forward, over all the runs of a chain. -/
theorem checkpoint_monotone {x : Analysis × Series}
    (hr : (recorder req).Reach (fun x h e => inOrder x.1 h e ∧ freshId x.2 e) (start, [none]) x h)
    (jobId : String) : (progressOf jobId x.2).Pairwise Checkpoint.Le := by
  have hrising : Rising x.1 x.2 := by
    refine hr.invariant (P := fun x _ => Rising x.1 x.2) ⟨?_, ?_, ?_, ?_⟩ ?_
    · exact List.mem_singleton_self _
    · exact fun jobId => progressOf_singleton_pairwise jobId none
    · intro jobId c hpers
      cases hpers
    · intro r hp
      cases hp
    · intro x h e x' out hreach hrising hok hs
      have hreach' : (machine req).Reach inOrder start x.1 h :=
        hreach.of_watched fun _ _ _ hok => hok.1
      obtain ⟨hs, hx'⟩ := Machine.watched_step hs
      rw [hx']
      exact hrising.step (.of_reach hreach') (.of_reach hreach') hok.1 hok.2 hs
  exact hrising.sorted jobId

/-- The calls of a single task take effect in their order. -/
theorem inOrder_of_single (hone : req.settings.analyzerPublishers = 1) {x : Analysis × Series}
    (hr : (recorder req).Reach (fun x _ e => freshId x.2 e) (start, [none]) x h) :
    (recorder req).Reach (fun x h e => inOrder x.1 h e ∧ freshId x.2 e) (start, [none]) x h := by
  refine hr.mono_step ?_
  rintro x h e ⟨s', ps⟩ out hreach hfresh hs
  refine ⟨?_, hfresh⟩
  intro c hc run hl
  have hreach' : (machine req).Reach Machine.anyStep start x.1 h :=
    hreach.of_watched fun _ _ _ _ => trivial
  unfold takesEffect? at hc
  split at hc
  · next w now =>
    split at hc
    · next job p hp =>
      split at hc
      · next c' hw =>
        cases hc
        have ha := (Inv.of_reach hreach').at_of_last (by rw [hp]; rfl) hl
        have hcall : x.1.step req (.run (.worker w .checkpointWritten) now) = some (s', out) :=
          (Machine.watched_step hs).1
        have hlt : w < req.settings.analyzerPublishers := by
          cases Analysis.Rule.of_step hcall with
          | run e now job' p' p'' o hp' hs' =>
            cases Pipeline.Rule.of_step hs' with
            | worker w op p' out hlt hr => exact hlt
        obtain rfl : w = 0 := by omega
        obtain ⟨l, hsnap, hsub⟩ := Pipeline.WritesInOrder.of_reach hone ha.reach
        rw [hsnap, hw]
        exact hsub.append (.refl _)
      · cases hc
    · cases hc
  · cases hc

/-- Two calls overlap and take effect in order, the process dies, and the next request goes on. -/
theorem checkpoint_monotone_resumed :
    ∃ x h, (recorder (.clip {analyzerPublishers := 2, checkpointEvery := 1}
        [.blank, .blank, .blank])).Reach (fun x h e => inOrder x.1 h e ∧ freshId x.2 e)
        (start, [none]) x h ∧
      (progressOf "j" x.2).Pairwise Checkpoint.Le ∧
      ∀ n ∈ [0, 1, 2, 3], n ∈ (progressOf "j" x.2).map Checkpoint.framesDispatched := by
  have hrun : ∃ x h, (recorder (.clip {analyzerPublishers := 2, checkpointEvery := 1}
      [.blank, .blank, .blank])).Reach (fun x h e => inOrder x.1 h e ∧ freshId x.2 e)
      (start, [none]) x h ∧
      ∀ n ∈ [0, 1, 2, 3], n ∈ (progressOf "j" x.2).map Checkpoint.framesDispatched :=
    Machine.Reach.exists_of_exec
      [.call (.found 0 "j"), .call (.started 0), .call (.run .advance 0), .call (.run .handle 0),
        .call (.run .enqueue 0), .call (.run .look 0), .call (.run .advance 0),
        .call (.run .handle 0), .call (.run .enqueue 0), .call (.run (.worker 0 .take) 0),
        .call (.run (.worker 1 .take) 0), .call (.run (.worker 1 (.stored 0)) 0),
        .call (.run (.worker 0 (.stored 0)) 0), .call (.run (.worker 0 .published) 0),
        .call (.run (.worker 1 .published) 0), .call (.run (.worker 0 .confirmed) 0),
        .call (.run (.worker 1 .confirmed) 0), .call (.run (.worker 0 .checkpointWritten) 0),
        .call (.run (.worker 1 .checkpointWritten) 0), .call .die, .request false,
        .call (.found 200 "k"), .call (.started 200), .call (.run .advance 200),
        .call (.run .handle 200), .call (.run .enqueue 200), .call (.run (.worker 1 .take) 200),
        .call (.run (.worker 1 (.stored 200)) 200), .call (.run (.worker 1 .published) 200),
        .call (.run (.worker 1 .confirmed) 200), .call (.run (.worker 1 .checkpointWritten) 200)]
      (by decide +kernel)
  obtain ⟨x, h, hr, hall⟩ := hrun
  exact ⟨x, h, hr, checkpoint_monotone hr "j", hall⟩

/-- The second of two overlapping calls takes effect before the first, which puts the record back
from the second frame to the first. -/
theorem checkpoint_goes_back :
    ∃ x h, (recorder (.clip {analyzerPublishers := 2, checkpointEvery := 1}
        [.blank, .blank])).Reach (fun x _ e => freshId x.2 e) (start, [none]) x h ∧
      persisted x.1 = some ("j", ⟨1, 0, 0⟩) ∧ ⟨2, 0, 1⟩ ∈ progressOf "j" x.2 ∧
      ¬ (progressOf "j" x.2).Pairwise Checkpoint.Le :=
  Machine.Reach.exists_of_exec
    [.call (.found 0 "j"), .call (.started 0), .call (.run .advance 0), .call (.run .handle 0),
      .call (.run .enqueue 0), .call (.run .look 0), .call (.run .advance 0),
      .call (.run .handle 0), .call (.run .enqueue 0), .call (.run (.worker 0 .take) 0),
      .call (.run (.worker 1 .take) 0), .call (.run (.worker 0 (.stored 0)) 0),
      .call (.run (.worker 1 (.stored 0)) 0), .call (.run (.worker 0 .published) 0),
      .call (.run (.worker 1 .published) 0), .call (.run (.worker 0 .confirmed) 0),
      .call (.run (.worker 1 .confirmed) 0), .call (.run (.worker 1 .checkpointWritten) 0),
      .call (.run (.worker 0 .checkpointWritten) 0)]
    (by decide +kernel)

end Chain

end VideoPipeline
