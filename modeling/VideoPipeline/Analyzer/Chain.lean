import VideoPipeline.Analyzer.Service

/-!
# A chain of requests

The same request made again and again, each time after the one before it has exited or its process
has died. What is left of a request is the record that it has written. The record carries the
progress that the last run had at some point, and a run that resumes starts from there.
-/

namespace VideoPipeline

/-- The request can be made again. -/
def Phase.over : Phase → Bool
  | .exited .. | .dead => true
  | _                  => false

/-- The run of a request that has neither exited nor died. -/
def Phase.run? : Phase → Option (Job × Pipeline)
  | .running job p | .saving job p | .marking job p => some (job, p)
  | _                                               => none

/-- A checkpoint is written by the task that has called it. -/
lemma Pipeline.Rule.checkpoint_cases {cfg : Dispatch} {p p' : Pipeline} {e : Pipeline.Event}
    {out : List Pipeline.Output} (hr : Pipeline.Rule cfg p e p' out) :
    (∀ c, .checkpoint c ∉ out) ∨
    ∃ w c, e = .worker w .checkpointWritten ∧ p.workers w = .checkpointing c ∧
      out = [.checkpoint c] := by
  cases hr with
  | worker w op p' out hw hr =>
    cases hr with
    | checkpointWritten c hw => exact .inr ⟨w, c, rfl, hw, rfl⟩
    | _ => exact .inl (by simp)
  | _ => exact .inl (by simp)

namespace Chain

open Analysis (Output Run Ran Live lastRun runOutputs)

inductive Event where
  /-- The request is made again; the record may have expired by then. -/
  | request (expired : Bool)
  | call (e : Analysis.Event)
  deriving DecidableEq, Repr

def step (req : Request) (s : Analysis) : Event → Option (Analysis × List Output)
  | .request expired =>
    if s.phase.over then some (.request (if expired then none else s.record), []) else none
  | .call e => s.step req e

/-- A chain of requests, as a machine. -/
def machine (req : Request) : Machine Analysis Event Output := ⟨step req⟩

/-- The first request. -/
def start : Analysis := .request none

variable {req : Request} {s s' : Analysis} {e : Event} {out h : List Output} {job : Job}
  {p : Pipeline}

/-! ### What a step does -/

/-- The job and the progress that the record carries. -/
def persisted (s : Analysis) : Option (String × Checkpoint) :=
  s.record.map fun r => (r.jobId, r.progress)

/-- The progress of a fresh job. -/
def noProgress : Checkpoint := (RunState.initial none).progress

/-- What a step does to the persisted progress and to the runs. -/
inductive Effect (req : Request) (s : Analysis) : Event → Analysis → List Output → Prop where
  | kept (e : Event) (s' : Analysis) (hrec : persisted s' = persisted s) : Effect req s e s' []
  | expired (e : Event) (s' : Analysis) (hrec : persisted s' = none) : Effect req s e s' []
  | created (e : Event) (s' : Analysis) (jobId : String)
      (hrec : persisted s' = some (jobId, noProgress)) : Effect req s e s' []
  | began (e : Event) (s' : Analysis) (jobId : String)
      (hrec : persisted s' = some (jobId, noProgress)) :
      Effect req s e s' [.begun jobId noProgress]
  | resumed (now : ℚ) (s' : Analysis) (prior : JobRecord) (hp : s.phase = .resuming prior)
      (hrec : persisted s' = persisted s) :
      Effect req s (.call (.started now)) s' [.begun prior.jobId prior.progress]
  | ran (e : Pipeline.Event) (now : ℚ) (s' : Analysis) (job : Job) (p p' : Pipeline)
      (out : List Pipeline.Output) (hp : s.phase = .running job p)
      (hs : p.step (req.dispatch job) e = some (p', out)) (hp' : s'.phase = .running job p')
      (hrec : persisted s' = persisted s) :
      Effect req s (.call (.run e now)) s' (out.map .run)
  | checkpointed (w : ℕ) (c : Checkpoint) (now : ℚ) (s' : Analysis) (job : Job) (p p' : Pipeline)
      (hp : s.phase = .running job p) (hw : p.workers w = .checkpointing c)
      (hp' : s'.phase = .running job p')
      (hrec : persisted s' = (persisted s).map fun r => (r.1, c)) :
      Effect req s (.call (.run (.worker w .checkpointWritten) now)) s' [.run (.checkpoint c)]
  | saved (e : Event) (s' : Analysis) (job : Job) (p : Pipeline) (hp : s.phase = .saving job p)
      (he : (∃ now, e = .call (.saved now)) ∨ ∃ exc now, e = .call (.repoRaised exc true now))
      (hrec : persisted s' = (persisted s).map fun r => (r.1, p.state.progress)) :
      Effect req s e s' [.saved p.state.progress]

lemma writeCheckpoints_eq_self {o : List Pipeline.Output} (ho : ∀ c, .checkpoint c ∉ o) (now : ℚ)
    (record : Option JobRecord) : Analysis.writeCheckpoints now record o = record := by
  induction o generalizing record with
  | nil => rfl
  | cons x o ih =>
    rw [Analysis.writeCheckpoints, List.foldl_cons]
    have htail := fun c hc => ho c (List.mem_cons_of_mem _ hc)
    cases x with
    | checkpoint c => exact absurd List.mem_cons_self (ho c)
    | _ => exact ih htail record

/-- A status leaves the progress as it is. -/
lemma persisted_setStatus (record : Option JobRecord) (ph ph' : Phase) (st : JobStatus)
    (err : Option String) (now : ℚ) :
    persisted ⟨record.map fun r => r.setStatus st err now, ph'⟩ = persisted ⟨record, ph⟩ := by
  cases record <;> rfl

lemma persisted_checkpoint (record : Option JobRecord) (ph ph' : Phase) (c : Checkpoint) (now : ℚ) :
    persisted ⟨record.map fun r => r.checkpoint c now, ph'⟩ =
      (persisted ⟨record, ph⟩).map fun r => (r.1, c) := by
  cases record <;> rfl

/-- A request that is about to create a record has a fresh one. -/
def Fresh (s : Analysis) : Prop := ∀ r, s.phase = .creating r → r.progress = noProgress

lemma Effect.of_rule {e : Analysis.Event} (hfresh : Fresh s) (hr : Analysis.Rule req s e s' out) :
    Effect req s (.call e) s' out := by
  obtain ⟨record, phase⟩ := s
  cases hr with
  | created now r hp =>
    rw [hfresh r hp]
    apply Effect.began
    rw [persisted, Option.map_some, hfresh r hp]
  | resumed now prior hp => exact .resumed now _ prior hp (persisted_setStatus _ _ _ _ _ _)
  | run e now job p p' out hp hs =>
    rcases (Pipeline.Rule.of_step hs).checkpoint_cases with hnone | ⟨w, c, rfl, hw, rfl⟩
    · refine .ran e now _ job p p' out hp hs rfl ?_
      rw [persisted, writeCheckpoints_eq_self hnone]
      rfl
    · exact .checkpointed w c now _ job p p' hp hw rfl (persisted_checkpoint _ _ _ _ _)
  | saved now job p hp =>
    exact .saved _ _ job p hp (.inl ⟨now, rfl⟩) (persisted_checkpoint _ _ _ _ _)
  | marked now job p hp => exact .kept _ _ (persisted_setStatus _ _ _ _ _ _)
  | createRaised exc took now r hp =>
    cases took with
    | false => exact .kept _ _ rfl
    | true =>
      apply Effect.created _ _ r.jobId
      rw [persisted, if_pos rfl, Option.map_some, hfresh r hp]
  | resumeRaised exc took now prior hp =>
    cases took with
    | false => exact .kept _ _ rfl
    | true => exact .kept _ _ (persisted_setStatus _ _ _ _ _ _)
  | saveRaised exc took now job p hp =>
    cases took with
    | false => exact .kept _ _ rfl
    | true => exact .saved _ _ job p hp (.inr ⟨exc, now, rfl⟩) (persisted_checkpoint _ _ _ _ _)
  | markRaised exc took now job p hp =>
    cases took with
    | false => exact .kept _ _ rfl
    | true => exact .kept _ _ (persisted_setStatus _ _ _ _ _ _)
  | resume | create | sourceFailed | returned | findRaised | die => exact .kept _ _ rfl

/-! ### The current request -/

/-- The state is that of a request whose outputs are the end of the history. -/
def Inv (req : Request) (s : Analysis) (h : List Output) : Prop :=
  ∃ r₀ h₁, h₁ <:+ h ∧ Analysis.Inv req r₀ s h₁

lemma Inv.fresh (hinv : Inv req s h) : Fresh s := by
  intro r hp
  obtain ⟨r₀, h₁, -, hinv⟩ := hinv
  simp only [Analysis.Inv, hp] at hinv
  obtain ⟨-, -, jobId, now, rfl⟩ := hinv
  rfl

lemma Inv.step (hinv : Inv req s h) (hs : step req s e = some (s', out)) :
    Inv req s' (h ++ out) := by
  cases e with
  | request expired =>
    simp only [Chain.step] at hs
    split at hs
    · cases hs
      exact ⟨_, [], List.nil_suffix, rfl, rfl⟩
    · cases hs
  | call e =>
    obtain ⟨r₀, h₁, ⟨h₀, rfl⟩, hinv⟩ := hinv
    refine ⟨r₀, h₁ ++ out, ⟨h₀, by rw [List.append_assoc]⟩, ?_⟩
    exact hinv.step (.of_step hs)

lemma Inv.of_reach {ok : Analysis → List Output → Event → Prop}
    (hr : (machine req).Reach ok start s h) : Inv req s h := by
  have hstart : Inv req start [] := ⟨none, [], List.nil_suffix, rfl, rfl⟩
  exact hr.invariant hstart fun _ _ _ _ _ _ hinv _ hs => hinv.step hs

lemma Effect.of_step (hinv : Inv req s h) (hs : Chain.step req s e = some (s', out)) :
    Effect req s e s' out := by
  cases e with
  | request expired =>
    simp only [Chain.step] at hs
    split at hs
    · cases hs
      cases expired with
      | false => exact .kept _ _ rfl
      | true => exact .expired _ _ rfl
    · cases hs
  | call e => exact .of_rule hinv.fresh (.of_step hs)

/-- The run of the current request. -/
lemma Inv.ran (hinv : Inv req s h) (hp : s.phase.run? = some (job, p)) :
    ∃ r₀ h₁, h₁ <:+ h ∧ Ran req r₀ job p h₁ ∧ Live s.record job := by
  obtain ⟨r₀, h₁, hsuf, hinv⟩ := hinv
  refine ⟨r₀, h₁, hsuf, ?_⟩
  cases hph : s.phase <;> rw [hph] at hp <;> cases hp <;> simp only [Analysis.Inv, hph] at hinv
  case running.refl => exact hinv
  case saving.refl => exact ⟨hinv.1, hinv.2.1⟩
  case marking.refl => exact ⟨hinv.1, hinv.2.1⟩

/-- A request that is about to resume has found the record. -/
lemma Inv.resuming {prior : JobRecord} (hinv : Inv req s h) (hp : s.phase = .resuming prior) :
    persisted s = some (prior.jobId, prior.progress) := by
  obtain ⟨r₀, h₁, -, hinv⟩ := hinv
  simp only [Analysis.Inv, hp] at hinv
  rw [persisted, hinv.1, hinv.2.2.1]
  rfl

lemma Inv.resuming_nonneg {prior : JobRecord} (hinv : Inv req s h)
    (hp : s.phase = .resuming prior) : 0 ≤ prior.progress.lastSourceIndex := by
  obtain ⟨r₀, h₁, -, hinv⟩ := hinv
  simp only [Analysis.Inv, hp] at hinv
  exact hinv.2.2.2

/-- The record of a request that runs is that of its job. -/
lemma Inv.persisted_eq (hinv : Inv req s h) (hp : s.phase.run? = some (job, p)) :
    ∃ c, persisted s = some (job.jobId, c) := by
  obtain ⟨-, -, -, -, r, hrec, hid, -⟩ := hinv.ran hp
  refine ⟨r.progress, ?_⟩
  rw [persisted, hrec, ← hid]
  rfl

/-- A write of the request's own goes to the record of its job. -/
lemma Inv.persisted_map (hinv : Inv req s h) (hp : s.phase.run? = some (job, p)) (c : Checkpoint) :
    ((persisted s).map fun r => (r.1, c)) = some (job.jobId, c) := by
  obtain ⟨c', hpers⟩ := hinv.persisted_eq hp
  rw [hpers]
  rfl

/-! ### The last run -/

/-- A run of a job has come to a pipeline. -/
structure At (req : Request) (run : Run) (job : Job) (p : Pipeline) : Prop where
  jobId : run.jobId = job.jobId
  start : run.start = (RunState.initial job.prior).progress
  reach : (Pipeline.machine (req.dispatch job)).Reach Machine.anyStep (req.start job) p run.log

lemma exists_at {r₀ : Option JobRecord} {h₁ : List Output} (hran : Ran req r₀ job p h₁)
    (hsuf : h₁ <:+ h) : ∃ run, lastRun h = some run ∧ At req run job p :=
  ⟨_, Analysis.lastRun_of_suffix hsuf hran.last, rfl, rfl, hran.reach⟩

/-- The last run of the history is that of the current request. -/
lemma Inv.exists_at (hinv : Inv req s h) (hp : s.phase.run? = some (job, p)) :
    ∃ run, lastRun h = some run ∧ At req run job p := by
  obtain ⟨r₀, h₁, hsuf, hran, -⟩ := hinv.ran hp
  exact Chain.exists_at hran hsuf

lemma Inv.at_of_last (hinv : Inv req s h) (hp : s.phase.run? = some (job, p)) {run : Run}
    (hl : lastRun h = some run) : At req run job p := by
  obtain ⟨run', hl', ha⟩ := hinv.exists_at hp
  obtain rfl := Option.some.inj (hl'.symm.trans hl)
  exact ha

section At

variable {run : Run}

lemma At.flow (ha : At req run job p) :
    Pipeline.Flow (req.dispatch job) (.start req.source (req.sampler job)) (.initial job.prior) p
      run.log :=
  .of_reach ha.reach

lemma At.tracked (ha : At req run job p) :
    Pipeline.Tracked (req.dispatch job) (.start req.source (req.sampler job)) run.start p
      run.log :=
  ha.start ▸ .of_reach ha.reach

lemma At.progress_eq (ha : At req run job p) :
    p.state.progress = Pipeline.progressAfter run.start run.log := by
  rw [ha.start]
  exact ha.flow.counts.progress_eq

/-- A run has been where its log was shorter. -/
lemma At.exists_prefix (ha : At req run job p) {l : List Pipeline.Output} (hl : l <+: run.log) :
    ∃ p', At req { run with log := l } job p' := by
  obtain ⟨l', heq⟩ := hl
  obtain ⟨p', hr⟩ := ha.reach.exists_prefix
    (fun _ _ _ _ hs => (Pipeline.Rule.of_step hs).length_le_one) heq.symm
  exact ⟨p', ha.jobId, ha.start, hr⟩

/-- A decodable frame after the start of a run is in its stream. -/
lemma exists_frame (job : Job) {i : ℕ}
    (hsure : req.SeeksSurely (RunState.initial job.prior).lastSourceIndex)
    (hi : i ∈ req.decodable) (hlt : (RunState.initial job.prior).lastSourceIndex < (i : ℤ)) :
    ∃ f ∈ (Decoder.start req.source (req.sampler job)).frames req.source,
      f.frameId = (i : ℤ) := by
  have hmem : i ∈ req.decodable.filter fun i : ℕ =>
      (RunState.initial job.prior).lastSourceIndex < (i : ℤ) :=
    List.mem_filter.mpr ⟨hi, decide_eq_true hlt⟩
  rw [← req.frames_eq job hsure] at hmem
  obtain ⟨f, hf, rfl⟩ := List.mem_map.mp hmem
  exact ⟨f, hf, rfl⟩

/-- The frames of the stream of a run are after its start. -/
lemma start_lt_frame {f : SampledFrame}
    (hf : f ∈ (Decoder.start req.source (req.sampler job)).frames req.source) :
    (RunState.initial job.prior).lastSourceIndex < f.frameId := by
  rw [req.sampler_eq] at hf
  exact Decoder.lt_of_mem_items (Decoder.mem_items_of_frame hf)

lemma start_lt_failure {f : DecodeFailure}
    (hf : f ∈ (Decoder.start req.source (req.sampler job)).failures req.source) :
    (RunState.initial job.prior).lastSourceIndex < (f.sourceIndex : ℤ) := by
  rw [req.sampler_eq] at hf
  exact Decoder.lt_of_mem_items (Decoder.mem_items_of_failure hf)

end At

/-- What the last run has put out is the end of what all runs have. -/
lemma log_suffix {run : Run} (hl : lastRun h = some run) : run.log <:+ runOutputs h := by
  induction h using List.reverseRecOn generalizing run with
  | nil => cases hl
  | append_singleton h o ih =>
    rw [lastRun, List.foldl_append] at hl
    rw [Analysis.runOutputs_append]
    cases o with
    | begun jobId c =>
      cases hl
      exact List.nil_suffix
    | saved c =>
      have hout : runOutputs [.saved c] = [] := rfl
      rw [hout, List.append_nil]
      exact ih hl
    | run o =>
      obtain ⟨run', hrun', rfl⟩ := Option.map_eq_some_iff.mp hl
      obtain ⟨l, hlog⟩ := ih hrun'
      exact ⟨l, by rw [← hlog, ← List.append_assoc]; rfl⟩

/-- A frame of a job is confirmed. -/
def Confirmed (h : List Output) (jobId : String) (i : ℕ) : Prop :=
  ∃ ref ∈ Pipeline.confirmedRefs (runOutputs h), ref.jobId = jobId ∧ ref.frameId = (i : ℤ)

instance (h : List Output) (jobId : String) (i : ℕ) : Decidable (Confirmed h jobId i) :=
  inferInstanceAs (Decidable (∃ ref ∈ Pipeline.confirmedRefs (runOutputs h), _))

lemma Confirmed.append {jobId : String} {i : ℕ} (hc : Confirmed h jobId i) (out : List Output) :
    Confirmed (h ++ out) jobId i := by
  obtain ⟨ref, href, hid⟩ := hc
  refine ⟨ref, ?_, hid⟩
  rw [Analysis.runOutputs_append, Pipeline.confirmedRefs_append]
  exact List.mem_append_left _ href

/-- What the last run has confirmed is confirmed for its job. -/
lemma At.confirmed {run : Run} (ha : At req run job p) (hl : lastRun h = some run) {ref : FrameRef}
    {i : ℕ} (href : ref ∈ Pipeline.confirmedRefs run.log) (hid : ref.frameId = (i : ℤ)) :
    Confirmed h run.jobId i := by
  refine ⟨ref, ?_, ?_, hid⟩
  · obtain ⟨l, hlog⟩ := log_suffix hl
    rw [← hlog, Pipeline.confirmedRefs_append]
    exact List.mem_append_right _ href
  · rw [ha.jobId]
    exact ha.tracked.origin ref href

/-! ### Where the persisted progress is from -/

/-- The last run was at a progress. -/
def Reached (h : List Output) (jobId : String) (c : Checkpoint) : Prop :=
  ∃ run, lastRun h = some run ∧ run.jobId = jobId ∧
    ∃ l, l <+: run.log ∧ c = Pipeline.progressAfter run.start l

lemma Reached.append_run {jobId : String} {c : Checkpoint} (hr : Reached h jobId c)
    (o : List Pipeline.Output) : Reached (h ++ o.map .run) jobId c := by
  obtain ⟨run, hl, hid, l, hpre, heq⟩ := hr
  refine ⟨{ run with log := run.log ++ o }, ?_, hid, l, ?_, heq⟩
  · rw [Analysis.lastRun_append_run, hl]
    rfl
  · exact hpre.trans (List.prefix_append _ _)

/-- The last run is a run of the pipeline, and the persisted progress is that of its start or one
that it had later. -/
structure Carried (req : Request) (s : Analysis) (h : List Output) : Prop where
  run : ∀ run, lastRun h = some run → ∃ job p, At req run job p
  progress : ∀ jobId c, persisted s = some (jobId, c) → 0 ≤ c.lastSourceIndex →
    Reached h jobId c

lemma Carried.run_step (hc : Carried req s h) (hinv' : Inv req s' (h ++ out))
    (he : Effect req s e s' out) :
    ∀ run, lastRun (h ++ out) = some run → ∃ job p, At req run job p := by
  intro run hl
  cases he with
  | kept | expired | created =>
    rw [List.append_nil] at hl
    exact hc.run run hl
  | began _ _ jobId =>
    rw [Analysis.lastRun_append_begun] at hl
    cases hl
    exact ⟨⟨jobId, none⟩, _, rfl, rfl, .init⟩
  | resumed now _ prior hp =>
    rw [Analysis.lastRun_append_begun] at hl
    cases hl
    exact ⟨⟨prior.jobId, some prior⟩, _, rfl, rfl, .init⟩
  | ran _ _ _ job _ p' _ _ _ hp' | checkpointed _ _ _ _ job _ p' _ _ hp' =>
    exact ⟨job, p', hinv'.at_of_last (by rw [hp']; rfl) hl⟩
  | saved _ _ job p =>
    rw [Analysis.lastRun_append_saved] at hl
    exact hc.run run hl

lemma Carried.progress_step (hc : Carried req s h) (hinv : Inv req s h)
    (he : Effect req s e s' out) :
    ∀ jobId c, persisted s' = some (jobId, c) → 0 ≤ c.lastSourceIndex →
      Reached (h ++ out) jobId c := by
  intro jobId c hpers hL
  cases he with
  | kept _ _ hrec =>
    rw [List.append_nil]
    exact hc.progress jobId c (hrec ▸ hpers) hL
  | expired _ _ hrec =>
    rw [hrec] at hpers
    cases hpers
  | created _ _ jobId hrec | began _ _ jobId hrec =>
    rw [hrec] at hpers
    cases hpers
    cases hL
  | resumed now _ prior hp hrec =>
    rw [hrec, hinv.resuming hp] at hpers
    cases hpers
    exact ⟨_, Analysis.lastRun_append_begun _ _ _, rfl, [], List.nil_prefix, rfl⟩
  | ran e now _ job p p' o hp hs hp' hrec =>
    exact (hc.progress jobId c (hrec ▸ hpers) hL).append_run o
  | checkpointed w c' now _ job p p' hp hw hp' hrec =>
    have hrun : s.phase.run? = some (job, p) := by
      rw [hp]
      rfl
    rw [hrec, hinv.persisted_map hrun] at hpers
    cases hpers
    obtain ⟨run, hl, ha⟩ := hinv.exists_at hrun
    have hreached : Reached h job.jobId c := ⟨run, hl, ha.jobId, ha.tracked.checkpoint_eq hw⟩
    exact hreached.append_run [.checkpoint c]
  | saved _ _ job p hp he hrec =>
    have hrun : s.phase.run? = some (job, p) := by
      rw [hp]
      rfl
    rw [hrec, hinv.persisted_map hrun] at hpers
    cases hpers
    obtain ⟨run, hl, ha⟩ := hinv.exists_at hrun
    refine ⟨run, ?_, ha.jobId, run.log, List.prefix_refl _, ha.progress_eq⟩
    rw [Analysis.lastRun_append_saved, hl]

/-- The persisted progress is one that the last run has had. -/
theorem Carried.of_reach {ok : Analysis → List Output → Event → Prop}
    (hr : (machine req).Reach ok start s h) : Carried req s h := by
  refine hr.invariant ⟨?_, ?_⟩ ?_
  · intro run hl
    cases hl
  · intro jobId c hpers
    cases hpers
  · intro s h e s' out hreach hc _ hs
    have hinv := Inv.of_reach hreach
    have heff := Effect.of_step hinv hs
    exact ⟨hc.run_step (hinv.step hs) heff, hc.progress_step hinv heff⟩

/-! ### Where a run starts to read -/

/-- The record from which a run is about to resume. -/
def resumes? (s : Analysis) : Event → Option JobRecord
  | .call (.started _) =>
    match s.phase with
    | .resuming prior => some prior
    | _               => none
  | _ => none

/-- A run resumes only where it is sure of where it starts to read. -/
def resumesSurely (req : Request) (s : Analysis) (e : Event) : Prop :=
  ∀ prior ∈ resumes? s e, req.SeeksSurely prior.lastSourceIndex

instance (req : Request) (s : Analysis) (e : Event) : Decidable (resumesSurely req s e) :=
  inferInstanceAs (Decidable (∀ prior ∈ resumes? s e, _))

/-- Over a backend that reports its position every run is sure. -/
lemma resumesSurely_of_reports (hrep : req.source.reports = true) : resumesSurely req s e :=
  fun _ _ => .inr (.inl hrep)

lemma mem_resumes? {prior : JobRecord} {now : ℚ} (hp : s.phase = .resuming prior) :
    prior ∈ resumes? s (.call (.started now)) := by
  simp [resumes?, hp]

/-- The last run was sure of where it started to read. -/
theorem sure_of_reach {ok : Analysis → List Output → Event → Prop}
    (hsure : ∀ s h e, ok s h e → resumesSurely req s e) (hr : (machine req).Reach ok start s h) :
    ∀ run, lastRun h = some run → req.SeeksSurely run.start.lastSourceIndex := by
  refine hr.invariant
    (P := fun _ h => ∀ run, lastRun h = some run → req.SeeksSurely run.start.lastSourceIndex) ?_ ?_
  · intro run hl
    cases hl
  · intro s h e s' out hreach ih hok hs run hl
    cases Effect.of_step (Inv.of_reach hreach) hs with
    | kept | expired | created =>
      rw [List.append_nil] at hl
      exact ih run hl
    | began _ _ jobId =>
      rw [Analysis.lastRun_append_begun] at hl
      cases hl
      exact req.seeksSurely_of_neg neg_one_lt_zero
    | resumed now _ prior hp =>
      rw [Analysis.lastRun_append_begun] at hl
      cases hl
      exact hsure s h _ hok prior (mem_resumes? hp)
    | ran _ _ _ _ _ _ o =>
      rw [Analysis.lastRun_append_run] at hl
      obtain ⟨run', hl', rfl⟩ := Option.map_eq_some_iff.mp hl
      exact ih run' hl'
    | checkpointed _ c =>
      rw [show [Output.run (.checkpoint c)] = [.checkpoint c].map .run from rfl,
        Analysis.lastRun_append_run] at hl
      obtain ⟨run', hl', rfl⟩ := Option.map_eq_some_iff.mp hl
      exact ih run' hl'
    | saved =>
      rw [Analysis.lastRun_append_saved] at hl
      exact ih run hl

end Chain

end VideoPipeline
