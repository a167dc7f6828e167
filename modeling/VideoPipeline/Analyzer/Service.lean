import VideoPipeline.Analyzer.Progress
import VideoPipeline.Sampling.Seek

/-!
# One analyze request

`video_analyzer/services/analysis_service.py`. A request finds the record it may continue or creates
one, runs the dispatch pipeline and writes the status that the run has ended in. Every call of the
job repository takes effect and returns, or raises with or without an effect. The process may die
at any point.
-/

namespace VideoPipeline

/-- How long a running job without a checkpoint is taken to be alive. -/
def staleRunningJobSec : ℚ := 120

/-- Statuses a resubmission may continue rather than restart. -/
def JobStatus.resumable : JobStatus → Bool
  | .failed | .partial_ | .cancelled => true
  | _                                => false

/-- Statuses a finished request may leave behind. -/
def JobStatus.terminal : JobStatus → Bool
  | .completed | .partial_ | .failed | .cancelled => true
  | _                                             => false

inductive ServiceError where
  | dispatch (message : String) (framesConfirmed framesExpected : ℕ)
  | tooManyFrameFailures (message : String)
  /-- What the video source has raised. -/
  | source (exc : String)
  /-- What the job repository has raised. -/
  | repository (exc : String)
  deriving DecidableEq, Repr

structure AnalysisOutcome where
  jobId : String
  videoId : String
  sourceFps : ℚ
  targetFps : ℤ
  totalSourceFrames : ℕ
  framesExpected : ℕ
  framesDispatched : ℕ
  framesFailed : ℕ
  videoDurationSec : ℚ
  status : JobStatus
  resumedAfterFrame : Option ℤ
  framesDispatchedThisRun : ℕ
  deriving DecidableEq, Repr

/-- A request that has passed the preflight, for a video at a rate that is accepted. -/
structure Request where
  settings : AnalyzerSettings
  source : Video
  videoId : String
  resumeKey : String
  targetFps : ℤ
  probe : FrameSampler
  accepted : FrameSampler.new source.sourceFps targetFps 0 = .ok probe

/-- A request for every frame of a clip. -/
def Request.clip (settings : AnalyzerSettings) (frames : List RawFrame) : Request where
  settings := settings
  source := .clip frames
  videoId := "v"
  resumeKey := "k"
  targetFps := 1
  probe := .everyFrame
  accepted := FrameSampler.new_everyFrame

/-- The job that a request creates or continues. -/
structure Job where
  jobId : String
  prior : Option JobRecord
  deriving DecidableEq, Repr

namespace Request

/-- The sampling rate of the request. -/
def rate (req : Request) : SamplingRate := req.probe.toSamplingRate

def framesExpected (req : Request) : ℕ := req.rate.expectedFrameCount req.source.totalFrames

/-- The record of a fresh job. -/
def newRecord (req : Request) (jobId : String) (now : ℚ) : JobRecord where
  jobId := jobId
  videoId := req.videoId
  resumeKey := req.resumeKey
  status := .running
  sourceFps := req.source.sourceFps
  targetFps := req.targetFps
  totalSourceFrames := req.source.totalFrames
  framesExpected := req.framesExpected
  framesDispatched := 0
  framesFailed := 0
  framesProcessed := 0
  lastSourceIndex := -1
  startedAt := now
  updatedAt := now
  error := none

/-- `_find_checkpoint`: the record to continue, or none to start fresh. -/
def findCheckpoint (now : ℚ) : Option JobRecord → Option JobRecord
  | none => none
  | some previous =>
    if previous.lastSourceIndex < 0 then none
    else if previous.status.resumable then some previous
    else if previous.status = .running ∧ now - previous.updatedAt > staleRunningJobSec then
      some previous
    else none

def dispatch (req : Request) (job : Job) : Dispatch :=
  ⟨req.settings, req.source, job.jobId, req.videoId⟩

/-- The sampler of the run; a fresh run starts at slot zero. -/
def sampler (req : Request) (job : Job) : FrameSampler :=
  .startAt req.rate <|
    match job.prior with
    | none       => 0
    | some prior => req.rate.slotAfterSourceIndex prior.lastSourceIndex

/-- The pipeline as its run starts. -/
def start (req : Request) (job : Job) : Pipeline :=
  .start (req.dispatch job) (req.sampler job) job.prior

/-- The sampled frames that decode. -/
def decodable (req : Request) : List ℕ := (req.source.sampled req.rate).filter req.source.decodes

/-- The sampled frames that do not. -/
def undecodable (req : Request) : List ℕ :=
  (req.source.sampled req.rate).filter fun i => !req.source.decodes i

lemma length_decodable_add (req : Request) : req.decodable.length + req.undecodable.length =
    req.rate.expectedFrameCount req.source.frames.length := by
  rw [← Video.length_sampled, decodable, undecodable]
  exact (List.length_eq_length_filter_add _).symm

/-- A run starts after the source index that its state starts with. -/
lemma sampler_eq (req : Request) (job : Job) :
    req.sampler job = .startAt req.rate
      (req.rate.slotAfterSourceIndex (RunState.initial job.prior).lastSourceIndex) := by
  rw [sampler]
  cases job.prior <;> rfl

/-- A run that starts after a source index is sure of where it starts to read. -/
def SeeksSurely (req : Request) (sourceIndex : ℤ) : Prop :=
  req.source.SeeksSurely
    (req.rate.sourceIndexForSlot (req.rate.slotAfterSourceIndex sourceIndex))

instance (req : Request) (sourceIndex : ℤ) : Decidable (req.SeeksSurely sourceIndex) :=
  inferInstanceAs (Decidable (Video.SeeksSurely ..))

/-- A fresh run needs no seek. -/
lemma seeksSurely_of_neg (req : Request) {sourceIndex : ℤ} (h : sourceIndex < 0) :
    req.SeeksSurely sourceIndex := by
  left
  rw [SamplingRate.slotAfterSourceIndex, if_pos h, SamplingRate.sourceIndexForSlot]
  norm_num

/-- The frames of a run are the decodable ones after its start. -/
lemma frames_eq (req : Request) (job : Job)
    (hsure : req.SeeksSurely (RunState.initial job.prior).lastSourceIndex) :
    ((Decoder.start req.source (req.sampler job)).frames req.source).map
        SampledFrame.sourceIndex =
      req.decodable.filter fun i : ℕ => (RunState.initial job.prior).lastSourceIndex < (i : ℤ) := by
  rw [req.sampler_eq]
  exact (Decoder.frames_start _ _ hsure).trans List.filter_filter.symm

/-- The failures of a run are the undecodable frames after its start. -/
lemma failures_eq (req : Request) (job : Job)
    (hsure : req.SeeksSurely (RunState.initial job.prior).lastSourceIndex) :
    ((Decoder.start req.source (req.sampler job)).failures req.source).map
        DecodeFailure.sourceIndex =
      req.undecodable.filter fun i : ℕ =>
        (RunState.initial job.prior).lastSourceIndex < (i : ℤ) := by
  rw [req.sampler_eq]
  exact (Decoder.failures_start _ _ hsure).trans List.filter_filter.symm

end Request

/-- How a request ends: the status and error it writes, and what it answers. -/
structure Closing where
  status : JobStatus
  error : Option String
  result : Except ServiceError AnalysisOutcome

namespace Request

variable (req : Request) (job : Job)

/-- `_record_failure`. -/
def recordFailure (state : RunState) (exc : String) : Closing where
  status := .failed
  error := some exc
  result := .error (.dispatch ("broker did not confirm all frames: " ++ exc)
    state.framesConfirmed req.framesExpected)

/-- The share of undecodable frames. -/
def failureRatio (confirmed failed : ℕ) : ℚ :=
  if confirmed + failed = 0 then 0 else failed / ((confirmed + failed : ℕ) : ℚ)

def outcome (state : RunState) (status : JobStatus) : AnalysisOutcome where
  jobId := job.jobId
  videoId := req.videoId
  sourceFps := req.source.sourceFps
  targetFps := req.targetFps
  totalSourceFrames := req.source.totalFrames
  framesExpected := req.framesExpected
  framesDispatched := state.framesConfirmed
  framesFailed := state.framesFailed
  videoDurationSec :=
    if req.source.sourceFps > 0 then req.source.totalFrames / req.source.sourceFps else 0
  status := status
  resumedAfterFrame := job.prior.map JobRecord.lastSourceIndex
  framesDispatchedThisRun := state.framesConfirmedThisRun

/-- `_finalise`. -/
def finalise (state : RunState) (aborted : Bool) : Closing :=
  let attempted := state.framesConfirmed + state.framesFailed
  let ratio := failureRatio state.framesConfirmed state.framesFailed
  if ratio > req.settings.maxFrameFailureRatio then
    { status := .failed
      error := some (toString state.framesFailed ++ "/" ++ toString attempted ++
        " frames undecodable")
      result := .error (.tooManyFrameFailures (toString state.framesFailed ++ " of " ++
        toString attempted ++ " frames could not be decoded (" ++ percent ratio ++ " > " ++
        percent req.settings.maxFrameFailureRatio ++ ")")) }
  else
    let status :=
      if aborted then JobStatus.cancelled
      else if state.framesFailed ≠ 0 then .partial_
      else .completed
    { status := status, error := none, result := .ok (outcome req job state status) }
where
  /-- A share in percent with one decimal, ties to even. -/
  percent (q : ℚ) : String :=
    let tenths := ⌊q * 1000 + 1 / 2⌋
    let tenths := if q * 1000 + 1 / 2 = tenths ∧ tenths % 2 = 1 then tenths - 1 else tenths
    toString (tenths / 10) ++ "." ++ toString (tenths % 10) ++ "%"

/-- What a request does after its run has returned. -/
def close (p : Pipeline) : Closing :=
  match p.state.error with
  | some exc => req.recordFailure p.state exc
  | none     => req.finalise job p.state p.abort

end Request

/-- Where a request is. -/
inductive Phase where
  /-- `find_by_resume_key` is awaited. -/
  | finding
  | creating (record : JobRecord)
  /-- The status of the job to continue is set to running. -/
  | resuming (prior : JobRecord)
  | running (job : Job) (p : Pipeline)
  /-- The closing checkpoint is awaited. -/
  | saving (job : Job) (p : Pipeline)
  /-- The closing status is awaited. -/
  | marking (job : Job) (p : Pipeline)
  | exited (run : Option (Job × Pipeline)) (result : Except ServiceError AnalysisOutcome)
  /-- The process has died. -/
  | dead

namespace Phase

/-- What the request has answered. -/
def answer? : Phase → Option AnalysisOutcome
  | .exited _ (.ok o) => some o
  | _                 => none

/-- What the request has raised. -/
def error? : Phase → Option ServiceError
  | .exited _ (.error err) => some err
  | _                      => none

/-- The record that an exited request has continued. -/
def continued? : Phase → Option JobRecord
  | .exited (some (job, _)) _ => job.prior
  | _                         => none

lemma answer?_eq_some {ph : Phase} {o : AnalysisOutcome} (h : ph.answer? = some o) :
    ∃ run, ph = .exited run (.ok o) := by
  unfold answer? at h
  split at h
  · cases h
    exact ⟨_, rfl⟩
  · cases h

lemma error?_eq_some {ph : Phase} {err : ServiceError} (h : ph.error? = some err) :
    ∃ run, ph = .exited run (.error err) := by
  unfold error? at h
  split at h
  · cases h
    exact ⟨_, rfl⟩
  · cases h

end Phase

/-- A request and the record that its resume key finds. -/
structure Analysis where
  record : Option JobRecord
  phase : Phase

namespace Analysis

/-- A request begins. -/
def request (record : Option JobRecord) : Analysis := ⟨record, .finding⟩

inductive Event where
  /-- The record is found; a fresh job would get this id. -/
  | found (now : ℚ) (jobId : String)
  | started (now : ℚ)
  | run (e : Pipeline.Event) (now : ℚ)
  | returned
  | saved (now : ℚ)
  | marked (now : ℚ)
  /-- The awaited repository call raises, after it took effect or without. -/
  | repoRaised (exc : String) (took : Bool) (now : ℚ)
  | die
  deriving DecidableEq, Repr

inductive Output where
  /-- The run of a job starts from this progress. -/
  | begun (jobId : String) (c : Checkpoint)
  | run (o : Pipeline.Output)
  | saved (c : Checkpoint)
  deriving DecidableEq, Repr

/-- The checkpoints that take effect among outputs are written into the record. -/
def writeCheckpoints (now : ℚ) (record : Option JobRecord) (out : List Pipeline.Output) :
    Option JobRecord :=
  out.foldl (fun record o =>
    match o with
    | .checkpoint c => record.map fun r => r.checkpoint c now
    | _             => record) record

/-- The write of the awaited repository call. -/
def write (req : Request) (now : ℚ) (s : Analysis) : Option JobRecord :=
  match s.phase with
  | .creating r    => some r
  | .resuming _    => s.record.map fun r => r.setStatus .running none now
  | .saving _ p    => s.record.map fun r => r.checkpoint p.state.progress now
  | .marking job p =>
    s.record.map fun r => r.setStatus (req.close job p).status (req.close job p).error now
  | _              => s.record

def step (req : Request) (s : Analysis) : Event → Option (Analysis × List Output)
  | .found now jobId =>
    match s.phase with
    | .finding =>
      match Request.findCheckpoint now s.record with
      | some prior => some (⟨s.record, .resuming prior⟩, [])
      | none => some (⟨s.record, .creating (req.newRecord jobId now)⟩, [])
    | _ => none
  | .started now =>
    match s.phase with
    | .creating r =>
      some (⟨s.write req now, .running ⟨r.jobId, none⟩ (req.start ⟨r.jobId, none⟩)⟩,
        [.begun r.jobId r.progress])
    | .resuming prior =>
      some (⟨s.write req now,
        .running ⟨prior.jobId, some prior⟩ (req.start ⟨prior.jobId, some prior⟩)⟩,
        [.begun prior.jobId prior.progress])
    | _ => none
  | .run e now =>
    match s.phase with
    | .running job p =>
      match p.step (req.dispatch job) e with
      | some (p', out) =>
        some (⟨writeCheckpoints now s.record out, .running job p'⟩, out.map .run)
      | none => none
    | _ => none
  | .returned =>
    match s.phase with
    | .running job p =>
      if p.main = .finished then
        match p.thread with
        | .raised exc => some (⟨s.record, .exited (some (job, p)) (.error (.source exc))⟩, [])
        | _ => some (⟨s.record, .saving job p⟩, [])
      else none
    | _ => none
  | .saved now =>
    match s.phase with
    | .saving job p =>
      some (⟨s.write req now, .marking job p⟩, [.saved p.state.progress])
    | _ => none
  | .marked now =>
    match s.phase with
    | .marking job p =>
      some (⟨s.write req now, .exited (some (job, p)) (req.close job p).result⟩, [])
    | _ => none
  | .repoRaised exc took now =>
    match s.phase with
    | .finding => some (⟨s.record, .exited none (.error (.repository exc))⟩, [])
    | .creating _ | .resuming _ =>
      some (⟨if took then s.write req now else s.record,
        .exited none (.error (.repository exc))⟩, [])
    | .saving job p =>
      some (⟨if took then s.write req now else s.record,
        .exited (some (job, p)) (.error (.repository exc))⟩,
        if took then [.saved p.state.progress] else [])
    | .marking job p =>
      some (⟨if took then s.write req now else s.record,
        .exited (some (job, p)) (.error (.repository exc))⟩, [])
    | _ => none
  | .die =>
    match s.phase with
    | .exited _ _ | .dead => none
    | _ => some (⟨s.record, .dead⟩, [])

/-- One request, as a machine. -/
def machine (req : Request) : Machine Analysis Event Output := ⟨step req⟩

/-! ### What a step does -/

/-- The steps of a request. -/
inductive Rule (req : Request) (s : Analysis) : Event → Analysis → List Output → Prop where
  | resume (now : ℚ) (jobId : String) (prior : JobRecord) (hp : s.phase = .finding)
      (hf : Request.findCheckpoint now s.record = some prior) :
      Rule req s (.found now jobId) ⟨s.record, .resuming prior⟩ []
  | create (now : ℚ) (jobId : String) (hp : s.phase = .finding)
      (hf : Request.findCheckpoint now s.record = none) :
      Rule req s (.found now jobId) ⟨s.record, .creating (req.newRecord jobId now)⟩ []
  | created (now : ℚ) (r : JobRecord) (hp : s.phase = .creating r) :
      Rule req s (.started now) ⟨some r, .running ⟨r.jobId, none⟩ (req.start ⟨r.jobId, none⟩)⟩
        [.begun r.jobId r.progress]
  | resumed (now : ℚ) (prior : JobRecord) (hp : s.phase = .resuming prior) :
      Rule req s (.started now)
        ⟨s.record.map fun r => r.setStatus .running none now,
          .running ⟨prior.jobId, some prior⟩ (req.start ⟨prior.jobId, some prior⟩)⟩
        [.begun prior.jobId prior.progress]
  | run (e : Pipeline.Event) (now : ℚ) (job : Job) (p p' : Pipeline)
      (out : List Pipeline.Output) (hp : s.phase = .running job p)
      (hs : p.step (req.dispatch job) e = some (p', out)) :
      Rule req s (.run e now) ⟨writeCheckpoints now s.record out, .running job p'⟩ (out.map .run)
  | sourceFailed (job : Job) (p : Pipeline) (exc : String) (hp : s.phase = .running job p)
      (hfin : p.main = .finished) (ht : p.thread = .raised exc) :
      Rule req s .returned ⟨s.record, .exited (some (job, p)) (.error (.source exc))⟩ []
  | returned (job : Job) (p : Pipeline) (hp : s.phase = .running job p)
      (hfin : p.main = .finished) (ht : ∀ exc, p.thread ≠ .raised exc) :
      Rule req s .returned ⟨s.record, .saving job p⟩ []
  | saved (now : ℚ) (job : Job) (p : Pipeline) (hp : s.phase = .saving job p) :
      Rule req s (.saved now)
        ⟨s.record.map fun r => r.checkpoint p.state.progress now, .marking job p⟩
        [.saved p.state.progress]
  | marked (now : ℚ) (job : Job) (p : Pipeline) (hp : s.phase = .marking job p) :
      Rule req s (.marked now)
        ⟨s.record.map fun r => r.setStatus (req.close job p).status (req.close job p).error now,
          .exited (some (job, p)) (req.close job p).result⟩ []
  | findRaised (exc : String) (took : Bool) (now : ℚ) (hp : s.phase = .finding) :
      Rule req s (.repoRaised exc took now)
        ⟨s.record, .exited none (.error (.repository exc))⟩ []
  | createRaised (exc : String) (took : Bool) (now : ℚ) (r : JobRecord)
      (hp : s.phase = .creating r) :
      Rule req s (.repoRaised exc took now)
        ⟨if took then some r else s.record, .exited none (.error (.repository exc))⟩ []
  | resumeRaised (exc : String) (took : Bool) (now : ℚ) (prior : JobRecord)
      (hp : s.phase = .resuming prior) :
      Rule req s (.repoRaised exc took now)
        ⟨if took then s.record.map fun r => r.setStatus .running none now else s.record,
          .exited none (.error (.repository exc))⟩ []
  | saveRaised (exc : String) (took : Bool) (now : ℚ) (job : Job) (p : Pipeline)
      (hp : s.phase = .saving job p) :
      Rule req s (.repoRaised exc took now)
        ⟨if took then s.record.map fun r => r.checkpoint p.state.progress now else s.record,
          .exited (some (job, p)) (.error (.repository exc))⟩
        (if took then [.saved p.state.progress] else [])
  | markRaised (exc : String) (took : Bool) (now : ℚ) (job : Job) (p : Pipeline)
      (hp : s.phase = .marking job p) :
      Rule req s (.repoRaised exc took now)
        ⟨if took then
            s.record.map fun r => r.setStatus (req.close job p).status (req.close job p).error now
          else s.record,
          .exited (some (job, p)) (.error (.repository exc))⟩ []
  | die (hp : ∀ run result, s.phase ≠ .exited run result) :
      Rule req s .die ⟨s.record, .dead⟩ []

variable {req : Request} {s s' : Analysis} {e : Event} {out h : List Output} {job : Job}
  {p : Pipeline}

lemma Rule.of_step (hs : step req s e = some (s', out)) : Rule req s e s' out := by
  obtain ⟨record, phase⟩ := s
  cases e with
  | found now jobId =>
    cases phase <;> simp only [step, reduceCtorEq] at hs
    split at hs
    · next prior hf =>
      cases hs
      exact .resume now jobId prior rfl hf
    · next hf =>
      cases hs
      exact .create now jobId rfl hf
  | started now =>
    cases phase <;> simp only [step, reduceCtorEq] at hs <;> cases hs
    case started.creating.refl r => exact .created now r rfl
    case started.resuming.refl prior => exact .resumed now prior rfl
  | run e now =>
    cases phase <;> simp only [step, reduceCtorEq] at hs
    split at hs
    · next p' out heq =>
      cases hs
      exact .run e now _ _ p' out rfl heq
    · cases hs
  | returned =>
    cases phase <;> simp only [step, reduceCtorEq] at hs
    split at hs
    · next hfin =>
      split at hs
      · next exc ht =>
        cases hs
        exact .sourceFailed _ _ exc rfl hfin ht
      · next ht =>
        cases hs
        exact .returned _ _ rfl hfin ht
    · cases hs
  | saved now =>
    cases phase <;> simp only [step, reduceCtorEq] at hs
    cases hs
    exact .saved now _ _ rfl
  | marked now =>
    cases phase <;> simp only [step, reduceCtorEq] at hs
    cases hs
    exact .marked now _ _ rfl
  | repoRaised exc took now =>
    cases phase <;> simp only [step, reduceCtorEq] at hs <;> cases hs
    case repoRaised.finding.refl => exact .findRaised exc took now rfl
    case repoRaised.creating.refl r => exact .createRaised exc took now r rfl
    case repoRaised.resuming.refl prior => exact .resumeRaised exc took now prior rfl
    case repoRaised.saving.refl job p => exact .saveRaised exc took now job p rfl
    case repoRaised.marking.refl job p => exact .markRaised exc took now job p rfl
  | die =>
    cases phase <;> simp only [step, reduceCtorEq] at hs <;> cases hs <;>
    exact .die fun _ _ h => by cases h

/-! ### What a request has come to -/

def Output.run? : Output → Option Pipeline.Output
  | .run o => some o
  | _      => none

/-- What the run of the request has put out. -/
def runOutputs (h : List Output) : List Pipeline.Output := h.filterMap Output.run?

@[simp] lemma runOutputs_append (h₁ h₂ : List Output) :
    runOutputs (h₁ ++ h₂) = runOutputs h₁ ++ runOutputs h₂ :=
  List.filterMap_append

@[simp] lemma runOutputs_map_run (out : List Pipeline.Output) :
    runOutputs (out.map .run) = out := by
  rw [runOutputs, List.filterMap_map]
  exact List.filterMap_some

/-- A run of a job: the progress it has started from and what it has put out. -/
structure Run where
  jobId : String
  start : Checkpoint
  log : List Pipeline.Output
  deriving DecidableEq, Repr

/-- What the last run is after an output. -/
def Run.next (run : Option Run) : Output → Option Run
  | .begun jobId c => some ⟨jobId, c, []⟩
  | .run o         => run.map fun run => { run with log := run.log ++ [o] }
  | .saved _       => run

/-- The last run in a history. -/
def lastRun (h : List Output) : Option Run := h.foldl Run.next none

@[simp] lemma lastRun_append_begun (h : List Output) (jobId : String) (c : Checkpoint) :
    lastRun (h ++ [.begun jobId c]) = some ⟨jobId, c, []⟩ := by
  rw [lastRun, List.foldl_append]
  rfl

@[simp] lemma lastRun_append_saved (h : List Output) (c : Checkpoint) :
    lastRun (h ++ [.saved c]) = lastRun h := by
  rw [lastRun, List.foldl_append]
  rfl

@[simp] lemma lastRun_append_run (h : List Output) (out : List Pipeline.Output) :
    lastRun (h ++ out.map .run) =
      (lastRun h).map fun run => { run with log := run.log ++ out } := by
  induction out generalizing h with
  | nil => simp
  | cons o out ih =>
    have hone : lastRun (h ++ [.run o]) =
        (lastRun h).map fun run => { run with log := run.log ++ [o] } := by
      rw [lastRun, List.foldl_append]
      rfl
    rw [List.map_cons, List.append_cons, ih, hone, Option.map_map]
    congr 1
    funext run
    simp

/-- The last run of the end of a history is that of the history. -/
lemma lastRun_of_suffix {h₁ h : List Output} {run : Run} (hs : h₁ <:+ h)
    (hl : lastRun h₁ = some run) : lastRun h = some run := by
  obtain ⟨h₀, rfl⟩ := hs
  induction h₁ using List.reverseRecOn generalizing run with
  | nil => cases hl
  | append_singleton h₁ o ih =>
    rw [lastRun, List.foldl_append] at hl
    rw [← List.append_assoc, lastRun, List.foldl_append]
    cases o with
    | begun jobId c => exact hl
    | saved c => exact ih hl
    | run o =>
      obtain ⟨run', hrun', heq⟩ := Option.map_eq_some_iff.mp hl
      exact Option.map_eq_some_iff.mpr ⟨run', ih hrun', heq⟩

/-- The run of a job has come to a pipeline. -/
structure Ran (req : Request) (r₀ : Option JobRecord) (job : Job) (p : Pipeline)
    (h : List Output) : Prop where
  prior : ∀ prior, job.prior = some prior →
    r₀ = some prior ∧ job.jobId = prior.jobId ∧ 0 ≤ prior.lastSourceIndex
  reach : (Pipeline.machine (req.dispatch job)).Reach Machine.anyStep (req.start job) p
    (runOutputs h)
  last : lastRun h = some ⟨job.jobId, (RunState.initial job.prior).progress, runOutputs h⟩

/-- The record is that of the job, and the job is marked as running. -/
def Live (record : Option JobRecord) (job : Job) : Prop :=
  ∃ r, record = some r ∧ r.jobId = job.jobId ∧ r.status = .running

/-- The run returned without an exception. -/
def Returned (p : Pipeline) : Prop := p.main = .finished ∧ ∀ exc, p.thread ≠ .raised exc

/-- How a request exits: by an exception of the repository, by one of the source, or by its
closing. -/
def Exited (req : Request) (r₀ record : Option JobRecord) (run : Option (Job × Pipeline))
    (result : Except ServiceError AnalysisOutcome) (h : List Output) : Prop :=
  (∃ exc, result = .error (.repository exc)) ∨
  (∃ job p exc, run = some (job, p) ∧ Ran req r₀ job p h ∧ p.main = .finished ∧
    p.thread = .raised exc ∧ result = .error (.source exc) ∧ Live record job) ∨
  (∃ job p r, run = some (job, p) ∧ Ran req r₀ job p h ∧ Returned p ∧
    result = (req.close job p).result ∧ record = some r ∧ r.jobId = job.jobId ∧
    r.status = (req.close job p).status ∧ r.progress = p.state.progress)

/-- What holds in each phase of a request that began with a record. -/
def Inv (req : Request) (r₀ : Option JobRecord) (s : Analysis) (h : List Output) : Prop :=
  match s.phase with
  | .finding => s.record = r₀ ∧ h = []
  | .creating r => s.record = r₀ ∧ h = [] ∧ ∃ jobId now, r = req.newRecord jobId now
  | .resuming prior => s.record = r₀ ∧ h = [] ∧ r₀ = some prior ∧ 0 ≤ prior.lastSourceIndex
  | .running job p => Ran req r₀ job p h ∧ Live s.record job
  | .saving job p => Ran req r₀ job p h ∧ Live s.record job ∧ Returned p
  | .marking job p => Ran req r₀ job p h ∧ Live s.record job ∧ Returned p ∧
      s.record.map JobRecord.progress = some p.state.progress
  | .exited run result => Exited req r₀ s.record run result h
  | .dead => True

lemma findCheckpoint_eq_some {now : ℚ} {record : Option JobRecord} {prior : JobRecord}
    (hf : Request.findCheckpoint now record = some prior) :
    record = some prior ∧ 0 ≤ prior.lastSourceIndex := by
  cases record with
  | none => cases hf
  | some r =>
    rw [Request.findCheckpoint] at hf
    split at hf
    · cases hf
    · next hL =>
      have hr : r = prior := by
        split at hf
        · exact Option.some.inj hf
        · split at hf
          · exact Option.some.inj hf
          · cases hf
      subst hr
      exact ⟨rfl, not_lt.mp hL⟩

lemma Live.writeCheckpoints {record : Option JobRecord} (hl : Live record job) (now : ℚ)
    (out : List Pipeline.Output) : Live (writeCheckpoints now record out) job := by
  induction out generalizing record with
  | nil => exact hl
  | cons o out ih =>
    obtain ⟨r, rfl, hid, hst⟩ := hl
    rw [Analysis.writeCheckpoints, List.foldl_cons]
    apply ih
    cases o with
    | checkpoint c => exact ⟨_, rfl, hid, hst⟩
    | _ => exact ⟨r, rfl, hid, hst⟩

lemma Ran.saved {r₀ : Option JobRecord} (hr : Ran req r₀ job p h) (c : Checkpoint) :
    Ran req r₀ job p (h ++ [.saved c]) := by
  have hout : runOutputs (h ++ [.saved c]) = runOutputs h := by
    rw [runOutputs_append]
    exact List.append_nil _
  refine ⟨hr.prior, ?_, ?_⟩
  · rw [hout]
    exact hr.reach
  · rw [lastRun_append_saved, hout]
    exact hr.last

lemma Ran.step {r₀ : Option JobRecord} {p' : Pipeline} {e : Pipeline.Event}
    {o : List Pipeline.Output} (hr : Ran req r₀ job p h)
    (hs : p.step (req.dispatch job) e = some (p', o)) : Ran req r₀ job p' (h ++ o.map .run) := by
  refine ⟨hr.prior, ?_, ?_⟩
  · rw [runOutputs_append, runOutputs_map_run]
    exact hr.reach.step trivial hs
  · rw [lastRun_append_run, hr.last, runOutputs_append, runOutputs_map_run]
    rfl

theorem Inv.step {r₀ : Option JobRecord} (hinv : Inv req r₀ s h) (hr : Rule req s e s' out) :
    Inv req r₀ s' (h ++ out) := by
  cases hr with
  | resume now jobId prior hp hf =>
    simp only [Inv, hp] at hinv
    obtain ⟨hrec, rfl⟩ := hinv
    obtain ⟨heq, hL⟩ := findCheckpoint_eq_some hf
    exact ⟨hrec, rfl, hrec ▸ heq, hL⟩
  | create now jobId hp hf =>
    simp only [Inv, hp] at hinv
    obtain ⟨hrec, rfl⟩ := hinv
    exact ⟨hrec, rfl, jobId, now, rfl⟩
  | created now r hp =>
    simp only [Inv, hp] at hinv
    obtain ⟨-, rfl, jobId, now', rfl⟩ := hinv
    refine ⟨⟨?_, .init, rfl⟩, _, rfl, rfl, rfl⟩
    intro prior h
    cases h
  | resumed now prior hp =>
    simp only [Inv, hp] at hinv
    obtain ⟨hrec, rfl, hr₀, hL⟩ := hinv
    refine ⟨⟨?_, .init, rfl⟩, prior.setStatus .running none now, ?_, rfl, rfl⟩
    · intro prior' heq
      obtain rfl := Option.some.inj heq
      exact ⟨hr₀, rfl, hL⟩
    · rw [hrec, hr₀]
      rfl
  | run e now job p p' o hp hs =>
    simp only [Inv, hp] at hinv
    exact ⟨hinv.1.step hs, hinv.2.writeCheckpoints now o⟩
  | sourceFailed job p exc hp hfin ht =>
    simp only [Inv, hp] at hinv
    rw [List.append_nil]
    exact .inr (.inl ⟨job, p, exc, rfl, hinv.1, hfin, ht, rfl, hinv.2⟩)
  | returned job p hp hfin ht =>
    simp only [Inv, hp] at hinv
    rw [List.append_nil]
    exact ⟨hinv.1, hinv.2, hfin, ht⟩
  | saved now job p hp =>
    simp only [Inv, hp] at hinv
    obtain ⟨hran, ⟨r, hrec, hid, hst⟩, hret⟩ := hinv
    rw [hrec]
    exact ⟨hran.saved _, ⟨_, rfl, hid, hst⟩, hret, rfl⟩
  | marked now job p hp =>
    simp only [Inv, hp] at hinv
    obtain ⟨hran, ⟨r, hrec, hid, -⟩, hret, hprog⟩ := hinv
    rw [hrec] at hprog ⊢
    rw [List.append_nil]
    exact .inr (.inr ⟨job, p, _, rfl, hran, hret, rfl, rfl, hid, rfl, Option.some.inj hprog⟩)
  | findRaised exc | createRaised exc | resumeRaised exc | saveRaised exc | markRaised exc =>
    exact .inl ⟨exc, rfl⟩
  | die hp => trivial

theorem Inv.of_reach {ok : Analysis → List Output → Event → Prop} {r₀ : Option JobRecord}
    (hr : (machine req).Reach ok (request r₀) s h) : Inv req r₀ s h := by
  have hstart : Inv req r₀ (request r₀) [] := ⟨rfl, rfl⟩
  exact hr.invariant hstart fun _ _ _ _ _ _ hinv _ hs => hinv.step (.of_step hs)

/-- The account of the run of a request. -/
lemma Ran.flow {r₀ : Option JobRecord} (hr : Ran req r₀ job p h) :
    Pipeline.Flow (req.dispatch job) (.start req.source (req.sampler job)) (.initial job.prior) p
      (runOutputs h) :=
  .of_reach hr.reach

/-- At the end of the stream a run has dispatched the frames after its start, unless a call has
raised. -/
lemma Ran.dispatched_eq {r₀ : Option JobRecord} (hr : Ran req r₀ job p h)
    (hsure : req.SeeksSurely (RunState.initial job.prior).lastSourceIndex)
    (hfin : p.main = .finished) (hend : p.decoder.items req.source = [])
    (herr : p.state.error = none) :
    (Pipeline.dispatched (runOutputs h)).map SampledFrame.sourceIndex =
      req.decodable.filter fun i : ℕ => (RunState.initial job.prior).lastSourceIndex < (i : ℤ) := by
  rw [hr.flow.dispatched_eq hfin hend herr]
  exact req.frames_eq job hsure

/-- At the end of the stream a run has counted the failures after its start. -/
lemma Ran.undecoded_eq {r₀ : Option JobRecord} (hr : Ran req r₀ job p h)
    (hsure : req.SeeksSurely (RunState.initial job.prior).lastSourceIndex)
    (hfin : p.main = .finished) (hend : p.decoder.items req.source = []) :
    (Pipeline.undecoded (runOutputs h)).map DecodeFailure.sourceIndex =
      req.undecodable.filter fun i : ℕ =>
        (RunState.initial job.prior).lastSourceIndex < (i : ℤ) := by
  rw [hr.flow.undecoded_eq hfin hend]
  exact req.failures_eq job hsure

/-- A run that is not aborted and returned has read the stream to its end. -/
lemma items_eq_nil_of_returned {cfg : Dispatch} {d₀ : Decoder} {s₀ : RunState} {p : Pipeline}
    {o : List Pipeline.Output} (hf : Pipeline.Flow cfg d₀ s₀ p o) (hret : Returned p)
    (hab : p.abort = false) : p.decoder.items cfg.source = [] := by
  have hover := hf.stops.stopping (by rw [hret.1]; simp)
  have hended : p.thread = .ended := by
    cases ht : p.thread <;> rw [ht] at hover <;>
      first | rfl | exact absurd ht (hret.2 _) | cases hover
  rcases hf.ended hended with h | h
  · rw [hab] at h
    cases h
  · exact h

lemma Ran.items_eq_nil {r₀ : Option JobRecord} (hr : Ran req r₀ job p h) (hret : Returned p)
    (hab : p.abort = false) : p.decoder.items req.source = [] :=
  items_eq_nil_of_returned hr.flow hret hab

/-- A fresh request has a job without a prior record. -/
lemma Ran.prior_eq_none {r₀ : Option JobRecord} (hr : Ran req r₀ job p h)
    (hr₀ : ∀ r, r₀ = some r → r.lastSourceIndex < 0) : job.prior = none := by
  cases hp : job.prior with
  | none => rfl
  | some prior =>
    obtain ⟨heq, -, hL⟩ := hr.prior prior hp
    exact absurd hL (not_le.mpr (hr₀ prior heq))

/-- A closing that answers with an outcome. -/
lemma close_ok (hc : (req.close job p).result = .ok o) :
    p.state.error = none ∧ o = req.outcome job p.state (req.close job p).status ∧
    (req.close job p).status = if p.abort then .cancelled
      else if p.state.framesFailed ≠ 0 then .partial_ else .completed := by
  rw [Request.close] at hc ⊢
  split at hc
  · cases hc
  · next herr =>
    simp only [Request.finalise] at hc ⊢
    split at hc
    · cases hc
    · next hratio =>
      rw [if_neg hratio]
      refine ⟨herr, ?_, rfl⟩
      cases hc
      rfl

lemma close_error {exc : String} (herr : p.state.error = some exc) :
    req.close job p = req.recordFailure p.state exc := by
  rw [Request.close, herr]

lemma close_ne_repository (req : Request) (job : Job) (p : Pipeline) (exc : String) :
    (req.close job p).result ≠ .error (.repository exc) := by
  rw [Request.close]
  split
  · simp [Request.recordFailure]
  · simp only [Request.finalise]
    split <;> simp

lemma close_ne_source (req : Request) (job : Job) (p : Pipeline) (exc : String) :
    (req.close job p).result ≠ .error (.source exc) := by
  rw [Request.close]
  split
  · simp [Request.recordFailure]
  · simp only [Request.finalise]
    split <;> simp

end Analysis

end VideoPipeline
