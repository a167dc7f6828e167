import Mathlib.Data.List.Dedup
import VideoPipeline.Analyzer.NoGap

/-!
# The counters of a job over a chain

A checkpoint carries the watermark of the confirmed frames, but it counts every failure up to where
the decoder is, and the confirms in whatever order they came. A run that resumes from it decodes
again what is after the watermark. The counters stay exact as long as each run resumes from a clean
point, where no failure after the watermark was counted and no frame up to it was without its
confirm, and is sure of where it starts to read.
-/

namespace VideoPipeline

/-- The run and the result of a request that has exited after its run. -/
def Phase.exited? : Phase → Option ((Job × Pipeline) × Except ServiceError AnalysisOutcome)
  | .exited (some run) result => some (run, result)
  | _                         => none

lemma Phase.exited?_eq_some {ph : Phase} {run : Job × Pipeline}
    {result : Except ServiceError AnalysisOutcome} (h : ph.exited? = some (run, result)) :
    ph = .exited (some run) result := by
  unfold exited? at h
  split at h
  · cases h
    rfl
  · cases h

namespace Chain

open Analysis (Output Run Ran lastRun runOutputs)

variable {req : Request} {s s' : Analysis} {e : Event} {out h : List Output} {job : Job}
  {p : Pipeline} {run : Run}

/-! ### Counting up to an index -/

/-- The indices up to a watermark. -/
def upTo (l : List ℕ) (L : ℤ) : List ℕ := l.filter fun i : ℕ => (i : ℤ) ≤ L

/-- The indices after a watermark. -/
def after (l : List ℕ) (L : ℤ) : List ℕ := l.filter fun i : ℕ => L < (i : ℤ)

lemma length_upTo_add_after (l : List ℕ) (L : ℤ) :
    (upTo l L).length + (after l L).length = l.length := by
  rw [List.length_eq_length_filter_add (l := l) fun i : ℕ => decide ((i : ℤ) ≤ L)]
  simp only [upTo, after, ← not_le, decide_not]

lemma length_upTo_add {L₀ L : ℤ} (hle : L₀ ≤ L) (l : List ℕ) :
    (upTo l L₀).length + (upTo (after l L₀) L).length = (upTo l L).length := by
  rw [← length_upTo_add_after (upTo l L) L₀]
  congr 2
  · simp only [upTo, List.filter_filter, ← Bool.decide_and]
    congr 1
    funext i
    exact decide_eq_decide.mpr ⟨fun h => ⟨h, h.trans hle⟩, fun h => h.1⟩
  · simp only [upTo, after, List.filter_filter, ← Bool.decide_and, and_comm]

lemma upTo_noProgress (l : List ℕ) : upTo l noProgress.lastSourceIndex = [] := by
  rw [upTo, List.filter_eq_nil_iff]
  intro i _ hle
  have hneg : (i : ℤ) ≤ -1 := of_decide_eq_true hle
  omega

/-- A progress counts what the video has up to its watermark, and the job has confirmed it. -/
structure Exact (req : Request) (h : List Output) (jobId : String) (c : Checkpoint) : Prop where
  covered : Covered req h jobId c.lastSourceIndex
  dispatched : c.framesDispatched = (upTo req.decodable c.lastSourceIndex).length
  failed : c.framesFailed = (upTo req.undecodable c.lastSourceIndex).length

lemma Exact.append {jobId : String} {c : Checkpoint} (he : Exact req h jobId c)
    (out : List Output) : Exact req (h ++ out) jobId c :=
  ⟨he.covered.append out, he.dispatched, he.failed⟩

lemma exact_noProgress (req : Request) (h : List Output) (jobId : String) :
    Exact req h jobId noProgress := by
  refine ⟨covered_noProgress req h jobId, ?_, ?_⟩
  · rw [upTo_noProgress]
    rfl
  · rw [upTo_noProgress]
    rfl

/-! ### Clean points -/

lemma length_frames_upTo (l : List SampledFrame) (L : ℤ) :
    ((l.map SampledFrame.frameId).filter (· ≤ L)).length =
      (upTo (l.map SampledFrame.sourceIndex) L).length := by
  have hcast : l.map SampledFrame.frameId =
      (l.map SampledFrame.sourceIndex).map fun i : ℕ => (i : ℤ) := by
    rw [List.map_map]
    rfl
  rw [hcast, List.filter_map, List.length_map]
  rfl

lemma length_failures_upTo (l : List DecodeFailure) (L : ℤ) :
    (l.filter fun f => (f.sourceIndex : ℤ) ≤ L).length =
      (upTo (l.map DecodeFailure.sourceIndex) L).length := by
  rw [upTo, List.filter_map, List.length_map]
  rfl

/-- At a clean point the progress of a run is exact, if that of its start is. -/
lemma exact_of_clean (ha : At req run job p) (hl : lastRun h = some run)
    (hsure : req.SeeksSurely (RunState.initial job.prior).lastSourceIndex)
    (hstart : Exact req h run.jobId run.start) {l : List Pipeline.Output} (hpre : l <+: run.log)
    (hclean : Pipeline.Clean l (Pipeline.progressAfter run.start l).lastSourceIndex) :
    Exact req h run.jobId (Pipeline.progressAfter run.start l) := by
  obtain ⟨p₁, ha₁⟩ := ha.exists_prefix hpre
  have hflow := ha₁.flow
  have hprog := hflow.counts.progress_eq
  rw [← ha.start] at hprog
  have hL : p₁.state.lastSourceIndex = (Pipeline.progressAfter run.start l).lastSourceIndex :=
    congrArg Checkpoint.lastSourceIndex hprog
  rw [← hL] at hclean
  have hle : run.start.lastSourceIndex ≤ p₁.state.lastSourceIndex := by
    rw [hL]
    exact Pipeline.le_watermark _ _
  have hstartL : run.start.lastSourceIndex = (RunState.initial job.prior).lastSourceIndex :=
    congrArg Checkpoint.lastSourceIndex ha.start
  refine ⟨?_, ?_, ?_⟩
  · intro i hi hiL
    rcases le_or_gt (i : ℤ) run.start.lastSourceIndex with hold | hnew
    · exact hstart.covered i hi hold
    · rw [hstartL] at hnew
      obtain ⟨f, hf, hid⟩ := exists_frame job hsure hi hnew
      rw [← hid] at hnew hiL
      rw [ha.start] at hiL
      have hdisp := hflow.dispatched_of_le (List.prefix_refl l) hf hnew hiL
      rw [← ha.start, ← hL] at hiL
      obtain ⟨ref, href, hconf⟩ := hclean.2 f hdisp hiL
      obtain ⟨l', hlog⟩ := hpre
      have hmem : ref ∈ Pipeline.confirmedRefs run.log := by
        rw [← hlog, Pipeline.confirmedRefs_append]
        exact List.mem_append_left _ href
      exact ha.confirmed hl hmem (hconf.trans hid)
  · have hperm := (hflow.confirmed_perm_of_clean hclean fun f => start_lt_frame).length_eq
    rw [List.length_map, length_frames_upTo] at hperm
    have hframes : ((Decoder.start req.source (req.sampler job)).frames req.source).map
        SampledFrame.sourceIndex = after req.decodable run.start.lastSourceIndex := by
      rw [hstartL]
      exact req.frames_eq job hsure
    rw [show (req.dispatch job).source = req.source from rfl, hframes] at hperm
    rw [← hL, ← length_upTo_add hle, ← hperm, ← hstart.dispatched]
    rfl
  · have hund := congrArg List.length
      (hflow.undecoded_of_clean hclean ha₁.tracked fun f => start_lt_failure)
    rw [length_failures_upTo] at hund
    have hfailures : ((Decoder.start req.source (req.sampler job)).failures req.source).map
        DecodeFailure.sourceIndex = after req.undecodable run.start.lastSourceIndex := by
      rw [hstartL]
      exact req.failures_eq job hsure
    rw [show (req.dispatch job).source = req.source from rfl, hfailures] at hund
    rw [← hL, ← length_upTo_add hle, ← hund, ← hstart.failed]
    rfl

/-! ### Along a chain -/

/-- A run resumes from a record whose progress the last run had at a clean point. -/
def resumesClean (s : Analysis) (h : List Output) (e : Event) : Prop :=
  ∀ prior ∈ resumes? s e, ∀ run ∈ lastRun h, ∀ l ∈ run.log.inits,
    Pipeline.progressAfter run.start l = prior.progress →
      Pipeline.Clean l prior.lastSourceIndex

instance (s : Analysis) (h : List Output) (e : Event) : Decidable (resumesClean s h e) :=
  inferInstanceAs (Decidable (∀ prior ∈ resumes? s e, ∀ run ∈ lastRun h, ∀ l ∈ run.log.inits, _))

/-- Runs resume from clean points, and surely. -/
def undistorting (req : Request) (s : Analysis) (h : List Output) (e : Event) : Prop :=
  resumesClean s h e ∧ resumesSurely req s e

instance (req : Request) (s : Analysis) (h : List Output) (e : Event) :
    Decidable (undistorting req s h e) :=
  inferInstanceAs (Decidable (_ ∧ _))

/-- The last run has started from an exact progress, and only frames of the video are confirmed. -/
structure Counted (req : Request) (h : List Output) : Prop where
  begun : ∀ run, lastRun h = some run → Exact req h run.jobId run.start
  confirmed : ∀ ref ∈ Pipeline.confirmedRefs (runOutputs h), ∃ i ∈ req.decodable,
    ref.frameId = (i : ℤ)

/-- What a run confirms are decodable frames. -/
lemma At.decodable (ha : At req run job p)
    (hsure : req.SeeksSurely (RunState.initial job.prior).lastSourceIndex) {ref : FrameRef}
    (href : ref ∈ Pipeline.confirmedRefs run.log) :
    ∃ i ∈ req.decodable, ref.frameId = (i : ℤ) := by
  obtain ⟨f, hf, hid⟩ := ha.flow.exists_dispatched href
  have hmem := List.mem_map_of_mem (f := SampledFrame.sourceIndex)
    (ha.flow.dispatched_sublist.subset hf)
  rw [show (req.dispatch job).source = req.source from rfl, req.frames_eq job hsure,
    List.mem_filter] at hmem
  exact ⟨f.sourceIndex, hmem.1, hid.symm⟩

lemma Counted.begun_append (hc : Counted req h) (o : List Pipeline.Output) :
    ∀ run, lastRun (h ++ o.map .run) = some run →
      Exact req (h ++ o.map .run) run.jobId run.start := by
  intro run hl
  rw [Analysis.lastRun_append_run] at hl
  obtain ⟨run', hl', rfl⟩ := Option.map_eq_some_iff.mp hl
  exact (hc.begun run' hl').append _

lemma Counted.confirmed_append (hc : Counted req h)
    (hout : Pipeline.confirmedRefs (runOutputs out) = []) :
    ∀ ref ∈ Pipeline.confirmedRefs (runOutputs (h ++ out)), ∃ i ∈ req.decodable,
      ref.frameId = (i : ℤ) := by
  rw [Analysis.runOutputs_append, Pipeline.confirmedRefs_append, hout, List.append_nil]
  exact hc.confirmed

/-- A run that resumes from a clean point starts from an exact progress. -/
lemma Counted.exact_prior (hc : Counted req h) (hinv : Inv req s h) (hcar : Carried req s h)
    (hsure : ∀ run, lastRun h = some run → req.SeeksSurely run.start.lastSourceIndex)
    {prior : JobRecord} {now : ℚ} (hp : s.phase = .resuming prior)
    (hok : resumesClean s h (.call (.started now))) :
    Exact req h prior.jobId prior.progress := by
  obtain ⟨run, hl, hid, l, hpre, heq⟩ :=
    hcar.progress _ _ (hinv.resuming hp) (hinv.resuming_nonneg hp)
  obtain ⟨job, p, ha⟩ := hcar.run run hl
  have hclean := hok prior (mem_resumes? hp) run hl l ((List.mem_inits l run.log).mpr hpre)
    heq.symm
  have hrun := hsure run hl
  rw [ha.start] at hrun
  rw [heq, ← hid]
  apply exact_of_clean ha hl hrun (hc.begun run hl) hpre
  rw [← heq]
  exact hclean

lemma Counted.step (hc : Counted req h) (hinv : Inv req s h) (hinv' : Inv req s' (h ++ out))
    (hcar : Carried req s h)
    (hsure : ∀ run, lastRun h = some run → req.SeeksSurely run.start.lastSourceIndex)
    (hok : resumesClean s h e) (he : Effect req s e s' out) : Counted req (h ++ out) := by
  cases he with
  | kept | expired | created =>
    rw [List.append_nil]
    exact hc
  | began _ _ jobId =>
    refine ⟨fun run hl => ?_, hc.confirmed_append rfl⟩
    rw [Analysis.lastRun_append_begun] at hl
    cases hl
    exact exact_noProgress req _ jobId
  | resumed now _ prior hp =>
    refine ⟨fun run hl => ?_, hc.confirmed_append rfl⟩
    rw [Analysis.lastRun_append_begun] at hl
    cases hl
    exact (hc.exact_prior hinv hcar hsure hp hok).append _
  | ran e now _ job p p' o hp hs hp' =>
    refine ⟨hc.begun_append o, fun ref href => ?_⟩
    rw [Analysis.runOutputs_append, Pipeline.confirmedRefs_append, List.mem_append] at href
    rcases href with href | href
    · exact hc.confirmed ref href
    · -- the log of the current run ends with what it has put out now
      have hrun : s'.phase.run? = some (job, p') := by
        rw [hp']
        rfl
      obtain ⟨run, hl, ha⟩ := hinv'.exists_at hrun
      rw [Analysis.lastRun_append_run] at hl
      obtain ⟨run', hl', rfl⟩ := Option.map_eq_some_iff.mp hl
      have hrun := hsure run' hl'
      rw [show run'.start = _ from ha.start] at hrun
      apply ha.decodable hrun
      rw [Pipeline.confirmedRefs_append]
      rw [Analysis.runOutputs_map_run] at href
      exact List.mem_append_right _ href
  | checkpointed w c now => exact ⟨hc.begun_append [.checkpoint c], hc.confirmed_append rfl⟩
  | saved _ _ job p =>
    refine ⟨fun run hl => ?_, hc.confirmed_append rfl⟩
    rw [Analysis.lastRun_append_saved] at hl
    exact (hc.begun run hl).append _

theorem Counted.of_reach (hr : (machine req).Reach (undistorting req) start s h) :
    Counted req h := by
  refine hr.invariant (P := fun _ h => Counted req h) ⟨?_, ?_⟩ ?_
  · intro run hl
    cases hl
  · intro ref href
    cases href
  · intro s h e s' out hreach hc hok hs
    have hinv := Inv.of_reach hreach
    exact hc.step hinv (hinv.step hs) (.of_reach hreach)
      (sure_of_reach (fun _ _ _ hok => hok.2) hreach) hok.1 (.of_step hinv hs)

/-! ### At the end of the stream -/

/-- The request has exited by the closing of a run that has read the stream to its end without a
dispatch error. -/
structure Ended (req : Request) (s : Analysis) (job : Job) (p : Pipeline) : Prop where
  exited : s.phase = .exited (some (job, p)) (req.close job p).result
  stream : p.decoder.items req.source = []
  error : p.state.error = none

lemma Ended.ran {r₀ : Option JobRecord} (he : Ended req s job p) (hinv : Analysis.Inv req r₀ s h) :
    Ran req r₀ job p h ∧ p.main = .finished ∧ ∃ r, s.record = some r ∧ r.jobId = job.jobId ∧
      r.status = (req.close job p).status ∧ r.progress = p.state.progress := by
  simp only [Analysis.Inv, he.exited] at hinv
  rcases hinv with ⟨exc, hres⟩ | ⟨job', p', exc, -, -, -, -, hres, -⟩ |
    ⟨job', p', r, heq, hran, hret, -, hrec, hid, hst, hprog⟩
  · exact absurd hres (Analysis.close_ne_repository req job p exc)
  · exact absurd hres (Analysis.close_ne_source req job p exc)
  · cases heq
    exact ⟨hran, hret.1, r, hrec, hid, hst, hprog⟩

/-- At the end of the stream a run that started from an exact progress has counted the whole
video. -/
lemma Ended.totals {r₀ : Option JobRecord} {h₁ : List Output} (he : Ended req s job p)
    (hran : Ran req r₀ job p h₁) (hfin : p.main = .finished)
    (hsure : req.SeeksSurely (RunState.initial job.prior).lastSourceIndex)
    (hstart : Exact req h job.jobId (RunState.initial job.prior).progress) :
    p.state.framesConfirmed = req.decodable.length ∧
      p.state.framesFailed = req.undecodable.length := by
  have hcounts := hran.flow.counts
  constructor
  · have hperm := (hran.flow.confirmed_perm hfin he.error).length_eq
    have hdisp := congrArg List.length (hran.dispatched_eq hsure hfin he.stream he.error)
    rw [List.length_map] at hdisp
    rw [List.length_map, List.length_map, hdisp] at hperm
    rw [hcounts.confirmed, hperm, ← length_upTo_add_after req.decodable
      (RunState.initial job.prior).lastSourceIndex]
    exact congrArg (· + _) hstart.dispatched
  · have hund := congrArg List.length (hran.undecoded_eq hsure hfin he.stream)
    rw [List.length_map] at hund
    rw [hcounts.failed, hund, ← length_upTo_add_after req.undecodable
      (RunState.initial job.prior).lastSourceIndex]
    exact congrArg (· + _) hstart.failed

/-- The status that a request ends with is decided by its counters and the abort flag. -/
lemma close_status_eq {job' : Job} {p' : Pipeline} (he : p.state.error = none)
    (he' : p'.state.error = none) (hc : p'.state.framesConfirmed = p.state.framesConfirmed)
    (hf : p'.state.framesFailed = p.state.framesFailed) (ha : p'.abort = p.abort) :
    (req.close job' p').status = (req.close job p).status := by
  simp only [Request.close, he, he', Request.finalise, hc, hf, ha]
  split <;> rfl

/-- The ids of the frames that are confirmed for a job. -/
def confirmedIds (h : List Output) (jobId : String) : List ℤ :=
  ((Pipeline.confirmedRefs (runOutputs h)).filter fun ref => ref.jobId = jobId).map
    FrameRef.frameId

lemma decodable_nodup (req : Request) : req.decodable.Nodup :=
  ((req.source.sampled_pairwise req.rate).filter _).imp fun hlt => hlt.ne

/-- Where all decodable frames are confirmed for a job and nothing else is, the confirmed ids are
as many as the decodable frames. -/
lemma length_confirmedIds {jobId : String} (hc : Counted req h)
    (hall : ∀ i ∈ req.decodable, Confirmed h jobId i) :
    (confirmedIds h jobId).dedup.length = req.decodable.length := by
  have hperm : (confirmedIds h jobId).dedup.Perm (req.decodable.map fun i : ℕ => (i : ℤ)) := by
    rw [List.perm_ext_iff_of_nodup (List.nodup_dedup _)
      ((decodable_nodup req).map fun _ _ hab => Int.ofNat_inj.mp hab)]
    intro j
    rw [List.mem_dedup]
    constructor
    · intro hj
      obtain ⟨ref, href, rfl⟩ := List.mem_map.mp hj
      obtain ⟨i, hi, hid⟩ := hc.confirmed ref (List.mem_filter.mp href).1
      exact List.mem_map.mpr ⟨i, hi, hid.symm⟩
    · intro hj
      obtain ⟨i, hi, rfl⟩ := List.mem_map.mp hj
      obtain ⟨ref, href, hjob, hid⟩ := hall i hi
      exact List.mem_map.mpr ⟨ref, List.mem_filter.mpr ⟨href, decide_eq_true hjob⟩, hid⟩
  rw [hperm.length_eq, List.length_map]

/-- The record counts the frames of the video and the confirmed ids of its job, and it has ended
like every request that was never interrupted. -/
def Undistorted (req : Request) (s : Analysis) (h : List Output) (job : Job) (p : Pipeline) :
    Prop :=
  ∃ r, s.record = some r ∧ r.jobId = job.jobId ∧ r.framesFailed = req.undecodable.length ∧
    r.framesDispatched = (confirmedIds h job.jobId).dedup.length ∧
    ∀ s' h' job' p', (Analysis.machine req).Reach Machine.anyStep (.request none) s' h' →
      Ended req s' job' p' → p'.abort = p.abort →
        ∃ r', s'.record = some r' ∧ r'.status = r.status ∧ r'.framesFailed = r.framesFailed ∧
          r'.framesDispatched = r.framesDispatched

/-- In a chain in which every run resumes surely and from a clean point, a run that reaches the end
of the stream without a dispatch error leaves counters and a status that are not distorted. -/
theorem counters_exact (hr : (machine req).Reach (undistorting req) start s h)
    (he : Ended req s job p) : Undistorted req s h job p := by
  have hc := Counted.of_reach hr
  obtain ⟨r₀, h₁, hsuf, hinv⟩ := Inv.of_reach hr
  obtain ⟨hran, hfin, r, hrec, hid, hst, hprog⟩ := he.ran hinv
  obtain ⟨run, hl, ha⟩ := exists_at hran hsuf
  have hsure := sure_of_reach (fun _ _ _ hok => hok.2) hr run hl
  have hstart := hc.begun run hl
  rw [ha.start] at hsure
  rw [ha.start, ha.jobId] at hstart
  have hall := covered_of_finished hran hsuf hsure hfin he.stream he.error hstart.covered
  obtain ⟨hconf, hfail⟩ := he.totals hran hfin hsure hstart
  have hD : r.framesDispatched = req.decodable.length :=
    (congrArg Checkpoint.framesDispatched hprog).trans hconf
  have hF : r.framesFailed = req.undecodable.length :=
    (congrArg Checkpoint.framesFailed hprog).trans hfail
  refine ⟨r, hrec, hid, hF, ?_, ?_⟩
  · rw [hD, length_confirmedIds hc hall]
  · intro s' h' job' p' hr' he' hab
    obtain ⟨hran', hfin', r', hrec', -, hst', hprog'⟩ := he'.ran (Analysis.Inv.of_reach hr')
    have hfresh : job'.prior = none := hran'.prior_eq_none fun r hr => (by cases hr)
    have hstart' : Exact req h' job'.jobId (RunState.initial job'.prior).progress := by
      rw [hfresh]
      exact exact_noProgress req h' job'.jobId
    have hsure' : req.SeeksSurely (RunState.initial job'.prior).lastSourceIndex := by
      rw [hfresh]
      exact req.seeksSurely_of_neg neg_one_lt_zero
    obtain ⟨hconf', hfail'⟩ := he'.totals hran' hfin' hsure' hstart'
    refine ⟨r', hrec', ?_, ?_, ?_⟩
    · rw [hst, hst']
      exact close_status_eq he.error he'.error (hconf'.trans hconf.symm)
        (hfail'.trans hfail.symm) hab
    · rw [hF]
      exact (congrArg Checkpoint.framesFailed hprog').trans hfail'
    · rw [hD]
      exact (congrArg Checkpoint.framesDispatched hprog').trans hconf'

lemma exists_ended (hx : ∃ x ∈ s.phase.exited?, x.2 = (req.close x.1.1 x.1.2).result ∧
    x.1.2.decoder.items req.source = [] ∧ x.1.2.state.error = none) :
    ∃ job p, Ended req s job p := by
  obtain ⟨⟨⟨job, p⟩, result⟩, hmem, hres, hend, herr⟩ := hx
  refine ⟨job, p, ?_, hend, herr⟩
  rw [Phase.exited?_eq_some hmem, show result = (req.close job p).result from hres]

/-- The process dies at a clean point behind an unreadable frame, and the next request ends with the
counters of the video. -/
theorem counters_exact_run :
    ∃ s h job p, (machine (.clip {checkpointEvery := 1, maxFrameFailureRatio := 1}
        [.noImage, .blank, .blank])).Reach
        (undistorting (.clip {checkpointEvery := 1, maxFrameFailureRatio := 1}
          [.noImage, .blank, .blank])) start s h ∧
      Ended (.clip {checkpointEvery := 1, maxFrameFailureRatio := 1} [.noImage, .blank, .blank])
        s job p ∧
      s.record.map (fun r => (r.status, r.framesFailed)) = some (.partial_, 1) ∧
      Undistorted (.clip {checkpointEvery := 1, maxFrameFailureRatio := 1}
        [.noImage, .blank, .blank]) s h job p := by
  have hrun : ∃ s h, (machine (.clip {checkpointEvery := 1, maxFrameFailureRatio := 1}
      [.noImage, .blank, .blank])).Reach
      (undistorting (.clip {checkpointEvery := 1, maxFrameFailureRatio := 1}
        [.noImage, .blank, .blank])) start s h ∧
      (∃ x ∈ s.phase.exited?,
        x.2 = ((Request.clip {checkpointEvery := 1, maxFrameFailureRatio := 1}
          [.noImage, .blank, .blank]).close x.1.1 x.1.2).result ∧
        x.1.2.decoder.items (.clip [.noImage, .blank, .blank]) = [] ∧
        x.1.2.state.error = none) ∧
      s.record.map (fun r => (r.status, r.framesFailed)) = some (.partial_, 1) :=
    Machine.Reach.exists_of_exec
      [.call (.found 0 "j"), .call (.started 0), .call (.run .advance 0), .call (.run .handle 0),
        .call (.run .advance 0), .call (.run .handle 0), .call (.run .enqueue 0),
        .call (.run (.worker 0 .take) 0), .call (.run (.worker 0 (.stored 0)) 0),
        .call (.run (.worker 0 .published) 0), .call (.run (.worker 0 .confirmed) 0),
        .call (.run (.worker 0 .checkpointWritten) 0), .call .die, .request false,
        .call (.found 200 "k"), .call (.started 200), .call (.run .advance 200),
        .call (.run .handle 200), .call (.run .enqueue 200), .call (.run .look 200),
        .call (.run .advance 200), .call (.run (.worker 3 .take) 200),
        .call (.run (.worker 3 (.stored 200)) 200), .call (.run (.worker 3 .published) 200),
        .call (.run (.worker 3 .confirmed) 200), .call (.run (.worker 3 .checkpointWritten) 200),
        .call (.run (.worker 3 .checkpointReturned) 200), .call (.run .decodeDone 200),
        .call (.run .putStop 200), .call (.run .putStop 200), .call (.run .putStop 200),
        .call (.run .putStop 200), .call (.run (.worker 0 .take) 200),
        .call (.run (.worker 1 .take) 200), .call (.run (.worker 2 .take) 200),
        .call (.run (.worker 3 .take) 200), .call (.run .gathered 200), .call .returned,
        .call (.saved 200), .call (.marked 200)]
      (by decide +kernel)
  obtain ⟨s, h, hr, hx, hrec⟩ := hrun
  obtain ⟨job, p, he⟩ := exists_ended hx
  exact ⟨s, h, job, p, hr, he, hrec, counters_exact hr he⟩

/-- A partial job is submitted again. Its one unreadable frame is after the watermark and is counted
twice, and the job ends as failed. -/
theorem failure_counted_twice :
    ∃ s h job p, (machine (.clip {analyzerPublishers := 1, maxFrameFailureRatio := 1 / 2}
        [.blank, .noImage])).Reach Machine.anyStep start s h ∧
      Ended (.clip {analyzerPublishers := 1, maxFrameFailureRatio := 1 / 2} [.blank, .noImage])
        s job p ∧
      s.record.map (fun r => (r.status, r.framesFailed)) = some (.failed, 2) ∧
      ¬ Undistorted (.clip {analyzerPublishers := 1, maxFrameFailureRatio := 1 / 2}
        [.blank, .noImage]) s h job p := by
  have hrun : ∃ s h, (machine (.clip {analyzerPublishers := 1, maxFrameFailureRatio := 1 / 2}
      [.blank, .noImage])).Reach Machine.anyStep start s h ∧
      (∃ x ∈ s.phase.exited?,
        x.2 = ((Request.clip {analyzerPublishers := 1, maxFrameFailureRatio := 1 / 2}
          [.blank, .noImage]).close x.1.1 x.1.2).result ∧
        x.1.2.decoder.items (.clip [.blank, .noImage]) = [] ∧ x.1.2.state.error = none) ∧
      s.record.map (fun r => (r.status, r.framesFailed)) = some (.failed, 2) :=
    Machine.Reach.exists_of_exec
      [.call (.found 0 "j"), .call (.started 0), .call (.run .advance 0), .call (.run .handle 0),
        .call (.run .enqueue 0), .call (.run .look 0), .call (.run .advance 0),
        .call (.run .handle 0), .call (.run .advance 0), .call (.run (.worker 0 .take) 0),
        .call (.run (.worker 0 (.stored 0)) 0), .call (.run (.worker 0 .published) 0),
        .call (.run (.worker 0 .confirmed) 0), .call (.run .decodeDone 0), .call (.run .putStop 0),
        .call (.run (.worker 0 .take) 0), .call (.run .gathered 0), .call .returned,
        .call (.saved 0), .call (.marked 0), .request false, .call (.found 1 "k"),
        .call (.started 1), .call (.run .advance 1), .call (.run .handle 1),
        .call (.run .advance 1),
        .call (.run .decodeDone 1), .call (.run .putStop 1), .call (.run (.worker 0 .take) 1),
        .call (.run .gathered 1), .call .returned, .call (.saved 1), .call (.marked 1)]
      (by decide +kernel)
  obtain ⟨s, h, hr, hx, hrec⟩ := hrun
  obtain ⟨job, p, he⟩ := exists_ended hx
  refine ⟨s, h, job, p, hr, he, hrec, ?_⟩
  rintro ⟨r, hr', -, hfail, -⟩
  have hone : (Request.clip {analyzerPublishers := 1, maxFrameFailureRatio := 1 / 2}
      [.blank, .noImage]).undecodable.length = 1 := by
    decide +kernel
  rw [hr', Option.map_some, Option.some.injEq, Prod.mk.injEq, hfail, hone] at hrec
  cases hrec.2

end Chain

end VideoPipeline
