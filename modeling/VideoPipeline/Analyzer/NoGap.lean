import VideoPipeline.Analyzer.Chain

/-!
# Checkpoints without a gap

A run that resumes starts after the watermark of the record, so every decodable frame up to it has
to be confirmed by then. The watermark is the largest index that was confirmed, and among several
tasks a later frame may be confirmed before an earlier one. As long as a checkpoint is written only
while no frame up to its watermark is being dispatched or was given up, and no resume is unsure of
where its seek has landed, no chain loses a frame.
-/

namespace VideoPipeline

namespace Pipeline

variable {cfg : Dispatch} {p p' : Pipeline} {e : Event} {out h : List Output} {d₀ : Decoder}
  {s₀ : RunState}

/-- A single task deals with the frames one after the other, and a frame that it gives up is the
last. -/
structure Serial (p : Pipeline) (h : List Output) : Prop where
  order : (dispatched h).map SampledFrame.frameId = (confirmedRefs h).map FrameRef.frameId ++
    (abandoned h ++ (p.workers 0).holding).map SampledFrame.frameId
  abandoned : Pipeline.abandoned h ≠ [] → p.state.error ≠ none
  one : (Pipeline.abandoned h ++ (p.workers 0).holding).length ≤ 1

lemma Serial.quiet (hs : Serial p h) (hw : (p'.workers 0).holding = (p.workers 0).holding)
    (herr : p.state.error ≠ none → p'.state.error ≠ none) (hd : dispatched out = [])
    (hc : confirmedRefs out = []) (ha : Pipeline.abandoned out = []) : Serial p' (h ++ out) := by
  refine ⟨?_, ?_, ?_⟩
  · rw [dispatched_append, confirmedRefs_append, abandoned_append, hd, hc, ha, hw]
    simpa using hs.order
  · rw [abandoned_append, ha, List.append_nil]
    exact fun hne => herr (hs.abandoned hne)
  · rw [abandoned_append, ha, hw, List.append_nil]
    exact hs.one

/-- While a single task holds a frame, it has given up none. -/
lemma Serial.abandoned_eq_nil (hs : Serial p h) {f : SampledFrame}
    (hf : (p.workers 0).holding = [f]) : Pipeline.abandoned h = [] := by
  have hone := hs.one
  rw [hf, List.length_append, List.length_singleton] at hone
  exact List.length_eq_zero_iff.mp (by omega)

/-- A single task confirms the frame that it holds. -/
lemma Serial.confirm (hs : Serial p h) {f : SampledFrame} {ref : FrameRef}
    (hf : (p.workers 0).holding = [f]) (hf' : (p'.workers 0).holding = [])
    (hd : dispatched out = []) (hc : confirmedRefs out = [ref]) (hid : ref.frameId = f.frameId)
    (ha : Pipeline.abandoned out = []) : Serial p' (h ++ out) := by
  have hnone := hs.abandoned_eq_nil hf
  have horder := hs.order
  rw [hnone, hf] at horder
  refine ⟨?_, ?_, ?_⟩
  · rw [dispatched_append, confirmedRefs_append, abandoned_append, hd, hc, ha, hf', hnone]
    simpa [hid] using horder
  · rw [abandoned_append, hnone, ha]
    exact fun hne => absurd rfl hne
  · rw [abandoned_append, hnone, ha, hf']
    exact Nat.zero_le 1

lemma Serial.step (hs : Serial p h) (hone : cfg.settings.analyzerPublishers = 1)
    (hl : ∀ w, (p.workers w).Labelled cfg) (hr : Rule cfg p e p' out) : Serial p' (h ++ out) := by
  have herr : p.state.error ≠ none → p'.state.error ≠ none := hr.error_ne hl
  rcases hr.workers_or with ⟨hsame, hd, hc, ha, -⟩ | ⟨w, op, -, hw, hr⟩
  · exact hs.quiet (by rw [hsame]) herr hd hc ha
  · obtain rfl : w = 0 := by omega
    cases hr with
    | take f q hw hq hnone =>
      have hgiven : Pipeline.abandoned h = [] := by
        by_contra hne
        exact hs.abandoned hne hnone
      have horder := hs.order
      rw [hgiven, hw] at horder
      refine ⟨?_, ?_, ?_⟩
      · rw [dispatched_append, confirmedRefs_append, abandoned_append, hgiven]
        simpa [dispatched, confirmedRefs, Pipeline.abandoned, PublishWorker.holding,
          List.filterMap_cons] using horder
      · rw [abandoned_append, hgiven]
        exact fun hne => absurd rfl hne
      · rw [abandoned_append, hgiven]
        simp only [Function.update_self]
        exact le_rfl
    | confirmed f ref hw | snapshot f ref hw =>
      have hlw := hl 0
      rw [hw] at hlw
      obtain ⟨now, rfl⟩ := hlw
      refine hs.confirm (by rw [hw]; rfl) ?_ rfl rfl rfl rfl
      simp only [Function.update_self]
      rfl
    | gaveUp f exc hw =>
      have hnone := hs.abandoned_eq_nil hw
      have horder := hs.order
      rw [hnone, hw] at horder
      refine ⟨?_, ?_, ?_⟩
      · rw [dispatched_append, confirmedRefs_append, abandoned_append, hnone]
        simpa [dispatched, confirmedRefs, Pipeline.abandoned, PublishWorker.holding,
          List.filterMap_cons] using horder
      · exact fun _ => RunState.recordError_error_ne _ _
      · rw [abandoned_append, hnone]
        simp only [Function.update_self]
        exact le_rfl
    | drain f q hw => exact hs.quiet rfl herr rfl rfl rfl
    | stop q hw | stored f now hw | published f ref hw | checkpointWritten c hw
    | checkpointReturned hw =>
      refine hs.quiet ?_ herr rfl rfl rfl
      simp only [Function.update_self, hw]
      rfl
    | checkpointRaised exc hw =>
      refine hs.quiet ?_ herr rfl rfl rfl
      simp only [Function.update_self]
      cases ht : p.workers 0 <;> rw [ht] at hw <;> first | rfl | cases hw

theorem Serial.of_reach {ok : Pipeline → List Output → Event → Prop} {sampler : FrameSampler}
    {prior : Option JobRecord} (hone : cfg.settings.analyzerPublishers = 1)
    (hr : (machine cfg).Reach ok (.start cfg sampler prior) p h) : Serial p h := by
  have hstart : Serial (.start cfg sampler prior) [] := by
    refine ⟨rfl, ?_, Nat.zero_le 1⟩
    exact fun hne => absurd rfl hne
  refine hr.invariant hstart ?_
  intro p h e p' out hreach hs _ hstep
  exact hs.step hone (Flow.of_reach hreach).labelled (.of_step hstep)

/-- With a single task no watermark ever reaches a frame that is open. -/
lemma Serial.clear (hs : Serial p h) (hone : cfg.settings.analyzerPublishers = 1)
    (hf : Flow cfg d₀ s₀ p h)
    (hstart : ∀ f ∈ d₀.frames cfg.source, s₀.lastSourceIndex < f.frameId) {l : List Output}
    (hpre : l <+: h) :
    Clear cfg.settings p h (progressAfter s₀.progress l).lastSourceIndex := by
  have hopen : ∀ f ∈ Pipeline.abandoned h ++ (p.workers 0).holding,
      (progressAfter s₀.progress l).lastSourceIndex < f.frameId := by
    intro f hmem
    have hsorted : ((dispatched h).map SampledFrame.frameId).Pairwise (· < ·) := by
      rw [List.pairwise_map]
      have hpair := (Decoder.frames_pairwise cfg.source d₀).sublist
        (hf.dispatched_sublist.map SampledFrame.sourceIndex)
      rw [List.pairwise_map] at hpair
      exact hpair.imp Int.ofNat_lt.mpr
    rw [hs.order, List.pairwise_append] at hsorted
    rcases watermark_eq_or s₀.lastSourceIndex (confirmedRefs l) with hL | ⟨ref, href, hL⟩
    · have hdisp : f.frameId ∈ (dispatched h).map SampledFrame.frameId := by
        rw [hs.order]
        exact List.mem_append_right _ (List.mem_map_of_mem hmem)
      obtain ⟨g, hg, hid⟩ := List.mem_map.mp hdisp
      rw [← hid]
      exact hL.trans_lt (hstart g (hf.dispatched_sublist.subset hg))
    · obtain ⟨l', rfl⟩ := hpre
      refine hL.trans_lt (hsorted.2.2 _ ?_ _ (List.mem_map_of_mem hmem))
      rw [confirmedRefs_append]
      exact List.mem_map_of_mem (List.mem_append_left _ href)
  refine ⟨?_, fun f hmem => hopen f (List.mem_append_left _ hmem)⟩
  intro w hw f hmem
  obtain rfl : w = 0 := by omega
  exact hopen f (List.mem_append_right _ hmem)

end Pipeline

namespace Chain

open Analysis (Output Run Ran lastRun runOutputs)

variable {req : Request} {s s' : Analysis} {e : Event} {out h : List Output} {job : Job}
  {p : Pipeline} {run : Run}

/-- Every decodable frame up to an index is confirmed for the job. -/
def Covered (req : Request) (h : List Output) (jobId : String) (L : ℤ) : Prop :=
  ∀ i ∈ req.decodable, (i : ℤ) ≤ L → Confirmed h jobId i

instance (req : Request) (h : List Output) (jobId : String) (L : ℤ) :
    Decidable (Covered req h jobId L) :=
  inferInstanceAs (Decidable (∀ i ∈ req.decodable, _))

/-- The watermark that a step writes, and the pipeline for which it is written. -/
def writes? (s : Analysis) : Event → Option (Pipeline × ℤ)
  | .call (.run (.worker w .checkpointWritten) _) =>
    match s.phase with
    | .running _ p =>
      match p.workers w with
      | .checkpointing c => some (p, c.lastSourceIndex)
      | _                => none
    | _ => none
  | .call (.saved _) | .call (.repoRaised _ true _) =>
    match s.phase with
    | .saving _ p => some (p, p.state.lastSourceIndex)
    | _           => none
  | _ => none

/-- A checkpoint is written only while no frame up to its watermark is being dispatched or was given
up by the run. -/
def writesClear (req : Request) (s : Analysis) (h : List Output) (e : Event) : Prop :=
  ∀ x ∈ writes? s e, ∀ run ∈ lastRun h, Pipeline.Clear req.settings x.1 run.log x.2

instance (req : Request) (s : Analysis) (h : List Output) (e : Event) :
    Decidable (writesClear req s h e) :=
  inferInstanceAs (Decidable (∀ x ∈ writes? s e, ∀ run ∈ lastRun h, _))

/-- Checkpoints are written clear, and runs resume surely. -/
def gapless (req : Request) (s : Analysis) (h : List Output) (e : Event) : Prop :=
  writesClear req s h e ∧ resumesSurely req s e

instance (req : Request) (s : Analysis) (h : List Output) (e : Event) :
    Decidable (gapless req s h e) :=
  inferInstanceAs (Decidable (_ ∧ _))

lemma Covered.append {jobId : String} {L : ℤ} (hc : Covered req h jobId L) (out : List Output) :
    Covered req (h ++ out) jobId L :=
  fun i hi hle => (hc i hi hle).append out

lemma covered_noProgress (req : Request) (h : List Output) (jobId : String) :
    Covered req h jobId noProgress.lastSourceIndex := by
  intro i _ hle
  have hneg : (i : ℤ) ≤ -1 := hle
  omega

/-- A watermark at which no frame is open leaves no gap, if the run has started without one. -/
lemma covered_of_clear (ha : At req run job p) (hl : lastRun h = some run)
    (hsure : req.SeeksSurely run.start.lastSourceIndex)
    (hstart : Covered req h run.jobId run.start.lastSourceIndex) {l : List Pipeline.Output}
    (hpre : l <+: run.log)
    (hclear : Pipeline.Clear req.settings p run.log
      (Pipeline.progressAfter run.start l).lastSourceIndex) :
    Covered req h run.jobId (Pipeline.progressAfter run.start l).lastSourceIndex := by
  intro i hi hle
  rcases le_or_gt (i : ℤ) run.start.lastSourceIndex with hold | hnew
  · exact hstart i hi hold
  · rw [ha.start] at hsure hnew hle hclear
    obtain ⟨f, hf, hid⟩ := exists_frame job hsure hi hnew
    rw [← hid] at hnew hle
    have hdisp := ha.flow.dispatched_of_le hpre hf hnew hle
    obtain ⟨ref, href, hconf⟩ := ha.flow.confirmed_of_clear hclear hdisp hle
    exact ha.confirmed hl href (hconf.trans hid)

/-- No gap up to the start of the last run, and none up to the persisted watermark. -/
structure NoGap (req : Request) (s : Analysis) (h : List Output) : Prop where
  begun : ∀ run, lastRun h = some run → Covered req h run.jobId run.start.lastSourceIndex
  persisted : ∀ jobId c, persisted s = some (jobId, c) → Covered req h jobId c.lastSourceIndex

lemma NoGap.begun_append (hn : NoGap req s h) (o : List Pipeline.Output) :
    ∀ run, lastRun (h ++ o.map .run) = some run →
      Covered req (h ++ o.map .run) run.jobId run.start.lastSourceIndex := by
  intro run hl
  rw [Analysis.lastRun_append_run] at hl
  obtain ⟨run', hl', rfl⟩ := Option.map_eq_some_iff.mp hl
  exact (hn.begun run' hl').append _

lemma NoGap.step (hn : NoGap req s h) (hinv : Inv req s h)
    (hsure : ∀ run, lastRun h = some run → req.SeeksSurely run.start.lastSourceIndex)
    (hok : writesClear req s h e) (he : Effect req s e s' out) : NoGap req s' (h ++ out) := by
  cases he with
  | kept _ _ hrec =>
    rw [List.append_nil]
    exact ⟨hn.begun, fun jobId c hpers => hn.persisted jobId c (hrec ▸ hpers)⟩
  | expired _ _ hrec =>
    rw [List.append_nil]
    refine ⟨hn.begun, fun jobId c hpers => ?_⟩
    rw [hrec] at hpers
    cases hpers
  | created _ _ jobId hrec =>
    rw [List.append_nil]
    refine ⟨hn.begun, fun jobId' c hpers => ?_⟩
    rw [hrec] at hpers
    cases hpers
    exact covered_noProgress req h jobId
  | began _ _ jobId hrec =>
    refine ⟨fun run hl => ?_, fun jobId' c hpers => ?_⟩
    · rw [Analysis.lastRun_append_begun] at hl
      cases hl
      exact covered_noProgress req _ jobId
    · rw [hrec] at hpers
      cases hpers
      exact covered_noProgress req _ jobId
  | resumed now _ prior hp hrec =>
    have hprior := hn.persisted _ _ (hinv.resuming hp)
    refine ⟨fun run hl => ?_, fun jobId c hpers => ?_⟩
    · rw [Analysis.lastRun_append_begun] at hl
      cases hl
      exact hprior.append _
    · rw [hrec] at hpers
      exact (hn.persisted jobId c hpers).append _
  | ran e now _ job p p' o hp hs hp' hrec =>
    refine ⟨hn.begun_append o, fun jobId c hpers => ?_⟩
    rw [hrec] at hpers
    exact (hn.persisted jobId c hpers).append _
  | checkpointed w c now _ job p p' hp hw hp' hrec =>
    refine ⟨hn.begun_append [.checkpoint c], fun jobId c' hpers => ?_⟩
    have hrun : s.phase.run? = some (job, p) := by
      rw [hp]
      rfl
    rw [hrec, hinv.persisted_map hrun] at hpers
    cases hpers
    obtain ⟨run, hl, ha⟩ := hinv.exists_at hrun
    obtain ⟨l, hpre, rfl⟩ := ha.tracked.checkpoint_eq hw
    have hclear := hok (p, (Pipeline.progressAfter run.start l).lastSourceIndex)
      (by simp [writes?, hp, hw]) run hl
    rw [← ha.jobId]
    exact (covered_of_clear ha hl (hsure run hl) (hn.begun run hl) hpre hclear).append _
  | saved _ _ job p hp he hrec =>
    refine ⟨fun run hl => ?_, fun jobId c hpers => ?_⟩
    · rw [Analysis.lastRun_append_saved] at hl
      exact (hn.begun run hl).append _
    · have hrun : s.phase.run? = some (job, p) := by
        rw [hp]
        rfl
      rw [hrec, hinv.persisted_map hrun] at hpers
      cases hpers
      obtain ⟨run, hl, ha⟩ := hinv.exists_at hrun
      have hwrites : writes? s e = some (p, p.state.lastSourceIndex) := by
        rcases he with ⟨now, rfl⟩ | ⟨exc, now, rfl⟩ <;> simp [writes?, hp]
      have hclear : Pipeline.Clear req.settings p run.log p.state.progress.lastSourceIndex :=
        hok (p, _) hwrites run hl
      rw [ha.progress_eq] at hclear ⊢
      rw [← ha.jobId]
      have hcovered := covered_of_clear ha hl (hsure run hl) (hn.begun run hl)
        (List.prefix_refl _) hclear
      exact hcovered.append _

theorem NoGap.of_reach (hr : (machine req).Reach (gapless req) start s h) : NoGap req s h := by
  refine hr.invariant ⟨?_, ?_⟩ ?_
  · intro run hl
    cases hl
  · intro jobId c hpers
    cases hpers
  · intro s h e s' out hreach hn hok hs
    have hinv := Inv.of_reach hreach
    exact hn.step hinv (sure_of_reach (fun _ _ _ hok => hok.2) hreach) hok.1 (.of_step hinv hs)

/-- A run that has read the stream to its end has confirmed what was not confirmed before it. -/
lemma covered_of_finished {r₀ : Option JobRecord} {h₁ : List Output} (hran : Ran req r₀ job p h₁)
    (hsuf : h₁ <:+ h) (hsure : req.SeeksSurely (RunState.initial job.prior).lastSourceIndex)
    (hfin : p.main = .finished) (hend : p.decoder.items req.source = [])
    (herr : p.state.error = none)
    (hstart : Covered req h job.jobId (RunState.initial job.prior).lastSourceIndex) :
    ∀ i ∈ req.decodable, Confirmed h job.jobId i := by
  intro i hi
  rcases le_or_gt (i : ℤ) (RunState.initial job.prior).lastSourceIndex with hold | hnew
  · exact hstart i hi hold
  · have hmem : i ∈ (Pipeline.dispatched (runOutputs h₁)).map SampledFrame.sourceIndex := by
      rw [hran.dispatched_eq hsure hfin hend herr]
      exact List.mem_filter.mpr ⟨hi, decide_eq_true hnew⟩
    obtain ⟨f, hf, rfl⟩ := List.mem_map.mp hmem
    have hconf := (hran.flow.confirmed_perm hfin herr).symm.subset (List.mem_map_of_mem hf)
    obtain ⟨ref, href, hid⟩ := List.mem_map.mp hconf
    obtain ⟨run, hl, ha⟩ := exists_at hran hsuf
    obtain rfl := Option.some.inj ((Analysis.lastRun_of_suffix hsuf hran.last).symm.trans hl)
    exact ha.confirmed hl href hid

/-- In a chain in which every checkpoint is written clear and every run resumes surely, every
decodable frame up to the persisted watermark is confirmed, and so is every decodable frame of the
video when a request ends completed or partial. -/
theorem no_gap (hr : (machine req).Reach (gapless req) start s h) :
    (∀ r, s.record = some r → ∀ i ∈ req.source.sampled req.rate, (i : ℤ) ≤ r.lastSourceIndex →
      Confirmed h r.jobId i ∨ req.source.decodes i = false) ∧
    ∀ o, s.phase.answer? = some o → o.status = .completed ∨ o.status = .partial_ →
      ∀ i ∈ req.source.sampled req.rate, req.source.decodes i = true → Confirmed h o.jobId i := by
  have hn := NoGap.of_reach hr
  constructor
  · intro r hrec i hi hle
    cases hdec : req.source.decodes i with
    | false => exact .inr rfl
    | true =>
      left
      apply hn.persisted r.jobId r.progress _ i (List.mem_filter.mpr ⟨hi, hdec⟩) hle
      rw [persisted, hrec]
      rfl
  · intro o ho hst i hi hdec
    obtain ⟨run, hx⟩ := Phase.answer?_eq_some ho
    obtain ⟨r₀, h₁, hsuf, hinv⟩ := Inv.of_reach hr
    simp only [Analysis.Inv, hx] at hinv
    rcases hinv with ⟨exc, herr⟩ | ⟨job, p, exc, -, -, -, -, herr, -⟩ |
      ⟨job, p, r, rfl, hran, hret, hres, -⟩
    · cases herr
    · cases herr
    · obtain ⟨herr, rfl, hstatus⟩ := Analysis.close_ok hres.symm
      have hab : p.abort = false := by
        by_contra hne
        rw [if_pos (by simpa using hne)] at hstatus
        rcases hst with hst | hst <;>
        · rw [show _ = JobStatus.cancelled from hstatus] at hst
          cases hst
      obtain ⟨run, hl, ha⟩ := exists_at hran hsuf
      have hstart := hn.begun run hl
      have hsure := sure_of_reach (fun _ _ _ hok => hok.2) hr run hl
      rw [ha.start] at hsure
      rw [ha.start, ha.jobId] at hstart
      exact covered_of_finished hran hsuf hsure hret.1 (hran.items_eq_nil hret hab) herr hstart i
        (List.mem_filter.mpr ⟨hi, hdec⟩)

/-- What is written is a watermark that the current run has had. -/
lemma writes?_eq_some (hinv : Inv req s h) (hl : lastRun h = some run) {L : ℤ}
    (hx : writes? s e = some (p, L)) :
    ∃ job l, At req run job p ∧ l <+: run.log ∧
      L = (Pipeline.progressAfter run.start l).lastSourceIndex := by
  have hsaving : ∀ job p', s.phase = .saving job p' → (p', p'.state.lastSourceIndex) = (p, L) →
      ∃ job l, At req run job p ∧ l <+: run.log ∧
        L = (Pipeline.progressAfter run.start l).lastSourceIndex := by
    intro job p' hp heq
    cases heq
    have ha := hinv.at_of_last (by rw [hp]; rfl) hl
    exact ⟨job, run.log, ha, List.prefix_refl _,
      congrArg Checkpoint.lastSourceIndex ha.progress_eq⟩
  unfold writes? at hx
  split at hx
  · next w now =>
    split at hx
    · next job p' hp =>
      split at hx
      · next c hw =>
        cases hx
        have ha := hinv.at_of_last (by rw [hp]; rfl) hl
        obtain ⟨l, hpre, rfl⟩ := ha.tracked.checkpoint_eq hw
        exact ⟨job, l, ha, hpre, rfl⟩
      · cases hx
    · cases hx
  · split at hx
    · next job p' hp => exact hsaving job p' hp (Option.some.inj hx)
    · cases hx
  · split at hx
    · next job p' hp => exact hsaving job p' hp (Option.some.inj hx)
    · cases hx
  · cases hx

/-- A single task writes every checkpoint clear, so over a backend that reports its position no
chain loses a frame. -/
theorem gapless_of_single (hone : req.settings.analyzerPublishers = 1)
    (hrep : req.source.reports = true) (hr : (machine req).Reach Machine.anyStep start s h) :
    (machine req).Reach (gapless req) start s h := by
  refine hr.mono_step ?_
  intro s h e s' out hreach _ _
  refine ⟨?_, resumesSurely_of_reports hrep⟩
  rintro ⟨p, L⟩ hx run hl
  obtain ⟨job, l, ha, hpre, rfl⟩ := writes?_eq_some (.of_reach hreach) hl hx
  have hserial := Pipeline.Serial.of_reach hone ha.reach
  rw [ha.start]
  exact hserial.clear hone ha.flow (fun f hf => start_lt_frame hf) hpre

/-- The process dies after the first of two frames, and the next request completes the job. -/
theorem no_gap_run :
    ∃ s h o, (machine (.clip {analyzerPublishers := 2, checkpointEvery := 1}
        [.blank, .blank])).Reach
        (gapless (.clip {analyzerPublishers := 2, checkpointEvery := 1} [.blank, .blank]))
        start s h ∧
      s.phase.answer? = some o ∧ o.status = .completed ∧ o.resumedAfterFrame = some 0 ∧
      Confirmed h o.jobId 0 ∧ Confirmed h o.jobId 1 := by
  have hrun : ∃ s h, (machine (.clip {analyzerPublishers := 2, checkpointEvery := 1}
      [.blank, .blank])).Reach
      (gapless (.clip {analyzerPublishers := 2, checkpointEvery := 1} [.blank, .blank]))
      start s h ∧ s.phase.answer?.map (fun o => (o.status, o.resumedAfterFrame)) =
        some (.completed, some 0) :=
    Machine.Reach.exists_of_exec
      [.call (.found 0 "j"), .call (.started 0), .call (.run .advance 0), .call (.run .handle 0),
        .call (.run .enqueue 0), .call (.run .look 0), .call (.run .advance 0),
        .call (.run .handle 0), .call (.run .enqueue 0), .call (.run (.worker 0 .take) 0),
        .call (.run (.worker 1 .take) 0), .call (.run (.worker 0 (.stored 0)) 0),
        .call (.run (.worker 0 .published) 0), .call (.run (.worker 0 .confirmed) 0),
        .call (.run (.worker 0 .checkpointWritten) 0), .call .die, .request false,
        .call (.found 200 "k"), .call (.started 200), .call (.run .advance 200),
        .call (.run .handle 200), .call (.run .enqueue 200), .call (.run .look 200),
        .call (.run .advance 200), .call (.run (.worker 0 .take) 200),
        .call (.run (.worker 0 (.stored 200)) 200), .call (.run (.worker 0 .published) 200),
        .call (.run (.worker 0 .confirmed) 200), .call (.run (.worker 0 .checkpointWritten) 200),
        .call (.run (.worker 0 .checkpointReturned) 200), .call (.run .decodeDone 200),
        .call (.run .putStop 200), .call (.run .putStop 200), .call (.run (.worker 0 .take) 200),
        .call (.run (.worker 1 .take) 200), .call (.run .gathered 200), .call .returned,
        .call (.saved 200), .call (.marked 200)]
      (by decide +kernel)
  obtain ⟨s, h, hr, hans⟩ := hrun
  obtain ⟨o, ho, heq⟩ := Option.map_eq_some_iff.mp hans
  obtain ⟨hst, hres⟩ := Prod.mk.inj heq
  have hall := (no_gap hr).2 o ho (.inl hst)
  exact ⟨s, h, o, hr, ho, hst, hres, hall 0 (by decide +kernel) (by decide +kernel),
    hall 1 (by decide +kernel) (by decide +kernel)⟩

/-- The later of two frames is confirmed before the store fails for the earlier one. The next
request resumes behind both and completes a job in which the earlier frame was never confirmed. -/
theorem frame_lost :
    ∃ s h, (machine (.clip {analyzerPublishers := 2} [.blank, .blank])).Reach Machine.anyStep
        start s h ∧
      s.phase.answer?.map AnalysisOutcome.status = some .completed ∧
      0 ∈ (Request.clip {analyzerPublishers := 2} [.blank, .blank]).decodable ∧
      ∀ ref ∈ Pipeline.confirmedRefs (runOutputs h), ref.frameId ≠ 0 :=
  Machine.Reach.exists_of_exec
    [.call (.found 0 "j"), .call (.started 0), .call (.run .advance 0), .call (.run .handle 0),
      .call (.run .enqueue 0), .call (.run .look 0), .call (.run .advance 0),
      .call (.run .handle 0), .call (.run .enqueue 0), .call (.run .look 0),
      .call (.run (.worker 0 .take) 0), .call (.run (.worker 1 .take) 0),
      .call (.run (.worker 1 (.stored 0)) 0), .call (.run (.worker 1 .published) 0),
      .call (.run (.worker 1 .confirmed) 0), .call (.run (.worker 0 (.raised "store is down")) 0),
      .call (.run .advance 0), .call (.run .decodeDone 0), .call (.run .putStop 0),
      .call (.run .putStop 0), .call (.run (.worker 0 .take) 0), .call (.run (.worker 1 .take) 0),
      .call (.run .gathered 0), .call .returned, .call (.saved 0), .call (.marked 0),
      .request false, .call (.found 1 "k"), .call (.started 1), .call (.run .advance 1),
      .call (.run .decodeDone 1), .call (.run .putStop 1), .call (.run .putStop 1),
      .call (.run (.worker 0 .take) 1), .call (.run (.worker 1 .take) 1),
      .call (.run .gathered 1), .call .returned, .call (.saved 1), .call (.marked 1)]
    (by decide +kernel)

end Chain

end VideoPipeline
