import VideoPipeline.Analyzer.Service

/-!
# What a success answer says

A fresh request that answers with success has published every sampled frame that decodes, each once
and after its blob, unless the client was gone. A call of a publisher task that raises makes the
request raise.
-/

namespace VideoPipeline

namespace Pipeline

variable {cfg : Dispatch} {p p' : Pipeline} {e : Event} {out h : List Output} {w : ℕ}
  {op : PublishWorker.Op} {d₀ : Decoder} {s₀ : RunState} {sampler : FrameSampler}
  {prior : Option JobRecord}

/-! ### Blob first, reference second -/

/-- A reference is that of a frame whose blob was put. -/
def BlobPut (cfg : Dispatch) (h : List Output) (ref : FrameRef) : Prop :=
  ∃ f now, ref = cfg.frameRef f now ∧
    .put ref.blobKey f.jpeg cfg.settings.frameBlobTtlSec ∈ h

lemma BlobPut.mono {ref : FrameRef} (hb : BlobPut cfg h ref) : BlobPut cfg (h ++ out) ref := by
  obtain ⟨f, now, heq, hput⟩ := hb
  exact ⟨f, now, heq, List.mem_append_left _ hput⟩

/-- A frame that is being published is in the store, and so was every frame that was published. -/
structure BlobFirst (cfg : Dispatch) (p : Pipeline) (h : List Output) : Prop where
  publishing : ∀ w f ref, p.workers w = .publishing f ref → BlobPut cfg h ref
  published : Machine.Caused (fun h₁ o => ∀ ref, o = .published ref → BlobPut cfg h₁ ref) h

lemma BlobFirst.start : BlobFirst cfg (start cfg sampler prior) [] := by
  refine ⟨?_, .nil⟩
  intro w f ref h
  cases h

/-- A task publishes a frame after it has put its blob. -/
lemma WorkerRule.publishing_cases (hr : WorkerRule cfg p w op p' out) {f : SampledFrame}
    {ref : FrameRef} (hw : p'.workers w = .publishing f ref) :
    p.workers w = .publishing f ref ∨ BlobPut cfg out ref := by
  cases hr with
  | drain => exact .inl hw
  | stored g now =>
    simp only [Function.update_self, PublishWorker.publishing.injEq] at hw
    obtain ⟨rfl, rfl⟩ := hw
    exact .inr ⟨g, now, rfl, List.mem_singleton_self _⟩
  | stop | take | published | confirmed | snapshot | checkpointWritten | checkpointReturned | gaveUp
  | checkpointRaised =>
    simp only [Function.update_self] at hw
    cases hw

lemma Rule.published_of (hr : Rule cfg p e p' out) {ref : FrameRef} (hx : .published ref ∈ out) :
    ∃ w f, p.workers w = .publishing f ref := by
  cases hr with
  | worker w op p' out hw hr =>
    cases hr with
    | published f ref' hw =>
      obtain ⟨rfl⟩ := List.mem_singleton.mp hx
      exact ⟨w, f, hw⟩
    | _ => simp at hx
  | _ => simp at hx

lemma BlobFirst.step (hb : BlobFirst cfg p h) (hr : Rule cfg p e p' out) :
    BlobFirst cfg p' (h ++ out) := by
  refine ⟨?_, ?_⟩
  · intro w f ref hw
    rcases hr.workers_or with ⟨hsame, -⟩ | ⟨w', op, -, -, hr'⟩
    · exact (hb.publishing w f ref (hsame ▸ hw)).mono
    · by_cases hww : w = w'
      · subst hww
        rcases hr'.publishing_cases hw with hold | ⟨g, now, heq, hput⟩
        · exact (hb.publishing w f ref hold).mono
        · exact ⟨g, now, heq, List.mem_append_right _ hput⟩
      · rw [hr'.others hww] at hw
        exact (hb.publishing w f ref hw).mono
  · apply hb.published.append
    · intro h₁ h₂ x hx ref href
      exact (hx ref href).mono
    · rintro x hx ref rfl
      obtain ⟨w, f, hw⟩ := hr.published_of hx
      exact hb.publishing w f ref hw

/-- A reference is published only after its blob was put under its key. -/
theorem blob_first {ok : Pipeline → List Output → Event → Prop}
    (hr : (machine cfg).Reach ok (start cfg sampler prior) p h) {h₁ h₂ : List Output}
    {ref : FrameRef} (hh : h = h₁ ++ .published ref :: h₂) : BlobPut cfg h₁ ref := by
  have hinv : BlobFirst cfg p h :=
    hr.invariant .start fun _ _ _ _ _ _ hb _ hs => hb.step (.of_step hs)
  exact hinv.published h₁ _ h₂ hh ref rfl

end Pipeline

namespace Analysis

open Pipeline

variable {req : Request} {s : Analysis} {h : List Output} {job : Job} {p : Pipeline}
  {r₀ : Option JobRecord} {run : Option (Job × Pipeline)}
  {result : Except ServiceError AnalysisOutcome} {o : AnalysisOutcome}

/-- What a fresh request has published, and how it counts. -/
structure Complete (req : Request) (job : Job) (o : AnalysisOutcome)
    (out : List Pipeline.Output) : Prop where
  published : ((publishedRefs out).map FrameRef.frameId).Perm
    (req.decodable.map fun i : ℕ => (i : ℤ))
  blobFirst : ∀ h₁ ref h₂, out = h₁ ++ .published ref :: h₂ → BlobPut (req.dispatch job) h₁ ref
  dispatched : o.framesDispatched = req.decodable.length
  total : o.framesDispatched + o.framesFailed =
    req.rate.expectedFrameCount req.source.frames.length

/-- A fresh run that returned, was not aborted and had no error is complete. -/
lemma Ran.complete (hran : Ran req r₀ job p h) (hret : Returned p) (hprior : job.prior = none)
    (hab : p.abort = false) (herr : p.state.error = none) (st : JobStatus) :
    Complete req job (req.outcome job p.state st) (runOutputs h) := by
  have hend := hran.items_eq_nil hret hab
  have hsure : req.SeeksSurely (RunState.initial job.prior).lastSourceIndex := by
    rw [hprior]
    exact req.seeksSurely_of_neg neg_one_lt_zero
  have hdisp := hran.dispatched_eq hsure hret.1 hend herr
  have hund := hran.undecoded_eq hsure hret.1 hend
  have hall : ∀ l : List ℕ, (l.filter fun i : ℕ =>
      decide ((RunState.initial job.prior).lastSourceIndex < (i : ℤ))) = l := by
    intro l
    rw [List.filter_eq_self, hprior]
    intro i _
    have : (-1 : ℤ) < i := by omega
    exact decide_eq_true this
  rw [hall] at hdisp hund
  have hcounts := hran.flow.counts
  have hconf : p.state.framesConfirmed = req.decodable.length := by
    have hperm := (hran.flow.confirmed_perm hret.1 herr).length_eq
    rw [List.length_map, List.length_map] at hperm
    rw [hcounts.confirmed, hperm, ← hdisp, List.length_map, hprior]
    exact Nat.zero_add _
  have hfail : p.state.framesFailed = req.undecodable.length := by
    rw [hcounts.failed, ← hund, List.length_map, hprior]
    exact Nat.zero_add _
  refine ⟨?_, ?_, hconf, ?_⟩
  · rw [← hdisp, List.map_map]
    exact hran.flow.published_perm hret.1 herr
  · intro h₁ ref h₂ heq
    exact blob_first hran.reach heq
  · rw [← req.length_decodable_add]
    show p.state.framesConfirmed + p.state.framesFailed = _
    rw [hconf, hfail]

/-- What a fresh request answers is true: with success only if it has published every sampled frame
that decodes, or if the client was gone; and not at all if a call of a task has raised. -/
theorem answer_truthful (hr : (machine req).Reach Machine.anyStep (request r₀) s h)
    (hx : s.phase = .exited run result) (hfresh : ∀ job p, run = some (job, p) → job.prior = none) :
    (∀ o, result = .ok o →
      (o.status = .cancelled ∧ .disconnected ∈ runOutputs h) ∨
      ((o.status = .completed ∨ o.status = .partial_) ∧
        ∃ job p, run = some (job, p) ∧ Complete req job o (runOutputs h))) ∧
    (raisedCalls (runOutputs h) ≠ [] → (∃ err, result = .error err) ∧
      (sourceErrors (runOutputs h) = [] → (∀ exc, result ≠ .error (.repository exc)) →
        (∃ msg c n, result = .error (.dispatch msg c n)) ∧
          s.record.map JobRecord.status = some .failed)) := by
  have hinv := Inv.of_reach hr
  simp only [Inv, hx] at hinv
  rcases hinv with ⟨exc, rfl⟩ | ⟨job, p, exc, rfl, hran, -, ht, rfl, -⟩ |
    ⟨job, p, r, rfl, hran, hret, rfl, hrec, -, hst, -⟩
  · -- a call of the repository has raised
    refine ⟨fun o ho => (by cases ho), fun _ => ⟨⟨_, rfl⟩, fun _ hne => ?_⟩⟩
    exact absurd rfl (hne exc)
  · -- the source has raised
    refine ⟨fun o ho => (by cases ho), fun _ => ⟨⟨_, rfl⟩, fun hnone _ => ?_⟩⟩
    rw [hran.flow.errors, ht] at hnone
    cases hnone
  · have herror := hran.flow.counts.error
    constructor
    · intro o ho
      obtain ⟨herr, rfl, hstatus⟩ := close_ok ho
      cases hab : p.abort with
      | true =>
        left
        rw [hab, if_pos rfl] at hstatus
        refine ⟨hstatus, ?_⟩
        exact (hran.flow.error_of_abort hab).resolve_left fun hne => hne herr
      | false =>
        right
        rw [hab, if_neg Bool.false_ne_true] at hstatus
        refine ⟨?_, job, p, rfl, hran.complete hret (hfresh job p rfl) hab herr _⟩
        show (req.close job p).status = _ ∨ (req.close job p).status = _
        rw [hstatus]
        split
        · exact .inr rfl
        · exact .inl rfl
    · intro hraised
      obtain ⟨exc, herr⟩ : ∃ exc, p.state.error = some exc := by
        obtain ⟨exc, l, hl⟩ := List.exists_cons_of_ne_nil hraised
        rw [hl] at herror
        cases hs : (RunState.initial job.prior).error with
        | none => exact ⟨exc, by rw [herror, hs]; rfl⟩
        | some exc' => exact ⟨exc', by rw [herror, hs]; rfl⟩
      rw [close_error herr] at hst ⊢
      refine ⟨⟨_, rfl⟩, fun _ _ => ⟨⟨_, _, _, rfl⟩, ?_⟩⟩
      rw [hrec, Option.map_some, hst]
      rfl

/-- A clip of a readable and an unreadable frame is answered with a partial job. -/
theorem answer_truthful_run :
    ∃ s h run o, (machine (.clip {analyzerPublishers := 1, maxFrameFailureRatio := 1}
        [.blank, .noImage])).Reach Machine.anyStep (request none) s h ∧
      s.phase = .exited run (.ok o) ∧ o.status = .partial_ ∧ ∃ job p, run = some (job, p) ∧
        Complete (.clip {analyzerPublishers := 1, maxFrameFailureRatio := 1} [.blank, .noImage])
          job o (runOutputs h) := by
  have hrun : ∃ s h, (machine (.clip {analyzerPublishers := 1, maxFrameFailureRatio := 1}
      [.blank, .noImage])).Reach Machine.anyStep (request none) s h ∧
      s.phase.answer?.map AnalysisOutcome.status = some .partial_ ∧ s.phase.continued? = none :=
    Machine.Reach.exists_of_exec
      [.found 0 "j", .started 0, .run .advance 0, .run .handle 0, .run .enqueue 0, .run .look 0,
        .run .advance 0, .run .handle 0, .run .advance 0, .run (.worker 0 .take) 0,
        .run (.worker 0 (.stored 0)) 0, .run (.worker 0 .published) 0,
        .run (.worker 0 .confirmed) 0, .run .decodeDone 0, .run .putStop 0,
        .run (.worker 0 .take) 0, .run .gathered 0, .returned, .saved 0, .marked 0]
      (by decide +kernel)
  obtain ⟨s, h, hr, hst, hfresh⟩ := hrun
  obtain ⟨o, ho, hstatus⟩ := Option.map_eq_some_iff.mp hst
  obtain ⟨run, hx⟩ := Phase.answer?_eq_some ho
  have hprior : ∀ job p, run = some (job, p) → job.prior = none := by
    rintro job p rfl
    rwa [hx] at hfresh
  refine ⟨s, h, run, o, hr, hx, hstatus, ?_⟩
  rcases (answer_truthful hr hx hprior).1 o rfl with ⟨hc, -⟩ | ⟨-, hcomplete⟩
  · rw [hstatus] at hc
    cases hc
  · exact hcomplete

end Analysis

end VideoPipeline
