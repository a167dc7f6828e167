import VideoPipeline.Analyzer.Outcome

/-!
# What a run puts into the store

Every blob of a run is the JPEG of a frame that its decoder yields, under the key of that frame, and
every reference it publishes is that of such a frame. Where the seek of the run is sure, that is the
frame which the video shows at the index.
-/

namespace VideoPipeline

/-- A run yields a frame. -/
def Request.Yields (req : Request) (job : Job) (f : SampledFrame) : Prop :=
  f ∈ (Decoder.start req.source (req.sampler job)).frames req.source

/-- Where its seek is sure, what a run yields is what the video shows. -/
lemma Request.Yields.shows {req : Request} {job : Job} {f : SampledFrame} (hf : req.Yields job f)
    (hsure : req.SeeksSurely (RunState.initial job.prior).lastSourceIndex) :
    req.source.Shows f := by
  refine Decoder.frames_shows ?_ hf
  rw [req.sampler_eq]
  exact hsure

/-- A frame of a run is sampled and decodes, where its seek is sure. -/
lemma Request.Yields.decodable {req : Request} {job : Job} {f : SampledFrame}
    (hf : req.Yields job f)
    (hsure : req.SeeksSurely (RunState.initial job.prior).lastSourceIndex) :
    f.sourceIndex ∈ req.decodable := by
  have hmem := List.mem_map_of_mem (f := SampledFrame.sourceIndex) hf
  rw [req.frames_eq job hsure] at hmem
  exact (List.mem_filter.mp hmem).1

namespace Pipeline

variable {cfg : Dispatch} {p p' : Pipeline} {e : Event} {out h : List Output} {w : ℕ}
  {op : PublishWorker.Op} {fs fs' : List SampledFrame} {sampler : FrameSampler}
  {prior : Option JobRecord} {ok : Pipeline → List Output → Event → Prop}

/-- A put and a publish are about one of the frames. -/
def Output.About (cfg : Dispatch) (fs : List SampledFrame) : Output → Prop
  | .put key jpeg ttlSec =>
    ∃ f ∈ fs, key = blobKey cfg.jobId f.sourceIndex ∧ jpeg = f.jpeg ∧
      ttlSec = cfg.settings.frameBlobTtlSec
  | .published ref => ∃ f ∈ fs, ∃ now, ref = cfg.frameRef f now
  | _ => True

lemma Output.About.mono {o : Output} (ho : o.About cfg fs) (hfs : ∀ f ∈ fs, f ∈ fs') :
    o.About cfg fs' := by
  cases o with
  | put key jpeg ttlSec =>
    obtain ⟨f, hf, hput⟩ := ho
    exact ⟨f, hfs f hf, hput⟩
  | published ref =>
    obtain ⟨f, hf, href⟩ := ho
    exact ⟨f, hfs f hf, href⟩
  | _ => trivial

/-- A task puts and publishes the frame it holds. -/
lemma WorkerRule.about (hr : WorkerRule cfg p w op p' out) (hl : (p.workers w).Labelled cfg) :
    ∀ o ∈ out, o.About cfg (p.workers w).holding := by
  cases hr with
  | stored f now hw =>
    intro o ho
    obtain rfl := List.mem_singleton.mp ho
    rw [hw]
    exact ⟨f, List.mem_singleton_self f, rfl, rfl, rfl⟩
  | published f ref hw =>
    intro o ho
    obtain rfl := List.mem_singleton.mp ho
    rw [hw] at hl ⊢
    exact ⟨f, List.mem_singleton_self f, hl⟩
  | _ => simp [Output.About]

/-- A task holds the frame it has taken. -/
lemma WorkerRule.holding_cases (hr : WorkerRule cfg p w op p' out) {f : SampledFrame}
    (hf : f ∈ (p'.workers w).holding) : f ∈ (p.workers w).holding ∨ f ∈ dispatched out := by
  cases hr with
  | drain => exact .inl hf
  | take g q hw hq herr =>
    simp only [Function.update_self] at hf
    exact .inr hf
  | stored g now hw | published g ref hw =>
    simp only [Function.update_self] at hf
    rw [hw]
    exact .inl hf
  | stop | confirmed | snapshot | checkpointWritten | checkpointReturned | gaveUp
  | checkpointRaised =>
    simp only [Function.update_self] at hf
    cases hf

/-- What the tasks hold and what a run has put and published is what it has dispatched. -/
structure Stocked (cfg : Dispatch) (p : Pipeline) (h : List Output) : Prop where
  labelled : ∀ w, (p.workers w).Labelled cfg
  holding : ∀ w, ∀ f ∈ (p.workers w).holding, f ∈ dispatched h
  about : ∀ o ∈ h, o.About cfg (dispatched h)

lemma Stocked.start : Stocked cfg (start cfg sampler prior) [] := by
  refine ⟨fun _ => trivial, ?_, ?_⟩
  · intro w f hf
    cases hf
  · intro o ho
    cases ho

lemma Stocked.step (hc : Stocked cfg p h) (hr : Rule cfg p e p' out) :
    Stocked cfg p' (h ++ out) := by
  have hleft : ∀ f ∈ dispatched h, f ∈ dispatched (h ++ out) := by
    intro f hf
    rw [dispatched_append]
    exact List.mem_append_left _ hf
  refine ⟨hr.labelled hc.labelled, ?_, ?_⟩
  · intro w f hf
    rcases hr.workers_or with ⟨hsame, -⟩ | ⟨w', op, -, -, hw⟩
    · exact hleft f (hc.holding w f (hsame ▸ hf))
    · by_cases hww : w = w'
      · subst hww
        rcases hw.holding_cases hf with hf | hf
        · exact hleft f (hc.holding w f hf)
        · rw [dispatched_append]
          exact List.mem_append_right _ hf
      · rw [hw.others hww] at hf
        exact hleft f (hc.holding w f hf)
  · intro o ho
    rcases List.mem_append.mp ho with ho | ho
    · exact (hc.about o ho).mono hleft
    · cases hr with
      | worker w op p' out hw hr =>
        exact (hr.about (hc.labelled w) o ho).mono fun f hf => hleft f (hc.holding w f hf)
      | failure | sourceRaised | disconnect =>
        obtain rfl := List.mem_singleton.mp ho
        trivial
      | _ => cases ho

/-- What a run dispatches its decoder yields. -/
lemma dispatched_mem_frames (hr : (machine cfg).Reach ok (start cfg sampler prior) p h)
    {f : SampledFrame} (hf : f ∈ dispatched h) :
    f ∈ (Decoder.start cfg.source sampler).frames cfg.source := by
  have hflow := Flow.of_reach hr
  rw [← hflow.line, hflow.taken]
  exact List.mem_append_left _ (List.mem_append_left _ hf)

lemma Stocked.of_reach (hr : (machine cfg).Reach ok (Pipeline.start cfg sampler prior) p h) :
    Stocked cfg p h :=
  hr.invariant .start fun _ _ _ _ _ _ hc _ hs => hc.step (.of_step hs)

/-- A blob is the JPEG of a frame that the run yields. -/
theorem put_yields {req : Request} {job : Job}
    (hr : (machine (req.dispatch job)).Reach ok (req.start job) p h) {key : String}
    {jpeg : List UInt8} {ttlSec : ℕ} (hput : .put key jpeg ttlSec ∈ h) :
    ∃ f, req.Yields job f ∧ key = blobKey job.jobId f.sourceIndex ∧ jpeg = f.jpeg ∧
      ttlSec = req.settings.frameBlobTtlSec := by
  obtain ⟨f, hf, heq⟩ := (Stocked.of_reach hr).about _ hput
  exact ⟨f, dispatched_mem_frames hr hf, heq⟩

/-- A reference is that of a frame that the run yields. -/
theorem published_yields {req : Request} {job : Job}
    (hr : (machine (req.dispatch job)).Reach ok (req.start job) p h) {ref : FrameRef}
    (hpub : .published ref ∈ h) :
    ∃ f now, req.Yields job f ∧ ref = (req.dispatch job).frameRef f now := by
  obtain ⟨f, hf, now, heq⟩ := (Stocked.of_reach hr).about _ hpub
  exact ⟨f, now, dispatched_mem_frames hr hf, heq⟩

end Pipeline

end VideoPipeline
