import VideoPipeline.Analyzer.Flow

/-!
# The order in which frames are published

The tasks take the frames in order, but each frame passes two awaits before it is published. The
references reach the publisher in order as long as a frame is published only while no other task
holds an earlier one that is not; a single task cannot break that.
-/

namespace VideoPipeline

namespace Pipeline

variable {cfg : Dispatch} {p p' : Pipeline} {e : Event} {out h : List Output} {w : ℕ}
  {op : PublishWorker.Op} {sampler : FrameSampler} {prior : Option JobRecord}

/-- A frame is published before every later one that a task holds. -/
def inTurn (cfg : Dispatch) (p : Pipeline) (_ : List Output) : Event → Prop
  | .worker w .published =>
    ∀ f ∈ (p.workers w).unpublished, ∀ w' < cfg.settings.analyzerPublishers, w' ≠ w →
      ∀ g ∈ (p.workers w').unpublished, f.sourceIndex < g.sourceIndex
  | _ => True

instance (cfg : Dispatch) (p : Pipeline) (h : List Output) (e : Event) :
    Decidable (inTurn cfg p h e) :=
  match e with
  | .worker w .published =>
    inferInstanceAs (Decidable (∀ f ∈ (p.workers w).unpublished,
      ∀ w' < cfg.settings.analyzerPublishers, w' ≠ w →
        ∀ g ∈ (p.workers w').unpublished, f.sourceIndex < g.sourceIndex))
  | .worker _ .take | .worker _ (.stored _) | .worker _ .confirmed | .worker _ .checkpointWritten
  | .worker _ .checkpointReturned | .worker _ (.raised _) | .advance | .handle | .enqueue | .look
  | .sourceRaised _ | .disconnect | .decodeDone | .putStop | .gathered =>
    inferInstanceAs (Decidable True)

/-- Whatever was published is before whatever is not. -/
structure PublishedInOrder (cfg : Dispatch) (p : Pipeline) (h : List Output) : Prop where
  sorted : ((publishedRefs h).map FrameRef.frameId).Pairwise (· < ·)
  held : ∀ ref ∈ publishedRefs h, ∀ w < cfg.settings.analyzerPublishers,
    ∀ f ∈ (p.workers w).unpublished, ref.frameId < f.sourceIndex
  line : ∀ ref ∈ publishedRefs h, ∀ f ∈ p.line cfg, ref.frameId < f.sourceIndex

/-- A frame that a task holds comes before the line. -/
lemma Flow.held_lt_line {d₀ : Decoder} {s₀ : RunState} (hf : Flow cfg d₀ s₀ p h)
    (hw : w < cfg.settings.analyzerPublishers) {f g : SampledFrame}
    (hheld : f ∈ (p.workers w).holding) (hg : g ∈ p.line cfg) : f.sourceIndex < g.sourceIndex := by
  have hcount : 0 < (dispatched h).countP fun g => g.frameId = f.frameId := by
    have hbal := hf.balance f.frameId
    have hle := Family.le_sum (PublishWorker.holds f.frameId) p.workers hw
    have hpos : 0 < (p.workers w).holds f.frameId :=
      List.countP_pos_iff.mpr ⟨f, hheld, decide_eq_true rfl⟩
    simp only [inFlight] at hbal
    omega
  obtain ⟨f', hf', hidx⟩ := List.countP_pos_iff.mp hcount
  have hsorted := Decoder.frames_pairwise cfg.source d₀
  rw [← hf.line, hf.taken, List.map_append, List.pairwise_append] at hsorted
  rw [← Int.ofNat_inj.mp (of_decide_eq_true hidx)]
  apply hsorted.2.2
  · exact List.mem_map_of_mem (List.mem_append_left _ hf')
  · exact List.mem_map_of_mem hg

lemma unpublished_holding {t : PublishWorker} {f : SampledFrame} (hf : f ∈ t.unpublished) :
    f ∈ t.holding := by
  cases t <;> first | exact hf | cases hf

/-- A task gets what it is to publish from the head of the line. -/
lemma WorkerRule.unpublished_cases (hr : WorkerRule cfg p w op p' out) {f : SampledFrame}
    (hf : f ∈ (p'.workers w).unpublished) :
    f ∈ (p.workers w).unpublished ∨ f ∈ Pipeline.taken out := by
  cases hr with
  | drain => exact .inl hf
  | take g q =>
    simp only [Function.update_self] at hf
    exact .inr hf
  | stored g now hw =>
    simp only [Function.update_self] at hf
    rw [hw]
    exact .inl hf
  | stop | published | confirmed | snapshot | checkpointWritten | checkpointReturned | gaveUp
  | checkpointRaised =>
    simp only [Function.update_self] at hf
    cases hf

/-- What a publish publishes. -/
lemma WorkerRule.publishedRefs_cases (hr : WorkerRule cfg p w op p' out)
    (hl : (p.workers w).Labelled cfg) :
    publishedRefs out = [] ∨ ∃ f now, op = .published ∧ publishedRefs out = [cfg.frameRef f now] ∧
      (p.workers w).unpublished = [f] ∧ (p'.workers w).unpublished = [] := by
  cases hr with
  | published f ref hw =>
    rw [hw] at hl
    obtain ⟨now, rfl⟩ := hl
    refine .inr ⟨f, now, rfl, rfl, by rw [hw]; rfl, ?_⟩
    simp [PublishWorker.unpublished]
  | _ => exact .inl rfl

lemma Rule.line_subset (hr : Rule cfg p e p' out) {f : SampledFrame} (hf : f ∈ p'.line cfg) :
    f ∈ p.line cfg := by
  rw [← hr.line_eq]
  exact List.mem_append_right _ hf

/-- Nothing that was published is overtaken by what is left. -/
lemma PublishedInOrder.held_step (ho : PublishedInOrder cfg p h) (hr : Rule cfg p e p' out) :
    ∀ ref ∈ publishedRefs h, ∀ w < cfg.settings.analyzerPublishers,
      ∀ f ∈ (p'.workers w).unpublished, ref.frameId < f.sourceIndex := by
  intro ref href w hw f hf
  rcases hr.workers_or with ⟨hsame, -⟩ | ⟨w', op, -, -, hr'⟩
  · rw [hsame] at hf
    exact ho.held ref href w hw f hf
  · by_cases hww : w = w'
    · subst hww
      rcases hr'.unpublished_cases hf with hf | hf
      · exact ho.held ref href w hw f hf
      · apply ho.line ref href f
        rw [← hr.line_eq]
        exact List.mem_append_left _ hf
    · rw [hr'.others hww] at hf
      exact ho.held ref href w hw f hf

lemma PublishedInOrder.step {d₀ : Decoder} {s₀ : RunState} (ho : PublishedInOrder cfg p h)
    (hf : Flow cfg d₀ s₀ p h) (hr : Rule cfg p e p' out) (hok : inTurn cfg p h e) :
    PublishedInOrder cfg p' (h ++ out) := by
  have hheld := ho.held_step hr
  have hline : ∀ ref ∈ publishedRefs h, ∀ f ∈ p'.line cfg, ref.frameId < f.sourceIndex :=
    fun ref href f hmem => ho.line ref href f (hr.line_subset hmem)
  have hquiet : publishedRefs out = [] → PublishedInOrder cfg p' (h ++ out) := by
    intro hnone
    have heq : publishedRefs (h ++ out) = publishedRefs h := by
      rw [publishedRefs_append, hnone, List.append_nil]
    exact ⟨heq ▸ ho.sorted, heq ▸ hheld, heq ▸ hline⟩
  rcases hr.workers_or with ⟨-, -, -, -, hnone, -⟩ | ⟨w, op, rfl, hw, hr'⟩
  · exact hquiet hnone
  · rcases hr'.publishedRefs_cases (hf.labelled w) with hnone | ⟨f, now, rfl, hout, hunp, hunp'⟩
    · exact hquiet hnone
    · have hmem : f ∈ (p.workers w).unpublished := by
        rw [hunp]
        exact List.mem_singleton_self f
      have hsplit : ∀ ref ∈ publishedRefs (h ++ out),
          ref ∈ publishedRefs h ∨ ref = cfg.frameRef f now := by
        intro ref href
        rw [publishedRefs_append, hout] at href
        exact (List.mem_append.mp href).imp_right List.mem_singleton.mp
      refine ⟨?_, ?_, ?_⟩
      · rw [publishedRefs_append, hout, List.map_append, List.pairwise_append]
        refine ⟨ho.sorted, List.pairwise_singleton _ _, ?_⟩
        intro i hi j hj
        obtain ⟨ref, href, rfl⟩ := List.mem_map.mp hi
        obtain rfl := List.mem_singleton.mp hj
        exact ho.held ref href w hw f hmem
      · intro ref href w' hw' g hg
        rcases hsplit ref href with hold | rfl
        · exact hheld ref hold w' hw' g hg
        · by_cases hww : w' = w
          · subst hww
            rw [hunp'] at hg
            cases hg
          · rw [hr'.others hww] at hg
            exact Int.ofNat_lt.mpr (hok f hmem w' hw' hww g hg)
      · intro ref href g hg
        rcases hsplit ref href with hold | rfl
        · exact hline ref hold g hg
        · exact Int.ofNat_lt.mpr
            (hf.held_lt_line hw (unpublished_holding hmem) (hr.line_subset hg))

/-- In a run in which every frame is published in its turn, the references take effect in strictly
increasing order of their frame. -/
theorem published_in_order (hr : (machine cfg).Reach (inTurn cfg) (start cfg sampler prior) p h) :
    ((publishedRefs h).map FrameRef.frameId).Pairwise (· < ·) := by
  have hinv : PublishedInOrder cfg p h := by
    refine hr.invariant ⟨.nil, ?_, ?_⟩ ?_
    · intro ref href
      cases href
    · intro ref href
      cases href
    · intro p h e p' out hreach ho hok hs
      exact ho.step (Flow.of_reach hreach) (Rule.of_step hs) hok
  exact hinv.sorted

/-- A single publisher task always publishes in turn. -/
theorem inTurn_of_single (hone : cfg.settings.analyzerPublishers = 1)
    (hr : (machine cfg).Reach Machine.anyStep (start cfg sampler prior) p h) :
    (machine cfg).Reach (inTurn cfg) (start cfg sampler prior) p h := by
  refine hr.mono_step ?_
  intro p h e p' out _ _ hs
  cases e with
  | worker w op =>
    have hrule : Rule cfg p (.worker w op) p' out := .of_step hs
    obtain ⟨-, -, -, -, hw, -⟩ := hrule
    cases op with
    | published =>
      intro f _ w' hw' hne
      omega
    | _ => trivial
  | _ => trivial

/-- Two tasks publish the two frames of a clip in turn. -/
theorem published_in_order_run :
    ∃ p h, (machine ⟨{analyzerPublishers := 2}, .clip [.blank, .blank], "j", "v"⟩).Reach
        (inTurn ⟨{analyzerPublishers := 2}, .clip [.blank, .blank], "j", "v"⟩)
        (start ⟨{analyzerPublishers := 2}, .clip [.blank, .blank], "j", "v"⟩ .everyFrame none) p h ∧
      (publishedRefs h).map FrameRef.frameId = [0, 1] ∧
      ((publishedRefs h).map FrameRef.frameId).Pairwise (· < ·) := by
  have hrun : ∃ p h, (machine ⟨{analyzerPublishers := 2}, .clip [.blank, .blank], "j", "v"⟩).Reach
      (inTurn ⟨{analyzerPublishers := 2}, .clip [.blank, .blank], "j", "v"⟩)
      (start ⟨{analyzerPublishers := 2}, .clip [.blank, .blank], "j", "v"⟩ .everyFrame none) p h ∧
      (publishedRefs h).map FrameRef.frameId = [0, 1] :=
    Machine.Reach.exists_of_exec
      [.advance, .handle, .enqueue, .look, .advance, .handle, .enqueue,
        .worker 0 .take, .worker 1 .take, .worker 1 (.stored 0), .worker 0 (.stored 0),
        .worker 0 .published, .worker 1 .published]
      (by decide +kernel)
  obtain ⟨p, h, hr, hids⟩ := hrun
  exact ⟨p, h, hr, hids, published_in_order hr⟩

/-- The store answers the second task first, and the later frame is published before the earlier
one. -/
theorem published_out_of_order :
    ∃ p h, (machine ⟨{analyzerPublishers := 2}, .clip [.blank, .blank], "j", "v"⟩).Reach
        Machine.anyStep
        (start ⟨{analyzerPublishers := 2}, .clip [.blank, .blank], "j", "v"⟩ .everyFrame none) p h ∧
      ¬ ((publishedRefs h).map FrameRef.frameId).Pairwise (· < ·) :=
  Machine.Reach.exists_of_exec
    [.advance, .handle, .enqueue, .look, .advance, .handle, .enqueue,
      .worker 0 .take, .worker 1 .take, .worker 1 (.stored 0), .worker 1 .published,
      .worker 0 (.stored 0), .worker 0 .published]
    (by decide +kernel)

end Pipeline

end VideoPipeline
