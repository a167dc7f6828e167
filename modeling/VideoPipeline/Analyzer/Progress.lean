import VideoPipeline.Analyzer.Flow

/-!
# What the progress of a run counts

A checkpoint writes the progress that the run had at some point of its history. Every frame up to a
confirmed one has been taken by a task by then, and every failure before it has been counted. At a
point where nothing up to the watermark is open and nothing after it is counted, the progress counts
exactly what the stream has up to the watermark.
-/

namespace VideoPipeline

namespace Thread

/-- The item that the loop body looks at next. -/
def items : Thread → List Item
  | .yielding it => [it]
  | _            => []

/-- The frame that waits for a place in the queue. -/
def held : Thread → List SampledFrame
  | .putting f => [f]
  | _          => []

lemma failures_eq (t : Thread) : t.failures = t.items.filterMap Item.failure? := by
  cases t with
  | yielding it => cases it <;> rfl
  | _ => rfl

end Thread

namespace Pipeline

variable {cfg : Dispatch} {p p' : Pipeline} {e : Event} {out h : List Output} {w : ℕ}
  {op : PublishWorker.Op} {d₀ : Decoder} {s₀ : RunState} {c₀ : Checkpoint}

/-- The progress after a history, from the progress at its start. -/
def progressAfter (c : Checkpoint) (h : List Output) : Checkpoint where
  framesDispatched := c.framesDispatched + (confirmedRefs h).length
  framesFailed := c.framesFailed + (undecoded h).length
  lastSourceIndex := watermark c.lastSourceIndex (confirmedRefs h)

lemma Counts.progress_eq {s s' : RunState} (hc : Counts s s' h) :
    s'.progress = progressAfter s.progress h := by
  rw [RunState.progress, hc.confirmed, hc.failed, hc.last]
  rfl

/-! ### What has passed the loop body -/

/-- The items that the loop body has still to look at. -/
def pending (cfg : Dispatch) (p : Pipeline) : List Item :=
  p.thread.items ++ p.decoder.items cfg.source

/-- The frames that have passed the loop body and that no task has taken. -/
def waiting (p : Pipeline) : List SampledFrame := p.queue.filterMap id ++ p.thread.held

lemma uncounted_eq (cfg : Dispatch) (p : Pipeline) :
    p.uncounted cfg = (p.pending cfg).filterMap Item.failure? := by
  rw [uncounted, pending, List.filterMap_append, Thread.failures_eq]
  rfl

/-- An item that passes the loop body is counted or joins the waiting frames. -/
lemma Rule.pending_eq (hr : Rule cfg p e p' out) : ∃ its, p.pending cfg = its ++ p'.pending cfg ∧
    Pipeline.taken out ++ p'.waiting = p.waiting ++ its.filterMap Item.frame? ∧
    undecoded out = its.filterMap Item.failure? := by
  cases hr with
  | failure f ht =>
    refine ⟨[.failure f], ?_, ?_, rfl⟩
    · rw [pending, ht]
      rfl
    · simp [Pipeline.taken, waiting, ht, Thread.held, Item.frame?, List.filterMap_cons]
  | frame f ht =>
    refine ⟨[.frame f], ?_, ?_, rfl⟩
    · rw [pending, ht]
      rfl
    · simp [Pipeline.taken, waiting, ht, Thread.held, Item.frame?]
  | skip d ht ha hg =>
    refine ⟨[], ?_, by simp [Pipeline.taken, waiting, ht], rfl⟩
    simp [pending, ht, Thread.items, Decoder.items_of_grab hg]
  | keep it d ht ha hg =>
    refine ⟨[], ?_, by simp [Pipeline.taken, waiting, ht, Thread.held], rfl⟩
    simp [pending, ht, Thread.items, Decoder.items_of_grab hg]
  | look ht =>
    refine ⟨[], ?_, ?_, rfl⟩
    · cases p.abort <;> simp [pending, ht, Thread.items]
    · cases p.abort <;> simp [Pipeline.taken, waiting, ht, Thread.held]
  | aborted ht | exhausted ht | enqueue f ht | sourceRaised exc ht =>
    refine ⟨[], ?_, ?_, rfl⟩
    · simp [pending, ht, Thread.items]
    · simp [Pipeline.taken, waiting, ht, Thread.held]
  | disconnect | decodeDone | putStop | gathered =>
    exact ⟨[], rfl, by simp [Pipeline.taken, waiting], rfl⟩
  | worker w op p' out hw hr =>
    cases hr with
    | stop q hw hq | drain f q hw hq | take f q hw hq =>
      exact ⟨[], rfl, by simp [Pipeline.taken, waiting, hq], rfl⟩
    | stored | published | confirmed | snapshot | checkpointWritten | checkpointReturned | gaveUp
    | checkpointRaised => exact ⟨[], rfl, by simp [Pipeline.taken, waiting], rfl⟩

/-! ### Checkpoints -/

/-- A checkpoint call starts with the progress of the run at its confirm. -/
def Snapshot (c₀ : Checkpoint) (h : List Output) (o : Output) : Prop :=
  ∀ ref c, o = .confirmed ref (some c) → c = progressAfter c₀ (h ++ [o])

/-- Where the items of a run are, and where its checkpoints are from. -/
structure Tracked (cfg : Dispatch) (d₀ : Decoder) (c₀ : Checkpoint) (p : Pipeline)
    (h : List Output) : Prop where
  passed : ∃ its, d₀.items cfg.source = its ++ p.pending cfg ∧
    taken h ++ p.waiting = its.filterMap Item.frame? ∧ undecoded h = its.filterMap Item.failure?
  origin : ∀ ref ∈ confirmedRefs h, ref.jobId = cfg.jobId
  snapshots : Machine.Caused (Snapshot c₀) h
  checkpointing : ∀ w c, p.workers w = .checkpointing c → ∃ ref, .confirmed ref (some c) ∈ h

lemma Tracked.start {sampler : FrameSampler} {prior : Option JobRecord} :
    Tracked cfg (.start cfg.source sampler) c₀ (start cfg sampler prior) [] := by
  refine ⟨⟨[], rfl, rfl, rfl⟩, ?_, .nil, ?_⟩
  · intro ref h
    cases h
  · intro w c h
    cases h

/-- What a step confirms is the frame of a task, and the snapshot is taken after it. -/
lemma Rule.confirmed_cases (hr : Rule cfg p e p' out) (hl : ∀ w, (p.workers w).Labelled cfg) :
    confirmedRefs out = [] ∨
    ∃ f now sn, out = [.confirmed (cfg.frameRef f now) sn] ∧ ∀ c, sn = some c →
      c = p'.state.progress := by
  rcases hr.workers_or with ⟨-, -, hnone, -⟩ | ⟨w, op, -, -, hr⟩
  · exact .inl hnone
  · cases hr with
    | confirmed f ref hw =>
      have hlw := hl w
      rw [hw] at hlw
      obtain ⟨now, rfl⟩ := hlw
      exact .inr ⟨f, now, none, rfl, fun c hc => (by cases hc)⟩
    | snapshot f ref hw =>
      have hlw := hl w
      rw [hw] at hlw
      obtain ⟨now, rfl⟩ := hlw
      refine .inr ⟨f, now, _, rfl, ?_⟩
      rintro c hc
      rw [← Option.some.inj hc]
      exact (RunState.takeCheckpointDue_progress _ _).symm
    | _ => exact .inl rfl

lemma WorkerRule.checkpointing_cases (hr : WorkerRule cfg p w op p' out) {c : Checkpoint}
    (hw : p'.workers w = .checkpointing c) :
    p.workers w = .checkpointing c ∨ ∃ ref, .confirmed ref (some c) ∈ out := by
  cases hr with
  | drain => exact .inl hw
  | snapshot f ref =>
    simp only [Function.update_self, PublishWorker.checkpointing.injEq] at hw
    exact .inr ⟨ref, by rw [hw]; exact List.mem_singleton_self _⟩
  | stop | take | stored | published | confirmed | checkpointWritten | checkpointReturned | gaveUp
  | checkpointRaised =>
    simp only [Function.update_self] at hw
    cases hw

theorem Tracked.step (ht : Tracked cfg d₀ s₀.progress p h) (hf : Flow cfg d₀ s₀ p h)
    (hr : Rule cfg p e p' out) : Tracked cfg d₀ s₀.progress p' (h ++ out) := by
  refine ⟨?_, ?_, ?_, ?_⟩
  · obtain ⟨its, hitems, hframes, hfailures⟩ := ht.passed
    obtain ⟨its', hpend, hwait, hund⟩ := hr.pending_eq
    refine ⟨its ++ its', ?_, ?_, ?_⟩
    · rw [hitems, hpend, List.append_assoc]
    · rw [taken_append, List.append_assoc, hwait, ← List.append_assoc, hframes,
        List.filterMap_append]
    · rw [undecoded_append, hfailures, hund, List.filterMap_append]
  · intro ref href
    rw [confirmedRefs_append, List.mem_append] at href
    rcases href with href | href
    · exact ht.origin ref href
    · rcases hr.confirmed_cases hf.labelled with hnone | ⟨f, now, sn, rfl, -⟩
      · rw [hnone] at href
        cases href
      · obtain rfl := List.mem_singleton.mp href
        rfl
  · apply ht.snapshots.append_of
    intro o₁ x o₂ hout ref c hx
    rcases hr.confirmed_cases hf.labelled with hnone | ⟨f, now, sn, hsn, hc⟩
    · have hmem : ref ∈ confirmedRefs out :=
        List.mem_filterMap.mpr ⟨x, by rw [hout]; simp, by rw [hx]; rfl⟩
      rw [hnone] at hmem
      cases hmem
    · -- a step has a single output, so the part before the confirm is the history
      rw [hsn] at hout
      obtain ⟨rfl, rfl, -⟩ : o₁ = [] ∧ x = .confirmed (cfg.frameRef f now) sn ∧ o₂ = [] := by
        cases o₁ with
        | nil =>
          obtain ⟨h₁, h₂⟩ := List.cons.inj hout
          exact ⟨rfl, h₁.symm, h₂.symm⟩
        | cons y o₁ => simp at hout
      obtain ⟨-, rfl⟩ := Output.confirmed.inj hx
      have hcounts := hf.counts.append (hr.counts hf.labelled)
      rw [List.append_nil, ← hsn, ← hcounts.progress_eq]
      exact hc c rfl
  · intro w c hw
    rcases hr.workers_or with ⟨hsame, -⟩ | ⟨w', op, -, -, hr'⟩
    · obtain ⟨ref, href⟩ := ht.checkpointing w c (hsame ▸ hw)
      exact ⟨ref, List.mem_append_left _ href⟩
    · by_cases hww : w = w'
      · subst hww
        rcases hr'.checkpointing_cases hw with hold | ⟨ref, href⟩
        · obtain ⟨ref, href⟩ := ht.checkpointing w c hold
          exact ⟨ref, List.mem_append_left _ href⟩
        · exact ⟨ref, List.mem_append_right _ href⟩
      · rw [hr'.others hww] at hw
        obtain ⟨ref, href⟩ := ht.checkpointing w c hw
        exact ⟨ref, List.mem_append_left _ href⟩

theorem Tracked.of_reach {ok : Pipeline → List Output → Event → Prop} {sampler : FrameSampler}
    {prior : Option JobRecord} (hr : (machine cfg).Reach ok (.start cfg sampler prior) p h) :
    Tracked cfg (.start cfg.source sampler) (RunState.initial prior).progress p h :=
  hr.invariant .start fun _ _ _ _ _ hreach ht _ hs =>
    ht.step (Flow.of_reach hreach) (.of_step hs)

/-- A checkpoint that a task is to write, or that the run closes with, is the progress of the run
at a point of its history. -/
lemma Tracked.checkpoint_eq (ht : Tracked cfg d₀ c₀ p h) {c : Checkpoint}
    (hw : p.workers w = .checkpointing c) : ∃ h₁, h₁ <+: h ∧ c = progressAfter c₀ h₁ := by
  obtain ⟨ref, href⟩ := ht.checkpointing w c hw
  obtain ⟨h₁, h₂, rfl⟩ := List.append_of_mem href
  refine ⟨h₁ ++ [.confirmed ref (some c)], ⟨h₂, by simp⟩, ?_⟩
  exact ht.snapshots h₁ _ h₂ rfl ref c rfl

/-! ### Up to the watermark -/

/-- What was confirmed had been dispatched. -/
lemma Flow.exists_dispatched (hf : Flow cfg d₀ s₀ p h) {ref : FrameRef}
    (href : ref ∈ confirmedRefs h) : ∃ f ∈ dispatched h, f.frameId = ref.frameId := by
  have hbal := hf.balance ref.frameId
  have hconf : 0 < (confirmedRefs h).countP fun r => r.frameId = ref.frameId :=
    List.countP_pos_iff.mpr ⟨ref, href, decide_eq_true rfl⟩
  have hdisp : 0 < (dispatched h).countP fun f => f.frameId = ref.frameId := by omega
  obtain ⟨f, hmem, hid⟩ := List.countP_pos_iff.mp hdisp
  exact ⟨f, hmem, of_decide_eq_true hid⟩

lemma Flow.dispatched_sublist (hf : Flow cfg d₀ s₀ p h) :
    (dispatched h).Sublist (d₀.frames cfg.source) := by
  rw [← hf.line, hf.taken, List.append_assoc]
  exact List.sublist_append_left _ _

/-- The frames are taken in order, so all frames up to a confirmed one have been dispatched. -/
lemma Flow.dispatched_of_le_confirmed (hf : Flow cfg d₀ s₀ p h) {ref : FrameRef}
    (href : ref ∈ confirmedRefs h) {f : SampledFrame} (hmem : f ∈ d₀.frames cfg.source)
    (hle : f.frameId ≤ ref.frameId) : f ∈ dispatched h := by
  obtain ⟨g, hg, hid⟩ := hf.exists_dispatched href
  have hsorted := Decoder.frames_pairwise cfg.source d₀
  rw [← hf.line, hf.taken, List.append_assoc] at hmem hsorted
  rw [List.map_append, List.pairwise_append] at hsorted
  rcases List.mem_append.mp hmem with hin | hlater
  · exact hin
  · have hlt := hsorted.2.2 _ (List.mem_map_of_mem hg) _ (List.mem_map_of_mem hlater)
    rw [← hid] at hle
    exact absurd (Int.ofNat_le.mp hle) (not_le.mpr hlt)

/-- Up to a watermark that the run has had, all frames have been dispatched. -/
lemma Flow.dispatched_of_le (hf : Flow cfg d₀ s₀ p h) {h₁ : List Output} (hp : h₁ <+: h)
    {f : SampledFrame} (hmem : f ∈ d₀.frames cfg.source) (hlt : s₀.lastSourceIndex < f.frameId)
    (hle : f.frameId ≤ (progressAfter s₀.progress h₁).lastSourceIndex) : f ∈ dispatched h := by
  rcases watermark_eq_or s₀.lastSourceIndex (confirmedRefs h₁) with hL | ⟨ref, href, hL⟩
  · rw [show (progressAfter s₀.progress h₁).lastSourceIndex = s₀.lastSourceIndex from hL] at hle
    exact absurd hle (not_le.mpr hlt)
  · apply hf.dispatched_of_le_confirmed _ hmem (hle.trans_eq hL)
    obtain ⟨h₂, rfl⟩ := hp
    rw [confirmedRefs_append]
    exact List.mem_append_left _ href

/-- No task is dispatching a frame up to an index, and none has given up one. -/
def Clear (settings : AnalyzerSettings) (p : Pipeline) (h : List Output) (L : ℤ) : Prop :=
  (∀ w < settings.analyzerPublishers, ∀ f ∈ (p.workers w).holding, L < f.frameId) ∧
    ∀ f ∈ abandoned h, L < f.frameId

instance (settings : AnalyzerSettings) (p : Pipeline) (h : List Output) (L : ℤ) :
    Decidable (Clear settings p h L) :=
  inferInstanceAs (Decidable (_ ∧ _))

/-- A dispatched frame that no task is dispatching or has given up is confirmed. -/
lemma Flow.confirmed_of_clear (hf : Flow cfg d₀ s₀ p h) {L : ℤ} (hc : Clear cfg.settings p h L)
    {f : SampledFrame} (hmem : f ∈ dispatched h) (hle : f.frameId ≤ L) :
    ∃ ref ∈ confirmedRefs h, ref.frameId = f.frameId := by
  have hfar : ∀ l : List SampledFrame, (∀ g ∈ l, L < g.frameId) →
      (l.countP fun g => g.frameId = f.frameId) = 0 := by
    intro l hl
    rw [List.countP_eq_zero]
    intro g hg
    have hgt := hl g hg
    simp only [decide_eq_true_eq]
    omega
  have hin : p.inFlight cfg f.frameId = 0 :=
    Finset.sum_eq_zero fun w hw => hfar _ (hc.1 w (Finset.mem_range.mp hw))
  have hdisp : 0 < (dispatched h).countP fun g => g.frameId = f.frameId :=
    List.countP_pos_iff.mpr ⟨f, hmem, decide_eq_true rfl⟩
  have hbal := hf.balance f.frameId
  rw [hin, hfar _ hc.2] at hbal
  have hconf : 0 < (confirmedRefs h).countP fun ref => ref.frameId = f.frameId := by omega
  obtain ⟨ref, href, hid⟩ := List.countP_pos_iff.mp hconf
  exact ⟨ref, href, of_decide_eq_true hid⟩

/-! ### Clean points -/

/-- No failure after an index has been counted, and no frame up to it is without its confirm. -/
def Clean (h : List Output) (L : ℤ) : Prop :=
  (∀ f ∈ undecoded h, (f.sourceIndex : ℤ) ≤ L) ∧
    ∀ f ∈ dispatched h, f.frameId ≤ L → ∃ ref ∈ confirmedRefs h, ref.frameId = f.frameId

instance (h : List Output) (L : ℤ) : Decidable (Clean h L) :=
  inferInstanceAs (Decidable (_ ∧ _))

lemma Flow.frames_nodup (cfg : Dispatch) (d₀ : Decoder) :
    ((d₀.frames cfg.source).map SampledFrame.frameId).Nodup := by
  have hsorted := Decoder.frames_pairwise cfg.source d₀
  rw [List.pairwise_map] at hsorted
  rw [List.nodup_iff_pairwise_ne, List.pairwise_map]
  apply hsorted.imp
  intro a b hlt heq
  exact hlt.ne (Int.ofNat_inj.mp heq)

/-- No frame is confirmed twice in a run. -/
lemma Flow.confirmed_nodup (hf : Flow cfg d₀ s₀ p h) :
    ((confirmedRefs h).map FrameRef.frameId).Nodup := by
  have hdisp := (Flow.frames_nodup cfg d₀).sublist (hf.dispatched_sublist.map SampledFrame.frameId)
  rw [List.nodup_iff_count_le_one] at hdisp ⊢
  intro i
  have hle := hdisp i
  have hbal := hf.balance i
  simp only [List.count_eq_countP, List.countP_map] at hle ⊢
  simp only [Function.comp_def, beq_eq_decide] at *
  omega

/-- A taken frame comes before every failure that is not counted. -/
lemma Tracked.taken_lt (ht : Tracked cfg d₀ c₀ p h) {f : SampledFrame} {g : DecodeFailure}
    (hf : f ∈ taken h) (hg : g ∈ p.uncounted cfg) : f.sourceIndex < g.sourceIndex := by
  obtain ⟨its, hitems, hframes, -⟩ := ht.passed
  have hsorted : ((d₀.items cfg.source).map Item.sourceIndex).Pairwise (· < ·) :=
    Decoder.items_pairwise _ _
  rw [hitems, List.map_append, List.pairwise_append] at hsorted
  have hf' : f ∈ its.filterMap Item.frame? := hframes ▸ List.mem_append_left _ hf
  obtain ⟨it, hit, hitf⟩ := List.mem_filterMap.mp hf'
  rw [uncounted_eq] at hg
  obtain ⟨it', hit', hitg⟩ := List.mem_filterMap.mp hg
  have hlt := hsorted.2.2 _ (List.mem_map_of_mem hit) _ (List.mem_map_of_mem hit')
  cases it <;> cases hitf
  cases it' <;> cases hitg
  exact hlt

section Clean

variable (hf : Flow cfg d₀ s₀ p h) (hclean : Clean h p.state.lastSourceIndex)
include hf hclean

/-- At a clean point the frames up to the watermark are the confirmed ones. -/
theorem Flow.confirmed_perm_of_clean
    (hstart : ∀ f ∈ d₀.frames cfg.source, s₀.lastSourceIndex < f.frameId) :
    ((confirmedRefs h).map FrameRef.frameId).Perm
      (((d₀.frames cfg.source).map SampledFrame.frameId).filter
        (· ≤ p.state.lastSourceIndex)) := by
  rw [List.perm_ext_iff_of_nodup hf.confirmed_nodup ((Flow.frames_nodup cfg d₀).filter _)]
  intro i
  rw [List.mem_filter, decide_eq_true_eq]
  constructor
  · intro hi
    obtain ⟨ref, href, rfl⟩ := List.mem_map.mp hi
    obtain ⟨f, hmem, hid⟩ := hf.exists_dispatched href
    refine ⟨?_, ?_⟩
    · rw [← hid]
      exact List.mem_map_of_mem (hf.dispatched_sublist.subset hmem)
    · rw [hf.counts.last]
      exact frameId_le_watermark href
  · rintro ⟨hi, hle⟩
    obtain ⟨f, hmem, rfl⟩ := List.mem_map.mp hi
    have hdisp : f ∈ dispatched h := by
      apply hf.dispatched_of_le (List.prefix_refl h) hmem (hstart f hmem)
      rw [← hf.counts.progress_eq]
      exact hle
    obtain ⟨ref, href, hid⟩ := hclean.2 f hdisp hle
    rw [← hid]
    exact List.mem_map_of_mem href

/-- At a clean point the failures up to the watermark are the counted ones. -/
theorem Flow.undecoded_of_clean (ht : Tracked cfg d₀ c₀ p h)
    (hstart : ∀ f ∈ d₀.failures cfg.source, s₀.lastSourceIndex < (f.sourceIndex : ℤ)) :
    undecoded h =
      (d₀.failures cfg.source).filter fun f => (f.sourceIndex : ℤ) ≤ p.state.lastSourceIndex := by
  have hcounted : (undecoded h).filter (fun f => (f.sourceIndex : ℤ) ≤ p.state.lastSourceIndex) =
      undecoded h :=
    List.filter_eq_self.mpr fun f hmem => decide_eq_true (hclean.1 f hmem)
  have hlater : (p.uncounted cfg).filter
      (fun f => (f.sourceIndex : ℤ) ≤ p.state.lastSourceIndex) = [] := by
    rw [List.filter_eq_nil_iff]
    intro g hg hle
    rw [decide_eq_true_eq, hf.counts.last] at hle
    rcases watermark_eq_or s₀.lastSourceIndex (confirmedRefs h) with hL | ⟨ref, href, hL⟩
    · rw [hL] at hle
      have hgt := hstart g (hf.uncounted ▸ List.mem_append_right _ hg)
      omega
    · obtain ⟨f, hmem, hid⟩ := hf.exists_dispatched href
      have htaken : f ∈ Pipeline.taken h := hf.taken ▸ List.mem_append_left _ hmem
      have hlt := ht.taken_lt htaken hg
      rw [hL, ← hid, SampledFrame.frameId] at hle
      omega
  rw [← hf.uncounted, List.filter_append, hcounted, hlater, List.append_nil]

end Clean

end Pipeline

end VideoPipeline
