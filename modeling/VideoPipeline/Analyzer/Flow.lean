import VideoPipeline.Analyzer.Pipeline
import VideoPipeline.Lib.Family

/-!
# Where each frame of a run is

A frame the source yields is in the line for a publisher task, then dispatched or discarded, and a
dispatched frame is held by one task until it is confirmed or given up. The counters of the run
count these, and when `run` returns without an error and without an abort nothing is left over.
-/

namespace VideoPipeline

/-- How often a task holds the frame with an index. -/
def PublishWorker.holds (i : ℤ) (t : PublishWorker) : ℕ :=
  t.holding.countP fun f => f.frameId = i

/-- How often a task holds the frame with an index while the broker does not have it. -/
def PublishWorker.withholds (i : ℤ) (t : PublishWorker) : ℕ :=
  t.unpublished.countP fun f => f.frameId = i

/-- The reference a task publishes is that of its frame. -/
def PublishWorker.Labelled (cfg : Dispatch) : PublishWorker → Prop
  | .publishing f ref | .confirming f ref => ∃ now, ref = cfg.frameRef f now
  | _                                     => True

namespace Pipeline

variable {cfg : Dispatch} {p p' : Pipeline} {e : Event} {out h : List Output} {w : ℕ}
  {op : PublishWorker.Op} {d₀ : Decoder} {s₀ : RunState}

/-! ### What a history says -/

@[simp] def Output.taken? : Output → Option SampledFrame
  | .took f | .drained f => some f
  | _                    => none

@[simp] def Output.dispatched? : Output → Option SampledFrame
  | .took f => some f
  | _       => none

@[simp] def Output.discarded? : Output → Option SampledFrame
  | .drained f => some f
  | _          => none

@[simp] def Output.abandoned? : Output → Option SampledFrame
  | .gaveUp f _ => some f
  | _           => none

@[simp] def Output.publishedRef? : Output → Option FrameRef
  | .published ref => some ref
  | _              => none

@[simp] def Output.confirmedRef? : Output → Option FrameRef
  | .confirmed ref _ => some ref
  | _                => none

@[simp] def Output.undecoded? : Output → Option DecodeFailure
  | .undecodable f => some f
  | _              => none

@[simp] def Output.callRaised? : Output → Option String
  | .gaveUp _ exc | .checkpointRaised exc => some exc
  | _                                     => none

@[simp] def Output.sourceRaised? : Output → Option String
  | .sourceRaised exc => some exc
  | _                 => none

/-- The frames that left the queue. -/
def taken (h : List Output) : List SampledFrame := h.filterMap Output.taken?

/-- The frames that a task started to dispatch. -/
def dispatched (h : List Output) : List SampledFrame := h.filterMap Output.dispatched?

/-- The frames that were drained after an error. -/
def discarded (h : List Output) : List SampledFrame := h.filterMap Output.discarded?

/-- The frames whose dispatch raised. -/
def abandoned (h : List Output) : List SampledFrame := h.filterMap Output.abandoned?

/-- The references the broker got, in the order in which the publishes took effect. -/
def publishedRefs (h : List Output) : List FrameRef := h.filterMap Output.publishedRef?

/-- The references whose confirm was recorded. -/
def confirmedRefs (h : List Output) : List FrameRef := h.filterMap Output.confirmedRef?

/-- The failures that were counted. -/
def undecoded (h : List Output) : List DecodeFailure := h.filterMap Output.undecoded?

/-- The errors of the tasks' calls. -/
def raisedCalls (h : List Output) : List String := h.filterMap Output.callRaised?

def sourceErrors (h : List Output) : List String := h.filterMap Output.sourceRaised?

section Append

variable (h₁ h₂ : List Output)

@[simp] lemma taken_append : taken (h₁ ++ h₂) = taken h₁ ++ taken h₂ := List.filterMap_append

@[simp] lemma dispatched_append : dispatched (h₁ ++ h₂) = dispatched h₁ ++ dispatched h₂ :=
  List.filterMap_append

@[simp] lemma discarded_append : discarded (h₁ ++ h₂) = discarded h₁ ++ discarded h₂ :=
  List.filterMap_append

@[simp] lemma abandoned_append : abandoned (h₁ ++ h₂) = abandoned h₁ ++ abandoned h₂ :=
  List.filterMap_append

@[simp] lemma publishedRefs_append :
    publishedRefs (h₁ ++ h₂) = publishedRefs h₁ ++ publishedRefs h₂ :=
  List.filterMap_append

@[simp] lemma confirmedRefs_append :
    confirmedRefs (h₁ ++ h₂) = confirmedRefs h₁ ++ confirmedRefs h₂ :=
  List.filterMap_append

@[simp] lemma undecoded_append : undecoded (h₁ ++ h₂) = undecoded h₁ ++ undecoded h₂ :=
  List.filterMap_append

@[simp] lemma raisedCalls_append : raisedCalls (h₁ ++ h₂) = raisedCalls h₁ ++ raisedCalls h₂ :=
  List.filterMap_append

@[simp] lemma sourceErrors_append : sourceErrors (h₁ ++ h₂) = sourceErrors h₁ ++ sourceErrors h₂ :=
  List.filterMap_append

end Append

/-! ### The line -/

/-- The frames that wait for a publisher task, first come first. -/
def line (cfg : Dispatch) (p : Pipeline) : List SampledFrame :=
  p.queue.filterMap id ++ (p.thread.frames ++ p.decoder.frames cfg.source)

/-- The failures that are still to be counted. -/
def uncounted (cfg : Dispatch) (p : Pipeline) : List DecodeFailure :=
  p.thread.failures ++ p.decoder.failures cfg.source

/-- A frame leaves the line at its head when a task takes it. -/
lemma Rule.line_eq (hr : Rule cfg p e p' out) : taken out ++ p'.line cfg = p.line cfg := by
  cases hr with
  | skip d ht ha hg => simp [Pipeline.taken, line, ht, Thread.frames, Decoder.frames_of_grab hg]
  | keep it d ht ha hg => simp [Pipeline.taken, line, ht, Thread.frames, Decoder.frames_of_grab hg]
  | worker w op p' out hw hr =>
    cases hr with
    | stop q hw hq => simp [Pipeline.taken, line, hq]
    | drain f q hw hq => simp [Pipeline.taken, line, hq]
    | take f q hw hq => simp [Pipeline.taken, line, hq]
    | stored | published | confirmed | snapshot | checkpointWritten | checkpointReturned | gaveUp
    | checkpointRaised => simp [Pipeline.taken, line]
  | look ht =>
    cases p.abort <;> simp [Pipeline.taken, line, ht, Thread.frames]
  | aborted ht | exhausted ht | failure f ht | frame f ht | enqueue f ht | sourceRaised exc ht =>
    simp [Pipeline.taken, line, ht, Thread.frames, Item.frame?]
  | disconnect | decodeDone | putStop | gathered => simp [Pipeline.taken, line]

/-- A failure is counted when the loop body looks at it. -/
lemma Rule.uncounted_eq (hr : Rule cfg p e p' out) :
    undecoded out ++ p'.uncounted cfg = p.uncounted cfg := by
  cases hr with
  | skip d ht ha hg =>
    simp [undecoded, uncounted, ht, Thread.failures, Decoder.failures_of_grab hg]
  | keep it d ht ha hg =>
    simp [undecoded, uncounted, ht, Thread.failures, Decoder.failures_of_grab hg]
  | worker w op p' out hw hr => cases hr <;> simp [undecoded, uncounted]
  | look ht =>
    cases p.abort <;> simp [undecoded, uncounted, ht, Thread.failures]
  | aborted ht | exhausted ht | failure f ht | frame f ht | enqueue f ht | sourceRaised exc ht =>
    simp [undecoded, uncounted, ht, Thread.failures, Item.failure?]
  | disconnect | decodeDone | putStop | gathered => simp [undecoded, uncounted]

/-! ### The tasks -/

lemma WorkerRule.others (hr : WorkerRule cfg p w op p' out) {w' : ℕ} (hne : w' ≠ w) :
    p'.workers w' = p.workers w' := by
  cases hr <;> first | rfl | exact Function.update_of_ne hne _ _

/-- A task that dispatches a frame holds it until it is confirmed or given up. -/
lemma WorkerRule.balance (hr : WorkerRule cfg p w op p' out) (hl : (p.workers w).Labelled cfg)
    (i : ℤ) :
    (p'.workers w).holds i + (confirmedRefs out).countP (fun ref => ref.frameId = i) +
      (abandoned out).countP (fun f => f.frameId = i) =
    (p.workers w).holds i + (dispatched out).countP fun f => f.frameId = i := by
  cases hr with
  | confirmed f ref hw =>
    rw [hw] at hl
    obtain ⟨now, rfl⟩ := hl
    by_cases hi : f.frameId = i <;>
    simp [confirmedRefs, abandoned, dispatched, hw, hi, PublishWorker.holds, PublishWorker.holding,
      List.filterMap_cons]
  | snapshot f ref hw =>
    rw [hw] at hl
    obtain ⟨now, rfl⟩ := hl
    by_cases hi : f.frameId = i <;>
    simp [confirmedRefs, abandoned, dispatched, hw, hi, PublishWorker.holds, PublishWorker.holding,
      List.filterMap_cons]
  | gaveUp f exc hw =>
    have hheld : (p.workers w).holds i = [f].countP fun f => f.frameId = i := by
      rw [PublishWorker.holds, hw]
    rw [hheld]
    simp [confirmedRefs, abandoned, dispatched, PublishWorker.holds, PublishWorker.holding,
      List.filterMap_cons]
  | checkpointRaised exc hw =>
    have hnone : (p.workers w).holds i = 0 := by
      cases ht : p.workers w <;> rw [ht] at hw <;> first | rfl | cases hw
    rw [hnone]
    simp [confirmedRefs, abandoned, dispatched, PublishWorker.holds, PublishWorker.holding,
      List.filterMap_cons]
  | stop q hw | drain f q hw | take f q hw | stored f now hw | published f ref hw
  | checkpointWritten c hw | checkpointReturned hw =>
    simp [confirmedRefs, abandoned, dispatched, hw, PublishWorker.holds, PublishWorker.holding,
      List.filterMap_cons]

/-- A task whose dispatch does not raise publishes the frame it holds. -/
lemma WorkerRule.publish_balance (hr : WorkerRule cfg p w op p' out)
    (hl : (p.workers w).Labelled cfg) (hab : abandoned out = []) (i : ℤ) :
    (p'.workers w).withholds i + (publishedRefs out).countP (fun ref => ref.frameId = i) =
      (p.workers w).withholds i + (dispatched out).countP fun f => f.frameId = i := by
  cases hr with
  | published f ref hw =>
    rw [hw] at hl
    obtain ⟨now, rfl⟩ := hl
    by_cases hi : f.frameId = i <;>
    simp [publishedRefs, dispatched, hw, hi, PublishWorker.withholds, PublishWorker.unpublished,
      List.filterMap_cons]
  | gaveUp f exc hw => simp [abandoned] at hab
  | checkpointRaised exc hw =>
    have hnone : (p.workers w).withholds i = 0 := by
      cases ht : p.workers w <;> rw [ht] at hw <;> first | rfl | cases hw
    rw [hnone]
    simp [publishedRefs, dispatched, PublishWorker.withholds, PublishWorker.unpublished,
      List.filterMap_cons]
  | stop q hw | drain f q hw | take f q hw | stored f now hw | confirmed f ref hw
  | snapshot f ref hw | checkpointWritten c hw | checkpointReturned hw =>
    simp [publishedRefs, dispatched, hw, PublishWorker.withholds, PublishWorker.unpublished,
      List.filterMap_cons]

lemma WorkerRule.labelled (hr : WorkerRule cfg p w op p' out) (hl : (p.workers w).Labelled cfg) :
    (p'.workers w).Labelled cfg := by
  cases hr with
  | drain => exact hl
  | stored f now hw =>
    simp only [Function.update_self]
    exact ⟨now, rfl⟩
  | published f ref hw =>
    rw [hw] at hl
    simp only [Function.update_self]
    exact hl
  | stop | take | confirmed | snapshot | checkpointWritten | checkpointReturned | gaveUp
  | checkpointRaised =>
    simp only [Function.update_self]
    trivial

/-- The steps of the decode thread and of the awaiting task leave the publisher tasks alone. -/
lemma Rule.workers_or (hr : Rule cfg p e p' out) :
    (p'.workers = p.workers ∧ dispatched out = [] ∧ confirmedRefs out = [] ∧ abandoned out = [] ∧
      publishedRefs out = [] ∧ raisedCalls out = []) ∨
    ∃ w op, e = .worker w op ∧ w < cfg.settings.analyzerPublishers ∧
      WorkerRule cfg p w op p' out := by
  cases hr with
  | worker w op p' out hw hr => exact .inr ⟨w, op, rfl, hw, hr⟩
  | _ => exact .inl ⟨rfl, rfl, rfl, rfl, rfl, rfl⟩

lemma Rule.labelled (hr : Rule cfg p e p' out) (hl : ∀ w, (p.workers w).Labelled cfg) (w : ℕ) :
    (p'.workers w).Labelled cfg := by
  rcases hr.workers_or with ⟨hsame, -⟩ | ⟨w', op, -, -, hw⟩
  · rw [hsame]
    exact hl w
  · by_cases hww : w = w'
    · subst hww
      exact hw.labelled (hl w)
    · rw [hw.others hww]
      exact hl w

/-- How often the frame with an index is being dispatched. -/
def inFlight (cfg : Dispatch) (p : Pipeline) (i : ℤ) : ℕ :=
  ∑ w ∈ Finset.range cfg.settings.analyzerPublishers, (p.workers w).holds i

/-- How often the frame with an index is being dispatched while the broker does not have it. -/
def withheld (cfg : Dispatch) (p : Pipeline) (i : ℤ) : ℕ :=
  ∑ w ∈ Finset.range cfg.settings.analyzerPublishers, (p.workers w).withholds i

lemma Rule.balance (hr : Rule cfg p e p' out) (hl : ∀ w, (p.workers w).Labelled cfg) (i : ℤ) :
    p'.inFlight cfg i + (confirmedRefs out).countP (fun ref => ref.frameId = i) +
      (abandoned out).countP (fun f => f.frameId = i) =
    p.inFlight cfg i + (dispatched out).countP fun f => f.frameId = i := by
  rcases hr.workers_or with ⟨hsame, hd, hc, ha, -⟩ | ⟨w, op, -, hw, hr⟩
  · rw [inFlight, inFlight, hsame, hd, hc, ha]
    rfl
  · have hlocal := hr.balance (hl w) i
    have hsum := Family.sum_of_ne (PublishWorker.holds i) hw fun w' hne => hr.others hne
    simp only [inFlight] at hsum ⊢
    omega

lemma Rule.publish_balance (hr : Rule cfg p e p' out) (hl : ∀ w, (p.workers w).Labelled cfg)
    (hab : abandoned out = []) (i : ℤ) :
    p'.withheld cfg i + (publishedRefs out).countP (fun ref => ref.frameId = i) =
      p.withheld cfg i + (dispatched out).countP fun f => f.frameId = i := by
  rcases hr.workers_or with ⟨hsame, hd, -, -, hp, -⟩ | ⟨w, op, -, hw, hr⟩
  · rw [withheld, withheld, hsame, hd, hp]
    rfl
  · have hlocal := hr.publish_balance (hl w) hab i
    have hsum := Family.sum_of_ne (PublishWorker.withholds i) hw fun w' hne => hr.others hne
    simp only [withheld] at hsum ⊢
    omega

/-! ### The state of the run -/

/-- The watermark after further confirms. -/
def watermark (L : ℤ) (refs : List FrameRef) : ℤ := refs.foldl (fun m ref => max m ref.frameId) L

lemma watermark_append (L : ℤ) (refs refs' : List FrameRef) :
    watermark L (refs ++ refs') = watermark (watermark L refs) refs' :=
  List.foldl_append

lemma le_watermark (L : ℤ) (refs : List FrameRef) : L ≤ watermark L refs := by
  induction refs generalizing L with
  | nil => exact le_rfl
  | cons ref refs ih => exact (le_max_left L ref.frameId).trans (ih _)

lemma frameId_le_watermark {L : ℤ} {refs : List FrameRef} {ref : FrameRef} (hr : ref ∈ refs) :
    ref.frameId ≤ watermark L refs := by
  induction refs generalizing L with
  | nil => cases hr
  | cons ref' refs ih =>
    rcases List.mem_cons.mp hr with rfl | hr
    · exact (le_max_right L ref.frameId).trans (le_watermark _ _)
    · exact ih hr

/-- The watermark is where it was or at a confirmed frame. -/
lemma watermark_eq_or (L : ℤ) (refs : List FrameRef) :
    watermark L refs = L ∨ ∃ ref ∈ refs, watermark L refs = ref.frameId := by
  induction refs generalizing L with
  | nil => exact .inl rfl
  | cons ref refs ih =>
    rcases ih (max L ref.frameId) with h | ⟨ref', hr, h⟩
    · rcases max_choice L ref.frameId with hmax | hmax
      · exact .inl (h.trans hmax)
      · exact .inr ⟨ref, List.mem_cons_self, h.trans hmax⟩
    · exact .inr ⟨ref', List.mem_cons_of_mem _ hr, h⟩

/-- What happened to the counters is what a part of the history says. -/
structure Counts (s s' : RunState) (out : List Output) : Prop where
  confirmed : s'.framesConfirmed = s.framesConfirmed + (confirmedRefs out).length
  thisRun : s'.framesConfirmedThisRun = s.framesConfirmedThisRun + (confirmedRefs out).length
  failed : s'.framesFailed = s.framesFailed + (undecoded out).length
  last : s'.lastSourceIndex = watermark s.lastSourceIndex (confirmedRefs out)
  error : s'.error = (s.error <|> (raisedCalls out).head?)

lemma Counts.refl (s : RunState) : Counts s s [] :=
  ⟨rfl, rfl, rfl, rfl, by cases s.error <;> rfl⟩

lemma Counts.append {s s' s'' : RunState} (hc : Counts s s' h) (hc' : Counts s' s'' out) :
    Counts s s'' (h ++ out) := by
  refine ⟨?_, ?_, ?_, ?_, ?_⟩
  · rw [hc'.confirmed, hc.confirmed, confirmedRefs_append, List.length_append, add_assoc]
  · rw [hc'.thisRun, hc.thisRun, confirmedRefs_append, List.length_append, add_assoc]
  · rw [hc'.failed, hc.failed, undecoded_append, List.length_append, add_assoc]
  · rw [hc'.last, hc.last, confirmedRefs_append, watermark_append]
  · rw [hc'.error, hc.error, raisedCalls_append, List.head?_append]
    cases s.error <;> cases (raisedCalls h).head? <;> rfl

/-- A step that does not touch the state and says nothing about it. -/
lemma Counts.quiet {s : RunState} (hc : confirmedRefs out = []) (hu : undecoded out = [])
    (hr : raisedCalls out = []) : Counts s s out := by
  refine ⟨?_, ?_, ?_, ?_, ?_⟩
  · rw [hc, List.length_nil, add_zero]
  · rw [hc, List.length_nil, add_zero]
  · rw [hu, List.length_nil, add_zero]
  · rw [hc]
    rfl
  · rw [hr]
    cases s.error <;> rfl

lemma Counts.confirmed_step (s : RunState) (f : SampledFrame) (now : ℚ) (every : ℕ)
    (hc : confirmedRefs out = [cfg.frameRef f now]) (hu : undecoded out = [])
    (hr : raisedCalls out = []) :
    Counts s ((s.recordConfirmed f).takeCheckpointDue every).2 out := by
  have hp := (s.recordConfirmed f).takeCheckpointDue_progress every
  simp only [RunState.progress, Checkpoint.mk.injEq] at hp
  refine ⟨?_, ?_, ?_, ?_, ?_⟩
  · rw [hp.1, hc]
    rfl
  · rw [RunState.takeCheckpointDue_thisRun, hc]
    rfl
  · rw [hp.2.1, hu]
    rfl
  · rw [hp.2.2, hc]
    rfl
  · rw [RunState.takeCheckpointDue_error, RunState.recordConfirmed_error, hr]
    cases s.error <;> rfl

lemma Counts.raised_step (s : RunState) (exc : String) (hc : confirmedRefs out = [])
    (hu : undecoded out = []) (hr : raisedCalls out = [exc]) :
    Counts s (s.recordError exc) out := by
  have hp := s.recordError_progress exc
  simp only [RunState.progress, Checkpoint.mk.injEq] at hp
  refine ⟨?_, ?_, ?_, ?_, ?_⟩
  · rw [hp.1, hc]
    rfl
  · rw [RunState.recordError_thisRun, hc]
    rfl
  · rw [hp.2.1, hu]
    rfl
  · rw [hp.2.2, hc]
    rfl
  · rw [hr, RunState.recordError]
    cases h : s.error with
    | none => rw [if_pos rfl]; rfl
    | some exc' => rw [if_neg (Option.some_ne_none exc'), h]; rfl

lemma Rule.counts (hr : Rule cfg p e p' out) (hl : ∀ w, (p.workers w).Labelled cfg) :
    Counts p.state p'.state out := by
  cases hr with
  | failure f ht =>
    refine ⟨rfl, rfl, rfl, rfl, ?_⟩
    show p.state.error = (p.state.error <|> none)
    cases p.state.error <;> rfl
  | worker w op p' out hw hr =>
    cases hr with
    | confirmed f ref hw | snapshot f ref hw =>
      have hlw := hl w
      rw [hw] at hlw
      obtain ⟨now, rfl⟩ := hlw
      exact .confirmed_step _ f now _ rfl rfl rfl
    | gaveUp f exc hw => exact .raised_step _ exc rfl rfl rfl
    | checkpointRaised exc hw => exact .raised_step _ exc rfl rfl rfl
    | stop | drain | take | stored | published | checkpointWritten | checkpointReturned =>
      exact .quiet rfl rfl rfl
  | _ => exact .quiet rfl rfl rfl

/-! ### The stop sentinels -/

/-- The sentinels are put after the decode thread is over, so no frame is behind one. -/
structure Stops (cfg : Dispatch) (p : Pipeline) : Prop where
  awaiting : p.main = .awaiting → none ∉ p.queue ∧ ∀ w, p.workers w ≠ .done
  stopping : p.main ≠ .awaiting → p.thread.isOver = true
  sorted : p.queue.Pairwise fun a b => a = none → b = none
  done : ∀ w, p.workers w = .done → p.queue.filterMap id = []
  finished : p.main = .finished → ∀ w < cfg.settings.analyzerPublishers, p.workers w = .done

lemma Stops.start {sampler : FrameSampler} {prior : Option JobRecord} :
    Stops cfg (start cfg sampler prior) := by
  refine ⟨?_, ?_, .nil, ?_, ?_⟩
  · intro _
    exact ⟨List.not_mem_nil, fun _ h => (by cases h)⟩
  · intro h
    exact absurd rfl h
  · intro _ h
    cases h
  · intro h
    cases h

/-- While the thread runs, its awaiting task waits. -/
lemma Stops.main_eq (hs : Stops cfg p) (ht : p.thread.isOver = false) : p.main = .awaiting := by
  by_contra hm
  rw [hs.stopping hm] at ht
  cases ht

/-- A step of the decode thread that leaves the queue and the tasks alone. -/
lemma Stops.thread_step (hs : Stops cfg p) (ht : p.thread.isOver = false)
    (hmain : p'.main = p.main) (hqueue : p'.queue = p.queue) (hworkers : p'.workers = p.workers) :
    Stops cfg p' := by
  have hm := hs.main_eq ht
  refine ⟨?_, ?_, ?_, ?_, ?_⟩
  · rw [hmain, hqueue, hworkers]
    exact hs.awaiting
  · intro h
    exact absurd (hmain.trans hm) h
  · rw [hqueue]
    exact hs.sorted
  · rw [hworkers, hqueue]
    exact hs.done
  · intro h
    rw [hmain, hm] at h
    cases h

/-- A task goes on with something that is no end, and the queue is as before or loses its head. -/
lemma Stops.worker_step (hs : Stops cfg p) (hthread : p'.thread = p.thread)
    (hmain : p'.main = p.main) (hqueue : p'.queue <:+ p.queue) (hw : p.workers w ≠ .done)
    {t : PublishWorker} (ht : t ≠ .done) (hworkers : p'.workers = Function.update p.workers w t)
    (hlt : w < cfg.settings.analyzerPublishers) : Stops cfg p' := by
  have hold : ∀ w', p'.workers w' = .done → p.workers w' = .done := by
    intro w' h
    rw [hworkers] at h
    by_cases hww : w' = w
    · subst hww
      rw [Function.update_self] at h
      exact absurd h ht
    · rwa [Function.update_of_ne hww] at h
  refine ⟨?_, ?_, ?_, ?_, ?_⟩
  · intro h
    obtain ⟨hq, hnd⟩ := hs.awaiting (hmain ▸ h)
    exact ⟨fun hmem => hq (hqueue.subset hmem), fun w' h' => hnd w' (hold w' h')⟩
  · rw [hmain, hthread]
    exact hs.stopping
  · exact hs.sorted.sublist hqueue.sublist
  · intro w' h
    have hnil := hs.done w' (hold w' h)
    exact List.sublist_nil.mp (hnil ▸ hqueue.sublist.filterMap id)
  · intro h
    exact absurd (hs.finished (hmain ▸ h) w hlt) hw

lemma Stops.step (hs : Stops cfg p) (hr : Rule cfg p e p' out) : Stops cfg p' := by
  cases hr with
  | aborted ht | exhausted ht | skip d ht | keep it d ht | failure f ht | frame f ht | look ht
  | sourceRaised exc ht => exact hs.thread_step (by rw [ht]; rfl) rfl rfl rfl
  | enqueue f ht hq =>
    have hm := hs.main_eq (by rw [ht]; rfl)
    obtain ⟨hnone, hnd⟩ := hs.awaiting hm
    refine ⟨fun _ => ⟨?_, hnd⟩, fun h => absurd hm h, ?_, fun w h => absurd h (hnd w), ?_⟩
    · simpa using hnone
    · rw [List.pairwise_append]
      refine ⟨hs.sorted, by simp, ?_⟩
      rintro a ha b - rfl
      exact absurd ha hnone
    · intro h
      rw [show p.main = .finished from h] at hm
      cases hm
  | disconnect hm => exact ⟨hs.awaiting, hs.stopping, hs.sorted, hs.done, hs.finished⟩
  | decodeDone hm ht =>
    refine ⟨fun h => ?_, fun _ => ht, hs.sorted, hs.done, fun h => ?_⟩
    · cases h
    · cases h
  | putStop n hm hq =>
    have hover := hs.stopping (by rw [hm]; simp)
    refine ⟨fun h => ?_, fun _ => hover, ?_, ?_, fun h => ?_⟩
    · cases h
    · rw [List.pairwise_append]
      refine ⟨hs.sorted, by simp, ?_⟩
      intro a _ b hb _
      rwa [List.mem_singleton] at hb
    · intro w hw
      simpa using hs.done w hw
    · cases h
  | gathered hm hw =>
    have hover := hs.stopping (by rw [hm]; simp)
    refine ⟨fun h => ?_, fun _ => hover, hs.sorted, hs.done, fun _ => hw⟩
    cases h
  | worker w op p' out hlt hr =>
    cases hr with
    | stop q hw hq =>
      have hm : p.main ≠ .awaiting := by
        intro hm
        apply (hs.awaiting hm).1
        rw [hq]
        exact List.mem_cons_self
      have hsorted := hs.sorted
      rw [hq, List.pairwise_cons] at hsorted
      have hnil : q.filterMap id = [] := by
        rw [List.filterMap_eq_nil_iff]
        intro a ha
        exact hsorted.1 a ha rfl
      refine ⟨fun h => absurd h hm, hs.stopping, hsorted.2, fun _ _ => hnil, ?_⟩
      intro h w' hw'
      show Function.update p.workers w .done w' = .done
      by_cases hww : w' = w
      · subst hww
        exact Function.update_self _ _ _
      · rw [Function.update_of_ne hww]
        exact hs.finished h w' hw'
    | drain f q hw hq =>
      have hself : p.workers = Function.update p.workers w .getting := by
        rw [← hw, Function.update_eq_self]
      exact hs.worker_step rfl rfl (hq ▸ List.suffix_cons _ q) (by rw [hw]; simp) (by simp) hself
        hlt
    | take f q hw hq =>
      exact hs.worker_step rfl rfl (hq ▸ List.suffix_cons _ q) (by rw [hw]; simp) (by simp) rfl hlt
    | stored f now hw | published f ref hw | confirmed f ref hw | snapshot f ref hw
    | checkpointWritten c hw | checkpointReturned hw =>
      exact hs.worker_step rfl rfl (List.suffix_refl _) (by rw [hw]; simp) (by simp) rfl hlt
    | gaveUp f exc hw | checkpointRaised exc hw =>
      refine hs.worker_step rfl rfl (List.suffix_refl _) ?_ (by simp) rfl hlt
      intro h
      rw [h] at hw
      cases hw

/-! ### The whole account -/

/-- What holds along a run that started with a decoder and a run state. -/
structure Flow (cfg : Dispatch) (d₀ : Decoder) (s₀ : RunState) (p : Pipeline) (h : List Output) :
    Prop where
  labelled : ∀ w, (p.workers w).Labelled cfg
  line : taken h ++ p.line cfg = d₀.frames cfg.source
  uncounted : undecoded h ++ p.uncounted cfg = d₀.failures cfg.source
  taken : taken h = dispatched h ++ discarded h
  discarded : discarded h ≠ [] → p.state.error ≠ none
  balance : ∀ i : ℤ, p.inFlight cfg i + (confirmedRefs h).countP (fun ref => ref.frameId = i) +
    (abandoned h).countP (fun f => f.frameId = i) =
      (dispatched h).countP fun f => f.frameId = i
  published : abandoned h = [] → ∀ i : ℤ,
    p.withheld cfg i + (publishedRefs h).countP (fun ref => ref.frameId = i) =
      (dispatched h).countP fun f => f.frameId = i
  counts : Counts s₀ p.state h
  abort_of_error : p.state.error ≠ none → p.abort = true
  error_of_abort : p.abort = true → p.state.error ≠ none ∨ .disconnected ∈ h
  errors : sourceErrors h = p.thread.errors
  ended : p.thread = .ended → p.abort = true ∨ p.decoder.items cfg.source = []
  stops : Stops cfg p

lemma Flow.start {sampler : FrameSampler} {prior : Option JobRecord} :
    Flow cfg (.start cfg.source sampler) (.initial prior) (start cfg sampler prior) [] := by
  have hzero : ∀ (φ : PublishWorker → ℕ), φ .getting = 0 →
      ∑ w ∈ Finset.range cfg.settings.analyzerPublishers,
        φ ((Pipeline.start cfg sampler prior).workers w) = 0 :=
    fun φ hφ => Finset.sum_eq_zero fun _ _ => hφ
  have herr : (RunState.initial prior).error = none := by cases prior <;> rfl
  refine ⟨fun _ => trivial, rfl, rfl, rfl, ?_, ?_, ?_, .refl _, ?_, ?_, rfl, ?_, .start⟩
  · intro h
    exact absurd rfl h
  · intro i
    exact hzero (PublishWorker.holds i) rfl
  · intro _ i
    exact hzero (PublishWorker.withholds i) rfl
  · intro h
    exact absurd herr h
  · intro h
    cases h
  · intro h
    cases h

/-- Once a call has raised nothing more is dispatched. -/
lemma Rule.taken_eq (hr : Rule cfg p e p' out) (hd : Pipeline.taken h = dispatched h ++ discarded h)
    (herr : discarded h ≠ [] → p.state.error ≠ none) :
    Pipeline.taken (h ++ out) = dispatched (h ++ out) ++ discarded (h ++ out) := by
  rw [taken_append, dispatched_append, discarded_append, hd]
  cases hr with
  | worker w op p' out hw hr =>
    cases hr with
    | drain f q hw hq he => simp [Pipeline.taken, dispatched, discarded, List.filterMap_cons]
    | take f q hw hq he =>
      have hnone : discarded h = [] := by
        by_contra hne
        exact herr hne he
      rw [hnone]
      simp [Pipeline.taken, dispatched, discarded, List.filterMap_cons]
    | _ => simp [Pipeline.taken, dispatched, discarded, List.filterMap_cons]
  | _ => simp [Pipeline.taken, dispatched, discarded, List.filterMap_cons]

/-- An error stays. -/
lemma Rule.error_ne (hr : Rule cfg p e p' out) (hl : ∀ w, (p.workers w).Labelled cfg)
    (h : p.state.error ≠ none) : p'.state.error ≠ none := by
  rw [(hr.counts hl).error]
  cases herr : p.state.error with
  | none => exact absurd herr h
  | some exc => exact Option.some_ne_none exc

lemma Rule.discarded_error (hr : Rule cfg p e p' out) (hd : discarded out ≠ []) :
    p.state.error ≠ none := by
  cases hr with
  | worker w op p' out hw hr =>
    cases hr with
    | drain f q hw hq he => exact he
    | _ => exact absurd rfl hd
  | _ => exact absurd rfl hd

/-- The abort flag is set by an error and by a client that is gone, and by nothing else. -/
lemma Rule.abort_cases (hr : Rule cfg p e p' out) :
    (p'.abort = p.abort ∧ p'.state.error = p.state.error) ∨
    (p'.abort = true ∧ p'.state.error ≠ none) ∨
    (p'.abort = true ∧ p'.state.error = p.state.error ∧ .disconnected ∈ out) := by
  cases hr with
  | disconnect hm => exact .inr (.inr ⟨rfl, rfl, List.mem_singleton_self _⟩)
  | worker w op p' out hw hr =>
    cases hr with
    | gaveUp f exc hw | checkpointRaised exc hw =>
      exact .inr (.inl ⟨rfl, RunState.recordError_error_ne _ _⟩)
    | confirmed | snapshot => exact .inl ⟨rfl, by simp⟩
    | stop | drain | take | stored | published | checkpointWritten | checkpointReturned =>
      exact .inl ⟨rfl, rfl⟩
  | _ => exact .inl ⟨rfl, rfl⟩

lemma Rule.errors_eq (hr : Rule cfg p e p' out) (hs : sourceErrors h = p.thread.errors) :
    sourceErrors (h ++ out) = p'.thread.errors := by
  rw [sourceErrors_append, hs]
  cases hr with
  | look ht =>
    rw [ht]
    cases p.abort <;> rfl
  | worker w op p' out hw hr => cases hr <;> simp [sourceErrors, List.filterMap_cons]
  | aborted ht | exhausted ht | skip d ht | keep it d ht | failure f ht | frame f ht | enqueue f ht
  | sourceRaised exc ht => simp [sourceErrors, ht, Thread.errors, List.filterMap_cons]
  | _ => simp [sourceErrors, List.filterMap_cons]

/-- The thread ends at the end of the stream or because the abort flag is set. -/
lemma Rule.ended_eq (hr : Rule cfg p e p' out)
    (he : p.thread = .ended → p.abort = true ∨ p.decoder.items cfg.source = []) :
    p'.thread = .ended → p'.abort = true ∨ p'.decoder.items cfg.source = [] := by
  intro h
  cases hr with
  | aborted ht ha => exact .inl ha
  | exhausted ht ha hg => exact .inr (Decoder.items_of_grab_none hg)
  | skip d ht =>
    rw [ht] at h
    cases h
  | look ht =>
    left
    by_contra ha
    simp [ha] at h
  | disconnect hm => exact .inl rfl
  | worker w op p' out hw hr =>
    cases hr with
    | gaveUp | checkpointRaised => exact .inl rfl
    | _ => exact he h
  | keep | failure | frame | enqueue | sourceRaised => cases h
  | decodeDone | putStop | gathered => exact he h

theorem Flow.step (hf : Flow cfg d₀ s₀ p h) (hr : Rule cfg p e p' out) :
    Flow cfg d₀ s₀ p' (h ++ out) := by
  have hcounts := hr.counts hf.labelled
  refine ⟨hr.labelled hf.labelled, ?_, ?_, hr.taken_eq hf.taken hf.discarded, ?_, ?_, ?_,
    hf.counts.append hcounts, ?_, ?_, hr.errors_eq hf.errors, hr.ended_eq hf.ended,
    hf.stops.step hr⟩
  · rw [taken_append, List.append_assoc, hr.line_eq]
    exact hf.line
  · rw [undecoded_append, List.append_assoc, hr.uncounted_eq]
    exact hf.uncounted
  · intro hd
    by_cases hold : Pipeline.discarded h = []
    · apply hr.error_ne hf.labelled
      apply hr.discarded_error
      intro hout
      apply hd
      rw [discarded_append, hold, hout]
      rfl
    · exact hr.error_ne hf.labelled (hf.discarded hold)
  · intro i
    have hstep := hr.balance hf.labelled i
    have hbal := hf.balance i
    rw [confirmedRefs_append, abandoned_append, dispatched_append, List.countP_append,
      List.countP_append, List.countP_append]
    omega
  · intro hab i
    rw [abandoned_append, List.append_eq_nil_iff] at hab
    have hstep := hr.publish_balance hf.labelled hab.2 i
    have hbal := hf.published hab.1 i
    rw [publishedRefs_append, dispatched_append, List.countP_append, List.countP_append]
    omega
  · intro herr
    rcases hr.abort_cases with ⟨ha, he⟩ | ⟨ha, -⟩ | ⟨ha, -⟩
    · rw [ha]
      exact hf.abort_of_error (he ▸ herr)
    · exact ha
    · exact ha
  · intro hab
    rcases hr.abort_cases with ⟨ha, he⟩ | ⟨-, he⟩ | ⟨-, -, hdis⟩
    · rw [he]
      exact (hf.error_of_abort (ha ▸ hab)).imp_right (List.mem_append_left _)
    · exact .inl he
    · exact .inr (List.mem_append_right _ hdis)

theorem Flow.of_reach {ok : Pipeline → List Output → Event → Prop} {sampler : FrameSampler}
    {prior : Option JobRecord}
    (hr : (machine cfg).Reach ok (.start cfg sampler prior) p h) :
    Flow cfg (.start cfg.source sampler) (.initial prior) p h :=
  hr.invariant .start fun _ _ _ _ _ _ hf _ hs => hf.step (.of_step hs)

/-! ### A run that has finished -/

/-- Lists of references and of frames are about the same frames when every frame is counted as
often in both. -/
lemma perm_of_countP {refs : List FrameRef} {fs : List SampledFrame}
    (hc : ∀ i : ℤ, refs.countP (fun ref => ref.frameId = i) = fs.countP fun f => f.frameId = i) :
    (refs.map FrameRef.frameId).Perm (fs.map SampledFrame.frameId) := by
  rw [List.perm_iff_count]
  intro i
  simp only [List.count_eq_countP, List.countP_map]
  exact hc i

namespace Flow

variable (hf : Flow cfg d₀ s₀ p h)
include hf

lemma inFlight_eq_zero (hfin : p.main = .finished) (i : ℤ) : p.inFlight cfg i = 0 := by
  apply Finset.sum_eq_zero
  intro w hw
  rw [hf.stops.finished hfin w (Finset.mem_range.mp hw)]
  rfl

lemma withheld_eq_zero (hfin : p.main = .finished) (i : ℤ) : p.withheld cfg i = 0 := by
  apply Finset.sum_eq_zero
  intro w hw
  rw [hf.stops.finished hfin w (Finset.mem_range.mp hw)]
  rfl

/-- What is left in the line is what the generator has not yielded. -/
lemma line_of_finished (hfin : p.main = .finished) :
    p.line cfg = p.decoder.frames cfg.source ∧ p.uncounted cfg = p.decoder.failures cfg.source := by
  have hover := hf.stops.stopping (by rw [hfin]; simp)
  have hqueue := hf.stops.done 0 (hf.stops.finished hfin 0 cfg.settings.publishers_pos)
  rw [Pipeline.line, Pipeline.uncounted, hqueue]
  cases ht : p.thread <;> rw [ht] at hover <;> first | exact ⟨rfl, rfl⟩ | cases hover

lemma abandoned_eq_nil (herr : p.state.error = none) : abandoned h = [] := by
  have hcalls := hf.counts.error
  rw [herr] at hcalls
  have hnil : raisedCalls h = [] := by
    cases hs : s₀.error with
    | some exc =>
      rw [hs] at hcalls
      cases hcalls
    | none =>
      rw [hs] at hcalls
      exact List.head?_eq_none_iff.mp hcalls.symm
  rw [raisedCalls, List.filterMap_eq_nil_iff] at hnil
  rw [abandoned, List.filterMap_eq_nil_iff]
  intro o ho
  have hno := hnil o ho
  cases o <;> first | rfl | cases hno

/-- At the end of the stream every failure has been counted. -/
theorem undecoded_eq (hfin : p.main = .finished) (hend : p.decoder.items cfg.source = []) :
    undecoded h = d₀.failures cfg.source := by
  have huncounted := hf.uncounted
  rw [(hf.line_of_finished hfin).2, Decoder.failures, hend] at huncounted
  simpa using huncounted

/-- At the end of the stream every frame has been dispatched, unless a call has raised. -/
theorem dispatched_eq (hfin : p.main = .finished) (hend : p.decoder.items cfg.source = [])
    (herr : p.state.error = none) : dispatched h = d₀.frames cfg.source := by
  have hline := hf.line
  rw [(hf.line_of_finished hfin).1, Decoder.frames, hend, hf.taken] at hline
  have hnone : Pipeline.discarded h = [] := by
    by_contra hne
    exact hf.discarded hne herr
  rw [hnone] at hline
  simpa using hline

/-- Without an error every dispatched frame has been confirmed. -/
theorem confirmed_perm (hfin : p.main = .finished) (herr : p.state.error = none) :
    ((confirmedRefs h).map FrameRef.frameId).Perm ((dispatched h).map SampledFrame.frameId) := by
  apply perm_of_countP
  intro i
  have hbal := hf.balance i
  rw [hf.inFlight_eq_zero hfin, hf.abandoned_eq_nil herr, List.countP_nil] at hbal
  omega

/-- Without an error every dispatched frame has been published. -/
theorem published_perm (hfin : p.main = .finished) (herr : p.state.error = none) :
    ((publishedRefs h).map FrameRef.frameId).Perm ((dispatched h).map SampledFrame.frameId) := by
  apply perm_of_countP
  intro i
  have hbal := hf.published (hf.abandoned_eq_nil herr) i
  rw [hf.withheld_eq_zero hfin] at hbal
  omega

end Flow

end Pipeline

end VideoPipeline
