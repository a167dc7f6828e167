import VideoPipeline.Analyzer.Flow

/-!
# The pipeline of any source

The queue is bounded, the decode thread blocks on it, and the stop sentinels go through it. Whatever
sequence of items a source yields, the frames between the source and the broker are bounded, some
step is always possible until `run` exits, and every run ends.
-/

namespace VideoPipeline

/-! ### What is left to do -/

namespace PublishWorker

/-- How many steps a task is away from its next `get`. -/
def load : PublishWorker → ℕ
  | .getting | .done   => 0
  | .checkpointed      => 1
  | .checkpointing _   => 2
  | .confirming _ _    => 3
  | .publishing _ _    => 4
  | .storing _         => 5

/-- How many stop sentinels a task has consumed. -/
def stopCount : PublishWorker → ℕ
  | .done => 1
  | _     => 0

lemma stopCount_le_one (t : PublishWorker) : t.stopCount ≤ 1 := by
  cases t <;> simp [stopCount]

lemma stopCount_eq_one {t : PublishWorker} : t.stopCount = 1 ↔ t = .done := by
  cases t <;> simp [stopCount]

lemma stopCount_of_ne {t : PublishWorker} (h : t ≠ .done) : t.stopCount = 0 := by
  cases t <;> first | rfl | exact absurd rfl h

lemma load_pos_of_holding {t : PublishWorker} {f : SampledFrame} (h : t.holding = [f]) :
    0 < t.load ∧ t ≠ .done := by
  cases t with
  | storing | publishing | confirming => exact ⟨by simp [load], by simp⟩
  | _ => cases h

lemma load_pos_of_inCheckpoint {t : PublishWorker} (h : t.inCheckpoint = true) :
    0 < t.load ∧ t ≠ .done ∧ t.holding = [] := by
  cases t with
  | checkpointing | checkpointed => exact ⟨by simp [load], by simp, rfl⟩
  | _ => cases h

lemma length_holding_le (t : PublishWorker) : t.holding.length ≤ 1 := by
  cases t <;> simp [holding]

end PublishWorker

/-- What the thread does with an item at most: it looks at it, puts it and looks at the flag. -/
def Thread.load : Thread → ℕ
  | .looking           => 1
  | .yielding _        => 10
  | .putting _         => 9
  | .put               => 2
  | .ended | .raised _ => 0

lemma Thread.length_frames_le (t : Thread) : t.frames.length ≤ 1 := by
  cases t with
  | yielding it => cases it <;> simp [Thread.frames, Item.frame?]
  | _ => simp [Thread.frames]

namespace Main

/-- How many sentinels are still to be put, of as many as there are tasks. -/
def left (n : ℕ) : Main → ℕ
  | .awaiting   => n
  | .stopping k => k
  | .finished   => 0

def load (n : ℕ) : Main → ℕ
  | .awaiting   => 2 * n + 2
  | .stopping k => 2 * k + 1
  | .finished   => 0

end Main

namespace Pipeline

variable {cfg : Dispatch} {p p' : Pipeline} {e : Event} {out h : List Output} {w : ℕ}
  {op : PublishWorker.Op}

/-- What taking an item from the queue leads to at most. -/
def itemLoad : Option SampledFrame → ℕ
  | some _ => 6
  | none   => 1

/-- What is left to do with what the source has yielded. -/
def load (cfg : Dispatch) (p : Pipeline) : ℕ :=
  p.thread.load + (p.queue.map itemLoad).sum +
    ∑ w ∈ Finset.range cfg.settings.analyzerPublishers, (p.workers w).load +
    p.main.load cfg.settings.analyzerPublishers

/-- How many frames are between the source and the broker. -/
def inTransit (cfg : Dispatch) (p : Pipeline) : ℕ :=
  p.thread.frames.length + (p.queue.filterMap id).length +
    ∑ w ∈ Finset.range cfg.settings.analyzerPublishers, (p.workers w).holding.length

/-- Where the stop sentinels are. -/
def sentinels (cfg : Dispatch) (p : Pipeline) : ℕ :=
  p.queue.count none + ∑ w ∈ Finset.range cfg.settings.analyzerPublishers, (p.workers w).stopCount +
    p.main.left cfg.settings.analyzerPublishers

lemma WorkerRule.frame (hr : WorkerRule cfg p w op p' out) :
    p'.thread = p.thread ∧ p'.main = p.main := by
  cases hr <;> exact ⟨rfl, rfl⟩

lemma WorkerRule.load_lt (hr : WorkerRule cfg p w op p' out) :
    (p'.queue.map itemLoad).sum + (p'.workers w).load <
      (p.queue.map itemLoad).sum + (p.workers w).load := by
  cases hr with
  | gaveUp f exc hw =>
    simp only [Function.update_self]
    exact Nat.add_lt_add_left (PublishWorker.load_pos_of_holding hw).1 _
  | checkpointRaised exc hw =>
    simp only [Function.update_self]
    exact Nat.add_lt_add_left (PublishWorker.load_pos_of_inCheckpoint hw).1 _
  | stop q hw hq | drain f q hw hq | take f q hw hq =>
    simp only [hq, hw, itemLoad, Function.update_self, PublishWorker.load, List.map_cons,
      List.sum_cons]
    omega
  | stored f now hw | published f ref hw | confirmed f ref hw | snapshot f ref hw
  | checkpointWritten c hw | checkpointReturned hw =>
    simp [hw, PublishWorker.load]

lemma WorkerRule.inTransit_eq (hr : WorkerRule cfg p w op p' out) :
    (p'.queue.filterMap id).length + (p'.workers w).holding.length + (confirmedRefs out).length +
      (discarded out).length + (abandoned out).length =
    (p.queue.filterMap id).length + (p.workers w).holding.length := by
  cases hr with
  | gaveUp f exc hw =>
    rw [hw]
    simp [confirmedRefs, discarded, abandoned, PublishWorker.holding, List.filterMap_cons]
  | checkpointRaised exc hw =>
    rw [(PublishWorker.load_pos_of_inCheckpoint hw).2.2]
    simp [confirmedRefs, discarded, abandoned, PublishWorker.holding, List.filterMap_cons]
  | stop q hw hq | drain f q hw hq | take f q hw hq =>
    simp [hq, hw, confirmedRefs, discarded, abandoned, PublishWorker.holding, List.filterMap_cons]
  | stored f now hw | published f ref hw | confirmed f ref hw | snapshot f ref hw
  | checkpointWritten c hw | checkpointReturned hw =>
    simp [hw, confirmedRefs, discarded, abandoned, PublishWorker.holding, List.filterMap_cons]

lemma WorkerRule.sentinels_eq (hr : WorkerRule cfg p w op p' out) :
    p'.queue.count none + (p'.workers w).stopCount =
      p.queue.count none + (p.workers w).stopCount := by
  cases hr with
  | gaveUp f exc hw =>
    rw [PublishWorker.stopCount_of_ne (PublishWorker.load_pos_of_holding hw).2]
    simp [PublishWorker.stopCount]
  | checkpointRaised exc hw =>
    rw [PublishWorker.stopCount_of_ne (PublishWorker.load_pos_of_inCheckpoint hw).2.1]
    simp [PublishWorker.stopCount]
  | stop q hw hq | drain f q hw hq | take f q hw hq =>
    simp [hq, hw, PublishWorker.stopCount]
  | stored f now hw | published f ref hw | confirmed f ref hw | snapshot f ref hw
  | checkpointWritten c hw | checkpointReturned hw =>
    simp [hw, PublishWorker.stopCount]

/-- Whatever is not the next item or the abort flag brings the end nearer. -/
lemma Rule.load_lt (hr : Rule cfg p e p' out) (hadv : e ≠ .advance) (hdis : e ≠ .disconnect) :
    p'.load cfg < p.load cfg := by
  cases hr with
  | aborted | exhausted | skip | keep => exact absurd rfl hadv
  | disconnect => exact absurd rfl hdis
  | failure f ht | frame f ht | sourceRaised exc ht => simp [load, ht, Thread.load]
  | enqueue f ht =>
    simp only [load, ht, Thread.load, List.map_append, List.sum_append, List.map_cons, List.map_nil,
      List.sum_cons, List.sum_nil, itemLoad]
    omega
  | look ht => cases hab : p.abort <;> simp [load, ht, Thread.load]
  | decodeDone hm | gathered hm => simp [load, hm, Main.load]
  | putStop n hm =>
    simp only [load, hm, Main.load, List.map_append, List.sum_append, List.map_cons, List.map_nil,
      List.sum_cons, List.sum_nil, itemLoad]
    omega
  | worker w op p' out hw hr =>
    have hlocal := hr.load_lt
    have hsum := Family.sum_of_ne PublishWorker.load hw fun w' hne => hr.others hne
    rw [load, load, hr.frame.1, hr.frame.2]
    omega

/-- A frame leaves when it is confirmed, drained or given up. -/
lemma Rule.inTransit_eq (hr : Rule cfg p e p' out) (hadv : e ≠ .advance) :
    p'.inTransit cfg + (confirmedRefs out).length + (discarded out).length +
      (abandoned out).length = p.inTransit cfg := by
  cases hr with
  | aborted | exhausted | skip | keep => exact absurd rfl hadv
  | failure f ht | frame f ht | sourceRaised exc ht =>
    simp [inTransit, ht, Thread.frames, Item.frame?, confirmedRefs, discarded, abandoned,
      List.filterMap_cons]
  | enqueue f ht =>
    simp only [inTransit, ht, Thread.frames, List.filterMap_append, List.length_append]
    simp [confirmedRefs, discarded, abandoned]
    omega
  | look ht =>
    cases hab : p.abort <;>
    simp [inTransit, ht, Thread.frames, confirmedRefs, discarded, abandoned]
  | disconnect | decodeDone | putStop | gathered =>
    simp [inTransit, confirmedRefs, discarded, abandoned, List.filterMap_cons]
  | worker w op p' out hw hr =>
    have hlocal := hr.inTransit_eq
    have hsum := Family.sum_of_ne (fun t => t.holding.length) hw fun w' hne => hr.others hne
    rw [inTransit, inTransit, hr.frame.1]
    omega

/-- No sentinel is lost and none is put twice. -/
lemma Rule.sentinels_eq (hr : Rule cfg p e p' out) : p'.sentinels cfg = p.sentinels cfg := by
  cases hr with
  | enqueue f ht => simp [sentinels, List.count_append]
  | decodeDone hm | gathered hm => simp [sentinels, hm, Main.left]
  | putStop n hm =>
    simp only [sentinels, hm, Main.left, List.count_append, List.count_singleton_self]
    omega
  | worker w op p' out hw hr =>
    have hlocal := hr.sentinels_eq
    have hsum := Family.sum_of_ne PublishWorker.stopCount hw fun w' hne => hr.others hne
    rw [sentinels, sentinels, hr.frame.2]
    omega
  | _ => rfl

lemma Rule.queue_le (hr : Rule cfg p e p' out)
    (hq : p.queue.length ≤ cfg.settings.analyzerQueueSize) :
    p'.queue.length ≤ cfg.settings.analyzerQueueSize := by
  cases hr with
  | enqueue f ht hlt | putStop n hm hlt =>
    rw [List.length_append, List.length_singleton]
    exact hlt
  | worker w op p' out hw hr =>
    cases hr with
    | stop q hw heq | drain f q hw heq | take f q hw heq =>
      rw [heq, List.length_cons] at hq
      exact Nat.le_of_succ_le hq
    | _ => exact hq
  | _ => exact hq

/-- The tasks that are no publishers of this run do nothing. -/
lemma Rule.outside (hr : Rule cfg p e p' out) (hw : cfg.settings.analyzerPublishers ≤ w) :
    p'.workers w = p.workers w := by
  rcases hr.workers_or with ⟨hsame, -⟩ | ⟨w', op, -, hlt, hr⟩
  · rw [hsame]
  · exact hr.others (by omega)

/-- A task that is neither waiting for an item nor at its end can go on. -/
lemma exists_workerStep (cfg : Dispatch) (hg : p.workers w ≠ .getting) (hd : p.workers w ≠ .done) :
    ∃ op, (p.workerStep cfg w op).isSome = true := by
  cases ht : p.workers w with
  | getting => exact absurd ht hg
  | done => exact absurd ht hd
  | storing f => exact ⟨.stored 0, by simp [workerStep, ht]⟩
  | publishing f ref => exact ⟨.published, by simp [workerStep, ht]⟩
  | confirming f ref =>
    refine ⟨.confirmed, ?_⟩
    simp only [workerStep, ht]
    split <;> rfl
  | checkpointing c => exact ⟨.checkpointWritten, by simp [workerStep, ht]⟩
  | checkpointed => exact ⟨.checkpointReturned, by simp [workerStep, ht]⟩

/-- A task that waits for an item can take one. -/
lemma exists_take (cfg : Dispatch) (hg : p.workers w = .getting) (hq : p.queue ≠ []) :
    ∃ op, (p.workerStep cfg w op).isSome = true := by
  refine ⟨.take, ?_⟩
  obtain ⟨it, q, hcons⟩ := List.exists_cons_of_ne_nil hq
  cases it with
  | none => simp [workerStep, hg, hcons]
  | some f => by_cases herr : p.state.error = none <;> simp [workerStep, hg, hcons, herr]

/-- While the queue is not empty, a task that is not at its end can go on. -/
lemma exists_worker (hw : w < cfg.settings.analyzerPublishers) (hd : p.workers w ≠ .done)
    (hq : p.workers w = .getting → p.queue ≠ []) :
    ∃ op, (p.step cfg (.worker w op)).isSome = true := by
  simp only [step, if_pos hw]
  by_cases hg : p.workers w = .getting
  · exact exists_take cfg hg (hq hg)
  · exact exists_workerStep cfg hg hd

/-- The producer is blocked by a queue that some task takes from. -/
lemma exists_worker_of_full (hw : w < cfg.settings.analyzerPublishers)
    (hd : p.workers w ≠ .done)
    (hfull : ¬ p.queue.length < cfg.settings.analyzerQueueSize) :
    ∃ op, (p.step cfg (.worker w op)).isSome = true := by
  refine exists_worker hw hd fun _ hnil => hfull ?_
  rw [hnil]
  exact cfg.settings.queueSize_pos

/-- A task that is not at its end has a sentinel to come. -/
lemma sum_stopCount_lt (hw : w < cfg.settings.analyzerPublishers) (hd : p.workers w ≠ .done) :
    ∑ w ∈ Finset.range cfg.settings.analyzerPublishers, (p.workers w).stopCount <
      cfg.settings.analyzerPublishers := by
  have hle : ∀ w' ∈ Finset.range cfg.settings.analyzerPublishers,
      (p.workers w').stopCount ≤ 1 :=
    fun w' _ => (p.workers w').stopCount_le_one
  have hlt : (p.workers w).stopCount < 1 := by
    rw [PublishWorker.stopCount_of_ne hd]
    exact Nat.one_pos
  have hsum := Finset.sum_lt_sum hle ⟨w, Finset.mem_range.mpr hw, hlt⟩
  simpa using hsum

/-- While fewer sentinels have been consumed than there are tasks, some task is not at its end. -/
lemma exists_not_done (hlt : ∑ w ∈ Finset.range cfg.settings.analyzerPublishers,
      (p.workers w).stopCount < cfg.settings.analyzerPublishers) :
    ∃ w < cfg.settings.analyzerPublishers, p.workers w ≠ .done := by
  by_contra hno
  push Not at hno
  have hsum : ∑ w ∈ Finset.range cfg.settings.analyzerPublishers, (p.workers w).stopCount =
      cfg.settings.analyzerPublishers := by
    rw [Finset.sum_congr rfl fun w hw =>
      PublishWorker.stopCount_eq_one.mpr (hno w (Finset.mem_range.mp hw))]
    simp
  omega

end Pipeline

/-! ### Any source -/

/-- A pipeline whose generator yields given items. The decoder of the pipeline is idle. -/
structure Stream where
  items : List Item
  pipeline : Pipeline

namespace Stream

def start (cfg : Dispatch) (sampler : FrameSampler) (prior : Option JobRecord)
    (items : List Item) : Stream :=
  ⟨items, .start cfg sampler prior⟩

inductive Event where
  /-- A step of the pipeline; its decode thread advances to the next of the given items. -/
  | own (e : Pipeline.Event)
  /-- The generator sees the abort flag and ends. -/
  | quit
  deriving DecidableEq, Repr

inductive Output where
  | yielded (it : Item)
  /-- A task consumes a stop sentinel. -/
  | stopped (w : ℕ)
  | out (o : Pipeline.Output)
  deriving DecidableEq, Repr

/-- The stop sentinel that a step of the pipeline consumes. -/
def sentinel (p : Pipeline) : Pipeline.Event → List Output
  | .worker w .take => if p.queue.head? = some none then [.stopped w] else []
  | _               => []

def step (cfg : Dispatch) (s : Stream) : Event → Option (Stream × List Output)
  | .quit =>
    if s.pipeline.thread = .looking ∧ s.pipeline.abort = true then
      some (⟨s.items, { s.pipeline with thread := .ended }⟩, [])
    else none
  | .own .advance =>
    match s.pipeline.thread, s.items with
    | .looking, []          => some (⟨[], { s.pipeline with thread := .ended }⟩, [])
    | .looking, it :: items =>
      some (⟨items, { s.pipeline with thread := .yielding it }⟩, [.yielded it])
    | _, _                  => none
  | .own e =>
    (s.pipeline.step cfg e).map fun r =>
      (⟨s.items, r.1⟩, sentinel s.pipeline e ++ r.2.map .out)

def machine (cfg : Dispatch) : Machine Stream Event Output := ⟨step cfg⟩

inductive Rule (cfg : Dispatch) (s : Stream) : Event → Stream → List Output → Prop where
  | quit (ht : s.pipeline.thread = .looking) (ha : s.pipeline.abort = true) :
      Rule cfg s .quit ⟨s.items, { s.pipeline with thread := .ended }⟩ []
  | exhausted (ht : s.pipeline.thread = .looking) (hi : s.items = []) :
      Rule cfg s (.own .advance) ⟨[], { s.pipeline with thread := .ended }⟩ []
  | yielded (it : Item) (items : List Item) (ht : s.pipeline.thread = .looking)
      (hi : s.items = it :: items) :
      Rule cfg s (.own .advance) ⟨items, { s.pipeline with thread := .yielding it }⟩
        [.yielded it]
  | own (e : Pipeline.Event) (p' : Pipeline) (out : List Pipeline.Output) (hadv : e ≠ .advance)
      (hr : Pipeline.Rule cfg s.pipeline e p' out) :
      Rule cfg s (.own e) ⟨s.items, p'⟩ (sentinel s.pipeline e ++ out.map .out)

variable {cfg : Dispatch} {s s' : Stream} {e : Event} {out h : List Output}

lemma step_own {e : Pipeline.Event} (hadv : e ≠ .advance) :
    s.step cfg (.own e) = (s.pipeline.step cfg e).map fun r =>
      (⟨s.items, r.1⟩, sentinel s.pipeline e ++ r.2.map .out) := by
  cases e with
  | advance => exact absurd rfl hadv
  | _ => rfl

lemma own_isSome {e : Pipeline.Event} (hadv : e ≠ .advance)
    (hs : (s.pipeline.step cfg e).isSome = true) : (s.step cfg (.own e)).isSome = true := by
  rw [step_own hadv, Option.isSome_map]
  exact hs

lemma Rule.of_step (hs : step cfg s e = some (s', out)) : Rule cfg s e s' out := by
  cases e with
  | quit =>
    simp only [step] at hs
    split at hs
    · next hg =>
      cases hs
      exact .quit hg.1 hg.2
    · cases hs
  | own e =>
    by_cases hadv : e = .advance
    · subst hadv
      simp only [step] at hs
      split at hs
      · next ht hi =>
        cases hs
        exact .exhausted ht hi
      · next it items ht hi =>
        cases hs
        exact .yielded it items ht hi
      · cases hs
    · rw [step_own hadv, Option.map_eq_some_iff] at hs
      obtain ⟨⟨p', out⟩, hp, heq⟩ := hs
      cases heq
      exact .own e p' out hadv (.of_step hp)

/-! ### What a history says -/

@[simp] def Output.frame? : Output → Option SampledFrame
  | .yielded it => it.frame?
  | _           => none

@[simp] def Output.out? : Output → Option Pipeline.Output
  | .out o => some o
  | _      => none

/-- The frames the source has decoded. -/
def decoded (h : List Output) : List SampledFrame := h.filterMap Output.frame?

/-- What the pipeline has put out. -/
def outputs (h : List Output) : List Pipeline.Output := h.filterMap Output.out?

@[simp] lemma decoded_append (h₁ h₂ : List Output) :
    decoded (h₁ ++ h₂) = decoded h₁ ++ decoded h₂ :=
  List.filterMap_append

@[simp] lemma outputs_append (h₁ h₂ : List Output) :
    outputs (h₁ ++ h₂) = outputs h₁ ++ outputs h₂ :=
  List.filterMap_append

@[simp] lemma decoded_map_out (out : List Pipeline.Output) : decoded (out.map .out) = [] := by
  simp [decoded, List.filterMap_eq_nil_iff]

@[simp] lemma outputs_map_out (out : List Pipeline.Output) : outputs (out.map .out) = out := by
  rw [outputs, List.filterMap_map]
  exact List.filterMap_some

lemma sentinel_eq (p : Pipeline) (e : Pipeline.Event) :
    sentinel p e = [] ∨ ∃ w, e = .worker w .take ∧ sentinel p e = [.stopped w] := by
  cases e with
  | worker w op =>
    cases op with
    | take =>
      by_cases hq : p.queue.head? = some none
      · exact .inr ⟨w, rfl, if_pos hq⟩
      · exact .inl (if_neg hq)
    | _ => exact .inl rfl
  | _ => exact .inl rfl

@[simp] lemma decoded_sentinel (p : Pipeline) (e : Pipeline.Event) :
    decoded (sentinel p e) = [] := by
  rcases sentinel_eq p e with h | ⟨w, -, h⟩ <;>
  · rw [h]
    rfl

@[simp] lemma outputs_sentinel (p : Pipeline) (e : Pipeline.Event) :
    outputs (sentinel p e) = [] := by
  rcases sentinel_eq p e with h | ⟨w, -, h⟩ <;>
  · rw [h]
    rfl

lemma count_sentinel_of_ne {p : Pipeline} {w w' : ℕ} (hne : w ≠ w') (op : PublishWorker.Op) :
    (sentinel p (.worker w' op)).count (.stopped w) = 0 := by
  rcases sentinel_eq p (.worker w' op) with hs | ⟨w'', hw, hs⟩
  · rw [hs, List.count_nil]
  · obtain ⟨rfl, -⟩ := Pipeline.Event.worker.inj hw
    rw [hs, List.count_singleton, if_neg]
    simpa using fun h => hne h.symm

/-- A task consumes a sentinel when it comes to its end. -/
lemma count_sentinel_self {p p' : Pipeline} {w : ℕ} {op : PublishWorker.Op}
    {out : List Pipeline.Output} (hr : p.WorkerRule cfg w op p' out) :
    (sentinel p (.worker w op)).count (.stopped w) + (p.workers w).stopCount =
      (p'.workers w).stopCount := by
  cases hr with
  | stop q hw hq => simp [sentinel, hq, hw, PublishWorker.stopCount]
  | drain f q hw hq | take f q hw hq => simp [sentinel, hq, hw, PublishWorker.stopCount]
  | gaveUp f exc hw =>
    rw [PublishWorker.stopCount_of_ne (PublishWorker.load_pos_of_holding hw).2]
    simp [sentinel, PublishWorker.stopCount]
  | checkpointRaised exc hw =>
    rw [PublishWorker.stopCount_of_ne (PublishWorker.load_pos_of_inCheckpoint hw).2.1]
    simp [sentinel, PublishWorker.stopCount]
  | stored f now hw | published f ref hw | confirmed f ref hw | snapshot f ref hw
  | checkpointWritten c hw | checkpointReturned hw =>
    simp [sentinel, hw, PublishWorker.stopCount]

/-- How many sentinels a task has consumed is what its state says. -/
lemma count_sentinel {p p' : Pipeline} {e : Pipeline.Event} {out : List Pipeline.Output}
    (hr : p.Rule cfg e p' out) (w : ℕ) :
    (sentinel p e ++ out.map Output.out).count (.stopped w) + (p.workers w).stopCount =
      (p'.workers w).stopCount := by
  have hout : (out.map Output.out).count (.stopped w) = 0 := by
    rw [List.count_eq_zero]
    intro hmem
    obtain ⟨o, -, ho⟩ := List.mem_map.mp hmem
    cases ho
  rw [List.count_append, hout, Nat.add_zero]
  cases hr with
  | worker w' op p' out hlt hr =>
    by_cases hne : w = w'
    · subst hne
      exact count_sentinel_self hr
    · rw [count_sentinel_of_ne hne, hr.others hne, Nat.zero_add]
  | _ => exact Nat.zero_add _

/-! ### Along a run -/

/-- Where the frames and the sentinels are. -/
structure Inv (cfg : Dispatch) (s : Stream) (h : List Output) : Prop where
  stops : s.pipeline.Stops cfg
  queue_le : s.pipeline.queue.length ≤ cfg.settings.analyzerQueueSize
  sentinels : s.pipeline.sentinels cfg = cfg.settings.analyzerPublishers
  stopped : ∀ w, h.count (.stopped w) = (s.pipeline.workers w).stopCount
  outside : ∀ w, cfg.settings.analyzerPublishers ≤ w → s.pipeline.workers w = .getting
  balance : (decoded h).length = s.pipeline.inTransit cfg +
    (Pipeline.confirmedRefs (outputs h)).length + (Pipeline.discarded (outputs h)).length +
      (Pipeline.abandoned (outputs h)).length

lemma Inv.start {sampler : FrameSampler} {prior : Option JobRecord} {items : List Item} :
    Inv cfg (start cfg sampler prior items) [] := by
  refine ⟨.start, Nat.zero_le _, ?_, fun _ => rfl, fun _ _ => rfl, ?_⟩
  · simp [Pipeline.sentinels, Stream.start, Pipeline.start, PublishWorker.stopCount, Main.left]
  · simp [Pipeline.inTransit, Stream.start, Pipeline.start, Thread.frames, PublishWorker.holding,
      decoded, outputs, Pipeline.confirmedRefs, Pipeline.discarded, Pipeline.abandoned]

/-- A step of the generator, with the frames that it yields. -/
lemma Inv.generator (hinv : Inv cfg s h) {items : List Item} {t : Thread}
    (ht : s.pipeline.thread = .looking) (hcount : ∀ w, out.count (.stopped w) = 0)
    (hout : outputs out = []) (hdec : (decoded out).length = t.frames.length) :
    Inv cfg ⟨items, { s.pipeline with thread := t }⟩ (h ++ out) := by
  refine ⟨hinv.stops.thread_step (by rw [ht]; rfl) rfl rfl rfl, hinv.queue_le, hinv.sentinels, ?_,
    hinv.outside, ?_⟩
  · intro w
    rw [List.count_append, hcount, hinv.stopped w]
    rfl
  · have hbal := hinv.balance
    rw [Pipeline.inTransit, ht] at hbal
    rw [decoded_append, outputs_append, hout, List.append_nil, List.length_append, hdec, hbal,
      Pipeline.inTransit]
    simp only [Thread.frames, List.length_nil]
    omega

theorem Inv.step (hinv : Inv cfg s h) (hr : Rule cfg s e s' out) : Inv cfg s' (h ++ out) := by
  cases hr with
  | quit ht | exhausted ht =>
    exact hinv.generator ht (fun _ => List.count_nil) rfl rfl
  | yielded it items ht =>
    refine hinv.generator ht (fun w => ?_) rfl ?_
    · simp
    · cases it <;> rfl
  | own e p' out hadv hr =>
    refine ⟨hinv.stops.step hr, hr.queue_le hinv.queue_le, ?_, ?_, ?_, ?_⟩
    · exact hr.sentinels_eq.trans hinv.sentinels
    · intro w
      have hcount := count_sentinel hr w
      rw [List.count_append, hinv.stopped w, Nat.add_comm]
      exact hcount
    · intro w hw
      exact (hr.outside hw).trans (hinv.outside w hw)
    · have hstep := hr.inTransit_eq hadv
      have hbal := hinv.balance
      simp only [decoded_append, decoded_sentinel, decoded_map_out, outputs_append,
        outputs_sentinel, outputs_map_out, List.append_nil, List.nil_append,
        Pipeline.confirmedRefs_append, Pipeline.discarded_append, Pipeline.abandoned_append,
        List.length_append]
      omega

theorem Inv.of_reach {ok : Stream → List Output → Event → Prop} {sampler : FrameSampler}
    {prior : Option JobRecord} {items : List Item}
    (hr : (machine cfg).Reach ok (Stream.start cfg sampler prior items) s h) : Inv cfg s h :=
  hr.invariant .start fun _ _ _ _ _ _ hinv _ hs => hinv.step (.of_step hs)

namespace Inv

variable (hinv : Inv cfg s h)
include hinv

/-- The thread holds one frame, the queue as many as it has places and every task one. -/
lemma inTransit_le : s.pipeline.inTransit cfg ≤
    cfg.settings.analyzerQueueSize + cfg.settings.analyzerPublishers + 1 := by
  have hthread := s.pipeline.thread.length_frames_le
  have hqueue : (s.pipeline.queue.filterMap id).length ≤ s.pipeline.queue.length :=
    List.length_filterMap_le _ _
  have htasks : ∑ w ∈ Finset.range cfg.settings.analyzerPublishers,
      (s.pipeline.workers w).holding.length ≤ cfg.settings.analyzerPublishers := by
    calc ∑ w ∈ Finset.range cfg.settings.analyzerPublishers,
        (s.pipeline.workers w).holding.length
        ≤ ∑ _w ∈ Finset.range cfg.settings.analyzerPublishers, 1 :=
          Finset.sum_le_sum fun w _ => (s.pipeline.workers w).length_holding_le
      _ = cfg.settings.analyzerPublishers := by simp
  have hle := hinv.queue_le
  rw [Pipeline.inTransit]
  omega

/-- While the decode thread is awaited, it can go on or a task can. -/
lemma exists_step_awaiting (hm : s.pipeline.main = .awaiting) :
    ∃ e, e ≠ .own .disconnect ∧ (s.step cfg e).isSome = true := by
  cases ht : s.pipeline.thread with
  | looking =>
    refine ⟨.own .advance, by simp, ?_⟩
    cases hi : s.items <;> simp [Stream.step, ht, hi]
  | yielding it =>
    refine ⟨.own .handle, by simp, own_isSome (by simp) ?_⟩
    cases it <;> simp [Pipeline.step, ht]
  | putting f =>
    by_cases hq : s.pipeline.queue.length < cfg.settings.analyzerQueueSize
    · refine ⟨.own .enqueue, by simp, own_isSome (by simp) ?_⟩
      simp [Pipeline.step, ht, hq]
    · obtain ⟨op, hop⟩ := Pipeline.exists_worker_of_full cfg.settings.publishers_pos
        ((hinv.stops.awaiting hm).2 0) hq
      exact ⟨.own (.worker 0 op), by simp, own_isSome (by simp) hop⟩
  | put =>
    refine ⟨.own .look, by simp, own_isSome (by simp) ?_⟩
    simp [Pipeline.step, ht]
  | ended | raised exc =>
    refine ⟨.own .decodeDone, by simp, own_isSome (by simp) ?_⟩
    simp [Pipeline.step, hm, ht, Thread.isOver]

/-- A pipeline that has not exited is not stuck. -/
theorem exists_step (hm : s.pipeline.main ≠ .finished) :
    ∃ e, e ≠ .own .disconnect ∧ (s.step cfg e).isSome = true := by
  have hsent := hinv.sentinels
  rw [Pipeline.sentinels] at hsent
  cases hmain : s.pipeline.main with
  | finished => exact absurd hmain hm
  | awaiting => exact hinv.exists_step_awaiting hmain
  | stopping n =>
    rw [hmain, Main.left] at hsent
    cases n with
    | succ n =>
      by_cases hq : s.pipeline.queue.length < cfg.settings.analyzerQueueSize
      · refine ⟨.own .putStop, by simp, own_isSome (by simp) ?_⟩
        simp [Pipeline.step, hmain, hq]
      · have hlt : ∑ w ∈ Finset.range cfg.settings.analyzerPublishers,
            (s.pipeline.workers w).stopCount < cfg.settings.analyzerPublishers := by
          omega
        obtain ⟨w, hw, hd⟩ := Pipeline.exists_not_done hlt
        obtain ⟨op, hop⟩ := Pipeline.exists_worker_of_full hw hd hq
        exact ⟨.own (.worker w op), by simp, own_isSome (by simp) hop⟩
    | zero =>
      by_cases hall : ∀ w < cfg.settings.analyzerPublishers, s.pipeline.workers w = .done
      · refine ⟨.own .gathered, by simp, own_isSome (by simp) ?_⟩
        simp only [Pipeline.step, hmain, if_pos hall]
        rfl
      · push Not at hall
        obtain ⟨w, hw, hd⟩ := hall
        -- a sentinel that no task has consumed is in the queue
        have hlt := Pipeline.sum_stopCount_lt hw hd
        have hmem : none ∈ s.pipeline.queue := List.count_pos_iff.mp (by omega)
        obtain ⟨op, hop⟩ := Pipeline.exists_worker hw hd fun _ => List.ne_nil_of_mem hmem
        exact ⟨.own (.worker w op), by simp, own_isSome (by simp) hop⟩

/-- At the exit nothing is left in the queue and every task has consumed its sentinel. -/
theorem of_finished (hm : s.pipeline.main = .finished) :
    s.pipeline.queue = [] ∧
      ∀ w, h.count (.stopped w) = if w < cfg.settings.analyzerPublishers then 1 else 0 := by
  have hdone := hinv.stops.finished hm
  constructor
  · have hframes := hinv.stops.done 0 (hdone 0 cfg.settings.publishers_pos)
    have hsent := hinv.sentinels
    rw [Pipeline.sentinels, Finset.sum_congr rfl fun w hw =>
      PublishWorker.stopCount_eq_one.mpr (hdone w (Finset.mem_range.mp hw))] at hsent
    simp only [Finset.sum_const, Finset.card_range, smul_eq_mul, Nat.mul_one] at hsent
    have hcount : s.pipeline.queue.count none = 0 := by omega
    rw [List.count_eq_zero] at hcount
    rw [List.eq_nil_iff_forall_not_mem]
    intro it hit
    cases it with
    | none => exact hcount hit
    | some f =>
      have hf : f ∈ s.pipeline.queue.filterMap id := List.mem_filterMap.mpr ⟨some f, hit, rfl⟩
      rw [hframes] at hf
      cases hf
  · intro w
    rw [hinv.stopped w]
    split
    · next hw => exact PublishWorker.stopCount_eq_one.mpr (hdone w hw)
    · next hw => exact PublishWorker.stopCount_of_ne (by simp [hinv.outside w (not_lt.mp hw)])

end Inv

/-! ### Every run ends -/

/-- What is left to do with the items that the source has and has yielded. -/
def load (cfg : Dispatch) (s : Stream) : ℕ := 10 * s.items.length + s.pipeline.load cfg

lemma Rule.load_le (hr : Rule cfg s e s' out) :
    s'.load cfg ≤ s.load cfg ∧ (e ≠ .own .disconnect → s'.load cfg < s.load cfg) := by
  cases hr with
  | quit ht => simp [load, Pipeline.load, ht, Thread.load]
  | exhausted ht hi => simp [load, Pipeline.load, ht, hi, Thread.load]
  | yielded it items ht hi =>
    simp only [load, Pipeline.load, ht, hi, Thread.load, List.length_cons]
    constructor
    · omega
    · intro _
      omega
  | own e p' out hadv hr =>
    by_cases hdis : e = .disconnect
    · subst hdis
      cases hr
      exact ⟨le_rfl, fun h => absurd rfl h⟩
    · have hlt : (⟨s.items, p'⟩ : Stream).load cfg < s.load cfg :=
        Nat.add_lt_add_left (hr.load_lt hadv hdis) _
      exact ⟨hlt.le, fun _ => hlt⟩

lemma load_start (cfg : Dispatch) (sampler : FrameSampler) (prior : Option JobRecord)
    (items : List Item) : (start cfg sampler prior items).load cfg =
      10 * items.length + 2 * cfg.settings.analyzerPublishers + 3 := by
  simp only [load, start, Pipeline.load, Pipeline.start, Thread.load, List.map_nil, List.sum_nil,
    PublishWorker.load, Main.load, Finset.sum_const_zero]
  omega

/-- Whatever a source yields, whatever raises and whenever the abort flag is set: `run` is not stuck
before it exits, it exits after finitely many steps, the frames that it has decoded and neither
confirmed nor dropped are bounded, and it leaves nothing in the queue. -/
theorem bounded (cfg : Dispatch) (sampler : FrameSampler) (prior : Option JobRecord)
    (items : List Item) :
    (∀ s h, (machine cfg).Reach Machine.anyStep (start cfg sampler prior items) s h →
      (s.pipeline.main ≠ .finished →
        ∃ e, e ≠ .own .disconnect ∧ (s.step cfg e).isSome = true) ∧
      (decoded h).length ≤ (Pipeline.confirmedRefs (outputs h)).length +
        ((Pipeline.discarded (outputs h)).length + (Pipeline.abandoned (outputs h)).length) +
        (cfg.settings.analyzerQueueSize + cfg.settings.analyzerPublishers + 1) ∧
      (s.pipeline.main = .finished → s.pipeline.queue = [] ∧
        ∀ w, h.count (.stopped w) = if w < cfg.settings.analyzerPublishers then 1 else 0)) ∧
    ∀ es s h, (machine cfg).exec Machine.anyStep (start cfg sampler prior items) [] es =
        some (s, h) →
      es.countP (fun e => e ≠ .own .disconnect) ≤
        10 * items.length + 2 * cfg.settings.analyzerPublishers + 3 := by
  constructor
  · intro s h hr
    have hinv := Inv.of_reach hr
    refine ⟨hinv.exists_step, ?_, hinv.of_finished⟩
    have hbal := hinv.balance
    have hle := hinv.inTransit_le
    omega
  · intro es s h he
    have hcount := Machine.countP_le_of_exec (I := fun _ _ => True) (m := load cfg)
      (q := fun e => decide (e ≠ .own .disconnect)) (fun _ _ _ _ _ _ _ => trivial)
      (fun _ _ _ _ _ _ hs hq => (Rule.of_step hs).load_le.2 (of_decide_eq_true hq))
      (fun _ _ _ _ _ _ hs => (Rule.of_step hs).load_le.1) trivial he
    rw [load_start] at hcount
    omega

/-- A source that yields a frame and a failure, with one place in the queue and one task. -/
theorem bounded_run : ∃ cfg sampler items s h,
    (machine cfg).Reach Machine.anyStep (start cfg sampler none items) s h ∧ items.length = 2 ∧
      s.pipeline.main = .finished ∧ s.pipeline.queue = [] ∧ h.count (.stopped 0) = 1 := by
  have hrun : ∃ s h, (machine ⟨{analyzerQueueSize := 1, analyzerPublishers := 1}, .clip [],
        "j", "v"⟩).Reach Machine.anyStep
      (start ⟨{analyzerQueueSize := 1, analyzerPublishers := 1}, .clip [], "j", "v"⟩
        (.startAt ⟨1, 1, 1, le_rfl⟩ 0) none
        [.frame ⟨0, 0, 0, [], 1, 1⟩, .failure ⟨1, "JPEG encoding failed"⟩]) s h ∧
      s.pipeline.main = .finished :=
    Machine.Reach.exists_of_exec
      [.own .advance, .own .handle, .own .enqueue, .own .look, .own .advance, .own .handle,
        .own (.worker 0 .take), .own (.worker 0 (.stored 0)), .own (.worker 0 .published),
        .own (.worker 0 .confirmed), .own .advance, .own .decodeDone, .own .putStop,
        .own (.worker 0 .take), .own .gathered]
      (by decide +kernel)
  obtain ⟨s, h, hr, hm⟩ := hrun
  obtain ⟨hqueue, hcount⟩ := ((bounded _ _ _ _).1 s h hr).2.2 hm
  exact ⟨_, _, _, s, h, hr, rfl, hm, hqueue, hcount 0⟩

end Stream

/-! ### The decoder of a video -/

namespace Pipeline

variable {cfg : Dispatch} {p p' : Pipeline} {e : Event} {out h : List Output}

lemma workerStep_decoder (d : Decoder) (w : ℕ) (op : PublishWorker.Op) :
    ({ p with decoder := d } : Pipeline).workerStep cfg w op =
      (p.workerStep cfg w op).map fun r => ({ r.1 with decoder := d }, r.2) := by
  obtain ⟨decoder, thread, main, queue, workers, abort, state⟩ := p
  cases op with
  | take =>
    simp only [workerStep]
    generalize workers w = t
    cases t with
    | getting =>
      cases queue with
      | nil => rfl
      | cons it q =>
        cases it with
        | none => rfl
        | some f =>
          simp only
          split <;> rfl
    | _ => rfl
  | confirmed =>
    simp only [workerStep]
    generalize workers w = t
    cases t with
    | confirming f ref =>
      simp only
      split <;> rfl
    | _ => rfl
  | stored | published | checkpointWritten | checkpointReturned | raised =>
    simp only [workerStep]
    generalize workers w = t
    cases t <;> rfl

/-- Only the generator looks at the decoder. -/
lemma step_decoder (hadv : e ≠ .advance) (d : Decoder) :
    ({ p with decoder := d } : Pipeline).step cfg e =
      (p.step cfg e).map fun r => ({ r.1 with decoder := d }, r.2) := by
  obtain ⟨decoder, thread, main, queue, workers, abort, state⟩ := p
  cases e with
  | advance => exact absurd rfl hadv
  | handle =>
    cases thread with
    | yielding it => cases it <;> rfl
    | _ => rfl
  | enqueue =>
    cases thread with
    | putting f =>
      simp only [step]
      split <;> rfl
    | _ => rfl
  | look | sourceRaised => cases thread <;> rfl
  | disconnect => cases main <;> rfl
  | decodeDone =>
    cases main with
    | awaiting =>
      simp only [step]
      split <;> rfl
    | _ => rfl
  | putStop =>
    cases main with
    | stopping n =>
      cases n with
      | zero => rfl
      | succ n =>
        simp only [step]
        split <;> rfl
    | _ => rfl
  | gathered =>
    cases main with
    | stopping n =>
      cases n with
      | zero =>
        simp only [step]
        split <;> rfl
      | succ n => rfl
    | _ => rfl
  | worker w op =>
    simp only [step]
    split
    · exact workerStep_decoder (p := ⟨decoder, thread, main, queue, workers, abort, state⟩) d w op
    · rfl

lemma Rule.decoder_eq (hr : Rule cfg p e p' out) (hadv : e ≠ .advance) :
    p'.decoder = p.decoder := by
  cases hr with
  | aborted | exhausted | skip | keep => exact absurd rfl hadv
  | worker w op p' out hw hr => cases hr <;> rfl
  | _ => rfl

end Pipeline

namespace Stream

variable {cfg : Dispatch} {sampler : FrameSampler} {prior : Option JobRecord} {items : List Item}
  {p p' : Pipeline} {e : Pipeline.Event} {out h : List Pipeline.Output} {h' : List Output}
  {d : Decoder}

/-- Grabbing the next frame is asking for the next item, if the sampler keeps the frame. -/
lemma of_advance (hr : p.Rule cfg .advance p' out)
    (hreach : (machine cfg).Reach Machine.anyStep (start cfg sampler prior items)
      ⟨p.decoder.items cfg.source, { p with decoder := d }⟩ h') :
    ∃ h'', (machine cfg).Reach Machine.anyStep (start cfg sampler prior items)
        ⟨p'.decoder.items cfg.source, { p' with decoder := d }⟩ h'' ∧
      outputs h'' = outputs h' ++ out := by
  cases hr with
  | aborted ht ha =>
    exact ⟨h' ++ [], hreach.step (e := .quit) trivial (if_pos ⟨ht, ha⟩), by simp⟩
  | exhausted ht ha hg =>
    have hitems := Decoder.items_of_grab_none hg
    refine ⟨h' ++ [], hreach.step (e := .own .advance) trivial ?_, by simp⟩
    simp only [machine, step, ht, hitems]
  | skip d' ht ha hg =>
    have hitems := Decoder.items_of_grab hg
    rw [Option.toList_none, List.nil_append] at hitems
    rw [hitems] at hreach
    exact ⟨h', hreach, (List.append_nil _).symm⟩
  | keep it d' ht ha hg =>
    have hitems := Decoder.items_of_grab hg
    rw [Option.toList_some, List.singleton_append] at hitems
    refine ⟨h' ++ [.yielded it], hreach.step (e := .own .advance) trivial ?_, ?_⟩
    · simp only [machine, step, ht, hitems]
    · rw [outputs_append]
      rfl

/-- A pipeline over a video is one that is fed what the decoder of the video yields. -/
theorem of_pipeline {ok : Pipeline → List Pipeline.Output → Pipeline.Event → Prop}
    (hr : (Pipeline.machine cfg).Reach ok (.start cfg sampler prior) p h) :
    ∃ h', (machine cfg).Reach Machine.anyStep
        (start cfg sampler prior ((Decoder.start cfg.source sampler).items cfg.source))
        ⟨p.decoder.items cfg.source, { p with decoder := .start cfg.source sampler }⟩ h' ∧
      outputs h' = h := by
  induction hr with
  | init => exact ⟨[], .init, rfl⟩
  | @step p p' h out e hr ho hs ih =>
    obtain ⟨h', hreach, rfl⟩ := ih
    have hrule : p.Rule cfg e p' out := .of_step hs
    by_cases hadv : e = .advance
    · subst hadv
      exact of_advance hrule hreach
    · refine ⟨h' ++ (sentinel p e ++ out.map .out), ?_, by simp⟩
      rw [hrule.decoder_eq hadv]
      refine hreach.step (e := .own e) trivial ?_
      have hstep : p.step cfg e = some (p', out) := hs
      show step cfg _ (.own e) = _
      rw [step_own hadv, Pipeline.step_decoder hadv, hstep]
      rfl

end Stream

end VideoPipeline
