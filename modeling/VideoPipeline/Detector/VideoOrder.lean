import VideoPipeline.Detector.PartitionLine

/-!
# The order of the reports of a video, on partition queues

The frames of a video are in one partition and with the consumer that is active on it. Reported,
with the consumer and still queued they form a line, which a crash of the consumer only shortens:
what it had claimed is not reported again, and the rest goes back to the front of the queue.
-/

namespace VideoPipeline

open Amqp

/-- A consumer has a frame of the video somewhere. -/
def PartitionedConsumer.Has (c : PartitionedConsumer) (videoId : String) : Prop :=
  (∃ x ∈ c.taken, x.ref.videoId = videoId) ∨
    ∃ q, ∃ a ∈ c.waiting q, ∃ ref, a.body = some ref ∧ ref.videoId = videoId

namespace PartitionedFleet

open PartitionedConsumer (ofPartition)
open Fleet (Before unclaimed)

variable (part : String → ℕ)

/-- The frames of a partition that these results are about. -/
def resultsOf (q : ℕ) (ps : List Pending) : List FrameRef :=
  (ps.map (·.delivery.ref)).filter fun ref => part ref.videoId = q

/-- The frames in a queue. -/
def frames (queue : List QueuedMessage) : List FrameRef := queue.filterMap QueuedMessage.body

/-- The consumer that is active on a queue. -/
def consumer (f : PartitionedFleet) (q : ℕ) : PartitionedConsumer :=
  match f.active q with
  | some d => f.replicas d
  | none   => .init

/-- The frames of a partition that are not settled, in the order in which they get processed. -/
def toProcess (f : PartitionedFleet) (q : ℕ) : List FrameRef :=
  ((f.consumer q).lineOf part q).map Prod.snd ++ frames (f.queues q)

/-- The frames of a partition that were reported, are on their way to the sink, or can still be
reported. -/
def line (f : PartitionedFleet) (h : List Output) (q : ℕ) : List FrameRef :=
  resultsOf part q (returned h ++ (f.consumer q).worker.unreturned) ++
    unclaimed f.guard (toProcess part f q)

/-- The frames of each video are published with increasing ids, and the guard keeps its keys. -/
def increasing : PartitionedFleet → List Output → Event → Prop
  | _, h, .publish ref =>
    ∀ ref' ∈ published h, ref'.videoId = ref.videoId → ref'.frameId < ref.frameId
  | _, _, .expire _                                => False
  | _, _, .replica _ (.work (.claimed .failedOpen)) _ => False
  | _, _, _                                        => True

instance (f : PartitionedFleet) (h : List Output) (e : Event) : Decidable (increasing f h e) := by
  unfold increasing
  split <;> infer_instance

/-- The delivery that a step requeues for another try, with the frames of its partition that come
before it then. -/
def retried (f : PartitionedFleet) : Event → List (Delivery × List FrameRef)
  | .replica d (.work .settled) pos =>
    match (f.replicas d).worker.phase with
    | .settling x .requeued =>
      let q := part x.ref.videoId
      [(x, ((ofPartition part q (f.replicas d).inbox).map Prod.snd ++
        (((f.replicas d).waiting q).filterMap Arrival.tagged?).map Prod.snd) ++
        frames ((f.queues q).take pos))]
    | _ => []
  | _ => []

/-- A frame that is requeued unclaimed comes back ahead of all unclaimed frames of its video. -/
def requeuesAhead (f : PartitionedFleet) (_ : List Output) (e : Event) : Prop :=
  ∀ r ∈ retried part f e, r.1.ref.key ∉ f.guard →
    ∀ ref ∈ unclaimed f.guard r.2, ref.videoId ≠ r.1.ref.videoId

instance (f : PartitionedFleet) (h : List Output) (e : Event) :
    Decidable (requeuesAhead part f h e) :=
  inferInstanceAs (Decidable (∀ r ∈ retried part f e, r.1.ref.key ∉ f.guard →
    ∀ ref ∈ unclaimed f.guard r.2, ref.videoId ≠ r.1.ref.videoId))

/-- What holds along a run of detectors on partition queues. -/
structure InOrder (f : PartitionedFleet) (h : List Output) : Prop where
  traced : ∀ d, (f.replicas d).Traced part
  /-- A consumer has nothing of the partitions it is not active on. -/
  standby : ∀ q d, f.active q ≠ some d → (f.replicas d).lineOf part q = []
  line : ∀ q, (line part f h q).Pairwise Before
  queued : ∀ q, ∀ ref ∈ frames (f.queues q), part ref.videoId = q ∧ ref ∈ published h
  unsettled : ∀ d q, ∀ x ∈ (f.replicas d).lineOf part q, x.2 ∈ published h
  returned : ∀ p ∈ returned h, p.delivery.ref ∈ published h
  claimed : ∀ d, ∀ p ∈ (f.replicas d).worker.results, p.key ∈ f.guard
  labelled : ∀ d, ∀ p ∈ (f.replicas d).worker.unreturned, p.Labelled
  reported : ∀ p ∈ PartitionedFleet.returned h, p.Labelled

variable {part} {cfg : DetectorSettings} {f f' : PartitionedFleet} {e : Event} {out h : List Output}
  {q d : ℕ}

lemma resultsOf_append (q : ℕ) (ps ps' : List Pending) :
    resultsOf part q (ps ++ ps') = resultsOf part q ps ++ resultsOf part q ps' := by
  simp [resultsOf]

lemma resultsOf_eq_nil {ps : List Pending}
    (hps : ∀ p ∈ ps, part p.delivery.ref.videoId ≠ q) : resultsOf part q ps = [] := by
  rw [resultsOf, List.filter_eq_nil_iff]
  intro ref hr
  obtain ⟨p, hp, rfl⟩ := List.mem_map.mp hr
  simpa using hps p hp

lemma consumer_of_active (hd : f.active q = some d) : f.consumer q = f.replicas d := by
  rw [consumer, hd]

/-- A larger guard leaves fewer frames. -/
lemma unclaimed_sublist {guard guard' : List String} {refs refs' : List FrameRef}
    (hg : guard ⊆ guard') (hr : refs'.Sublist refs) :
    (unclaimed guard' refs').Sublist (unclaimed guard refs) := by
  refine (List.monotone_filter_right refs' ?_).trans (hr.filter _)
  intro ref href
  simp only [decide_eq_true_eq] at href ⊢
  exact fun hmem => href (hg hmem)

lemma subset_of_answer {acts : List Act} {guard guard' : List String}
    (hg : answer guard acts = some guard') : guard ⊆ guard' := by
  induction acts generalizing guard with
  | nil => cases hg; exact List.Subset.refl _
  | cons a acts ih =>
    cases a with
    | claim key ttlSec r =>
      cases r with
      | won =>
        simp only [answer] at hg
        split at hg
        · cases hg
        · exact fun k hk => ih hg (List.mem_cons_of_mem key hk)
      | lost =>
        simp only [answer] at hg
        split at hg
        · exact ih hg
        · cases hg
      | _ => exact ih hg
    | _ => exact ih hg

/-- What a consumer takes on its line of a partition is routed there. -/
lemma InOrder.standby_ne (hl : InOrder part f h) (hq : f.active q ≠ some d) {x : Delivery}
    (hx : x ∈ (f.replicas d).worker.held) : part x.ref.videoId ≠ q := by
  rintro rfl
  have hmem : (x.tag, x.ref) ∈ (f.replicas d).lineOf part (part x.ref.videoId) :=
    List.mem_append_left _ (PartitionedConsumer.mem_ofPartition (List.mem_append_left _ hx))
  rw [hl.standby _ d hq] at hmem
  cases hmem

lemma resultsOf_sublist {ps ps' : List Pending} (h : ps.Sublist ps') (q : ℕ) :
    (resultsOf part q ps).Sublist (resultsOf part q ps') :=
  (h.map _).filter _

/-- Frames of a partition in the hands of a consumer, and those that it has not taken yet. -/
lemma lineOf_split (c : PartitionedConsumer) (q : ℕ) :
    (c.lineOf part q).map Prod.snd = (ofPartition part q c.worker.held).map Prod.snd ++
      ((ofPartition part q c.inbox).map Prod.snd ++
        ((c.waiting q).filterMap Arrival.tagged?).map Prod.snd) := by
  rw [PartitionedConsumer.lineOf, PartitionedConsumer.taken,
    PartitionedConsumer.ofPartition_append, List.map_append, List.map_append, List.append_assoc]

/-- What is in the batcher is claimed. -/
lemma unclaimed_buffered {w : Worker} {guard : List String}
    (hclaimed : ∀ p ∈ w.results, p.key ∈ guard) (q : ℕ) :
    unclaimed guard ((ofPartition part q w.buffered).map Prod.snd) = [] := by
  rw [unclaimed, List.filter_eq_nil_iff]
  intro ref href
  obtain ⟨y, hy, rfl⟩ := List.mem_map.mp href
  obtain ⟨x, hx, rfl⟩ := List.mem_map.mp hy
  obtain ⟨p, hp, rfl⟩ := List.mem_map.mp (List.mem_filter.mp hx).1
  rw [decide_eq_true_eq, not_not]
  exact hclaimed p (List.mem_append_left _ hp)

/-- Of what the worker holds only the delivery in hand can be unclaimed. -/
lemma unclaimed_held {w : Worker} {guard : List String} {x : Delivery}
    (hclaimed : ∀ p ∈ w.results, p.key ∈ guard) (hheld : w.held = w.buffered ++ [x])
    (rest : List FrameRef) :
    unclaimed guard ((ofPartition part (part x.ref.videoId) w.held).map Prod.snd ++ rest) =
      unclaimed guard (x.ref :: rest) := by
  have hx : (ofPartition part (part x.ref.videoId) [x]).map Prod.snd = [x.ref] := by
    simp [ofPartition]
  rw [hheld, PartitionedConsumer.ofPartition_append, List.map_append, List.append_assoc,
    Fleet.unclaimed_append, unclaimed_buffered hclaimed, hx, List.nil_append,
    List.singleton_append]

lemma frames_requeue {pos : ℕ} {a : Arrival} {queues : ℕ → List QueuedMessage} {ref : FrameRef}
    (hbody : a.body = some ref) (q : ℕ) :
    frames (requeue pos [a] queues q) =
      if q = a.queue then frames ((queues q).take pos) ++ ref :: frames ((queues q).drop pos)
      else frames (queues q) := by
  by_cases hq : q = a.queue
  · subst hq
    simp [requeue, frames, Arrival.message, hbody]
  · simp [requeue, hq]

/-- The line of a partition after a step of the worker that is active on it. -/
lemma InOrder.line_work (hl : InOrder part f h) {op : Worker.Op} {pos : ℕ} {w : Worker}
    {as : List Act} {guard : List String} (hact : f.active q = some d)
    (hw : Worker.Rule cfg (f.replicas d).worker op w as) (hg : answer f.guard as = some guard)
    (hok : increasing f h (.replica d (.work op) pos))
    (hahead : requeuesAhead part f h (.replica d (.work op) pos)) :
    (resultsOf part q (PartitionedFleet.returned h ++ as.flatMap Act.returned ++ w.unreturned) ++
      unclaimed guard ((ofPartition part q w.held).map Prod.snd ++
        (((ofPartition part q (f.replicas d).inbox).map Prod.snd ++
          (((f.replicas d).waiting q).filterMap Arrival.tagged?).map Prod.snd) ++
        frames (requeue pos ((perform (f.replicas d).channel as).2.filterMap Out.goesBack?)
          f.queues q)))).Pairwise Before := by
  have hline := hl.line q
  rw [PartitionedFleet.line, toProcess, consumer_of_active hact, lineOf_split, List.append_assoc]
    at hline
  have hresults : (resultsOf part q
      (PartitionedFleet.returned h ++ as.flatMap Act.returned ++ w.unreturned)).Sublist
      (resultsOf part q (PartitionedFleet.returned h ++ (f.replicas d).worker.unreturned) ++
        resultsOf part q (as.flatMap Act.won)) := by
    rw [← resultsOf_append, List.append_assoc, List.append_assoc]
    exact resultsOf_sublist (hw.unreturned_sublist.append_left _) q
  have hheld : ((ofPartition part q w.held).map Prod.snd).Sublist
      ((ofPartition part q (f.replicas d).worker.held).map Prod.snd) :=
    (PartitionedConsumer.ofPartition_sublist hw.held_sublist q).map _
  have hbuffered : unclaimed f.guard
      ((ofPartition part q (f.replicas d).worker.buffered).map Prod.snd) = [] :=
    unclaimed_buffered (hl.claimed d) q
  rcases (hl.traced d).goesBack_cases hw with hnone |
    ⟨x, a, hx, hback, hbody, hqueue, hwon, hans, hcase⟩
  · rw [hnone]
    rcases hw.answer_cases hg with ⟨rfl, hwon, -⟩ |
      ⟨x, faces, hphase, ⟨rfl, hfree, rfl, hwon, -⟩ | ⟨rfl, -⟩ | ⟨-, -, rfl, hwon, -⟩⟩
    · rw [hwon, show resultsOf part q [] = [] from rfl, List.append_nil] at hresults
      exact Fleet.line_keep hresults hheld hline
    · have hsplit : (f.replicas d).worker.held = (f.replicas d).worker.buffered ++ [x] := by
        rw [Worker.held, hphase]
        rfl
      by_cases hq : part x.ref.videoId = q
      · subst hq
        have hone : resultsOf part (part x.ref.videoId) (as.flatMap Act.won) = [x.ref] := by
          rw [hwon]
          simp [resultsOf]
        rw [hone] at hresults
        rw [unclaimed_held (hl.claimed d) hsplit] at hline
        have hclaim := Fleet.line_claim hfree hresults (.refl [x.ref]) hline
        rw [List.singleton_append, ← unclaimed_held (fun p hp =>
          List.mem_cons_of_mem _ (hl.claimed d p hp)) hsplit] at hclaim
        exact hclaim.sublist (((hheld.append_right _).filter _).append_left _)
      · have hnil : resultsOf part q (as.flatMap Act.won) = [] := by
          rw [hwon]
          simp [resultsOf, hq]
        rw [hnil, List.append_nil] at hresults
        refine hline.sublist (hresults.append ?_)
        exact unclaimed_sublist (List.subset_cons_self _ _) (hheld.append_right _)
    · exact hok.elim
    · rw [hwon, show resultsOf part q [] = [] from rfl, List.append_nil] at hresults
      exact Fleet.line_keep hresults hheld hline
  · obtain rfl : guard = f.guard := by
      rw [hans f.guard] at hg
      exact (Option.some.inj hg).symm
    rw [hwon, show resultsOf part q [] = [] from rfl, List.append_nil] at hresults
    rw [hback, frames_requeue hbody, hqueue]
    split
    · next hq =>
      subst hq
      have hqueue : frames (f.queues (part x.ref.videoId)) =
          frames ((f.queues (part x.ref.videoId)).take pos) ++
            frames ((f.queues (part x.ref.videoId)).drop pos) := by
        rw [frames, frames, frames, ← List.filterMap_append, List.take_append_drop]
      rw [hqueue] at hline
      by_cases hk : x.ref.key ∈ f.guard
      · exact Fleet.line_requeue_claimed hk hresults hheld hline
      · rcases hcase with ⟨rfl, hphase, rfl⟩ | ⟨p, hp, rfl⟩
        · rw [unclaimed_held (hl.claimed d) (Worker.settling_held hphase)] at hline
          rw [Worker.released_held, Fleet.unclaimed_append, hbuffered, List.nil_append]
          refine Fleet.line_requeue hk hresults (hahead (x, _) ?_ hk) hline
          simp [retried, hphase]
        · exact absurd (hl.claimed d p (List.mem_append_left _ hp)) hk
    · exact Fleet.line_keep hresults hheld hline

lemma returned_replica (d : ℕ) (o : List (Out Arrival)) :
    PartitionedFleet.returned (o.map (.replica d)) =
      (o.filterMap Out.act?).flatMap Act.returned := by
  rw [PartitionedFleet.returned, acts, List.filterMap_map]
  congr 2
  funext x
  cases x <;> rfl

lemma consumer_update (queues : ℕ → List QueuedMessage) (guard : List String)
    (c : PartitionedConsumer) (q : ℕ) :
    consumer ⟨queues, f.active, guard, Function.update f.replicas d c⟩ q =
      if f.active q = some d then c else f.consumer q := by
  simp only [consumer]
  cases hact : f.active q with
  | none => rfl
  | some d' =>
    by_cases hd : d' = d
    · simp [hd]
    · simp [hd]

/-- A step of a consumer is nothing to a partition that it is not active on. -/
lemma InOrder.standby_step (hl : InOrder part f h) {e : PartitionedConsumer.Event}
    {c : PartitionedConsumer} {o : List (Out Arrival)} (hact : f.active q ≠ some d)
    (hc : PartitionedConsumer.Rule cfg (f.replicas d) e c o) (pos : ℕ) :
    resultsOf part q (PartitionedFleet.returned (o.map (.replica d))) = [] ∧
      frames (requeue pos (o.filterMap Out.goesBack?) f.queues q) = frames (f.queues q) := by
  rw [returned_replica]
  by_cases hwork : ∃ op, e = .work op
  · obtain ⟨op, rfl⟩ := hwork
    cases hc with
    | work op w as hw =>
      have hrule := Worker.Rule.of_step hw
      rw [Fleet.perform_acts]
      refine ⟨resultsOf_eq_nil fun p hp =>
        hl.standby_ne hact (hrule.unreturned_held (List.mem_append_left _ hp)), ?_⟩
      rcases (hl.traced d).goesBack_cases hrule with hnone | ⟨x, a, hx, hback, hbody, hqueue, -⟩
      · rw [hnone]
        rfl
      · rw [hback, frames_requeue hbody, if_neg]
        rw [hqueue]
        exact (hl.standby_ne hact hx).symm
  · obtain ⟨-, -, hret, -, hback⟩ := hc.quiet fun op hop => hwork ⟨op, hop⟩
    rw [hret, hback]
    exact ⟨rfl, rfl⟩

/-- The line of a partition after a step of some consumer. -/
lemma InOrder.line_replica (hl : InOrder part f h) {e : PartitionedConsumer.Event} {pos : ℕ}
    {c : PartitionedConsumer} {o : List (Out Arrival)} {guard : List String}
    (hc : PartitionedConsumer.Rule cfg (f.replicas d) e c o)
    (hg : answer f.guard (o.filterMap Out.act?) = some guard)
    (hok : increasing f h (.replica d e pos)) (hahead : requeuesAhead part f h (.replica d e pos))
    (q : ℕ) :
    (PartitionedFleet.line part ⟨requeue pos (o.filterMap Out.goesBack?) f.queues, f.active, guard,
      Function.update f.replicas d c⟩ (h ++ o.map (.replica d)) q).Pairwise Before := by
  have hline := hl.line q
  rw [PartitionedFleet.line, toProcess] at hline ⊢
  rw [consumer_update, returned_append]
  by_cases hact : f.active q = some d
  · rw [if_pos hact, returned_replica]
    rw [consumer_of_active hact] at hline
    by_cases hwork : ∃ op, e = .work op
    · obtain ⟨op, rfl⟩ := hwork
      cases hc with
      | work op w as hw =>
        rw [Fleet.perform_acts] at hg ⊢
        rw [lineOf_split, List.append_assoc (List.map _ _)]
        exact hl.line_work hact (.of_step hw) hg hok hahead
    · have hquiet := fun op hop => hwork ⟨op, hop⟩
      obtain ⟨hun, -, hret, hans, hback⟩ := hc.quiet hquiet
      rw [hans f.guard] at hg
      cases hg
      rw [hret, hback, hun, (hl.traced d).lineOf_eq hc hquiet, List.append_nil]
      exact hline
  · obtain ⟨hret, hqueue⟩ := hl.standby_step hact hc pos
    rw [if_neg hact, List.append_assoc, resultsOf_append, resultsOf_append, hret, List.nil_append,
      ← resultsOf_append, hqueue]
    exact hline.sublist ((unclaimed_sublist (subset_of_answer hg) (.refl _)).append_left _)

lemma consumer_cases (f : PartitionedFleet) (q : ℕ) :
    f.consumer q = .init ∨ ∃ d, f.active q = some d ∧ f.consumer q = f.replicas d := by
  rw [consumer]
  cases hact : f.active q with
  | none => exact .inl rfl
  | some d => exact .inr ⟨d, rfl, rfl⟩

/-- What a consumer holds was published. -/
lemma InOrder.held (hl : InOrder part f h) {x : Delivery} (hx : x ∈ (f.replicas d).worker.held) :
    x.ref ∈ published h :=
  hl.unsettled d _ (x.tag, x.ref)
    (List.mem_append_left _ (PartitionedConsumer.mem_ofPartition (List.mem_append_left _ hx)))

lemma InOrder.mem_published (hl : InOrder part f h) {ref : FrameRef}
    (hr : ref ∈ PartitionedFleet.line part f h q) : ref ∈ published h := by
  rcases List.mem_append.mp hr with hr | hr
  · obtain ⟨p, hp, rfl⟩ := List.mem_map.mp (List.mem_filter.mp hr).1
    rcases List.mem_append.mp hp with hp | hp
    · exact hl.returned p hp
    · rcases f.consumer_cases q with hcons | ⟨d, -, hcons⟩ <;> rw [hcons] at hp
      · cases hp
      · exact hl.held (Worker.unreturned_held hp)
  · rcases List.mem_append.mp (List.mem_filter.mp hr).1 with hr | hr
    · obtain ⟨x, hx, rfl⟩ := List.mem_map.mp hr
      rcases f.consumer_cases q with hcons | ⟨d, -, hcons⟩ <;> rw [hcons] at hx
      · cases hx
      · exact hl.unsettled d q x hx
    · exact (hl.queued q ref hr).2

lemma frames_append (queue queue' : List QueuedMessage) :
    frames (queue ++ queue') = frames queue ++ frames queue' :=
  List.filterMap_append

/-- A message is published to the queue of its partition. -/
lemma InOrder.publish (hl : InOrder part f h) {ref : FrameRef} (hq : q = part ref.videoId)
    (hok : increasing f h (.publish ref)) :
    InOrder part
      { f with queues := Function.update f.queues q (f.queues q ++ [⟨some ref, false⟩]) }
      (h ++ [.published ref]) := by
  have hret : PartitionedFleet.returned (h ++ [.published ref]) = PartitionedFleet.returned h := by
    rw [returned_append]
    exact List.append_nil _
  have hpub : ∀ {ref'}, ref' ∈ published h → ref' ∈ published (h ++ [.published ref]) := by
    intro ref' hmem
    rw [published_append]
    exact List.mem_append_left _ hmem
  have hframes : ∀ q', frames (Function.update f.queues q (f.queues q ++ [⟨some ref, false⟩]) q') =
      frames (f.queues q') ++ if q' = q then [ref] else [] := by
    intro q'
    by_cases hqq : q' = q
    · subst hqq
      simp [frames]
    · simp [hqq]
  refine ⟨hl.traced, hl.standby, ?_, ?_, fun d q x hx => hpub (hl.unsettled d q x hx), ?_,
    hl.claimed, hl.labelled, by rw [hret]; exact hl.reported⟩
  · intro q'
    have heq : PartitionedFleet.line part
        { f with queues := Function.update f.queues q (f.queues q ++ [⟨some ref, false⟩]) }
        (h ++ [.published ref]) q' =
        PartitionedFleet.line part f h q' ++
          unclaimed f.guard (if q' = q then [ref] else []) := by
      rw [PartitionedFleet.line, PartitionedFleet.line, toProcess, toProcess, hret, hframes,
        ← List.append_assoc, Fleet.unclaimed_append, List.append_assoc]
      rfl
    rw [heq, List.pairwise_append]
    refine ⟨hl.line q', ?_, ?_⟩
    · split
      · exact (List.pairwise_singleton _ _).filter _
      · exact .nil
    · intro x hx y hy
      have hy := (List.mem_filter.mp hy).1
      split at hy
      · rw [List.mem_singleton.mp hy]
        exact hok x (hl.mem_published hx)
      · cases hy
  · intro q' ref' hmem
    rw [hframes] at hmem
    rcases List.mem_append.mp hmem with hmem | hmem
    · exact ⟨(hl.queued q' ref' hmem).1, hpub (hl.queued q' ref' hmem).2⟩
    · split at hmem
      · next hqq =>
        rw [List.mem_singleton.mp hmem, hqq, hq, published_append]
        exact ⟨rfl, List.mem_append_right _ (List.mem_singleton_self ref)⟩
      · cases hmem
  · intro p hp
    rw [hret] at hp
    exact hpub (hl.returned p hp)

/-- A message that is no frame reference gets into a queue. -/
lemma InOrder.malformed (hl : InOrder part f h) (q : ℕ) :
    InOrder part
      { f with queues := Function.update f.queues q (f.queues q ++ [⟨none, false⟩]) } h := by
  have hframes : ∀ q', frames (Function.update f.queues q (f.queues q ++ [⟨none, false⟩]) q') =
      frames (f.queues q') := by
    intro q'
    by_cases hqq : q' = q
    · subst hqq
      simp [frames]
    · simp [hqq]
  refine ⟨hl.traced, hl.standby, ?_, ?_, hl.unsettled, hl.returned, hl.claimed, hl.labelled,
    hl.reported⟩
  · intro q'
    have hline := hl.line q'
    rw [PartitionedFleet.line, toProcess] at hline ⊢
    simp only [hframes]
    exact hline
  · intro q' ref hmem
    simp only [hframes] at hmem
    exact hl.queued q' ref hmem

/-- The broker activates a consumer. -/
lemma InOrder.activate (hl : InOrder part f h) (hnone : f.active q = none) (d : ℕ) :
    InOrder part { f with active := Function.update f.active q (some d) } h := by
  have hne : f.active q ≠ some d := hnone ▸ (Option.some_ne_none d).symm
  refine ⟨hl.traced, ?_, ?_, hl.queued, hl.unsettled, hl.returned, hl.claimed, hl.labelled,
    hl.reported⟩
  · intro q' d' hact
    refine hl.standby q' d' fun hold => ?_
    by_cases hq : q' = q
    · rw [hq, hnone] at hold
      cases hold
    · exact hact (by simpa [hq] using hold)
  · intro q'
    have hline := hl.line q'
    rw [PartitionedFleet.line, toProcess] at hline ⊢
    by_cases hq : q' = q
    · subst hq
      have hcons : consumer { f with active := Function.update f.active q' (some d) } q' =
          f.replicas d := consumer_of_active (Function.update_self ..)
      have hinit : f.consumer q' = .init := by rw [consumer, hnone]
      have hun : resultsOf part q' (f.replicas d).worker.unreturned = [] :=
        resultsOf_eq_nil fun p hp => hl.standby_ne hne (Worker.unreturned_held hp)
      rw [hcons, hl.standby q' d hne, resultsOf_append, hun]
      rw [hinit, resultsOf_append] at hline
      exact hline
    · have hcons : consumer { f with active := Function.update f.active q (some d) } q' =
          f.consumer q' := by
        simp only [consumer, Function.update_of_ne hq]
      rw [hcons]
      exact hline

section Deliver

variable {tag : ℕ} {m : QueuedMessage} {ms : List QueuedMessage} {ch : Channel Arrival.tag}

/-- A consumer after a message was pushed to it. -/
def pushed (c : PartitionedConsumer) (ch : Channel Arrival.tag) (a : Arrival) :
    PartitionedConsumer :=
  { c with
    channel := ch
    iterators := Function.update c.iterators a.queue (c.iterators a.queue ++ [a]) }

lemma frames_cons (m : QueuedMessage) (ms : List QueuedMessage) :
    frames (m :: ms) = m.body.toList ++ frames ms := by
  rw [frames, List.filterMap_cons]
  cases m.body <;> rfl

/-- The first message of a queue, as it comes to a consumer. -/
lemma tagged_arrival (q tag : ℕ) (m : QueuedMessage) :
    (Arrival.tagged? ⟨q, tag, m.body, m.redelivered⟩).toList.map Prod.snd = m.body.toList := by
  rw [Arrival.tagged?]
  cases m.body <;> rfl

lemma InOrder.first (hl : InOrder part f h) (hq : f.queues q = m :: ms) {ref : FrameRef}
    (hm : m.body = some ref) : part ref.videoId = q ∧ ref ∈ published h := by
  refine hl.queued q ref ?_
  rw [hq, frames_cons, hm]
  exact List.mem_cons_self

/-- The line of the consumer grows by the message. -/
lemma InOrder.traced_pushed (hl : InOrder part f h) (hq : f.queues q = m :: ms)
    (hc : (f.replicas d).channel.deliver ⟨q, tag, m.body, m.redelivered⟩ = some ch) :
    (pushed (f.replicas d) ch ⟨q, tag, m.body, m.redelivered⟩).Traced part ∧
    ∀ q', (pushed (f.replicas d) ch ⟨q, tag, m.body, m.redelivered⟩).lineOf part q' =
      (f.replicas d).lineOf part q' ++
        if q' = q then (Arrival.tagged? ⟨q, tag, m.body, m.redelivered⟩).toList else [] :=
  (hl.traced d).deliver hc fun _ hm => (hl.first hq hm).1

/-- What leaves the queue is at the end of what the consumer has, so the line stays as it is. -/
lemma InOrder.line_pushed (hl : InOrder part f h) (hact : f.active q = some d)
    (hq : f.queues q = m :: ms)
    (hc : (f.replicas d).channel.deliver ⟨q, tag, m.body, m.redelivered⟩ = some ch) (q' : ℕ) :
    PartitionedFleet.line part { f with
      queues := Function.update f.queues q ms
      replicas := Function.update f.replicas d
        (pushed (f.replicas d) ch ⟨q, tag, m.body, m.redelivered⟩) } h q' =
      PartitionedFleet.line part f h q' := by
  rw [PartitionedFleet.line, PartitionedFleet.line, toProcess, toProcess, consumer_update]
  dsimp only
  by_cases hact' : f.active q' = some d
  · rw [if_pos hact', (hl.traced_pushed hq hc).2, consumer_of_active hact']
    by_cases hqq : q' = q
    · subst hqq
      rw [if_pos rfl, List.map_append, tagged_arrival, List.append_assoc, Function.update_self, hq,
        frames_cons]
      rfl
    · rw [if_neg hqq, List.append_nil, Function.update_of_ne hqq]
      rfl
  · have hqq : q' ≠ q := by
      rintro rfl
      exact hact' hact
    rw [if_neg hact', Function.update_of_ne hqq]

/-- The broker pushes the first message of a queue to the consumer that is active on it. -/
lemma InOrder.deliver (hl : InOrder part f h) (hact : f.active q = some d)
    (hq : f.queues q = m :: ms)
    (hc : (f.replicas d).channel.deliver ⟨q, tag, m.body, m.redelivered⟩ = some ch) :
    InOrder part { f with
      queues := Function.update f.queues q ms
      replicas := Function.update f.replicas d
        (pushed (f.replicas d) ch ⟨q, tag, m.body, m.redelivered⟩) } h := by
  obtain ⟨htraced, hlineOf⟩ := hl.traced_pushed hq hc
  have hupdate : ∀ d', d' = d ∧ Function.update f.replicas d
      (pushed (f.replicas d) ch ⟨q, tag, m.body, m.redelivered⟩) d' =
        pushed (f.replicas d) ch ⟨q, tag, m.body, m.redelivered⟩ ∨
      Function.update f.replicas d
        (pushed (f.replicas d) ch ⟨q, tag, m.body, m.redelivered⟩) d' = f.replicas d' := by
    intro d'
    by_cases hd : d' = d
    · exact .inl ⟨hd, by rw [hd, Function.update_self]⟩
    · exact .inr (Function.update_of_ne hd _ _)
  refine ⟨?_, ?_, ?_, ?_, ?_, hl.returned, ?_, ?_, hl.reported⟩
  · intro d'
    rcases hupdate d' with ⟨rfl, heq⟩ | heq <;> simp only [heq]
    · exact htraced
    · exact hl.traced d'
  · intro q' d' hne
    rcases hupdate d' with ⟨rfl, heq⟩ | heq <;> simp only [heq]
    · have hqq : q' ≠ q := by
        rintro rfl
        exact hne hact
      rw [hlineOf, hl.standby q' d' hne, if_neg hqq, List.append_nil]
    · exact hl.standby q' d' hne
  · intro q'
    rw [hl.line_pushed hact hq hc]
    exact hl.line q'
  · intro q' ref hmem
    have hmem : ref ∈ frames (Function.update f.queues q ms q') := hmem
    by_cases hqq : q' = q
    · subst hqq
      rw [Function.update_self] at hmem
      refine hl.queued q' ref ?_
      rw [hq, frames_cons]
      exact List.mem_append_right _ hmem
    · rw [Function.update_of_ne hqq] at hmem
      exact hl.queued q' ref hmem
  · intro d' q' x hx
    rcases hupdate d' with ⟨rfl, heq⟩ | heq <;> simp only [heq] at hx
    · rw [hlineOf] at hx
      rcases List.mem_append.mp hx with hx | hx
      · exact hl.unsettled d' q' x hx
      · split at hx
        · have hx' : x.2 ∈ m.body.toList := tagged_arrival q tag m ▸ List.mem_map_of_mem hx
          exact (hl.first hq (by simpa using hx')).2
        · cases hx
    · exact hl.unsettled d' q' x hx
  · intro d' p hp
    rcases hupdate d' with ⟨rfl, heq⟩ | heq <;> simp only [heq] at hp
    · exact hl.claimed d' p hp
    · exact hl.claimed d' p hp
  · intro d' p hp
    rcases hupdate d' with ⟨rfl, heq⟩ | heq <;> simp only [heq] at hp
    · exact hl.labelled d' p hp
    · exact hl.labelled d' p hp

end Deliver

/-- The results of a step of a consumer are about deliveries it held, carry their ids and are
claimed. -/
lemma InOrder.results_step (hl : InOrder part f h) {e : PartitionedConsumer.Event} {pos : ℕ}
    {c : PartitionedConsumer} {o : List (Out Arrival)} {guard : List String}
    (hc : PartitionedConsumer.Rule cfg (f.replicas d) e c o)
    (hg : answer f.guard (o.filterMap Out.act?) = some guard)
    (hok : increasing f h (.replica d e pos)) :
    (∀ p ∈ (o.filterMap Out.act?).flatMap Act.returned ++ c.worker.unreturned,
      p.delivery ∈ (f.replicas d).worker.held ∧ p.Labelled) ∧
      ∀ p ∈ c.worker.results, p.key ∈ guard := by
  by_cases hwork : ∃ op, e = .work op
  · obtain ⟨op, rfl⟩ := hwork
    cases hc with
    | work op w as hw =>
      have hrule := Worker.Rule.of_step hw
      rw [Fleet.perform_acts] at hg ⊢
      constructor
      · intro p hp
        refine ⟨hrule.unreturned_held hp, ?_⟩
        rcases List.mem_append.mp (hrule.unreturned_sublist.mem hp) with hp | hp
        · exact hl.labelled d p hp
        · exact hrule.won_labelled hp
      · intro p hp
        rcases hrule.results_origin hp with hp | hp
        · exact subset_of_answer hg (hl.claimed d p hp)
        · rcases hrule.answer_cases hg with ⟨-, hwon, -⟩ |
            ⟨x, faces, hphase, ⟨-, -, rfl, hwon, -⟩ | ⟨rfl, -⟩ | ⟨-, -, -, hwon, -⟩⟩
          · rw [hwon] at hp
            cases hp
          · rw [hwon] at hp
            rw [List.mem_singleton.mp hp]
            exact List.mem_cons_self
          · exact hok.elim
          · rw [hwon] at hp
            cases hp
  · obtain ⟨hun, hres, hret, hans, -⟩ := hc.quiet fun op hop => hwork ⟨op, hop⟩
    rw [hans f.guard] at hg
    cases hg
    rw [hret, hun, hres, List.nil_append]
    exact ⟨fun p hp => ⟨Worker.unreturned_held hp, hl.labelled d p hp⟩, hl.claimed d⟩

/-- A consumer goes on. -/
lemma InOrder.replica (hl : InOrder part f h) {e : PartitionedConsumer.Event} {pos : ℕ}
    {c : PartitionedConsumer} {o : List (Out Arrival)} {guard : List String}
    (hc : PartitionedConsumer.Rule cfg (f.replicas d) e c o)
    (hg : answer f.guard (o.filterMap Out.act?) = some guard)
    (hok : increasing f h (.replica d e pos))
    (hahead : requeuesAhead part f h (.replica d e pos)) :
    InOrder part ⟨requeue pos (o.filterMap Out.goesBack?) f.queues, f.active, guard,
      Function.update f.replicas d c⟩ (h ++ o.map (.replica d)) := by
  obtain ⟨hresults, hclaimed⟩ := hl.results_step hc hg hok
  have hpub : published (h ++ o.map (.replica d)) = published h := by
    rw [published_append]
    have hnil : published (o.map (.replica d)) = [] := by
      simp [published, List.filterMap_map, Function.comp_def, Output.published?]
    rw [hnil, List.append_nil]
  have hret : ∀ p ∈ PartitionedFleet.returned (h ++ o.map (.replica d)),
      p.delivery.ref ∈ published h ∧ p.Labelled := by
    intro p hp
    rw [returned_append, returned_replica] at hp
    rcases List.mem_append.mp hp with hp | hp
    · exact ⟨hl.returned p hp, hl.reported p hp⟩
    · obtain ⟨hheld, hlabel⟩ := hresults p (List.mem_append_left _ hp)
      exact ⟨hl.held hheld, hlabel⟩
  have hupdate : ∀ d', Function.update f.replicas d c d' = f.replicas d' ∨
      d' = d ∧ Function.update f.replicas d c d' = c := by
    intro d'
    by_cases hd : d' = d
    · exact .inr ⟨hd, by rw [hd, Function.update_self]⟩
    · exact .inl (Function.update_of_ne hd _ _)
  have hsub := (hl.traced d).lineOf_sublist hc
  rw [← hpub] at hret
  refine ⟨?_, ?_, hl.line_replica hc hg hok hahead, ?_, ?_, fun p hp => (hret p hp).1, ?_, ?_,
    fun p hp => (hret p hp).2⟩
  · intro d'
    rcases hupdate d' with heq | ⟨rfl, heq⟩ <;> simp only [heq]
    · exact hl.traced d'
    · exact (hl.traced d').rule hc
  · intro q d' hne
    rcases hupdate d' with heq | ⟨rfl, heq⟩ <;> simp only [heq]
    · exact hl.standby q d' hne
    · exact List.sublist_nil.mp (hl.standby q d' hne ▸ hsub q)
  · intro q ref hmem
    rw [hpub]
    have hcases : ref ∈ frames (f.queues q) ∨
        ∃ x ∈ (f.replicas d).worker.held, x.ref = ref ∧ part x.ref.videoId = q := by
      by_cases hwork : ∃ op, e = .work op
      · obtain ⟨op, rfl⟩ := hwork
        cases hc with
        | work op w as hw =>
          rcases (hl.traced d).goesBack_cases (.of_step hw) with hnone |
            ⟨x, a, hx, hback, hbody, hqueue, -⟩
          · rw [hnone] at hmem
            exact .inl hmem
          · simp only [hback, frames_requeue hbody, hqueue] at hmem
            split at hmem
            · next hq =>
              rcases List.mem_append.mp hmem with hmem | hmem
              · exact .inl ((List.take_sublist _ _).filterMap _ |>.mem hmem)
              · rcases List.mem_cons.mp hmem with rfl | hmem
                · exact .inr ⟨x, hx, rfl, hq.symm⟩
                · exact .inl ((List.drop_sublist _ _).filterMap _ |>.mem hmem)
            · exact .inl hmem
      · obtain ⟨-, -, -, -, hback⟩ := hc.quiet fun op hop => hwork ⟨op, hop⟩
        rw [hback] at hmem
        exact .inl hmem
    rcases hcases with hmem | ⟨x, hx, rfl, hq⟩
    · exact hl.queued q ref hmem
    · exact ⟨hq, hl.held hx⟩
  · intro d' q x hx
    rw [hpub]
    rcases hupdate d' with heq | ⟨rfl, heq⟩ <;> simp only [heq] at hx
    · exact hl.unsettled d' q x hx
    · exact hl.unsettled d' q x ((hsub q).mem hx)
  · intro d' p hp
    rcases hupdate d' with heq | ⟨rfl, heq⟩ <;> simp only [heq] at hp
    · exact subset_of_answer hg (hl.claimed d' p hp)
    · exact hclaimed p hp
  · intro d' p hp
    rcases hupdate d' with heq | ⟨rfl, heq⟩ <;> simp only [heq] at hp
    · exact hl.labelled d' p hp
    · exact (hresults p (List.mem_append_right _ hp)).2

/-- What a consumer leaves to a queue when it dies is in the order of its line. -/
lemma InOrder.returnTo_sublist (hl : InOrder part f h) (d q : ℕ) (queue : List QueuedMessage) :
    (frames (returnTo (f.replicas d) q queue)).Sublist
      (((f.replicas d).lineOf part q).map Prod.snd ++ frames queue) := by
  have heq : frames (((f.replicas d).channel.unsettled.filter (·.queue = q)).map Arrival.message) =
      (((f.replicas d).channel.unsettled.filter (·.queue = q)).filterMap
        Arrival.tagged?).map Prod.snd := by
    rw [frames, List.filterMap_map, List.map_filterMap]
    congr 1
    funext a
    cases hbody : a.body <;> simp [Arrival.message, Arrival.tagged?, hbody]
  rw [returnTo, frames_append, heq]
  exact (((hl.traced d).unsettled_sublist q).map _).append_right _

/-- A detector dies, and the broker puts what it had not settled back at the front. -/
lemma InOrder.crash (hl : InOrder part f h) (d : ℕ) :
    InOrder part { f with
      queues := fun q => returnTo (f.replicas d) q (f.queues q)
      active := fun q => if f.active q = some d then none else f.active q
      replicas := Function.update f.replicas d .init } h := by
  have hupdate : ∀ d', Function.update f.replicas d .init d' = .init ∨
      d' ≠ d ∧ Function.update f.replicas d .init d' = f.replicas d' := by
    intro d'
    by_cases hd : d' = d
    · exact .inl (by rw [hd, Function.update_self])
    · exact .inr ⟨hd, Function.update_of_ne hd _ _⟩
  have hactive : ∀ {q d'}, d' ≠ d → (if f.active q = some d then none else f.active q) ≠ some d' →
      f.active q ≠ some d' := by
    intro q d' hd hne hact
    rw [hact, if_neg fun heq => hd (Option.some.inj heq)] at hne
    exact hne rfl
  refine ⟨?_, ?_, ?_, ?_, ?_, hl.returned, ?_, ?_, hl.reported⟩
  · intro d'
    rcases hupdate d' with heq | ⟨-, heq⟩ <;> simp only [heq]
    · exact .init
    · exact hl.traced d'
  · intro q d' hne
    rcases hupdate d' with heq | ⟨hd, heq⟩ <;> simp only [heq]
    · rfl
    · exact hl.standby q d' (hactive hd hne)
  · intro q
    have hline := hl.line q
    have hback := hl.returnTo_sublist d q (f.queues q)
    rw [PartitionedFleet.line, toProcess] at hline ⊢
    by_cases hact : f.active q = some d
    · have hcons : consumer { f with
          queues := fun q => returnTo (f.replicas d) q (f.queues q)
          active := fun q => if f.active q = some d then none else f.active q
          replicas := Function.update f.replicas d .init } q = .init := by
        simp only [consumer, if_pos hact]
      rw [hcons]
      rw [consumer_of_active hact] at hline
      refine hline.sublist (List.Sublist.append ?_ (hback.filter _))
      exact resultsOf_sublist (List.append_nil (PartitionedFleet.returned h) ▸
        (List.nil_sublist _).append_left _) q
    · have hcons : consumer { f with
          queues := fun q => returnTo (f.replicas d) q (f.queues q)
          active := fun q => if f.active q = some d then none else f.active q
          replicas := Function.update f.replicas d .init } q = f.consumer q := by
        simp only [consumer, if_neg hact]
        cases hact' : f.active q with
        | none => rfl
        | some d' =>
          have hd : d' ≠ d := fun heq => hact (heq ▸ hact')
          simp only [Function.update_of_ne hd]
      rw [hcons]
      rw [hl.standby q d hact] at hback
      exact hline.sublist (((hback.append_left _).filter _).append_left _)
  · intro q ref hmem
    rcases List.mem_append.mp ((hl.returnTo_sublist d q (f.queues q)).mem hmem) with hmem | hmem
    · obtain ⟨x, hx, rfl⟩ := List.mem_map.mp hmem
      exact ⟨(hl.traced d).part_eq hx, hl.unsettled d q x hx⟩
    · exact hl.queued q ref hmem
  · intro d' q x hx
    rcases hupdate d' with heq | ⟨-, heq⟩ <;> simp only [heq] at hx
    · cases hx
    · exact hl.unsettled d' q x hx
  · intro d' p hp
    rcases hupdate d' with heq | ⟨-, heq⟩ <;> simp only [heq] at hp
    · cases hp
    · exact hl.claimed d' p hp
  · intro d' p hp
    rcases hupdate d' with heq | ⟨-, heq⟩ <;> simp only [heq] at hp
    · cases hp
    · exact hl.labelled d' p hp

lemma InOrder.init : InOrder part PartitionedFleet.init [] := by
  refine ⟨fun _ => .init, fun _ _ _ => rfl, fun _ => .nil, ?_, ?_, ?_, ?_, ?_, ?_⟩
  · rintro q ref ⟨⟩
  · rintro d q x ⟨⟩
  · rintro p ⟨⟩
  · rintro d p ⟨⟩
  · rintro d p ⟨⟩
  · rintro p ⟨⟩

/-- The partition of a video. -/
def partition (sha256 : List UInt8 → List UInt8) (cfg : DetectorSettings) (videoId : String) : ℕ :=
  partitionFor sha256 videoId cfg.framePartitions

/-- The frames of each video are published with increasing ids, the guard keeps its keys and no
frame loses its place by being requeued. -/
def inPlace (sha256 : List UInt8 → List UInt8) (cfg : DetectorSettings) (f : PartitionedFleet)
    (h : List Output) (e : Event) : Prop :=
  increasing f h e ∧ requeuesAhead (partition sha256 cfg) f h e

instance (sha256 : List UInt8 → List UInt8) (cfg : DetectorSettings) (f : PartitionedFleet)
    (h : List Output) (e : Event) : Decidable (inPlace sha256 cfg f h e) :=
  inferInstanceAs (Decidable (_ ∧ _))

variable {sha256 : List UInt8 → List UInt8} {n : ℕ}

theorem InOrder.step (hl : InOrder (partition sha256 cfg) f h)
    (hr : Rule sha256 cfg n f e f' out) (hok : inPlace sha256 cfg f h e) :
    InOrder (partition sha256 cfg) f' (h ++ out) := by
  cases hr with
  | publish ref q hq => exact hl.publish hq hok.1
  | malformed q =>
    rw [List.append_nil]
    exact hl.malformed q
  | activate q d hd hnone =>
    rw [List.append_nil]
    exact hl.activate hnone d
  | deliver q tag d m ms ch hact hq hc =>
    rw [List.append_nil]
    exact hl.deliver hact hq hc
  | replica d e pos c o guard hd hc hg => exact hl.replica hc hg hok.1 hok.2
  | expire key => exact hok.1.elim
  | crash d hd =>
    rw [List.append_nil]
    exact hl.crash d

lemma InOrder.of_reach
    (hr : (machine sha256 cfg n).Reach (inPlace sha256 cfg) PartitionedFleet.init f h) :
    InOrder (partition sha256 cfg) f h := by
  refine hr.invariant .init ?_
  intro f h e f' out _ hl hok hs
  exact hl.step (Rule.of_step hs) hok

/-- A consumer that has a frame of a video is the active one of its partition. -/
lemma InOrder.active_of_has (hl : InOrder part f h) {videoId : String}
    (hhas : (f.replicas d).Has videoId) : f.active (part videoId) = some d := by
  by_contra hne
  have hnil := hl.standby (part videoId) d hne
  rcases hhas with ⟨x, hx, rfl⟩ | ⟨q, a, ha, ref, hbody, rfl⟩
  · have hmem : (x.tag, x.ref) ∈ (f.replicas d).lineOf part (part x.ref.videoId) :=
      List.mem_append_left _ (PartitionedConsumer.mem_ofPartition hx)
    rw [hnil] at hmem
    cases hmem
  · obtain rfl := ((hl.traced d).routed q a ha).2 ref hbody
    have hmem : (a.tag, ref) ∈ (f.replicas d).lineOf part (part ref.videoId) :=
      List.mem_append_right _ (List.mem_filterMap.mpr ⟨a, ha, by simp [Arrival.tagged?, hbody]⟩)
    rw [hnil] at hmem
    cases hmem

/-- Through any number of crashes, the reports of each video are in the order of its frame ids, and
all that is handed out of a video is with one detector, as long as no frame loses its place by being
requeued. -/
theorem keeps_video_order
    (hr : (machine sha256 cfg n).Reach (inPlace sha256 cfg) PartitionedFleet.init f h)
    (videoId : String) :
    ((((returned h).map Pending.result).filter (·.videoId = videoId)).map
      RespObject.frameId).Pairwise (· < ·) ∧
    ∀ d d', (f.replicas d).Has videoId → (f.replicas d').Has videoId → d = d' := by
  have hl := InOrder.of_reach hr
  constructor
  · have hline := hl.line (partition sha256 cfg videoId)
    rw [PartitionedFleet.line, List.pairwise_append, resultsOf_append, List.pairwise_append]
      at hline
    have hreports := hline.1.1
    rw [resultsOf, List.pairwise_filter, List.pairwise_map] at hreports
    rw [List.pairwise_map, List.pairwise_filter, List.pairwise_map]
    refine hreports.imp_of_mem ?_
    intro p q hp hq hpq hpv hqv
    obtain ⟨hpv', hpi⟩ := hl.reported p hp
    obtain ⟨hqv', hqi⟩ := hl.reported q hq
    have hpv : p.delivery.ref.videoId = videoId := hpv'.symm.trans (of_decide_eq_true hpv)
    have hqv : q.delivery.ref.videoId = videoId := hqv'.symm.trans (of_decide_eq_true hqv)
    rw [hpi, hqi]
    exact hpq (by simp [hpv]) (by simp [hqv]) (hpv.trans hqv.symm)
  · intro d d' hd hd'
    exact Option.some.inj ((hl.active_of_has hd).symm.trans (hl.active_of_has hd'))

/-- A detector dies when it has reported the first frame of a video and has the second in a pump.
The standby gets both, drops the first as a duplicate and reports the second. The frame of another
video goes another way. -/
theorem keeps_video_order_failover : ∃ sha256 cfg f h,
    (machine sha256 cfg 2).Reach (inPlace sha256 cfg) PartitionedFleet.init f h ∧
      (returned h).map (fun p => (p.result.videoId, p.result.frameId)) =
        [("v", 0), ("u", 0), ("v", 12)] ∧
      ((((returned h).map Pending.result).filter (·.videoId = "v")).map
        RespObject.frameId).Pairwise (· < ·) ∧
      ∀ d d', (f.replicas d).Has "v" → (f.replicas d').Has "v" → d = d' := by
  -- the digests of the two ids
  let sha256 : List UInt8 → List UInt8 := fun bytes =>
    if bytes = "u".toUTF8.toList then
      [11, 254, 147, 94, 112, 195, 33, 199, 202, 58, 252, 117, 206, 13, 12, 162, 249, 139, 84, 34,
        224, 8, 187, 49, 192, 12, 109, 127, 31, 28, 10, 214]
    else
      [76, 148, 72, 94, 12, 33, 174, 108, 65, 206, 29, 254, 123, 107, 250, 206, 234, 90, 182, 142,
        64, 162, 71, 111, 80, 32, 142, 82, 111, 80, 96, 128]
  let cfg : DetectorSettings := {framePartitions := 2, batchMaxSize := 1}
  have hrun : ∃ f h, (machine sha256 cfg 2).Reach (inPlace sha256 cfg) PartitionedFleet.init f h ∧
      (returned h).map (fun p => (p.result.videoId, p.result.frameId)) =
        [("v", 0), ("u", 0), ("v", 12)] :=
    Machine.Reach.exists_of_exec
      [.publish ⟨"j", "v", 0, 0, 0, blobKey "j" 0⟩, .publish ⟨"k", "u", 0, 0, 0, blobKey "k" 0⟩,
        .publish ⟨"j", "v", 12, 0, 0, blobKey "j" 12⟩, .activate 0 0, .activate 1 1,
        .deliver 0 1, .deliver 0 2, .replica 0 (.read 0) 0, .replica 0 (.put 0) 0,
        .replica 0 (.take 0) 0, .replica 0 (.work (.loaded .frame)) 0,
        .replica 0 (.work (.detected (some []))) 0, .replica 0 (.work (.claimed .won)) 0,
        .replica 0 (.work (.add 0)) 0, .replica 0 (.work (.batcher .sinkReturned)) 0,
        .replica 0 (.read 0) 0, .crash 0, .activate 0 1, .deliver 1 1,
        .replica 1 (.read 1) 0, .replica 1 (.put 1) 0, .replica 1 (.take 0) 0,
        .replica 1 (.work (.loaded .frame)) 0, .replica 1 (.work (.detected (some []))) 0,
        .replica 1 (.work (.claimed .won)) 0, .replica 1 (.work (.add 0)) 0,
        .replica 1 (.work (.batcher .sinkReturned)) 0,
        .replica 1 (.work (.batcher .settleNext)) 0, .replica 1 (.work .counted) 0,
        .deliver 0 2, .deliver 0 3, .replica 1 (.read 0) 0, .replica 1 (.put 0) 0,
        .replica 1 (.take 0) 0, .replica 1 (.work (.loaded .frame)) 0,
        .replica 1 (.work (.detected (some []))) 0, .replica 1 (.work (.claimed .lost)) 0,
        .replica 1 (.work .settled) 0, .replica 1 (.read 0) 0, .replica 1 (.put 0) 0,
        .replica 1 (.take 0) 0, .replica 1 (.work (.loaded .frame)) 0,
        .replica 1 (.work (.detected (some []))) 0, .replica 1 (.work (.claimed .won)) 0,
        .replica 1 (.work (.add 0)) 0, .replica 1 (.work (.batcher .sinkReturned)) 0]
      (by decide +kernel)
  obtain ⟨f, h, hr, hret⟩ := hrun
  exact ⟨sha256, cfg, f, h, hr, hret, keeps_video_order hr "v"⟩

end PartitionedFleet

end VideoPipeline
