import VideoPipeline.Detector.Fleet

/-!
# The order of the reports of a video

One detector reading one queue. The frames it has reported, those on their way to the sink and the
unclaimed ones it has still to process form a line. As long as the guard keeps its keys, only a
frame that is requeued without having been claimed can lose its place in it.
-/

namespace VideoPipeline

open Amqp

namespace Worker

/-- The delivery that `process` is working on, or that goes back to the queue for another try. -/
def Phase.retry : Phase → List Delivery
  | .loading d            => [d]
  | .detecting d          => [d]
  | .claiming d _         => [d]
  | .settling d .requeued => [d]
  | _                     => []

/-- The results a worker has not settled yet. -/
def results (w : Worker) : List Pending := w.batcher.buffered ++ w.phase.adding?

variable {cfg : DetectorSettings} {w w' : Worker} {op : Op} {acts : List Act}

lemma retry_of_inProcess {p : Phase} {d : Delivery} (h : p.inProcess = some d) :
    p.retry = [d] := by
  cases p <;> simp_all [Phase.inProcess, Phase.retry]

lemma retry_sublist_current (p : Phase) : p.retry.Sublist p.current := by
  unfold Phase.retry
  split <;> simp [Phase.current]

lemma handle_retry (w : Worker) (d : Delivery) (o : Outcome) :
    (w.handle d o).1.phase.retry.Sublist [d] := by
  have h := retry_sublist_current (w.handle d o).1.phase
  rwa [handle_current] at h

lemma retry_of_current {p : Phase} (h : p.current = []) : p.retry = [] := by
  have hsub := retry_sublist_current p
  rw [h] at hsub
  exact List.sublist_nil.mp hsub

/-- No step takes a delivery up again. -/
lemma Rule.retry_sublist (h : Rule cfg w op w' acts) : w'.phase.retry.Sublist w.phase.retry := by
  have hafter : ∀ v : Worker, v.afterFlush.phase.retry.Sublist v.phase.retry := by
    intro v
    rcases afterFlush_phase v with hv | hv
    · rw [hv]
    · rw [retry_of_current hv]
      exact List.nil_sublist _
  cases h with
  | @proceed _ p d hw hp => rw [retry_of_inProcess hw, retry_of_inProcess hp]
  | fail d o hw ho =>
    rw [retry_of_inProcess hw]
    exact handle_retry w d o
  | claimed d faces r hw =>
    rw [hw]
    exact handle_retry w d _
  | settled | buffered | filled | counted => exact List.nil_sublist _
  | nothing => exact hafter w
  | flushed | sinkReturned | sinkRaised => exact .refl _
  | batchAcked => exact hafter _
  | itemNacked => exact hafter _

/-- The results of a worker come from `process`. -/
lemma Rule.results_origin (h : Rule cfg w op w' acts) {p : Pending} (hp : p ∈ w'.results) :
    p ∈ w.results ∨ p ∈ acts.flatMap Act.won := by
  have hafter : ∀ v : Worker, v.afterFlush.results = v.results := by
    intro v
    rw [results, results, afterFlush_batcher, afterFlush_adding]
  have hhandle : ∀ d o, (w.handle d o).1.results = w.batcher.buffered ++ (Act.outcome d o).won := by
    intro d o
    rw [results, handle_batcher]
    cases o with
    | transient =>
      simp only [Worker.handle]
      split <;> rfl
    | _ => rfl
  cases h with
  | @proceed _ q d hw hq =>
    rw [results, adding_of_inProcess hq, List.append_nil] at hp
    exact .inl (List.mem_append_left _ hp)
  | fail d o hw ho =>
    rw [hhandle] at hp
    rw [handle_acts]
    simp only [results, List.mem_append, List.flatMap_cons, List.flatMap_nil, List.append_nil]
      at hp ⊢
    tauto
  | claimed d faces r hw =>
    rw [hhandle] at hp
    simp only [results, List.mem_append, List.flatMap_cons, List.flatMap_nil, List.append_nil]
      at hp ⊢
    tauto
  | settled | counted =>
    have hp : p ∈ w.batcher.buffered ++ [] := hp
    rw [List.append_nil] at hp
    exact .inl (List.mem_append_left _ hp)
  | buffered d r now t hw hb =>
    simp only [results, added, Batcher.buffered, Batcher.inFlush, hb, hw, Phase.adding?,
      List.nil_append, List.mem_append, List.mem_singleton] at hp ⊢
    tauto
  | filled d r now t hw hb =>
    simp only [results, Batcher.buffered, Batcher.inFlush, hb, hw, Phase.adding?,
      List.nil_append, List.append_nil, List.mem_append, List.mem_singleton] at hp ⊢
    tauto
  | nothing e hb =>
    rw [hafter] at hp
    exact .inl hp
  | flushed e reason hb hne =>
    left
    simpa [results, Batcher.buffered, Batcher.inFlush, hb] using hp
  | sinkReturned reason batch hb | sinkRaised reason batch hb =>
    left
    simpa [results, Batcher.buffered, Batcher.inFlush, hb] using hp
  | batchAcked reason batch hb =>
    left
    rw [Worker.batchAcked, hafter] at hp
    simp only [results, Batcher.buffered, Batcher.inFlush, hb, List.nil_append,
      List.mem_append] at hp ⊢
    tauto
  | itemNacked reason q batch hb =>
    left
    rw [Worker.itemNacked, hafter] at hp
    cases batch <;>
      simp only [results, Batcher.buffered, Batcher.inFlush, hb, List.isEmpty_nil,
        List.isEmpty_cons, if_true, Bool.false_eq_true, if_false, List.nil_append,
        List.mem_append, List.mem_cons] at hp ⊢ <;>
      tauto

end Worker

namespace Replica

variable {cfg : DetectorSettings} {r : Replica}

/-- What a step of the worker puts back into the queue: nothing, the delivery in hand or the oldest
item of a failed batch. -/
lemma requeued_cases (hinv : r.Inv) {w : Worker} {op : Worker.Op} {acts : List Act}
    (h : Worker.Rule cfg r.worker op w acts) :
    (perform r.channel acts).2.filterMap Out.requeued? = [] ∨
    (∃ d, r.worker.phase = .settling d .requeued ∧ op = .settled ∧ w = r.worker.released ∧
      acts.flatMap Act.won = [] ∧
      (perform r.channel acts).2.filterMap Out.requeued? = [d]) ∨
    (∃ p ∈ r.worker.batcher.buffered, op = .batcher .settleNext ∧
      (perform r.channel acts).2.filterMap Out.requeued? = [p.delivery]) := by
  rcases h.quiet_or_settles with ⟨-, hq⟩ | ⟨d, v, hp, rfl, rfl, rfl⟩ |
    ⟨reason, batch, hb, rfl, rfl, rfl⟩ | ⟨reason, p, batch, hb, rfl, rfl, rfl⟩
  · left
    rw [perform_quiet hq]
    simp [Out.requeued?]
  · have hc : r.channel.unsettled = r.worker.buffered ++ d :: r.prefetched := by
      rw [hinv.unsettled, Worker.settling_held hp, List.append_assoc, List.singleton_append]
    obtain ⟨hv, hby, -⟩ := Channel.settle_tag hc (v.covers_call d.tag) (v.tag_call d.tag)
    rw [perform_settle hv, hby, Verdict.verdict_call]
    cases v with
    | requeued => exact .inr (.inl ⟨d, hp, rfl, rfl, rfl, rfl⟩)
    | _ => exact .inl rfl
  · obtain ⟨hv, hby, -⟩ := settle_batch (hinv.wellFormed _ hb) (hinv.unsettled_flushing hb)
    left
    rw [perform_settle hv, hby]
    simp [Out.requeued?, Settle.verdict]
  · obtain ⟨hv, hby, -⟩ := settle_first (hinv.unsettled_flushing hb)
    rw [perform_settle hv, hby]
    refine .inr (.inr ⟨p, ?_, rfl, rfl⟩)
    rw [Batcher.buffered, Batcher.inFlush_some hb]
    exact List.mem_append_left _ List.mem_cons_self

end Replica

namespace Fleet

variable {cfg : DetectorSettings} {f f' : Fleet} {e : Event} {out h : List Output}

/-! ### The line of a single detector -/

/-- Frames of one video are in the order of their ids. -/
def Before (x y : FrameRef) : Prop := x.videoId = y.videoId → x.frameId < y.frameId

/-- The frames still to be processed, in the order in which the detector gets to them. -/
def toProcess (f : Fleet) : List FrameRef :=
  (f.replicas 0).worker.phase.retry.map Delivery.ref ++
    ((f.replicas 0).prefetched.map Delivery.ref ++ f.queue.map Message.ref)

def unclaimed (guard : List String) (refs : List FrameRef) : List FrameRef :=
  refs.filter fun ref => ref.key ∉ guard

/-- The frames that were reported, are on their way to the sink, or can still be reported. -/
def line (f : Fleet) (h : List Output) : List FrameRef :=
  (returned h ++ (f.replicas 0).worker.unreturned).map (·.delivery.ref) ++
    unclaimed f.guard (toProcess f)

/-- The frames of each video are published with increasing ids into one queue, read by one detector
that does not crash. -/
def oneConsumer : Fleet → List Output → Event → Prop
  | _, h, .publish ref =>
    ∀ ref' ∈ published h, ref'.videoId = ref.videoId → ref'.frameId < ref.frameId
  | _, _, .crash _ _ => False
  | _, _, e => e.InOrder

/-- The delivery that a step requeues for another try, with the frames that come before it then. -/
def retried (f : Fleet) : Event → List (Delivery × List FrameRef)
  | .work d .settled pos =>
    match (f.replicas d).worker.phase with
    | .settling x .requeued => [(x, (f.replicas d).prefetched.map Delivery.ref ++
        (f.queue.take pos).map Message.ref)]
    | _ => []
  | _ => []

/-- A frame that is requeued unclaimed comes back ahead of all unclaimed frames of its video. -/
def requeuesAhead (f : Fleet) (_ : List Output) (e : Event) : Prop :=
  ∀ r ∈ f.retried e, r.1.ref.key ∉ f.guard →
    ∀ ref ∈ unclaimed f.guard r.2, ref.videoId ≠ r.1.ref.videoId

instance (f : Fleet) (h : List Output) (e : Event) : Decidable (oneConsumer f h e) :=
  match e with
  | .publish ref => inferInstanceAs (Decidable (∀ ref' ∈ published h,
      ref'.videoId = ref.videoId → ref'.frameId < ref.frameId))
  | .crash _ _ => inferInstanceAs (Decidable False)
  | .deliver _ i _ | .take _ i _ => inferInstanceAs (Decidable (i = 0))
  | .work .. | .expire _ => inferInstanceAs (Decidable True)

instance (f : Fleet) (h : List Output) (e : Event) : Decidable (requeuesAhead f h e) :=
  inferInstanceAs (Decidable (∀ r ∈ f.retried e, r.1.ref.key ∉ f.guard →
    ∀ ref ∈ unclaimed f.guard r.2, ref.videoId ≠ r.1.ref.videoId))

/-- No frame loses its place: the guard keeps its keys, and requeued frames come back ahead. -/
def keepsPlaces (f : Fleet) (h : List Output) (e : Event) : Prop :=
  guardKeeps f h e ∧ requeuesAhead f h e

instance (f : Fleet) (h : List Output) (e : Event) : Decidable (keepsPlaces f h e) :=
  inferInstanceAs (Decidable (_ ∧ _))

/-- An element is moved past others that need not follow it. -/
lemma pairwise_move {α : Type*} {R : α → α → Prop} {A M D : List α} {x : α}
    (h : (A ++ x :: (M ++ D)).Pairwise R) (hM : ∀ y ∈ M, R y x) :
    (A ++ (M ++ x :: D)).Pairwise R := by
  simp only [List.pairwise_append, List.pairwise_cons, List.mem_append, List.mem_cons] at h ⊢
  obtain ⟨hA, ⟨hx, hMM, hD, hMD⟩, hcross⟩ := h
  refine ⟨hA, ⟨hMM, ⟨fun y hy => hx y (.inr hy), hD⟩, ?_⟩, ?_⟩
  · rintro y hy z (rfl | hz)
    · exact hM y hy
    · exact hMD y hy z hz
  · rintro y hy z (hz | rfl | hz)
    · exact hcross y hy z (.inr (.inl hz))
    · exact hcross y hy z (.inl rfl)
    · exact hcross y hy z (.inr (.inr hz))

lemma unclaimed_append (guard : List String) (as bs : List FrameRef) :
    unclaimed guard (as ++ bs) = unclaimed guard as ++ unclaimed guard bs :=
  List.filter_append _ _

lemma unclaimed_cons_of_mem {guard : List String} {ref : FrameRef} (hk : ref.key ∈ guard)
    (refs : List FrameRef) : unclaimed guard (ref :: refs) = unclaimed guard refs :=
  List.filter_cons_of_neg (by simpa using hk)

lemma unclaimed_cons_of_not_mem {guard : List String} {ref : FrameRef} (hk : ref.key ∉ guard)
    (refs : List FrameRef) : unclaimed guard (ref :: refs) = ref :: unclaimed guard refs :=
  List.filter_cons_of_pos (by simpa using hk)

/-- Claiming a key takes its frames out of the line. -/
lemma unclaimed_cons_guard_sublist (k : String) (guard : List String) (refs : List FrameRef) :
    (unclaimed (k :: guard) refs).Sublist (unclaimed guard refs) := by
  apply List.monotone_filter_right
  intro ref hr
  simp only [List.mem_cons, not_or, decide_eq_true_eq] at hr ⊢
  exact hr.2

section Line

variable {guard : List String} {A A' retry retry' rest pre T D : List FrameRef} {x : FrameRef}

/-- Nothing is requeued. -/
lemma line_keep (hA : A'.Sublist A) (hretry : retry'.Sublist retry)
    (h : (A ++ unclaimed guard (retry ++ rest)).Pairwise Before) :
    (A' ++ unclaimed guard (retry' ++ rest)).Pairwise Before :=
  h.sublist (hA.append ((hretry.append_right rest).filter _))

/-- The frame at the head is claimed and becomes a result. -/
lemma line_claim (hfree : x.key ∉ guard) (hA : A'.Sublist (A ++ [x])) (hretry : retry'.Sublist [x])
    (h : (A ++ unclaimed guard (x :: rest)).Pairwise Before) :
    (A' ++ unclaimed (x.key :: guard) (retry' ++ rest)).Pairwise Before := by
  rw [unclaimed_cons_of_not_mem hfree, ← List.singleton_append, ← List.append_assoc] at h
  refine h.sublist (hA.append ?_)
  have hsub := unclaimed_cons_guard_sublist x.key guard rest
  have hdrop := (hretry.append_right rest).filter fun ref => decide (ref.key ∉ x.key :: guard)
  rw [List.singleton_append, List.filter_cons_of_neg (by simp)] at hdrop
  exact hdrop.trans hsub

/-- A claimed frame is requeued. -/
lemma line_requeue_claimed (hk : x.key ∈ guard) (hA : A'.Sublist A) (hretry : retry'.Sublist retry)
    (h : (A ++ unclaimed guard (retry ++ (pre ++ (T ++ D)))).Pairwise Before) :
    (A' ++ unclaimed guard (retry' ++ (pre ++ (T ++ x :: D)))).Pairwise Before := by
  have heq : unclaimed guard (retry' ++ (pre ++ (T ++ x :: D))) =
      unclaimed guard (retry' ++ (pre ++ (T ++ D))) := by
    simp only [unclaimed_append, unclaimed_cons_of_mem hk]
  rw [heq]
  exact line_keep hA hretry h

/-- The frame at the head is requeued, ahead of those of its video. -/
lemma line_requeue (hfree : x.key ∉ guard) (hA : A'.Sublist A)
    (hahead : ∀ ref ∈ unclaimed guard (pre ++ T), ref.videoId ≠ x.videoId)
    (h : (A ++ unclaimed guard ([x] ++ (pre ++ (T ++ D)))).Pairwise Before) :
    (A' ++ unclaimed guard (pre ++ (T ++ x :: D))).Pairwise Before := by
  have hmove : (A ++ (unclaimed guard (pre ++ T) ++ x :: unclaimed guard D)).Pairwise Before := by
    apply pairwise_move
    · rwa [List.singleton_append, unclaimed_cons_of_not_mem hfree, ← List.append_assoc,
        unclaimed_append] at h
    · intro y hy hv
      exact absurd hv (hahead y hy)
  rw [← unclaimed_cons_of_not_mem hfree, ← unclaimed_append, List.append_assoc] at hmove
  exact hmove.sublist (hA.append_right _)

end Line

/-- What holds along a run of a single detector. -/
structure InLine (f : Fleet) (h : List Output) : Prop where
  sound : Sound f h
  line : (line f h).Pairwise Before
  queue : ∀ m ∈ f.queue, m.ref ∈ published h
  unsettled : ∀ x ∈ (f.replicas 0).channel.unsettled, x.ref ∈ published h
  returned : ∀ p ∈ returned h, p.delivery.ref ∈ published h
  claimed : ∀ p ∈ (f.replicas 0).worker.results, p.key ∈ f.guard
  labelled : Labelled f h

lemma InLine.init (guard : List String) : InLine { Fleet.init with guard := guard } [] := by
  refine ⟨.init guard, .nil, ?_, ?_, ?_, ?_, ⟨?_, ?_⟩⟩
  · intro m hm
    cases hm
  · intro x hx
    cases hx
  · intro p hp
    cases hp
  · intro p hp
    cases hp
  · intro d p hp
    cases hp
  · intro p hp
    cases hp

/-- What the detector holds was published. -/
lemma InLine.held (hl : InLine f h) {x : Delivery} (hx : x ∈ (f.replicas 0).worker.held) :
    x.ref ∈ published h := by
  refine hl.unsettled x ?_
  rw [(hl.sound.inv 0).unsettled]
  exact List.mem_append_left _ hx

lemma InLine.mem_published (hl : InLine f h) {ref : FrameRef} (hr : ref ∈ Fleet.line f h) :
    ref ∈ published h := by
  simp only [Fleet.line, toProcess, unclaimed, List.mem_append, List.mem_filter, List.mem_map]
    at hr
  rcases hr with ⟨p, hp | hp, rfl⟩ | ⟨⟨x, hx, rfl⟩ | ⟨x, hx, rfl⟩ | ⟨m, hm, rfl⟩, -⟩
  · exact hl.returned p hp
  · exact hl.held (Worker.unreturned_held hp)
  · exact hl.held (List.mem_append_right _ ((Worker.retry_sublist_current _).mem hx))
  · refine hl.unsettled x ?_
    rw [(hl.sound.inv 0).unsettled]
    exact List.mem_append_right _ hx
  · exact hl.queue m hm

lemma map_requeue_one (pos : ℕ) (x : Delivery) (q : List Message) :
    (requeue (fun _ => pos) [x] q).map Message.ref =
      (q.take pos).map Message.ref ++ x.ref :: (q.drop pos).map Message.ref := by
  simp [requeue]

/-- The line after a step of the worker. -/
lemma InLine.line_work (hl : InLine f h) {op : Worker.Op} {pos : ℕ} {w : Worker} {as : List Act}
    {guard : List String} (hw : Worker.Rule cfg (f.replicas 0).worker op w as)
    (hg : answer f.guard as = some guard) (hkeeps : guardKeeps f h (.work 0 op pos))
    (hahead : requeuesAhead f h (.work 0 op pos)) :
    ((Fleet.returned h ++ as.flatMap Act.returned ++ w.unreturned).map (·.delivery.ref) ++
      unclaimed guard (w.phase.retry.map Delivery.ref ++
        ((f.replicas 0).prefetched.map Delivery.ref ++
          (requeue (fun _ => pos) ((perform (f.replicas 0).channel as).2.filterMap Out.requeued?)
            f.queue).map Message.ref))).Pairwise Before := by
  have hretry := hw.retry_sublist.map Delivery.ref
  have hresults : ((Fleet.returned h ++ as.flatMap Act.returned ++ w.unreturned).map
      (·.delivery.ref)).Sublist ((Fleet.returned h ++ (f.replicas 0).worker.unreturned).map
        (·.delivery.ref) ++ (as.flatMap Act.won).map (·.delivery.ref)) := by
    rw [← List.map_append]
    apply List.Sublist.map
    rw [List.append_assoc, List.append_assoc]
    exact hw.unreturned_sublist.append_left _
  have hline := hl.line
  rw [Fleet.line, toProcess] at hline
  have hsplit : f.queue.map Message.ref =
      (f.queue.take pos).map Message.ref ++ (f.queue.drop pos).map Message.ref := by
    rw [← List.map_append, List.take_append_drop]
  rcases Replica.requeued_cases (hl.sound.inv 0) hw with hnone | ⟨x, hphase, rfl, rfl, hwon, hone⟩ |
    ⟨p, hp, rfl, hone⟩
  · rw [hnone]
    rcases hw.answer_cases hg with ⟨rfl, hwon, -⟩ |
      ⟨x, faces, hphase, ⟨rfl, hfree, rfl, hwon, -⟩ | ⟨rfl, -⟩ | ⟨-, -, rfl, hwon, -⟩⟩
    · rw [hwon, List.map_nil, List.append_nil] at hresults
      exact line_keep hresults hretry hline
    · rw [hphase] at hline hretry
      rw [hwon] at hresults
      exact line_claim hfree hresults hretry hline
    · exact hkeeps.elim
    · rw [hwon, List.map_nil, List.append_nil] at hresults
      exact line_keep hresults hretry hline
  · obtain rfl : guard = f.guard := by
      rcases hw.answer_cases hg with ⟨hgd, -⟩ | ⟨_, _, _, ⟨ho, -⟩ | ⟨ho, -⟩ | ⟨ho, -⟩⟩
      · exact hgd
      all_goals cases ho
    rw [hwon, List.map_nil, List.append_nil] at hresults
    rw [hone, map_requeue_one]
    rw [hsplit, hphase] at hline
    by_cases hk : x.ref.key ∈ f.guard
    · exact line_requeue_claimed hk hresults (List.nil_sublist _) hline
    · refine line_requeue hk hresults (hahead (x, _) ?_ hk) hline
      simp [retried, hphase]
  · obtain ⟨hgd, hwon⟩ : guard = f.guard ∧ as.flatMap Act.won = [] := by
      rcases hw.answer_cases hg with ⟨hgd, hwon, -⟩ | ⟨_, _, _, ⟨ho, -⟩ | ⟨ho, -⟩ | ⟨ho, -⟩⟩
      · exact ⟨hgd, hwon⟩
      all_goals cases ho
    have hk : p.delivery.ref.key ∈ guard := hgd ▸ hl.claimed p (List.mem_append_left _ hp)
    rw [hwon, List.map_nil, List.append_nil] at hresults
    rw [hone, map_requeue_one]
    rw [hsplit] at hline
    rw [hgd] at hk ⊢
    exact line_requeue_claimed hk hresults hretry hline

lemma take_retry {w w' : Worker} {x : Delivery} {now : ℚ} {as : List Act}
    (h : w.take cfg x now = some (w', as)) :
    w'.phase.retry.Sublist [x] ∧ w.phase.retry = [] ∧ w'.results = w.results := by
  have hbat := (Worker.take_effect h).2.1
  obtain ⟨hw, ⟨rfl, rfl⟩ | ⟨-, rfl, rfl⟩⟩ := Worker.take_cases h
  · exact ⟨.refl _, by rw [hw]; rfl, by rw [Worker.results, Worker.results, hw]; rfl⟩
  · refine ⟨List.nil_sublist _, by rw [hw]; rfl, ?_⟩
    rw [Worker.results, Worker.results, hbat, hw]
    rfl

/-- The step of a single detector keeps the line. -/
lemma InLine.line_step (hl : InLine f h) (hr : Rule cfg 1 f e f' out) (hone : oneConsumer f h e)
    (hkeeps : keepsPlaces f h e) : (Fleet.line f' (h ++ out)).Pairwise Before := by
  have hline := hl.line
  cases hr with
  | publish ref =>
    have heq : Fleet.line { f with queue := f.queue ++ [⟨ref, false⟩] } (h ++ [.published ref]) =
        Fleet.line f h ++ unclaimed f.guard [ref] := by
      have hret : Fleet.returned [Output.published ref] = [] := rfl
      simp only [Fleet.line, toProcess, returned_append, hret, List.append_nil, List.map_append,
        List.map_cons, List.map_nil, unclaimed_append, List.append_assoc]
    rw [heq, List.pairwise_append]
    refine ⟨hline, (List.pairwise_singleton _ _).filter _, ?_⟩
    intro x hx y hy
    obtain rfl : y = ref := by simpa using (List.mem_filter.mp hy).1
    exact hone x (hl.mem_published hx)
  | deliver d i tag m c hd hm hc =>
    obtain rfl : d = 0 := by omega
    obtain rfl : i = 0 := hone
    obtain ⟨q, hq⟩ : ∃ q, f.queue = m :: q := by
      cases hqq : f.queue with
      | nil => simp [hqq] at hm
      | cons m' q =>
        rw [hqq, List.getElem?_cons_zero, Option.some.injEq] at hm
        exact ⟨q, by rw [hm]⟩
    simpa [Fleet.line, toProcess, hq, Worker.unreturned, Worker.sinking, Worker.awaiting]
      using hline
  | take d i now x w as hd hx hw =>
    obtain rfl : d = 0 := by omega
    obtain rfl : i = 0 := hone
    obtain ⟨ds, hp⟩ : ∃ ds, (f.replicas 0).prefetched = x :: ds := by
      cases hpp : (f.replicas 0).prefetched with
      | nil => simp [hpp] at hx
      | cons y ds =>
        rw [hpp, List.getElem?_cons_zero, Option.some.injEq] at hx
        exact ⟨ds, by rw [hx]⟩
    obtain ⟨hs, ha, -, -, hret⟩ := Worker.take_flow hw
    obtain ⟨hretry, hnone, -⟩ := take_retry hw
    rw [Fleet.line, toProcess, hnone, hp] at hline
    rw [Fleet.line, toProcess, returned_append, returned_map_act, hret, List.append_nil]
    simp only [Function.update_self, hp, List.eraseIdx_zero, List.tail_cons, Worker.unreturned,
      hs, ha]
    exact line_keep (.refl _) (hretry.map Delivery.ref) hline
  | work d op pos w as guard hd hw hg =>
    obtain rfl : d = 0 := by omega
    have hwork := hl.line_work (Worker.Rule.of_step hw) hg hkeeps.1 hkeeps.2
    rw [Fleet.line, toProcess, returned_append, returned_perform]
    simpa only [Function.update_self, List.append_assoc] using hwork
  | expire key => exact hkeeps.1.elim
  | crash d pos hd => exact hone.elim

/-- Every frame of the single detector, of its queue and of its reports was published. -/
lemma InLine.published_step (hl : InLine f h) (hr : Rule cfg 1 f e f' out)
    (hone : oneConsumer f h e) :
    (∀ m ∈ f'.queue, m.ref ∈ published (h ++ out)) ∧
      (∀ x ∈ (f'.replicas 0).channel.unsettled, x.ref ∈ published (h ++ out)) ∧
      ∀ p ∈ Fleet.returned (h ++ out), p.delivery.ref ∈ published (h ++ out) := by
  have hmono : ∀ {ref}, ref ∈ published h → ref ∈ published (h ++ out) := by
    intro ref hmem
    rw [published_append]
    exact List.mem_append_left _ hmem
  have hret : ∀ as, Fleet.returned out = as → (∀ p ∈ as, p.delivery.ref ∈ published h) →
      ∀ p ∈ Fleet.returned (h ++ out), p.delivery.ref ∈ published (h ++ out) := by
    rintro as rfl has p hp
    rw [returned_append] at hp
    rcases List.mem_append.mp hp with hp | hp
    · exact hmono (hl.returned p hp)
    · exact hmono (has p hp)
  cases hr with
  | publish ref =>
    refine ⟨?_, fun x hx => hmono (hl.unsettled x hx), hret [] rfl (by simp)⟩
    intro m hm
    rcases List.mem_append.mp hm with hm | hm
    · exact hmono (hl.queue m hm)
    · rw [List.mem_singleton.mp hm, published_append]
      exact List.mem_append_right _ (List.mem_singleton_self ref)
  | deliver d i tag m c hd hm hc =>
    obtain rfl : d = 0 := by omega
    obtain ⟨-, -, hu⟩ := Channel.deliver_eq_some hc
    have hmem : m ∈ f.queue := List.mem_of_getElem? hm
    refine ⟨fun m' hm' => hmono (hl.queue m' (List.mem_of_mem_eraseIdx hm')), ?_,
      hret [] rfl (by simp)⟩
    simp only [Function.update_self, hu]
    intro x hx
    rcases List.mem_append.mp hx with hx | hx
    · exact hmono (hl.unsettled x hx)
    · rw [List.mem_singleton.mp hx]
      exact hmono (hl.queue m hmem)
  | take d i now x w as hd hx hw =>
    obtain rfl : d = 0 := by omega
    refine ⟨fun m hm => hmono (hl.queue m hm), ?_, hret [] ?_ (by simp)⟩
    · simp only [Function.update_self]
      exact fun y hy => hmono (hl.unsettled y hy)
    · rw [returned_map_act, (Worker.take_flow hw).2.2.2.2]
  | work d op pos w as guard hd hw hg =>
    obtain rfl : d = 0 := by omega
    have hrule := Worker.Rule.of_step hw
    refine ⟨?_, ?_, hret _ (returned_perform 0 _ as) ?_⟩
    · intro m hm
      rcases mem_requeue hm with hm | ⟨x, hx, hmx⟩
      · exact hmono (hl.queue m hm)
      · rw [hmx]
        exact hmono (hl.unsettled x (requeued_unsettled hx))
    · simp only [Function.update_self]
      intro x hx
      exact hmono (hl.unsettled x
        ((perform_perm _ as).mem_iff.mp (List.mem_append_right _ hx)))
    · intro p hp
      rcases hrule.unreturned_origin (.inr hp) with hp | hp
      · exact hl.held (Worker.unreturned_held hp)
      · rcases hrule.answer_cases hg with ⟨-, hwon, -⟩ |
          ⟨x, faces, hphase, ⟨-, -, -, hwon, -⟩ | ⟨-, -, hwon, -⟩ | ⟨-, -, -, hwon, -⟩⟩
        · rw [hwon] at hp
          cases hp
        · rw [hwon] at hp
          rw [List.mem_singleton.mp hp]
          exact hl.held (by simp [Worker.held, hphase, Worker.Phase.current])
        · rw [hwon] at hp
          rw [List.mem_singleton.mp hp]
          exact hl.held (by simp [Worker.held, hphase, Worker.Phase.current])
        · rw [hwon] at hp
          cases hp
  | expire key =>
    rw [List.append_nil]
    exact ⟨hl.queue, hl.unsettled, hl.returned⟩
  | crash d pos hd => exact hone.elim

/-- The results of the single detector are claimed. -/
lemma InLine.claimed_step (hl : InLine f h) (hr : Rule cfg 1 f e f' out)
    (hone : oneConsumer f h e) (hkeeps : guardKeeps f h e) :
    ∀ p ∈ (f'.replicas 0).worker.results, p.key ∈ f'.guard := by
  cases hr with
  | publish ref => exact hl.claimed
  | deliver d i tag m c hd hm hc =>
    obtain rfl : d = 0 := by omega
    simp only [Function.update_self]
    exact hl.claimed
  | take d i now x w as hd hx hw =>
    obtain rfl : d = 0 := by omega
    simp only [Function.update_self, (take_retry hw).2.2]
    exact hl.claimed
  | work d op pos w as guard hd hw hg =>
    obtain rfl : d = 0 := by omega
    have hrule := Worker.Rule.of_step hw
    simp only [Function.update_self]
    intro p hp
    rcases hrule.answer_cases hg with ⟨rfl, hwon, -⟩ |
      ⟨x, faces, hphase, ⟨-, -, rfl, hwon, -⟩ | ⟨rfl, -⟩ | ⟨-, -, rfl, hwon, -⟩⟩
    · rcases hrule.results_origin hp with hp | hp
      · exact hl.claimed p hp
      · rw [hwon] at hp
        cases hp
    · rcases hrule.results_origin hp with hp | hp
      · exact List.mem_cons_of_mem _ (hl.claimed p hp)
      · rw [hwon] at hp
        rw [List.mem_singleton.mp hp]
        exact List.mem_cons_self
    · exact hkeeps.elim
    · rcases hrule.results_origin hp with hp | hp
      · exact hl.claimed p hp
      · rw [hwon] at hp
        cases hp
  | expire key => exact hkeeps.elim
  | crash d pos hd => exact hone.elim

theorem InLine.step (hl : InLine f h) (hr : Rule cfg 1 f e f' out) (hone : oneConsumer f h e)
    (hkeeps : keepsPlaces f h e) : InLine f' (h ++ out) := by
  have hord : e.InOrder := by
    cases e with
    | deliver | take => exact hone
    | work | expire | publish | crash => trivial
  obtain ⟨hqueue, hunsettled, hreturned⟩ := hl.published_step hr hone
  exact ⟨hl.sound.step hr hord, hl.line_step hr hone hkeeps, hqueue, hunsettled, hreturned,
    hl.claimed_step hr hone hkeeps.1, hl.labelled.step hr⟩

/-- While no frame loses its place, the reports of each video are in the order of its frame ids. -/
theorem reported_in_order {guard : List String}
    (hr : (machine cfg 1).Reach (fun f h e => oneConsumer f h e ∧ keepsPlaces f h e)
      { Fleet.init with guard := guard } f h) (videoId : String) :
    ((((returned h).map Pending.result).filter (·.videoId = videoId)).map
      RespObject.frameId).Pairwise (· < ·) := by
  have hl : InLine f h := by
    refine hr.invariant (.init guard) ?_
    intro f h e f' out _ hl hok hs
    exact hl.step (Rule.of_step hs) hok.1 hok.2
  have hreturned : (returned h).Pairwise fun p q =>
      p.result.videoId = q.result.videoId → p.result.frameId < q.result.frameId := by
    have hline := hl.line
    rw [line, List.pairwise_append, List.map_append, List.pairwise_append, List.pairwise_map]
      at hline
    refine hline.1.1.imp_of_mem ?_
    intro p q hp hq hpq hv
    obtain ⟨hpv, hpi⟩ := hl.labelled.2 p hp
    obtain ⟨hqv, hqi⟩ := hl.labelled.2 q hq
    rw [hpi, hqi]
    exact hpq (by rw [← hpv, ← hqv, hv])
  rw [List.pairwise_map, List.pairwise_filter, List.pairwise_map]
  refine hreturned.imp ?_
  intro p q hpq hp hq
  exact hpq ((of_decide_eq_true hp).trans (of_decide_eq_true hq).symm)

/-- A frame is tried again before the next one of its video is prefetched. -/
theorem reported_in_order_run :
    ∃ f h, (machine {batchMaxSize := 1} 1).Reach (fun f h e => oneConsumer f h e ∧
        keepsPlaces f h e) { Fleet.init with guard := [] } f h ∧
      (returned h).map (·.result.frameId) = [0, 12] ∧
      ((((returned h).map Pending.result).filter (·.videoId = "v")).map
        RespObject.frameId).Pairwise (· < ·) := by
  have hrun : ∃ f h, (machine {batchMaxSize := 1} 1).Reach (fun f h e => oneConsumer f h e ∧
      keepsPlaces f h e) { Fleet.init with guard := [] } f h ∧
      (returned h).map (·.result.frameId) = [0, 12] :=
    Machine.Reach.exists_of_exec
      [.publish ⟨"j", "v", 0, 0, 0, blobKey "j" 0⟩, .publish ⟨"j", "v", 12, 0, 0, blobKey "j" 12⟩,
        .deliver 0 0 1, .take 0 0 0, .work 0 (.loaded .storeError) 0, .work 0 .settled 0,
        .deliver 0 0 2, .take 0 0 0, .work 0 (.loaded .frame) 0, .work 0 (.detected (some [])) 0,
        .work 0 (.claimed .won) 0, .work 0 (.add 0) 0, .work 0 (.batcher .sinkReturned) 0,
        .work 0 (.batcher .settleNext) 0, .work 0 .counted 0,
        .deliver 0 0 3, .take 0 0 0, .work 0 (.loaded .frame) 0, .work 0 (.detected (some [])) 0,
        .work 0 (.claimed .won) 0, .work 0 (.add 0) 0, .work 0 (.batcher .sinkReturned) 0]
      (by decide)
  obtain ⟨f, h, hr, ht⟩ := hrun
  exact ⟨f, h, hr, ht, reported_in_order hr "v"⟩

/-- The second frame is already prefetched when the store fails for the first, which comes back to
the front of the queue and is reported after it. -/
theorem reported_out_of_order :
    ∃ f h, (machine {batchMaxSize := 1} 1).Reach (fun f h e => oneConsumer f h e ∧
        guardKeeps f h e) { Fleet.init with guard := [] } f h ∧
      ¬ ((((returned h).map Pending.result).filter (·.videoId = "v")).map
        RespObject.frameId).Pairwise (· < ·) :=
  Machine.Reach.exists_of_exec
    [.publish ⟨"j", "v", 0, 0, 0, blobKey "j" 0⟩, .publish ⟨"j", "v", 12, 0, 0, blobKey "j" 12⟩,
      .deliver 0 0 1, .deliver 0 0 2, .take 0 0 0, .work 0 (.loaded .storeError) 0,
      .work 0 .settled 0, .take 0 0 0, .work 0 (.loaded .frame) 0,
      .work 0 (.detected (some [])) 0, .work 0 (.claimed .won) 0, .work 0 (.add 0) 0,
      .work 0 (.batcher .sinkReturned) 0, .work 0 (.batcher .settleNext) 0, .work 0 .counted 0,
      .deliver 0 0 3, .take 0 0 0, .work 0 (.loaded .frame) 0, .work 0 (.detected (some [])) 0,
      .work 0 (.claimed .won) 0, .work 0 (.add 0) 0, .work 0 (.batcher .sinkReturned) 0]
    (by decide)

end Fleet

end VideoPipeline
