import VideoPipeline.Common.Identity
import VideoPipeline.Detector.Output

/-!
# The way of a result through the worker

A result comes out of `process`, waits for a flush and is in a sink call until that returns or
raises. Each step of a worker moves results along this way and neither drops, adds nor reorders
them. Before that the guard is asked whether the frame may be reported.
-/

namespace VideoPipeline

/-- The key a frame is claimed under. -/
def FrameRef.key (ref : FrameRef) : String := dedupKey ref.jobId ref.frameId

def Pending.key (p : Pending) : String := p.delivery.ref.key

/-- The result carries the ids of the frame it was made from. -/
def Pending.Labelled (p : Pending) : Prop :=
  p.result.videoId = p.delivery.ref.videoId ∧ p.result.frameId = p.delivery.ref.frameId

/-- The guard's keys after the acts, if the guard can give the replies that the acts report. A claim
is won by recording a key that is absent and lost on one that is present. -/
def answer (guard : List String) : List Act → Option (List String)
  | [] => some guard
  | .claim key _ .won :: acts => if key ∈ guard then none else answer (key :: guard) acts
  | .claim key _ .lost :: acts => if key ∈ guard then answer guard acts else none
  | _ :: acts => answer guard acts

/-! ### What the acts say about results -/

/-- The results `process` gave. -/
def Act.won : Act → List Pending
  | .outcome d (.result r) => [⟨r, d⟩]
  | _                      => []

/-- The results a sink call was made with. -/
def Act.called : Act → List Pending
  | .sinkCalled batch => batch
  | _                 => []

/-- The results of a sink call that returned. -/
def Act.returned : Act → List Pending
  | .sinkReturned batch => batch
  | _                   => []

/-- The results of a sink call that raised. -/
def Act.raised : Act → List Pending
  | .sinkRaised batch => batch
  | _                 => []

namespace Worker

/-- The result the handler is about to buffer. -/
def Phase.adding? : Phase → List Pending
  | .adding d r => [⟨r, d⟩]
  | _           => []

/-- The results that wait for a sink call, oldest first. -/
def awaiting (w : Worker) : List Pending := w.batcher.pending ++ w.phase.adding?

/-- The results of the sink call in progress. -/
def sinking (w : Worker) : List Pending :=
  match w.batcher.flushing with
  | some ⟨_, batch, .sinking⟩ => batch
  | _                         => []

variable {cfg : DetectorSettings} {w w' : Worker} {op : Op} {acts : List Act}

lemma sinking_of_none (h : w.batcher.flushing = none) : w.sinking = [] := by
  simp [sinking, h]

lemma sinking_congr (h : w'.batcher = w.batcher) : w'.sinking = w.sinking := by
  simp [sinking, h]

lemma afterFlush_adding (w : Worker) : w.afterFlush.phase.adding? = w.phase.adding? := by
  unfold afterFlush
  split
  · next hw =>
    split
    · rfl
    · simp [added, hw, Phase.adding?]
  · rfl

@[simp] lemma afterFlush_awaiting (w : Worker) : w.afterFlush.awaiting = w.awaiting := by
  simp only [awaiting, afterFlush_batcher, afterFlush_adding]

lemma adding_of_inProcess {p : Phase} {d : Delivery} (h : p.inProcess = some d) :
    p.adding? = [] := by
  cases p <;> simp_all [Phase.inProcess, Phase.adding?]

lemma handle_awaiting (w : Worker) (d : Delivery) (o : Outcome) :
    (w.handle d o).1.awaiting = w.batcher.pending ++ (Act.outcome d o).won := by
  rw [awaiting, handle_batcher]
  cases o with
  | transient =>
    simp only [handle]
    split <;> rfl
  | _ => rfl

/-- A step moves results from `process` to the waiting ones and from the front of these, all at
once, to a sink call; a sink call ends for all its results. -/
theorem Rule.flow (h : Rule cfg w op w' acts) :
    acts.flatMap Act.called ++ w'.awaiting = w.awaiting ++ acts.flatMap Act.won ∧
    acts.flatMap Act.returned ++ acts.flatMap Act.raised ++ w'.sinking =
      w.sinking ++ acts.flatMap Act.called := by
  cases h with
  | @proceed _ p d hw hp =>
    simp [awaiting, sinking, adding_of_inProcess hw, adding_of_inProcess hp]
  | fail d o hw ho =>
    rw [handle_awaiting, sinking_congr (handle_batcher w d o)]
    simp [awaiting, adding_of_inProcess hw, Act.called, Act.returned, Act.raised]
  | claimed d faces r hw =>
    rw [handle_awaiting, sinking_congr (handle_batcher w d _)]
    simp [awaiting, hw, Phase.adding?, Act.called, Act.returned, Act.raised, Act.won]
  | settled d v hw =>
    simp [awaiting, sinking, released, hw, Phase.adding?, Act.called, Act.returned, Act.raised,
      Act.won]
  | buffered d r now t hw hb =>
    simp [awaiting, sinking, added, hw, hb, Phase.adding?]
  | filled d r now t hw hb =>
    simp [awaiting, sinking, hw, hb, Phase.adding?, Act.called, Act.returned, Act.raised, Act.won]
  | nothing e hb =>
    simp [sinking]
  | flushed e reason hb hp =>
    simp [awaiting, sinking, hb, Act.called, Act.returned, Act.raised, Act.won]
  | sinkReturned reason batch hb =>
    simp [awaiting, sinking, hb, Act.called, Act.returned, Act.raised, Act.won]
  | sinkRaised reason batch hb =>
    simp [awaiting, sinking, hb, Act.called, Act.returned, Act.raised, Act.won]
  | batchAcked reason batch hb =>
    simp [Worker.batchAcked, awaiting, sinking, afterFlush_adding, hb, Act.called, Act.returned,
      Act.raised, Act.won]
  | itemNacked reason p batch hb =>
    simp only [Worker.itemNacked, awaiting, sinking, afterFlush_adding, afterFlush_batcher, hb]
    cases batch <;> simp [Act.called, Act.returned, Act.raised, Act.won]
  | counted jobId hw =>
    simp [awaiting, sinking, hw, Phase.adding?, Act.called, Act.returned, Act.raised, Act.won]

/-! ### Claims, and results on their way -/

/-- The results whose sink call has not returned. -/
def unreturned (w : Worker) : List Pending := w.sinking ++ w.awaiting

/-- A result in a sink call or waiting for one is still the batcher's or the handler's. -/
lemma unreturned_cases {p : Pending} (hp : p ∈ w.unreturned) :
    p ∈ w.batcher.buffered ∨ w.phase = .adding p.delivery p.result := by
  simp only [unreturned, awaiting, List.mem_append] at hp
  rcases hp with hp | hp | hp
  · left
    simp only [sinking] at hp
    split at hp
    · next hb =>
      rw [Batcher.buffered, Batcher.inFlush_some hb]
      exact List.mem_append_left _ hp
    · cases hp
  · exact .inl (List.mem_append_right _ hp)
  · right
    unfold Phase.adding? at hp
    split at hp
    · next hw =>
      rw [List.mem_singleton.mp hp, hw]
    · cases hp

lemma unreturned_held {p : Pending} (hp : p ∈ w.unreturned) : p.delivery ∈ w.held := by
  rcases unreturned_cases hp with hp | hp
  · exact List.mem_append_left _ (List.mem_map_of_mem hp)
  · rw [held, hp]
    simp [Phase.current]

/-- Taking a delivery moves no result. -/
lemma take_flow {d : Delivery} {now : ℚ} (h : w.take cfg d now = some (w', acts)) :
    w'.sinking = w.sinking ∧ w'.awaiting = w.awaiting ∧ acts.flatMap Act.won = [] ∧
      acts.flatMap Act.called = [] ∧ acts.flatMap Act.returned = [] := by
  have hbat := (take_effect h).2.1
  obtain ⟨hw, ⟨rfl, rfl⟩ | ⟨-, rfl, rfl⟩⟩ := take_cases h
  · exact ⟨rfl, by simp [awaiting, hw, Phase.adding?], rfl, rfl, rfl⟩
  · refine ⟨sinking_congr hbat, ?_, rfl, rfl, rfl⟩
    rw [handle_awaiting, awaiting, hw]
    rfl

/-- A result on its way stays on its way, or its sink call returns or raises. -/
lemma Rule.unreturned_cases (h : Rule cfg w op w' acts) {p : Pending}
    (hp : p ∈ w.unreturned ∨ p ∈ acts.flatMap Act.won) :
    p ∈ w'.unreturned ∨ p ∈ acts.flatMap Act.returned ∨ p ∈ acts.flatMap Act.raised := by
  obtain ⟨hcall, hsink⟩ := h.flow
  have hcalled : p ∈ w.sinking ++ acts.flatMap Act.called ++ w'.awaiting := by
    rw [List.append_assoc, hcall]
    simp only [unreturned, List.mem_append] at hp ⊢
    tauto
  rw [← hsink] at hcalled
  simp only [unreturned, List.mem_append] at hcalled ⊢
  tauto

/-- Results come from `process` or were on their way before. -/
lemma Rule.unreturned_origin (h : Rule cfg w op w' acts) {p : Pending}
    (hp : p ∈ w'.unreturned ∨ p ∈ acts.flatMap Act.returned) :
    p ∈ w.unreturned ∨ p ∈ acts.flatMap Act.won := by
  obtain ⟨hcall, hsink⟩ := h.flow
  have hall : p ∈ w.sinking ++ (acts.flatMap Act.called ++ w'.awaiting) := by
    rw [← List.append_assoc, ← hsink]
    simp only [unreturned, List.mem_append] at hp ⊢
    tauto
  rw [hcall] at hall
  simp only [unreturned, List.mem_append] at hall ⊢
  tauto

/-- The order of the results is kept, those of a sink call that raises are dropped. -/
lemma Rule.unreturned_sublist (h : Rule cfg w op w' acts) :
    (acts.flatMap Act.returned ++ w'.unreturned).Sublist
      (w.unreturned ++ acts.flatMap Act.won) := by
  obtain ⟨hcall, hsink⟩ := h.flow
  calc acts.flatMap Act.returned ++ w'.unreturned
      = acts.flatMap Act.returned ++ w'.sinking ++ w'.awaiting := by
        rw [unreturned, List.append_assoc]
    _ |>.Sublist (acts.flatMap Act.returned ++ acts.flatMap Act.raised ++ w'.sinking ++
          w'.awaiting) := by
        apply List.Sublist.append_right
        apply List.Sublist.append_right
        exact List.sublist_append_left _ _
    _ = w.unreturned ++ acts.flatMap Act.won := by
        rw [hsink, List.append_assoc, hcall, ← List.append_assoc, unreturned]

/-- A sink call that raises takes all its results with it. -/
lemma Rule.raised_eq (h : Rule cfg w op w' acts) :
    acts.flatMap Act.raised = [] ∨
      op = .batcher .sinkRaised ∧ acts.flatMap Act.raised = w.sinking := by
  cases h with
  | sinkRaised reason batch hb => exact .inr ⟨rfl, by simp [Act.raised, sinking, hb]⟩
  | _ => exact .inl rfl

lemma Rule.won_labelled (h : Rule cfg w op w' acts) {p : Pending}
    (hp : p ∈ acts.flatMap Act.won) : p.Labelled := by
  cases h with
  | fail d o hw ho => rcases ho with rfl | rfl | rfl <;> simp [Act.won] at hp
  | claimed d faces r hw =>
    cases r <;> simp only [claimOutcome, List.flatMap_cons, Act.won, List.flatMap_nil,
      List.nil_append, List.append_nil, List.mem_singleton, List.not_mem_nil] at hp
    · exact hp ▸ ⟨rfl, rfl⟩
    · exact hp ▸ ⟨rfl, rfl⟩
  | _ => simp [Act.won] at hp

/-- A step takes up no delivery. -/
lemma Rule.held_sublist (h : Rule cfg w op w' acts) : w'.held.Sublist w.held := by
  rcases h.effect with ⟨heq, -⟩ | ⟨pre, d, post, v, heq, heq', -⟩ |
    ⟨reason, batch, post, -, heq, heq', -⟩
  · rw [heq]
  · rw [heq, heq']
    exact (List.sublist_cons_self d post).append_left pre
  · rw [heq, heq']
    exact List.sublist_append_right _ _

/-- A result is of a delivery that is held. -/
lemma Rule.won_held (h : Rule cfg w op w' acts) {p : Pending} (hp : p ∈ acts.flatMap Act.won) :
    p.delivery ∈ w.held := by
  have hclaiming : ∀ {d : Delivery} {faces : List BoundingBox}, w.phase = .claiming d faces →
      d ∈ w.held := by
    intro d faces hw
    simp [held, hw, Phase.current]
  cases h with
  | fail d o hw ho => rcases ho with rfl | rfl | rfl <;> simp [Act.won] at hp
  | claimed d faces r hw =>
    cases r <;> simp only [claimOutcome, List.flatMap_cons, Act.won, List.flatMap_nil,
      List.nil_append, List.append_nil, List.mem_singleton, List.not_mem_nil] at hp
    · exact hp ▸ hclaiming hw
    · exact hp ▸ hclaiming hw
  | _ => simp [Act.won] at hp

/-- The results that a step returns or leaves are about held deliveries. -/
lemma Rule.unreturned_held (h : Rule cfg w op w' acts) {p : Pending}
    (hp : p ∈ acts.flatMap Act.returned ++ w'.unreturned) : p.delivery ∈ w.held := by
  rcases List.mem_append.mp (h.unreturned_sublist.mem hp) with hp | hp
  · exact Worker.unreturned_held hp
  · exact h.won_held hp

/-- Only the freshness check sheds frames. -/
lemma Rule.not_stale (h : Rule cfg w op w' acts) (x : Delivery) : Act.outcome x .stale ∉ acts := by
  cases h with
  | fail d o hw ho => rcases ho with rfl | rfl | rfl <;> simp
  | claimed d faces r hw => cases r <;> simp [claimOutcome]
  | _ => simp

/-- What a step does to the guard: nothing, or one reply to a claim. -/
lemma Rule.answer_cases (h : Rule cfg w op w' acts) {guard guard' : List String}
    (hg : answer guard acts = some guard') :
    (guard' = guard ∧ acts.flatMap Act.won = [] ∧ ∀ x, Act.outcome x .duplicate ∉ acts) ∨
    ∃ d faces, w.phase = .claiming d faces ∧
      ((op = .claimed .won ∧ d.ref.key ∉ guard ∧ guard' = d.ref.key :: guard ∧
          acts.flatMap Act.won = [⟨⟨faces, d.ref.videoId, d.ref.frameId⟩, d⟩] ∧
          ∀ x, Act.outcome x .duplicate ∉ acts) ∨
        (op = .claimed .failedOpen ∧ guard' = guard ∧
          acts.flatMap Act.won = [⟨⟨faces, d.ref.videoId, d.ref.frameId⟩, d⟩] ∧
          ∀ x, Act.outcome x .duplicate ∉ acts) ∨
        (op = .claimed .lost ∧ d.ref.key ∈ guard ∧ guard' = guard ∧
          acts.flatMap Act.won = [] ∧ ∀ x, Act.outcome x .duplicate ∈ acts → x = d)) := by
  cases h with
  | fail d o hw ho =>
    cases hg
    left
    rcases ho with rfl | rfl | rfl <;> simp [Act.won]
  | claimed d faces r hw =>
    cases r with
    | won =>
      simp only [answer] at hg
      split at hg
      · cases hg
      · next hk =>
        cases hg
        exact .inr ⟨d, faces, hw, .inl ⟨rfl, hk, rfl, rfl, by simp [claimOutcome]⟩⟩
    | lost =>
      simp only [answer] at hg
      split at hg
      · next hk =>
        cases hg
        exact .inr ⟨d, faces, hw, .inr (.inr ⟨rfl, hk, rfl, rfl, by simp [claimOutcome]⟩)⟩
      · cases hg
    | failedOpen =>
      cases hg
      exact .inr ⟨d, faces, hw, .inr (.inl ⟨rfl, rfl, rfl, by simp [claimOutcome]⟩)⟩
    | raised =>
      cases hg
      left
      simp [claimOutcome, Act.won]
  | _ =>
    cases hg
    left
    simp [Act.won]

end Worker

end VideoPipeline
