import VideoPipeline.Detector.Processed

/-!
# What is delivered was published

Whatever the fleet has of a frame, in the queue, on a channel, in the hands of a worker or in a
report, goes back to a message that was published, with the reference as it was published.
-/

namespace VideoPipeline

open Amqp

/-- The detector has the delivery somewhere. -/
def Replica.Mentions (r : Replica) (x : Delivery) : Prop :=
  x ∈ r.channel.unsettled ∨ x ∈ r.prefetched ∨ x ∈ r.worker.held

lemma Replica.not_mentions_init {x : Delivery} : ¬Replica.init.Mentions x := by
  rintro (hx | hx | hx) <;> cases hx

namespace Fleet

variable {cfg : DetectorSettings} {n : ℕ} {f f' : Fleet} {e : Event} {out h : List Output}
  {ok : Fleet → List Output → Event → Prop}

/-- Everything that the fleet has was published. -/
structure Known (f : Fleet) (h : List Output) : Prop where
  queue : ∀ m ∈ f.queue, m.ref ∈ published h
  mentioned : ∀ d x, (f.replicas d).Mentions x → x.ref ∈ published h
  won : ∀ p ∈ won h, p.delivery.ref ∈ published h
  returned : ∀ p ∈ returned h, p.delivery.ref ∈ published h

lemma won_append (h₁ h₂ : List Output) : won (h₁ ++ h₂) = won h₁ ++ won h₂ := by
  rw [won, acts_append, List.flatMap_append]
  rfl

lemma Known.init : Known Fleet.init [] := by
  refine ⟨?_, ?_, ?_, ?_⟩
  · intro m hm
    cases hm
  · intro d x hx
    exact absurd hx Replica.not_mentions_init
  · intro p hp
    cases hp
  · intro p hp
    cases hp

/-- A step that changes one detector keeps what is known of the others. -/
lemma Known.of_update (hk : Known f h) {d : ℕ} {r : Replica}
    (hmono : ∀ ref, ref ∈ published h → ref ∈ published (h ++ out))
    (hr : ∀ x, r.Mentions x → x.ref ∈ published h)
    (hqueue : ∀ m ∈ f'.queue, m.ref ∈ published h)
    (hupdate : f'.replicas = Function.update f.replicas d r)
    (hwon : ∀ p ∈ Fleet.won out, p.delivery.ref ∈ published h)
    (hret : ∀ p ∈ Fleet.returned out, p.delivery.ref ∈ published h) : Known f' (h ++ out) := by
  refine ⟨fun m hm => hmono _ (hqueue m hm), ?_, ?_, ?_⟩
  · intro d' x hx
    rw [hupdate] at hx
    by_cases hd : d' = d
    · rw [hd, Function.update_self] at hx
      exact hmono _ (hr x hx)
    · rw [Function.update_of_ne hd] at hx
      exact hmono _ (hk.mentioned d' x hx)
  · intro p hp
    rw [won_append] at hp
    rcases List.mem_append.mp hp with hp | hp
    · exact hmono _ (hk.won p hp)
    · exact hmono _ (hwon p hp)
  · intro p hp
    rw [returned_append] at hp
    rcases List.mem_append.mp hp with hp | hp
    · exact hmono _ (hk.returned p hp)
    · exact hmono _ (hret p hp)

theorem Known.step (hk : Known f h) (hr : Rule cfg n f e f' out) : Known f' (h ++ out) := by
  have hmono : ∀ ref, ref ∈ published h → ref ∈ published (h ++ out) := by
    intro ref hmem
    rw [published_append]
    exact List.mem_append_left _ hmem
  cases hr with
  | publish ref =>
    refine ⟨?_, fun d x hx => hmono _ (hk.mentioned d x hx), ?_, ?_⟩
    · intro m hm
      rcases List.mem_append.mp hm with hm | hm
      · exact hmono _ (hk.queue m hm)
      · rw [List.mem_singleton.mp hm, published_append]
        exact List.mem_append_right _ (List.mem_singleton_self ref)
    · intro p hp
      have hnil : Fleet.won [Output.published ref] = [] := rfl
      rw [won_append, hnil, List.append_nil] at hp
      exact hmono _ (hk.won p hp)
    · intro p hp
      have hnil : Fleet.returned [Output.published ref] = [] := rfl
      rw [returned_append, hnil, List.append_nil] at hp
      exact hmono _ (hk.returned p hp)
  | deliver d i tag m c hd hm hc =>
    obtain ⟨-, -, hu⟩ := Channel.deliver_eq_some hc
    have hmem := hk.queue m (List.mem_of_getElem? hm)
    refine hk.of_update hmono ?_ (fun m' hm' => hk.queue m' (List.mem_of_mem_eraseIdx hm')) rfl
      (fun p hp => by cases hp) fun p hp => by cases hp
    intro x hx
    simp only [Replica.Mentions, hu, List.mem_append, List.mem_singleton] at hx
    rcases hx with (hx | rfl) | (hx | rfl) | hx
    · exact hk.mentioned d x (.inl hx)
    · exact hmem
    · exact hk.mentioned d x (.inr (.inl hx))
    · exact hmem
    · exact hk.mentioned d x (.inr (.inr hx))
  | take d i now x w as hd hx hw =>
    refine hk.of_update hmono ?_ hk.queue rfl ?_ ?_
    · intro y hy
      simp only [Replica.Mentions, (Worker.take_effect hw).1, List.mem_append,
        List.mem_singleton] at hy
      rcases hy with hy | hy | hy | rfl
      · exact hk.mentioned d y (.inl hy)
      · exact hk.mentioned d y (.inr (.inl (List.mem_of_mem_eraseIdx hy)))
      · exact hk.mentioned d y (.inr (.inr hy))
      · exact hk.mentioned d y (.inr (.inl (List.mem_of_getElem? hx)))
    · rw [Fleet.won, acts_map_act, (Worker.take_flow hw).2.2.1]
      simp
    · rw [returned_map_act, (Worker.take_flow hw).2.2.2.2]
      simp
  | work d op pos w as guard hd hw hg =>
    have hrule := Worker.Rule.of_step hw
    refine hk.of_update hmono ?_ ?_ rfl ?_ ?_
    · rintro x (hx | hx | hx)
      · exact hk.mentioned d x (.inl
          ((perform_perm _ as).mem_iff.mp (List.mem_append_right _ hx)))
      · exact hk.mentioned d x (.inr (.inl hx))
      · exact hk.mentioned d x (.inr (.inr (hrule.held_sublist.mem hx)))
    · intro m hm
      rcases mem_requeue hm with hm | ⟨x, hx, hmx⟩
      · exact hk.queue m hm
      · rw [hmx]
        exact hk.mentioned d x (.inl (requeued_unsettled hx))
    · intro p hp
      rw [Fleet.won, acts_perform] at hp
      exact hk.mentioned d _ (.inr (.inr (hrule.won_held hp)))
    · intro p hp
      rw [returned_perform] at hp
      refine hk.mentioned d _ (.inr (.inr ?_))
      rcases hrule.unreturned_origin (.inr hp) with hp | hp
      · exact Worker.unreturned_held hp
      · exact hrule.won_held hp
  | expire key =>
    rw [List.append_nil]
    exact ⟨hk.queue, hk.mentioned, hk.won, hk.returned⟩
  | crash d pos hd =>
    refine hk.of_update hmono (fun x hx => absurd hx Replica.not_mentions_init) ?_ rfl
      (fun p hp => by cases hp) fun p hp => by cases hp
    intro m hm
    rcases mem_requeue hm with hm | ⟨x, hx, hmx⟩
    · exact hk.queue m hm
    · rw [hmx]
      exact hk.mentioned d x (.inl hx)

lemma Known.of_reach (hr : (machine cfg n).Reach ok Fleet.init f h) : Known f h :=
  hr.invariant .init fun _ _ _ _ _ _ hk _ hs => hk.step (Rule.of_step hs)

end Fleet

end VideoPipeline
