import VideoPipeline.Detector.Fleet

/-!
# An acked frame has been reported

The broker drops a message for good when it is acked. A frame may be lost only between the claim of
its key and the return of the sink call that reports it: if the result is dropped there while the
key stays claimed, the redelivery is taken for a duplicate and acked.
-/

namespace VideoPipeline

open Amqp


namespace Fleet

variable {cfg : DetectorSettings} {n : ℕ} {f f' : Fleet} {e : Event} {out h : List Output}

/-! ### Copies of a message -/

/-- How many messages under a key the broker has, ready or unsettled. -/
def copies (n : ℕ) (f : Fleet) (k : String) : ℕ :=
  f.queue.countP (fun m => m.ref.key = k) +
    ∑ d ∈ Finset.range n, (f.replicas d).channel.unsettled.countP fun x => x.ref.key = k

lemma countP_requeue (k : String) (pos : Delivery → ℕ) (ds : List Delivery) (q : List Message) :
    (requeue pos ds q).countP (fun m => m.ref.key = k) =
      q.countP (fun m => m.ref.key = k) + ds.countP fun x => x.ref.key = k := by
  induction ds with
  | nil => rfl
  | cons x ds ih =>
    have hsplit := congrArg (List.countP fun m => decide (m.ref.key = k))
      (List.take_append_drop (pos x) (requeue pos ds q))
    simp only [requeue, List.foldr_cons, List.countP_append, List.countP_cons] at hsplit ih ⊢
    omega

/-- A step makes no copy of a message. -/
lemma Rule.copies_le (hr : Rule cfg n f e f' out) (k : String) :
    copies n f' k ≤ copies n f k + (published out).countP fun ref => ref.key = k := by
  have hsum := fun (d : ℕ) (r : Replica) (hd : d < n) => Family.sum_update
    (fun r : Replica => r.channel.unsettled.countP fun x => x.ref.key = k) f.replicas r hd
  cases hr with
  | publish ref =>
    simp only [copies, published, Output.published?, List.countP_append, List.filterMap_cons,
      List.filterMap_nil, List.countP_cons, List.countP_nil]
    omega
  | deliver d i tag m c hd hm hc =>
    obtain ⟨-, -, hu⟩ := Channel.deliver_eq_some hc
    obtain ⟨hi, rfl⟩ := List.getElem?_eq_some_iff.mp hm
    have hq := (List.getElem_cons_eraseIdx_perm hi).countP_eq fun m => decide (m.ref.key = k)
    have hs := hsum d { f.replicas d with
      channel := c
      prefetched :=
        (f.replicas d).prefetched ++ [⟨f.queue[i].ref, tag, f.queue[i].redelivered⟩] } hd
    simp only [hu, List.countP_append, List.countP_cons, List.countP_nil] at hq hs
    simp only [copies, published, List.filterMap_nil, List.countP_nil]
    omega
  | take d i now x w acts hd hx hw =>
    have hs := hsum d { f.replicas d with
      worker := w
      prefetched := (f.replicas d).prefetched.eraseIdx i } hd
    simp only [copies] at hs ⊢
    omega
  | work d op pos w acts guard hd hw hg =>
    have hs := hsum d { f.replicas d with
      worker := w
      channel := (perform (f.replicas d).channel acts).1 } hd
    have hperm := (perform_perm (f.replicas d).channel acts).countP_eq fun x =>
      decide (x.ref.key = k)
    have hsub := (requeued_sublist (perform (f.replicas d).channel acts).2).countP_le
      (p := fun x => decide (x.ref.key = k))
    rw [List.countP_append] at hperm
    simp only [copies, countP_requeue] at hs ⊢
    omega
  | expire key => simp [copies]
  | crash d pos hd =>
    have hs := hsum d Replica.init hd
    simp only [copies, countP_requeue, Replica.init, Channel.opened_unsettled,
      List.countP_nil] at hs ⊢
    omega

/-- While a frame is asked for under its claim and another result under its key is on its way,
there are two copies of its message. -/
lemma Sound.two_copies (hsound : Sound f h) {d d' : ℕ} (hd : d < n) (hd' : d' < n) {x : Delivery}
    {faces : List BoundingBox} (hw : (f.replicas d).worker.phase = .claiming x faces)
    {p : Pending} (hp : p ∈ (f.replicas d').worker.unreturned) (hkey : p.key = x.ref.key) :
    2 ≤ copies n f x.ref.key := by
  have hheld : (f.replicas d).worker.held = (f.replicas d).worker.buffered ++ [x] := by
    simp [Worker.held, hw, Worker.Phase.current]
  have hpos : ∀ d'' y, y ∈ (f.replicas d'').worker.held → y.ref.key = x.ref.key →
      0 < (f.replicas d'').channel.unsettled.countP fun y => y.ref.key = x.ref.key := by
    intro d'' y hy hk
    rw [List.countP_pos_iff, (hsound.inv d'').unsettled]
    exact ⟨y, List.mem_append_left _ hy, decide_eq_true hk⟩
  by_cases hdd : d' = d
  · subst hdd
    have hbuf : p.delivery ∈ (f.replicas d').worker.buffered := by
      rcases Worker.unreturned_cases hp with hp | hp
      · exact List.mem_map_of_mem hp
      · rw [hw] at hp
        cases hp
    have htwo : 2 ≤ (f.replicas d').channel.unsettled.countP fun y => y.ref.key = x.ref.key := by
      have hone : 0 < (f.replicas d').worker.buffered.countP fun y => y.ref.key = x.ref.key :=
        List.countP_pos_iff.mpr ⟨_, hbuf, decide_eq_true hkey⟩
      rw [(hsound.inv d').unsettled, hheld, List.countP_append, List.countP_append]
      simp only [List.countP_cons, List.countP_nil, decide_true, if_true]
      omega
    have hle := Family.le_sum
      (fun r : Replica => r.channel.unsettled.countP fun y => y.ref.key = x.ref.key) f.replicas hd'
    simp only [copies] at hle ⊢
    omega
  · have h₁ := hpos d x (by simp [hheld]) rfl
    have h₂ := hpos d' p.delivery (Worker.unreturned_held hp) hkey
    have hle := Family.add_le_sum
      (fun r : Replica => r.channel.unsettled.countP fun y => y.ref.key = x.ref.key) f.replicas
      hd hd' (Ne.symm hdd)
    simp only [copies] at hle ⊢
    omega

/-! ### Claims and reports -/

/-- Every frame is published once, and read from one queue. -/
def oneQueue : Fleet → List Output → Event → Prop
  | _, h, .publish ref => ref.key ∉ (published h).map FrameRef.key
  | _, _, e            => e.InOrder

/-- The results that a step drops: those of a sink call that raises, and in a crash all that are on
their way. -/
def dropped (f : Fleet) : Event → List Pending
  | .work d (.batcher .sinkRaised) _ => (f.replicas d).worker.sinking
  | .crash d _                       => (f.replicas d).worker.unreturned
  | _                                => []

/-- No result is dropped while its key is claimed. -/
def keepsClaimed (f : Fleet) (_ : List Output) (e : Event) : Prop :=
  ∀ p ∈ f.dropped e, p.key ∉ f.guard

instance (f : Fleet) (h : List Output) (e : Event) : Decidable (oneQueue f h e) :=
  match e with
  | .publish ref => inferInstanceAs (Decidable (ref.key ∉ (published h).map FrameRef.key))
  | .deliver _ i _ => inferInstanceAs (Decidable (i = 0))
  | .take _ i _ => inferInstanceAs (Decidable (i = 0))
  | .work _ _ _ | .expire _ | .crash _ _ => inferInstanceAs (Decidable True)

instance (f : Fleet) (h : List Output) (e : Event) : Decidable (keepsClaimed f h e) :=
  inferInstanceAs (Decidable (∀ p ∈ f.dropped e, p.key ∉ f.guard))

/-- The frame was part of a sink call that returned. -/
def Reported (h : List Output) (ref : FrameRef) : Prop :=
  ∃ p ∈ returned h, p.delivery.ref.jobId = ref.jobId ∧ p.delivery.ref.frameId = ref.frameId ∧
    p.result.frameId = ref.frameId

/-- A claimed key belongs to a result that has been reported or is on its way. -/
def Claimed (n : ℕ) (f : Fleet) (h : List Output) : Prop :=
  ∀ k ∈ f.guard, (∃ p ∈ returned h, p.key = k) ∨
    ∃ d < n, ∃ p ∈ (f.replicas d).worker.unreturned, p.key = k

lemma Claimed.step (hc : Claimed n f h) (hr : Rule cfg n f e f' out)
    (hok : keepsClaimed f h e) : Claimed n f' (h ++ out) := by
  have hret : ∀ {k}, (∃ p ∈ returned h, p.key = k) → ∃ p ∈ returned (h ++ out), p.key = k := by
    rintro k ⟨p, hp, hk⟩
    rw [returned_append]
    exact ⟨p, List.mem_append_left _ hp, hk⟩
  rcases hr.effect with ⟨hguard, -, hsame, -, -⟩ | ⟨d, op, pos, as, rfl, hd, hw, hg, has, hne⟩ |
    ⟨d, pos, rfl, hd, hguard, -, hnew, hne⟩
  · intro k hk
    refine (hc k (hguard k hk)).imp hret ?_
    rintro ⟨d, hd, p, hp, hpk⟩
    refine ⟨d, hd, p, ?_, hpk⟩
    rwa [Worker.unreturned, (hsame d).1, (hsame d).2]
  · -- a result of this detector goes on, unless its sink call raises
    have hmove : ∀ p, p ∈ (f.replicas d).worker.unreturned ∨ p ∈ as.flatMap Act.won →
        p.key ∈ f'.guard → (∃ q ∈ returned (h ++ out), q.key = p.key) ∨
          ∃ d < n, ∃ q ∈ (f'.replicas d).worker.unreturned, q.key = p.key := by
      intro p hp hk
      rcases hw.unreturned_cases hp with h₁ | h₁ | h₁
      · exact .inr ⟨d, hd, p, h₁, rfl⟩
      · left
        rw [returned_append, returned, returned, has]
        exact ⟨p, List.mem_append_right _ h₁, rfl⟩
      · rcases hw.raised_eq with hnil | ⟨rfl, heq⟩
        · rw [hnil] at h₁
          cases h₁
        · rw [heq] at h₁
          rcases hw.answer_cases hg with ⟨hgd, -, -⟩ | ⟨_, _, _, ⟨ho, -⟩ | ⟨ho, -⟩ | ⟨ho, -⟩⟩
          · exact absurd (hgd ▸ hk) (hok p h₁)
          all_goals cases ho
    intro k hk
    by_cases hold : k ∈ f.guard
    · rcases hc k hold with hrep | ⟨d', hd', p, hp, rfl⟩
      · exact .inl (hret hrep)
      · by_cases hdd : d' = d
        · subst hdd
          exact hmove p (.inl hp) hk
        · exact .inr ⟨d', hd', p, hne d' hdd ▸ hp, rfl⟩
    · -- the key was claimed by this step
      rcases hw.answer_cases hg with ⟨hgd, -, -⟩ |
        ⟨x, faces, -, ⟨-, -, hgd, hwon, -⟩ | ⟨-, hgd, -⟩ | ⟨-, -, hgd, -⟩⟩
      · exact absurd (hgd ▸ hk) hold
      · rw [hgd] at hk
        rcases List.mem_cons.mp hk with rfl | hk'
        · exact hmove ⟨⟨faces, x.ref.videoId, x.ref.frameId⟩, x⟩
            (.inr (hwon ▸ List.mem_singleton_self _)) (hgd ▸ hk)
        · exact absurd hk' hold
      · exact absurd (hgd ▸ hk) hold
      · exact absurd (hgd ▸ hk) hold
  · intro k hk
    refine (hc k (hguard ▸ hk)).imp hret ?_
    rintro ⟨d', hd', p, hp, hpk⟩
    by_cases hdd : d' = d
    · subst hdd
      exact absurd (hpk ▸ hguard ▸ hk) (hok p hp)
    · exact ⟨d', hd', p, hne d' hdd ▸ hp, hpk⟩

/-- What holds along a run with one queue in which no result is dropped while it is claimed. -/
structure Accounted (n : ℕ) (f : Fleet) (h : List Output) : Prop where
  sound : Sound f h
  copies : ∀ k, copies n f k ≤ (published h).countP fun ref => ref.key = k
  nodup : ((published h).map FrameRef.key).Nodup
  claimed : Claimed n f h
  labelled : Labelled f h
  /-- A frame taken for a duplicate has been reported. -/
  duplicate : ∀ x, Act.outcome x .duplicate ∈ acts h → ∃ p ∈ returned h, p.key = x.ref.key
  fresh : ∀ x, Act.outcome x .stale ∉ acts h

lemma Accounted.init : Accounted n Fleet.init [] := by
  refine ⟨.init [], ?_, by simp [published], ?_, ⟨?_, ?_⟩, by simp [acts], by simp [acts]⟩
  · intro k
    simp [Fleet.copies, Fleet.init, Replica.init]
  · intro k hk
    cases hk
  · intro d p hp
    cases hp
  · intro p hp
    cases hp

/-- There is at most one copy of a message. -/
lemma Accounted.copies_le_one (ha : Accounted n f h) (k : String) : Fleet.copies n f k ≤ 1 := by
  refine (ha.copies k).trans ?_
  have hcount := List.nodup_iff_count_le_one.mp ha.nodup k
  rwa [List.count, List.countP_map] at hcount

lemma Rule.published_nodup (hr : Rule cfg n f e f' out) (hok : oneQueue f h e)
    (hnd : ((published h).map FrameRef.key).Nodup) :
    ((published (h ++ out)).map FrameRef.key).Nodup := by
  rw [published_append]
  cases hr with
  | publish ref =>
    have hp : published [Output.published ref] = [ref] := rfl
    rw [hp, List.map_append, List.nodup_append]
    refine ⟨hnd, by simp, ?_⟩
    intro k hk k' hk' heq
    rw [List.map_singleton, List.mem_singleton] at hk'
    exact hok (hk' ▸ heq ▸ hk)
  | take d i now x w as hd hx hw =>
    have hp : published (as.map fun a => Output.replica d (.act a)) = [] := by
      simp [published, Output.published?]
    rwa [hp, List.append_nil]
  | work d op pos w as guard hd hw hg => rwa [published_map_replica, List.append_nil]
  | deliver | expire | crash => rwa [show published [] = [] from rfl, List.append_nil]

/-- A frame that a step takes for a duplicate has been reported: its key is claimed, and no result
under it is on its way, since that would have another copy of the message. -/
lemma Accounted.duplicate_step (ha : Accounted n f h) (hr : Rule cfg n f e f' out) (x : Delivery)
    (hx : Act.outcome x .duplicate ∈ acts out) : ∃ p ∈ returned h, p.key = x.ref.key := by
  cases hr with
  | take d i now y w as hd hy hw =>
    rw [acts_map_act] at hx
    obtain ⟨-, ⟨-, rfl⟩ | ⟨-, -, rfl⟩⟩ := Worker.take_cases hw <;> simp at hx
  | work d op pos w as guard hd hw hg =>
    rw [acts_perform] at hx
    rcases (Worker.Rule.of_step hw).answer_cases hg with ⟨-, -, hno⟩ |
      ⟨y, faces, hphase, ⟨-, -, -, -, hno⟩ | ⟨-, -, -, hno⟩ | ⟨-, hk, -, -, hdup⟩⟩
    · exact absurd hx (hno x)
    · exact absurd hx (hno x)
    · exact absurd hx (hno x)
    · obtain rfl := hdup x hx
      rcases ha.claimed _ hk with hrep | ⟨d', hd', p, hp, hpk⟩
      · exact hrep
      · have htwo := ha.sound.two_copies hd hd' hphase hp hpk
        have hone := ha.copies_le_one x.ref.key
        omega
  | publish | deliver | expire | crash => simp [acts, Output.act?] at hx

/-- Without a latency budget nothing is shed. -/
lemma Rule.not_stale (hr : Rule cfg n f e f' out) (hage : cfg.maxFrameAgeSec = 0) (x : Delivery) :
    Act.outcome x .stale ∉ acts out := by
  intro hx
  cases hr with
  | take d i now y w as hd hy hw =>
    rw [acts_map_act] at hx
    obtain ⟨-, ⟨-, rfl⟩ | ⟨hpos, -, -⟩⟩ := Worker.take_cases hw
    · simp at hx
    · rw [hage] at hpos
      exact hpos.false
  | work d op pos w as guard hd hw hg =>
    rw [acts_perform] at hx
    exact (Worker.Rule.of_step hw).not_stale x hx
  | publish | deliver | expire | crash => simp [acts, Output.act?] at hx

theorem Accounted.step (ha : Accounted n f h) (hr : Rule cfg n f e f' out)
    (hage : cfg.maxFrameAgeSec = 0) (hone : oneQueue f h e) (hkeep : keepsClaimed f h e) :
    Accounted n f' (h ++ out) := by
  have hord : e.InOrder := by
    cases e <;> first | exact hone | trivial
  refine ⟨ha.sound.step hr hord, ?_, hr.published_nodup hone ha.nodup, ha.claimed.step hr hkeep,
    ha.labelled.step hr, ?_, ?_⟩
  · intro k
    rw [published_append, List.countP_append]
    have hcopies := hr.copies_le k
    have hk := ha.copies k
    omega
  · intro x hx
    rw [acts_append] at hx
    rw [returned_append]
    rcases List.mem_append.mp hx with hx | hx
    · obtain ⟨p, hp, hpk⟩ := ha.duplicate x hx
      exact ⟨p, List.mem_append_left _ hp, hpk⟩
    · obtain ⟨p, hp, hpk⟩ := ha.duplicate_step hr x hx
      exact ⟨p, List.mem_append_left _ hp, hpk⟩
  · intro x hx
    rw [acts_append] at hx
    rcases List.mem_append.mp hx with hx | hx
    · exact ha.fresh x hx
    · exact hr.not_stale hage x hx

/-- In a run that drops no result while its key is claimed, an acked frame has been reported. -/
theorem acked_reported (hage : cfg.maxFrameAgeSec = 0)
    (hr : (machine cfg n).Reach (fun f h e => oneQueue f h e ∧ keepsClaimed f h e) Fleet.init f h)
    {d : ℕ} {x : Delivery} (hx : .replica d (.settled x .acked) ∈ h) : Reported h x.ref := by
  have ha : Accounted n f h := by
    refine hr.invariant .init ?_
    intro f h e f' out _ ha hok hs
    exact ha.step (Rule.of_step hs) hage hok.1 hok.2
  have hof_key : (∃ p ∈ returned h, p.key = x.ref.key) → Reported h x.ref := by
    rintro ⟨p, hp, hpk⟩
    obtain ⟨hj, hi⟩ := dedupKey_injective hpk
    exact ⟨p, hp, hj, hi, (ha.labelled.2 p hp).2.trans hi⟩
  apply hof_key
  rcases ha.sound.ackCause d _ (mem_ofReplica.mpr hx) with hd | hs | ⟨r, batch, -, hb, hret⟩
  · exact ha.duplicate x (mem_acts hd)
  · exact absurd (mem_acts hs) (ha.fresh x)
  · exact ⟨⟨r, x⟩, List.mem_flatMap.mpr ⟨_, mem_acts hret, hb⟩, rfl⟩

/-- A frame is reported, and its copy that was requeued after a store failure is acked. -/
theorem acked_reported_run :
    ∃ f h, (machine {batchMaxSize := 1} 1).Reach (fun f h e => oneQueue f h e ∧ keepsClaimed f h e)
      Fleet.init f h ∧
      Output.replica 0 (.settled ⟨⟨"j", "v", 0, 0, 0, blobKey "j" 0⟩, 2, true⟩ .acked) ∈ h ∧
      Reported h ⟨"j", "v", 0, 0, 0, blobKey "j" 0⟩ := by
  have hrun : ∃ f h, (machine {batchMaxSize := 1} 1).Reach
      (fun f h e => oneQueue f h e ∧ keepsClaimed f h e) Fleet.init f h ∧
      Output.replica 0 (.settled ⟨⟨"j", "v", 0, 0, 0, blobKey "j" 0⟩, 2, true⟩ .acked) ∈ h :=
    Machine.Reach.exists_of_exec
      [.publish ⟨"j", "v", 0, 0, 0, blobKey "j" 0⟩, .deliver 0 0 1, .take 0 0 0,
        .work 0 (.loaded .storeError) 0, .work 0 .settled 0,
        .deliver 0 0 2, .take 0 0 0, .work 0 (.loaded .frame) 0,
        .work 0 (.detected (some [])) 0, .work 0 (.claimed .won) 0, .work 0 (.add 0) 0,
        .work 0 (.batcher .sinkReturned) 0, .work 0 (.batcher .settleNext) 0]
      (by decide)
  obtain ⟨f, h, hr, hx⟩ := hrun
  exact ⟨f, h, hr, hx, acked_reported rfl hr hx⟩

/-- The sink raises once: the redelivered frame is taken for a duplicate and acked, and no sink
call has returned. -/
theorem acked_not_reported :
    ∃ f h, (machine {batchMaxSize := 1} 1).Reach oneQueue Fleet.init f h ∧
      Output.replica 0 (.settled ⟨⟨"j", "v", 0, 0, 0, blobKey "j" 0⟩, 2, true⟩ .acked) ∈ h ∧
      ¬ Reported h ⟨"j", "v", 0, 0, 0, blobKey "j" 0⟩ := by
  have hrun : ∃ f h, (machine {batchMaxSize := 1} 1).Reach oneQueue Fleet.init f h ∧
      (Output.replica 0 (.settled ⟨⟨"j", "v", 0, 0, 0, blobKey "j" 0⟩, 2, true⟩ .acked) ∈ h ∧
        returned h = []) :=
    Machine.Reach.exists_of_exec
      [.publish ⟨"j", "v", 0, 0, 0, blobKey "j" 0⟩, .deliver 0 0 1, .take 0 0 0,
        .work 0 (.loaded .frame) 0, .work 0 (.detected (some [])) 0, .work 0 (.claimed .won) 0,
        .work 0 (.add 0) 0, .work 0 (.batcher .sinkRaised) 0, .work 0 (.batcher .settleNext) 0,
        .work 0 .counted 0,
        .deliver 0 0 2, .take 0 0 0, .work 0 (.loaded .frame) 0,
        .work 0 (.detected (some [])) 0, .work 0 (.claimed .lost) 0, .work 0 .settled 0]
      (by decide)
  obtain ⟨f, h, hr, hx, hnone⟩ := hrun
  refine ⟨f, h, hr, hx, ?_⟩
  rintro ⟨p, hp, -⟩
  rw [hnone] at hp
  cases hp

end Fleet

end VideoPipeline
