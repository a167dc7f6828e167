import VideoPipeline.Detector.NoLoss
import VideoPipeline.Detector.Processed

/-!
# The fate of a published frame

However often a frame was published, delivered, requeued and redelivered: as long as it has neither
been reported nor dead-lettered nor shed, the broker has a message for it. Duplicates are acked
without a report, so this takes a count: beside the messages in hand that are about to be thrown
away there is always one more.
-/

namespace VideoPipeline

open Amqp

namespace Worker

/-- The delivery in hand that is acked although nothing was reported for it. -/
def discarding (w : Worker) : List Delivery :=
  match w.phase with
  | .settling x .acked => [x]
  | _                  => []

/-- The delivery in hand for which the guard is asked. -/
def claiming (w : Worker) : List Delivery :=
  match w.phase with
  | .claiming x _ => [x]
  | _             => []

variable {cfg : DetectorSettings} {w w' : Worker} {op : Op} {acts : List Act}

lemma discarding_of_ne (h : ∀ x, w.phase ≠ .settling x .acked) : w.discarding = [] := by
  rw [discarding]
  split
  · next x hw => exact absurd hw (h x)
  · rfl

lemma afterFlush_discarding_or (w : Worker) :
    w.afterFlush.discarding = w.discarding ∨ w.afterFlush.discarding = [] := by
  rcases afterFlush_phase w with h | h
  · left
    rw [discarding, discarding, h]
  · refine .inr (discarding_of_ne fun x hx => ?_)
    simp [hx, Phase.current] at h

lemma sinking_sublist (w : Worker) : w.sinking.Sublist w.batcher.inFlush := by
  rw [sinking]
  split
  · next hb => rw [Batcher.inFlush_some hb]
  · exact List.nil_sublist _

/-- What is thrown away, what is asked for and what is on its way to the sink is all held. -/
lemma load_le (w : Worker) (q : Delivery → Bool) :
    w.discarding.countP q + w.claiming.countP q + w.unreturned.countP (fun p => q p.delivery) ≤
      w.held.countP q := by
  have hsink := w.sinking_sublist.countP_le (p := fun p => q p.delivery)
  have hhand : w.discarding.countP q + w.claiming.countP q +
      w.phase.adding?.countP (fun p => q p.delivery) ≤ w.phase.current.countP q := by
    rw [discarding, claiming]
    cases w.phase with
    | settling x v => cases v <;> simp [Phase.adding?, Phase.current]
    | claiming x faces => simp [Phase.adding?, Phase.current]
    | adding x r => simp [Phase.adding?, Phase.current, List.countP_cons]
    | _ => simp [Phase.adding?]
  have hbuf : (w.batcher.buffered.map Pending.delivery).countP q =
      w.batcher.inFlush.countP (fun p => q p.delivery) +
        w.batcher.pending.countP fun p => q p.delivery := by
    rw [List.countP_map, Batcher.buffered, List.countP_append]
    rfl
  rw [unreturned, awaiting, held, Worker.buffered, List.countP_append, List.countP_append,
    List.countP_append, hbuf]
  omega

lemma discarding_length_le (w : Worker) : w.discarding.length ≤ 1 := by
  rw [discarding]
  split <;> simp

/-- Only a lost claim makes a step throw a delivery away. -/
lemma Rule.discarding_or (hr : Rule cfg w op w' acts) :
    w'.discarding = w.discarding ∨ w'.discarding = [] ∨
      ∃ x faces, w.phase = .claiming x faces ∧ .outcome x .duplicate ∈ acts ∧
        w'.discarding = [x] := by
  cases hr with
  | @proceed _ p d hw hp =>
    refine .inr (.inl (discarding_of_ne fun x hx => ?_))
    rw [show p = .settling x .acked from hx] at hp
    cases hp
  | fail d o hw ho =>
    refine .inr (.inl (discarding_of_ne fun x hx => ?_))
    obtain ⟨-, rfl | rfl⟩ := handle_settling_acked hx <;> simp at ho
  | claimed d faces r hw =>
    cases r with
    | lost => exact .inr (.inr ⟨d, faces, hw, by simp [claimOutcome], rfl⟩)
    | _ =>
      refine .inr (.inl (discarding_of_ne fun x hx => ?_))
      obtain ⟨-, ho | ho⟩ := handle_settling_acked hx <;> cases ho
  | settled | buffered | filled | counted => exact .inr (.inl rfl)
  | flushed | sinkReturned | sinkRaised => exact .inl rfl
  | nothing | batchAcked | itemNacked =>
    exact (afterFlush_discarding_or _).imp_right .inl

/-- A delivery that is taken is thrown away only when it is shed. -/
lemma take_discarding {x : Delivery} {now : ℚ} (h : w.take cfg x now = some (w', acts)) {k : String}
    (hno : ¬(.outcome x .stale ∈ acts ∧ x.ref.key = k)) :
    w'.discarding.countP (fun y => y.ref.key = k) = 0 := by
  obtain ⟨-, ⟨rfl, -⟩ | ⟨-, rfl, rfl⟩⟩ := take_cases h
  · rfl
  · have hkey : ¬x.ref.key = k := fun hkey => hno ⟨by simp, hkey⟩
    rw [show (w.handle x .stale).1.discarding = [x] from rfl,
      List.countP_cons_of_neg (by simpa using hkey), List.countP_nil]

end Worker

/-- What the broker has dropped for good. -/
def Out.gone? : Out Delivery → Option Delivery
  | .settled x .acked | .settled x .deadLettered => some x
  | _                                            => none

lemma filterMap_gone_acked (xs : List Delivery) :
    (xs.map (.settled · .acked)).filterMap Out.gone? = xs := by
  induction xs with
  | nil => rfl
  | cons x xs ih => exact congrArg (x :: ·) ih

namespace Fleet

variable {cfg : DetectorSettings} {n : ℕ} {f f' : Fleet} {e : Event} {out h : List Output}
  {k : String}

/-! ### Fates -/

/-- A message under a key was dead-lettered. -/
def DeadLettered (h : List Output) (k : String) : Prop :=
  ∃ d x, .replica d (.settled x .deadLettered) ∈ h ∧ x.ref.key = k

/-- A message under a key was shed because it was past the latency budget. -/
def Shed (h : List Output) (k : String) : Prop :=
  ∃ x, .outcome x .stale ∈ acts h ∧ x.ref.key = k

instance (h : List Output) (k : String) : Decidable (DeadLettered h k) :=
  decidable_of_iff (∃ o ∈ h, (match o with
    | .replica _ (.settled x .deadLettered) => decide (x.ref.key = k)
    | _                                     => false) = true) <| by
    constructor
    · rintro ⟨o, ho, hk⟩
      split at hk
      · next d x => exact ⟨d, x, ho, of_decide_eq_true hk⟩
      · cases hk
    · rintro ⟨d, x, hx, hk⟩
      exact ⟨_, hx, decide_eq_true hk⟩

instance (h : List Output) (k : String) : Decidable (Shed h k) :=
  decidable_of_iff (∃ a ∈ acts h, (match a with
    | .outcome x .stale => decide (x.ref.key = k)
    | _                 => false) = true) <| by
    constructor
    · rintro ⟨a, ha, hk⟩
      split at hk
      · next x => exact ⟨x, ha, of_decide_eq_true hk⟩
      · cases hk
    · rintro ⟨x, hx, hk⟩
      exact ⟨_, hx, decide_eq_true hk⟩

/-- The frame with a key has been in a sink call that returned, or one of its messages was
dead-lettered or shed. -/
def Fated (h : List Output) (k : String) : Prop :=
  (∃ p ∈ returned h, p.key = k) ∨ DeadLettered h k ∨ Shed h k

lemma Fated.left (hf : Fated h k) : Fated (h ++ out) k := by
  rcases hf with ⟨p, hp, hk⟩ | ⟨d, x, hx, hk⟩ | ⟨x, hx, hk⟩
  · refine .inl ⟨p, ?_, hk⟩
    rw [returned_append]
    exact List.mem_append_left _ hp
  · exact .inr (.inl ⟨d, x, List.mem_append_left _ hx, hk⟩)
  · refine .inr (.inr ⟨x, ?_, hk⟩)
    rw [acts_append]
    exact List.mem_append_left _ hx

lemma Fated.right (hf : Fated out k) : Fated (h ++ out) k := by
  rcases hf with ⟨p, hp, hk⟩ | ⟨d, x, hx, hk⟩ | ⟨x, hx, hk⟩
  · refine .inl ⟨p, ?_, hk⟩
    rw [returned_append]
    exact List.mem_append_right _ hp
  · exact .inr (.inl ⟨d, x, List.mem_append_right _ hx, hk⟩)
  · refine .inr (.inr ⟨x, ?_, hk⟩)
    rw [acts_append]
    exact List.mem_append_right _ hx

/-- How many messages under a key a part of a detector's history has taken off the broker. -/
def gone (k : String) (o : List (Out Delivery)) : ℕ :=
  (o.filterMap Out.gone?).countP fun x => x.ref.key = k

/-- What is settled is requeued or gone. -/
lemma countP_settlements (o : List (Out Delivery)) (k : String) :
    (settlements o).countP (fun x => x.ref.key = k) =
      (o.filterMap Out.requeued?).countP (fun x => x.ref.key = k) + gone k o := by
  induction o with
  | nil => rfl
  | cons x o ih =>
    rw [settlements_cons, List.countP_append, ih, gone, gone, List.filterMap_cons,
      List.filterMap_cons]
    cases x with
    | settled x v =>
      cases v <;> simp [Out.settled?, Out.requeued?, Out.gone?, List.countP_cons] <;> omega
    | _ => simp [Out.settled?, Out.requeued?, Out.gone?]

/-- How many deliveries under a key are about to be thrown away. -/
def discards (n : ℕ) (f : Fleet) (k : String) : ℕ :=
  ∑ d ∈ Finset.range n, (f.replicas d).worker.discarding.countP fun x => x.ref.key = k

/-- How many deliveries under a key the guard is being asked for. -/
def claims (n : ℕ) (f : Fleet) (k : String) : ℕ :=
  ∑ d ∈ Finset.range n, (f.replicas d).worker.claiming.countP fun x => x.ref.key = k

/-- How many results under a key are on their way. -/
def underway (n : ℕ) (f : Fleet) (k : String) : ℕ :=
  ∑ d ∈ Finset.range n, (f.replicas d).worker.unreturned.countP fun p => p.delivery.ref.key = k

/-- Every one of these has a message of its own. -/
lemma Sound.load_le (hsound : Sound f h) (n : ℕ) (k : String) :
    discards n f k + claims n f k + underway n f k ≤ copies n f k := by
  have hone : ∀ d ∈ Finset.range n,
      ((f.replicas d).worker.discarding.countP fun x => x.ref.key = k) +
        ((f.replicas d).worker.claiming.countP fun x => x.ref.key = k) +
        ((f.replicas d).worker.unreturned.countP fun p => p.delivery.ref.key = k) ≤
      (f.replicas d).channel.unsettled.countP fun x => x.ref.key = k := by
    intro d _
    have hload := (f.replicas d).worker.load_le fun x => x.ref.key = k
    rw [(hsound.inv d).unsettled, List.countP_append]
    omega
  have hsum := Finset.sum_le_sum hone
  rw [Finset.sum_add_distrib, Finset.sum_add_distrib] at hsum
  rw [discards, claims, underway, copies]
  omega

/-- While a lost claim is answered, the result that holds the key has a message besides. -/
lemma Sound.two_le (hsound : Sound f h) {d d' : ℕ} (hd : d < n) (hd' : d' < n) {x : Delivery}
    {faces : List BoundingBox} (hw : (f.replicas d).worker.phase = .claiming x faces) {p : Pending}
    (hp : p ∈ (f.replicas d').worker.unreturned) (hkey : p.key = x.ref.key) :
    discards n f x.ref.key + 2 ≤ copies n f x.ref.key := by
  have hload := hsound.load_le n x.ref.key
  have hclaim := Family.le_sum
    (fun r : Replica => r.worker.claiming.countP fun y => y.ref.key = x.ref.key) f.replicas hd
  have hway := Family.le_sum (fun r : Replica =>
    r.worker.unreturned.countP fun q => q.delivery.ref.key = x.ref.key) f.replicas hd'
  have hone : (f.replicas d).worker.claiming.countP (fun y => y.ref.key = x.ref.key) = 1 := by
    simp [Worker.claiming, hw]
  have hpos : 0 < (f.replicas d').worker.unreturned.countP
      fun q => q.delivery.ref.key = x.ref.key :=
    List.countP_pos_iff.mpr ⟨p, hp, decide_eq_true hkey⟩
  simp only [claims, underway] at hload hclaim hway
  omega

/-! ### What a step does to the messages of a frame -/

/-- A step that loses no claim throws away no more than before. -/
lemma discarding_le {w w' : Worker} {op : Worker.Op} {as : List Act}
    (hr : Worker.Rule cfg w op w' as) (hno : ∀ x, .outcome x .duplicate ∉ as) (k : String) :
    w'.discarding.countP (fun x => x.ref.key = k) ≤
      w.discarding.countP fun x => x.ref.key = k := by
  rcases hr.discarding_or with heq | hnil | ⟨x, -, -, hdup, -⟩
  · rw [heq]
  · rw [hnil, List.countP_nil]
    exact Nat.zero_le _
  · exact absurd hdup (hno x)

/-- After a claim about another key nothing under this one is about to be thrown away. -/
lemma discarding_eq_zero {w w' : Worker} {op : Worker.Op} {as : List Act}
    (hr : Worker.Rule cfg w op w' as) {x : Delivery} {faces : List BoundingBox}
    (hphase : w.phase = .claiming x faces) {k : String} (hkey : x.ref.key ≠ k) :
    w'.discarding.countP (fun x => x.ref.key = k) = 0 := by
  rcases hr.discarding_or with heq | hnil | ⟨y, faces', hphase', -, heq⟩
  · rw [heq, Worker.discarding_of_ne (by rw [hphase]; simp), List.countP_nil]
  · rw [hnil, List.countP_nil]
  · obtain ⟨rfl, -⟩ := Worker.Phase.claiming.inj (hphase.symm.trans hphase')
    rw [heq, List.countP_cons_of_neg (by simpa using hkey), List.countP_nil]

/-- A claim is lost on a key whose result was returned, or has a message besides. -/
lemma Sound.lost_claim (hsound : Sound f h) (hclaimed : Claimed n f h) {d : ℕ} (hd : d < n)
    {x : Delivery} {faces : List BoundingBox}
    (hphase : (f.replicas d).worker.phase = .claiming x faces) (hk : x.ref.key ∈ f.guard)
    (out : List Output) : Fated (h ++ out) x.ref.key ∨
      discards n f x.ref.key + 2 ≤ copies n f x.ref.key := by
  rcases hclaimed _ hk with ⟨p, hp, hpk⟩ | ⟨d', hd', p, hp, hpk⟩
  · exact .inl (Fated.left (.inl ⟨p, hp, hpk⟩))
  · exact .inr (hsound.two_le hd hd' hphase hp hpk)

/-- A delivery that is settled on its own was about to be thrown away, or is dead-lettered. -/
lemma settled_pending {w : Worker} {x : Delivery} {v : Verdict} (hphase : w.phase = .settling x v)
    (d : ℕ) (h : List Output) (k : String) :
    Fated (h ++ [Out.act (.settle (v.call x.tag)), .settled x v].map (.replica d)) k ∨
      w.released.discarding.countP (fun x => x.ref.key = k) +
          gone k [.act (.settle (v.call x.tag)), .settled x v] ≤
        w.discarding.countP fun x => x.ref.key = k := by
  have hdisc : w.released.discarding = [] := rfl
  rw [hdisc, List.countP_nil, Nat.zero_add]
  cases v with
  | acked =>
    have hhold : w.discarding = [x] := by rw [Worker.discarding, hphase]
    rw [hhold]
    exact .inr le_rfl
  | deadLettered =>
    by_cases hkey : x.ref.key = k
    · exact .inl (Fated.right (.inr (.inl ⟨d, x, by simp, hkey⟩)))
    · refine .inr ?_
      rw [gone, show List.filterMap Out.gone? _ = [x] from rfl,
        List.countP_cons_of_neg (by simpa using hkey), List.countP_nil]
      exact Nat.zero_le _
  | requeued => exact .inr (Nat.zero_le _)

/-- A step of a worker takes a message off the broker that it was about to throw away, or else the
frame has met its fate. A lost claim is the other way to throw a message away, and leaves one
more. -/
lemma Sound.work_pending (hsound : Sound f h) (hclaimed : Claimed n f h) {d : ℕ} (hd : d < n)
    {op : Worker.Op} {w : Worker} {as : List Act} {guard : List String}
    (hw : (f.replicas d).worker.step cfg op = some (w, as)) (hg : answer f.guard as = some guard)
    (k : String) :
    Fated (h ++ (perform (f.replicas d).channel as).2.map (.replica d)) k ∨
    w.discarding.countP (fun x => x.ref.key = k) + gone k (perform (f.replicas d).channel as).2 ≤
      (f.replicas d).worker.discarding.countP (fun x => x.ref.key = k) ∨
    (discards n f k + 2 ≤ copies n f k ∧ w.discarding.length ≤ 1 ∧
      gone k (perform (f.replicas d).channel as).2 = 0) := by
  have hstep : (f.replicas d).step cfg (.work op) = some
      (⟨w, (f.replicas d).prefetched, (perform (f.replicas d).channel as).1⟩,
        (perform (f.replicas d).channel as).2) := by
    simp only [Replica.step, hw]
  have hrule := Worker.Rule.of_step hw
  have hacts := perform_acts (f.replicas d).channel as
  generalize perform (f.replicas d).channel as = r at hstep hacts ⊢
  obtain ⟨c, o⟩ := r
  cases Replica.Rule.of_step (hsound.inv d) hstep with
  | work _ _ as' hr hq hheld =>
    have hgone : gone k (as'.map Out.act) = 0 := by simp [gone, Out.gone?]
    rw [hgone, Nat.add_zero]
    rcases hrule.answer_cases hg with ⟨-, -, hno⟩ |
      ⟨x, faces, hphase, ⟨-, -, -, -, hno⟩ | ⟨-, -, -, hno⟩ | ⟨-, hk, -, -, -⟩⟩
    · exact .inr (.inl (discarding_le hrule hno k))
    · exact .inr (.inl (discarding_le hrule hno k))
    · exact .inr (.inl (discarding_le hrule hno k))
    · by_cases hkey : x.ref.key = k
      · subst hkey
        rcases hsound.lost_claim hclaimed hd hphase hk _ with hfated | htwo
        · exact .inl hfated
        · exact .inr (.inr ⟨htwo, w.discarding_length_le, rfl⟩)
      · refine .inr (.inl ?_)
        rw [discarding_eq_zero hrule hphase hkey]
        exact Nat.zero_le _
  | settled x v hphase => exact (settled_pending hphase d h k).imp_right .inl
  | batchAcked reason batch hb =>
    by_cases hkey : ∃ p ∈ batch, p.key = k
    · obtain ⟨p, hp, hpk⟩ := hkey
      have hret := mem_acts ((hsound.evidence d).returned reason batch hb)
      exact .inl (Fated.left (.inl ⟨p, List.mem_flatMap.mpr ⟨_, hret, hp⟩, hpk⟩))
    · have hgone : gone k (.act (.settle (.ack (Batcher.maxTag batch) true)) ::
          (batch.map Pending.delivery).map (.settled · .acked)) = 0 := by
        have hbatch : List.filterMap Out.gone? (.act (.settle (.ack (Batcher.maxTag batch) true)) ::
            (batch.map Pending.delivery).map (.settled · .acked)) = batch.map Pending.delivery :=
          filterMap_gone_acked _
        rw [gone, hbatch, List.countP_map, List.countP_eq_zero]
        intro p hp hpk
        exact hkey ⟨p, hp, of_decide_eq_true hpk⟩
      rw [hgone, Nat.add_zero]
      refine .inr (.inl (discarding_le hrule ?_ k))
      rw [← hacts]
      simp [Out.act?]
  | itemNacked reason p batch hb =>
    refine .inr (.inl (discarding_le hrule ?_ k))
    rw [← hacts]
    simp [Out.act?]

/-- A step takes messages of a frame off the broker only together with the discards it had for them,
or leaves one more than it has discards, or else the frame has met its fate. -/
theorem Rule.pending (hsound : Sound f h) (hclaimed : Claimed n f h) (hr : Rule cfg n f e f' out)
    (k : String) : Fated (h ++ out) k ∨
      discards n f' k + copies n f k ≤ discards n f k + copies n f' k ∨
      discards n f' k < copies n f' k := by
  have hdisc := fun (d : ℕ) (r : Replica) (hd : d < n) => Family.sum_update
    (fun r : Replica => r.worker.discarding.countP fun x => x.ref.key = k) f.replicas r hd
  have hcopy := fun (d : ℕ) (r : Replica) (hd : d < n) => Family.sum_update
    (fun r : Replica => r.channel.unsettled.countP fun x => x.ref.key = k) f.replicas r hd
  cases hr with
  | publish ref =>
    refine .inr (.inl ?_)
    simp only [discards, copies, List.countP_append]
    omega
  | deliver d i tag m c hd hm hc =>
    refine .inr (.inl ?_)
    obtain ⟨-, -, hu⟩ := Channel.deliver_eq_some hc
    obtain ⟨hi, rfl⟩ := List.getElem?_eq_some_iff.mp hm
    have hq := (List.getElem_cons_eraseIdx_perm hi).countP_eq fun m => decide (m.ref.key = k)
    have hs := hdisc d { f.replicas d with
      channel := c
      prefetched :=
        (f.replicas d).prefetched ++ [⟨f.queue[i].ref, tag, f.queue[i].redelivered⟩] } hd
    have hc := hcopy d { f.replicas d with
      channel := c
      prefetched :=
        (f.replicas d).prefetched ++ [⟨f.queue[i].ref, tag, f.queue[i].redelivered⟩] } hd
    simp only [hu, List.countP_append, List.countP_cons, List.countP_nil] at hq hs hc
    simp only [discards, copies]
    omega
  | take d i now x w acts hd hx hw =>
    have hs := hdisc d { f.replicas d with
      worker := w
      prefetched := (f.replicas d).prefetched.eraseIdx i } hd
    have hc := hcopy d { f.replicas d with
      worker := w
      prefetched := (f.replicas d).prefetched.eraseIdx i } hd
    by_cases hshed : Shed (acts.map fun a => .replica d (.act a)) k
    · exact .inl (Fated.right (.inr (.inr hshed)))
    · have hnone := Worker.take_discarding hw (k := k) fun hx => hshed ⟨x, by
        rw [acts_map_act]
        exact hx.1, hx.2⟩
      refine .inr (.inl ?_)
      simp only [discards, copies] at hs hc ⊢
      omega
  | work d op pos w acts guard hd hw hg =>
    have hs := hdisc d { f.replicas d with
      worker := w
      channel := (perform (f.replicas d).channel acts).1 } hd
    have hc := hcopy d { f.replicas d with
      worker := w
      channel := (perform (f.replicas d).channel acts).1 } hd
    have hperm := (perform_perm (f.replicas d).channel acts).countP_eq fun x =>
      decide (x.ref.key = k)
    rw [List.countP_append, countP_settlements] at hperm
    rcases hsound.work_pending hclaimed hd hw hg k with hf | hle | ⟨htwo, hlen, hgone⟩
    · exact .inl hf
    · refine .inr (.inl ?_)
      simp only [discards, copies, countP_requeue] at hs hc ⊢
      omega
    · refine .inr (.inr ?_)
      have hone := (List.countP_le_length (l := w.discarding)
        (p := fun x => decide (x.ref.key = k))).trans hlen
      simp only [discards, copies, countP_requeue] at hs hc htwo ⊢
      omega
  | expire key => exact .inr (.inl le_rfl)
  | crash d pos hd =>
    refine .inr (.inl ?_)
    have hs := hdisc d Replica.init hd
    have hc := hcopy d Replica.init hd
    have hnil : ({} : Worker).discarding = [] := rfl
    simp only [discards, copies, countP_requeue, hnil, Replica.init, Channel.opened_unsettled,
      List.countP_nil] at hs hc ⊢
    omega

/-- What holds along a run with one queue in which no result is dropped while it is claimed. -/
structure Kept (n : ℕ) (f : Fleet) (h : List Output) : Prop where
  sound : Sound f h
  claimed : Claimed n f h
  labelled : Labelled f h
  /-- A frame has met its fate, or the broker has a message for it that is not thrown away. -/
  pending : ∀ ref ∈ published h, Fated h ref.key ∨ discards n f ref.key < copies n f ref.key

lemma Kept.init : Kept n Fleet.init [] := by
  refine ⟨.init [], ?_, ⟨?_, ?_⟩, ?_⟩
  · intro k hk
    cases hk
  · intro d p hp
    cases hp
  · intro p hp
    cases hp
  · intro ref hp
    cases hp

theorem Kept.step (hk : Kept n f h) (hr : Rule cfg n f e f' out) (hord : e.InOrder)
    (hkeep : keepsClaimed f h e) : Kept n f' (h ++ out) := by
  refine ⟨hk.sound.step hr hord, hk.claimed.step hr hkeep, hk.labelled.step hr, ?_⟩
  intro ref hp
  rw [published_append] at hp
  by_cases hold : ref ∈ published h
  · rcases hk.pending ref hold with hf | hlt
    · exact .inl hf.left
    · rcases hr.pending hk.sound hk.claimed ref.key with hf | hle | hlt'
      · exact .inl hf
      · right
        omega
      · exact .inr hlt'
  · -- a message that has just been published is on top of all the others
    have hnew := (List.mem_append.mp hp).resolve_left hold
    cases hr with
    | publish ref' =>
      obtain rfl := List.mem_singleton.mp hnew
      right
      have hload := hk.sound.load_le n ref.key
      simp only [discards, copies, List.countP_append, List.countP_cons, List.countP_nil,
        decide_true, if_true] at hload ⊢
      omega
    | take d i now x w as hd hx hw => simp [published, Output.published?] at hnew
    | work d op pos w as guard hd hw hg =>
      rw [published_map_replica] at hnew
      cases hnew
    | deliver | expire | crash => cases hnew

/-- The messages are read from one queue, and no result is dropped while its key is claimed. -/
def orderly (f : Fleet) (h : List Output) (e : Event) : Prop := e.InOrder ∧ keepsClaimed f h e

instance (f : Fleet) (h : List Output) (e : Event) : Decidable (orderly f h e) :=
  inferInstanceAs (Decidable (_ ∧ _))

lemma Kept.of_reach (hr : (machine cfg n).Reach orderly Fleet.init f h) : Kept n f h :=
  hr.invariant .init fun _ _ _ _ _ _ hk hok hs => hk.step (Rule.of_step hs) hok.1 hok.2

lemma Kept.reported (hk : Kept n f h) {ref : FrameRef} (hp : ∃ p ∈ returned h, p.key = ref.key) :
    Reported h ref := by
  obtain ⟨p, hp, hkey⟩ := hp
  obtain ⟨hjob, hframe⟩ := dedupKey_injective hkey
  exact ⟨p, hp, hjob, hframe, (hk.labelled.2 p hp).2.trans hframe⟩

/-- At rest the broker has no message. -/
lemma Sound.copies_eq_zero (hsound : Sound f h) (hq : Quiescent n f) (k : String) :
    copies n f k = 0 := by
  rw [copies, hq.1, List.countP_nil, Nat.zero_add]
  apply Finset.sum_eq_zero
  intro d hd
  obtain ⟨hpre, hidle, hpending, hflushing⟩ := hq.2 d (Finset.mem_range.mp hd)
  rw [(hsound.inv d).unsettled, hpre, Worker.idle_held hidle, Worker.buffered, Batcher.buffered,
    Batcher.inFlush, hflushing, hpending]
  rfl

/-- A frame has met its fate, or the broker has a message for it. -/
lemma Kept.fate (hk : Kept n f h) {ref : FrameRef} (hp : ref ∈ published h) :
    Reported h ref ∨ DeadLettered h ref.key ∨ Shed h ref.key ∨ 0 < copies n f ref.key := by
  rcases hk.pending ref hp with (hrep | hdead | hshed) | hlt
  · exact .inl (hk.reported hrep)
  · exact .inr (.inl hdead)
  · exact .inr (.inr (.inl hshed))
  · exact .inr (.inr (.inr (Nat.zero_lt_of_lt hlt)))

lemma Kept.fate_of_quiescent (hk : Kept n f h) (hq : Quiescent n f) {ref : FrameRef}
    (hp : ref ∈ published h) : Reported h ref ∨ DeadLettered h ref.key ∨ Shed h ref.key := by
  rcases hk.fate hp with hrep | hdead | hshed | hpos
  · exact .inl hrep
  · exact .inr (.inl hdead)
  · exact .inr (.inr hshed)
  · rw [hk.sound.copies_eq_zero hq] at hpos
    exact absurd hpos (Nat.lt_irrefl 0)

/-- Whatever is published, in whatever order, and however often: a published frame has been
reported, or one of its messages was dead-lettered or shed, or the broker still has a message for
it. The last is over when the queue is drained and the detectors are at rest. -/
theorem published_fate (hr : (machine cfg n).Reach orderly Fleet.init f h) {ref : FrameRef}
    (hp : ref ∈ published h) :
    (Reported h ref ∨ DeadLettered h ref.key ∨ Shed h ref.key ∨ 0 < copies n f ref.key) ∧
      (Quiescent n f → Reported h ref ∨ DeadLettered h ref.key ∨ Shed h ref.key) :=
  ⟨(Kept.of_reach hr).fate hp, fun hq => (Kept.of_reach hr).fate_of_quiescent hq hp⟩

/-- A frame that was published twice: while one detector reports it, the other one throws the second
message away. -/
theorem published_fate_run : ∃ f h, (machine {batchMaxSize := 1} 2).Reach orderly Fleet.init f h ∧
    Quiescent 2 f ∧ (Reported h ⟨"j", "v", 0, 0, 0, blobKey "j" 0⟩ ∨
      DeadLettered h (dedupKey "j" 0) ∨ Shed h (dedupKey "j" 0)) := by
  have hrun : ∃ f h, (machine {batchMaxSize := 1} 2).Reach orderly Fleet.init f h ∧
      Quiescent 2 f ∧ ⟨"j", "v", 0, 0, 0, blobKey "j" 0⟩ ∈ published h :=
    Machine.Reach.exists_of_exec
      [.publish ⟨"j", "v", 0, 0, 0, blobKey "j" 0⟩, .publish ⟨"j", "v", 0, 0, 0, blobKey "j" 0⟩,
        .deliver 0 0 1, .deliver 1 0 1, .take 0 0 0, .take 1 0 0, .work 0 (.loaded .frame) 0,
        .work 1 (.loaded .frame) 0, .work 0 (.detected (some [])) 0,
        .work 1 (.detected (some [])) 0, .work 0 (.claimed .won) 0, .work 1 (.claimed .lost) 0,
        .work 1 .settled 0, .work 0 (.add 0) 0, .work 0 (.batcher .sinkReturned) 0,
        .work 0 (.batcher .settleNext) 0, .work 0 .counted 0]
      (by decide +kernel)
  obtain ⟨f, h, hr, hq, hp⟩ := hrun
  exact ⟨f, h, hr, hq, (published_fate hr hp).2 hq⟩

end Fleet

end VideoPipeline
