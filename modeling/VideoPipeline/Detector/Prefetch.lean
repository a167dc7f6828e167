import Mathlib.Algebra.BigOperators.Group.Finset.Basic
import Mathlib.Algebra.Order.BigOperators.Group.Finset
import VideoPipeline.Detector.Partitions

/-!
# How much one consumer holds

`RabbitMQFrameConsumer` sets the limit of its channel once and opens a consumer on it for each
partition. The broker applies the limit to each of these consumers.
-/

namespace VideoPipeline

open Amqp

/-- What `RabbitMQFrameConsumer` is constructed with. -/
structure RabbitMQFrameConsumer where
  prefetch : ℕ
  partitions : ℕ := 4
  deriving DecidableEq, Repr

namespace RabbitMQFrameConsumer

open PartitionedConsumer

variable (self : RabbitMQFrameConsumer)

/-- The broker pushes a message to the consumer of a queue, which holds less than `prefetch`
unsettled messages. -/
def deliver (c : PartitionedConsumer) (a : Arrival) : Option PartitionedConsumer :=
  if a.queue < self.partitions ∧
      (c.channel.unsettled.filter fun b => b.queue = a.queue).length < self.prefetch then
    match c.channel.deliver a with
    | some ch =>
      some { c with
        channel := ch
        iterators := Function.update c.iterators a.queue (c.iterators a.queue ++ [a]) }
    | none => none
  else none

/-- The inbox, of size `prefetch`, has room for the delivery a pump is holding. -/
def put (c : PartitionedConsumer) (q : ℕ) : Option PartitionedConsumer :=
  match c.pumps q with
  | .putting a ref =>
    if c.inbox.length < self.prefetch then
      some { c with
        pumps := Function.update c.pumps q .reading
        inbox := c.inbox ++ [⟨ref, a.tag, a.redelivered⟩] }
    else none
  | _ => none

def step (cfg : DetectorSettings) (c : PartitionedConsumer) :
    Event → Option (PartitionedConsumer × List (Out Arrival))
  | .deliver a => (self.deliver c a).map (·, [])
  | .put q => (self.put c q).map (·, [])
  | e => c.step cfg e

/-- The consumer with the worker behind it, as a machine. -/
def machine (cfg : DetectorSettings) : Machine PartitionedConsumer Event (Out Arrival) :=
  ⟨self.step cfg⟩

/-- `main` constructs the consumer from the settings. -/
def ofSettings (cfg : DetectorSettings) : RabbitMQFrameConsumer :=
  ⟨cfg.detectorPrefetch, cfg.framePartitions⟩

theorem machine_ofSettings (cfg : DetectorSettings) :
    (ofSettings cfg).machine cfg = PartitionedConsumer.machine cfg := by
  have hstep : (ofSettings cfg).step cfg = PartitionedConsumer.step cfg := by
    funext c e
    cases e <;> rfl
  rw [machine, hstep]
  rfl

end RabbitMQFrameConsumer

namespace PartitionedConsumer

/-- The message is in an iterator or in a pump, or its delivery is in the inbox, in process or in
the batcher. -/
def Holds (c : PartitionedConsumer) (a : Arrival) : Prop :=
  a ∈ c.waiting a.queue ∨ a.tag ∈ (c.worker.held ++ c.inbox).map Delivery.tag

instance (c : PartitionedConsumer) (a : Arrival) : Decidable (c.Holds a) :=
  inferInstanceAs (Decidable (_ ∨ _))

/-- The messages that are held delivered and unsettled. -/
def holding (c : PartitionedConsumer) : List Arrival := c.channel.unsettled.filter (c.Holds ·)

/-- The unsettled messages of a queue. -/
def unsettledOf (c : PartitionedConsumer) (q : ℕ) : ℕ :=
  (c.channel.unsettled.filter fun b => b.queue = q).length

end PartitionedConsumer

namespace RabbitMQFrameConsumer

open PartitionedConsumer

variable {self : RabbitMQFrameConsumer} {cfg : DetectorSettings} {c c' : PartitionedConsumer}
  {e : Event} {out h : List (Out Arrival)}

/-! ## What a step does -/

/-- A pump that lets go of its message keeps the others waiting. -/
lemma waiting_release {q q' : ℕ} {a b : Arrival} (hp : (c.pumps q).held = [a])
    (hb : b ∈ c.waiting q') (hba : b ≠ a) (ch : Channel Arrival.tag) (inbox : List Delivery) :
    b ∈ waiting ⟨ch, c.iterators, Function.update c.pumps q .reading, inbox, c.worker⟩ q' := by
  by_cases hq : q' = q
  · subst hq
    rw [waiting, hp, List.singleton_append, List.mem_cons] at hb
    simp only [waiting, Function.update_self]
    exact hb.resolve_left hba
  · simp only [waiting, Function.update_of_ne hq]
    exact hb

/-- What is still unsettled after the worker's acts is still held. -/
lemma work_holds {op : Worker.Op} {w : Worker} {acts : List Act}
    (hr : Worker.Rule cfg c.worker op w acts) {a : Arrival}
    (ha : a ∈ (perform c.channel acts).1.unsettled) (hc : c.Holds a) :
    ({ c with worker := w, channel := (perform c.channel acts).1 } : PartitionedConsumer).Holds
      a := by
  refine hc.imp id fun ht => ?_
  rw [List.map_append, List.mem_append] at ht ⊢
  refine ht.imp_left fun ht => ?_
  rcases hr.effect with ⟨hheld, -⟩ | ⟨pre, d, post, v, hheld, hheld', rfl⟩ |
    ⟨reason, batch, post, -, hheld, hheld', rfl⟩
  · rwa [hheld]
  · obtain ⟨-, hcov⟩ := Channel.mem_settle.mp ha
    rw [Verdict.covers_call] at hcov
    rw [hheld, List.map_append, List.map_cons, List.mem_append, List.mem_cons] at ht
    rw [hheld', List.map_append, List.mem_append]
    exact ht.imp id fun ht => ht.resolve_left hcov
  · obtain ⟨-, hcov⟩ := Channel.mem_settle.mp ha
    rw [Settle.covers_ack_multiple] at hcov
    rw [hheld, List.map_append, List.mem_append] at ht
    rw [hheld']
    refine ht.resolve_left fun hmem => hcov ?_
    rw [List.map_map] at hmem
    obtain ⟨p, hp, hpt⟩ := List.mem_map.mp hmem
    rw [← hpt]
    exact Batcher.tag_le_maxTag hp

/-- A message that is pushed is held. -/
lemma deliver_holds {a : Arrival} (hs : self.deliver c a = some c') :
    a.queue < self.partitions ∧ c.unsettledOf a.queue < self.prefetch ∧
      c'.channel.unsettled = c.channel.unsettled ++ [a] ∧ c'.Holds a ∧
      ∀ b, c.Holds b → c'.Holds b := by
  simp only [deliver] at hs
  split at hs
  · next hguard =>
    split at hs
    · next ch hch =>
      cases hs
      obtain ⟨-, -, hu⟩ := Channel.deliver_eq_some hch
      have hw := waiting_deliver c ch a
      refine ⟨hguard.1, hguard.2, hu, .inl ?_, fun b hb => hb.imp (fun hb => ?_) id⟩
      · rw [hw, if_pos rfl]
        exact List.mem_append_right _ (List.mem_singleton_self a)
      · rw [hw]
        exact List.mem_append_left _ hb
    · cases hs
  · cases hs

/-- A message that a pump has read is still held. -/
lemma read_holds {q : ℕ} (hs : c.read q = some c') :
    c'.channel = c.channel ∧ ∀ a, c.Holds a → c'.Holds a := by
  have hw := waiting_read hs
  simp only [PartitionedConsumer.read] at hs
  split at hs
  · cases hs
    refine ⟨rfl, fun a ha => ha.imp (fun ha => ?_) id⟩
    rwa [hw]
  · cases hs

/-- A message that a pump lets go of is settled. -/
lemma nackMalformed_holds {q : ℕ} (hs : c.nackMalformed q = some (c', out)) :
    c'.channel.unsettled.Sublist c.channel.unsettled ∧
      ∀ a ∈ c'.channel.unsettled, c.Holds a → c'.Holds a := by
  simp only [PartitionedConsumer.nackMalformed] at hs
  split at hs
  · next a hp =>
    cases hs
    refine ⟨perform_sublist _ _, fun b hb hc => hc.imp (fun hc => ?_) id⟩
    obtain ⟨-, hcov⟩ := Channel.mem_settle.mp hb
    rw [Settle.covers_nack] at hcov
    refine waiting_release (by rw [hp]; rfl) hc ?_ _ _
    rintro rfl
    exact hcov rfl
  · cases hs

/-- A message that leaves a pump for the inbox is held there. -/
lemma put_holds {q : ℕ} (hs : self.put c q = some c') :
    c'.channel = c.channel ∧ ∀ a, c.Holds a → c'.Holds a := by
  simp only [put] at hs
  split at hs
  · next a ref hp =>
    split at hs
    · cases hs
      refine ⟨rfl, fun b hb => ?_⟩
      by_cases hba : b = a
      · rw [hba]
        right
        simp
      · refine hb.imp (fun hb => waiting_release (by rw [hp]; rfl) hb hba _ _) fun hb => ?_
        rw [← List.append_assoc, List.map_append]
        exact List.mem_append_left _ hb
    · cases hs
  · cases hs

/-- The broker pushes a message to a queue that has room, or nothing new is unsettled and what
stays unsettled stays held. -/
theorem step_cases (hs : self.step cfg c e = some (c', out)) :
    (∃ a, a.queue < self.partitions ∧ c.unsettledOf a.queue < self.prefetch ∧
      c'.channel.unsettled = c.channel.unsettled ++ [a] ∧ c'.Holds a ∧
      ∀ b, c.Holds b → c'.Holds b) ∨
    (c'.channel.unsettled.Sublist c.channel.unsettled ∧
      ∀ a ∈ c'.channel.unsettled, c.Holds a → c'.Holds a) := by
  have of_channel_eq : c'.channel = c.channel ∧ (∀ a, c.Holds a → c'.Holds a) →
      c'.channel.unsettled.Sublist c.channel.unsettled ∧
        ∀ a ∈ c'.channel.unsettled, c.Holds a → c'.Holds a := by
    rintro ⟨hch, hholds⟩
    rw [hch]
    exact ⟨.refl _, fun a _ => hholds a⟩
  cases e with
  | deliver a =>
    obtain ⟨c₁, hc, heq⟩ := Option.map_eq_some_iff.mp hs
    cases heq
    exact .inl ⟨a, deliver_holds hc⟩
  | read q =>
    obtain ⟨c₁, hc, heq⟩ := Option.map_eq_some_iff.mp hs
    cases heq
    exact .inr (of_channel_eq (read_holds hc))
  | nackMalformed q => exact .inr (nackMalformed_holds hs)
  | put q =>
    obtain ⟨c₁, hc, heq⟩ := Option.map_eq_some_iff.mp hs
    cases heq
    exact .inr (of_channel_eq (put_holds hc))
  | take now =>
    right
    simp only [step, PartitionedConsumer.step] at hs
    split at hs
    · next d ds hi =>
      split at hs
      · next w acts hw =>
        obtain ⟨hheld, -, -⟩ := Worker.take_effect hw
        cases hs
        refine ⟨perform_sublist _ _, fun a _ ha => ha.imp id fun ha => ?_⟩
        rw [hi] at ha
        rwa [hheld, List.append_assoc, List.singleton_append]
      · cases hs
    · cases hs
  | work op =>
    right
    simp only [step, PartitionedConsumer.step] at hs
    split at hs
    · next w acts hw =>
      cases hs
      exact ⟨perform_sublist _ _, fun a ha hc => work_holds (.of_step hw) ha hc⟩
    · cases hs

/-! ## The limit -/

/-- Every unsettled message is held, and those of each queue are within the limit. -/
structure Limited (consumer : RabbitMQFrameConsumer) (c : PartitionedConsumer) : Prop where
  queue : ∀ a ∈ c.channel.unsettled, a.queue < consumer.partitions
  limit : ∀ q, c.unsettledOf q ≤ consumer.prefetch
  holds : ∀ a ∈ c.channel.unsettled, c.Holds a

namespace Limited

lemma init : Limited self PartitionedConsumer.init := by
  refine ⟨fun a ha => ?_, fun q => ?_, fun a ha => ?_⟩
  · cases ha
  · exact Nat.zero_le _
  · cases ha

lemma step (hinv : Limited self c) (hs : self.step cfg c e = some (c', out)) : Limited self c' := by
  rcases step_cases hs with ⟨a, hq, hlt, hu, ha, hholds⟩ | ⟨hsub, hholds⟩
  · refine ⟨fun b hb => ?_, fun q => ?_, fun b hb => ?_⟩
    · rw [hu, List.mem_append, List.mem_singleton] at hb
      rcases hb with hb | rfl
      · exact hinv.queue b hb
      · exact hq
    · have hcount : c'.unsettledOf q = c.unsettledOf q + if a.queue = q then 1 else 0 := by
        rw [unsettledOf, hu, List.filter_append, List.length_append, ← unsettledOf]
        by_cases h : a.queue = q
        · simp [h]
        · simp [h]
      rw [hcount]
      split
      · next h => exact h ▸ hlt
      · exact hinv.limit q
    · rw [hu, List.mem_append, List.mem_singleton] at hb
      rcases hb with hb | rfl
      · exact hholds b (hinv.holds b hb)
      · exact ha
  · refine ⟨fun b hb => hinv.queue b (hsub.subset hb), fun q => ?_, fun b hb => ?_⟩
    · exact ((hsub.filter _).length_le).trans (hinv.limit q)
    · exact hholds b hb (hinv.holds b (hsub.subset hb))

lemma of_reach (hr : (self.machine cfg).Reach Machine.anyStep PartitionedConsumer.init c h) :
    Limited self c :=
  hr.invariant (P := fun c _ => Limited self c) .init fun _ _ _ _ _ _ hinv _ hs => hinv.step hs

/-- What is unsettled is what is held of it. -/
lemma holding_eq (hinv : Limited self c) : c.holding = c.channel.unsettled := by
  rw [holding, List.filter_eq_self]
  intro a ha
  exact decide_eq_true (hinv.holds a ha)

/-- The unsettled messages are those of the queues together. -/
lemma length_eq_sum (hinv : Limited self c) :
    c.channel.unsettled.length = ∑ q ∈ Finset.range self.partitions, c.unsettledOf q := by
  have hcount : ∀ q, c.unsettledOf q =
      (c.channel.unsettled.map Arrival.queue : Multiset ℕ).count q := by
    intro q
    rw [Multiset.coe_count, List.count, List.countP_map, List.countP_eq_length_filter, unsettledOf]
    rfl
  calc c.channel.unsettled.length
      = Multiset.card (c.channel.unsettled.map Arrival.queue : Multiset ℕ) := by simp
    _ = ∑ q ∈ Finset.range self.partitions,
          (c.channel.unsettled.map Arrival.queue : Multiset ℕ).count q := by
        refine (Multiset.sum_count_eq_card fun q hq => ?_).symm
        obtain ⟨a, ha, rfl⟩ := List.mem_map.mp (Multiset.mem_coe.mp hq)
        exact Finset.mem_range.mpr (hinv.queue a ha)
    _ = ∑ q ∈ Finset.range self.partitions, c.unsettledOf q :=
        Finset.sum_congr rfl fun q _ => (hcount q).symm

end Limited

/-- One consumer holds at most the limit times the number of queues. -/
theorem holding_le (hr : (self.machine cfg).Reach Machine.anyStep PartitionedConsumer.init c h) :
    c.holding.length ≤ self.partitions * self.prefetch := by
  have hinv : Limited self c := .of_reach hr
  rw [hinv.holding_eq, hinv.length_eq_sum]
  calc ∑ q ∈ Finset.range self.partitions, c.unsettledOf q
      ≤ (Finset.range self.partitions).card • self.prefetch :=
        Finset.sum_le_card_nsmul _ _ _ fun q _ => hinv.limit q
    _ = self.partitions * self.prefetch := by rw [Finset.card_range, smul_eq_mul]

/-- While fewer are held, some queue has room, and the broker pushes one more message. -/
lemma exists_more (hr : (self.machine cfg).Reach Machine.anyStep PartitionedConsumer.init c h)
    (hlt : c.holding.length < self.partitions * self.prefetch) :
    ∃ c' h', (self.machine cfg).Reach Machine.anyStep PartitionedConsumer.init c' h' ∧
      c'.holding.length = c.holding.length + 1 := by
  have hinv : Limited self c := .of_reach hr
  rw [hinv.holding_eq] at hlt ⊢
  have hsum : ∑ q ∈ Finset.range self.partitions, c.unsettledOf q <
      ∑ _q ∈ Finset.range self.partitions, self.prefetch := by
    rw [← hinv.length_eq_sum, Finset.sum_const, Finset.card_range, smul_eq_mul]
    exact hlt
  obtain ⟨q, hq, hroom⟩ := Finset.exists_lt_of_sum_lt hsum
  have hpush : ∃ c',
      (self.machine cfg).step c (.deliver ⟨q, c.channel.lastTag + 1, none, false⟩) =
        some (c', []) ∧
      c'.channel.unsettled = c.channel.unsettled ++ [⟨q, c.channel.lastTag + 1, none, false⟩] := by
    have hguard : q < self.partitions ∧
        (c.channel.unsettled.filter fun b => b.queue = q).length < self.prefetch :=
      ⟨Finset.mem_range.mp hq, hroom⟩
    simp only [machine, step, deliver, if_pos hguard, Channel.deliver, Nat.lt_succ_self, dite_true]
    exact ⟨_, rfl, rfl⟩
  obtain ⟨c', hs, hu⟩ := hpush
  have hr' := hr.step trivial hs
  refine ⟨c', _, hr', ?_⟩
  rw [(Limited.of_reach hr').holding_eq, hu, List.length_append, List.length_singleton]

/-- Every number up to the limit times the number of queues is reached. -/
theorem exists_holding (self : RabbitMQFrameConsumer) (cfg : DetectorSettings) {k : ℕ}
    (hk : k ≤ self.partitions * self.prefetch) :
    ∃ c h, (self.machine cfg).Reach Machine.anyStep PartitionedConsumer.init c h ∧
      c.holding.length = k := by
  induction k with
  | zero => exact ⟨_, _, .init, rfl⟩
  | succ k ih =>
    obtain ⟨c, h, hr, hc⟩ := ih (Nat.le_of_succ_le hk)
    obtain ⟨c', h', hr', hc'⟩ := exists_more hr (hc ▸ hk)
    exact ⟨c', h', hr', hc'.trans (congrArg Nat.succ hc)⟩

/-- The cap on what one consumer holds is the product, and no smaller one. -/
lemma capped_iff (self : RabbitMQFrameConsumer) (cfg : DetectorSettings) (cap : ℕ) :
    (∀ c h, (self.machine cfg).Reach Machine.anyStep PartitionedConsumer.init c h →
      c.holding.length ≤ cap) ↔ self.partitions * self.prefetch ≤ cap := by
  constructor
  · intro hcap
    obtain ⟨c, h, hr, hc⟩ := exists_holding self cfg le_rfl
    rw [← hc]
    exact hcap c h hr
  · intro hle c h hr
    exact (holding_le hr).trans hle

/-- The prefetch limit is the cap on what one consumer holds if and only if it consumes a single
partition. -/
theorem capped_by_prefetch_iff (self : RabbitMQFrameConsumer) (cfg : DetectorSettings)
    (hp : 0 < self.partitions) (hn : 0 < self.prefetch) :
    (∀ c h, (self.machine cfg).Reach Machine.anyStep PartitionedConsumer.init c h →
      c.holding.length ≤ self.prefetch) ↔ self.partitions = 1 := by
  rw [capped_iff]
  constructor
  · intro hle
    have hone : self.partitions ≤ 1 := Nat.le_of_mul_le_mul_right (by rwa [Nat.one_mul]) hn
    exact Nat.le_antisymm hone hp
  · intro hone
    rw [hone, Nat.one_mul]

/-- One partition with the default prefetch: the consumer can hold 32 messages, and never more. -/
theorem capped_by_prefetch_single :
    (∃ c h, (machine ⟨32, 1⟩ {}).Reach Machine.anyStep PartitionedConsumer.init c h ∧
      c.holding.length = 32) ∧
    ¬∃ c h, (machine ⟨32, 1⟩ {}).Reach Machine.anyStep PartitionedConsumer.init c h ∧
      32 < c.holding.length := by
  refine ⟨exists_holding ⟨32, 1⟩ {} (by decide), ?_⟩
  rintro ⟨c, h, hr, hlt⟩
  have hcap := (capped_by_prefetch_iff ⟨32, 1⟩ {} (by decide) (by decide)).mpr rfl
  exact absurd (hcap c h hr) hlt.not_ge

/-- The default is four partitions, and a backlog on each of them fills the consumer to four times
the prefetch limit. -/
theorem not_capped_by_prefetch :
    ∃ c h, ((ofSettings {}).machine {}).Reach Machine.anyStep PartitionedConsumer.init c h ∧
      (ofSettings {}).prefetch = 32 ∧ c.holding.length = 128 := by
  obtain ⟨c, h, hr, hc⟩ := exists_holding (ofSettings {}) {} (by decide : 128 ≤ 4 * 32)
  exact ⟨c, h, hr, rfl, hc⟩

end RabbitMQFrameConsumer

end VideoPipeline
