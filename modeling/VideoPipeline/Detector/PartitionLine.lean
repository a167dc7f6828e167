import Mathlib.Data.List.Sort
import VideoPipeline.Detector.Topology
import VideoPipeline.Detector.Ordering

/-!
# What a consumer has of a partition

The messages of a partition stay in the order of their delivery tags, from the iterator through the
pump and the inbox to the batcher, however the pumps of the partitions overtake each other. So they
go back in that order when the consumer dies.
-/

namespace VideoPipeline

open Amqp

/-- The tag of a delivery and the frame it is about. -/
def Arrival.tagged? (a : Arrival) : Option (ℕ × FrameRef) := a.body.map (a.tag, ·)

namespace PartitionedConsumer

/-- What a consumer is at with the deliveries past its pumps. -/
def taken (c : PartitionedConsumer) : List Delivery := c.worker.held ++ c.inbox

variable (part : String → ℕ)

/-- The deliveries of a partition among these. -/
def ofPartition (q : ℕ) (ds : List Delivery) : List (ℕ × FrameRef) :=
  (ds.filter fun x => part x.ref.videoId = q).map fun x => (x.tag, x.ref)

/-- What a consumer has of a partition, in the order in which it gets to it. -/
def lineOf (c : PartitionedConsumer) (q : ℕ) : List (ℕ × FrameRef) :=
  ofPartition part q c.taken ++ (c.waiting q).filterMap Arrival.tagged?

/-- What a consumer has of a partition is in the order of the tags, and everything that is unsettled
is still somewhere in the consumer. -/
structure Traced (c : PartitionedConsumer) : Prop where
  parsed : ∀ q a ref, c.pumps q = .putting a ref → a.body = some ref
  malformed : ∀ q a, c.pumps q = .nacking a → a.body = none
  routed : ∀ q, ∀ a ∈ c.waiting q, a.queue = q ∧ ∀ ref, a.body = some ref → part ref.videoId = q
  sorted : ∀ q, (c.lineOf part q).Pairwise fun x y => x.1 < y.1
  taken_le : ∀ x ∈ c.taken, x.tag ≤ c.channel.lastTag
  waiting_le : ∀ q, ∀ a ∈ c.waiting q, a.tag ≤ c.channel.lastTag
  same_taken : ∀ b ∈ c.channel.unsettled, ∀ x ∈ c.taken, x.tag = b.tag →
    b.body = some x.ref ∧ b.queue = part x.ref.videoId
  same_waiting : ∀ b ∈ c.channel.unsettled, ∀ q, ∀ a ∈ c.waiting q, a.tag = b.tag → a = b
  kept : ∀ b ∈ c.channel.unsettled, (∃ x ∈ c.taken, x.tag = b.tag) ∨ b ∈ c.waiting b.queue

variable {part} {cfg : DetectorSettings} {c c' : PartitionedConsumer}
  {e : Event} {q : ℕ} {out : List (Out Arrival)}

lemma ofPartition_append (q : ℕ) (ds ds' : List Delivery) :
    ofPartition part q (ds ++ ds') = ofPartition part q ds ++ ofPartition part q ds' := by
  simp [ofPartition]

lemma ofPartition_sublist {ds ds' : List Delivery} (h : ds.Sublist ds') (q : ℕ) :
    (ofPartition part q ds).Sublist (ofPartition part q ds') :=
  (h.filter _).map _

lemma mem_ofPartition {x : Delivery} {ds : List Delivery} (hx : x ∈ ds) :
    (x.tag, x.ref) ∈ ofPartition part (part x.ref.videoId) ds :=
  List.mem_map_of_mem (List.mem_filter.mpr ⟨hx, by simp⟩)

lemma Traced.init : Traced part PartitionedConsumer.init := by
  have hwait : ∀ q, PartitionedConsumer.init.waiting q = [] := fun q => rfl
  refine ⟨?_, ?_, ?_, ?_, ?_, ?_, ?_, ?_, ?_⟩
  · rintro q a ref ⟨⟩
  · rintro q a ⟨⟩
  · intro q a ha
    rw [hwait] at ha
    cases ha
  · intro q
    exact List.Pairwise.nil
  · rintro x ⟨⟩
  · intro q a ha
    rw [hwait] at ha
    cases ha
  · rintro b ⟨⟩
  · rintro b ⟨⟩
  · rintro b ⟨⟩

/-- A step that takes nothing new in, and loses nothing that stays unsettled. -/
lemma Traced.shrink (ht : Traced part c) (hparsed : ∀ q a ref, c'.pumps q = .putting a ref →
      a.body = some ref) (hmalformed : ∀ q a, c'.pumps q = .nacking a → a.body = none)
    (htaken : c'.taken.Sublist c.taken) (hwait : ∀ q, (c'.waiting q).Sublist (c.waiting q))
    (hlast : c'.channel.lastTag = c.channel.lastTag)
    (hkept : ∀ b ∈ c'.channel.unsettled, b ∈ c.channel.unsettled ∧
      ((∃ x ∈ c'.taken, x.tag = b.tag) ∨ b ∈ c'.waiting b.queue)) : Traced part c' := by
  refine ⟨hparsed, hmalformed, fun q a ha => ht.routed q a ((hwait q).mem ha), ?_, ?_, ?_, ?_, ?_,
    fun b hb => (hkept b hb).2⟩
  · intro q
    exact (ht.sorted q).sublist
      ((ofPartition_sublist htaken q).append ((hwait q).filterMap _))
  · intro x hx
    rw [hlast]
    exact ht.taken_le x (htaken.mem hx)
  · intro q a ha
    rw [hlast]
    exact ht.waiting_le q a ((hwait q).mem ha)
  · exact fun b hb x hx => ht.same_taken b (hkept b hb).1 x (htaken.mem hx)
  · exact fun b hb q a ha => ht.same_waiting b (hkept b hb).1 q a ((hwait q).mem ha)

/-- The broker pushes a message of a partition. -/
lemma Traced.deliver (ht : Traced part c) {a : Arrival} {ch : Channel Arrival.tag}
    (hch : c.channel.deliver a = some ch)
    (hbody : ∀ ref, a.body = some ref → part ref.videoId = a.queue) :
    Traced part { c with
      channel := ch
      iterators := Function.update c.iterators a.queue (c.iterators a.queue ++ [a]) } ∧
    ∀ q, lineOf part { c with
      channel := ch
      iterators := Function.update c.iterators a.queue (c.iterators a.queue ++ [a]) } q =
        c.lineOf part q ++ if q = a.queue then a.tagged?.toList else [] := by
  obtain ⟨hlt, hlast, hu⟩ := Channel.deliver_eq_some hch
  have hwait := waiting_deliver c ch a
  set c' : PartitionedConsumer := { c with
    channel := ch
    iterators := Function.update c.iterators a.queue (c.iterators a.queue ++ [a]) } with hc'
  have hmem : ∀ {q b}, b ∈ c'.waiting q → b ∈ c.waiting q ∨ b = a ∧ q = a.queue := by
    intro q b hb
    rw [hwait, List.mem_append] at hb
    rcases hb with hb | hb
    · exact .inl hb
    · split at hb
      · next hq => exact .inr ⟨List.mem_singleton.mp hb, hq⟩
      · cases hb
  have hunsettled : ∀ {b}, b ∈ c'.channel.unsettled → b ∈ c.channel.unsettled ∨ b = a := by
    intro b hb
    rw [show c'.channel.unsettled = c.channel.unsettled ++ [a] from hu] at hb
    exact (List.mem_append.mp hb).imp_right List.mem_singleton.mp
  have hline : ∀ q, c'.lineOf part q =
      c.lineOf part q ++ if q = a.queue then a.tagged?.toList else [] := by
    intro q
    rw [lineOf, lineOf, hwait, List.filterMap_append, ← List.append_assoc]
    congr 1
    split
    · cases htag : a.tagged? <;> simp [htag]
    · rfl
  refine ⟨⟨ht.parsed, ht.malformed, ?_, ?_, ?_, ?_, ?_, ?_, ?_⟩, hline⟩
  · intro q b hb
    rcases hmem hb with hb | ⟨rfl, rfl⟩
    · exact ht.routed q b hb
    · exact ⟨rfl, hbody⟩
  · intro q
    rw [hline, List.pairwise_append]
    refine ⟨ht.sorted q, by split <;> cases a.tagged? <;> simp, ?_⟩
    intro x hx y hy
    split at hy
    · obtain ⟨ref, -, rfl⟩ : ∃ ref, a.body = some ref ∧ (a.tag, ref) = y := by
        simpa [Arrival.tagged?] using hy
      refine lt_of_le_of_lt ?_ hlt
      rw [lineOf, List.mem_append] at hx
      rcases hx with hx | hx
      · obtain ⟨z, hz, rfl⟩ := List.mem_map.mp hx
        exact ht.taken_le z (List.mem_filter.mp hz).1
      · obtain ⟨z, hz, hzx⟩ := List.mem_filterMap.mp hx
        obtain ⟨ref', -, rfl⟩ : ∃ ref', z.body = some ref' ∧ (z.tag, ref') = x := by
          simpa [Arrival.tagged?] using hzx
        exact ht.waiting_le q z hz
    · cases hy
  · intro x hx
    exact (ht.taken_le x hx).trans (hlast ▸ hlt.le)
  · intro q b hb
    rw [show c'.channel.lastTag = a.tag from hlast]
    rcases hmem hb with hb | ⟨rfl, -⟩
    · exact (ht.waiting_le q b hb).trans hlt.le
    · exact le_rfl
  · intro b hb x hx hxb
    rcases hunsettled hb with hb | rfl
    · exact ht.same_taken b hb x hx hxb
    · exact absurd (ht.taken_le x hx) (not_le.mpr (hxb ▸ hlt))
  · intro b hb q z hz hzb
    rcases hunsettled hb with hb' | rfl <;> rcases hmem hz with hz' | ⟨rfl, -⟩
    · exact ht.same_waiting b hb' q z hz' hzb
    · exact absurd (c.channel.tag_le b hb') (not_le.mpr (hzb ▸ hlt))
    · exact absurd (ht.waiting_le q z hz') (not_le.mpr (hzb ▸ hlt))
    · rfl
  · intro b hb
    rcases hunsettled hb with hb | rfl
    · refine (ht.kept b hb).imp_right fun hb => ?_
      rw [hwait]
      exact List.mem_append_left _ hb
    · right
      rw [hwait, if_pos rfl]
      exact List.mem_append_right _ (List.mem_singleton_self b)

/-- A pump reads a message. -/
lemma Traced.read (ht : Traced part c) {a : Arrival} {as : List Arrival}
    (hp : c.pumps q = .reading) (hi : c.iterators q = a :: as) :
    let c₁ : PartitionedConsumer := { c with
      pumps := Function.update c.pumps q (Pump.parse a)
      iterators := Function.update c.iterators q as }
    Traced part c₁ ∧ ∀ q', c₁.lineOf part q' = c.lineOf part q' := by
  intro c₁
  have hread : c.read q = some c₁ := by
    simp only [PartitionedConsumer.read, hp, hi]
    rfl
  have hwait := waiting_read hread
  refine ⟨ht.shrink ?_ ?_ (.refl _) (fun q' => by rw [hwait]) rfl ?_, ?_⟩
  · intro q' b ref hb
    by_cases hq : q' = q
    · subst hq
      simp only [c₁, Function.update_self, Pump.parse] at hb
      split at hb
      · next hbody => cases hb; exact hbody
      · cases hb
    · exact ht.parsed q' b ref (by simpa [c₁, hq] using hb)
  · intro q' b hb
    by_cases hq : q' = q
    · subst hq
      simp only [c₁, Function.update_self, Pump.parse] at hb
      split at hb
      · cases hb
      · next hbody => cases hb; exact hbody
    · exact ht.malformed q' b (by simpa [c₁, hq] using hb)
  · intro b hb
    rw [hwait]
    exact ⟨hb, ht.kept b hb⟩
  · intro q'
    rw [lineOf, lineOf, hwait]
    rfl

/-- What the pumps hold, when one of them goes back to reading. -/
lemma Traced.pumps_release (ht : Traced part c) (q : ℕ) :
    (∀ q' a ref, Function.update c.pumps q .reading q' = .putting a ref → a.body = some ref) ∧
      ∀ q' a, Function.update c.pumps q .reading q' = .nacking a → a.body = none := by
  constructor
  · intro q' a ref ha
    by_cases hq : q' = q
    · rw [hq, Function.update_self] at ha
      cases ha
    · exact ht.parsed q' a ref (by rwa [Function.update_of_ne hq] at ha)
  · intro q' a ha
    by_cases hq : q' = q
    · rw [hq, Function.update_self] at ha
      cases ha
    · exact ht.malformed q' a (by rwa [Function.update_of_ne hq] at ha)

/-- A pump puts its delivery into the inbox. -/
lemma Traced.put (ht : Traced part c) {a : Arrival} {ref : FrameRef}
    (hp : c.pumps q = .putting a ref) :
    let c₁ : PartitionedConsumer := { c with
      pumps := Function.update c.pumps q .reading
      inbox := c.inbox ++ [⟨ref, a.tag, a.redelivered⟩] }
    Traced part c₁ ∧ ∀ q', c₁.lineOf part q' = c.lineOf part q' := by
  intro c₁
  have hbody := ht.parsed q a ref hp
  have hcons : c.waiting q = a :: c.iterators q := by rw [waiting, hp]; rfl
  have ha : a ∈ c.waiting q := hcons ▸ List.mem_cons_self
  obtain ⟨hqueue, hpart⟩ := ht.routed q a ha
  have hwait := waiting_release c c.channel c₁.inbox q
  have htaken : c₁.taken = c.taken ++ [⟨ref, a.tag, a.redelivered⟩] :=
    (List.append_assoc ..).symm
  have hmem : ∀ {q' b}, b ∈ c₁.waiting q' → b ∈ c.waiting q' := by
    intro q' b hb
    rw [hwait] at hb
    split at hb
    · next hq =>
      rw [hq, hcons]
      exact List.mem_cons_of_mem a hb
    · exact hb
  have hline : ∀ q', c₁.lineOf part q' = c.lineOf part q' := by
    intro q'
    rw [lineOf, lineOf, hwait, htaken, ofPartition_append]
    by_cases hq : q' = q
    · rw [if_pos hq, hq, hcons, List.filterMap_cons]
      simp [ofPartition, hpart ref hbody, Arrival.tagged?, hbody]
    · have hne : part ref.videoId ≠ q' := (hpart ref hbody).trans_ne (Ne.symm hq)
      rw [if_neg hq]
      simp [ofPartition, hne]
  refine ⟨⟨(ht.pumps_release q).1, (ht.pumps_release q).2, fun q' b hb => ht.routed q' b (hmem hb),
    ?_, ?_, fun q' b hb => ht.waiting_le q' b (hmem hb), ?_,
    fun b hb q' z hz => ht.same_waiting b hb q' z (hmem hz), ?_⟩, hline⟩
  · intro q'
    rw [hline]
    exact ht.sorted q'
  · intro x hx
    rw [htaken] at hx
    rcases List.mem_append.mp hx with hx | hx
    · exact ht.taken_le x hx
    · rw [List.mem_singleton.mp hx]
      exact ht.waiting_le q a ha
  · intro b hb x hx hxb
    rw [htaken] at hx
    rcases List.mem_append.mp hx with hx | hx
    · exact ht.same_taken b hb x hx hxb
    · obtain rfl := List.mem_singleton.mp hx
      obtain rfl := ht.same_waiting b hb q a ha hxb
      exact ⟨hbody, hqueue.trans (hpart ref hbody).symm⟩
  · intro b hb
    rw [htaken]
    rcases ht.kept b hb with ⟨x, hx, hxb⟩ | hb'
    · exact .inl ⟨x, List.mem_append_left _ hx, hxb⟩
    · by_cases hq : b.queue = q
      · rw [hq, hcons] at hb'
        rcases List.mem_cons.mp hb' with rfl | hb'
        · exact .inl ⟨_, List.mem_append_right _ (List.mem_singleton_self _), rfl⟩
        · rw [hwait, if_pos hq]
          exact .inr hb'
      · rw [hwait, if_neg hq]
        exact .inr hb'

/-- A pump nacks a message that is no frame reference. -/
lemma Traced.nackMalformed (ht : Traced part c) {a : Arrival} (hp : c.pumps q = .nacking a) :
    let c₁ : PartitionedConsumer := { c with
      channel := c.channel.settle (.nack a.tag false)
      pumps := Function.update c.pumps q .reading }
    Traced part c₁ ∧ ∀ q', c₁.lineOf part q' = c.lineOf part q' := by
  intro c₁
  have hcons : c.waiting q = a :: c.iterators q := by rw [waiting, hp]; rfl
  have hwait := waiting_release c c₁.channel c.inbox q
  refine ⟨ht.shrink (ht.pumps_release q).1 (ht.pumps_release q).2 (.refl _) ?_ rfl ?_, ?_⟩
  · intro q'
    rw [hwait]
    split
    · next hq =>
      rw [hq, hcons]
      exact List.sublist_cons_self a _
    · exact .refl _
  · intro b hb
    obtain ⟨hb, hne⟩ := Channel.mem_settle.mp hb
    refine ⟨hb, (ht.kept b hb).imp_right fun hb' => ?_⟩
    rw [hwait]
    split
    · next hq =>
      rw [hq, hcons] at hb'
      rcases List.mem_cons.mp hb' with rfl | hb'
      · exact absurd rfl hne
      · exact hb'
    · exact hb'
  · intro q'
    rw [lineOf, lineOf, hwait]
    split
    · next hq =>
      rw [hq, hcons, List.filterMap_cons, Arrival.tagged?, ht.malformed q a hp]
      rfl
    · rfl

/-- The worker lets go of deliveries only when it settles them. -/
lemma Traced.work (ht : Traced part c) {op : Worker.Op} {w : Worker} {acts : List Act}
    (hw : Worker.Rule cfg c.worker op w acts) :
    Traced part { c with worker := w, channel := (perform c.channel acts).1 } := by
  rcases hw.effect with ⟨hheld, hq⟩ | ⟨pre, d, post, v, hheld, hheld', rfl⟩ |
    ⟨reason, batch, post, hb, hheld, hheld', rfl⟩
  · rw [perform_quiet hq]
    have htaken : taken { c with worker := w } = c.taken := by rw [taken, taken, hheld]
    exact ht.shrink ht.parsed ht.malformed (htaken ▸ .refl _) (fun _ => .refl _) rfl
      fun b hb => ⟨hb, htaken ▸ ht.kept b hb⟩
  · refine ht.shrink ht.parsed ht.malformed ?_ (fun _ => .refl _) rfl ?_
    · rw [taken, taken, hheld, hheld']
      exact ((List.sublist_cons_self d post).append_left pre).append_right _
    · intro b hb
      obtain ⟨hb, hne⟩ := Channel.mem_settle.mp hb
      rw [Verdict.covers_call] at hne
      refine ⟨hb, (ht.kept b hb).imp_left ?_⟩
      rintro ⟨x, hx, hxb⟩
      refine ⟨x, ?_, hxb⟩
      have hxd : x ≠ d := by
        rintro rfl
        exact hne hxb.symm
      simp only [taken, hheld, hheld', List.mem_append, List.mem_cons] at hx ⊢
      tauto
  · refine ht.shrink ht.parsed ht.malformed ?_ (fun _ => .refl _) rfl ?_
    · rw [taken, taken, hheld, hheld']
      exact (List.sublist_append_right _ post).append_right _
    · intro b hb
      obtain ⟨hb, hlt⟩ := Channel.mem_settle.mp hb
      refine ⟨hb, (ht.kept b hb).imp_left ?_⟩
      rintro ⟨x, hx, hxb⟩
      refine ⟨x, ?_, hxb⟩
      simp only [taken, hheld, hheld', List.mem_append] at hx ⊢
      rcases hx with (hx | hx) | hx
      · obtain ⟨p, hp, rfl⟩ := List.mem_map.mp hx
        exact absurd (hxb ▸ Batcher.tag_le_maxTag hp) hlt
      · exact .inl hx
      · exact .inr hx

theorem Traced.rule (ht : Traced part c) (hr : Rule cfg c e c' out) : Traced part c' := by
  cases hr with
  | read q a as hp hi => exact (ht.read hp hi).1
  | nackMalformed q a hp => exact (ht.nackMalformed hp).1
  | put q a ref hp => exact (ht.put hp).1
  | take now d ds w acts hi hw =>
    have htaken : taken { c with worker := w, inbox := ds } = c.taken := by
      rw [taken, taken, (Worker.take_effect hw).1, hi, List.append_assoc]
      rfl
    exact ht.shrink ht.parsed ht.malformed (htaken ▸ .refl _) (fun _ => .refl _) rfl
      fun b hb => ⟨hb, htaken ▸ ht.kept b hb⟩
  | work op w acts hw => exact ht.work (.of_step hw)

/-- Only the worker lets go of anything. -/
lemma Traced.lineOf_eq (ht : Traced part c) (hr : Rule cfg c e c' out)
    (hwork : ∀ op, e ≠ .work op) (q : ℕ) : c'.lineOf part q = c.lineOf part q := by
  cases hr with
  | read q' a as hp hi => exact (ht.read hp hi).2 q
  | nackMalformed q' a hp => exact (ht.nackMalformed hp).2 q
  | put q' a ref hp => exact (ht.put hp).2 q
  | take now d ds w acts hi hw =>
    have htaken : taken { c with worker := w, inbox := ds } = c.taken := by
      rw [taken, taken, (Worker.take_effect hw).1, hi, List.append_assoc]
      rfl
    rw [lineOf, lineOf, htaken]
    rfl
  | work op w acts hw => exact absurd rfl (hwork op)

/-- No step but a delivery adds to a line. -/
lemma Traced.lineOf_sublist (ht : Traced part c) (hr : Rule cfg c e c' out) (q : ℕ) :
    (c'.lineOf part q).Sublist (c.lineOf part q) := by
  by_cases hwork : ∃ op, e = .work op
  · obtain ⟨op, rfl⟩ := hwork
    cases hr with
    | work op w acts hw =>
      have hheld := (Worker.Rule.of_step hw).held_sublist.append_right c.inbox
      exact (ofPartition_sublist hheld q).append_right _
  · rw [ht.lineOf_eq hr fun op hop => hwork ⟨op, hop⟩]

/-- The frames on the line of a partition belong there. -/
lemma Traced.part_eq (ht : Traced part c) {x : ℕ × FrameRef} (hx : x ∈ c.lineOf part q) :
    part x.2.videoId = q := by
  rcases List.mem_append.mp hx with hx | hx
  · obtain ⟨y, hy, rfl⟩ := List.mem_map.mp hx
    exact of_decide_eq_true (List.mem_filter.mp hy).2
  · obtain ⟨a, ha, hax⟩ := List.mem_filterMap.mp hx
    obtain ⟨ref, hbody, rfl⟩ : ∃ ref, a.body = some ref ∧ (a.tag, ref) = x := by
      simpa [Arrival.tagged?] using hax
    exact (ht.routed q a ha).2 ref hbody

/-- What goes back to a partition, when the consumer dies, is in the order of its line. -/
lemma Traced.unsettled_sublist (ht : Traced part c) (q : ℕ) :
    ((c.channel.unsettled.filter (·.queue = q)).filterMap Arrival.tagged?).Sublist
      (c.lineOf part q) := by
  let Lt : ℕ × FrameRef → ℕ × FrameRef → Prop := fun x y => x.1 < y.1
  have hantisymm : Std.Antisymm Lt := ⟨fun x y hxy hyx => absurd hxy (Nat.lt_asymm hyx)⟩
  have hirrefl : Std.Irrefl Lt := ⟨fun x => Nat.lt_irrefl x.1⟩
  have hsorted : ((c.channel.unsettled.filter (·.queue = q)).filterMap
      Arrival.tagged?).Pairwise Lt := by
    rw [List.pairwise_filterMap]
    refine (c.channel.sorted.filter _).imp ?_
    intro a b hab x hx y hy
    obtain ⟨ref, -, rfl⟩ : ∃ ref, a.body = some ref ∧ (a.tag, ref) = x := by
      simpa [Arrival.tagged?] using hx
    obtain ⟨ref', -, rfl⟩ : ∃ ref, b.body = some ref ∧ (b.tag, ref) = y := by
      simpa [Arrival.tagged?] using hy
    exact hab
  refine List.sublist_of_subperm_of_pairwise (List.subperm_of_subset hsorted.nodup ?_) hsorted
    (ht.sorted q)
  intro x hx
  obtain ⟨b, hfilter, hbx⟩ := List.mem_filterMap.mp hx
  obtain ⟨hb, hq⟩ := List.mem_filter.mp hfilter
  obtain rfl := of_decide_eq_true hq
  rcases ht.kept b hb with ⟨y, hy, hyb⟩ | hb'
  · obtain ⟨hbody, hqueue⟩ := ht.same_taken b hb y hy hyb
    obtain rfl : (b.tag, y.ref) = x := by simpa [Arrival.tagged?, hbody] using hbx
    rw [← hyb, hqueue]
    exact List.mem_append_left _ (mem_ofPartition hy)
  · exact List.mem_append_right _ (List.mem_filterMap.mpr ⟨b, hb', hbx⟩)

/-- A step of anything but the worker settles no frame and asks nothing of the guard. -/
lemma Rule.quiet (hr : Rule cfg c e c' out) (hwork : ∀ op, e ≠ .work op) :
    c'.worker.unreturned = c.worker.unreturned ∧ c'.worker.results = c.worker.results ∧
      (out.filterMap Out.act?).flatMap Act.returned = [] ∧
      (∀ guard, answer guard (out.filterMap Out.act?) = some guard) ∧
      out.filterMap Out.goesBack? = [] := by
  cases hr with
  | read | put => exact ⟨rfl, rfl, rfl, fun _ => rfl, rfl⟩
  | nackMalformed q a hp =>
    refine ⟨rfl, rfl, ?_, ?_, ?_⟩
    · rw [Fleet.perform_acts]
      rfl
    · intro guard
      rw [Fleet.perform_acts]
      rfl
    · rw [List.filterMap_eq_nil_iff]
      intro o ho
      simp only [perform, Settle.verdict, List.append_nil, List.mem_append, List.mem_cons,
        List.mem_map] at ho
      rcases ho with (rfl | ho) | ⟨x, -, rfl⟩
      · rfl
      · split at ho
        · cases ho
        · rw [List.mem_singleton.mp ho]
          rfl
      · rfl
  | take now d ds w acts hi hw =>
    have hacts : (acts.map (Out.act (μ := Arrival))).filterMap Out.act? = acts := by
      simp [List.filterMap_map, Function.comp_def, Out.act?]
    rw [hacts]
    obtain ⟨hs, ha, -, -, hret⟩ := Worker.take_flow hw
    refine ⟨by rw [Worker.unreturned, Worker.unreturned, hs, ha],
      (Fleet.take_retry hw).2.2, hret, Fleet.answer_take hw, ?_⟩
    simp [List.filterMap_map, Function.comp_def, Out.goesBack?]
  | work op w acts hw => exact absurd rfl (hwork op)

/-- A settlement sends back what it applies to, if it is a nack with requeue. -/
lemma perform_goesBack (ch : Channel Arrival.tag) (s : Settle) :
    (perform ch [.settle s]).2.filterMap Out.goesBack? =
      if s.verdict = .requeued then ch.settledBy s else [] := by
  have hmisuse : (if ch.Valid s then [] else [Out.misuse (μ := Arrival) s]).filterMap
      Out.goesBack? = [] := by
    split <;> rfl
  simp only [perform, List.append_nil, List.cons_append, List.filterMap_cons, Out.goesBack?,
    List.filterMap_append, hmisuse, List.nil_append, List.filterMap_map]
  cases s.verdict <;> simp [Function.comp_def, Out.goesBack?]

/-- A settlement of a delivery in hand applies to its message, if that is still unsettled. -/
lemma Traced.settledBy_cases (ht : Traced part c) {s : Settle} {x : Delivery}
    (hs : ∀ u, s.Covers u ↔ u = x.tag) (hx : x ∈ c.worker.held) :
    c.channel.settledBy s = [] ∨ ∃ a : Arrival, c.channel.settledBy s = [a] ∧
      a.body = some x.ref ∧ a.queue = part x.ref.videoId := by
  have hlen := c.channel.length_settledBy_le_one fun u => (hs u).mp
  match hby : c.channel.settledBy s with
  | [] => exact .inl rfl
  | [a] =>
    have ha : a ∈ c.channel.settledBy s := hby ▸ List.mem_singleton_self a
    obtain ⟨hu, hcov⟩ := Channel.mem_settledBy.mp ha
    have htag : x.tag = a.tag := ((hs _).mp hcov).symm
    exact .inr ⟨a, rfl, ht.same_taken a hu x (List.mem_append_left _ hx) htag⟩
  | a :: b :: l =>
    rw [hby] at hlen
    simp at hlen

/-- What the worker requeues: nothing, the delivery in hand or the oldest item of a failed batch. -/
lemma Traced.goesBack_cases (ht : Traced part c) {op : Worker.Op} {w : Worker} {acts : List Act}
    (hw : Worker.Rule cfg c.worker op w acts) :
    (perform c.channel acts).2.filterMap Out.goesBack? = [] ∨
    ∃ (x : Delivery) (a : Arrival), x ∈ c.worker.held ∧
      (perform c.channel acts).2.filterMap Out.goesBack? = [a] ∧ a.body = some x.ref ∧
      a.queue = part x.ref.videoId ∧ acts.flatMap Act.won = [] ∧
      (∀ guard, answer guard acts = some guard) ∧
      (op = .settled ∧ c.worker.phase = .settling x .requeued ∧ w = c.worker.released ∨
        ∃ p ∈ c.worker.batcher.buffered, p.delivery = x) := by
  rcases hw.quiet_or_settles with ⟨-, hq⟩ | ⟨x, v, hp, rfl, rfl, rfl⟩ |
    ⟨reason, batch, hb, rfl, rfl, rfl⟩ | ⟨reason, p, batch, hb, rfl, rfl, rfl⟩
  · left
    rw [perform_quiet hq]
    simp [List.filterMap_map, Function.comp_def, Out.goesBack?]
  · rw [perform_goesBack, Verdict.verdict_call]
    split
    · next hv =>
      subst hv
      have hheld : x ∈ c.worker.held := by
        rw [Worker.settling_held hp]
        exact List.mem_append_right _ (List.mem_singleton_self x)
      refine (ht.settledBy_cases (Verdict.covers_call .requeued x.tag) hheld).imp_right ?_
      rintro ⟨a, hback, hbody, hqueue⟩
      exact ⟨x, a, hheld, hback, hbody, hqueue, rfl, fun _ => rfl, .inl ⟨rfl, hp, rfl⟩⟩
    · exact .inl rfl
  · left
    rw [perform_goesBack, if_neg (by simp [Settle.verdict])]
  · have hbuf : p ∈ c.worker.batcher.buffered := by
      rw [Batcher.buffered, Batcher.inFlush_some hb]
      exact List.mem_append_left _ List.mem_cons_self
    have hheld : p.delivery ∈ c.worker.held :=
      List.mem_append_left _ (List.mem_map_of_mem hbuf)
    have hverdict : (Settle.nack p.delivery.tag true).verdict = .requeued := rfl
    rw [perform_goesBack, if_pos hverdict]
    refine (ht.settledBy_cases (Settle.covers_nack p.delivery.tag · true) hheld).imp_right ?_
    rintro ⟨a, hback, hbody, hqueue⟩
    exact ⟨p.delivery, a, hheld, hback, hbody, hqueue, rfl, fun _ => rfl, .inr ⟨p, hbuf, rfl⟩⟩

end PartitionedConsumer

end VideoPipeline
