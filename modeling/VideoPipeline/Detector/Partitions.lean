import Mathlib.Logic.Function.Basic
import VideoPipeline.Detector.Output

/-!
# One detector on several partitions

`RabbitMQFrameConsumer.deliveries`: every partition queue is consumed on one channel, so the
delivery tags increase across all of them. Each partition has its own iterator and a pump, which
parses a message, nacks it if that fails and otherwise waits for room in the inbox that all pumps
share.
-/

namespace VideoPipeline

open Amqp

/-- A message the broker has pushed. The body is `none` when it is not a frame reference. -/
structure Arrival where
  queue : ℕ
  tag : ℕ
  body : Option FrameRef
  redelivered : Bool
  deriving DecidableEq, Repr

/-- Where a pump is suspended. -/
inductive Pump where
  | reading
  | nacking (a : Arrival)
  | putting (a : Arrival) (ref : FrameRef)
  deriving DecidableEq, Repr

def Pump.held : Pump → List Arrival
  | .reading     => []
  | .nacking a   => [a]
  | .putting a _ => [a]

structure PartitionedConsumer where
  channel : Channel Arrival.tag
  iterators : ℕ → List Arrival
  pumps : ℕ → Pump
  inbox : List Delivery
  worker : Worker

namespace PartitionedConsumer

def init : PartitionedConsumer := ⟨Channel.opened _, fun _ => [], fun _ => .reading, [], {}⟩

inductive Event where
  | deliver (a : Arrival)
  | read (q : ℕ)
  | nackMalformed (q : ℕ)
  | put (q : ℕ)
  | take (now : ℚ)
  | work (op : Worker.Op)
  deriving DecidableEq, Repr

/-- The broker pushes a message to a partition's consumer, which holds at most
`detectorPrefetch` unsettled messages. -/
def deliver (cfg : DetectorSettings) (c : PartitionedConsumer) (a : Arrival) :
    Option PartitionedConsumer :=
  if a.queue < cfg.framePartitions ∧
      (c.channel.unsettled.filter fun b => b.queue = a.queue).length < cfg.detectorPrefetch then
    match c.channel.deliver a with
    | some ch =>
      some { c with
        channel := ch
        iterators := Function.update c.iterators a.queue (c.iterators a.queue ++ [a]) }
    | none => none
  else none

/-- A pump takes the next message from its iterator and parses it. -/
def read (c : PartitionedConsumer) (q : ℕ) : Option PartitionedConsumer :=
  match c.pumps q, c.iterators q with
  | .reading, a :: as =>
    some { c with
      pumps := Function.update c.pumps q (match a.body with
        | some ref => .putting a ref
        | none     => .nacking a)
      iterators := Function.update c.iterators q as }
  | _, _ => none

/-- A malformed message is dead-lettered. -/
def nackMalformed (c : PartitionedConsumer) (q : ℕ) :
    Option (PartitionedConsumer × List (Out Arrival)) :=
  match c.pumps q with
  | .nacking a =>
    let res := perform c.channel [.settle (.nack a.tag false)]
    some ({ c with channel := res.1, pumps := Function.update c.pumps q .reading }, res.2)
  | _ => none

/-- The inbox has room for the delivery a pump is holding. -/
def put (cfg : DetectorSettings) (c : PartitionedConsumer) (q : ℕ) : Option PartitionedConsumer :=
  match c.pumps q with
  | .putting a ref =>
    if c.inbox.length < cfg.detectorPrefetch then
      some { c with
        pumps := Function.update c.pumps q .reading
        inbox := c.inbox ++ [⟨ref, a.tag, a.redelivered⟩] }
    else none
  | _ => none

def step (cfg : DetectorSettings) (c : PartitionedConsumer) :
    Event → Option (PartitionedConsumer × List (Out Arrival))
  | .deliver a => (c.deliver cfg a).map (·, [])
  | .read q => (c.read q).map (·, [])
  | .nackMalformed q => c.nackMalformed q
  | .put q => (c.put cfg q).map (·, [])
  | .take now =>
    match c.inbox with
    | d :: ds =>
      match c.worker.take cfg d now with
      | some (w, acts) =>
        some ({ c with worker := w, inbox := ds, channel := (perform c.channel acts).1 },
          (perform c.channel acts).2)
      | none => none
    | [] => none
  | .work op =>
    match c.worker.step cfg op with
    | some (w, acts) =>
      some ({ c with worker := w, channel := (perform c.channel acts).1 },
        (perform c.channel acts).2)
    | none => none

/-- A detector on the partitions, as a machine. -/
def machine (cfg : DetectorSettings) : Machine PartitionedConsumer Event (Out Arrival) := ⟨step cfg⟩

/-- The messages of a partition that are not in the inbox yet, oldest first. -/
def waiting (c : PartitionedConsumer) (q : ℕ) : List Arrival := (c.pumps q).held ++ c.iterators q

/-- A message enters the inbox only when no message with a smaller tag waits in an iterator or in
a pump. -/
def inOrder (cfg : DetectorSettings) :
    PartitionedConsumer → List (Out Arrival) → Event → Prop
  | c, _, .put q => ∀ a ∈ (c.pumps q).held, ∀ q' < cfg.framePartitions, ∀ b ∈ c.waiting q',
      a.tag ≤ b.tag
  | _, _, _ => True

instance (cfg : DetectorSettings) (c : PartitionedConsumer) (h : List (Out Arrival)) (e : Event) :
    Decidable (inOrder cfg c h e) :=
  match e with
  | .put q => inferInstanceAs (Decidable (∀ a ∈ (c.pumps q).held, ∀ q' < cfg.framePartitions,
      ∀ b ∈ c.waiting q', a.tag ≤ b.tag))
  | .deliver _ | .read _ | .nackMalformed _ | .take _ | .work _ => inferInstanceAs (Decidable True)

/-- What is unsettled is held by the worker or in the inbox, in the order of the tags, or waits
with a larger tag. -/
structure Inv (cfg : DetectorSettings) (c : PartitionedConsumer) : Prop where
  wellFormed : c.worker.WellFormed
  split : ∃ front rest, c.channel.unsettled = front ++ rest ∧
    front.map Arrival.tag = (c.worker.held ++ c.inbox).map Delivery.tag ∧
    ∀ a, a ∈ rest ↔ a ∈ c.waiting a.queue
  queue : ∀ q, ∀ a ∈ c.waiting q, a.queue = q ∧ q < cfg.framePartitions
  sorted : ∀ q, (c.waiting q).Pairwise fun x y => x.tag < y.tag

variable {cfg : DetectorSettings} {c c' : PartitionedConsumer} {e : Event} {q : ℕ}
  {out h : List (Out Arrival)}

lemma Inv.init : Inv cfg init := by
  refine ⟨fun f hf => (by cases hf), ⟨[], [], rfl, rfl, ?_⟩, ?_, ?_⟩
  · intro a
    simp [waiting, PartitionedConsumer.init, Pump.held]
  · intro q a ha
    simp [waiting, PartitionedConsumer.init, Pump.held] at ha
  · intro q
    simp [waiting, PartitionedConsumer.init, Pump.held]

/-- A message that is pushed waits behind those of its partition. -/
lemma waiting_deliver (c : PartitionedConsumer) (ch : Channel Arrival.tag) (a : Arrival) (q : ℕ) :
    waiting { c with
      channel := ch
      iterators := Function.update c.iterators a.queue (c.iterators a.queue ++ [a]) } q =
      c.waiting q ++ if q = a.queue then [a] else [] := by
  by_cases hq : q = a.queue
  · subst hq
    simp [waiting]
  · simp [waiting, hq]

/-- A message that a pump has read still waits. -/
lemma waiting_read (hs : c.read q = some c') (q' : ℕ) : c'.waiting q' = c.waiting q' := by
  simp only [PartitionedConsumer.read] at hs
  split at hs
  · next a as hp hi =>
    cases hs
    by_cases hq : q' = q
    · subst hq
      simp only [waiting, Function.update_self, hp, hi]
      split <;> rfl
    · simp [waiting, hq]
  · cases hs

/-- A message that waits is unsettled. -/
lemma Inv.mem_unsettled (hinv : Inv cfg c) {a : Arrival} (ha : a ∈ c.waiting q) :
    a ∈ c.channel.unsettled := by
  obtain ⟨front, rest, hu, -, hrest⟩ := hinv.split
  obtain ⟨rfl, -⟩ := hinv.queue q a ha
  rw [hu]
  exact List.mem_append_right _ ((hrest a).mpr ha)

/-- The broker pushes a message. -/
lemma Inv.deliver (hinv : Inv cfg c) {a : Arrival} (hs : c.deliver cfg a = some c') :
    Inv cfg c' := by
  simp only [PartitionedConsumer.deliver] at hs
  split at hs
  · next hguard =>
    split at hs
    · next ch hch =>
      cases hs
      obtain ⟨hlt, -, hun⟩ := Channel.deliver_eq_some hch
      obtain ⟨front, rest, hu, hfront, hrest⟩ := hinv.split
      have hw := waiting_deliver c ch a
      refine ⟨hinv.wellFormed, ⟨front, rest ++ [a], ?_, hfront, ?_⟩, ?_, ?_⟩
      · rw [hun, hu, List.append_assoc]
      · intro b
        rw [hw, List.mem_append, List.mem_append, hrest, List.mem_singleton]
        by_cases hq : b.queue = a.queue
        · rw [if_pos hq, List.mem_singleton]
        · rw [if_neg hq]
          have hne : b ≠ a := fun h => hq (congrArg Arrival.queue h)
          simp [hne]
      · intro q b hb
        rw [hw, List.mem_append] at hb
        rcases hb with hb | hb
        · exact hinv.queue q b hb
        · split at hb
          · next hq =>
            rw [List.mem_singleton.mp hb]
            exact ⟨hq.symm, hq ▸ hguard.1⟩
          · cases hb
      · intro q
        rw [hw, List.pairwise_append]
        refine ⟨hinv.sorted q, by split <;> simp, ?_⟩
        intro x hx y hy
        split at hy
        · rw [List.mem_singleton.mp hy]
          exact (c.channel.tag_le x (hinv.mem_unsettled hx)).trans_lt hlt
        · cases hy
    · cases hs
  · cases hs

/-- A pump takes a message from its iterator. -/
lemma Inv.read (hinv : Inv cfg c) (hs : c.read q = some c') : Inv cfg c' := by
  have hw := waiting_read hs
  simp only [PartitionedConsumer.read] at hs
  split at hs
  · cases hs
    refine ⟨hinv.wellFormed, ?_, ?_, ?_⟩
    · simp only [hw]
      exact hinv.split
    · simp only [hw]
      exact hinv.queue
    · simp only [hw]
      exact hinv.sorted
  · cases hs

/-- A pump lets go of its message. -/
lemma Inv.release (hinv : Inv cfg c) {a : Arrival} (hp : (c.pumps q).held = [a])
    (ch : Channel Arrival.tag) (inbox : List Delivery) :
    let c' : PartitionedConsumer :=
      ⟨ch, c.iterators, Function.update c.pumps q .reading, inbox, c.worker⟩
    (∀ b, b ∈ c'.waiting b.queue ↔ b ∈ c.waiting b.queue ∧ b ≠ a) ∧
      ∀ q', (c'.waiting q').Sublist (c.waiting q') := by
  intro c'
  have hq : c.waiting q = a :: c.iterators q := by simp [waiting, hp]
  have hq' : c'.waiting q = c.iterators q := by simp [waiting, c', Pump.held]
  have hne : ∀ q', q' ≠ q → c'.waiting q' = c.waiting q' := by
    intro q' h
    simp [waiting, c', h]
  constructor
  · intro b
    by_cases hb : b.queue = q
    · have hs := hinv.sorted q
      rw [hq, List.pairwise_cons] at hs
      rw [hb, hq, hq', List.mem_cons]
      constructor
      · intro hmem
        exact ⟨.inr hmem, fun heq => (hs.1 b hmem).ne (congrArg Arrival.tag heq.symm)⟩
      · rintro ⟨rfl | hmem, hba⟩
        · exact absurd rfl hba
        · exact hmem
    · rw [hne _ hb]
      refine ⟨fun hmem => ⟨hmem, ?_⟩, And.left⟩
      rintro rfl
      exact hb (hinv.queue q b (hq ▸ List.mem_cons_self)).1
  · intro q'
    by_cases hqq : q' = q
    · rw [hqq, hq, hq']
      exact List.sublist_cons_self a _
    · rw [hne q' hqq]

/-- A malformed message is settled. -/
lemma Inv.nackMalformed (hinv : Inv cfg c) (hs : c.nackMalformed q = some (c', out)) :
    Inv cfg c' ∧ ∀ s, Out.misuse s ∉ out := by
  simp only [PartitionedConsumer.nackMalformed] at hs
  split at hs
  · next a hp =>
    obtain ⟨front, rest, hu, hfront, hrest⟩ := hinv.split
    have ha : a ∈ c.waiting q := by simp [waiting, hp, Pump.held]
    obtain ⟨r₁, r₂, rfl⟩ := List.append_of_mem ((hrest a).mpr ((hinv.queue q a ha).1 ▸ ha))
    have hu' : c.channel.unsettled = (front ++ r₁) ++ a :: r₂ := by simp [hu]
    obtain ⟨hv, -, hun⟩ := Channel.settle_tag hu' (Settle.covers_nack a.tag · false) rfl
    rw [perform_settle hv] at hs
    cases hs
    obtain ⟨hwait, hsub⟩ := hinv.release (by rw [hp]; rfl)
      (c.channel.settle (.nack a.tag false)) c.inbox
    refine ⟨⟨hinv.wellFormed, ⟨front, r₁ ++ r₂, ?_, hfront, ?_⟩, ?_, ?_⟩, by simp⟩
    · rw [hun, List.append_assoc]
    · intro b
      rw [hwait, ← hrest]
      have hnd := c.channel.nodup_unsettled
      rw [hu', List.nodup_middle, List.nodup_cons] at hnd
      simp only [List.mem_append, List.mem_cons]
      constructor
      · intro hb
        refine ⟨by tauto, ?_⟩
        rintro rfl
        exact hnd.1 (by simp only [List.mem_append]; tauto)
      · rintro ⟨hb, hne⟩
        tauto
    · exact fun q' b hb => hinv.queue q' b ((hsub q').mem hb)
    · exact fun q' => (hinv.sorted q').sublist (hsub q')
  · cases hs

/-- A pump that holds the smallest tag of all that wait puts it into the inbox. -/
lemma Inv.put (hinv : Inv cfg c) (hok : inOrder cfg c h (.put q)) (hs : c.put cfg q = some c') :
    Inv cfg c' := by
  simp only [PartitionedConsumer.put] at hs
  split at hs
  · next a ref hp =>
    split at hs
    · cases hs
      obtain ⟨front, rest, hu, hfront, hrest⟩ := hinv.split
      have hpa : (c.pumps q).held = [a] := by rw [hp]; rfl
      have ha : a ∈ c.waiting q := by simp [waiting, hpa]
      have har : a ∈ rest := (hrest a).mpr ((hinv.queue q a ha).1 ▸ ha)
      have hsorted := c.channel.sorted
      rw [hu, List.pairwise_append] at hsorted
      -- the smallest waiting tag is the first one after the front
      have hhead : ∃ rest', rest = a :: rest' := by
        cases rest with
        | nil => cases har
        | cons x rest' =>
          refine ⟨rest', ?_⟩
          rcases List.mem_cons.mp har with rfl | har'
          · rfl
          · have hx : x ∈ c.waiting x.queue := (hrest x).mp List.mem_cons_self
            have hle := hok a (by simp [hpa]) x.queue (hinv.queue _ x hx).2 x hx
            have hlt := (List.pairwise_cons.mp hsorted.2.1).1 a har'
            exact absurd hlt hle.not_gt
      obtain ⟨rest', rfl⟩ := hhead
      obtain ⟨hwait, hsub⟩ := hinv.release hpa c.channel
        (c.inbox ++ [⟨ref, a.tag, a.redelivered⟩])
      refine ⟨hinv.wellFormed, ⟨front ++ [a], rest', ?_, ?_, ?_⟩, ?_, ?_⟩
      · rw [hu, List.append_assoc, List.singleton_append]
      · rw [List.map_append, hfront]
        simp
      · intro b
        rw [hwait, ← hrest, List.mem_cons]
        have hnd := (List.pairwise_cons.mp hsorted.2.1).1
        constructor
        · intro hb
          refine ⟨.inr hb, ?_⟩
          rintro rfl
          exact (hnd b hb).false
        · rintro ⟨rfl | hb, hne⟩
          · exact absurd rfl hne
          · exact hb
      · exact fun q' b hb => hinv.queue q' b ((hsub q').mem hb)
      · exact fun q' => (hinv.sorted q').sublist (hsub q')
    · cases hs
  · cases hs

/-- The batch of a flush is at the front of the channel, and a cumulative ack of its largest tag
settles the batch and nothing else. -/
lemma Inv.settle_batch (hinv : Inv cfg c) {reason : Reason} {batch : List Pending}
    {post : List Delivery} (hb : c.worker.batcher.flushing = some ⟨reason, batch, .acking⟩)
    (hheld : c.worker.held = batch.map Pending.delivery ++ post) :
    ∃ f₁ f₂ rest, f₁.map Arrival.tag = batch.map (·.delivery.tag) ∧
      f₂.map Arrival.tag = (post ++ c.inbox).map Delivery.tag ∧
      (∀ a, a ∈ rest ↔ a ∈ c.waiting a.queue) ∧
      c.channel.Valid (.ack (Batcher.maxTag batch) true) ∧
      c.channel.settledBy (.ack (Batcher.maxTag batch) true) = f₁ ∧
      (c.channel.settle (.ack (Batcher.maxTag batch) true)).unsettled = f₂ ++ rest := by
  obtain ⟨front, rest, hu, hfront, hrest⟩ := hinv.split
  rw [hheld, List.append_assoc, List.map_append, List.map_eq_append_iff] at hfront
  obtain ⟨f₁, f₂, rfl, hf₁, hf₂⟩ := hfront
  have hf₁' : f₁.map Arrival.tag = batch.map (·.delivery.tag) := by
    rw [hf₁, List.map_map]
    rfl
  have hle : ∀ a ∈ f₁, a.tag ≤ Batcher.maxTag batch := by
    intro a ha
    have hmem : a.tag ∈ batch.map (·.delivery.tag) := hf₁' ▸ List.mem_map_of_mem ha
    obtain ⟨p, hp, hpt⟩ := List.mem_map.mp hmem
    exact hpt ▸ Batcher.tag_le_maxTag hp
  have hmax : ∃ a ∈ f₁, a.tag = Batcher.maxTag batch := by
    obtain ⟨p, hp, hpt⟩ := Batcher.exists_tag_eq_maxTag (hinv.wellFormed _ hb)
    have hmem : p.delivery.tag ∈ f₁.map Arrival.tag := hf₁' ▸ List.mem_map_of_mem hp
    obtain ⟨a, ha, hat⟩ := List.mem_map.mp hmem
    exact ⟨a, ha, hat.trans hpt⟩
  rw [List.append_assoc] at hu
  obtain ⟨hby, hun⟩ := Channel.settle_multiple hu hle hmax
  refine ⟨f₁, f₂, rest, hf₁', hf₂, hrest, ?_, hby, hun⟩
  obtain ⟨a, ha, hat⟩ := hmax
  rw [Channel.Valid, hu, Settle.tag, ← hat]
  exact List.mem_map_of_mem (List.mem_append_left _ ha)

/-- The handler takes a delivery from the inbox. -/
lemma Inv.take (hinv : Inv cfg c) {now : ℚ} (hs : c.step cfg (.take now) = some (c', out)) :
    Inv cfg c' ∧ ∀ s, Out.misuse s ∉ out := by
  simp only [step] at hs
  split at hs
  · next d ds hi =>
    split at hs
    · next w acts ht =>
      obtain ⟨hheld, hbat, hq⟩ := Worker.take_effect ht
      rw [perform_quiet hq] at hs
      cases hs
      obtain ⟨front, rest, hu, hfront, hrest⟩ := hinv.split
      refine ⟨⟨?_, ⟨front, rest, hu, ?_, hrest⟩, hinv.queue, hinv.sorted⟩, by simp⟩
      · intro f hf
        exact hinv.wellFormed f (hbat ▸ hf)
      · rw [hfront, hheld, hi, List.append_assoc, List.singleton_append]
    · cases hs
  · cases hs

/-- The worker goes on. -/
lemma Inv.work (hinv : Inv cfg c) {op : Worker.Op} (hs : c.step cfg (.work op) = some (c', out)) :
    Inv cfg c' ∧ ∀ s, Out.misuse s ∉ out := by
  simp only [step] at hs
  split at hs
  · next w acts hw =>
    have hr := Worker.Rule.of_step hw
    have hwf := hr.wellFormed hinv.wellFormed
    rcases hr.effect with ⟨hheld, hq⟩ | ⟨pre, d, post, v, hheld, hheld', rfl⟩ |
      ⟨reason, batch, post, hb, hheld, hheld', rfl⟩
    · rw [perform_quiet hq] at hs
      cases hs
      obtain ⟨front, rest, hu, hfront, hrest⟩ := hinv.split
      refine ⟨⟨hwf, ⟨front, rest, hu, ?_, hrest⟩, hinv.queue, hinv.sorted⟩, by simp⟩
      rw [hfront, hheld]
    · obtain ⟨front, rest, hu, hfront, hrest⟩ := hinv.split
      rw [hheld, List.append_assoc, List.map_append, List.cons_append, List.map_cons,
        List.map_eq_append_iff] at hfront
      obtain ⟨f₁, f₂, rfl, hf₁, hf₂⟩ := hfront
      obtain ⟨a, f₂, rfl, hat, hf₂⟩ := List.map_eq_cons_iff.mp hf₂
      have hu' : c.channel.unsettled = f₁ ++ a :: (f₂ ++ rest) := by simp [hu]
      obtain ⟨hv, -, hun⟩ := Channel.settle_tag hu' (hat ▸ v.covers_call d.tag)
        ((v.tag_call d.tag).trans hat.symm)
      rw [perform_settle hv] at hs
      cases hs
      refine ⟨⟨hwf, ⟨f₁ ++ f₂, rest, ?_, ?_, hrest⟩, hinv.queue, hinv.sorted⟩, by simp⟩
      · rw [hun, List.append_assoc]
      · rw [hheld', List.append_assoc, List.map_append, List.map_append, hf₁, hf₂]
    · obtain ⟨f₁, f₂, rest, -, hf₂, hrest, hv, -, hun⟩ := hinv.settle_batch hb hheld
      rw [perform_settle hv] at hs
      cases hs
      refine ⟨⟨hwf, ⟨f₂, rest, hun, ?_, hrest⟩, hinv.queue, hinv.sorted⟩, by simp⟩
      rw [hf₂, hheld']
  · cases hs

/-- Every step that keeps the inbox in order keeps the invariant, and settles only what is
unsettled. -/
theorem Inv.step (hinv : Inv cfg c) (hok : inOrder cfg c h e)
    (hs : c.step cfg e = some (c', out)) : Inv cfg c' ∧ ∀ s, Out.misuse s ∉ out := by
  cases e with
  | deliver a =>
    obtain ⟨c₁, hc, heq⟩ := Option.map_eq_some_iff.mp hs
    cases heq
    exact ⟨hinv.deliver hc, by simp⟩
  | read q =>
    obtain ⟨c₁, hc, heq⟩ := Option.map_eq_some_iff.mp hs
    cases heq
    exact ⟨hinv.read hc, by simp⟩
  | nackMalformed q => exact hinv.nackMalformed hs
  | put q =>
    obtain ⟨c₁, hc, heq⟩ := Option.map_eq_some_iff.mp hs
    cases heq
    exact ⟨hinv.put hok hc, by simp⟩
  | take now => exact hinv.take hs
  | work op => exact hinv.work hs

/-! ### What a run settles -/

/-- A step settles part of what is on the channel, or puts a message with a larger tag on it. -/
lemma step_conserves (hs : c.step cfg e = some (c', out)) :
    ((settlements out ++ c'.channel.unsettled).Perm c.channel.unsettled ∧
      c'.channel.lastTag = c.channel.lastTag) ∨
    (∃ a, out = [] ∧ c'.channel.unsettled = c.channel.unsettled ++ [a] ∧
      c.channel.lastTag < a.tag ∧ c'.channel.lastTag = a.tag) := by
  cases e with
  | deliver a =>
    right
    obtain ⟨c₁, hc, heq⟩ := Option.map_eq_some_iff.mp hs
    cases heq
    simp only [deliver] at hc
    split at hc
    · split at hc
      · next ch hch =>
        cases hc
        obtain ⟨hlt, hlast, hu⟩ := Channel.deliver_eq_some hch
        exact ⟨a, rfl, hu, hlt, hlast⟩
      · cases hc
    · cases hc
  | read q =>
    left
    obtain ⟨c₁, hc, heq⟩ := Option.map_eq_some_iff.mp hs
    cases heq
    simp only [read] at hc
    split at hc
    · cases hc
      exact ⟨.refl _, rfl⟩
    · cases hc
  | nackMalformed q =>
    left
    simp only [step, nackMalformed] at hs
    split at hs
    · cases hs
      exact ⟨perform_perm _ _, perform_lastTag _ _⟩
    · cases hs
  | put q =>
    left
    obtain ⟨c₁, hc, heq⟩ := Option.map_eq_some_iff.mp hs
    cases heq
    simp only [put] at hc
    split at hc
    · split at hc
      · cases hc
        exact ⟨.refl _, rfl⟩
      · cases hc
    · cases hc
  | take now =>
    left
    simp only [step] at hs
    split at hs
    · split at hs
      · cases hs
        exact ⟨perform_perm _ _, perform_lastTag _ _⟩
      · cases hs
    · cases hs
  | work op =>
    left
    simp only [step] at hs
    split at hs
    · cases hs
      exact ⟨perform_perm _ _, perform_lastTag _ _⟩
    · cases hs

/-- The broker settles no tag twice, however it is asked to. -/
lemma settled_once {ok : PartitionedConsumer → List (Out Arrival) → Event → Prop}
    (hr : (machine cfg).Reach ok PartitionedConsumer.init c h) :
    ((settlements h ++ c.channel.unsettled).map Arrival.tag).Nodup ∧
      ∀ a ∈ settlements h ++ c.channel.unsettled, a.tag ≤ c.channel.lastTag := by
  induction hr with
  | init => simp [PartitionedConsumer.init]
  | @step c c' h out e _ _ hs ih =>
    obtain ⟨hnd, hle⟩ := ih
    rcases step_conserves hs with ⟨hperm, hlast⟩ | ⟨a, rfl, hu, hlt, hlast⟩
    · have hp : (settlements (h ++ out) ++ c'.channel.unsettled).Perm
          (settlements h ++ c.channel.unsettled) := by
        rw [settlements_append, List.append_assoc]
        exact hperm.append_left _
      refine ⟨(hp.map Arrival.tag).nodup_iff.mpr hnd, ?_⟩
      intro a ha
      rw [hlast]
      exact hle a (hp.mem_iff.mp ha)
    · rw [List.append_nil, hu, hlast, ← List.append_assoc]
      constructor
      · rw [List.map_append, List.nodup_append]
        refine ⟨hnd, by simp, ?_⟩
        intro t ht u hu heq
        obtain ⟨b, hb, rfl⟩ := List.mem_map.mp ht
        rw [List.map_singleton, List.mem_singleton] at hu
        exact ((hle b hb).trans_lt hlt).ne (heq.trans hu)
      · intro b hb
        rcases List.mem_append.mp hb with hb | hb
        · exact (hle b hb).trans hlt.le
        · rw [List.mem_singleton.mp hb]

/-- What the cumulative acks of the batcher settle. -/
structure SettlesOwnBatch (c : PartitionedConsumer) (h : List (Out Arrival)) : Prop where
  /-- The ack of a batch settles the deliveries of the batch. -/
  batch : ∀ reason batch, c.worker.batcher.flushing = some ⟨reason, batch, .acking⟩ →
    (c.channel.settledBy (.ack (Batcher.maxTag batch) true)).map Arrival.tag =
      batch.map (·.delivery.tag)
  /-- What waits in an iterator or in a pump is unsettled. -/
  waiting : ∀ q, ∀ a ∈ c.waiting q, a.tag ∈ c.channel.unsettled.map Arrival.tag
  /-- What is in the inbox, in process or in the buffer is unsettled. -/
  processing : ∀ d ∈ c.worker.held ++ c.inbox, d.tag ∈ c.channel.unsettled.map Arrival.tag
  gone : ∀ a ∈ settlements h, a.tag ∉ c.channel.unsettled.map Arrival.tag
  nodup : ((settlements h).map Arrival.tag).Nodup
  not_misuse : ∀ s, Out.misuse s ∉ h

lemma Inv.of_reach (hr : (machine cfg).Reach (inOrder cfg) PartitionedConsumer.init c h) :
    Inv cfg c ∧ ∀ s, Out.misuse s ∉ h := by
  induction hr with
  | init => exact ⟨.init, by simp⟩
  | step _ hok hs ih =>
    obtain ⟨hinv, hmis⟩ := ih.1.step hok hs
    refine ⟨hinv, fun s hmem => ?_⟩
    rcases List.mem_append.mp hmem with hmem | hmem
    · exact ih.2 s hmem
    · exact hmis s hmem

/-- While every message enters the inbox before all that wait with larger tags, a cumulative ack
settles its batch and no message is settled twice. -/
theorem ack_settles_batch
    (hr : (machine cfg).Reach (inOrder cfg) PartitionedConsumer.init c h) :
    SettlesOwnBatch c h := by
  obtain ⟨hinv, hmis⟩ := Inv.of_reach hr
  obtain ⟨hnd, -⟩ := settled_once hr
  rw [List.map_append, List.nodup_append] at hnd
  refine ⟨?_, ?_, ?_, ?_, hnd.1, hmis⟩
  · intro reason batch hb
    obtain ⟨f₁, -, -, hf₁, -, -, -, hby, -⟩ := hinv.settle_batch hb (Worker.flushing_held hb)
    rw [hby, hf₁]
  · intro q a ha
    exact List.mem_map_of_mem (hinv.mem_unsettled ha)
  · intro d hd
    obtain ⟨front, rest, hu, hfront, -⟩ := hinv.split
    rw [hu, List.map_append, hfront]
    exact List.mem_append_left _ (List.mem_map_of_mem hd)
  · intro a ha hmem
    exact hnd.2.2 a.tag (List.mem_map_of_mem ha) a.tag hmem rfl

/-- Two partitions, the message of each processed in the order of the tags. -/
theorem ack_settles_batch_run :
    ∃ c h, (machine {framePartitions := 2}).Reach (inOrder {framePartitions := 2})
      PartitionedConsumer.init c h ∧ (settlements h).map Arrival.tag = [1, 2] ∧
      SettlesOwnBatch c h := by
  have hrun : ∃ c h, (machine {framePartitions := 2}).Reach (inOrder {framePartitions := 2})
      PartitionedConsumer.init c h ∧ (settlements h).map Arrival.tag = [1, 2] :=
    Machine.Reach.exists_of_exec
      [.deliver ⟨0, 1, some ⟨"j", "v", 0, 0, 0, blobKey "j" 0⟩, false⟩,
        .deliver ⟨1, 2, some ⟨"k", "w", 0, 0, 0, blobKey "k" 0⟩, false⟩,
        .read 1, .read 0, .put 0, .put 1,
        .take 0, .work (.loaded .frame), .work (.detected (some [])), .work (.claimed .won),
        .work (.add 0), .work .counted,
        .take 0, .work (.loaded .frame), .work (.detected (some [])), .work (.claimed .won),
        .work (.add 0), .work .counted,
        .work (.batcher .flush), .work (.batcher .sinkReturned), .work (.batcher .settleNext)]
      (by decide)
  obtain ⟨c, h, hr, ht⟩ := hrun
  exact ⟨c, h, hr, ht, ack_settles_batch hr⟩

/-- The pump of the second partition overtakes that of the first: the batch holds tag `2` alone,
and its ack settles tag `1`, which still waits in the iterator of the first partition. -/
theorem ack_settles_waiting :
    ∃ c h, (machine {framePartitions := 2, batchMaxSize := 1}).Reach Machine.anyStep
      PartitionedConsumer.init c h ∧ (settlements h).map Arrival.tag = [1, 2] ∧
      (c.waiting 0).map Arrival.tag = [1] ∧ ¬ SettlesOwnBatch c h := by
  have hrun : ∃ c h, (machine {framePartitions := 2, batchMaxSize := 1}).Reach Machine.anyStep
      PartitionedConsumer.init c h ∧
      ((settlements h).map Arrival.tag = [1, 2] ∧ (c.waiting 0).map Arrival.tag = [1]) :=
    Machine.Reach.exists_of_exec
      [.deliver ⟨0, 1, some ⟨"j", "v", 0, 0, 0, blobKey "j" 0⟩, false⟩,
        .deliver ⟨1, 2, some ⟨"k", "w", 0, 0, 0, blobKey "k" 0⟩, false⟩,
        .read 1, .put 1, .take 0, .work (.loaded .frame), .work (.detected (some [])),
        .work (.claimed .won), .work (.add 0),
        .work (.batcher .sinkReturned), .work (.batcher .settleNext)]
      (by decide)
  obtain ⟨c, h, hr, hset, hwait⟩ := hrun
  refine ⟨c, h, hr, hset, hwait, fun hsafe => ?_⟩
  have hw : 1 ∈ (c.waiting 0).map Arrival.tag := by simp [hwait]
  have hs : 1 ∈ (settlements h).map Arrival.tag := by simp [hset]
  obtain ⟨a, ha, hat⟩ := List.mem_map.mp hw
  obtain ⟨b, hb, hbt⟩ := List.mem_map.mp hs
  have hu := hsafe.waiting 0 a ha
  rw [hat, ← hbt] at hu
  exact hsafe.gone b hb hu

/-- With one partition the messages come out of a single iterator, so every run is in order. -/
theorem inOrder_of_single (hp : cfg.framePartitions = 1)
    (hr : (machine cfg).Reach Machine.anyStep PartitionedConsumer.init c h) :
    (machine cfg).Reach (inOrder cfg) PartitionedConsumer.init c h := by
  induction hr with
  | init => exact .init
  | @step c c' h out e _ _ hs ih =>
    refine .step ih ?_ hs
    obtain ⟨hinv, -⟩ := Inv.of_reach ih
    cases e with
    | put q =>
      intro a ha q' hq' b hb
      have hwa : a ∈ c.waiting q := List.mem_append_left _ ha
      have hq : q = q' := by
        have hlt := (hinv.queue q a hwa).2
        omega
      subst hq
      -- the pump's own message is the first of its partition
      have hcons : c.waiting q = a :: c.iterators q := by
        cases hpump : c.pumps q <;> simp_all [waiting, Pump.held]
      have hs := hinv.sorted q
      rw [hcons, List.pairwise_cons] at hs
      rw [hcons] at hb
      rcases List.mem_cons.mp hb with rfl | hb
      · exact le_rfl
      · exact (hs.1 b hb).le
    | _ => trivial

end PartitionedConsumer

end VideoPipeline
