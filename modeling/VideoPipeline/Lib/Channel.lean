import Mathlib.Data.List.Basic
import Mathlib.Data.List.Nodup
import Mathlib.Data.List.Pairwise
import Mathlib.Order.Basic
import Mathlib.Order.Nat
import Mathlib.Tactic.Common

/-!
# An AMQP channel with manual acknowledgement

The broker hands messages out on a channel under increasing delivery tags and keeps each until the
consumer settles it. `basic.ack` with the `multiple` flag settles every unsettled tag up to the
given one; all other settlements address a single tag.

`μ` is the type of deliveries and `tag` their delivery tag. The deliveries that are not settled
are kept in the order they were handed out, which is the order of their tags.
-/

namespace Amqp

/-- What the consumer tells the broker about a delivery. -/
inductive Settle where
  | ack (tag : ℕ) (multiple : Bool)
  | nack (tag : ℕ) (requeue : Bool)
  deriving DecidableEq, Repr

/-- What becomes of a settled message. -/
inductive Verdict where
  | acked
  | requeued
  | deadLettered
  deriving DecidableEq, Repr

/-- The call that gives a single delivery this verdict. -/
def Verdict.call (t : ℕ) : Verdict → Settle
  | .acked        => .ack t false
  | .requeued     => .nack t true
  | .deadLettered => .nack t false

def Settle.tag : Settle → ℕ
  | .ack t _  => t
  | .nack t _ => t

def Settle.verdict : Settle → Verdict
  | .ack _ _      => .acked
  | .nack _ true  => .requeued
  | .nack _ false => .deadLettered

/-- The tags a settlement applies to. -/
def Settle.Covers : Settle → ℕ → Prop
  | .ack t true, u  => u ≤ t
  | .ack t false, u => u = t
  | .nack t _, u    => u = t

instance (s : Settle) (u : ℕ) : Decidable (s.Covers u) :=
  match s with
  | .ack t true  => inferInstanceAs (Decidable (u ≤ t))
  | .ack t false => inferInstanceAs (Decidable (u = t))
  | .nack t _    => inferInstanceAs (Decidable (u = t))

@[simp] lemma Verdict.tag_call (v : Verdict) (t : ℕ) : (v.call t).tag = t := by
  cases v <;> rfl

@[simp] lemma Verdict.verdict_call (v : Verdict) (t : ℕ) : (v.call t).verdict = v := by
  cases v <;> rfl

@[simp] lemma Verdict.covers_call (v : Verdict) (t u : ℕ) : (v.call t).Covers u ↔ u = t := by
  cases v <;> rfl

@[simp] lemma Settle.covers_ack_multiple (t u : ℕ) : (Settle.ack t true).Covers u ↔ u ≤ t :=
  Iff.rfl

@[simp] lemma Settle.covers_nack (t u : ℕ) (r : Bool) : (Settle.nack t r).Covers u ↔ u = t :=
  Iff.rfl

variable {μ : Type*} {tag : μ → ℕ}

/-- The broker's view of a channel: the last tag it used and the deliveries not settled yet, in
the order of their tags. -/
structure Channel (tag : μ → ℕ) where
  lastTag : ℕ
  unsettled : List μ
  sorted : unsettled.Pairwise fun x y => tag x < tag y
  tag_le : ∀ x ∈ unsettled, tag x ≤ lastTag

namespace Channel

/-- A channel that was just opened. -/
def opened (tag : μ → ℕ) : Channel tag := ⟨0, [], .nil, by simp⟩

@[simp] lemma opened_unsettled : (opened tag).unsettled = [] := rfl

/-- The broker hands out a message under a tag larger than all tags before. -/
def deliver (c : Channel tag) (x : μ) : Option (Channel tag) :=
  if hx : c.lastTag < tag x then
    some {
      lastTag := tag x
      unsettled := c.unsettled ++ [x]
      sorted := by
        rw [List.pairwise_append]
        refine ⟨c.sorted, List.pairwise_singleton _ _, fun y hy z hz => ?_⟩
        rw [List.mem_singleton.mp hz]
        exact Nat.lt_of_le_of_lt (c.tag_le y hy) hx
      tag_le := by
        intro y hy
        rcases List.mem_append.mp hy with hy | hy
        · exact (Nat.lt_of_le_of_lt (c.tag_le y hy) hx).le
        · exact (congrArg tag (List.mem_singleton.mp hy)).le }
  else none

/-- A settlement removes the deliveries it covers. -/
def settle (c : Channel tag) (s : Settle) : Channel tag where
  lastTag := c.lastTag
  unsettled := c.unsettled.filter fun x => ¬ s.Covers (tag x)
  sorted := c.sorted.filter _
  tag_le := fun x hx => c.tag_le x (List.mem_filter.mp hx).1

/-- The deliveries a settlement applies to. -/
def settledBy (c : Channel tag) (s : Settle) : List μ :=
  c.unsettled.filter fun x => s.Covers (tag x)

/-- The settlement names a tag that is not settled yet. The broker treats any other tag as a
protocol error and closes the channel. -/
def Valid (c : Channel tag) (s : Settle) : Prop :=
  s.tag ∈ c.unsettled.map tag

instance (c : Channel tag) (s : Settle) : Decidable (c.Valid s) :=
  inferInstanceAs (Decidable (_ ∈ _))

lemma deliver_eq_some {c c' : Channel tag} {x : μ} (h : c.deliver x = some c') :
    c.lastTag < tag x ∧ c'.lastTag = tag x ∧ c'.unsettled = c.unsettled ++ [x] := by
  unfold deliver at h
  split at h
  · next hx =>
    cases h
    exact ⟨hx, rfl, rfl⟩
  · cases h

@[simp] lemma settle_lastTag (c : Channel tag) (s : Settle) : (c.settle s).lastTag = c.lastTag :=
  rfl

lemma mem_settledBy {c : Channel tag} {s : Settle} {x : μ} :
    x ∈ c.settledBy s ↔ x ∈ c.unsettled ∧ s.Covers (tag x) := by
  simp [settledBy]

lemma mem_settle {c : Channel tag} {s : Settle} {x : μ} :
    x ∈ (c.settle s).unsettled ↔ x ∈ c.unsettled ∧ ¬ s.Covers (tag x) := by
  simp [settle]

/-- Settling moves deliveries, it neither makes nor loses any. -/
lemma settledBy_append_settle_perm (c : Channel tag) (s : Settle) :
    (c.settledBy s ++ (c.settle s).unsettled).Perm c.unsettled := by
  have h := List.filter_append_perm (fun x => decide (s.Covers (tag x))) c.unsettled
  simpa [settledBy, settle] using h

section Split

variable {c : Channel tag} {pre post : List μ}

lemma tag_lt_of_split {x y : μ} (hc : c.unsettled = pre ++ post) (hx : x ∈ pre) (hy : y ∈ post) :
    tag x < tag y := by
  have h := c.sorted
  rw [hc, List.pairwise_append] at h
  exact h.2.2 x hx y hy

/-- Settling one tag takes out exactly the delivery that carries it. -/
theorem settle_single {x : μ} {s : Settle} (hs : ∀ u, s.Covers u ↔ u = tag x)
    (hc : c.unsettled = pre ++ x :: post) :
    c.settledBy s = [x] ∧ (c.settle s).unsettled = pre ++ post := by
  have hpre : ∀ y ∈ pre, tag y ≠ tag x := fun y hy =>
    (c.tag_lt_of_split hc hy List.mem_cons_self).ne
  have hpost : ∀ y ∈ post, tag y ≠ tag x := by
    intro y hy
    have hc' : c.unsettled = (pre ++ [x]) ++ post := by simp [hc]
    have hx : x ∈ pre ++ [x] := by simp
    exact (c.tag_lt_of_split hc' hx hy).ne'
  constructor
  · simp only [settledBy, hs, hc, List.filter_append]
    rw [List.filter_eq_nil_iff.mpr (by simpa using hpre), List.filter_cons_of_pos (by simp),
      List.filter_eq_nil_iff.mpr (by simpa using hpost)]
    rfl
  · simp only [settle, hs, hc, List.filter_append]
    rw [List.filter_eq_self.mpr (by simpa using hpre), List.filter_cons_of_neg (by simp),
      List.filter_eq_self.mpr (by simpa using hpost)]

/-- A settlement of one tag, when it is unsettled. -/
lemma settle_tag {x : μ} {s : Settle} (hc : c.unsettled = pre ++ x :: post)
    (hs : ∀ u, s.Covers u ↔ u = tag x) (ht : s.tag = tag x) :
    c.Valid s ∧ c.settledBy s = [x] ∧ (c.settle s).unsettled = pre ++ post := by
  refine ⟨?_, settle_single hs hc⟩
  rw [Valid, ht, hc]
  simp

/-- A cumulative ack of the last tag of an initial segment takes out exactly that segment. -/
theorem settle_multiple {t : ℕ} (hc : c.unsettled = pre ++ post) (hpre : ∀ x ∈ pre, tag x ≤ t)
    (ht : ∃ x ∈ pre, tag x = t) :
    c.settledBy (.ack t true) = pre ∧ (c.settle (.ack t true)).unsettled = post := by
  obtain ⟨x, hx, rfl⟩ := ht
  have hpost : ∀ y ∈ post, tag x < tag y := fun y hy => c.tag_lt_of_split hc hx hy
  constructor
  · simp only [settledBy, Settle.covers_ack_multiple, hc, List.filter_append]
    rw [List.filter_eq_self.mpr (by simpa using hpre),
      List.filter_eq_nil_iff.mpr (by simpa using hpost), List.append_nil]
  · simp only [settle, Settle.covers_ack_multiple, hc, List.filter_append]
    rw [List.filter_eq_nil_iff.mpr (by simpa using hpre),
      List.filter_eq_self.mpr (by simpa using hpost), List.nil_append]

end Split

/-- A settlement of one tag takes out one delivery at most. -/
lemma length_settledBy_le_one (c : Channel tag) {s : Settle} {t : ℕ}
    (hs : ∀ u, s.Covers u → u = t) : (c.settledBy s).length ≤ 1 := by
  have hsorted : (c.settledBy s).Pairwise fun x y => tag x < tag y := c.sorted.filter _
  have htag : ∀ x ∈ c.settledBy s, tag x = t := fun x hx => hs _ (mem_settledBy.mp hx).2
  match hl : c.settledBy s with
  | [] | [_] => simp
  | x :: y :: l =>
    rw [hl] at hsorted htag
    have hlt := (List.pairwise_cons.mp hsorted).1 y List.mem_cons_self
    rw [htag x List.mem_cons_self, htag y (List.mem_cons_of_mem x List.mem_cons_self)] at hlt
    exact absurd hlt (Nat.lt_irrefl t)

lemma nodup_unsettled (c : Channel tag) : c.unsettled.Nodup :=
  c.sorted.imp fun h heq => h.ne (congrArg tag heq)

end Channel

end Amqp
