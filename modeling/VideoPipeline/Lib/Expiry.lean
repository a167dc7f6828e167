import Mathlib.Algebra.Order.Field.Basic
import Mathlib.Logic.Function.Basic
import Mathlib.Order.WithBot
import Mathlib.Tactic.Linarith
import VideoPipeline.Lib.Store

/-!
# Stores whose entries expire

`Expiring` is a key-value store in which every entry has a deadline, from which on it is gone. When
an entry that is gone is really removed, cannot be seen: `AgreeFrom` relates the stores that answer
alike from a time on. In a `TimedHashStore` a key has a deadline only when it was given one, and a
key that is written again after its deadline has none.
-/

/-- Entries under their keys, each with its deadline. -/
structure Expiring (κ υ τ : Type*) where
  entries : κ → Option (υ × τ)

namespace Expiring

variable {κ υ τ : Type*} [DecidableEq κ] [LinearOrder τ] {s s' s'' : Expiring κ υ τ} {k k' : κ}
  {v : υ} {now t deadline : τ}

instance : EmptyCollection (Expiring κ υ τ) := ⟨⟨fun _ => none⟩⟩

/-- The value under a key at a time. -/
def get (s : Expiring κ υ τ) (now : τ) (k : κ) : Option υ :=
  (s.entries k).bind fun e => if now < e.2 then some e.1 else none

def put (s : Expiring κ υ τ) (k : κ) (v : υ) (deadline : τ) : Expiring κ υ τ :=
  ⟨Function.update s.entries k (some (v, deadline))⟩

def remove (s : Expiring κ υ τ) (k : κ) : Expiring κ υ τ := ⟨Function.update s.entries k none⟩

/-- Put a value where there is none, and say whether that was done. -/
def claim (s : Expiring κ υ τ) (now : τ) (k : κ) (v : υ) (deadline : τ) :
    Bool × Expiring κ υ τ :=
  if s.get now k = none then (true, s.put k v deadline) else (false, s)

omit [DecidableEq κ] in
@[simp] lemma get_empty : (∅ : Expiring κ υ τ).get now k = none := rfl

omit [LinearOrder τ] in
@[simp] lemma entries_put_self : (s.put k v deadline).entries k = some (v, deadline) :=
  Function.update_self ..

omit [LinearOrder τ] in
lemma entries_put_of_ne (h : k' ≠ k) : (s.put k v deadline).entries k' = s.entries k' :=
  Function.update_of_ne h ..

omit [LinearOrder τ] in
@[simp] lemma entries_remove_self : (s.remove k).entries k = none := Function.update_self ..

omit [LinearOrder τ] in
lemma entries_remove_of_ne (h : k' ≠ k) : (s.remove k).entries k' = s.entries k' :=
  Function.update_of_ne h ..

@[simp] lemma get_put_self :
    (s.put k v deadline).get now k = if now < deadline then some v else none := by
  rw [get, entries_put_self, Option.bind_some]

lemma get_put_of_ne (h : k' ≠ k) : (s.put k v deadline).get now k' = s.get now k' := by
  rw [get, entries_put_of_ne h, get]

@[simp] lemma get_remove_self : (s.remove k).get now k = none := by
  rw [get, entries_remove_self, Option.bind_none]

lemma get_remove_of_ne (h : k' ≠ k) : (s.remove k).get now k' = s.get now k' := by
  rw [get, entries_remove_of_ne h, get]

omit [DecidableEq κ] in
lemma get_eq_some :
    s.get now k = some v ↔ ∃ deadline, s.entries k = some (v, deadline) ∧ now < deadline := by
  rw [get, Option.bind_eq_some_iff]
  constructor
  · rintro ⟨⟨v', deadline⟩, he, hv⟩
    split at hv
    · next hlt =>
      obtain rfl := Option.some.inj hv
      exact ⟨deadline, he, hlt⟩
    · cases hv
  · rintro ⟨deadline, he, hlt⟩
    exact ⟨(v, deadline), he, if_pos hlt⟩

omit [DecidableEq κ] in
lemma get_eq_none : s.get now k = none ↔ ∀ e, s.entries k = some e → e.2 ≤ now := by
  constructor
  · intro h e he
    by_contra hlt
    rw [get_eq_some.mpr ⟨e.2, he, not_le.mp hlt⟩] at h
    cases h
  · intro h
    rw [Option.eq_none_iff_forall_ne_some]
    intro v hv
    obtain ⟨deadline, he, hlt⟩ := get_eq_some.mp hv
    exact (h _ he).not_gt hlt

omit [DecidableEq κ] in
/-- What is gone stays gone. -/
lemma get_eq_none_of_le (h : s.get now k = none) (ht : now ≤ t) : s.get t k = none :=
  get_eq_none.mpr fun e he => (get_eq_none.mp h e he).trans ht

/-! ### Stores that cannot be told apart -/

/-- The two stores answer alike from a time on. -/
def AgreeFrom (now : τ) (s s' : Expiring κ υ τ) : Prop := ∀ t, now ≤ t → ∀ k, s.get t k = s'.get t k

namespace AgreeFrom

omit [DecidableEq κ] in
lemma refl (now : τ) (s : Expiring κ υ τ) : AgreeFrom now s s := fun _ _ _ => rfl

omit [DecidableEq κ] in
lemma later (h : AgreeFrom now s s') (ht : now ≤ t) : AgreeFrom t s s' :=
  fun t' ht' => h t' (ht.trans ht')

lemma put (h : AgreeFrom now s s') (k : κ) (v : υ) (deadline : τ) :
    AgreeFrom now (s.put k v deadline) (s'.put k v deadline) := by
  intro t ht k'
  by_cases hk : k' = k
  · subst hk
    rw [get_put_self, get_put_self]
  · rw [get_put_of_ne hk, get_put_of_ne hk]
    exact h t ht k'

/-- An entry that is gone may be removed. -/
lemma remove (h : AgreeFrom now s s') (hk : s.get now k = none) :
    AgreeFrom now (s.remove k) s' := by
  intro t ht k'
  by_cases hkk : k' = k
  · subst hkk
    rw [get_remove_self, ← h t ht k', get_eq_none_of_le hk ht]
  · rw [get_remove_of_ne hkk]
    exact h t ht k'

end AgreeFrom

/-! ### Claims -/

lemma claim_of_none (h : s.get now k = none) :
    s.claim now k v deadline = (true, s.put k v deadline) := if_pos h

lemma claim_of_some (h : s.get now k ≠ none) : s.claim now k v deadline = (false, s) := if_neg h

end Expiring

/-- Times that are spaced by a window take that window each, up to the last. -/
lemma length_mul_le_of_spaced {τ : Type*} [Field τ] [LinearOrder τ] [IsStrictOrderedRing τ]
    {l : List τ} {window start finish : τ} (hspaced : l.Pairwise fun a b => a + window ≤ b)
    (hle : start ≤ finish + window) (hin : ∀ a ∈ l, start ≤ a ∧ a ≤ finish) :
    l.length * window ≤ finish - start + window := by
  induction l generalizing start with
  | nil =>
    rw [List.length_nil, Nat.cast_zero, zero_mul]
    linarith
  | cons a l ih =>
    obtain ⟨hstart, hfinish⟩ := hin a List.mem_cons_self
    obtain ⟨hnext, hspaced⟩ := List.pairwise_cons.mp hspaced
    have htail : l.length * window ≤ finish - (a + window) + window := by
      refine ih hspaced (by linarith) fun b hb => ?_
      exact ⟨hnext b hb, (hin b (List.mem_cons_of_mem a hb)).2⟩
    rw [List.length_cons, Nat.cast_add, Nat.cast_one, add_mul, one_mul]
    linarith

/-! ### Hash stores with deadlines -/

/-- A hash store in which keys may have a deadline. `⊤` is none. -/
structure TimedHashStore (κ φ υ τ : Type*) extends HashStore κ φ υ where
  deadline : κ → WithTop τ

namespace TimedHashStore

variable {κ φ υ τ : Type*} [DecidableEq κ] [LinearOrder τ] {s : TimedHashStore κ φ υ τ} {k k' : κ}
  {now t : τ}

instance : EmptyCollection (TimedHashStore κ φ υ τ) := ⟨⟨∅, fun _ => ⊤⟩⟩

/-- `EXPIRE`, also as an option of `SET`. -/
def expire (s : TimedHashStore κ φ υ τ) (k : κ) (t : τ) : TimedHashStore κ φ υ τ :=
  { s with deadline := Function.update s.deadline k (t : WithTop τ) }

/-- What is left at a time. -/
def purge (s : TimedHashStore κ φ υ τ) (now : τ) : TimedHashStore κ φ υ τ where
  hashes k f := if (now : WithTop τ) < s.deadline k then s.hashes k f else none
  strings k := if (now : WithTop τ) < s.deadline k then s.strings k else none
  deadline k := if (now : WithTop τ) < s.deadline k then s.deadline k else ⊤

omit [LinearOrder τ] in
@[simp] lemma deadline_expire_self : (s.expire k t).deadline k = (t : WithTop τ) :=
  Function.update_self ..

omit [LinearOrder τ] in
lemma deadline_expire_of_ne (h : k' ≠ k) : (s.expire k t).deadline k' = s.deadline k' :=
  Function.update_of_ne h ..

omit [LinearOrder τ] in
@[simp] lemma toHashStore_expire : (s.expire k t).toHashStore = s.toHashStore := rfl

omit [DecidableEq κ] in
/-- A key before its deadline is left as it is. -/
lemma purge_of_lt (h : (now : WithTop τ) < s.deadline k) :
    (s.purge now).hgetall k = s.hgetall k ∧ (s.purge now).get k = s.get k ∧
      (s.purge now).deadline k = s.deadline k :=
  ⟨funext fun _ => if_pos h, if_pos h, if_pos h⟩

omit [DecidableEq κ] in
/-- Nothing is left of a key from its deadline on. -/
lemma purge_of_le (h : s.deadline k ≤ (now : WithTop τ)) :
    (s.purge now).hgetall k = (fun _ => none) ∧ (s.purge now).get k = none ∧
      (s.purge now).deadline k = ⊤ :=
  ⟨funext fun _ => if_neg h.not_gt, if_neg h.not_gt, if_neg h.not_gt⟩

end TimedHashStore
