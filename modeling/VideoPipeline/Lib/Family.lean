import Mathlib.Algebra.BigOperators.Group.Finset.Basic
import Mathlib.Algebra.BigOperators.Group.Finset.Piecewise
import Mathlib.Algebra.Order.BigOperators.Group.Finset
import Mathlib.Tactic.Common

/-!
# Sums over a family of processes

A family of processes is a function from their numbers to their states. A step changes one member,
so a quantity that is summed over the first `n` members changes by that of the one member.
-/

namespace Family

variable {β : Type*} {n d : ℕ}

/-- Replacing one member of a family replaces its summand. -/
lemma sum_update (φ : β → ℕ) (r : ℕ → β) (x : β) (hd : d < n) :
    ∑ i ∈ Finset.range n, φ (Function.update r d x i) + φ (r d) =
      ∑ i ∈ Finset.range n, φ (r i) + φ x := by
  have hmem : d ∈ Finset.range n := Finset.mem_range.mpr hd
  have hcongr : ∀ i,
      φ (Function.update r d x i) = Function.update (fun i => φ (r i)) d (φ x) i := by
    intro i
    by_cases hi : i = d
    · subst hi
      simp
    · simp [hi]
  simp only [hcongr]
  rw [Finset.sum_update_of_mem hmem, Finset.sdiff_singleton_eq_erase]
  have herase := Finset.sum_erase_add (Finset.range n) (fun i => φ (r i)) hmem
  omega

/-- Families that differ in one member have sums that differ by its summand. -/
lemma sum_of_ne (φ : β → ℕ) {r r' : ℕ → β} (hd : d < n) (hne : ∀ i, i ≠ d → r' i = r i) :
    ∑ i ∈ Finset.range n, φ (r' i) + φ (r d) = ∑ i ∈ Finset.range n, φ (r i) + φ (r' d) := by
  have hr' : r' = Function.update r d (r' d) := by
    funext i
    by_cases hi : i = d
    · subst hi
      simp
    · rw [Function.update_of_ne hi, hne i hi]
  have hsum := sum_update φ r (r' d) hd
  rwa [← hr'] at hsum

/-- One member's summand is at most the sum. -/
lemma le_sum (φ : β → ℕ) (r : ℕ → β) (hd : d < n) :
    φ (r d) ≤ ∑ i ∈ Finset.range n, φ (r i) :=
  Finset.single_le_sum (f := fun i => φ (r i)) (fun _ _ => Nat.zero_le _)
    (Finset.mem_range.mpr hd)

/-- The summands of two members are together at most the sum. -/
lemma add_le_sum (φ : β → ℕ) (r : ℕ → β) {d' : ℕ} (hd : d < n) (hd' : d' < n) (hne : d ≠ d') :
    φ (r d) + φ (r d') ≤ ∑ i ∈ Finset.range n, φ (r i) := by
  have herase := Finset.sum_erase_add (Finset.range n) (fun i => φ (r i))
    (Finset.mem_range.mpr hd)
  have hle : φ (r d') ≤ ∑ i ∈ (Finset.range n).erase d, φ (r i) := by
    apply Finset.single_le_sum_of_canonicallyOrdered (f := fun i => φ (r i))
    exact Finset.mem_erase.mpr ⟨hne.symm, Finset.mem_range.mpr hd'⟩
  omega

end Family
