import Mathlib

/-!
# Identifiers of blobs and of reported frames

The keys of `video_analyzer/domain/identity.py`. A decimal number contains no colon, so the part
of a key after its last colon is the frame id and the part before it determines the job.
-/

namespace VideoPipeline

/-- Frame blobs are namespaced by job. -/
def blobKey (jobId : String) (frameId : ℤ) : String :=
  "frame:" ++ jobId ++ ":" ++ Int.repr frameId

/-- The key under which the report of a frame is claimed. -/
def dedupKey (jobId : String) (frameId : ℤ) : String :=
  "processed:" ++ jobId ++ ":" ++ Int.repr frameId

lemma not_mem_repr {c : Char} (hc : c.isDigit = false) (n : ℕ) : c ∉ n.repr.toList := by
  intro h
  rw [Nat.toList_repr] at h
  have := Nat.isDigit_of_mem_toDigits (by omega) (by omega) h
  rw [hc] at this
  cases this

lemma not_mem_int_repr {c : Char} (hc : c.isDigit = false) (hminus : c ≠ '-') (i : ℤ) :
    c ∉ (Int.repr i).toList := by
  cases i with
  | ofNat n => exact not_mem_repr hc n
  | negSucc n =>
    simp only [Int.repr, String.toList_append, List.mem_append, not_or]
    exact ⟨by simpa using hminus, not_mem_repr hc _⟩

/-- Two lists cut at the last occurrence of a separator have equal parts. -/
lemma append_cons_inj_of_not_mem_right {α : Type*} [DecidableEq α] {a : α} {x₁ x₂ z₁ z₂ : List α}
    (h₁ : a ∉ z₁) (h₂ : a ∉ z₂) (h : x₁ ++ a :: z₁ = x₂ ++ a :: z₂) : x₁ = x₂ ∧ z₁ = z₂ := by
  have hz : z₁ = z₂ := by
    have ht := congrArg (fun l => (l.reverse.takeWhile (· != a)).reverse) h
    simp only [List.reverse_append, List.reverse_cons, List.append_assoc, List.singleton_append]
      at ht
    rwa [List.takeWhile_append_of_pos (by grind), List.takeWhile_append_of_pos (by grind),
      List.takeWhile_cons_of_neg (by simp), List.takeWhile_cons_of_neg (by simp),
      List.append_nil, List.append_nil, List.reverse_reverse, List.reverse_reverse] at ht
  subst hz
  exact ⟨List.append_cancel_right h, rfl⟩

/-- What is between a text and the number behind the last colon is determined. -/
lemma append_colon_repr_inj {pre j j' : String} {i i' : ℤ}
    (h : pre ++ j ++ ":" ++ Int.repr i = pre ++ j' ++ ":" ++ Int.repr i') : j = j' ∧ i = i' := by
  have hl := congrArg String.toList h
  simp only [String.toList_append] at hl
  rw [List.append_assoc, List.append_assoc _ _ (Int.repr i').toList] at hl
  obtain ⟨hj, hi⟩ := append_cons_inj_of_not_mem_right
    (not_mem_int_repr (by decide) (by decide) i) (not_mem_int_repr (by decide) (by decide) i') hl
  exact ⟨String.toList_injective (List.append_cancel_left hj),
    Int.repr_injective (String.toList_injective hi)⟩

/-- Different frames claim different keys. -/
theorem dedupKey_injective {j j' : String} {i i' : ℤ} (h : dedupKey j i = dedupKey j' i') :
    j = j' ∧ i = i' :=
  append_colon_repr_inj h

/-- The blobs of different frames have different keys. -/
theorem blobKey_injective {j j' : String} {i i' : ℤ} (h : blobKey j i = blobKey j' i') :
    j = j' ∧ i = i' :=
  append_colon_repr_inj h

end VideoPipeline
