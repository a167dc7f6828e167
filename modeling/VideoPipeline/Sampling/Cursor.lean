import VideoPipeline.Sampling.Sampler

/-!
# The streaming cursor

`take` is fed consecutive indices by the decode loop. It answers with a slot exactly at the source
index of that slot, so a fresh cursor keeps the frames that `iter_slots` lists and
`expected_frame_count` counts.
-/

namespace VideoPipeline

namespace FrameSampler

/-- The answers of `take` to indices that are fed one after the other. -/
def takes (s : FrameSampler) : List ℕ → List (Option ℕ)
  | []      => []
  | i :: is => (s.take i).1 :: takes (s.take i).2 is

/-- The slots that `take` answers with, each with the index it answers to. -/
def kept (s : FrameSampler) (is : List ℕ) : List (ℕ × ℕ) :=
  (is.zip (s.takes is)).filterMap fun p => p.2.map fun slot => (slot, p.1)

/-- An answer to an index is right when it is the slot of that index, from a slot on. -/
def Answers (r : SamplingRate) (startSlot i : ℕ) (answer : Option ℕ) : Prop :=
  ∀ k, answer = some k ↔ startSlot ≤ k ∧ r.sourceIndexForSlot k = i

@[simp] lemma startAt_toSamplingRate (r : SamplingRate) (slot : ℕ) :
    (startAt r slot).toSamplingRate = r := rfl

@[simp] lemma startAt_cursorSlot (r : SamplingRate) (slot : ℕ) :
    (startAt r slot).cursorSlot = slot := rfl

lemma take_of_eq {s : FrameSampler} {i : ℕ} (h : i = s.cursorIndex) :
    s.take i = (some s.cursorSlot, startAt s.toSamplingRate (s.cursorSlot + 1)) := by
  rw [take, if_pos h]

lemma take_of_ne {s : FrameSampler} {i : ℕ} (h : i ≠ s.cursorIndex) : s.take i = (none, s) := by
  rw [take, if_neg h]

/-- The cursor never waits for an index that it has passed. -/
lemma lt_cursorIndex_next (s : FrameSampler) :
    s.cursorIndex < (startAt s.toSamplingRate (s.cursorSlot + 1)).cursorIndex := by
  rw [s.cursor]
  exact s.sourceIndexForSlot_strictMono (Nat.lt_add_one s.cursorSlot)

lemma answers_take {s : FrameSampler} {i : ℕ} (h : i ≤ s.cursorIndex) :
    Answers s.toSamplingRate s.cursorSlot i (s.take i).1 := by
  intro k
  by_cases heq : i = s.cursorIndex
  · rw [take_of_eq heq, heq, s.cursor, Option.some.injEq]
    constructor
    · rintro rfl
      exact ⟨le_rfl, rfl⟩
    · rintro ⟨-, hk⟩
      exact (s.sourceIndexForSlot_strictMono.injective hk).symm
  · rw [take_of_ne heq]
    constructor
    · intro hk
      cases hk
    · rintro ⟨hk, rfl⟩
      -- a slot from the cursor on is not before the index that the cursor waits for
      have hmono := s.sourceIndexForSlot_strictMono.monotone hk
      rw [← s.cursor] at hmono
      exact absurd (h.antisymm hmono) heq

/-- An index after one that was taken is not that of the slot taken. -/
lemma Answers.of_next {s : FrameSampler} {i : ℕ} {answer : Option ℕ} (h : s.cursorIndex < i)
    (ha : Answers s.toSamplingRate (s.cursorSlot + 1) i answer) :
    Answers s.toSamplingRate s.cursorSlot i answer := by
  intro k
  rw [ha k]
  constructor
  · rintro ⟨hk, hi⟩
    exact ⟨Nat.le_of_succ_le hk, hi⟩
  · rintro ⟨hk, rfl⟩
    refine ⟨Nat.lt_of_le_of_ne hk ?_, rfl⟩
    rintro rfl
    rw [s.cursor] at h
    exact lt_irrefl _ h

/-- Fed consecutive indices, the cursor answers each of them rightly. -/
theorem takes_answers {s : FrameSampler} {a : ℕ} (ha : a ≤ s.cursorIndex) (n : ℕ) :
    List.Forall₂ (Answers s.toSamplingRate s.cursorSlot) (List.range' a n)
      (s.takes (List.range' a n)) := by
  induction n generalizing s a with
  | zero => exact .nil
  | succ n ih =>
    rw [List.range'_succ, takes]
    refine .cons (answers_take ha) ?_
    by_cases heq : a = s.cursorIndex
    · rw [take_of_eq heq]
      have hnext := ih (heq ▸ s.lt_cursorIndex_next)
      rw [List.forall₂_iff_zip] at hnext ⊢
      refine ⟨hnext.1, ?_⟩
      intro i answer hmem
      have hlt : s.cursorIndex < i := by
        have hi := (List.of_mem_zip hmem).1
        rw [List.mem_range'_1] at hi
        rw [← heq]
        exact hi.1
      exact Answers.of_next hlt (hnext.2 hmem)
    · rw [take_of_ne heq]
      exact ih (lt_of_le_of_ne ha heq)

lemma kept_cons (s : FrameSampler) (i : ℕ) (is : List ℕ) :
    s.kept (i :: is) =
      ((s.take i).1.map fun slot => (slot, i)).toList ++ (s.take i).2.kept is := by
  rw [kept, takes, List.zip_cons_cons, List.filterMap_cons]
  cases (s.take i).1 <;> rfl

lemma drop_iterSlots (r : SamplingRate) (N : ℤ) {k : ℕ} (h : r.sourceIndexForSlot k < N) :
    (r.iterSlots N).drop k = (k, r.sourceIndexForSlot k) :: (r.iterSlots N).drop (k + 1) := by
  have hk := (r.lt_expectedFrameCount_iff N k).mpr h
  have hlen : k < (r.iterSlots N).length := by
    rw [SamplingRate.iterSlots, List.length_map, List.length_range]
    exact hk
  rw [List.drop_eq_getElem_cons hlen]
  congr 1
  simp [SamplingRate.iterSlots]

lemma drop_iterSlots_eq_nil (r : SamplingRate) (N : ℤ) {k : ℕ} (h : N ≤ r.sourceIndexForSlot k) :
    (r.iterSlots N).drop k = [] := by
  apply List.drop_eq_nil_of_le
  rw [SamplingRate.iterSlots, List.length_map, List.length_range, ← not_lt,
    r.lt_expectedFrameCount_iff]
  exact not_lt.mpr h

/-- Fed consecutive indices, the cursor keeps the listed slots from its start on. -/
theorem kept_range' {s : FrameSampler} {a N : ℕ} (ha : a ≤ s.cursorIndex) :
    s.kept (List.range' a (N - a)) = (s.iterSlots N).drop s.cursorSlot := by
  generalize hn : N - a = n
  induction n generalizing s a with
  | zero =>
    rw [drop_iterSlots_eq_nil]
    · rfl
    · rw [← s.cursor]
      exact_mod_cast (Nat.le_of_sub_eq_zero hn).trans ha
  | succ n ih =>
    rw [List.range'_succ, kept_cons]
    by_cases heq : a = s.cursorIndex
    · rw [take_of_eq heq, drop_iterSlots]
      · rw [ih (heq ▸ s.lt_cursorIndex_next) (by omega), heq, s.cursor]
        rfl
      · rw [← s.cursor, ← heq]
        omega
    · rw [take_of_ne heq, ih (lt_of_le_of_ne ha heq) (by omega)]
      rfl

lemma new_eq_ok {sourceFps : ℚ} {targetFps : ℤ} (hpos : 0 < sourceFps) (ht : 1 ≤ targetFps)
    (hs : targetFps - 1 / 1000000 ≤ sourceFps) (startSlot : ℕ) :
    ∃ r : SamplingRate, r.stride = exactStride sourceFps targetFps ∧
      new sourceFps targetFps startSlot = .ok (startAt r startSlot) := by
  refine ⟨⟨sourceFps, targetFps, exactStride sourceFps targetFps, one_le_exactStride ht hs⟩, rfl,
    ?_⟩
  rw [new, if_neg (not_le.mpr hpos), dif_neg (by omega), dif_neg (not_lt.mpr hs), if_neg (by omega)]
  rfl

/-- For every rate that is accepted, the cursor, the count and the slot formula agree. -/
theorem cursor_agrees {sourceFps : ℚ} {targetFps : ℤ} (hpos : 0 < sourceFps) (ht : 1 ≤ targetFps)
    (hs : targetFps - 1 / 1000000 ≤ sourceFps) (startSlot N : ℕ) :
    ∃ s, new sourceFps targetFps startSlot = .ok s ∧
      s.stride = BestApprox.limitDenominator sourceFps 10000 / targetFps ∧ 1 ≤ s.stride ∧
      (∀ a ≤ s.sourceIndexForSlot startSlot,
        List.Forall₂ (Answers s.toSamplingRate startSlot) (List.range' a (N - a))
          (s.takes (List.range' a (N - a))) ∧
        s.kept (List.range' a (N - a)) = (s.iterSlots N).drop startSlot) ∧
      (∀ k, k < s.expectedFrameCount N ↔ s.sourceIndexForSlot k < N) ∧
      (startSlot = 0 → s.kept (List.range N) = s.iterSlots N ∧
        (s.kept (List.range N)).length = s.expectedFrameCount N) := by
  obtain ⟨r, hr, hnew⟩ := new_eq_ok hpos ht hs startSlot
  refine ⟨startAt r startSlot, hnew, hr, r.one_le_stride, ?_, ?_, ?_⟩
  · intro a ha
    exact ⟨takes_answers ha _, kept_range' ha⟩
  · intro k
    rw [SamplingRate.lt_expectedFrameCount_iff, Nat.cast_lt]
  · rintro rfl
    have hkept : (startAt r 0).kept (List.range N) = (startAt r 0).iterSlots N := by
      rw [List.range_eq_range', ← Nat.sub_zero N, kept_range' (Nat.zero_le _)]
      rfl
    rw [hkept, SamplingRate.iterSlots, List.length_map, List.length_range]
    exact ⟨rfl, rfl⟩

/-- A source that is reported slightly below the target rate is accepted, and a cursor that starts
at its second slot keeps the slots from there on. -/
theorem cursor_agrees_below_target :
    ∃ s, new (4 - 1 / 10000000 : ℚ) 4 (1 : ℕ) = .ok s ∧ 1 ≤ s.stride ∧
      s.kept (List.range' 0 (5 - 0)) = (s.iterSlots (5 : ℕ)).drop 1 := by
  have hpos : (0 : ℚ) < 4 - 1 / 10000000 := by norm_num
  obtain ⟨s, hnew, -, hone, hcur, -⟩ :=
    cursor_agrees hpos (by decide : (1 : ℤ) ≤ 4) (by norm_num) 1 5
  exact ⟨s, hnew, hone, (hcur 0 (Nat.zero_le _)).2⟩

/-! ### The seam of a resume -/

lemma mem_take_iterSlots {r : SamplingRate} {N : ℤ} {k : ℕ} {p : ℕ × ℕ}
    (hp : p ∈ (r.iterSlots N).take k) : p.1 < k ∧ p.2 = r.sourceIndexForSlot p.1 := by
  rw [SamplingRate.iterSlots, ← List.map_take, List.take_range, List.mem_map] at hp
  obtain ⟨slot, hslot, rfl⟩ := hp
  exact ⟨(List.mem_range.mp hslot).trans_le (min_le_left _ _), rfl⟩

lemma mem_drop_iterSlots {r : SamplingRate} {N : ℤ} {k : ℕ} {p : ℕ × ℕ}
    (hp : p ∈ (r.iterSlots N).drop k) : k ≤ p.1 ∧ p.2 = r.sourceIndexForSlot p.1 := by
  rw [SamplingRate.iterSlots, ← List.map_drop, List.range_eq_range', List.drop_range',
    List.mem_map] at hp
  obtain ⟨slot, hslot, rfl⟩ := hp
  rw [List.mem_range'_1, Nat.zero_add, Nat.mul_one] at hslot
  exact ⟨hslot.1, rfl⟩

/-- The listed slots from a slot on. -/
lemma filter_slot_iterSlots (r : SamplingRate) (N : ℤ) (k : ℕ) :
    (r.iterSlots N).filter (fun p => k ≤ p.1) = (r.iterSlots N).drop k := by
  nth_rewrite 1 [← List.take_append_drop k (r.iterSlots N)]
  rw [List.filter_append, List.filter_eq_nil_iff.mpr, List.filter_eq_self.mpr, List.nil_append]
  · intro p hp
    simpa using (mem_drop_iterSlots hp).1
  · intro p hp
    simpa using (mem_take_iterSlots hp).1

/-- The listed slots up to a source index are those before the slot at which a run resumes. -/
lemma filter_index_iterSlots (r : SamplingRate) (N c : ℤ) :
    (r.iterSlots N).filter (fun p => (p.2 : ℤ) ≤ c) =
      (r.iterSlots N).take (r.slotAfterSourceIndex c) := by
  have hiff : ∀ slot, r.slotAfterSourceIndex c ≤ slot ↔ ¬ (r.sourceIndexForSlot slot : ℤ) ≤ c := by
    intro slot
    rw [r.slotAfterSourceIndex_le_iff, not_le]
  nth_rewrite 1 [← List.take_append_drop (r.slotAfterSourceIndex c) (r.iterSlots N)]
  rw [List.filter_append, List.filter_eq_self.mpr, List.filter_eq_nil_iff.mpr, List.append_nil]
  · intro p hp
    obtain ⟨hle, heq⟩ := mem_drop_iterSlots hp
    simpa [heq] using (hiff p.1).mp hle
  · intro p hp
    obtain ⟨hlt, heq⟩ := mem_take_iterSlots hp
    simpa [heq] using mt (hiff p.1).mpr (not_le.mpr hlt)

/-- The slot that a checkpoint gives is the first one whose frame is past it, and a cursor that
starts there continues the listed frames without a gap and without a repeat. -/
theorem slotAfterSourceIndex_seam {sourceFps : ℚ} {targetFps startSlot : ℤ} {s : FrameSampler}
    (h : new sourceFps targetFps startSlot = .ok s) (c : ℤ) :
    IsLeast {k | c < s.sourceIndexForSlot k} (s.slotAfterSourceIndex c) ∧
      ∃ s', new sourceFps targetFps (s.slotAfterSourceIndex c) = .ok s' ∧
        ∀ N : ℤ, ((s.iterSlots N).map Prod.snd).filter (fun i : ℕ => (i : ℤ) ≤ c) ++
            (s'.kept (List.range' s'.nextSourceIndex (N.toNat - s'.nextSourceIndex))).map Prod.snd =
          (s.iterSlots N).map Prod.snd := by
  refine ⟨⟨?_, ?_⟩, startAt s.toSamplingRate (s.slotAfterSourceIndex c), new_startSlot h _, ?_⟩
  · exact (s.slotAfterSourceIndex_le_iff c _).mp le_rfl
  · intro k hk
    exact (s.slotAfterSourceIndex_le_iff c k).mpr hk
  · intro N
    have hN : s.iterSlots N = s.iterSlots (N.toNat : ℤ) := by
      rw [SamplingRate.iterSlots, SamplingRate.iterSlots, SamplingRate.expectedFrameCount_eq,
        SamplingRate.expectedFrameCount_eq]
      rcases le_total 0 N with hN | hN
      · rw [Int.toNat_of_nonneg hN]
      · rw [Int.toNat_of_nonpos hN, SamplingRate.slotAfterSourceIndex, if_pos (by omega)]
        rfl
    have hkept := kept_range' (s := startAt s.toSamplingRate (s.slotAfterSourceIndex c))
      (N := N.toNat) le_rfl
    rw [nextSourceIndex, hkept, List.filter_map]
    show ((s.iterSlots N).filter fun p => (p.2 : ℤ) ≤ c).map Prod.snd ++ _ = _
    rw [filter_index_iterSlots, ← List.map_append, startAt_toSamplingRate, ← hN, startAt_cursorSlot,
      List.take_append_drop]

/-- At 25 frames per second of which 2 are kept, the checkpoint 30 lies between two sampled
frames. -/
theorem slotAfterSourceIndex_seam_25_2 :
    ∃ s s', new 25 2 0 = .ok s ∧ new 25 2 (s.slotAfterSourceIndex 30) = .ok s' ∧
      ((s.iterSlots 60).map Prod.snd).filter (fun i : ℕ => (i : ℤ) ≤ 30) ++
          (s'.kept (List.range' s'.nextSourceIndex (60 - s'.nextSourceIndex))).map Prod.snd =
        (s.iterSlots 60).map Prod.snd := by
  obtain ⟨r, -, hnew⟩ := new_eq_ok (by norm_num : (0 : ℚ) < 25) (by decide : (1 : ℤ) ≤ 2)
    (by norm_num) 0
  obtain ⟨-, s', hs', hseam⟩ := slotAfterSourceIndex_seam hnew 30
  exact ⟨_, s', hnew, hs', hseam 60⟩

end FrameSampler

end VideoPipeline
