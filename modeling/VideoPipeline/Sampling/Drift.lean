import VideoPipeline.Sampling.Sampler

/-!
# Sampling without drift

Each slot is rounded afresh from an exact rational stride, so the rounding error of a slot does not
depend on the slots before it. What grows with the slot is the error of the approximated source
rate only, by at most `1 / 20000` of a frame for each second of video.
-/

namespace VideoPipeline

namespace SamplingRate

variable (r : SamplingRate)

lemma sourceIndexForSlot_eq_floor (k : ℕ) :
    (r.sourceIndexForSlot k : ℤ) = ⌊k * r.stride + 1 / 2⌋ := by
  have := r.stride_pos
  exact Int.natCast_floor_eq_floor (by positivity)

/-- A slot is rounded to the nearest frame. -/
theorem abs_sourceIndexForSlot_sub_le (k : ℕ) :
    |(r.sourceIndexForSlot k : ℚ) - k * r.stride| ≤ 1 / 2 := by
  have hfloor : (r.sourceIndexForSlot k : ℚ) = ⌊k * r.stride + 1 / 2⌋ := by
    exact_mod_cast r.sourceIndexForSlot_eq_floor k
  have hle := Int.floor_le (k * r.stride + 1 / 2)
  have hlt := Int.lt_floor_add_one (k * r.stride + 1 / 2)
  rw [hfloor, abs_le]
  constructor <;> linarith

/-- The gap between two slots is the stride, rounded down or up. -/
theorem sourceIndexForSlot_succ_sub (k : ℕ) :
    (r.sourceIndexForSlot (k + 1) : ℤ) - r.sourceIndexForSlot k = ⌊r.stride⌋ ∨
      (r.sourceIndexForSlot (k + 1) : ℤ) - r.sourceIndexForSlot k = ⌈r.stride⌉ := by
  have hsucc : ((k + 1 : ℕ) : ℚ) * r.stride + 1 / 2 = k * r.stride + 1 / 2 + r.stride := by
    push_cast
    ring
  rw [sourceIndexForSlot_eq_floor, sourceIndexForSlot_eq_floor, hsucc]
  have hlow := Int.le_floor_add (k * r.stride + 1 / 2) r.stride
  have hhigh : ⌊k * r.stride + 1 / 2 + r.stride⌋ ≤ ⌊k * r.stride + 1 / 2⌋ + ⌈r.stride⌉ := by
    rw [← Int.floor_add_intCast]
    apply Int.floor_le_floor
    linarith [Int.le_ceil r.stride]
  have hceil := Int.ceil_le_floor_add_one r.stride
  omega

/-- The count is the length of the video in strides, up to less than one frame. -/
theorem abs_expectedFrameCount_sub_lt {N : ℤ} (hN : 1 ≤ N) :
    |(r.expectedFrameCount N : ℚ) - N / r.stride| < 1 := by
  have hN' : (1 : ℚ) ≤ N := by exact_mod_cast hN
  have hs := r.stride_pos
  have hle := Nat.le_ceil (((N : ℚ) - 1 / 2) / r.stride)
  have hlt := Nat.ceil_lt_add_one (div_nonneg (by linarith : (0 : ℚ) ≤ N - 1 / 2) hs.le)
  have hhalf : 1 / 2 / r.stride ≤ 1 / 2 := by
    rw [div_le_iff₀ hs]
    linarith [r.one_le_stride]
  have hpos : 0 < 1 / 2 / r.stride := by positivity
  rw [expectedFrameCount, if_neg (by omega), abs_lt]
  rw [sub_div] at hle hlt ⊢
  constructor <;> linarith

end SamplingRate

namespace FrameSampler

variable {sourceFps : ℚ} {targetFps startSlot : ℤ} {s : FrameSampler}

/-- How far the approximated stride is from the exact one, over `k` slots. -/
lemma abs_stride_sub_le (h : new sourceFps targetFps startSlot = .ok s) (k : ℕ) :
    |k * s.stride - k * sourceFps / targetFps| ≤ k / (20000 * targetFps) := by
  obtain ⟨-, ht, -, -, hs⟩ := new_ok h
  have ht' : (0 : ℚ) < targetFps := by exact_mod_cast ht
  have happrox := BestApprox.abs_limitDenominator_sub_le sourceFps (M := maxDenominator) (by decide)
  have hmax : (1 : ℚ) / (2 * maxDenominator) = 1 / 20000 := by
    rw [maxDenominator]
    norm_num
  rw [hmax] at happrox
  rw [hs, exactStride]
  have hfactor : (k : ℚ) * (BestApprox.limitDenominator sourceFps maxDenominator / targetFps) -
      k * sourceFps / targetFps =
        k / targetFps * (BestApprox.limitDenominator sourceFps maxDenominator - sourceFps) := by
    ring
  have hnonneg : (0 : ℚ) ≤ k / targetFps := by positivity
  rw [hfactor, abs_mul, abs_of_nonneg hnonneg]
  calc k / targetFps * |BestApprox.limitDenominator sourceFps maxDenominator - sourceFps|
      ≤ k / targetFps * (1 / 20000) := mul_le_mul_of_nonneg_left happrox hnonneg
    _ = k / (20000 * targetFps) := by
      field_simp

/-- The error against the exact source rate. -/
lemma abs_sourceIndexForSlot_sub_exact_le (h : new sourceFps targetFps startSlot = .ok s) (k : ℕ) :
    |(s.sourceIndexForSlot k : ℚ) - k * sourceFps / targetFps| ≤
      1 / 2 + k / (20000 * targetFps) := by
  calc |(s.sourceIndexForSlot k : ℚ) - k * sourceFps / targetFps|
      ≤ |(s.sourceIndexForSlot k : ℚ) - k * s.stride| +
          |k * s.stride - k * sourceFps / targetFps| := abs_sub_le _ _ _
    _ ≤ 1 / 2 + k / (20000 * targetFps) :=
      add_le_add (s.abs_sourceIndexForSlot_sub_le k) (abs_stride_sub_le h k)

/-- For the first 10000 seconds a slot's frame is within one frame of the slot's time. -/
lemma abs_timestampForIndex_sub_le (h : new sourceFps targetFps startSlot = .ok s) {k : ℕ}
    (hk : (k : ℚ) / targetFps ≤ 10000) :
    |s.timestampForIndex (s.sourceIndexForSlot k) - k / targetFps| ≤ 1 / sourceFps := by
  obtain ⟨hpos, ht, -, hfps, -⟩ := new_ok h
  have ht' : (0 : ℚ) < targetFps := by exact_mod_cast ht
  have hone : |(s.sourceIndexForSlot k : ℚ) - k * sourceFps / targetFps| ≤ 1 := by
    have hle := abs_sourceIndexForSlot_sub_exact_le h k
    have hgrow : (k : ℚ) / (20000 * targetFps) ≤ 1 / 2 := by
      rw [mul_comm, ← div_div]
      linarith
    linarith
  rw [SamplingRate.timestampForIndex, hfps]
  have hsub : (s.sourceIndexForSlot k : ℚ) / sourceFps - k / targetFps =
      (s.sourceIndexForSlot k - k * sourceFps / targetFps) / sourceFps := by
    field_simp
  rw [hsub, abs_div, abs_of_pos hpos]
  exact div_le_div_of_nonneg_right hone hpos.le

/-- The sampled frames follow the requested rate without drift, for every rate that is accepted and
every length of video. -/
theorem sampling_no_drift (h : new sourceFps targetFps startSlot = .ok s) :
    s.stride = BestApprox.limitDenominator sourceFps 10000 / targetFps ∧
    (∀ k : ℕ, |(s.sourceIndexForSlot k : ℚ) - k * s.stride| ≤ 1 / 2) ∧
    (∀ k : ℕ, (s.sourceIndexForSlot (k + 1) : ℤ) - s.sourceIndexForSlot k = ⌊s.stride⌋ ∨
      (s.sourceIndexForSlot (k + 1) : ℤ) - s.sourceIndexForSlot k = ⌈s.stride⌉) ∧
    (∀ k : ℕ, |(s.sourceIndexForSlot k : ℚ) - k * sourceFps / targetFps| ≤
      1 / 2 + k / (20000 * targetFps)) ∧
    (∀ k : ℕ, (k : ℚ) / targetFps ≤ 10000 →
      |s.timestampForIndex (s.sourceIndexForSlot k) - k / targetFps| ≤ 1 / sourceFps) ∧
    (∀ (p : ℤ) (q : ℕ), 0 < q → q ≤ 10000 → p.natAbs.Coprime q →
      |sourceFps - p / q| < 1 / (20000 * q) →
      BestApprox.limitDenominator sourceFps 10000 = p / q) ∧
    (∀ N : ℤ, 1 ≤ N → |(s.expectedFrameCount N : ℚ) - N / s.stride| < 1) := by
  obtain ⟨-, -, -, -, hs⟩ := new_ok h
  refine ⟨hs, s.abs_sourceIndexForSlot_sub_le, s.sourceIndexForSlot_succ_sub,
    abs_sourceIndexForSlot_sub_exact_le h, fun k hk => abs_timestampForIndex_sub_le h hk, ?_,
    fun N hN => s.abs_expectedFrameCount_sub_lt hN⟩
  intro p q hq hq' _ hlt
  apply BestApprox.limitDenominator_eq_of_abs_sub_lt hq hq'
  have hmax : (2 : ℚ) * (10000 : ℕ) * q = 20000 * q := by
    push_cast
    ring
  rw [hmax]
  exact hlt

/-- A source that reports the NTSC rate in decimals is sampled at that rate exactly. -/
theorem sampling_no_drift_ntsc :
    ∃ s, new (2997002997 / 100000000 : ℚ) 4 0 = .ok s ∧
      |(s.sourceIndexForSlot 1000 : ℚ) - 1000 * (2997002997 / 100000000) / 4| ≤
        1 / 2 + 1000 / (20000 * 4) ∧
      BestApprox.limitDenominator (2997002997 / 100000000) 10000 = 30000 / 1001 ∧
      |(s.expectedFrameCount 1000 : ℚ) - 1000 / s.stride| < 1 := by
  have hnew : ∃ s, new (2997002997 / 100000000 : ℚ) 4 0 = .ok s := by
    rw [new, if_neg (by norm_num), dif_neg (by decide), dif_neg (by norm_num), if_neg (by decide)]
    exact ⟨_, rfl⟩
  obtain ⟨s, hs⟩ := hnew
  obtain ⟨-, -, -, hexact, -, hfrac, hcount⟩ := sampling_no_drift hs
  refine ⟨s, hs, ?_, ?_, ?_⟩
  · simpa using hexact 1000
  · simpa using hfrac 30000 1001 (by decide) (by decide) (by decide) (by norm_num [abs_lt])
  · exact_mod_cast hcount 1000 (by decide)

end FrameSampler

end VideoPipeline
