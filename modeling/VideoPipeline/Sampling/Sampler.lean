import Mathlib.Algebra.Order.Floor.Semifield
import Mathlib.Data.Rat.Floor
import Mathlib.Tactic.NormNum
import VideoPipeline.Lib.BestApprox

/-!
# Which source frames are kept

`video_analyzer/domain/frame_sampler.py`. Output slot `k` keeps the source frame
`⌊k * source_fps / target_fps + 1/2⌋`, computed in exact rational arithmetic. A rate that the
constructor accepts has a stride of at least one, so a later slot has a later frame.
-/

namespace VideoPipeline

/-- A frame rate that was accepted, with the exact number of source frames per output frame. -/
structure SamplingRate where
  sourceFps : ℚ
  targetFps : ℤ
  stride : ℚ
  one_le_stride : 1 ≤ stride
  deriving DecidableEq, Repr

namespace SamplingRate

/-- Source frame index for an output slot, round-half-up. -/
def sourceIndexForSlot (r : SamplingRate) (slot : ℕ) : ℕ := ⌊slot * r.stride + 1 / 2⌋₊

/-- How many frames will be kept from a video. -/
def expectedFrameCount (r : SamplingRate) (totalSourceFrames : ℤ) : ℕ :=
  if totalSourceFrames ≤ 0 then 0 else ⌈((totalSourceFrames : ℚ) - 1 / 2) / r.stride⌉₊

/-- Every kept frame, as slot and source index. -/
def iterSlots (r : SamplingRate) (totalSourceFrames : ℤ) : List (ℕ × ℕ) :=
  (List.range (r.expectedFrameCount totalSourceFrames)).map fun slot =>
    (slot, r.sourceIndexForSlot slot)

/-- Presentation timestamp, in seconds, of a source frame index. -/
def timestampForIndex (r : SamplingRate) (sourceIndex : ℕ) : ℚ := sourceIndex / r.sourceFps

/-- The slot at which a run resumes when this source index is the highest that was confirmed. -/
def slotAfterSourceIndex (r : SamplingRate) (sourceIndex : ℤ) : ℕ :=
  if sourceIndex < 0 then 0 else ⌈((sourceIndex : ℚ) + 1 / 2) / r.stride⌉₊

variable (r : SamplingRate)

lemma stride_pos : 0 < r.stride := zero_lt_one.trans_le r.one_le_stride

lemma lt_sourceIndexForSlot_iff (i k : ℕ) :
    i < r.sourceIndexForSlot k ↔ ((i : ℚ) + 1 / 2) / r.stride ≤ k := by
  have hnonneg : 0 ≤ (k : ℚ) * r.stride + 1 / 2 := by
    have := r.stride_pos
    positivity
  rw [sourceIndexForSlot, ← Nat.succ_le_iff, Nat.le_floor_iff hnonneg, div_le_iff₀ r.stride_pos]
  push_cast
  constructor <;>
  · intro h
    linarith

/-- It is the first slot whose frame is past the index. -/
theorem slotAfterSourceIndex_le_iff (i : ℤ) (k : ℕ) :
    r.slotAfterSourceIndex i ≤ k ↔ i < r.sourceIndexForSlot k := by
  rw [slotAfterSourceIndex]
  split
  · next h =>
    constructor
    · intro _
      exact h.trans_le (Int.natCast_nonneg _)
    · intro _
      exact Nat.zero_le k
  · next h =>
    obtain ⟨n, rfl⟩ := Int.eq_ofNat_of_zero_le (not_lt.mp h)
    rw [Nat.ceil_le, Int.cast_natCast, Nat.cast_lt, r.lt_sourceIndexForSlot_iff]

lemma expectedFrameCount_eq (n : ℤ) :
    r.expectedFrameCount n = r.slotAfterSourceIndex (n - 1) := by
  rw [expectedFrameCount, slotAfterSourceIndex]
  split
  · next h => rw [if_pos (by omega)]
  · next h =>
    rw [if_neg (by omega)]
    congr 2
    push_cast
    ring

/-- The slots that are counted are those whose frame the video has. -/
theorem lt_expectedFrameCount_iff (n : ℤ) (k : ℕ) :
    k < r.expectedFrameCount n ↔ r.sourceIndexForSlot k < n := by
  rw [expectedFrameCount_eq, ← not_le, slotAfterSourceIndex_le_iff]
  omega

theorem sourceIndexForSlot_strictMono : StrictMono r.sourceIndexForSlot := by
  apply strictMono_nat_of_lt_succ
  intro k
  rw [lt_sourceIndexForSlot_iff, div_le_iff₀ r.stride_pos]
  have hfloor : (r.sourceIndexForSlot k : ℚ) ≤ k * r.stride + 1 / 2 := by
    apply Nat.floor_le
    have := r.stride_pos
    positivity
  have hone := r.one_le_stride
  push_cast
  linarith

/-- The listed slots are at increasing source indices. -/
lemma iterSlots_pairwise (n : ℤ) : ((r.iterSlots n).map Prod.snd).Pairwise (· < ·) := by
  rw [iterSlots, List.map_map, List.pairwise_map]
  refine List.pairwise_lt_range.imp ?_
  intro a b hab
  exact r.sourceIndexForSlot_strictMono hab

end SamplingRate

/-- Why a rate or a start is refused. -/
inductive InvalidFrameRate where
  | sourceRate (sourceFps : ℚ)
  | targetRate (targetFps : ℤ)
  | exceedsSource (targetFps : ℤ) (sourceFps : ℚ)
  | startSlot (startSlot : ℤ)
  deriving DecidableEq, Repr

/-- The text of the error, where `repr` and `general` are the two ways in which a float is
formatted. -/
def InvalidFrameRate.message (repr general : ℚ → String) : InvalidFrameRate → String
  | .sourceRate fps => "source frame rate must be a positive finite number, got " ++ repr fps
  | .targetRate t   => "target frame rate must be positive, got " ++ toString t
  | .exceedsSource t fps =>
    "cannot sample " ++ toString t ++ " fps from a " ++ general fps ++ " fps source: " ++
      "the target rate exceeds the source rate"
  | .startSlot k    => "start_slot must be non-negative, got " ++ toString k

/-- Large enough for the NTSC rates. -/
def maxDenominator : ℕ := 10000

/-- The source frames per output frame. -/
def exactStride (sourceFps : ℚ) (targetFps : ℤ) : ℚ :=
  BestApprox.limitDenominator sourceFps maxDenominator / targetFps

/-- A source rate is approximated from below by less than the smallest fraction that the
denominators allow, and the target rate is among the candidates. -/
lemma one_le_exactStride {sourceFps : ℚ} {targetFps : ℤ} (ht : 0 < targetFps)
    (hs : targetFps - 1 / 1000000 ≤ sourceFps) : 1 ≤ exactStride sourceFps targetFps := by
  have htq : (0 : ℚ) < targetFps := by exact_mod_cast ht
  rw [exactStride, le_div_iff₀ htq, one_mul]
  by_contra hlt
  rw [not_le] at hlt
  have hclose := BestApprox.limitDenominator_closest sourceFps (M := maxDenominator) (by decide)
    targetFps (q := 1) (by decide) (by decide)
  have hden := BestApprox.limitDenominator_den_le sourceFps (M := maxDenominator) (by decide)
  generalize BestApprox.limitDenominator sourceFps maxDenominator = e at *
  rw [Nat.cast_one, div_one] at hclose
  have hgap : 1 / 10000 ≤ targetFps - e := by
    have hpos : (0 : ℚ) < e.den := by exact_mod_cast e.pos
    have hden' : (e.den : ℚ) ≤ 10000 := by exact_mod_cast hden
    have hnum : (e.num : ℚ) + 1 ≤ targetFps * e.den := by
      have hlt' : (e.num : ℚ) < targetFps * e.den := by
        rw [← Rat.mul_den_eq_num]
        exact mul_lt_mul_of_pos_right hlt hpos
      exact_mod_cast Int.add_one_le_of_lt (by exact_mod_cast hlt')
    have hone : 1 / (e.den : ℚ) ≤ targetFps - e := by
      rw [div_le_iff₀ hpos, sub_mul, Rat.mul_den_eq_num]
      linarith
    exact (one_div_le_one_div_of_le hpos hden').trans hone
  rcases le_total (targetFps : ℚ) sourceFps with h | h
  · rw [abs_of_nonpos (by linarith), abs_of_nonpos (by linarith)] at hclose
    linarith
  · rw [abs_of_nonneg (by linarith : 0 ≤ (targetFps : ℚ) - sourceFps)] at hclose
    have hneg := neg_abs_le (e - sourceFps)
    linarith

/-- A sampling rate with the next slot and the source index it is waiting for. -/
structure FrameSampler extends SamplingRate where
  cursorSlot : ℕ
  cursorIndex : ℕ
  cursor : cursorIndex = toSamplingRate.sourceIndexForSlot cursorSlot
  deriving DecidableEq, Repr

namespace FrameSampler

/-- A sampler that waits for the frame of a slot. -/
def startAt (r : SamplingRate) (slot : ℕ) : FrameSampler :=
  { r with cursorSlot := slot, cursorIndex := r.sourceIndexForSlot slot, cursor := rfl }

/-- The constructor. -/
def new (sourceFps : ℚ) (targetFps startSlot : ℤ) : Except InvalidFrameRate FrameSampler :=
  if sourceFps ≤ 0 then .error (.sourceRate sourceFps)
  else if ht : targetFps ≤ 0 then .error (.targetRate targetFps)
  else if hs : sourceFps < targetFps - 1 / 1000000 then .error (.exceedsSource targetFps sourceFps)
  else if startSlot < 0 then .error (.startSlot startSlot)
  else .ok (startAt ⟨sourceFps, targetFps, exactStride sourceFps targetFps,
    one_le_exactStride (not_le.mp ht) (not_lt.mp hs)⟩ startSlot.toNat)

/-- The output slot if the source index is sampled, and the sampler after it. -/
def take (s : FrameSampler) (sourceIndex : ℕ) : Option ℕ × FrameSampler :=
  if sourceIndex = s.cursorIndex then
    (some s.cursorSlot, startAt s.toSamplingRate (s.cursorSlot + 1))
  else (none, s)

/-- The next source index this sampler is waiting for. -/
def nextSourceIndex (s : FrameSampler) : ℕ := s.cursorIndex

/-- A rate that is accepted is accepted with every start. -/
lemma new_startSlot {sourceFps : ℚ} {targetFps startSlot : ℤ} {s : FrameSampler}
    (h : new sourceFps targetFps startSlot = .ok s) (k : ℕ) :
    new sourceFps targetFps k = .ok (startAt s.toSamplingRate k) := by
  rw [new] at h ⊢
  split at h
  · cases h
  · next hf =>
    split at h
    · cases h
    · next ht =>
      split at h
      · cases h
      · next hs =>
        split at h
        · cases h
        · cases h
          rw [if_neg hf, dif_neg ht, dif_neg hs, if_neg (by omega)]
          rfl

/-- What the constructor has checked, and the rate that it keeps. -/
lemma new_ok {sourceFps : ℚ} {targetFps startSlot : ℤ} {s : FrameSampler}
    (h : new sourceFps targetFps startSlot = .ok s) :
    0 < sourceFps ∧ 0 < targetFps ∧ s.cursorSlot = startSlot ∧ s.sourceFps = sourceFps ∧
      s.stride = exactStride sourceFps targetFps := by
  rw [new] at h
  split at h
  · cases h
  · next hf =>
    split at h
    · cases h
    · next ht =>
      split at h
      · cases h
      · split at h
        · cases h
        · cases h
          exact ⟨not_le.mp hf, not_le.mp ht, Int.toNat_of_nonneg (not_lt.mp ‹_›), rfl, rfl⟩

end FrameSampler

end VideoPipeline
