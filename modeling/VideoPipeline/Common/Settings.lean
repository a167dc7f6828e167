import Mathlib.Data.Rat.Defs
import Mathlib.Algebra.Order.Ring.Rat
import Mathlib.Tactic.NormNum

/-!
# Settings of the two services

`pipeline_common/settings.py`. The bounds that are validated at startup are fields, so settings
out of bounds cannot be built; the defaults are the defaults of the source.
-/

namespace VideoPipeline

structure AnalyzerSettings where
  frameBlobTtlSec : ℕ := 3600
  analyzerQueueSize : ℕ := 256
  analyzerPublishers : ℕ := 4
  checkpointEvery : ℕ := 50
  maxFrameFailureRatio : ℚ := 1 / 20
  frameBlobTtl_pos : 0 < frameBlobTtlSec := by decide
  queueSize_pos : 0 < analyzerQueueSize := by decide
  publishers_pos : 0 < analyzerPublishers := by decide
  checkpointEvery_pos : 0 < checkpointEvery := by decide
  maxFailureRatio_nonneg : 0 ≤ maxFrameFailureRatio := by norm_num
  maxFailureRatio_le_one : maxFrameFailureRatio ≤ 1 := by norm_num

structure DetectorSettings where
  framePartitions : ℕ := 4
  detectorPrefetch : ℕ := 32
  batchMaxSize : ℕ := 32
  batchMaxLatencyMs : ℕ := 500
  dedupTtlSec : ℕ := 3600
  /-- Frames older than this are shed, `0` switches shedding off. -/
  maxFrameAgeSec : ℚ := 0
  partitions_pos : 0 < framePartitions := by decide
  partitions_le : framePartitions ≤ 64 := by decide
  prefetch_pos : 0 < detectorPrefetch := by decide
  maxSize_pos : 0 < batchMaxSize := by decide
  maxLatency_pos : 0 < batchMaxLatencyMs := by decide
  dedupTtl_pos : 0 < dedupTtlSec := by decide
  maxFrameAge_nonneg : 0 ≤ maxFrameAgeSec := by norm_num

instance : Inhabited AnalyzerSettings := ⟨{}⟩

instance : Inhabited DetectorSettings := ⟨{}⟩

end VideoPipeline
