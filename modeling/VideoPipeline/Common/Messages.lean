import Mathlib.Data.Rat.Defs
import Mathlib.Algebra.Order.Ring.Rat
import Mathlib.Tactic.Common

/-!
# The wire contract and the job record

`FrameRef` is the reference to one extracted frame that travels through the broker, `JobRecord`
the progress record of one `/analyze` invocation (`pipeline_common/messages.py`). Wall-clock and
presentation times are exact rationals.
-/

namespace VideoPipeline

/-- A claim-check reference to one extracted frame. -/
structure FrameRef where
  jobId : String
  videoId : String
  frameId : ℤ
  timestampSec : ℚ
  dispatchedAt : ℚ
  blobKey : String
  deriving DecidableEq, Repr

/-- Seconds since dispatch, `0` when the analyzer did not stamp the reference. -/
def FrameRef.ageSec (ref : FrameRef) (now : ℚ) : ℚ :=
  if ref.dispatchedAt = 0 then 0 else max 0 (now - ref.dispatchedAt)

inductive JobStatus where
  | pending
  | running
  | completed
  | partial_
  | failed
  | cancelled
  deriving DecidableEq, Repr

structure JobRecord where
  jobId : String
  videoId : String
  resumeKey : String
  status : JobStatus
  sourceFps : ℚ
  targetFps : ℤ
  totalSourceFrames : ℕ
  framesExpected : ℕ
  framesDispatched : ℕ
  framesFailed : ℕ
  framesProcessed : ℕ
  lastSourceIndex : ℤ
  startedAt : ℚ
  updatedAt : ℚ
  error : Option String
  deriving DecidableEq, Repr

/-- The arguments of one `JobRepository.checkpoint` call. -/
structure Checkpoint where
  framesDispatched : ℕ
  framesFailed : ℕ
  lastSourceIndex : ℤ
  deriving DecidableEq, Repr

namespace JobRecord

/-- `JobRepository.set_status` on the record of the job. Redis writes the error field only when
there is an error. -/
def setStatus (r : JobRecord) (status : JobStatus) (error : Option String) (now : ℚ) :
    JobRecord :=
  { r with status := status, error := error <|> r.error, updatedAt := now }

/-- `JobRepository.checkpoint` on the record of the job. -/
def checkpoint (r : JobRecord) (c : Checkpoint) (now : ℚ) : JobRecord :=
  { r with
    framesDispatched := c.framesDispatched
    framesFailed := c.framesFailed
    lastSourceIndex := c.lastSourceIndex
    updatedAt := now }

/-- The progress a record carries. -/
def progress (r : JobRecord) : Checkpoint :=
  ⟨r.framesDispatched, r.framesFailed, r.lastSourceIndex⟩

@[simp] lemma setStatus_status (r : JobRecord) (st : JobStatus) (e : Option String) (now : ℚ) :
    (r.setStatus st e now).status = st := rfl

@[simp] lemma setStatus_progress (r : JobRecord) (st : JobStatus) (e : Option String) (now : ℚ) :
    (r.setStatus st e now).progress = r.progress := rfl

@[simp] lemma checkpoint_status (r : JobRecord) (c : Checkpoint) (now : ℚ) :
    (r.checkpoint c now).status = r.status := rfl

@[simp] lemma checkpoint_progress (r : JobRecord) (c : Checkpoint) (now : ℚ) :
    (r.checkpoint c now).progress = c := rfl

end JobRecord

end VideoPipeline
