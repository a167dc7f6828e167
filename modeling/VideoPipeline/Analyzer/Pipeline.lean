import VideoPipeline.Common.Identity
import VideoPipeline.Common.Messages
import VideoPipeline.Common.Settings
import VideoPipeline.Lib.Machine
import VideoPipeline.Sampling.Source

/-!
# The dispatch pipeline

`video_analyzer/services/frame_pipeline.py`. One decode thread feeds a bounded queue that a fixed
pool of publisher tasks drains: each task stores the blob of a frame, publishes its reference and
records the confirm, and now and then writes a checkpoint. At the end one stop sentinel per task
goes through the queue.
-/

namespace VideoPipeline

/-- Progress of one dispatch run. -/
structure RunState where
  framesConfirmed : ℕ := 0
  framesFailed : ℕ := 0
  lastSourceIndex : ℤ := -1
  error : Option String := none
  framesConfirmedThisRun : ℕ := 0
  sinceCheckpoint : ℕ := 0
  deriving DecidableEq, Repr

namespace RunState

def resuming (prior : JobRecord) : RunState where
  framesConfirmed := prior.framesDispatched
  framesFailed := prior.framesFailed
  lastSourceIndex := prior.lastSourceIndex

/-- The state in which `run` starts. -/
def initial : Option JobRecord → RunState
  | none       => {}
  | some prior => resuming prior

def recordConfirmed (s : RunState) (frame : SampledFrame) : RunState :=
  { s with
    framesConfirmed := s.framesConfirmed + 1
    framesConfirmedThisRun := s.framesConfirmedThisRun + 1
    lastSourceIndex := max s.lastSourceIndex frame.sourceIndex
    sinceCheckpoint := s.sinceCheckpoint + 1 }

def takeCheckpointDue (s : RunState) (every : ℕ) : Bool × RunState :=
  if s.sinceCheckpoint ≥ every then (true, { s with sinceCheckpoint := 0 }) else (false, s)

/-- Keep the first, most diagnostic failure. -/
def recordError (s : RunState) (exc : String) : RunState :=
  if s.error = none then { s with error := some exc } else s

/-- A frame failed to decode. -/
def countFailed (s : RunState) : RunState := { s with framesFailed := s.framesFailed + 1 }

/-- What a checkpoint writes. -/
def progress (s : RunState) : Checkpoint :=
  ⟨s.framesConfirmed, s.framesFailed, s.lastSourceIndex⟩

variable (s : RunState)

@[simp] lemma recordConfirmed_error (f : SampledFrame) :
    (s.recordConfirmed f).error = s.error := rfl

@[simp] lemma countFailed_error : s.countFailed.error = s.error := rfl

@[simp] lemma takeCheckpointDue_progress (every : ℕ) :
    (s.takeCheckpointDue every).2.progress = s.progress := by
  rw [takeCheckpointDue]
  split <;> rfl

@[simp] lemma takeCheckpointDue_error (every : ℕ) :
    (s.takeCheckpointDue every).2.error = s.error := by
  rw [takeCheckpointDue]
  split <;> rfl

@[simp] lemma takeCheckpointDue_thisRun (every : ℕ) :
    (s.takeCheckpointDue every).2.framesConfirmedThisRun = s.framesConfirmedThisRun := by
  rw [takeCheckpointDue]
  split <;> rfl

@[simp] lemma recordError_progress (exc : String) : (s.recordError exc).progress = s.progress := by
  rw [recordError]
  split <;> rfl

@[simp] lemma recordError_thisRun (exc : String) :
    (s.recordError exc).framesConfirmedThisRun = s.framesConfirmedThisRun := by
  rw [recordError]
  split <;> rfl

lemma recordError_error_ne (exc : String) : (s.recordError exc).error ≠ none := by
  rw [recordError]
  split
  · exact Option.some_ne_none exc
  · assumption

end RunState

/-- The id under which a frame is published. -/
def SampledFrame.frameId (f : SampledFrame) : ℤ := f.sourceIndex

/-- A publisher task between two awaits. -/
inductive PublishWorker where
  | getting
  | storing (frame : SampledFrame)
  /-- The publish is awaited and has not taken effect. -/
  | publishing (frame : SampledFrame) (ref : FrameRef)
  /-- The broker has the reference, its confirm is awaited. -/
  | confirming (frame : SampledFrame) (ref : FrameRef)
  /-- The checkpoint call is awaited and has not taken effect. -/
  | checkpointing (c : Checkpoint)
  /-- The record is written, the return of the call is awaited. -/
  | checkpointed
  | done
  deriving DecidableEq, Repr

namespace PublishWorker

/-- The frame that is being dispatched. -/
def holding : PublishWorker → List SampledFrame
  | .storing f | .publishing f _ | .confirming f _ => [f]
  | _                                              => []

/-- The frame that is being dispatched and that the broker does not have. -/
def unpublished : PublishWorker → List SampledFrame
  | .storing f | .publishing f _ => [f]
  | _                            => []

/-- A checkpoint call is awaited. -/
def inCheckpoint : PublishWorker → Bool
  | .checkpointing _ | .checkpointed => true
  | _                                => false

inductive Op where
  | take
  | stored (now : ℚ)
  | published
  | confirmed
  | checkpointWritten
  | checkpointReturned
  /-- The awaited call raises. -/
  | raised (exc : String)
  deriving DecidableEq, Repr

end PublishWorker

/-- The decode thread. -/
inductive Thread where
  /-- Inside the generator, before its check of the abort flag. -/
  | looking
  | yielding (item : Item)
  /-- Blocked until the queue has taken the frame. -/
  | putting (frame : SampledFrame)
  /-- The queue has the frame, the abort flag is checked next. -/
  | put
  | ended
  | raised (exc : String)
  deriving DecidableEq, Repr

namespace Thread

def frames : Thread → List SampledFrame
  | .yielding it => it.frame?.toList
  | .putting f   => [f]
  | _            => []

def failures : Thread → List DecodeFailure
  | .yielding it => it.failure?.toList
  | _            => []

/-- What the thread has raised. -/
def errors : Thread → List String
  | .raised exc => [exc]
  | _           => []

/-- The thread has returned or raised. -/
def isOver : Thread → Bool
  | .ended | .raised _ => true
  | _                  => false

end Thread

/-- The task that awaits `run`. -/
inductive Main where
  /-- The decode thread is awaited. -/
  | awaiting
  /-- This many stop sentinels are still to be put. -/
  | stopping (left : ℕ)
  | finished
  deriving DecidableEq, Repr

/-- What one call of `run` is about. -/
structure Dispatch where
  settings : AnalyzerSettings
  source : Video
  jobId : String
  videoId : String

namespace Dispatch

/-- The reference that is published for a frame. -/
def frameRef (cfg : Dispatch) (frame : SampledFrame) (now : ℚ) : FrameRef :=
  ⟨cfg.jobId, cfg.videoId, frame.sourceIndex, frame.timestampSec, now,
    VideoPipeline.blobKey cfg.jobId frame.sourceIndex⟩

@[simp] lemma frameRef_frameId (cfg : Dispatch) (frame : SampledFrame) (now : ℚ) :
    (cfg.frameRef frame now).frameId = frame.frameId := rfl

end Dispatch

structure Pipeline where
  decoder : Decoder
  thread : Thread
  main : Main
  /-- `none` is the stop sentinel. -/
  queue : List (Option SampledFrame)
  workers : ℕ → PublishWorker
  abort : Bool
  state : RunState

namespace Pipeline

def start (cfg : Dispatch) (sampler : FrameSampler) (prior : Option JobRecord) : Pipeline :=
  ⟨.start cfg.source sampler, .looking, .awaiting, [], fun _ => .getting, false, .initial prior⟩

inductive Event where
  /-- The generator checks the abort flag and grabs a frame. -/
  | advance
  /-- The loop body looks at the item. -/
  | handle
  | enqueue
  | look
  | sourceRaised (exc : String)
  | disconnect
  | decodeDone
  | putStop
  | gathered
  | worker (w : ℕ) (op : PublishWorker.Op)
  deriving DecidableEq, Repr

inductive Output where
  | undecodable (f : DecodeFailure)
  | took (f : SampledFrame)
  | drained (f : SampledFrame)
  | put (key : String) (jpeg : List UInt8) (ttlSec : ℕ)
  | published (ref : FrameRef)
  /-- A confirm is recorded, and if one is due a checkpoint call starts with these arguments. -/
  | confirmed (ref : FrameRef) (snapshot : Option Checkpoint)
  | gaveUp (f : SampledFrame) (exc : String)
  /-- A checkpoint call takes effect. -/
  | checkpoint (c : Checkpoint)
  | checkpointRaised (exc : String)
  | sourceRaised (exc : String)
  | disconnected
  deriving DecidableEq, Repr

/-- One step of `_publish_worker`. -/
def workerStep (cfg : Dispatch) (p : Pipeline) (w : ℕ) :
    PublishWorker.Op → Option (Pipeline × List Output)
  | .take =>
    match p.workers w, p.queue with
    | .getting, none :: q =>
      some ({ p with queue := q, workers := Function.update p.workers w .done }, [])
    | .getting, some f :: q =>
      if p.state.error = none then
        some ({ p with queue := q, workers := Function.update p.workers w (.storing f) }, [.took f])
      else some ({ p with queue := q }, [.drained f])
    | _, _ => none
  | .stored now =>
    match p.workers w with
    | .storing f =>
      some ({ p with
        workers := Function.update p.workers w (.publishing f (cfg.frameRef f now)) },
        [.put (blobKey cfg.jobId f.sourceIndex) f.jpeg cfg.settings.frameBlobTtlSec])
    | _ => none
  | .published =>
    match p.workers w with
    | .publishing f ref =>
      some ({ p with workers := Function.update p.workers w (.confirming f ref) },
        [.published ref])
    | _ => none
  | .confirmed =>
    match p.workers w with
    | .confirming f ref =>
      match (p.state.recordConfirmed f).takeCheckpointDue cfg.settings.checkpointEvery with
      | (true, s) =>
        some ({ p with
          state := s, workers := Function.update p.workers w (.checkpointing s.progress) },
          [.confirmed ref (some s.progress)])
      | (false, s) =>
        some ({ p with state := s, workers := Function.update p.workers w .getting },
          [.confirmed ref none])
    | _ => none
  | .checkpointWritten =>
    match p.workers w with
    | .checkpointing c =>
      some ({ p with workers := Function.update p.workers w .checkpointed }, [.checkpoint c])
    | _ => none
  | .checkpointReturned =>
    match p.workers w with
    | .checkpointed =>
      some ({ p with workers := Function.update p.workers w .getting }, [])
    | _ => none
  | .raised exc =>
    let p' := { p with
      state := p.state.recordError exc
      abort := true
      workers := Function.update p.workers w .getting }
    match p.workers w with
    | .storing f | .publishing f _ | .confirming f _ => some (p', [.gaveUp f exc])
    | .checkpointing _ | .checkpointed => some (p', [.checkpointRaised exc])
    | _ => none

/-- One step of the decode thread, of the task that awaits it or of a publisher task. -/
def step (cfg : Dispatch) (p : Pipeline) : Event → Option (Pipeline × List Output)
  | .advance =>
    match p.thread with
    | .looking =>
      if p.abort then some ({ p with thread := .ended }, [])
      else
        match p.decoder.grab cfg.source with
        | none => some ({ p with thread := .ended }, [])
        | some (none, d) => some ({ p with decoder := d }, [])
        | some (some it, d) => some ({ p with decoder := d, thread := .yielding it }, [])
    | _ => none
  | .handle =>
    match p.thread with
    | .yielding (.failure f) =>
      some ({ p with thread := .looking, state := p.state.countFailed }, [.undecodable f])
    | .yielding (.frame f) => some ({ p with thread := .putting f }, [])
    | _ => none
  | .enqueue =>
    match p.thread with
    | .putting f =>
      if p.queue.length < cfg.settings.analyzerQueueSize then
        some ({ p with queue := p.queue ++ [some f], thread := .put }, [])
      else none
    | _ => none
  | .look =>
    match p.thread with
    | .put => some ({ p with thread := if p.abort then .ended else .looking }, [])
    | _ => none
  | .sourceRaised exc =>
    match p.thread with
    | .looking => some ({ p with thread := .raised exc }, [.sourceRaised exc])
    | _ => none
  | .disconnect =>
    match p.main with
    | .awaiting => some ({ p with abort := true }, [.disconnected])
    | _ => none
  | .decodeDone =>
    match p.main with
    | .awaiting =>
      if p.thread.isOver then
        some ({ p with main := .stopping cfg.settings.analyzerPublishers }, [])
      else none
    | _ => none
  | .putStop =>
    match p.main with
    | .stopping (n + 1) =>
      if p.queue.length < cfg.settings.analyzerQueueSize then
        some ({ p with queue := p.queue ++ [none], main := .stopping n }, [])
      else none
    | _ => none
  | .gathered =>
    match p.main with
    | .stopping 0 =>
      if ∀ w < cfg.settings.analyzerPublishers, p.workers w = .done then
        some ({ p with main := .finished }, [])
      else none
    | _ => none
  | .worker w op => if w < cfg.settings.analyzerPublishers then p.workerStep cfg w op else none

/-- One call of `run`, as a machine. -/
def machine (cfg : Dispatch) : Machine Pipeline Event Output := ⟨step cfg⟩

/-! ### What a step does -/

/-- The steps of a publisher task: what it does next, and what else changes. -/
inductive WorkerRule (cfg : Dispatch) (p : Pipeline) (w : ℕ) :
    PublishWorker.Op → Pipeline → List Output → Prop where
  | stop (q : List (Option SampledFrame)) (hw : p.workers w = .getting)
      (hq : p.queue = none :: q) :
      WorkerRule cfg p w .take
        { p with queue := q, workers := Function.update p.workers w .done } []
  | drain (f : SampledFrame) (q : List (Option SampledFrame)) (hw : p.workers w = .getting)
      (hq : p.queue = some f :: q) (herr : p.state.error ≠ none) :
      WorkerRule cfg p w .take { p with queue := q } [.drained f]
  | take (f : SampledFrame) (q : List (Option SampledFrame)) (hw : p.workers w = .getting)
      (hq : p.queue = some f :: q) (herr : p.state.error = none) :
      WorkerRule cfg p w .take
        { p with queue := q, workers := Function.update p.workers w (.storing f) } [.took f]
  | stored (f : SampledFrame) (now : ℚ) (hw : p.workers w = .storing f) :
      WorkerRule cfg p w (.stored now)
        { p with workers := Function.update p.workers w (.publishing f (cfg.frameRef f now)) }
        [.put (blobKey cfg.jobId f.sourceIndex) f.jpeg cfg.settings.frameBlobTtlSec]
  | published (f : SampledFrame) (ref : FrameRef) (hw : p.workers w = .publishing f ref) :
      WorkerRule cfg p w .published
        { p with workers := Function.update p.workers w (.confirming f ref) } [.published ref]
  | confirmed (f : SampledFrame) (ref : FrameRef) (hw : p.workers w = .confirming f ref) :
      WorkerRule cfg p w .confirmed
        { p with
          state := ((p.state.recordConfirmed f).takeCheckpointDue cfg.settings.checkpointEvery).2
          workers := Function.update p.workers w .getting } [.confirmed ref none]
  | snapshot (f : SampledFrame) (ref : FrameRef) (hw : p.workers w = .confirming f ref) :
      WorkerRule cfg p w .confirmed
        { p with
          state := ((p.state.recordConfirmed f).takeCheckpointDue cfg.settings.checkpointEvery).2
          workers :=
            Function.update p.workers w (.checkpointing (p.state.recordConfirmed f).progress) }
        [.confirmed ref (some (p.state.recordConfirmed f).progress)]
  | checkpointWritten (c : Checkpoint) (hw : p.workers w = .checkpointing c) :
      WorkerRule cfg p w .checkpointWritten
        { p with workers := Function.update p.workers w .checkpointed } [.checkpoint c]
  | checkpointReturned (hw : p.workers w = .checkpointed) :
      WorkerRule cfg p w .checkpointReturned
        { p with workers := Function.update p.workers w .getting } []
  | gaveUp (f : SampledFrame) (exc : String) (hw : (p.workers w).holding = [f]) :
      WorkerRule cfg p w (.raised exc)
        { p with
          state := p.state.recordError exc
          abort := true
          workers := Function.update p.workers w .getting } [.gaveUp f exc]
  | checkpointRaised (exc : String) (hw : (p.workers w).inCheckpoint = true) :
      WorkerRule cfg p w (.raised exc)
        { p with
          state := p.state.recordError exc
          abort := true
          workers := Function.update p.workers w .getting } [.checkpointRaised exc]

/-- The steps of a pipeline. -/
inductive Rule (cfg : Dispatch) (p : Pipeline) : Event → Pipeline → List Output → Prop where
  | aborted (ht : p.thread = .looking) (ha : p.abort = true) :
      Rule cfg p .advance { p with thread := .ended } []
  | exhausted (ht : p.thread = .looking) (ha : p.abort ≠ true)
      (hg : p.decoder.grab cfg.source = none) :
      Rule cfg p .advance { p with thread := .ended } []
  | skip (d : Decoder) (ht : p.thread = .looking) (ha : p.abort ≠ true)
      (hg : p.decoder.grab cfg.source = some (none, d)) :
      Rule cfg p .advance { p with decoder := d } []
  | keep (it : Item) (d : Decoder) (ht : p.thread = .looking) (ha : p.abort ≠ true)
      (hg : p.decoder.grab cfg.source = some (some it, d)) :
      Rule cfg p .advance { p with decoder := d, thread := .yielding it } []
  | failure (f : DecodeFailure) (ht : p.thread = .yielding (.failure f)) :
      Rule cfg p .handle { p with thread := .looking, state := p.state.countFailed }
        [.undecodable f]
  | frame (f : SampledFrame) (ht : p.thread = .yielding (.frame f)) :
      Rule cfg p .handle { p with thread := .putting f } []
  | enqueue (f : SampledFrame) (ht : p.thread = .putting f)
      (hq : p.queue.length < cfg.settings.analyzerQueueSize) :
      Rule cfg p .enqueue { p with queue := p.queue ++ [some f], thread := .put } []
  | look (ht : p.thread = .put) :
      Rule cfg p .look { p with thread := if p.abort then .ended else .looking } []
  | sourceRaised (exc : String) (ht : p.thread = .looking) :
      Rule cfg p (.sourceRaised exc) { p with thread := .raised exc } [.sourceRaised exc]
  | disconnect (hm : p.main = .awaiting) :
      Rule cfg p .disconnect { p with abort := true } [.disconnected]
  | decodeDone (hm : p.main = .awaiting) (ht : p.thread.isOver = true) :
      Rule cfg p .decodeDone { p with main := .stopping cfg.settings.analyzerPublishers } []
  | putStop (n : ℕ) (hm : p.main = .stopping (n + 1))
      (hq : p.queue.length < cfg.settings.analyzerQueueSize) :
      Rule cfg p .putStop { p with queue := p.queue ++ [none], main := .stopping n } []
  | gathered (hm : p.main = .stopping 0)
      (hw : ∀ w < cfg.settings.analyzerPublishers, p.workers w = .done) :
      Rule cfg p .gathered { p with main := .finished } []
  | worker (w : ℕ) (op : PublishWorker.Op) (p' : Pipeline) (out : List Output)
      (hw : w < cfg.settings.analyzerPublishers) (hr : WorkerRule cfg p w op p' out) :
      Rule cfg p (.worker w op) p' out

variable {cfg : Dispatch} {p p' : Pipeline} {e : Event} {out h : List Output} {w : ℕ}

lemma WorkerRule.of_step {op : PublishWorker.Op} (hs : p.workerStep cfg w op = some (p', out)) :
    WorkerRule cfg p w op p' out := by
  cases op with
  | take =>
    simp only [workerStep] at hs
    split at hs
    · next q hw hq =>
      cases hs
      exact .stop q hw hq
    · next f q hw hq =>
      split at hs
      · next herr =>
        cases hs
        exact .take f q hw hq herr
      · next herr =>
        cases hs
        exact .drain f q hw hq herr
    · cases hs
  | stored now =>
    simp only [workerStep] at hs
    split at hs
    · next f hw =>
      cases hs
      exact .stored f now hw
    · cases hs
  | published =>
    simp only [workerStep] at hs
    split at hs
    · next f ref hw =>
      cases hs
      exact .published f ref hw
    · cases hs
  | confirmed =>
    simp only [workerStep] at hs
    split at hs
    · next f ref hw =>
      have hdue :=
        (p.state.recordConfirmed f).takeCheckpointDue_progress cfg.settings.checkpointEvery
      split at hs
      · next s heq =>
        cases hs
        rw [heq] at hdue
        have hrule : WorkerRule cfg p w .confirmed _ _ := .snapshot f ref hw
        rw [heq, ← hdue] at hrule
        exact hrule
      · next s heq =>
        cases hs
        have hrule : WorkerRule cfg p w .confirmed _ _ := .confirmed f ref hw
        rw [heq] at hrule
        exact hrule
    · cases hs
  | checkpointWritten =>
    simp only [workerStep] at hs
    split at hs
    · next c hw =>
      cases hs
      exact .checkpointWritten c hw
    · cases hs
  | checkpointReturned =>
    simp only [workerStep] at hs
    split at hs
    · next hw =>
      cases hs
      exact .checkpointReturned hw
    · cases hs
  | raised exc =>
    simp only [workerStep] at hs
    cases hw : p.workers w <;> rw [hw] at hs <;> cases hs
    case raised.storing.refl => exact .gaveUp _ exc (by rw [hw]; rfl)
    case raised.publishing.refl => exact .gaveUp _ exc (by rw [hw]; rfl)
    case raised.confirming.refl => exact .gaveUp _ exc (by rw [hw]; rfl)
    case raised.checkpointing.refl => exact .checkpointRaised exc (by rw [hw]; rfl)
    case raised.checkpointed.refl => exact .checkpointRaised exc (by rw [hw]; rfl)

lemma Rule.of_step (hs : step cfg p e = some (p', out)) : Rule cfg p e p' out := by
  cases e with
  | advance =>
    simp only [step] at hs
    split at hs
    · next ht =>
      split at hs
      · next ha =>
        cases hs
        exact .aborted ht ha
      · next ha =>
        split at hs
        · next hg =>
          cases hs
          exact .exhausted ht ha hg
        · next d hg =>
          cases hs
          exact .skip d ht ha hg
        · next it d hg =>
          cases hs
          exact .keep it d ht ha hg
    · cases hs
  | handle =>
    simp only [step] at hs
    split at hs
    · next f ht =>
      cases hs
      exact .failure f ht
    · next f ht =>
      cases hs
      exact .frame f ht
    · cases hs
  | enqueue =>
    simp only [step] at hs
    split at hs
    · next f ht =>
      split at hs
      · next hq =>
        cases hs
        exact .enqueue f ht hq
      · cases hs
    · cases hs
  | look =>
    simp only [step] at hs
    split at hs
    · next ht =>
      cases hs
      exact .look ht
    · cases hs
  | sourceRaised exc =>
    simp only [step] at hs
    split at hs
    · next ht =>
      cases hs
      exact .sourceRaised exc ht
    · cases hs
  | disconnect =>
    simp only [step] at hs
    split at hs
    · next hm =>
      cases hs
      exact .disconnect hm
    · cases hs
  | decodeDone =>
    simp only [step] at hs
    split at hs
    · next hm =>
      split at hs
      · next ht =>
        cases hs
        exact .decodeDone hm ht
      · cases hs
    · cases hs
  | putStop =>
    simp only [step] at hs
    split at hs
    · next n hm =>
      split at hs
      · next hq =>
        cases hs
        exact .putStop n hm hq
      · cases hs
    · cases hs
  | gathered =>
    simp only [step] at hs
    split at hs
    · next hm =>
      split at hs
      · next hw =>
        cases hs
        exact .gathered hm hw
      · cases hs
    · cases hs
  | worker w op =>
    simp only [step] at hs
    split at hs
    · next hw => exact .worker w op p' out hw (.of_step hs)
    · cases hs

/-- A step puts out one thing at most. -/
lemma Rule.length_le_one (hr : Rule cfg p e p' out) : out.length ≤ 1 := by
  cases hr with
  | worker w op p' out hw hr => cases hr <;> simp
  | _ => simp

end Pipeline

end VideoPipeline
