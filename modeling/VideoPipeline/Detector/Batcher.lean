import VideoPipeline.Lib.Channel
import VideoPipeline.Common.Messages
import VideoPipeline.Common.Settings
import VideoPipeline.Common.Identity

/-!
# Batching detection results

`ResultBatcher` of `stream_detector/batching.py`. The lock is held over a suspension point only
while a flush is in progress, so the batcher is locked exactly when `flushing` is set. Every
function below runs without suspension; what happens between two of them may interleave with
other tasks.
-/

namespace VideoPipeline

open Amqp

structure BoundingBox where
  x : ℚ
  y : ℚ
  w : ℚ
  h : ℚ
  deriving DecidableEq, Repr

structure RespObject where
  faces : List BoundingBox
  videoId : String
  frameId : ℤ
  deriving DecidableEq, Repr

/-- One message handed to a consumer, still awaiting settlement. -/
structure Delivery where
  ref : FrameRef
  tag : ℕ
  redelivered : Bool
  deriving DecidableEq, Repr

structure Pending where
  result : RespObject
  delivery : Delivery
  deriving DecidableEq, Repr

/-- How `FrameProcessor.process` ends: with a result or with one of its exceptions. -/
inductive Outcome where
  | result (r : RespObject)
  | duplicate
  | stale
  | permanent
  | transient
  | unexpected
  deriving DecidableEq, Repr

/-- How `DedupGuard.claim` ends. `failedOpen` is the Redis guard answering `True` because of a
`RedisError`, without having recorded the claim. The set-if-absent and its reply are one step here:
a claim that is recorded while its reply gets lost is not among these. -/
inductive ClaimReply where
  | won
  | lost
  | failedOpen
  | raised
  deriving DecidableEq, Repr

/-- What a detector does that others can observe. -/
inductive Act where
  | handed (d : Delivery)
  | claim (key : String) (ttlSec : ℕ) (reply : ClaimReply)
  | outcome (d : Delivery) (o : Outcome)
  | sinkCalled (batch : List Pending)
  | sinkReturned (batch : List Pending)
  | sinkRaised (batch : List Pending)
  | settle (s : Settle)
  | counted (jobId : String)
  deriving DecidableEq, Repr

/-- What triggered a flush. -/
inductive Reason where
  | size
  | age
  | explicit
  deriving DecidableEq, Repr

/-- Where a flush is suspended: in the sink call, in the batch ack after it returned, or in the
nacks after it raised. -/
inductive Stage where
  | sinking
  | acking
  | nacking
  deriving DecidableEq, Repr

/-- A flush in progress with the part of its batch that is not settled yet. -/
structure Flush where
  reason : Reason
  batch : List Pending
  stage : Stage
  deriving DecidableEq, Repr

structure Batcher where
  pending : List Pending := []
  oldestAt : ℚ := 0
  flushing : Option Flush := none
  batchesFlushed : ℕ := 0
  resultsFlushed : ℕ := 0
  deriving DecidableEq, Repr

namespace Batcher

def locked (b : Batcher) : Bool := b.flushing.isSome

/-- The tag of `max(batch, key=lambda item: item.delivery.tag)`. -/
def maxTag (batch : List Pending) : ℕ :=
  (batch.map fun p => p.delivery.tag).foldr max 0

/-- `_flush_locked` up to the sink call: the buffer is swapped out. -/
def flushLocked (b : Batcher) (reason : Reason) : Batcher × List Act :=
  match b.pending with
  | []         => (b, [])
  | p :: batch =>
    ({ b with pending := [], flushing := some ⟨reason, p :: batch, .sinking⟩ },
      [.sinkCalled (p :: batch)])

/-- `add`, once it has the lock. -/
def add (cfg : DetectorSettings) (b : Batcher) (p : Pending) (now : ℚ) :
    Option (Batcher × List Act) :=
  if b.locked then none
  else
    let b' := { b with
      oldestAt := if b.pending.isEmpty then now else b.oldestAt
      pending := b.pending ++ [p] }
    some (if cfg.batchMaxSize ≤ b'.pending.length then b'.flushLocked .size else (b', []))

/-- `_age_watchdog` after a sleep, once it has the lock. -/
def ageWatchdog (cfg : DetectorSettings) (b : Batcher) (now : ℚ) : Option (Batcher × List Act) :=
  if b.locked then none
  else
    some (if b.pending ≠ [] ∧ (cfg.batchMaxLatencyMs : ℚ) / 1000 ≤ now - b.oldestAt
      then b.flushLocked .age else (b, []))

/-- `flush`, once it has the lock. -/
def flush (b : Batcher) : Option (Batcher × List Act) :=
  if b.locked then none else some (b.flushLocked .explicit)

/-- The sink call in the executor returns. -/
def sinkReturned (b : Batcher) : Option (Batcher × List Act) :=
  match b.flushing with
  | some ⟨reason, batch, .sinking⟩ =>
    some ({ b with flushing := some ⟨reason, batch, .acking⟩ }, [.sinkReturned batch])
  | _ => none

/-- The sink call in the executor raises. These are the exceptions that come back through the future
and reach the `except Exception` around it. -/
def sinkRaised (b : Batcher) : Option (Batcher × List Act) :=
  match b.flushing with
  | some ⟨reason, batch, .sinking⟩ =>
    some ({ b with flushing := some ⟨reason, batch, .nacking⟩ }, [.sinkRaised batch])
  | _ => none

/-- The next settlement of a flush: one cumulative ack for the whole batch after the sink
returned, one nack for each item of it after the sink raised. The last one ends the flush. -/
def settleNext (b : Batcher) : Option (Batcher × List Act) :=
  match b.flushing with
  | some ⟨_, batch, .acking⟩ =>
    some ({ b with
        flushing := none
        batchesFlushed := b.batchesFlushed + 1
        resultsFlushed := b.resultsFlushed + batch.length },
      [.settle (.ack (maxTag batch) true)])
  | some ⟨reason, p :: batch, .nacking⟩ =>
    some ({ b with flushing := if batch.isEmpty then none else some ⟨reason, batch, .nacking⟩ },
      [.settle (.nack p.delivery.tag true)])
  | _ => none

/-- What the tasks other than the handler do with the batcher, and how the calls a flush makes
end. -/
inductive Event where
  | ageWatchdog (now : ℚ)
  | flush
  | sinkReturned
  | sinkRaised
  | settleNext
  deriving DecidableEq, Repr

def step (cfg : DetectorSettings) (b : Batcher) : Event → Option (Batcher × List Act)
  | .ageWatchdog now => b.ageWatchdog cfg now
  | .flush           => b.flush
  | .sinkReturned    => b.sinkReturned
  | .sinkRaised      => b.sinkRaised
  | .settleNext      => b.settleNext

/-- The part of the batch of a flush in progress that is not settled yet. -/
def inFlush (b : Batcher) : List Pending :=
  match b.flushing with
  | some f => f.batch
  | none   => []

/-- The items whose deliveries the batcher has to settle, oldest first. -/
def buffered (b : Batcher) : List Pending := b.inFlush ++ b.pending

@[simp] lemma inFlush_none {b : Batcher} (h : b.flushing = none) : b.inFlush = [] := by
  simp [inFlush, h]

@[simp] lemma inFlush_some {b : Batcher} {f : Flush} (h : b.flushing = some f) :
    b.inFlush = f.batch := by
  simp [inFlush, h]

lemma locked_eq_false {b : Batcher} : b.locked = false ↔ b.flushing = none := by
  simp [locked]

/-- No tag of a batch is above `maxTag`. -/
lemma tag_le_maxTag {batch : List Pending} {p : Pending} (hp : p ∈ batch) :
    p.delivery.tag ≤ maxTag batch := by
  induction batch with
  | nil => simp at hp
  | cons q batch ih =>
    simp only [maxTag, List.map_cons, List.foldr_cons]
    rcases List.mem_cons.mp hp with rfl | hp
    · exact le_max_left _ _
    · exact (ih hp).trans (le_max_right _ _)

/-- `maxTag` is the tag of an item of the batch. -/
lemma exists_tag_eq_maxTag {batch : List Pending} (h : batch ≠ []) :
    ∃ p ∈ batch, p.delivery.tag = maxTag batch := by
  induction batch with
  | nil => exact absurd rfl h
  | cons q batch ih =>
    simp only [maxTag, List.map_cons, List.foldr_cons]
    cases batch with
    | nil => exact ⟨q, by simp, by simp⟩
    | cons q' batch =>
      obtain ⟨p, hp, hpt⟩ := ih (by simp)
      rcases max_choice q.delivery.tag (maxTag (q' :: batch)) with hm | hm
      · exact ⟨q, by simp, hm.symm⟩
      · exact ⟨p, List.mem_cons_of_mem _ hp, hpt.trans hm.symm⟩

/-- What a flush that gets the lock does: nothing on an empty buffer, else it takes the whole
buffer to the sink. -/
lemma flushLocked_cases (b : Batcher) (reason : Reason) :
    (b.pending = [] ∧ b.flushLocked reason = (b, [])) ∨
    (b.pending ≠ [] ∧ b.flushLocked reason =
      ({ b with pending := [], flushing := some ⟨reason, b.pending, .sinking⟩ },
        [.sinkCalled b.pending])) := by
  unfold flushLocked
  cases h : b.pending with
  | nil => exact .inl ⟨rfl, rfl⟩
  | cons p batch => exact .inr ⟨by simp, rfl⟩

/-- What `add` does under the lock: the item joins the buffer, which goes to the sink when it is
full. -/
lemma add_spec {cfg : DetectorSettings} {b b' : Batcher} {p : Pending} {now : ℚ}
    {acts : List Act} (h : b.add cfg p now = some (b', acts)) :
    b.flushing = none ∧
      ((b.pending.length + 1 < cfg.batchMaxSize ∧
        b' = { b with
          oldestAt := if b.pending.isEmpty then now else b.oldestAt
          pending := b.pending ++ [p] } ∧
        acts = []) ∨
      (cfg.batchMaxSize ≤ b.pending.length + 1 ∧
        b' = { b with
          oldestAt := if b.pending.isEmpty then now else b.oldestAt
          pending := []
          flushing := some ⟨.size, b.pending ++ [p], .sinking⟩ } ∧
        acts = [.sinkCalled (b.pending ++ [p])])) := by
  simp only [add] at h
  split at h
  · cases h
  · next hl =>
    refine ⟨locked_eq_false.mp (Bool.eq_false_of_not_eq_true hl), ?_⟩
    have h := Option.some.inj h
    split at h
    · next hfull =>
      rw [List.length_append, List.length_singleton] at hfull
      rcases flushLocked_cases { b with
        oldestAt := if b.pending.isEmpty then now else b.oldestAt
        pending := b.pending ++ [p] } .size with ⟨hnil, -⟩ | ⟨-, heq⟩
      · simp at hnil
      · rw [heq, Prod.mk.injEq] at h
        exact .inr ⟨hfull, h.1.symm, h.2.symm⟩
    · next hfree =>
      rw [List.length_append, List.length_singleton, not_le] at hfree
      rw [Prod.mk.injEq] at h
      exact .inl ⟨hfree, h.1.symm, h.2.symm⟩

/-- The item joins the buffer, which stays or goes to the sink. -/
lemma add_cases {cfg : DetectorSettings} {b b' : Batcher} {p : Pending} {now : ℚ}
    {acts : List Act} (h : b.add cfg p now = some (b', acts)) :
    b.flushing = none ∧ ∃ t,
      (b' = { b with oldestAt := t, pending := b.pending ++ [p] } ∧ acts = []) ∨
      (b' = { b with
          oldestAt := t
          pending := []
          flushing := some ⟨.size, b.pending ++ [p], .sinking⟩ } ∧
        acts = [.sinkCalled (b.pending ++ [p])]) := by
  obtain ⟨hb, hstay | hflush⟩ := add_spec h
  · exact ⟨hb, _, .inl hstay.2⟩
  · exact ⟨hb, _, .inr hflush.2⟩

/-- The event is a timer or a call from outside, which may find nothing to do. -/
def Event.isTick : Event → Bool
  | .ageWatchdog _ | .flush => true
  | _ => false

/-- The steps of a batcher. -/
inductive Rule (b : Batcher) : Event → Batcher → List Act → Prop where
  | nothing {e : Event} (he : e.isTick = true) (hb : b.flushing = none) : Rule b e b []
  | flushed {e : Event} (reason : Reason) (he : e.isTick = true) (hb : b.flushing = none)
      (hp : b.pending ≠ []) :
      Rule b e { b with pending := [], flushing := some ⟨reason, b.pending, .sinking⟩ }
        [.sinkCalled b.pending]
  | sinkReturned (reason : Reason) (batch : List Pending)
      (hb : b.flushing = some ⟨reason, batch, .sinking⟩) :
      Rule b .sinkReturned { b with flushing := some ⟨reason, batch, .acking⟩ }
        [.sinkReturned batch]
  | sinkRaised (reason : Reason) (batch : List Pending)
      (hb : b.flushing = some ⟨reason, batch, .sinking⟩) :
      Rule b .sinkRaised { b with flushing := some ⟨reason, batch, .nacking⟩ } [.sinkRaised batch]
  | batchAcked (reason : Reason) (batch : List Pending)
      (hb : b.flushing = some ⟨reason, batch, .acking⟩) :
      Rule b .settleNext
        { b with
          flushing := none
          batchesFlushed := b.batchesFlushed + 1
          resultsFlushed := b.resultsFlushed + batch.length }
        [.settle (.ack (maxTag batch) true)]
  | itemNacked (reason : Reason) (p : Pending) (batch : List Pending)
      (hb : b.flushing = some ⟨reason, p :: batch, .nacking⟩) :
      Rule b .settleNext
        { b with flushing := if batch.isEmpty then none else some ⟨reason, batch, .nacking⟩ }
        [.settle (.nack p.delivery.tag true)]

variable {b b' : Batcher} {e : Event} {acts : List Act}

/-- A flush that gets the lock finds the buffer empty or takes it to the sink. -/
lemma Rule.of_flushLocked {reason : Reason} (he : e.isTick = true) (hb : b.flushing = none)
    (h : b.flushLocked reason = (b', acts)) : Rule b e b' acts := by
  rcases b.flushLocked_cases reason with ⟨-, heq⟩ | ⟨hp, heq⟩
  · rw [heq, Prod.mk.injEq] at h
    obtain ⟨rfl, rfl⟩ := h
    exact .nothing he hb
  · rw [heq, Prod.mk.injEq] at h
    obtain ⟨rfl, rfl⟩ := h
    exact .flushed reason he hb hp

/-- Every step of a batcher is one of the rules. -/
theorem Rule.of_step {cfg : DetectorSettings} (h : b.step cfg e = some (b', acts)) :
    Rule b e b' acts := by
  cases e with
  | ageWatchdog now =>
    simp only [step, ageWatchdog] at h
    split at h
    · cases h
    · next hl =>
      have hb := locked_eq_false.mp (Bool.eq_false_of_not_eq_true hl)
      split at h
      · exact .of_flushLocked rfl hb (Option.some.inj h)
      · cases h
        exact .nothing rfl hb
  | flush =>
    simp only [step, flush] at h
    split at h
    · cases h
    · next hl =>
      exact .of_flushLocked rfl (locked_eq_false.mp (Bool.eq_false_of_not_eq_true hl))
        (Option.some.inj h)
  | sinkReturned =>
    simp only [step, Batcher.sinkReturned] at h
    split at h
    · next hb =>
      cases h
      exact .sinkReturned _ _ hb
    · cases h
  | sinkRaised =>
    simp only [step, Batcher.sinkRaised] at h
    split at h
    · next hb =>
      cases h
      exact .sinkRaised _ _ hb
    · cases h
  | settleNext =>
    simp only [step, settleNext] at h
    split at h
    · next hb =>
      cases h
      exact .batchAcked _ _ hb
    · next hb =>
      cases h
      exact .itemNacked _ _ _ hb
    · cases h

end Batcher

end VideoPipeline
