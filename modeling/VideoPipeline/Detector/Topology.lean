import VideoPipeline.Detector.Fleet
import VideoPipeline.Detector.Partitions

/-!
# Detectors on partition queues

`pipeline_common/adapters/rabbitmq.py`: the publisher routes a reference by its video to one of the
partition queues, every detector subscribes to all of them, and the broker activates one consumer of
each (`x-single-active-consumer`) and another one when that dies.
-/

namespace VideoPipeline

open Amqp

/-! ### Routing -/

/-- `int.from_bytes(digest, "big")`. -/
def fromBytes (digest : List UInt8) : ℕ := digest.foldl (fun n byte => 256 * n + byte.toNat) 0

/-- The partition of a video. `hashlib.sha256` stays a parameter. -/
def partitionFor (sha256 : List UInt8 → List UInt8) (videoId : String) (partitions : ℕ) : ℕ :=
  fromBytes ((sha256 videoId.toUTF8.toList).take 8) % partitions

/-! ### The queues and their consumers -/

/-- A message of a partition queue. The body is `none` when it is not a frame reference. -/
structure QueuedMessage where
  body : Option FrameRef
  redelivered : Bool
  deriving DecidableEq, Repr

/-- What the broker puts back into its queue. -/
def Out.goesBack? {μ : Type*} : Out μ → Option μ
  | .settled x .requeued => some x
  | _                    => none

/-- The message of a delivery, once it is back in the queue. -/
def Arrival.message (a : Arrival) : QueuedMessage := ⟨a.body, true⟩

structure PartitionedFleet where
  queues : ℕ → List QueuedMessage
  /-- The consumer that the broker has activated on a queue. -/
  active : ℕ → Option ℕ
  guard : List String
  replicas : ℕ → PartitionedConsumer

namespace PartitionedFleet

def init : PartitionedFleet := ⟨fun _ => [], fun _ => none, [], fun _ => .init⟩

inductive Event where
  | publish (ref : FrameRef)
  /-- A message that is no frame reference gets into a queue. -/
  | malformed (q : ℕ)
  | activate (q d : ℕ)
  | deliver (q tag : ℕ)
  | replica (d : ℕ) (e : PartitionedConsumer.Event) (pos : ℕ)
  | expire (key : String)
  | crash (d : ℕ)

inductive Output where
  | published (ref : FrameRef)
  | replica (d : ℕ) (o : Out Arrival)
  deriving DecidableEq, Repr

/-- The broker puts a requeued message back at the position it chooses. -/
def requeue (pos : ℕ) (as : List Arrival) (queues : ℕ → List QueuedMessage) :
    ℕ → List QueuedMessage :=
  as.foldr (fun a queues => Function.update queues a.queue
    ((queues a.queue).take pos ++ a.message :: (queues a.queue).drop pos)) queues

/-- The unsettled messages of a consumer, back at the front of a queue. -/
def returnTo (c : PartitionedConsumer) (q : ℕ) (queue : List QueuedMessage) : List QueuedMessage :=
  (c.channel.unsettled.filter (·.queue = q)).map Arrival.message ++ queue

/-- Only the broker delivers. -/
def own : PartitionedConsumer.Event → Bool
  | .deliver _ => false
  | _          => true

/-- The steps of `n` detectors and the broker. A detector that crashes comes back fresh and active
on no queue, and the broker returns what it had not settled to the front of the queues. -/
def step (sha256 : List UInt8 → List UInt8) (cfg : DetectorSettings) (n : ℕ)
    (f : PartitionedFleet) : Event → Option (PartitionedFleet × List Output)
  | .publish ref =>
    let q := partitionFor sha256 ref.videoId cfg.framePartitions
    some ({ f with queues := Function.update f.queues q (f.queues q ++ [⟨some ref, false⟩]) },
      [.published ref])
  | .malformed q =>
    if q < cfg.framePartitions then
      some ({ f with queues := Function.update f.queues q (f.queues q ++ [⟨none, false⟩]) }, [])
    else none
  | .activate q d =>
    if q < cfg.framePartitions ∧ d < n ∧ f.active q = none then
      some ({ f with active := Function.update f.active q (some d) }, [])
    else none
  | .deliver q tag =>
    match f.active q, f.queues q with
    | some d, m :: ms =>
      match (f.replicas d).deliver cfg ⟨q, tag, m.body, m.redelivered⟩ with
      | some c =>
        some ({ f with
          queues := Function.update f.queues q ms
          replicas := Function.update f.replicas d c }, [])
      | none => none
    | _, _ => none
  | .replica d e pos =>
    if d < n ∧ own e then
      match (f.replicas d).step cfg e with
      | some (c, out) =>
        match answer f.guard (out.filterMap Out.act?) with
        | some guard =>
          some (⟨requeue pos (out.filterMap Out.goesBack?) f.queues, f.active, guard,
            Function.update f.replicas d c⟩, out.map (.replica d))
        | none => none
      | none => none
    else none
  | .expire key => some ({ f with guard := f.guard.filter (· ≠ key) }, [])
  | .crash d =>
    if d < n then
      some ({ f with
        queues := fun q => returnTo (f.replicas d) q (f.queues q)
        active := fun q => if f.active q = some d then none else f.active q
        replicas := Function.update f.replicas d .init }, [])
    else none

/-- `n` detectors on partition queues, as a machine. -/
def machine (sha256 : List UInt8 → List UInt8) (cfg : DetectorSettings) (n : ℕ) :
    Machine PartitionedFleet Event Output :=
  ⟨step sha256 cfg n⟩

def Output.act? : Output → Option Act
  | .replica _ (.act a) => some a
  | _                   => none

/-- The acts of all detectors. -/
def acts (h : List Output) : List Act := h.filterMap Output.act?

/-- The results of the sink calls that returned, in the order of the returns. -/
def returned (h : List Output) : List Pending := (acts h).flatMap Act.returned

def Output.published? : Output → Option FrameRef
  | .published ref => some ref
  | _              => none

/-- The frames that were published, in order. -/
def published (h : List Output) : List FrameRef := h.filterMap Output.published?

end PartitionedFleet

/-! ### What a step of a consumer does -/

/-- What a pump is at with a message it has read. -/
def Pump.parse (a : Arrival) : Pump :=
  match a.body with
  | some ref => .putting a ref
  | none     => .nacking a

namespace PartitionedConsumer

/-- The steps of a consumer on its own. -/
inductive Rule (cfg : DetectorSettings) (c : PartitionedConsumer) :
    Event → PartitionedConsumer → List (Out Arrival) → Prop where
  | read (q : ℕ) (a : Arrival) (as : List Arrival) (hp : c.pumps q = .reading)
      (hi : c.iterators q = a :: as) :
      Rule cfg c (.read q)
        { c with
          pumps := Function.update c.pumps q (Pump.parse a)
          iterators := Function.update c.iterators q as } []
  | nackMalformed (q : ℕ) (a : Arrival) (hp : c.pumps q = .nacking a) :
      Rule cfg c (.nackMalformed q)
        { c with
          channel := c.channel.settle (.nack a.tag false)
          pumps := Function.update c.pumps q .reading }
        (perform c.channel [.settle (.nack a.tag false)]).2
  | put (q : ℕ) (a : Arrival) (ref : FrameRef) (hp : c.pumps q = .putting a ref) :
      Rule cfg c (.put q)
        { c with
          pumps := Function.update c.pumps q .reading
          inbox := c.inbox ++ [⟨ref, a.tag, a.redelivered⟩] } []
  | take (now : ℚ) (d : Delivery) (ds : List Delivery) (w : Worker) (acts : List Act)
      (hi : c.inbox = d :: ds) (hw : c.worker.take cfg d now = some (w, acts)) :
      Rule cfg c (.take now) { c with worker := w, inbox := ds } (acts.map .act)
  | work (op : Worker.Op) (w : Worker) (acts : List Act)
      (hw : c.worker.step cfg op = some (w, acts)) :
      Rule cfg c (.work op) { c with worker := w, channel := (perform c.channel acts).1 }
        (perform c.channel acts).2

variable {cfg : DetectorSettings} {c c' : PartitionedConsumer} {e : Event} {q : ℕ}
  {out : List (Out Arrival)}

/-- Every step of a consumer but a delivery is one of the rules. -/
theorem Rule.of_step (hown : PartitionedFleet.own e = true) (hs : c.step cfg e = some (c', out)) :
    Rule cfg c e c' out := by
  cases e with
  | deliver a => cases hown
  | read q =>
    obtain ⟨c₁, hc, heq⟩ := Option.map_eq_some_iff.mp hs
    cases heq
    simp only [PartitionedConsumer.read] at hc
    split at hc
    · next a as hp hi => cases hc; exact .read q a as hp hi
    · cases hc
  | nackMalformed q =>
    simp only [step, PartitionedConsumer.nackMalformed] at hs
    split at hs
    · next a hp => cases hs; exact .nackMalformed q a hp
    · cases hs
  | put q =>
    obtain ⟨c₁, hc, heq⟩ := Option.map_eq_some_iff.mp hs
    cases heq
    simp only [PartitionedConsumer.put] at hc
    split at hc
    · next a ref hp =>
      split at hc
      · cases hc; exact .put q a ref hp
      · cases hc
    · cases hc
  | take now =>
    simp only [step] at hs
    split at hs
    · next d ds hi =>
      split at hs
      · next w acts hw =>
        rw [perform_quiet (Worker.take_effect hw).2.2] at hs
        cases hs
        exact .take now d ds w acts hi hw
      · cases hs
    · cases hs
  | work op =>
    simp only [step] at hs
    split at hs
    · next w acts hw => cases hs; exact .work op w acts hw
    · cases hs

/-- A pump that goes back to reading leaves what its iterator holds. -/
lemma waiting_release (c : PartitionedConsumer) (ch : Channel Arrival.tag) (inbox : List Delivery)
    (q q' : ℕ) :
    waiting { c with
      channel := ch, pumps := Function.update c.pumps q .reading, inbox := inbox } q' =
      if q' = q then c.iterators q else c.waiting q' := by
  split
  · next hq =>
    subst hq
    simp [waiting, Pump.held]
  · next hq => simp [waiting, hq]

end PartitionedConsumer

namespace PartitionedFleet

/-- The steps of a partitioned fleet. -/
inductive Rule (sha256 : List UInt8 → List UInt8) (cfg : DetectorSettings) (n : ℕ)
    (f : PartitionedFleet) : Event → PartitionedFleet → List Output → Prop where
  | publish (ref : FrameRef) (q : ℕ)
      (hq : q = partitionFor sha256 ref.videoId cfg.framePartitions) :
      Rule sha256 cfg n f (.publish ref)
        { f with queues := Function.update f.queues q (f.queues q ++ [⟨some ref, false⟩]) }
        [.published ref]
  | malformed (q : ℕ) :
      Rule sha256 cfg n f (.malformed q)
        { f with queues := Function.update f.queues q (f.queues q ++ [⟨none, false⟩]) } []
  | activate (q d : ℕ) (hd : d < n) (hnone : f.active q = none) :
      Rule sha256 cfg n f (.activate q d)
        { f with active := Function.update f.active q (some d) } []
  | deliver (q tag d : ℕ) (m : QueuedMessage) (ms : List QueuedMessage) (ch : Channel Arrival.tag)
      (ha : f.active q = some d) (hq : f.queues q = m :: ms)
      (hc : (f.replicas d).channel.deliver ⟨q, tag, m.body, m.redelivered⟩ = some ch) :
      Rule sha256 cfg n f (.deliver q tag)
        { f with
          queues := Function.update f.queues q ms
          replicas := Function.update f.replicas d { f.replicas d with
            channel := ch
            iterators := Function.update (f.replicas d).iterators q
              ((f.replicas d).iterators q ++ [⟨q, tag, m.body, m.redelivered⟩]) } } []
  | replica (d : ℕ) (e : PartitionedConsumer.Event) (pos : ℕ) (c : PartitionedConsumer)
      (out : List (Out Arrival)) (guard : List String) (hd : d < n)
      (hc : PartitionedConsumer.Rule cfg (f.replicas d) e c out)
      (hg : answer f.guard (out.filterMap Out.act?) = some guard) :
      Rule sha256 cfg n f (.replica d e pos)
        ⟨requeue pos (out.filterMap Out.goesBack?) f.queues, f.active, guard,
          Function.update f.replicas d c⟩ (out.map (.replica d))
  | expire (key : String) :
      Rule sha256 cfg n f (.expire key) { f with guard := f.guard.filter (· ≠ key) } []
  | crash (d : ℕ) (hd : d < n) :
      Rule sha256 cfg n f (.crash d)
        { f with
          queues := fun q => returnTo (f.replicas d) q (f.queues q)
          active := fun q => if f.active q = some d then none else f.active q
          replicas := Function.update f.replicas d .init } []

variable {sha256 : List UInt8 → List UInt8} {cfg : DetectorSettings} {n : ℕ}
  {f f' : PartitionedFleet} {e : Event} {out h : List Output}

/-- Every step of a partitioned fleet is one of the rules. -/
theorem Rule.of_step (hs : f.step sha256 cfg n e = some (f', out)) :
    Rule sha256 cfg n f e f' out := by
  cases e with
  | publish ref => cases hs; exact .publish ref _ rfl
  | malformed q =>
    simp only [step] at hs
    split at hs
    · cases hs; exact .malformed q
    · cases hs
  | activate q d =>
    simp only [step] at hs
    split at hs
    · next hq => cases hs; exact .activate q d hq.2.1 hq.2.2
    · cases hs
  | deliver q tag =>
    simp only [step] at hs
    split at hs
    · next d m ms ha hq =>
      split at hs
      · next c hc =>
        cases hs
        simp only [PartitionedConsumer.deliver] at hc
        split at hc
        · split at hc
          · next ch hch => cases hc; exact .deliver q tag d m ms ch ha hq hch
          · cases hc
        · cases hc
      · cases hs
    · cases hs
  | replica d e pos =>
    simp only [step] at hs
    split at hs
    · next hd =>
      split at hs
      · next c o hc =>
        split at hs
        · next guard hg =>
          cases hs
          exact .replica d e pos c o guard hd.1 (.of_step hd.2 hc) hg
        · cases hs
      · cases hs
    · cases hs
  | expire key => cases hs; exact .expire key
  | crash d =>
    simp only [step] at hs
    split at hs
    · next hd => cases hs; exact .crash d hd
    · cases hs

@[simp] lemma returned_append (h₁ h₂ : List Output) :
    returned (h₁ ++ h₂) = returned h₁ ++ returned h₂ := by
  simp [returned, acts]

@[simp] lemma published_append (h₁ h₂ : List Output) :
    published (h₁ ++ h₂) = published h₁ ++ published h₂ :=
  List.filterMap_append

end PartitionedFleet

end VideoPipeline
