import VideoPipeline.Lib.Machine
import VideoPipeline.Detector.Output

/-!
# One detector on one channel

A `DetectorWorker` with its `ResultBatcher`, reading one ordered delivery stream. Deliveries that
the broker has pushed and the handler has not taken yet wait in `prefetched`.
-/

namespace VideoPipeline

open Amqp

structure Replica where
  worker : Worker
  prefetched : List Delivery
  channel : Channel Delivery.tag

namespace Replica

def init : Replica := ⟨{}, [], Channel.opened _⟩

inductive Event where
  | deliver (ref : FrameRef) (redelivered : Bool) (tag : ℕ)
  | take (now : ℚ)
  | work (op : Worker.Op)
  deriving DecidableEq, Repr

def step (cfg : DetectorSettings) (r : Replica) : Event → Option (Replica × List (Out Delivery))
  | .deliver ref redelivered tag =>
    match r.channel.deliver ⟨ref, tag, redelivered⟩ with
    | some c =>
      some ({ r with channel := c, prefetched := r.prefetched ++ [⟨ref, tag, redelivered⟩] }, [])
    | none => none
  | .take now =>
    match r.prefetched with
    | d :: ds =>
      match r.worker.take cfg d now with
      | some (w, acts) =>
        some (⟨w, ds, (perform r.channel acts).1⟩, (perform r.channel acts).2)
      | none => none
    | [] => none
  | .work op =>
    match r.worker.step cfg op with
    | some (w, acts) =>
      some (⟨w, r.prefetched, (perform r.channel acts).1⟩, (perform r.channel acts).2)
    | none => none

/-- A detector on its own, as a machine. -/
def machine (cfg : DetectorSettings) : Machine Replica Event (Out Delivery) := ⟨step cfg⟩

/-- The unsettled deliveries of the channel are those the worker has to settle and, after them,
those it has not taken yet. -/
structure Inv (r : Replica) : Prop where
  wellFormed : r.worker.WellFormed
  unsettled : r.channel.unsettled = r.worker.held ++ r.prefetched

lemma inv_init : init.Inv := ⟨fun f hf => by simp [init] at hf, rfl⟩

/-! ### What a step of a replica does -/

/-- The steps of a replica, with the deliveries each settlement applies to. -/
inductive Rule (cfg : DetectorSettings) (r : Replica) :
    Event → Replica → List (Out Delivery) → Prop where
  | deliver (ref : FrameRef) (redelivered : Bool) (tag : ℕ) (c : Channel Delivery.tag)
      (hc : r.channel.deliver ⟨ref, tag, redelivered⟩ = some c) :
      Rule cfg r (.deliver ref redelivered tag)
        { r with channel := c, prefetched := r.prefetched ++ [⟨ref, tag, redelivered⟩] } []
  | take (now : ℚ) (d : Delivery) (ds : List Delivery) (hp : r.prefetched = d :: ds)
      (hw : r.worker.phase = .idle) :
      Rule cfg r (.take now)
        { r with worker := { r.worker with phase := .loading d }, prefetched := ds }
        [.act (.handed d)]
  /-- The frame is past the latency budget and shed. -/
  | shed (now : ℚ) (d : Delivery) (ds : List Delivery) (hp : r.prefetched = d :: ds)
      (hw : r.worker.phase = .idle) (hage : 0 < cfg.maxFrameAgeSec) :
      Rule cfg r (.take now)
        { r with worker := (r.worker.handle d .stale).1, prefetched := ds }
        [.act (.handed d), .act (.outcome d .stale)]
  /-- The worker goes on without settling anything. -/
  | work (op : Worker.Op) (w : Worker) (acts : List Act) (h : Worker.Rule cfg r.worker op w acts)
      (hq : Worker.Quiet acts) (hheld : w.held = r.worker.held) :
      Rule cfg r (.work op) { r with worker := w } (acts.map .act)
  /-- The delivery in hand is settled. -/
  | settled (d : Delivery) (v : Verdict) (hw : r.worker.phase = .settling d v) :
      Rule cfg r (.work .settled)
        { r with worker := r.worker.released, channel := r.channel.settle (v.call d.tag) }
        [.act (.settle (v.call d.tag)), .settled d v]
  /-- The batch of a flush whose sink call returned is acked. -/
  | batchAcked (reason : Reason) (batch : List Pending)
      (hb : r.worker.batcher.flushing = some ⟨reason, batch, .acking⟩) :
      Rule cfg r (.work (.batcher .settleNext))
        { r with
          worker := r.worker.batchAcked batch
          channel := r.channel.settle (.ack (Batcher.maxTag batch) true) }
        (.act (.settle (.ack (Batcher.maxTag batch) true)) ::
          (batch.map Pending.delivery).map (.settled · .acked))
  /-- The oldest item of a batch whose sink call raised is nacked. -/
  | itemNacked (reason : Reason) (p : Pending) (batch : List Pending)
      (hb : r.worker.batcher.flushing = some ⟨reason, p :: batch, .nacking⟩) :
      Rule cfg r (.work (.batcher .settleNext))
        { r with
          worker := r.worker.itemNacked reason batch
          channel := r.channel.settle (.nack p.delivery.tag true) }
        [.act (.settle (.nack p.delivery.tag true)), .settled p.delivery .requeued]

section Inv

variable {cfg : DetectorSettings} {r r' : Replica} {e : Event} {out : List (Out Delivery)}

/-- A nack of the first delivery takes it off the channel. -/
lemma settle_first {post : List Delivery} {d : Delivery} (hc : r.channel.unsettled = d :: post) :
    r.channel.Valid (.nack d.tag true) ∧ r.channel.settledBy (.nack d.tag true) = [d] ∧
      (r.channel.settle (.nack d.tag true)).unsettled = post := by
  rw [← List.nil_append (d :: post)] at hc
  exact Channel.settle_tag hc (Settle.covers_nack d.tag · true) rfl

/-- The cumulative ack of a batch takes the batch, and nothing else, off the channel. -/
lemma settle_batch {batch : List Pending} {post : List Delivery} (hne : batch ≠ [])
    (hc : r.channel.unsettled = batch.map Pending.delivery ++ post) :
    r.channel.Valid (.ack (Batcher.maxTag batch) true) ∧
      r.channel.settledBy (.ack (Batcher.maxTag batch) true) = batch.map Pending.delivery ∧
      (r.channel.settle (.ack (Batcher.maxTag batch) true)).unsettled = post := by
  obtain ⟨p, hp, hpt⟩ := Batcher.exists_tag_eq_maxTag hne
  refine ⟨?_, Channel.settle_multiple hc ?_ ⟨p.delivery, List.mem_map_of_mem hp, hpt⟩⟩
  · rw [Channel.Valid, hc, ← show p.delivery.tag = _ from hpt]
    exact List.mem_map_of_mem (List.mem_append_left _ (List.mem_map_of_mem hp))
  · intro d hd
    obtain ⟨q, hq, rfl⟩ := List.mem_map.mp hd
    exact Batcher.tag_le_maxTag hq

/-- The batch of a flush in progress is at the front of the channel. -/
lemma Inv.unsettled_flushing (hinv : r.Inv) {f : Flush}
    (hb : r.worker.batcher.flushing = some f) :
    r.channel.unsettled = f.batch.map Pending.delivery ++
      (r.worker.batcher.pending.map Pending.delivery ++ r.worker.phase.current ++
        r.prefetched) := by
  rw [hinv.unsettled, Worker.flushing_held hb]
  simp

/-- Every step of a replica whose channel and worker agree is one of the rules. -/
theorem Rule.of_step (hinv : r.Inv) (h : r.step cfg e = some (r', out)) : Rule cfg r e r' out := by
  cases e with
  | deliver ref redelivered tag =>
    simp only [step] at h
    split at h
    · next c hc => cases h; exact .deliver ref redelivered tag c hc
    · cases h
  | take now =>
    simp only [step] at h
    split at h
    · next d ds hp =>
      split at h
      · next w acts ht =>
        obtain ⟨hw, ⟨rfl, rfl⟩ | ⟨hage, rfl, rfl⟩⟩ := Worker.take_cases ht
        · cases h; exact .take now d ds hp hw
        · cases h; exact .shed now d ds hp hw hage
      · cases h
    · cases h
  | work op =>
    simp only [step] at h
    split at h
    · next w acts hw =>
      have hr := Worker.Rule.of_step hw
      cases h
      rcases hr.quiet_or_settles with ⟨hheld, hq⟩ | ⟨d, v, hp, rfl, rfl, rfl⟩ |
        ⟨reason, batch, hb, rfl, rfl, rfl⟩ | ⟨reason, p, batch, hb, rfl, rfl, rfl⟩
      · rw [perform_quiet hq]
        exact .work op w acts hr hq hheld
      · have hc : r.channel.unsettled = r.worker.buffered ++ d :: r.prefetched := by
          rw [hinv.unsettled, Worker.settling_held hp, List.append_assoc, List.singleton_append]
        obtain ⟨hv, hby, -⟩ := Channel.settle_tag hc (v.covers_call d.tag) (v.tag_call d.tag)
        rw [perform_settle hv, hby, Verdict.verdict_call]
        exact .settled d v hp
      · obtain ⟨hv, hby, -⟩ := settle_batch (hinv.wellFormed _ hb) (hinv.unsettled_flushing hb)
        rw [perform_settle hv, hby]
        exact .batchAcked reason batch hb
      · obtain ⟨hv, hby, -⟩ := settle_first (hinv.unsettled_flushing hb)
        rw [perform_settle hv, hby]
        exact .itemNacked reason p batch hb
    · cases h

/-- Every step keeps the channel and the worker in agreement. -/
theorem Inv.rule (hinv : r.Inv) (h : Rule cfg r e r' out) : r'.Inv := by
  cases h with
  | deliver ref redelivered tag c hc =>
    obtain ⟨-, -, hu⟩ := Channel.deliver_eq_some hc
    refine ⟨hinv.wellFormed, ?_⟩
    rw [hu, hinv.unsettled, List.append_assoc]
  | take now d ds hp hw =>
    refine ⟨hinv.wellFormed, ?_⟩
    rw [hinv.unsettled, hp, Worker.idle_held hw]
    simp [Worker.held, Worker.buffered, Worker.Phase.current]
  | shed now d ds hp hw hage =>
    refine ⟨fun f hf => hinv.wellFormed f (by simpa using hf), ?_⟩
    rw [hinv.unsettled, hp, Worker.idle_held hw, Worker.handle_held, List.append_assoc,
      List.singleton_append]
  | work op w acts hr hq hheld =>
    refine ⟨hr.wellFormed hinv.wellFormed, ?_⟩
    rw [hheld, hinv.unsettled]
  | settled d v hw =>
    have hc : r.channel.unsettled = r.worker.buffered ++ d :: r.prefetched := by
      rw [hinv.unsettled, Worker.settling_held hw, List.append_assoc, List.singleton_append]
    obtain ⟨-, -, hu⟩ := Channel.settle_tag hc (v.covers_call d.tag) (v.tag_call d.tag)
    refine ⟨(Worker.Rule.settled d v hw : Worker.Rule cfg _ _ _ _).wellFormed hinv.wellFormed, ?_⟩
    rw [hu, Worker.released_held]
  | batchAcked reason batch hb =>
    obtain ⟨-, -, hu⟩ := settle_batch (hinv.wellFormed _ hb) (hinv.unsettled_flushing hb)
    refine ⟨(Worker.Rule.batchAcked reason batch hb :
      Worker.Rule cfg _ _ _ _).wellFormed hinv.wellFormed, ?_⟩
    rw [hu, Worker.batchAcked_held]
  | itemNacked reason p batch hb =>
    obtain ⟨-, -, hu⟩ := settle_first (hinv.unsettled_flushing hb)
    refine ⟨(Worker.Rule.itemNacked reason p batch hb :
      Worker.Rule cfg _ _ _ _).wellFormed hinv.wellFormed, ?_⟩
    rw [hu, Worker.itemNacked_held]
    simp

theorem Inv.step (hinv : r.Inv) (h : r.step cfg e = some (r', out)) : r'.Inv :=
  hinv.rule (Rule.of_step hinv h)

end Inv

end Replica

end VideoPipeline
