import VideoPipeline.Detector.Replica

/-!
# Every delivery is settled once

A detector on its own channel, over one ordered delivery stream in which every delivery gets a
larger tag than those before. `Worker.Evidence` says which outcomes the state of the worker is the
consequence of, `Replica.Ledger` accounts for every delivery handed to the handler.
-/

namespace VideoPipeline

open Amqp

namespace Worker

/-- The state of the worker is backed by acts that have happened: a delivery in hand is acked for
an outcome that asks for it, results come out of `process`, and a batch is acked after its sink
call returned. -/
structure Evidence (known : Act → Prop) (w : Worker) : Prop where
  acked : ∀ d, w.phase = .settling d .acked →
    known (.outcome d .duplicate) ∨ known (.outcome d .stale)
  adding : ∀ d r, w.phase = .adding d r → known (.outcome d (.result r))
  buffered : ∀ p ∈ w.batcher.buffered, known (.outcome p.delivery (.result p.result))
  returned : ∀ reason batch, w.batcher.flushing = some ⟨reason, batch, .acking⟩ →
    known (.sinkReturned batch)

variable {cfg : DetectorSettings} {w w' : Worker} {op : Op} {acts : List Act}
  {known known' : Act → Prop}

/-- A worker that has just started needs no evidence. -/
lemma Evidence.init (known : Act → Prop) : Evidence known {} :=
  ⟨fun _ hd => (by cases hd), fun _ _ hd => (by cases hd), fun _ hp => (by cases hp),
    fun _ _ hb => (by cases hb)⟩

lemma Evidence.mono (hk : ∀ a, known a → known' a) (hw : w.Evidence known) :
    w.Evidence known' := by
  refine ⟨fun d hd => ?_, fun d r hd => hk _ (hw.adding d r hd),
    fun p hp => hk _ (hw.buffered p hp), fun reason batch hb => hk _ (hw.returned reason batch hb)⟩
  rcases hw.acked d hd with h | h
  · exact .inl (hk _ h)
  · exact .inr (hk _ h)

lemma handle_settling_acked {d d' : Delivery} {o : Outcome}
    (h : (w.handle d o).1.phase = .settling d' .acked) :
    d' = d ∧ (o = .duplicate ∨ o = .stale) := by
  cases o with
  | transient =>
    simp only [handle] at h
    split at h <;> cases h
  | _ => simp_all [handle]

lemma handle_adding {d d' : Delivery} {o : Outcome} {r : RespObject}
    (h : (w.handle d o).1.phase = .adding d' r) : d' = d ∧ o = .result r := by
  cases o with
  | transient =>
    simp only [handle] at h
    split at h <;> cases h
  | _ => simp_all [handle]

lemma afterFlush_phase (w : Worker) :
    w.afterFlush.phase = w.phase ∨ w.afterFlush.phase.current = [] := by
  unfold afterFlush
  split
  · split
    · exact .inl rfl
    · exact .inr rfl
  · exact .inl rfl

/-- The handler stays where it is or moves on to a phase without a delivery in hand, while the
batcher keeps part of what it has. -/
lemma Evidence.advance (hw : w.Evidence known)
    (hphase : w'.phase = w.phase ∨ w'.phase.current = [])
    (hbuf : ∀ p ∈ w'.batcher.buffered, p ∈ w.batcher.buffered)
    (hret : ∀ reason batch, w'.batcher.flushing = some ⟨reason, batch, .acking⟩ →
      known (.sinkReturned batch)) : w'.Evidence known := by
  refine ⟨fun d hd => ?_, fun d r hd => ?_, fun p hp => hw.buffered p (hbuf p hp), hret⟩
  · rcases hphase with h | h
    · exact hw.acked d (h ▸ hd)
    · simp [hd, Phase.current] at h
  · rcases hphase with h | h
    · exact hw.adding d r (h ▸ hd)
    · simp [hd, Phase.current] at h

/-- `process` has ended with an outcome. -/
lemma Evidence.handle (hw : w.Evidence known) (d : Delivery) (o : Outcome)
    (ho : known (.outcome d o)) : (w.handle d o).1.Evidence known := by
  refine ⟨fun d' hd => ?_, fun d' r hd => ?_, ?_, ?_⟩
  · obtain ⟨rfl, rfl | rfl⟩ := handle_settling_acked hd
    · exact .inl ho
    · exact .inr ho
  · obtain ⟨rfl, rfl⟩ := handle_adding hd
    exact ho
  · rw [handle_batcher]
    exact hw.buffered
  · rw [handle_batcher]
    exact hw.returned

/-- Every step keeps the state backed, also by the acts of the step itself. -/
theorem Evidence.rule (hw : w.Evidence known) (h : Rule cfg w op w' acts)
    (hk : ∀ a, known a → known' a) (hacts : ∀ a ∈ acts, known' a) : w'.Evidence known' := by
  have hw' := hw.mono hk
  cases h with
  | @proceed _ p d hin hp =>
    refine ⟨fun d' hd => ?_, fun d' r hd => ?_, hw'.buffered, hw'.returned⟩
    · rw [show p = .settling d' .acked from hd] at hp
      cases hp
    · rw [show p = .adding d' r from hd] at hp
      cases hp
  | fail d o => exact hw'.handle d o (hacts _ (by simp))
  | claimed d faces r => exact hw'.handle d _ (hacts _ (by simp))
  | settled => exact hw'.advance (.inr rfl) (fun _ hp => hp) hw'.returned
  | buffered d r now t hphase hb =>
    refine ⟨fun d' hd => (by cases hd), fun d' r' hd => (by cases hd), ?_,
      fun reason batch hf => hw'.returned reason batch hf⟩
    intro p hp
    simp only [added, Batcher.buffered, Batcher.inFlush, hb, List.nil_append, List.mem_append,
      List.mem_singleton] at hp
    rcases hp with hp | rfl
    · exact hw'.buffered p (List.mem_append_right _ hp)
    · exact hw'.adding d r hphase
  | filled d r now t hphase hb =>
    refine ⟨fun d' hd => (by cases hd), fun d' r' hd => (by cases hd), ?_,
      fun _ _ hf => (by cases hf)⟩
    intro p hp
    simp only [Batcher.buffered, Batcher.inFlush, List.append_nil, List.mem_append,
      List.mem_singleton] at hp
    rcases hp with hp | rfl
    · exact hw'.buffered p (List.mem_append_right _ hp)
    · exact hw'.adding d r hphase
  | nothing e hb =>
    refine hw'.advance (afterFlush_phase w) ?_ ?_
    · rw [afterFlush_batcher]
      exact fun _ hp => hp
    · rw [afterFlush_batcher]
      exact hw'.returned
  | flushed e reason hb hp =>
    refine hw'.advance (.inl rfl) ?_ fun _ _ hf => by cases hf
    intro p hp
    simpa [Batcher.buffered, Batcher.inFlush, hb] using hp
  | sinkReturned reason batch hb =>
    refine hw'.advance (.inl rfl) ?_ ?_
    · intro p hp
      simpa [Batcher.buffered, Batcher.inFlush, hb] using hp
    · rintro _ _ ⟨⟩
      exact hacts _ (by simp)
  | sinkRaised reason batch hb =>
    refine hw'.advance (.inl rfl) ?_ fun _ _ hf => by cases hf
    intro p hp
    simpa [Batcher.buffered, Batcher.inFlush, hb] using hp
  | batchAcked reason batch hb =>
    refine hw'.advance (afterFlush_phase _) ?_ ?_
    · intro p hp
      rw [Worker.batchAcked, afterFlush_batcher] at hp
      exact List.mem_append_right _ hp
    · intro _ _ hf
      rw [Worker.batchAcked, afterFlush_batcher] at hf
      cases hf
  | itemNacked reason p batch hb =>
    refine hw'.advance (afterFlush_phase _) ?_ ?_
    · intro q hq
      rw [Worker.itemNacked, afterFlush_batcher] at hq
      cases batch <;> simp_all [Batcher.buffered, Batcher.inFlush]
    · intro _ _ hf
      rw [Worker.itemNacked, afterFlush_batcher] at hf
      cases batch <;> simp at hf
  | counted => exact hw'.advance (.inr rfl) (fun _ hp => hp) hw'.returned

end Worker

namespace Replica

variable {cfg : DetectorSettings} {r r' : Replica} {e : Event} {out h : List (Out Delivery)}

/-- What has to happen before a delivery is acked. -/
def AckCause (h : List (Out Delivery)) : Out Delivery → Prop
  | .settled d .acked =>
    .act (.outcome d .duplicate) ∈ h ∨ .act (.outcome d .stale) ∈ h ∨
      ∃ r batch, .act (.outcome d (.result r)) ∈ h ∧ ⟨r, d⟩ ∈ batch ∧ .act (.sinkReturned batch) ∈ h
  | _ => True

lemma AckCause.mono (h₁ h₂ : List (Out Delivery)) (x : Out Delivery) (hx : AckCause h₁ x) :
    AckCause (h₁ ++ h₂) x := by
  unfold AckCause at hx ⊢
  split
  · rcases hx with hx | hx | ⟨r, batch, hr, hd, hb⟩
    · exact .inl (List.mem_append_left _ hx)
    · exact .inr (.inl (List.mem_append_left _ hx))
    · exact .inr (.inr ⟨r, batch, List.mem_append_left _ hr, hd, List.mem_append_left _ hb⟩)
  · trivial

/-! ### What one step adds to the ledger -/

/-- What is handed out joins the held deliveries, what is settled leaves them. -/
lemma Rule.balance (hr : Rule cfg r e r' out) :
    (r.worker.held ++ handed out).Perm (settlements out ++ r'.worker.held) := by
  cases hr with
  | deliver => simp
  | take now d ds hp hw =>
    rw [Worker.idle_held hw]
    simp [Out.handed?, Out.settled?, Worker.held, Worker.buffered,
      Worker.Phase.current]
  | shed now d ds hp hw hage =>
    simp [Out.handed?, Out.settled?, Worker.idle_held hw]
  | work op w acts hr hq hheld =>
    rw [hr.handed_acts, settlements_map_act, hheld, List.append_nil, List.nil_append]
  | settled d v hw =>
    rw [Worker.settling_held hw]
    simp [Out.handed?, Out.settled?]
  | batchAcked reason batch hb =>
    rw [Worker.flushing_held hb]
    simp only [handed_cons, settlements_cons, handed_map_settled, settlements_map_settled]
    simp [Out.handed?, Out.settled?]
  | itemNacked reason p batch hb =>
    rw [Worker.flushing_held hb]
    simp [Out.handed?, Out.settled?]

/-- A step hands out from the front of what is prefetched, or adds a larger tag at the end. -/
lemma Rule.order (hr : Rule cfg r e r' out) :
    (handed out ++ r'.prefetched = r.prefetched ∧ r'.channel.lastTag = r.channel.lastTag) ∨
    (∃ d, out = [] ∧ r'.prefetched = r.prefetched ++ [d] ∧ r.channel.lastTag < d.tag ∧
      r'.channel.lastTag = d.tag) := by
  cases hr with
  | deliver ref redelivered tag c hc =>
    obtain ⟨hlt, hlast, -⟩ := Channel.deliver_eq_some hc
    exact .inr ⟨_, rfl, rfl, hlt, hlast⟩
  | take now d ds hp hw => exact .inl ⟨hp.symm, rfl⟩
  | shed now d ds hp hw hage => exact .inl ⟨hp.symm, rfl⟩
  | work op w acts hr hq hheld =>
    left
    rw [hr.handed_acts, List.nil_append]
    exact ⟨rfl, rfl⟩
  | settled d v hw => exact .inl ⟨rfl, rfl⟩
  | batchAcked reason batch hb =>
    left
    rw [handed_cons, handed_map_settled]
    exact ⟨rfl, rfl⟩
  | itemNacked reason p batch hb => exact .inl ⟨rfl, rfl⟩

/-- The worker's state stays backed by the history. -/
lemma Rule.evidence (hr : Rule cfg r e r' out)
    (hev : r.worker.Evidence fun a => .act a ∈ h) :
    r'.worker.Evidence fun a => .act a ∈ h ++ out := by
  have hk : ∀ a, .act a ∈ h → Out.act a ∈ h ++ out := fun a ha => List.mem_append_left _ ha
  cases hr with
  | deliver => exact hev.mono hk
  | take now d ds hp hw =>
    have hev' := hev.mono hk
    exact ⟨fun d' hd => (by cases hd), fun d' r' hd => (by cases hd), hev'.buffered, hev'.returned⟩
  | shed now d ds hp hw hage => exact (hev.mono hk).handle d .stale (by simp)
  | work op w acts hr hq hheld =>
    exact hev.rule hr hk fun a ha => List.mem_append_right _ (List.mem_map_of_mem ha)
  | settled d v hw =>
    exact hev.rule (Worker.Rule.settled d v hw : Worker.Rule cfg _ _ _ _) hk (by simp)
  | batchAcked reason batch hb =>
    exact hev.rule (Worker.Rule.batchAcked reason batch hb : Worker.Rule cfg _ _ _ _) hk (by simp)
  | itemNacked reason p batch hb =>
    exact hev.rule (Worker.Rule.itemNacked reason p batch hb : Worker.Rule cfg _ _ _ _) hk (by simp)

lemma Rule.not_misuse (hr : Rule cfg r e r' out) (s : Settle) : Out.misuse s ∉ out := by
  cases hr <;> simp

/-- An ack that a step brings about has its cause in the history. -/
lemma Rule.ackCause (hr : Rule cfg r e r' out) (hev : r.worker.Evidence fun a => .act a ∈ h) :
    ∀ x ∈ out, AckCause h x := by
  cases hr with
  | settled d v hw =>
    intro x hx
    rcases List.mem_cons.mp hx with rfl | hx
    · trivial
    · rw [List.mem_singleton.mp hx]
      cases v with
      | acked =>
        rcases hev.acked d hw with hd | hd
        · exact .inl hd
        · exact .inr (.inl hd)
      | _ => trivial
  | batchAcked reason batch hb =>
    intro x hx
    rcases List.mem_cons.mp hx with rfl | hx
    · trivial
    · simp only [List.map_map, List.mem_map, Function.comp_apply] at hx
      obtain ⟨p, hp, rfl⟩ := hx
      have hbuf : p ∈ r.worker.batcher.buffered := by
        rw [Batcher.buffered, Batcher.inFlush_some hb]
        exact List.mem_append_left _ hp
      exact .inr (.inr ⟨p.result, batch, hev.buffered p hbuf, hp, hev.returned reason batch hb⟩)
  | deliver => simp
  | take now d ds hp hw =>
    intro x hx
    rw [List.mem_singleton.mp hx]
    trivial
  | work op w acts hr hq hheld =>
    intro x hx
    obtain ⟨a, -, rfl⟩ := List.mem_map.mp hx
    trivial
  | shed | itemNacked =>
    intro x hx
    simp only [List.mem_cons, List.not_mem_nil, or_false] at hx
    rcases hx with rfl | rfl <;> trivial

/-! ### The ledger of a run -/

/-- Where the deliveries of a run are. -/
structure Ledger (r : Replica) (h : List (Out Delivery)) : Prop where
  inv : r.Inv
  evidence : r.worker.Evidence fun a => .act a ∈ h
  balance : (handed h).Perm (settlements h ++ r.worker.held)
  sorted : (handed h ++ r.prefetched).Pairwise fun x y => x.tag < y.tag
  tag_le : ∀ d ∈ handed h ++ r.prefetched, d.tag ≤ r.channel.lastTag
  not_misuse : ∀ s, Out.misuse s ∉ h
  caused : Machine.Caused AckCause h

lemma Ledger.init : Ledger init [] :=
  ⟨inv_init, .init _, .refl _, .nil, by simp [handed, Replica.init], by simp, .nil⟩

/-- Every step keeps the ledger. -/
theorem Ledger.step (hl : Ledger r h) (hs : r.step cfg e = some (r', out)) :
    Ledger r' (h ++ out) := by
  have hr := Rule.of_step hl.inv hs
  refine ⟨hl.inv.rule hr, hr.evidence hl.evidence, ?_, ?_, ?_, ?_, ?_⟩
  · calc handed (h ++ out)
        = handed h ++ handed out := handed_append h out
      _ |>.Perm (settlements h ++ (r.worker.held ++ handed out)) := by
          rw [← List.append_assoc]
          exact hl.balance.append_right _
      _ |>.Perm (settlements h ++ (settlements out ++ r'.worker.held)) := hr.balance.append_left _
      _ = settlements (h ++ out) ++ r'.worker.held := by rw [settlements_append, List.append_assoc]
  · rcases hr.order with ⟨heq, -⟩ | ⟨d, rfl, hp, hlt, -⟩
    · rw [handed_append, List.append_assoc, heq]
      exact hl.sorted
    · rw [List.append_nil, hp, ← List.append_assoc, List.pairwise_append]
      refine ⟨hl.sorted, List.pairwise_singleton _ _, ?_⟩
      intro x hx y hy
      rw [List.mem_singleton.mp hy]
      exact (hl.tag_le x hx).trans_lt hlt
  · rcases hr.order with ⟨heq, hlast⟩ | ⟨d, rfl, hp, hlt, hlast⟩
    · rw [handed_append, List.append_assoc, heq, hlast]
      exact hl.tag_le
    · rw [List.append_nil, hp, ← List.append_assoc, hlast]
      intro x hx
      rcases List.mem_append.mp hx with hx | hx
      · exact (hl.tag_le x hx).trans hlt.le
      · rw [List.mem_singleton.mp hx]
  · intro s hs
    rcases List.mem_append.mp hs with hs | hs
    · exact hl.not_misuse s hs
    · exact hr.not_misuse s hs
  · exact hl.caused.append AckCause.mono (hr.ackCause hl.evidence)

theorem Ledger.of_reach {ok : Replica → List (Out Delivery) → Event → Prop}
    (hr : (machine cfg).Reach ok Replica.init r h) : Ledger r h :=
  hr.invariant .init fun _ _ _ _ _ _ hl _ hs => hl.step hs

/-! ### Exactly one settlement -/

/-- How a detector settles what it is handed. -/
structure SettlesOnce (r : Replica) (h : List (Out Delivery)) : Prop where
  /-- A delivery that was handed out is in the handler's hand, or in the buffer, or settled. -/
  classes : (handed h).Perm (r.worker.phase.current ++ r.worker.buffered ++ settlements h)
  /-- It is in one of these only, and once. -/
  nodup : (r.worker.phase.current ++ r.worker.buffered ++ settlements h).Nodup
  current : r.worker.phase.current.length ≤ 1
  unsettled : ∀ d ∈ r.worker.phase.current ++ r.worker.buffered, d ∈ r.channel.unsettled
  gone : ∀ d ∈ settlements h, d ∉ r.channel.unsettled
  /-- No ack and no nack names a tag that is settled already. -/
  not_misuse : ∀ s, Out.misuse s ∉ h
  /-- An ack comes after the reason for it. -/
  caused : Machine.Caused AckCause h

lemma Worker.Phase.length_current (p : Worker.Phase) : p.current.length ≤ 1 := by
  cases p <;> simp [Worker.Phase.current]

theorem Ledger.settlesOnce (hl : Ledger r h) : SettlesOnce r h := by
  have hperm : (handed h).Perm (r.worker.phase.current ++ r.worker.buffered ++ settlements h) := by
    refine hl.balance.trans (List.perm_append_comm.trans (List.Perm.append_right _ ?_))
    exact List.perm_append_comm
  have hnodup : (handed h).Nodup := by
    have hsorted := (List.pairwise_append.mp hl.sorted).1
    exact hsorted.imp fun hlt heq => hlt.ne (congrArg Delivery.tag heq)
  have hn := hperm.nodup_iff.mp hnodup
  refine ⟨hperm, hn, Worker.Phase.length_current _, ?_, ?_, hl.not_misuse, hl.caused⟩
  · intro d hd
    rw [hl.inv.unsettled, Worker.held]
    simp only [List.mem_append] at hd ⊢
    exact .inl hd.symm
  · intro d hd hu
    rw [hl.inv.unsettled, Worker.held] at hu
    rcases List.mem_append.mp hu with hu | hu
    · refine (List.nodup_append.mp hn).2.2 d ?_ d hd rfl
      exact List.mem_append.mpr (List.mem_append.mp hu).symm
    · have hh : d ∈ handed h := hperm.mem_iff.mpr (List.mem_append_right _ hd)
      exact ((List.pairwise_append.mp hl.sorted).2.2 d hh d hu).false

/-! ### A completed flush -/

/-- The handler takes no delivery. -/
def noTake : Replica → List (Out Delivery) → Event → Prop := fun _ _ e => ∀ now, e ≠ .take now

/-- The handler is idle and all that is buffered is in a flush. -/
def Draining (r : Replica) : Prop :=
  r.worker.phase = .idle ∧ r.worker.batcher.pending = []

lemma Draining.worker {w w' : Worker} {op : Worker.Op} {acts : List Act}
    (hr : Worker.Rule cfg w op w' acts) (hphase : w.phase = .idle)
    (hpending : w.batcher.pending = []) : w'.phase = .idle ∧ w'.batcher.pending = [] := by
  have hidle : ∀ v : Worker, v.phase = .idle → v.afterFlush.phase = .idle := by
    intro v hv
    simp [Worker.afterFlush, hv]
  cases hr with
  | proceed d hw | fail d o hw => simp [hphase, Worker.Phase.inProcess] at hw
  | claimed d faces r hw | settled d v hw | buffered d r now t hw | filled d r now t hw
  | counted jobId hw => simp [hphase] at hw
  | nothing => exact ⟨hidle w hphase, by rw [Worker.afterFlush_batcher, hpending]⟩
  | flushed e reason hb hp => exact absurd hpending hp
  | sinkReturned | sinkRaised => exact ⟨hphase, hpending⟩
  | batchAcked =>
    refine ⟨hidle _ hphase, ?_⟩
    rw [Worker.batchAcked, Worker.afterFlush_batcher, hpending]
  | itemNacked =>
    refine ⟨hidle _ hphase, ?_⟩
    rw [Worker.itemNacked, Worker.afterFlush_batcher, hpending]

lemma Draining.step (hd : r.Draining) (hr : Rule cfg r e r' out) (hok : ∀ now, e ≠ .take now) :
    r'.Draining := by
  obtain ⟨hphase, hpending⟩ := hd
  cases hr with
  | deliver => exact ⟨hphase, hpending⟩
  | take now | shed now => exact absurd rfl (hok now)
  | work op w acts hr => exact Draining.worker hr hphase hpending
  | settled d v hw => simp [hphase] at hw
  | batchAcked reason batch hb =>
    exact Draining.worker (Worker.Rule.batchAcked reason batch hb : Worker.Rule cfg _ _ _ _)
      hphase hpending
  | itemNacked reason p batch hb =>
    exact Draining.worker (Worker.Rule.itemNacked reason p batch hb : Worker.Rule cfg _ _ _ _)
      hphase hpending

/-- An explicit flush that gets the lock while the handler is idle takes all that is buffered. -/
lemma Draining.of_flush (hphase : r.worker.phase = .idle)
    (hs : r.step cfg (.work (.batcher .flush)) = some (r', out)) : r'.Draining := by
  simp only [Replica.step, Worker.step, Batcher.step, Batcher.flush] at hs
  split at hs
  · next w acts hw =>
    cases hs
    split at hw
    · next b acts' hb =>
      cases hw
      split at hb
      · cases hb
      · refine ⟨by simp [Worker.afterFlush, hphase], ?_⟩
        rw [Worker.afterFlush_batcher]
        rcases r.worker.batcher.flushLocked_cases .explicit with ⟨hp, heq⟩ | ⟨hp, heq⟩
        · rw [heq, Option.some.injEq, Prod.mk.injEq] at hb
          rw [← hb.1, hp]
        · rw [heq, Option.some.injEq, Prod.mk.injEq] at hb
          rw [← hb.1]
    · cases hw
  · cases hs

/-- While the handler takes nothing, the run goes on draining. -/
lemma Draining.of_reach (hl : Ledger r h) (hd : r.Draining) {r₂ : Replica}
    {h₂ : List (Out Delivery)} (hr : (machine cfg).Reach noTake r r₂ h₂) :
    Ledger r₂ (h ++ h₂) ∧ r₂.Draining := by
  induction hr with
  | init =>
    rw [List.append_nil]
    exact ⟨hl, hd⟩
  | step _ hok hs ih =>
    refine ⟨?_, ih.2.step (Rule.of_step ih.1.inv hs) hok⟩
    rw [← List.append_assoc]
    exact ih.1.step hs

/-- A detector settles each delivery it is handed exactly once, and an explicit flush that ends
while the handler is idle leaves none of them unsettled. -/
theorem settles_exactly_once (hr : (machine cfg).Reach Machine.anyStep Replica.init r h) :
    SettlesOnce r h ∧
    (r.worker.phase = .idle →
      ∀ r₁ o, r.step cfg (.work (.batcher .flush)) = some (r₁, o) →
        ∀ r₂ h₂, (machine cfg).Reach noTake r₁ r₂ h₂ → r₂.worker.batcher.flushing = none →
          ∀ d ∈ handed (h ++ o ++ h₂), d ∈ settlements (h ++ o ++ h₂)) := by
  have hl := Ledger.of_reach hr
  refine ⟨hl.settlesOnce, ?_⟩
  intro hphase r₁ o hs r₂ h₂ hr₂ hflush
  have hl₁ := hl.step hs
  have hd₁ := Draining.of_flush hphase hs
  have hend := Draining.of_reach hl₁ hd₁ hr₂
  have hheld : r₂.worker.held = [] := by
    rw [Worker.idle_held hend.2.1, Worker.buffered_of_none hflush, hend.2.2]
    rfl
  have hb := hend.1.balance
  rw [hheld, List.append_nil] at hb
  exact fun d hd => hb.mem_iff.mp hd

/-- One frame is reported by an explicit flush, the other goes back to the queue. -/
theorem settles_exactly_once_run :
    ∃ r h, (machine {}).Reach Machine.anyStep Replica.init r h ∧
      (settlements h).map Delivery.tag = [2, 1] ∧ SettlesOnce r h := by
  have hrun : ∃ r h, (machine {}).Reach Machine.anyStep Replica.init r h ∧
      (settlements h).map Delivery.tag = [2, 1] :=
    Machine.Reach.exists_of_exec
      [.deliver ⟨"j", "v", 0, 0, 0, blobKey "j" 0⟩ false 1,
        .deliver ⟨"j", "v", 12, 0, 0, blobKey "j" 12⟩ false 2,
        .take 0, .work (.loaded .frame), .work (.detected (some [])), .work (.claimed .won),
        .work (.add 0), .work .counted, .take 0, .work (.loaded .storeError), .work .settled,
        .work (.batcher .flush), .work (.batcher .sinkReturned), .work (.batcher .settleNext)]
      (by decide)
  obtain ⟨r, h, hr, ht⟩ := hrun
  exact ⟨r, h, hr, ht, (settles_exactly_once hr).1⟩

end Replica

end VideoPipeline
