import VideoPipeline.Detector.ConsumeLoop
import VideoPipeline.Detector.Fate
import VideoPipeline.Detector.Retry

/-!
# The queue can be drained

What is left to do for the messages of a fleet goes down with every step, but for the steps that
bring a message back: a publish, a crash, a store failure and a sink call that raises. And as long
as there is something to do, some detector can go on.
-/

namespace VideoPipeline

open Amqp

/-! ## Messages on their way back -/

/-- A nack that requeues. -/
def Act.requeues : Act → Bool
  | .settle (.nack _ true) => true
  | _                      => false

/-- The store fails or the sink call raises. -/
def Worker.Op.failure : Worker.Op → Bool
  | .loaded .storeError | .batcher .sinkRaised => true
  | _                                          => false

/-- The items of a failed batch that are still to be nacked. -/
def Batcher.returning (b : Batcher) : ℕ :=
  match b.flushing with
  | some ⟨_, batch, .nacking⟩ => batch.length
  | _                         => 0

def Worker.Phase.returning : Worker.Phase → ℕ
  | .settling _ .requeued => 1
  | _                     => 0

/-- How many deliveries the worker is about to requeue. -/
def Worker.returning (w : Worker) : ℕ := w.phase.returning + w.batcher.returning

/-- What is requeued, has been nacked for it, one delivery a nack. -/
lemma length_requeued_le (c : Channel Delivery.tag) (acts : List Act) :
    ((perform c acts).2.filterMap Out.requeued?).length ≤ acts.countP Act.requeues := by
  induction acts generalizing c with
  | nil => exact Nat.le_refl 0
  | cons a acts ih =>
    cases a with
    | settle s =>
      have hone : (((c.settledBy s).map (.settled · s.verdict)).filterMap Out.requeued?).length ≤
          if Act.requeues (.settle s) then 1 else 0 := by
        match s with
        | .nack t true =>
          refine (List.length_filterMap_le _ _).trans ?_
          rw [List.length_map]
          exact c.length_settledBy_le_one fun u hu => hu
        | .nack t false | .ack t _ =>
          rw [List.filterMap_map]
          exact Nat.le_of_eq (congrArg List.length (List.filterMap_eq_nil_iff.mpr fun _ _ => rfl))
      have hmisuse : ((if c.Valid s then [] else [.misuse s]).filterMap Out.requeued?) =
          ([] : List Delivery) := by
        split <;> rfl
      have htail := ih (c.settle s)
      rw [List.countP_cons]
      simp only [perform, List.cons_append, List.filterMap_cons, List.filterMap_append,
        Out.requeued?, hmisuse, List.nil_append, List.length_append]
      omega
    | _ => exact ih c

namespace Worker

variable {cfg : DetectorSettings} {w w' : Worker} {op : Op} {acts : List Act}

@[simp] lemma afterFlush_returning (w : Worker) : w.afterFlush.returning = w.returning := by
  rw [returning, returning, afterFlush_batcher]
  unfold afterFlush
  split
  · next hp =>
    split
    · rfl
    · rw [hp]
      rfl
  · rfl

lemma handle_returning {d : Delivery} {o : Outcome} (ho : o ≠ .transient) :
    (w.handle d o).1.returning = w.batcher.returning := by
  rw [returning, handle_batcher]
  cases o with
  | transient => exact absurd rfl ho
  | _ => exact Nat.zero_add _

lemma returning_of_inProcess {p : Phase} {d : Delivery} (h : p.inProcess = some d) :
    p.returning = 0 := by
  cases p <;> first | rfl | cases h

/-- Without a failure nothing else comes back than what is on its way. -/
lemma step_returning (h : w.step cfg op = some (w', acts)) (hop : op.failure = false) :
    acts.countP Act.requeues + w'.returning ≤ w.returning := by
  have hrule := Rule.of_step h
  cases hrule with
  | proceed d hw hp =>
    show [].countP _ + (Phase.returning _ + _) ≤ w.phase.returning + _
    rw [returning_of_inProcess hp, returning_of_inProcess hw]
    exact Nat.le_of_eq (Nat.zero_add _)
  | fail d o hw ho =>
    have hne : o ≠ .transient := by
      rintro rfl
      rcases step_outcome h (List.mem_singleton_self _) with ⟨r, rfl, -, hr⟩ | ⟨-, ho⟩ |
        ⟨faces, r, -, ho⟩
      · cases r <;> cases hr
        cases hop
      · cases ho
      · cases r <;> cases ho
    rw [handle_returning hne, returning]
    exact Nat.add_le_add_right (Nat.zero_le _) _
  | claimed d faces r hw =>
    rw [handle_returning (by cases r <;> exact Outcome.noConfusion), returning]
    exact Nat.add_le_add_right (Nat.zero_le _) _
  | settled d v hw =>
    rw [released, returning, returning, hw]
    cases v <;> simp [Act.requeues, Verdict.call, Phase.returning]
  | buffered d r now t hw hb | filled d r now t hw hb =>
    simp [added, returning, Batcher.returning, Phase.returning, hw, hb, Act.requeues]
  | nothing e hb => simp
  | flushed e reason hb hp => simp [returning, Batcher.returning, hb, Act.requeues]
  | sinkReturned reason batch hb => simp [returning, Batcher.returning, hb, Act.requeues]
  | sinkRaised => cases hop
  | batchAcked reason batch hb =>
    rw [batchAcked, afterFlush_returning]
    simp [returning, Batcher.returning, hb, Act.requeues]
  | itemNacked reason p batch hb =>
    rw [itemNacked, afterFlush_returning]
    cases batch with
    | nil => simp [returning, Batcher.returning, hb, Act.requeues, Nat.add_comm]
    | cons q batch =>
      simp [returning, Batcher.returning, hb, Act.requeues]
      omega
  | counted jobId hw => simp [returning, Phase.returning, hw, Act.requeues]

lemma take_returning {x : Delivery} {now : ℚ} (h : w.take cfg x now = some (w', acts)) :
    w'.returning ≤ w.returning := by
  obtain ⟨hw, ⟨rfl, -⟩ | ⟨-, rfl, -⟩⟩ := take_cases h
  · rw [returning, returning, hw]
    exact Nat.le_refl _
  · rw [handle_returning Outcome.noConfusion]
    exact Nat.le_add_left _ _

end Worker

/-! ## What is left to do for the messages -/

/-- A prefetched delivery is worth more than what a handler takes on with it, and a message that
comes back more than a prefetched one. -/
def Replica.load (r : Replica) : ℕ :=
  11 * r.worker.returning + 10 * r.prefetched.length + r.worker.load

namespace Fleet

/-- What is left to do for the messages of `n` detectors. -/
def load (n : ℕ) (f : Fleet) : ℕ :=
  11 * f.queue.length + ∑ d ∈ Finset.range n, (f.replicas d).load

/-- A message is published or comes back. -/
def Event.setback : Event → Bool
  | .publish _ | .crash _ _ => true
  | .work _ op _            => op.failure
  | _                       => false

/-- A key expires or a timer of a batcher fires, which may find nothing to do. -/
def Event.isTick : Event → Bool
  | .expire _    => true
  | .work _ op _ => op.isTick
  | _            => false

variable {cfg : DetectorSettings} {n : ℕ} {f f' : Fleet} {e : Event} {out h : List Output}

lemma length_requeue (pos : Delivery → ℕ) (ds : List Delivery) (q : List Message) :
    (requeue pos ds q).length = q.length + ds.length := by
  induction ds with
  | nil => rfl
  | cons x ds ih =>
    have hsplit := congrArg List.length (List.take_append_drop (pos x) (requeue pos ds q))
    simp only [requeue, List.foldr_cons, List.length_append, List.length_cons] at hsplit ih ⊢
    omega

/-- What a step of a worker does to what is left. -/
lemma load_of_work {d pos : ℕ} {w : Worker} {acts : List Act} {guard : List String} {k : ℕ}
    (hd : d < n)
    (hret : acts.countP Act.requeues + w.returning ≤ (f.replicas d).worker.returning)
    (hload : w.load + k ≤ (f.replicas d).worker.load) :
    load n ⟨requeue (fun _ => pos)
        ((perform (f.replicas d).channel acts).2.filterMap Out.requeued?) f.queue,
      guard, Function.update f.replicas d { f.replicas d with
        worker := w
        channel := (perform (f.replicas d).channel acts).1 }⟩ + k ≤ load n f := by
  have hsum := Family.sum_update Replica.load f.replicas { f.replicas d with
    worker := w
    channel := (perform (f.replicas d).channel acts).1 } hd
  have hlen := length_requeued_le (f.replicas d).channel acts
  simp only [load, length_requeue]
  simp only [Replica.load] at hsum ⊢
  omega

/-- The flushes in progress have a batch, and a handler waits only for one of them. -/
structure Live (f : Fleet) : Prop where
  wellFormed : ∀ d, (f.replicas d).worker.WellFormed
  locked : ∀ d jobId, (f.replicas d).worker.phase = .flushing jobId →
    (f.replicas d).worker.batcher.flushing ≠ none

namespace Live

lemma init : Live Fleet.init := by
  refine ⟨fun d => Replica.inv_init.wellFormed, fun d jobId hp => ?_⟩
  cases hp

/-- One detector is replaced. -/
lemma update (hl : Live f) {d : ℕ} {r : Replica} {q : List Message} {guard : List String}
    (hw : r.worker.WellFormed)
    (hlocked : ∀ jobId, r.worker.phase = .flushing jobId → r.worker.batcher.flushing ≠ none) :
    Live ⟨q, guard, Function.update f.replicas d r⟩ := by
  constructor
  · intro d'
    show (Function.update f.replicas d r d').worker.WellFormed
    by_cases hdd : d' = d
    · subst hdd
      rwa [Function.update_self]
    · rw [Function.update_of_ne hdd]
      exact hl.wellFormed d'
  · intro d' jobId hp
    change (Function.update f.replicas d r d').worker.phase = _ at hp
    show (Function.update f.replicas d r d').worker.batcher.flushing ≠ none
    by_cases hdd : d' = d
    · subst hdd
      rw [Function.update_self] at hp ⊢
      exact hlocked jobId hp
    · rw [Function.update_of_ne hdd] at hp ⊢
      exact hl.locked d' jobId hp

lemma step (hl : Live f) (hr : Rule cfg n f e f' out) : Live f' := by
  cases hr with
  | publish | expire => exact ⟨hl.wellFormed, hl.locked⟩
  | deliver d i tag m c hd hm hc => exact hl.update (hl.wellFormed d) (hl.locked d)
  | crash d pos hd =>
    refine hl.update Replica.inv_init.wellFormed fun jobId hp => ?_
    cases hp
  | take d i now x w as hd hx hw =>
    refine hl.update ?_ ?_
    · rw [Worker.WellFormed, (Worker.take_effect hw).2.1]
      exact hl.wellFormed d
    · intro jobId hp
      obtain ⟨-, ⟨rfl, -⟩ | ⟨-, rfl, -⟩⟩ := Worker.take_cases hw
      · cases hp
      · exact absurd hp (Worker.handle_ne_flushing _ x .stale jobId)
  | work d op pos w as guard hd hw hg =>
    have hrule := Worker.Rule.of_step hw
    exact hl.update (hrule.wellFormed (hl.wellFormed d)) fun jobId hp =>
      hrule.flushing_locked jobId hp

lemma of_reach {ok : Fleet → List Output → Event → Prop}
    (hr : (machine cfg n).Reach ok Fleet.init f h) : Live f := by
  induction hr with
  | init => exact .init
  | step hr ho hs ih => exact ih.step (Rule.of_step hs)

end Live

/-- Without a setback less is left to do after a step, after a tick at least no more. -/
lemma step_load (hl : Live f) (hs : f.step cfg n e = some (f', out)) (he : e.setback = false) :
    f'.load n ≤ f.load n ∧ (e.isTick = false → f'.load n < f.load n) := by
  have of_lt : f'.load n < f.load n →
      f'.load n ≤ f.load n ∧ (e.isTick = false → f'.load n < f.load n) :=
    fun hlt => ⟨hlt.le, fun _ => hlt⟩
  cases Rule.of_step hs with
  | publish | crash => cases he
  | expire => exact ⟨Nat.le_refl _, fun h => by cases h⟩
  | deliver d i tag m c hd hm hc =>
    apply of_lt
    have hsum := Family.sum_update Replica.load f.replicas { f.replicas d with
      channel := c
      prefetched := (f.replicas d).prefetched ++ [⟨m.ref, tag, m.redelivered⟩] } hd
    have hlen := List.length_eraseIdx_add_one (List.getElem?_eq_some_iff.mp hm).1
    simp only [load]
    simp only [Replica.load, List.length_append, List.length_singleton] at hsum ⊢
    omega
  | take d i now x w as hd hx hw =>
    apply of_lt
    have hsum := Family.sum_update Replica.load f.replicas { f.replicas d with
      worker := w
      prefetched := (f.replicas d).prefetched.eraseIdx i } hd
    have hlen := List.length_eraseIdx_add_one (List.getElem?_eq_some_iff.mp hx).1
    have hload := Worker.take_load hw
    have hret := Worker.take_returning hw
    simp only [load]
    simp only [Replica.load] at hsum ⊢
    omega
  | work d op pos w as guard hd hw hg =>
    have hret := Worker.step_returning hw he
    obtain ⟨hle, hlt⟩ := Worker.step_load (hl.wellFormed d) hw
    refine ⟨load_of_work (k := 0) hd hret hle, fun htick => ?_⟩
    exact Nat.lt_of_succ_le (load_of_work (k := 1) hd hret (hlt htick))

/-! ### Some detector can go on -/

end Fleet

/-- A flush in progress can go on without a failure. -/
lemma Batcher.exists_settling (cfg : DetectorSettings) {b : Batcher} {f : Flush}
    (hf : b.flushing = some f) (hne : f.batch ≠ []) :
    ∃ e b' acts, b.step cfg e = some (b', acts) ∧ (e = .sinkReturned ∨ e = .settleNext) ∧
      ∀ guard, answer guard acts = some guard := by
  obtain ⟨reason, batch, stage⟩ := f
  cases stage with
  | sinking => exact ⟨.sinkReturned, _, _, by rw [step, sinkReturned, hf], .inl rfl, fun _ => rfl⟩
  | acking => exact ⟨.settleNext, _, _, by rw [step, settleNext, hf], .inr rfl, fun _ => rfl⟩
  | nacking =>
    cases batch with
    | nil => exact absurd rfl hne
    | cons p batch =>
      exact ⟨.settleNext, _, _, by rw [step, settleNext, hf], .inr rfl, fun _ => rfl⟩

namespace Worker

/-- The operation is no failure and no timer, and a load gets the reply that the store has for the
delivery. -/
structure Op.GoesOn (reply : Delivery → LoadReply) (w : Worker) (op : Op) : Prop where
  not_failure : op.failure = false
  not_tick : op.isTick = false
  loaded : ∀ r x, op = .loaded r → w.phase = .loading x → r = reply x

variable {cfg : DetectorSettings} {w : Worker} {reply : Delivery → LoadReply}

lemma Op.GoesOn.of_ne {op : Op} (hfail : op.failure = false) (htick : op.isTick = false)
    (hne : ∀ r, op ≠ .loaded r) : op.GoesOn reply w :=
  ⟨hfail, htick, fun r _ h => absurd h (hne r)⟩

/-- A worker that has something in hand can go on, whatever the guard and the store hold. -/
lemma exists_goesOn (cfg : DetectorSettings) (hw : w.WellFormed)
    (hlocked : ∀ jobId, w.phase = .flushing jobId → w.batcher.flushing ≠ none)
    (hreply : ∀ x, reply x ≠ .storeError) (guard : List String)
    (hbusy : w.phase ≠ .idle ∨ w.batcher.flushing ≠ none) :
    ∃ op r guard', w.step cfg op = some r ∧ answer guard r.2 = some guard' ∧
      op.GoesOn reply w := by
  have hflush : w.batcher.flushing ≠ none → ∃ op r guard', w.step cfg op = some r ∧
      answer guard r.2 = some guard' ∧ op.GoesOn reply w := by
    intro hb
    obtain ⟨f, hf⟩ := Option.ne_none_iff_exists'.mp hb
    obtain ⟨e, b, acts, hs, he, hans⟩ := Batcher.exists_settling cfg hf (hw f hf)
    refine ⟨.batcher e, (afterFlush { w with batcher := b }, acts), guard, by rw [step, hs],
      hans guard, ?_⟩
    rcases he with rfl | rfl <;> exact .of_ne rfl rfl fun _ => Op.noConfusion
  by_cases hb : w.batcher.flushing ≠ none
  · exact hflush hb
  have hnone : w.batcher.flushing = none := not_not.mp hb
  cases hp : w.phase with
  | idle => exact absurd hp (hbusy.resolve_right hb)
  | loading x =>
    have hgoes : Op.GoesOn reply w (.loaded (reply x)) := by
      refine ⟨?_, rfl, fun r y hr hy => ?_⟩
      · cases hr : reply x with
        | storeError => exact absurd hr (hreply x)
        | _ => rfl
      · rw [hp] at hy
        cases hy
        exact (Op.loaded.inj hr).symm
    cases ho : loadOutcome (reply x) with
    | none =>
      exact ⟨_, ({ w with phase := .detecting x }, []), guard, by simp only [step, hp, ho], rfl,
        hgoes⟩
    | some o => exact ⟨_, w.handle x o, guard, by simp only [step, hp, ho], rfl, hgoes⟩
  | detecting x =>
    exact ⟨.detected (some []), ({ w with phase := .claiming x [] }, []), guard,
      by simp only [step, hp], rfl, .of_ne rfl rfl fun _ => Op.noConfusion⟩
  | claiming x faces =>
    have hstep : ∀ r, w.step cfg (.claimed r) = some ((w.handle x (claimOutcome x faces r)).1,
        .claim (dedupKey x.ref.jobId x.ref.frameId) cfg.dedupTtlSec r ::
          (w.handle x (claimOutcome x faces r)).2) := by
      intro r
      simp only [step, hp]
    by_cases hk : dedupKey x.ref.jobId x.ref.frameId ∈ guard
    · exact ⟨.claimed .lost, _, _, hstep .lost, if_pos hk,
        .of_ne rfl rfl fun _ => Op.noConfusion⟩
    · exact ⟨.claimed .won, _, _, hstep .won, if_neg hk, .of_ne rfl rfl fun _ => Op.noConfusion⟩
  | settling x v =>
    exact ⟨.settled, (w.released, [.settle (v.call x.tag)]), guard, by simp only [step, hp], rfl,
      .of_ne rfl rfl fun _ => Op.noConfusion⟩
  | counting jobId =>
    exact ⟨.counted, ({ w with phase := .idle }, [.counted jobId]), guard,
      by simp only [step, hp], rfl, .of_ne rfl rfl fun _ => Op.noConfusion⟩
  | flushing jobId => exact absurd hnone (hlocked jobId hp)
  | adding x r =>
    obtain ⟨⟨b, acts⟩, hadd⟩ : ∃ z, w.batcher.add cfg ⟨r, x⟩ 0 = some z := by
      rw [Batcher.add, Batcher.locked_eq_false.mpr hnone]
      exact ⟨_, rfl⟩
    refine ⟨.add 0, (afterFlush { w with batcher := b, phase := .flushing x.ref.jobId }, acts),
      guard, by simp only [step, hp, hadd], ?_, .of_ne rfl rfl fun _ => Op.noConfusion⟩
    obtain ⟨-, t, ⟨-, rfl⟩ | ⟨-, rfl⟩⟩ := Batcher.add_cases hadd <;> rfl

/-- The age watchdog of an idle detector takes a buffer to the sink when its time has come. -/
lemma exists_watchdog (cfg : DetectorSettings) (hp : w.phase = .idle)
    (hb : w.batcher.flushing = none) (hne : w.batcher.pending ≠ []) :
    ∃ now r, w.step cfg (.batcher (.ageWatchdog now)) = some r ∧ r.1.load < w.load ∧
      ∀ guard, answer guard r.2 = some guard := by
  obtain ⟨hnil, -⟩ | ⟨-, hflush⟩ := w.batcher.flushLocked_cases .age
  · exact absurd hnil hne
  have hlen : 0 < w.batcher.pending.length := List.length_pos_iff.mpr hne
  have hwatch : w.batcher.ageWatchdog cfg (w.batcher.oldestAt + cfg.batchMaxLatencyMs / 1000) =
      some (w.batcher.flushLocked .age) := by
    rw [Batcher.ageWatchdog, Batcher.locked_eq_false.mpr hb, add_sub_cancel_left]
    simp [hne]
  refine ⟨_, _, by rw [step, Batcher.step, hwatch, hflush], ?_, fun guard => rfl⟩
  refine (afterFlush_load _).trans_lt ?_
  rw [load, load, Batcher.load_none hb, Batcher.load_some rfl, Flush.load_sinking, hp]
  simp only [List.length_nil]
  omega

end Worker

namespace Fleet

open Worker (LoadReply)

variable {cfg : DetectorSettings} {n : ℕ} {f f' : Fleet} {e : Event} {out h : List Output}
  {reply : Delivery → LoadReply}

/-- The queue is read in order, and no message comes back. -/
def smooth : Fleet → List Output → Event → Prop := fun _ _ e => e.setback = false ∧ e.InOrder

instance (f : Fleet) (h : List Output) (e : Event) : Decidable (smooth f h e) :=
  inferInstanceAs (Decidable (_ ∧ _))

/-- An event of the detectors themselves that is smooth and in which a load gets the reply that the
store has for the delivery. -/
structure Event.GoesOn (reply : Delivery → LoadReply) (f : Fleet) (e : Event) : Prop where
  smooth : e.setback = false ∧ e.InOrder
  not_expire : ∀ key, e ≠ .expire key
  loaded : ∀ d r pos x, e = .work d (.loaded r) pos →
    (f.replicas d).worker.phase = .loading x → r = reply x

lemma exists_work {d : ℕ} (hd : d < n) {op : Worker.Op} {r : Worker × List Act}
    {guard : List String} (hs : (f.replicas d).worker.step cfg op = some r)
    (hans : answer f.guard r.2 = some guard) :
    ∃ z, f.step cfg n (.work d op 0) = some z := by
  simp only [step, if_pos hd, Replica.step, hs, commit, perform_acts, hans]
  exact ⟨_, rfl⟩

/-- As long as the fleet is not at rest, it can go on without a setback, and then less is left. -/
lemma exists_goesOn (hl : Live f) (hn : 0 < n) (hreply : ∀ x, reply x ≠ .storeError)
    (hbusy : ¬Quiescent n f) :
    ∃ e f' out, f.step cfg n e = some (f', out) ∧ e.GoesOn reply f ∧ f'.load n < f.load n := by
  by_cases hhand : ∃ d < n, (f.replicas d).worker.phase ≠ .idle ∨
      (f.replicas d).worker.batcher.flushing ≠ none
  · -- a detector has something in hand
    obtain ⟨d, hd, hbusy⟩ := hhand
    obtain ⟨op, r, guard, hs, hans, hgoes⟩ :=
      Worker.exists_goesOn cfg (hl.wellFormed d) (hl.locked d) hreply f.guard hbusy
    obtain ⟨⟨f', out⟩, hstep⟩ := exists_work hd hs hans
    refine ⟨_, f', out, hstep, ⟨⟨hgoes.not_failure, trivial⟩, fun _ => Event.noConfusion, ?_⟩, ?_⟩
    · rintro d' r' pos x heq hp
      cases heq
      exact hgoes.loaded r' x rfl hp
    · exact (step_load hl hstep hgoes.not_failure).2 hgoes.not_tick
  push Not at hhand
  by_cases hpending : ∃ d < n, (f.replicas d).worker.batcher.pending ≠ []
  · -- a buffer waits for its time
    obtain ⟨d, hd, hne⟩ := hpending
    obtain ⟨now, r, hs, hlt, hans⟩ :=
      Worker.exists_watchdog cfg (hhand d hd).1 (hhand d hd).2 hne
    obtain ⟨⟨f', out⟩, hstep⟩ := exists_work hd hs (hans f.guard)
    refine ⟨_, f', out, hstep, ⟨⟨rfl, trivial⟩, fun _ => Event.noConfusion, ?_⟩, ?_⟩
    · rintro d' r' pos x heq
      cases heq
    · cases Rule.of_step hstep with
      | work _ _ _ w as guard _ hw hg =>
        obtain rfl := Option.some.inj (hs.symm.trans hw)
        exact Nat.lt_of_succ_le (load_of_work (k := 1) hd (Worker.step_returning hw rfl) hlt)
  push Not at hpending
  by_cases hprefetched : ∃ d < n, (f.replicas d).prefetched ≠ []
  · -- a handler can take its next delivery
    obtain ⟨d, hd, hne⟩ := hprefetched
    obtain ⟨x, ds, hx⟩ := List.exists_cons_of_ne_nil hne
    obtain ⟨⟨w, as⟩, hw⟩ := Option.isSome_iff_exists.mp
      (Worker.take_isSome cfg (hhand d hd).1 x 0)
    obtain ⟨⟨f', out⟩, hstep⟩ : ∃ z, f.step cfg n (.take d 0 0) = some z := by
      simp only [step, if_pos hd, Replica.pick, hx, List.getElem?_cons_zero, Replica.step, hw,
        commit, perform_acts, answer_take hw]
      exact ⟨_, rfl⟩
    refine ⟨_, f', out, hstep, ⟨⟨rfl, rfl⟩, fun _ => Event.noConfusion, ?_⟩,
      (step_load hl hstep rfl).2 rfl⟩
    rintro d' r' pos y heq
    cases heq
  push Not at hprefetched
  -- the broker can hand out the next message
  have hqueue : f.queue ≠ [] := fun hnil => hbusy ⟨hnil, fun d hd =>
    ⟨hprefetched d hd, (hhand d hd).1, hpending d hd, (hhand d hd).2⟩⟩
  obtain ⟨m, q, hq⟩ := List.exists_cons_of_ne_nil hqueue
  obtain ⟨⟨f', out⟩, hstep⟩ : ∃ z, f.step cfg n
      (.deliver 0 0 ((f.replicas 0).channel.lastTag + 1)) = some z := by
    simp only [step, if_pos hn, hq, List.getElem?_cons_zero, Replica.step, Channel.deliver,
      dif_pos (Nat.lt_succ_self _), commit, List.filterMap_nil, answer]
    exact ⟨_, rfl⟩
  refine ⟨_, f', out, hstep, ⟨⟨rfl, rfl⟩, fun _ => Event.noConfusion, ?_⟩,
    (step_load hl hstep rfl).2 rfl⟩
  rintro d' r' pos y heq
  cases heq

/-- Whatever has happened to a fleet: as long as no message is published or comes back, it takes no
more steps, timers aside, than there is left to do. And it can always get to the point where the
queue is drained and every detector is at rest. -/
theorem drains {ok : Fleet → List Output → Event → Prop}
    (hr : (machine cfg n).Reach ok Fleet.init f h) (hn : 0 < n) :
    (∀ es f' h', (machine cfg n).exec smooth f h es = some (f', h') →
      es.countP (fun e => !e.isTick) + f'.load n ≤ f.load n) ∧
    ∃ es f' h', (machine cfg n).exec smooth f h es = some (f', h') ∧ Quiescent n f' ∧
      es.length ≤ f.load n := by
  have hlive := Live.of_reach hr
  constructor
  · intro es f' h' hexec
    refine Machine.countP_le_of_allowed (I := fun f _ => Live f) (m := load n) ?_ ?_ ?_ hlive hexec
    · intro f h e f' out hl _ hs
      exact hl.step (Rule.of_step hs)
    · intro f h e f' out hl hok hs hq
      exact (step_load hl hs hok.1).2 (by simpa using hq)
    · intro f h e f' out hl hok hs
      exact (step_load hl hs hok.1).1
  · have hstep : ∀ f h, Live f → ¬Quiescent n f → ∃ e f' out, smooth f h e ∧
        (machine cfg n).step f e = some (f', out) ∧ Live f' ∧ f'.load n < f.load n := by
      intro f h hl hbusy
      have hframe : ∀ x : Delivery, (fun _ => LoadReply.frame) x ≠ .storeError :=
        fun _ => LoadReply.noConfusion
      obtain ⟨e, f', out, hs, hgoes, hlt⟩ := exists_goesOn hl hn hframe hbusy
      exact ⟨e, f', out, hgoes.smooth, hs, hl.step (Rule.of_step hs), hlt⟩
    obtain ⟨es, f', h', hexec, -, hq, hlen⟩ :=
      Machine.exists_exec (I := fun f _ => Live f) hstep hlive
    exact ⟨es, f', h', hexec, hq, hlen⟩

/-- A detector has crashed with one frame in its buffer, and the store has failed for the other. -/
theorem drains_run : ∃ f h, (machine {} 2).Reach Machine.anyStep Fleet.init f h ∧
    f.load 2 = 23 ∧ ¬Quiescent 2 f ∧
    ∃ es f' h', (machine {} 2).exec smooth f h es = some (f', h') ∧ Quiescent 2 f' ∧
      es.length ≤ 23 := by
  have hrun : ∃ f h, (machine {} 2).Reach Machine.anyStep Fleet.init f h ∧
      f.load 2 = 23 ∧ ¬Quiescent 2 f :=
    Machine.Reach.exists_of_exec
      [.publish ⟨"j", "v", 0, 0, 0, blobKey "j" 0⟩, .publish ⟨"j", "v", 6, 0, 0, blobKey "j" 6⟩,
        .deliver 0 0 1, .deliver 1 0 1, .take 0 0 0, .take 1 0 0, .work 0 (.loaded .frame) 0,
        .work 0 (.detected (some [])) 0, .work 0 (.claimed .won) 0, .work 0 (.add 0) 0,
        .crash 0 fun _ => 0, .work 1 (.loaded .storeError) 0]
      (by decide +kernel)
  obtain ⟨f, h, hr, hload, hbusy⟩ := hrun
  obtain ⟨es, f', h', hexec, hq, hlen⟩ := (drains hr (by decide)).2
  exact ⟨f, h, hr, hload, hbusy, es, f', h', hexec, hq, hload ▸ hlen⟩

end Fleet

end VideoPipeline
