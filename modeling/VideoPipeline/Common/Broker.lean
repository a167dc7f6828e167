import Mathlib.Data.List.Perm.Basic
import VideoPipeline.Common.Messages
import VideoPipeline.Lib.Machine
import VideoPipeline.Lib.Store

/-!
# The in-memory broker

`pipeline_common/adapters/memory.py`: a FIFO work queue with delivery tags, redelivery and a
dead-letter queue, and one consumer of it. A message gets its tag when it is published and keeps it
when it is requeued, so the tags follow the order of delivery only as long as no message is handed
out twice. An ack of a message that is not in flight is recorded all the same.
-/

namespace VideoPipeline

/-- `_Envelope`. -/
structure Envelope where
  ref : FrameRef
  tag : ℕ
  redelivered : Bool := false
  deriving DecidableEq, Repr

structure InMemoryBroker where
  ready : List Envelope := []
  unacked : Dict ℕ Envelope := ∅
  /-- What `_tags` yields next. -/
  nextTag : ℕ := 1
  closed : Bool := false
  deadLettered : List FrameRef := []
  acked : List ℕ := []

namespace InMemoryBroker

def publish (b : InMemoryBroker) (ref : FrameRef) : InMemoryBroker :=
  { b with ready := b.ready ++ [⟨ref, b.nextTag, false⟩], nextTag := b.nextTag + 1 }

/-- `next_delivery`: the next message, or none of a closed broker. There is no result while it
waits. -/
def nextDelivery (b : InMemoryBroker) : Option (Option Envelope × InMemoryBroker) :=
  match b.ready with
  | env :: ready => some (some env, { b with ready := ready })
  | []           => if b.closed then some (none, b) else none

/-- The tags that an ack settles. -/
def targets (b : InMemoryBroker) (tag : ℕ) (multiple : Bool) : List ℕ :=
  if multiple then b.unacked.keys.filter (· ≤ tag) else [tag]

def ack (b : InMemoryBroker) (tag : ℕ) (multiple : Bool) : InMemoryBroker :=
  (b.targets tag multiple).foldl
    (fun b t => { b with unacked := b.unacked.pop t, acked := b.acked ++ [t] }) b

def nack (b : InMemoryBroker) (tag : ℕ) (requeue : Bool) : InMemoryBroker :=
  match b.unacked.get tag with
  | none => b
  | some env =>
    if requeue then
      { b with
        unacked := b.unacked.pop tag
        ready := b.ready ++ [{ env with redelivered := true }] }
    else { b with unacked := b.unacked.pop tag, deadLettered := b.deadLettered ++ [env.ref] }

def track (b : InMemoryBroker) (delivery : Envelope) : InMemoryBroker :=
  { b with unacked := b.unacked.set delivery.tag delivery }

def close (b : InMemoryBroker) : InMemoryBroker := { b with closed := true }

def depth (b : InMemoryBroker) : ℕ := b.ready.length

lemma ack_eq (b : InMemoryBroker) (tag : ℕ) (multiple : Bool) :
    b.ack tag multiple = { b with
      unacked := b.unacked.without (b.targets tag multiple)
      acked := b.acked ++ b.targets tag multiple } := by
  have hfold : ∀ (ts : List ℕ) (b : InMemoryBroker),
      ts.foldl (fun b t => { b with unacked := b.unacked.pop t, acked := b.acked ++ [t] }) b =
        { b with unacked := ts.foldl Dict.pop b.unacked, acked := b.acked ++ ts } := by
    intro ts
    induction ts with
    | nil => simp
    | cons t ts ih =>
      intro b
      rw [List.foldl_cons, ih]
      simp
  rw [ack, hfold, Dict.foldl_pop]

end InMemoryBroker

/-- A broker with the deliveries that its consumer has handed out, as they were then. -/
structure BrokerRun where
  broker : InMemoryBroker := {}
  handed : List Envelope := []

namespace BrokerRun

/-- The operations, where a settlement is of the `i`th delivery. -/
inductive Event where
  | publish (ref : FrameRef)
  /-- The consumer's iterator goes on. -/
  | deliver
  | ack (i : ℕ) (multiple : Bool)
  | nack (i : ℕ) (requeue : Bool)
  | close
  deriving DecidableEq, Repr

inductive Output where
  | published (env : Envelope)
  | delivered (env : Envelope)
  | acked (tag : ℕ)
  | deadLettered (env : Envelope)
  deriving DecidableEq, Repr

def step (s : BrokerRun) : Event → Option (BrokerRun × List Output)
  | .publish ref =>
    some ({ s with broker := s.broker.publish ref }, [.published ⟨ref, s.broker.nextTag, false⟩])
  | .deliver =>
    match s.broker.nextDelivery with
    | some (some env, b) => some (⟨b.track env, s.handed ++ [env]⟩, [.delivered env])
    | some (none, _)     => some (s, [])
    | none               => none
  | .ack i multiple =>
    match s.handed[i]? with
    | some env =>
      some ({ s with broker := s.broker.ack env.tag multiple },
        (s.broker.targets env.tag multiple).map .acked)
    | none => none
  | .nack i requeue =>
    match s.handed[i]? with
    | some env =>
      some ({ s with broker := s.broker.nack env.tag requeue },
        if requeue then [] else (s.broker.unacked.get env.tag).toList.map .deadLettered)
    | none => none
  | .close => some ({ s with broker := s.broker.close }, [])

def machine : Machine BrokerRun Event Output := ⟨step⟩

/-! ### What a step does -/

/-- The steps of a broker. -/
inductive Rule (s : BrokerRun) : Event → BrokerRun → List Output → Prop where
  | published (ref : FrameRef) :
      Rule s (.publish ref) { s with broker := s.broker.publish ref }
        [.published ⟨ref, s.broker.nextTag, false⟩]
  | delivered (env : Envelope) (ready : List Envelope) (hready : s.broker.ready = env :: ready) :
      Rule s .deliver ⟨{ s.broker with ready := ready }.track env, s.handed ++ [env]⟩
        [.delivered env]
  | acked (i : ℕ) (multiple : Bool) (env : Envelope) (hi : s.handed[i]? = some env) :
      Rule s (.ack i multiple) { s with broker := s.broker.ack env.tag multiple }
        ((s.broker.targets env.tag multiple).map .acked)
  | requeued (i : ℕ) (env env' : Envelope) (hi : s.handed[i]? = some env)
      (hget : s.broker.unacked.get env.tag = some env') :
      Rule s (.nack i true)
        { s with broker := { s.broker with
          unacked := s.broker.unacked.pop env.tag
          ready := s.broker.ready ++ [{ env' with redelivered := true }] } } []
  | deadLettered (i : ℕ) (env env' : Envelope) (hi : s.handed[i]? = some env)
      (hget : s.broker.unacked.get env.tag = some env') :
      Rule s (.nack i false)
        { s with broker := { s.broker with
          unacked := s.broker.unacked.pop env.tag
          deadLettered := s.broker.deadLettered ++ [env'.ref] } } [.deadLettered env']
  | idle (e : Event) (he : ∀ i multiple, e ≠ .ack i multiple) : Rule s e s []
  | closed : Rule s .close { s with broker := s.broker.close } []

variable {s s' : BrokerRun} {e : Event} {h out : List Output} {t : ℕ}

lemma Rule.of_step (hs : s.step e = some (s', out)) : Rule s e s' out := by
  cases e with
  | publish ref =>
    cases hs
    exact .published ref
  | deliver =>
    simp only [step, InMemoryBroker.nextDelivery] at hs
    cases hready : s.broker.ready with
    | cons env ready =>
      rw [hready] at hs
      cases hs
      exact .delivered env ready hready
    | nil =>
      rw [hready] at hs
      cases hc : s.broker.closed with
      | false =>
        simp [hc] at hs
      | true =>
        simp only [hc, if_true] at hs
        cases hs
        exact .idle .deliver (by simp)
  | ack i multiple =>
    simp only [step] at hs
    split at hs
    · next env hi =>
      cases hs
      exact .acked i multiple env hi
    · cases hs
  | nack i requeue =>
    simp only [step] at hs
    split at hs
    · next env hi =>
      cases hs
      rw [InMemoryBroker.nack]
      cases hget : s.broker.unacked.get env.tag with
      | none =>
        cases requeue <;> exact .idle _ (by simp)
      | some env' =>
        cases requeue with
        | true => exact .requeued i env env' hi hget
        | false => exact .deadLettered i env env' hi hget
    · cases hs
  | close =>
    cases hs
    exact .closed

/-! ### What a history says -/

def Output.published? : Output → Option ℕ
  | .published env => some env.tag
  | _              => none

def Output.delivered? : Output → Option Envelope
  | .delivered env => some env
  | _              => none

def Output.acked? : Output → Option ℕ
  | .acked t => some t
  | _        => none

def Output.deadLettered? : Output → Option Envelope
  | .deadLettered env => some env
  | _                 => none

/-- The messages that were published. -/
def published (h : List Output) : List ℕ := h.filterMap Output.published?

/-- The deliveries that were handed out. -/
def delivered (h : List Output) : List Envelope := h.filterMap Output.delivered?

def ackedTags (h : List Output) : List ℕ := h.filterMap Output.acked?

/-- The messages that were dead-lettered. -/
def deadLetters (h : List Output) : List Envelope := h.filterMap Output.deadLettered?

@[simp] lemma published_append (h out : List Output) :
    published (h ++ out) = published h ++ published out := List.filterMap_append

@[simp] lemma delivered_append (h out : List Output) :
    delivered (h ++ out) = delivered h ++ delivered out := List.filterMap_append

@[simp] lemma ackedTags_append (h out : List Output) :
    ackedTags (h ++ out) = ackedTags h ++ ackedTags out := List.filterMap_append

@[simp] lemma deadLetters_append (h out : List Output) :
    deadLetters (h ++ out) = deadLetters h ++ deadLetters out := List.filterMap_append

@[simp] lemma published_map_acked (ts : List ℕ) : published (ts.map .acked) = [] := by
  simp [published, List.filterMap_eq_nil_iff, Output.published?]

@[simp] lemma delivered_map_acked (ts : List ℕ) : delivered (ts.map .acked) = [] := by
  simp [delivered, List.filterMap_eq_nil_iff, Output.delivered?]

@[simp] lemma ackedTags_map_acked (ts : List ℕ) : ackedTags (ts.map .acked) = ts := by
  rw [ackedTags, List.filterMap_map]
  exact List.filterMap_some

@[simp] lemma deadLetters_map_acked (ts : List ℕ) : deadLetters (ts.map .acked) = [] := by
  simp [deadLetters, List.filterMap_eq_nil_iff, Output.deadLettered?]

/-- Where a message is. -/
inductive Place where
  | ready
  | unacked
  | acked
  | deadLettered
  deriving DecidableEq, Repr

/-- The messages in a place, by the tags that they were published under. -/
def tagsAt (s : BrokerRun) (h : List Output) : Place → List ℕ
  | .ready        => s.broker.ready.map Envelope.tag
  | .unacked      => s.broker.unacked.keys
  | .acked        => s.broker.acked
  | .deadLettered => (deadLetters h).map Envelope.tag

/-- The messages that are not acked. -/
def held (s : BrokerRun) (h : List Output) : List ℕ :=
  s.tagsAt h .ready ++ (s.tagsAt h .unacked ++ s.tagsAt h .deadLettered)

/-- The lists of the broker are those of the history. -/
structure Books (s : BrokerRun) (h : List Output) : Prop where
  handed : s.handed = delivered h
  acked : s.broker.acked = ackedTags h
  deadLettered : s.broker.deadLettered = (deadLetters h).map Envelope.ref
  keyed : ∀ k env, (k, env) ∈ s.broker.unacked.entries → env.tag = k

lemma Books.append (hb : Books s h) (hhanded : s'.handed = s.handed ++ delivered out)
    (hacked : s'.broker.acked = s.broker.acked ++ ackedTags out)
    (hdead : s'.broker.deadLettered = s.broker.deadLettered ++ (deadLetters out).map Envelope.ref)
    (hkeyed : ∀ k env, (k, env) ∈ s'.broker.unacked.entries → env.tag = k) :
    Books s' (h ++ out) := by
  refine ⟨?_, ?_, ?_, hkeyed⟩
  · rw [hhanded, hb.handed, delivered_append]
  · rw [hacked, hb.acked, ackedTags_append]
  · rw [hdead, hb.deadLettered, deadLetters_append, List.map_append]

lemma Books.without (hb : Books s h) {ts : List ℕ} (k : ℕ) (env : Envelope)
    (hmem : (k, env) ∈ (s.broker.unacked.without ts).entries) : env.tag = k :=
  hb.keyed k env (List.mem_filter.mp hmem).1

lemma Books.step (hb : Books s h) (hr : Rule s e s' out) : Books s' (h ++ out) := by
  have hnil : ∀ {α : Type} (l : List α), l = l ++ [] := fun l => (List.append_nil l).symm
  cases hr with
  | published | idle | closed => exact hb.append (hnil _) (hnil _) (hnil _) hb.keyed
  | delivered env ready hready =>
    apply hb.append rfl (hnil _) (hnil _)
    intro k env' hmem
    have hget := Dict.get_eq_some.mpr hmem
    by_cases hk : k = env.tag
    · subst hk
      rw [InMemoryBroker.track, Dict.get_set_self] at hget
      cases hget
      rfl
    · rw [InMemoryBroker.track, Dict.get_set_of_ne hk] at hget
      exact hb.keyed k env' (Dict.get_eq_some.mp hget)
  | acked i multiple env hi =>
    rw [InMemoryBroker.ack_eq]
    apply hb.append
    · rw [delivered_map_acked]
      exact hnil _
    · rw [ackedTags_map_acked]
    · rw [deadLetters_map_acked]
      exact hnil _
    · exact hb.without
  | requeued i env env' hi hget => exact hb.append (hnil _) (hnil _) (hnil _) hb.without
  | deadLettered i env env' hi hget => exact hb.append (hnil _) (hnil _) rfl hb.without

theorem Books.of_reach {ok : BrokerRun → List Output → Event → Prop}
    (hr : machine.Reach ok {} s h) : Books s h := by
  have hstart : Books {} [] := ⟨rfl, rfl, rfl, fun k env hmem => by cases hmem⟩
  exact hr.invariant hstart fun _ _ _ _ _ _ hb _ hs => hb.step (.of_step hs)

/-! ### Where the messages are -/

/-- What a step does to the messages: one is published, they move, or some are acked. -/
lemma held_cases (hr : Rule s e s' out) (hb : Books s h) (hnodup : (s.held h).Nodup) :
    ((s'.held (h ++ out)).Perm (s.broker.nextTag :: s.held h) ∧
      s'.broker.acked = s.broker.acked ∧ published out = [s.broker.nextTag] ∧
      s'.broker.nextTag = s.broker.nextTag + 1) ∨
    ((s'.held (h ++ out)).Perm (s.held h) ∧ s'.broker.acked = s.broker.acked ∧
      published out = [] ∧ s'.broker.nextTag = s.broker.nextTag) ∨
    ∃ i multiple env, e = .ack i multiple ∧ s.handed[i]? = some env ∧
      s'.held (h ++ out) = s.tagsAt h .ready ++
        (s.broker.unacked.keys.filter (· ∉ s.broker.targets env.tag multiple) ++
          s.tagsAt h .deadLettered) ∧
      s'.broker.acked = s.broker.acked ++ s.broker.targets env.tag multiple ∧
      published out = [] ∧ s'.broker.nextTag = s.broker.nextTag := by
  cases hr with
  | published ref =>
    refine .inl ⟨?_, rfl, rfl, rfl⟩
    have hdead : deadLetters [.published ⟨ref, s.broker.nextTag, false⟩] = [] := rfl
    simp only [held, tagsAt, InMemoryBroker.publish, deadLetters_append, hdead, List.map_append,
      List.map_cons, List.map_nil, List.append_nil, List.append_assoc, List.singleton_append]
    exact List.perm_middle
  | idle | closed =>
    rw [List.append_nil]
    exact .inr (.inl ⟨.refl _, rfl, rfl, rfl⟩)
  | delivered env ready hready =>
    refine .inr (.inl ⟨?_, rfl, rfl, rfl⟩)
    have hnew : s.broker.unacked.get env.tag = none := by
      apply Dict.get_eq_none.mpr
      rw [held, List.nodup_append] at hnodup
      intro hmem
      refine hnodup.2.2 env.tag ?_ env.tag (List.mem_append_left _ hmem) rfl
      rw [tagsAt, hready]
      exact List.mem_cons_self
    have hdead : deadLetters [.delivered env] = [] := rfl
    simp only [held, tagsAt, InMemoryBroker.track, Dict.keys_set_of_none hnew, hready, hdead,
      deadLetters_append, List.map_cons, List.append_nil, List.append_assoc, List.cons_append]
    exact (List.perm_middle.append_left _).trans List.perm_middle
  | acked i multiple env hi =>
    refine .inr (.inr ⟨i, multiple, env, rfl, hi, ?_, ?_, published_map_acked _, ?_⟩)
    · simp [held, tagsAt, InMemoryBroker.ack_eq]
    · rw [InMemoryBroker.ack_eq]
    · rw [InMemoryBroker.ack_eq]
  | requeued i env env' hi hget =>
    refine .inr (.inl ⟨?_, rfl, rfl, rfl⟩)
    have hperm := Dict.keys_perm_pop (Dict.get_ne_none hget)
    have htag := hb.keyed _ _ (Dict.get_eq_some.mp hget)
    simp only [held, tagsAt, List.append_nil, List.map_append, List.map_cons, List.map_nil, htag,
      List.append_assoc]
    exact (hperm.symm.append_right _).append_left _
  | deadLettered i env env' hi hget =>
    refine .inr (.inl ⟨?_, rfl, rfl, rfl⟩)
    have hperm := Dict.keys_perm_pop (Dict.get_ne_none hget)
    have htag := hb.keyed _ _ (Dict.get_eq_some.mp hget)
    have hdead : deadLetters [.deadLettered env'] = [env'] := rfl
    simp only [held, tagsAt, deadLetters_append, hdead, List.map_append, List.map_cons,
      List.map_nil, htag]
    rw [← List.append_assoc (s.broker.unacked.pop env.tag).keys]
    exact ((List.perm_append_singleton _ _).trans (hperm.symm.append_right _)).append_left _

/-- Every message that was published is acked or in one place of the others, and what was handed out
was published. -/
structure Kept (s : BrokerRun) (h : List Output) : Prop where
  nodup : (s.held h).Nodup
  published : ∀ t, t ∈ BrokerRun.published h ↔ t ∈ s.held h ∨ t ∈ s.broker.acked
  lt : ∀ t ∈ BrokerRun.published h, t < s.broker.nextTag
  handed : ∀ env ∈ s.handed, env.tag ∈ BrokerRun.published h

lemma mem_ready_held {env : Envelope} (henv : env ∈ s.broker.ready) : env.tag ∈ s.held h :=
  List.mem_append_left _ (List.mem_map_of_mem henv)

lemma targets_cases {env : Envelope} {multiple : Bool}
    (ht : t ∈ s.broker.targets env.tag multiple) :
    t ∈ s.broker.unacked.keys ∨ multiple = false ∧ t = env.tag := by
  cases multiple with
  | true => exact .inl (List.mem_filter.mp ht).1
  | false => exact .inr ⟨rfl, List.mem_singleton.mp ht⟩

lemma Kept.step (hk : Kept s h) (hb : Books s h) (hr : Rule s e s' out) : Kept s' (h ++ out) := by
  have hhanded : ∀ env ∈ s'.handed, env ∈ s.handed ∨ env ∈ s.broker.ready := by
    intro env henv
    cases hr with
    | delivered env' ready hready =>
      rw [hready]
      rcases List.mem_append.mp henv with henv | henv
      · exact .inl henv
      · exact .inr (List.mem_singleton.mp henv ▸ List.mem_cons_self)
    | _ => exact .inl henv
  have hmem : ∀ env ∈ s'.handed, env.tag ∈ BrokerRun.published (h ++ out) := by
    intro env henv
    rw [published_append]
    apply List.mem_append_left
    rcases hhanded env henv with henv | henv
    · exact hk.handed env henv
    · exact (hk.published _).mpr (.inl (mem_ready_held henv))
  rcases held_cases hr hb hk.nodup with
    ⟨hperm, hacked, hpub, hnext⟩ | ⟨hperm, hacked, hpub, hnext⟩ |
    ⟨i, multiple, env, -, hi, hheld, hacked, hpub, hnext⟩
  · have hnew : s.broker.nextTag ∉ s.held h := by
      intro hin
      exact (hk.lt _ ((hk.published _).mpr (.inl hin))).false
    refine ⟨hperm.nodup_iff.mpr (List.nodup_cons.mpr ⟨hnew, hk.nodup⟩), ?_, ?_, hmem⟩
    · intro t
      rw [published_append, hpub, List.mem_append, List.mem_singleton, hk.published,
        hperm.mem_iff, hacked, List.mem_cons]
      tauto
    · intro t ht
      rw [published_append, hpub, List.mem_append, List.mem_singleton] at ht
      rw [hnext]
      rcases ht with ht | rfl
      · exact (hk.lt t ht).trans (Nat.lt_succ_self _)
      · exact Nat.lt_succ_self _
  · refine ⟨hperm.nodup_iff.mpr hk.nodup, ?_, ?_, hmem⟩
    · intro t
      rw [published_append, hpub, List.append_nil, hk.published, hperm.mem_iff, hacked]
    · rw [published_append, hpub, List.append_nil, hnext]
      exact hk.lt
  · have hsub : (s'.held (h ++ out)).Sublist (s.held h) := by
      rw [hheld]
      exact (List.filter_sublist.append_right _).append_left _
    refine ⟨hk.nodup.sublist hsub, ?_, ?_, hmem⟩
    · intro t
      rw [published_append, hpub, List.append_nil, hacked, List.mem_append]
      constructor
      · intro ht
        by_cases htarget : t ∈ s.broker.targets env.tag multiple
        · exact .inr (.inr htarget)
        · rcases (hk.published t).mp ht with hin | hack
          · left
            rw [hheld]
            simpa [held, tagsAt, htarget] using hin
          · exact .inr (.inl hack)
      · rintro (hin | hack | htarget)
        · exact (hk.published t).mpr (.inl (hsub.subset hin))
        · exact (hk.published t).mpr (.inr hack)
        · rcases targets_cases htarget with hkey | ⟨-, rfl⟩
          · exact (hk.published t).mpr
              (.inl (List.mem_append_right _ (List.mem_append_left _ hkey)))
          · exact hk.handed env (List.mem_of_getElem? hi)
    · rw [published_append, hpub, List.append_nil, hnext]
      exact hk.lt

theorem Kept.of_reach {ok : BrokerRun → List Output → Event → Prop}
    (hr : machine.Reach ok {} s h) : Kept s h := by
  refine hr.invariant ?_ ?_
  · refine ⟨List.nodup_nil, ?_, ?_, ?_⟩
    · intro t
      simp [BrokerRun.published, held, tagsAt, deadLetters]
    · intro t ht
      cases ht
    · intro env henv
      cases henv
  · intro s h e s' out hreach hk _ hs
    exact hk.step (.of_reach hreach) (.of_step hs)

/-! ### Acks -/

/-- A single ack is of a delivery that is in flight or was acked, not of one that was nacked. -/
def AcksInFlight (s : BrokerRun) (_ : List Output) : Event → Prop
  | .ack i false => ∀ env ∈ s.handed[i]?, env.tag ∈ s.broker.unacked.keys ∨ env.tag ∈ s.broker.acked
  | _            => True

instance (s : BrokerRun) (h : List Output) : (e : Event) → Decidable (AcksInFlight s h e)
  | .ack i false => inferInstanceAs (Decidable (∀ env ∈ s.handed[i]?, _))
  | .ack _ true  => inferInstanceAs (Decidable True)
  | .publish _   => inferInstanceAs (Decidable True)
  | .deliver     => inferInstanceAs (Decidable True)
  | .nack _ _    => inferInstanceAs (Decidable True)
  | .close       => inferInstanceAs (Decidable True)

/-- No acked message is anywhere else. -/
lemma apart_step (hapart : ∀ t ∈ s.broker.acked, t ∉ s.held h) (hk : Kept s h) (hb : Books s h)
    (hok : AcksInFlight s h e) (hr : Rule s e s' out) :
    ∀ t ∈ s'.broker.acked, t ∉ s'.held (h ++ out) := by
  intro t ht hin
  rcases held_cases hr hb hk.nodup with ⟨hperm, hacked, -⟩ | ⟨hperm, hacked, -⟩ |
    ⟨i, multiple, env, rfl, hi, hheld, hacked, -⟩
  · rw [hacked] at ht
    rcases List.mem_cons.mp (hperm.mem_iff.mp hin) with rfl | hin
    · exact (hk.lt _ ((hk.published _).mpr (.inr ht))).false
    · exact hapart t ht hin
  · rw [hacked] at ht
    exact hapart t ht (hperm.mem_iff.mp hin)
  · have hold : t ∈ s.held h := by
      rw [hheld] at hin
      exact ((List.filter_sublist.append_right _).append_left _).subset hin
    have hnot : t ∉ s.broker.acked := fun hack => hapart t hack hold
    rw [hacked, List.mem_append] at ht
    have htarget := ht.resolve_left hnot
    have hkey : t ∈ s.broker.unacked.keys := by
      rcases targets_cases htarget with hkey | ⟨rfl, rfl⟩
      · exact hkey
      · exact (hok env hi).resolve_right hnot
    -- the target has left the messages in flight and was nowhere else
    have hnodup := hk.nodup
    rw [held, List.nodup_append, List.nodup_append] at hnodup
    rw [hheld, List.mem_append, List.mem_append, List.mem_filter] at hin
    rcases hin with hready | ⟨-, hnt⟩ | hdead
    · exact hnodup.2.2 t hready t (List.mem_append_left _ hkey) rfl
    · exact of_decide_eq_true hnt htarget
    · exact hnodup.2.1.2.2 t hkey t hdead rfl

theorem apart_of_reach (hr : machine.Reach AcksInFlight {} s h) :
    ∀ t ∈ s.broker.acked, t ∉ s.held h := by
  refine hr.invariant (P := fun s h => ∀ t ∈ s.broker.acked, t ∉ s.held h) ?_ ?_
  · intro t ht
    cases ht
  · intro s h e s' out hreach hapart hok hs
    exact apart_step hapart (.of_reach hreach) (.of_reach hreach) hok (.of_step hs)

/-- A message that was published and is acked or held, but not both, is in one place. -/
lemma existsUnique_place (hk : Kept s h) (hapart : ∀ t ∈ s.broker.acked, t ∉ s.held h)
    (ht : t ∈ published h) : ∃! place, t ∈ s.tagsAt h place := by
  have hnodup := hk.nodup
  rw [held, List.nodup_append, List.nodup_append] at hnodup
  obtain ⟨-, ⟨-, -, hunacked⟩, hready⟩ := hnodup
  have hheld : t ∈ s.held h → t ∉ s.tagsAt h .acked := fun hin hacked => hapart t hacked hin
  rw [held, List.mem_append, List.mem_append] at hheld
  rcases (hk.published t).mp ht with hin | hacked
  · rw [held, List.mem_append, List.mem_append] at hin
    rcases hin with hin | hin | hin
    · refine ⟨.ready, hin, fun place hmem => ?_⟩
      cases place with
      | ready => rfl
      | unacked => exact absurd rfl (hready t hin t (List.mem_append_left _ hmem))
      | deadLettered => exact absurd rfl (hready t hin t (List.mem_append_right _ hmem))
      | acked => exact absurd hmem (hheld (.inl hin))
    · refine ⟨.unacked, hin, fun place hmem => ?_⟩
      cases place with
      | ready => exact absurd rfl (hready t hmem t (List.mem_append_left _ hin))
      | unacked => rfl
      | deadLettered => exact absurd rfl (hunacked t hin t hmem)
      | acked => exact absurd hmem (hheld (.inr (.inl hin)))
    · refine ⟨.deadLettered, hin, fun place hmem => ?_⟩
      cases place with
      | ready => exact absurd rfl (hready t hmem t (List.mem_append_right _ hin))
      | unacked => exact absurd rfl (hunacked t hmem t hin)
      | deadLettered => rfl
      | acked => exact absurd hmem (hheld (.inr (.inr hin)))
  · refine ⟨.acked, hacked, fun place hmem => ?_⟩
    cases place with
    | ready => exact absurd hacked (hheld (.inl hmem))
    | unacked => exact absurd hacked (hheld (.inr (.inl hmem)))
    | deadLettered => exact absurd hacked (hheld (.inr (.inr hmem)))
    | acked => rfl

/-! ### The order of the deliveries -/

/-- The messages that wait for their first delivery. -/
def fresh (s : BrokerRun) : List Envelope := s.broker.ready.filter fun env => !env.redelivered

/-- A message in the queue is marked when it was handed out before. The others come in the order of
their tags, after everything that was handed out. -/
structure Queued (s : BrokerRun) : Prop where
  unacked : ∀ t ∈ s.broker.unacked.keys, t ∈ s.handed.map Envelope.tag
  marked : ∀ env ∈ s.broker.ready,
    env.redelivered = true ↔ env.tag ∈ s.handed.map Envelope.tag
  sorted : s.fresh.Pairwise fun x y => x.tag < y.tag
  above : ∀ d ∈ s.handed, ∀ env ∈ s.fresh, d.tag < env.tag

/-- A published message is fresh, and behind everything there is. -/
lemma Queued.published (hq : Queued s) (hk : Kept s h) (ref : FrameRef) :
    Queued { s with broker := s.broker.publish ref } := by
  have hready : ∀ env ∈ s.broker.ready, env.tag < s.broker.nextTag := fun env henv =>
    hk.lt _ ((hk.published _).mpr (.inl (mem_ready_held henv)))
  have hhanded : ∀ d ∈ s.handed, d.tag < s.broker.nextTag := fun d hd =>
    hk.lt _ (hk.handed d hd)
  have hfresh : ({ s with broker := s.broker.publish ref } : BrokerRun).fresh =
      s.fresh ++ [⟨ref, s.broker.nextTag, false⟩] := List.filter_append _ _
  refine ⟨hq.unacked, ?_, ?_, ?_⟩
  · intro env henv
    rcases List.mem_append.mp henv with henv | henv
    · exact hq.marked env henv
    · rw [List.mem_singleton.mp henv]
      refine ⟨by simp, fun hmem => ?_⟩
      obtain ⟨d, hd, htag⟩ := List.mem_map.mp hmem
      exact absurd htag (hhanded d hd).ne
  · rw [hfresh, List.pairwise_append]
    refine ⟨hq.sorted, List.pairwise_singleton _ _, ?_⟩
    intro x hx y hy
    rw [List.mem_singleton.mp hy]
    exact hready x (List.mem_filter.mp hx).1
  · intro d hd env henv
    rw [hfresh] at henv
    rcases List.mem_append.mp henv with henv | henv
    · exact hq.above d hd env henv
    · rw [List.mem_singleton.mp henv]
      exact hhanded d hd

/-- What is fresh behind the first message of the queue is above that. -/
lemma Queued.first_lt (hq : Queued s) {env : Envelope} {ready : List Envelope}
    (hready : s.broker.ready = env :: ready) :
    ∀ x ∈ ready.filter fun env => !env.redelivered, env.tag < x.tag := by
  intro x hx
  have hfresh : x ∈ s.fresh := by
    rw [fresh, hready]
    exact (List.sublist_cons_self env ready).filter _ |>.subset hx
  cases hmark : env.redelivered with
  | true =>
    obtain ⟨d, hd, htag⟩ := List.mem_map.mp
      ((hq.marked env (hready ▸ List.mem_cons_self)).mp hmark)
    rw [← htag]
    exact hq.above d hd x hfresh
  | false =>
    have hsorted := hq.sorted
    rw [fresh, hready, List.filter_cons_of_pos (by simp [hmark])] at hsorted
    exact (List.pairwise_cons.mp hsorted).1 x hx

/-- The first message of the queue is handed out. -/
lemma Queued.delivered (hq : Queued s) (hk : Kept s h) {env : Envelope} {ready : List Envelope}
    (hready : s.broker.ready = env :: ready) :
    Queued ⟨{ s.broker with ready := ready }.track env, s.handed ++ [env]⟩ := by
  have hnodup : ((env :: ready).map Envelope.tag).Nodup := by
    rw [← hready]
    exact (List.nodup_append.mp hk.nodup).1
  have hsub : (ready.filter fun env => !env.redelivered).Sublist s.fresh := by
    rw [fresh, hready]
    exact (List.sublist_cons_self env ready).filter _
  refine ⟨?_, ?_, hq.sorted.sublist hsub, ?_⟩
  · intro t ht
    rw [List.map_append, List.mem_append]
    rcases Dict.mem_keys_set.mp ht with rfl | ht
    · exact .inr List.mem_cons_self
    · exact .inl (hq.unacked t ht)
  · intro env' henv'
    have hne : env'.tag ≠ env.tag := by
      rw [List.map_cons, List.nodup_cons] at hnodup
      exact fun heq => hnodup.1 (heq ▸ List.mem_map_of_mem henv')
    rw [List.map_append, List.mem_append, hq.marked env' (hready ▸ List.mem_cons_of_mem _ henv')]
    simp [hne]
  · intro d hd env' henv'
    rcases List.mem_append.mp hd with hd | hd
    · exact hq.above d hd env' (hsub.subset henv')
    · rw [List.mem_singleton.mp hd]
      exact hq.first_lt hready env' henv'

/-- A requeued message is not fresh. -/
lemma Queued.requeued (hq : Queued s) (hb : Books s h) {i : ℕ} {env env' : Envelope}
    (hi : s.handed[i]? = some env) (hget : s.broker.unacked.get env.tag = some env') :
    Queued { s with broker := { s.broker with
      unacked := s.broker.unacked.pop env.tag
      ready := s.broker.ready ++ [{ env' with redelivered := true }] } } := by
  have htag := hb.keyed _ _ (Dict.get_eq_some.mp hget)
  have hfresh : ({ s with broker := { s.broker with
      unacked := s.broker.unacked.pop env.tag
      ready := s.broker.ready ++ [{ env' with redelivered := true }] } } : BrokerRun).fresh =
      s.fresh := by
    rw [fresh, List.filter_append]
    exact List.append_nil _
  refine ⟨?_, ?_, hfresh ▸ hq.sorted, hfresh ▸ hq.above⟩
  · intro t ht
    rw [Dict.keys_pop] at ht
    exact hq.unacked t (List.mem_filter.mp ht).1
  · intro x hx
    rcases List.mem_append.mp hx with hx | hx
    · exact hq.marked x hx
    · rw [List.mem_singleton.mp hx]
      have hmem : env.tag ∈ s.handed.map Envelope.tag :=
        List.mem_map_of_mem (List.mem_of_getElem? hi)
      rw [← htag] at hmem
      exact ⟨fun _ => hmem, fun _ => rfl⟩

lemma Queued.step (hq : Queued s) (hk : Kept s h) (hb : Books s h) (hr : Rule s e s' out) :
    Queued s' := by
  cases hr with
  | published ref => exact hq.published hk ref
  | delivered env ready hready => exact hq.delivered hk hready
  | acked i multiple env hi =>
    rw [InMemoryBroker.ack_eq]
    refine ⟨?_, hq.marked, hq.sorted, hq.above⟩
    intro t ht
    rw [Dict.keys_without] at ht
    exact hq.unacked t (List.mem_filter.mp ht).1
  | requeued i env env' hi hget => exact hq.requeued hb hi hget
  | deadLettered i env env' hi hget =>
    refine ⟨?_, hq.marked, hq.sorted, hq.above⟩
    intro t ht
    rw [Dict.keys_pop] at ht
    exact hq.unacked t (List.mem_filter.mp ht).1
  | idle | closed => exact ⟨hq.unacked, hq.marked, hq.sorted, hq.above⟩

theorem Queued.of_reach {ok : BrokerRun → List Output → Event → Prop}
    (hr : machine.Reach ok {} s h) : Queued s := by
  refine hr.invariant (P := fun s _ => Queued s) ⟨?_, ?_, .nil, ?_⟩ ?_
  · intro t ht
    cases ht
  · intro env henv
    cases henv
  · intro d hd
    cases hd
  · intro s h e s' out hreach hq _ hs
    exact hq.step (.of_reach hreach) (.of_reach hreach) (.of_step hs)

/-- As long as no message is handed out twice, the tags increase from delivery to delivery. -/
lemma tags_step (hinc : (s.handed.map Envelope.tag).Nodup →
      s.handed.Pairwise fun x y => x.tag < y.tag) (hq : Queued s) (hr : Rule s e s' out)
    (hnodup : (s'.handed.map Envelope.tag).Nodup) :
    s'.handed.Pairwise fun x y => x.tag < y.tag := by
  cases hr with
  | delivered env ready hready =>
    rw [List.map_append, List.nodup_append] at hnodup
    rw [List.pairwise_append]
    refine ⟨hinc hnodup.1, List.pairwise_singleton _ _, ?_⟩
    intro d hd x hx
    rw [List.mem_singleton.mp hx]
    have hmem : env ∈ s.broker.ready := hready ▸ List.mem_cons_self
    apply hq.above d hd
    apply List.mem_filter.mpr ⟨hmem, ?_⟩
    cases hmark : env.redelivered with
    | false => rfl
    | true =>
      exact absurd rfl (hnodup.2.2 _ ((hq.marked env hmem).mp hmark) _ (List.mem_singleton_self _))
  | _ => exact hinc hnodup

theorem tags_of_reach {ok : BrokerRun → List Output → Event → Prop}
    (hr : machine.Reach ok {} s h) (hnodup : (s.handed.map Envelope.tag).Nodup) :
    s.handed.Pairwise fun x y => x.tag < y.tag := by
  refine hr.invariant (P := fun s _ => (s.handed.map Envelope.tag).Nodup →
    s.handed.Pairwise fun x y => x.tag < y.tag) (fun _ => .nil) ?_ hnodup
  intro s h e s' out hreach hinc _ hs
  exact tags_step hinc (.of_reach hreach) (.of_step hs)

/-- Under increasing tags the messages up to a tag are those of the deliveries up to it. -/
lemma le_tag_iff (hinc : s.handed.Pairwise fun x y => x.tag < y.tag) {i : ℕ} {d : Envelope}
    (hi : s.handed[i]? = some d) (ht : t ∈ s.handed.map Envelope.tag) :
    t ≤ d.tag ↔ t ∈ (s.handed.take (i + 1)).map Envelope.tag := by
  have htake : s.handed.take (i + 1) = s.handed.take i ++ [d] := by
    rw [List.take_add_one, hi]
    rfl
  have hpast : ∀ x ∈ s.handed.take (i + 1), x.tag ≤ d.tag := by
    have hsorted := hinc.sublist (List.take_sublist (i + 1) s.handed)
    rw [htake, List.pairwise_append] at hsorted
    intro x hx
    rw [htake, List.mem_append, List.mem_singleton] at hx
    rcases hx with hx | rfl
    · exact (hsorted.2.2 x hx d (List.mem_singleton_self d)).le
    · exact le_rfl
  constructor
  · intro hle
    obtain ⟨x, hx, rfl⟩ := List.mem_map.mp ht
    rw [← List.take_append_drop (i + 1) s.handed] at hx hinc
    rcases List.mem_append.mp hx with hx | hx
    · exact List.mem_map_of_mem hx
    · have hlater := (List.pairwise_append.mp hinc).2.2 d
        (htake ▸ List.mem_append_right _ (List.mem_singleton_self d)) x hx
      exact absurd hle (not_le.mpr hlater)
  · intro hmem
    obtain ⟨x, hx, rfl⟩ := List.mem_map.mp hmem
    exact hpast x hx

/-! ### The deliveries of a history -/

/-- A message is handed out marked when it was handed out before, and it is not settled. -/
def Delivers (h : List Output) (x : Output) : Prop :=
  ∀ env, x = .delivered env →
    (env.redelivered = true ↔ env.tag ∈ (delivered h).map Envelope.tag) ∧
    env.tag ∉ ackedTags h ∧ env.tag ∉ (deadLetters h).map Envelope.tag

theorem delivers_of_reach (hr : machine.Reach AcksInFlight {} s h) :
    Machine.Caused Delivers h := by
  refine hr.invariant (P := fun _ h => Machine.Caused Delivers h) .nil ?_
  intro s h e s' out hreach hc _ hs
  apply hc.append_of
  rintro o₁ x o₂ heq env rfl
  have hb := Books.of_reach hreach
  have hnodup := (Kept.of_reach hreach).nodup
  have hapart := apart_of_reach hreach
  cases Rule.of_step hs with
  | delivered env' ready hready =>
    obtain ⟨rfl, rfl⟩ : o₁ = [] ∧ env' = env := by
      cases o₁ with
      | nil =>
        cases heq
        exact ⟨rfl, rfl⟩
      | cons y o₁ => simp at heq
    have hmem : env' ∈ s.broker.ready := hready ▸ List.mem_cons_self
    rw [List.append_nil, ← hb.handed, ← hb.acked]
    refine ⟨(Queued.of_reach hreach).marked env' hmem, ?_, ?_⟩
    · intro hacked
      exact hapart _ hacked (mem_ready_held hmem)
    · intro hdead
      rw [held, List.nodup_append] at hnodup
      exact hnodup.2.2 _ (List.mem_map_of_mem hmem) _ (List.mem_append_right _ hdead) rfl
  | published ref | deadLettered i env' env'' hi hget =>
    cases o₁ with
    | nil => cases heq
    | cons y o₁ => simp at heq
  | acked i multiple env' hi =>
    have hin : Output.delivered env ∈ (s.broker.targets env'.tag multiple).map Output.acked := by
      rw [heq]
      simp
    obtain ⟨t, -, ht⟩ := List.mem_map.mp hin
    cases ht
  | requeued | idle | closed => simp at heq

/-- As long as no single ack is of a delivery that was nacked, every published message is in one
place, and a message is handed out marked if it was handed out before and never after it was
settled. As long as no message is handed out twice, and only then, the tags increase from delivery
to delivery, and an ack of everything up to a delivery settles what was handed out up to it. -/
theorem honours_delivery_port (hr : machine.Reach AcksInFlight {} s h) :
    ((s.handed.map Envelope.tag).Pairwise (· < ·) ↔ (s.handed.map Envelope.tag).Nodup) ∧
    ((s.handed.map Envelope.tag).Nodup → ∀ i d, s.handed[i]? = some d →
      (s.broker.ack d.tag true).unacked.keys = s.broker.unacked.keys.filter
        (· ∉ (s.handed.take (i + 1)).map Envelope.tag) ∧
      (s.broker.ack d.tag true).acked = s.broker.acked ++ s.broker.unacked.keys.filter
        (· ∈ (s.handed.take (i + 1)).map Envelope.tag)) ∧
    s.handed = delivered h ∧ s.broker.deadLettered = (deadLetters h).map Envelope.ref ∧
    (∀ t ∈ published h, ∃! place, t ∈ s.tagsAt h place) ∧
    Machine.Caused Delivers h := by
  have hb := Books.of_reach hr
  have hq := Queued.of_reach hr
  refine ⟨⟨?_, ?_⟩, ?_, hb.handed, hb.deadLettered, ?_, delivers_of_reach hr⟩
  · exact fun hinc => hinc.imp ne_of_lt
  · intro hnodup
    rw [List.pairwise_map]
    exact tags_of_reach hr hnodup
  · intro hnodup i d hi
    have hinc := tags_of_reach hr hnodup
    have htargets : s.broker.targets d.tag true = s.broker.unacked.keys.filter
        (· ∈ (s.handed.take (i + 1)).map Envelope.tag) := by
      apply List.filter_congr
      intro t ht
      exact decide_eq_decide.mpr (le_tag_iff hinc hi (hq.unacked t ht))
    rw [InMemoryBroker.ack_eq, htargets, Dict.keys_without]
    refine ⟨?_, rfl⟩
    apply List.filter_congr
    intro t ht
    simp [ht]
  · intro t ht
    exact existsUnique_place (.of_reach hr) (apart_of_reach hr) ht

/-- Of three deliveries one is requeued, one dead-lettered and one acked. -/
theorem honours_delivery_port_mixed :
    ∃ s h, machine.Reach AcksInFlight {} s h ∧ published h = [1, 2, 3, 4] ∧
      s.broker.acked = [3] ∧ s.broker.depth = 2 ∧
      (s.handed.map Envelope.tag).Pairwise (· < ·) ∧
      ∀ t ∈ published h, ∃! place, t ∈ s.tagsAt h place := by
  have hrun : ∃ s h, machine.Reach AcksInFlight {} s h ∧ published h = [1, 2, 3, 4] ∧
      s.broker.acked = [3] ∧ s.broker.depth = 2 ∧ (s.handed.map Envelope.tag).Nodup :=
    Machine.Reach.exists_of_exec
      [.publish ⟨"j", "v", 0, 0, 0, "b0"⟩, .publish ⟨"j", "v", 1, 1, 0, "b1"⟩,
        .publish ⟨"j", "v", 2, 2, 0, "b2"⟩, .publish ⟨"j", "v", 3, 3, 0, "b3"⟩, .deliver,
        .deliver, .deliver, .nack 0 true, .nack 1 false, .ack 2 true]
      (by decide +kernel)
  obtain ⟨s, h, hr, hpub, hacked, hdepth, hnodup⟩ := hrun
  obtain ⟨htags, -, -, -, hplaces, -⟩ := honours_delivery_port hr
  exact ⟨s, h, hr, hpub, hacked, hdepth, htags.mpr hnodup, hplaces⟩

/-- The first of two deliveries is requeued and handed out again after the second, under its old
tag. An ack of everything up to it leaves the second, which was handed out before it. A requeued
message that is acked is acked and in the queue. -/
theorem requeued_tag_goes_back :
    (∃ s h, machine.Reach AcksInFlight {} s h ∧ s.handed.map Envelope.tag = [1, 2, 1] ∧
      ¬ (s.handed.map Envelope.tag).Pairwise (· < ·) ∧
      (s.broker.ack 1 true).unacked.keys = [2]) ∧
    ∃ s h, machine.Reach Machine.anyStep {} s h ∧ 1 ∈ s.tagsAt h .ready ∧
      1 ∈ s.tagsAt h .acked :=
  ⟨Machine.Reach.exists_of_exec
    [.publish ⟨"j", "v", 0, 0, 0, "b0"⟩, .publish ⟨"j", "v", 1, 1, 0, "b1"⟩, .deliver, .deliver,
      .nack 0 true, .deliver]
    (by decide +kernel),
  Machine.Reach.exists_of_exec
    [.publish ⟨"j", "v", 0, 0, 0, "b0"⟩, .deliver, .nack 0 true, .ack 0 false]
    (by decide +kernel)⟩

end BrokerRun

end VideoPipeline
