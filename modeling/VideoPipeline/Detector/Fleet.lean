import VideoPipeline.Detector.Flow
import VideoPipeline.Detector.Settlement
import VideoPipeline.Lib.Family

/-!
# Detectors over shared queues

Several detectors, the messages the broker has ready for them and the keys the dedup guard has
recorded. The broker chooses which ready message it hands out and where it puts a requeued one,
a consumer that reads several queues chooses which of its prefetched deliveries it yields next.
With one ordered queue both are the first of their list.
-/

namespace VideoPipeline

open Amqp

/-- A message that is ready for delivery. -/
structure Message where
  ref : FrameRef
  redelivered : Bool
  deriving DecidableEq, Repr

def Out.act? {μ : Type*} : Out μ → Option Act
  | .act a => some a
  | _      => none

/-- What the broker puts back into the queue. -/
def Out.requeued? : Out Delivery → Option Delivery
  | .settled x .requeued => some x
  | _                    => none

/-- Requeued deliveries become ready again, each at the position the broker gives it. -/
def requeue (pos : Delivery → ℕ) (ds : List Delivery) (queue : List Message) : List Message :=
  ds.foldr (fun x q => q.take (pos x) ++ ⟨x.ref, true⟩ :: q.drop (pos x)) queue

/-- The consumer yields the prefetched delivery number `i` next. -/
def Replica.pick (r : Replica) (i : ℕ) : Option Replica :=
  match r.prefetched[i]? with
  | some x => some { r with prefetched := x :: r.prefetched.eraseIdx i }
  | none   => none

structure Fleet where
  queue : List Message
  guard : List String
  replicas : ℕ → Replica

namespace Fleet

def init : Fleet := ⟨[], [], fun _ => Replica.init⟩

inductive Event where
  | publish (ref : FrameRef)
  | deliver (d i tag : ℕ)
  | take (d i : ℕ) (now : ℚ)
  | work (d : ℕ) (op : Worker.Op) (pos : ℕ)
  | expire (key : String)
  | crash (d : ℕ) (pos : Delivery → ℕ)

inductive Output where
  | published (ref : FrameRef)
  | replica (d : ℕ) (o : Out Delivery)
  deriving DecidableEq, Repr

/-- The step of a replica takes effect on the queue and on the guard. -/
def commit (f : Fleet) (d pos : ℕ) (r : Replica) (out : List (Out Delivery)) :
    Option (Fleet × List Output) :=
  match answer f.guard (out.filterMap Out.act?) with
  | some guard =>
    some (⟨requeue (fun _ => pos) (out.filterMap Out.requeued?) f.queue, guard,
      Function.update f.replicas d r⟩, out.map (.replica d))
  | none => none

/-- The steps of `n` detectors and their environment. A detector that crashes comes back fresh,
and the broker requeues what it had not settled. -/
def step (cfg : DetectorSettings) (n : ℕ) (f : Fleet) : Event → Option (Fleet × List Output)
  | .publish ref => some ({ f with queue := f.queue ++ [⟨ref, false⟩] }, [.published ref])
  | .deliver d i tag =>
    if d < n then
      match f.queue[i]? with
      | some m =>
        match (f.replicas d).step cfg (.deliver m.ref m.redelivered tag) with
        | some (r, out) => commit { f with queue := f.queue.eraseIdx i } d 0 r out
        | none => none
      | none => none
    else none
  | .take d i now =>
    if d < n then
      match (f.replicas d).pick i with
      | some r₀ =>
        match r₀.step cfg (.take now) with
        | some (r, out) => f.commit d 0 r out
        | none => none
      | none => none
    else none
  | .work d op pos =>
    if d < n then
      match (f.replicas d).step cfg (.work op) with
      | some (r, out) => f.commit d pos r out
      | none => none
    else none
  | .expire key => some ({ f with guard := f.guard.filter (· ≠ key) }, [])
  | .crash d pos =>
    if d < n then
      some ({ f with
        queue := requeue pos (f.replicas d).channel.unsettled f.queue
        replicas := Function.update f.replicas d Replica.init }, [])
    else none

/-- `n` detectors, as a machine. -/
def machine (cfg : DetectorSettings) (n : ℕ) : Machine Fleet Event Output := ⟨step cfg n⟩

def Output.replica? (d : ℕ) : Output → Option (Out Delivery)
  | .replica d' o => if d' = d then some o else none
  | _             => none

/-- The part of a history that one detector has made. -/
def ofReplica (d : ℕ) (h : List Output) : List (Out Delivery) := h.filterMap (Output.replica? d)

def Output.act? : Output → Option Act
  | .replica _ (.act a) => some a
  | _                   => none

/-- The acts of all detectors. -/
def acts (h : List Output) : List Act := h.filterMap Output.act?

/-- The results of all sink calls, in the order of the calls. -/
def called (h : List Output) : List Pending := (acts h).flatMap Act.called

/-- The results of the sink calls that returned, in the order of the returns. -/
def returned (h : List Output) : List Pending := (acts h).flatMap Act.returned

def Output.published? : Output → Option FrameRef
  | .published ref => some ref
  | _              => none

/-- The frames that were published, in order. -/
def published (h : List Output) : List FrameRef := h.filterMap Output.published?

variable {cfg : DetectorSettings} {n : ℕ} {f f' : Fleet} {e : Event} {out h : List Output}

/-- The guard keeps its keys and does not let a frame pass without recording it. -/
def guardKeeps : Fleet → List Output → Event → Prop
  | _, _, .expire _                      => False
  | _, _, .work _ (.claimed .failedOpen) _ => False
  | _, _, _                              => True

instance (f : Fleet) (h : List Output) (e : Event) : Decidable (guardKeeps f h e) := by
  unfold guardKeeps
  split <;> infer_instance

/-! ### What a step of the fleet does -/

/-- The steps of a fleet. -/
inductive Rule (cfg : DetectorSettings) (n : ℕ) (f : Fleet) :
    Event → Fleet → List Output → Prop where
  | publish (ref : FrameRef) :
      Rule cfg n f (.publish ref) { f with queue := f.queue ++ [⟨ref, false⟩] } [.published ref]
  | deliver (d i tag : ℕ) (m : Message) (c : Channel Delivery.tag) (hd : d < n)
      (hm : f.queue[i]? = some m)
      (hc : (f.replicas d).channel.deliver ⟨m.ref, tag, m.redelivered⟩ = some c) :
      Rule cfg n f (.deliver d i tag)
        ⟨f.queue.eraseIdx i, f.guard, Function.update f.replicas d { f.replicas d with
          channel := c
          prefetched := (f.replicas d).prefetched ++ [⟨m.ref, tag, m.redelivered⟩] }⟩ []
  | take (d i : ℕ) (now : ℚ) (x : Delivery) (w : Worker) (acts : List Act) (hd : d < n)
      (hx : (f.replicas d).prefetched[i]? = some x)
      (hw : (f.replicas d).worker.take cfg x now = some (w, acts)) :
      Rule cfg n f (.take d i now)
        { f with replicas := Function.update f.replicas d { f.replicas d with
          worker := w
          prefetched := (f.replicas d).prefetched.eraseIdx i } }
        (acts.map fun a => .replica d (.act a))
  | work (d : ℕ) (op : Worker.Op) (pos : ℕ) (w : Worker) (acts : List Act) (guard : List String)
      (hd : d < n) (hw : (f.replicas d).worker.step cfg op = some (w, acts))
      (hg : answer f.guard acts = some guard) :
      Rule cfg n f (.work d op pos)
        ⟨requeue (fun _ => pos)
            ((perform (f.replicas d).channel acts).2.filterMap Out.requeued?) f.queue,
          guard, Function.update f.replicas d { f.replicas d with
            worker := w
            channel := (perform (f.replicas d).channel acts).1 }⟩
        ((perform (f.replicas d).channel acts).2.map (.replica d))
  | expire (key : String) :
      Rule cfg n f (.expire key) { f with guard := f.guard.filter (· ≠ key) } []
  | crash (d : ℕ) (pos : Delivery → ℕ) (hd : d < n) :
      Rule cfg n f (.crash d pos)
        { f with
          queue := requeue pos (f.replicas d).channel.unsettled f.queue
          replicas := Function.update f.replicas d Replica.init } []

lemma commit_eq_some {d pos : ℕ} {r : Replica} {o : List (Out Delivery)}
    (hs : f.commit d pos r o = some (f', out)) :
    ∃ guard, answer f.guard (o.filterMap Out.act?) = some guard ∧
      f' = ⟨requeue (fun _ => pos) (o.filterMap Out.requeued?) f.queue, guard,
        Function.update f.replicas d r⟩ ∧ out = o.map (.replica d) := by
  simp only [commit] at hs
  split at hs
  · next guard hg =>
    cases hs
    exact ⟨guard, hg, rfl, rfl⟩
  · cases hs

lemma perform_acts {μ : Type*} {tag : μ → ℕ} (c : Channel tag) (acts : List Act) :
    (perform c acts).2.filterMap Out.act? = acts := by
  induction acts generalizing c with
  | nil => rfl
  | cons a acts ih =>
    cases a with
    | settle s =>
      simp only [perform, List.cons_append, List.filterMap_cons, Out.act?, List.filterMap_append,
        ih, List.cons.injEq, true_and]
      have hs : (List.map (Out.settled · s.verdict) (c.settledBy s)).filterMap Out.act? = [] := by
        simp [Out.act?]
      rw [hs]
      split <;> rfl
    | _ => simp [perform, Out.act?, ih]

lemma answer_take {w w' : Worker} {x : Delivery} {now : ℚ} {acts : List Act}
    (hw : w.take cfg x now = some (w', acts)) (guard : List String) :
    answer guard acts = some guard := by
  obtain ⟨-, ⟨-, rfl⟩ | ⟨-, -, rfl⟩⟩ := Worker.take_cases hw <;> rfl

/-- Every step of a fleet is one of the rules. -/
theorem Rule.of_step (hs : f.step cfg n e = some (f', out)) : Rule cfg n f e f' out := by
  cases e with
  | publish ref => cases hs; exact .publish ref
  | expire key => cases hs; exact .expire key
  | deliver d i tag =>
    simp only [Fleet.step] at hs
    split at hs
    · next hd =>
      split at hs
      · next m hm =>
        simp only [Replica.step] at hs
        split at hs
        · next hr =>
          split at hr
          · next c hc =>
            cases hr
            obtain ⟨guard, hg, rfl, rfl⟩ := commit_eq_some hs
            cases hg
            exact .deliver d i tag m c hd hm hc
          · cases hr
        · cases hs
      · cases hs
    · cases hs
  | take d i now =>
    simp only [Fleet.step] at hs
    split at hs
    · next hd =>
      split at hs
      · next r₀ hr₀ =>
        simp only [Replica.pick] at hr₀
        split at hr₀
        · next x hx =>
          cases hr₀
          simp only [Replica.step] at hs
          split at hs
          · next r o hr =>
            split at hr
            · next w acts hw =>
              cases hr
              obtain ⟨guard, hg, rfl, rfl⟩ := commit_eq_some hs
              rw [perform_acts, answer_take hw] at hg
              cases hg
              rw [perform_quiet (Worker.take_effect hw).2.2, List.map_map]
              have hnone : (acts.map Out.act).filterMap Out.requeued? = [] := by
                simp [Out.requeued?]
              rw [hnone]
              exact .take d i now x w acts hd hx hw
            · cases hr
          · cases hs
        · cases hr₀
      · cases hs
    · cases hs
  | work d op pos =>
    simp only [Fleet.step] at hs
    split at hs
    · next hd =>
      simp only [Replica.step] at hs
      split at hs
      · next hr =>
        split at hr
        · next w acts hw =>
          cases hr
          obtain ⟨guard, hg, rfl, rfl⟩ := commit_eq_some hs
          rw [perform_acts] at hg
          exact .work d op pos w acts guard hd hw hg
        · cases hr
      · cases hs
    · cases hs
  | crash d pos =>
    simp only [Fleet.step] at hs
    split at hs
    · next hd => cases hs; exact .crash d pos hd
    · cases hs

/-! ### Requeued messages -/

lemma requeued_sublist (o : List (Out Delivery)) :
    (o.filterMap Out.requeued?).Sublist (settlements o) := by
  induction o with
  | nil => exact .refl _
  | cons x o ih =>
    rw [settlements_cons, List.filterMap_cons]
    cases x with
    | settled x v =>
      cases v with
      | requeued => exact ih.cons_cons x
      | _ => exact ih.cons x
    | _ => exact ih

/-- A ready message was ready before or has been requeued. -/
lemma mem_requeue {pos : Delivery → ℕ} {ds : List Delivery} {q : List Message} {m : Message}
    (hm : m ∈ requeue pos ds q) : m ∈ q ∨ ∃ x ∈ ds, m.ref = x.ref := by
  induction ds with
  | nil => exact .inl hm
  | cons x ds ih =>
    simp only [requeue, List.foldr_cons, List.mem_append, List.mem_cons] at hm
    have hrest : m ∈ requeue pos ds q → m ∈ q ∨ ∃ y ∈ x :: ds, m.ref = y.ref := by
      intro h
      rcases ih h with h | ⟨y, hy, hmy⟩
      · exact .inl h
      · exact .inr ⟨y, List.mem_cons_of_mem _ hy, hmy⟩
    rcases hm with hm | rfl | hm
    · exact hrest (List.mem_of_mem_take hm)
    · exact .inr ⟨x, List.mem_cons_self, rfl⟩
    · exact hrest (List.mem_of_mem_drop hm)

/-- What a detector's step requeues was unsettled on its channel. -/
lemma requeued_unsettled {c : Channel Delivery.tag} {as : List Act} {x : Delivery}
    (hx : x ∈ (perform c as).2.filterMap Out.requeued?) : x ∈ c.unsettled :=
  (perform_perm c as).mem_iff.mp (List.mem_append_left _ ((requeued_sublist _).mem hx))

/-! ### Histories -/

@[simp] lemma ofReplica_append (d : ℕ) (h₁ h₂ : List Output) :
    ofReplica d (h₁ ++ h₂) = ofReplica d h₁ ++ ofReplica d h₂ :=
  List.filterMap_append

@[simp] lemma acts_append (h₁ h₂ : List Output) : acts (h₁ ++ h₂) = acts h₁ ++ acts h₂ :=
  List.filterMap_append

@[simp] lemma called_append (h₁ h₂ : List Output) : called (h₁ ++ h₂) = called h₁ ++ called h₂ := by
  simp [called]

@[simp] lemma returned_append (h₁ h₂ : List Output) :
    returned (h₁ ++ h₂) = returned h₁ ++ returned h₂ := by
  simp [returned]

@[simp] lemma published_append (h₁ h₂ : List Output) :
    published (h₁ ++ h₂) = published h₁ ++ published h₂ :=
  List.filterMap_append

lemma ofReplica_map_self (d : ℕ) (o : List (Out Delivery)) :
    ofReplica d (o.map (.replica d)) = o := by
  induction o with
  | nil => rfl
  | cons x o ih =>
    rw [ofReplica, List.map_cons, List.filterMap_cons]
    simpa [Output.replica?, ofReplica] using ih

lemma ofReplica_map_of_ne {d d' : ℕ} (hne : d' ≠ d) (o : List (Out Delivery)) :
    ofReplica d (o.map (.replica d')) = [] := by
  simp [ofReplica, Output.replica?, hne]

lemma ofReplica_map_act (d : ℕ) (as : List Act) :
    ofReplica d (as.map fun a => .replica d (.act a)) = as.map .act := by
  have h := ofReplica_map_self d (as.map Out.act)
  rwa [List.map_map] at h

lemma acts_map_replica (d : ℕ) (o : List (Out Delivery)) :
    acts (o.map (.replica d)) = o.filterMap Out.act? := by
  rw [acts, List.filterMap_map]
  apply List.filterMap_congr
  intro x _
  cases x <;> rfl

lemma acts_map_act (d : ℕ) (as : List Act) : acts (as.map fun a => .replica d (.act a)) = as := by
  rw [acts, List.filterMap_map]
  exact List.filterMap_some

lemma acts_perform (d : ℕ) (c : Channel Delivery.tag) (as : List Act) :
    acts ((perform c as).2.map (.replica d)) = as := by
  rw [acts_map_replica, perform_acts]

lemma returned_map_act (d : ℕ) (as : List Act) :
    returned (as.map fun a => .replica d (.act a)) = as.flatMap Act.returned := by
  rw [returned, acts_map_act]

lemma returned_perform (d : ℕ) (c : Channel Delivery.tag) (as : List Act) :
    returned ((perform c as).2.map (.replica d)) = as.flatMap Act.returned := by
  rw [returned, acts_perform]

lemma published_map_replica (d : ℕ) (o : List (Out Delivery)) :
    published (o.map (.replica d)) = [] := by
  simp [published, Output.published?]

/-- What a detector did is in the history of the fleet. -/
lemma mem_ofReplica {d : ℕ} {o : Out Delivery} : o ∈ ofReplica d h ↔ .replica d o ∈ h := by
  simp only [ofReplica, List.mem_filterMap]
  constructor
  · rintro ⟨x, hx, hxo⟩
    cases x with
    | published ref => cases hxo
    | replica d' o' =>
      simp only [Output.replica?, Option.ite_none_right_eq_some, Option.some.injEq] at hxo
      obtain ⟨rfl, rfl⟩ := hxo
      exact hx
  · intro hx
    exact ⟨_, hx, by simp [Output.replica?]⟩

lemma mem_acts {d : ℕ} {a : Act} (ha : .act a ∈ ofReplica d h) : a ∈ acts h :=
  List.mem_filterMap.mpr ⟨_, mem_ofReplica.mp ha, rfl⟩

/-! ### Results and claims in a step -/

/-- A step leaves all results where they are, or one worker goes on and the guard gives the replies
it asked for, or one detector crashes. -/
theorem Rule.effect (hr : Rule cfg n f e f' out) :
    ((∀ k ∈ f'.guard, k ∈ f.guard) ∧ ((∀ key, e ≠ .expire key) → f'.guard = f.guard) ∧
      (∀ d, (f'.replicas d).worker.sinking = (f.replicas d).worker.sinking ∧
        (f'.replicas d).worker.awaiting = (f.replicas d).worker.awaiting) ∧
      called out = [] ∧ returned out = []) ∨
    (∃ d op pos as, e = .work d op pos ∧ d < n ∧
      Worker.Rule cfg (f.replicas d).worker op (f'.replicas d).worker as ∧
      answer f.guard as = some f'.guard ∧ acts out = as ∧
      ∀ i, i ≠ d → f'.replicas i = f.replicas i) ∨
    (∃ d pos, e = .crash d pos ∧ d < n ∧ f'.guard = f.guard ∧ out = [] ∧
      (f'.replicas d).worker = {} ∧ ∀ i, i ≠ d → f'.replicas i = f.replicas i) := by
  have hother : ∀ (d : ℕ) (r : Replica) (i : ℕ), i ≠ d →
      Function.update f.replicas d r i = f.replicas i :=
    fun _ _ _ hi => Function.update_of_ne hi _ _
  cases hr with
  | publish ref => exact .inl ⟨fun _ hk => hk, fun _ => rfl, fun _ => ⟨rfl, rfl⟩, rfl, rfl⟩
  | expire key =>
    exact .inl ⟨fun _ hk => (List.mem_filter.mp hk).1, fun h => absurd rfl (h key),
      fun _ => ⟨rfl, rfl⟩, rfl, rfl⟩
  | deliver d i tag m c hd hm hc =>
    refine .inl ⟨fun _ hk => hk, fun _ => rfl, fun d' => ?_, rfl, rfl⟩
    by_cases hdd : d' = d
    · subst hdd
      simp only [Function.update_self, and_self]
    · simp only [hother d _ d' hdd, and_self]
  | take d i now x w as hd hx hw =>
    obtain ⟨hs, ha, -, hcall, hret⟩ := Worker.take_flow hw
    refine .inl ⟨fun _ hk => hk, fun _ => rfl, fun d' => ?_, ?_, ?_⟩
    · by_cases hdd : d' = d
      · subst hdd
        simp only [Function.update_self]
        exact ⟨hs, ha⟩
      · simp only [hother d _ d' hdd, and_self]
    · rw [called, acts_map_act, hcall]
    · rw [returned, acts_map_act, hret]
  | work d op pos w as guard hd hw hg =>
    refine .inr (.inl ⟨d, op, pos, as, rfl, hd, ?_, hg, acts_perform d _ as, hother d _⟩)
    simp only [Function.update_self]
    exact Worker.Rule.of_step hw
  | crash d pos hd =>
    refine .inr (.inr ⟨d, pos, rfl, hd, rfl, rfl, ?_, hother d _⟩)
    simp only [Function.update_self, Replica.init]

/-- Every result carries the ids of its frame. -/
def Labelled (f : Fleet) (h : List Output) : Prop :=
  (∀ d, ∀ p ∈ (f.replicas d).worker.unreturned, p.Labelled) ∧ ∀ p ∈ returned h, p.Labelled

lemma Labelled.step (hl : Labelled f h) (hr : Rule cfg n f e f' out) :
    Labelled f' (h ++ out) := by
  obtain ⟨hun, hret⟩ := hl
  rcases hr.effect with ⟨-, -, hsame, -, hnone⟩ | ⟨d, op, pos, as, rfl, hd, hw, hg, has, hne⟩ |
    ⟨d, pos, rfl, hd, -, rfl, hnew, hne⟩
  · constructor
    · intro d p hp
      rw [Worker.unreturned, (hsame d).1, (hsame d).2] at hp
      exact hun d p hp
    · rwa [returned_append, hnone, List.append_nil]
  · have horigin : ∀ p, p ∈ (f'.replicas d).worker.unreturned ∨ p ∈ as.flatMap Act.returned →
        p.Labelled := by
      intro p hp
      rcases hw.unreturned_origin hp with h₁ | h₁
      · exact hun d p h₁
      · exact hw.won_labelled h₁
    constructor
    · intro d' p hp
      by_cases hdd : d' = d
      · subst hdd
        exact horigin p (.inl hp)
      · exact hun d' p (hne d' hdd ▸ hp)
    · intro p hp
      rw [returned_append, returned, returned, has] at hp
      rcases List.mem_append.mp hp with hp | hp
      · exact hret p hp
      · exact horigin p (.inr hp)
  · constructor
    · intro d' p hp
      by_cases hdd : d' = d
      · subst hdd
        rw [hnew] at hp
        cases hp
      · exact hun d' p (hne d' hdd ▸ hp)
    · rwa [List.append_nil]

/-! ### Each detector in an ordered run -/

/-- There is one queue, and the consumer yields its messages in the order it gets them. -/
def Event.InOrder : Event → Prop
  | .deliver _ i _ => i = 0
  | .take _ i _    => i = 0
  | _              => True

instance : DecidablePred Event.InOrder
  | .deliver _ i _ => inferInstanceAs (Decidable (i = 0))
  | .take _ i _ => inferInstanceAs (Decidable (i = 0))
  | .publish _ | .work _ _ _ | .expire _ | .crash _ _ => inferInstanceAs (Decidable True)

lemma Replica.pick_zero_take {r : Replica} {x : Delivery} {w : Worker} {acts : List Act} {now : ℚ}
    (hx : r.prefetched[0]? = some x) (hw : r.worker.take cfg x now = some (w, acts)) :
    r.step cfg (.take now) =
      some ({ r with worker := w, prefetched := r.prefetched.eraseIdx 0 }, acts.map .act) := by
  obtain ⟨ds, hp⟩ : ∃ ds, r.prefetched = x :: ds := by
    cases hr : r.prefetched with
    | nil => simp [hr] at hx
    | cons y ds =>
      rw [hr, List.getElem?_cons_zero, Option.some.injEq] at hx
      exact ⟨ds, by rw [hx]⟩
  simp only [Replica.step, hp, hw, perform_quiet (Worker.take_effect hw).2.2, List.eraseIdx_zero,
    List.tail_cons]

/-- Seen from one detector, a step of an ordered run is a step of its own, its crash, or nothing. -/
lemma Rule.replica (hr : Rule cfg n f e f' out) (hord : e.InOrder) (d : ℕ) :
    (f'.replicas d = f.replicas d ∧ ofReplica d out = []) ∨
    (f'.replicas d = Replica.init ∧ ofReplica d out = []) ∨
    ∃ e', (f.replicas d).step cfg e' = some (f'.replicas d, ofReplica d out) := by
  cases hr with
  | publish | expire => exact .inl ⟨rfl, rfl⟩
  | deliver d' i tag m c hd hm hc =>
    by_cases hdd : d = d'
    · subst hdd
      refine .inr (.inr ⟨.deliver m.ref m.redelivered tag, ?_⟩)
      simp [Replica.step, hc, ofReplica]
    · exact .inl ⟨by simp [hdd], rfl⟩
  | take d' i now x w acts hd hx hw =>
    by_cases hdd : d = d'
    · subst hdd
      obtain rfl : i = 0 := hord
      refine .inr (.inr ⟨.take now, ?_⟩)
      simp only [Replica.pick_zero_take hx hw, Function.update_self, ofReplica_map_act]
    · refine .inl ⟨by simp [hdd], ?_⟩
      have h := ofReplica_map_of_ne (Ne.symm hdd) (acts.map Out.act)
      rwa [List.map_map] at h
  | work d' op pos w acts guard hd hw hg =>
    by_cases hdd : d = d'
    · subst hdd
      refine .inr (.inr ⟨.work op, ?_⟩)
      simp only [Replica.step, hw, ofReplica_map_self, Function.update_self]
    · exact .inl ⟨by simp [hdd], ofReplica_map_of_ne (Ne.symm hdd) _⟩
  | crash d' pos hd =>
    by_cases hdd : d = d'
    · subst hdd
      exact .inr (.inl ⟨Function.update_self .., rfl⟩)
    · exact .inl ⟨by simp [hdd], rfl⟩

/-- Every detector of an ordered run holds what its channel has unsettled, and has a reason for
each ack. -/
structure Sound (f : Fleet) (h : List Output) : Prop where
  inv : ∀ d, (f.replicas d).Inv
  evidence : ∀ d, (f.replicas d).worker.Evidence fun a => .act a ∈ ofReplica d h
  ackCause : ∀ d, ∀ x ∈ ofReplica d h, Replica.AckCause (ofReplica d h) x

lemma Sound.init (guard : List String) : Sound { Fleet.init with guard := guard } [] :=
  ⟨fun _ => Replica.inv_init, fun _ => .init _, by simp [ofReplica]⟩

theorem Sound.step (hsound : Sound f h) (hr : Rule cfg n f e f' out) (hord : e.InOrder) :
    Sound f' (h ++ out) := by
  have hone : ∀ d, (f'.replicas d).Inv ∧
      ((f'.replicas d).worker.Evidence fun a => .act a ∈ ofReplica d h ++ ofReplica d out) ∧
      ∀ x ∈ ofReplica d h ++ ofReplica d out,
        Replica.AckCause (ofReplica d h ++ ofReplica d out) x := by
    intro d
    rcases hr.replica hord d with ⟨heq, ho⟩ | ⟨heq, ho⟩ | ⟨e', hs⟩
    · rw [heq, ho, List.append_nil]
      exact ⟨hsound.inv d, hsound.evidence d, hsound.ackCause d⟩
    · rw [heq, ho, List.append_nil]
      exact ⟨Replica.inv_init, .init _, hsound.ackCause d⟩
    · have hr' := Replica.Rule.of_step (hsound.inv d) hs
      refine ⟨(hsound.inv d).rule hr', hr'.evidence (hsound.evidence d), ?_⟩
      intro x hx
      apply Replica.AckCause.mono
      rcases List.mem_append.mp hx with hx | hx
      · exact hsound.ackCause d x hx
      · exact hr'.ackCause (hsound.evidence d) x hx
  simp only [← ofReplica_append] at hone
  exact ⟨fun d => (hone d).1, fun d => (hone d).2.1, fun d => (hone d).2.2⟩

end Fleet

end VideoPipeline
