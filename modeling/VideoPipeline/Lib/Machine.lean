import Mathlib.Data.List.Basic
import Mathlib.Logic.Function.Basic

/-!
# Machines with observable outputs

A system is modelled as a partial step function: in a state, an event is either impossible or
leads to a new state and emits a list of outputs. All nondeterminism (scheduling, failures, the
clock) is in the choice of events, so a run is determined by the events it takes.

`Reach` is the set of state and history pairs that runs lead to. The predicate `ok` restricts the
runs: every step has to satisfy it in the state, and after the history, in which it is taken.
-/

/-- A partial step function from states and events to states and outputs. -/
structure Machine (σ ε ω : Type*) where
  step : σ → ε → Option (σ × List ω)

namespace Machine

variable {σ ε ω : Type*} {M : Machine σ ε ω} {ok ok' : σ → List ω → ε → Prop} {s₀ s : σ}
  {h : List ω}

/-- Some run from `s₀`, all of whose steps satisfy `ok`, ends in the state `s` having emitted the
history `h`. -/
inductive Reach (M : Machine σ ε ω) (ok : σ → List ω → ε → Prop) (s₀ : σ) :
    σ → List ω → Prop where
  | init : Reach M ok s₀ s₀ []
  | step {s s' : σ} {h o : List ω} {e : ε} (hr : Reach M ok s₀ s h) (hok : ok s h e)
      (hs : M.step s e = some (s', o)) : Reach M ok s₀ s' (h ++ o)

/-- No restriction on the steps of a run. -/
def anyStep : σ → List ω → ε → Prop := fun _ _ _ => True

instance : ∀ (s : σ) (h : List ω) (e : ε), Decidable (anyStep s h e) :=
  fun _ _ _ => inferInstanceAs (Decidable True)

/-- A restriction that every possible step meets is none. -/
lemma Reach.mono_step
    (hok : ∀ s h e s' o, M.Reach ok s₀ s h → ok s h e → M.step s e = some (s', o) → ok' s h e)
    (hr : M.Reach ok s₀ s h) : M.Reach ok' s₀ s h := by
  induction hr with
  | init => exact .init
  | step hr ho hs ih => exact .step ih (hok _ _ _ _ _ hr ho hs) hs

lemma Reach.mono (hok : ∀ s h e, ok s h e → ok' s h e) (hr : M.Reach ok s₀ s h) :
    M.Reach ok' s₀ s h :=
  hr.mono_step fun _ _ _ _ _ _ ho _ => hok _ _ _ ho

/-- An unrestricted run is what every restricted run is. -/
lemma Reach.any (hr : M.Reach ok s₀ s h) : M.Reach anyStep s₀ s h :=
  hr.mono fun _ _ _ _ => trivial

/-- What holds at the start and is preserved by every step holds wherever a run leads. The step
may use that its source is reachable. -/
theorem Reach.invariant {P : σ → List ω → Prop} (h₀ : P s₀ [])
    (hstep : ∀ s h e s' o, M.Reach ok s₀ s h → P s h → ok s h e → M.step s e = some (s', o) →
      P s' (h ++ o))
    (hr : M.Reach ok s₀ s h) : P s h := by
  induction hr with
  | init => exact h₀
  | step hr ho hs ih => exact hstep _ _ _ _ _ hr ih ho hs

/-- Where a step puts out one thing at most, every part of a history up to a point is the history
of an earlier state. -/
lemma Reach.exists_prefix (hone : ∀ s e s' o, M.step s e = some (s', o) → o.length ≤ 1)
    (hr : M.Reach ok s₀ s h) {h₁ h₂ : List ω} (heq : h = h₁ ++ h₂) : ∃ s', M.Reach ok s₀ s' h₁ := by
  induction hr generalizing h₂ with
  | init =>
    obtain ⟨rfl, -⟩ := List.append_eq_nil_iff.mp heq.symm
    exact ⟨s₀, .init⟩
  | step hr ho hs ih =>
    rcases List.append_eq_append_iff.mp heq with ⟨l, rfl, hl⟩ | ⟨l, hl, -⟩
    · have hlen := hone _ _ _ _ hs
      cases l with
      | nil =>
        rw [List.append_nil]
        exact ⟨_, hr⟩
      | cons x l =>
        rw [hl, List.length_append, List.length_cons] at hlen
        have hnil : h₂ = [] := List.length_eq_zero_iff.mp (by omega)
        rw [hnil, List.append_nil] at hl
        rw [← hl]
        exact ⟨_, hr.step ho hs⟩
    · exact ih hl

/-! ### Outputs and their causes -/

/-- Every output of a history satisfies `P` with the part of the history before it. -/
def Caused (P : List ω → ω → Prop) (h : List ω) : Prop :=
  ∀ h₁ x h₂, h = h₁ ++ x :: h₂ → P h₁ x

variable {P : List ω → ω → Prop} {o : List ω}

lemma Caused.nil : Caused P [] := by
  intro h₁ x h₂ heq
  simp at heq

/-- The outputs of the first part of a history are caused by what is before them. -/
lemma Caused.of_append (hc : Caused P (h ++ o)) : Caused P h := by
  rintro h₁ x h₂ rfl
  exact hc h₁ x (h₂ ++ o) (by simp)

/-- A history is extended by outputs that are each caused by what is before it. -/
lemma Caused.append_of (hc : Caused P h) (ho : ∀ o₁ x o₂, o = o₁ ++ x :: o₂ → P (h ++ o₁) x) :
    Caused P (h ++ o) := by
  intro h₁ x h₂ heq
  rcases List.append_eq_append_iff.mp heq with ⟨o₁, rfl, ho'⟩ | ⟨l, rfl, hl⟩
  · exact ho o₁ x h₂ ho'
  · cases l with
    | nil =>
      rw [List.append_nil] at ho
      have hx := ho [] x h₂ hl.symm
      rwa [List.append_nil] at hx
    | cons y l =>
      obtain ⟨rfl, -⟩ := List.cons.inj hl
      exact hc h₁ x l rfl

/-- A history is extended by outputs that are caused by it. -/
lemma Caused.append (hmono : ∀ h₁ h₂ x, P h₁ x → P (h₁ ++ h₂) x) (hc : Caused P h)
    (ho : ∀ x ∈ o, P h x) : Caused P (h ++ o) := by
  apply hc.append_of
  rintro o₁ x o₂ rfl
  exact hmono h o₁ x (ho x (by simp))

/-! ### Recording a value -/

section Watched

variable {α : Type*} {f : σ → α} {x x' : σ × List α}

/-- The machine with the values that `f` has had from the start on. -/
def watched (M : Machine σ ε ω) (f : σ → α) : Machine (σ × List α) ε ω where
  step x e := (M.step x.1 e).map fun r => ((r.1, x.2 ++ [f r.1]), r.2)

lemma watched_step {e : ε} (hs : (M.watched f).step x e = some (x', o)) :
    M.step x.1 e = some (x'.1, o) ∧ x'.2 = x.2 ++ [f x'.1] := by
  rw [watched, Option.map_eq_some_iff] at hs
  obtain ⟨⟨s', o'⟩, hs, heq⟩ := hs
  cases heq
  exact ⟨hs, rfl⟩

/-- A run that is recorded is a run. -/
lemma Reach.of_watched {ok : σ × List α → List ω → ε → Prop} {l : List α}
    (hok : ∀ x h e, ok x h e → ok' x.1 h e) (hr : (M.watched f).Reach ok (s₀, l) x h) :
    M.Reach ok' s₀ x.1 h := by
  induction hr with
  | init => exact .init
  | step hr ho hs ih => exact ih.step (hok _ _ _ ho) (watched_step hs).1

end Watched

/-! ### Executing a list of events -/

section Exec

variable [∀ s h e, Decidable (ok s h e)]

/-- Run a list of events, checking `ok` at each, from a state and a history. -/
def exec (M : Machine σ ε ω) (ok : σ → List ω → ε → Prop) [∀ s h e, Decidable (ok s h e)] :
    σ → List ω → List ε → Option (σ × List ω)
  | s, h, [] => some (s, h)
  | s, h, e :: es =>
    if ok s h e then
      match M.step s e with
      | some (s', o) => exec M ok s' (h ++ o) es
      | none => none
    else none

omit [∀ s h e, Decidable (ok s h e)] in
/-- A run is continued by a list of events that executes, also under a tighter restriction. -/
lemma Reach.exec_imp [∀ s h e, Decidable (ok' s h e)] (himp : ∀ s h e, ok' s h e → ok s h e)
    {es : List ε} {s' : σ} {h' : List ω} (hr : M.Reach ok s₀ s h)
    (he : M.exec ok' s h es = some (s', h')) : M.Reach ok s₀ s' h' := by
  induction es generalizing s h with
  | nil =>
    simp only [exec, Option.some.injEq, Prod.mk.injEq] at he
    obtain ⟨rfl, rfl⟩ := he
    exact hr
  | cons e es ih =>
    simp only [exec] at he
    split at he
    · next ho =>
      split at he
      · next hs => exact ih (hr.step (himp _ _ _ ho) hs) he
      · cases he
    · cases he

lemma Reach.exec_from {es : List ε} {s' : σ} {h' : List ω} (hr : M.Reach ok s₀ s h)
    (he : M.exec ok s h es = some (s', h')) : M.Reach ok s₀ s' h' :=
  hr.exec_imp (fun _ _ _ ho => ho) he

/-- A list of events that executes is a run. -/
theorem Reach.of_exec (es : List ε) (he : M.exec ok s₀ [] es = some (s, h)) :
    M.Reach ok s₀ s h :=
  Reach.exec_from .init he

/-- Where, as long as an invariant holds, some allowed events decrease a measure and the other ones
do not increase it, no run takes more of these events than the measure it starts with. -/
theorem countP_le_of_allowed {I : σ → List ω → Prop} {m : σ → ℕ} {q : ε → Bool}
    (hI : ∀ s h e s' o, I s h → ok s h e → M.step s e = some (s', o) → I s' (h ++ o))
    (hlt : ∀ s h e s' o, I s h → ok s h e → M.step s e = some (s', o) → q e = true → m s' < m s)
    (hle : ∀ s h e s' o, I s h → ok s h e → M.step s e = some (s', o) → m s' ≤ m s)
    {es : List ε} {s' : σ} {h' : List ω} (h₀ : I s h) (he : M.exec ok s h es = some (s', h')) :
    es.countP q + m s' ≤ m s := by
  induction es generalizing s h with
  | nil =>
    simp only [exec, Option.some.injEq, Prod.mk.injEq] at he
    rw [List.countP_nil, Nat.zero_add]
    exact Nat.le_of_eq (congrArg m he.1.symm)
  | cons e es ih =>
    simp only [exec] at he
    split at he
    · next ho =>
      split at he
      · next s₁ o hs =>
        have htail := ih (hI _ _ _ _ _ h₀ ho hs) he
        by_cases hq : q e = true
        · rw [List.countP_cons_of_pos hq]
          have := hlt _ _ _ _ _ h₀ ho hs hq
          omega
        · rw [List.countP_cons_of_neg hq]
          exact Nat.le_trans htail (hle _ _ _ _ _ h₀ ho hs)
      · cases he
    · cases he

/-- The same where the events are counted whether or not they are allowed. -/
theorem countP_le_of_exec {I : σ → List ω → Prop} {m : σ → ℕ} {q : ε → Bool}
    (hI : ∀ s h e s' o, I s h → M.step s e = some (s', o) → I s' (h ++ o))
    (hlt : ∀ s h e s' o, I s h → M.step s e = some (s', o) → q e = true → m s' < m s)
    (hle : ∀ s h e s' o, I s h → M.step s e = some (s', o) → m s' ≤ m s) {es : List ε} {s' : σ}
    {h' : List ω} (h₀ : I s h) (he : M.exec ok s h es = some (s', h')) :
    es.countP q + m s' ≤ m s :=
  countP_le_of_allowed (fun _ _ _ _ _ hi _ => hI _ _ _ _ _ hi)
    (fun _ _ _ _ _ hi _ => hlt _ _ _ _ _ hi) (fun _ _ _ _ _ hi _ => hle _ _ _ _ _ hi) h₀ he

/-- Where, as long as an invariant holds and the goal is not met, some allowed event decreases a
measure, the goal is met after no more events than the measure, and the invariant still holds. -/
theorem exists_exec {I : σ → List ω → Prop} {goal : σ → Prop} {m : σ → ℕ}
    (hstep : ∀ s h, I s h → ¬goal s → ∃ e s' o, ok s h e ∧ M.step s e = some (s', o) ∧
      I s' (h ++ o) ∧ m s' < m s) (h₀ : I s h) :
    ∃ es s' h', M.exec ok s h es = some (s', h') ∧ I s' h' ∧ goal s' ∧ es.length ≤ m s := by
  generalize hn : m s = n
  induction n using Nat.strongRecOn generalizing s h with
  | ind n ih =>
    by_cases hgoal : goal s
    · exact ⟨[], s, h, rfl, h₀, hgoal, Nat.zero_le _⟩
    · obtain ⟨e, s₁, o, hok, hs, hI, hlt⟩ := hstep s h h₀ hgoal
      obtain ⟨es, s', h', hexec, hI', hgoal', hlen⟩ := ih (m s₁) (hn ▸ hlt) hI rfl
      refine ⟨e :: es, s', h', ?_, hI', hgoal', ?_⟩
      · simp only [exec, if_pos hok, hs]
        exact hexec
      · rw [List.length_cons]
        omega

/-- A run whose end satisfies a decidable property, found by execution. -/
theorem Reach.exists_of_exec {P : σ → List ω → Prop} [∀ s h, Decidable (P s h)] (es : List ε)
    (he : (M.exec ok s₀ [] es).any (fun r => decide (P r.1 r.2)) = true) :
    ∃ s h, M.Reach ok s₀ s h ∧ P s h := by
  rw [Option.any_eq_true] at he
  obtain ⟨⟨s, h⟩, hr, hp⟩ := he
  exact ⟨s, h, Reach.of_exec es hr, of_decide_eq_true hp⟩

end Exec

end Machine
