import VideoPipeline.Lib.Machine
import VideoPipeline.Detector.Worker

/-!
# What is observed of a worker on a channel

The settlements among the acts of a worker take effect on the channel the deliveries came from.
`μ` is the type of what is on the channel.
-/

namespace VideoPipeline

open Amqp

/-- The acts of a worker and what the broker does with its settlements. A settlement that names a
tag which is not unsettled is a misuse of the channel. -/
inductive Out (μ : Type*) where
  | act (a : Act)
  | settled (x : μ) (v : Verdict)
  | misuse (s : Settle)
  deriving DecidableEq, Repr

variable {μ : Type*} {tag : μ → ℕ}

/-- The settlements among the acts take effect. -/
def perform (c : Channel tag) : List Act → Channel tag × List (Out μ)
  | [] => (c, [])
  | .settle s :: acts =>
    ((perform (c.settle s) acts).1,
      .act (.settle s) :: (if c.Valid s then [] else [.misuse s]) ++
        (c.settledBy s).map (.settled · s.verdict) ++ (perform (c.settle s) acts).2)
  | a :: acts => ((perform c acts).1, .act a :: (perform c acts).2)

lemma perform_quiet {c : Channel tag} {acts : List Act} (h : Worker.Quiet acts) :
    perform c acts = (c, acts.map .act) := by
  induction acts with
  | nil => rfl
  | cons a acts ih =>
    have ih := ih fun s hs => h s (List.mem_cons_of_mem _ hs)
    cases a with
    | settle s => exact absurd List.mem_cons_self (h s)
    | _ => simp [perform, ih]

lemma perform_settle {c : Channel tag} {s : Settle} (hs : c.Valid s) :
    perform c [.settle s] =
      (c.settle s, .act (.settle s) :: (c.settledBy s).map (.settled · s.verdict)) := by
  simp [perform, hs]

def Out.handed? : Out μ → Option Delivery
  | .act (.handed d) => some d
  | _                => none

def Out.settled? : Out μ → Option μ
  | .settled x _ => some x
  | _            => none

/-- The deliveries handed to the handler, in order. -/
def handed (h : List (Out μ)) : List Delivery := h.filterMap Out.handed?

/-- What the broker has settled, in order. -/
def settlements (h : List (Out μ)) : List μ := h.filterMap Out.settled?

@[simp] lemma handed_append (h₁ h₂ : List (Out μ)) :
    handed (h₁ ++ h₂) = handed h₁ ++ handed h₂ :=
  List.filterMap_append

@[simp] lemma settlements_append (h₁ h₂ : List (Out μ)) :
    settlements (h₁ ++ h₂) = settlements h₁ ++ settlements h₂ :=
  List.filterMap_append

@[simp] lemma handed_cons (x : Out μ) (h : List (Out μ)) :
    handed (x :: h) = x.handed?.toList ++ handed h := by
  cases hx : x.handed? <;> simp [handed, hx]

@[simp] lemma settlements_cons (x : Out μ) (h : List (Out μ)) :
    settlements (x :: h) = x.settled?.toList ++ settlements h := by
  cases hx : x.settled? <;> simp [settlements, hx]

@[simp] lemma handed_nil : handed ([] : List (Out μ)) = [] := rfl

@[simp] lemma settlements_nil : settlements ([] : List (Out μ)) = [] := rfl

@[simp] lemma handed_map_settled (xs : List μ) (v : Verdict) :
    handed (xs.map (.settled · v)) = [] := by
  induction xs with
  | nil => rfl
  | cons x xs ih => rw [List.map_cons, handed_cons, ih]; rfl

@[simp] lemma settlements_map_settled (xs : List μ) (v : Verdict) :
    settlements (xs.map (.settled · v)) = xs := by
  induction xs with
  | nil => rfl
  | cons x xs ih => rw [List.map_cons, settlements_cons, ih]; rfl

@[simp] lemma settlements_map_act (acts : List Act) :
    settlements (acts.map (.act : Act → Out μ)) = [] := by
  induction acts with
  | nil => rfl
  | cons a acts ih => rw [List.map_cons, settlements_cons, ih]; rfl

/-- Whatever the acts, what is on the channel stays there or is settled. -/
lemma perform_perm (c : Channel tag) (acts : List Act) :
    (settlements (perform c acts).2 ++ (perform c acts).1.unsettled).Perm c.unsettled := by
  induction acts generalizing c with
  | nil => exact .refl _
  | cons a acts ih =>
    cases a with
    | settle s =>
      have hs : settlements (perform c (.settle s :: acts)).2 =
          c.settledBy s ++ settlements (perform (c.settle s) acts).2 := by
        simp only [perform, settlements_append, settlements_cons, settlements_map_settled]
        split <;> simp [Out.settled?]
      rw [hs, List.append_assoc]
      exact ((ih (c.settle s)).append_left _).trans (c.settledBy_append_settle_perm s)
    | _ => exact ih c

/-- Settlements only take from what is unsettled. -/
lemma perform_sublist (c : Channel tag) (acts : List Act) :
    (perform c acts).1.unsettled.Sublist c.unsettled := by
  induction acts generalizing c with
  | nil => exact .refl _
  | cons a acts ih =>
    cases a with
    | settle s => exact (ih (c.settle s)).trans List.filter_sublist
    | _ => exact ih c

@[simp] lemma perform_lastTag (c : Channel tag) (acts : List Act) :
    (perform c acts).1.lastTag = c.lastTag := by
  induction acts generalizing c with
  | nil => rfl
  | cons a acts ih =>
    cases a with
    | settle s => exact ih (c.settle s)
    | _ => exact ih c

/-- A step of the worker takes no delivery. -/
lemma Worker.Rule.not_handed {cfg : DetectorSettings} {w w' : Worker} {op : Worker.Op}
    {acts : List Act} (h : Worker.Rule cfg w op w' acts) (d : Delivery) : Act.handed d ∉ acts := by
  cases h <;> simp

/-- The acts of a step of the worker hand out nothing. -/
lemma Worker.Rule.handed_acts {cfg : DetectorSettings} {w w' : Worker} {op : Worker.Op}
    {acts : List Act} (h : Worker.Rule cfg w op w' acts) :
    handed (acts.map (.act : Act → Out μ)) = [] := by
  rw [handed, List.filterMap_eq_nil_iff]
  intro o ho
  obtain ⟨a, ha, rfl⟩ := List.mem_map.mp ho
  cases a with
  | handed d => exact absurd ha (h.not_handed d)
  | _ => rfl

end VideoPipeline
