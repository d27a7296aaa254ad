import Mathlib.Data.Option.Basic

/-!
# Interleavings

Several parties that take steps on a common state, in any order. A step is an action that the
state enables and what it leads to. Runs are those in which each action is
allowed where it is taken; what holds at first and is kept by these actions holds
throughout (`Run.induction`).
-/

namespace Inworkspace.Lib.Interleaving

/-- Parties that share a state: where they start, and what an enabled action leads to. -/
structure System (S A : Type) where
  Initial : S → Prop
  step : S → A → Option S

variable {S A : Type} {sys : System S A} {Allowed : S → A → Prop}

/-- The states that allowed actions lead to. -/
inductive Run (sys : System S A) (Allowed : S → A → Prop) : S → Prop
  | initial {s : S} : sys.Initial s → Run sys Allowed s
  | step {s s' : S} {a : A} : Run sys Allowed s → Allowed s a → sys.step s a = some s' →
    Run sys Allowed s'

/-- An invariant. -/
theorem Run.induction {P : S → Prop} (hinitial : ∀ s, sys.Initial s → P s)
    (hstep : ∀ s a s', P s → Allowed s a → sys.step s a = some s' → P s') {s : S}
    (h : Run sys Allowed s) : P s := by
  induction h with
  | initial h => exact hinitial _ h
  | step _ hallowed hs ih => exact hstep _ _ _ ih hallowed hs

/-- Actions that are allowed everywhere, one after the other. -/
theorem Run.foldlM {actions : List A} {s s' : S} (h : Run sys Allowed s)
    (hallowed : ∀ a ∈ actions, ∀ s, Allowed s a) (hs : actions.foldlM sys.step s = some s') :
    Run sys Allowed s' := by
  induction actions generalizing s with
  | nil => exact Option.some.inj hs ▸ h
  | cons a actions ih =>
    rw [List.forall_mem_cons] at hallowed
    obtain ⟨s₁, hstep, hs⟩ := Option.bind_eq_some_iff.mp hs
    exact ih (.step h (hallowed.1 s) hstep) hallowed.2 hs

end Inworkspace.Lib.Interleaving
