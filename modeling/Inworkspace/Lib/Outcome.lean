import Mathlib.Data.List.Basic

/-!
# Outcomes of two programs

Two programs that may fail are compared by their outcomes: both fail with the same error, or both
succeed and their results are related (`Related`). Where the second one is a specification
that leaves some cases open, it fails there with an error of its own, and nothing is said about
the first one (`RelatedUnless`). Both go through sequencing (`RelatedUnless.bind`).
-/

namespace Inworkspace.Lib.Outcome

variable {ε α β γ δ : Type} {R : α → β → Prop} {R' : γ → δ → Prop}

/-- The same error, or related results. -/
def Related (R : α → β → Prop) : Except ε α → Except ε β → Prop
  | .ok a, .ok b => R a b
  | .error e, .error e' => e = e'
  | _, _ => False

/-- Outcomes with related results are equal as far as the results are. -/
theorem Related.map_eq_map {x : Except ε α} {y : Except ε β} (h : Related R x y) {f : α → γ}
    {g : β → γ} (hfg : ∀ a b, R a b → f a = g b) : x.map f = y.map g := by
  rcases x with e | a <;> rcases y with e' | b
  · exact congrArg _ h
  · exact h.elim
  · exact h.elim
  · exact congrArg _ (hfg a b h)

/-- The same error, or related results, unless the second is an error that leaves the case open. -/
def RelatedUnless (Open : ε → Prop) (R : α → β → Prop) (x : Except ε α) (y : Except ε β) : Prop :=
  (∀ e, y = .error e → ¬ Open e) → Related R x y

namespace RelatedUnless

variable {Open : ε → Prop} {x : Except ε α} {y : Except ε β}

theorem ok {a : α} {b : β} (h : R a b) : RelatedUnless Open R (.ok a) (.ok b) := fun _ => h

theorem error (e : ε) : RelatedUnless Open R (.error e) (.error e) := fun _ => rfl

theorem of_open {e : ε} (h : Open e) : RelatedUnless Open R x (.error e) :=
  fun hopen => absurd h (hopen e rfl)

/-- What the second outcome leaves open where a condition fails matters where it holds. -/
theorem ite {c : Prop} [Decidable c] {e : ε} (he : Open e) (h : c → RelatedUnless Open R x y) :
    RelatedUnless Open R x (if c then y else .error e) := by
  split
  · exact h ‹c›
  · exact of_open he

theorem refl (x : Except ε α) : RelatedUnless Open (· = ·) x x := by
  rcases x with e | a
  · exact error e
  · exact ok rfl

theorem bind {f : α → Except ε γ} {g : β → Except ε δ} (h : RelatedUnless Open R x y)
    (hfg : ∀ a b, R a b → RelatedUnless Open R' (f a) (g b)) :
    RelatedUnless Open R' (x >>= f) (y >>= g) := by
  intro hopen
  rcases y with e | b
  · have hx := h fun e' he => hopen e' (congrArg (· >>= g) he)
    rcases x with e' | a
    · exact hx
    · exact hx.elim
  · have hx := h fun e he => by cases he
    rcases x with e' | a
    · exact hx.elim
    · exact hfg a b hx hopen

end RelatedUnless

end Inworkspace.Lib.Outcome
