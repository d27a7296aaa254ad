import Mathlib.Logic.Basic

/-!
# Computations with a state that can fail

Rules for `EStateM`, in which a computation that fails keeps the changes it has
made to the state. What a computation that succeeds returns is read off its
parts (`bind_eq_ok_iff`); an invariant has to be kept whether or not it
succeeds (`Keeps`).
-/

namespace Inworkspace.Lib.Stateful

open EStateM

variable {ε σ α β : Type}

/-- The state a computation ends in. -/
def stateOf : EStateM.Result ε σ α → σ
  | .ok _ s => s
  | .error _ s => s

variable {x : EStateM ε σ α} {f : α → EStateM ε σ β} {s s' : σ} {a : α} {ε' : Type}

theorem bind_eq_ok_iff {s'' : σ} {b : β} :
    (x >>= f) s = .ok b s'' ↔ ∃ a s', x s = .ok a s' ∧ f a s' = .ok b s'' := by
  change EStateM.bind x f s = _ ↔ _
  rw [EStateM.bind]
  cases x s with
  | ok a s' =>
    refine ⟨fun h => ⟨a, s', rfl, h⟩, ?_⟩
    rintro ⟨_, _, ⟨⟩, h⟩
    exact h
  | error e s' => simp

@[simp]
theorem pure_eq_ok_iff {a b : α} : (pure a : EStateM ε σ α) s = .ok b s' ↔ a = b ∧ s = s' := by
  simp [pure, EStateM.pure]

@[simp]
theorem throw_ne_ok {e : ε} : (throw e : EStateM ε σ α) s ≠ .ok a s' := nofun

theorem run_get_bind (f : σ → EStateM ε σ β) (s : σ) : (MonadState.get >>= f) s = f s s := rfl

theorem get_bind_eq_ok_iff {f : σ → EStateM ε σ β} {b : β} :
    (MonadState.get >>= f) s = .ok b s' ↔ f s s = .ok b s' := Iff.rfl

@[simp]
theorem ofExcept_eq_ok_iff {x : Except ε α} :
    (ofExcept x : EStateM ε σ α) s = .ok a s' ↔ x = .ok a ∧ s = s' := by
  cases x <;> simp [ofExcept]

@[simp]
theorem adaptExcept_eq_ok_iff {f : ε → ε'} :
    adaptExcept f x s = .ok a s' ↔ x s = .ok a s' := by
  rw [adaptExcept]
  cases x s <;> simp

/-- The computation has succeeded. -/
def isOk : EStateM.Result ε σ α → Bool
  | .ok _ _ => true
  | .error _ _ => false

theorem exists_eq_ok_of_isOk {x : EStateM.Result ε σ α} (h : isOk x = true) :
    ∃ a s, x = .ok a s := by
  cases x with
  | ok a s => exact ⟨a, s, rfl⟩
  | error e s => cases h

/-! ## Invariants -/

/-- What holds after the first computation, and after the second, if there is one, holds after
    both. -/
theorem holds_bind {I : σ → Prop} (hx : I (stateOf (x s)))
    (hf : ∀ a s', x s = .ok a s' → I (stateOf (f a s'))) : I (stateOf ((x >>= f) s)) := by
  change I (stateOf (EStateM.bind x f s))
  rw [EStateM.bind]
  cases hxs : x s with
  | ok a s' => exact hf a s' hxs
  | error e s' => rwa [hxs] at hx

/-- The invariant holds after the computation, if it did before. -/
def Keeps (I : σ → Prop) (x : EStateM ε σ α) : Prop := ∀ s, I s → I (stateOf (x s))

namespace Keeps

variable {I : σ → Prop}

theorem pure (a : α) : Keeps I (pure a : EStateM ε σ α) := fun _ hs => hs

theorem throw (e : ε) : Keeps I (throw e : EStateM ε σ α) := fun _ hs => hs

theorem get : Keeps I (get : EStateM ε σ σ) := fun _ hs => hs

theorem ofExcept (x : Except ε α) : Keeps I (ofExcept x : EStateM ε σ α) := by
  cases x with
  | ok a => exact pure a
  | error e => exact throw e

variable {f : σ → EStateM ε σ β}

theorem bind {f : α → EStateM ε σ β} (hx : Keeps I x) (hf : ∀ a, Keeps I (f a)) :
    Keeps I (x >>= f) := fun s hs =>
  holds_bind (hx s hs) fun a s' hxs => hf a s' (by
    have hs' := hx s hs
    rwa [hxs] at hs')

/-- What follows a read of the state may rely on the state that was read. -/
theorem bind_get (hf : ∀ s, I s → I (stateOf (f s s))) : Keeps I (MonadState.get >>= f) := hf

/-- The invariant in the state a successful computation ends in. -/
theorem of_eq_ok (h : Keeps I x) {s s' : σ} (hs : I s) (hx : x s = .ok a s') : I s' := by
  have hs' := h s hs
  rwa [hx] at hs'

end Keeps

end Inworkspace.Lib.Stateful
