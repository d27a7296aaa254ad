import Mathlib.Data.Finset.Insert

/-!
# Loops over a list

Rules for the loops `for a in l { .. }` of a program, as folds. A loop that can
fail is a fold in `Except`; what one round keeps, a loop that does not fail
keeps (`foldlM_ok_induction`). A loop that collects has collected what its
rounds collect (`mem_foldl_collect`).
-/

namespace Inworkspace.Lib.Loop

variable {α σ ε : Type} {β : Type}

/-- A sequence of two computations succeeds when both do. -/
theorem bind_eq_ok_iff {β γ : Type} {x : Except ε β} {f : β → Except ε γ} {c : γ} :
    (x >>= f) = .ok c ↔ ∃ b, x = .ok b ∧ f b = .ok c := by
  cases x with
  | error e => exact ⟨nofun, nofun⟩
  | ok b => exact ⟨fun h => ⟨b, rfl, h⟩, fun ⟨_, hb, h⟩ => Except.ok.inj hb ▸ h⟩

theorem exists_eq_ok_of_isOk {x : Except ε β} (h : x.isOk = true) : ∃ b, x = .ok b := by
  cases x with
  | error e => cases h
  | ok b => exact ⟨b, rfl⟩

/-- What every round of a loop keeps, the loop keeps, if it does not fail. -/
theorem foldlM_ok_induction {P : σ → Prop} {f : σ → α → Except ε σ} {l : List α} {s s' : σ}
    (hs : P s) (hstep : ∀ s a s', a ∈ l → P s → f s a = .ok s' → P s')
    (h : l.foldlM f s = .ok s') : P s' := by
  induction l generalizing s with
  | nil => exact Except.ok.inj h ▸ hs
  | cons a l ih =>
    rw [List.foldlM_cons, bind_eq_ok_iff] at h
    obtain ⟨t, hf, h⟩ := h
    exact ih (hstep s a t List.mem_cons_self hs hf)
      (fun s a s' ha => hstep s a s' (List.mem_cons_of_mem _ ha)) h

/-- If a round adds to a set what `Q` says, the loop adds what `Q` says of some round. -/
theorem mem_foldl_collect {f : Finset β → α → Finset β} {Q : α → β → Prop}
    (hf : ∀ s a b, b ∈ f s a ↔ b ∈ s ∨ Q a b) (l : List α) (s : Finset β) (b : β) :
    b ∈ l.foldl f s ↔ b ∈ s ∨ ∃ a ∈ l, Q a b := by
  induction l generalizing s with
  | nil => simp
  | cons a l ih => simp only [List.foldl_cons, ih, hf, or_assoc, List.mem_cons, exists_eq_or_imp]

/-- A round that adds an element or nothing. -/
theorem mem_ite_insert [DecidableEq β] {s : Finset β} {c b : β} {p : Prop} [Decidable p] :
    b ∈ (if p then insert c s else s) ↔ b ∈ s ∨ (p ∧ b = c) := by
  split <;> simp_all [or_comm]

/-- A loop that collects the images of the elements that satisfy a test. -/
theorem mem_foldl_insert [DecidableEq β] {p : α → Bool} {f : α → β} {l : List α} {s : Finset β}
    {b : β} :
    b ∈ l.foldl (fun s a => if p a then insert (f a) s else s) s ↔
      b ∈ s ∨ ∃ a ∈ l, p a = true ∧ b = f a :=
  mem_foldl_collect (Q := fun a b => p a = true ∧ b = f a) (fun _ _ _ => mem_ite_insert) l s b

end Inworkspace.Lib.Loop
