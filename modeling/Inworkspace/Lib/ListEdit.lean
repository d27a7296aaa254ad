import Mathlib.Data.List.Sort

/-!
# Editing a list one position at a time

A peer that holds a copy of a list is told by numbers what is removed, and removes it one number
after the other. The numbers are those in the list before, in ascending order; as each removal
moves what is behind, the `k`-th number is lowered by `k`. The peer then finds each number in its
list, and has what was not removed (`eraseEach_numbers`).
-/

namespace Inworkspace.Lib.ListEdit

open List

variable {α : Type*} (p : α → Bool)

/-- The numbers, from `first` on, of what does not satisfy `p`. -/
def numbers (p : α → Bool) (first : ℕ) (l : List α) : List ℕ :=
  ((l.zipIdx first).filter fun entry => !p entry.1).map Prod.snd

/-- The numbers, lowered by what was removed before, at first `k`. -/
def lowered (k : ℕ) (ids : List ℕ) : List ℕ := (ids.zipIdx k).map fun entry => entry.1 - entry.2

/-- What has the number, from one on, is removed, if there is something. -/
def eraseNumber (l : List α) (id : ℕ) : Option (List α) :=
  if 1 ≤ id ∧ id ≤ l.length then some (l.eraseIdx (id - 1)) else none

/-- What has one of the numbers is removed, one after the other. -/
def eraseEach (l : List α) (ids : List ℕ) : Option (List α) := ids.foldlM eraseNumber l

theorem numbers_cons (first : ℕ) (a : α) (l : List α) :
    numbers p first (a :: l) =
      if p a then numbers p (first + 1) l else first :: numbers p (first + 1) l := by
  rw [numbers, zipIdx_cons, filter_cons]
  rcases p a with _ | _ <;> rfl

theorem pairwise_numbers (first : ℕ) (l : List α) : (numbers p first l).Pairwise (· < ·) := by
  rw [numbers, pairwise_map]
  refine List.Pairwise.filter _ ?_
  induction l generalizing first with
  | nil => exact List.Pairwise.nil
  | cons a l ih =>
    refine pairwise_cons.mpr ⟨fun entry hentry => ?_, ih (first + 1)⟩
    exact le_snd_of_mem_zipIdx hentry

/-- What is before the rest has been gone through; `k` elements were removed. -/
theorem eraseEach_append_numbers (done l : List α) (k : ℕ) :
    eraseEach (done ++ l) (lowered k (numbers p (done.length + k + 1) l)) =
      some (done ++ l.filter p) := by
  induction l generalizing done k with
  | nil => rfl
  | cons a l ih =>
    rw [numbers_cons, filter_cons]
    split
    · -- the element stays, and is behind us
      have hdone := ih (done ++ [a]) k
      rw [append_assoc, append_assoc, length_append, length_singleton,
        Nat.add_right_comm done.length 1 k] at hdone
      exact hdone
    · -- its number is lowered to its place in the list as it is now
      have hplace : done.length + k + 1 - k = done.length + 1 := by omega
      have herase : eraseNumber (done ++ a :: l) (done.length + 1) = some (done ++ l) := by
        rw [eraseNumber, if_pos (by simp), Nat.add_sub_cancel,
          eraseIdx_append_of_length_le (Nat.le_refl _), Nat.sub_self, eraseIdx_cons_zero]
      show (eraseNumber (done ++ a :: l) (done.length + k + 1 - k)).bind _ = _
      rw [hplace, herase]
      exact ih done (k + 1)

/-- The peer has what was not removed. -/
theorem eraseEach_numbers (l : List α) :
    eraseEach l (lowered 0 (numbers p 1 l)) = some (l.filter p) :=
  eraseEach_append_numbers p [] l 0

end Inworkspace.Lib.ListEdit
