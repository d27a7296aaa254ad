import Mathlib.Data.List.Sort

/-!
# Sorted lists

The elements two sorted lists have in common, found by going through both at once: the list
whose element is lower skips what is below the element of the other. The result is sorted, it
has an element as often as the list that has it less often (`count_intersect`), and a sorted
list is known by how often it has what (`eq_of_count_eq`).

A list that is sorted by keys is an ordered map (`insertSorted`, `ofList`): it has the entries it
was made from, provided that their keys differ (`ofList_perm`). An ordered map whose new entries
come last is what is left of an earlier one, followed by the new entries (`eq_append_of_newer`).
-/

namespace Inworkspace.Lib.SortedList

open List

variable {α : Type*} [LinearOrder α]

/-- The common elements of two sorted lists. -/
def intersect : List α → List α → List α
  | x :: xs, y :: ys =>
    if x < y then intersect (xs.dropWhile (· < y)) (y :: ys)
    else if y < x then intersect (x :: xs) (ys.dropWhile (· < x))
    else x :: intersect xs ys
  | _, _ => []
termination_by xs ys => xs.length + ys.length
decreasing_by
  · have := (List.dropWhile_sublist (· < y) (l := xs)).length_le
    simp only [List.length_cons]
    omega
  · have := (List.dropWhile_sublist (· < x) (l := ys)).length_le
    simp only [List.length_cons]
    omega
  · simp only [List.length_cons]
    omega

theorem intersect_sublist (xs ys : List α) : (intersect xs ys).Sublist xs := by
  induction xs, ys using intersect.induct with
  | case1 x xs y ys hlt ih =>
    rw [intersect, if_pos hlt]
    exact (ih.trans (dropWhile_sublist _)).cons x
  | case2 x xs y ys hlt hgt ih => rwa [intersect, if_neg hlt, if_pos hgt]
  | case3 x xs y ys hlt hgt ih =>
    rw [intersect, if_neg hlt, if_neg hgt]
    exact ih.cons_cons x
  | case4 xs ys hnil => rw [intersect]; exacts [nil_sublist _, hnil]

/-- What is not skipped is there as often as before. -/
theorem count_dropWhile_lt {x y : α} (hle : y ≤ x) (xs : List α) :
    (xs.dropWhile (· < y)).count x = xs.count x := by
  induction xs with
  | nil => rfl
  | cons z xs ih =>
    by_cases hz : z < y
    · rw [dropWhile_cons_of_pos (by simpa using hz), ih, count_cons_of_ne (hz.trans_le hle).ne]
    · rw [dropWhile_cons_of_neg (by simpa using hz)]

/-- Below its first element a sorted list has nothing. -/
theorem count_eq_zero_of_lt_head {x y : α} {ys : List α} (hsorted : (y :: ys).Pairwise (· ≤ ·))
    (hlt : x < y) : (y :: ys).count x = 0 := by
  refine count_eq_zero.mpr fun hmem => ?_
  rcases mem_cons.mp hmem with rfl | htail
  · exact lt_irrefl x hlt
  · exact (hlt.trans_le (rel_of_pairwise_cons hsorted htail)).false

/-- A common element is there as often as in the list that has it less often. -/
theorem count_intersect {xs ys : List α} (hxs : xs.Pairwise (· ≤ ·)) (hys : ys.Pairwise (· ≤ ·))
    (z : α) : (intersect xs ys).count z = min (xs.count z) (ys.count z) := by
  induction xs, ys using intersect.induct with
  | case1 x xs y ys hlt ih =>
    rw [intersect, if_pos hlt, ih (hxs.of_cons.sublist (dropWhile_sublist _)) hys]
    -- what is dropped is below the head of the other list, and so not in it
    rcases lt_or_ge z y with hz | hz
    · rw [count_eq_zero_of_lt_head hys hz, Nat.min_zero, Nat.min_zero]
    · rw [count_dropWhile_lt hz, count_cons_of_ne (hlt.trans_le hz).ne]
  | case2 x xs y ys hlt hgt ih =>
    rw [intersect, if_neg hlt, if_pos hgt, ih hxs (hys.of_cons.sublist (dropWhile_sublist _))]
    rcases lt_or_ge z x with hz | hz
    · rw [count_eq_zero_of_lt_head hxs hz, Nat.zero_min, Nat.zero_min]
    · rw [count_dropWhile_lt hz, count_cons_of_ne (hgt.trans_le hz).ne]
  | case3 x xs y ys hlt hgt ih =>
    obtain rfl := le_antisymm (not_lt.mp hgt) (not_lt.mp hlt)
    rw [intersect, if_neg hlt, if_neg hgt, count_cons, count_cons, count_cons,
      ih hxs.of_cons hys.of_cons]
    omega
  | case4 xs ys hnil =>
    rw [intersect]
    · rcases xs with _ | ⟨x, xs⟩
      · rw [count_nil, Nat.zero_min]
      · rcases ys with _ | ⟨y, ys⟩
        · rw [count_nil, Nat.min_zero]
        · exact (hnil x xs y ys rfl rfl).elim
    · exact hnil

/-- Sorted lists that have everything as often are the same. -/
theorem eq_of_count_eq {xs ys : List α} (hxs : xs.Pairwise (· ≤ ·)) (hys : ys.Pairwise (· ≤ ·))
    (hcount : ∀ x, xs.count x = ys.count x) : xs = ys :=
  (perm_iff_count.mpr hcount).eq_of_pairwise' hxs hys

section Keys

variable {ε : Type*} (key : ε → α)

/-- The entry is put where its key belongs, in place of one with the same key. -/
def insertSorted : List ε → ε → List ε
  | [], e => [e]
  | a :: l, e =>
    if key e < key a then e :: a :: l
    else if key e = key a then e :: l
    else a :: insertSorted l e

/-- The entries in the order of their keys; the last one with a key stays. -/
def ofList (entries : List ε) : List ε := entries.foldl (insertSorted key) []

variable {key} {l : List ε} {entries : List ε}

theorem insertSorted_subset (e : ε) : insertSorted key l e ⊆ e :: l := by
  induction l with
  | nil => exact Subset.refl _
  | cons a l ih =>
    have hmore : e :: l ⊆ e :: a :: l := cons_subset_cons e (subset_cons_self a l)
    rw [insertSorted]
    split_ifs
    · exact Subset.refl _
    · exact hmore
    · exact cons_subset.mpr ⟨mem_cons_of_mem _ mem_cons_self, Subset.trans ih hmore⟩

theorem pairwise_insertSorted (hl : l.Pairwise (key · < key ·)) (e : ε) :
    (insertSorted key l e).Pairwise (key · < key ·) := by
  induction l with
  | nil => exact pairwise_singleton _ _
  | cons a l ih =>
    obtain ⟨ha, hl⟩ := pairwise_cons.mp hl
    rw [insertSorted]
    split
    · rename_i hlt
      refine pairwise_cons.mpr ⟨fun b hb => ?_, pairwise_cons.mpr ⟨ha, hl⟩⟩
      rcases mem_cons.mp hb with rfl | hb
      · exact hlt
      · exact hlt.trans (ha b hb)
    · rename_i hle
      split
      · rename_i heq
        exact pairwise_cons.mpr ⟨fun b hb => heq ▸ ha b hb, hl⟩
      rename_i hne
      refine pairwise_cons.mpr ⟨fun b hb => ?_, ih hl⟩
      rcases mem_cons.mp (insertSorted_subset e hb) with rfl | hb
      · exact lt_of_le_of_ne (not_lt.mp hle) (Ne.symm hne)
      · exact ha b hb

/-- An entry whose key is new is added. -/
theorem insertSorted_perm {e : ε} (h : key e ∉ l.map key) :
    (insertSorted key l e).Perm (e :: l) := by
  induction l with
  | nil => exact Perm.refl _
  | cons a l ih =>
    rw [map_cons, mem_cons, not_or] at h
    rw [insertSorted, if_neg h.1]
    split
    · exact Perm.refl _
    · exact ((ih h.2).cons a).trans (Perm.swap e a l)

/-- Entries with different keys are sorted. -/
theorem foldl_insertSorted {entries l : List ε} (hl : l.Pairwise (key · < key ·))
    (h : ((l ++ entries).map key).Nodup) :
    (entries.foldl (insertSorted key) l).Pairwise (key · < key ·) ∧
      (entries.foldl (insertSorted key) l).Perm (l ++ entries) := by
  induction entries generalizing l with
  | nil =>
    rw [append_nil]
    exact ⟨hl, Perm.refl _⟩
  | cons e entries ih =>
    have hperm : (l ++ e :: entries).Perm ((e :: l) ++ entries) := perm_middle
    have hnodup := (hperm.map key).nodup_iff.mp h
    have he : key e ∉ l.map key := by
      rw [cons_append, map_cons, nodup_cons, map_append, mem_append, not_or] at hnodup
      exact hnodup.1.1
    have hinsert := (insertSorted_perm he).append_right entries
    obtain ⟨hsorted, hall⟩ := ih (pairwise_insertSorted hl e)
      ((hinsert.map key).nodup_iff.mpr hnodup)
    exact ⟨hsorted, hall.trans (hinsert.trans hperm.symm)⟩

theorem pairwise_ofList (h : (entries.map key).Nodup) :
    (ofList key entries).Pairwise (key · < key ·) :=
  (foldl_insertSorted Pairwise.nil h).1

theorem ofList_perm (h : (entries.map key).Nodup) : (ofList key entries).Perm entries :=
  (foldl_insertSorted Pairwise.nil h).2

/-- Two lists sorted by their keys that have the same entries are the same. -/
theorem eq_of_mem_iff {xs ys : List ε} (hxs : xs.Pairwise (key · < key ·))
    (hys : ys.Pairwise (key · < key ·)) (h : ∀ e, e ∈ xs ↔ e ∈ ys) : xs = ys := by
  have hnodup {l : List ε} (hl : l.Pairwise (key · < key ·)) : l.Nodup :=
    hl.imp fun hlt heq => absurd (congrArg key heq) (ne_of_lt hlt)
  refine ((perm_ext_iff_of_nodup (hnodup hxs) (hnodup hys)).mpr h).eq_of_pairwise ?_ hxs hys
  intro a b _ _ hab hba
  exact absurd hab (lt_asymm hba)

/-- The entries up to a place are those with keys not above that there. -/
theorem mem_take_succ_iff (hl : l.Pairwise (key · < key ·)) {n : ℕ} {e : ε} (he : l[n]? = some e)
    (a : ε) : a ∈ l.take (n + 1) ↔ a ∈ l ∧ key a ≤ key e := by
  obtain ⟨hn, rfl⟩ := List.getElem?_eq_some_iff.mp he
  have hlt := pairwise_iff_getElem.mp hl
  rw [mem_take_iff_getElem]
  constructor
  · rintro ⟨i, hi, rfl⟩
    refine ⟨getElem_mem _, ?_⟩
    rcases (Nat.le_of_lt_succ (Nat.lt_min.mp hi).1).lt_or_eq with hin | rfl
    · exact (hlt i n _ hn hin).le
    · exact le_refl _
  · rintro ⟨ha, hle⟩
    obtain ⟨i, hi, rfl⟩ := getElem_of_mem ha
    have hin : i ≤ n := not_lt.mp fun hni => (hlt n i hn hi hni).not_ge hle
    exact ⟨i, Nat.lt_min.mpr ⟨Nat.lt_succ_of_le hin, hi⟩, rfl⟩

/-- The entries of a list are those of an earlier one or come after them. -/
theorem eq_append_of_newer [DecidableEq ε] {old new : List ε}
    (hold : old.Pairwise (key · < key ·)) (hnew : new.Pairwise (key · < key ·))
    (h : ∀ e ∈ new, e ∈ old ∨ ∀ a ∈ old, key a < key e) :
    new = old.filter (· ∈ new) ++ new.filter (· ∉ old) := by
  refine eq_of_mem_iff hnew (pairwise_append.mpr ⟨hold.filter _, hnew.filter _, ?_⟩) ?_
  · intro a ha e he
    obtain ⟨he, hnot⟩ := mem_filter.mp he
    rcases h e he with hmem | hlt
    · exact absurd hmem (of_decide_eq_true hnot)
    · exact hlt a (mem_filter.mp ha).1
  · intro e
    simp only [mem_append, mem_filter, decide_eq_true_eq]
    tauto

end Keys

end Inworkspace.Lib.SortedList
