import Inworkspace.Lib.SortedList
import Mathlib.Data.Finset.Sort

/-!
# The results of a query of the registry

`RegistryQueryResults` and `ResultsPagination` of `store::registry::query`: the containers the
ids of a query are collected in, a vector or a bitmap of 32 bits, and the part of the ids that
is collected. What the two containers have in common is `LawfulQueryResults`: an id
they have room for is added, a bitmap has it once (`merges`), and they give back their ids
in ascending order once they are sorted.

The ids are either all collected (`pushAll_deferred`), or only those of a page
(`intoList_pushAll`), as long as they come in ascending order. A page has at least one id, if
there is one: the limit is looked at after an id has been added.
-/

namespace Inworkspace.RegistryStore

open Lib
open List hiding beq_eq_decide

/-! ## Containers -/

/-- `RegistryQueryResults`: a container of ids. -/
class RegistryQueryResults (T : Type) where
  empty : T
  push : T → ℕ → T
  hasItems : T → Bool
  intersect : T → T → T
  count : T → ℕ
  sort : T → T
  intoList : T → List ℕ

open RegistryQueryResults

/-- A vector of ids. Its `intersect` skips by `partition_point` to the first element that is not
    lower. -/
instance : RegistryQueryResults (List ℕ) where
  empty := []
  push ids id := ids ++ [id]
  hasItems ids := !ids.isEmpty
  intersect := SortedList.intersect
  count := length
  sort ids := ids.insertionSort (· ≤ ·)
  intoList ids := ids

/-- A bitmap, of the lower 32 bits of the ids. -/
instance : RegistryQueryResults (Finset ℕ) where
  empty := ∅
  push ids id := insert (id % 2 ^ 32) ids
  hasItems ids := decide (ids ≠ ∅)
  intersect ids other := ids ∩ other
  count := Finset.card
  sort ids := ids
  intoList ids := ids.sort

/-- What the containers have in common: the ids they have room for, and whether they merge them. -/
class LawfulQueryResults (T : Type) [RegistryQueryResults T] where
  fits : ℕ → Prop
  merges : Bool
  intoList_empty : intoList (empty : T) = []
  hasItems_iff (ids : T) : hasItems ids = true ↔ intoList ids ≠ []
  count_eq (ids : T) : count ids = (intoList ids).length
  count_push {id : ℕ} (hfits : fits id) (ids : T) (x : ℕ) : (intoList (push ids id)).count x =
    if x = id then if merges then 1 else (intoList ids).count x + 1 else (intoList ids).count x
  intoList_push {id : ℕ} (hfits : fits id) {ids : T} (hlt : ∀ x ∈ intoList ids, x < id) :
    intoList (push ids id) = intoList ids ++ [id]
  count_sort (ids : T) (x : ℕ) : (intoList (sort ids)).count x = (intoList ids).count x
  pairwise_sort (ids : T) : (intoList (sort ids)).Pairwise (· ≤ ·)
  count_intersect {ids other : T} (hids : (intoList ids).Pairwise (· ≤ ·))
    (hother : (intoList other).Pairwise (· ≤ ·)) (x : ℕ) :
    (intoList (intersect ids other)).count x = min ((intoList ids).count x) ((intoList other).count x)
  pairwise_intersect {ids : T} (hids : (intoList ids).Pairwise (· ≤ ·)) (other : T) :
    (intoList (intersect ids other)).Pairwise (· ≤ ·)

open LawfulQueryResults

instance : LawfulQueryResults (List ℕ) where
  fits _ := True
  merges := false
  intoList_empty := rfl
  hasItems_iff ids := by simp [hasItems, intoList]
  count_eq _ := rfl
  count_push {id} _ ids x := by
    by_cases hx : x = id
    · simp [intoList, push, hx]
    · simp [intoList, push, hx, Ne.symm hx]
  intoList_push _ _ _ := rfl
  count_sort ids x := (perm_insertionSort (· ≤ ·) ids).count_eq x
  pairwise_sort ids := pairwise_insertionSort (· ≤ ·) ids
  count_intersect hids hother x := SortedList.count_intersect hids hother x
  pairwise_intersect hids other := hids.sublist (SortedList.intersect_sublist _ other)

/-- A bitmap has an id once or not at all. -/
theorem count_sort_finset (ids : Finset ℕ) (x : ℕ) : ids.sort.count x = if x ∈ ids then 1 else 0 := by
  simp [(Finset.sort_nodup ids _).count]

instance : LawfulQueryResults (Finset ℕ) where
  fits id := id < 2 ^ 32
  merges := true
  intoList_empty := Finset.sort_empty _
  hasItems_iff ids := by
    simp only [hasItems, intoList, decide_eq_true_eq, ne_eq, ← length_eq_zero_iff,
      Finset.length_sort, Finset.card_eq_zero]
  count_eq ids := (Finset.length_sort _).symm
  count_push {id} hfits ids x := by
    simp only [intoList, push, count_sort_finset, Nat.mod_eq_of_lt hfits, Finset.mem_insert,
      if_true]
    by_cases hx : x = id <;> simp [hx]
  intoList_push {id} hfits ids hlt := by
    simp only [intoList, push, Nat.mod_eq_of_lt hfits] at hlt ⊢
    refine SortedList.eq_of_count_eq (Finset.pairwise_sort _ _) ?_ fun x => ?_
    · refine pairwise_append.mpr ⟨Finset.pairwise_sort _ _, pairwise_singleton _ _, ?_⟩
      intro x hx y hy
      rw [mem_singleton.mp hy]
      exact (hlt x hx).le
    · rw [count_append, count_sort_finset, count_sort_finset, count_singleton]
      by_cases hx : x = id
      · subst hx
        have hnot : x ∉ ids := fun hmem => (hlt x ((Finset.mem_sort _).mpr hmem)).false
        simp [hnot]
      · simp [hx, Ne.symm hx]
  count_sort _ _ := rfl
  pairwise_sort ids := Finset.pairwise_sort ids _
  count_intersect {ids other} _ _ x := by
    simp only [intoList, intersect, count_sort_finset, Finset.mem_inter]
    by_cases hx : x ∈ ids <;> by_cases hy : x ∈ other <;> simp [hx, hy]
  pairwise_intersect _ _ := Finset.pairwise_sort _ _

section Collect

variable (T : Type) [RegistryQueryResults T] [LawfulQueryResults T]

/-- How often a container has an id that is added `n` times. -/
def kept (n : ℕ) : ℕ := if merges T then min n 1 else n

@[simp] theorem kept_zero : kept T 0 = 0 := by simp [kept]

theorem kept_pos {n : ℕ} : 0 < kept T n ↔ 0 < n := by
  unfold kept
  split <;> omega

variable {T}

/-- An id that is added to a container is in it as often as the container has it. -/
theorem count_foldl_push {ids : List ℕ} (hfits : ∀ id ∈ ids, fits T id) (x : ℕ) :
    (intoList (ids.foldl push (empty : T))).count x = kept T (ids.count x) := by
  induction ids using reverseRecOn with
  | nil => simp [intoList_empty]
  | append_singleton ids id ih =>
    rw [foldl_append, foldl_cons, foldl_nil,
      count_push (hfits id (by simp)), ih fun id h => hfits id (mem_append_left _ h),
      count_append, count_singleton, beq_eq_decide]
    by_cases hx : x = id
    · simp only [hx, kept, decide_true, if_true]
      split <;> omega
    · simp [hx, Ne.symm hx]

end Collect

/-! ## Pages -/

/-- `ResultsPagination`: the ids collected, how many are still left out, the id behind which the
    page starts, if it has not come yet, the limit, and whether all ids are collected first. -/
structure ResultsPagination (T : Type) where
  list : T
  offset : ℕ
  anchor : Option ℕ
  limit : Option ℕ
  deferredPagination : Bool

namespace ResultsPagination

variable {T : Type} [RegistryQueryResults T] {list : T} (limit : Option ℕ)
  (results : ResultsPagination T)

/-- `push`, with whether to go on. -/
def push (id : ℕ) : ResultsPagination T × Bool :=
  if !results.deferredPagination then
    if results.offset > 0 then ({ results with offset := results.offset - 1 }, true)
    else match results.anchor with
      | some anchor => (if id = anchor then { results with anchor := none } else results, true)
      | none =>
        let list := RegistryQueryResults.push results.list id
        ({ results with list }, results.limit.all fun limit => count list < limit)
  else ({ results with list := RegistryQueryResults.push results.list id }, true)

/-- The ids of an iteration, up to the one at which `push` stops it. -/
def pushAll (results : ResultsPagination T) : List ℕ → ResultsPagination T
  | [] => results
  | id :: ids =>
    let (results, goOn) := results.push id
    if goOn then results.pushAll ids else results

/-- `finalize`: the page of the ids that have all been collected. -/
def finalize : T :=
  if results.deferredPagination && hasItems results.list &&
      (results.limit.isSome || results.anchor.isSome || decide (results.offset > 0)) then
    ({ results with list := empty, deferredPagination := false }.pushAll
      (intoList results.list)).list
  else results.list

theorem deferredPagination_push (id : ℕ) :
    (results.push id).1.deferredPagination = results.deferredPagination := by
  unfold push
  split
  · split
    · rfl
    · split
      · split <;> rfl
      · rfl
  · rfl

theorem deferredPagination_pushAll (ids : List ℕ) :
    (results.pushAll ids).deferredPagination = results.deferredPagination := by
  induction ids generalizing results with
  | nil => rfl
  | cons id ids ih =>
    have hpush := deferredPagination_push results id
    rw [pushAll]
    generalize results.push id = pushed at hpush
    obtain ⟨next, _ | _⟩ := pushed
    · exact hpush
    · exact (ih next).trans hpush

/-- All ids are collected. -/
theorem pushAll_deferred {results : ResultsPagination T} (hdeferred : results.deferredPagination)
    (ids : List ℕ) :
    results.pushAll ids = { results with list := ids.foldl RegistryQueryResults.push results.list } := by
  induction ids generalizing results with
  | nil => rfl
  | cons id ids ih =>
    have hpush : results.push id =
        ({ results with list := RegistryQueryResults.push results.list id }, true) := by
      simp [push, hdeferred]
    rw [pushAll, hpush]
    exact ih hdeferred

/-- The first ids are left out. -/
theorem pushAll_offset (offset : ℕ) (anchor limit : Option ℕ) (ids : List ℕ) :
    (pushAll ⟨list, offset, anchor, limit, false⟩ ids).list =
      (pushAll ⟨list, 0, anchor, limit, false⟩ (ids.drop offset)).list := by
  induction ids generalizing offset with
  | nil => rw [drop_nil]; rfl
  | cons id ids ih =>
    obtain _ | offset := offset
    · rfl
    · exact ih offset

/-- The ids up to the anchor are left out. -/
theorem pushAll_anchor (anchor : ℕ) (limit : Option ℕ) (ids : List ℕ) :
    (pushAll ⟨list, 0, some anchor, limit, false⟩ ids).list =
      (pushAll ⟨list, 0, none, limit, false⟩ ((ids.dropWhile (· ≠ anchor)).drop 1)).list := by
  induction ids with
  | nil => rfl
  | cons id ids ih =>
    by_cases hid : id = anchor
    · simp [pushAll, push, hid]
    · rw [dropWhile_cons_of_pos (by simpa using hid), ← ih]
      simp [pushAll, push, hid]

theorem pushAll_cons (limit id : ℕ) (ids : List ℕ) :
    pushAll ⟨list, 0, none, some limit, false⟩ (id :: ids) =
      pushAll ⟨RegistryQueryResults.push list id, 0, none, some limit, false⟩
        (if count (RegistryQueryResults.push list id) < limit then ids else []) := by
  split_ifs with hlt <;> simp [pushAll, push, hlt]

/-- How many ids are collected, with some already there: at least one more. -/
def room (limit : Option ℕ) (collected : ℕ) (ids : List ℕ) : List ℕ :=
  match limit with
  | none => ids
  | some limit => ids.take (max 1 (limit - collected))

theorem room_sublist (collected : ℕ) (ids : List ℕ) : (room limit collected ids).Sublist ids := by
  obtain _ | limit := limit
  · exact List.Sublist.refl ids
  · exact take_sublist _ _

variable [LawfulQueryResults T] {ids : List ℕ} (offset : ℕ)

/-- Ids in ascending order are collected up to the limit. -/
theorem intoList_pushAll_none (hids : ids.Pairwise (· < ·)) (hfits : ∀ id ∈ ids, fits T id)
    (hlt : ∀ x ∈ intoList list, ∀ id ∈ ids, x < id) :
    intoList (pushAll ⟨list, 0, none, limit, false⟩ ids).list =
      intoList list ++ room limit (intoList list).length ids := by
  induction ids generalizing list with
  | nil => cases limit <;> simp [pushAll, room]
  | cons id ids ih =>
    have hpush := intoList_push (hfits id mem_cons_self) fun x hx => hlt x hx id mem_cons_self
    obtain ⟨hid, hids⟩ := pairwise_cons.mp hids
    have hbelow : ∀ x ∈ intoList (RegistryQueryResults.push list id), ∀ y ∈ ids, x < y := by
      intro x hx y hy
      rw [hpush, mem_append, mem_singleton] at hx
      rcases hx with hx | rfl
      · exact hlt x hx y (mem_cons_of_mem _ hy)
      · exact hid y hy
    have hrest := ih hids (fun id h => hfits id (mem_cons_of_mem _ h)) hbelow
    have hcount : count (RegistryQueryResults.push list id) = (intoList list).length + 1 := by
      rw [count_eq, hpush, length_append, length_singleton]
    rw [hpush, length_append, length_singleton, append_assoc] at hrest
    obtain _ | limit := limit
    · exact hrest
    -- the limit is looked at when an id has been pushed, so one always is
    by_cases hgo : (intoList list).length + 1 < limit
    · rw [pushAll_cons, hcount, if_pos hgo, hrest, room, room]
      have hmax : max 1 (limit - (intoList list).length) =
          max 1 (limit - ((intoList list).length + 1)) + 1 := by omega
      rw [hmax, take_succ_cons, singleton_append]
    · rw [pushAll_cons, hcount, if_neg hgo, pushAll, hpush, room]
      have hmax : max 1 (limit - (intoList list).length) = 1 := by omega
      rw [hmax, take_succ_cons, take_zero]

/-- What a page leaves out is the ids before its start. -/
def skip (offset : ℕ) (anchor : Option ℕ) (ids : List ℕ) : List ℕ :=
  match anchor with
  | none => ids.drop offset
  | some anchor => ((ids.drop offset).dropWhile (· ≠ anchor)).drop 1

theorem skip_sublist (anchor : Option ℕ) (ids : List ℕ) : (skip offset anchor ids).Sublist ids := by
  obtain _ | anchor := anchor
  · exact drop_sublist _ _
  · exact ((drop_sublist _ _).trans (dropWhile_sublist _)).trans (drop_sublist _ _)

/-- The page of ids in ascending order. -/
theorem intoList_pushAll (anchor limit : Option ℕ) (hids : ids.Pairwise (· < ·))
    (hfits : ∀ id ∈ ids, fits T id) :
    intoList (pushAll ⟨(empty : T), offset, anchor, limit, false⟩ ids).list =
      room limit 0 (skip offset anchor ids) := by
  have hskip : (pushAll ⟨(empty : T), offset, anchor, limit, false⟩ ids).list =
      (pushAll ⟨empty, 0, none, limit, false⟩ (skip offset anchor ids)).list := by
    rw [pushAll_offset]
    obtain _ | anchor := anchor
    · rfl
    · exact pushAll_anchor _ _ _
  have hsub := skip_sublist offset anchor ids
  rw [hskip, intoList_pushAll_none limit (hids.sublist hsub) fun id h => hfits id (hsub.subset h)]
  · rw [intoList_empty, nil_append, length_nil]
  · simp [intoList_empty]

end ResultsPagination

end Inworkspace.RegistryStore
