import Mathlib.Data.List.Induction
import Mathlib.Data.List.Nodup
import Mathlib.Data.List.Perm.Basic

/-!
# Lists grouped by a key

A map from keys to lists, to which values are pushed one after the other, as a list of its entries
in the order in which the keys come up. What has been pushed is in it, each value with its key
(`flat_groupBy_perm`), and a key has its own values in their order (`mem_groupBy`).
-/

namespace Inworkspace.Lib.Grouping

open List Prod

variable {α κ ε : Type*} [DecidableEq κ]

/-- The value is pushed to the list of the key. -/
def push : List (κ × List ε) → κ → ε → List (κ × List ε)
  | [], k, e => [(k, [e])]
  | (k', es) :: groups, k, e =>
    if k' = k then (k', es ++ [e]) :: groups else (k', es) :: push groups k e

/-- The values of a list, pushed one after the other. -/
def groupBy (key : α → κ) (value : α → ε) (l : List α) : List (κ × List ε) :=
  l.foldl (fun groups a => push groups (key a) (value a)) []

/-- Each value with its key. -/
def flat (groups : List (κ × List ε)) : List (κ × ε) :=
  groups.flatMap fun group => group.2.map (group.1, ·)

/-- A pair that is pushed is added once. -/
theorem flat_push_perm (groups : List (κ × List ε)) (k : κ) (e : ε) :
    (flat (push groups k e)).Perm (flat groups ++ [(k, e)]) := by
  induction groups with
  | nil => exact Perm.refl _
  | cons group groups ih =>
    rw [push]
    split
    · rename_i hk
      subst hk
      simp only [flat, flatMap_cons, map_append, append_assoc]
      exact perm_append_comm.append_left _
    · simp only [flat, flatMap_cons, append_assoc]
      exact ih.append_left _

/-- The value is pushed to the list of its key, or starts one. -/
theorem push_map {ks : List κ} (hks : ks.Nodup) (f : κ → List ε) {k : κ} (hf : k ∉ ks → f k = [])
    (e : ε) : push (ks.map fun k => (k, f k)) k e =
      (if k ∈ ks then ks else ks ++ [k]).map fun k' => (k', f k' ++ if k = k' then [e] else []) := by
  induction ks with
  | nil => simp [push, hf]
  | cons k' ks ih =>
    obtain ⟨hk', hks⟩ := nodup_cons.mp hks
    rw [map_cons, push]
    by_cases heq : k' = k
    · subst heq
      have hrest : ∀ k ∈ ks, k' ≠ k := fun k hk heq => hk' (heq ▸ hk)
      simpa using hrest
    · rw [if_neg heq, ih hks fun hk => hf (by simp [hk, Ne.symm heq])]
      split_ifs <;> simp_all [Ne.symm heq]

variable (key : α → κ) (value : α → ε) (l : List α)

theorem groupBy_append_singleton (a : α) :
    groupBy key value (l ++ [a]) = push (groupBy key value l) (key a) (value a) := by
  rw [groupBy, foldl_append]
  rfl

theorem flat_groupBy_perm :
    (flat (groupBy key value l)).Perm (l.map fun a => (key a, value a)) := by
  induction l using reverseRecOn with
  | nil => exact Perm.refl _
  | append_singleton l a ih =>
    rw [groupBy_append_singleton, map_append]
    exact (flat_push_perm _ _ _).trans (ih.append_right _)

/-- Each key that comes up has its values, in their order. -/
theorem exists_groupBy_eq : ∃ ks : List κ, ks.Nodup ∧ (∀ k, k ∈ ks ↔ k ∈ l.map key) ∧
    groupBy key value l = ks.map fun k => (k, (l.filter (key · = k)).map value) := by
  induction l using reverseRecOn with
  | nil => exact ⟨[], nodup_nil, fun _ => Iff.rfl, rfl⟩
  | append_singleton l a ih =>
    obtain ⟨ks, hks, hmem, heq⟩ := ih
    have hnone (hk : key a ∉ ks) : (l.filter (key · = key a)).map value = [] := by
      simpa [hmem] using hk
    rw [groupBy_append_singleton, heq, push_map hks _ hnone]
    refine ⟨_, ?_, fun k => ?_, map_congr_left fun k _ => ?_⟩
    · split_ifs with hk
      · exact hks
      · simpa [nodup_append, hks] using fun k hmem (heq : k = key a) => hk (heq ▸ hmem)
    · rw [map_append, mem_append, ← hmem]
      split_ifs with hk
      · simpa using fun heq : k = key a => heq ▸ hk
      · simp
    · by_cases hk : key a = k <;> simp [hk]

variable {key value} {k : κ} {es : List ε} {l}

theorem mem_groupBy :
    (k, es) ∈ groupBy key value l ↔ k ∈ l.map key ∧ es = (l.filter (key · = k)).map value := by
  obtain ⟨ks, -, hmem, heq⟩ := exists_groupBy_eq key value l
  rw [heq, ← hmem, mem_map]
  constructor
  · rintro ⟨k, hk, heq⟩
    obtain ⟨rfl, rfl⟩ := mk.inj heq
    exact ⟨hk, rfl⟩
  · rintro ⟨hk, rfl⟩
    exact ⟨k, hk, rfl⟩

variable (key value) in
/-- Each value has a list. -/
theorem exists_mem_groupBy {a : α} (ha : a ∈ l) : ∃ es, (key a, es) ∈ groupBy key value l :=
  ⟨_, mem_groupBy.mpr ⟨mem_map_of_mem ha, rfl⟩⟩

theorem exists_of_mem_groupBy (h : (k, es) ∈ groupBy key value l) {e : ε} (he : e ∈ es) :
    ∃ a ∈ l, key a = k ∧ value a = e := by
  rw [(mem_groupBy.mp h).2] at he
  obtain ⟨a, ha, rfl⟩ := mem_map.mp he
  obtain ⟨ha, hkey⟩ := mem_filter.mp ha
  exact ⟨a, ha, of_decide_eq_true hkey, rfl⟩

/-- No list is empty. -/
theorem ne_nil_of_mem_groupBy (h : (k, es) ∈ groupBy key value l) : es ≠ [] := by
  obtain ⟨hk, rfl⟩ := mem_groupBy.mp h
  obtain ⟨a, ha, rfl⟩ := mem_map.mp hk
  exact ne_nil_of_mem (mem_map_of_mem (mem_filter.mpr ⟨ha, decide_eq_true rfl⟩))

end Inworkspace.Lib.Grouping
