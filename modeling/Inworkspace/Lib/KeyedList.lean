import Mathlib.Data.List.Induction
import Mathlib.Data.List.Nodup

/-!
# Lists of entries with distinct keys

A list `l : List ε` whose entries have pairwise distinct keys
(`(l.map key).Nodup`) is a finite map from the keys to the entries. Editing
such a list in place, i.e., changing the first entry with a given key
(`updateFirst`), removing the entries with that key (`List.filter`) or
appending an entry with a new key, keeps the keys distinct, and the entries
after the edit are those one expects of the map (`mem_updateFirst`).
-/

namespace Inworkspace.Lib.KeyedList

open List

variable {ε κ : Type*} {key : ε → κ} {l : List ε} {f : ε → ε} {e : ε} {k k' : κ}

/-- Removing entries keeps the keys distinct. -/
theorem nodup_filter (hl : (l.map key).Nodup) (p : ε → Bool) : ((l.filter p).map key).Nodup :=
  hl.sublist ((filter_sublist).map key)

/-- Appending an entry with a new key keeps the keys distinct. -/
theorem nodup_append_singleton (hl : (l.map key).Nodup) (he : ∀ a ∈ l, key a ≠ key e) :
    ((l ++ [e]).map key).Nodup := by
  rw [map_append]
  refine Nodup.append hl (nodup_singleton _) fun k hk hk' => ?_
  obtain ⟨a, ha, rfl⟩ := mem_map.mp hk
  exact he a ha (mem_singleton.mp hk')

section Lookup

variable [BEq κ] {l : List (κ × ε)}

/-- The association list with the entry of `k` set to `e`. -/
def upsert (l : List (κ × ε)) (k : κ) (e : ε) : List (κ × ε) :=
  (k, e) :: l.filter (·.1 != k)

variable [LawfulBEq κ]

/-- A looked up entry is in the list. -/
theorem mem_of_lookup (h : l.lookup k = some e) : (k, e) ∈ l := by
  obtain ⟨l₁, l₂, rfl, -⟩ := lookup_eq_some_iff.mp h
  exact mem_append_right _ mem_cons_self

theorem upsert_of_new (h : ∀ a ∈ l, a.1 ≠ k) : upsert l k e = (k, e) :: l := by
  rw [upsert, filter_eq_self.mpr fun a ha => bne_iff_ne.mpr (h a ha)]

theorem nodup_upsert (hl : (l.map Prod.fst).Nodup) (k : κ) (e : ε) :
    ((upsert l k e).map Prod.fst).Nodup := by
  rw [upsert, map_cons, nodup_cons]
  refine ⟨fun hk => ?_, nodup_filter hl _⟩
  obtain ⟨a, ha, rfl⟩ := mem_map.mp hk
  simpa using (mem_filter.mp ha).2

/-- Entries whose keys differ are all kept, the last one first. -/
theorem foldl_upsert {entries : List (κ × ε)} (h : (entries.map Prod.fst).Nodup) :
    entries.foldl (fun l entry => upsert l entry.1 entry.2) [] = entries.reverse := by
  induction entries using reverseRecOn with
  | nil => rfl
  | append_singleton entries entry ih =>
    rw [map_append, nodup_append] at h
    rw [foldl_append, ih h.1, reverse_append]
    refine upsert_of_new fun other hother => ?_
    exact h.2.2 other.1 (mem_map_of_mem (mem_reverse.mp hother)) entry.1 (mem_singleton_self _)

variable (l)

theorem lookup_upsert_self (k : κ) (e : ε) : (upsert l k e).lookup k = some e := by
  rw [upsert, lookup_cons_self]

theorem lookup_filter_self (k : κ) : (l.filter (·.1 != k)).lookup k = none := by
  refine lookup_eq_none_iff.mpr fun a ha => ?_
  have hne : a.1 ≠ k := by simpa using (mem_filter.mp ha).2
  simpa using hne.symm

theorem lookup_filter_of_ne (h : k' ≠ k) : (l.filter (·.1 != k)).lookup k' = l.lookup k' := by
  have hk : (k' == k) = false := beq_eq_false_iff_ne.mpr h
  induction l with
  | nil => rfl
  | cons a l ih =>
    obtain ⟨ak, ae⟩ := a
    by_cases hak : ak = k
    · rw [filter_cons_of_neg (by simpa using hak), ih, lookup_cons, hak, hk]
    · rw [filter_cons_of_pos (by simpa using hak), lookup_cons, lookup_cons, ih]

theorem lookup_upsert_of_ne (e : ε) (h : k' ≠ k) : (upsert l k e).lookup k' = l.lookup k' := by
  have hk : (k' == k) = false := beq_eq_false_iff_ne.mpr h
  simp only [upsert, lookup_cons, hk, lookup_filter_of_ne l h]

end Lookup

/-! ## Insertion -/

section Insert

variable [DecidableEq κ]

/-- The list with a new entry, unless there is one with its key. -/
def insertNew (key : ε → κ) (l : List ε) (e : ε) : List ε :=
  if l.any (fun a => key a == key e) then l else l ++ [e]

theorem nodup_insertNew (hl : (l.map key).Nodup) (e : ε) : ((insertNew key l e).map key).Nodup := by
  rw [insertNew]
  split
  · exact hl
  · rename_i hnone
    exact nodup_append_singleton hl fun a ha hkey =>
      hnone (any_eq_true.mpr ⟨a, ha, beq_iff_eq.mpr hkey⟩)

theorem mem_insertNew_of_mem {a : ε} (ha : a ∈ l) (e : ε) : a ∈ insertNew key l e := by
  rw [insertNew]
  split
  · exact ha
  · exact mem_append_left _ ha

theorem mem_or_eq_of_mem_insertNew {a e : ε} (ha : a ∈ insertNew key l e) : a ∈ l ∨ a = e := by
  rw [insertNew] at ha
  split at ha
  · exact .inl ha
  · simpa using ha

/-- After an insertion there is an entry with the key, be it new or old. -/
theorem exists_mem_insertNew (key : ε → κ) (l : List ε) (e : ε) :
    ∃ a ∈ insertNew key l e, key a = key e ∧ (a = e ∨ a ∈ l) := by
  rw [insertNew]
  split
  · rename_i hsome
    obtain ⟨a, ha, hkey⟩ := any_eq_true.mp hsome
    exact ⟨a, ha, beq_iff_eq.mp hkey, .inr ha⟩
  · exact ⟨e, mem_append_right _ (mem_singleton_self e), rfl, .inl rfl⟩

/-- With distinct keys, an entry is found by its key. -/
theorem find?_eq_some (hl : (l.map key).Nodup) {a : ε} (ha : a ∈ l) :
    l.find? (fun e => key e == key a) = some a := by
  cases hfind : l.find? (fun e => key e == key a) with
  | none =>
    have := find?_eq_none.mp hfind a ha
    simp at this
  | some b =>
    have hkey : key b = key a := by simpa using find?_some hfind
    rw [inj_on_of_nodup_map hl (mem_of_find?_eq_some hfind) ha hkey]

end Insert

/-! ## Updates in place -/

/-- The list with `f` applied to the first entry satisfying `p`. -/
def updateFirst (p : ε → Bool) (f : ε → ε) : List ε → List ε
  | [] => []
  | e :: l => if p e then f e :: l else e :: updateFirst p f l

/-- No entry is looked for, or the first one that is found has been changed. -/
theorem updateFirst_cases (p : ε → Bool) (f : ε → ε) (l : List ε) :
    l.find? p = none ∧ updateFirst p f l = l ∨ ∃ e l₁ l₂, l.find? p = some e ∧
      l = l₁ ++ e :: l₂ ∧ updateFirst p f l = l₁ ++ f e :: l₂ := by
  induction l with
  | nil => exact .inl ⟨rfl, rfl⟩
  | cons e l ih =>
    rw [find?_cons, updateFirst]
    cases p e with
    | true => exact .inr ⟨e, [], l, rfl, rfl, rfl⟩
    | false =>
      rcases ih with ⟨hfind, heq⟩ | ⟨e', l₁, l₂, hfind, rfl, heq⟩
      · exact .inl ⟨hfind, congrArg (e :: ·) heq⟩
      · exact .inr ⟨e', e :: l₁, l₂, hfind, rfl, congrArg (e :: ·) heq⟩

/-- The entry that is found is changed. -/
theorem mem_updateFirst_of_find? {p : ε → Bool} (h : l.find? p = some e) :
    f e ∈ updateFirst p f l := by
  rcases updateFirst_cases p f l with ⟨hfind, -⟩ | ⟨e', l₁, l₂, hfind, -, heq⟩
  · rw [h] at hfind
    contradiction
  · rw [heq, Option.some.inj (h.symm.trans hfind)]
    exact mem_append_right _ mem_cons_self

/-- An entry that is not looked for stays. -/
theorem mem_updateFirst_of_neg {p : ε → Bool} (h : e ∈ l) (hp : ¬p e = true) :
    e ∈ updateFirst p f l := by
  rcases updateFirst_cases p f l with ⟨-, heq⟩ | ⟨e', l₁, l₂, hfind, rfl, heq⟩
  · rwa [heq]
  · have hne : e ≠ e' := fun heq => hp (heq ▸ find?_some hfind)
    rw [mem_append, mem_cons, or_iff_right hne] at h
    rw [heq, mem_append, mem_cons]
    exact h.imp_right .inr

variable [DecidableEq κ]

/-- An update that keeps the key of the entry keeps the keys of the list. -/
theorem map_key_updateFirst (f : ε → ε) (hf : ∀ e, key (f e) = key e) (k : κ) (l : List ε) :
    (updateFirst (fun e => key e == k) f l).map key = l.map key := by
  rcases updateFirst_cases (fun e => key e == k) f l with ⟨-, heq⟩ | ⟨e, l₁, l₂, -, rfl, heq⟩
  · rw [heq]
  · simp [heq, hf]

/-- An update that gives the entry a new key keeps the keys distinct. -/
theorem nodup_updateFirst (hl : (l.map key).Nodup) (hf : ∀ e, key (f e) = k')
    (hnew : ∀ e ∈ l, key e ≠ k') :
    ((updateFirst (fun e => key e == k) f l).map key).Nodup ∧
      ∀ e ∈ updateFirst (fun e => key e == k) f l, key e = k' ∨ e ∈ l := by
  rcases updateFirst_cases (fun e => key e == k) f l with ⟨-, heq⟩ | ⟨e, l₁, l₂, -, rfl, heq⟩
  · rw [heq]
    exact ⟨hl, fun _ => .inr⟩
  · rw [map_append, map_cons, nodup_middle, nodup_cons] at hl
    rw [heq, map_append, map_cons, hf, nodup_middle, nodup_cons]
    grind

/-- With distinct keys, the update changes the entry with the key and no other. -/
theorem mem_updateFirst {k : κ} (hl : (l.map key).Nodup) {e' : ε} :
    e' ∈ updateFirst (fun e => key e == k) f l ↔
      (∃ e ∈ l, key e = k ∧ e' = f e) ∨ (e' ∈ l ∧ key e' ≠ k) := by
  rcases updateFirst_cases (fun e => key e == k) f l with
    ⟨hfind, heq⟩ | ⟨e, l₁, l₂, hfind, rfl, heq⟩
  · have hne : ∀ a ∈ l, key a ≠ k := by simpa using hfind
    grind
  · have hkey : key e = k := by simpa using find?_some hfind
    -- the rest of the list has no other entry with the key
    have hrest : ∀ a ∈ l₁ ++ l₂, key a ≠ k := by
      rw [map_append, map_cons, nodup_middle, ← map_append, nodup_cons] at hl
      exact fun a ha hak => hl.1 (mem_map.mpr ⟨a, ha, hak.trans hkey.symm⟩)
    grind

/-- What is changed and then dropped could have been dropped at once. -/
theorem filter_updateFirst (f : ε → ε) (hf : ∀ e, key (f e) = key e) (k : κ) (l : List ε) :
    (updateFirst (fun e => key e == k) f l).filter (fun e => key e != k) =
      l.filter (fun e => key e != k) := by
  rcases updateFirst_cases (fun e => key e == k) f l with ⟨-, heq⟩ | ⟨e, l₁, l₂, hfind, rfl, heq⟩
  · rw [heq]
  · have hkey : key e = k := by simpa using find?_some hfind
    simp [heq, hf, hkey]

end Inworkspace.Lib.KeyedList
