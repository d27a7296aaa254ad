import Inworkspace.Lib.BigEndian

/-!
# Ranges of values

`range_to_bitmap` and `range_to_treemap` find the documents with a value that is lower or greater
than another one. Behind the account and the field a key has the value and the id of the document,
without a separator. If one value is the beginning of the other, the id behind it is compared with
the rest of the other, and the key can be outside of the range (`Misses`): `ab` is not found among
the values greater than `a` (`rangeToBitmap_prefix`).

`rangeToIds_iff`: what is found is what is asked for if and only if each document with a value that
is missed has one that is not.
-/

namespace Inworkspace.Search

open Lib.BigEndian List

inductive SearchOperator where
  | lowerThan
  | lowerEqualThan
  | greaterThan
  | greaterEqualThan
  | equal
  | contains

variable (k : ℕ) (op : SearchOperator) (matchValue : List ℕ)

/-- The value of a key is one that is asked for. -/
def SearchOperator.accepts (value : List ℕ) : Bool :=
  match op with
  | lowerThan => value < matchValue
  | lowerEqualThan => value ≤ matchValue
  | greaterThan => matchValue < value
  | greaterEqualThan => matchValue ≤ value
  | equal | contains => value = matchValue

/-- A key of the field, with an id of `k` bytes. -/
def rangeKey (value : List ℕ) (id : ℕ) : List ℕ := value ++ bigEndian k id

/-- A key is from the first to the last one of the range. For greater values the last one is a key
    of the next field, behind all keys of this one. -/
def inRange (key : List ℕ) : Bool :=
  -- ids stand right behind the values, so a longer value can be in between
  let idMax := 256 ^ k - 1
  match op with
  | .lowerThan => rangeKey k [] 0 ≤ key ∧ key ≤ rangeKey k matchValue 0
  | .lowerEqualThan => rangeKey k [] 0 ≤ key ∧ key ≤ rangeKey k matchValue idMax
  | .greaterThan => rangeKey k matchValue idMax ≤ key
  | .greaterEqualThan => rangeKey k matchValue 0 ≤ key
  | .equal | .contains => rangeKey k matchValue 0 ≤ key ∧ key ≤ rangeKey k matchValue idMax

/-- The ids of the keys in the range whose values are asked for, if there are any. -/
def rangeToIds (keys : List (List ℕ)) : Option (Finset ℕ) :=
  let matching := (keys.filter (inRange k op matchValue)).filter fun key =>
    op.accepts matchValue (key.take (key.length - k))
  let bm := (matching.map fun key => ofBigEndian (key.drop (key.length - k))).toFinset
  if bm = ∅ then none else some bm

def rangeToBitmap := rangeToIds 4

def rangeToTreemap := rangeToIds 8

/-- The document is found among the keys of some values and ids. -/
def Finds (entries : List (List ℕ × ℕ)) (id : ℕ) : Prop :=
  ∃ bm ∈ rangeToIds k op matchValue (entries.map fun entry => rangeKey k entry.1 entry.2), id ∈ bm

/-- The key of a value is outside of the range that is asked for: one of the values goes on behind
    the other, and what follows is compared with the id there. -/
def SearchOperator.Misses (value : List ℕ) (id : ℕ) : Prop :=
  match op with
  | lowerThan => ∃ rest, matchValue = value ++ rest ∧ rest ++ bigEndian k 0 < bigEndian k id
  | lowerEqualThan =>
    ∃ rest, matchValue = value ++ rest ∧ rest ++ bigEndian k (256 ^ k - 1) < bigEndian k id
  | greaterThan =>
    ∃ rest, value = matchValue ++ rest ∧ rest ++ bigEndian k id < bigEndian k (256 ^ k - 1)
  | greaterEqualThan | equal | contains => False

variable {k op matchValue} {value : List ℕ} {entries : List (List ℕ × ℕ)}

/-- A value that is asked for is in the range unless its id is in the way. -/
theorem inRange_iff (h : op.accepts matchValue value = true) (id : ℕ) :
    inRange k op matchValue (rangeKey k value id) = true ↔ ¬op.Misses k matchValue value id := by
  have hzero {a : List ℕ} (hle : a ≤ value) : rangeKey k a 0 ≤ rangeKey k value id :=
    append_zero_le_append hle (length_bigEndian k id).ge
  have hnil := hzero (not_lt.mp (not_lt_nil value))
  cases op with
  | lowerThan =>
    rw [inRange, decide_eq_true_iff, and_iff_right hnil]
    -- keys are compared with their ids behind the values, which `Misses` is about
    exact append_le_append_iff (of_decide_eq_true h).le _ _
  | lowerEqualThan =>
    rw [inRange, decide_eq_true_iff, and_iff_right hnil]
    exact append_le_append_iff (of_decide_eq_true h) _ _
  | greaterThan =>
    rw [inRange, decide_eq_true_iff]
    exact append_le_append_iff (of_decide_eq_true h).le _ _
  | greaterEqualThan => exact iff_of_true (decide_eq_true (hzero (of_decide_eq_true h))) not_false
  | equal | contains =>
    obtain rfl : value = matchValue := of_decide_eq_true h
    refine iff_of_true (decide_eq_true ⟨hzero le_rfl, ?_⟩) not_false
    have hlt := Nat.mod_lt id (Nat.pow_pos (n := k) (show 0 < 256 by decide))
    rw [rangeKey, rangeKey, append_le_append_left, ← not_lt, bigEndian_lt_bigEndian,
      Nat.mod_eq_of_lt (by omega)]
    omega

/-- So the scan finds all but these. -/
theorem finds_iff (hids : ∀ entry ∈ entries, entry.2 < 256 ^ k) (id : ℕ) :
    Finds k op matchValue entries id ↔ ∃ value, (value, id) ∈ entries ∧
      op.accepts matchValue value = true ∧ ¬op.Misses k matchValue value id := by
  have hsome (bm : Finset ℕ) : (∃ bm' ∈ if bm = ∅ then none else some bm, id ∈ bm') ↔ id ∈ bm := by
    split_ifs with hempty <;> simp [hempty]
  rw [Finds, rangeToIds, hsome, mem_toFinset, mem_map]
  simp only [mem_filter, mem_map]
  constructor
  · rintro ⟨_, ⟨⟨⟨⟨value, id⟩, hmem, rfl⟩, hrange⟩, haccepts⟩, rfl⟩
    obtain haccepts : op.accepts matchValue value = true := by simpa [rangeKey] using haccepts
    refine ⟨value, ?_, haccepts, ?_⟩ <;>
      simp only [rangeKey, length_append, length_bigEndian, Nat.add_sub_cancel, drop_left,
        ofBigEndian_bigEndian, Nat.mod_eq_of_lt (hids _ hmem)]
    · exact hmem
    · exact (inRange_iff haccepts id).mp hrange
  · rintro ⟨value, hmem, haccepts, hrange⟩
    refine ⟨_, ⟨⟨⟨(value, id), hmem, rfl⟩, (inRange_iff haccepts id).mpr hrange⟩, ?_⟩, ?_⟩
    · simpa [rangeKey] using haccepts
    · simpa [rangeKey, ofBigEndian_bigEndian] using Nat.mod_eq_of_lt (hids _ hmem)

variable (k op matchValue) in
/-- The documents that are found are those asked for if and only if each one with a value that is
    missed has another one that is asked for and not missed. -/
theorem rangeToIds_iff (hids : ∀ entry ∈ entries, entry.2 < 256 ^ k) :
    (∀ id, Finds k op matchValue entries id ↔
        ∃ value, (value, id) ∈ entries ∧ op.accepts matchValue value = true) ↔
      ∀ value id, (value, id) ∈ entries → op.accepts matchValue value = true →
        op.Misses k matchValue value id → ∃ value', (value', id) ∈ entries ∧
          op.accepts matchValue value' = true ∧ ¬op.Misses k matchValue value' id := by
  simp only [finds_iff hids]
  constructor
  · exact fun h value id hmem haccepts _ => (h id).mpr ⟨value, hmem, haccepts⟩
  · refine fun h id => ⟨fun ⟨value, hmem, haccepts, _⟩ => ⟨value, hmem, haccepts⟩, ?_⟩
    rintro ⟨value, hmem, haccepts⟩
    by_cases hmisses : op.Misses k matchValue value id
    · exact h value id hmem haccepts hmisses
    · exact ⟨value, hmem, haccepts, hmisses⟩

/-- Values that are at least `a` are found. -/
theorem rangeToTreemap_greaterEqual :
    ∃ bm ∈ rangeToTreemap .greaterEqualThan [97] [rangeKey 8 [97, 98] 5], 5 ∈ bm :=
  ((@rangeToIds_iff 8 .greaterEqualThan [97] [([97, 98], 5)] (by decide)).mpr
    (fun _ _ _ _ => False.elim) 5).mpr ⟨[97, 98], .head _, by decide⟩

/-- `ab` is greater than `a`, and is not found. -/
theorem rangeToBitmap_prefix :
    SearchOperator.greaterThan.accepts [97] [97, 98] = true ∧
      rangeToBitmap .greaterThan [97] [rangeKey 4 [97, 98] 5] = none := by
  decide

end Inworkspace.Search
