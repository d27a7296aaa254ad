import Inworkspace.Lib.KeyedList

/-!
# Batches of writes

A store of values by key, and batches of operations that are written as a whole: they set
and clear keys and assert what is stored under some, and if an assertion fails
nothing is written. What a batch leaves under a key is the last it does to
it (`effect`), whatever it does to other keys (`get_writeBatch`).
-/

namespace Inworkspace.Lib.Batch

open List KeyedList Option

variable {K V : Type} [DecidableEq K]

/-- A store: the keys and the values they have, the latest first. -/
structure Store (K V : Type) where
  entries : List (K × V)

namespace Store

def empty : Store K V := ⟨[]⟩

variable (st : Store K V)

/-- The value of a key. -/
def get (key : K) : Option V := st.entries.lookup key

/-- The store with another value of a key. -/
def set (key : K) (value : V) : Store K V :=
  ⟨upsert st.entries key value⟩

/-- The store without a key. -/
def clear (key : K) : Store K V := ⟨st.entries.filter (·.1 != key)⟩

/-- The keys that have values. -/
def keys : List K := st.entries.map Prod.fst

theorem get_set (key : K) (value : V) (k : K) :
    (st.set key value).get k = if k = key then some value else st.get k := by
  split
  · rename_i h
    rw [h, get, set, lookup_upsert_self]
  · rename_i h
    rw [get, set, lookup_upsert_of_ne _ _ h, get]

theorem get_clear (key k : K) : (st.clear key).get k = if k = key then none else st.get k := by
  split
  · rename_i h
    rw [h, get, clear, lookup_filter_self]
  · rename_i h
    rw [get, clear, lookup_filter_of_ne _ h, get]

theorem mem_keys {st : Store K V} {key : K} : key ∈ st.keys ↔ (st.get key).isSome = true := by
  rw [keys, get, List.mem_map]
  constructor
  · rintro ⟨⟨k, v⟩, hmem, rfl⟩
    refine isSome_iff_ne_none.mpr fun hnone => ?_
    simpa using lookup_eq_none_iff.mp hnone ⟨k, v⟩ hmem
  · intro h
    obtain ⟨v, hv⟩ := isSome_iff_exists.mp h
    exact ⟨(key, v), mem_of_lookup hv, rfl⟩

end Store

/-! ## Operations -/

/-- An operation of a batch. -/
inductive Op (K V : Type) where
  | set (key : K) (value : V)
  | clear (key : K)
  | assertValue (key : K) (holds : Option V → Bool)

/-- An operation that may fail. -/
def Op.isAssert : Op K V → Bool
  | .assertValue .. => true
  | _ => false

/-- The store after the operations, unless an assertion fails. -/
def writeBatch : List (Op K V) → Store K V → Option (Store K V)
  | [], st => some st
  | .set key value :: ops, st => writeBatch ops (st.set key value)
  | .clear key :: ops, st => writeBatch ops (st.clear key)
  | .assertValue key holds :: ops, st => if holds (st.get key) then writeBatch ops st else none

/-- What the operations do to a key: nothing, or the last of what they do. -/
def effect : List (Op K V) → K → Option (Option V)
  | [], _ => none
  | .set key value :: ops, k => effect ops k <|> if k = key then some (some value) else none
  | .clear key :: ops, k => effect ops k <|> if k = key then some none else none
  | .assertValue _ _ :: ops, k => effect ops k

variable {ops : List (Op K V)} {st st' : Store K V}

/-- Only the last operation on a key matters for it. -/
theorem get_writeBatch
    (h : writeBatch ops st = some st') (k : K) : st'.get k = (effect ops k).getD (st.get k) := by
  induction ops generalizing st with
  | nil =>
    obtain rfl := some.inj h
    rfl
  | cons op ops ih =>
    cases op with
    | set key value =>
      rw [ih h, Store.get_set, effect]
      -- a later operation on the key hides this one
      cases effect ops k with
      | none => split <;> rfl
      | some v => rfl
    | clear key =>
      rw [ih h, Store.get_clear, effect]
      cases effect ops k with
      | none => split <;> rfl
      | some v => rfl
    | assertValue key holds =>
      rw [writeBatch] at h
      split at h
      · exact ih h
      · cases h

theorem writeBatch_assertValue {key : K} {holds : Option V → Bool}
    (h : writeBatch (.assertValue key holds :: ops) st = some st') :
    holds (st.get key) = true ∧ writeBatch ops st = some st' := by
  rw [writeBatch] at h
  split at h
  · rename_i hholds
    exact ⟨hholds, h⟩
  · cases h

variable (ops) (ops' : List (Op K V))

/-- What comes later decides. -/
theorem effect_append (k : K) : effect (ops ++ ops') k = (effect ops' k <|> effect ops k) := by
  induction ops with
  | nil =>
    rw [nil_append]
    cases effect ops' k <;> rfl
  | cons op ops ih =>
    cases op with
    | set key value | clear key =>
      rw [cons_append, effect, ih]
      cases effect ops' k <;> rfl
    | assertValue key holds => rw [cons_append, effect, effect, ih]

theorem effect_map_clear (keys : List K) (k : K) :
    effect (keys.map Op.clear : List (Op K V)) k = if k ∈ keys then some none else none := by
  induction keys with
  | nil => rfl
  | cons key keys ih =>
    rw [map_cons, effect, ih]
    by_cases hmem : k ∈ keys
    · simp [hmem]
    by_cases hk : k = key
    · rw [if_neg hmem, if_pos hk, if_pos (mem_cons.mpr (.inl hk))]
      rfl
    · simp [hk]

/-- What rows that are set one after another leave under a key. -/
def lastRow : List (K × V) → K → Option V
  | [], _ => none
  | row :: rows, k => lastRow rows k <|> if k = row.1 then some row.2 else none

theorem effect_map_rows (rows : List (K × V)) (k : K) :
    effect (rows.map fun row => Op.set row.1 row.2) k = (lastRow rows k).map some := by
  induction rows with
  | nil => rfl
  | cons row rows ih =>
    rw [map_cons, effect, ih, lastRow]
    cases lastRow rows k with
    | none => split <;> rfl
    | some value => rfl

theorem lastRow_append (rows rows' : List (K × V)) (k : K) :
    lastRow (rows ++ rows') k = (lastRow rows' k <|> lastRow rows k) := by
  induction rows with
  | nil =>
    rw [nil_append]
    cases lastRow rows' k <;> rfl
  | cons row rows ih =>
    rw [cons_append, lastRow, ih]
    cases lastRow rows' k <;> rfl

theorem lastRow_eq_none_iff {rows : List (K × V)} {k : K} :
    lastRow rows k = none ↔ k ∉ rows.map Prod.fst := by
  induction rows with
  | nil => exact iff_of_true rfl not_mem_nil
  | cons row rows ih =>
    rw [lastRow, orElse_eq_orElse, orElse_eq_or, or_eq_none_iff, ih, and_comm]
    simp

/-- If the keys of some items are different, the row under a key is that of the item with it. -/
theorem lastRow_map {ι : Type} {key : ι → K} {items : List ι} (h : (items.map key).Nodup)
    (value : ι → V) (k : K) :
    lastRow (items.map fun item => (key item, value item)) k =
      (items.find? (key · = k)).map value := by
  induction items with
  | nil => rfl
  | cons item items ih =>
    obtain ⟨hitem, hitems⟩ := nodup_cons.mp h
    rw [map_cons, lastRow, ih hitems]
    by_cases hk : key item = k
    · have hnone : items.find? (key · = k) = none := by
        rw [find?_eq_none]
        intro other hother hkey
        refine hitem (hk ▸ of_decide_eq_true hkey ▸ mem_map_of_mem hother)
      rw [hnone, if_pos hk.symm, find?_cons_of_pos (by simpa using hk)]
      rfl
    · rw [if_neg (Ne.symm hk), find?_cons_of_neg (by simpa using hk)]
      cases (items.find? (key · = k)).map value <;> rfl

/-- A batch may be cut anywhere. -/
theorem writeBatch_append (st : Store K V) :
    writeBatch (ops ++ ops') st = (writeBatch ops st).bind (writeBatch ops') := by
  induction ops generalizing st with
  | nil => rfl
  | cons op ops ih =>
    cases op with
    | set key value | clear key => exact ih _
    | assertValue key holds =>
      rw [cons_append, writeBatch, writeBatch]
      split
      · exact ih _
      · rfl

/-- Operations that assert nothing are written. -/
theorem exists_writeBatch {ops : List (Op K V)} (h : ∀ op ∈ ops, op.isAssert = false)
    (st : Store K V) : ∃ st', writeBatch ops st = some st' := by
  induction ops generalizing st with
  | nil => exact ⟨st, rfl⟩
  | cons op ops ih =>
    have hops : ∀ op ∈ ops, op.isAssert = false := fun op hop => h op (mem_cons_of_mem _ hop)
    cases op with
    | set key value | clear key => exact ih hops _
    | assertValue key holds => cases h _ mem_cons_self

end Inworkspace.Lib.Batch
