import Inworkspace.RegistryStore.Index
import Inworkspace.RegistryStore.QueryResults
import Inworkspace.Lib.BigEndian

/-!
# Queries of the registry

`RegistryStore::query` of `store::registry::query`, for the objects of one type. The index of a
property has a key for each value and object, the value with the id behind it, and the keys
are iterated in their order, from the first to the last key of a range
(`indexRange`); the primary keys have only the value (`pkRange`). A text is looked up word
by word (`matchWords`). The ids of the filters are intersected (`applyFilters`), where an empty
result stands for one that has not begun, and only if there are several filters, or a text with
several words, is the page taken afterwards. Without filters the ids of all objects are
iterated (`allIds`).

There is no separator between the value and the id of a key: the id of a short value is compared
with the rest of a longer one. Which keys of the values a filter asks for are in its range is
`indexInRange_of_compares`.
-/

namespace Inworkspace.RegistryStore

open Lib.BigEndian RegistryQueryResults

/-! ## Contents -/

/-- Bytes as numbers, which are compared one after the other. -/
def numbers (bytes : List UInt8) : List ℕ := bytes.map UInt8.toNat

/-- `u64::MAX`. -/
def u64Max : ℕ := 2 ^ 64 - 1

/-- The key of a value and an id, behind the object type and the property. -/
def indexKey (value : List UInt8) (id : ℕ) : List ℕ := numbers value ++ bigEndian 8 id

/-- The index of a property: values and ids, in the order of their keys. -/
structure SearchIndex where
  entries : List (List UInt8 × ℕ)
  sorted : entries.Pairwise fun e e' => indexKey e.1 e.2 < indexKey e'.1 e'.2

/-- The primary keys of a property, and the ids they have as their value. -/
structure PrimaryKeys where
  entries : List (List UInt8 × ℕ)
  sorted : entries.Pairwise fun e e' => numbers e.1 < numbers e'.1

/-- What the registry has of one type of objects. The keys of an object are written with its id. -/
structure RegistryContents where
  ids : List ℕ
  sorted : ids.Pairwise (· < ·)
  lt : ∀ id ∈ ids, id < 2 ^ 64
  index : Property → SearchIndex
  primaryKeys : Property → PrimaryKeys
  indexed : ∀ property, ∀ e ∈ (index property).entries, e.2 ∈ ids
  keyed : ∀ property, ∀ e ∈ (primaryKeys property).entries, e.2 ∈ ids

/-! ## Queries -/

inductive RegistryFilterOp where
  | equal
  | greaterThan
  | greaterEqualThan
  | lowerThan
  | lowerEqualThan
  | textMatch
  deriving DecidableEq

inductive RegistryFilterValue where
  | string (value : String)
  | bytes (value : List UInt8)
  | u64 (value : BitVec 64)
  | u16 (value : BitVec 16)
  | boolean (value : Bool)
  deriving DecidableEq

/-- The bytes a value is compared by. -/
def RegistryFilterValue.asBytes : RegistryFilterValue → List UInt8
  | .string value => Inworkspace.asBytes value
  | .bytes value => value
  | .u64 value => toBeBytes (k := 8) value
  | .u16 value => toBeBytes (k := 2) value
  | .boolean value => [if value then 1 else 0]

structure RegistryFilter where
  property : Property
  op : RegistryFilterOp
  value : RegistryFilterValue
  isPk : Bool
  deriving DecidableEq

inductive RegistryQueryStart where
  | index (index : ℕ)
  | anchor (anchor : Id)
  | none
  deriving DecidableEq

/-- `RegistryQuery`, for a given type of objects. -/
structure RegistryQuery where
  filters : List RegistryFilter
  start : RegistryQueryStart
  limit : Option ℕ
  deriving DecidableEq

/-- What the standard library knows about characters. -/
class CharClasses where
  isAlphanumeric : Char → Bool
  isLowercase : Char → Bool
  isAlphabetic : Char → Bool
  toLowercase : String → String

section Pagination

variable [CharClasses]

open CharClasses

/-- The words of a text: its parts of more than one byte, in lower case. -/
def words (text : String) : List (List UInt8) :=
  (((text.toList.splitOnP fun c => !isAlphanumeric c).map String.ofList).filter
    fun word => word.utf8ByteSize > 1).map fun word =>
      if word.toList.all fun ch => isLowercase ch || !isAlphabetic ch then asBytes word
      else asBytes (toLowercase word)

/-- The page is taken after all ids have been collected: there are several filters, or one text that
    is not a single word. -/
def RegistryQuery.deferredPagination (filters : List RegistryFilter) : Bool :=
  filters.length > 1 || filters.head?.any fun f =>
    match f.op, f.value with
    | .textMatch, .string value =>
      (value.toList.any fun c => !isAlphanumeric c) && value.utf8ByteSize > 1
    | _, _ => false

def ResultsPagination.new {T : Type} [RegistryQueryResults T]
    (query : RegistryQuery) : ResultsPagination T where
  list := empty
  offset := match query.start with
    | .index index => index
    | _ => 0
  anchor := match query.start with
    | .anchor anchor => some anchor.toNat
    | _ => none
  limit := query.limit
  deferredPagination := RegistryQuery.deferredPagination query.filters

end Pagination

/-! ## Ranges -/

variable (op : RegistryFilterOp)

/-- Whether the value of a key is one that is asked for. -/
def compares (value matchValue : List UInt8) : Bool :=
  match op with
  | .lowerThan => numbers value < numbers matchValue
  | .lowerEqualThan => numbers value ≤ numbers matchValue
  | .greaterThan => numbers matchValue < numbers value
  | .greaterEqualThan => numbers matchValue ≤ numbers value
  | .equal | .textMatch => value = matchValue

/-- A key is between the first and the last one of the iteration. For greater values the last key is
    one of the next property, where the iteration ends. -/
def indexInRange (matchValue : List UInt8) (key : List ℕ) : Bool :=
  match op with
  | .lowerThan => indexKey [] 0 ≤ key ∧ key ≤ indexKey matchValue 0
  | .lowerEqualThan => indexKey [] 0 ≤ key ∧ key ≤ indexKey matchValue u64Max
  | .greaterThan => indexKey matchValue u64Max ≤ key
  | .greaterEqualThan => indexKey matchValue 0 ≤ key
  | .equal | .textMatch => indexKey matchValue 0 ≤ key ∧ key ≤ indexKey matchValue u64Max

/-- A primary key is between the first and the last one of the iteration. -/
def pkInRange (matchValue : List UInt8) (key : List ℕ) : Bool :=
  match op with
  | .lowerThan | .lowerEqualThan => key ≤ numbers matchValue
  | .greaterThan | .greaterEqualThan => numbers matchValue ≤ key
  | .equal | .textMatch => numbers matchValue ≤ key ∧ key ≤ numbers matchValue

/-- The ids the iteration over an index finds, in the order it finds them. -/
def SearchIndex.found (index : SearchIndex) (op : RegistryFilterOp) (matchValue : List UInt8) :
    List ℕ :=
  (index.entries.filter fun e =>
    indexInRange op matchValue (indexKey e.1 e.2) && compares op e.1 matchValue).map Prod.snd

/-- The ids the iteration over the primary keys finds, in order. -/
def PrimaryKeys.found (keys : PrimaryKeys) (op : RegistryFilterOp) (matchValue : List UInt8) :
    List ℕ :=
  (keys.entries.filter fun e =>
    pkInRange op matchValue (numbers e.1) && compares op e.1 matchValue).map Prod.snd

theorem numbers_injective : Function.Injective numbers :=
  List.map_injective_iff.mpr fun _ _ h => UInt8.toNat_inj.mp h

theorem length_numbers (bytes : List UInt8) : (numbers bytes).length = bytes.length :=
  List.length_map ..

variable (value : List UInt8) {op}

/-- Keys of the same value are ordered by their ids. -/
theorem indexKey_lt_indexKey {id id' : ℕ} (hid : id < 2 ^ 64) (hid' : id' < 2 ^ 64) :
    indexKey value id < indexKey value id' ↔ id < id' := by
  have hpow : 256 ^ 8 = 2 ^ 64 := by decide
  rw [indexKey, indexKey, append_lt_append_left, bigEndian_lt_bigEndian, hpow,
    Nat.mod_eq_of_lt hid, Nat.mod_eq_of_lt hid']

theorem indexKey_le_indexKey {id id' : ℕ} (hid : id < 2 ^ 64) (hid' : id' < 2 ^ 64) :
    indexKey value id ≤ indexKey value id' ↔ id ≤ id' := by
  rw [← not_lt, indexKey_lt_indexKey value hid' hid, not_lt]

/-- A key has its value first, if the values have the same length. -/
theorem indexKey_lt_of_length_eq {value value' : List UInt8}
    (hlength : value.length = value'.length) (hlt : numbers value < numbers value')
    (id id' : ℕ) : indexKey value id < indexKey value' id' :=
  append_lt_append_of_length_eq (by rwa [length_numbers, length_numbers]) hlt _ _

/-- No key of a value or a greater one is before that of the value and zero. -/
theorem indexKey_zero_le {value value' : List UInt8} (hle : numbers value ≤ numbers value')
    (id : ℕ) : indexKey value 0 ≤ indexKey value' id :=
  append_zero_le_append hle (by rw [length_bigEndian])

theorem indexInRange_equal {id : ℕ} (hid : id < 2 ^ 64) :
    indexInRange .equal value (indexKey value id) := by
  have hmax : id ≤ u64Max := by unfold u64Max; omega
  exact decide_eq_true ⟨indexKey_zero_le le_rfl id,
    (indexKey_le_indexKey value hid (by decide)).mpr hmax⟩

/-- A value that is asked for is in the range, unless a lower or greater one is asked for and it has
    another length: its id is then compared with a part of the other value. -/
theorem indexInRange_of_compares {value matchValue : List UInt8}
    (hcompares : compares op value matchValue) {id : ℕ} (hid : id < 2 ^ 64)
    (hop : op = .equal ∨ op = .textMatch ∨ op = .greaterEqualThan ∨
      value.length = matchValue.length) : indexInRange op matchValue (indexKey value id) := by
  have hmax : id ≤ u64Max := by unfold u64Max; omega
  have hnil : numbers [] ≤ numbers value := not_lt.mp (List.not_lt_nil _)
  cases op with
  | equal | textMatch =>
    rw [of_decide_eq_true hcompares]
    exact indexInRange_equal matchValue hid
  | greaterEqualThan => exact decide_eq_true (indexKey_zero_le (of_decide_eq_true hcompares) id)
  | greaterThan =>
    -- with values of one length the ids come into the comparison last
    have hlength : value.length = matchValue.length := by simpa using hop
    exact decide_eq_true
      (indexKey_lt_of_length_eq hlength.symm (of_decide_eq_true hcompares) _ _).le
  | lowerThan =>
    have hlength : value.length = matchValue.length := by simpa using hop
    exact decide_eq_true ⟨indexKey_zero_le hnil id,
      (indexKey_lt_of_length_eq hlength (of_decide_eq_true hcompares) _ _).le⟩
  | lowerEqualThan =>
    have hlength : value.length = matchValue.length := by simpa using hop
    refine decide_eq_true ⟨indexKey_zero_le hnil id, ?_⟩
    rcases (of_decide_eq_true hcompares).lt_or_eq with hlt | heq
    · exact (indexKey_lt_of_length_eq hlength hlt _ _).le
    · rw [numbers_injective heq]
      exact (indexKey_le_indexKey matchValue hid (by decide)).mpr hmax

theorem indexInRange_greaterThan : indexInRange .greaterThan [1] (indexKey [2] 5) :=
  indexInRange_of_compares (by decide) (by decide) (by decide)

section Ranges

variable {T : Type} [RegistryQueryResults T]

/-- The ids of an iteration, as far as `results` takes them, sorted. -/
def ResultsPagination.collect (results : ResultsPagination T) (ids : List ℕ) :
    ResultsPagination T :=
  let results := results.pushAll ids
  { results with list := sort results.list }

def indexRange (index : SearchIndex) (matchValue : List UInt8) (op : RegistryFilterOp)
    (results : ResultsPagination T) : ResultsPagination T :=
  results.collect (index.found op matchValue)

def pkRange (keys : PrimaryKeys) (matchValue : List UInt8) (op : RegistryFilterOp)
    (results : ResultsPagination T) : ResultsPagination T :=
  results.collect (keys.found op matchValue)

/-- `all_ids`. The id behind an anchor wraps around. -/
def allIds (registry : RegistryContents) (query : RegistryQuery) : T :=
  let itemId := match query.start with
    | .anchor anchor => (anchor + 1).toNat
    | _ => 0
  let offset := match query.start with
    | .index index => index
    | _ => 0
  ((⟨empty, offset, none, query.limit, false⟩ : ResultsPagination T).pushAll
    (registry.ids.filter (itemId ≤ ·))).list

end Ranges

/-! ## Filters -/

section Filters

variable [CharClasses] {T : Type} [RegistryQueryResults T] (registry : RegistryContents)
  (query : RegistryQuery)

/-- The ids that come next, if there are none yet, or else those in common. -/
def ResultsPagination.narrow (results result : ResultsPagination T) : ResultsPagination T :=
  if !hasItems results.list then result
  else { results with list := intersect results.list result.list }

/-- The loop over the words of a text, which ends when several leave no id. -/
def matchWords (index : SearchIndex) : List (List UInt8) → ResultsPagination T →
    ResultsPagination T
  | [], results => results
  | word :: words, results =>
    let next := results.narrow (indexRange index word .equal (.new query))
    -- no ids yet, or none any more: both look the same
    if hasItems results.list && !hasItems next.list then next
    else matchWords index words next

/-- The ids of one filter. -/
def matchFilter (filter : RegistryFilter) : Except String (ResultsPagination T) :=
  if filter.op = .textMatch then
    match filter.value with
    | .string text =>
      .ok (matchWords query (registry.index filter.property) (words text) (.new query))
    | _ => .error "TextMatch operator only supports string values"
  else if !filter.isPk then
    .ok (indexRange (registry.index filter.property) filter.value.asBytes filter.op (.new query))
  else
    .ok (pkRange (registry.primaryKeys filter.property) filter.value.asBytes filter.op (.new query))

/-- The loop over the filters, which ends when no id is left. -/
def applyFilters : List RegistryFilter → ResultsPagination T →
    Except String (ResultsPagination T)
  | [], results => .ok results
  | filter :: filters, results => do
    let result ← matchFilter registry query filter
    let results := results.narrow result
    if !hasItems results.list then return results
    applyFilters filters results

end Filters

def query [CharClasses] (T : Type) [RegistryQueryResults T] (registry : RegistryContents)
    (query : RegistryQuery) : Except String T :=
  if query.filters.isEmpty then .ok (allIds registry query)
  else do
    let results ← applyFilters registry query query.filters (.new query)
    return results.finalize

end Inworkspace.RegistryStore
