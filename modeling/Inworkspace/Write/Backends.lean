import Inworkspace.Write.Executor

/-!
# Backends

Three of the backends of `store`: the ephemeral one, which keeps values in memory, RocksDB, where
the operations of a batch are those of a transaction, and SQLite, where a subspace is a table.
They differ in what they make of counters. RocksDB has a merge operator for the subspaces
with counters; SQLite keeps them in tables of integers, and adds a negative number by an `UPDATE`.
SQLite also has tables that have keys only.
-/

namespace Inworkspace.Write

/-! ## The ephemeral store -/

/-- The values of an `EphemeralState` by subspace and key. -/
abbrev Contents := UInt8 → Bytes → Option Bytes

/-- Another value, or none, for a key. -/
def assign {V : Type} (rows : UInt8 → Bytes → Option V) (subspace : UInt8) (key : Bytes)
    (value : Option V) : UInt8 → Bytes → Option V :=
  fun subspace' key' => if subspace' = subspace ∧ key' = key then value else rows subspace' key'

/-- The counter that a value is, zero if there is none. -/
def counterOf (key : Bytes) : Option Bytes → Except Error Int64
  | some bytes => deserializeI64Le key bytes
  | none => .ok 0

section Rows

variable {S : Type} (get : S → Contents) (write : S → UInt8 → Bytes → Option Bytes → S)

/-- A counter to which a number is added. -/
def addToCounter (store : S) (subspace : UInt8) (key : Bytes) (value : Int64) :
    Except Error (S × Int64) := do
  let current ← counterOf key (get store subspace key)
  return (write store subspace key (some (toLeBytes (current + value))), current + value)

/-- The operations on a store of values under keys. -/
def rows : Backend S := fun store request =>
  match request with
  | .get subspace key => .ok (store, get store subspace key)
  | .set subspace key value | .put subspace key value =>
    .ok (write store subspace key (some value), ())
  | .atomicAdd subspace key value => do
    let (store, _) ← addToCounter get write store subspace key value
    return (store, ())
  | .addAndGet subspace key value => addToCounter get write store subspace key value
  | .clear subspace key => .ok (write store subspace key none, ())
  | .setIndex key => .ok (write store subspaceIndexes key (some []), ())
  | .clearIndex key => .ok (write store subspaceIndexes key none, ())
  | .setLog key value => .ok (write store subspaceLogs key (some value), ())

end Rows

/-- The operations of `EphemeralStore::write`. -/
def ephemeral : Backend Contents := rows id assign

/-! ## RocksDB -/

def counterSubspaces : List UInt8 := ['n'.toUInt8, 'u'.toUInt8, 'y'.toUInt8]

/-- A transaction: what it has written, the latest first, over a snapshot. -/
structure Transaction where
  snapshot : Contents
  writes : List ((UInt8 × Bytes) × Option Bytes)

namespace Transaction

/-- `get_pinned_for_update_cf`. -/
def get (self : Transaction) (subspace : UInt8) (key : Bytes) : Option Bytes :=
  (self.writes.lookup (subspace, key)).getD (self.snapshot subspace key)

/-- `put_cf` and `delete_cf`. -/
def write (self : Transaction) (subspace : UInt8) (key : Bytes) (value : Option Bytes) :
    Transaction :=
  { self with writes := ((subspace, key), value) :: self.writes }

/-- A transaction reads what it has written. -/
theorem get_write (txn : Transaction) (subspace : UInt8) (key : Bytes) (value : Option Bytes) :
    (txn.write subspace key value).get = assign txn.get subspace key value := by
  funext subspace' key'
  rw [assign, get, write, List.lookup_cons]
  by_cases h : subspace' = subspace ∧ key' = key
  · rw [if_pos h, h.1, h.2, beq_self_eq_true]
    rfl
  have hne : ((subspace', key') == (subspace, key)) = false := by
    rwa [beq_eq_false_iff_ne, Ne, Prod.mk.injEq]
  rw [if_neg h, hne]
  rfl

end Transaction

def numericValueMerge (value : Option Bytes) (operands : List Bytes) : Option Bytes := do
  let value ← match value with
    | some value => fromLeBytes value
    | none => some 0
  let value ← operands.foldlM (fun value operand => (fromLeBytes operand).map (value + ·)) value
  return toLeBytes value

/-- The operations of `RocksDBTransaction::commit`. Numbers are added by merges, which are done at
    once here. -/
def rocksdb : Backend Transaction := fun txn request =>
  match request with
  | .atomicAdd subspace key value =>
    if subspace ∈ counterSubspaces then
      match numericValueMerge (txn.get subspace key) [toLeBytes value] with
      | some merged => .ok (txn.write subspace key (some merged), ())
      | none => .error (.other "Merge operator failed")
    else .error (.other "Merge requires a merge operator")
  | request => rows Transaction.get Transaction.write txn request

/-! ## SQLite -/

/-- A value of a row. Numbers beyond 64 bits are not followed further. -/
inductive SqliteValue where
  | blob (bytes : Bytes)
  | integer (value : Int64)
  | real
  deriving DecidableEq

/-- The rows by table and key; rows of tables with keys only are empty. -/
abbrev SqliteTables := UInt8 → Bytes → Option SqliteValue

/-- `SUBSPACE_REGISTRY_IDX`. -/
def subspaceRegistryIdx : UInt8 := 'b'.toUInt8

/-- The tables with keys only. -/
def keySubspaces : List UInt8 := [subspaceIndexes, subspaceRegistryIdx]

/-- The tables with values. -/
def valueSubspaces : List UInt8 :=
  ['a', 'f', 'j', 'w', 'k', 'm', 'p', 's', 'g', 'e', 'q', 'h', 'r', 'l', 't', 'o', 'x', 'z',
    'd'].map Char.toUInt8

/-- A sum is a 64-bit number. -/
def inRange (value : ℤ) : Bool := -2 ^ 63 ≤ value ∧ value < 2 ^ 63

variable (number : Bytes → SqliteValue) (tables : SqliteTables) (subspace : UInt8)

namespace SqliteValue

/-- `v + excluded.v`; `number` is what a blob counts as in a sum. -/
def add (self : SqliteValue) (value : Int64) : SqliteValue :=
  let addInteger (current : Int64) : SqliteValue :=
    if inRange (current.toInt + value.toInt) then .integer (current + value) else .real
  match self with
  | .integer current => addInteger current
  | .blob bytes =>
    match number bytes with
    | .integer current => addInteger current
    | _ => .real
  | .real => .real

end SqliteValue

/-- `INSERT OR REPLACE INTO table (k, v)`. -/
def insertOrReplace (key value : Bytes) : Except Error (SqliteTables × Unit) :=
  if subspace ∈ valueSubspaces ∨ subspace ∈ counterSubspaces then
    .ok (assign tables subspace key (some (.blob value)), ())
  else .error (.other "no such table or column")

/-- `INSERT OR IGNORE INTO table (k)`. -/
def insertOrIgnore (key : Bytes) : SqliteTables :=
  if (tables subspace key).isSome then tables else assign tables subspace key (some (.blob []))

/-- `INSERT INTO table (k, v) ON CONFLICT(k) DO UPDATE SET v = v + excluded.v`. -/
def insertOrAdd (key : Bytes) (value : Int64) : Except Error (SqliteTables × SqliteValue) :=
  if subspace ∈ valueSubspaces ∨ subspace ∈ counterSubspaces then
    let sum := match tables subspace key with
      | some current => current.add number value
      | none => .integer value
    .ok (assign tables subspace key (some sum), sum)
  else .error (.other "no such table or column")

/-- The operations of `SqliteStore::write`. -/
def sqlite : Backend SqliteTables := fun tables request =>
  match request with
  | .get subspace key =>
    if subspace ∈ valueSubspaces ∨ subspace ∈ counterSubspaces then
      match tables subspace key with
      | some (.blob bytes) => .ok (tables, some bytes)
      | some _ => .error (.other "Invalid type")
      | none => .ok (tables, none)
    else .error (.other "no such table or column")
  | .set subspace key value =>
    if subspace ≠ subspaceRegistryIdx then insertOrReplace tables subspace key value
    else .ok (insertOrIgnore tables subspace key, ())
  | .put subspace key value => insertOrReplace tables subspace key value
  | .atomicAdd subspace key value =>
    if 0 ≤ value then do
      let (tables, _) ← insertOrAdd number tables subspace key value
      return (tables, ())
    else if subspace ∈ valueSubspaces ∨ subspace ∈ counterSubspaces then
      .ok (assign tables subspace key ((tables subspace key).map (·.add number value)), ())
    else .error (.other "no such table or column")
  | .addAndGet subspace key value => do
    match ← insertOrAdd number tables subspace key value with
    | (tables, .integer sum) => return (tables, sum)
    | _ => throw (.other "Invalid column type")
  | .clear subspace key =>
    if subspace ∈ valueSubspaces ∨ subspace ∈ counterSubspaces ∨ subspace ∈ keySubspaces then
      .ok (assign tables subspace key none, ())
    else .error (.other "no such table or column")
  | .setIndex key => .ok (insertOrIgnore tables subspaceIndexes key, ())
  | .clearIndex key => .ok (assign tables subspaceIndexes key none, ())
  | .setLog key value => insertOrReplace tables subspaceLogs key value

/-! ## Writing -/

variable {C : Type} [ValueClass C] (xxh3 : Bytes → UInt64)

/-- `EphemeralStore::write`. -/
def writeEphemeral (store : Contents) (batch : Batch C) : Contents × Except Error AssignedIds :=
  writeInPlace xxh3 ephemeral store batch

/-- `RocksDbStore::write`: the transaction is committed, unless an operation fails. -/
def writeRocksdb (db : Contents) (batch : Batch C) : Contents × Except Error AssignedIds :=
  match Executor.batch xxh3 rocksdb ⟨db, []⟩ batch with
  | (self, none) => (self.store.get, .ok self.result)
  | (_, some error) => (db, .error error)

/-- `SqliteStore::write`. -/
def writeSqlite (number : Bytes → SqliteValue) (tables : SqliteTables)
    (batch : Batch C) : SqliteTables × Except Error AssignedIds :=
  writeTransaction xxh3 (sqlite number) tables batch

end Inworkspace.Write
