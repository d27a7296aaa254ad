import Inworkspace.Lib.BigEndian

/-!
# Operations

`store::write`: what a batch is made of. An operation sets, clears or adds to a value, keeps an
index or a log, or asserts what a value is; the account, the collection and the
document it is about are set by operations before it. A backend starts without them
(`Context.start`) and reads the operations one after the other (`Context.next`).
-/

namespace Inworkspace.Write

open Lib.BigEndian

variable (k n : ℕ)

abbrev Bytes := List UInt8

/-- The `k` bytes of a number in a key. -/
def beBytes (k n : ℕ) : Bytes := (bigEndian k n).map UInt8.ofNat

@[simp] theorem length_beBytes : (beBytes k n).length = k := by
  rw [beBytes, List.length_map, length_bigEndian]

theorem map_toNat_beBytes : (beBytes k n).map UInt8.toNat = bigEndian k n := by
  rw [beBytes, List.map_map]
  refine (List.map_congr_left fun byte hbyte => ?_).trans (List.map_id _)
  exact UInt8.toNat_ofNat_of_lt' (lt_of_mem_bigEndian hbyte)

theorem ofBigEndian_beBytes : ofBigEndian ((beBytes k n).map UInt8.toNat) = n % 256 ^ k := by
  rw [map_toNat_beBytes, ofBigEndian_bigEndian]

/-- What is read of a `ValueClass`: the key of a value, its subspace, its reckoned size, and the
    class of the grants of an account. -/
class ValueClass (C : Type) where
  serialize : (accountId : UInt32) → (collection : UInt8) → (documentId : UInt32) → C → Bytes
  subspace : (collection : UInt8) → C → UInt8
  serializedSize : C → ℕ
  acl : (grantAccountId : UInt32) → C

inductive ArchiveVersion where
  | versioned (changeId : UInt64) (hash : UInt32)
  | hashed (hash : UInt32)
  | unversioned
  deriving DecidableEq

inductive AssertValue where
  | u32 (value : UInt32)
  | u64 (value : UInt64)
  | hash (value : UInt64)
  | archive (version : ArchiveVersion)
  | some
  | none
  deriving DecidableEq

/-- What goes wrong in a write. -/
inductive Error where
  | assertValueFailed
  | corruptedKey (key value : Bytes)
  | unexpectedError (reason : String)
  | other (details : String)
  deriving DecidableEq

/-! ## Ids that a write assigns -/

inductive AssignedId where
  | counter (id : Int64)
  | changeId (accountId : UInt32) (changeId : UInt64)
  deriving DecidableEq

structure AssignedIds where
  ids : List AssignedId
  currentChangeId : Option UInt64
  deriving DecidableEq

namespace AssignedIds

def default : AssignedIds := ⟨[], none⟩

variable (self : AssignedIds) (accountId : UInt32)

def pushCounterId (id : Int64) : AssignedIds :=
  { self with ids := self.ids ++ [.counter id] }

def pushChangeId (changeId : UInt64) : AssignedIds :=
  { self with ids := self.ids ++ [.changeId accountId changeId] }

/-- The change id, if it is one of the account. -/
def changeIdOf : AssignedId → Option UInt64
  | .changeId accountId' changeId => if accountId' = accountId then some changeId else none
  | .counter _ => none

def lastChangeId : Except Error UInt64 :=
  match (self.ids.filterMap (changeIdOf accountId)).getLast? with
  | some changeId => .ok changeId
  | none => .error (.unexpectedError "No change ids were created")

def setCurrentChangeId : Except Error (AssignedIds × UInt64) := do
  let changeId ← self.lastChangeId accountId
  return ({ self with currentChangeId := some changeId }, changeId)

end AssignedIds

/-! ## Operations -/

inductive MergeResult where
  | update (value : Bytes)
  | skip
  | delete

/-- `ValueOp`; the parameters of the functions are part of them. -/
inductive ValueOp where
  | set (value : Bytes)
  | setFnc (fnc : AssignedIds → Except Error Bytes)
  | mergeFnc (fnc : AssignedIds → Option Bytes → Except Error MergeResult)
  | atomicAdd (value : Int64)
  | addAndGet (value : Int64)
  | clear

/-- `Operation`; collections are the numbers that they are written as. -/
inductive Operation (C : Type) where
  | accountId (accountId : UInt32)
  | collection (collection : UInt8)
  | documentId (documentId : UInt32)
  | assertValue (valueClass : C) (assertValue : AssertValue)
  | value (valueClass : C) (op : ValueOp)
  | index (field : UInt8) (key : Bytes) (set : Bool)
  | log (collection : UInt8) (set : Bytes)

variable {C : Type}

/-- An operation on a value, its index or what it is asserted to be. -/
def Operation.isValue : Operation C → Bool
  | .assertValue .. | .value .. | .index .. => true
  | .accountId _ | .collection _ | .documentId _ | .log .. => false

/-! ## Contexts -/

/-- The account, the collection and the document that operations are about. -/
structure Context where
  accountId : UInt32
  collection : UInt8
  documentId : UInt32
  deriving DecidableEq

namespace Context

/-- The context at the start of a batch. -/
def start : Context :=
  ⟨UInt32.ofNat (2 ^ 32 - 1), UInt8.ofNat (2 ^ 8 - 1), UInt32.ofNat (2 ^ 32 - 1)⟩

/-- The context after an operation. -/
def next (self : Context) : Operation C → Context
  | .accountId accountId => { self with accountId }
  | .collection collection => { self with collection }
  | .documentId documentId => { self with documentId }
  | .assertValue .. | .value .. | .index .. | .log .. => self

end Context

/-! ## Some classes -/

/-- The classes for the values of a document and for what an account has used. -/
inductive AccountClass where
  | property (field : UInt8)
  | acl (grantAccountId : UInt32)
  | quota
  deriving DecidableEq

namespace AccountClass

def serialize (accountId : UInt32) (collection : UInt8) (documentId : UInt32) :
    AccountClass → Bytes
  | .property field =>
    beBytes 4 accountId.toNat ++ [collection, field] ++ beBytes 4 documentId.toNat
  | .acl grantAccountId =>
    beBytes 4 grantAccountId.toNat ++ beBytes 4 accountId.toNat ++ [collection] ++
      beBytes 4 documentId.toNat
  | .quota => beBytes 4 accountId.toNat ++ [255]

/-- `subspace`; the counter of the UIDs of a mailbox is a property too. -/
def subspace (collection : UInt8) : AccountClass → UInt8
  | .property field => if collection = 1 ∧ field = 84 then 'n'.toUInt8 else 'p'.toUInt8
  | .acl _ => 'a'.toUInt8
  | .quota => 'n'.toUInt8

def serializedSize : AccountClass → ℕ
  | .property _ => 4 * 2 + 3
  | .acl _ => 4 * 3 + 2
  | .quota => 4 + 1

instance : ValueClass AccountClass := ⟨serialize, subspace, serializedSize, .acl⟩

end AccountClass

end Inworkspace.Write
