import Inworkspace.ChangeLog.Log
import Inworkspace.Lib.KeyedList
import Inworkspace.Write.Operation

/-!
# Batches

`store::write::batch`. A `BatchBuilder` collects operations. The account and the collection are
written only where they change; the changes of documents are collected by account and
written as logs when the batch is built. Where a batch has become large a commit point cuts it
(`BatchBuilder.commitPoint`), and its slices are written one by one.
-/

namespace Inworkspace.Write

open ChangeLog (LogChanges LogEvent buildId)
open Lib

/-! ## The builder -/

inductive VanishedItem where
  | name (name : String)
  | id (id : UInt64)
  | idPair (first second : UInt32)
  deriving DecidableEq

def VanishedItem.serializedSize : VanishedItem → ℕ
  | .name text => text.utf8ByteSize + 1
  | .id _ | .idPair .. => 8

/-- `VecMap::get_mut_or_insert`, and what is done with the value. -/
def getMutOrInsert {K V : Type} [DecidableEq K] (map : List (K × V)) (default : V) (key : K)
    (f : V → V) : List (K × V) :=
  KeyedList.updateFirst (fun entry => entry.1 == key) (fun entry => (entry.1, f entry.2))
    (KeyedList.insertNew Prod.fst map (key, default))

structure ChangeLogBuilder where
  changes : List (UInt8 × LogChanges)
  vanished : List (UInt8 × List VanishedItem)

namespace ChangeLogBuilder

def default : ChangeLogBuilder := ⟨[], []⟩

/-- One of the functions that log a change in a collection. -/
def log (self : ChangeLogBuilder) (collection : UInt8) (event : LogEvent) : ChangeLogBuilder :=
  { self with changes := getMutOrInsert self.changes .empty collection (·.log event) }

def logVanishedItem (self : ChangeLogBuilder) (collection : UInt8) (item : VanishedItem) :
    ChangeLogBuilder :=
  { self with vanished := getMutOrInsert self.vanished [] collection (· ++ [item]) }

end ChangeLogBuilder

/-- How changes are written; the order of hash sets is left open. -/
structure LogFormat where
  changes : LogChanges → Bytes
  vanished : List VanishedItem → Bytes

variable {C : Type}

/-- `BatchBuilder`; of the changed collections, the accounts. -/
structure BatchBuilder (C : Type) where
  ops : List (Operation C)
  currentAccountId : Option UInt32
  currentCollection : Option UInt8
  currentDocumentId : Option UInt32
  changes : List (UInt32 × ChangeLogBuilder)
  changedCollections : List UInt32
  batchSize : ℕ
  batchOps : ℕ
  commitPoints : List ℕ

/-- A call that adds an operation on a value. -/
inductive ValueCall (C : Type) where
  | assertValue (valueClass : C) (value : AssertValue)
  | index (field : UInt8) (value : Bytes)
  | unindex (field : UInt8) (value : Bytes)
  | add (valueClass : C) (value : Int64)
  | addAndGet (valueClass : C) (value : Int64)
  | set (valueClass : C) (value : Bytes)
  | setFnc (valueClass : C) (fnc : AssignedIds → Except Error Bytes)
  | mergeFnc (valueClass : C) (fnc : AssignedIds → Option Bytes → Except Error MergeResult)
  | clear (valueClass : C)
  | aclGrant (grantAccountId : UInt32) (op : Bytes)
  | aclRevoke (grantAccountId : UInt32)

namespace ValueCall

variable [ValueClass C]

def operation : ValueCall C → Operation C
  | .assertValue valueClass value => .assertValue valueClass value
  | .index field value => .index field value true
  | .unindex field value => .index field value false
  | .add valueClass value => .value valueClass (.atomicAdd value)
  | .addAndGet valueClass value => .value valueClass (.addAndGet value)
  | .set valueClass value => .value valueClass (.set value)
  | .setFnc valueClass fnc => .value valueClass (.setFnc fnc)
  | .mergeFnc valueClass fnc => .value valueClass (.mergeFnc fnc)
  | .clear valueClass => .value valueClass .clear
  | .aclGrant grantAccountId op => .value (ValueClass.acl grantAccountId) (.set op)
  | .aclRevoke grantAccountId => .value (ValueClass.acl grantAccountId) .clear

/-- What is added to `batch_size`. -/
def size : ValueCall C → ℕ
  | .assertValue .. | .setFnc .. | .mergeFnc .. => 0
  | .index _ value | .unindex _ value => 4 * 3 + value.length
  | .add valueClass _ => ValueClass.serializedSize valueClass + 8
  | .addAndGet valueClass _ => ValueClass.serializedSize valueClass + 8 * 2
  | .set valueClass value => ValueClass.serializedSize valueClass + value.length
  | .clear valueClass => ValueClass.serializedSize valueClass
  | .aclGrant _ op => 4 * 3 + op.length
  | .aclRevoke _ => 4 * 3

/-- What is added to `batch_ops`: functions are not counted. -/
def count : ValueCall C → ℕ
  | .setFnc .. | .mergeFnc .. => 0
  | _ => 1

end ValueCall

inductive LogCall where
  | itemInsert (collection : UInt8) (prefixId : Option UInt32)
  | itemUpdate (collection : UInt8) (prefixId : Option UInt32)
  | itemDelete (collection : UInt8) (prefixId : Option UInt32)
  | containerInsert (collection : UInt8)
  | containerUpdate (collection : UInt8)
  | containerDelete (collection : UInt8)
  | containerPropertyChange (collection : UInt8) (documentId : UInt32)
  | vanishedItem (collection : UInt8) (item : VanishedItem)
  deriving DecidableEq

namespace LogCall

/-- What is logged, unless it is about a document and there is none. -/
def logged (documentId : Option UInt32) : LogCall → Option (ChangeLogBuilder → ChangeLogBuilder)
  | .itemInsert collection prefixId =>
    documentId.map fun id log => log.log collection (.itemInsert (buildId prefixId id))
  | .itemUpdate collection prefixId =>
    documentId.map fun id log => log.log collection (.itemUpdate (buildId prefixId id))
  | .itemDelete collection prefixId =>
    documentId.map fun id log => log.log collection (.itemDelete (buildId prefixId id))
  | .containerInsert collection =>
    documentId.map fun id log => log.log collection (.containerInsert id)
  | .containerUpdate collection =>
    documentId.map fun id log => log.log collection (.containerUpdate id)
  | .containerDelete collection =>
    documentId.map fun id log => log.log collection (.containerDelete id)
  | .containerPropertyChange collection id =>
    some fun log => log.log collection (.containerPropertyUpdate id)
  | .vanishedItem collection item => some fun log => log.logVanishedItem collection item

/-- What is added to `batch_size`. -/
def size : LogCall → ℕ
  | .vanishedItem _ item => item.serializedSize
  | _ => 0

end LogCall

namespace BatchBuilder

def new : BatchBuilder C := ⟨[], none, none, none, [], [], 0, 0, []⟩

variable (format : LogFormat) (self : BatchBuilder C)

/-- The builder with one more operation. -/
def push (op : Operation C) : BatchBuilder C :=
  { self with ops := self.ops ++ [op] }

def withAccountId (accountId : UInt32) : BatchBuilder C :=
  if self.currentAccountId ≠ some accountId then
    push { self with currentAccountId := some accountId } (.accountId accountId)
  else self

def withCollection (collection : UInt8) : BatchBuilder C :=
  if some collection ≠ self.currentCollection then
    push { self with currentCollection := some collection } (.collection collection)
  else self

def withDocument (documentId : UInt32) : BatchBuilder C :=
  push { self with currentDocumentId := some documentId } (.documentId documentId)

/-- A function that adds an operation on a value. -/
def value [ValueClass C] (call : ValueCall C) : BatchBuilder C :=
  push { self with batchSize := self.batchSize + call.size, batchOps := self.batchOps + call.count }
    call.operation

/-- A function that logs a change. -/
def log (call : LogCall) : BatchBuilder C :=
  match self.currentAccountId, call.logged self.currentDocumentId with
  | some accountId, some logged =>
    { self with
      batchSize := self.batchSize + call.size
      changes := getMutOrInsert self.changes .default accountId logged }
  | _, _ => self

def addChanged (accountId : UInt32) : BatchBuilder C :=
  { self with changedCollections := KeyedList.insertNew id self.changedCollections accountId }

/-- `log_share_notification`; the class is that of the notification. -/
def logShareNotification [ValueClass C] (notifyAccountId : UInt32) (valueClass : C)
    (value : Bytes) : BatchBuilder C :=
  (self.addChanged notifyAccountId).value (.set valueClass value)

/-- The logs of an account. -/
def serializeChangeLog (entry : UInt32 × ChangeLogBuilder) : BatchBuilder C :=
  -- the account of the last log remains the current one
  let self := self.withAccountId entry.1
  let self := if entry.2.changes.isEmpty then self else self.addChanged entry.1
  { self with
    ops := self.ops ++
      (entry.2.changes.map fun log => .log log.1 (format.changes log.2)) ++
      (entry.2.vanished.map fun log => .log log.1 (format.vanished log.2)) }

def serializeChanges : BatchBuilder C :=
  self.changes.foldl (serializeChangeLog format) { self with changes := [] }

/-- `is_large_batch`, of the size and the number of operations. -/
def isLarge (batchSize batchOps : ℕ) : Bool := batchSize > 5000000 || batchOps > 1000

def isLargeBatch : Bool := isLarge self.batchSize self.batchOps

/-- The start of a slice: the account and the collection again. -/
def beginSlice : BatchBuilder C :=
  { self with
    ops := self.ops ++ (self.currentAccountId.map .accountId).toList ++
      (self.currentCollection.map .collection).toList }

def commitPoint : BatchBuilder C :=
  if self.isLargeBatch then
    let self := self.serializeChanges format
    beginSlice
      { self with
        commitPoints := self.commitPoints ++ [self.ops.length], batchOps := 0, batchSize := 0 }
  else self

/-- The slices of a `CommitPointIterator`. -/
def slicesFrom (ops : List (Operation C)) : (offsetStart : ℕ) → List ℕ → List (List (Operation C))
  | _, [] => []
  | offsetStart, offsetEnd :: commitPoints =>
    (ops.take offsetEnd).drop offsetStart :: slicesFrom ops offsetEnd commitPoints

/-- `commit_points`, and the slices that `build_one` gives for them. -/
def slices : List (List (Operation C)) :=
  let self := self.serializeChanges format
  slicesFrom self.ops 0 (self.commitPoints ++ [self.ops.length])

end BatchBuilder

/-- A call of one of the functions of a `BatchBuilder`. -/
inductive Call (C : Type) where
  | withAccountId (accountId : UInt32)
  | withCollection (collection : UInt8)
  | withDocument (documentId : UInt32)
  | value (call : ValueCall C)
  | log (call : LogCall)
  | logShareNotification (notifyAccountId : UInt32) (valueClass : C) (value : Bytes)
  | commitPoint

/-- The builder after a call. -/
def BatchBuilder.call [ValueClass C] (format : LogFormat) (self : BatchBuilder C) : Call C → BatchBuilder C
  | .withAccountId accountId => self.withAccountId accountId
  | .withCollection collection => self.withCollection collection
  | .withDocument documentId => self.withDocument documentId
  | .value call => self.value call
  | .log call => self.log call
  | .logShareNotification notifyAccountId valueClass value =>
    self.logShareNotification notifyAccountId valueClass value
  | .commitPoint => self.commitPoint format

/-- The builder after some calls. -/
def BatchBuilder.run [ValueClass C] (format : LogFormat) (calls : List (Call C)) : BatchBuilder C :=
  calls.foldl (call format) new

end Inworkspace.Write
