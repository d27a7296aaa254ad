import Inworkspace.Indexing.TermIndex
import Inworkspace.Lib.Batch
import Inworkspace.Types.Acl

/-!
# Objects and their indexes

`common::storage::index`. An object is stored as an archive, and it gives a list of
`IndexValue`s, from which keys and counters are derived: values it can be searched by, properties,
links to blobs, the accounts it is shared with, and what it counts in quotas. When the object is
updated, the list of its old version and the list of the new one are gone through side by side,
and where they differ the derived data is changed (`mergeIndex`).

The classes of properties are left open (`P`). What is written is a list of calls on
a `BatchBuilder`, and `Derived.write` is what they do to the derived data.
-/

namespace Inworkspace.Storage

open Indexing (SearchIndex)
open Lib.Batch
open Write (Bytes Call LogCall ValueCall ArchiveVersion AssignedIds Error beBytes)

/-! ## Index values -/

/-- `IndexItem`: the bytes, or `None`. Integers and hashes are never empty. -/
abbrev IndexItem := Option Bytes

namespace IndexItem

/-- `as_slice` and `into_owned`. -/
def asSlice (self : IndexItem) : Bytes := self.getD []

def isEmpty (self : IndexItem) : Bool := self.asSlice.isEmpty

end IndexItem

/-- `IndexValue`; collections are the numbers that they are written as. -/
inductive IndexValue (P : Type) where
  | index (field : UInt8) (value : IndexItem)
  | property (field : P) (value : IndexItem)
  | searchIndex (index : SearchIndex) (hash : UInt64)
  | blob (value : Bytes)
  | quota (used : UInt32)
  | logContainer (syncCollection : UInt8)
  | logContainerProperty (syncCollection : UInt8) (ids : List UInt32)
  | logItem (syncCollection : UInt8) (prefixId : Option UInt32)
  | acl (value : List AclGrant)

variable {P : Type} [DecidableEq P] (env : Env) (isVersioned : Bool)

/-- `PartialEq`: items are compared as bytes. -/
def IndexValue.eq : IndexValue P → IndexValue P → Bool
  | .index field value, .index field' value' =>
    field = field' ∧ IndexItem.asSlice value = IndexItem.asSlice value'
  | .property field value, .property field' value' =>
    field = field' ∧ IndexItem.asSlice value = IndexItem.asSlice value'
  | .searchIndex which hash, .searchIndex which' hash' => which = which' ∧ hash = hash'
  | .blob value, .blob value' => value = value'
  | .quota used, .quota used' => used = used'
  | .logContainer syncCollection, .logContainer syncCollection' =>
    syncCollection = syncCollection'
  | .logContainerProperty syncCollection ids, .logContainerProperty syncCollection' ids' =>
    syncCollection = syncCollection' ∧ ids = ids'
  | .logItem syncCollection prefixId, .logItem syncCollection' prefixId' =>
    syncCollection = syncCollection' ∧ prefixId = prefixId'
  | .acl value, .acl value' => value = value'
  | _, _ => false

/-- The classes of the values that are written. -/
inductive ObjectClass (P : Type) where
  | archive
  | property (property : P)
  | blobLink (hash : Bytes)
  | acl (grantAccountId : ℕ)
  | quota
  | tenantQuota (tenantId : UInt32)
  | shareNotification (notificationId : UInt64) (notifyAccountId : ℕ)
  | task (id : UInt64)
  | taskDue (id due : UInt64)
  deriving DecidableEq

/-- Calls for such values. -/
abbrev Calls (P : Type) := List (Call (ObjectClass P))

/-- `TaskIndexDocument`, and whether the document is removed from the index. -/
structure IndexTask where
  accountId : UInt32
  documentId : UInt32
  documentType : SearchIndex
  unindex : Bool

/-- What is known when an object is written: the document, who changes it and for which tenant, the
    generated ids, and how a task is written. -/
structure Env where
  accountId : UInt32
  collection : UInt8
  documentId : UInt32
  changedBy : UInt32
  tenantId : Option UInt32
  notificationId : UInt64
  taskId : UInt64
  due : UInt64
  pickle : IndexTask → Bytes
  taskClass : Bytes

namespace Env

variable (self : Env)

def scheduleTask (index : SearchIndex) (unindex : Bool) : Calls P :=
  [.value (.set (.task self.taskId) (self.pickle ⟨self.accountId, self.documentId, index, unindex⟩)),
    .value (.set (.taskDue self.taskId self.due) self.taskClass)]

def logShareNotification (accountId : ℕ) (oldRights newRights : Bitmap Acl) :
    Call (ObjectClass P) :=
  .value (.set (.shareNotification self.notificationId accountId)
    (beBytes 4 self.accountId.toNat ++ beBytes 4 self.documentId.toNat ++ [self.collection] ++
      beBytes 4 self.changedBy.toNat ++ beBytes 8 oldRights.bitmap.toNat ++
      beBytes 8 newRights.bitmap.toNat))

/-- An account gets rights. -/
def aclGrant (oldRights : Bitmap Acl) (item : AclGrant) : Calls P :=
  [.value (.set (.acl item.accountId) (beBytes 8 item.grants.bitmap.toNat)),
    self.logShareNotification item.accountId oldRights item.grants]

/-- An account loses its rights. -/
def aclRevoke (item : AclGrant) : Calls P :=
  [.value (.clear (.acl item.accountId)),
    self.logShareNotification item.accountId item.grants .new]

/-- The quotas of the account and of the tenant. -/
def addQuota (value : Int64) : Calls P :=
  .value (.add .quota value) ::
    (self.tenantId.map fun tenantId => .value (.add (.tenantQuota tenantId) value)).toList

end Env

def buildIndex (item : IndexValue P) (set : Bool) : Calls P :=
  match item with
  | .index field value =>
    if IndexItem.isEmpty value then []
    else if set then [.value (.index field (IndexItem.asSlice value))]
    else [.value (.unindex field (IndexItem.asSlice value))]
  | .searchIndex index _ => env.scheduleTask index !set
  | .property field value =>
    if value.isNone then []
    else if set then [.value (.set (.property field) (IndexItem.asSlice value))]
    else [.value (.clear (.property field))]
  | .blob value =>
    if set then [.value (.set (.blobLink value) [])] else [.value (.clear (.blobLink value))]
  | .acl value =>
    if set then value.flatMap (env.aclGrant .new) else value.flatMap env.aclRevoke
  | .quota used =>
    env.addQuota (if set then Int64.ofNat used.toNat else -Int64.ofNat used.toNat)
  | .logItem syncCollection prefixId =>
    if set then [.log (.itemInsert syncCollection prefixId)]
    else [.log (.itemDelete syncCollection prefixId)]
  | .logContainer syncCollection =>
    if set then [.log (.containerInsert syncCollection)]
    else [.log (.containerDelete syncCollection)]
  | .logContainerProperty syncCollection ids =>
    ids.map fun parentId => .log (.containerPropertyChange syncCollection parentId)

/-- The rights that an account had before, if it has others now. -/
def changedRights (old : List AclGrant) (item : AclGrant) : Option (Bitmap Acl) :=
  match old.find? (·.accountId = item.accountId) with
  | some current => if item.grants = current.grants then none else some current.grants
  | none => some .new

/-- An account gets rights, unless it has them. -/
def aclUpdate (old : List AclGrant) (item : AclGrant) : Calls P :=
  match changedRights old item with
  | some oldRights => env.aclGrant oldRights item
  | none => []

/-- The accounts that an object is shared with change. -/
def mergeAcl (old new : List AclGrant) : Calls P :=
  match old.isEmpty, new.isEmpty with
  | true, true => []
  | false, false =>
    ((old.filter fun current => !new.any (·.accountId = current.accountId)).flatMap env.aclRevoke) ++
      new.flatMap (aclUpdate env old)
  | true, false => new.flatMap (env.aclGrant .new)
  | false, true => old.flatMap env.aclRevoke

/-- `merge_index`, unless it is `unreachable`. -/
def mergeIndex (current change : IndexValue P) : Option (Calls P) :=
  match current, change with
  | .index field old, .index _ new =>
    -- the field of the new value is not looked at
    some ((if IndexItem.isEmpty old then [] else [.value (.unindex field (IndexItem.asSlice old))]) ++
      if IndexItem.isEmpty new then [] else [.value (.index field (IndexItem.asSlice new))])
  | .searchIndex index _, .searchIndex _ _ => some (env.scheduleTask index false)
  | .property oldField old, .property newField new =>
    if oldField ≠ newField then
      some [.value (.clear (.property oldField)),
        .value (.set (.property newField) (IndexItem.asSlice new))]
    else if IndexItem.asSlice new ≠ IndexItem.asSlice old then
      if new.isSome then some [.value (.set (.property oldField) (IndexItem.asSlice new))]
      else some [.value (.clear (.property oldField))]
    else some []
  | .blob old, .blob new =>
    some [.value (.clear (.blobLink old)), .value (.set (.blobLink new) [])]
  | .acl old, .acl new => some (mergeAcl env old new)
  | .quota old, .quota new =>
    some (env.addQuota (Int64.ofNat new.toNat - Int64.ofNat old.toNat))
  | .logItem syncCollection old, .logItem _ new =>
    some [.log (.itemDelete syncCollection old), .log (.itemInsert syncCollection new)]
  | .logContainerProperty syncCollection old, .logContainerProperty _ new =>
    some (((old.filter (· ∉ new)) ++ new.filter (· ∉ old)).map fun parentId =>
      .log (.containerPropertyChange syncCollection parentId))
  | _, _ => none

/-- What an update does about two values at the same place. -/
def updateIndex (current change : IndexValue P) : Option (Calls P) :=
  if current.eq change then
    match current with
    | .logContainer syncCollection => some [.log (.containerUpdate syncCollection)]
    | .logItem syncCollection prefixId => some [.log (.itemUpdate syncCollection prefixId)]
    | _ => some []
  else mergeIndex env current change

/-! ## Objects -/

/-- A version of an object: what it is indexed by, and its archive, with its place in it. -/
structure Version (P : Type) where
  indexValues : List (IndexValue P)
  archive : Bytes
  offset : ℕ

/-- `Archive`: a version as it was read. -/
structure Archive (P : Type) where
  version : ArchiveVersion
  inner : Version P

/-- The archive is written, with the id of the change if versions are kept. -/
def setArchive (changes : Version P) : Call (ObjectClass P) :=
  if isVersioned then
    .value (.setFnc .archive fun ids =>
      match ids.currentChangeId with
      | some changeId =>
        .ok (changes.archive.take changes.offset ++ beBytes 8 changeId.toNat ++
          changes.archive.getLast?.toList)
      | none => .error (.unexpectedError "No current change id is set"))
  else .value (.set .archive changes.archive)

/-- `ObjectIndexBuilder::build`, unless it is `unreachable`. -/
def build (env : Env) (current : Option (Archive P))
    (changes : Option (Version P)) : Option (Calls P) :=
  match current, changes with
  | none, some changes =>
    some ((changes.indexValues.flatMap (buildIndex env · true)) ++ [setArchive isVersioned changes])
  | some current, some changes => do
    -- `zip` drops the values at the end of the longer list
    let merged ← (current.inner.indexValues.zip changes.indexValues).mapM fun pair =>
      updateIndex env pair.1 pair.2
    return .value (.assertValue .archive (.archive current.version)) ::
      (merged.flatten ++ [setArchive isVersioned changes])
  | some current, none =>
    some (.value (.assertValue .archive (.archive current.version)) ::
      (current.inner.indexValues.flatMap (buildIndex env · false) ++ [.value (.clear .archive)]))
  | none, none => none

/-! ## Derived data -/

/-- The keys that are derived from an object. -/
inductive DerivedKey (P : Type) where
  | index (field : UInt8) (value : Bytes)
  | property (property : P)
  | blobLink (hash : Bytes)
  | acl (grantAccountId : ℕ)
  deriving DecidableEq

/-- The counters that an object counts in. -/
inductive Counter where
  | quota
  | tenantQuota (tenantId : UInt32)
  deriving DecidableEq

/-- The derived data in the store. -/
structure Derived (P : Type) where
  rows : Store (DerivedKey P) Bytes
  counters : Counter → Int64

def ObjectClass.derivedKey : ObjectClass P → Option (DerivedKey P)
  | .property field => some (.property field)
  | .blobLink hash => some (.blobLink hash)
  | .acl grantAccountId => some (.acl grantAccountId)
  | _ => none

def ObjectClass.counter : ObjectClass P → Option Counter
  | .quota => some .quota
  | .tenantQuota tenantId => some (.tenantQuota tenantId)
  | _ => none

/-- What a call does to derived keys. -/
def rowOp : Call (ObjectClass P) → Option (Op (DerivedKey P) Bytes)
  | .value (.index field value) => some (.set (.index field value) [])
  | .value (.unindex field value) => some (.clear (.index field value))
  | .value (.set valueClass value) => valueClass.derivedKey.map (.set · value)
  | .value (.clear valueClass) => valueClass.derivedKey.map .clear
  | _ => none

def added (counter : Counter) : Call (ObjectClass P) → Int64
  | .value (.add valueClass value) => if valueClass.counter = some counter then value else 0
  | _ => 0

namespace Derived

/-- Nothing is derived. -/
def empty : Derived P := ⟨.empty, fun _ => 0⟩

/-- The derived data after some calls. -/
def write (self : Derived P) (calls : Calls P) : Derived P where
  rows := (writeBatch (calls.filterMap rowOp) self.rows).getD self.rows
  counters counter := calls.foldl (fun total call => total + added counter call)
    (self.counters counter)

/-- The same keys have the same values, and the counters too. -/
def Same (self other : Derived P) : Prop :=
  (∀ key, self.rows.get key = other.rows.get key) ∧
    ∀ counter, self.counters counter = other.counters counter

end Derived

/-! ## Histories -/

/-- An object is created, in an empty store. -/
def create (env : Env) (version : Version P) : Option (Derived P) :=
  (build isVersioned env none (some version)).map Derived.empty.write

/-- An update: the environment, the version of the archive read and the new version. -/
structure Update (P : Type) where
  env : Env
  read : ArchiveVersion
  version : Version P

/-- The derived data after some updates. -/
def updates (isVersioned : Bool) (derived : Derived P) (current : Version P) :
    List (Update P) → Option (Derived P)
  | [] => some derived
  | update :: rest => do
    let calls ← build isVersioned update.env (some ⟨update.read, current⟩) (some update.version)
    updates isVersioned (derived.write calls) update.version rest

/-- An object is created and updated. -/
def history (env : Env) (version : Version P) (rest : List (Update P)) : Option (Derived P) := do
  let derived ← create isVersioned env version
  updates isVersioned derived version rest

/-- The last version of a history. -/
def lastVersion (version : Version P) (rest : List (Update P)) : Version P :=
  (rest.getLast?.map Update.version).getD version

/-- The object is deleted. -/
def delete (env : Env) (read : ArchiveVersion) (current : Version P)
    (derived : Derived P) : Option (Derived P) :=
  (build isVersioned env (some ⟨read, current⟩) none).map derived.write

/-! ## Files -/

/-- What a `FileNode` is indexed by: whom it is shared with, its size, and the hash of its contents
    if it is a file. -/
structure FileNode where
  acls : List AclGrant
  size : UInt32
  blobHash : Option Bytes

/-- `SyncCollection::FileNode`. -/
def syncFileNode : UInt8 := 4

/-- `index_values` of a `FileNode`. -/
def FileNode.indexValues (self : FileNode) : List (IndexValue P) :=
  [.acl self.acls, .logItem syncFileNode none, .quota self.size] ++
    (self.blobHash.map .blob).toList

end Inworkspace.Storage
