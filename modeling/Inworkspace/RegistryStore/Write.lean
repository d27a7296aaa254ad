import Inworkspace.RegistryStore.Index

/-!
# Writing to the registry

`store::registry::write`: objects are inserted, updated and deleted together with the keys
of their indexes. An insertion or an update is refused if an object it newly refers to is not
there, or belongs to another tenant or account, or if a new unique entry is taken; a
deletion is refused while there are references to the object.

An update looks only at the entries that have changed: those the object had before are
neither checked nor written again, and those it does not have any more are cleared after
the new ones have been written.
-/

namespace Inworkspace.RegistryStore

open Lib.Batch

/-- `RegistryWriteResult`. -/
inductive WriteResult where
  | success (id : Id)
  | cannotDeleteLinked (objectId : ObjectId) (linkedObjects : List ObjectId)
  | invalidSingletonId
  | cannotDeleteSingleton
  | notFound (objectId : ObjectId)
  | invalidForeignKey (objectId : ObjectId)
  | primaryKeyConflict (property : Property) (existingId : ObjectId)
  | validationError (errors : List String)
  | notSupported
  deriving DecidableEq

/-- `RegistryWrite`. -/
inductive Write where
  | insert (object : Object) (id : Option Id)
  | update (object : Object) (id : Id) (oldObject : Object)
  | delete (objectId : ObjectId) (object : Option Object) (allowedOrphanTypes : List ObjectType)

/-- The flags of a type of objects, `OBJ_SINGLETON` and so on. -/
structure ObjectFlags where
  singleton : Bool
  seqId : Bool
  filterAccount : Bool
  filterTenant : Bool
  deriving DecidableEq

/-- What is known of the types of objects, and what is checked of objects themselves. -/
structure Schema where
  flags : ObjectType → ObjectFlags
  account : ObjectType
  dataStore : ObjectType
  validate : Object → List String
  pickledLength : Object → ℕ

abbrev Registry := Store RegistryClass Value

/-- `MAX_OBJECT_PAYLOAD_SIZE`. -/
def maxObjectPayloadSize : ℕ := 200000

/-- `Id::singleton`. -/
def singletonId : Id := 20080258862541

/-- The id that stands for one that is still to be assigned, `u64::MAX`. -/
def unassignedId : Id := BitVec.allOnes 64

namespace Registry

def keyExists (st : Registry) (key : RegistryClass) : Bool := (st.get key).isSome

/-- `RegistryStore::get`. -/
def getObject (st : Registry) (objectId : ObjectId) : Option Object :=
  match st.get (.item objectId) with
  | some (.object object) => some object
  | _ => none

end Registry

/-! ## Insertions and updates -/

/-- An insertion or an update, with the entries that are set and cleared. -/
structure Change where
  object : Object
  itemId : Id
  writeId : Bool
  generateId : Bool
  oldObject : Option Object
  setIndex : List IndexKey
  clearIndex : List IndexKey

variable (schema : Schema) (st : Registry) (owner : ObjectId) (object : Object) (change : Change)

/-- The change an insertion asks for; `generated` is a new id. -/
def Schema.insertion (id : Option Id) (generated : Id) : Change :=
  let flags := schema.flags object.objectType
  let (itemId, writeId, generateId) :=
    match id with
    | some id => (id, true, false)
    | none =>
      if flags.singleton then (singletonId, false, false)
      else if flags.seqId then (unassignedId, true, true)
      else (generated, true, false)
  { object, itemId, writeId, generateId, oldObject := none, setIndex := object.index, clearIndex := [] }

/-- The change an update asks for. -/
def update (id : Id) (oldObject : Object) : Change :=
  { object, itemId := id, writeId := true, generateId := false, oldObject := some oldObject
    setIndex := object.index.filter (· ∉ oldObject.index)
    clearIndex := oldObject.index.filter (· ∉ object.index) }

namespace Change

def objectId (self : Change) : ObjectId := ⟨self.object.objectType, self.itemId⟩

/-- The account an object is of; an account is of itself. -/
def accountId (schema : Schema) (self : Change) : Option Id :=
  self.object.accountId <|>
    if self.object.objectType = schema.account then some self.itemId else none

end Change

variable (objectId : ObjectId)

/-- The key that exists if the object does, with the type that is asked for. -/
def foreignClass (typeFilter : IndexValue) : RegistryClass :=
  if typeFilter ≠ .none then .index .type objectId typeFilter.serialize else .indexId objectId

/-- The check of an object that is referred to. -/
def checkForeignKey (tenantId accountId : Option Id) (foreignId : ObjectId)
    (typeFilter : IndexValue) : Option WriteResult :=
  let flags := schema.flags foreignId.object
  let isOf (property : Property) (id : Id) :=
    st.keyExists (.index property foreignId (IndexValue.u64 id).serialize)
  if !st.keyExists (foreignClass foreignId typeFilter) then some (.invalidForeignKey foreignId)
  else if flags.filterTenant && tenantId.any (!isOf .memberTenantId ·) then
    some (.invalidForeignKey foreignId)
  else if flags.filterAccount && accountId.any (!isOf .accountId ·) then
    some (.invalidForeignKey foreignId)
  else none

/-- The check of an entry that is set: why the change is refused, if it is. -/
def checkKey : IndexKey → Option WriteResult
  | .foreignKey foreignId typeFilter =>
    checkForeignKey schema st change.object.memberTenantId (change.accountId schema) foreignId
      typeFilter
  | key@(.unique property _ _ _) =>
    match st.get (key.registryClass change.objectId) with
    | some (.owner existingId) =>
      if existingId ≠ change.objectId then some (.primaryKeyConflict property existingId) else none
    | _ => none
  | .search _ _ => none

/-- An assertion that nothing is stored under a key. -/
def isVacant : Option Value → Bool := Option.isNone

/-- An assertion that an object is stored. Its revision, a hash, stands for the object. -/
def isObject (value : Option Value) : Bool := value == some (.object object)

/-- `registry_index`, for an entry that is set. -/
def setKey (key : IndexKey) : List (Op RegistryClass Value) :=
  (if key.isUnique then [.assertValue (key.registryClass owner) isVacant] else []) ++
    [.set (key.registryClass owner) (key.value owner)]

/-- `registry_index`, for entries that are set. -/
def setKeys (keys : List IndexKey) : List (Op RegistryClass Value) :=
  keys.flatMap (setKey owner)

/-- `registry_index`, for entries that are cleared. -/
def clearKeys (keys : List IndexKey) : List (Op RegistryClass Value) :=
  (keys.map fun key => key.registryClass owner).map .clear

def Change.batch (self : Change) : List (Op RegistryClass Value) :=
  (match self.oldObject with
    | some oldObject => [.assertValue (.item self.objectId) (isObject oldObject)]
    | none => []) ++
  (if self.writeId then [.set (.indexId self.objectId) .empty] else []) ++
  setKeys self.objectId self.setIndex ++ clearKeys self.objectId self.clearIndex ++
  [.set (.item self.objectId) (.object self.object)]

/-- What is answered, unless an assertion fails, and the store. -/
abbrev Answer := Option WriteResult × Registry

/-- Write a batch. -/
def commit (id : Id) (batch : List (Op RegistryClass Value)) (st : Registry) : Answer :=
  match writeBatch batch st with
  | some st' => (some (.success id), st')
  | none => (none, st)

/-- The next number of a type of objects, and the store that remembers it. -/
def nextId (type : ObjectType) : ℕ × Registry :=
  let count := match st.get (.idCounter type) with
    | some (.counter count) => count + 1
    | _ => 1
  (count, st.set (.idCounter type) (.counter count))

/-- An object that is to be numbered gets its id. -/
def assignId (st : Registry) : Change × Registry :=
  if change.generateId then
    let (count, st) := nextId st change.object.objectType
    ({ change with itemId := BitVec.ofNat 64 count }, st)
  else (change, st)

/-- An insertion or an update: the object and its changed entries are checked, and it gets its
    id. -/
def writeChange (st : Registry) : Answer :=
  let errors := schema.validate change.object
  if errors ≠ [] then (some (.validationError errors), st)
  else if change.object.objectType = schema.dataStore then
    -- kept in a file of its own
    if change.generateId then (some .notSupported, st) else (some (.success singletonId), st)
  else
    match change.setIndex.findSome? (checkKey schema st change) with
    | some refusal => (some refusal, st)
    | none =>
      let (change, st) := assignId change st
      let length := schema.pickledLength change.object
      if maxObjectPayloadSize < length then
        (some (.validationError ["Object size " ++ toString length ++ " exceeds maximum of " ++
          toString maxObjectPayloadSize]), st)
      else commit change.itemId change.batch st

/-! ## Deletions -/

/-- `linked_objects`: the objects that refer to an object. -/
def linkedObjects : List ObjectId :=
  st.keys.filterMap fun
    | .reference to_ from_ => if to_ = objectId then some from_ else none
    | _ => none

def deletionBatch (object : Object) : List (Op RegistryClass Value) :=
  [.assertValue (.item objectId) (isObject object), .clear (.item objectId),
    .clear (.indexId objectId)] ++ clearKeys objectId object.index

def delete (object : Option Object) (allowedOrphanTypes : List ObjectType)
    (st : Registry) : Answer :=
  match object <|> st.getObject objectId with
  | none => (some (.notFound objectId), st)
  | some object =>
    let linked := (linkedObjects st objectId).filter (·.object ∉ allowedOrphanTypes)
    if linked ≠ [] then (some (.cannotDeleteLinked objectId linked), st)
    else commit objectId.id (deletionBatch objectId object) st

/-- `RegistryStore::write`; `generated` is a new id. -/
def write (generated : Id) (w : Write) (st : Registry) : Answer :=
  match w with
  | .insert object id => writeChange schema (schema.insertion object id generated) st
  | .update object id oldObject =>
    if (schema.flags object.objectType).singleton && id != singletonId then
      (some .invalidSingletonId, st)
    else writeChange schema (update object id oldObject) st
  | .delete objectId object allowedOrphanTypes =>
    if (schema.flags objectId.object).singleton then (some .cannotDeleteSingleton, st)
    else delete objectId object allowedOrphanTypes st

end Inworkspace.RegistryStore
