import Inworkspace.Lib.Leb128
import Mathlib.Data.Finset.Basic

/-!
# The change log

What has changed in a collection of an account, for clients that ask what is new since they last
asked. `ChangeLogBuilder` collects the changes of a batch, in a set for each kind of change; with
the batch they are written as an entry of the log (`LogChanges.serialize`). A query reads the
entries since a change id into a list of changes, where those of the same item or container are
merged (`deserialize`).

The sets of the builder are hash sets. In which order they are written is left open
(`LogChanges.Order`).
-/

namespace Inworkspace.ChangeLog

open Lib.Leb128

/-! ## Writing -/

/-- `write::log::Changes`. -/
structure LogChanges where
  itemInserts : Finset UInt64
  itemUpdates : Finset UInt64
  itemDeletes : Finset UInt64
  containerInserts : Finset UInt32
  containerUpdates : Finset UInt32
  containerDeletes : Finset UInt32
  containerPropertyChanges : Finset UInt32
  deriving DecidableEq

def buildId (prefixId : Option UInt32) (documentId : UInt32) : UInt64 :=
  match prefixId with
  | some prefixId => prefixId.toUInt64 <<< 32 ||| documentId.toUInt64
  | none => documentId.toUInt64

/-- A call of a function of `ChangeLogBuilder` for the collection; items have the ids of
    `build_id`. -/
inductive LogEvent where
  | itemInsert (id : UInt64)
  | itemUpdate (id : UInt64)
  | itemDelete (id : UInt64)
  | containerInsert (documentId : UInt32)
  | containerUpdate (documentId : UInt32)
  | containerPropertyUpdate (documentId : UInt32)
  | containerDelete (documentId : UInt32)
  deriving DecidableEq

namespace LogChanges

/-- No changes. -/
def empty : LogChanges := ⟨∅, ∅, ∅, ∅, ∅, ∅, ∅⟩

variable (self : LogChanges) (documentId : UInt32) (id : UInt64)

def logItemInsert : LogChanges :=
  if id ∈ self.itemDeletes then
    { self with
      itemDeletes := self.itemDeletes.erase id, itemUpdates := insert id self.itemUpdates }
  else { self with itemInserts := insert id self.itemInserts }

def logItemUpdate : LogChanges :=
  { self with itemUpdates := insert id self.itemUpdates }

def logItemDelete : LogChanges :=
  { self with
    itemUpdates := self.itemUpdates.erase id, itemDeletes := insert id self.itemDeletes }

def logContainerInsert : LogChanges :=
  if documentId ∈ self.containerDeletes then
    { self with
      containerDeletes := self.containerDeletes.erase documentId
      containerUpdates := insert documentId self.containerUpdates }
  else { self with containerInserts := insert documentId self.containerInserts }

def logContainerUpdate : LogChanges :=
  { self with containerUpdates := insert documentId self.containerUpdates }

def logContainerPropertyUpdate : LogChanges :=
  { self with containerPropertyChanges := insert documentId self.containerPropertyChanges }

def logContainerDelete : LogChanges :=
  { self with
    containerUpdates := self.containerUpdates.erase documentId
    containerPropertyChanges := self.containerPropertyChanges.erase documentId
    containerDeletes := insert documentId self.containerDeletes }

/-- The changes after an event. -/
def log : LogEvent → LogChanges
  | .itemInsert id => self.logItemInsert id
  | .itemUpdate id => self.logItemUpdate id
  | .itemDelete id => self.logItemDelete id
  | .containerInsert documentId => self.logContainerInsert documentId
  | .containerUpdate documentId => self.logContainerUpdate documentId
  | .containerPropertyUpdate documentId => self.logContainerPropertyUpdate documentId
  | .containerDelete documentId => self.logContainerDelete documentId

def ofBatch (batch : List LogEvent) : LogChanges := batch.foldl log empty

end LogChanges

/-- An order of the elements of a hash set. Their number is a `usize`. -/
structure Listing {α : Type} (s : Finset α) where
  toList : List α
  nodup : toList.Nodup
  mem_toList : ∀ a, a ∈ toList ↔ a ∈ s
  length_lt : toList.length < 2 ^ 64

/-- The orders in which the sets are met. -/
structure LogChanges.Order (changes : LogChanges) where
  itemInserts : Listing changes.itemInserts
  itemUpdates : Listing changes.itemUpdates
  itemDeletes : Listing changes.itemDeletes
  containerInserts : Listing changes.containerInserts
  containerUpdates : Listing changes.containerUpdates
  containerDeletes : Listing changes.containerDeletes
  containerPropertyChanges : Listing changes.containerPropertyChanges

namespace Listing

/-- The ids of items, as numbers. -/
def itemIds {s : Finset UInt64} (self : Listing s) : List ℕ := self.toList.map UInt64.toNat

/-- The ids of containers, as numbers. -/
def containerIds {s : Finset UInt32} (self : Listing s) : List ℕ := self.toList.map UInt32.toNat

end Listing

/-- `Changes::serialize`. -/
def LogChanges.serialize {changes : LogChanges} (order : changes.Order) : List UInt8 :=
  [order.containerInserts.toList.length, order.containerUpdates.toList.length,
      order.containerPropertyChanges.toList.length, order.containerDeletes.toList.length,
      order.itemInserts.toList.length, order.itemUpdates.toList.length,
      order.itemDeletes.toList.length].flatMap toLeb128 ++
    ([order.containerInserts.containerIds, order.containerUpdates.containerIds,
          order.containerPropertyChanges.containerIds,
          order.containerDeletes.containerIds].flatMap (·.flatMap toLeb128) ++
      [order.itemInserts.itemIds, order.itemUpdates.itemIds,
          order.itemDeletes.itemIds].flatMap (·.flatMap toLeb128))

/-! ## Reading -/

/-- `query::log::Change`. -/
inductive Change where
  | insertContainer (id : UInt64)
  | updateContainer (id : UInt64)
  | updateContainerProperty (id : UInt64)
  | deleteContainer (id : UInt64)
  | insertItem (id : UInt64)
  | updateItem (id : UInt64)
  | deleteItem (id : UInt64)
  deriving DecidableEq

def Change.itemId : Change → Option UInt64
  | .insertItem id | .updateItem id | .deleteItem id => some id
  | _ => none

section Merge

variable (changes : List Change) (id : UInt64)

/-- The container has been inserted. -/
def addInsertContainer : List Change := changes ++ [.insertContainer id]

/-- The container, or one of its properties, has been updated. -/
def addUpdateContainer (isPropertyChange : Bool) : List Change :=
  let update := if isPropertyChange then Change.updateContainerProperty id else .updateContainer id
  match changes.find? (· ∈ [.insertContainer id, .updateContainer id,
      .updateContainerProperty id]) with
  | some (.insertContainer _) => changes
  | some (.updateContainer _) => changes.erase (.updateContainer id) ++ [.updateContainer id]
  | some change => changes.erase change ++ [update]
  | none => changes ++ [update]

/-- The container has been deleted. -/
def addDeleteContainer : List Change :=
  -- an update of a property is not looked for, and stays
  match changes.find? (· ∈ [.insertContainer id, .updateContainer id]) with
  | some (.insertContainer _) => changes.erase (.insertContainer id)
  | some change => changes.erase change ++ [.deleteContainer id]
  | none => changes ++ [.deleteContainer id]

/-- The item has been inserted. -/
def addInsertItem : List Change := changes ++ [.insertItem id]

/-- The item has been updated. -/
def addUpdateItem : List Change :=
  match changes.find? (· ∈ [.insertItem id, .updateItem id]) with
  | some (.insertItem _) => changes
  -- it moves behind all other changes
  | some change => changes.erase change ++ [.updateItem id]
  | none => changes ++ [.updateItem id]

/-- The item has been deleted. -/
def addDeleteItem : List Change :=
  match changes.find? (· ∈ [.insertItem id, .updateItem id]) with
  | some (.insertItem _) => changes.erase (.insertItem id)
  | some change => changes.erase change ++ [.deleteItem id]
  | none => changes ++ [.deleteItem id]

end Merge

/-- What a number that is read as an id does. -/
def withId (f : List Change → UInt64 → List Change) (changes : List Change) (value : ℕ) :
    List Change := f changes (UInt64.ofNat value)

/-- The numbers of changes that an entry starts with. -/
structure Counts where
  containerInserts : ℕ
  containerUpdates : ℕ
  containerPropertyChanges : ℕ
  containerDeletes : ℕ
  itemInserts : ℕ
  itemUpdates : ℕ
  itemDeletes : ℕ

namespace Counts

/-- The numbers of changes, and the bytes that follow. -/
def read (bytes : List UInt8) : Option (Counts × List UInt8) := do
  let (containerInserts, bytes) ← next64 bytes
  let (containerUpdates, bytes) ← next64 bytes
  let (containerPropertyChanges, bytes) ← next64 bytes
  let (containerDeletes, bytes) ← next64 bytes
  let (itemInserts, bytes) ← next64 bytes
  let (itemUpdates, bytes) ← next64 bytes
  let (itemDeletes, bytes) ← next64 bytes
  return (⟨containerInserts, containerUpdates, containerPropertyChanges, containerDeletes,
    itemInserts, itemUpdates, itemDeletes⟩, bytes)

variable (self : Counts)

/-- The changes with those of containers. -/
def readContainers (changes : List Change) (bytes : List UInt8) :
    Option (List Change × List UInt8) := do
  let (changes, bytes) ← readEach (withId addInsertContainer) self.containerInserts changes bytes
  let (changes, bytes) ←
    readEach (withId (addUpdateContainer · · false)) self.containerUpdates changes bytes
  let (changes, bytes) ←
    readEach (withId (addUpdateContainer · · true)) self.containerPropertyChanges changes bytes
  readEach (withId addDeleteContainer) self.containerDeletes changes bytes

/-- The changes with those of items. -/
def readItems (changes : List Change) (bytes : List UInt8) : Option (List Change × List UInt8) := do
  let (changes, bytes) ← readEach (withId addInsertItem) self.itemInserts changes bytes
  let (changes, bytes) ← readEach (withId addUpdateItem) self.itemUpdates changes bytes
  readEach (withId addDeleteItem) self.itemDeletes changes bytes

def hasContainerChanges : Bool :=
  0 < self.containerInserts + self.containerUpdates + self.containerPropertyChanges +
    self.containerDeletes

def hasItemChanges : Bool :=
  0 < self.itemInserts + self.itemUpdates + self.itemDeletes

end Counts

/-- `Changes::deserialize`: the changes with those of an entry, and whether it has some of
    containers and of items. -/
def deserialize (changes : List Change) (bytes : List UInt8) :
    Option (List Change × Bool × Bool) := do
  let (counts, bytes) ← Counts.read bytes
  let (changes, bytes) ← counts.readContainers changes bytes
  let (changes, _) ← counts.readItems changes bytes
  return (changes, counts.hasContainerChanges, counts.hasItemChanges)

/-- `query::log::Changes`. -/
structure Changes where
  changes : List Change
  fromChangeId : UInt64
  toChangeId : UInt64
  containerChangeId : Option UInt64
  itemChangeId : Option UInt64
  isTruncated : Bool
  deriving DecidableEq

def Changes.default : Changes := ⟨[], 0, 0, none, none, false⟩

/-- `query::log::Query`. -/
inductive Query where
  | all
  | since (changeId : UInt64)
  | sinceInclusive (changeId : UInt64)
  | rangeInclusive (fromChangeId toChangeId : UInt64)

/-- `u64::MAX`. -/
def maxChangeId : UInt64 := .ofNat (2 ^ 64 - 1)

/-- The change ids of a query, and whether the first one is meant. -/
def Query.range : Query → Bool × UInt64 × UInt64
  | all => (true, 0, maxChangeId)
  | since changeId => (false, changeId, maxChangeId)
  | sinceInclusive changeId => (true, changeId, maxChangeId)
  | rangeInclusive fromChangeId toChangeId => (true, fromChangeId, toChangeId)

/-- What `Store::changes` does with an entry of the log. -/
def Changes.read (isShareLog isInclusive : Bool) (fromChangeId : UInt64) (self : Changes)
    (entry : UInt64 × List UInt8) : Option Changes :=
  let changeId := entry.1
  if isInclusive || changeId != fromChangeId then
    -- truncating leaves an empty entry
    if entry.2.isEmpty then some { self with isTruncated := true }
    else
      let self := if self.changes.isEmpty then { self with fromChangeId := changeId } else self
      let self := { self with toChangeId := changeId }
      if isShareLog then some { self with changes := addInsertItem self.changes changeId }
      else do
        let (changes, hasContainerChanges, hasItemChanges) ← deserialize self.changes entry.2
        return { self with
          changes
          containerChangeId := if hasContainerChanges then some changeId else self.containerChangeId
          itemChangeId := if hasItemChanges then some changeId else self.itemChangeId }
  else some { self with fromChangeId := changeId, toChangeId := changeId }

/-- `Store::changes` over the entries of a collection, in the order of their change ids. -/
def changes (isShareLog : Bool) (log : List (UInt64 × List UInt8)) (query : Query) : Option Changes :=
  let (isInclusive, fromChangeId, toChangeId) := query.range
  (log.filter fun entry => fromChangeId ≤ entry.1 && entry.1 ≤ toChangeId).foldlM
    (Changes.read isShareLog isInclusive fromChangeId) Changes.default

end Inworkspace.ChangeLog
