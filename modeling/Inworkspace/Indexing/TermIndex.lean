import Inworkspace.Lib.Bits
import Inworkspace.Search.Local
import Inworkspace.Write.Backends
import Inworkspace.Write.BatchBuilder

/-!
# The search index in the store

`store::search::term` and `store::search::index`, for stores that keep the search index
themselves. An indexed document has an archive of its terms and fields (`TermIndex`) under one key,
and empty values under a key for each term in each of its fields and for each field
that can be searched by its value. For calendars and contacts a document is indexed again
when it has changed: the archive tells which keys it has, and only the difference is
written (`TermIndex.mergeIndex`). All keys of a document can be removed, and all keys of an account,
which are ranges of keys (`unindexAccount`).

How a document is made into terms is left open.
-/

namespace Inworkspace.Indexing

open Lib Lib.Bits
open Search (SearchFilter)
open Write (Bytes Contents Error Operation ValueCall Call BatchBuilder beBytes)

/-! ## Terms -/

/-- `SearchIndex`, without the one that is in memory only. -/
inductive SearchIndex where
  | email
  | calendar
  | contacts
  | file
  | tracing
  deriving DecidableEq

def SearchIndex.asU8 : SearchIndex → UInt8
  | .email => 0
  | .calendar => 1
  | .contacts => 2
  | .file => 3
  | .tracing => 4

/-- Documents of the index may be indexed again. -/
def SearchIndex.isMerged : SearchIndex → Bool
  | .calendar | .contacts => true
  | .email | .file | .tracing => false

/-- `CheekyHash`: a word of up to 15 bytes, or a hash of them and the length of the word. -/
structure CheekyHash where
  payloadLen : UInt8
  payload : Bytes
  length_payload : payload.length = min payloadLen.toNat 15
  deriving DecidableEq

namespace CheekyHash

/-- `CheekyHash::NULL`. -/
def null : CheekyHash := ⟨0, [], rfl⟩

/-- `CheekyHash::FULL`. -/
def full : CheekyHash := ⟨255, List.replicate 15 255, rfl⟩

end CheekyHash

structure SearchIndexField where
  fieldId : UInt8
  data : Bytes
  deriving DecidableEq

/-- `Term`: a word, and the fields it is in. -/
structure Term where
  hash : CheekyHash
  fields : BitVec 32
  deriving DecidableEq

/-- `TermIndex`. Terms and fields come from maps; the numbers of fields are those of
    `SearchField::u8_id`. -/
structure TermIndex where
  terms : List Term
  fields : List SearchIndexField
  nodup_terms : (terms.map Term.hash).Nodup
  nodup_fields : fields.Nodup
  fieldId_mem : ∀ field ∈ fields, 2 ≤ field.fieldId.toNat ∧ field.fieldId.toNat ≤ 14
  deriving DecidableEq

/-! ## Keys -/

inductive SearchIndexType where
  | term (hash : CheekyHash) (field : UInt8)
  | index (field : SearchIndexField)
  | document
  deriving DecidableEq

/-- `SearchIndexId::Account`. -/
structure SearchIndexId where
  accountId : UInt32
  documentId : UInt32
  deriving DecidableEq

/-- The classes of `ValueClass` for the search index and for grants. -/
inductive SearchClass where
  | searchIndex (index : SearchIndex) (id : SearchIndexId) (typ : SearchIndexType)
  | acl (grantAccountId : UInt32)

/-- The first byte of a key. -/
def SearchIndexType.classByte (index : SearchIndex) : SearchIndexType → UInt8
  | .term .. => index.asU8
  | .index _ => index.asU8 ||| (1 : UInt8) <<< 6
  | .document => index.asU8 ||| (2 : UInt8) <<< 6

/-- What is between the account and the document in a key. -/
def SearchIndexType.middle : SearchIndexType → Bytes
  | .term hash field => hash.payload ++ [hash.payloadLen, field]
  | .index field => field.fieldId :: field.data
  | .document => []

/-- The key of a value in the search index. -/
def searchKey (index : SearchIndex) (id : SearchIndexId) (typ : SearchIndexType) : Bytes :=
  (typ.classByte index :: beBytes 4 id.accountId.toNat) ++
    (typ.middle ++ beBytes 4 id.documentId.toNat)

/-- `SUBSPACE_SEARCH_INDEX`. -/
def subspaceSearchIndex : UInt8 := 'z'.toUInt8

/-- A row of a document in a store. -/
abbrev rowAt (db : Contents) (index : SearchIndex) (id : SearchIndexId) (typ : SearchIndexType) :
    Option Bytes :=
  db subspaceSearchIndex (searchKey index id typ)

namespace SearchClass

/-- `serialize`; keys of the search index do not depend on the context. -/
def serialize (accountId : UInt32) (collection : UInt8) (documentId : UInt32) :
    SearchClass → Bytes
  | .searchIndex index id typ => searchKey index id typ
  | .acl grantAccountId =>
    beBytes 4 grantAccountId.toNat ++ beBytes 4 accountId.toNat ++ [collection] ++
      beBytes 4 documentId.toNat

def subspace : SearchClass → UInt8
  | .searchIndex .. => subspaceSearchIndex
  | .acl _ => 'a'.toUInt8

def serializedSize : SearchClass → ℕ
  | .searchIndex _ _ (.term hash _) => 8 + (min hash.payloadLen.toNat 15 + 1) + 2
  | .searchIndex _ _ (.index field) => 1 + field.data.length + 8
  | .searchIndex _ _ .document => 1 + 4 * 2
  | .acl _ => 4 * 3 + 2

instance : Write.ValueClass SearchClass := ⟨serialize, fun _ => subspace, serializedSize, .acl⟩

end SearchClass

/-! ## Operations -/

/-- How a `TermIndex` is archived, and how bytes are hashed. -/
class ArchiveFormat where
  archive : TermIndex → Bytes
  unarchive : Bytes → Option TermIndex
  xxh3 : Bytes → UInt64
  unarchive_archive : ∀ terms, unarchive (archive terms) = some terms

/-- An order in which the elements of a hash set or a hash map are met. -/
structure HashOrder (α : Type) where
  order : List α → List α
  perm : ∀ elements, (order elements).Perm elements

open ArchiveFormat

variable [ArchiveFormat] (self : TermIndex)

namespace TermIndex

/-- The types of the keys of the terms, in the order in which fields are popped. -/
def termTypes : List SearchIndexType :=
  self.terms.flatMap fun term => (bits term.fields).map fun field => .term term.hash (.ofNat field)

/-- The types of the keys of the fields. -/
def fieldTypes : List SearchIndexType := self.fields.map .index

/-- The types of all keys. -/
def types : List SearchIndexType := self.termTypes ++ self.fieldTypes

end TermIndex

/-- A loop over new types, which removes them from the old ones: the types that are set, and the old
    ones that are left. -/
def removeOld : List SearchIndexType → List SearchIndexType →
    List SearchIndexType × List SearchIndexType
  | [], old => ([], old)
  | typ :: types, old =>
    if typ ∈ old then removeOld types (old.erase typ)
    else (typ :: (removeOld types old).1, (removeOld types old).2)

namespace TermIndex

variable (index : SearchIndex) (id : SearchIndexId)

/-- The keys of the types are set. -/
def setTypes (types : List SearchIndexType) : List (ValueCall SearchClass) :=
  types.map fun typ => .set (.searchIndex index id typ) []

/-- The keys of the types are cleared. -/
def clearTypes (types : List SearchIndexType) : List (ValueCall SearchClass) :=
  types.map fun typ => .clear (.searchIndex index id typ)

def writeIndex (self : TermIndex) : List (ValueCall SearchClass) :=
  -- the archive goes first, and is there if a later slice fails
  .set (.searchIndex index id .document) (archive self) ::
    (setTypes index id self.termTypes ++ setTypes index id self.fieldTypes)

/-- `merge_index`; the types of a document are different, so the sets of old ones are lists. -/
def mergeIndex (order : HashOrder SearchIndexType) (self old : TermIndex) :
    List (ValueCall SearchClass) :=
  let terms := removeOld self.termTypes old.termTypes
  let fields := removeOld self.fieldTypes old.fieldTypes
  .set (.searchIndex index id .document) (archive self) ::
    (setTypes index id terms.1 ++ setTypes index id fields.1 ++
      clearTypes index id (order.order terms.2) ++ clearTypes index id (order.order fields.2))

def deleteIndex (self : TermIndex) : List (ValueCall SearchClass) :=
  clearTypes index id (.document :: self.types)

end TermIndex

/-! ## The store -/

variable (db : Contents)

/-- Nothing is logged here. -/
def noLogs : Write.LogFormat := ⟨fun _ => [], fun _ => []⟩

/-- The builder after operations, with a commit point after each. -/
def batchOf (values : List (ValueCall SearchClass)) : BatchBuilder SearchClass :=
  .run noLogs (values.flatMap fun value => [.value value, .commitPoint])

/-- Slices that are written one by one, until a write fails. -/
def writeSlices (db : Contents) : List (List (Operation SearchClass)) → Contents × Except Error Unit
  | [] => (db, .ok ())
  | slice :: slices =>
    match Write.writeRocksdb xxh3 db ⟨[], slice⟩ with
    | (db, .ok _) => writeSlices db slices
    | (db, .error error) => (db, .error error)

/-- The archive of a document. -/
def getArchive (index : SearchIndex) (id : SearchIndexId) : Except Error (Option TermIndex) :=
  match rowAt db index id .document with
  | none => .ok none
  | some bytes =>
    match unarchive bytes with
    | some terms => .ok (some terms)
    | none => .error (.other "Failed to unarchive")

/-- `IndexDocument`, with its terms. -/
structure IndexDocument where
  index : SearchIndex
  id : SearchIndexId
  terms : TermIndex

/-- The operations that index a document. -/
def IndexDocument.values (self : IndexDocument) (order : HashOrder SearchIndexType)
    (db : Contents) : Except Error (List (ValueCall SearchClass)) := do
  let old ← if self.index.isMerged then getArchive db self.index self.id else .ok none
  match old with
  | some old => return self.terms.mergeIndex self.index self.id order old
  | none => return self.terms.writeIndex self.index self.id

/-- `Store::index`, of one document. -/
def indexDocument (document : IndexDocument) (order : HashOrder SearchIndexType) :
    Contents × Except Error Unit :=
  match document.values order db with
  | .ok values => writeSlices db ((batchOf values).slices noLogs)
  | .error error => (db, .error error)

/-- `Store::index`. -/
def indexDocuments (order : HashOrder SearchIndexType) :
    Contents → List IndexDocument → Contents × Except Error Unit
  | db, [] => (db, .ok ())
  | db, document :: documents =>
    match indexDocument db document order with
    | (db, .ok ()) => indexDocuments order db documents
    | (db, .error error) => (db, .error error)

/-! ### Removal -/

/-- A condition of a query for removal, besides the account: the id of a document, or something that
    is not supported. -/
inductive Removal where
  | documentId (id : ℕ)
  | other

/-- What filters name: documents by account, and the last account. -/
abbrev Named := List (UInt32 × List UInt32) × Option UInt32

/-- A filter of `Store::unindex`. -/
def Removal.filter (named : Named) : SearchFilter Removal ℕ → Option Named
  | .leaf (.accountId id) =>
    some (KeyedList.insertNew Prod.fst named.1 (.ofNat id, []), some (.ofNat id))
  | .leaf (.operator (.documentId id)) =>
    named.2.map fun account =>
      (KeyedList.updateFirst (fun entry => entry.1 == account)
        (fun entry => (entry.1, entry.2 ++ [.ofNat id])) named.1, some account)
  | .leaf (.operator .other) | .leaf (.documentSet _) | .group .not => none
  | .group .and | .group .or | .close => some named

/-- The documents by account that filters name, unless they are not supported. -/
def accountDocuments (filters : List (SearchFilter Removal ℕ)) :
    Option (List (UInt32 × List UInt32)) :=
  (filters.foldlM Removal.filter ([], none)).map Prod.fst

/-- A document is removed. -/
def unindexDocument (index : SearchIndex) (id : SearchIndexId) (db : Contents) :
    Contents × Except Error Unit :=
  match getArchive db index id with
  | .ok none => (db, .ok ())
  | .ok (some terms) =>
    let batch := (batchOf (terms.deleteIndex index id)).serializeChanges noLogs
    match Write.writeRocksdb xxh3 db ⟨[], batch.ops⟩ with
    | (db, .ok _) => (db, .ok ())
    | (db, .error error) => (db, .error error)
  | .error error => (db, .error error)

/-- `delete_range`: keys of the search index from one on, up to another one. -/
def deleteRange (first last : Bytes) : Contents := fun subspace key =>
  if subspace = subspaceSearchIndex ∧ ¬ key.map UInt8.toNat < first.map UInt8.toNat ∧
    key.map UInt8.toNat < last.map UInt8.toNat then none
  else db subspace key

/-- `u32::MAX`. -/
def maxDocumentId : UInt32 := .ofNat (2 ^ 32 - 1)

/-- All documents of an account are removed. -/
def unindexAccount (index : SearchIndex) (accountId : UInt32) (db : Contents) : Contents :=
  -- the last key is exclusive, so rows of document `u32::MAX` stay
  let range (db : Contents) (first last : SearchIndexType) : Contents :=
    deleteRange db (searchKey index ⟨accountId, 0⟩ first)
      (searchKey index ⟨accountId, maxDocumentId⟩ last)
  let db := range db .document .document
  let db := range db (.index ⟨0, [0]⟩) (.index ⟨255, List.replicate 128 255⟩)
  range db (.term .null 0) (.term .full 255)

/-- Documents are removed one by one. -/
def unindexDocuments (index : SearchIndex) (accountId : UInt32) :
    Contents → List UInt32 → Contents × Except Error Unit
  | db, [] => (db, .ok ())
  | db, documentId :: documents =>
    match unindexDocument index ⟨accountId, documentId⟩ db with
    | (db, .ok ()) => unindexDocuments index accountId db documents
    | (db, .error error) => (db, .error error)

/-- The documents of accounts are removed. -/
def unindexAccounts (index : SearchIndex) :
    Contents → List (UInt32 × List UInt32) → Contents × Except Error Unit
  | db, [] => (db, .ok ())
  | db, (accountId, documents) :: accounts =>
    if documents.isEmpty then unindexAccounts index (unindexAccount index accountId db) accounts
    else
      match unindexDocuments index accountId db documents with
      | (db, .ok ()) => unindexAccounts index db accounts
      | (db, .error error) => (db, .error error)

/-- `Store::unindex`, of a query for accounts and documents. -/
def unindex (index : SearchIndex) (filters : List (SearchFilter Removal ℕ))
    (order : HashOrder (UInt32 × List UInt32)) (db : Contents) : Contents × Except Error Unit :=
  match accountDocuments filters with
  | some accounts => unindexAccounts index db (order.order accounts)
  | none => (db, .error (.unexpectedError "Unsupported unindex filter"))

end Inworkspace.Indexing
