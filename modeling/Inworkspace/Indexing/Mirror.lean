import Inworkspace.Indexing.Rows
import Mathlib.Logic.Equiv.List

/-!
# The index mirrors the archives

For calendars and contacts, the rows of a document are those of its archive, whatever was indexed
and removed before, and there are none after it was removed (`mirrors_run`). A document that is
indexed again gets the rows that change. All rows of an account are removed as ranges of keys:
they have all keys of its documents, and no others.

The exception is the document `u32::MAX`. The ranges are without their ends, and its archive
is the end of one: its other rows are removed, and the archive stays (`run_lastDocument`). The
rest of the server has no such document, it is the id of none.
-/

namespace Inworkspace.Indexing

open Lib.BigEndian SearchIndexType List
open Search (SearchFilter)
open Write (Bytes Contents Error beBytes length_beBytes map_toNat_beBytes)

/-! ## Ranges of keys -/

theorem deleteRange_of_none {db : Contents} {subspace : UInt8} {key : Bytes}
    (h : db subspace key = none) (first last : Bytes) :
    deleteRange db first last subspace key = none := by
  rw [deleteRange, h, ite_self]

/-- Keys with another start than those of a range are not in it. -/
theorem deleteRange_of_ne {head head' : Bytes} (hlength : head.length = head'.length)
    (hne : head ≠ head') (db : Contents) (subspace : UInt8) (first last rest : Bytes) :
    deleteRange db (head ++ first) (head ++ last) subspace (head' ++ rest) =
      db subspace (head' ++ rest) := by
  rw [deleteRange, if_neg]
  rintro ⟨-, hfirst, hlast⟩
  simp only [map_append] at hfirst hlast
  have hnat : head'.map UInt8.toNat ≠ head.map UInt8.toNat := fun h =>
    hne (map_injective_iff.mpr (fun _ _ => UInt8.toNat_inj.mp) h).symm
  rcases lt_or_gt_of_ne hnat with hlt | hgt
  · exact hfirst (append_lt_append_of_length_eq (by simp [hlength]) hlt _ _)
  · exact lt_asymm hlast (append_lt_append_of_length_eq (by simp [hlength]) hgt _ _)

/-- Bytes one of which is less than 255 are before as many or more bytes 255. -/
theorem append_cons_lt_replicate {before : List ℕ} {byte m : ℕ} (hbefore : ∀ n ∈ before, n ≤ 255)
    (hbyte : byte < 255) (hlength : before.length < m) (rest : List ℕ) :
    before ++ byte :: rest < replicate m 255 := by
  induction before generalizing m with
  | nil =>
    obtain _ | m := m
    · cases hlength
    · rw [replicate_succ, nil_append, cons_lt_cons_iff]
      exact .inl hbyte
  | cons n before ih =>
    rw [forall_mem_cons] at hbefore
    obtain _ | m := m
    · cases hlength
    rw [replicate_succ, cons_append, cons_lt_cons_iff]
    have hrest := ih hbefore.2 (Nat.lt_of_succ_lt_succ hlength)
    rcases hbefore.1.lt_or_eq with hlt | heq
    · exact .inl hlt
    · exact .inr ⟨heq, hrest⟩

/-- The range of a kind of keys, from `first` to `last`, for an account. -/
def range (index : SearchIndex) (accountId : UInt32) (first last : SearchIndexType)
    (db : Contents) : Contents :=
  deleteRange db (searchKey index ⟨accountId, 0⟩ first)
    (searchKey index ⟨accountId, maxDocumentId⟩ last)

theorem unindexAccount_eq (index : SearchIndex) (accountId : UInt32) (db : Contents) :
    unindexAccount index accountId db =
      range index accountId (.term .null 0) (.term .full 255)
        (range index accountId (.index ⟨0, [0]⟩) (.index ⟨255, replicate 128 255⟩)
          (range index accountId .document .document db)) :=
  rfl

variable {index : SearchIndex} {id : SearchIndexId} {typ : SearchIndexType}
  {first last : SearchIndexType} {index' : SearchIndex} {accountId : UInt32}

/-- The rows of other indexes, other accounts and other kinds are not in the range. -/
theorem range_of_ne (hkind : first.kind = last.kind)
    (hne : ¬ (index' = index ∧ id.accountId = accountId ∧ typ.kind = last.kind)) (db : Contents) :
    rowAt (range index accountId first last db) index' id typ = rowAt db index' id typ := by
  have hclass : first.classByte index = last.classByte index := classByte_inj.mpr ⟨rfl, hkind⟩
  rw [range, searchKey, hclass]
  refine deleteRange_of_ne ?_ ?_ db _ _ _ _
  · rw [length_cons, length_cons, length_beBytes, length_beBytes]
  · intro h
    obtain ⟨hclass, haccount⟩ := cons.inj h
    obtain ⟨hindex, hkind⟩ := classByte_inj.mp hclass
    exact hne ⟨hindex.symm, (beBytes_inj haccount).symm, hkind.symm⟩

/-- What is between the account and the document, and the document. -/
def SearchIndexType.tail (typ : SearchIndexType) (documentId : UInt32) : List ℕ :=
  typ.middle.map UInt8.toNat ++ bigEndian 4 documentId.toNat

theorem range_of_mem (hfirst : first.kind = typ.kind) (hlast : last.kind = typ.kind)
    (hle : first.tail 0 ≤ typ.tail id.documentId)
    (hlt : typ.tail id.documentId < last.tail maxDocumentId) (db : Contents) :
    rowAt (range index id.accountId first last db) index id typ = none := by
  have hclass : first.classByte index = typ.classByte index := classByte_inj.mpr ⟨rfl, hfirst⟩
  have hclass' : last.classByte index = typ.classByte index := classByte_inj.mpr ⟨rfl, hlast⟩
  rw [rowAt, range, deleteRange, if_pos]
  simp only [searchKey, hclass, hclass', map_append, map_toNat_beBytes]
  exact ⟨trivial, not_lt.mpr ((append_le_append_left _ _ _).mpr hle),
    (append_lt_append_left _ _ _).mpr hlt⟩

theorem toNat_ne_max {documentId : UInt32} (h : documentId ≠ maxDocumentId) :
    documentId.toNat < 2 ^ 32 - 1 := by
  have hlt : documentId.toNat < 2 ^ 32 := documentId.toNat_lt
  have hne : documentId.toNat ≠ 2 ^ 32 - 1 := fun heq =>
    h (UInt32.toNat_inj.mp (heq.trans (by decide)))
  omega

theorem range_document (h : id.documentId ≠ maxDocumentId) (db : Contents) :
    rowAt (range index id.accountId .document .document db) index id .document = none := by
  refine range_of_mem (by rfl) (by rfl) ?_ ?_ db
  · exact bigEndian_zero_le (by simp [SearchIndexType.tail])
  · have hlt := toNat_ne_max h
    have hmax : maxDocumentId.toNat = 2 ^ 32 - 1 := by decide
    refine (bigEndian_lt_bigEndian 4 _ _).mpr ?_
    omega

/-- The range takes every term of a field below 32. -/
theorem range_term (id : SearchIndexId) {hash : CheekyHash} {field : UInt8}
    (h : field.toNat < 32) (db : Contents) :
    rowAt (range index id.accountId (.term .null 0) (.term .full 255) db) index id
      (.term hash field) = none := by
  refine range_of_mem (by rfl) (by rfl) ?_ ?_ db
  · refine bigEndian_zero_le (k := 6) ?_
    rw [SearchIndexType.tail, middle, length_append, length_map, length_append]
    exact Nat.add_le_add_right (Nat.le_add_left 2 _) 4
  · -- the field ends the first 17 bytes, which in the end of the range are all 255
    have htail : (term hash field).tail id.documentId =
        (hash.payload ++ [hash.payloadLen]).map UInt8.toNat ++
          field.toNat :: bigEndian 4 id.documentId.toNat := by
      simp [SearchIndexType.tail, middle]
    have hend : (term .full 255).tail maxDocumentId = replicate 21 255 := by decide
    rw [htail, hend]
    refine append_cons_lt_replicate ?_ (by omega) ?_ _
    · intro n hn
      obtain ⟨byte, -, rfl⟩ := mem_map.mp hn
      exact Nat.le_of_lt_succ byte.toNat_lt
    · rw [length_map, length_append, hash.length_payload, length_singleton]
      omega

/-! ## Archives and rows -/

section Archives

variable [ArchiveFormat]

/-- The rows that are as the archive says: the archive itself, and those of merged documents,
    `u32::MAX` apart. -/
def Covered (index : SearchIndex) (id : SearchIndexId) (typ : SearchIndexType) : Prop :=
  typ = .document ∨ index.isMerged = true ∧ id.documentId ≠ maxDocumentId

/-- The rows of a document are those of the terms that are stored. -/
def Mirrors (db : Contents) (index : SearchIndex) (id : SearchIndexId)
    (stored : Option TermIndex) : Prop :=
  ∀ typ, Covered index id typ → rowAt db index id typ = rowsOf stored typ

/-- All documents mirror some terms. -/
def AllMirror (db : Contents) : Prop := ∀ index id, ∃ stored, Mirrors db index id stored

variable {db : Contents} {stored : Option TermIndex}

theorem Mirrors.archive (h : Mirrors db index id stored) :
    rowAt db index id .document = rowsOf stored .document := h .document (.inl rfl)

/-- A store in which the rows are the same mirrors the same terms. -/
theorem Mirrors.of_eq (h : Mirrors db index id stored) {db' : Contents}
    (heq : ∀ typ, rowAt db' index id typ = rowAt db index id typ) : Mirrors db' index id stored :=
  fun typ hcovered => (heq typ).trans (h typ hcovered)

/-- A document is indexed: it has the new terms, and the others stay. -/
theorem AllMirror.indexDocument (h : AllMirror db) (document : IndexDocument)
    (order : HashOrder SearchIndexType) :
    ∃ db', indexDocument db document order = (db', .ok ()) ∧ AllMirror db' := by
  obtain ⟨stored, hstored⟩ := h document.index document.id
  obtain ⟨touches, heq, hchanges⟩ := exists_indexDocument_eq document order hstored.archive
  refine ⟨_, heq, fun index id => ?_⟩
  by_cases hdocument : index = document.index ∧ id = document.id
  · obtain ⟨rfl, rfl⟩ := hdocument
    refine ⟨some document.terms, fun typ hcovered => ?_⟩
    rcases hcovered with rfl | ⟨hmerged, hid⟩
    · -- the archive is written, whatever was there
      rw [touched_eq_ite (rowsOf (some document.terms)), if_pos (by exact mem_cons_self)]
      rw [forall_mem_cons]
      exact ⟨(if_pos rfl).symm, hchanges.value⟩
    · rw [IndexDocument.base, if_pos hmerged] at hchanges
      exact hchanges.touched_eq (hstored typ (.inr ⟨hmerged, hid⟩))
  · obtain ⟨stored', hstored'⟩ := h index id
    exact ⟨stored', hstored'.of_eq (touched_of_ne hdocument db _)⟩

theorem AllMirror.indexDocuments (h : AllMirror db) (documents : List IndexDocument)
    (order : HashOrder SearchIndexType) :
    AllMirror (indexDocuments order db documents).1 := by
  induction documents generalizing db with
  | nil => exact h
  | cons document documents ih =>
    obtain ⟨db', heq, hdb'⟩ := h.indexDocument document order
    rw [indexDocuments, heq]
    exact ih hdb'

/-! ## Removal -/

/-- Named documents have no rows any more, `u32::MAX` apart, and all others stay or have none. -/
structure Removes (names : SearchIndex → SearchIndexId → Prop) (db db' : Contents) : Prop where
  mirrors : ∀ index id stored, Mirrors db index id stored →
    Mirrors db' index id stored ∨ Mirrors db' index id none
  gone : ∀ index id stored, names index id → id.documentId ≠ maxDocumentId →
    Mirrors db index id stored → Mirrors db' index id none

namespace Removes

variable {names names' : SearchIndex → SearchIndexId → Prop} {db' db'' : Contents}

theorem allMirror (h : Removes names db db') (hdb : AllMirror db) : AllMirror db' := by
  intro index id
  obtain ⟨stored, hstored⟩ := hdb index id
  rcases h.mirrors index id stored hstored with h | h
  · exact ⟨stored, h⟩
  · exact ⟨none, h⟩

theorem refl (db : Contents) : Removes (fun _ _ => False) db db :=
  ⟨fun _ _ _ h => .inl h, fun _ _ _ h => h.elim⟩

theorem trans (h : Removes names db db') (h' : Removes names' db' db'') :
    Removes (fun index id => names index id ∨ names' index id) db db'' := by
  -- a document without rows stays without
  have hnone {index : SearchIndex} {id : SearchIndexId} (hid : Mirrors db' index id none) :
      Mirrors db'' index id none :=
    (h'.mirrors index id none hid).elim (fun h => h) fun h => h
  refine ⟨?_, ?_⟩
  · intro index id stored hstored
    rcases h.mirrors index id stored hstored with hsame | hgone
    · exact h'.mirrors index id stored hsame
    · exact .inr (hnone hgone)
  · rintro index id stored (hname | hname) hid hstored
    · exact hnone (h.gone index id stored hname hid hstored)
    · rcases h.mirrors index id stored hstored with hsame | hgone
      · exact h'.gone index id stored hname hid hsame
      · exact hnone hgone

theorem mono (h : Removes names db db')
    (hnames : ∀ index id, names' index id → names index id) : Removes names' db db' :=
  ⟨h.mirrors, fun index id stored hname => h.gone index id stored (hnames index id hname)⟩

end Removes

/-- One document. -/
theorem AllMirror.unindexDocument (h : AllMirror db) (index : SearchIndex) (id : SearchIndexId) :
    ∃ db', unindexDocument index id db = (db', .ok ()) ∧
      Removes (fun index' id' => index' = index ∧ id' = id) db db' := by
  obtain ⟨stored, hstored⟩ := h index id
  rw [Indexing.unindexDocument, getArchive_eq hstored.archive]
  rcases stored with _ | terms
  -- a document without an archive has no rows to delete
  · refine ⟨db, rfl, fun _ _ _ h => .inl h, ?_⟩
    rintro _ _ _ ⟨rfl, rfl⟩ _ _
    exact hstored
  · obtain ⟨touches, hdelete, hchanges⟩ := exists_deleteIndex_eq index id terms
    dsimp only
    obtain ⟨-, -, -, -, -, -, hops⟩ := slices_batchOf index id ((.document, none) :: touches)
    rw [hdelete, hops, writeRocksdb_touches]
    have hnone : Mirrors (touched index id db ((.document, none) :: touches)) index id none :=
      fun typ hcovered => hchanges.touched_eq (hstored typ hcovered)
    refine ⟨_, rfl, ?_, ?_⟩
    · intro index' id' stored' hstored'
      by_cases hdocument : index' = index ∧ id' = id
      · obtain ⟨rfl, rfl⟩ := hdocument
        exact .inr hnone
      · exact .inl (hstored'.of_eq (touched_of_ne hdocument db _))
    · rintro _ _ _ ⟨rfl, rfl⟩ _ _
      exact hnone

/-- Documents of an account, one by one. -/
theorem AllMirror.unindexDocuments (h : AllMirror db) (index : SearchIndex)
    (accountId : UInt32) (documents : List UInt32) :
    ∃ db', unindexDocuments index accountId db documents = (db', .ok ()) ∧
      Removes (fun index' id' => index' = index ∧ id'.accountId = accountId ∧
        id'.documentId ∈ documents) db db' := by
  induction documents generalizing db with
  | nil => exact ⟨db, rfl, (Removes.refl db).mono fun _ _ h => by cases h.2.2⟩
  | cons documentId documents ih =>
    obtain ⟨db', heq, hremoves⟩ := h.unindexDocument index ⟨accountId, documentId⟩
    obtain ⟨db'', heq', hremoves'⟩ := ih (hremoves.allMirror h)
    refine ⟨db'', ?_, (hremoves.trans hremoves').mono ?_⟩
    · rw [unindexDocuments, heq]
      exact heq'
    · rintro index' ⟨accountId', documentId'⟩ ⟨hindex, haccount, hdocument⟩
      rcases mem_cons.mp hdocument with rfl | hdocument
      · exact .inl ⟨hindex, by rw [SearchIndexId.mk.injEq]; exact ⟨haccount, rfl⟩⟩
      · exact .inr ⟨hindex, haccount, hdocument⟩

/-- The ranges of an account have the rows of its documents. -/
theorem unindexAccount_of_mem (h : Mirrors db index id stored)
    (hcovered : Covered index id typ) (hid : id.documentId ≠ maxDocumentId) :
    rowAt (unindexAccount index id.accountId db) index id typ = none := by
  rcases hrow : rowsOf stored typ with _ | row
  · rw [← h typ hcovered] at hrow
    exact deleteRange_of_none (deleteRange_of_none (deleteRange_of_none hrow _ _) _ _) _ _
  -- every row is in one of the three ranges, and no range brings one back
  rw [rowsOf] at hrow
  split at hrow
  · rename_i hdocument
    rw [hdocument]
    exact deleteRange_of_none (deleteRange_of_none (range_document hid db) _ _) _ _
  · split at hrow
    · rename_i hmem
      obtain ⟨terms, rfl⟩ : ∃ terms, stored = some terms := by
        rcases stored with _ | terms
        · cases hmem
        · exact ⟨terms, rfl⟩
      rcases mem_append.mp hmem with hterm | hfield
      · obtain ⟨term, -, hterm⟩ := mem_flatMap.mp hterm
        obtain ⟨field, hfield, rfl⟩ := mem_map.mp hterm
        have hlt := Lib.Bits.lt_of_mem_bits hfield
        refine range_term id ?_ _
        rwa [UInt8.toNat_ofNat_of_lt' (hlt.trans (by decide))]
      · obtain ⟨field, hin, rfl⟩ := mem_map.mp hfield
        obtain ⟨hmin, hmax⟩ := terms.fieldId_mem field hin
        refine deleteRange_of_none (range_of_mem (by rfl) (by rfl) ?_ ?_ _) _ _
        · exact (cons_lt_cons_iff.mpr (.inl (Nat.lt_of_lt_of_le (by decide) hmin))).le
        · exact cons_lt_cons_iff.mpr (.inl (Nat.lt_of_le_of_lt hmax (by decide)))
    · cases hrow

omit [ArchiveFormat] in
theorem unindexAccount_of_ne (hne : ¬ (index' = index ∧ id.accountId = accountId)) (db : Contents)
    (typ : SearchIndexType) :
    rowAt (unindexAccount index accountId db) index' id typ = rowAt db index' id typ := by
  have hkind (kind : ℕ) : ¬ (index' = index ∧ id.accountId = accountId ∧ typ.kind = kind) :=
    fun h => hne ⟨h.1, h.2.1⟩
  rw [unindexAccount_eq, range_of_ne (by rfl) (hkind _), range_of_ne (by rfl) (hkind _),
    range_of_ne (by rfl) (hkind _)]

omit [ArchiveFormat] in
/-- The archive of `u32::MAX` is the end of a range. -/
theorem unindexAccount_lastDocument (index : SearchIndex) (accountId : UInt32) :
    rowAt (unindexAccount index accountId db) index ⟨accountId, maxDocumentId⟩ .document =
      rowAt db index ⟨accountId, maxDocumentId⟩ .document := by
  have hkind {last : SearchIndexType} (h : document.kind ≠ last.kind) :
      ¬ (index = index ∧ accountId = accountId ∧ document.kind = last.kind) := fun heq => h heq.2.2
  rw [unindexAccount_eq, range_of_ne (by rfl) (hkind (by decide)),
    range_of_ne (by rfl) (hkind (by decide)), rowAt, range, deleteRange, if_neg]
  rintro ⟨-, -, hlt⟩
  exact lt_irrefl _ hlt

/-- All documents of an account. -/
theorem removes_unindexAccount (db : Contents) (index : SearchIndex) (accountId : UInt32) :
    Removes (fun index' id' => index' = index ∧ id'.accountId = accountId) db
      (unindexAccount index accountId db) := by
  have hgone {id : SearchIndexId} {stored : Option TermIndex}
      (hstored : Mirrors db index id stored) (hid : id.documentId ≠ maxDocumentId) :
      Mirrors (unindexAccount index id.accountId db) index id none := fun typ hcovered =>
    (unindexAccount_of_mem hstored hcovered hid).trans (rowsOf_none typ).symm
  refine ⟨?_, ?_⟩
  · intro index' id stored hstored
    by_cases hname : index' = index ∧ id.accountId = accountId
    · obtain ⟨rfl, rfl⟩ := hname
      by_cases hid : id.documentId = maxDocumentId
      · -- only the archive of this document is covered
        left
        rintro typ (rfl | ⟨-, hne⟩)
        · obtain ⟨accountId, documentId⟩ := id
          obtain rfl : documentId = maxDocumentId := hid
          rw [unindexAccount_lastDocument]
          exact hstored.archive
        · exact absurd hid hne
      · exact .inr (hgone hstored hid)
    · exact .inl (hstored.of_eq (unindexAccount_of_ne hname db))
  · rintro index' id stored ⟨rfl, rfl⟩ hid hstored
    exact hgone hstored hid

/-- Accounts and their documents name a document, or its whole account. -/
def Named.document (accounts : List (UInt32 × List UInt32)) (id : SearchIndexId) : Prop :=
  ∃ documents, (id.accountId, documents) ∈ accounts ∧
    (documents = [] ∨ id.documentId ∈ documents)

/-- Several accounts. -/
theorem AllMirror.unindexAccounts (h : AllMirror db) (index : SearchIndex)
    (accounts : List (UInt32 × List UInt32)) :
    ∃ db', unindexAccounts index db accounts = (db', .ok ()) ∧
      Removes (fun index' id' => index' = index ∧ Named.document accounts id') db db' := by
  induction accounts generalizing db with
  | nil => exact ⟨db, rfl, (Removes.refl db).mono fun _ _ ⟨_, _, h, _⟩ => by cases h⟩
  | cons account accounts ih =>
    obtain ⟨accountId, documents⟩ := account
    rw [unindexAccounts]
    have hnames {index' : SearchIndex} {id : SearchIndexId}
        (hname : index' = index ∧ Named.document ((accountId, documents) :: accounts) id) :
        (index' = index ∧ id.accountId = accountId ∧ (documents = [] ∨ id.documentId ∈ documents)) ∨
        (index' = index ∧ Named.document accounts id) := by
      obtain ⟨hindex, documents', hmem, hdocument⟩ := hname
      rcases mem_cons.mp hmem with heq | hmem
      · obtain ⟨haccount, rfl⟩ := Prod.mk.inj heq
        exact .inl ⟨hindex, haccount, hdocument⟩
      · exact .inr ⟨hindex, documents', hmem, hdocument⟩
    -- an account without documents stands for all that it has
    split
    · have hremoves := removes_unindexAccount db index accountId
      obtain ⟨db', heq, hremoves'⟩ := ih (hremoves.allMirror h)
      refine ⟨db', heq, (hremoves.trans hremoves').mono fun index' id hname => ?_⟩
      exact (hnames hname).imp_left fun hname => ⟨hname.1, hname.2.1⟩
    · rename_i hempty
      obtain ⟨db', heq, hremoves⟩ := h.unindexDocuments index accountId documents
      obtain ⟨db'', heq', hremoves'⟩ := ih (hremoves.allMirror h)
      refine ⟨db'', ?_, (hremoves.trans hremoves').mono fun index' id hname => ?_⟩
      · rw [heq]
        exact heq'
      · refine (hnames hname).imp_left fun hname => ⟨hname.1, hname.2.1, ?_⟩
        refine hname.2.2.resolve_left fun hnil => hempty ?_
        rw [hnil]
        rfl

/-! ## Runs -/

/-- An operation on the search index. -/
inductive Action where
  | index (documents : List IndexDocument) (order : HashOrder SearchIndexType)
  | unindex (index : SearchIndex) (filters : List (SearchFilter Removal ℕ))
      (order : HashOrder (UInt32 × List UInt32))

/-- The store after an operation. -/
def Action.run (db : Contents) : Action → Contents
  | .index documents order => (indexDocuments order db documents).1
  | .unindex index filters order => (Indexing.unindex index filters order db).1

/-- A store with nothing in it. -/
def emptyDb : Contents := fun _ _ => none

/-- The store after some operations, empty at first. -/
def run (actions : List Action) : Contents :=
  actions.foldl (Action.run) emptyDb

/-- What one operation removes. -/
theorem AllMirror.unindex (h : AllMirror db) (index : SearchIndex)
    (filters : List (SearchFilter Removal ℕ)) (order : HashOrder (UInt32 × List UInt32)) :
    Removes (fun index' id => index' = index ∧
      ∃ accounts, accountDocuments filters = some accounts ∧ Named.document accounts id) db
      (Indexing.unindex index filters order db).1 := by
  rw [Indexing.unindex]
  rcases accountDocuments filters with _ | accounts
  · exact (Removes.refl db).mono fun _ _ ⟨_, _, h, _⟩ => by cases h
  obtain ⟨db', heq, hremoves⟩ := h.unindexAccounts index (order.order accounts)
  dsimp only
  rw [heq]
  refine hremoves.mono ?_
  rintro index' id ⟨hindex, accounts', haccounts, documents, hmem, hdocument⟩
  obtain rfl : accounts = accounts' := Option.some.inj haccounts
  exact ⟨hindex, documents, (order.perm accounts).mem_iff.mpr hmem, hdocument⟩

/-- One operation. -/
theorem AllMirror.action (h : AllMirror db) (action : Action) : AllMirror (action.run db) := by
  rcases action with ⟨documents, order⟩ | ⟨index, filters, order⟩
  · exact h.indexDocuments documents order
  · exact (h.unindex index filters order).allMirror h

theorem allMirror_run (actions : List Action) : AllMirror (run actions) := by
  rw [run]
  have hempty : AllMirror emptyDb := fun index id =>
    ⟨none, fun typ _ => (rowsOf_none typ).symm⟩
  generalize emptyDb = db at hempty ⊢
  induction actions generalizing db with
  | nil => exact hempty
  | cons action actions ih => exact ih _ (hempty.action action)

/-- After any operations, a calendar entry or a contact has the rows of its archive, and none after
    it was removed, by its id or with its account. -/
theorem mirrors_run (actions : List Action) (hmerged : index.isMerged = true)
    (hid : id.documentId ≠ maxDocumentId) :
    (∃ stored, getArchive (run actions) index id = .ok stored ∧
      ∀ typ, typ ≠ .document →
        ((rowAt (run actions) index id typ).isSome ↔ typ ∈ typesOf stored)) ∧
    ∀ filters order accounts, accountDocuments filters = some accounts →
      Named.document accounts id → ∀ typ,
        rowAt (run (actions ++ [.unindex index filters order])) index id typ = none := by
  have hall := allMirror_run actions
  obtain ⟨stored, hstored⟩ := hall index id
  have hcovered (typ : SearchIndexType) : Covered index id typ := .inr ⟨hmerged, hid⟩
  refine ⟨⟨stored, getArchive_eq hstored.archive, ?_⟩, ?_⟩
  · intro typ htyp
    rw [hstored typ (hcovered typ), rowsOf, if_neg htyp]
    split
    · rename_i hmem
      exact iff_of_true rfl hmem
    · rename_i hmem
      exact iff_of_false Bool.false_ne_true hmem
  · intro filters order accounts haccounts hname typ
    have hgone := (hall.unindex index filters order).gone index id stored
      ⟨rfl, accounts, haccounts, hname⟩ hid hstored
    rw [run, foldl_append]
    exact (hgone typ (hcovered typ)).trans (rowsOf_none typ)

end Archives

/-! ### An example -/

/-- The word `note` in the field 3. -/
def noteTerms : TermIndex where
  terms := [⟨⟨4, [110, 111, 116, 101], rfl⟩, 8⟩]
  fields := []
  nodup_terms := by decide
  nodup_fields := by decide
  fieldId_mem := by decide

/-- An order that changes nothing. -/
def sameOrder {α : Type} : HashOrder α := ⟨fun elements => elements, fun _ => .refl _⟩

/-- A calendar entry of account 1 is indexed, and the account is removed. -/
def indexThenRemove (documentId : UInt32) : List Action :=
  [.index [⟨.calendar, ⟨1, documentId⟩, noteTerms⟩] sameOrder,
    .unindex .calendar [.leaf (.accountId 1)] sameOrder]

/-- The document `u32::MAX` still has its archive, and not the row of its word. -/
theorem run_indexThenRemove_max [ArchiveFormat] :
    getArchive (run (indexThenRemove maxDocumentId)) .calendar
        ⟨1, maxDocumentId⟩ = .ok (some noteTerms) ∧
      rowAt (run (indexThenRemove maxDocumentId)) .calendar ⟨1, maxDocumentId⟩
        (.term ⟨4, [110, 111, 116, 101], rfl⟩ 3) = none := by
  have hempty : rowAt emptyDb .calendar ⟨1, maxDocumentId⟩ .document =
      rowsOf none .document := (rowsOf_none _).symm
  obtain ⟨touches, heq, hchanges⟩ := exists_indexDocument_eq
    ⟨.calendar, ⟨1, maxDocumentId⟩, noteTerms⟩ sameOrder hempty
  have hrun : run (indexThenRemove maxDocumentId) =
      unindexAccount .calendar 1 (touched .calendar ⟨1, maxDocumentId⟩ emptyDb
        (touchArchive noteTerms :: touches)) := by
    rw [run, indexThenRemove, foldl_cons, Action.run, indexDocuments, heq]
    rfl
  rw [hrun]
  refine ⟨getArchive_eq ?_, ?_⟩
  · exact (unindexAccount_lastDocument .calendar 1).trans (hchanges.touched_eq hempty)
  · exact range_term ⟨1, maxDocumentId⟩ (by decide) _

instance encodableUInt8 : Encodable UInt8 := .ofLeftInverse UInt8.toNat UInt8.ofNat fun _ => by simp

instance : Encodable CheekyHash :=
  .ofLeftInjection (fun hash => (hash.payloadLen, hash.payload))
    (fun parts =>
      if h : parts.2.length = min parts.1.toNat 15 then some ⟨parts.1, parts.2, h⟩ else none)
    fun hash => dif_pos hash.length_payload

instance : Encodable Term :=
  .ofLeftInverse (fun term => (term.hash, term.fields.toNat))
    (fun parts => ⟨parts.1, .ofNat 32 parts.2⟩) fun term => by simp

instance : Encodable SearchIndexField :=
  .ofLeftInverse (fun field => (field.fieldId, field.data)) (fun parts => ⟨parts.1, parts.2⟩)
    fun _ => rfl

instance : Encodable TermIndex :=
  .ofLeftInjection (fun terms => (terms.terms, terms.fields))
    (fun parts =>
      if h : (parts.1.map Term.hash).Nodup ∧ parts.2.Nodup ∧
        ∀ field ∈ parts.2, 2 ≤ field.fieldId.toNat ∧ field.fieldId.toNat ≤ 14 then
        some ⟨parts.1, parts.2, h.1, h.2.1, h.2.2⟩
      else none)
    fun terms => dif_pos ⟨terms.nodup_terms, terms.nodup_fields, terms.fieldId_mem⟩

/-- A format: the number of terms in some counting, as so many bytes. -/
local instance unaryFormat : ArchiveFormat where
  archive terms := List.replicate (Encodable.encode terms) 0
  unarchive bytes := Encodable.decode bytes.length
  xxh3 _ := 0
  unarchive_archive terms := by rw [List.length_replicate, Encodable.encodek]

def indexAgain : List Action :=
  indexThenRemove 7 ++ [.index [⟨.calendar, ⟨1, 7⟩, noteTerms⟩] sameOrder]

theorem mirrors_run_indexed :
    (∃ stored, getArchive (run indexAgain) .calendar ⟨1, 7⟩ = .ok stored ∧
      ∀ typ, typ ≠ .document →
        ((rowAt (run indexAgain) .calendar ⟨1, 7⟩ typ).isSome ↔ typ ∈ typesOf stored)) ∧
    ∀ filters order accounts, accountDocuments filters = some accounts →
      Named.document accounts ⟨1, 7⟩ → ∀ typ,
        rowAt (run (indexAgain ++ [.unindex .calendar filters order]))
          .calendar ⟨1, 7⟩ typ = none :=
  mirrors_run indexAgain rfl (by decide)

/-- For the last id the rows are not those of the archive. -/
theorem run_lastDocument :
    ¬ ∃ stored, getArchive (run (indexThenRemove maxDocumentId))
        .calendar ⟨1, maxDocumentId⟩ = .ok stored ∧
      ∀ typ, typ ≠ .document →
        ((rowAt (run (indexThenRemove maxDocumentId)) .calendar
            ⟨1, maxDocumentId⟩ typ).isSome ↔ typ ∈ typesOf stored) := by
  rintro ⟨stored, harchive, hrows⟩
  obtain ⟨hkept, hword⟩ := run_indexThenRemove_max
  obtain rfl := Except.ok.inj (hkept.symm.trans harchive)
  have hpresent := (hrows (.term ⟨4, [110, 111, 116, 101], rfl⟩ 3) (by decide)).mpr (by decide)
  exact Bool.false_ne_true hpresent

end Inworkspace.Indexing
