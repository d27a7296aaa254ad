import Inworkspace.Indexing.TermIndex
import Inworkspace.Write.CommitPoints

/-!
# The rows of a document

What the functions of `TermIndex` do to the store. Keys of different documents are different
(`searchKey_inj`). The rows that a document has are known from its terms (`rowsOf`): its archive,
and an empty row for each type. Writing, merging and deleting the index of a document set the
archive, or clear it, and then just the rows that change (`Changes`). The operations come in slices,
none of which has more than 1001 of them (`slices_batchOf`), and written to the store one
after another they do what the operations say (`writeSlices_eq`).
-/

namespace Inworkspace.Indexing

open Lib.Bits Lib.BigEndian TermIndex List SearchIndexType
open Write (Bytes Contents Error Operation ValueCall Call BatchBuilder Executor Transaction beBytes
  length_beBytes assign)

/-! ## Keys of different documents -/

theorem beBytes_inj {a b : UInt32} (h : beBytes 4 a.toNat = beBytes 4 b.toNat) : a = b := by
  have hnumber := congrArg (fun bytes => ofBigEndian (bytes.map UInt8.toNat)) h
  simp only [Write.ofBigEndian_beBytes] at hnumber
  have ha : a.toNat < 256 ^ 4 := a.toNat_lt
  have hb : b.toNat < 256 ^ 4 := b.toNat_lt
  rw [Nat.mod_eq_of_lt ha, Nat.mod_eq_of_lt hb] at hnumber
  exact UInt32.toNat_inj.mp hnumber

/-- The kinds of keys. -/
def SearchIndexType.kind : SearchIndexType → ℕ
  | .term .. => 0
  | .index _ => 1
  | .document => 2

theorem toNat_classByte (index : SearchIndex) (typ : SearchIndexType) :
    (typ.classByte index).toNat = index.asU8.toNat + 64 * typ.kind := by
  rcases typ <;> simp only [classByte, kind] <;> rcases index <;> decide

variable {index' : SearchIndex} {typ typ' : SearchIndexType} {old new : Option TermIndex}
  {db : Contents} {stored : Option TermIndex} {index : SearchIndex}

/-- The byte tells the index and the kind. -/
theorem classByte_inj :
    typ.classByte index = typ'.classByte index' ↔ index = index' ∧ typ.kind = typ'.kind := by
  rw [← UInt8.toNat_inj, toNat_classByte, toNat_classByte]
  have hlt (index : SearchIndex) : index.asU8.toNat < 5 := by rcases index <;> decide
  constructor
  · intro h
    have hindex : index.asU8.toNat = index'.asU8.toNat := by
      have := hlt index
      have := hlt index'
      omega
    refine ⟨?_, by omega⟩
    revert hindex
    rcases index <;> rcases index' <;> decide
  · rintro ⟨rfl, h⟩
    rw [h]

/-- A key tells its type, once its kind is known. -/
theorem eq_of_middle_eq (hkind : typ.kind = typ'.kind) (h : typ.middle = typ'.middle) :
    typ = typ' := by
  rcases typ with ⟨hash, field⟩ | ⟨fieldId, data⟩ | _ <;>
    rcases typ' with ⟨hash', field'⟩ | ⟨fieldId', data'⟩ | _ <;> try cases hkind
  · obtain ⟨hpayload, hrest⟩ := append_inj' h rfl
    obtain ⟨payloadLen, payload, hlength⟩ := hash
    obtain ⟨payloadLen', payload', hlength'⟩ := hash'
    obtain ⟨rfl, hfield⟩ := cons.inj hrest
    obtain rfl : payload = payload' := hpayload
    rw [(cons.inj hfield).1]
  · obtain ⟨rfl, rfl⟩ := cons.inj h
    rfl
  · rfl

/-- A key tells the index, the document and the type. -/
theorem searchKey_inj {id id' : SearchIndexId} :
    searchKey index id typ = searchKey index' id' typ' ↔
      index = index' ∧ id = id' ∧ typ = typ' := by
  constructor
  · intro h
    obtain ⟨hhead, hrest⟩ := append_inj h (by
      rw [length_cons, length_cons, length_beBytes, length_beBytes])
    obtain ⟨hclass, haccount⟩ := cons.inj hhead
    obtain ⟨hmiddle, hdocument⟩ := append_inj' hrest (by rw [length_beBytes, length_beBytes])
    obtain ⟨hindex, hkind⟩ := classByte_inj.mp hclass
    obtain ⟨accountId, documentId⟩ := id
    obtain rfl := beBytes_inj haccount
    obtain rfl := beBytes_inj hdocument
    exact ⟨hindex, rfl, eq_of_middle_eq hkind hmiddle⟩
  · rintro ⟨rfl, rfl, rfl⟩
    rfl

/-! ## Operations of a document -/

/-- A row of a document that is set, or cleared. -/
abbrev Touch := SearchIndexType × Option Bytes

/-- The row of an archive. -/
abbrev touchArchive [ArchiveFormat] (terms : TermIndex) : Touch :=
  (.document, some (ArchiveFormat.archive terms))

def Touch.call (index : SearchIndex) (id : SearchIndexId) : Touch → ValueCall SearchClass
  | (typ, some value) => .set (.searchIndex index id typ) value
  | (typ, none) => .clear (.searchIndex index id typ)

def Touch.operation (index : SearchIndex) (id : SearchIndexId) (touch : Touch) :
    Operation SearchClass :=
  (touch.call index id).operation

/-- The store after some rows were set and cleared. -/
def touched (index : SearchIndex) (id : SearchIndexId) (db : Contents) (touches : List Touch) :
    Contents :=
  touches.foldl
    (fun db touch => assign db subspaceSearchIndex (searchKey index id touch.1) touch.2) db

variable {touches : List Touch} {id : SearchIndexId} (xxh3 : Bytes → UInt64)

/-- If rows are set and cleared as a function says, they are as it says. -/
theorem touched_eq_ite (row : SearchIndexType → Option Bytes)
    (h : ∀ touch ∈ touches, touch.2 = row touch.1) (db : Contents) (typ : SearchIndexType) :
    rowAt (touched index id db touches) index id typ = if typ ∈ touches.map Prod.fst then row typ
      else rowAt db index id typ := by
  induction touches generalizing db with
  | nil => rfl
  | cons touch touches ih =>
    rw [forall_mem_cons] at h
    rw [touched, foldl_cons]
    refine (ih h.2 _).trans ?_
    rw [map_cons, rowAt, assign]
    by_cases hmem : typ ∈ touches.map Prod.fst
    · rw [if_pos hmem, if_pos (mem_cons_of_mem _ hmem)]
    by_cases heq : typ = touch.1
    · rw [if_neg hmem, if_pos ⟨rfl, by rw [heq]⟩, h.1, heq, if_pos mem_cons_self]
    · rw [if_neg hmem, if_neg fun hkey => heq (searchKey_inj.mp hkey.2).2.2,
        if_neg (by rw [mem_cons]; exact not_or.mpr ⟨heq, hmem⟩)]

/-- Rows of other documents stay. -/
theorem touched_of_ne {id' : SearchIndexId} (h : ¬ (index' = index ∧ id' = id)) (db : Contents)
    (touches : List Touch) (typ : SearchIndexType) :
    rowAt (touched index id db touches) index' id' typ = rowAt db index' id' typ := by
  induction touches generalizing db with
  | nil => rfl
  | cons touch touches ih =>
    refine (ih _).trans (if_neg fun hkey => h ?_)
    obtain ⟨hindex, hid, -⟩ := searchKey_inj.mp hkey.2
    exact ⟨hindex, hid⟩

open Touch

/-! ### In slices -/

/-- The calls so far gave some slices and a current one, without account, collection and change. -/
structure Cut (builder : BatchBuilder SearchClass) (closed : List (List (Operation SearchClass)))
    (current : List (Operation SearchClass)) : Prop where
  ops : builder.ops = closed.flatten ++ current
  commitPoints : builder.commitPoints = Write.ends 0 closed
  account : builder.currentAccountId = none
  collection : builder.currentCollection = none
  changes : builder.changes = []
  count : builder.batchOps = current.length

namespace Cut

variable {builder : BatchBuilder SearchClass} {closed : List (List (Operation SearchClass))}
  {current : List (Operation SearchClass)}

section

variable (h : Cut builder closed current)

include h

theorem serializeChanges : builder.serializeChanges noLogs = builder := by
  obtain ⟨ops, account, collection, document, changes, changed, size, count, points⟩ := builder
  obtain rfl : changes = [] := h.changes
  rfl

/-- The slices, if there are no more calls. -/
theorem slices : builder.slices noLogs = closed ++ [current] := by
  rw [BatchBuilder.slices, h.serializeChanges, h.ops, h.commitPoints]
  exact Write.slicesFrom_ends [] closed current

theorem value (index : SearchIndex) (id : SearchIndexId) (touch : Touch) :
    Cut (builder.value (touch.call index id)) closed (current ++ [touch.operation index id]) := by
  refine ⟨?_, h.commitPoints, h.account, h.collection, h.changes, ?_⟩
  · rw [← append_assoc, ← h.ops]
    rfl
  · rw [length_append, ← h.count]
    rcases touch with ⟨typ, _ | value⟩ <;> rfl

/-- A commit point ends a large slice, as one of more than 1000 operations is. -/
theorem commitPoint :
    Cut (builder.commitPoint noLogs) (closed ++ [current]) [] ∨
      Cut (builder.commitPoint noLogs) closed current ∧ current.length ≤ 1000 := by
  rw [BatchBuilder.commitPoint]
  split
  · refine .inl ⟨?_, ?_, ?_, ?_, ?_, rfl⟩
    · rw [h.serializeChanges, BatchBuilder.beginSlice]
      rw [h.account, h.collection, h.ops, flatten_append, flatten_singleton]
      exact append_nil _
    · rw [h.serializeChanges, BatchBuilder.beginSlice]
      rw [Write.ends_append, Nat.zero_add, h.commitPoints, h.ops]
    · rw [h.serializeChanges]
      exact h.account
    · rw [h.serializeChanges]
      exact h.collection
    · rw [h.serializeChanges]
      exact h.changes
  · rename_i hsmall
    refine .inr ⟨h, ?_⟩
    rw [BatchBuilder.isLargeBatch, BatchBuilder.isLarge, h.count, Bool.or_eq_true,
      decide_eq_true_iff, decide_eq_true_iff] at hsmall
    omega

end

end Cut

/-- A slice that was cut has operations, and not more than 1001. -/
def Bounded (slice : List (Operation SearchClass)) : Prop := slice ≠ [] ∧ slice.length ≤ 1001

/-- Rows are written with a commit point after each, and slices stay bounded. -/
theorem Cut.run {builder : BatchBuilder SearchClass}
    {closed : List (List (Operation SearchClass))} {current : List (Operation SearchClass)}
    (h : Cut builder closed current) (hclosed : ∀ slice ∈ closed, Bounded slice)
    (hcurrent : current.length ≤ 1000) (touches : List Touch) :
    ∃ closed' current',
      Cut (((touches.map (call index id)).flatMap
        fun value => [.value value, .commitPoint]).foldl (BatchBuilder.call noLogs) builder)
        closed' current' ∧
      closed'.flatten ++ current' = closed.flatten ++ current ++ touches.map (operation index id) ∧
      (∀ slice ∈ closed', Bounded slice) ∧ current'.length ≤ 1000 := by
  induction touches generalizing builder closed current with
  | nil => exact ⟨closed, current, h, (append_nil _).symm, hclosed, hcurrent⟩
  | cons touch touches ih =>
    have hvalue := h.value index id touch
    rcases hvalue.commitPoint with hcut | ⟨hcut, hlength⟩
    · obtain ⟨closed', current', hcut', hflatten, hbounded⟩ := ih hcut (by
        rw [forall_mem_append, forall_mem_singleton]
        refine ⟨hclosed, concat_ne_nil _ _, ?_⟩
        rw [length_append, length_singleton]
        omega) (Nat.zero_le _)
      refine ⟨closed', current', hcut', ?_, hbounded⟩
      rw [hflatten]
      simp
    · obtain ⟨closed', current', hcut', hflatten, hbounded⟩ := ih hcut hclosed hlength
      refine ⟨closed', current', hcut', ?_, hbounded⟩
      rw [hflatten]
      simp

/-- The slices of some calls. -/
theorem slices_batchOf (index : SearchIndex) (id : SearchIndexId) (touches : List Touch) :
    ∃ closed current, (batchOf (touches.map (call index id))).slices noLogs = closed ++ [current] ∧
      closed.flatten ++ current = touches.map (operation index id) ∧
      (∀ slice ∈ closed, Bounded slice) ∧ current.length ≤ 1000 ∧
      ((batchOf (touches.map (call index id))).serializeChanges noLogs).ops =
        touches.map (operation index id) := by
  have hnew : Cut BatchBuilder.new [] [] := ⟨rfl, rfl, rfl, rfl, rfl, rfl⟩
  obtain ⟨closed, current, hcut, hflatten, hbounded, hlength⟩ :=
    hnew.run (forall_mem_nil _) (Nat.zero_le _) touches
  refine ⟨closed, current, hcut.slices, hflatten, hbounded, hlength, ?_⟩
  rw [batchOf, BatchBuilder.run, hcut.serializeChanges, hcut.ops]
  exact hflatten

/-! ### In the store -/

/-- The executor writes row after row. -/
theorem steps_touches (index : SearchIndex) (id : SearchIndexId) (touches : List Touch)
    (self : Executor Transaction) :
    ∃ txn, Executor.steps (Executor.operation xxh3 Write.rocksdb false) self
        (touches.map (operation index id)) = ({ self with store := txn }, none) ∧
      txn.get = touched index id self.store.get touches := by
  induction touches generalizing self with
  | nil => exact ⟨self.store, rfl, rfl⟩
  | cons touch touches ih =>
    have hstep : Executor.operation xxh3 Write.rocksdb false self (touch.operation index id) =
        .ok { self with
          store := self.store.write subspaceSearchIndex (searchKey index id touch.1) touch.2 } := by
      rcases touch with ⟨typ, _ | value⟩ <;> rfl
    obtain ⟨txn, hsteps, hget⟩ := ih { self with
      store := self.store.write subspaceSearchIndex (searchKey index id touch.1) touch.2 }
    refine ⟨txn, ?_, ?_⟩
    · rw [map_cons, Executor.steps, hstep]
      exact hsteps
    · rw [hget, Transaction.get_write]
      rfl

theorem writeRocksdb_touches (db : Contents) (touches : List Touch) :
    Write.writeRocksdb xxh3 db ⟨[], touches.map (operation index id)⟩ =
      (touched index id db touches, .ok .default) := by
  obtain ⟨txn, hsteps, hget⟩ := steps_touches xxh3 index id touches (Executor.start ⟨db, []⟩)
  have hbatch : Executor.batch xxh3 Write.rocksdb ⟨db, []⟩ ⟨[], touches.map (operation index id)⟩ =
        (⟨txn, .start, 0, .default⟩, none) := hsteps
  rw [Write.writeRocksdb, hbatch]
  dsimp only
  rw [hget]
  rfl

/-- Slices of operations do together what the operations do. -/
theorem writeSlices_eq [ArchiveFormat] {slices : List (List (Operation SearchClass))}
    (h : slices.flatten = touches.map (operation index id)) (db : Contents) :
    writeSlices db slices = (touched index id db touches, .ok ()) := by
  induction slices generalizing touches db with
  | nil =>
    rw [map_eq_nil_iff.mp h.symm]
    rfl
  | cons slice slices ih =>
    obtain ⟨first, rest, rfl, hfirst, hrest⟩ := map_eq_append_iff.mp h.symm
    rw [writeSlices, ← hfirst, writeRocksdb_touches]
    dsimp only
    rw [ih hrest.symm, touched, touched, touched, foldl_append]

/-! ## The types of terms -/

variable (terms terms' : TermIndex) (types : List SearchIndexType)

/-- The types of the terms that are stored, if any. -/
def typesOf : Option TermIndex → List SearchIndexType
  | none => []
  | some terms => terms.types

/-- A type is not the archive if it is that of a term or a field. -/
theorem ne_document_of_mem_types {terms : TermIndex} (h : typ ∈ terms.types) : typ ≠ .document := by
  rcases mem_append.mp h with hterm | hfield
  · obtain ⟨term, -, hterm⟩ := mem_flatMap.mp hterm
    obtain ⟨field, -, rfl⟩ := mem_map.mp hterm
    exact SearchIndexType.noConfusion
  · obtain ⟨field, -, rfl⟩ := mem_map.mp hfield
    exact SearchIndexType.noConfusion

/-- The types of a document are pairwise different. -/
theorem nodup_termTypes : terms.termTypes.Nodup := by
  rw [termTypes, nodup_flatMap]
  refine ⟨?_, ?_⟩
  · intro term _
    refine (nodup_bits term.fields).map_on ?_
    intro field hfield field' hfield' h
    have hbyte := (SearchIndexType.term.inj h).2
    have hnat := congrArg UInt8.toNat hbyte
    have hlt := lt_of_mem_bits hfield
    have hlt' := lt_of_mem_bits hfield'
    rwa [UInt8.toNat_ofNat_of_lt' (hlt.trans (by decide)),
      UInt8.toNat_ofNat_of_lt' (hlt'.trans (by decide))] at hnat
  · refine (pairwise_map.mp terms.nodup_terms).imp ?_
    intro term term' hne typ hmem hmem'
    obtain ⟨field, -, rfl⟩ := mem_map.mp hmem
    obtain ⟨field', -, h⟩ := mem_map.mp hmem'
    exact hne (SearchIndexType.term.inj h).1.symm

theorem nodup_fieldTypes : terms.fieldTypes.Nodup := terms.nodup_fields.map fun _ _ h => index.inj h

theorem disjoint_termTypes_fieldTypes : terms.termTypes.Disjoint terms'.fieldTypes := by
  intro typ hterm hfield
  obtain ⟨term, -, hterm⟩ := mem_flatMap.mp hterm
  obtain ⟨field, -, rfl⟩ := mem_map.mp hterm
  obtain ⟨field', -, h⟩ := mem_map.mp hfield
  cases h

theorem nodup_types : terms.types.Nodup :=
  (nodup_termTypes terms).append (nodup_fieldTypes terms) (disjoint_termTypes_fieldTypes terms terms)

/-- What a loop over new types sets, and what it leaves of the old ones. -/
theorem removeOld_eq {new old : List SearchIndexType} (hnew : new.Nodup) (hold : old.Nodup) :
    removeOld new old = (new.filter (· ∉ old), old.filter (· ∉ new)) := by
  induction new generalizing old with
  | nil => simp [removeOld]
  | cons typ new ih =>
    obtain ⟨htyp, hnew⟩ := nodup_cons.mp hnew
    rw [removeOld]
    split
    · rename_i hmem
      rw [ih hnew (hold.erase typ), hold.erase_eq_filter]
      -- the type is not among the new ones again, so its removal from the old ones is not noticed
      refine Prod.ext ?_ ?_
      · rw [filter_cons_of_neg (by simpa using hmem)]
        refine filter_congr fun typ' htyp' => ?_
        have hne : typ' ≠ typ := fun h => htyp (h ▸ htyp')
        simp [hne]
      · rw [filter_filter]
        refine filter_congr fun typ' _ => ?_
        by_cases h : typ' = typ <;> simp [h]
    · rename_i hmem
      rw [ih hnew hold]
      refine Prod.ext ?_ ?_
      · rw [filter_cons_of_pos (by simpa using hmem)]
      · refine filter_congr fun typ' htyp' => ?_
        have hne : typ' ≠ typ := fun h => hmem (h ▸ htyp')
        simp [hne]

theorem setTypes_eq :
    setTypes index id types = (types.map fun typ => (typ, some [])).map (call index id) := by
  rw [map_map]
  rfl

theorem clearTypes_eq :
    clearTypes index id types = (types.map fun typ => (typ, none)).map (call index id) := by
  rw [map_map]
  rfl

/-! ## Rows of terms -/

open ArchiveFormat

variable [ArchiveFormat] (document : IndexDocument) (order : HashOrder SearchIndexType)

/-- The rows of a document with these terms, or of one that is not indexed. -/
def rowsOf (stored : Option TermIndex) (typ : SearchIndexType) : Option Bytes :=
  if typ = .document then stored.map archive
  else if typ ∈ typesOf stored then some [] else none

theorem rowsOf_none (typ : SearchIndexType) : rowsOf none typ = none := by
  rw [rowsOf]
  split
  · rfl
  · exact if_neg not_mem_nil

theorem rowsOf_ne_iff (h : typ ≠ .document) : rowsOf old typ ≠ rowsOf new typ ↔
      (typ ∈ typesOf new ∧ typ ∉ typesOf old) ∨ (typ ∈ typesOf old ∧ typ ∉ typesOf new) := by
  rw [rowsOf, rowsOf, if_neg h, if_neg h]
  by_cases hold : typ ∈ typesOf old <;> by_cases hnew : typ ∈ typesOf new <;> simp [hnew]

/-- The rows that change from old to new terms, each once, archive apart. -/
structure Changes (old new : Option TermIndex) (touches : List Touch) : Prop where
  nodup : (touches.map Prod.fst).Nodup
  value : ∀ touch ∈ touches, touch.2 = rowsOf new touch.1
  mem_iff : ∀ typ, typ ∈ touches.map Prod.fst ↔
    typ ≠ .document ∧ rowsOf old typ ≠ rowsOf new typ

/-- Rows are set for types that are new, and cleared for those that are old only, in any order. -/
theorem changes_of_perm {sets clears : List SearchIndexType}
    (hsets : sets.Perm ((typesOf new).filter (· ∉ typesOf old)))
    (hclears : clears.Perm ((typesOf old).filter (· ∉ typesOf new))) (hold : (typesOf old).Nodup)
    (hnew : (typesOf new).Nodup) :
    Changes old new
      (sets.map (fun typ => (typ, some [])) ++ clears.map fun typ => (typ, none)) := by
  have hmem (typ : SearchIndexType) : typ ∈ sets ↔ typ ∈ typesOf new ∧ typ ∉ typesOf old := by
    rw [hsets.mem_iff, mem_filter, decide_eq_true_iff]
  have hmem' (typ : SearchIndexType) : typ ∈ clears ↔ typ ∈ typesOf old ∧ typ ∉ typesOf new := by
    rw [hclears.mem_iff, mem_filter, decide_eq_true_iff]
  have hne {stored : Option TermIndex} {typ : SearchIndexType} (h : typ ∈ typesOf stored) :
      typ ≠ .document := by
    rcases stored with _ | terms
    · cases h
    · exact ne_document_of_mem_types h
  have hfst : (sets.map (fun typ => (typ, some [])) ++ clears.map fun typ => (typ, none)).map
      (Prod.fst : Touch → SearchIndexType) = sets ++ clears := by
    simp [Function.comp_def]
  refine ⟨?_, ?_, ?_⟩
  · rw [hfst, nodup_append']
    refine ⟨hsets.nodup_iff.mpr (hnew.filter _), hclears.nodup_iff.mpr (hold.filter _), ?_⟩
    -- no row is both set and cleared, so the order does not matter
    intro typ hset hclear
    exact ((hmem' typ).mp hclear).2 ((hmem typ).mp hset).1
  · intro touch htouch
    rcases mem_append.mp htouch with hset | hclear
    · obtain ⟨typ, htyp, rfl⟩ := mem_map.mp hset
      have hin := ((hmem typ).mp htyp).1
      rw [rowsOf, if_neg (hne hin), if_pos hin]
    · obtain ⟨typ, htyp, rfl⟩ := mem_map.mp hclear
      obtain ⟨hin, hout⟩ := (hmem' typ).mp htyp
      rw [rowsOf, if_neg (hne hin), if_neg hout]
  · intro typ
    rw [hfst, mem_append, hmem, hmem']
    constructor
    · intro h
      have hdocument : typ ≠ .document := h.elim (fun h => hne h.1) fun h => hne h.1
      exact ⟨hdocument, (rowsOf_ne_iff hdocument).mpr h⟩
    · rintro ⟨hdocument, h⟩
      exact (rowsOf_ne_iff hdocument).mp h

/-- With the archive and the rows that change, the rows are those of the new terms. -/
theorem Changes.touched_eq (h : Changes old new touches)
    (hdb : rowAt db index id typ = rowsOf old typ) :
    rowAt (touched index id db ((.document, new.map archive) :: touches)) index id typ =
      rowsOf new typ := by
  rw [touched_eq_ite (rowsOf new)]
  · split
    · rfl
    rename_i hmem
    rw [map_cons, mem_cons, not_or] at hmem
    rw [hdb]
    by_contra hne
    exact hmem.2 ((h.mem_iff typ).mpr ⟨hmem.1, hne⟩)
  · rw [forall_mem_cons]
    exact ⟨(if_pos rfl).symm, h.value⟩

/-! ## Writing, merging and deleting the index of a document -/

/-- `write_index` writes all rows. -/
theorem exists_writeIndex_eq (index : SearchIndex) (id : SearchIndexId) (terms : TermIndex) :
    ∃ touches, terms.writeIndex index id =
        (touchArchive terms :: touches).map (call index id) ∧
      Changes none (some terms) touches := by
  refine ⟨terms.types.map (fun typ => (typ, some [])) ++ ([] : List SearchIndexType).map
    fun typ => (typ, none), ?_, changes_of_perm ?_ (.refl _) .nil (nodup_types terms)⟩
  · rw [map_nil, append_nil, types, map_append, map_cons, map_append, ← setTypes_eq, ← setTypes_eq]
    rfl
  · rw [typesOf, typesOf, filter_eq_self.mpr]
    intro typ _
    simp

/-- `delete_index` clears all rows. -/
theorem exists_deleteIndex_eq (index : SearchIndex) (id : SearchIndexId) (terms : TermIndex) :
    ∃ touches, terms.deleteIndex index id = ((.document, none) :: touches).map (call index id) ∧
      Changes (some terms) none touches := by
  refine ⟨([] : List SearchIndexType).map (fun typ => (typ, some [])) ++ terms.types.map
    fun typ => (typ, none), ?_, changes_of_perm (.refl _) ?_ (nodup_types terms) .nil⟩
  · rw [deleteIndex, clearTypes_eq]
    rfl
  · rw [typesOf, typesOf, filter_eq_self.mpr]
    intro typ _
    simp

omit [ArchiveFormat] in
/-- The new types of terms are those that are new among all types, as for fields. -/
theorem filter_types :
    terms.types.filter (· ∉ terms'.types) =
      terms.termTypes.filter (· ∉ terms'.termTypes) ++
        terms.fieldTypes.filter (· ∉ terms'.fieldTypes) := by
  rw [types, types, filter_append]
  congr 1
  · refine filter_congr fun typ htyp => ?_
    have hfield : typ ∉ terms'.fieldTypes := disjoint_termTypes_fieldTypes terms terms' htyp
    simp [hfield]
  · refine filter_congr fun typ htyp => ?_
    have hterm : typ ∉ terms'.termTypes :=
      fun h => disjoint_termTypes_fieldTypes terms' terms h htyp
    simp [hterm]

/-- `merge_index` writes the rows that are new, and clears those that are old. -/
theorem exists_mergeIndex_eq (index : SearchIndex) (id : SearchIndexId)
    (order : HashOrder SearchIndexType) (terms old : TermIndex) :
    ∃ touches, terms.mergeIndex index id order old =
        (touchArchive terms :: touches).map (call index id) ∧
      Changes (some old) (some terms) touches := by
  have hterms := removeOld_eq (nodup_termTypes terms) (nodup_termTypes old)
  have hfields := removeOld_eq (nodup_fieldTypes terms) (nodup_fieldTypes old)
  refine ⟨(terms.types.filter (· ∉ old.types)).map (fun typ => (typ, some [])) ++
    (order.order (old.termTypes.filter (· ∉ terms.termTypes)) ++
      order.order (old.fieldTypes.filter (· ∉ terms.fieldTypes))).map fun typ => (typ, none),
    ?_, changes_of_perm (.refl _) ?_ (nodup_types old) (nodup_types terms)⟩
  · rw [mergeIndex, hterms, hfields, filter_types]
    simp only [setTypes_eq, clearTypes_eq, map_append, map_cons, append_assoc]
    rfl
  · rw [typesOf, typesOf, filter_types]
    exact (order.perm _).append (order.perm _)

/-! ## Indexing a document -/

/-- The terms to start from: the stored ones, if the index is one of documents that are indexed
    again. -/
def IndexDocument.base (document : IndexDocument) (stored : Option TermIndex) : Option TermIndex :=
  if document.index.isMerged then stored else none

theorem getArchive_eq (h : rowAt db index id .document = rowsOf stored .document) :
    getArchive db index id = .ok stored := by
  rw [getArchive, h, rowsOf, if_pos rfl]
  rcases stored with _ | terms
  · rfl
  · rw [Option.map_some]
    dsimp only
    rw [unarchive_archive]

/-- A document whose archive can be read is indexed: its archive and the rows that change are
    written. -/
theorem exists_values_eq {db : Contents}
    (h : rowAt db document.index document.id .document = rowsOf stored .document) :
    ∃ touches, document.values order db =
        .ok ((touchArchive document.terms :: touches).map (call document.index document.id)) ∧
      Changes (document.base stored) (some document.terms) touches := by
  rw [IndexDocument.values, IndexDocument.base, getArchive_eq h]
  have hwrite := exists_writeIndex_eq document.index document.id document.terms
  split
  · rcases stored with _ | old
    · obtain ⟨touches, heq, hchanges⟩ := hwrite
      exact ⟨touches, congrArg Except.ok heq, hchanges⟩
    · obtain ⟨touches, heq, hchanges⟩ := exists_mergeIndex_eq document.index document.id
        order document.terms old
      exact ⟨touches, congrArg Except.ok heq, hchanges⟩
  · obtain ⟨touches, heq, hchanges⟩ := hwrite
    exact ⟨touches, congrArg Except.ok heq, hchanges⟩

/-- `Store::index` of a document whose archive can be read. -/
theorem exists_indexDocument_eq {db : Contents}
    (h : rowAt db document.index document.id .document = rowsOf stored .document) :
    ∃ touches, indexDocument db document order =
        (touched document.index document.id db (touchArchive document.terms :: touches), .ok ()) ∧
      Changes (document.base stored) (some document.terms) touches := by
  obtain ⟨touches, hvalues, hchanges⟩ := exists_values_eq document order h
  obtain ⟨closed, current, hslices, hflatten, -⟩ := slices_batchOf document.index document.id
    (touchArchive document.terms :: touches)
  refine ⟨touches, ?_, hchanges⟩
  rw [indexDocument, hvalues]
  dsimp only
  rw [hslices]
  refine writeSlices_eq ?_ db
  rw [flatten_append, flatten_singleton, hflatten]

end Inworkspace.Indexing
