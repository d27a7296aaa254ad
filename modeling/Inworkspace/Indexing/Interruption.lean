import Inworkspace.Indexing.Mirror

/-!
# Indexing that is interrupted

A document is written in slices, and an interruption leaves the first of them in the store. For
calendars and contacts the archive is the first row that is written, and it is from the archive that
the next attempt learns which rows there are. So the next attempt finds the new terms in
the archive, takes all their rows for written, and writes none (`retry_sameKeys_iff`). Documents
of the other indexes are written as a whole again.
-/

namespace Inworkspace.Indexing

open List

open Write (Bytes Contents Operation beBytes)

section Interrupted

variable [ArchiveFormat]

/-- The slices in which a document is written. -/
def IndexDocument.slices (self : IndexDocument) (order : HashOrder SearchIndexType)
    (db : Contents) : List (List (Operation SearchClass)) :=
  match self.values order db with
  | .ok values => (batchOf values).slices noLogs
  | .error _ => []

/-- The store when only so many of the slices have reached it. -/
def interrupted (db : Contents) (document : IndexDocument) (order : HashOrder SearchIndexType)
    (written : ℕ) : Contents :=
  (writeSlices db ((document.slices order db).take written)).1

/-- The rows of terms and fields are there in one store if they are in the other. -/
def SameKeys (index : SearchIndex) (id : SearchIndexId) (db db' : Contents) : Prop :=
  ∀ typ, typ ≠ .document →
    (rowAt db index id typ).isSome = (rowAt db' index id typ).isSome

variable {db : Contents} {document : IndexDocument} {stored : Option TermIndex}

variable {old : Option TermIndex} {touches : List Touch} {index : SearchIndex} {id : SearchIndexId}
  {new : TermIndex} {first rest : List Touch} {typ : SearchIndexType}

/-- The rows after the archive and some of the rows that change were written. -/
theorem Changes.touched_first (h : Changes old (some new) (first ++ rest)) (db : Contents)
    (typ : SearchIndexType) :
    rowAt (touched index id db (touchArchive new :: first)) index id typ =
      if typ = .document ∨ typ ∈ first.map Prod.fst then rowsOf (some new) typ
      else rowAt db index id typ := by
  rw [touched_eq_ite (rowsOf (some new))]
  · refine if_congr ?_ rfl rfl
    rw [map_cons, mem_cons]
  · rw [forall_mem_cons]
    exact ⟨(if_pos rfl).symm, fun touch htouch => h.value touch (mem_append_left _ htouch)⟩

/-- The rows of terms and fields after indexing: those that change are new. -/
theorem Changes.touched_row (h : Changes old (some new) touches) (db : Contents)
    (htyp : typ ≠ .document) :
    rowAt (touched index id db (touchArchive new :: touches)) index id typ =
      if rowsOf old typ ≠ rowsOf (some new) typ then rowsOf (some new) typ
      else rowAt db index id typ := by
  rw [← append_nil touches] at h
  refine (h.touched_first db typ).trans (if_congr ?_ rfl rfl)
  rw [append_nil] at h
  rw [or_iff_right htyp, h.mem_iff, and_iff_right htyp]

/-- What was written of a document, the archive first, and what was not. -/
theorem exists_interrupted_eq (order : HashOrder SearchIndexType)
    (h : rowAt db document.index document.id .document = rowsOf stored .document) (written : ℕ) :
    ∃ touches first rest, touchArchive document.terms :: touches = first ++ rest ∧
      Changes (document.base stored) (some document.terms) touches ∧
      indexDocument db document order =
        (touched document.index document.id db (touchArchive document.terms :: touches), .ok ()) ∧
      interrupted db document order written = touched document.index document.id db first ∧
      (first = [] ↔ ((document.slices order db).take written).flatten = []) ∧
      (rest = [] ↔ ((document.slices order db).drop written).flatten = []) := by
  obtain ⟨touches, hvalues, hchanges⟩ := exists_values_eq document order h
  obtain ⟨closed, current, hslices, hflatten, -⟩ := slices_batchOf document.index document.id
    (touchArchive document.terms :: touches)
  have hdocument : document.slices order db = closed ++ [current] := by
    rw [IndexDocument.slices, hvalues]
    exact hslices
  have hall : (document.slices order db).flatten =
      (touchArchive document.terms :: touches).map
        (Touch.operation document.index document.id) := by
    rw [hdocument, flatten_append, flatten_singleton, hflatten]
  have hsplit := hall
  rw [← take_append_drop written (document.slices order db), flatten_append] at hsplit
  obtain ⟨first, rest, hfirst_rest, hfirst, hrest⟩ := map_eq_append_iff.mp hsplit.symm
  refine ⟨touches, first, rest, hfirst_rest, hchanges, ?_, ?_, ?_, ?_⟩
  · rw [indexDocument, hvalues]
    exact writeSlices_eq (by rw [← hall, hdocument, hslices]) db
  · rw [interrupted, writeSlices_eq hfirst.symm]
  · rw [← hfirst, map_eq_nil_iff]
  · rw [← hrest, map_eq_nil_iff]

/-- For a document that is merged, what was not written is never written. -/
theorem Changes.lost_iff (h : Changes old (some new) (first ++ rest))
    (hretry : Changes (some new) (some new) touches)
    (hdb : ∀ typ, rowAt db index id typ = rowsOf old typ) :
    SameKeys index id
        (touched index id (touched index id db (touchArchive new :: first))
          (touchArchive new :: touches))
        (touched index id db (touchArchive new :: (first ++ rest))) ↔
      rest = [] := by
  have hafter {typ : SearchIndexType} (htyp : typ ≠ .document) :
      rowAt (touched index id (touched index id db (touchArchive new :: first))
          (touchArchive new :: touches)) index id typ =
        if typ ∈ first.map Prod.fst then rowsOf (some new) typ
        else rowsOf old typ := by
    rw [hretry.touched_row _ htyp, if_neg (not_not.mpr rfl), h.touched_first, hdb]
    exact if_congr (or_iff_right htyp) rfl rfl
  have hwhole (typ : SearchIndexType) :
      rowAt (touched index id db (touchArchive new :: (first ++ rest))) index id typ =
        rowsOf (some new) typ := h.touched_eq (hdb typ)
  constructor
  · intro hsame
    rcases rest with _ | ⟨touch, rest⟩
    · rfl
    -- the row changes, and it is not among those that were written, which are different
    have hmem : touch.1 ∈ (first ++ touch :: rest).map Prod.fst := by simp
    obtain ⟨htyp, hne⟩ := (h.mem_iff touch.1).mp hmem
    have hnot : touch.1 ∉ first.map Prod.fst := by
      have hnodup := h.nodup
      rw [map_append, nodup_append'] at hnodup
      exact fun hin => hnodup.2.2 hin (by simp)
    have hrow := hsame touch.1 htyp
    rw [hafter htyp, if_neg hnot, hwhole] at hrow
    -- rows of terms and fields are empty: they differ if one of the two stores has them
    rw [rowsOf, rowsOf] at hrow hne
    by_cases hold : touch.1 ∈ typesOf old <;> by_cases hnew : touch.1 ∈ typesOf (some new) <;>
      simp_all
  · rintro rfl typ htyp
    rw [hafter htyp, hwhole]
    split
    · rfl
    rename_i hnot
    by_contra hne
    refine hnot ?_
    have hmem := (h.mem_iff typ).mpr ⟨htyp, fun heq => hne (by rw [heq])⟩
    rwa [append_nil] at hmem

/-- A document that is not merged is written as a whole again. -/
theorem Changes.again (h : Changes none (some new) (first ++ rest))
    (hretry : Changes none (some new) touches) (db : Contents) :
    SameKeys index id
      (touched index id (touched index id db (touchArchive new :: first))
        (touchArchive new :: touches))
      (touched index id db (touchArchive new :: (first ++ rest))) := by
  intro typ htyp
  rw [hretry.touched_row _ htyp, h.touched_row db htyp, h.touched_first]
  split
  · rfl
  -- a row that the document does not have was not written before either
  rename_i heq
  rw [if_neg]
  rintro (hdocument | hin)
  · exact htyp hdocument
  · refine heq ((h.mem_iff typ).mp ?_).2
    rw [map_append]
    exact mem_append_left _ hin

section Retry

variable (order order' : HashOrder SearchIndexType) {written : ℕ}
  (h : ∀ typ, rowAt db document.index document.id typ = rowsOf stored typ)

include h

/-- Once the archive was written, the next attempt starts from the new terms: a merged document gets
    no more rows. -/
theorem sameKeys_iff_of_some
    (hsome : ((document.slices order db).take written).flatten ≠ []) :
    SameKeys document.index document.id
        (indexDocument (interrupted db document order written) document order').1
        (indexDocument db document order).1 ↔
      document.index.isMerged = false ∨
        ((document.slices order db).drop written).flatten = [] := by
  obtain ⟨touches, first, rest, hsplit, hchanges, hwhole, hinterrupted, hfirst, hrest⟩ :=
    exists_interrupted_eq order (h .document) written
  rcases first with _ | ⟨touch, first⟩
  · exact absurd (hfirst.mp rfl) hsome
  obtain ⟨rfl, htouches⟩ := cons.inj hsplit
  obtain rfl : touches = first ++ rest := htouches
  have harchive : rowAt
      (touched document.index document.id db (touchArchive document.terms :: first))
      document.index document.id .document = rowsOf (some document.terms) .document :=
    (hchanges.touched_first db .document).trans (if_pos (.inl rfl))
  obtain ⟨touches', hretry, hchanges'⟩ := exists_indexDocument_eq document order' harchive
  rw [hwhole, hinterrupted, hretry, ← hrest]
  rcases hmerged : document.index.isMerged with _ | _
  · rw [IndexDocument.base, hmerged] at hchanges hchanges'
    exact iff_of_true (hchanges.again hchanges' db) (.inl rfl)
  · rw [IndexDocument.base, if_pos hmerged] at hchanges hchanges'
    rw [or_iff_right Bool.false_ne_true.symm]
    exact hchanges.lost_iff hchanges' h

end Retry

variable (order order' : HashOrder SearchIndexType)

/-- Indexing again what was interrupted gives the rows of an indexing that was not, if and only if
    the document is not merged, or nothing was written, or all. -/
theorem retry_sameKeys_iff
    (h : ∀ typ, rowAt db document.index document.id typ = rowsOf stored typ) (written : ℕ) :
    SameKeys document.index document.id
        (indexDocument (interrupted db document order written) document order').1
        (indexDocument db document order).1 ↔
      document.index.isMerged = false ∨
        ((document.slices order db).take written).flatten = [] ∨
        ((document.slices order db).drop written).flatten = [] := by
  by_cases hnothing : ((document.slices order db).take written).flatten = []
  · -- nothing was written, and the retry does what the whole would
    refine iff_of_true ?_ (.inr (.inl hnothing))
    obtain ⟨touches, first, rest, -, hchanges, hwhole, hinterrupted, hfirst, -⟩ :=
      exists_interrupted_eq order (h .document) written
    obtain rfl := hfirst.mpr hnothing
    obtain ⟨touches', hretry, hchanges'⟩ :=
      exists_indexDocument_eq document order' (h .document)
    rw [hwhole, hinterrupted, show touched document.index document.id db [] = db from rfl, hretry]
    intro typ htyp
    dsimp only
    rw [hchanges'.touched_row db htyp, hchanges.touched_row db htyp]
  · rw [sameKeys_iff_of_some order order' h hnothing, or_iff_right (a := _ = []) hnothing]

/-! ## A long note -/

/-- A document with more than 1000 changed rows is cut behind the first slice. -/
theorem cut_of_long
    (h : rowAt db document.index document.id .document = rowsOf stored .document)
    (hlong : ∀ touches, Changes (document.base stored) (some document.terms) touches →
      1000 < touches.length) :
    ((document.slices order db).take 1).flatten ≠ [] ∧
      ((document.slices order db).drop 1).flatten ≠ [] := by
  obtain ⟨touches, hvalues, hchanges⟩ := exists_values_eq document order h
  obtain ⟨closed, current, hslices, hflatten, hbounded, hcurrent, -⟩ :=
    slices_batchOf document.index document.id (touchArchive document.terms :: touches)
  have hdocument : document.slices order db = closed ++ [current] := by
    rw [IndexDocument.slices, hvalues]
    exact hslices
  have hlength : (closed.flatten ++ current).length = touches.length + 1 := by
    rw [hflatten, length_map, length_cons]
  have htouches := hlong touches hchanges
  rw [hdocument]
  rcases closed with _ | ⟨slice, closed⟩
  · rw [flatten_nil, nil_append] at hlength
    omega
  obtain ⟨hslice, hbound⟩ := hbounded slice mem_cons_self
  refine ⟨by simpa using hslice, fun hrest => ?_⟩
  rw [cons_append, drop_succ_cons, drop_zero, flatten_append, flatten_singleton] at hrest
  rw [flatten_cons, append_assoc, hrest, append_nil] at hlength
  omega

end Interrupted

/-- A word of two bytes. -/
def shortWord (n : ℕ) : CheekyHash := ⟨2, beBytes 2 n, rfl⟩

theorem shortWord_inj {m n : ℕ} (hm : m < 256 ^ 2) (hn : n < 256 ^ 2)
    (h : shortWord m = shortWord n) : m = n := by
  have hbytes := congrArg (fun hash => Lib.BigEndian.ofBigEndian (hash.payload.map UInt8.toNat)) h
  simp only [shortWord, Write.ofBigEndian_beBytes] at hbytes
  rwa [Nat.mod_eq_of_lt hm, Nat.mod_eq_of_lt hn] at hbytes

/-- A note with different words. -/
def wordsNote (n : ℕ) (h : n ≤ 256 ^ 2) : TermIndex where
  terms := (List.range n).map fun n => ⟨shortWord n, 8⟩
  fields := []
  nodup_terms := by
    rw [List.map_map]
    refine List.nodup_range.map_on ?_
    intro k hk l hl heq
    rw [List.mem_range] at hk hl
    exact shortWord_inj (by omega) (by omega) heq
  nodup_fields := .nil
  fieldId_mem := noteTerms.fieldId_mem

theorem length_wordsNote (n : ℕ) (h : n ≤ 256 ^ 2) : (wordsNote n h).termTypes.length = n := by
  have hbits : Lib.Bits.bits 8#32 = [3] := by decide
  simp [TermIndex.termTypes, wordsNote, Function.comp_def, hbits]

/-- A note with 1002 words. -/
def longNote : TermIndex := wordsNote 1002 (by decide)

/-- An event of account 1 with a long note. -/
def longEvent : IndexDocument := ⟨.calendar, ⟨1, 7⟩, longNote⟩

theorem emptyDb_eq_rowsOf [ArchiveFormat] (index : SearchIndex) (id : SearchIndexId)
    (typ : SearchIndexType) :
    rowAt emptyDb index id typ = rowsOf none typ := (rowsOf_none typ).symm

/-- Each word is a row. -/
theorem length_of_changes_longNote [ArchiveFormat] {touches : List Touch}
    (h : Changes none (some longNote) touches) :
    1000 < touches.length := by
  have hnodup := nodup_termTypes longNote
  have hsubset : longNote.termTypes ⊆ touches.map Prod.fst := by
    intro typ htyp
    have htypes : typ ∈ longNote.types := mem_append_left _ htyp
    have hdocument := ne_document_of_mem_types htypes
    refine (h.mem_iff typ).mpr ⟨hdocument, (rowsOf_ne_iff hdocument).mpr (.inl ?_)⟩
    exact ⟨htypes, not_mem_nil⟩
  have hle := (hnodup.subperm hsubset).length_le
  have hlength : longNote.termTypes.length = 1002 := length_wordsNote 1002 (by decide)
  rw [length_map] at hle
  omega

local instance : ArchiveFormat := unaryFormat

theorem retry_sameKeys_longEvent :
    SameKeys longEvent.index longEvent.id
        (indexDocument (interrupted emptyDb longEvent sameOrder 1) longEvent sameOrder).1
        (indexDocument emptyDb longEvent sameOrder).1 ↔
      longEvent.index.isMerged = false ∨
        ((longEvent.slices sameOrder emptyDb).take 1).flatten = [] ∨
        ((longEvent.slices sameOrder emptyDb).drop 1).flatten = [] :=
  retry_sameKeys_iff sameOrder sameOrder (emptyDb_eq_rowsOf _ _) 1

/-- The first slice of the event is written, and the next attempt writes nothing more. -/
theorem retry_longEvent :
    ¬ SameKeys longEvent.index longEvent.id
      (indexDocument (interrupted emptyDb longEvent sameOrder 1) longEvent sameOrder).1
      (indexDocument emptyDb longEvent sameOrder).1 := by
  have hempty := emptyDb_eq_rowsOf longEvent.index longEvent.id
  obtain ⟨hsome, hrest⟩ := cut_of_long sameOrder (hempty .document) fun _ hchanges =>
    length_of_changes_longNote hchanges
  rw [sameKeys_iff_of_some sameOrder sameOrder hempty hsome]
  exact not_or.mpr ⟨Bool.false_ne_true.symm, hrest⟩

end Inworkspace.Indexing
