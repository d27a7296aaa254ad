import Inworkspace.Storage.MergeIndex

/-!
# Derived data after updates

The data that is derived from an object is compared with what its last version alone would give.
It is the same (`history_same`), and nothing is left when the object is deleted, provided that each
update is one that can be made place by place (`Compatible`): at each place the values are of one
kind and can be merged, what one list has more than the other gives nothing, and no place clears
what another one needs.

An update that adds a value to the list does nothing for it, as the lists are gone through side by
side. A folder that becomes a file gets no link to its contents (`history_folderToFile`).
-/

namespace Inworkspace.Storage

open Lib.Batch List Prod
open Write (Bytes Call ArchiveVersion)

variable {P : Type} [DecidableEq P] {tenantId : Option UInt32} {derived : Derived P}
  {pairs : List (IndexValue P × IndexValue P)} {current : Version P} {values : List (IndexValue P)}
  (env : Env) (isVersioned : Bool)

/-! ## Place by place -/

/-- The second place does not clear what the first one sets, nor need what that clears, unless
    nothing changes at both. -/
def Apart (first second : IndexValue P × IndexValue P) : Prop :=
  (first.1.eq first.2 = true ∧ second.1.eq second.2 = true) ∨
    ∀ key ∈ second.1.keys, key ∉ first.2.keys ∧ (key ∈ first.1.keys → key ∉ second.2.keys)

instance (first second : IndexValue P × IndexValue P) : Decidable (Apart first second) :=
  inferInstanceAs (Decidable (_ ∨ _))

/-- The value gives nothing. -/
def IndexValue.isNeutral (item : IndexValue P) : Bool := item.rows.isEmpty ∧ item.used = 0

/-- The values of two versions, such that the derived data can be updated. -/
structure Compatible (old new : List (IndexValue P)) : Prop where
  mergeable : ∀ pair ∈ old.zip new, pair.1.mergeable pair.2 = true
  apart : (old.zip new).Pairwise Apart
  oldRest : ∀ item ∈ old.drop new.length, item.isNeutral = true
  newRest : ∀ item ∈ new.drop old.length, item.isNeutral = true

def rowsOf (values : List (IndexValue P)) : List (DerivedKey P × Bytes) :=
  values.flatMap IndexValue.rows

theorem lastRow_rowsOf_cons (item : IndexValue P) (values : List (IndexValue P))
    (key : DerivedKey P) :
    lastRow (rowsOf (item :: values)) key =
      (lastRow (rowsOf values) key <|> lastRow item.rows key) := by
  rw [rowsOf, flatMap_cons, lastRow_append]
  rfl

/-- What the updates of some places do together. -/
structure MergedAll (env : Env) (pairs : List (IndexValue P × IndexValue P))
    (calls : Calls P) : Prop where
  row : ∀ key, (effectOf calls key).getD (lastRow (rowsOf (pairs.map fst)) key) =
    lastRow (rowsOf (pairs.map snd)) key
  clears : ∀ key, effectOf calls key = some none →
    ∃ pair ∈ pairs, key ∈ pair.1.keys ∧ pair.1.eq pair.2 = false
  keeps : ∀ key, effectOf calls key = none →
    lastRow (rowsOf (pairs.map snd)) key ≠ none →
      ∃ pair ∈ pairs, key ∈ pair.1.keys ∧ key ∈ pair.2.keys
  counted : ∀ counter, total counter calls =
    if counter.isFor env.tenantId then
      usedBy (pairs.map snd) - usedBy (pairs.map fst)
    else 0

/-- One more place, before the others. -/
theorem MergedAll.cons {env : Env} {pair : IndexValue P × IndexValue P}
    {calls calls' : Calls P} (hpair : Merged env pair.1 pair.2 calls)
    (hpairs : MergedAll env pairs calls') (hapart : ∀ other ∈ pairs, Apart pair other) :
    MergedAll env (pair :: pairs) (calls ++ calls') := by
  refine ⟨?_, ?_, ?_, ?_⟩
  · intro key
    have hrest := hpairs.row key
    rw [effectOf_append, map_cons, map_cons, lastRow_rowsOf_cons, lastRow_rowsOf_cons]
    rcases heffect : effectOf calls' key with _ | value
    · rw [heffect, Option.getD_none] at hrest
      rw [hrest]
      rcases hrow : lastRow (rowsOf (pairs.map snd)) key with _ | bytes
      · exact hpair.row key
      -- a place that keeps the row needs it, so this one does not touch it
      obtain ⟨other, hother, hold, hnew⟩ := hpairs.keeps key heffect (by simp [hrow])
      have hnothing : effectOf calls key = none := by
        rcases hapart other hother with ⟨hsame, -⟩ | hapart
        · exact hpair.same hsame key
        · obtain ⟨hset, hclear⟩ := hapart key hold
          exact hpair.frame key (fun h => hclear h hnew) hset
      rw [hnothing]
      rfl
    · rw [heffect] at hrest
      rw [← hrest]
      rcases value with _ | bytes
      · -- a place that clears the row does not find it set here
        obtain ⟨other, hother, hold, hchanged⟩ := hpairs.clears key heffect
        rcases hapart other hother with ⟨-, hsame⟩ | hapart
        · rw [hchanged] at hsame
          cases hsame
        · exact (IndexValue.lastRow_rows_of_not_mem (hapart key hold).1).symm
      · rfl
  · intro key hclear
    rw [effectOf_append] at hclear
    rcases heffect : effectOf calls' key with _ | value
    · rw [heffect] at hclear
      refine ⟨pair, mem_cons_self, hpair.clears key hclear, ?_⟩
      rcases heq : pair.1.eq pair.2 with _ | _
      · rfl
      · rw [hpair.same heq] at hclear
        cases hclear
    · rw [heffect] at hclear
      obtain ⟨other, hother, hkey⟩ := hpairs.clears key (heffect.trans hclear)
      exact ⟨other, mem_cons_of_mem _ hother, hkey⟩
  · intro key hnone hrow
    rw [effectOf_append] at hnone
    rcases heffect : effectOf calls' key with _ | value
    · rw [heffect] at hnone
      rw [map_cons, lastRow_rowsOf_cons] at hrow
      by_cases hrest : lastRow (rowsOf (pairs.map snd)) key = none
      · rw [hrest] at hrow
        have hnew : lastRow pair.2.rows key ≠ none := hrow
        have hold : lastRow pair.1.rows key ≠ none := by
          have hsame := hpair.row key
          rw [show effectOf calls key = none from hnone] at hsame
          rw [← hsame] at hnew
          exact hnew
        refine ⟨pair, mem_cons_self, ?_, ?_⟩
        · by_contra hkey
          exact hold (IndexValue.lastRow_rows_of_not_mem hkey)
        · by_contra hkey
          exact hnew (IndexValue.lastRow_rows_of_not_mem hkey)
      · obtain ⟨other, hother, hkey⟩ := hpairs.keeps key heffect hrest
        exact ⟨other, mem_cons_of_mem _ hother, hkey⟩
    · rw [heffect] at hnone
      cases hnone
  · intro counter
    rw [total_append, hpair.counted, hpairs.counted]
    split
    · rw [map_cons, map_cons, usedBy, usedBy]
      grind
    · rfl

/-- All pairs can be merged, and none changes the rows of another. -/
theorem exists_mapM_updateIndex (hmergeable : ∀ pair ∈ pairs, pair.1.mergeable pair.2 = true)
    (hapart : pairs.Pairwise Apart) :
    ∃ merged, pairs.mapM (fun pair => updateIndex env pair.1 pair.2) = some merged ∧
      MergedAll env pairs merged.flatten := by
  induction pairs with
  | nil =>
    refine ⟨[], rfl, fun _ => rfl, ?_, ?_, ?_⟩
    · intro key hclear
      cases hclear
    · intro key _ hrow
      exact absurd rfl hrow
    · intro counter
      split
      · exact (Int64.sub_self _).symm
      · rfl
  | cons pair pairs ih =>
    rw [forall_mem_cons] at hmergeable
    rw [pairwise_cons] at hapart
    obtain ⟨calls, hcalls, hpair⟩ := exists_updateIndex env hmergeable.1
    obtain ⟨merged, hmerged, hpairs⟩ := ih hmergeable.2 hapart.2
    refine ⟨calls :: merged, ?_, ?_⟩
    · rw [mapM_cons, hcalls, hmerged]
      rfl
    · exact .cons hpair hpairs hapart.1

/-! ## Versions -/

/-- The derived data is that of the values, for a tenant. -/
structure Derives (tenantId : Option UInt32) (values : List (IndexValue P)) (derived : Derived P) :
    Prop where
  rows : ∀ key, derived.rows.get key = lastRow (rowsOf values) key
  counters : ∀ counter, derived.counters counter =
    if counter.isFor tenantId then usedBy values else 0

theorem Derives.same {derived derived' : Derived P} (h : Derives tenantId values derived)
    (h' : Derives tenantId values derived') : derived.Same derived' :=
  ⟨fun key => (h.rows key).trans (h'.rows key).symm,
    fun counter => (h.counters counter).trans (h'.counters counter).symm⟩

theorem get_write (derived : Derived P) (calls : Calls P) (key : DerivedKey P) :
    (derived.write calls).rows.get key = (effectOf calls key).getD (derived.rows.get key) := by
  have hassert : ∀ op ∈ calls.filterMap rowOp, op.isAssert = false := by
    intro op hop
    obtain ⟨call, -, hcall⟩ := mem_filterMap.mp hop
    exact isAssert_of_rowOp hcall
  obtain ⟨rows, hrows⟩ := exists_writeBatch hassert derived.rows
  rw [Derived.write, hrows]
  exact get_writeBatch hrows key

omit [DecidableEq P] in
/-- The archive is not derived data. -/
theorem setArchive_eq (changes : Version P) :
    rowOp (setArchive isVersioned changes) = none ∧
      ∀ counter, added counter (setArchive isVersioned changes) = 0 := by
  rw [setArchive]
  split <;> exact ⟨rfl, fun _ => rfl⟩

/-- The calls around those for the values do nothing to the derived data. -/
theorem Derives.of_write {before after : Calls P}
    (hbefore : ∀ call ∈ before, rowOp call = none ∧ ∀ counter, added counter call = 0)
    (hafter : ∀ call ∈ after, rowOp call = none ∧ ∀ counter, added counter call = 0)
    {calls : Calls P}
    (hrows : ∀ key, (effectOf calls key).getD (derived.rows.get key) = lastRow (rowsOf values) key)
    (hcounters : ∀ counter, derived.counters counter + total counter calls =
      if counter.isFor tenantId then usedBy values else 0) :
    Derives tenantId values (derived.write (before ++ (calls ++ after))) := by
  refine ⟨?_, ?_⟩
  · intro key
    rw [get_write, ← hrows key, effectOf, effectOf, filterMap_append, filterMap_append,
      filterMap_eq_nil_iff.mpr fun call hcall => (hbefore call hcall).1,
      filterMap_eq_nil_iff.mpr fun call hcall => (hafter call hcall).1, append_nil,
      nil_append]
  · intro counter
    refine (foldl_added counter _ _).trans ?_
    rw [← hcounters counter, total_append, total_append,
      total_eq_zero fun call hcall => (hbefore call hcall).2 counter,
      total_eq_zero fun call hcall => (hafter call hcall).2 counter, Int64.zero_add,
      Int64.add_zero]

omit [DecidableEq P] in
/-- What an object uses is added when it is stored, and taken off again. -/
theorem total_flatMap_buildIndex (set : Bool) (counter : Counter) :
    total counter (values.flatMap (buildIndex env · set)) =
      if counter.isFor env.tenantId then if set then usedBy values else -usedBy values else 0 := by
  induction values with
  | nil =>
    rw [usedBy, Int64.neg_zero, ite_self, ite_self]
    rfl
  | cons item values ih =>
    rw [flatMap_cons, total_append, ih, total_buildIndex, usedBy]
    split
    · split
      · rfl
      · grind
    · rfl

/-- An object that is created has the derived data of its version. -/
theorem exists_create (env : Env) (version : Version P) :
    ∃ derived, create isVersioned env version = some derived ∧
      Derives env.tenantId version.indexValues derived := by
  refine ⟨_, rfl, Derives.of_write (forall_mem_nil _)
    (forall_mem_singleton.mpr (setArchive_eq isVersioned version)) ?_ ?_⟩
  · intro key
    rw [effectOf, filterMap_flatMap, rowsOf]
    simp only [filterMap_buildIndex, if_true]
    rw [← map_flatMap, effect_map_rows]
    rcases lastRow (version.indexValues.flatMap IndexValue.rows) key <;> rfl
  · intro counter
    rw [total_flatMap_buildIndex]
    exact Int64.zero_add _

omit [DecidableEq P] in
/-- A neutral rest of the values gives nothing. -/
theorem neutral_append {rest : List (IndexValue P)} (h : ∀ item ∈ rest, item.isNeutral = true) :
    rowsOf (values ++ rest) = rowsOf values ∧ usedBy (values ++ rest) = usedBy values := by
  constructor
  · rw [rowsOf, flatMap_append, ← rowsOf, append_right_eq_self, flatMap_eq_nil_iff]
    exact fun item hitem => isEmpty_iff.mp (of_decide_eq_true (h item hitem)).1
  · induction values with
    | nil =>
      induction rest with
      | nil => rfl
      | cons item rest ih =>
        rw [forall_mem_cons] at h
        rw [← ih h.2, nil_append, usedBy, (of_decide_eq_true h.1).2, Int64.zero_add]
        rfl
    | cons first values ih => rw [cons_append, usedBy, usedBy, ih]

/-- The first list in two parts: what goes together with the second, and what is behind. -/
theorem map_fst_zip_append_drop {α β : Type} (as : List α) (bs : List β) :
    (as.zip bs).map fst ++ as.drop bs.length = as := by
  induction as generalizing bs with
  | nil => rw [drop_nil]; rfl
  | cons a as ih =>
    rcases bs with _ | ⟨b, bs⟩
    · rfl
    · rw [zip_cons_cons, map_cons, length_cons, drop_succ_cons, cons_append, ih]

theorem map_snd_zip_append_drop {α β : Type} (as : List α) (bs : List β) :
    (as.zip bs).map snd ++ bs.drop as.length = bs := by
  have hswap : (as.zip bs).map snd = (bs.zip as).map fst := by
    rw [← zip_swap, List.map_map]
    rfl
  rw [hswap, map_fst_zip_append_drop]

/-- An update leaves the derived data of the new version. -/
theorem Derives.exists_update (h : Derives tenantId current.indexValues derived)
    (isVersioned : Bool) {update : Update P} (htenant : update.env.tenantId = tenantId)
    (hcompatible : Compatible current.indexValues update.version.indexValues) :
    ∃ calls, build isVersioned update.env (some ⟨update.read, current⟩) (some update.version) =
        some calls ∧
      Derives tenantId update.version.indexValues (derived.write calls) := by
  obtain ⟨merged, hmerged, hall⟩ :=
    exists_mapM_updateIndex update.env hcompatible.mergeable hcompatible.apart
  -- items that only one version has are left out by the code, and derive nothing
  obtain ⟨hrows, hused⟩ := neutral_append hcompatible.oldRest
  obtain ⟨hrows', hused'⟩ := neutral_append hcompatible.newRest
  rw [map_fst_zip_append_drop] at hrows hused
  rw [map_snd_zip_append_drop] at hrows' hused'
  refine ⟨[.value (.assertValue .archive (.archive update.read))] ++
    (merged.flatten ++ [setArchive isVersioned update.version]), ?_,
    Derives.of_write (forall_mem_singleton.mpr ⟨rfl, fun _ => rfl⟩)
      (forall_mem_singleton.mpr (setArchive_eq isVersioned update.version)) ?_ ?_⟩
  · rw [build, hmerged]
    rfl
  · intro key
    rw [h.rows, hrows, hrows']
    exact hall.row key
  · intro counter
    rw [h.counters, hall.counted, htenant, hused]
    split
    · grind
    · rfl

/-- Nothing is left of an object that is deleted. -/
theorem Derives.exists_delete (h : Derives tenantId current.indexValues derived)
    (isVersioned : Bool) {env : Env} (htenant : env.tenantId = tenantId) (read : ArchiveVersion) :
    ∃ derived', delete isVersioned env read current derived = some derived' ∧
      derived'.Same Derived.empty := by
  refine ⟨_, rfl, @Derives.same _ _ tenantId [] _ _
    (Derives.of_write (show ∀ call ∈ [_], _ from forall_mem_singleton.mpr ⟨rfl, fun _ => rfl⟩)
      (forall_mem_singleton.mpr ⟨rfl, fun _ => rfl⟩) ?_ ?_)
      ⟨fun _ => rfl, fun _ => (ite_self _).symm⟩⟩
  · intro key
    -- every row of the object is cleared, and nothing is set
    have heffect : effectOf (current.indexValues.flatMap (buildIndex env · false)) key =
        if key ∈ (rowsOf current.indexValues).map fst then some none else none := by
      rw [effectOf, filterMap_flatMap]
      simp only [filterMap_buildIndex, Bool.false_eq_true, if_false]
      rw [← map_flatMap, effect_map_clear, rowsOf, map_flatMap]
    rw [heffect, h.rows]
    split
    · rfl
    · rename_i hmem
      exact lastRow_eq_none_iff.mpr hmem
  · intro counter
    rw [h.counters, total_flatMap_buildIndex, htenant]
    split
    · exact Int64.add_right_neg _
    · rfl

/-! ## Histories -/

/-- The updates are for one tenant, and can be made place by place. -/
def Consistent (tenantId : Option UInt32) : Version P → List (Update P) → Prop
  | _, [] => True
  | current, update :: rest =>
    update.env.tenantId = tenantId ∧
      Compatible current.indexValues update.version.indexValues ∧
      Consistent tenantId update.version rest

/-- A run: after the updates the derived data is that of the last version. -/
theorem Derives.exists_updates (h : Derives tenantId current.indexValues derived)
    (isVersioned : Bool) {rest : List (Update P)} (hrest : Consistent tenantId current rest) :
    ∃ derived', updates isVersioned derived current rest = some derived' ∧
      Derives tenantId (lastVersion current rest).indexValues derived' := by
  induction rest generalizing current derived with
  | nil => exact ⟨derived, rfl, h⟩
  | cons update rest ih =>
    obtain ⟨htenant, hcompatible, hrest⟩ := hrest
    obtain ⟨calls, hcalls, hderives⟩ := h.exists_update isVersioned htenant hcompatible
    obtain ⟨derived', hupdates, hderives'⟩ := ih hderives hrest
    refine ⟨derived', ?_, ?_⟩
    · rw [updates, hcalls]
      exact hupdates
    · have hlast : lastVersion current (update :: rest) = lastVersion update.version rest := by
        rw [lastVersion, lastVersion, getLast?_cons]
        rcases rest.getLast? with _ | _ <;> rfl
      rwa [hlast]

/-- After a history the derived data is that of the last version, and after the deletion there is
    none. -/
theorem history_same (isVersioned : Bool) (env : Env) (version : Version P)
    (rest : List (Update P)) (h : Consistent env.tenantId version rest) :
    ∃ derived fresh, history isVersioned env version rest = some derived ∧
      create isVersioned env (lastVersion version rest) = some fresh ∧ derived.Same fresh ∧
      ∀ env' : Env, env'.tenantId = env.tenantId → ∀ read, ∃ derived',
        delete isVersioned env' read (lastVersion version rest) derived = some derived' ∧
          derived'.Same Derived.empty := by
  obtain ⟨created, hcreated, hderives⟩ := exists_create isVersioned env version
  obtain ⟨derived, hupdates, hderives'⟩ := hderives.exists_updates isVersioned h
  obtain ⟨fresh, hfresh, hderives''⟩ := exists_create isVersioned env (lastVersion version rest)
  refine ⟨derived, fresh, ?_, hfresh, hderives'.same hderives'', ?_⟩
  · rw [history, hcreated]
    exact hupdates
  · intro env' htenant read
    exact hderives'.exists_delete isVersioned htenant read

/-- A file node of an account that has no tenant. -/
def fileEnv : Env where
  accountId := 1
  collection := 12
  documentId := 3
  changedBy := 1
  tenantId := none
  notificationId := 0
  taskId := 0
  due := 0
  pickle := fun _ => []
  taskClass := []

/-- A version of a file or of a folder. -/
def FileNode.version (self : FileNode) : Version UInt8 := ⟨self.indexValues, [], 0⟩

/-- The contents of a file are replaced. -/
theorem history_same_contents :
    ∃ derived fresh,
      history true fileEnv (FileNode.version ⟨[], 400, some [1]⟩)
          [⟨fileEnv, .versioned 5 7, FileNode.version ⟨[], 320, some [2]⟩⟩] = some derived ∧
        create true fileEnv (lastVersion (FileNode.version ⟨[], 400, some [1]⟩)
          [⟨fileEnv, .versioned 5 7, FileNode.version ⟨[], 320, some [2]⟩⟩]) = some fresh ∧
        derived.Same fresh ∧
        ∀ env' : Env, env'.tenantId = fileEnv.tenantId → ∀ read, ∃ derived',
          delete true env' read (lastVersion (FileNode.version ⟨[], 400, some [1]⟩)
            [⟨fileEnv, .versioned 5 7, FileNode.version ⟨[], 320, some [2]⟩⟩]) derived = some derived' ∧
            derived'.Same Derived.empty :=
  history_same true fileEnv (FileNode.version ⟨[], 400, some [1]⟩)
    [⟨fileEnv, .versioned 5 7, FileNode.version ⟨[], 320, some [2]⟩⟩]
    ⟨rfl, ⟨by decide, by decide, by decide, by decide⟩, trivial⟩

/-- A folder gets contents: they are counted, but not linked to, as if the file had been created
    with them. -/
theorem history_folderToFile :
    ∃ derived fresh,
      history true fileEnv (FileNode.version ⟨[], 300, none⟩)
          [⟨fileEnv, .versioned 5 7, FileNode.version ⟨[], 320, some [2]⟩⟩] = some derived ∧
        create true fileEnv (FileNode.version ⟨[], 320, some [2]⟩) = some fresh ∧
        derived.counters .quota = 320 ∧ fresh.counters .quota = 320 ∧
        derived.rows.get (.blobLink [2]) = none ∧ fresh.rows.get (.blobLink [2]) = some [] :=
  ⟨_, _, rfl, rfl, rfl, rfl, rfl, rfl⟩

end Inworkspace.Storage
