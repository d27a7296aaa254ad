import Inworkspace.RegistryStore.Write
import Mathlib.Data.List.Pairwise

/-!
# What a write leaves

An accepted write puts an object in the place of what there was under its id, or removes it,
and of its entries sets those that are new and clears those that are gone (`Replaced`).
`write_cases` says of every write that it does this for one object or changes none, and what
has been checked before.
-/

namespace Inworkspace.RegistryStore

open Lib.Batch List RegistryStore.Registry Option

/-! ## Batches -/

section Batches

variable {owner : ObjectId} (keys : List IndexKey) (c : RegistryClass) {st st' : Registry}

theorem effect_setKey (key : IndexKey) (c : RegistryClass) :
    effect (setKey owner key) c =
      if c = key.registryClass owner then some (some (c.entryValue owner)) else none := by
  have hassert : effect (if key.isUnique = true then
      [Op.assertValue (key.registryClass owner) isVacant] else []) c = none := by
    split <;> rfl
  rw [setKey, effect_append, hassert, effect, effect, key.value_eq]
  by_cases hc : c = key.registryClass owner
  · simp [hc]
  · simp [hc]

/-- Setting keys has an effect on these keys alone. -/
theorem effect_setKeys :
    effect (setKeys owner keys) c =
      if c ∈ keys.map (·.registryClass owner) then some (some (c.entryValue owner)) else none := by
  induction keys with
  | nil => rfl
  | cons key keys ih =>
    rw [setKeys, flatMap_cons, effect_append, effect_setKey]
    rw [setKeys] at ih
    rw [ih, map_cons]
    by_cases hmem : c ∈ keys.map (·.registryClass owner)
    · simp only [hmem, mem_cons, or_true]
      rfl
    by_cases hc : c = key.registryClass owner
    · rw [if_neg hmem, if_pos hc, if_pos (mem_cons.mpr (.inl hc))]
      rfl
    · simp only [hmem, hc, mem_cons]
      rfl

theorem effect_clearKeys :
    effect (clearKeys owner keys) c =
      if c ∈ keys.map (·.registryClass owner) then some none else none :=
  effect_map_clear _ c

theorem not_mem_of_not_isEntry (owner : ObjectId) {c : RegistryClass} (h : c.isEntry = false)
    (keys : List IndexKey) : c ∉ keys.map (·.registryClass owner) := by
  intro hmem
  obtain ⟨key, -, rfl⟩ := mem_map.mp hmem
  rw [key.isEntry_registryClass] at h
  cases h

/-- Unique entries are set only where there was none, each under its own key. -/
theorem vacant_of_writeBatch {keys : List IndexKey} {rest : List (Op RegistryClass Value)}
    (h : writeBatch (setKeys owner keys ++ rest) st = some st') :
    (∀ key ∈ keys, key.isUnique = true → st.get (key.registryClass owner) = none) ∧
      keys.Pairwise fun key key' =>
        key'.isUnique = true → key.registryClass owner ≠ key'.registryClass owner := by
  induction keys generalizing st with
  | nil => exact ⟨nofun, .nil⟩
  | cons first keys ih =>
    rw [setKeys, flatMap_cons, append_assoc, writeBatch_append] at h
    obtain ⟨st₁, hfirst, h⟩ := bind_eq_some_iff.mp h
    have hset : (st₁.get (first.registryClass owner)).isSome = true := by
      rw [get_writeBatch hfirst, effect_setKey, if_pos rfl]
      rfl
    obtain ⟨hrest, hpair⟩ := ih h
    refine ⟨fun key hkey hunique => ?_, pairwise_cons.mpr ⟨fun key hkey hunique heq => ?_, hpair⟩⟩
    · rcases mem_cons.mp hkey with rfl | hkey
      · rw [setKey, if_pos hunique] at hfirst
        exact isNone_iff_eq_none.mp (writeBatch_assertValue hfirst).1
      -- what is vacant after the first entry is set was so before
      have hget := get_writeBatch hfirst (key.registryClass owner)
      rw [hrest key hkey hunique, effect_setKey] at hget
      split at hget
      · cases hget
      · exact hget.symm
    · rw [heq, hrest key hkey hunique] at hset
      cases hset

end Batches

/-- The entries of the index of an object, if there is one. -/
def indexOf : Option Object → List IndexKey
  | some object => object.index
  | none => []

/-- The keys of the entries that are in one index and not in another. -/
def changedKeys (owner : ObjectId) (index other : List IndexKey) : List RegistryClass :=
  (index.filter (· ∉ other)).map (·.registryClass owner)

theorem mem_changedKeys {owner : ObjectId} {index other : List IndexKey} {c : RegistryClass} :
    c ∈ changedKeys owner index other ↔
      ∃ key ∈ index, key ∉ other ∧ key.registryClass owner = c := by
  simp [changedKeys, and_assoc]

/-- An object is stored or removed in the place of what there was, and its changed entries are set
    and cleared. New unique entries take keys that nothing had. -/
structure Replaced (st st' : Registry) (id : ObjectId) (new : Option Object) : Prop where
  getObject : ∀ id', st'.getObject id' = if id' = id then new else st.getObject id'
  get_entry : ∀ c : RegistryClass, c.isEntry = true → st'.get c =
    if c ∈ changedKeys id (indexOf (st.getObject id)) (indexOf new) then none
    else if c ∈ changedKeys id (indexOf new) (indexOf (st.getObject id)) then
      some (c.entryValue id)
    else st.get c
  vacant : ∀ key ∈ indexOf new, key ∉ indexOf (st.getObject id) → key.isUnique = true →
    st.get (key.registryClass id) = none
  apart : ∀ key ∈ indexOf new, key ∉ indexOf (st.getObject id) → key.isUnique = true →
    ∀ key' ∈ indexOf new, key' ∉ indexOf (st.getObject id) →
      key.registryClass id = key'.registryClass id → key = key'

/-- Nothing but the counters has changed. -/
def SameObjects (st st' : Registry) : Prop :=
  ∀ c : RegistryClass, (∀ type, c ≠ .idCounter type) → st'.get c = st.get c

theorem SameObjects.refl (st : Registry) : SameObjects st st := fun _ _ => rfl

variable {st st' : Registry} (schema : Schema) {id : ObjectId} (generated : Id)

theorem SameObjects.getObject (h : SameObjects st st') (id : ObjectId) :
    st'.getObject id = st.getObject id := by
  rw [Registry.getObject, h (.item id) nofun, Registry.getObject]

theorem Registry.getObject_eq_some {object : Object} :
    st.getObject id = some object ↔ st.get (.item id) = some (.object object) := by
  rw [getObject]
  split
  · rename_i stored hstored
    rw [hstored]
    simp
  · rename_i hstored
    exact iff_of_false (by simp) (hstored object)

theorem SameObjects.get_entry (h : SameObjects st st') {c : RegistryClass} (hc : c.isEntry = true) :
    st'.get c = st.get c := by
  refine h c ?_
  rintro type rfl
  cases hc

theorem Replaced.of_sameObjects {st₁ : Registry} {new : Option Object}
    (h : Replaced st₁ st' id new) (hsame : SameObjects st st₁) : Replaced st st' id new := by
  have hold := hsame.getObject id
  refine ⟨fun id' => ?_, fun c hc => ?_, fun key hkey hnew hunique => ?_, ?_⟩
  · rw [h.getObject, hsame.getObject]
  · rw [h.get_entry c hc, hold, hsame.get_entry hc]
  · rw [← hsame.get_entry key.isEntry_registryClass]
    exact h.vacant key hkey (hold ▸ hnew) hunique
  · rw [← hold]
    exact h.apart

namespace Change

/-- What comes before the entries in the batch of a change. -/
def preamble (self : Change) : List (Op RegistryClass Value) :=
  (match self.oldObject with
    | some oldObject => [.assertValue (.item self.objectId) (isObject oldObject)]
    | none => []) ++
  (if self.writeId then [.set (.indexId self.objectId) .empty] else [])

variable (self : Change) (c : RegistryClass)

theorem batch_eq : self.batch = self.preamble ++
    setKeys self.objectId self.setIndex ++ clearKeys self.objectId self.clearIndex ++
      [.set (.item self.objectId) (.object self.object)] := rfl

theorem effect_preamble :
    effect self.preamble c =
      if self.writeId = true ∧ c = .indexId self.objectId then some (some .empty) else none := by
  have hassert : effect (match self.oldObject with
      | some oldObject => [Op.assertValue (.item self.objectId) (isObject oldObject)]
      | none => []) c = none := by
    split <;> rfl
  rw [preamble, effect_append, hassert]
  cases self.writeId with
  | true => simp [effect]
  | false => rfl

variable {self}

/-- The entries are as they were when the first of them is set. -/
theorem get_of_preamble {st₁ : Registry} (h : writeBatch self.preamble st = some st₁)
    {c : RegistryClass} (hc : c.isEntry = true) : st₁.get c = st.get c := by
  rw [get_writeBatch h, effect_preamble, if_neg]
  · rfl
  · rintro ⟨-, rfl⟩
    cases hc

/-- What the batch of a change does, part by part. -/
theorem effect_batch :
    effect self.batch c = if c = .item self.objectId then some (some (.object self.object))
      else if c ∈ self.clearIndex.map (·.registryClass self.objectId) then some none
      else if c ∈ self.setIndex.map (·.registryClass self.objectId) then
        some (some (c.entryValue self.objectId))
      else if self.writeId = true ∧ c = .indexId self.objectId then some (some .empty)
      else none := by
  rw [batch_eq, effect_append, effect_append, effect_append, effect_setKeys,
    effect_clearKeys, effect_preamble]
  by_cases hitem : c = .item self.objectId
  · simp [effect, hitem]
  rw [effect, if_neg hitem]
  split
  · rfl
  · split <;> rfl

/-- An accepted change finds the object it replaces, and no unique entries. -/
theorem unique_of_writeBatch {st' : Registry} (h : writeBatch self.batch st = some st') :
    (∀ oldObject, self.oldObject = some oldObject → st.getObject self.objectId = some oldObject) ∧
      (∀ key ∈ self.setIndex, key.isUnique = true →
        st.get (key.registryClass self.objectId) = none) ∧
      self.setIndex.Pairwise fun key key' => key'.isUnique = true →
        key.registryClass self.objectId ≠ key'.registryClass self.objectId := by
  rw [batch_eq, append_assoc, append_assoc, writeBatch_append] at h
  obtain ⟨st₁, hst₁, h⟩ := bind_eq_some_iff.mp h
  obtain ⟨hvacant, hpair⟩ := vacant_of_writeBatch h
  refine ⟨fun oldObject hold => ?_, fun key hkey hunique => ?_, hpair⟩
  · rw [preamble, hold] at hst₁
    exact getObject_eq_some.mpr (eq_of_beq (writeBatch_assertValue hst₁).1)
  · rw [← get_of_preamble hst₁ key.isEntry_registryClass]
    exact hvacant key hkey hunique

/-- The batch of a change stores the object in the place of the one that was there. -/
theorem replaced {self : Change} {st st' : Registry} (h : writeBatch self.batch st = some st')
    (hset : self.setIndex = self.object.index.filter (· ∉ indexOf (st.getObject self.objectId)))
    (hclear : self.clearIndex =
      (indexOf (st.getObject self.objectId)).filter (· ∉ self.object.index)) :
    Replaced st st' self.objectId (some self.object) := by
  obtain ⟨-, hvacant, hpair⟩ := unique_of_writeBatch h
  have hmem {key} (hkey : key ∈ self.object.index)
      (hold : key ∉ indexOf (st.getObject self.objectId)) : key ∈ self.setIndex := by
    rw [hset, mem_filter]
    exact ⟨hkey, decide_eq_true hold⟩
  refine ⟨fun id' => ?_, fun c hc => ?_, fun key hkey hold => hvacant key (hmem hkey hold), ?_⟩
  · have hne := not_mem_of_not_isEntry self.objectId (c := .item id') rfl
    rw [getObject, get_writeBatch h, effect_batch, if_neg (hne _), if_neg (hne _)]
    by_cases hid : id' = self.objectId
    · simp [hid]
    · simp [hid, getObject]
  · have hitem : c ≠ .item self.objectId := by
      rintro rfl
      cases hc
    have hindexId : c ≠ .indexId self.objectId := by
      rintro rfl
      cases hc
    rw [get_writeBatch h, effect_batch, if_neg hitem, hset, hclear,
      if_neg (c := self.writeId = true ∧ c = .indexId self.objectId) fun h => hindexId h.2]
    rw [changedKeys, changedKeys, indexOf.eq_1 self.object]
    split
    · rfl
    · split <;> rfl
  · intro key hkey hold hunique key' hkey' hold' heq
    by_contra hne
    -- whichever of the two comes first
    have : Std.Symm fun key key' : IndexKey => key'.isUnique = true →
        key.registryClass self.objectId ≠ key'.registryClass self.objectId :=
      ⟨fun _ _ h hunique heq => h (IndexKey.isUnique_congr heq ▸ hunique) heq.symm⟩
    exact hpair.forall (hmem hkey hold) (hmem hkey' hold') hne
      (IndexKey.isUnique_congr heq ▸ hunique) heq

/-- The batch of a change sets the key of its id, and no other such key. -/
theorem get_indexId {st' : Registry} (h : writeBatch self.batch st = some st') (id : ObjectId) :
    st'.get (.indexId id) =
      if self.writeId = true ∧ id = self.objectId then some .empty else st.get (.indexId id) := by
  have hne := not_mem_of_not_isEntry self.objectId (c := .indexId id) rfl
  rw [get_writeBatch h, effect_batch, if_neg nofun, if_neg (hne _), if_neg (hne _)]
  simp only [RegistryClass.indexId.injEq]
  split <;> rfl

end Change

/-- The batch of a deletion removes the object. -/
theorem replaced_of_deletionBatch {object : Object}
    (h : writeBatch (deletionBatch id object) st = some st') :
    st.getObject id = some object ∧ Replaced st st' id none ∧
      ∀ id', st'.get (.indexId id') = if id' = id then none else st.get (.indexId id') := by
  have hstored : st.getObject id = some object :=
    getObject_eq_some.mpr (eq_of_beq (writeBatch_assertValue h).1)
  -- later operations win, and those on the entries come last
  have hget (c : RegistryClass) : st'.get c = if c ∈ object.index.map (·.registryClass id) then none
      else if c = .item id ∨ c = .indexId id then none else st.get c := by
    rw [get_writeBatch h, deletionBatch, effect_append, effect_clearKeys]
    split
    · rfl
    · by_cases hitem : c = .item id
      · simp [effect, hitem]
      · by_cases hindexId : c = .indexId id <;> simp [effect, hitem, hindexId]
  have hne (c : RegistryClass) (hc : c.isEntry = false) := not_mem_of_not_isEntry id hc object.index
  refine ⟨hstored, ⟨fun id' => ?_, fun c hc => ?_, by rintro _ ⟨⟩, by rintro _ ⟨⟩⟩, fun id' => ?_⟩
  · rw [getObject, hget, if_neg (hne _ rfl)]
    by_cases hid : id' = id
    · simp [hid]
    · simp [hid, getObject]
  · have hid : ¬ (c = .item id ∨ c = .indexId id) := by rintro (rfl | rfl) <;> cases hc
    rw [hget, hstored, if_neg hid]
    simp [changedKeys, indexOf]
  · rw [hget, if_neg (hne _ rfl)]
    simp

/-! ## Writes -/

/-- The linked objects are those with a reference key. -/
theorem mem_linkedObjects {objectId from_ : ObjectId} :
    from_ ∈ linkedObjects st objectId ↔ st.keyExists (.reference objectId from_) = true := by
  rw [linkedObjects, mem_filterMap, keyExists, ← Store.mem_keys]
  constructor
  · rintro ⟨c, hc, hfrom⟩
    split at hfrom
    · split_ifs at hfrom with hto
      obtain rfl := some.inj hfrom
      exact hto ▸ hc
    · cases hfrom
  · intro h
    exact ⟨_, h, if_pos rfl⟩

/-- The change a write asks for, unless it is a deletion. -/
def Write.change : Write → Option Change
  | .insert object id => some (schema.insertion object id generated)
  | .update object id oldObject => some (RegistryStore.update object id oldObject)
  | .delete .. => none

/-- The id an insertion ends with is not in use. -/
def Fresh (w : Write) (st : Registry) : Prop :=
  match w with
  | .insert object _ => ∀ id, (write schema generated w st).1 = some (.success id) →
    st.getObject ⟨object.objectType, id⟩ = none
  | _ => True

variable (change : Change)

/-- What an accepted insertion or update finds and leaves; `id` is the id of the object then. -/
structure Stored (id : Id) (st st' : Registry) : Prop where
  checked : ∀ key ∈ change.setIndex, checkKey schema st change key = none
  id_eq : change.generateId = false → id = change.itemId
  old : st.getObject ⟨change.object.objectType, id⟩ = change.oldObject
  replaced : Replaced st st' ⟨change.object.objectType, id⟩ (some change.object)
  get_indexId : ∀ id', st'.get (.indexId id') =
    if change.writeId = true ∧ id' = ⟨change.object.objectType, id⟩ then some .empty
    else st.get (.indexId id')

/-- What an accepted deletion has found and what it leaves. -/
structure Deleted (id : ObjectId) (allowedOrphanTypes : List ObjectType)
    (st st' : Registry) : Prop where
  not_singleton : (schema.flags id.object).singleton = false
  unlinked : ∀ from_, st.keyExists (.reference id from_) = true → from_.object ∈ allowedOrphanTypes
  replaced : Replaced st st' id none
  get_indexId : ∀ id', st'.get (.indexId id') =
    if id' = id then none else st.get (.indexId id')

/-- Only the entries that differ are written and cleared. -/
theorem Write.index_of_change {schema : Schema} {generated : Id} {w : Write} {change : Change}
    (h : w.change schema generated = some change) :
    change.setIndex = change.object.index.filter (· ∉ indexOf change.oldObject) ∧
      change.clearIndex = (indexOf change.oldObject).filter (· ∉ change.object.index) := by
  cases w with
  | insert object id =>
    obtain rfl := some.inj h
    exact ⟨by simp [Schema.insertion, indexOf], rfl⟩
  | update object id oldObject =>
    obtain rfl := some.inj h
    exact ⟨rfl, rfl⟩
  | delete objectId object allowedOrphanTypes => cases h

/-- An object still to be numbered gets a number; another one keeps its id. -/
theorem assignId_eq (st : Registry) :
    ∃ id st₁, assignId change st = ({ change with itemId := id }, st₁) ∧
      (change.generateId = false → id = change.itemId) ∧ SameObjects st st₁ := by
  rw [assignId]
  split
  · rename_i hgenerate
    refine ⟨_, _, rfl, fun h => ?_, fun c hc => ?_⟩
    · rw [hgenerate] at h
      cases h
    · exact (Store.get_set st _ _ c).trans (if_neg (hc _))
  · exact ⟨change.itemId, st, rfl, fun _ => rfl, .refl st⟩

/-- A change changes no object, or its checks have passed and its batch is written. -/
theorem writeChange_cases (st : Registry) :
    SameObjects st (writeChange schema change st).2 ∨
    ∃ id st₁, (writeChange schema change st).1 = some (.success id) ∧
      (∀ key ∈ change.setIndex, checkKey schema st change key = none) ∧
      (change.generateId = false → id = change.itemId) ∧ SameObjects st st₁ ∧
      writeBatch { change with itemId := id }.batch st₁ =
        some (writeChange schema change st).2 := by
  rw [writeChange]
  split
  · exact .inl (.refl st)
  split
  · split <;> exact .inl (.refl st)
  split
  · exact .inl (.refl st)
  rename_i hchecked
  obtain ⟨id, st₁, hassign, hid, hsame⟩ := assignId_eq change st
  simp only [hassign]
  split
  · exact .inl hsame
  rw [commit]
  split
  · rename_i st' hst'
    exact .inr ⟨id, st₁, rfl, findSome?_eq_none_iff.mp hchecked, hid, hsame, hst'⟩
  · exact .inl hsame

/-- A deletion is refused, or removes the object. -/
theorem delete_cases (objectId : ObjectId) (object : Option Object)
    (allowedOrphanTypes : List ObjectType) (st : Registry)
    (hflag : (schema.flags objectId.object).singleton = false) :
    (delete objectId object allowedOrphanTypes st).2 = st ∨
      Deleted schema objectId allowedOrphanTypes st
        (delete objectId object allowedOrphanTypes st).2 := by
  rw [delete]
  split
  · exact .inl rfl
  dsimp only
  split
  · exact .inl rfl
  rename_i hlinked
  rw [commit]
  split
  · rename_i st' hst'
    obtain ⟨-, hreplaced, hindexId⟩ := replaced_of_deletionBatch hst'
    refine .inr ⟨hflag, fun from_ hfrom => ?_, hreplaced, hindexId⟩
    by_contra hmem
    refine hlinked (ne_nil_of_mem (a := from_) (mem_filter.mpr ⟨?_, ?_⟩))
    · exact mem_linkedObjects.mpr hfrom
    · exact decide_eq_true hmem
  · exact .inl rfl

/-- An insertion or an update changes no object, or it stores its own. -/
theorem stored_of_writeChange (w : Write) {change : Change} {st : Registry}
    (h : w.change schema generated = some change) (hfresh : change.oldObject = none → ∀ id,
      (writeChange schema change st).1 = some (.success id) →
        st.getObject ⟨change.object.objectType, id⟩ = none) :
    SameObjects st (writeChange schema change st).2 ∨
      ∃ id, Stored schema change id st (writeChange schema change st).2 := by
  rcases writeChange_cases schema change st with hsame |
    ⟨id, st₁, hsucc, hchecked, hid, hsame, hbatch⟩
  · exact .inl hsame
  have hold : st.getObject ⟨change.object.objectType, id⟩ = change.oldObject := by
    cases holdObject : change.oldObject with
    | none => exact hfresh holdObject id hsucc
    | some oldObject =>
      rw [← hsame.getObject]
      exact (Change.unique_of_writeBatch hbatch).1 oldObject holdObject
  have hold₁ := (hsame.getObject ⟨change.object.objectType, id⟩).trans hold
  obtain ⟨hset, hclear⟩ := Write.index_of_change h
  have hreplaced := Change.replaced hbatch (by rw [Change.objectId, hold₁]; exact hset)
    (by rw [Change.objectId, hold₁]; exact hclear)
  refine .inr ⟨id, hchecked, hid, hold, hreplaced.of_sameObjects hsame, fun id' => ?_⟩
  rw [Change.get_indexId hbatch, hsame (.indexId id') nofun]
  rfl

/-- A write does nothing but counting, or stores an object, or deletes one. -/
theorem write_cases {schema : Schema} {generated : Id} {w : Write}
    (hfresh : Fresh schema generated w st) :
    SameObjects st (write schema generated w st).2 ∨
    (∃ change id, w.change schema generated = some change ∧
      Stored schema change id st (write schema generated w st).2) ∨
    ∃ id object allowedOrphanTypes, w = .delete id object allowedOrphanTypes ∧
      Deleted schema id allowedOrphanTypes st (write schema generated w st).2 := by
  cases w with
  | insert object id =>
    rcases stored_of_writeChange schema generated (.insert object id) rfl (fun _ => hfresh) with
      hsame | ⟨id', h⟩
    · exact .inl hsame
    · exact .inr (.inl ⟨_, id', rfl, h⟩)
  | update object id oldObject =>
    rw [write]
    split
    · exact .inl (.refl st)
    rcases stored_of_writeChange schema generated (.update object id oldObject) rfl nofun with
      hsame | ⟨id', h⟩
    · exact .inl hsame
    · exact .inr (.inl ⟨_, id', rfl, h⟩)
  | delete objectId object allowedOrphanTypes =>
    rw [write]
    split
    · exact .inl (.refl st)
    rename_i hflag
    rcases delete_cases schema objectId object allowedOrphanTypes st
      (Bool.eq_false_of_not_eq_true hflag) with hsame | h
    · rw [hsame]
      exact .inl (.refl st)
    · exact .inr (.inr ⟨objectId, object, allowedOrphanTypes, rfl, h⟩)

end Inworkspace.RegistryStore
