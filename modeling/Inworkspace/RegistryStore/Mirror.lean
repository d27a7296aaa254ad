import Inworkspace.RegistryStore.Replaced

/-!
# The index mirrors the objects

The keys of the index are those of the entries of the stored objects, in every state that
writes lead to (`Mirrors`).
-/

namespace Inworkspace.RegistryStore

open Option RegistryStore.Registry

variable (st : Registry)

/-- A stored object has an entry with the key and the value. -/
def Derived (c : RegistryClass) (v : Value) : Prop :=
  ∃ id object key, st.getObject id = some object ∧ key ∈ object.index ∧
    key.registryClass id = c ∧ key.value id = v

/-- The keys of the index are those of the entries of the stored objects. -/
def Mirrors : Prop :=
  ∀ c : RegistryClass, c.isEntry = true → ∀ v, st.get c = some v ↔ Derived st c v

/-- The unique entries of each stored object have different keys. -/
def Apart : Prop :=
  ∀ id, ∀ key ∈ indexOf (st.getObject id), key.isUnique = true →
    ∀ key' ∈ indexOf (st.getObject id),
      key.registryClass id = key'.registryClass id → key = key'

/-- No dropped entry has the key of an entry the object has afterwards; the write itself looks at
    unique ones. -/
def Separate (id : ObjectId) (old new : List IndexKey) : Prop :=
  ∀ key ∈ old, key ∉ new → ∀ key' ∈ new, key'.isUnique = false →
    key.registryClass id ≠ key'.registryClass id

section Replaced

variable {st} {st' : Registry} {id : ObjectId} {new : Option Object}

variable {key : IndexKey}

/-- The derived entries, by owner. -/
theorem derived_iff {c : RegistryClass} {v : Value} :
    Derived st c v ↔ ∃ id, ∃ key ∈ indexOf (st.getObject id),
      key.registryClass id = c ∧ key.value id = v := by
  constructor
  · rintro ⟨id, object, key, hobject, hkey, h⟩
    exact ⟨id, key, by rwa [hobject], h⟩
  · rintro ⟨id, key, hkey, h⟩
    cases hobject : st.getObject id with
    | none =>
      rw [hobject] at hkey
      cases hkey
    | some object =>
      rw [hobject] at hkey
      exact ⟨id, object, key, hobject, hkey, h⟩

theorem Mirrors.get_of_mem (h : Mirrors st) (hkey : key ∈ indexOf (st.getObject id)) :
    st.get (key.registryClass id) = some (key.value id) :=
  (h _ key.isEntry_registryClass _).mpr (derived_iff.mpr ⟨id, key, hkey, rfl, rfl⟩)

theorem Mirrors.keyExists (h : Mirrors st) {object : Object}
    (hobject : st.getObject id = some object) (hkey : key ∈ object.index) :
    st.keyExists (key.registryClass id) = true := by
  rw [Registry.keyExists, h.get_of_mem (by rwa [hobject])]
  rfl

/-- A key that two objects have is of a unique entry, so only one of them is stored. -/
theorem Mirrors.owner_eq (h : Mirrors st) {id id' : ObjectId} {key' : IndexKey}
    (hkey : key ∈ indexOf (st.getObject id)) (hkey' : key' ∈ indexOf (st.getObject id'))
    (heq : key.registryClass id = key'.registryClass id') : id = id' := by
  by_contra hne
  obtain ⟨hunique, -⟩ := IndexKey.isUnique_of_registryClass_eq heq hne
  have hvalue : some (key.value id) = some (key'.value id') := by
    rw [← h.get_of_mem hkey, ← h.get_of_mem hkey', heq]
  exact hne (IndexKey.owner_eq_of_value hunique (some.inj hvalue))

section

variable (h : Replaced st st' id new)

include h

/-- A dropped entry does not have the key of one that is there afterwards. -/
theorem Replaced.ne_of_dropped (hmirrors : Mirrors st) (hapart : Apart st)
    (hseparate : Separate id (indexOf (st.getObject id)) (indexOf new)) {key' : IndexKey}
    (hkey : key ∈ indexOf (st.getObject id)) (hdropped : key ∉ indexOf new)
    (hkey' : key' ∈ indexOf new) : key.registryClass id ≠ key'.registryClass id := by
  intro heq
  cases hunique : key'.isUnique with
  | false => exact hseparate key hkey hdropped key' hkey' hunique heq
  | true =>
    by_cases hold : key' ∈ indexOf (st.getObject id)
    · obtain rfl := hapart id key' hold hunique key hkey heq.symm
      exact hdropped hkey'
    · have hvacant := h.vacant key' hkey' hold hunique
      rw [← heq, hmirrors.get_of_mem hkey] at hvacant
      cases hvacant

/-- The entries of the object change with it, and the others stay. -/
theorem Replaced.mirrors (hmirrors : Mirrors st) (hapart : Apart st)
    (hseparate : Separate id (indexOf (st.getObject id)) (indexOf new)) : Mirrors st' := by
  intro c hc v
  rw [h.get_entry c hc, derived_iff]
  split_ifs with hcleared hset
  · -- the key is free, and no entry wants it
    refine iff_of_false (by simp) ?_
    rintro ⟨id', key', hkey', heq, -⟩
    obtain ⟨key, hkey, hdropped, rfl⟩ := mem_changedKeys.mp hcleared
    rw [h.getObject] at hkey'
    split_ifs at hkey' with hid
    · subst hid
      exact h.ne_of_dropped hmirrors hapart hseparate hkey hdropped hkey' heq.symm
    · exact hid (hmirrors.owner_eq hkey hkey' heq.symm).symm
  · obtain ⟨key, hkey, hadded, rfl⟩ := mem_changedKeys.mp hset
    rw [← key.value_eq, some.injEq]
    constructor
    · rintro rfl
      exact ⟨id, key, by rwa [h.getObject, if_pos rfl], rfl, rfl⟩
    · rintro ⟨id', key', hkey', heq, rfl⟩
      rw [h.getObject] at hkey'
      split_ifs at hkey' with hid
      · rw [hid, key'.value_eq, key.value_eq, ← heq, hid]
      -- the key was not free
      obtain ⟨-, hunique⟩ := IndexKey.isUnique_of_registryClass_eq heq hid
      have hvacant := h.vacant key hkey hadded hunique
      rw [← heq, hmirrors.get_of_mem hkey'] at hvacant
      cases hvacant
  · -- the entries with the key are what they were
    rw [hmirrors c hc, derived_iff]
    refine exists_congr fun id' => exists_congr fun key => and_congr_left ?_
    rintro ⟨rfl, -⟩
    rw [h.getObject]
    split_ifs with hid
    · subst hid
      constructor
      · intro hkey
        by_contra hdropped
        exact hcleared (mem_changedKeys.mpr ⟨key, hkey, hdropped, rfl⟩)
      · intro hkey
        by_contra hadded
        exact hset (mem_changedKeys.mpr ⟨key, hkey, hadded, rfl⟩)
    · rfl

/-- A change keeps the unique entries of an object apart. -/
theorem Replaced.keeps_apart (hmirrors : Mirrors st) (hapart : Apart st) : Apart st' := by
  intro id' key hkey hunique key' hkey' heq
  rw [h.getObject] at hkey hkey'
  split_ifs at hkey hkey' with hid
  · subst hid
    have hunique' := IndexKey.isUnique_congr heq ▸ hunique
    by_cases hold : key ∈ indexOf (st.getObject id')
    · by_cases hold' : key' ∈ indexOf (st.getObject id')
      · exact hapart id' key hold hunique key' hold' heq
      · have hvacant := h.vacant key' hkey' hold' hunique'
        rw [← heq, hmirrors.get_of_mem hold] at hvacant
        cases hvacant
    · by_cases hold' : key' ∈ indexOf (st.getObject id')
      · have hvacant := h.vacant key hkey hold hunique
        rw [heq, hmirrors.get_of_mem hold'] at hvacant
        cases hvacant
      · exact h.apart key hkey hold hunique key' hkey' hold' heq
  · exact hapart id' key hkey hunique key' hkey' heq

end

end Replaced

/-! ## Runs -/

/-- The states that `Allowed` writes lead to from an empty registry. Insertions get ids not in
    use. -/
inductive Run (schema : Schema) (Allowed : Registry → Write → Prop) : Registry → Prop
  | empty : Run schema Allowed .empty
  | write {st : Registry} (generated : Id) (w : Write) (run : Run schema Allowed st)
      (fresh : Fresh schema generated w st) (allowed : Allowed st w) :
      Run schema Allowed (write schema generated w st).2

/-- An update drops no entry whose key it still needs. -/
def SeparateUpdate : Write → Prop
  | .update object id oldObject =>
    Separate ⟨object.objectType, id⟩ oldObject.index object.index
  | _ => True

/-- What holds in all states that writes lead to. -/
structure Consistent (schema : Schema) (st : Registry) : Prop where
  mirrors : Mirrors st
  apart : Apart st
  objectType_eq : ∀ id object, st.getObject id = some object → object.objectType = id.object
  stored : ∀ id, st.keyExists (.indexId id) = true → (st.getObject id).isSome = true
  indexed : ∀ id, (st.getObject id).isSome = true →
    (schema.flags id.object).singleton = false → st.keyExists (.indexId id) = true

section Consistent

variable {schema : Schema} {st} {st' : Registry}

theorem Consistent.empty : Consistent schema .empty := by
  refine ⟨fun c hc v => iff_of_false nofun ?_, fun _ _ hkey => absurd hkey List.not_mem_nil,
    nofun, fun _ h => absurd h Bool.false_ne_true, fun _ h => absurd h Bool.false_ne_true⟩
  rintro ⟨id, object, key, hobject, -⟩
  cases hobject

/-- The counters of ids do not matter. -/
theorem Consistent.of_sameObjects (h : Consistent schema st) (hsame : SameObjects st st') :
    Consistent schema st' := by
  have hobject := hsame.getObject
  have hid (id) : st'.keyExists (.indexId id) = st.keyExists (.indexId id) := by
    rw [keyExists, hsame (.indexId id) (by simp), keyExists]
  refine ⟨fun c hc v => ?_, fun id => ?_, fun id => ?_, fun id => ?_, fun id => ?_⟩
  · rw [hsame.get_entry hc, h.mirrors c hc, derived_iff, derived_iff]
    simp only [hobject]
  · rw [hobject]
    exact h.apart id
  · rw [hobject]
    exact h.objectType_eq id
  · rw [hobject, hid]
    exact h.stored id
  · rw [hobject, hid]
    exact h.indexed id

/-- An object is replaced, with its entries. -/
theorem Consistent.of_replaced (h : Consistent schema st) {id : ObjectId} {new : Option Object}
    (hreplaced : Replaced st st' id new)
    (hseparate : Separate id (indexOf (st.getObject id)) (indexOf new))
    (htype : ∀ object, new = some object → object.objectType = id.object)
    (hother : ∀ id', id' ≠ id → st'.keyExists (.indexId id') = st.keyExists (.indexId id'))
    (hstored : st'.keyExists (.indexId id) = true → new.isSome = true)
    (hindexed : new.isSome = true → (schema.flags id.object).singleton = false →
      st'.keyExists (.indexId id) = true) : Consistent schema st' := by
  refine ⟨hreplaced.mirrors h.mirrors h.apart hseparate, hreplaced.keeps_apart h.mirrors h.apart,
    fun id' => ?_, fun id' => ?_, fun id' => ?_⟩ <;> rw [hreplaced.getObject] <;> split_ifs with hid
  · exact hid ▸ htype
  · exact h.objectType_eq id'
  · exact hid ▸ hstored
  · rw [hother id' hid]
    exact h.stored id'
  · exact hid ▸ hindexed
  · rw [hother id' hid]
    exact h.indexed id'

variable {generated : Id} {w : Write} {change : Change}

/-- An object that is not a singleton is listed under its id. -/
theorem Write.writeId_of_change (h : w.change schema generated = some change)
    (hflag : (schema.flags change.object.objectType).singleton = false) :
    change.writeId = true := by
  cases w with
  | insert object id =>
    obtain rfl := some.inj h
    change (schema.flags object.objectType).singleton = false at hflag
    cases id with
    | some id => rfl
    | none =>
      simp only [Schema.insertion, hflag, Bool.false_eq_true, if_false]
      split <;> rfl
  | update object id oldObject =>
    obtain rfl := some.inj h
    rfl
  | delete objectId object allowedOrphanTypes => cases h

/-- A change is an update of the object that was there, or there was none. -/
theorem Write.separate_of_change {id : Id} (h : w.change schema generated = some change)
    (hid : change.generateId = false → id = change.itemId) (hseparate : SeparateUpdate w) :
    Separate ⟨change.object.objectType, id⟩ (indexOf change.oldObject)
      (indexOf (some change.object)) := by
  cases w with
  | insert object id =>
    obtain rfl := some.inj h
    exact fun _ hkey => absurd hkey List.not_mem_nil
  | update object id' oldObject =>
    obtain rfl := some.inj h
    obtain rfl : id = id' := hid rfl
    exact hseparate
  | delete objectId object allowedOrphanTypes => cases h

theorem Consistent.of_stored (h : Consistent schema st) {id : Id}
    (hchange : w.change schema generated = some change) (hstored : Stored schema change id st st')
    (hseparate : SeparateUpdate w) : Consistent schema st' := by
  refine h.of_replaced hstored.replaced ?_ ?_ (fun id' hid => ?_) (fun _ => rfl) fun _ hflag => ?_
  · rw [hstored.old]
    exact Write.separate_of_change hchange hstored.id_eq hseparate
  · rintro object hobject
    rw [some.inj hobject]
  · rw [keyExists, hstored.get_indexId, if_neg fun h => hid h.2, keyExists]
  · rw [keyExists, hstored.get_indexId, if_pos ⟨Write.writeId_of_change hchange hflag, rfl⟩]
    rfl

theorem Consistent.of_deleted (h : Consistent schema st) {id : ObjectId}
    {allowedOrphanTypes : List ObjectType} (hdeleted : Deleted schema id allowedOrphanTypes st st') :
    Consistent schema st' := by
  refine h.of_replaced hdeleted.replaced
    (fun _ _ _ _ hkey' => absurd hkey' List.not_mem_nil) (fun _ h => nomatch h)
    (fun id' hid => ?_) (fun hkey => ?_) (fun h => absurd h Bool.false_ne_true)
  · rw [keyExists, hdeleted.get_indexId, if_neg hid, keyExists]
  · rw [keyExists, hdeleted.get_indexId, if_pos rfl] at hkey
    cases hkey

theorem Consistent.of_write (h : Consistent schema st) (hfresh : Fresh schema generated w st)
    (hseparate : SeparateUpdate w) : Consistent schema (write schema generated w st).2 := by
  rcases write_cases hfresh with hsame | ⟨change, id, hchange, hstored⟩ |
    ⟨id, object, allowedOrphanTypes, -, hdeleted⟩
  · exact h.of_sameObjects hsame
  · exact h.of_stored hchange hstored hseparate
  · exact h.of_deleted hdeleted

theorem Run.consistent {Allowed : Registry → Write → Prop}
    (hallowed : ∀ st w, Allowed st w → SeparateUpdate w) (h : Run schema Allowed st) :
    Consistent schema st := by
  induction h with
  | empty => exact .empty
  | write generated w run fresh allowed ih => exact ih.of_write fresh (hallowed _ _ allowed)

end Consistent

end Inworkspace.RegistryStore
