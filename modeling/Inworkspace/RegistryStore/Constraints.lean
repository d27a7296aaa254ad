import Inworkspace.RegistryStore.Integrity

/-!
# Constraints of the registry

A write is refused if an object it refers to is not there (`ForeignHolds`), or another object
has a unique entry of its object (`UniqueHolds`). What is looked at are the keys of the
index, and so it matters whether they tell entries apart (`KeysTell`): the two values of a
unique entry are written one after the other, without a separator, and lookup keys
that are cut in different places are in conflict (`lookupKeys_conflict`).

`index_mirrors_objects` is the result about all states that writes lead to.
-/

namespace Inworkspace.RegistryStore

open Lib.Batch List Option

/-! ## Constraints -/

/-- What an object refers to is there, has the type asked for, and is of the tenant and the account
    of the object if its type has those. -/
def ForeignHolds (schema : Schema) (st : Registry) (change : Change) : Prop :=
  ∀ foreignId typeFilter, .foreignKey foreignId typeFilter ∈ change.object.index →
    ∃ target, st.getObject foreignId = some target ∧
      (schema.flags foreignId.object).singleton = false ∧
      (typeFilter ≠ .none → .search .type typeFilter ∈ target.index) ∧
      ((schema.flags foreignId.object).filterTenant = true → ∀ tenantId,
        change.object.memberTenantId = some tenantId →
          .search .memberTenantId (.u64 tenantId) ∈ target.index) ∧
      ((schema.flags foreignId.object).filterAccount = true → ∀ accountId,
        change.accountId schema = some accountId →
          .search .accountId (.u64 accountId) ∈ target.index)

/-- No other object has a unique entry of the object; if it is not global, none of its type. -/
def UniqueHolds (st : Registry) (id : ObjectId) (object : Object) : Prop :=
  ∀ property value₁ value₂ global, .unique property value₁ value₂ global ∈ object.index →
    ∀ id' other, st.getObject id' = some other →
      .unique property value₁ value₂ global ∈ other.index →
      global = true ∨ id'.object = id.object → id' = id

/-- The keys of the unique entries of an object tell them from those of all objects, and from each
    other. -/
def KeysTell (st : Registry) (id : ObjectId) (object : Object) : Prop :=
  ∀ key ∈ object.index, key.isUnique = true →
    (∀ key' ∈ object.index, key.registryClass id = key'.registryClass id → key = key') ∧
      ∀ id' other, st.getObject id' = some other → ∀ key' ∈ other.index,
        key.registryClass id = key'.registryClass id' → key = key'

section Constraints

variable {schema : Schema} {st : Registry}

variable {object : Object} {change : Change} {key : IndexKey} {id : ObjectId}
  {existingId : ObjectId} {keys : List IndexKey} {property : Property}

section

variable (h : Consistent schema st)

include h

/-- Who has the key of a unique entry has the entry. -/
theorem Consistent.owner_of_get (htell : KeysTell st id object) (hkey : key ∈ object.index)
    (hunique : key.isUnique = true) {v : Value} (hget : st.get (key.registryClass id) = some v) :
    ∃ id' other, v = .owner id' ∧ st.getObject id' = some other ∧ key ∈ other.index ∧
      key.registryClass id' = key.registryClass id := by
  obtain ⟨id', other, key', hother, hkey', heq, rfl⟩ :=
    (h.mirrors _ key.isEntry_registryClass v).mp hget
  obtain rfl := (htell key hkey hunique).2 id' other hother key' hkey' heq.symm
  refine ⟨id', other, ?_, hother, hkey', heq⟩
  cases key with
  | unique property value₁ value₂ global => rfl
  | search property value => cases hunique
  | foreignKey foreignId typeFilter => cases hunique

/-- If its constraints hold, an object finds the keys of its unique entries free, or has them. -/
theorem Consistent.owner_eq (hholds : UniqueHolds st id object) (htell : KeysTell st id object)
    (hkey : key ∈ object.index) (hunique : key.isUnique = true) {v : Value}
    (hget : st.get (key.registryClass id) = some v) :
    v = .owner id ∧ key ∈ indexOf (st.getObject id) := by
  obtain ⟨id', other, rfl, hother, hkey', heq⟩ := h.owner_of_get htell hkey hunique hget
  have hid : id' = id := by
    cases key with
    | unique property value₁ value₂ global =>
      refine hholds property value₁ value₂ global hkey id' other hother hkey' ?_
      cases global with
      | true => exact .inl rfl
      | false => exact .inr (some.inj (RegistryClass.primaryKey.inj heq).1)
    | search property value => cases hunique
    | foreignKey foreignId typeFilter => cases hunique
  subst hid
  exact ⟨rfl, by rwa [hother]⟩

/-- A reference that holds passes its check. -/
theorem Consistent.checkKey_foreignKey (hholds : ForeignHolds schema st change)
    {foreignId : ObjectId} {typeFilter : IndexValue}
    (hkey : .foreignKey foreignId typeFilter ∈ change.object.index) :
    checkKey schema st change (.foreignKey foreignId typeFilter) = none := by
  obtain ⟨target, htarget, hflag, htype, htenant, haccount⟩ := hholds foreignId typeFilter hkey
  have hexists : st.keyExists (foreignClass foreignId typeFilter) = true := by
    rw [foreignClass]
    split_ifs with hnone
    · exact h.mirrors.keyExists htarget (htype hnone)
    · exact h.indexed foreignId (by rw [htarget]; rfl) hflag
  -- a filter that asks for an entry the target has does not refuse it
  have hfilter {filter : Bool} {property : Property} {owner : Option Id}
      (hof : filter = true → ∀ id, owner = some id → .search property (.u64 id) ∈ target.index) :
      ¬ (filter && owner.any fun id =>
        !st.keyExists (.index property foreignId (IndexValue.u64 id).serialize)) = true := by
    intro hrefused
    obtain ⟨hfilter, hany⟩ := Bool.and_eq_true_iff.mp hrefused
    cases owner with
    | none => cases hany
    | some id =>
      have hindexed := h.mirrors.keyExists htarget (hof hfilter id rfl)
      rw [IndexKey.registryClass] at hindexed
      rw [any_some, hindexed] at hany
      cases hany
  rw [checkKey, checkForeignKey, if_neg (by rw [hexists]; exact Bool.false_ne_true),
    if_neg (hfilter htenant), if_neg (hfilter haccount)]

/-- The checks pass if the constraints hold. -/
theorem Consistent.checkKey_eq_none (hforeign : ForeignHolds schema st change)
    (hunique : UniqueHolds st change.objectId change.object)
    (htell : KeysTell st change.objectId change.object) (hkey : key ∈ change.object.index) :
    checkKey schema st change key = none := by
  cases key with
  | foreignKey foreignId typeFilter => exact h.checkKey_foreignKey hforeign hkey
  | unique property value₁ value₂ global =>
    rw [checkKey]
    split
    · rename_i existingId hget
      obtain ⟨howner, -⟩ := h.owner_eq hunique htell hkey rfl hget
      rw [if_neg (not_not.mpr (Value.owner.inj howner))]
    · rfl
  | search property value => rfl

end

/-- Entries are set if the unique ones find their keys free and different. -/
theorem exists_writeBatch_setKeys {owner : ObjectId} {st : Registry}
    (hvacant : ∀ key ∈ keys, key.isUnique = true → st.get (key.registryClass owner) = none)
    (hpair : keys.Pairwise fun key key' =>
      key'.isUnique = true → key.registryClass owner ≠ key'.registryClass owner) :
    ∃ st', writeBatch (setKeys owner keys) st = some st' := by
  induction keys generalizing st with
  | nil => exact ⟨st, rfl⟩
  | cons first keys ih =>
    rw [pairwise_cons] at hpair
    have hfirst : writeBatch (setKey owner first) st =
        some (st.set (first.registryClass owner) (first.value owner)) := by
      rw [setKey]
      split_ifs with hunique
      · rw [singleton_append, writeBatch, hvacant first mem_cons_self hunique]
        rfl
      · rfl
    rw [setKeys, flatMap_cons, writeBatch_append, hfirst]
    refine ih (fun key hkey hunique => ?_) hpair.2
    rw [Store.get_set, if_neg (hpair.1 key hkey hunique).symm]
    exact hvacant key (mem_cons_of_mem _ hkey) hunique

theorem isAssert_clearKeys {owner : ObjectId} {op : Op RegistryClass Value}
    (h : op ∈ clearKeys owner keys) : op.isAssert = false := by
  obtain ⟨c, -, rfl⟩ := mem_map.mp h
  rfl

/-- A change is written if it replaces what is stored, and its unique entries can be set. -/
theorem Change.exists_writeBatch (change : Change) {st : Registry}
    (hold : ∀ oldObject, change.oldObject = some oldObject →
      st.getObject change.objectId = some oldObject)
    (hvacant : ∀ key ∈ change.setIndex, key.isUnique = true →
      st.get (key.registryClass change.objectId) = none)
    (hpair : change.setIndex.Pairwise fun key key' => key'.isUnique = true →
      key.registryClass change.objectId ≠ key'.registryClass change.objectId) :
    ∃ st', writeBatch change.batch st = some st' := by
  have hpreamble : ∃ st₁, writeBatch change.preamble st = some st₁ := by
    have hid (st : Registry) : ∃ st₁, writeBatch (if change.writeId = true then
        [Op.set (.indexId change.objectId) Value.empty] else []) st = some st₁ :=
      Lib.Batch.exists_writeBatch (by split <;> simp [Op.isAssert]) st
    rw [Change.preamble]
    split
    · rename_i oldObject holdObject
      have hstored := Registry.getObject_eq_some.mp (hold oldObject holdObject)
      rw [singleton_append, writeBatch, hstored, isObject, beq_self_eq_true]
      exact hid st
    · exact hid st
  obtain ⟨st₁, hst₁⟩ := hpreamble
  -- what is written before the entries is about the object alone
  have hvacant₁ : ∀ key ∈ change.setIndex, key.isUnique = true →
      st₁.get (key.registryClass change.objectId) = none := by
    intro key hkey hunique
    rw [Change.get_of_preamble hst₁ key.isEntry_registryClass]
    exact hvacant key hkey hunique
  obtain ⟨st₂, hst₂⟩ := exists_writeBatch_setKeys hvacant₁ hpair
  rw [Change.batch_eq, append_assoc, writeBatch_append, writeBatch_append, hst₁, bind_some, hst₂]
  refine Lib.Batch.exists_writeBatch (fun op hop => ?_) st₂
  rcases mem_append.mp hop with hop | hop
  · exact isAssert_clearKeys hop
  · rw [mem_singleton.mp hop]
    rfl

/-- A valid change that gets its own id and passes the checks is written. -/
theorem writeChange_eq_commit (hvalid : schema.validate change.object = [])
    (hdata : change.object.objectType ≠ schema.dataStore)
    (hchecked : ∀ key ∈ change.setIndex, checkKey schema st change key = none)
    (hid : change.generateId = false)
    (hlength : schema.pickledLength change.object ≤ maxObjectPayloadSize) :
    writeChange schema change st = commit change.itemId change.batch st := by
  have hassign : assignId change st = (change, st) := by
    rw [assignId, hid, if_neg Bool.false_ne_true]
  rw [writeChange, hvalid, if_neg (not_not.mpr rfl), if_neg hdata,
    findSome?_eq_none_iff.mpr hchecked]
  simp only [hassign, if_neg (Nat.not_lt.mpr hlength)]

/-- An update whose constraints hold is accepted. -/
theorem Consistent.update_accepted (h : Consistent schema st) {oldObject : Object} {id : Id}
    (hold : st.getObject ⟨object.objectType, id⟩ = some oldObject)
    (hsingleton : (schema.flags object.objectType).singleton = true → id = singletonId)
    (hvalid : schema.validate object = [])
    (hlength : schema.pickledLength object ≤ maxObjectPayloadSize)
    (hforeign : ForeignHolds schema st (update object id oldObject))
    (hunique : UniqueHolds st ⟨object.objectType, id⟩ object)
    (htell : KeysTell st ⟨object.objectType, id⟩ object) (generated : Id) :
    ∃ id', (write schema generated (.update object id oldObject) st).1 = some (.success id') := by
  have hflag : ¬ ((schema.flags object.objectType).singleton && id != singletonId) = true := by
    simpa using hsingleton
  rw [write, if_neg hflag]
  by_cases hdata : object.objectType = schema.dataStore
  · refine ⟨singletonId, ?_⟩
    rw [writeChange, update, hvalid, if_neg (not_not.mpr rfl), if_pos hdata,
      if_neg Bool.false_ne_true]
  have hset {key : IndexKey} (hkey : key ∈ (update object id oldObject).setIndex) :
      key ∈ object.index ∧ key ∉ indexOf (st.getObject ⟨object.objectType, id⟩) := by
    rw [hold]
    exact ⟨(mem_filter.mp hkey).1, of_decide_eq_true (mem_filter.mp hkey).2⟩
  -- were a new unique key taken, it would be by the object itself, and not new
  have hvacant : ∀ key ∈ (update object id oldObject).setIndex, key.isUnique = true →
      st.get (key.registryClass ⟨object.objectType, id⟩) = none := by
    intro key hkey hkeyUnique
    obtain ⟨hmem, hnew⟩ := hset hkey
    by_contra hsome
    obtain ⟨v, hget⟩ := ne_none_iff_exists'.mp hsome
    exact hnew (h.owner_eq hunique htell hmem hkeyUnique hget).2
  have hpair : (update object id oldObject).setIndex.Pairwise fun key key' =>
      key'.isUnique = true → key.registryClass ⟨object.objectType, id⟩ ≠
        key'.registryClass ⟨object.objectType, id⟩ := by
    refine (object.nodup.filter _).imp_of_mem fun hkey hkey' hne hkeyUnique heq => ?_
    exact hne ((htell _ (hset hkey').1 hkeyUnique).1 _ (hset hkey).1 heq.symm).symm
  obtain ⟨st', hst'⟩ := Change.exists_writeBatch (update object id oldObject)
    (fun oldObject h => hold.trans h) hvacant hpair
  refine ⟨id, ?_⟩
  rw [writeChange_eq_commit hvalid hdata (fun key hkey =>
    h.checkKey_eq_none hforeign hunique htell (hset hkey).1) rfl hlength, commit, hst']
  rfl

/-- A deletion of an object that nothing refers to is accepted. -/
theorem Consistent.delete_accepted (h : Consistent schema st) {object : Object}
    (hobject : st.getObject id = some object)
    (hsingleton : (schema.flags id.object).singleton = false)
    (hforeign : ∀ id' other, st.getObject id' = some other → ∀ typeFilter,
      .foreignKey id typeFilter ∉ other.index) {given : Option Object}
    (hgiven : ∀ object', given = some object' → object' = object)
    (allowedOrphanTypes : List ObjectType) (generated : Id) :
    (write schema generated (.delete id given allowedOrphanTypes) st).1 =
      some (.success id.id) := by
  -- a row that links to the object would be that of a reference to it
  have hlinked : linkedObjects st id = [] := by
    refine eq_nil_iff_forall_not_mem.mpr fun from_ hfrom => ?_
    obtain ⟨v, hv⟩ := isSome_iff_exists.mp (mem_linkedObjects.mp hfrom)
    obtain ⟨id', other, key, hother, hkey, heq, -⟩ := (h.mirrors _ rfl v).mp hv
    cases key with
    | foreignKey foreignId typeFilter =>
      obtain rfl := (RegistryClass.reference.inj heq).1
      exact hforeign id' other hother typeFilter hkey
    | unique property value₁ value₂ global => cases heq
    | search property value => cases heq
  have hstored : (given <|> st.getObject id) = some object := by
    cases given with
    | none => exact hobject
    | some object' => rw [hgiven object' rfl]; rfl
  obtain ⟨st', hst'⟩ : ∃ st', writeBatch (deletionBatch id object) st = some st' := by
    rw [deletionBatch, cons_append, writeBatch, Registry.getObject_eq_some.mp hobject,
      isObject, beq_self_eq_true]
    refine Lib.Batch.exists_writeBatch (fun op hop => ?_) st
    rcases mem_cons.mp hop with rfl | hop
    · rfl
    · rcases mem_cons.mp hop with rfl | hop
      · rfl
      · exact isAssert_clearKeys hop
  rw [write, if_neg (by rw [hsingleton]; exact Bool.false_ne_true), delete, hstored]
  simp [hlinked, commit, hst']

/-- A conflict is found by a check. -/
theorem exists_checkKey_of_primaryKeyConflict
    (h : (writeChange schema change st).1 = some (.primaryKeyConflict property existingId)) :
    ∃ key ∈ change.setIndex,
      checkKey schema st change key = some (.primaryKeyConflict property existingId) := by
  rw [writeChange] at h
  split_ifs at h
  · cases h
  · cases h
  · cases h
  · split at h
    · rename_i refusal hrefusal
      obtain rfl := some.inj h
      exact exists_of_findSome?_eq_some hrefusal
    · simp only [commit] at h
      split_ifs at h
      · cases h
      · split at h <;> cases h

/-- A conflict is about the key of a unique entry. -/
theorem exists_of_primaryKeyConflict {generated : Id} {w : Write}
    (hchange : w.change schema generated = some change)
    (h : (write schema generated w st).1 = some (.primaryKeyConflict property existingId)) :
    ∃ value₁ value₂ global, .unique property value₁ value₂ global ∈ change.object.index ∧
      st.get ((IndexKey.unique property value₁ value₂ global).registryClass change.objectId) =
        some (.owner existingId) := by
  have hwrite : (writeChange schema change st).1 =
      some (.primaryKeyConflict property existingId) := by
    cases w with
    | insert object id =>
      obtain rfl := some.inj hchange
      exact h
    | update object id oldObject =>
      obtain rfl := some.inj hchange
      rw [write] at h
      split_ifs at h
      · cases h
      · exact h
    | delete objectId object allowedOrphanTypes => cases hchange
  obtain ⟨key, hset, hcheck⟩ := exists_checkKey_of_primaryKeyConflict hwrite
  have hkey : key ∈ change.object.index := by
    rw [(Write.index_of_change hchange).1] at hset
    exact (mem_filter.mp hset).1
  -- only the check of a unique key can end in a conflict
  cases key with
  | foreignKey foreignId typeFilter =>
    rw [checkKey, checkForeignKey] at hcheck
    split_ifs at hcheck <;> cases hcheck
  | unique property' value₁ value₂ global =>
    rw [checkKey] at hcheck
    split at hcheck
    · rename_i existingId' hget
      split_ifs at hcheck
      cases hcheck
      exact ⟨value₁, value₂, global, hkey, hget⟩
    · cases hcheck
  | search property' value => cases hcheck

end Constraints

/-- The keys of the index are those of the entries of the stored objects, in every state that writes
    lead to if no update drops an entry whose key it still needs. As long as the keys of unique
    entries tell them apart, only equal ones conflict, and updates are accepted if their constraints
    hold; deletions always are. -/
theorem index_mirrors_objects {schema : Schema} {st : Registry}
    (h : Run schema (fun _ w => SeparateUpdate w) st) :
    Mirrors st ∧
    (∀ generated w change property existingId, w.change schema generated = some change →
      KeysTell st change.objectId change.object →
      (write schema generated w st).1 = some (.primaryKeyConflict property existingId) →
      ∃ existing value₁ value₂ global, st.getObject existingId = some existing ∧
        .unique property value₁ value₂ global ∈ existing.index ∧
        .unique property value₁ value₂ global ∈ change.object.index) ∧
    (∀ generated object id oldObject, st.getObject ⟨object.objectType, id⟩ = some oldObject →
      ((schema.flags object.objectType).singleton = true → id = singletonId) →
      schema.validate object = [] → schema.pickledLength object ≤ maxObjectPayloadSize →
      KeysTell st ⟨object.objectType, id⟩ object →
      ForeignHolds schema st (update object id oldObject) →
      UniqueHolds st ⟨object.objectType, id⟩ object →
      ∃ id', (write schema generated (.update object id oldObject) st).1 = some (.success id')) ∧
    ∀ generated id object given allowedOrphanTypes, st.getObject id = some object →
      (schema.flags id.object).singleton = false →
      (∀ object', given = some object' → object' = object) →
      (∀ id' other, st.getObject id' = some other → ∀ typeFilter,
        .foreignKey id typeFilter ∉ other.index) →
      (write schema generated (.delete id given allowedOrphanTypes) st).1 =
        some (.success id.id) := by
  have hconsistent := h.consistent fun _ _ h => h
  refine ⟨hconsistent.mirrors, ?_, ?_, ?_⟩
  · intro generated w change property existingId hchange htell hconflict
    obtain ⟨value₁, value₂, global, hkey, hget⟩ := exists_of_primaryKeyConflict hchange hconflict
    obtain ⟨id', existing, howner, hexisting, hkey', -⟩ :=
      hconsistent.owner_of_get htell hkey rfl hget
    obtain rfl := Value.owner.inj howner
    exact ⟨existing, value₁, value₂, global, hexisting, hkey', hkey⟩
  · intro generated object id oldObject hold hsingleton hvalid hlength htell hforeign hunique
    exact hconsistent.update_accepted hold hsingleton hvalid hlength hforeign hunique htell generated
  · intro generated id object given allowedOrphanTypes hobject hsingleton hgiven hforeign
    exact hconsistent.delete_accepted hobject hsingleton hforeign hgiven allowedOrphanTypes generated

def objects (st : Registry) : List (ObjectId × Object) :=
  st.entries.filterMap fun
    | (.item id, .object object) => some (id, object)
    | _ => none

theorem forall_getObject {st : Registry} {P : ObjectId × Object → Prop} (h : ∀ p ∈ objects st, P p)
    (id : ObjectId) (object : Object) (hobject : st.getObject id = some object) : P (id, object) := by
  have hmem := Lib.KeyedList.mem_of_lookup (Registry.getObject_eq_some.mp hobject)
  exact h _ (mem_filterMap.mpr ⟨_, hmem, rfl⟩)

/-- The domain of a tenant is renamed. -/
def renamedDomain : Registry :=
  (write tenantSchema 0 (.update (domain "umbrella" 1) 1 (domain "acme" 1)) tenantWithDomain).2

theorem keysTell_renamedDomain {id : ObjectId} {object : Object}
    (h : ∀ key ∈ object.index, key.isUnique = true →
      ∀ p ∈ (id, object) :: objects renamedDomain, ∀ key' ∈ p.2.index,
        key.registryClass id = key'.registryClass p.1 → key = key') :
    KeysTell renamedDomain id object := fun key hkey hunique =>
  ⟨h key hkey hunique _ mem_cons_self,
    forall_getObject fun p hp => h key hkey hunique p (mem_cons_of_mem _ hp)⟩

/-- Then no other domain can have its new name; it can be given its old name, and be deleted. -/
theorem mirrors_renamedDomain :
    Mirrors renamedDomain ∧
    (∃ existing value₁ value₂ global, renamedDomain.getObject ⟨⟨37⟩, 1⟩ = some existing ∧
      .unique ⟨25⟩ value₁ value₂ global ∈ existing.index ∧
      .unique ⟨25⟩ value₁ value₂ global ∈ (domain "umbrella" 1).index) ∧
    (∃ id, (write tenantSchema 0 (.update (domain "acme" 1) 1 (domain "umbrella" 1))
      renamedDomain).1 = some (.success id)) ∧
    (write tenantSchema 0 (.delete ⟨⟨37⟩, 1⟩ none []) renamedDomain).1 = some (.success 1) := by
  have hrun : Run tenantSchema (fun _ w => SeparateUpdate w) renamedDomain := by
    refine .write 0 _ (run_tenantWithDomain fun _ _ _ => trivial) trivial ?_
    rw [SeparateUpdate, Separate]
    decide +kernel
  obtain ⟨hmirrors, hconflict, hupdate, hdelete⟩ := index_mirrors_objects hrun
  refine ⟨hmirrors, ?_, ?_, ?_⟩
  · exact hconflict 0 (.insert (domain "umbrella" 1) none) _ ⟨25⟩ ⟨⟨37⟩, 1⟩ rfl
      (keysTell_renamedDomain (by decide +kernel)) (by decide +kernel)
  · refine hupdate 0 (domain "acme" 1) 1 (domain "umbrella" 1) (by decide +kernel) (by decide) rfl
      (by decide) (keysTell_renamedDomain (by decide +kernel)) ?_ ?_
    · intro foreignId typeFilter hkey
      obtain ⟨rfl, rfl⟩ : foreignId = ⟨⟨108⟩, 1⟩ ∧ typeFilter = .none := by
        simpa [update, domain] using hkey
      exact ⟨tenant "acme", by decide +kernel, rfl, by simp, by decide, by decide⟩
    · intro property value₁ value₂ global hkey id' other hother hkey' hscope
      obtain ⟨rfl, rfl, rfl, rfl⟩ : property = ⟨25⟩ ∧ value₁ = .text "acme" ∧ value₂ = .none ∧
          global = false := by
        simpa [domain] using hkey
      exact forall_getObject (by decide +kernel : ∀ p ∈ objects renamedDomain,
        .unique ⟨25⟩ (.text "acme") .none false ∈ p.2.index → p.1 = ⟨⟨37⟩, 1⟩) _ other hother hkey'
  · exact hdelete 0 ⟨⟨37⟩, 1⟩ _ none [] (by decide +kernel : _ = some (domain "umbrella" 1)) rfl
      (by simp) fun id' other hother typeFilter hkey => forall_getObject (by decide +kernel :
        ∀ p ∈ objects renamedDomain, ∀ key ∈ p.2.index,
          key.registryClass p.1 ≠ .reference ⟨⟨37⟩, 1⟩ p.1) id' other hother _ hkey rfl

/-! ## Lookup keys -/

/-- A `MemoryLookupKey`: namespace and key are one unique entry. -/
def memoryLookupKey (namespace_ key : String) : Object where
  objectType := ⟨52⟩
  memberTenantId := none
  accountId := none
  index := [.unique ⟨414⟩ (.text namespace_) (.text key) true, .search ⟨414⟩ (.text namespace_)]
  contents := ""
  nodup := by simp
  tenant_of_search := by simp [Property.memberTenantId]
  account_of_search := by simp [Property.accountId]

/-- The types of these objects, without more. -/
def lookupSchema : Schema where
  flags _ := ⟨false, false, false, false⟩
  account := ⟨0⟩
  dataStore := ⟨28⟩
  validate _ := []
  pickledLength _ := 0

def oneLookupKey : Registry :=
  (write lookupSchema 1 (.insert (memoryLookupKey "ab" "c") none) .empty).2

/-- The key `c` in the namespace `ab` conflicts with the key `bc` in `a`, and cannot be changed to
    it although nothing else is stored. -/
theorem lookupKeys_conflict :
    (write lookupSchema 2 (.insert (memoryLookupKey "a" "bc") none) oneLookupKey).1 =
        some (.primaryKeyConflict ⟨414⟩ ⟨⟨52⟩, 1⟩) ∧
      oneLookupKey.getObject ⟨⟨52⟩, 1⟩ = some (memoryLookupKey "ab" "c") ∧
      ForeignHolds lookupSchema oneLookupKey
        (update (memoryLookupKey "a" "bc") 1 (memoryLookupKey "ab" "c")) ∧
      UniqueHolds oneLookupKey ⟨⟨52⟩, 1⟩ (memoryLookupKey "a" "bc") ∧
      (write lookupSchema 2 (.update (memoryLookupKey "a" "bc") 1 (memoryLookupKey "ab" "c"))
        oneLookupKey).1 = none := by
  refine ⟨by decide +kernel, by decide +kernel, ?_, ?_, by decide +kernel⟩
  · intro foreignId typeFilter hkey
    simp [update, memoryLookupKey] at hkey
  · intro property value₁ value₂ global hkey id' other hother hkey' hscope
    exact forall_getObject (by decide +kernel : ∀ p ∈ objects oneLookupKey, p.1 = _) id' other hother

end Inworkspace.RegistryStore
