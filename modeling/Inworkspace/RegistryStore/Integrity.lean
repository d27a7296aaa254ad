import Inworkspace.RegistryStore.Mirror

/-!
# Referential integrity of the registry

Every object that is referred to is stored, and is of the tenant and the account of the object
that refers to it, if it is of a type that has those (`Integrity`).

What a write checks are the references that are new. A reference that was there before is
not looked at again when the object it belongs to, or the one it names, is given to another
tenant; and of two references to one object that ask for different types, dropping one
clears the key that both share. `integrity_of_run` excludes both, and `integrity_fails` shows
them. Updates that leave the owners as they are keep integrity (`integrity_of_sameOwners`).
-/

namespace Inworkspace.RegistryStore

open Option RegistryStore.Property

variable (schema : Schema) (name : String) (st : Registry) (id : ObjectId) (object : Object)

/-- The account an object is of, once it has its id. -/
def ownAccountId : Option Id :=
  object.accountId <|> if id.object = schema.account then some id.id else none

/-- An object and one it refers to have the same owners, if the type of the latter has any. -/
def Agrees (foreignId : ObjectId) (target : Object) : Prop :=
  ((schema.flags foreignId.object).filterTenant = true → ∀ tenantId,
    object.memberTenantId = some tenantId → target.memberTenantId = some tenantId) ∧
  ((schema.flags foreignId.object).filterAccount = true → ∀ accountId,
    ownAccountId schema id object = some accountId → target.accountId = some accountId)

/-- All references of stored objects are to stored objects with the same owners. -/
def Integrity : Prop :=
  ∀ id object, st.getObject id = some object → ∀ foreignId typeFilter,
    .foreignKey foreignId typeFilter ∈ object.index →
      ∃ target, st.getObject foreignId = some target ∧ Agrees schema id object foreignId target

/-- The objects with one in the place of what there was. -/
def replace (id' : ObjectId) : Option Object :=
  if id' = id then some object else st.getObject id'

/-- The writes that keep integrity. An account still to be numbered refers to nothing of an account.
    An update drops no entry whose key it still needs, and the references it does not check, and
    those to the object itself, agree with it. -/
def KeepsOwners : Write → Prop
  | .insert object id =>
    id = none → (schema.flags object.objectType).seqId = true →
      object.objectType = schema.account → ∀ foreignId typeFilter,
        .foreignKey foreignId typeFilter ∈ object.index →
          (schema.flags foreignId.object).filterAccount = false
  | .update object id oldObject =>
    let self : ObjectId := ⟨object.objectType, id⟩
    Separate self oldObject.index object.index ∧
      ∀ id' other foreignId typeFilter target, replace st self object id' = some other →
        .foreignKey foreignId typeFilter ∈ other.index →
        replace st self object foreignId = some target →
        foreignId = self ∨ id' = self ∧ .foreignKey foreignId typeFilter ∈ oldObject.index →
          Agrees schema id' other foreignId target
  | .delete _ _ allowedOrphanTypes => allowedOrphanTypes = []

/-- The object that an update replaces is the stored one. -/
def Write.FindsOld : Write → Prop
  | .update object id oldObject => st.getObject ⟨object.objectType, id⟩ = some oldObject
  | _ => True

/-- A condition on a write alone: an update leaves the object to its owners, and no reference to
    itself is new. -/
def SameOwners : Write → Prop
  | .update object id oldObject =>
    let self : ObjectId := ⟨object.objectType, id⟩
    Separate self oldObject.index object.index ∧
      object.memberTenantId = oldObject.memberTenantId ∧ object.accountId = oldObject.accountId ∧
      ∀ typeFilter, .foreignKey self typeFilter ∈ object.index →
        .foreignKey self typeFilter ∈ oldObject.index
  | w => KeepsOwners schema .empty w

section Checked

variable {schema} {st} {change : Change} {typeFilter : IndexValue} {foreignId : ObjectId}

/-- The key of an entry for searches is there only if the object has the entry. -/
theorem Mirrors.of_keyExists (h : Mirrors st) {property : Property} {id : ObjectId}
    {bytes : List UInt8} (hkey : st.keyExists (.index property id bytes) = true) :
    ∃ object value, st.getObject id = some object ∧ .search property value ∈ object.index ∧
      value.serialize = bytes := by
  obtain ⟨v, hv⟩ := isSome_iff_exists.mp hkey
  obtain ⟨id', object, key, hobject, hmem, heq, -⟩ := (h _ rfl v).mp hv
  cases key with
  | search property' value =>
    obtain ⟨rfl, rfl, hvalue⟩ := RegistryClass.index.inj heq
    exact ⟨object, value, hobject, hmem, hvalue⟩
  | unique property' value₁ value₂ global => cases heq
  | foreignKey foreignId typeFilter => cases heq

/-- What a check of a reference has found. -/
theorem Consistent.target_of_checkKey (h : Consistent schema st)
    (hcheck : checkKey schema st change (.foreignKey foreignId typeFilter) = none) :
    ∃ target, st.getObject foreignId = some target ∧
      ((schema.flags foreignId.object).filterTenant = true → ∀ tenantId,
        change.object.memberTenantId = some tenantId → target.memberTenantId = some tenantId) ∧
      ((schema.flags foreignId.object).filterAccount = true → ∀ accountId,
        change.accountId schema = some accountId → target.accountId = some accountId) := by
  rw [checkKey, checkForeignKey] at hcheck
  split_ifs at hcheck with hmissing htenant haccount
  -- the row of the type or of the id, whichever is looked for, is that of an object
  have hstored : (st.getObject foreignId).isSome = true := by
    rw [Bool.not_eq_true', Bool.not_eq_false, foreignClass] at hmissing
    split_ifs at hmissing
    · obtain ⟨object, value, hobject, -⟩ := h.mirrors.of_keyExists hmissing
      rw [hobject]
      rfl
    · exact h.stored foreignId hmissing
  obtain ⟨target, htarget⟩ := isSome_iff_exists.mp hstored
  refine ⟨target, htarget, fun hfilter tenantId htenantId => ?_, fun hfilter accountId haccountId => ?_⟩
  · rw [hfilter, htenantId, Bool.true_and, any_some, Bool.not_eq_true', Bool.not_eq_false]
      at htenant
    obtain ⟨object, value, hobject, hentry, hvalue⟩ := h.mirrors.of_keyExists htenant
    obtain rfl := some.inj (htarget.symm.trans hobject)
    obtain ⟨tenantId', htenantId', rfl⟩ := target.tenant_of_search value hentry
    rw [htenantId', toBeBytes_injective (k := 8) hvalue]
  · rw [hfilter, haccountId, Bool.true_and, any_some, Bool.not_eq_true', Bool.not_eq_false]
      at haccount
    obtain ⟨object, value, hobject, hentry, hvalue⟩ := h.mirrors.of_keyExists haccount
    obtain rfl := some.inj (htarget.symm.trans hobject)
    obtain ⟨accountId', haccountId', rfl⟩ := target.account_of_search value hentry
    rw [haccountId', toBeBytes_injective (k := 8) hvalue]

/-- The account a change is checked with is that of its object, if it keeps its id. -/
theorem Change.accountId_eq {id : Id} (hid : id = change.itemId) :
    change.accountId schema = ownAccountId schema ⟨change.object.objectType, id⟩ change.object := by
  rw [Change.accountId, ownAccountId, hid]

/-- An insertion that is checked agrees with all it refers to. -/
theorem agrees_of_checked (h : Consistent schema st) {id : Id}
    (hcheck : checkKey schema st change (.foreignKey foreignId typeFilter) = none)
    (haccount : id = change.itemId ∨ change.object.objectType ≠ schema.account ∨
      (schema.flags foreignId.object).filterAccount = false) :
    ∃ target, st.getObject foreignId = some target ∧
      Agrees schema ⟨change.object.objectType, id⟩ change.object foreignId target := by
  obtain ⟨target, htarget, htenant, hchecked⟩ := h.target_of_checkKey hcheck
  refine ⟨target, htarget, htenant, fun hfilter accountId hown => hchecked hfilter accountId ?_⟩
  rcases haccount with hid | hnot | hfalse
  · rw [Change.accountId_eq hid, hown]
  · rw [ownAccountId, if_neg hnot] at hown
    rw [Change.accountId, if_neg hnot, hown]
  · rw [hfilter] at hfalse
    cases hfalse

end Checked

/-! ## Writes -/

section Writes

variable {schema} {st} {st' : Registry}

theorem Integrity.of_sameObjects (h : Integrity schema st) (hsame : SameObjects st st') :
    Integrity schema st' := by
  intro id object hobject foreignId typeFilter hkey
  rw [hsame.getObject] at hobject ⊢
  exact h id object hobject foreignId typeFilter hkey

/-- What nothing refers to can go. -/
theorem Integrity.of_deleted (h : Integrity schema st) (hmirrors : Mirrors st) {id : ObjectId}
    (hdeleted : Deleted schema id [] st st') : Integrity schema st' := by
  intro id' object hobject foreignId typeFilter hkey
  rw [hdeleted.replaced.getObject] at hobject
  split_ifs at hobject
  obtain ⟨target, htarget, hagrees⟩ := h id' object hobject foreignId typeFilter hkey
  have hne : foreignId ≠ id := by
    rintro rfl
    exact List.not_mem_nil (hdeleted.unlinked id' (hmirrors.keyExists hobject hkey))
  exact ⟨target, by rw [hdeleted.replaced.getObject, if_neg hne, htarget], hagrees⟩

/-- Nothing refers to an object that is not there yet. -/
theorem Integrity.of_insert (h : Integrity schema st) (hconsistent : Consistent schema st)
    {object : Object} {id : Option Id} {generated itemId : Id}
    (hstored : Stored schema (schema.insertion object id generated) itemId st st')
    (hkeeps : KeepsOwners schema st (.insert object id)) : Integrity schema st' := by
  have hnew : st.getObject ⟨object.objectType, itemId⟩ = none := hstored.old
  have hother {id' : ObjectId} {target : Object} (htarget : st.getObject id' = some target) :
      st'.getObject id' = some target := by
    rw [hstored.replaced.getObject, if_neg, htarget]
    rintro rfl
    rw [show (schema.insertion object id generated).object.objectType = object.objectType from rfl,
      hnew] at htarget
    cases htarget
  intro id' other hobject foreignId typeFilter hkey
  rw [hstored.replaced.getObject] at hobject
  split_ifs at hobject with hid
  · obtain rfl := some.inj hobject
    subst hid
    -- an account that gets its number only now refers to nothing that is of an account
    have haccount : itemId = (schema.insertion object id generated).itemId ∨
        object.objectType ≠ schema.account ∨
          (schema.flags foreignId.object).filterAccount = false := by
      cases hgenerate : (schema.insertion object id generated).generateId with
      | false => exact .inl (hstored.id_eq hgenerate)
      | true =>
        by_cases haccount : object.objectType = schema.account
        · cases id with
          | some id => cases hgenerate
          | none =>
            simp only [Schema.insertion] at hgenerate
            split_ifs at hgenerate with hsingleton hseq
            exact .inr (.inr (hkeeps rfl hseq haccount foreignId typeFilter hkey))
        · exact .inr (.inl haccount)
    obtain ⟨target, htarget, hagrees⟩ :=
      agrees_of_checked hconsistent (hstored.checked _ hkey) haccount
    exact ⟨target, hother htarget, hagrees⟩
  · obtain ⟨target, htarget, hagrees⟩ := h id' other hobject foreignId typeFilter hkey
    exact ⟨target, hother htarget, hagrees⟩

/-- References of the object, new or kept, and those to it. -/
theorem Integrity.of_update (h : Integrity schema st) (hconsistent : Consistent schema st)
    {object oldObject : Object} {id itemId : Id}
    (hstored : Stored schema (update object id oldObject) itemId st st')
    (hkeeps : KeepsOwners schema st (.update object id oldObject)) : Integrity schema st' := by
  obtain rfl : itemId = id := hstored.id_eq rfl
  have hget : ∀ id', st'.getObject id' = replace st ⟨object.objectType, itemId⟩ object id' :=
    hstored.replaced.getObject
  have hold : st.getObject ⟨object.objectType, itemId⟩ = some oldObject := hstored.old
  obtain ⟨-, hagree⟩ := hkeeps
  -- what was stored still is, with the object in the place of the old one
  have hthere {id' : ObjectId} (hid' : (st.getObject id').isSome = true) :
      ∃ target, replace st ⟨object.objectType, itemId⟩ object id' = some target := by
    rw [replace]
    split_ifs
    · exact ⟨object, rfl⟩
    · exact isSome_iff_exists.mp hid'
  intro id' other hother foreignId typeFilter hkey
  simp only [hget] at hother ⊢
  by_cases hunchecked : foreignId = ⟨object.objectType, itemId⟩ ∨
      id' = ⟨object.objectType, itemId⟩ ∧ .foreignKey foreignId typeFilter ∈ oldObject.index
  · have hstill : (st.getObject foreignId).isSome = true := by
      rcases hunchecked with rfl | ⟨rfl, hmem⟩
      · rw [hold]
        rfl
      · obtain ⟨target, htarget, -⟩ := h _ oldObject hold foreignId typeFilter hmem
        rw [htarget]
        rfl
    obtain ⟨target, htarget⟩ := hthere hstill
    exact ⟨target, htarget, hagree id' other foreignId typeFilter target hother hkey htarget
      hunchecked⟩
  · obtain ⟨hne, hnew⟩ := not_or.mp hunchecked
    have hsame : replace st ⟨object.objectType, itemId⟩ object foreignId = st.getObject foreignId :=
      if_neg hne
    rw [hsame]
    rw [replace] at hother
    split_ifs at hother with hid
    · obtain rfl := some.inj hother
      subst hid
      have hset : .foreignKey foreignId typeFilter ∈ (update object itemId oldObject).setIndex :=
        List.mem_filter.mpr ⟨hkey, decide_eq_true fun hmem => hnew ⟨rfl, hmem⟩⟩
      exact agrees_of_checked hconsistent (hstored.checked _ hset) (.inl rfl)
    · exact h id' other hother foreignId typeFilter hkey

/-- With integrity before, the references to and of an object agree with it if its owners stay. -/
theorem Integrity.keepsOwners (h : Integrity schema st) {w : Write} (hsame : SameOwners schema w)
    (hold : w.FindsOld st) : KeepsOwners schema st w := by
  cases w with
  | insert | delete => exact hsame
  | update object id oldObject =>
    obtain ⟨hseparate, htenant, haccount, hself⟩ := hsame
    refine ⟨hseparate, ?_⟩
    intro id' other foreignId typeFilter target hother hkey htarget hunchecked
    -- the object that is replaced has the owners of the new one
    have howners {id' : ObjectId} {other : Object}
        (hother : replace st ⟨object.objectType, id⟩ object id' = some other) :
        ∃ stored, st.getObject id' = some stored ∧
          stored.memberTenantId = other.memberTenantId ∧ stored.accountId = other.accountId := by
      rw [replace] at hother
      split_ifs at hother with hid
      · exact ⟨oldObject, hid ▸ hold, some.inj hother ▸ htenant.symm, some.inj hother ▸ haccount.symm⟩
      · exact ⟨other, hother, rfl, rfl⟩
    obtain ⟨stored, hstored, htenant', haccount'⟩ := howners hother
    have hmem : .foreignKey foreignId typeFilter ∈ stored.index := by
      rw [replace] at hother
      split_ifs at hother with hid
      · obtain rfl : oldObject = stored := some.inj (hold.symm.trans (hid ▸ hstored))
        obtain rfl := some.inj hother
        rcases hunchecked with rfl | ⟨-, hmem⟩
        · exact hself typeFilter hkey
        · exact hmem
      · exact some.inj (hother.symm.trans hstored) ▸ hkey
    obtain ⟨found, hfound, hagrees⟩ := h id' stored hstored foreignId typeFilter hmem
    obtain ⟨found', hfound', htenant'', haccount''⟩ := howners htarget
    obtain rfl := some.inj (hfound.symm.trans hfound')
    rwa [Agrees, ownAccountId, htenant', haccount', htenant'', haccount''] at hagrees

/-- Any write whose owners stay. -/
theorem Integrity.of_write (h : Integrity schema st) (hconsistent : Consistent schema st)
    {generated : Id} {w : Write} (hfresh : Fresh schema generated w st)
    (hkeeps : w.FindsOld st → KeepsOwners schema st w) :
    Integrity schema (write schema generated w st).2 := by
  rcases write_cases hfresh with hsame | ⟨change, id, hchange, hstored⟩ |
    ⟨id, object, allowedOrphanTypes, rfl, hdeleted⟩
  · exact h.of_sameObjects hsame
  · cases w with
    | insert object itemId =>
      obtain rfl := some.inj hchange
      exact h.of_insert hconsistent hstored (hkeeps trivial)
    | update object itemId oldObject =>
      obtain rfl := some.inj hchange
      obtain rfl := hstored.id_eq rfl
      exact h.of_update hconsistent hstored (hkeeps hstored.old)
    | delete objectId object allowedOrphanTypes => cases hchange
  · obtain rfl : allowedOrphanTypes = [] := hkeeps trivial
    exact h.of_deleted hconsistent.mirrors hdeleted

end Writes

/-- All references are to stored objects with the same owners, in every state that writes lead to if
    they keep to it where they do not check it. -/
theorem integrity_of_run {schema : Schema} {st : Registry} (h : Run schema (KeepsOwners schema) st) :
    Integrity schema st := by
  induction h with
  | empty => exact fun _ _ h => nomatch h
  | write generated w run fresh allowed ih =>
    refine ih.of_write (run.consistent fun st w h => ?_) fresh fun _ => allowed
    cases w with
    | insert => trivial
    | update => exact h.1
    | delete => trivial

/-- All references are to stored objects with the same owners if updates leave these as they are. -/
theorem integrity_of_sameOwners {schema : Schema} {st : Registry}
    (h : Run schema (fun _ w => SameOwners schema w) st) : Integrity schema st := by
  induction h with
  | empty => exact fun _ _ h => nomatch h
  | write generated w run fresh allowed ih =>
    refine ih.of_write (run.consistent fun st w h => ?_) fresh (ih.keepsOwners allowed)
    cases w with
    | insert => trivial
    | update => exact h.1
    | delete => trivial

/-! ## Mailing lists of tenants -/

/-- A `Tenant`. -/
def tenant : Object where
  objectType := ⟨108⟩
  memberTenantId := none
  accountId := none
  index := [.search ⟨2⟩ (.text name)]
  contents := name
  nodup := by simp
  tenant_of_search := by simp [memberTenantId]
  account_of_search := by simp [accountId]

/-- A `Domain` of a tenant. -/
def domain (tenantId : Id) : Object where
  objectType := ⟨37⟩
  memberTenantId := some tenantId
  accountId := none
  index := [.unique ⟨25⟩ (.text name) .none false, .search ⟨2⟩ (.text name),
    .foreignKey ⟨⟨108⟩, tenantId⟩ .none, .search .memberTenantId (.u64 tenantId)]
  contents := name
  nodup := by simp [memberTenantId]
  tenant_of_search := by simp [memberTenantId]
  account_of_search := by simp [accountId, memberTenantId]

/-- A `MailingList` of a tenant. -/
def mailingList (domainId tenantId : Id) : Object where
  objectType := ⟨50⟩
  memberTenantId := some tenantId
  accountId := none
  index := [.unique ⟨242⟩ (.text name) (.u64 domainId) true, .search ⟨2⟩ (.text name),
    .foreignKey ⟨⟨37⟩, domainId⟩ .none, .foreignKey ⟨⟨108⟩, tenantId⟩ .none,
    .search .memberTenantId (.u64 tenantId)]
  contents := name
  nodup := by simp [memberTenantId]
  tenant_of_search := by simp [memberTenantId]
  account_of_search := by simp [accountId, memberTenantId]

/-- An `Account` that is a group. -/
def groupAccount : Object where
  objectType := ⟨0⟩
  memberTenantId := none
  accountId := none
  index := [.search .type (.u16 1), .search ⟨2⟩ (.text name)]
  contents := name
  nodup := by simp [type]
  tenant_of_search := by simp [memberTenantId, type]
  account_of_search := by simp [accountId, type]

/-- An object that refers to an account, and maybe again to it as a group. No type has both
    references now. -/
def accountUser (accountId : Id) (asGroup : Bool) : Object where
  objectType := ⟨200⟩
  memberTenantId := none
  accountId := none
  index := .foreignKey ⟨⟨0⟩, accountId⟩ .none ::
    if asGroup then [.foreignKey ⟨⟨0⟩, accountId⟩ (.u16 1)] else []
  contents := ""
  nodup := by cases asGroup <;> simp
  tenant_of_search := by cases asGroup <;> simp
  account_of_search := by cases asGroup <;> simp

def tenantSchema : Schema where
  flags type := ⟨false, type ≠ ⟨200⟩, false, type = ⟨0⟩ ∨ type = ⟨37⟩ ∨ type = ⟨50⟩⟩
  account := ⟨0⟩
  dataStore := ⟨28⟩
  validate _ := []
  pickledLength _ := 0

/-- The registry after an insertion. -/
def inserted (object : Object) (st : Registry) : Registry :=
  (write tenantSchema 0 (.insert object none) st).2

theorem run_inserted {Allowed : Registry → Write → Prop} {st : Registry} {object : Object}
    (h : Run tenantSchema Allowed st)
    (hnew : (write tenantSchema 0 (.insert object none) st).1 = some (.success 1) ∧
      st.getObject ⟨object.objectType, 1⟩ = none) (hallowed : Allowed st (.insert object none)) :
    Run tenantSchema Allowed (inserted object st) := by
  refine .write 0 _ h (fun id hid => ?_) hallowed
  obtain rfl : 1 = id := by simpa using hnew.1.symm.trans hid
  exact hnew.2

def tenantWithDomain : Registry := inserted (domain "acme" 1) (inserted (tenant "acme") .empty)

theorem run_tenantWithDomain {Allowed : Registry → Write → Prop}
    (h : ∀ st object, object.objectType ≠ ⟨0⟩ → Allowed st (.insert object none)) :
    Run tenantSchema Allowed tenantWithDomain :=
  run_inserted (run_inserted .empty (by decide +kernel) (h _ _ (by decide))) (by decide +kernel)
    (h _ _ (by decide))

/-- A mailing list of the tenant. -/
def tenantWithList : Registry := inserted (mailingList "all" 1 1) tenantWithDomain

/-- The mailing list is renamed, and keeps its references to the domain and the tenant. -/
theorem integrity_listRenamed : Integrity tenantSchema (write tenantSchema 0
    (.update (mailingList "staff" 1 1) 1 (mailingList "all" 1 1)) tenantWithList).2 := by
  have hinsert (st : Registry) (object : Object) (htype : object.objectType ≠ ⟨0⟩) :
      KeepsOwners tenantSchema st (.insert object none) := fun _ _ haccount => absurd haccount htype
  have hrun : Run tenantSchema (KeepsOwners tenantSchema) tenantWithList :=
    run_inserted (run_tenantWithDomain hinsert) (by decide +kernel) (hinsert _ _ (by decide))
  have hsame : SameOwners tenantSchema
      (.update (mailingList "staff" 1 1) 1 (mailingList "all" 1 1)) := by
    refine ⟨?_, rfl, rfl, ?_⟩
    · rw [Separate]
      decide +kernel
    · intro typeFilter h
      simp [mailingList] at h
  exact integrity_of_run (.write 0 _ hrun trivial ((integrity_of_run hrun).keepsOwners hsame
    (by rw [Write.FindsOld]; decide +kernel)))

/-- The answers to writes, and the registry they lead to. -/
def writeAll (ws : List Write) : List (Option WriteResult) × Registry :=
  ws.foldl (fun (answers, st) w =>
    let (answer, st) := write tenantSchema (BitVec.ofNat 64 (answers.length + 1)) w st
    (answers ++ [answer], st)) ([], .empty)

/-- A mailing list is given to another tenant than its domain. -/
def listMoves : List Write :=
  [.insert (tenant "acme") none, .insert (tenant "umbrella") none,
    .insert (domain "acme" 1) none, .insert (mailingList "all" 1 1) none,
    .update (mailingList "all" 1 2) 1 (mailingList "all" 1 1)]

/-- An account is deleted while an object refers to it. -/
def accountGoes : List Write :=
  [.insert (groupAccount "staff") none, .insert (accountUser 1 true) none,
    .update (accountUser 1 false) 2 (accountUser 1 true), .delete ⟨⟨0⟩, 1⟩ none []]

/-- A mailing list may refer to a domain of another tenant, and an object to an account that is
    gone. -/
theorem integrity_fails :
    (writeAll listMoves).1 = [1, 2, 1, 1, 1].map (some ∘ .success) ∧
      ¬ Integrity tenantSchema (writeAll listMoves).2 ∧
      (writeAll accountGoes).1 = [1, 2, 2, 1].map (some ∘ .success) ∧
      ¬ Integrity tenantSchema (writeAll accountGoes).2 := by
  refine ⟨by decide +kernel, fun h => ?_, by decide +kernel, fun h => ?_⟩
  · obtain ⟨target, htarget, hagrees⟩ := h ⟨⟨50⟩, 1⟩ (mailingList "all" 1 2) (by decide +kernel)
      ⟨⟨37⟩, 1⟩ .none (by decide)
    obtain rfl : domain "acme" 1 = target := some.inj
      ((by decide +kernel : _ = some (domain "acme" 1)).symm.trans htarget)
    exact absurd (hagrees.1 rfl 2 rfl) (by decide)
  · obtain ⟨target, htarget, -⟩ := h ⟨⟨200⟩, 2⟩ (accountUser 1 false) (by decide +kernel)
      ⟨⟨0⟩, 1⟩ .none (by decide)
    cases (by decide +kernel : _ = none).symm.trans htarget

end Inworkspace.RegistryStore
