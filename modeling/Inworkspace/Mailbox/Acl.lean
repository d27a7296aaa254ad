import Inworkspace.Lib.KeyedList
import Inworkspace.Lib.Loop
import Inworkspace.Types.Acl

/-!
# The access control list of a mailbox

A mailbox keeps its access control list as a list of grants, written by IMAP
`SETACL` and `DELETEACL` (`imap::op::acl`) and by the JMAP `shareWith`
property (`jmap::api::acl`). All of them keep one entry per account and no
entry without rights (`WellFormed`), so a `Mailbox` carries that with its list.

What the list is for is the map from the accounts to their rights (`rights`).
A `SETACL` is meant to replace the rights of one account, to add to them or to
remove from them (`ModRightsOp.apply`), and nothing else.

* `handleSetAcl_exact_iff`: it does, except when rights are removed that the
  account does not hold: the handler calls `Bitmap::remove` for each of them,
  which toggles, so they are granted instead;
* `rights_aclPatch_remove`: the JMAP patch, which calls `Bitmap::remove_many`,
  only removes.
-/

namespace Inworkspace

open Lib.KeyedList Bitmap Function List Except

/-! ## Lists of grants -/

namespace AclGrant

variable (acls : List AclGrant)

/-- The rights a list of grants gives to an account. -/
def rights (accountId : ℕ) : Set Acl :=
  {acl | ∃ item ∈ acls, item.accountId = accountId ∧ acl ∈ item.grants}

/-- `acls.retain(|item| item.account_id != account_id)`. -/
def retain (accountId : ℕ) : List AclGrant :=
  acls.filter (·.accountId != accountId)

/-- The entry of an account, `acls.iter_mut().find(..)`. -/
def find (accountId : ℕ) : Option AclGrant :=
  acls.find? (·.accountId == accountId)

/-- The entry after a change `f` of its rights. -/
def mapGrants (f : Bitmap Acl → Bitmap Acl) (item : AclGrant) : AclGrant :=
  { item with grants := f item.grants }

/-- The list after a change `f` of the rights of the entry `find` gives. -/
def modify (accountId : ℕ) (f : Bitmap Acl → Bitmap Acl) : List AclGrant :=
  updateFirst (fun item => item.accountId == accountId) (mapGrants f) acls

/-- There is one entry for each account, and none without rights. -/
structure WellFormed (acls : List AclGrant) : Prop where
  nodup : (acls.map accountId).Nodup
  valid : ∀ item ∈ acls, item.grants.Valid
  nonempty : ∀ item ∈ acls, item.grants.isEmpty = false

variable {acls} {accountId : ℕ}

theorem wellFormed_nil : WellFormed [] := ⟨nodup_nil, by simp, by simp⟩

variable {item : AclGrant} {grants : Bitmap Acl} {f : Bitmap Acl → Bitmap Acl}
  {acls' : List AclGrant}

theorem find_eq_some (h : find acls accountId = some item) :
    item ∈ acls ∧ item.accountId = accountId :=
  ⟨mem_of_find?_eq_some h, by simpa using find?_some h⟩

theorem find_eq_none (h : find acls accountId = none) :
    ∀ item ∈ acls, item.accountId ≠ accountId := by
  simpa [find] using h

theorem WellFormed.retain (h : WellFormed acls) : WellFormed (retain acls accountId) where
  nodup := nodup_filter h.nodup _
  valid item hitem := h.valid item (mem_of_mem_filter hitem)
  nonempty item hitem := h.nonempty item (mem_of_mem_filter hitem)

/-- The entries after a change of the rights of one account. -/
theorem WellFormed.mem_modify (h : WellFormed acls) (hfind : find acls accountId = some item)
    {item' : AclGrant} :
    item' ∈ modify acls accountId f ↔
      item' = ⟨accountId, f item.grants⟩ ∨ (item' ∈ acls ∧ item'.accountId ≠ accountId) := by
  obtain ⟨hmem, hid⟩ := find_eq_some hfind
  rw [modify, mem_updateFirst h.nodup]
  refine or_congr_left ⟨?_, ?_⟩
  · rintro ⟨e, he, hek, rfl⟩
    rw [inj_on_of_nodup_map h.nodup he hmem (hek.trans hid.symm), mapGrants, hid]
  · rintro rfl
    exact ⟨item, hmem, hid, by rw [mapGrants, hid]⟩

theorem retain_modify : retain (modify acls accountId f) accountId = retain acls accountId :=
  filter_updateFirst (mapGrants f) (fun _ => rfl) accountId acls

/-! ### The rights after an edit -/

theorem rights_of_find_none (h : find acls accountId = none) : rights acls accountId = ∅ :=
  Set.eq_empty_iff_forall_notMem.mpr fun _ ⟨item, hitem, hid, _⟩ => find_eq_none h item hitem hid

theorem WellFormed.rights_of_find (h : WellFormed acls) (hfind : find acls accountId = some item) :
    rights acls accountId = item.grants.members := by
  obtain ⟨hmem, hid⟩ := find_eq_some hfind
  ext acl
  constructor
  · rintro ⟨item', hitem', hid', hacl⟩
    exact inj_on_of_nodup_map h.nodup hitem' hmem (hid'.trans hid.symm) ▸ hacl
  · exact fun hacl => ⟨item, hmem, hid, hacl⟩

/-- An edit that touches no entry of other accounts changes the rights of one only. -/
theorem rights_eq_update {s : Set Acl} (hself : rights acls' accountId = s)
    (hother : ∀ item, item.accountId ≠ accountId → (item ∈ acls' ↔ item ∈ acls)) :
    rights acls' = update (rights acls) accountId s := by
  funext i
  by_cases hi : i = accountId
  · rw [hi, update_self, hself]
  rw [update_of_ne hi]
  ext acl
  refine exists_congr fun item => ⟨?_, ?_⟩
  · rintro ⟨hitem, rfl, hacl⟩
    exact ⟨(hother item hi).mp hitem, rfl, hacl⟩
  · rintro ⟨hitem, rfl, hacl⟩
    exact ⟨(hother item hi).mpr hitem, rfl, hacl⟩

theorem rights_retain : rights (retain acls accountId) = update (rights acls) accountId ∅ := by
  refine rights_eq_update (Set.eq_empty_iff_forall_notMem.mpr ?_) fun item hne => ?_
  · rintro acl ⟨item, hitem, hid, -⟩
    simp [retain, hid] at hitem
  · simp [retain, hne]

/-- After an edit one account has the rights, and the others have theirs. -/
structure Edited (acls acls' : List AclGrant) (accountId : ℕ) (s : Set Acl) : Prop where
  wf : WellFormed acls'
  rights : rights acls' = Function.update (rights acls) accountId s

section

variable (h : WellFormed acls)

include h

theorem WellFormed.edited_self (hfind : find acls accountId = none) :
    Edited acls acls accountId ∅ :=
  ⟨h, by rw [← rights_of_find_none hfind, update_eq_self]⟩

/-- An account gets an entry, and the entries of the others stay. -/
theorem WellFormed.edited_of_mem (hnodup : (acls'.map AclGrant.accountId).Nodup)
    (hvalid : grants.Valid) (hne : grants.isEmpty = false)
    (hmem : ∀ item, item ∈ acls' ↔ item = ⟨accountId, grants⟩ ∨
      (item ∈ acls ∧ item.accountId ≠ accountId)) : Edited acls acls' accountId grants.members := by
  refine ⟨⟨hnodup, fun item hitem => ?_, fun item hitem => ?_⟩,
    rights_eq_update (Set.ext fun acl => ⟨?_, fun hacl => ?_⟩) fun item hid => ?_⟩
  · rcases (hmem item).mp hitem with rfl | ⟨hitem, -⟩
    exacts [hvalid, h.valid item hitem]
  · rcases (hmem item).mp hitem with rfl | ⟨hitem, -⟩
    exacts [hne, h.nonempty item hitem]
  · rintro ⟨item, hitem, hid, hacl⟩
    rcases (hmem item).mp hitem with rfl | ⟨-, hother⟩
    exacts [hacl, absurd hid hother]
  · exact ⟨_, (hmem _).mpr (.inl rfl), rfl, hacl⟩
  · rw [hmem]
    refine ⟨?_, fun hitem => .inr ⟨hitem, hid⟩⟩
    rintro (rfl | ⟨hitem, -⟩)
    exacts [absurd rfl hid, hitem]

theorem WellFormed.edited_modify (hfind : find acls accountId = some item)
    (hvalid : (f item.grants).Valid) (hne : (f item.grants).isEmpty = false) :
    Edited acls (modify acls accountId f) accountId (f item.grants).members := by
  refine h.edited_of_mem ?_ hvalid hne fun _ => h.mem_modify hfind
  rw [AclGrant.modify, map_key_updateFirst (mapGrants f) fun _ => rfl]
  exact h.nodup

theorem WellFormed.edited_append (hfind : find acls accountId = none) (hvalid : grants.Valid)
    (hne : grants.isEmpty = false) :
    Edited acls (acls ++ [⟨accountId, grants⟩]) accountId grants.members := by
  have hnew := find_eq_none hfind
  refine h.edited_of_mem (nodup_append_singleton h.nodup hnew) hvalid hne fun item => ?_
  rw [mem_append, mem_singleton, or_comm]
  exact or_congr_right ⟨fun hitem => ⟨hitem, hnew item hitem⟩, And.left⟩

/-- The rights of an account are replaced, and its entry removed if none are left. -/
theorem WellFormed.edited_replace (hfind : find acls accountId = some item)
    (hvalid : grants.Valid) :
    Edited acls (if grants.isEmpty then AclGrant.retain acls accountId
      else modify acls accountId fun _ => grants) accountId grants.members := by
  split
  case isTrue he =>
    rw [hvalid.isEmpty_iff.mp he]
    exact ⟨h.retain, rights_retain⟩
  case isFalse he => exact h.edited_modify hfind hvalid (Bool.eq_false_iff.mpr he)

/-- An account without an entry gets one, if there are rights. -/
theorem WellFormed.edited_push (hfind : find acls accountId = none) (hvalid : grants.Valid) :
    Edited acls (if grants.isEmpty then acls else acls ++ [⟨accountId, grants⟩]) accountId
      grants.members := by
  split
  case isTrue he =>
    rw [hvalid.isEmpty_iff.mp he]
    exact h.edited_self hfind
  case isFalse he => exact h.edited_append hfind hvalid (Bool.eq_false_iff.mpr he)

end

end AclGrant

/-- A mailbox, of which only the access control list is modelled. -/
structure Mailbox where
  acls : List AclGrant
  wf : AclGrant.WellFormed acls

/-! ## IMAP: `SETACL` and `DELETEACL` -/

/-- The rights of `SETACL`, `imap_proto::protocol::acl::Rights`. -/
inductive Rights where
  | lookup
  | read
  | seen
  | write
  | insert
  | post
  | createMailbox
  | deleteMailbox
  | deleteMessages
  | expunge
  | administer
  deriving DecidableEq

/-- `From<Rights> for Acl`. -/
def Acl.ofRights : Rights → Acl
  | .lookup => .read
  | .read => .readItems
  | .seen => .modifyItems
  | .write => .modifyItems
  | .insert => .addItems
  | .post => .submit
  | .createMailbox => .createChild
  | .deleteMailbox => .delete
  | .deleteMessages => .removeItems
  | .expunge => .removeItems
  | .administer => .share

/-- What a `SETACL` does with its rights, `ModRightsOp`. -/
inductive ModRightsOp where
  | add
  | remove
  | replace
  deriving DecidableEq

/-- The third argument of `SETACL`, `ModRights`. -/
structure ModRights where
  op : ModRightsOp
  rights : List Rights
  deriving DecidableEq

namespace Mailbox

open AclGrant

/-- The part of `handle_set_acl` that changes the list. -/
def editAcls (acls : List AclGrant) (aclAccountId : ℕ) (op : ModRightsOp) (rights : Bitmap Acl) :
    List AclGrant :=
  match find acls aclAccountId with
  | some item =>
    match op with
    | .replace =>
      if !rights.isEmpty then modify acls aclAccountId fun _ => rights
      else retain acls aclAccountId
    | .add => modify acls aclAccountId (·.union rights)
    | .remove =>
      -- `for right in rights { item.grants.remove(right) }`
      let grants := rights.toList.foldl Bitmap.remove item.grants
      let acls := modify acls aclAccountId fun _ => grants
      if grants.isEmpty then retain acls aclAccountId else acls
  | none =>
    if !rights.isEmpty then
      match op with
      | .add | .replace => acls ++ [⟨aclAccountId, rights⟩]
      | .remove => acls
    else acls

/-! ### The rights after `SETACL` -/

section Edit

variable {acls : List AclGrant} {aclAccountId : ℕ} {rights : Bitmap Acl}

/-- `if !rights.is_empty()`. -/
theorem ite_not_isEmpty {α : Type} (grants : Bitmap Acl) (x y : α) :
    (if !grants.isEmpty then x else y) = if grants.isEmpty then y else x := by
  cases grants.isEmpty <;> rfl

theorem edited_editAcls_replace (h : WellFormed acls) (hr : rights.Valid) :
    Edited acls (editAcls acls aclAccountId .replace rights) aclAccountId rights.members := by
  cases hfind : find acls aclAccountId with
  | some item =>
    simp only [editAcls, hfind, ite_not_isEmpty]
    exact h.edited_replace hfind hr
  | none =>
    simp only [editAcls, hfind, ite_not_isEmpty]
    exact h.edited_push hfind hr

/-- Rights are added to those of the account, and nobody else is affected. -/
theorem edited_editAcls_add (h : WellFormed acls) (hr : rights.Valid) :
    Edited acls (editAcls acls aclAccountId .add rights) aclAccountId
      (AclGrant.rights acls aclAccountId ∪ rights.members) := by
  cases hfind : find acls aclAccountId with
  | some item =>
    have hitem := (find_eq_some hfind).1
    have hvalid := (h.valid item hitem).union hr
    rw [h.rights_of_find hfind, ← members_union]
    simp only [editAcls, hfind]
    refine h.edited_modify hfind hvalid (Bool.eq_false_iff.mpr fun he => ?_)
    -- a union is empty only if the entry was
    rw [hvalid.isEmpty_iff, members_union, Set.union_empty_iff,
      ← (h.valid item hitem).isEmpty_iff, h.nonempty item hitem] at he
    cases he.1
  | none =>
    rw [rights_of_find_none hfind, Set.empty_union]
    simp only [editAcls, hfind, ite_not_isEmpty]
    exact h.edited_push hfind hr

/-- Removing rights toggles them in the entry of the account, if it has one. -/
theorem edited_editAcls_remove (h : WellFormed acls) (hr : rights.Valid) {item : AclGrant}
    (hfind : find acls aclAccountId = some item) :
    Edited acls (editAcls acls aclAccountId .remove rights) aclAccountId
      (symmDiff (AclGrant.rights acls aclAccountId) rights.members) := by
  have hvalid := (h.valid item (find_eq_some hfind).1).xor hr
  rw [← foldl_remove_toList _ hr] at hvalid
  rw [h.rights_of_find hfind, ← members_foldl_remove_toList _ hr]
  simp only [editAcls, hfind, retain_modify]
  exact h.edited_replace hfind hvalid

theorem editAcls_remove_of_find_none (hfind : find acls aclAccountId = none) :
    editAcls acls aclAccountId .remove rights = acls := by
  simp [editAcls, hfind]

/-- `SETACL` keeps one entry per account and no entry without rights. -/
theorem wellFormed_editAcls (h : WellFormed acls) (hr : rights.Valid) (aclAccountId : ℕ)
    (op : ModRightsOp) : WellFormed (editAcls acls aclAccountId op rights) := by
  cases op with
  | replace => exact (edited_editAcls_replace h hr).wf
  | add => exact (edited_editAcls_add h hr).wf
  | remove =>
    cases hfind : find acls aclAccountId with
    | some item => exact (edited_editAcls_remove h hr hfind).wf
    | none => rwa [editAcls_remove_of_find_none hfind]

end Edit

/-- The operation and the rights of a `SETACL`; a `DELETEACL` replaces them by none. -/
def modRights : Option ModRights → ModRightsOp × Bitmap Acl
  | some mr => (mr.op, Bitmap.fromIter (mr.rights.map Acl.ofRights))
  | none => (.replace, Bitmap.new)

theorem valid_modRights (mr : Option ModRights) : (modRights mr).2.Valid := by
  cases mr with
  | some mr => exact valid_fromIter _
  | none => exact valid_new

/-- `handle_set_acl`, for a mailbox and the account `aclAccountId` of the identifier. -/
def handleSetAcl (maxSharesPerItem : ℕ) (mailbox : Mailbox) (aclAccountId : Option ℕ)
    (mr : Option ModRights) : Except String Mailbox :=
  match aclAccountId with
  | none => .error "Account does not exist"
  | some id =>
    let acls := editAcls mailbox.acls id (modRights mr).1 (modRights mr).2
    if acls.length > maxSharesPerItem then .error "Maximum shares per item exceeded"
    else .ok ⟨acls, wellFormed_editAcls mailbox.wf (valid_modRights mr) id _⟩

/-- The rights a mailbox gives to an account. -/
def rights (mailbox : Mailbox) : ℕ → Set Acl := AclGrant.rights mailbox.acls

end Mailbox

/-- What `SETACL` is meant to do with the rights `G` of an account. -/
def ModRightsOp.apply (G R : Set Acl) : ModRightsOp → Set Acl
  | .add => G ∪ R
  | .remove => G \ R
  | .replace => R

/-- The set of rights of a `SETACL`. -/
def ModRights.toSet (mr : ModRights) : Set Acl := {acl | ∃ r ∈ mr.rights, Acl.ofRights r = acl}

namespace Mailbox

open AclGrant

variable (mailbox : Mailbox)

/-- Whenever `SETACL` is accepted, the rights of the account are those of `ModRightsOp.apply`, those
    of the others stay, and every entry has rights. -/
def SetAclExact (aclAccountId : ℕ) (mr : ModRights) : Prop :=
  ∀ maxSharesPerItem mailbox',
    handleSetAcl maxSharesPerItem mailbox (some aclAccountId) (some mr) = .ok mailbox' →
      mailbox'.rights = Function.update mailbox.rights aclAccountId
          (mr.op.apply (mailbox.rights aclAccountId) mr.toSet) ∧
        ∀ item ∈ mailbox'.acls, item.grants.members.Nonempty

theorem members_modRights (mr : ModRights) : (modRights (some mr)).2.members = mr.toSet := by
  ext acl
  simp only [members, modRights, mem_fromIter, mem_map]
  refine ⟨And.left, fun h => ⟨h, ?_⟩⟩
  -- every right of the protocol is a valid one
  obtain ⟨r, -, rfl⟩ := h
  cases r <;> rfl

/-- An accepted command stores the edited list. -/
theorem handleSetAcl_ok {mailbox mailbox' : Mailbox} {maxSharesPerItem aclAccountId : ℕ}
    {mr : Option ModRights}
    (h : handleSetAcl maxSharesPerItem mailbox (some aclAccountId) mr = .ok mailbox') :
    mailbox'.acls = editAcls mailbox.acls aclAccountId (modRights mr).1 (modRights mr).2 := by
  simp only [handleSetAcl] at h
  split at h
  · cases h
  · rw [← ok.inj h]

/-- With enough shares allowed, the command is accepted. -/
theorem exists_handleSetAcl_ok (aclAccountId : ℕ) (mr : Option ModRights) :
    ∃ maxSharesPerItem mailbox',
      handleSetAcl maxSharesPerItem mailbox (some aclAccountId) mr = .ok mailbox' := by
  have hwf := wellFormed_editAcls mailbox.wf (valid_modRights mr) aclAccountId (modRights mr).1
  refine ⟨(editAcls mailbox.acls aclAccountId (modRights mr).1 (modRights mr).2).length,
    ⟨_, hwf⟩, ?_⟩
  simp [handleSetAcl]

theorem nonempty_members : ∀ item ∈ mailbox.acls, item.grants.members.Nonempty := by
  intro item hitem
  rw [Set.nonempty_iff_ne_empty, ne_eq, ← (mailbox.wf.valid item hitem).isEmpty_iff]
  exact Bool.eq_false_iff.mp (mailbox.wf.nonempty item hitem)

/-- The rights after an accepted command are those of the edited list, whose entries all have
    rights. So only the rights matter. -/
theorem setAclExact_iff_rights {mailbox : Mailbox} {aclAccountId : ℕ} {mr : ModRights} :
    mailbox.SetAclExact aclAccountId mr ↔
      AclGrant.rights (editAcls mailbox.acls aclAccountId mr.op (modRights (some mr)).2) =
        update mailbox.rights aclAccountId
          (mr.op.apply (mailbox.rights aclAccountId) mr.toSet) := by
  constructor
  · intro h
    obtain ⟨maxSharesPerItem, mailbox', hok⟩ :=
      exists_handleSetAcl_ok mailbox aclAccountId (some mr)
    have hacls : mailbox'.acls = _ := handleSetAcl_ok hok
    exact hacls ▸ (h maxSharesPerItem mailbox' hok).1
  · intro h maxSharesPerItem mailbox' hok
    have hacls : mailbox'.acls = _ := handleSetAcl_ok hok
    exact ⟨(congrArg AclGrant.rights hacls).trans h, nonempty_members mailbox'⟩

/-- `SETACL` is exact unless it removes from an account with rights one that it does not have. -/
theorem handleSetAcl_exact_iff (mailbox : Mailbox) (aclAccountId : ℕ) (mr : ModRights) :
    mailbox.SetAclExact aclAccountId mr ↔
      (mr.op = .remove →
        mailbox.rights aclAccountId = ∅ ∨ mr.toSet ⊆ mailbox.rights aclAccountId) := by
  have hr := valid_modRights (some mr)
  rw [setAclExact_iff_rights]
  cases hop : mr.op with
  | replace =>
    rw [(edited_editAcls_replace mailbox.wf hr).rights, members_modRights]
    exact iff_of_true rfl (fun h => by cases h)
  | add =>
    rw [(edited_editAcls_add mailbox.wf hr).rights, members_modRights]
    exact iff_of_true rfl (fun h => by cases h)
  | remove =>
    simp only [ModRightsOp.apply, forall_const]
    cases hfind : find mailbox.acls aclAccountId with
    | none =>
      have hempty : mailbox.rights aclAccountId = ∅ := rights_of_find_none hfind
      rw [editAcls_remove_of_find_none hfind, hempty, Set.empty_sdiff, ← hempty, update_eq_self]
      exact iff_of_true rfl (.inl rfl)
    | some item =>
      have hne : mailbox.rights aclAccountId ≠ ∅ := by
        rw [rights, mailbox.wf.rights_of_find hfind]
        exact (mailbox.nonempty_members item (find_eq_some hfind).1).ne_empty
      rw [(edited_editAcls_remove mailbox.wf hr hfind).rights, members_modRights,
        or_iff_right hne, ← rights, (update_injective _ _).eq_iff]
      -- the symmetric difference is the difference only for a subset
      rw [Set.symmDiff_def, Set.union_eq_left]
      constructor
      · intro h acl hacl
        by_contra hG
        exact (h ⟨hacl, hG⟩).2 hacl
      · intro h acl hacl
        exact absurd (h hacl.1) hacl.2

/-- A mailbox whose only grant lets account `7` look it up. -/
def sharedForLookup : Mailbox where
  acls := [⟨7, Bitmap.fromIter [.read]⟩]
  wf := ⟨by decide, by decide, by decide⟩

/-- Removing the right to insert messages grants it to an account that may only look a mailbox
    up. -/
theorem not_setAclExact_remove : ¬ sharedForLookup.SetAclExact 7 ⟨.remove, [.insert]⟩ := by
  intro h
  obtain ⟨maxSharesPerItem, mailbox', hok⟩ :=
    exists_handleSetAcl_ok sharedForLookup 7 (some ⟨.remove, [.insert]⟩)
  have hacls : mailbox'.acls = [⟨7, fromIter [.read, .addItems]⟩] :=
    (handleSetAcl_ok hok).trans (by decide)
  have hrights := congrFun (h maxSharesPerItem mailbox' hok).1 7
  have hmem : Acl.addItems ∈ mailbox'.rights 7 := ⟨_, hacls ▸ mem_singleton_self _, rfl, by decide⟩
  rw [hrights] at hmem
  exact hmem.2 ⟨.insert, mem_singleton_self _, rfl⟩

end Mailbox

/-! ## JMAP: `shareWith` -/

/-- The rights of the JMAP `Mailbox` object, `MailboxRight`. -/
inductive MailboxRight where
  | mayReadItems
  | mayAddItems
  | mayRemoveItems
  | maySetSeen
  | maySetKeywords
  | mayCreateChild
  | mayRename
  | maySubmit
  | mayDelete
  | mayShare
  deriving DecidableEq

def MailboxRight.toAcl : MailboxRight → List Acl
  | mayReadItems => [.read, .readItems]
  | mayAddItems => [.addItems]
  | mayRemoveItems => [.removeItems]
  | maySetSeen => [.modifyItems]
  | maySetKeywords => [.modifyItems]
  | mayCreateChild => [.createChild]
  | mayRename => [.modify]
  | maySubmit => [.submit]
  | mayDelete => [.delete]
  | mayShare => [.share]

/-- A key that should name a right: the right, or the text of one that names none. -/
abbrev RightKey := Except String MailboxRight

/-- The value of a `shareWith` patch: a truth value, `null`, or the keys set in an object, none for
    other values. -/
inductive ShareValue where
  | bool (isSet : Bool)
  | null
  | set (keys : List RightKey)

/-- `into_expanded_boolean_set`. -/
def ShareValue.keys : ShareValue → List RightKey
  | .set keys => keys
  | _ => []

namespace Mailbox

open AclGrant

/-- `JmapRights::map_acls`. -/
def mapAcls (keys : List RightKey) : Except String (Bitmap Acl) :=
  keys.foldlM (fun acls key =>
    match key with
    | .ok right => .ok (acls.insertMany right.toAcl)
    | .error key => .error ("Invalid permission " ++ key.quote ++ ".")) Bitmap.new

/-- One round of the loop of `JmapRights::acl_set`, for a key and its value. -/
def aclSetStep (grants : List AclGrant) (entry : Option ℕ × ShareValue) :
    Except String (List AclGrant) :=
  match entry.1 with
  | none => .error "Invalid account id."
  | some accountId =>
    if !grants.any (·.accountId == accountId) then do
      let acls ← mapAcls entry.2.keys
      if !acls.isEmpty then .ok (grants ++ [⟨accountId, acls⟩]) else .ok grants
    else .ok grants

/-- `JmapRights::acl_set`: the list for the keys and values of a JSON object. -/
def aclSet (value : List (Option ℕ × ShareValue)) : Except String (List AclGrant) :=
  value.foldlM aclSetStep []

/-- `JmapRights::acl_patch`: `right` is the second component of the path, if any, and `deeper` says
    if there is a third. -/
def aclPatch (grants : List AclGrant) (accountId : Option ℕ) (right : Option RightKey)
    (deeper : Bool) (value : ShareValue) : Except String (List AclGrant) :=
  match accountId with
  | none => .error "Invalid account id."
  | some accountId =>
    match right with
    | some right =>
      if deeper then .error "Invalid path for ACL patch." else
      match value with
      | .set _ => .error "Invalid ACL value."
      | .bool isSet => patchRight grants accountId right isSet
      | .null => patchRight grants accountId right false
    | none => do
      let acls ← mapAcls value.keys
      if !acls.isEmpty then
        if (find grants accountId).isSome then .ok (modify grants accountId fun _ => acls)
        else .ok (grants ++ [⟨accountId, acls⟩])
      else .ok (retain grants accountId)
where
  /-- The patch of one right of an account. -/
  patchRight (grants : List AclGrant) (accountId : ℕ) (right : RightKey) (isSet : Bool) :
      Except String (List AclGrant) :=
    match right with
    | .error key => .error ("Invalid permission " ++ key.quote ++ ".")
    | .ok right =>
      match find grants accountId with
      | some item =>
        if isSet then .ok (modify grants accountId (·.insertMany right.toAcl))
        else
          let acls := item.grants.removeMany right.toAcl
          let grants := modify grants accountId fun _ => acls
          if acls.isEmpty then .ok (retain grants accountId) else .ok grants
      | none =>
        if isSet then .ok (grants ++ [⟨accountId, Bitmap.fromIter right.toAcl⟩])
        else .ok grants

theorem isValid_toAcl (right : MailboxRight) :
    ∀ acl ∈ right.toAcl, BitmapItem.isValid acl = true := by
  cases right <;> decide

theorem valid_mapAcls {keys : List RightKey} {acls : Bitmap Acl} (h : mapAcls keys = .ok acls) :
    acls.Valid := by
  refine Lib.Loop.foldlM_ok_induction valid_new (fun b key b' _ hb hstep => ?_) h
  cases key with
  | error key => cases hstep
  | ok right => exact ok.inj hstep ▸ hb.insertMany (isValid_toAcl right)

variable {grants grants' : List AclGrant}

theorem wellFormed_aclSetStep (hwf : WellFormed grants) {entry : Option ℕ × ShareValue}
    (h : aclSetStep grants entry = .ok grants') : WellFormed grants' := by
  obtain ⟨_ | accountId, value⟩ := entry
  · cases h
  simp only [aclSetStep] at h
  split at h
  · rename_i hany
    have hfind : find grants accountId = none := by simpa [find] using hany
    obtain ⟨acls, hacls, h⟩ := Lib.Loop.bind_eq_ok_iff.mp h
    rw [ite_not_isEmpty, ← apply_ite] at h
    exact ok.inj h ▸ (hwf.edited_push hfind (valid_mapAcls hacls)).wf
  · exact ok.inj h ▸ hwf

theorem wellFormed_patchRight (hwf : WellFormed grants) {accountId : ℕ} {right : RightKey}
    {isSet : Bool} (h : aclPatch.patchRight grants accountId right isSet = .ok grants') :
    WellFormed grants' := by
  cases right with
  | error key => cases h
  | ok right =>
    simp only [aclPatch.patchRight] at h
    split at h
    · rename_i item hfind
      have hitem := find_eq_some hfind
      have hvalid := hwf.valid item hitem.1
      split at h
      · have hvalid' := hvalid.insertMany (isValid_toAcl right)
        refine ok.inj h ▸ (hwf.edited_modify hfind hvalid' (Bool.eq_false_iff.mpr fun he => ?_)).wf
        obtain ⟨acl, hacl⟩ : ∃ acl, acl ∈ right.toAcl := by cases right <;> exact ⟨_, mem_cons_self⟩
        have hmem : acl ∈ item.grants.insertMany right.toAcl := mem_insertMany.mpr (.inl hacl)
        exact Set.eq_empty_iff_forall_notMem.mp (hvalid'.isEmpty_iff.mp he) acl hmem
      · rw [retain_modify, ← apply_ite] at h
        exact ok.inj h ▸ (hwf.edited_replace hfind (hvalid.removeMany _)).wf
    · rename_i hfind
      split at h
      · refine ok.inj h ▸ (hwf.edited_append hfind (valid_fromIter _) ?_).wf
        cases right <;> rfl
      · exact ok.inj h ▸ hwf

/-- `acl_patch` keeps the list well formed. -/
theorem wellFormed_aclPatch (hwf : WellFormed grants) {accountId : Option ℕ}
    {right : Option RightKey} {deeper : Bool} {value : ShareValue}
    (h : aclPatch grants accountId right deeper value = .ok grants') : WellFormed grants' := by
  cases accountId with
  | none => cases h
  | some accountId =>
    cases right with
    | some right =>
      simp only [aclPatch] at h
      split at h
      · cases h
      cases value with
      | set keys => cases h
      | bool isSet => exact wellFormed_patchRight hwf h
      | null => exact wellFormed_patchRight hwf h
    | none =>
      obtain ⟨acls, hacls, h⟩ := Lib.Loop.bind_eq_ok_iff.mp h
      have hvalid := valid_mapAcls hacls
      split at h
      · rename_i he
        have hne : acls.isEmpty = false := by simpa using he
        cases hfind : find grants accountId with
        | some item =>
          rw [hfind] at h
          exact ok.inj h ▸ (hwf.edited_modify hfind hvalid hne).wf
        | none =>
          rw [hfind] at h
          exact ok.inj h ▸ (hwf.edited_append hfind hvalid hne).wf
      -- an entry without rights is removed
      · exact ok.inj h ▸ hwf.retain

/-- A patch that clears a right of an account removes what it stands for, and nothing else. -/
theorem rights_aclPatch_remove (hwf : WellFormed grants) {accountId : ℕ} {right : MailboxRight}
    {value : ShareValue} (hvalue : value = .bool false ∨ value = .null)
    (h : aclPatch grants (some accountId) (some (.ok right)) false value = .ok grants') :
    AclGrant.rights grants' = update (AclGrant.rights grants) accountId
      (AclGrant.rights grants accountId \ {acl | acl ∈ right.toAcl}) := by
  replace h : aclPatch.patchRight grants accountId (.ok right) false = .ok grants' := by
    rcases hvalue with rfl | rfl <;> exact h
  simp only [aclPatch.patchRight, Bool.false_eq_true, if_false] at h
  split at h
  · rename_i item hfind
    have hmembers : (item.grants.removeMany right.toAcl).members =
        item.grants.members \ {acl | acl ∈ right.toAcl} := Set.ext fun _ => mem_removeMany
    have hvalid := (hwf.valid item (find_eq_some hfind).1).removeMany right.toAcl
    rw [hwf.rights_of_find hfind, ← hmembers]
    rw [retain_modify, ← apply_ite] at h
    exact ok.inj h ▸ (hwf.edited_replace hfind hvalid).rights
  · rename_i hfind
    rw [← ok.inj h, rights_of_find_none hfind, Set.empty_sdiff]
    exact (hwf.edited_self hfind).rights

/-- The right to look a mailbox up stays when the one to add messages is cleared. -/
theorem rights_sharedForLookup :
    sharedForLookup.rights = update sharedForLookup.rights 7
      (sharedForLookup.rights 7 \ {acl | acl ∈ MailboxRight.mayAddItems.toAcl}) :=
  rights_aclPatch_remove sharedForLookup.wf (.inr rfl) rfl

/-- The lists of a mailbox: it starts empty, and IMAP and JMAP write it. -/
inductive Written : List AclGrant → Prop
  | init : Written []
  | setAcl {acls : List AclGrant} (id : ℕ) (mr : Option ModRights) : Written acls →
      Written (editAcls acls id (modRights mr).1 (modRights mr).2)
  | aclSet {acls : List AclGrant} {value : List (Option ℕ × ShareValue)} :
      aclSet value = .ok acls → Written acls
  | aclPatch {acls acls' : List AclGrant} {accountId : Option ℕ} {right : Option RightKey}
      {deeper : Bool} {value : ShareValue} : Written acls →
      aclPatch acls accountId right deeper value = .ok acls' → Written acls'

/-- All of them are well formed, which is what `Mailbox` requires. -/
theorem Written.wellFormed {acls : List AclGrant} (h : Written acls) : WellFormed acls := by
  induction h with
  | init => exact wellFormed_nil
  | setAcl id mr _ ih => exact wellFormed_editAcls ih (valid_modRights mr) id _
  | aclSet h =>
    exact Lib.Loop.foldlM_ok_induction wellFormed_nil
      (fun _ _ _ _ hwf => wellFormed_aclSetStep hwf) h
  | aclPatch _ h ih => exact wellFormed_aclPatch ih h

theorem wellFormed_mayReadItems : WellFormed [⟨7, .fromIter [.read, .readItems]⟩] :=
  Written.wellFormed (@Written.aclSet _ [(some 7, .set [.ok .mayReadItems])] rfl)

end Mailbox

end Inworkspace
