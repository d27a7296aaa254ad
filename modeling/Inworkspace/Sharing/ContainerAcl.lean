import Inworkspace.Sharing.Resources

/-!
# The rights of a token on a container

An access control list can have several entries for a token: one for its account and one for each
of its groups. Three functions of `common::sharing::resources` ask what the token may do:

* `container_acl` is the union of these entries (`mem_containerAcl`);
* `has_access_to_container` looks at the first of them only;
* `shared_containers` tests them one by one.

So they agree exactly when one entry decides (`agree_iff`): the first one has a right that is
asked for if any has, and one has all of the rights if together they have. If no right is asked
for, they do not agree: the list contains all of no rights, but does not contain any of them.
-/

namespace Inworkspace

open List

/-- What the entries for the token grant. -/
def AccessToken.grantsOf (token : AccessToken) (acls : List AclGrant) : List (Bitmap Acl) :=
  (acls.filter fun acl => token.isMember acl.accountId).map AclGrant.grants

/-- One of the entries for the token decides about the rights. -/
def AccessToken.OneDecides (token : AccessToken) (acls : List AclGrant) (rights : List Acl) :
    Prop :=
  (∃ right ∈ rights, right ≠ .none) ∧
  ((∃ grants ∈ token.grantsOf acls, ∃ right ∈ rights, right ≠ .none ∧ right ∈ grants) →
    ∃ grants ∈ (token.grantsOf acls).head?, ∃ right ∈ rights, right ≠ .none ∧ right ∈ grants) ∧
  ((∀ right ∈ rights, right ≠ .none → ∃ grants ∈ token.grantsOf acls, right ∈ grants) →
    ∃ grants ∈ token.grantsOf acls, ∀ right ∈ rights, right ≠ .none → right ∈ grants)

namespace DavResources

variable (self : DavResources) (token : AccessToken) (documentId : ℕ)

/-- The list of the first resource with the id that has one, where the loops end. -/
def aclsOf : Option (List AclGrant) :=
  self.resources.findSome? fun resource =>
    if resource.documentId = documentId then resource.acls else none

def hasAccessToContainer (checkAcls : Bitmap Acl) : Bool :=
  match self.aclsOf documentId with
  | some acls =>
    -- the first entry decides, whatever others grant
    match acls.find? fun acl => token.isMember acl.accountId with
    | some acl => !(acl.grants.intersection checkAcls).isEmpty
    | none => false
  | none => false

def containerAcl : Bitmap Acl :=
  match self.aclsOf documentId with
  | some acls => acls.foldl (fun accountAcls acl =>
      if token.isMember acl.accountId then accountAcls.union acl.grants else accountAcls) .new
  | none => .new

/-- The functions agree: the token has access if it has any of the rights, and the container is
    shared if it has all, or any, of them. -/
structure Agree (cache : DavResources) (token : AccessToken) (documentId : ℕ) (rights : List Acl) :
    Prop where
  access : cache.hasAccessToContainer token documentId (.fromIter rights) = true ↔
    ∃ right ∈ rights, right ≠ .none ∧ right ∈ cache.containerAcl token documentId
  matchAll : documentId ∈ cache.sharedContainers token rights false ↔
    ∀ right ∈ rights, right ≠ .none → right ∈ cache.containerAcl token documentId
  matchAny : documentId ∈ cache.sharedContainers token rights true ↔
    ∃ right ∈ rights, right ≠ .none ∧ right ∈ cache.containerAcl token documentId

variable {self} {kind : DavKind} {r : DavResource} {acls : List AclGrant}

/-- The ids of what has a list are unique. -/
theorem Coherent.eq_of_acls (hself : self.Coherent kind) {r r' : DavResource}
    (hr : r ∈ self.resources) (hr' : r' ∈ self.resources) (hacls : r.acls.isSome = true)
    (hacls' : r'.acls.isSome = true) (hid : r.documentId = r'.documentId) : r = r' := by
  refine hself.eq_of_id_eq r hr r' hr' ?_ hid
  have hcol := hself.collection r hr
  have hcol' := hself.collection r' hr'
  obtain ⟨id, data⟩ := r
  obtain ⟨id', data'⟩ := r'
  cases kind <;> cases data <;> cases data' <;>
    simp_all [DavResource.collection, DavKind.containers, DavKind.items, DavResource.acls]

/-- The grants found by the id are those of the resource. -/
theorem Coherent.aclsOf_eq (hself : self.Coherent kind) (hr : r ∈ self.resources)
    (hacls : r.acls = some acls) : self.aclsOf r.documentId = some acls := by
  cases hfind : self.aclsOf r.documentId with
  | none =>
    have hnone := findSome?_eq_none_iff.mp hfind r hr
    rw [if_pos rfl, hacls] at hnone
    cases hnone
  | some acls' =>
    obtain ⟨r', hr', hfound⟩ := exists_of_findSome?_eq_some hfind
    split_ifs at hfound with hid
    obtain rfl := hself.eq_of_acls hr' hr (by rw [hfound]; rfl) (by rw [hacls]; rfl) hid
    rw [← hfound, hacls]

/-- The rights of the token are those of all entries for it. -/
theorem mem_containerAcl {documentId : ℕ} (hacls : self.aclsOf documentId = some acls)
    {right : Acl} :
    right ∈ self.containerAcl token documentId ↔
      ∃ grants ∈ token.grantsOf acls, right ∈ grants := by
  have hfold : ∀ accountAcls : Bitmap Acl, right ∈ acls.foldl (fun accountAcls acl =>
          if token.isMember acl.accountId then accountAcls.union acl.grants else accountAcls)
          accountAcls ↔
        right ∈ accountAcls ∨ ∃ grants ∈ token.grantsOf acls, right ∈ grants := by
    clear hacls
    induction acls with
    | nil => simp [AccessToken.grantsOf]
    | cons acl acls ih =>
      intro accountAcls
      rw [foldl_cons, ih, AccessToken.grantsOf, AccessToken.grantsOf]
      cases hmember : token.isMember acl.accountId <;> simp [hmember, or_assoc]
  rw [containerAcl, hacls, hfold]
  simp

theorem hasAccessToContainer_iff {documentId : ℕ} (hacls : self.aclsOf documentId = some acls)
    (rights : List Acl) :
    self.hasAccessToContainer token documentId (.fromIter rights) = true ↔
      ∃ grants ∈ (token.grantsOf acls).head?, ∃ right ∈ rights, right ≠ .none ∧ right ∈ grants := by
  rw [hasAccessToContainer, hacls, AccessToken.grantsOf, head?_map, head?_filter]
  dsimp only
  cases acls.find? fun acl => token.isMember acl.accountId with
  | none => simp
  | some acl =>
    simp [(Bitmap.valid_fromIter rights).isEmpty_intersection_iff, Acl.mem_fromIter, and_assoc]

/-- A container is shared by what its own list grants. -/
theorem mem_sharedContainers_iff (hself : self.Coherent kind) (hr : r ∈ self.resources)
    (hacls : r.acls = some acls) (rights : List Acl) (matchAny : Bool) :
    r.documentId ∈ self.sharedContainers token rights matchAny ↔
      ∃ grants ∈ token.grantsOf acls, (∀ right ∈ rights, right ≠ .none → right ∈ grants) ∨
        matchAny = true ∧ ∃ right ∈ rights, right ≠ .none ∧ right ∈ grants := by
  rw [mem_sharedContainers]
  constructor
  · rintro ⟨r', hr', ⟨acls', hacls', acl, hacl, hmember, hgrants⟩, hid⟩
    obtain rfl := hself.eq_of_acls hr hr' (by rw [hacls]; rfl) (by rw [hacls']; rfl) hid
    obtain rfl := Option.some.inj (hacls'.symm.trans hacls)
    exact ⟨acl.grants, mem_map_of_mem (mem_filter.mpr ⟨hacl, hmember⟩), hgrants⟩
  · rintro ⟨grants, hmem, hgrants⟩
    obtain ⟨acl, hacl, rfl⟩ := mem_map.mp hmem
    obtain ⟨hacl, hmember⟩ := mem_filter.mp hacl
    exact ⟨r, hr, ⟨acls, hacls, acl, hacl, hmember, hgrants⟩, rfl⟩

/-- The rights of the token are the union of its entries, and the functions agree exactly when one
    of these decides. -/
theorem agree_iff (hself : self.Coherent kind) (hr : r ∈ self.resources)
    (hacls : r.acls = some acls) (rights : List Acl) :
    (∀ right, right ∈ self.containerAcl token r.documentId ↔
        ∃ grants ∈ token.grantsOf acls, right ∈ grants) ∧
      (self.Agree token r.documentId rights ↔ token.OneDecides acls rights) := by
  have hof := hself.aclsOf_eq hr hacls
  have hall := mem_sharedContainers_iff token hself hr hacls rights false
  have hany := mem_sharedContainers_iff token hself hr hacls rights true
  have haccess := hasAccessToContainer_iff token hof rights
  simp only [Bool.false_eq_true, false_and, or_false] at hall
  simp only [true_and] at hany
  have hsome : (∃ right ∈ rights, right ≠ .none ∧ right ∈ self.containerAcl token r.documentId) ↔
      ∃ grants ∈ token.grantsOf acls, ∃ right ∈ rights, right ≠ .none ∧ right ∈ grants := by
    simp only [mem_containerAcl token hof]
    exact ⟨fun ⟨right, hright, hne, grants, hgrants, hmem⟩ =>
        ⟨grants, hgrants, right, hright, hne, hmem⟩,
      fun ⟨grants, hgrants, right, hright, hne, hmem⟩ =>
        ⟨right, hright, hne, grants, hgrants, hmem⟩⟩
  refine ⟨fun right => mem_containerAcl token hof, ?_, ?_⟩
  · intro h
    refine ⟨?_, fun hex => haccess.mp (h.access.mpr (hsome.mpr hex)), fun hex => ?_⟩
    · -- without rights, no right can be had, although the list has all of them
      by_contra hnone
      have hvacuous : ∀ right ∈ rights, right ≠ .none →
          right ∈ self.containerAcl token r.documentId :=
        fun right hright hne => absurd ⟨right, hright, hne⟩ hnone
      obtain ⟨grants, hgrants, hmem⟩ := hall.mp (h.matchAll.mpr hvacuous)
      obtain ⟨right, hright, hne, -⟩ := h.matchAny.mp (hany.mpr ⟨grants, hgrants, .inl hmem⟩)
      exact hnone ⟨right, hright, hne⟩
    · refine hall.mp (h.matchAll.mpr fun right hright hne => ?_)
      exact (mem_containerAcl token hof).mpr (hex right hright hne)
  · rintro ⟨⟨right₀, hright₀, hne₀⟩, hfirst, hone⟩
    refine ⟨haccess.trans ⟨fun ⟨grants, hgrants, hex⟩ => hsome.mpr ⟨grants, ?_, hex⟩,
        fun hex => hfirst (hsome.mp hex)⟩,
      hall.trans ⟨fun ⟨grants, hgrants, hmem⟩ right hright hne =>
          (mem_containerAcl token hof).mpr ⟨grants, hgrants, hmem right hright hne⟩,
        fun hmem => hone fun right hright hne =>
          (mem_containerAcl token hof).mp (hmem right hright hne)⟩,
      hany.trans (Iff.trans ?_ hsome.symm)⟩
    · exact mem_of_mem_head? hgrants
    · refine exists_congr fun grants => and_congr_right fun _ => or_iff_right_of_imp fun hmem => ?_
      exact ⟨right₀, hright₀, hne₀, hmem right₀ hright₀ hne₀⟩

/-! ## A calendar that is shared with an account and with its group -/

/-- A calendar that account 2 may use for free-busy queries, and group 9 may read. -/
def teamCalendar : DavResources :=
  buildCalcardResources
    [⟨1, .calendar "team"
      [⟨2, .fromIter [.schedulingReadFreeBusy]⟩, ⟨9, .fromIter [.read, .readItems]⟩]⟩] []

/-- The token of account 2, which is a member of group 9. -/
def memberToken : AccessToken :=
  { tokenOf 2 with inner := { (tokenOf 2).inner with memberOf := [9] } }

theorem coherent_teamCalendar : teamCalendar.Coherent .calendars :=
  coherent_buildCalcardResources (by decide) (by decide) (by simp) (by decide) (by simp)
    (by change ["team"].Nodup; decide)

/-- Account 9 itself has one entry only. -/
theorem agree_group : teamCalendar.Agree (tokenOf 9) 1 [.read] :=
  (agree_iff (tokenOf 9) coherent_teamCalendar mem_cons_self rfl [.read]).2.mpr
    ⟨⟨.read, by decide⟩, by decide +kernel, by decide +kernel⟩

/-- Account 2 may read the calendar, which is listed as shared with it, but has no access. -/
theorem not_agree_member :
    Acl.read ∈ teamCalendar.containerAcl memberToken 1 ∧
      1 ∈ teamCalendar.sharedContainers memberToken [.read] false ∧
      teamCalendar.hasAccessToContainer memberToken 1 (.fromIter [.read]) = false ∧
      ¬ teamCalendar.Agree memberToken 1 [.read] := by
  have hnot : teamCalendar.hasAccessToContainer memberToken 1 (.fromIter [.read]) = false := by
    decide +kernel
  have hmem : Acl.read ∈ teamCalendar.containerAcl memberToken 1 := by decide +kernel
  refine ⟨hmem, by decide +kernel, hnot, fun h => ?_⟩
  rw [h.access.mpr ⟨.read, mem_cons_self, by decide, hmem⟩] at hnot
  cases hnot

end DavResources

end Inworkspace
