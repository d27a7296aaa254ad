import Inworkspace.Types.Acl
import Inworkspace.Lib.KeyedList

/-!
# Cached calendars, address books and files

`common::storage::dav` and `groupware::cache`: the resources of an account are
cached with the paths they have. A calendar event or a contact card can be in
several containers, and has one path for each; a file or folder has one parent.

Document ids are unique within a collection only: a calendar and an event of
it can have the same id. `DavResources.Coherent` says what else holds of a
cache, and `coherent_buildCalcardResources` that it holds of the cache that is
built from the stored containers and items, provided their paths are distinct.
-/

namespace Inworkspace

open List

/-! ## Resources -/

/-- The name of an item in one of the containers it is in. -/
structure DavName where
  name : String
  parentId : ℕ
  deriving DecidableEq

/-- The cached data of a resource, `DavResourceMetadata`. -/
inductive DavResourceMetadata where
  | file (name : String) (size : Option ℕ) (parentId : Option ℕ) (acls : List AclGrant)
  | calendar (name : String) (acls : List AclGrant)
  | calendarEvent (names : List DavName)
  | calendarEventNotification (names : List DavName)
  | addressBook (name : String) (acls : List AclGrant)
  | contactCard (names : List DavName)
  deriving DecidableEq

/-- A cached resource. -/
structure DavResource where
  documentId : ℕ
  data : DavResourceMetadata
  deriving DecidableEq

/-- The collections the resources are stored in. -/
inductive Collection where
  | fileNode
  | calendar
  | calendarEvent
  | calendarEventNotification
  | addressBook
  | contactCard
  deriving DecidableEq

def scheduleInboxId : ℕ := 2 ^ 32 - 2

namespace DavResource

variable (self : DavResource)

def collection : Collection :=
  match self.data with
  | .file .. => .fileNode
  | .calendar .. => .calendar
  | .calendarEvent .. => .calendarEvent
  | .calendarEventNotification .. => .calendarEventNotification
  | .addressBook .. => .addressBook
  | .contactCard .. => .contactCard

def isChildOf (parentId : ℕ) : Bool :=
  match self.data with
  | .file _ _ id _ => id == some parentId
  | .calendarEvent names | .contactCard names => names.any (·.parentId == parentId)
  | .calendarEventNotification names => names.isEmpty && parentId == scheduleInboxId
  | _ => false

def childNames : Option (List DavName) :=
  match self.data with
  | .calendarEvent names | .contactCard names => some names
  | .calendarEventNotification names => if names.isEmpty then none else some names
  | _ => none

def containerName : Option String :=
  match self.data with
  | .file name .. | .calendar name _ | .addressBook name _ => some name
  | .calendarEventNotification names =>
    if names.isEmpty then
      some (if self.documentId = scheduleInboxId then "inbox" else "outbox")
    else none
  | _ => none

def isContainer : Bool :=
  match self.data with
  | .file _ size _ _ => size.isNone
  | .calendar .. | .addressBook .. => true
  | .calendarEventNotification names => names.isEmpty
  | _ => false

def acls : Option (List AclGrant) :=
  match self.data with
  | .file _ _ _ acls | .calendar _ acls | .addressBook _ acls => some acls
  | _ => none

end DavResource

/-- A path of a resource. Paths are equal in the source if their strings are. -/
structure DavPath where
  path : String
  parentId : Option ℕ
  hierarchySeq : ℕ
  resourceIdx : ℕ
  deriving DecidableEq

/-- The cached resources of an account, `DavResources`. -/
structure DavResources where
  paths : List DavPath
  resources : List DavResource
  deriving DecidableEq

/-! ## What holds of a cache -/

/-- What a cache is of. -/
inductive DavKind where
  | calendars
  | addressBooks
  | files
  deriving DecidableEq

/-- The collection of the containers of a cache. -/
def DavKind.containers : DavKind → Collection
  | calendars => .calendar
  | addressBooks => .addressBook
  | files => .fileNode

/-- The collection of the items of a cache. -/
def DavKind.items : DavKind → Collection
  | calendars => .calendarEvent
  | addressBooks => .contactCard
  | files => .fileNode

/-- The ids are unique in each collection, and the paths are the child relation of the resources.
    The parent of a file is a folder: this is checked when the file is stored, and assumed from
    then on, as an update that makes a file of the folder does not look for children. -/
structure DavResources.Coherent (kind : DavKind) (cache : DavResources) : Prop where
  collection : ∀ r ∈ cache.resources, r.collection = kind.containers ∨ r.collection = kind.items
  eq_of_id_eq : ∀ r ∈ cache.resources, ∀ r' ∈ cache.resources, r.collection = r'.collection →
    r.documentId = r'.documentId → r = r'
  child_of_path : ∀ p ∈ cache.paths, ∀ id, p.parentId = some id →
    ∃ r, cache.resources[p.resourceIdx]? = some r ∧ r.isChildOf id = true
  path_of_child : ∀ r ∈ cache.resources, ∀ c ∈ cache.resources, c.isContainer = true →
    r.isChildOf c.documentId = true →
    ∃ p ∈ cache.paths, p.parentId = some c.documentId ∧ cache.resources[p.resourceIdx]? = some r
  folder_of_child : kind = .files → ∀ r ∈ cache.resources, ∀ c ∈ cache.resources,
    r.isChildOf c.documentId = true → c.isContainer = true

namespace DavResources.Coherent

variable {kind : DavKind} {cache : DavResources} (h : cache.Coherent kind) {r r' : DavResource}
include h

/-- Whatever has an access control list and a child is a container. -/
theorem isContainer_of_child {r c : DavResource} (hr : r ∈ cache.resources)
    (hc : c ∈ cache.resources) (hacls : c.acls.isSome = true)
    (hchild : r.isChildOf c.documentId = true) : c.isContainer = true := by
  by_cases hkind : kind = .files
  · exact h.folder_of_child hkind r hr c hc hchild
  -- only the containers of calendars and address books have a list
  have hcol := h.collection c hc
  obtain ⟨id, data⟩ := c
  cases kind <;> cases data <;>
    simp_all [DavResource.collection, DavKind.containers, DavKind.items, DavResource.acls,
      DavResource.isContainer]

/-- An item has its id for itself among the items and the children. -/
theorem eq_item (hr : r ∈ cache.resources) (hr' : r' ∈ cache.resources)
    (hitem : r.isContainer = false) (hid : r'.documentId = r.documentId)
    (h' : r'.isContainer = false ∨ ∃ id, r'.isChildOf id = true) : r' = r := by
  refine h.eq_of_id_eq r' hr' r hr ?_ hid
  have hcol := h.collection r hr
  have hcol' := h.collection r' hr'
  obtain ⟨id, data⟩ := r
  obtain ⟨id', data'⟩ := r'
  cases kind <;> cases data <;> cases data' <;>
    simp_all [DavResource.collection, DavKind.containers, DavKind.items, DavResource.isContainer,
      DavResource.isChildOf]

end DavResources.Coherent

/-! ## Building the cache of calendars and address books -/

namespace DavResources

/-- `AHashSet::insert`: a path whose string is there is not inserted. -/
def insertPath (paths : List DavPath) (path : DavPath) : List DavPath :=
  if paths.any (·.path == path.path) then paths else paths ++ [path]

def containerPath (resource : DavResource) (resourceIdx : ℕ) : DavPath where
  path := resource.containerName.getD ""
  parentId := none
  hierarchySeq := 1
  resourceIdx

/-- The paths of an item: one for each name whose container is given. -/
def itemPaths (containers : List DavResource) (resource : DavResource) (resourceIdx : ℕ) :
    List DavPath :=
  (resource.childNames.getD []).filterMap fun name =>
    (containers.find? (·.documentId == name.parentId)).map fun parent =>
      { path := parent.containerName.getD "" ++ "/" ++ name.name
        parentId := some name.parentId
        hierarchySeq := 0
        resourceIdx }

def addContainer (cache : DavResources) (resource : DavResource) : DavResources where
  paths := insertPath cache.paths (containerPath resource cache.resources.length)
  resources := cache.resources ++ [resource]

def addItem (parentRange : ℕ) (cache : DavResources) (resource : DavResource) : DavResources where
  paths := (itemPaths (cache.resources.take parentRange) resource cache.resources.length).foldl
    insertPath cache.paths
  resources := cache.resources ++ [resource]

/-- The part of `build_calcard_resources` that reads containers and items. Without containers there
    are no items. -/
def buildCalcardResources (containers items : List DavResource) : DavResources :=
  let cache := containers.foldl addContainer ⟨[], []⟩
  if cache.paths.isEmpty then cache
  else items.foldl (addItem cache.resources.length) cache

/-- The paths that are inserted are there, if their strings are distinct. -/
theorem foldl_insertPath {paths new : List DavPath}
    (h : ((paths ++ new).map (·.path)).Nodup) : new.foldl insertPath paths = paths ++ new := by
  induction new generalizing paths with
  | nil => simp
  | cons p new ih =>
    have hp : paths.any (·.path == p.path) = false := by
      rw [map_append] at h
      rw [any_eq_false]
      intro q hq heq
      exact (nodup_append.mp h).2.2 _ (mem_map_of_mem hq) _ mem_cons_self (eq_of_beq heq)
    rw [foldl_cons, insertPath, if_neg (by simp [hp])]
    rw [ih (by simpa using h), append_assoc, singleton_append]

/-- The paths of the containers, in the order in which they are inserted. -/
def containerPaths (containers : List DavResource) (start : ℕ) : List DavPath :=
  (containers.zipIdx start).map fun r => containerPath r.1 r.2

/-- The paths of the items, in the order in which they are inserted. -/
def allItemPaths (containers items : List DavResource) (start : ℕ) : List DavPath :=
  (items.zipIdx start).flatMap fun r => itemPaths containers r.1 r.2

theorem foldl_addContainer (cache : DavResources) (containers : List DavResource) :
    containers.foldl addContainer cache =
      ⟨(containerPaths containers cache.resources.length).foldl insertPath cache.paths,
        cache.resources ++ containers⟩ := by
  induction containers generalizing cache with
  | nil => simp [containerPaths]
  | cons r containers ih =>
    rw [foldl_cons, ih]
    simp [addContainer, containerPaths]

theorem foldl_addItem (containers added items : List DavResource) (paths : List DavPath) :
    items.foldl (addItem containers.length) ⟨paths, containers ++ added⟩ =
      ⟨(allItemPaths containers items (containers.length + added.length)).foldl insertPath paths,
        containers ++ added ++ items⟩ := by
  induction items generalizing added paths with
  | nil => simp [allItemPaths]
  | cons r items ih =>
    have hadd : addItem containers.length ⟨paths, containers ++ added⟩ r =
        ⟨(itemPaths containers r (containers.length + added.length)).foldl insertPath paths,
          containers ++ (added ++ [r])⟩ := by
      simp [addItem]
    rw [foldl_cons, hadd, ih]
    simp [allItemPaths, Nat.add_assoc]

variable {containers : List DavResource}

theorem exists_mem_itemPaths {c r : DavResource} (hc : c ∈ containers) {name : DavName}
    (hname : name ∈ r.childNames.getD []) (hid : name.parentId = c.documentId) (idx : ℕ) :
    ∃ p ∈ itemPaths containers r idx, p.parentId = some c.documentId ∧ p.resourceIdx = idx := by
  have hfind : (containers.find? (·.documentId == name.parentId)).isSome = true :=
    find?_isSome.mpr ⟨c, hc, by simpa using hid.symm⟩
  obtain ⟨parent, hparent⟩ := Option.isSome_iff_exists.mp hfind
  refine ⟨⟨parent.containerName.getD "" ++ "/" ++ name.name, some name.parentId, 0, idx⟩,
    mem_filterMap.mpr ⟨name, hname, ?_⟩, ?_, rfl⟩
  · rw [hparent, Option.map_some]
  · rw [hid]

theorem mem_allItemPaths {items : List DavResource} {start : ℕ} {p : DavPath} :
    p ∈ allItemPaths containers items start ↔
      ∃ k r, items[k]? = some r ∧ p ∈ itemPaths containers r (start + k) := by
  rw [allItemPaths, mem_flatMap]
  constructor
  · rintro ⟨⟨r, i⟩, hr, hp⟩
    obtain ⟨hle, hget⟩ := mk_mem_zipIdx_iff_le_and_getElem?_sub.mp hr
    exact ⟨i - start, r, hget, by rwa [Nat.add_sub_cancel' hle]⟩
  · rintro ⟨k, r, hget, hp⟩
    refine ⟨(r, start + k), mk_mem_zipIdx_iff_le_and_getElem?_sub.mpr ⟨?_, ?_⟩, hp⟩
    · exact Nat.le_add_right start k
    · rwa [Nat.add_sub_cancel_left]

/-- The cache as built, if the strings of the paths are distinct. -/
theorem buildCalcardResources_eq {containers items : List DavResource} (hne : containers ≠ [])
    (hpaths : ((containerPaths containers 0 ++
      allItemPaths containers items containers.length).map (·.path)).Nodup) :
    buildCalcardResources containers items =
      ⟨containerPaths containers 0 ++ allItemPaths containers items containers.length,
        containers ++ items⟩ := by
  have hcontainers : containers.foldl addContainer ⟨[], []⟩ =
      ⟨containerPaths containers 0, containers⟩ := by
    rw [foldl_addContainer]
    congr 1
    refine foldl_insertPath (hpaths.sublist ?_)
    exact (sublist_append_left _ _).map _
  have hpaths' : (containerPaths containers 0).isEmpty = false := by
    simpa [containerPaths] using hne
  have hitems := foldl_addItem containers [] items (containerPaths containers 0)
  simp only [append_nil, length_nil, Nat.add_zero] at hitems
  simp only [buildCalcardResources, hcontainers, hpaths', Bool.false_eq_true, if_false, hitems]
  rw [foldl_insertPath hpaths]

end DavResources

variable {kind : DavKind} {r : DavResource}

/-- Calendars and address books are the children of nothing. -/
theorem DavResource.isChildOf_container (hkind : kind ≠ .files)
    (hr : r.collection = kind.containers) (id : ℕ) : r.isChildOf id = false := by
  obtain ⟨rid, data⟩ := r
  cases kind <;> cases data <;> simp_all [collection, DavKind.containers, isChildOf]

/-- Events and cards are no containers, and the children of those they have a name in. -/
theorem DavResource.isChildOf_item (hkind : kind ≠ .files) (hr : r.collection = kind.items) :
    r.isContainer = false ∧ r.collection ≠ kind.containers ∧
      ∀ id, r.isChildOf id = true ↔ ∃ name ∈ r.childNames.getD [], name.parentId = id := by
  obtain ⟨rid, data⟩ := r
  cases kind <;> cases data <;> simp_all [collection, DavKind.containers, DavKind.items,
    isContainer, isChildOf, childNames]

/-- The cache that is built from stored containers and items is coherent. -/
theorem DavResources.coherent_buildCalcardResources {kind : DavKind} (hkind : kind ≠ .files)
    {containers items : List DavResource}
    (hcontainers : ∀ r ∈ containers, r.collection = kind.containers)
    (hitems : ∀ r ∈ items, r.collection = kind.items)
    (hids : (containers.map (·.documentId)).Nodup) (hids' : (items.map (·.documentId)).Nodup)
    (hpaths : ((containerPaths containers 0 ++
      allItemPaths containers items containers.length).map (·.path)).Nodup) :
    (buildCalcardResources containers items).Coherent kind := by
  by_cases hne : containers = []
  · subst hne
    exact ⟨nofun, nofun, nofun, nofun, nofun⟩
  rw [buildCalcardResources_eq hne hpaths]
  have hcases : ∀ r ∈ containers ++ items, (r ∈ containers ∧ r.collection = kind.containers) ∨
        (r ∈ items ∧ r.collection = kind.items) := fun r hr =>
    (mem_append.mp hr).imp (fun h => ⟨h, hcontainers r h⟩) fun h => ⟨h, hitems r h⟩
  refine ⟨fun r hr => (hcases r hr).imp And.right And.right, ?_, ?_, ?_, fun h => absurd h hkind⟩
  · intro r hr r' hr' hcol hid
    rcases hcases r hr with ⟨hr, hc⟩ | ⟨hr, hi⟩ <;> rcases hcases r' hr' with ⟨hr', hc'⟩ | ⟨hr', hi'⟩
    · exact List.inj_on_of_nodup_map hids hr hr' hid
    · exact absurd (hcol.symm.trans hc) (DavResource.isChildOf_item hkind hi').2.1
    · exact absurd (hcol.trans hc') (DavResource.isChildOf_item hkind hi).2.1
    · exact List.inj_on_of_nodup_map hids' hr hr' hid
  · intro p hp id hid
    -- only paths of items have a parent, the container of the name
    rcases mem_append.mp hp with hp | hp
    · obtain ⟨_, -, rfl⟩ := mem_map.mp hp
      cases hid
    obtain ⟨k, r, hget, hp⟩ := mem_allItemPaths.mp hp
    obtain ⟨name, hname, hp⟩ := mem_filterMap.mp hp
    obtain ⟨parent, -, rfl⟩ := Option.map_eq_some_iff.mp hp
    refine ⟨r, ?_, ?_⟩
    · rwa [getElem?_append_right (Nat.le_add_right _ _), Nat.add_sub_cancel_left]
    · exact ((DavResource.isChildOf_item hkind (hitems r (mem_of_getElem? hget))).2.2 id).mpr
        ⟨name, hname, Option.some.inj hid⟩
  · intro r hr c hc hcont hchild
    rcases hcases c hc with ⟨hc, -⟩ | ⟨-, hi⟩
    · rcases hcases r hr with ⟨-, hr⟩ | ⟨hr, hi⟩
      · simp [DavResource.isChildOf_container hkind hr] at hchild
      obtain ⟨name, hname, hparent⟩ := ((DavResource.isChildOf_item hkind hi).2.2 _).mp hchild
      obtain ⟨k, hget⟩ := mem_iff_getElem?.mp hr
      obtain ⟨p, hp, hpid, hidx⟩ := exists_mem_itemPaths hc hname hparent (containers.length + k)
      refine ⟨p, mem_append_right _ (mem_allItemPaths.mpr ⟨k, r, hget, hp⟩), hpid, ?_⟩
      rwa [hidx, getElem?_append_right (Nat.le_add_right _ _), Nat.add_sub_cancel_left]
    · simp [(DavResource.isChildOf_item hkind hi).1] at hcont

end Inworkspace
