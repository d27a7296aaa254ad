import Inworkspace.ChangeLog.Log

/-!
# What the change log reports

An item that is inserted, updated and deleted several times is to be reported once, with the net
effect (`netEffect`). That is worked out in two places: the builder drops some of the events of a
batch, and what it keeps is merged with the changes of earlier batches.

Both work on each item by itself (`ActsOn`). Of an item that exists before the batch the builder has
an update or a deletion, and of one that does not an insertion, and possibly a deletion that the
reader takes back (`itemMark_ofBatch`). So the changes that have been read are the net effect of the
batches so far (`Reports.read`), and `changes_since` has that for whole logs. An item that has been
deleted must not be inserted again by a later batch: it would be reported twice.
-/

namespace Inworkspace.ChangeLog

open Lib.Leb128 LogChanges LogEvent List Option Prod

/-! ## An entry is read back -/

section Entry

variable {logged : LogChanges} (order : logged.Order) (changes : List Change)

/-- The changes of containers in an entry. -/
def readContainers : List Change :=
  let changes := order.containerInserts.containerIds.foldl (withId addInsertContainer) changes
  let changes :=
    order.containerUpdates.containerIds.foldl (withId (addUpdateContainer · · false)) changes
  let changes :=
    order.containerPropertyChanges.containerIds.foldl (withId (addUpdateContainer · · true)) changes
  order.containerDeletes.containerIds.foldl (withId addDeleteContainer) changes

/-- The changes of items in an entry. -/
def readItems : List Change :=
  let changes := order.itemInserts.toList.foldl addInsertItem changes
  let changes := order.itemUpdates.toList.foldl addUpdateItem changes
  order.itemDeletes.toList.foldl addDeleteItem changes

/-- The numbers of changes in an entry. -/
def LogChanges.Order.counts : Counts :=
  ⟨order.containerInserts.toList.length, order.containerUpdates.toList.length,
    order.containerPropertyChanges.toList.length, order.containerDeletes.toList.length,
    order.itemInserts.toList.length, order.itemUpdates.toList.length,
    order.itemDeletes.toList.length⟩

/-- An entry is read as it has been written. -/
theorem deserialize_serialize :
    deserialize changes (serialize order) =
      some (readItems order (readContainers order changes), order.counts.hasContainerChanges,
        order.counts.hasItemChanges) := by
  have hcount {α : Type} {s : Finset α} (listing : Listing s) (rest : List UInt8) :
      next64 (toLeb128 listing.toList.length ++ rest) = some (listing.toList.length, rest) :=
    next64_toLeb128 listing.length_lt rest
  have hids {α : Type} {toNat : α → ℕ} (hlt : ∀ id, toNat id < 2 ^ 64)
      (f : List Change → UInt64 → List Change) (ids : List α) (changes : List Change)
      (rest : List UInt8) :
      readEach (withId f) ids.length changes ((ids.map toNat).flatMap toLeb128 ++ rest) =
        some ((ids.map toNat).foldl (withId f) changes, rest) := by
    have hall : ∀ value ∈ ids.map toNat, value < 2 ^ 64 := forall_mem_map.mpr fun id _ => hlt id
    have hread := readEach_flatMap (withId f) hall changes rest
    rwa [length_map] at hread
  have hcontainerIds := hids fun id : UInt32 => id.toNat_lt.trans (by decide)
  have hitemIds := hids UInt64.toNat_lt
  -- the numbers come first, then the containers and then the items
  have hcounts (rest : List UInt8) :
      Counts.read ([order.containerInserts.toList.length, order.containerUpdates.toList.length,
        order.containerPropertyChanges.toList.length, order.containerDeletes.toList.length,
        order.itemInserts.toList.length, order.itemUpdates.toList.length,
        order.itemDeletes.toList.length].flatMap toLeb128 ++ rest) = some (order.counts, rest) := by
    simp only [Counts.read, flatMap_cons, append_assoc, hcount, bind, bind_some]
    rfl
  have hcontainers (changes : List Change) (rest : List UInt8) :
      order.counts.readContainers changes ([order.containerInserts.containerIds,
        order.containerUpdates.containerIds, order.containerPropertyChanges.containerIds,
        order.containerDeletes.containerIds].flatMap (·.flatMap toLeb128) ++ rest) =
      some (readContainers order changes, rest) := by
    simp only [Counts.readContainers, Order.counts, flatMap_cons, append_assoc,
      Listing.containerIds, hcontainerIds, bind, bind_some]
    rfl
  have hitems (changes : List Change) :
      order.counts.readItems changes ([order.itemInserts.itemIds, order.itemUpdates.itemIds,
        order.itemDeletes.itemIds].flatMap (·.flatMap toLeb128)) =
      some (readItems order changes, []) := by
    simp only [Counts.readItems, Order.counts, flatMap_cons, Listing.itemIds, hitemIds, bind,
      bind_some, foldl_map, withId, UInt64.ofNat_toNat]
    rfl
  rw [deserialize, serialize, hcounts]
  simp only [bind, bind_some, hcontainers, hitems]
  rfl

end Entry

/-! ## A log is read entry by entry -/

section Read

/-- The entry of a batch, with its change id. -/
def Written (batch : UInt64 × List LogEvent) (entry : UInt64 × List UInt8) : Prop :=
  entry.1 = batch.1 ∧
    ∃ order : (ofBatch batch.2).Order, entry.2 = serialize order

theorem serialize_ne_nil {logged : LogChanges} (order : logged.Order) : serialize order ≠ [] := by
  intro h
  -- the entry would be one that cannot be read
  have hread := deserialize_serialize order []
  rw [h] at hread
  cases hread

variable {start : UInt64} {log : List (UInt64 × List UInt8)}
  {history : List (UInt64 × List LogEvent)}

/-- An entry after the first change id is read into the changes. -/
theorem read_written {history : UInt64 × List LogEvent} {entry : UInt64 × List UInt8}
    (hwritten : Written history entry) (hlt : start < history.1) (self : Changes) :
    ∃ (order : (ofBatch history.2).Order) (self' : Changes),
      self.read false false start entry = some self' ∧
        self'.changes = readItems order (readContainers order self.changes) := by
  obtain ⟨hid, order, hbytes⟩ := hwritten
  have hne : entry.1 ≠ start := by
    rw [hid]
    exact (UInt64.ne_of_lt hlt).symm
  have hread := deserialize_serialize order self.changes
  have hnonempty : (serialize order).isEmpty = false :=
    isEmpty_eq_false_iff.mpr (serialize_ne_nil order)
  have hchanges : (if self.changes.isEmpty then { self with fromChangeId := entry.1 } else self
      : Changes).changes = self.changes := by
    split_ifs <;> rfl
  rw [Changes.read]
  simp only [Bool.false_or, bne_iff_ne, ne_eq, hne, hnonempty, hbytes, hchanges, hread]
  exact ⟨order, _, rfl, rfl⟩

/-- The entry of the change id itself is passed. -/
theorem foldlM_read_start (h : ∀ entry ∈ log, entry.1 = start) (self : Changes) :
    ∃ self', log.foldlM (Changes.read false false start) self = some self' ∧
      self'.changes = self.changes := by
  induction log generalizing self with
  | nil => exact ⟨self, rfl, rfl⟩
  | cons entry log ih =>
    have hread : self.read false false start entry =
        some { self with fromChangeId := start, toChangeId := start } := by
      rw [Changes.read]
      simp [h entry mem_cons_self]
    rw [foldlM_cons, hread]
    exact ih (fun entry hentry => h entry (mem_cons_of_mem _ hentry)) _

/-- The change ids of the entries are those of the batches. -/
theorem forall_written (P : UInt64 → Prop) (hlog : Forall₂ Written history log)
    (h : ∀ batch ∈ history, P batch.1) : ∀ entry ∈ log, P entry.1 := by
  induction hlog with
  | nil => exact nofun
  | cons hentry _ ih =>
    rw [forall_mem_cons] at h ⊢
    refine ⟨?_, ih h.2⟩
    rw [hentry.1]
    exact h.1

theorem le_maxChangeId (changeId : UInt64) : changeId ≤ maxChangeId := by
  exact Nat.le_sub_one_of_lt changeId.toNat_lt

/-! What holds of the changes so far, the state the batches so far lead to, and these batches, and
is kept by an entry, holds of a query. -/

variable {σ : Type} {write : σ → List LogEvent → Option σ}
  {P : σ → σ → List (List LogEvent) → List Change → Prop}
  (hstep : ∀ {first s s' : σ} {batches batch changes}, P first s batches changes →
    write s batch = some s' → ∀ order : (ofBatch batch).Order,
      P first s' (batches ++ [batch]) (readItems order (readContainers order changes)))

include hstep

/-- What each batch keeps is kept by reading the log. -/
theorem foldlM_read (hlog : Forall₂ Written history log)
    (hstart : ∀ batch ∈ history, start < batch.1) {first s s' : σ}
    {batches : List (List LogEvent)} {self : Changes} (h : P first s batches self.changes)
    (hwrite : (history.map snd).foldlM write s = some s') :
    ∃ self', log.foldlM (Changes.read false false start) self = some self' ∧
      P first s' (batches ++ history.map snd) self'.changes := by
  induction hlog generalizing self s batches with
  | nil =>
    obtain rfl := some.inj hwrite
    exact ⟨self, rfl, by simpa using h⟩
  | @cons batch entry history log hentry hlog ih =>
    obtain ⟨next, hnext, hwrite⟩ := bind_eq_some_iff.mp hwrite
    obtain ⟨order, self₁, hread, hchanges⟩ := read_written hentry (hstart batch mem_cons_self) self
    have h₁ : P first next (batches ++ [batch.2]) self₁.changes := by
      rw [hchanges]
      exact hstep h hnext order
    obtain ⟨self', hfold, h'⟩ :=
      ih (fun batch hbatch => hstart batch (mem_cons_of_mem _ hbatch)) h₁ hwrite
    refine ⟨self', ?_, ?_⟩
    · rw [foldlM_cons, hread]
      exact hfold
    · rwa [append_assoc] at h'

/-- A query since a change id reads the batches written after it. -/
theorem changes_since_induction {before after : List (UInt64 × List LogEvent)}
    {logBefore logAfter : List (UInt64 × List UInt8)}
    (hlogBefore : Forall₂ Written before logBefore) (hlogAfter : Forall₂ Written after logAfter)
    (hbefore : ∀ batch ∈ before, batch.1 ≤ start) (hafter : ∀ batch ∈ after, start < batch.1)
    (hempty : ∀ s, P s s [] []) {initial s' : σ}
    (hwrite : ((before ++ after).map snd).foldlM write initial = some s') :
    ∃ s result, (before.map snd).foldlM write initial = some s ∧
      changes false (logBefore ++ logAfter) (.since start) = some result ∧
      P s s' (after.map snd) result.changes := by
  rw [map_append, foldlM_append] at hwrite
  obtain ⟨s, hs, hwrite⟩ := bind_eq_some_iff.mp hwrite
  have hstart : ∀ entry ∈ logBefore.filter fun entry => start ≤ entry.1 && entry.1 ≤ maxChangeId,
      entry.1 = start := by
    intro entry hentry
    rw [mem_filter, Bool.and_eq_true, decide_eq_true_iff] at hentry
    exact UInt64.le_antisymm (forall_written (· ≤ start) hlogBefore hbefore entry hentry.1)
      hentry.2.1
  have hall : logAfter.filter (fun entry => start ≤ entry.1 && entry.1 ≤ maxChangeId) =
      logAfter := by
    refine filter_eq_self.mpr fun entry hentry => ?_
    have hlt := forall_written (start < ·) hlogAfter hafter entry hentry
    simp [UInt64.le_of_lt hlt, le_maxChangeId]
  -- before the change id there is at most its own entry to be read, and after it all are
  obtain ⟨self, hread, hself⟩ := foldlM_read_start hstart Changes.default
  have hself : P s s [] self.changes := by
    rw [hself]
    exact hempty s
  obtain ⟨result, hresult, hresult'⟩ := foldlM_read hstep hlogAfter hafter hself hwrite
  refine ⟨s, result, hs, ?_, hresult'⟩
  rw [changes, Query.range]
  dsimp only
  rw [filter_append, hall, foldlM_append, hread]
  exact hresult

end Read

/-! ## One item or container at a time -/

def Change.containerId : Change → Option UInt64
  | .insertContainer id | .updateContainer id | .updateContainerProperty id
  | .deleteContainer id => some id
  | _ => none

/-- Only changes with `P` matter to the function, and are added or taken back. -/
structure ActsOn (P : Change → Prop) (f : List Change → List Change) : Prop where
  inside : ∀ {p : Change → Bool}, (∀ change, P change → p change = true) → ∀ changes,
    (f changes).filter p = f (changes.filter p)
  outside : ∀ {p : Change → Bool}, (∀ change, P change → p change = false) → ∀ changes,
    (f changes).filter p = changes.filter p

variable {key : Change → Option UInt64}

section ActsOn

variable {P Q : Change → Prop} {f : List Change → List Change} {id : UInt64}

theorem ActsOn.mono (h : ActsOn P f) (hPQ : ∀ change, P change → Q change) : ActsOn Q f :=
  ⟨fun hp => h.inside fun change hP => hp change (hPQ change hP),
    fun hp => h.outside fun change hP => hp change (hPQ change hP)⟩

theorem ActsOn.comp {g : List Change → List Change} (hf : ActsOn P f) (hg : ActsOn P g) :
    ActsOn P fun changes => g (f changes) :=
  ⟨fun hp changes => by rw [hg.inside hp, hf.inside hp],
    fun hp changes => by rw [hg.outside hp, hf.outside hp]⟩

theorem ActsOn.foldl {α : Type} {step : List Change → α → List Change} {values : List α}
    (h : ∀ value ∈ values, ActsOn P (step · value)) : ActsOn P (values.foldl step) := by
  induction values with
  | nil => exact ⟨fun _ _ => rfl, fun _ _ => rfl⟩
  | cons value values ih =>
    obtain ⟨hvalue, hvalues⟩ := forall_mem_cons.mp h
    exact hvalue.comp (ih hvalues)

theorem actsOn_erase {change : Change} (h : P change) : ActsOn P (·.erase change) :=
  ⟨fun _ _ => erase_filter.symm, fun hp changes => by
    rw [← erase_filter, erase_of_not_mem (by simp [hp change h])]⟩

/-- Some changes are taken back, and others are added. -/
theorem actsOn_diff_append {old new : List Change} (h : ∀ change ∈ old ++ new, P change) :
    ActsOn P fun changes => changes.diff old ++ new := by
  rw [forall_mem_append] at h
  have hold : ActsOn P fun changes => changes.diff old := by
    simp only [diff_eq_foldl]
    exact .foldl fun change hchange => actsOn_erase (h.1 change hchange)
  refine hold.comp (g := (· ++ new)) ⟨fun hp changes => ?_, fun hp changes => ?_⟩ <;>
    rw [filter_append]
  · rw [filter_eq_self.mpr fun change hchange => hp change (h.2 change hchange)]
  · have hnew : new.filter _ = [] := filter_eq_nil_iff.mpr fun change hchange =>
      Bool.eq_false_iff.mp (hp change (h.2 change hchange))
    rw [hnew, append_nil]

/-- What is done depends on the first change of some kinds. -/
theorem actsOn_find? (kinds : List Change) (hkinds : ∀ change ∈ kinds, P change)
    (hf : ∀ found ∈ none :: kinds.map some, ∃ old new, (∀ change ∈ old ++ new, P change) ∧
      ∀ changes, changes.find? (· ∈ kinds) = found → f changes = changes.diff old ++ new) :
    ActsOn P f := by
  have hfound (changes : List Change) : changes.find? (· ∈ kinds) ∈ none :: kinds.map some := by
    cases h : changes.find? (· ∈ kinds) with
    | none => exact mem_cons_self
    | some change => simpa using find?_some h
  refine ⟨fun {p} hp changes => ?_, fun hp changes => ?_⟩ <;>
    obtain ⟨old, new, hP, heq⟩ := hf _ (hfound changes)
  · have hfind : (changes.filter p).find? (· ∈ kinds) = changes.find? (· ∈ kinds) := by
      rw [find?_filter]
      congr 1
      funext change
      by_cases hchange : change ∈ kinds
      · simp [hp change (hkinds change hchange)]
      · simp [hchange]
    rw [heq changes rfl, heq _ hfind]
    exact (actsOn_diff_append hP).inside hp changes
  · rw [heq changes rfl]
    exact (actsOn_diff_append hP).outside hp changes

theorem actsOn_addInsertItem : ActsOn (·.itemId = some id) (addInsertItem · id) :=
  @actsOn_diff_append _ [] [.insertItem id] (by simp [Change.itemId])

theorem actsOn_addUpdateItem : ActsOn (·.itemId = some id) (addUpdateItem · id) := by
  refine actsOn_find? [.insertItem id, .updateItem id] (by simp [Change.itemId]) ?_
  simp only [map_cons, forall_mem_cons]
  refine ⟨⟨[], [.updateItem id], by simp [Change.itemId], fun changes h => ?_⟩,
    ⟨[], [], nofun, fun changes h => ?_⟩,
    ⟨[.updateItem id], [.updateItem id], by simp [Change.itemId], fun changes h => ?_⟩, nofun⟩ <;>
    simp only [addUpdateItem, h, diff_nil, diff_cons, append_nil]

theorem actsOn_addDeleteItem : ActsOn (·.itemId = some id) (addDeleteItem · id) := by
  refine actsOn_find? [.insertItem id, .updateItem id] (by simp [Change.itemId]) ?_
  simp only [map_cons, forall_mem_cons]
  refine ⟨⟨[], [.deleteItem id], by simp [Change.itemId], fun changes h => ?_⟩,
    ⟨[.insertItem id], [], by simp [Change.itemId], fun changes h => ?_⟩,
    ⟨[.updateItem id], [.deleteItem id], by simp [Change.itemId], fun changes h => ?_⟩, nofun⟩ <;>
    simp only [addDeleteItem, h, diff_nil, diff_cons, append_nil]

theorem actsOn_addInsertContainer : ActsOn (·.containerId = some id) (addInsertContainer · id) :=
  @actsOn_diff_append _ [] [.insertContainer id] (by simp [Change.containerId])

theorem actsOn_addUpdateContainer (isPropertyChange : Bool) :
    ActsOn (·.containerId = some id) (addUpdateContainer · id isPropertyChange) := by
  refine actsOn_find? [.insertContainer id, .updateContainer id, .updateContainerProperty id]
    (by simp [Change.containerId]) ?_
  have hupdate : (if isPropertyChange then Change.updateContainerProperty id
      else .updateContainer id).containerId = some id := by
    cases isPropertyChange <;> rfl
  simp only [map_cons, forall_mem_cons]
  refine ⟨⟨[], [_], by simpa using hupdate, fun changes h => ?_⟩,
    ⟨[], [], nofun, fun changes h => ?_⟩,
    ⟨[.updateContainer id], [.updateContainer id], by simp [Change.containerId],
      fun changes h => ?_⟩,
    ⟨[.updateContainerProperty id], [_], by simpa [Change.containerId] using hupdate,
      fun changes h => ?_⟩, nofun⟩ <;>
    simp only [addUpdateContainer, h, diff_nil, diff_cons, append_nil]

theorem actsOn_addDeleteContainer : ActsOn (·.containerId = some id) (addDeleteContainer · id) := by
  refine actsOn_find? [.insertContainer id, .updateContainer id] (by simp [Change.containerId]) ?_
  simp only [map_cons, forall_mem_cons]
  refine ⟨⟨[], [.deleteContainer id], by simp [Change.containerId], fun changes h => ?_⟩,
    ⟨[.insertContainer id], [], by simp [Change.containerId], fun changes h => ?_⟩,
    ⟨[.updateContainer id], [.deleteContainer id], by simp [Change.containerId],
      fun changes h => ?_⟩, nofun⟩ <;>
    simp only [addDeleteContainer, h, diff_nil, diff_cons, append_nil]

/-- Of changes with several ids, each id sees its own. -/
theorem filter_foldl_of_actsOn {step : List Change → UInt64 → List Change}
    (h : ∀ id, ActsOn (key · = some id) (step · id)) {ids : List UInt64} (hids : ids.Nodup)
    (id : UInt64) (changes : List Change) :
    (ids.foldl step changes).filter (key · = some id) =
      if id ∈ ids then step (changes.filter (key · = some id)) id
      else changes.filter (key · = some id) := by
  induction ids generalizing changes with
  | nil => rfl
  | cons id' ids ih =>
    obtain ⟨hnot, hids⟩ := nodup_cons.mp hids
    rw [foldl_cons, ih hids]
    by_cases heq : id' = id
    · subst heq
      rw [if_neg hnot, if_pos mem_cons_self,
        (h id').inside fun change hchange => decide_eq_true hchange]
    · rw [(h id').outside fun change hchange => by simp [hchange, heq]]
      simp [Ne.symm heq]

end ActsOn

/-! ## What the builder has of one item or container -/

/-- What an event does to an item or a container. -/
inductive EventKind where
  | insert
  | update
  | propertyUpdate
  | delete
  deriving DecidableEq

/-- Whether it exists afterwards; only an insertion must not find it. -/
def EventKind.apply (present : Bool) : EventKind → Option Bool
  | insert => if present then none else some true
  | update | propertyUpdate => if present then some true else none
  | delete => if present then some false else none

/-- The sets of the builder that have it. -/
structure Mark where
  inserted : Bool
  updated : Bool
  propertyChanged : Bool
  deleted : Bool

namespace Mark

/-- The builder has nothing of it. -/
def none : Mark := ⟨false, false, false, false⟩

/-- What the builder has after an event. -/
def log (self : Mark) : EventKind → Mark
  | .insert => if self.deleted then { self with deleted := false, updated := true }
    else { self with inserted := true }
  | .update => { self with updated := true }
  | .propertyUpdate => { self with propertyChanged := true }
  | .delete => { self with updated := false, propertyChanged := false, deleted := true }

/-- What the builder has if it exists before some events. -/
structure OfPresent (kinds : List EventKind) (after : Bool) (mark : Mark) : Prop where
  inserted : mark.inserted = false
  updated : mark.updated = true ↔ after = true ∧ (.update ∈ kinds ∨ .insert ∈ kinds)
  properties : mark.propertyChanged = true → after = true ∧ .propertyUpdate ∈ kinds
  property : after = true → ¬(.update ∈ kinds ∨ .insert ∈ kinds) → .propertyUpdate ∈ kinds →
    mark.propertyChanged = true
  deleted : mark.deleted = true ↔ after = false
  delete : after = false → .delete ∈ kinds
  touched : after = true → kinds ≠ [] →
    .propertyUpdate ∈ kinds ∨ .update ∈ kinds ∨ .insert ∈ kinds

/-- What the builder has if it does not. -/
structure OfAbsent (kinds : List EventKind) (after : Bool) (mark : Mark) : Prop where
  inserted : mark.inserted = true ↔ .insert ∈ kinds
  updated : mark.updated = true → after = true
  properties : mark.propertyChanged = true → after = true
  deleted : mark.deleted = true ↔ after = false ∧ .insert ∈ kinds
  present : after = true → .insert ∈ kinds
  touched : kinds ≠ [] → .insert ∈ kinds

/-- What the builder has after the events, as far as they can happen. -/
theorem of_foldlM {kinds : List EventKind} {before after : Bool}
    (h : kinds.foldlM EventKind.apply before = some after) :
    if before then OfPresent kinds after (kinds.foldl log none)
    else OfAbsent kinds after (kinds.foldl log none) := by
  induction kinds using reverseRecOn generalizing after with
  | nil =>
    obtain rfl := some.inj h
    cases before <;> constructor <;> simp [none]
  | append_singleton kinds kind ih =>
    rw [foldlM_append] at h
    obtain ⟨middle, hkinds, hkind⟩ := bind_eq_some_iff.mp h
    have ih := ih hkinds
    rw [foldl_append]
    generalize kinds.foldl log none = mark at ih ⊢
    -- only an insertion can find it missing, and is the only one that finds it so
    cases kind <;> cases middle <;> cases hkind <;> cases before <;> obtain ⟨⟩ := ih <;>
      cases hdeleted : mark.deleted <;> constructor <;> simp_all [log]

end Mark

/-- The builder has what the events of the batch lead to. -/
theorem mark_ofBatch {σ : Type} {apply : σ → LogEvent → Option σ} {present : σ → Bool}
    {kindOf : LogEvent → Option EventKind} {markOf : LogChanges → Mark}
    (hempty : markOf .empty = .none) (hlog : ∀ logged event, markOf (logged.log event) =
      (kindOf event).elim (markOf logged) (markOf logged).log)
    (happly : ∀ {s s' : σ} {event}, apply s event = some s' →
      (kindOf event).elim (some (present s)) (·.apply (present s)) = some (present s'))
    {batch : List LogEvent} {s s' : σ} (h : batch.foldlM apply s = some s') :
    if present s then (markOf (.ofBatch batch)).OfPresent (batch.filterMap kindOf) (present s')
    else (markOf (.ofBatch batch)).OfAbsent (batch.filterMap kindOf) (present s') := by
  suffices hsets : markOf (.ofBatch batch) = (batch.filterMap kindOf).foldl Mark.log .none ∧
      (batch.filterMap kindOf).foldlM EventKind.apply (present s) = some (present s') by
    rw [hsets.1]
    exact Mark.of_foldlM hsets.2
  induction batch using reverseRecOn generalizing s' with
  | nil =>
    obtain rfl := some.inj h
    exact ⟨hempty, rfl⟩
  | append_singleton batch event ih =>
    rw [foldlM_append] at h
    obtain ⟨middle, hbatch, hevent⟩ := bind_eq_some_iff.mp h
    simp only [foldlM_cons, foldlM_nil, bind_pure] at hevent
    obtain ⟨hmark, hpresent⟩ := ih hbatch
    have hkind := happly hevent
    rw [ofBatch, foldl_append, ← ofBatch, foldl_cons, foldl_nil, hlog, hmark]
    cases h : kindOf event with
    | none => simp_all
    | some kind => simp_all

variable (id : UInt64)

/-- The changes of an item. -/
def reported (changes : List Change) : List Change :=
  changes.filter fun change => change.itemId = some id

/-- What is reported of an item after an entry with changes of it. -/
def Mark.merge (self : Mark) (id : UInt64) (changes : List Change) : List Change :=
  let changes := if self.inserted then addInsertItem changes id else changes
  let changes := if self.updated then addUpdateItem changes id else changes
  if self.deleted then addDeleteItem changes id else changes

/-- The sets that have an item. -/
def LogChanges.itemMark (self : LogChanges) : Mark :=
  ⟨id ∈ self.itemInserts, id ∈ self.itemUpdates, false, id ∈ self.itemDeletes⟩

variable {logged : LogChanges} (order : logged.Order) (batch : List LogEvent)

theorem actsOn_isSome {f : List Change → UInt64 → List Change}
    (h : ∀ id, ActsOn (key · = some id) (f · id)) {α : Type} (toId : α → UInt64) (values : List α) :
    ActsOn (fun change => (key change).isSome = true)
      (values.foldl fun changes value => f changes (toId value)) :=
  .foldl fun value _ => (h _).mono fun change hchange => by rw [hchange]; rfl

/-- Changes of containers leave items alone, and the other way round. -/
theorem actsOn_readContainers : ActsOn (·.containerId.isSome = true) (readContainers order) :=
  (actsOn_isSome (fun _ => actsOn_addInsertContainer) _ _).comp
    ((actsOn_isSome (fun _ => actsOn_addUpdateContainer false) _ _).comp
      ((actsOn_isSome (fun _ => actsOn_addUpdateContainer true) _ _).comp
        (actsOn_isSome (fun _ => actsOn_addDeleteContainer) _ _)))

theorem actsOn_readItems : ActsOn (·.itemId.isSome = true) (readItems order) :=
  (actsOn_isSome (fun _ => actsOn_addInsertItem) id _).comp
    ((actsOn_isSome (fun _ => actsOn_addUpdateItem) id _).comp
      (actsOn_isSome (fun _ => actsOn_addDeleteItem) id _))

/-- The report on an item depends on its own mark and report. -/
theorem reported_readItems (changes : List Change) :
    reported id (readItems order (readContainers order changes)) =
      (logged.itemMark id).merge id (reported id changes) := by
  have hcontainers : reported id (readContainers order changes) = reported id changes :=
    (actsOn_readContainers order).outside
      (fun change hchange => by cases change <;> simp_all [Change.containerId, Change.itemId]) _
  rw [← hcontainers]
  simp [reported, readItems, Mark.merge, itemMark, ← order.itemInserts.mem_toList,
    ← order.itemUpdates.mem_toList, ← order.itemDeletes.mem_toList,
    filter_foldl_of_actsOn (fun _ => actsOn_addInsertItem) order.itemInserts.nodup,
    filter_foldl_of_actsOn (fun _ => actsOn_addUpdateItem) order.itemUpdates.nodup,
    filter_foldl_of_actsOn (fun _ => actsOn_addDeleteItem) order.itemDeletes.nodup]

/-! ## Histories -/

def LogEvent.itemId : LogEvent → Option UInt64
  | .itemInsert id | .itemUpdate id | .itemDelete id => some id
  | _ => none

/-- The items after an event, which an insertion must not and other events must find. -/
def LogEvent.apply (present : Finset UInt64) : LogEvent → Option (Finset UInt64)
  | .itemInsert id => if id ∈ present then none else some (insert id present)
  | .itemUpdate id => if id ∈ present then some present else none
  | .itemDelete id => if id ∈ present then some (present.erase id) else none
  | _ => some present

/-- The items that a batch deletes, some of which it may insert again. -/
def deletedIds : Finset UInt64 :=
  (batch.filterMap fun
    | .itemDelete id => some id
    | _ => none).toFinset

/-- The items that exist, and those that have been deleted for good. -/
structure Ids where
  present : Finset UInt64
  gone : Finset UInt64
  deriving DecidableEq

/-- The items after a batch, which must not insert one that an earlier batch has deleted. -/
def Ids.write (self : Ids) (batch : List LogEvent) : Option Ids := do
  let present ← batch.foldlM LogEvent.apply self.present
  if ∃ id ∈ self.gone, .itemInsert id ∈ batch then none
  else some ⟨present, self.gone ∪ (deletedIds batch \ present)⟩

/-- Some event is about the item. -/
def Touches : Prop := ∃ event ∈ batch, event.itemId = some id

instance (id : UInt64) (batch : List LogEvent) : Decidable (Touches id batch) :=
  inferInstanceAs (Decidable (∃ event ∈ batch, _))

/-- What an event does to an item. -/
def LogEvent.itemKind : LogEvent → Option EventKind
  | .itemInsert id' => if id = id' then some .insert else none
  | .itemUpdate id' => if id = id' then some .update else none
  | .itemDelete id' => if id = id' then some .delete else none
  | _ => none

/-- What the events of a batch do to an item. -/
def itemKinds : List EventKind :=
  batch.filterMap (·.itemKind id)

section Batch

variable {id} {before after : Finset UInt64} {batch}

theorem mem_itemKinds :
    (.insert ∈ itemKinds id batch ↔ .itemInsert id ∈ batch) ∧
      (.delete ∈ itemKinds id batch ↔ .itemDelete id ∈ batch) ∧
      .propertyUpdate ∉ itemKinds id batch := by
  simp only [itemKinds, mem_filterMap]
  refine ⟨⟨?_, fun h => ⟨_, h, by simp [itemKind]⟩⟩, ⟨?_, fun h => ⟨_, h, by simp [itemKind]⟩⟩, ?_⟩
  all_goals
    rintro ⟨event, hmem, hkind⟩
    cases event <;> simp [itemKind] at hkind
    try exact hkind ▸ hmem

theorem itemKinds_ne_nil : itemKinds id batch ≠ [] ↔ Touches id batch := by
  rw [itemKinds, ne_eq, filterMap_eq_nil_iff]
  push Not
  refine exists_congr fun event => and_congr_right fun _ => ?_
  cases event <;> simp [itemKind, itemId, eq_comm]

/-- What the builder has of an item after a batch. -/
theorem itemMark_ofBatch (h : batch.foldlM apply before = some after) (id : UInt64) :
    if id ∈ before then ((ofBatch batch).itemMark id).OfPresent (itemKinds id batch) (id ∈ after)
    else ((ofBatch batch).itemMark id).OfAbsent (itemKinds id batch) (id ∈ after) := by
  have hlog (logged : LogChanges) (event : LogEvent) : (logged.log event).itemMark id =
      (event.itemKind id).elim (logged.itemMark id) (logged.itemMark id).log := by
    cases event with
    | itemInsert id' =>
      rw [log, logItemInsert]
      by_cases hid : id = id' <;> by_cases hdeleted : id' ∈ logged.itemDeletes <;>
        simp [itemKind, itemMark, Mark.log, hid, hdeleted]
    | itemUpdate id' | itemDelete id' =>
      simp only [log, logItemUpdate, logItemDelete]
      by_cases hid : id = id' <;> simp [itemKind, itemMark, Mark.log, hid]
    | containerInsert documentId =>
      rw [log, logContainerInsert]
      split_ifs <;> rfl
    | containerUpdate | containerPropertyUpdate | containerDelete => rfl
  have happly {s s' : Finset UInt64} {event : LogEvent} (happly : event.apply s = some s') :
      (event.itemKind id).elim (some (decide (id ∈ s))) (·.apply (id ∈ s)) =
        some (decide (id ∈ s')) := by
    cases event with
    | itemInsert id' | itemUpdate id' | itemDelete id' =>
      simp only [apply, ite_none_left_eq_some, ite_none_right_eq_some, some.injEq] at happly
      obtain ⟨hmem, rfl⟩ := happly
      by_cases hid : id = id' <;> simp [itemKind, EventKind.apply, hid, hmem]
    | containerInsert | containerUpdate | containerPropertyUpdate | containerDelete =>
      rw [← some.inj happly]
      rfl
  simpa [itemKinds] using mark_ofBatch (by simp [itemMark, empty, Mark.none]) hlog happly h

end Batch

/-! ## The net effect -/

/-- What is to be reported of an item that existed or not, exists or not, and has been touched or
    not. -/
def netEffect (existed exists_ touched : Prop) [Decidable existed] [Decidable exists_]
    [Decidable touched] : List Change :=
  if existed then
    if exists_ then if touched then [.updateItem id] else [] else [.deleteItem id]
  else if exists_ then [.insertItem id] else []

/-- The changes are the net effect of some batches. -/
structure Reports (before : Finset UInt64) (ids : Ids) (batches : List (List LogEvent))
    (changes : List Change) : Prop where
  reported : ∀ id, reported id changes =
    netEffect id (id ∈ before) (id ∈ ids.present) (∃ batch ∈ batches, Touches id batch)
  gone : ∀ id ∈ before, id ∉ ids.present → id ∈ ids.gone

section Net

variable {id} {before : Finset UInt64} {ids ids' : Ids} {batches : List (List LogEvent)} {batch}
  {changes : List Change}

variable {kinds : List EventKind} {mark : Mark} {existed now after touched : Prop}
  [Decidable existed] [Decidable now] [Decidable after] [Decidable touched]

/-- What is reported of an item that exists before the batch. -/
theorem Mark.OfPresent.merge_eq (h : mark.OfPresent kinds (decide after)) (hnow : now)
    (hkinds : .propertyUpdate ∉ kinds) :
    mark.merge id (netEffect id existed now touched) =
      netEffect id existed after (touched ∨ kinds ≠ []) := by
  have hupdated : mark.updated = true ↔ after ∧ kinds ≠ [] := by
    rw [h.updated, decide_eq_true_iff]
    refine and_congr_right fun hafter =>
      ⟨?_, fun hne => (h.touched (decide_eq_true hafter) hne).resolve_left hkinds⟩
    rintro (hmem | hmem) <;> exact ne_nil_of_mem hmem
  rw [Mark.merge, netEffect, netEffect, h.inserted]
  by_cases hafter : after <;> by_cases hexisted : existed <;> by_cases htouched : touched <;>
    by_cases hne : kinds = [] <;>
    simp [hupdated, h.deleted, hnow, hafter, hexisted, htouched, addUpdateItem, addDeleteItem]

/-- What is reported of an item that does not. -/
theorem Mark.OfAbsent.merge_eq (h : mark.OfAbsent kinds (decide after)) (hnow : ¬now)
    (hnew : .insert ∈ kinds → ¬existed) :
    mark.merge id (netEffect id existed now touched) =
      netEffect id existed after (touched ∨ kinds ≠ []) := by
  have hupdated (hafter : ¬after) : mark.updated = false :=
    Bool.eq_false_iff.mpr fun hupdated => hafter (by simpa using h.updated hupdated)
  rw [Mark.merge, netEffect, netEffect]
  by_cases hkinds : kinds = []
  · have hafter : ¬after := fun hafter => by simpa [hkinds] using h.present (decide_eq_true hafter)
    simp [h.inserted, h.deleted, hupdated hafter, hkinds, hnow, hafter]
  · have hinsert := h.touched hkinds
    by_cases hafter : after <;> cases hupdate : mark.updated <;>
      simp [h.inserted, h.deleted, hinsert, hnew hinsert, hnow, addInsertItem, addUpdateItem,
        addDeleteItem]

/-- An entry of the log adds its batch to the net effect. -/
theorem Reports.read (h : Reports before ids batches changes) (hwrite : ids.write batch = some ids')
    (order : (ofBatch batch).Order) :
    Reports before ids' (batches ++ [batch]) (readItems order (readContainers order changes)) := by
  obtain ⟨present, hfold, hwrite⟩ := bind_eq_some_iff.mp hwrite
  split_ifs at hwrite with hgone
  obtain rfl := some.inj hwrite
  have hmark := itemMark_ofBatch hfold
  constructor
  · intro id
    have htouched : (∃ batch' ∈ batches ++ [batch], Touches id batch') ↔
        (∃ batch' ∈ batches, Touches id batch') ∨ itemKinds id batch ≠ [] := by
      simp [itemKinds_ne_nil]
    have hmark := hmark id
    rw [reported_readItems, h.reported]
    simp only [htouched]
    split_ifs at hmark with hnow
    · exact hmark.merge_eq hnow mem_itemKinds.2.2
    · -- what a batch inserts has not been deleted before
      refine hmark.merge_eq hnow fun hinsert hbefore => ?_
      exact hgone ⟨id, h.gone id hbefore hnow, mem_itemKinds.1.mp hinsert⟩
  · intro id hbefore habsent
    rw [Finset.mem_union, Finset.mem_sdiff, deletedIds, List.mem_toFinset, mem_filterMap]
    have hmark := hmark id
    split_ifs at hmark with hnow
    · have hdelete := mem_itemKinds.2.1.mp (hmark.delete (decide_eq_false habsent))
      exact .inr ⟨⟨_, hdelete, rfl⟩, habsent⟩
    · exact .inl (h.gone id hbefore hnow)

end Net

/-- A query has the net effect for each item: the history may be cut into batches and read from any
    change id. -/
theorem changes_since {before after : List (UInt64 × List LogEvent)}
    {logBefore logAfter : List (UInt64 × List UInt8)}
    (hlogBefore : List.Forall₂ Written before logBefore)
    (hlogAfter : List.Forall₂ Written after logAfter) (start : UInt64)
    (hbefore : ∀ batch ∈ before, batch.1 ≤ start) (hafter : ∀ batch ∈ after, start < batch.1)
    {initial ids' : Ids} (hids : ((before ++ after).map snd).foldlM Ids.write initial = some ids') :
    ∃ ids result, (before.map snd).foldlM Ids.write initial = some ids ∧
      changes false (logBefore ++ logAfter) (.since start) = some result ∧ ∀ id,
        reported id result.changes = netEffect id (id ∈ ids.present) (id ∈ ids'.present)
          (∃ batch ∈ after.map snd, Touches id batch) := by
  have hempty (ids : Ids) : Reports ids.present ids [] [] := by
    refine ⟨fun id => ?_, fun id hmem habsent => absurd hmem habsent⟩
    by_cases hmem : id ∈ ids.present <;> simp [netEffect, reported, hmem]
  obtain ⟨ids, result, hids, hresult, hreports⟩ := changes_since_induction
    (P := fun ids => Reports ids.present) Reports.read hlogBefore hlogAfter hbefore hafter hempty
    hids
  exact ⟨ids, result, hids, hresult, hreports.reported⟩

/-- Batches with the orders of their sets, and what is written of them. -/
theorem forall₂_written (entries : List (UInt64 × Σ batch, (ofBatch batch).Order)) :
    Forall₂ Written (entries.map fun entry => (entry.1, entry.2.1))
      (entries.map fun entry => (entry.1, serialize entry.2.2)) := by
  rw [forall₂_map_left_iff, forall₂_map_right_iff, forall₂_same]
  exact fun entry _ => ⟨rfl, entry.2.2, rfl⟩

/-- A list of the elements of a set. -/
def Listing.ofList {α : Type} [DecidableEq α] {s : Finset α} (toList : List α)
    (h : toList.Nodup ∧ toList.toFinset = s ∧ toList.length < 2 ^ 64 := by decide) : Listing s :=
  ⟨toList, h.1, fun _ => h.2.1 ▸ List.mem_toFinset.symm, h.2.2⟩

/-- Two items are there. -/
def firstBatch : List LogEvent := [.itemInsert 1, .itemInsert 2]

/-- One is modified, and the other one replaced by a third. -/
def secondBatch : List LogEvent := [.itemUpdate 1, .itemDelete 2, .itemInsert 3]

/-- The third one is deleted, and the first one deleted and restored. -/
def thirdBatch : List LogEvent := [.itemDelete 3, .itemDelete 1, .itemInsert 1]

def firstOrder : (ofBatch firstBatch).Order :=
  ⟨.ofList [2, 1], .ofList [], .ofList [], .ofList [], .ofList [], .ofList [], .ofList []⟩

def secondOrder : (ofBatch secondBatch).Order :=
  ⟨.ofList [3], .ofList [1], .ofList [2], .ofList [], .ofList [], .ofList [], .ofList []⟩

def thirdOrder : (ofBatch thirdBatch).Order :=
  ⟨.ofList [], .ofList [1], .ofList [3], .ofList [], .ofList [], .ofList [], .ofList []⟩

theorem changes_since_firstBatch :
    ∃ result, changes false ([(5, serialize firstOrder)] ++
        [(7, serialize secondOrder), (9, serialize thirdOrder)]) (.since 5) = some result ∧
      reported 1 result.changes = [.updateItem 1] ∧ reported 2 result.changes = [.deleteItem 2] ∧
      reported 3 result.changes = [] := by
  have hids : (([(5, firstBatch)] ++ [(7, secondBatch), (9, thirdBatch)] :
      List (UInt64 × List LogEvent)).map snd).foldlM Ids.write ⟨∅, ∅⟩ = some ⟨{1}, {2, 3}⟩ := by
    decide +kernel
  obtain ⟨ids, result, hids, hresult, hreported⟩ :=
    changes_since (forall₂_written [(5, ⟨_, firstOrder⟩)])
      (forall₂_written [(7, ⟨_, secondOrder⟩), (9, ⟨_, thirdOrder⟩)]) 5 (by decide) (by decide) hids
  refine ⟨result, hresult, ?_⟩
  obtain rfl : ids = ⟨{2, 1}, ∅⟩ := some.inj (hids.symm.trans (by decide +kernel))
  refine ⟨(hreported 1).trans ?_, (hreported 2).trans ?_, (hreported 3).trans ?_⟩ <;> decide

end Inworkspace.ChangeLog
