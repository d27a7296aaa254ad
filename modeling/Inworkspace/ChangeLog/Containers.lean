import Inworkspace.ChangeLog.NetEffect
import Mathlib.Data.List.DropRight

/-!
# What the change log reports of containers

A container (a mailbox, a calendar, …) can be changed as a whole, or only in its properties, so
there are two kinds of updates to report, of which a change as a whole counts for more. As for
items, the builder and the reader together have to come to the net effect (`netContainer`). They do
(`ContainerReports.read`), with one exception: when a container is deleted, the reader takes back
that it has been inserted or updated, but not that its properties have been. A container of which
only properties were changed by earlier batches, and which is then deleted, is reported twice
(`OnlyPropertiesUntilLast`).
-/

namespace Inworkspace.ChangeLog

open LogChanges LogEvent Option List Prod

/-! ## One container at a time -/

def reportedContainer (id : UInt64) (changes : List Change) : List Change :=
  changes.filter fun change => change.containerId = some id

/-- What is reported of a container after an entry with changes of it. -/
def Mark.mergeContainer (self : Mark) (id : UInt64) (changes : List Change) : List Change :=
  let changes := if self.inserted then addInsertContainer changes id else changes
  let changes := if self.updated then addUpdateContainer changes id false else changes
  let changes := if self.propertyChanged then addUpdateContainer changes id true else changes
  if self.deleted then addDeleteContainer changes id else changes

variable (documentId : UInt32) (batch : List LogEvent) (batches : List (List LogEvent))

/-- The sets that have a container. -/
def LogChanges.containerMark (self : LogChanges) : Mark :=
  ⟨documentId ∈ self.containerInserts, documentId ∈ self.containerUpdates,
    documentId ∈ self.containerPropertyChanges, documentId ∈ self.containerDeletes⟩

/-- Of changes of several containers, each container sees its own. -/
theorem filter_foldl_withId {f : List Change → UInt64 → List Change}
    (h : ∀ id, ActsOn (·.containerId = some id) (f · id)) {s : Finset UInt32} (order : Listing s)
    (documentId : UInt32) (changes : List Change) :
    reportedContainer documentId.toUInt64 (order.containerIds.foldl (withId f) changes) =
      if documentId ∈ s then f (reportedContainer documentId.toUInt64 changes) documentId.toUInt64
      else reportedContainer documentId.toUInt64 changes := by
  have hfold : order.containerIds.foldl (withId f) changes =
      (order.toList.map UInt32.toUInt64).foldl f changes := by
    rw [Listing.containerIds, foldl_map, foldl_map]
    congr 1
    funext changes id
    rw [withId, ← UInt32.toNat_toUInt64, UInt64.ofNat_toNat]
  have hinjective : Function.Injective UInt32.toUInt64 := fun a b h => by
    rw [← UInt32.toNat_inj, ← UInt32.toNat_toUInt64, ← UInt32.toNat_toUInt64, h]
  rw [reportedContainer, hfold, filter_foldl_of_actsOn h (order.nodup.map hinjective)]
  simp only [List.mem_map_of_injective hinjective, order.mem_toList, reportedContainer]

/-- The report on a container depends on its own mark and report. -/
theorem reportedContainer_readItems {logged : LogChanges} (order : logged.Order)
    (documentId : UInt32) (changes : List Change) :
    reportedContainer documentId.toUInt64 (readItems order (readContainers order changes)) =
      (logged.containerMark documentId).mergeContainer documentId.toUInt64
        (reportedContainer documentId.toUInt64 changes) := by
  have hitems : reportedContainer documentId.toUInt64
      (readItems order (readContainers order changes)) =
        reportedContainer documentId.toUInt64 (readContainers order changes) :=
    (actsOn_readItems order).outside
      (fun change hchange => by cases change <;> simp_all [Change.containerId, Change.itemId]) _
  rw [hitems]
  simp [readContainers, Mark.mergeContainer, containerMark,
    filter_foldl_withId (fun _ => actsOn_addInsertContainer) order.containerInserts,
    filter_foldl_withId (fun _ => actsOn_addUpdateContainer false) order.containerUpdates,
    filter_foldl_withId (fun _ => actsOn_addUpdateContainer true) order.containerPropertyChanges,
    filter_foldl_withId (fun _ => actsOn_addDeleteContainer) order.containerDeletes]

/-! ## Histories -/

def LogEvent.containerId : LogEvent → Option UInt32
  | .containerInsert documentId | .containerUpdate documentId
  | .containerPropertyUpdate documentId | .containerDelete documentId => some documentId
  | _ => none

/-- The containers after an event, which an insertion must not and other events must find. -/
def LogEvent.applyContainer (present : Finset UInt32) : LogEvent → Option (Finset UInt32)
  | .containerInsert documentId =>
    if documentId ∈ present then none else some (insert documentId present)
  | .containerUpdate documentId | .containerPropertyUpdate documentId =>
    if documentId ∈ present then some present else none
  | .containerDelete documentId =>
    if documentId ∈ present then some (present.erase documentId) else none
  | _ => some present

/-- The containers that a batch deletes, some of which it may insert again. -/
def deletedContainers : Finset UInt32 :=
  (batch.filterMap fun
    | .containerDelete documentId => some documentId
    | _ => none).toFinset

/-- The containers that exist, and those that have been deleted for good. -/
structure ContainerIds where
  present : Finset UInt32
  gone : Finset UInt32
  deriving DecidableEq

/-- The containers after a batch, which must not insert one that an earlier batch has deleted. -/
def ContainerIds.write (self : ContainerIds) (batch : List LogEvent) : Option ContainerIds := do
  let present ← batch.foldlM LogEvent.applyContainer self.present
  if ∃ documentId ∈ self.gone, .containerInsert documentId ∈ batch then none
  else some ⟨present, self.gone ∪ (deletedContainers batch \ present)⟩

/-- Some event is about the container. -/
def TouchesContainer : Prop :=
  ∃ event ∈ batch, event.containerId = some documentId

instance (documentId : UInt32) (batch : List LogEvent) :
    Decidable (TouchesContainer documentId batch) :=
  inferInstanceAs (Decidable (∃ event ∈ batch, _))

/-- The container has been updated as a whole, or made anew. -/
def UpdatesContainer : Prop :=
  .containerUpdate documentId ∈ batch ∨ .containerInsert documentId ∈ batch

instance (documentId : UInt32) (batch : List LogEvent) :
    Decidable (UpdatesContainer documentId batch) :=
  inferInstanceAs (Decidable (_ ∨ _))

/-- A property of the container has been changed. -/
def ChangesProperty : Prop :=
  .containerPropertyUpdate documentId ∈ batch

instance (documentId : UInt32) (batch : List LogEvent) :
    Decidable (ChangesProperty documentId batch) :=
  inferInstanceAs (Decidable (_ ∈ _))

/-- What an event does to a container. -/
def LogEvent.containerKind : LogEvent → Option EventKind
  | .containerInsert documentId' => if documentId = documentId' then some .insert else none
  | .containerUpdate documentId' => if documentId = documentId' then some .update else none
  | .containerPropertyUpdate documentId' =>
    if documentId = documentId' then some .propertyUpdate else none
  | .containerDelete documentId' => if documentId = documentId' then some .delete else none
  | _ => none

/-- What the events of a batch do to a container. -/
def containerKinds : List EventKind :=
  batch.filterMap (·.containerKind documentId)

section Batch

variable {documentId} {before after : Finset UInt32} {batch}

/-- The kinds are the events of the container in the batch. -/
theorem mem_containerKinds :
    (.insert ∈ containerKinds documentId batch ↔ .containerInsert documentId ∈ batch) ∧
      (.update ∈ containerKinds documentId batch ↔ .containerUpdate documentId ∈ batch) ∧
      (.propertyUpdate ∈ containerKinds documentId batch ↔ ChangesProperty documentId batch) ∧
      (.delete ∈ containerKinds documentId batch ↔ .containerDelete documentId ∈ batch) := by
  simp only [containerKinds, mem_filterMap]
  refine ⟨⟨?_, fun h => ⟨_, h, by simp [containerKind]⟩⟩,
    ⟨?_, fun h => ⟨_, h, by simp [containerKind]⟩⟩,
    ⟨?_, fun h => ⟨_, h, by simp [containerKind]⟩⟩,
    ⟨?_, fun h => ⟨_, h, by simp [containerKind]⟩⟩⟩
  all_goals
    rintro ⟨event, hmem, hkind⟩
    cases event <;> simp [containerKind] at hkind
    exact hkind ▸ hmem

theorem containerKinds_ne_nil :
    containerKinds documentId batch ≠ [] ↔ TouchesContainer documentId batch := by
  rw [containerKinds, ne_eq, filterMap_eq_nil_iff]
  push Not
  refine exists_congr fun event => and_congr_right fun _ => ?_
  cases event <;> simp [containerKind, containerId, eq_comm]

theorem updatesContainer_iff : UpdatesContainer documentId batch ↔
    .update ∈ containerKinds documentId batch ∨ .insert ∈ containerKinds documentId batch := by
  rw [UpdatesContainer, mem_containerKinds.1, mem_containerKinds.2.1]

/-- What the builder has of a container after a batch. -/
theorem containerMark_ofBatch (h : batch.foldlM applyContainer before = some after)
    (documentId : UInt32) :
    if documentId ∈ before then ((ofBatch batch).containerMark documentId).OfPresent
      (containerKinds documentId batch) (documentId ∈ after)
    else ((ofBatch batch).containerMark documentId).OfAbsent
      (containerKinds documentId batch) (documentId ∈ after) := by
  -- an event changes the mark of its own container only
  have hlog (logged : LogChanges) (event : LogEvent) : (logged.log event).containerMark documentId =
        (event.containerKind documentId).elim (logged.containerMark documentId)
          (logged.containerMark documentId).log := by
    cases event with
    | containerInsert documentId' =>
      rw [log, logContainerInsert]
      by_cases hid : documentId = documentId' <;>
        by_cases hdeleted : documentId' ∈ logged.containerDeletes <;>
        simp [containerKind, containerMark, Mark.log, hid, hdeleted]
    | containerUpdate documentId' | containerPropertyUpdate documentId'
    | containerDelete documentId' =>
      simp only [log, logContainerUpdate, logContainerPropertyUpdate, logContainerDelete]
      by_cases hid : documentId = documentId' <;> simp [containerKind, containerMark, Mark.log, hid]
    | itemInsert id =>
      rw [log, logItemInsert]
      split_ifs <;> rfl
    | itemUpdate | itemDelete => rfl
  have happly {s s' : Finset UInt32} {event : LogEvent}
      (happly : event.applyContainer s = some s') :
      (event.containerKind documentId).elim (some (decide (documentId ∈ s)))
        (·.apply (documentId ∈ s)) = some (decide (documentId ∈ s')) := by
    cases event with
    | containerInsert documentId' | containerUpdate documentId'
    | containerPropertyUpdate documentId' | containerDelete documentId' =>
      simp only [applyContainer, ite_none_left_eq_some,
        ite_none_right_eq_some, some.injEq] at happly
      obtain ⟨hmem, rfl⟩ := happly
      by_cases hid : documentId = documentId' <;> simp [containerKind, EventKind.apply, hid, hmem]
    | itemInsert | itemUpdate | itemDelete =>
      rw [← some.inj happly]
      rfl
  simpa [containerKinds] using
    mark_ofBatch (by simp [containerMark, empty, Mark.none]) hlog happly h

end Batch

/-! ## The net effect -/

/-- What is to be reported of a container that existed or not, exists or not, and has been updated
    as a whole or in its properties. -/
def netContainer (id : UInt64) (existed exists_ updated propertyChanged : Prop)
    [Decidable existed] [Decidable exists_] [Decidable updated] [Decidable propertyChanged] :
    List Change :=
  if existed then
    if exists_ then
      if updated then [.updateContainer id]
      else if propertyChanged then [.updateContainerProperty id] else []
    else [.deleteContainer id]
  else if exists_ then [.insertContainer id] else []

/-- Of the container only properties have been changed. -/
def OnlyProperties : Prop :=
  (∃ batch ∈ batches, ChangesProperty documentId batch) ∧
    ¬ ∃ batch ∈ batches, UpdatesContainer documentId batch

instance (documentId : UInt32) (batches : List (List LogEvent)) :
    Decidable (OnlyProperties documentId batches) :=
  inferInstanceAs (Decidable (_ ∧ _))

/-- Until the last batch about the container, only its properties have been changed. If it is gone,
    this is the batch that has deleted it. -/
def OnlyPropertiesUntilLast : Prop :=
  OnlyProperties documentId
    (batches.rdropWhile fun batch => ¬ TouchesContainer documentId batch).dropLast

instance (documentId : UInt32) (batches : List (List LogEvent)) :
    Decidable (OnlyPropertiesUntilLast documentId batches) :=
  inferInstanceAs (Decidable (OnlyProperties _ _))

theorem onlyPropertiesUntilLast_append {documentId : UInt32} (batch : List LogEvent) :
    OnlyPropertiesUntilLast documentId (batches ++ [batch]) ↔
      if TouchesContainer documentId batch then OnlyProperties documentId batches
      else OnlyPropertiesUntilLast documentId batches := by
  rw [OnlyPropertiesUntilLast, OnlyPropertiesUntilLast]
  split_ifs with htouches
  · rw [rdropWhile_concat_neg _ _ _ (by simpa using htouches), dropLast_concat]
  · rw [rdropWhile_concat_pos _ _ _ (by simpa using htouches)]

/-- What is reported of a container: the net effect, and changes of its properties if there were
    only these before it was deleted. -/
def reportsContainer (id : UInt64) (existed exists_ updated propertyChanged onlyProperties : Prop)
    [Decidable existed] [Decidable exists_] [Decidable updated] [Decidable propertyChanged]
    [Decidable onlyProperties] : List Change :=
  if existed ∧ ¬ exists_ ∧ onlyProperties then [.updateContainerProperty id, .deleteContainer id]
  else netContainer id existed exists_ updated propertyChanged

/-- The report is wrong where a container goes with its properties noted only. -/
theorem reportsContainer_eq_net_iff {id : UInt64}
    {existed exists_ updated propertyChanged onlyProperties : Prop} [Decidable existed]
    [Decidable exists_] [Decidable updated] [Decidable propertyChanged] [Decidable onlyProperties] :
    reportsContainer id existed exists_ updated propertyChanged onlyProperties =
        netContainer id existed exists_ updated propertyChanged ↔
      (existed → ¬ exists_ → ¬ onlyProperties) := by
  rw [reportsContainer]
  split_ifs with h
  · obtain ⟨hexisted, hexists, honly⟩ := h
    simp [netContainer, hexisted, hexists, honly]
  · exact iff_of_true rfl fun hexisted hexists honly => h ⟨hexisted, hexists, honly⟩

section Net

variable {id : UInt64} {kinds : List EventKind} {mark : Mark}
  {existed now after updated propertyChanged : Prop} [Decidable existed] [Decidable now]
  [Decidable after] [Decidable updated] [Decidable propertyChanged]

/-- What is reported of a container that exists before the batch. -/
theorem Mark.OfPresent.mergeContainer_eq (h : mark.OfPresent kinds (decide after)) (hnow : now) :
    mark.mergeContainer id (netContainer id existed now updated propertyChanged) =
      reportsContainer id existed after (updated ∨ .update ∈ kinds ∨ .insert ∈ kinds)
        (propertyChanged ∨ .propertyUpdate ∈ kinds) (propertyChanged ∧ ¬updated) := by
  simp only [Mark.mergeContainer, reportsContainer, netContainer, h.inserted, hnow]
  by_cases hafter : after
  · have hdeleted : mark.deleted = false := by simpa [hafter] using h.deleted
    by_cases hbatch : .update ∈ kinds ∨ .insert ∈ kinds
    · -- whether properties have been changed too does not matter
      have hupdated : mark.updated = true := h.updated.mpr ⟨decide_eq_true hafter, hbatch⟩
      by_cases hexisted : existed <;> by_cases hupdate : updated <;>
        by_cases hproperty : propertyChanged <;> cases hlogged : mark.propertyChanged <;>
        simp [hafter, hexisted, hupdate, hproperty, hbatch, hupdated, hdeleted, addUpdateContainer]
    · have hlogged : mark.propertyChanged = decide (.propertyUpdate ∈ kinds) := by
        rw [Bool.eq_iff_iff, decide_eq_true_iff]
        exact ⟨fun h' => (h.properties h').2, h.property (decide_eq_true hafter) hbatch⟩
      have hupdated : mark.updated = false :=
        Bool.eq_false_iff.mpr fun h' => hbatch (h.updated.mp h').2
      by_cases hexisted : existed <;> by_cases hupdate : updated <;>
        by_cases hproperty : propertyChanged <;> by_cases hchanges : .propertyUpdate ∈ kinds <;>
        simp [hafter, hexisted, hupdate, hproperty, hbatch, hupdated, hdeleted, hlogged,
          addUpdateContainer]
  · have hlogged : mark.propertyChanged = false :=
      Bool.eq_false_iff.mpr fun h' => hafter (by simpa using (h.properties h').1)
    have hupdated : mark.updated = false :=
      Bool.eq_false_iff.mpr fun h' => hafter (by simpa using (h.updated.mp h').1)
    by_cases hexisted : existed <;> by_cases hupdate : updated <;>
      by_cases hproperty : propertyChanged <;>
      simp [hafter, hexisted, hupdate, hproperty, hlogged, hupdated, h.deleted, addDeleteContainer]

/-- What is reported of a container that the batch makes. -/
theorem Mark.OfAbsent.mergeContainer_eq (h : mark.OfAbsent kinds (decide after))
    (hinsert : .insert ∈ kinds) :
    mark.mergeContainer id [] = if after then [.insertContainer id] else [] := by
  simp only [Mark.mergeContainer, h.inserted, h.deleted, hinsert]
  by_cases hafter : after <;> cases hupdate : mark.updated <;>
    cases hproperty : mark.propertyChanged <;>
    simp [addInsertContainer, addUpdateContainer, addDeleteContainer]

/-- A batch that does not make it says nothing of a container that is not there. -/
theorem Mark.OfAbsent.mergeContainer_of_notMem (h : mark.OfAbsent kinds (decide after))
    (hinsert : .insert ∉ kinds) (id : UInt64) (changes : List Change) :
    ¬after ∧ mark.mergeContainer id changes = changes := by
  have hafter : ¬after := fun hafter => hinsert (h.present (decide_eq_true hafter))
  have hupdated : mark.updated = false :=
    Bool.eq_false_iff.mpr fun h' => hafter (by simpa using h.updated h')
  have hproperty : mark.propertyChanged = false :=
    Bool.eq_false_iff.mpr fun h' => hafter (by simpa using h.properties h')
  exact ⟨hafter, by simp [Mark.mergeContainer, h.inserted, h.deleted, hinsert, hupdated, hproperty]⟩

end Net

/-- The changes are what is reported of some batches. -/
structure ContainerReports (before : Finset UInt32) (ids : ContainerIds)
    (batches : List (List LogEvent)) (changes : List Change) : Prop where
  reported : ∀ documentId, reportedContainer documentId.toUInt64 changes =
    reportsContainer documentId.toUInt64 (documentId ∈ before) (documentId ∈ ids.present)
      (∃ batch ∈ batches, UpdatesContainer documentId batch)
      (∃ batch ∈ batches, ChangesProperty documentId batch)
      (OnlyPropertiesUntilLast documentId batches)
  gone : ∀ documentId ∈ before, documentId ∉ ids.present → documentId ∈ ids.gone

section Run

variable {documentId} {before : Finset UInt32} {ids ids' : ContainerIds} {batches} {batch}
  {changes : List Change}

/-- Reading a batch keeps the reports true. -/
theorem ContainerReports.read (h : ContainerReports before ids batches changes)
    (hwrite : ids.write batch = some ids') (order : (ofBatch batch).Order) :
    ContainerReports before ids' (batches ++ [batch])
      (readItems order (readContainers order changes)) := by
  obtain ⟨present, hfold, hwrite⟩ := bind_eq_some_iff.mp hwrite
  split_ifs at hwrite with hgone
  obtain rfl := some.inj hwrite
  have hmark := containerMark_ofBatch hfold
  refine ⟨fun documentId => ?_, fun documentId hbefore habsent => ?_⟩ <;>
    have hmark := hmark documentId <;> split_ifs at hmark with hnow
  · rw [reportedContainer_readItems, h.reported, reportsContainer_eq_net_iff.mpr
      fun _ habsent => absurd hnow habsent, hmark.mergeContainer_eq hnow]
    by_cases hafter : documentId ∈ present
    · simp [reportsContainer, hafter, updatesContainer_iff, mem_containerKinds.2.2.1]
    -- it is this batch that deletes the container
    have htouches : TouchesContainer documentId batch :=
      ⟨_, mem_containerKinds.2.2.2.mp (hmark.delete (decide_eq_false hafter)), rfl⟩
    simp [onlyPropertiesUntilLast_append, htouches, OnlyProperties, updatesContainer_iff,
      mem_containerKinds.2.2.1]
  · rw [reportedContainer_readItems, h.reported]
    by_cases hinsert : .insert ∈ containerKinds documentId batch
    · -- what a batch inserts has not been deleted before
      have hbefore : documentId ∉ before := fun hbefore =>
        hgone ⟨documentId, h.gone documentId hbefore hnow, mem_containerKinds.1.mp hinsert⟩
      simp [reportsContainer, netContainer, hbefore, hnow, hmark.mergeContainer_eq hinsert]
    · have hkinds : containerKinds documentId batch = [] := by
        by_contra hne
        exact hinsert (hmark.touched hne)
      have htouches : ¬TouchesContainer documentId batch :=
        fun htouches => containerKinds_ne_nil.mpr htouches hkinds
      have hupdates : ¬UpdatesContainer documentId batch := by simp [updatesContainer_iff, hkinds]
      have hproperty : ¬ChangesProperty documentId batch := by
        simp [← mem_containerKinds.2.2.1, hkinds]
      obtain ⟨hafter, hmerge⟩ := hmark.mergeContainer_of_notMem hinsert documentId.toUInt64 _
      rw [hmerge]
      simp [hnow, hafter, hupdates, hproperty, onlyPropertiesUntilLast_append, htouches]
  · rw [Finset.mem_union, Finset.mem_sdiff, deletedContainers, List.mem_toFinset, mem_filterMap]
    have hdelete := mem_containerKinds.2.2.2.mp (hmark.delete (decide_eq_false habsent))
    exact .inr ⟨⟨_, hdelete, rfl⟩, habsent⟩
  · exact Finset.mem_union_left _ (h.gone documentId hbefore hnow)

end Run

section Since

variable {before after : List (UInt64 × List LogEvent)}
  {logBefore logAfter : List (UInt64 × List UInt8)}
  (hlogBefore : List.Forall₂ Written before logBefore)
  (hlogAfter : List.Forall₂ Written after logAfter) (start : UInt64)
  (hbefore : ∀ batch ∈ before, batch.1 ≤ start) (hafter : ∀ batch ∈ after, start < batch.1)
  {initial ids' : ContainerIds}
  (hids : ((before ++ after).map snd).foldlM ContainerIds.write initial = some ids')

include hlogBefore hlogAfter hbefore hafter hids

/-- What a query reports of containers. -/
theorem containerReports_since :
    ∃ ids result, (before.map snd).foldlM ContainerIds.write initial = some ids ∧
      changes false (logBefore ++ logAfter) (.since start) = some result ∧
      ContainerReports ids.present ids' (after.map snd) result.changes := by
  have hempty (ids : ContainerIds) : ContainerReports ids.present ids [] [] := by
    refine ⟨fun documentId => ?_, fun documentId hmem habsent => absurd hmem habsent⟩
    by_cases hmem : documentId ∈ ids.present <;>
      simp [reportsContainer, netContainer, reportedContainer, hmem]
  exact changes_since_induction (P := fun ids => ContainerReports ids.present)
    ContainerReports.read hlogBefore hlogAfter hbefore hafter hempty hids

/-- A query has the net effect for each container if and only if none has been deleted after changes
    of its properties only. -/
theorem changes_since_containers_iff :
    ∃ ids result, (before.map snd).foldlM ContainerIds.write initial = some ids ∧
      changes false (logBefore ++ logAfter) (.since start) = some result ∧
      ((∀ documentId, reportedContainer documentId.toUInt64 result.changes =
          netContainer documentId.toUInt64 (documentId ∈ ids.present) (documentId ∈ ids'.present)
            (∃ batch ∈ after.map snd, UpdatesContainer documentId batch)
            (∃ batch ∈ after.map snd, ChangesProperty documentId batch)) ↔
        ∀ documentId ∈ ids.present, documentId ∉ ids'.present →
          ¬ OnlyPropertiesUntilLast documentId (after.map snd)) := by
  obtain ⟨ids, result, hids, hresult, hreports⟩ :=
    containerReports_since hlogBefore hlogAfter start hbefore hafter hids
  refine ⟨ids, result, hids, hresult, forall_congr' fun documentId => ?_⟩
  rw [hreports.reported]
  exact reportsContainer_eq_net_iff

end Since

/-- A mailbox is made. -/
def mailboxCreated : List LogEvent := [.containerInsert 4]

/-- A message is added to it, so that its counters change. -/
def messageAdded : List LogEvent := [.itemInsert 17, .containerPropertyUpdate 4]

/-- It is deleted together with the message. -/
def mailboxDeleted : List LogEvent := [.itemDelete 17, .containerDelete 4]

def mailboxRenamed : List LogEvent := [.containerUpdate 4]

def mailboxCreatedOrder : (ofBatch mailboxCreated).Order :=
  ⟨.ofList [], .ofList [], .ofList [], .ofList [4], .ofList [], .ofList [], .ofList []⟩

def messageAddedOrder : (ofBatch messageAdded).Order :=
  ⟨.ofList [17], .ofList [], .ofList [], .ofList [], .ofList [], .ofList [], .ofList [4]⟩

def mailboxDeletedOrder : (ofBatch mailboxDeleted).Order :=
  ⟨.ofList [], .ofList [], .ofList [17], .ofList [], .ofList [], .ofList [4], .ofList []⟩

def mailboxRenamedOrder : (ofBatch mailboxRenamed).Order :=
  ⟨.ofList [], .ofList [], .ofList [], .ofList [], .ofList [4], .ofList [], .ofList []⟩

/-- A mailbox that has got a message and has been deleted is reported twice. -/
theorem changes_since_mailboxDeleted :
    ∃ result, changes false ([(5, serialize mailboxCreatedOrder)] ++
        [(7, serialize messageAddedOrder),
          (9, serialize mailboxDeletedOrder)]) (.since 5) = some result ∧
      reportedContainer 4 result.changes = [.updateContainerProperty 4, .deleteContainer 4] := by
  have hids : (([(5, mailboxCreated)] ++ [(7, messageAdded), (9, mailboxDeleted)] :
      List (UInt64 × List LogEvent)).map snd).foldlM ContainerIds.write ⟨∅, ∅⟩ = some ⟨∅, {4}⟩ := by
    decide +kernel
  obtain ⟨ids, result, hids, hresult, hreports⟩ :=
    containerReports_since (forall₂_written [(5, ⟨_, mailboxCreatedOrder⟩)])
      (forall₂_written [(7, ⟨_, messageAddedOrder⟩), (9, ⟨_, mailboxDeletedOrder⟩)]) 5 (by decide)
      (by decide) hids
  refine ⟨result, hresult, (hreports.reported 4).trans ?_⟩
  obtain rfl : ids = ⟨{4}, ∅⟩ := some.inj (hids.symm.trans (by decide +kernel))
  decide

/-- One that is renamed in between is not. -/
theorem changes_since_mailboxRenamed :
    ∃ result, changes false ([(5, serialize mailboxCreatedOrder)] ++
        [(7, serialize messageAddedOrder), (8, serialize mailboxRenamedOrder),
          (9, serialize mailboxDeletedOrder)]) (.since 5) = some result ∧
      reportedContainer 4 result.changes = [.deleteContainer 4] := by
  have hids : (([(5, mailboxCreated)] ++
      [(7, messageAdded), (8, mailboxRenamed), (9, mailboxDeleted)] :
      List (UInt64 × List LogEvent)).map snd).foldlM ContainerIds.write ⟨∅, ∅⟩ = some ⟨∅, {4}⟩ := by
    decide +kernel
  obtain ⟨ids, result, hids, hresult, hiff⟩ :=
    changes_since_containers_iff (forall₂_written [(5, ⟨_, mailboxCreatedOrder⟩)])
      (forall₂_written [(7, ⟨_, messageAddedOrder⟩), (8, ⟨_, mailboxRenamedOrder⟩),
        (9, ⟨_, mailboxDeletedOrder⟩)]) 5 (by decide) (by decide) hids
  obtain rfl : ids = ⟨{4}, ∅⟩ := some.inj (hids.symm.trans (by decide +kernel))
  refine ⟨result, hresult, (hiff.mpr ?_ 4).trans (by decide)⟩
  intro documentId hmem _
  rw [Finset.mem_singleton.mp hmem]
  decide

end Inworkspace.ChangeLog
