import Inworkspace.ChangeLog.NetEffect
import Mathlib.Data.List.DropRight

/-!
# Truncating the change log

`delete_changes` keeps the newest entries of the logs of an account. It goes through a log from its
end and counts; the entry behind the last one to be kept is where the log is cut. What is older is
deleted, and the entry itself is overwritten with an empty value, so that a query from before it
sees that changes are missing, while one from its change id does not look at its value.

* `Reachable`: the logs that writing and truncating lead to. Only the first entry of a log can stand
  for deleted changes (`IsLog`).
* `cut`: the change id from which on a log is complete.
* `deleteChanges_since`: nothing is different for queries from the cut on, older ones are told, and
  truncating again changes nothing.
-/

namespace Inworkspace.ChangeLog

open List Function Prod

inductive SyncCollection where
  | email | thread | calendar | addressBook | fileNode | identity | emailSubmission | sieveScript
  | calendarEventNotification | shareNotification | none
  deriving DecidableEq

inductive VanishedCollection where
  | email | calendar | addressBook | fileNode
  deriving DecidableEq

def SyncCollection.vanishedCollection : SyncCollection → Option VanishedCollection
  | email => some .email
  | calendar => some .calendar
  | addressBook => some .addressBook
  | fileNode => some .fileNode
  | _ => Option.none

/-- An entry of a log, with its change id. -/
abbrev Entry := UInt64 × List UInt8

/-- The entries of a log in the order of their change ids. -/
abbrev Entries := List Entry

/-- The change ids are counted up. -/
abbrev Ascending (log : Entries) : Prop := log.Pairwise fun entry entry' => entry.1 < entry'.1

/-- The logs of an account. -/
structure Logs where
  entries : SyncCollection → Entries
  vanished : VanishedCollection → Entries

/-- `Store::delete_range` in a log, where the last change id is not meant. -/
def deleteRange (fromChangeId toChangeId : UInt64) (log : Entries) : Entries :=
  log.filter fun entry => ¬ (fromChangeId ≤ entry.1 ∧ entry.1 < toChangeId)

def setEntry (changeId : UInt64) (value : List UInt8) : Entries → Entries
  | [] => [(changeId, value)]
  | entry :: log =>
    if changeId < entry.1 then (changeId, value) :: entry :: log
    else if changeId = entry.1 then (changeId, value) :: log
    else entry :: setEntry changeId value log

/-- The iteration of `delete_changes` over the change ids in descending order, with the last one met
    and their number. -/
def countChanges (maxEntries : ℕ) : UInt64 × ℕ → List UInt64 → UInt64 × ℕ
  | state, [] => state
  | (_, numChanges), changeId :: changeIds =>
    if numChanges + 1 ≤ maxEntries then
      countChanges maxEntries (changeId, numChanges + 1) changeIds
    else (changeId, numChanges + 1)

/-- The change id below which the entries of a log are deleted. -/
def firstChangeId (maxEntries : ℕ) (log : Entries) : Option UInt64 :=
  let (changeId, numChanges) := countChanges maxEntries (0, 0) (log.reverse.map fst)
  if maxEntries < numChanges then some changeId else none

namespace Logs

/-- What `delete_changes` does with a collection. -/
def truncate (maxEntries : ℕ) (self : Logs) (collection : SyncCollection) : Logs :=
  match firstChangeId maxEntries (self.entries collection) with
  | some changeId =>
    { entries := update self.entries collection
        (setEntry changeId [] (deleteRange 0 changeId (self.entries collection)))
      vanished := match collection.vanishedCollection with
        | some vanished =>
          update self.vanished vanished (deleteRange 0 changeId (self.vanished vanished))
        | none => self.vanished }
  | none => self

/-- The collections whose logs are cut. -/
def truncated : List SyncCollection :=
  [.email, .thread, .identity, .emailSubmission, .sieveScript, .fileNode, .addressBook, .calendar,
    .calendarEventNotification]

/-- `Server::delete_changes`, with the change id that the generator gives for `max_duration`. -/
def deleteChanges (maxEntries : Option ℕ) (maxDuration : Option UInt64) (self : Logs) : Logs :=
  let self := match maxEntries with
    | some maxEntries => truncated.foldl (truncate maxEntries) self
    | none => self
  match maxDuration with
  | some changeId =>
    { self with
      entries := update self.entries .shareNotification
        (deleteRange 0 changeId (self.entries .shareNotification)) }
  | none => self

end Logs

/-! ## Runs -/

/-- `Store::changes` for a collection. -/
def SyncCollection.changes (self : SyncCollection) (log : Entries) (query : Query) :
    Option Changes :=
  ChangeLog.changes (self = .shareNotification) log query

/-- An entry as it is written: of notifications in their log, of changes in the others. -/
def SyncCollection.Writes (self : SyncCollection) (entry : Entry) : Prop :=
  if self = .shareNotification then entry.2 ≠ [] else ∃ batch, Written (entry.1, batch) entry

namespace Logs

/-- Nothing has been changed yet. -/
def empty : Logs := ⟨fun _ => [], fun _ => []⟩

/-- A batch adds an entry. -/
def write (self : Logs) (collection : SyncCollection) (entry : Entry) : Logs :=
  { self with
    entries := update self.entries collection (self.entries collection ++ [entry]) }

/-- A batch adds what has vanished. -/
def vanish (self : Logs) (collection : VanishedCollection) (entry : Entry) : Logs :=
  { self with
    vanished := update self.vanished collection (self.vanished collection ++ [entry]) }

end Logs

/-- The logs of an account that are reached. Change ids are counted up by batches. -/
inductive Reachable : Logs → Prop
  | empty : Reachable .empty
  | write {logs : Logs} {collection : SyncCollection} {entry : Entry} :
    Reachable logs → (∀ older ∈ logs.entries collection, older.1 < entry.1) →
    collection.Writes entry → Reachable (logs.write collection entry)
  | vanish {logs : Logs} (collection : VanishedCollection) (entry : Entry) :
    Reachable logs → Reachable (logs.vanish collection entry)
  | deleteChanges {logs : Logs} (maxEntries : Option ℕ) (maxDuration : Option UInt64) :
    Reachable logs → Reachable (logs.deleteChanges maxEntries maxDuration)

/-- The entries are in order, and only the first one can stand for deleted changes. -/
structure IsLog (collection : SyncCollection) (log : Entries) : Prop where
  ascending : Ascending log
  first : ∀ entry ∈ log.head?, entry.2 = [] ∨ collection.Writes entry
  rest : ∀ entry ∈ log.tail, collection.Writes entry

section Cut

variable {maxEntries : ℕ} {log older newer : Entries} {entry : Entry}
  {collection : SyncCollection} {state : UInt64 × ℕ}

/-- With fewer entries than may be kept the iteration comes to its end. -/
theorem countChanges_of_le {changeIds : List UInt64} (h : state.2 + changeIds.length ≤ maxEntries) :
    (countChanges maxEntries state changeIds).2 = state.2 + changeIds.length := by
  induction changeIds generalizing state with
  | nil => rfl
  | cons changeId changeIds ih =>
    rw [length_cons] at h
    rw [countChanges, if_pos (by omega), ih (by dsimp only; omega), length_cons]
    omega

/-- With more it stops behind them. -/
theorem countChanges_append {newer older : List UInt64} {changeId : UInt64}
    (h : state.2 + newer.length = maxEntries) :
    countChanges maxEntries state (newer ++ changeId :: older) = (changeId, maxEntries + 1) := by
  induction newer generalizing state with
  | nil =>
    rw [length_nil, Nat.add_zero] at h
    rw [nil_append, countChanges, if_neg (by omega), h]
  | cons newest newer ih =>
    rw [length_cons] at h
    rw [cons_append, countChanges, if_pos (by omega)]
    exact ih (by dsimp only; omega)

theorem firstChangeId_of_le (h : log.length ≤ maxEntries) : firstChangeId maxEntries log = none := by
  have hcount : (countChanges maxEntries (0, 0) (log.reverse.map fst)).2 = log.length := by
    rw [countChanges_of_le (by simpa using h)]
    simp
  exact if_neg (by rw [hcount]; omega)

theorem firstChangeId_append (h : newer.length = maxEntries) :
    firstChangeId maxEntries (older ++ entry :: newer) = some entry.1 := by
  have hcount : countChanges maxEntries (0, 0) ((older ++ entry :: newer).reverse.map fst) =
      (entry.1, maxEntries + 1) := by
    have hsplit : (older ++ entry :: newer).reverse.map fst =
        newer.reverse.map fst ++ entry.1 :: older.reverse.map fst := by simp
    rw [hsplit]
    exact countChanges_append (by simpa using h)
  rw [firstChangeId, hcount]
  exact if_pos (Nat.lt_succ_self _)

/-- There are few entries, or the log is cut in two. -/
theorem length_le_or_exists_append (maxEntries : ℕ) (log : Entries) :
    log.length ≤ maxEntries ∨
      ∃ older entry newer, log = older ++ entry :: newer ∧ newer.length = maxEntries := by
  rcases Nat.lt_or_ge maxEntries log.length with h | h
  · refine .inr ⟨log.take (log.length - (maxEntries + 1)), log.get ⟨log.length - (maxEntries + 1),
      by omega⟩, log.drop (log.length - maxEntries), ?_, by simp; omega⟩
    have hdrop := drop_eq_getElem_cons (l := log) (i := log.length - (maxEntries + 1)) (by omega)
    have hnext : log.length - (maxEntries + 1) + 1 = log.length - maxEntries := by omega
    rw [hnext] at hdrop
    rw [get_eq_getElem, ← hdrop, take_append_drop]
  · exact .inl h

/-- A log that is cut has the entry of the cut, without its value, and the newer ones. -/
theorem setEntry_deleteRange (h : Ascending (older ++ entry :: newer)) :
    setEntry entry.1 [] (deleteRange 0 entry.1 (older ++ entry :: newer)) =
      (entry.1, []) :: newer := by
  obtain ⟨-, hnewer, holder⟩ := pairwise_append.mp h
  have hnewer := (pairwise_cons.mp hnewer).1
  have hrest : deleteRange 0 entry.1 (older ++ entry :: newer) = entry :: newer := by
    rw [deleteRange, filter_append, filter_eq_nil_iff.mpr, nil_append, filter_eq_self.mpr]
    · intro other hother
      have hle : entry.1 ≤ other.1 := by
        rcases mem_cons.mp hother with rfl | hother
        · exact UInt64.le_refl _
        · exact UInt64.le_of_lt (hnewer other hother)
      simp [UInt64.not_lt.mpr hle]
    · intro other hother
      simp [holder other hother entry mem_cons_self]
  rw [hrest, setEntry, if_neg (UInt64.lt_irrefl _), if_pos rfl]

/-- What `truncate` leaves of a log. -/
def truncateEntries (maxEntries : ℕ) (log : Entries) : Entries :=
  match firstChangeId maxEntries log with
  | some changeId => setEntry changeId [] (deleteRange 0 changeId log)
  | none => log

/-- A log is left as it is, or cut in two. -/
theorem truncateEntries_cases (h : Ascending log) (maxEntries : ℕ) :
    log.length ≤ maxEntries ∧ firstChangeId maxEntries log = none ∧
        truncateEntries maxEntries log = log ∨
      ∃ older entry newer, log = older ++ entry :: newer ∧ newer.length = maxEntries ∧
        firstChangeId maxEntries log = some entry.1 ∧
        truncateEntries maxEntries log = (entry.1, []) :: newer := by
  rcases length_le_or_exists_append maxEntries log with hle | ⟨older, entry, newer, rfl, hlength⟩
  · have hfirst := firstChangeId_of_le hle
    refine .inl ⟨hle, hfirst, ?_⟩
    rw [truncateEntries, hfirst]
  · have hfirst : firstChangeId maxEntries (older ++ entry :: newer) = some entry.1 :=
      firstChangeId_append hlength
    refine .inr ⟨older, entry, newer, rfl, hlength, hfirst, ?_⟩
    rw [truncateEntries, hfirst]
    exact setEntry_deleteRange h

/-- A log that has been cut is cut at the same change id, if at all, and loses nothing. -/
theorem truncateEntries_truncateEntries (h : Ascending log) (maxEntries : ℕ) :
    truncateEntries maxEntries (truncateEntries maxEntries log) = truncateEntries maxEntries log ∧
      firstChangeId maxEntries (truncateEntries maxEntries log) = firstChangeId maxEntries log := by
  rcases truncateEntries_cases h maxEntries with
    ⟨-, -, heq⟩ | ⟨older, entry, newer, rfl, hlength, hfirst, heq⟩
  · exact ⟨by rw [heq, heq], by rw [heq]⟩
  have hfirst' : firstChangeId maxEntries ([] ++ (entry.1, []) :: newer) = some entry.1 :=
    firstChangeId_append hlength
  have hnewer : Ascending ([] ++ (entry.1, []) :: newer) :=
    pairwise_cons.mpr (pairwise_cons.mp (pairwise_append.mp h).2.1)
  rw [heq, hfirst]
  refine ⟨?_, hfirst'⟩
  rw [← nil_append (_ :: newer), truncateEntries, hfirst']
  exact setEntry_deleteRange hnewer

end Cut

namespace IsLog

variable {collection : SyncCollection} {log : Entries}

theorem of_sublist (h : IsLog collection log) {log' : Entries} (hsub : log'.Sublist log) :
    IsLog collection log' where
  ascending := h.ascending.sublist hsub
  first := by
    intro entry hentry
    have hmem : entry ∈ log := hsub.subset (mem_of_mem_head? hentry)
    cases log with
    | nil => cases hmem
    | cons head log =>
      rcases mem_cons.mp hmem with rfl | hmem
      · exact h.first entry rfl
      · exact .inr (h.rest entry hmem)
  rest := fun entry hentry => h.rest entry (hsub.tail.subset hentry)

theorem truncate (h : IsLog collection log) (maxEntries : ℕ) :
    IsLog collection (truncateEntries maxEntries log) := by
  rcases truncateEntries_cases h.ascending maxEntries with
    ⟨-, -, heq⟩ | ⟨older, entry, newer, rfl, -, -, heq⟩
  · rwa [heq]
  -- the newer entries are as before, and the first one may have no value
  have hsuffix := h.of_sublist (sublist_append_right older (entry :: newer))
  rw [heq]
  refine ⟨pairwise_cons.mpr (pairwise_cons.mp hsuffix.ascending), fun entry' hentry' => ?_,
    hsuffix.rest⟩
  obtain rfl := Option.some.inj hentry'
  exact .inl rfl

/-- Entries are added with ids that are greater. -/
theorem append (h : IsLog collection log) {entry : Entry}
    (hlt : ∀ older ∈ log, older.1 < entry.1) (hwrites : collection.Writes entry) :
    IsLog collection (log ++ [entry]) := by
  refine ⟨?_, fun entry' hentry' => ?_, fun entry' hentry' => ?_⟩
  · refine pairwise_append.mpr ⟨h.ascending, pairwise_singleton _ _, ?_⟩
    intro older holder entry' hentry'
    rw [mem_singleton.mp hentry']
    exact hlt older holder
  · cases log with
    | nil =>
      obtain rfl := Option.some.inj hentry'
      exact .inr hwrites
    | cons head log => exact h.first entry' hentry'
  · cases log with
    | nil => cases hentry'
    | cons head log =>
      rcases mem_append.mp hentry' with hentry' | hentry'
      · exact h.rest entry' hentry'
      · rw [mem_singleton.mp hentry']
        exact hwrites

end IsLog

namespace Logs

variable {maxEntries : ℕ} {logs : Logs} {collection collection' : SyncCollection}

/-- The log of a collection, and that of what has vanished, if there is one. -/
def part (self : Logs) (collection : SyncCollection) : Entries × Option Entries :=
  (self.entries collection, collection.vanishedCollection.map self.vanished)

theorem fst_part : (logs.part collection).1 = logs.entries collection := rfl

/-- What `truncate` leaves of it. -/
def truncatePart (maxEntries : ℕ) (part : Entries × Option Entries) : Entries × Option Entries :=
  (truncateEntries maxEntries part.1, part.2.map fun vanished =>
    (firstChangeId maxEntries part.1).elim vanished (deleteRange 0 · vanished))

theorem part_truncate_self :
    (logs.truncate maxEntries collection).part collection =
      truncatePart maxEntries (logs.part collection) := by
  rw [truncate, truncatePart, part, part, truncateEntries]
  cases firstChangeId maxEntries (logs.entries collection) with
  | none => simp [comp_def]
  | some changeId => cases hvanished : collection.vanishedCollection <;> simp

/-- A truncation leaves the other collections alone. -/
theorem part_truncate_of_ne (h : collection' ≠ collection) :
    (logs.truncate maxEntries collection).part collection' = logs.part collection' := by
  rw [truncate]
  cases firstChangeId maxEntries (logs.entries collection) with
  | none => rfl
  | some changeId =>
    refine Prod.ext (update_of_ne h _ _) (Option.map_congr fun vanished hvanished => ?_)
    cases hcollection : collection.vanishedCollection with
    | none => rfl
    | some vanished' =>
      -- vanished items of two collections are not kept together
      refine update_of_ne (fun heq => h ?_) _ _
      revert hvanished hcollection
      subst heq
      cases collection <;> cases collection' <;> cases vanished <;> decide

/-- Each collection is truncated by itself. -/
theorem part_foldl_truncate {collections : List SyncCollection} (h : collections.Nodup) :
    (collections.foldl (truncate maxEntries) logs).part collection =
      if collection ∈ collections then truncatePart maxEntries (logs.part collection)
      else logs.part collection := by
  induction collections generalizing logs with
  | nil => rfl
  | cons collection' collections ih =>
    obtain ⟨hnot, hnodup⟩ := nodup_cons.mp h
    rw [foldl_cons, ih hnodup]
    by_cases heq : collection = collection'
    · subst heq
      rw [if_neg hnot, if_pos mem_cons_self, part_truncate_self]
    · rw [part_truncate_of_ne heq]
      simp [heq]

theorem truncated_nodup : truncated.Nodup := by decide

theorem deleteChanges_some_none :
    logs.deleteChanges (some maxEntries) none = truncated.foldl (truncate maxEntries) logs := rfl

/-- What `delete_changes` leaves of the log of a collection. -/
theorem deleteChanges_entries :
    (logs.deleteChanges (some maxEntries) none).entries collection =
      if collection ∈ truncated then truncateEntries maxEntries (logs.entries collection)
      else logs.entries collection := by
  rw [deleteChanges_some_none, ← fst_part, part_foldl_truncate truncated_nodup]
  split_ifs <;> rfl

/-- The logs are determined by their parts, as each log of what has vanished is in one. -/
theorem eq_of_part {logs' : Logs} (h : ∀ collection, logs.part collection = logs'.part collection) :
    logs = logs' := by
  obtain ⟨entries, vanished⟩ := logs
  obtain rfl : entries = logs'.entries := funext fun collection => congrArg fst (h collection)
  obtain rfl : vanished = logs'.vanished := by
    funext collection'
    obtain ⟨collection, hcollection⟩ : ∃ collection : SyncCollection,
        collection.vanishedCollection = some collection' := by
      cases collection'
      exacts [⟨.email, rfl⟩, ⟨.calendar, rfl⟩, ⟨.addressBook, rfl⟩, ⟨.fileNode, rfl⟩]
    have hvanished := congrArg snd (h collection)
    simpa [part, hcollection] using hvanished
  rfl

end Logs

/-- However a log was written and truncated, its entries are in order. -/
theorem Reachable.isLog {logs : Logs} (h : Reachable logs) (collection : SyncCollection) :
    IsLog collection (logs.entries collection) := by
  induction h with
  | empty => exact ⟨Pairwise.nil, nofun, nofun⟩
  | @write logs collection' entry _ hlt hwrites ih =>
    simp only [Logs.write]
    by_cases heq : collection = collection'
    · subst heq
      rw [update_self]
      exact ih.append hlt hwrites
    · rwa [update_of_ne heq]
  | vanish _ _ _ ih => exact ih
  | @deleteChanges logs maxEntries maxDuration _ ih =>
    have hentries : IsLog collection ((logs.deleteChanges maxEntries none).entries collection) := by
      cases maxEntries with
      | none => exact ih
      | some maxEntries =>
        rw [Logs.deleteChanges_entries]
        split_ifs
        · exact ih.truncate maxEntries
        · exact ih
    cases maxDuration with
    | none => exact hentries
    | some changeId =>
      -- share notifications are deleted by their age
      by_cases heq : collection = .shareNotification
      · subst heq
        exact hentries.of_sublist filter_sublist
      · exact (congrArg _ (update_of_ne heq _ _)).mpr hentries

/-! ## Queries -/

section Queries

variable {log : Entries} {entry : Entry} {start : UInt64}
  {collection : SyncCollection} {older newer : Entries}

/-- The value is empty or can be read. -/
def Readable (entry : Entry) : Prop :=
  entry.2 = [] ∨ ∃ batch, Written (entry.1, batch) entry

/-- An empty entry other than that at the start marks a truncation. -/
theorem read_readable (h : Readable entry) (start : UInt64) (self : Changes) :
    ∃ self', self.read false false start entry = some self' ∧
      self'.isTruncated = (self.isTruncated || entry.1 != start && entry.2.isEmpty) := by
  by_cases heq : entry.1 = start
  · rw [Changes.read]
    simp [heq]
  rcases h with hempty | ⟨batch, -, order, hbytes⟩
  · rw [Changes.read]
    simp [heq, hempty]
  have hnonempty : (LogChanges.serialize order).isEmpty = false :=
    isEmpty_eq_false_iff.mpr (serialize_ne_nil order)
  rw [Changes.read]
  simp only [Bool.false_or, bne_iff_ne, ne_eq, heq, hnonempty, hbytes, deserialize_serialize order,
    Bool.and_false, Bool.or_false]
  refine ⟨_, rfl, ?_⟩
  split_ifs <;> rfl

/-- A client is told of the truncation by an entry without a value. -/
theorem foldlM_read_readable (h : ∀ entry ∈ log, Readable entry) (start : UInt64) (self : Changes) :
    ∃ self', log.foldlM (Changes.read false false start) self = some self' ∧
      self'.isTruncated =
        (self.isTruncated || log.any fun entry => entry.1 != start && entry.2.isEmpty) := by
  induction log generalizing self with
  | nil => exact ⟨self, rfl, by simp⟩
  | cons entry log ih =>
    rw [forall_mem_cons] at h
    obtain ⟨self₁, hread, htruncated₁⟩ := read_readable h.1 start self
    obtain ⟨self', hfold, htruncated⟩ := ih h.2 self₁
    refine ⟨self', ?_, ?_⟩
    · rw [foldlM_cons, hread]
      exact hfold
    · rw [htruncated, htruncated₁, any_cons, Bool.or_assoc]

/-- A query since a change id has a result, which says whether a later entry stands for deleted
    changes. -/
theorem changes_since_isTruncated (h : ∀ entry ∈ log, Readable entry) (start : UInt64) :
    ∃ result, changes false log (.since start) = some result ∧
      (result.isTruncated = true ↔ ∃ entry ∈ log, start < entry.1 ∧ entry.2 = []) := by
  have hfilter : ∀ entry ∈ log.filter (fun entry => start ≤ entry.1 && entry.1 ≤ maxChangeId),
      Readable entry := fun entry hentry => h entry (mem_of_mem_filter hentry)
  obtain ⟨result, hresult, htruncated⟩ := foldlM_read_readable hfilter start Changes.default
  refine ⟨result, hresult, ?_⟩
  rw [htruncated, Changes.default, Bool.false_or, any_eq_true]
  refine exists_congr fun entry => ?_
  simp only [List.mem_filter, Bool.and_eq_true, decide_eq_true_eq, bne_iff_ne, List.isEmpty_iff,
    le_maxChangeId, and_true, and_assoc]
  refine and_congr_right fun _ => ?_
  rw [← and_assoc]
  refine and_congr_left fun _ => ⟨fun h => ?_, fun h => ⟨UInt64.le_of_lt h, ?_⟩⟩
  · exact UInt64.lt_of_le_of_ne h.1 (Ne.symm h.2)
  · exact (UInt64.ne_of_lt h).symm

/-- The change id from which on a log with so many entries left is complete: the one behind these
    or, if there are no more, that of an earlier cut. -/
def cut (maxEntries : ℕ) (log : Entries) : UInt64 :=
  match log.rtake (maxEntries + 1) with
  | (changeId, value) :: _ => if maxEntries < log.length ∨ value = [] then changeId else 0
  | [] => 0

theorem cut_append {maxEntries : ℕ} (h : newer.length = maxEntries) :
    cut maxEntries (older ++ entry :: newer) = entry.1 := by
  have hrtake : (older ++ entry :: newer).rtake (maxEntries + 1) = entry :: newer := by
    rw [rtake, length_append, length_cons, h, Nat.add_sub_cancel, drop_left]
  rw [cut, hrtake]
  exact if_pos (.inl (by rw [length_append, length_cons]; omega))

/-- Where a log has been cut before. -/
def earlierCut : Entries → UInt64
  | (changeId, []) :: _ => changeId
  | _ => 0

theorem cut_of_le {maxEntries : ℕ} (h : log.length ≤ maxEntries) :
    cut maxEntries log = earlierCut log := by
  have hrtake : log.rtake (maxEntries + 1) = log := by
    rw [rtake, Nat.sub_eq_zero_of_le (by omega), drop_zero]
  rw [cut, hrtake]
  rcases log with _ | ⟨⟨changeId, _ | ⟨byte, value⟩⟩, log⟩
  · rfl
  · exact if_pos (.inr rfl)
  · exact if_neg (by simpa using h)

/-- A query from the cut on does not see what has been cut off. -/
theorem changes_since_append (h : Ascending (older ++ entry :: newer)) (hle : entry.1 ≤ start) :
    changes false ((entry.1, []) :: newer) (.since start) =
      changes false (older ++ entry :: newer) (.since start) := by
  have h := pairwise_append.mp h
  have holder : older.filter (fun e => start ≤ e.1 && e.1 ≤ maxChangeId) = [] := by
    refine filter_eq_nil_iff.mpr fun e he => ?_
    have hlt := UInt64.lt_of_lt_of_le (h.2.2 e he entry mem_cons_self) hle
    simp [UInt64.not_le.mpr hlt]
  rw [changes, changes, Query.range]
  dsimp only
  rw [filter_append, holder, nil_append, filter_cons, filter_cons]
  split_ifs with hentry
  · -- the entry of the cut is that of the query, and its value is not looked at
    rw [Bool.and_eq_true, decide_eq_true_iff] at hentry
    obtain rfl := UInt64.le_antisymm hle hentry.1
    rw [foldlM_cons, foldlM_cons, Changes.read, Changes.read]
    simp
  · rfl

/-- After the first entry all have their values. -/
theorem ne_nil_of_writes (h : collection.Writes entry) : entry.2 ≠ [] := by
  rw [SyncCollection.Writes] at h
  split_ifs at h
  · exact h
  · obtain ⟨batch, -, order, hbytes⟩ := h
    rw [hbytes]
    exact serialize_ne_nil order

theorem IsLog.readable (h : IsLog collection log) (hne : collection ≠ .shareNotification) :
    ∀ entry ∈ log, Readable entry := by
  have hwrites {entry : Entry} (h : collection.Writes entry) : Readable entry := by
    rw [SyncCollection.Writes, if_neg hne] at h
    exact .inr h
  cases log with
  | nil => exact nofun
  | cons head log =>
    rw [forall_mem_cons]
    exact ⟨(h.first head rfl).imp_right fun h => (hwrites h).resolve_left (ne_nil_of_writes h),
      fun entry hentry => hwrites (h.rest entry hentry)⟩

/-- Entries without a value are at the cut. -/
theorem IsLog.le_cut (h : IsLog collection log) (maxEntries : ℕ) (hentry : entry ∈ log)
    (hempty : entry.2 = []) : entry.1 ≤ cut maxEntries log := by
  cases log with
  | nil => cases hentry
  | cons head log =>
    -- only the oldest entry can be one that truncating has left
    rcases mem_cons.mp hentry with rfl | hentry
    · rcases length_le_or_exists_append maxEntries (entry :: log) with
        hle | ⟨older, entry', newer, heq, hlength⟩
      · obtain ⟨changeId, value⟩ := entry
        obtain rfl : value = [] := hempty
        rw [cut_of_le hle]
        exact UInt64.le_refl _
      · rw [heq, cut_append hlength]
        cases older with
        | nil =>
          rw [(cons.inj heq).1]
          exact UInt64.le_refl _
        | cons head older =>
          rw [cons_append, cons.injEq] at heq
          have hlt := (pairwise_cons.mp h.ascending).1 entry' (by rw [heq.2]; simp)
          exact UInt64.le_of_lt hlt
    · exact absurd hempty (ne_nil_of_writes (h.rest entry hentry))

end Queries

section Main

variable {collection : SyncCollection} {log : Entries} {maxEntries : ℕ}

section

variable (h : IsLog collection log) (hne : collection ≠ .shareNotification) {start : UInt64}

include h hne

/-- A query from the cut on has the result it had, in which nothing is missing. -/
theorem IsLog.changes_since_of_cut_le (hle : cut maxEntries log ≤ start) :
    ∃ result, changes false (truncateEntries maxEntries log) (.since start) = some result ∧
      changes false log (.since start) = some result ∧ result.isTruncated = false := by
  obtain ⟨result, hresult, htruncated⟩ := changes_since_isTruncated (h.readable hne) start
  refine ⟨result, ?_, hresult, ?_⟩
  · rcases truncateEntries_cases h.ascending maxEntries with
      ⟨-, -, heq⟩ | ⟨older, entry, newer, rfl, hlength, -, heq⟩
    · rwa [heq]
    · rw [cut_append hlength] at hle
      rw [heq, changes_since_append h.ascending hle, hresult]
  · rw [Bool.eq_false_iff, Ne, htruncated]
    rintro ⟨entry, hentry, hlt, hempty⟩
    exact UInt64.not_lt.mpr (UInt64.le_trans (h.le_cut maxEntries hentry hempty) hle) hlt

/-- A query from before the cut is told that changes are missing. -/
theorem IsLog.changes_since_of_lt_cut (hlt : start < cut maxEntries log) :
    ∃ result, changes false (truncateEntries maxEntries log) (.since start) = some result ∧
      result.isTruncated = true := by
  obtain ⟨result, hresult, htruncated⟩ :=
    changes_since_isTruncated ((h.truncate maxEntries).readable hne) start
  refine ⟨result, hresult, htruncated.mpr ?_⟩
  rcases truncateEntries_cases h.ascending maxEntries with
    ⟨hlength, -, heq⟩ | ⟨older, entry, newer, rfl, hlength, -, heq⟩
  · -- it is an earlier cut
    rw [heq]
    rw [cut_of_le hlength] at hlt
    have hzero : ¬start < 0 := UInt64.not_lt.mpr (UInt64.le_iff_toNat_le.mpr (Nat.zero_le _))
    rcases log with _ | ⟨⟨changeId, _ | ⟨byte, value⟩⟩, log⟩
    · exact absurd hlt hzero
    · exact ⟨_, mem_cons_self, hlt, rfl⟩
    · exact absurd hlt hzero
  · rw [cut_append hlength] at hlt
    rw [heq]
    exact ⟨_, mem_cons_self, hlt, rfl⟩

end

/-- The newest entries are kept. -/
theorem IsLog.rtake_suffix (h : IsLog collection log) :
    log.rtake maxEntries <:+ truncateEntries maxEntries log := by
  rcases truncateEntries_cases h.ascending maxEntries with
    ⟨-, -, heq⟩ | ⟨older, entry, newer, rfl, hlength, -, heq⟩
  · rw [heq]
    exact drop_suffix _ _
  · have hsplit : older ++ entry :: newer = (older ++ [entry]) ++ newer := by simp
    rw [heq, hsplit, rtake, length_append, hlength, Nat.add_sub_cancel, drop_left]
    exact suffix_cons _ _

/-- After truncating, queries from the cut on have the results they had and miss nothing, queries
    from before it are told, the newest entries are there, and truncating again deletes nothing. -/
theorem deleteChanges_since {logs : Logs} (h : Reachable logs) (maxEntries : ℕ) :
    (∀ collection ∈ Logs.truncated, let log := logs.entries collection
      let log' := (logs.deleteChanges (some maxEntries) none).entries collection
      (∀ changeId, cut maxEntries log ≤ changeId →
        ∃ result, collection.changes log' (.since changeId) = some result ∧
          collection.changes log (.since changeId) = some result ∧ result.isTruncated = false) ∧
      (∀ changeId < cut maxEntries log,
        ∃ result, collection.changes log' (.since changeId) = some result ∧
          result.isTruncated = true) ∧
      log.rtake maxEntries <:+ log') ∧
    (∀ collection ∉ Logs.truncated,
      (logs.deleteChanges (some maxEntries) none).entries collection = logs.entries collection) ∧
    (logs.deleteChanges (some maxEntries) none).deleteChanges (some maxEntries) none =
      logs.deleteChanges (some maxEntries) none := by
  refine ⟨fun collection hcollection => ?_, fun collection hcollection => ?_, ?_⟩
  · have hlog := h.isLog collection
    have hne : collection ≠ .shareNotification := by
      rintro rfl
      exact absurd hcollection (by decide)
    rw [Logs.deleteChanges_entries, if_pos hcollection]
    simp only [SyncCollection.changes, hne]
    exact ⟨fun changeId hle => hlog.changes_since_of_cut_le hne hle,
      fun changeId hlt => hlog.changes_since_of_lt_cut hne hlt, hlog.rtake_suffix⟩
  · rw [Logs.deleteChanges_entries, if_neg hcollection]
  -- collections have parts of their own, so each is truncated alone
  · simp only [Logs.deleteChanges_some_none]
    refine Logs.eq_of_part fun collection => ?_
    simp only [Logs.part_foldl_truncate Logs.truncated_nodup]
    split_ifs
    · obtain ⟨hentries, hfirst⟩ :=
        truncateEntries_truncateEntries (h.isLog collection).ascending maxEntries
      simp only [Logs.truncatePart, Logs.part, hentries, hfirst, Option.map_map]
      cases firstChangeId maxEntries (logs.entries collection) with
      | none => rfl
      | some changeId => simp [comp_def, deleteRange]
    · rfl

end Main

/-- Three batches have changed messages. -/
def messageLogs : Logs :=
  ((Logs.empty.write .email (5, LogChanges.serialize firstOrder)).write .email
    (7, LogChanges.serialize secondOrder)).write .email (9, LogChanges.serialize thirdOrder)

theorem reachable_messageLogs : Reachable messageLogs := by
  refine .write (.write (.write .empty nofun ?_) ?_ ?_) ?_ ?_
  · exact ⟨firstBatch, rfl, firstOrder, rfl⟩
  · simp [Logs.write, Logs.empty]
  · exact ⟨secondBatch, rfl, secondOrder, rfl⟩
  · simp [Logs.write, Logs.empty]
  · exact ⟨thirdBatch, rfl, thirdOrder, rfl⟩

/-- If one is kept, a client that has seen the second sees no difference, and one that has only seen
    the first is told. -/
theorem deleteChanges_messageLogs :
    let log := (messageLogs.deleteChanges (some 1) none).entries .email
    (∃ result, SyncCollection.email.changes log (.since 7) = some result ∧
      result.isTruncated = false) ∧
    ∃ result, SyncCollection.email.changes log (.since 5) = some result ∧
      result.isTruncated = true := by
  obtain ⟨hsince, hbefore, -⟩ := (deleteChanges_since reachable_messageLogs 1).1 .email (by decide)
  obtain ⟨result, hresult, -, htruncated⟩ := hsince 7 (UInt64.le_refl _)
  exact ⟨⟨result, hresult, htruncated⟩, hbefore 5 (by decide)⟩

end Inworkspace.ChangeLog
