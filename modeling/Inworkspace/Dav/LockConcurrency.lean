import Inworkspace.Dav.LockTable

/-!
# Requests at the same time

The locks of a collection are one value, which a request reads, changes and writes as a whole.
Requests may read and write in any order. A lock whose token has been returned to a client stays in
the table until it expires or is unlocked (`run_kept`), provided that a request writes only what it
has read itself: no lock has been added or changed since. If two requests read the same table, the
second one writes over the lock of the first (`run_lost`).
-/

namespace Inworkspace.Dav

open Lib List

variable {D : Type} (config : LockConfig D) (call : LockCall D)

/-- The two steps of a request: the table is read, and written or deleted. -/
inductive LockEvent where
  | read (request : ℕ)
  | write (request : ℕ)

/-- A lock that a client has been told about, and until when it lasts. -/
structure Acknowledged where
  lockToken : Text
  expires : ℕ

/-- The stored table, what the requests have read, the locks that clients have been told about and
    have not unlocked, and the time of the last change. -/
structure LockState (D : Type) where
  stored : Option (LockData D)
  reads : ℕ → Option (Option (LockData D))
  acknowledged : List Acknowledged
  clock : ℕ

/-- No lock yet. -/
def LockState.init : LockState D := ⟨none, fun _ => none, [], 0⟩

/-- The client is told about a lock, or that one is no more. -/
def LockCall.acknowledge (response : LockResponse)
    (acknowledged : List Acknowledged) : List Acknowledged :=
  match response with
  | .created token => acknowledged ++ [⟨token, call.expires config⟩]
  | .ok token =>
    acknowledged.filter (·.lockToken ≠ token) ++ [⟨token, call.expires config⟩]
  | .noContent =>
    acknowledged.filter fun lock =>
      (call.lockToken.bind parseLock).map lockUrn ≠ some lock.lockToken

/-- A request writes what has become of the table that it has read. -/
def LockState.write (state : LockState D) (snapshot : Option (LockData D)) : LockState D :=
  match handleLockRequest config call snapshot with
  | .error _ => state
  | .ok (response, stored) =>
    { state with
      stored := stored
      acknowledged := call.acknowledge config response state.acknowledged
      clock := max state.clock call.written }

/-- One step of one request. -/
def LockState.step (calls : ℕ → LockCall D) (state : LockState D) : LockEvent → LockState D
  | .read request =>
    { state with reads := Function.update state.reads request (some state.stored) }
  | .write request =>
    match state.reads request with
    | none => state
    | some snapshot =>
      let written := state.write config (calls request) snapshot
      { written with reads := Function.update written.reads request none }

/-- What has been read has all the stored locks, and the token of an `If` header beside a body is of
    no lock that a client has been told about. -/
structure Current (state : LockState D) (snapshot : Option (LockData D)) : Prop where
  locks : ∀ lock ∈ (tableOf state.stored).locks, lock ∈ (tableOf snapshot).locks
  token : ∀ info, call.request = .lock info → call.ifLockToken ≠ 0 →
    ∀ lock ∈ state.acknowledged, lock.lockToken ≠ lockUrn call.ifLockToken

/-- Each request writes what is current. -/
def CurrentRun (config : LockConfig D) (calls : ℕ → LockCall D) (state : LockState D) :
    List LockEvent → Prop
  | [] => True
  | event :: events =>
    (∀ request snapshot, event = .write request → state.reads request = some snapshot →
      Current (calls request) state snapshot) ∧
    CurrentRun config calls (state.step config calls event) events

/-- The locks that clients have been told about are there until they expire. -/
def LockState.Kept (state : LockState D) : Prop :=
  ∀ acknowledged ∈ state.acknowledged, state.clock < acknowledged.expires →
    ∃ lock ∈ (tableOf state.stored).locks,
      lockUrn lock.2.lockId = acknowledged.lockToken ∧ lock.2.expires = acknowledged.expires

variable {config} {state : LockState D} {calls : ℕ → LockCall D}

/-- A write keeps the locks, and adds the one that it acknowledges. -/
theorem LockState.Kept.write (h : state.Kept) {call : LockCall D} {snapshot : Option (LockData D)}
    (hcurrent : Current call state snapshot) : (state.write config call snapshot).Kept := by
  rw [LockState.write]
  rcases hresult : handleLockRequest config call snapshot with _ | ⟨response, stored⟩
  · exact h
  obtain ⟨path, data, -, hmade, htable, -⟩ := exists_made hresult
  intro acknowledged hmem hclock
  have hclock : state.clock < acknowledged.expires ∧ call.written < acknowledged.expires :=
    Nat.max_lt.mp hclock
  -- it is enough to find the lock before what has expired is removed
  suffices hfound : ∃ lock ∈ data.locks, lockUrn lock.2.lockId = acknowledged.lockToken ∧
      lock.2.expires = acknowledged.expires by
    obtain ⟨lock, hlock, htoken, hexpires⟩ := hfound
    rw [htable]
    exact ⟨lock, mem_filter.mpr ⟨hlock, decide_eq_true (hexpires ▸ hclock.2)⟩, htoken, hexpires⟩
  have hold (hmem : acknowledged ∈ state.acknowledged) :
      ∃ lock ∈ (tableOf snapshot).locks, lockUrn lock.2.lockId = acknowledged.lockToken ∧
        lock.2.expires = acknowledged.expires := by
    obtain ⟨lock, hlock, hkept⟩ := h acknowledged hmem hclock.1
    exact ⟨lock, hcurrent.locks lock hlock, hkept⟩
  rcases hmade with ⟨-, -⟩ | ⟨hlock, htoken, hfind⟩ | ⟨-, hunlock, hremove⟩
  · rcases mem_append.mp hmem with hmem | hmem
    · obtain ⟨lock, hlock, hkept⟩ := hold hmem
      exact ⟨lock, mem_append_left _ hlock, hkept⟩
    · obtain rfl := mem_singleton.mp hmem
      exact ⟨_, mem_append_right _ (mem_singleton_self _), rfl, call.change_expires config _⟩
  · rename_i found
    rcases mem_append.mp hmem with hmem | hmem
    · obtain ⟨hmem, hother⟩ := mem_filter.mp hmem
      have hother := of_decide_eq_true hother
      obtain ⟨lock, hlock', hurn, hexpires⟩ := hold hmem
      refine ⟨lock, KeyedList.mem_updateFirst_of_neg hlock' fun hkey => ?_, hurn, hexpires⟩
      have hkey : lock.2.lockId = call.ifLockToken := by simpa using hkey
      rcases hrequest : call.request with info | _ | _
      · exact hcurrent.token info hrequest htoken _ hmem (by rw [← hurn, hkey])
      · rw [hrequest] at hlock
        contradiction
      -- a refresh keeps the token of the lock
      have hfound : found.2.lockId = call.ifLockToken := by simpa using find?_some hfind
      refine hother ?_
      simp only [LockCall.change, hrequest]
      rw [← hurn, hkey, hfound]
    · obtain rfl := mem_singleton.mp hmem
      exact ⟨_, KeyedList.mem_updateFirst_of_find? hfind, rfl, call.change_expires config _⟩
  · obtain ⟨hmem, hother⟩ := mem_filter.mp hmem
    have hother := of_decide_eq_true hother
    obtain ⟨lock, hlock, hurn, hexpires⟩ := hold hmem
    rw [LockData.removeLock] at hremove
    split at hremove
    · rw [← Option.some.inj hremove]
      refine ⟨lock, (mem_eraseP_of_neg fun hkey => hother ?_).mpr hlock, hurn, hexpires⟩
      rw [hunlock, ← hurn, of_decide_eq_true hkey]
      rfl
    · contradiction

theorem LockState.Kept.step (h : state.Kept) {event : LockEvent}
    (hcurrent : ∀ request snapshot, event = .write request →
      state.reads request = some snapshot → Current (calls request) state snapshot) :
    (state.step config calls event).Kept := by
  rcases event with request | request
  · exact h
  rw [LockState.step]
  rcases hread : state.reads request with _ | snapshot
  · exact h
  · exact h.write (hcurrent request snapshot rfl hread)

theorem LockState.Kept.run (h : state.Kept) {events : List LockEvent}
    (hcurrent : CurrentRun config calls state events) :
    (events.foldl (LockState.step config calls) state).Kept := by
  induction events generalizing state with
  | nil => exact h
  | cons event events ih => exact ih (h.step hcurrent.1) hcurrent.2

/-- The steps of any requests, in any order. A lock whose token a client has is in the table, at
    each time until it expires or is unlocked. -/
theorem run_kept (config : LockConfig D) (calls : ℕ → LockCall D) (events : List LockEvent)
    (h : CurrentRun config calls LockState.init events) :
    let state := events.foldl (LockState.step config calls) LockState.init
    ∀ acknowledged ∈ state.acknowledged, ∀ now, state.clock ≤ now → now < acknowledged.expires →
      ∃ lock ∈ (tableOf state.stored).locks,
        lockUrn lock.2.lockId = acknowledged.lockToken ∧ lock.2.expires = acknowledged.expires := by
  intro state acknowledged hmem now hnow hexpires
  have hinit : (LockState.init : LockState D).Kept := forall_mem_nil _
  have hkept : state.Kept := hinit.run h
  exact hkept acknowledged hmem (Nat.lt_of_le_of_lt hnow hexpires)

/-- Two users lock two files. -/
def lockCalls (request : ℕ) : LockCall Unit :=
  if request = 0 then fileCall exclusiveLock "a" 1 0 50 else fileCall exclusiveLock "b" 2 0 60

/-- One request after the other. -/
theorem run_kept_serial :
    ∃ lock ∈ (tableOf ([.read 0, .write 0, .read 1, .write 1].foldl
        (LockState.step lockConfig lockCalls) LockState.init).stored).locks,
      lockUrn lock.2.lockId = lockUrn 3650 ∧ lock.2.expires = 3650 := by
  refine run_kept lockConfig lockCalls [.read 0, .write 0, .read 1, .write 1]
    ⟨fun _ _ h => by contradiction, fun request snapshot hrequest hread => ?_,
      fun _ _ h => by contradiction, fun request snapshot hrequest hread => ?_, trivial⟩
    ⟨lockUrn 3650, 3650⟩ (mem_cons_self) 60 (by decide) (by decide)
  · obtain rfl := LockEvent.write.inj hrequest
    exact ⟨forall_mem_nil _, fun _ _ h => absurd rfl h⟩
  · obtain rfl := LockEvent.write.inj hrequest
    obtain rfl := Option.some.inj hread
    exact ⟨fun _ h => h, fun _ _ h => absurd rfl h⟩

/-- Both requests read the table before either writes. Both users are told that their files are
    locked, but only the second lock is there. -/
theorem run_lost :
    let state := [.read 0, .read 1, .write 0, .write 1].foldl
      (LockState.step lockConfig lockCalls) LockState.init
    ⟨lockUrn 3650, 3650⟩ ∈ state.acknowledged ∧ state.clock = 60 ∧
      ∀ lock ∈ (tableOf state.stored).locks, lockUrn lock.2.lockId ≠ lockUrn 3650 :=
  ⟨mem_cons_self, rfl, by decide⟩

end Inworkspace.Dav
