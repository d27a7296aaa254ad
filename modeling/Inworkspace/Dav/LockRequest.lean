import Inworkspace.Dav.LockCheck
import Inworkspace.Lib.Extremum
import Inworkspace.Lib.KeyedList
import Inworkspace.Lib.Loop

/-!
# Making, refreshing and removing locks

`handleLockRequest` serves a `LOCK` request, with or without a body, or an `UNLOCK` request. The
table of the collection is read, checked and changed, and written as a whole. A `LOCK` request
whose `If` header has a lock token changes the lock of that token, wherever it is; one without a
token makes a new lock. Without a body only the time is set.
-/

namespace Inworkspace.Dav

open Lib Except

variable {D : Type}

structure LockInfo (D : Type) where
  exclusive : Bool
  owner : Option D

inductive LockRequest (D : Type) where
  | lock (info : LockInfo D)
  | unlock
  | refresh

/-- It is not a request to unlock. -/
def LockRequest.isLock : LockRequest D → Bool
  | .unlock => false
  | _ => true

inductive Timeout where
  | infinite
  | second (seconds : ℕ)
  | none

/-- The settings about locks, and the size of what a client says of itself. -/
structure LockConfig (D : Type) where
  deadPropertySize : Option ℕ
  maxLocksPerUser : ℕ
  maxLockTimeout : ℕ
  sizeOf : D → ℕ

/-- A request, what is known when it is served, and the times when locks are checked and the table
    changed and written. -/
structure LockCall (D : Type) where
  request : LockRequest D
  accountId : ℕ
  collection : Collection
  path : Option Text
  isMember : Bool
  user : ℕ
  headers : RequestHeaders
  depthInfinity : Bool
  timeout : Timeout
  lockToken : Option Text
  env : Env D
  random : ℕ
  made : ℕ
  written : ℕ

/-- The response: the lock is created, or is there, or is no more. -/
inductive LockResponse where
  | created (lockToken : Text)
  | ok (lockToken : Text)
  | noContent
  deriving DecidableEq

namespace LockCall

variable (self : LockCall D) (config : LockConfig D) (data : LockData D) (path : Text)
  (info : LockInfo D) (stored : Option (LockData D))

/-- `if_lock_token`: the first lock token of the `If` header, or zero. -/
def ifLockToken : ℕ :=
  ((self.headers.ifs.flatMap (·.list)).findSome? fun
    | .stateToken _ token => parseLock token
    | _ => none).getD 0

/-- The time until which a lock is made. -/
def expires : ℕ :=
  self.made + match self.timeout with
    | .second seconds => min seconds config.maxLockTimeout
    | _ => config.maxLockTimeout

/-- The id of a lock that is made. -/
def lockId : ℕ := self.random ^^^ self.expires config

/-- The table is the one that has been read. -/
def envWith : Env D :=
  { self.env with
    lockData := fun accountId collection =>
      if accountId = self.accountId ∧ collection = self.collection.mainCollection then stored
      else self.env.lockData accountId collection }

/-- The locks a new lock would conflict with, unless it is made of one of them. -/
def failedLocks : List (Text × LockItem D) :=
  (data.findLocks self.env.now path true).filter fun lock =>
    self.ifLockToken ≠ lock.2.lockId ∧ (lock.2.exclusive ∨ info.exclusive) ∧
      (lock.1.length = path.length ∨ lock.2.depthInfinity ∧ path.length > lock.1.length ∨
        self.depthInfinity ∧ lock.1.length > path.length)

/-- The owner has too much to say. -/
def tooLarge : Bool :=
  info.owner.any fun owner => config.sizeOf owner > config.deadPropertySize.getD 512

/-- The checks of a new lock. -/
def checkLock : Except DavError Unit := do
  let failed := self.failedLocks data path info
  if !failed.isEmpty then
    throw (.condition .locked
      (.lockTokenSubmitted (failed.map fun lock => self.headers.baseUri ++ ['/'] ++ lock.1)))
  if tooLarge config info then throw (.code .payloadTooLarge)
  if config.maxLocksPerUser > 0 ∧
      data.locks.countP (·.2.owner = self.user) ≥ config.maxLocksPerUser then
    throw (.code .tooManyRequests)

/-- Only a request with a body is for a new lock. -/
def checkRequest : Except DavError Unit :=
  match self.request with
  | .lock info => self.checkLock config data path info
  | _ => .ok ()

/-- The table that is read, when the request may go on with it. -/
def readLocks : Except DavError (LockData D) := do
  let resource := ResourceState.new self.accountId self.collection path
  match stored with
  | some data =>
    validateHeaders (self.envWith stored) self.headers [resource]
      (if self.request.isLock then .lock else .unlock)
    self.checkRequest config data path
    return data
  | none =>
    if self.request.isLock then
      validateHeaders (self.envWith stored) self.headers [resource] .lock
      return ⟨[]⟩
    else throw (.condition .conflict .lockTokenMatchesRequestUri)

/-- What a lock becomes. -/
def change (lock : LockItem D) : LockItem D :=
  match self.request with
  | .lock info =>
    { lockId := self.lockId config
      owner := self.user
      expires := self.expires config
      depthInfinity := self.depthInfinity
      exclusive := info.exclusive
      ownerDav := info.owner }
  | _ => { lock with expires := self.expires config }

/-- `LockItem::default`. -/
def defaultLock : LockItem D := ⟨0, 0, 0, false, false, none⟩

/-- A lock is made, or the one with the token of the `If` header is changed. -/
def placeLock : Except DavError (LockResponse × LockData D) :=
  if self.ifLockToken > 0 then
    match data.locks.find? (·.2.lockId == self.ifLockToken) with
    | some lock =>
      .ok (.ok (lockUrn (self.change config lock.2).lockId),
        ⟨KeyedList.updateFirst (·.2.lockId == self.ifLockToken)
          (fun lock => (lock.1, self.change config lock.2)) data.locks⟩)
    | none => .error (.code .preconditionFailed)
  else
    -- a refresh without a token makes a lock too
    .ok (.created (lockUrn (self.change config defaultLock).lockId),
      ⟨data.locks ++ [(path, self.change config defaultLock)]⟩)

/-- The owner is checked again. -/
def checkOwner : Except DavError Unit :=
  match self.request with
  | .lock info => if tooLarge config info then .error (.code .payloadTooLarge) else .ok ()
  | _ => .ok ()

/-- The part of a `LOCK` request that changes the table. -/
def makeLock : Except DavError (LockResponse × LockData D) := do
  let made ← self.placeLock config data path
  self.checkOwner config
  return made

/-- A lock is removed. -/
def unlock : Except DavError (LockResponse × LockData D) := do
  let lockId ← (self.lockToken.bind parseLock).elim (throw (.code .badRequest)) pure
  match data.removeLock lockId with
  | some data => return (.noContent, data)
  | none => throw (.condition .conflict .lockTokenMatchesRequestUri)

def changeTable : Except DavError (LockResponse × LockData D) :=
  if self.request.isLock then self.makeLock config data path else self.unlock data

end LockCall

/-- The table is written, or deleted if no lock has a time to expire. -/
def storeLocks (data : LockData D) : Option (LockData D) :=
  let maxExpire := data.locks.foldl (fun (maxExpire : ℕ) lock => max maxExpire lock.2.expires) 0
  if maxExpire > 0 then some data else none

/-- `handle_lock_request`: the response, and the table that is written, if any. -/
def handleLockRequest (config : LockConfig D) (call : LockCall D)
    (stored : Option (LockData D)) : Except DavError (LockResponse × Option (LockData D)) := do
  let path ← call.path.elim (throw (.code .conflict)) pure
  if !call.isMember then throw (.code .forbidden)
  let data ← call.readLocks config path stored
  let changed ← call.changeTable config data path
  return (changed.1, storeLocks (changed.2.removeExpired call.written))

/-! ## What a request does -/

theorem LockCall.change_expires (config : LockConfig D) (call : LockCall D) (item : LockItem D) :
    (call.change config item).expires = call.expires config := by
  rcases hrequest : call.request <;> simp only [change, hrequest]

/-- The table that has been read. -/
def tableOf (stored : Option (LockData D)) : LockData D := stored.getD ⟨[]⟩

/-- What becomes of the table, before what has expired is removed. -/
inductive Made (config : LockConfig D) (call : LockCall D) (path : Text) (data : LockData D) :
    LockResponse → LockData D → Prop
  | new (hlock : call.request.isLock = true) (htoken : call.ifLockToken = 0) :
    Made config call path data (.created (lockUrn (call.change config LockCall.defaultLock).lockId))
      ⟨data.locks ++ [(path, call.change config LockCall.defaultLock)]⟩
  | changed (hlock : call.request.isLock = true) (htoken : call.ifLockToken ≠ 0)
    {lock : Text × LockItem D}
    (hfind : data.locks.find? (·.2.lockId == call.ifLockToken) = some lock) :
    Made config call path data (.ok (lockUrn (call.change config lock.2).lockId))
      ⟨KeyedList.updateFirst (·.2.lockId == call.ifLockToken)
        (fun lock => (lock.1, call.change config lock.2)) data.locks⟩
  | removed (hlock : call.request.isLock = false) {lockId : ℕ}
    (htoken : call.lockToken.bind parseLock = some lockId) {data' : LockData D}
    (hremove : data.removeLock lockId = some data') : Made config call path data .noContent data'

variable {config : LockConfig D} {call : LockCall D} {data : LockData D} {response : LockResponse}
  {data' : LockData D}

/-- A request goes on if no lock is in its way. -/
theorem LockCall.eq_tableOf_of_readLocks {path : Text} {stored : Option (LockData D)}
    (h : call.readLocks config path stored = .ok data) :
    data = tableOf stored ∧
      ∀ info, call.request = .lock info → call.failedLocks data path info = [] := by
  rcases stored with _ | stored
  · rw [readLocks] at h
    by_cases hlock : call.request.isLock = true
    · simp only [hlock] at h
      obtain ⟨-, -, h⟩ := Loop.bind_eq_ok_iff.mp h
      obtain rfl : (⟨[]⟩ : LockData D) = data := ok.inj h
      exact ⟨rfl, fun info _ => by simp [failedLocks, LockData.findLocks]⟩
    · simp only [hlock] at h
      contradiction
  · obtain ⟨-, -, h⟩ := Loop.bind_eq_ok_iff.mp h
    obtain ⟨_, hcheck, h⟩ := Loop.bind_eq_ok_iff.mp h
    obtain rfl : stored = data := ok.inj h
    refine ⟨rfl, fun info hinfo => ?_⟩
    simp only [checkRequest, hinfo] at hcheck
    by_contra hfailed
    have hfailed : (call.failedLocks stored path info).isEmpty = false := by simpa using hfailed
    simp only [checkLock, hfailed] at hcheck
    contradiction

theorem LockCall.made_of_makeLock {path : Text} (hlock : call.request.isLock = true)
    (h : call.makeLock config data path = .ok (response, data')) :
    Made config call path data response data' := by
  obtain ⟨made, hmade, h⟩ := Loop.bind_eq_ok_iff.mp h
  obtain ⟨-, -, h⟩ := Loop.bind_eq_ok_iff.mp h
  rw [ok.inj h, placeLock] at hmade
  by_cases htoken : call.ifLockToken > 0
  · rw [if_pos htoken] at hmade
    rcases hfind : data.locks.find? (·.2.lockId == call.ifLockToken) with _ | lock
    · rw [hfind] at hmade
      contradiction
    · rw [hfind] at hmade
      obtain ⟨rfl, rfl⟩ := Prod.mk.inj (ok.inj hmade)
      exact .changed hlock (Nat.ne_of_gt htoken) hfind
  · rw [if_neg htoken] at hmade
    obtain ⟨rfl, rfl⟩ := Prod.mk.inj (ok.inj hmade)
    exact .new hlock (Nat.eq_zero_of_not_pos htoken)

theorem LockCall.made_of_unlock (path : Text)
    (hlock : call.request.isLock = false) (h : call.unlock data = .ok (response, data')) :
    Made config call path data response data' := by
  obtain ⟨lockId, htoken, h⟩ := Loop.bind_eq_ok_iff.mp h
  have htoken : call.lockToken.bind parseLock = some lockId := by
    rcases hparse : call.lockToken.bind parseLock with _ | lockId'
    · rw [hparse] at htoken
      contradiction
    · rw [hparse] at htoken
      exact congrArg some (ok.inj htoken)
  rcases hremove : data.removeLock lockId with _ | left
  · rw [hremove] at h
    contradiction
  · rw [hremove] at h
    obtain ⟨rfl, rfl⟩ := Prod.mk.inj (ok.inj h)
    exact .removed hlock htoken hremove

/-- A table without what has expired is the one that is read next. -/
theorem tableOf_storeLocks (now : ℕ) :
    tableOf (storeLocks (data.removeExpired now)) = data.removeExpired now := by
  rw [storeLocks]
  split
  · rfl
  -- a lock that has not expired has a time to expire
  rcases hlocks : (data.removeExpired now).locks with _ | ⟨lock, locks⟩
  · show (⟨[]⟩ : LockData D) = data.removeExpired now
    rw [← hlocks]
  have hmem : lock ∈ (data.removeExpired now).locks := by
    rw [hlocks]
    exact List.mem_cons_self
  have hle := (Extremum.foldl_max_spec ((data.removeExpired now).locks.map (·.2.expires)) 0).2 _
    (List.mem_cons_of_mem 0 (List.mem_map_of_mem hmem))
  rw [List.foldl_map] at hle
  have hexpires : lock.2.expires > now := of_decide_eq_true (List.mem_filter.mp hmem).2
  omega

/-- What a request that succeeds does. -/
theorem exists_made {stored stored' : Option (LockData D)}
    (h : handleLockRequest config call stored = .ok (response, stored')) :
    ∃ path data, call.path = some path ∧
      Made config call path (tableOf stored) response data ∧
      tableOf stored' = data.removeExpired call.written ∧
      ∀ info, call.request = .lock info → call.failedLocks (tableOf stored) path info = [] := by
  obtain ⟨path, hpath, h⟩ := Loop.bind_eq_ok_iff.mp h
  have hpath : call.path = some path := by
    rcases hcall : call.path with _ | path'
    · rw [hcall] at hpath
      contradiction
    · rw [hcall] at hpath
      exact congrArg some (ok.inj hpath)
  by_cases hmember : call.isMember = true
  swap
  · simp only [hmember] at h
    contradiction
  simp only [hmember] at h
  obtain ⟨data, hread, h⟩ := Loop.bind_eq_ok_iff.mp h
  obtain ⟨rfl, hfailed⟩ := LockCall.eq_tableOf_of_readLocks hread
  obtain ⟨⟨response', data'⟩, hmade, h⟩ := Loop.bind_eq_ok_iff.mp h
  obtain ⟨rfl, rfl⟩ := Prod.mk.inj (ok.inj h)
  refine ⟨path, data', hpath, ?_, tableOf_storeLocks call.written, hfailed⟩
  rw [LockCall.changeTable] at hmade
  by_cases hlock : call.request.isLock = true
  · rw [if_pos hlock] at hmade
    exact LockCall.made_of_makeLock hlock hmade
  · rw [if_neg hlock] at hmade
    exact LockCall.made_of_unlock path (Bool.eq_false_iff.mpr hlock) hmade

end Inworkspace.Dav
