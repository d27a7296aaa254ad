import Inworkspace.Dav.LockRequest

/-!
# Locks that do not conflict

Requests to lock, refresh and unlock are served one after the other. The table has no two locks of
which one is exclusive and one covers the resource of the other, and a `LOCK` request that succeeds
leaves a lock that covers its resource (`serve_sound`), provided that each request is `Proper`: new
locks get ids that are not in use, a lock is made for some time, a request without a body has the
token of a lock, and the lock of a token in the `If` header of a `LOCK` request is one of the
requested resource.

A request without a body and a token makes a lock that nothing is checked for
(`handleLockRequest_emptyRefresh`), and the lock of a token is changed wherever it is.
-/

namespace Inworkspace.Dav

open Lib KeyedList List

variable {D : Type} {data : LockData D}

/-- A lock is of the path, or of a path above it and goes all the way down. -/
def CoversPath (path : Text) (lock : Text × LockItem D) : Prop :=
  lock.1 = path ∨ (lock.1 ++ ['/'] <+: path ∧ lock.2.depthInfinity = true)

/-- One of the locks is exclusive, and one covers the path of the other. -/
def Conflict (a b : Text × LockItem D) : Prop :=
  (a.2.exclusive = true ∨ b.2.exclusive = true) ∧ (CoversPath b.1 a ∨ CoversPath a.1 b)

theorem Conflict.symm {a b : Text × LockItem D} (h : Conflict a b) : Conflict b a :=
  ⟨h.1.symm, h.2.symm⟩

/-- The ids are those of one lock each, and no two locks conflict. -/
structure Sound (data : LockData D) : Prop where
  ids : (data.locks.map (·.2.lockId)).Nodup
  nonzero : ∀ lock ∈ data.locks, lock.2.lockId ≠ 0
  apart : ∀ a ∈ data.locks, ∀ b ∈ data.locks, a.2.lockId ≠ b.2.lockId → ¬Conflict a b

/-- What a request must be like for the table it finds. -/
structure Proper (config : LockConfig D) (data : LockData D) (call : LockCall D) : Prop where
  times : call.env.now ≤ call.written
  lasting : call.written < call.expires config
  fresh : call.lockId config ≠ 0 ∧ ∀ lock ∈ data.locks, lock.2.lockId ≠ call.lockId config
  token : call.request = .refresh → call.ifLockToken ≠ 0
  place : call.request.isLock = true → ∀ path, call.path = some path → ∀ lock ∈ data.locks,
    lock.2.lockId = call.ifLockToken →
      (∀ info, call.request = .lock info → lock.1 = path) ∧ CoversPath path lock

namespace Sound

theorem empty : Sound (⟨[]⟩ : LockData D) := ⟨nodup_nil, forall_mem_nil _, forall_mem_nil _⟩

theorem of_sublist {locks : List (Text × LockItem D)} (h : Sound data)
    (hsub : locks.Sublist data.locks) : Sound ⟨locks⟩ where
  ids := h.ids.sublist (hsub.map _)
  nonzero := fun lock hlock => h.nonzero lock (hsub.subset hlock)
  apart := fun a ha b hb => h.apart a (hsub.subset ha) b (hsub.subset hb)

theorem removeExpired (h : Sound data) (now : ℕ) : Sound (data.removeExpired now) :=
  h.of_sublist filter_sublist

theorem pairwise (h : Sound data) : data.locks.Pairwise fun a b => ¬Conflict a b := by
  refine (pairwise_map.mp h.ids).imp_of_mem fun ha hb hne => ?_
  exact h.apart _ ha _ hb hne

end Sound

/-- A lock that conflicts with one that is asked for turns it down. -/
theorem not_conflict_of_failedLocks {call : LockCall D} {path : Text} {info : LockInfo D}
    (h : call.failedLocks data path info = []) {lock : Text × LockItem D}
    (hlock : lock ∈ data.locks) (hexpires : call.env.now < lock.2.expires)
    (htoken : lock.2.lockId ≠ call.ifLockToken) {item : LockItem D}
    (hexclusive : item.exclusive = info.exclusive)
    (hdepth : item.depthInfinity = call.depthInfinity) : ¬Conflict lock (path, item) := by
  rintro ⟨hone, hcovers⟩
  have hlength {p q : Text} (hpq : p ++ ['/'] <+: q) : p.length < q.length := by
    have := hpq.length_le
    rw [length_append, length_singleton] at this
    omega
  have hfound : lock ∈ call.failedLocks data path info := by
    rw [LockCall.failedLocks, mem_filter, LockData.mem_findLocks_iff, decide_eq_true_eq]
    rw [hexclusive] at hone
    rcases hcovers with (heq | ⟨habove, hinfinity⟩) | (heq | ⟨hbelow, hinfinity⟩)
    · exact ⟨⟨hlock, hexpires, Or.inl heq⟩, htoken.symm, hone, Or.inl (congrArg _ heq)⟩
    · exact ⟨⟨hlock, hexpires, Or.inr (Or.inl ⟨habove, hinfinity⟩)⟩, htoken.symm, hone,
        Or.inr (Or.inl ⟨hinfinity, hlength habove⟩)⟩
    · exact ⟨⟨hlock, hexpires, Or.inl heq.symm⟩, htoken.symm, hone, Or.inl (congrArg _ heq.symm)⟩
    · exact ⟨⟨hlock, hexpires, Or.inr (Or.inr hbelow)⟩, htoken.symm, hone,
        Or.inr (Or.inr ⟨hdepth ▸ hinfinity, hlength hbelow⟩)⟩
  rw [h] at hfound
  contradiction

/-- Locks of a sound table, and one that conflicts with none of them. -/
theorem Sound.of_mem (h : Sound data) {locks : List (Text × LockItem D)} (new : Text × LockItem D)
    (hids : (locks.map (·.2.lockId)).Nodup)
    (hmem : ∀ lock ∈ locks, lock = new ∨ (lock ∈ data.locks ∧ ¬Conflict lock new))
    (hnew : new.2.lockId ≠ 0) : Sound ⟨locks⟩ where
  ids := hids
  nonzero := fun lock hlock => by
    rcases hmem lock hlock with rfl | ⟨hold, -⟩
    · exact hnew
    · exact h.nonzero lock hold
  apart := fun a ha b hb hne => by
    rcases hmem a ha with rfl | ⟨ha, hapart⟩ <;> rcases hmem b hb with rfl | ⟨hb, hapart'⟩
    · exact absurd rfl hne
    · exact fun hconflict => hapart' hconflict.symm
    · exact hapart
    · exact h.apart a ha b hb hne

variable {config : LockConfig D} {call : LockCall D} {path : Text} {data' : LockData D}
  {response : LockResponse} {stored : Option (LockData D)}

/-- A request that succeeds leaves a sound table. -/
theorem Sound.made (h : Sound data) (hproper : Proper config data call)
    (hpath : call.path = some path)
    (hfailed : ∀ info, call.request = .lock info → call.failedLocks data path info = [])
    (hmade : Made config call path data response data') :
    Sound (data'.removeExpired call.written) := by
  have hid {info : LockInfo D} (hrequest : call.request = .lock info) (item : LockItem D) :
      (call.change config item).lockId = call.lockId config := by
    simp only [LockCall.change, hrequest]
  have hplaced {info : LockInfo D} (hrequest : call.request = .lock info)
      {locks : List (Text × LockItem D)} (item : LockItem D)
      (hids : (locks.map (·.2.lockId)).Nodup)
      (hmem : ∀ lock ∈ locks, lock = (path, call.change config item) ∨
        (lock ∈ data.locks ∧ lock.2.lockId ≠ call.ifLockToken)) :
      Sound ((⟨locks⟩ : LockData D).removeExpired call.written) := by
    refine h.of_mem (path, call.change config item) (hids.sublist (filter_sublist.map _))
      (fun lock hlock => ?_) ((hid hrequest item).symm ▸ hproper.fresh.1)
    obtain ⟨hlock, hexpires⟩ := mem_filter.mp hlock
    refine (hmem lock hlock).imp_right fun hkept => ⟨hkept.1, ?_⟩
    -- what stays has not expired, so that it was looked at
    refine not_conflict_of_failedLocks (hfailed info hrequest) hkept.1
      (Nat.lt_of_le_of_lt hproper.times (of_decide_eq_true hexpires)) hkept.2 ?_ ?_ <;>
      simp only [LockCall.change, hrequest]
  cases hmade with
  | new hlock htoken =>
    rcases hrequest : call.request with info | _ | _
    · refine hplaced hrequest LockCall.defaultLock (nodup_append_singleton h.ids ?_) ?_
      · rw [hid hrequest]
        exact hproper.fresh.2
      · intro lock hmem
        rcases mem_append.mp hmem with hold | hnew
        · exact .inr ⟨hold, htoken ▸ h.nonzero lock hold⟩
        · exact .inl (mem_singleton.mp hnew)
    · cases hrequest ▸ hlock
    · exact absurd htoken (hproper.token hrequest)
  | @changed hlock htoken found hfind =>
    rcases hrequest : call.request with info | _ | _
    · refine hplaced hrequest found.2 (nodup_updateFirst h.ids (fun lock => hid hrequest lock.2)
        hproper.fresh.2).1 fun lock hmem => ?_
      rcases (mem_updateFirst h.ids).mp hmem with ⟨old, hold, hkey, rfl⟩ | hold
      · left
        rw [(hproper.place hlock path hpath old hold hkey).1 info hrequest]
        simp only [LockCall.change, hrequest]
      · exact .inr hold
    · cases hrequest ▸ hlock
    · -- only the time changes
      refine Sound.removeExpired ?_ _
      have hchange (item : LockItem D) :
          call.change config item = { item with expires := call.expires config } := by
        simp only [LockCall.change, hrequest]
      have hold {lock : Text × LockItem D} (hmem : lock ∈ updateFirst
          (·.2.lockId == call.ifLockToken) (fun e => (e.1, call.change config e.2)) data.locks) :
          ∃ old ∈ data.locks, ∃ expires, lock = (old.1, { old.2 with expires := expires }) := by
        rcases (mem_updateFirst h.ids).mp hmem with ⟨old, hold, -, rfl⟩ | ⟨hold, -⟩
        · exact ⟨old, hold, call.expires config, by rw [hchange]⟩
        · exact ⟨lock, hold, lock.2.expires, rfl⟩
      refine ⟨?_, fun lock hmem => ?_, fun a ha b hb hne => ?_⟩
      · refine (congrArg Nodup (map_key_updateFirst _ (fun lock => ?_) _ _)).mpr h.ids
        rw [hchange]
      · obtain ⟨old, hdata, expires, rfl⟩ := hold hmem
        exact h.nonzero old hdata
      · obtain ⟨olda, hdata, expires, rfl⟩ := hold ha
        obtain ⟨oldb, hdata', expires', rfl⟩ := hold hb
        exact h.apart olda hdata oldb hdata' hne
  | removed hlock _ hremove =>
    refine Sound.removeExpired ?_ _
    rw [LockData.removeLock] at hremove
    split at hremove
    · rw [← Option.some.inj hremove]
      exact h.of_sublist eraseP_sublist
    · contradiction

/-- A `LOCK` request that succeeds leaves a lock that covers its resource. -/
theorem exists_covers_of_made (hproper : Proper config data call)
    (hpath : call.path = some path) (hlock : call.request.isLock = true)
    (hmade : Made config call path data response data') :
    ∃ lock ∈ (data'.removeExpired call.written).locks,
      call.written < lock.2.expires ∧ CoversPath path lock := by
  -- the lock outlasts the write, so it is not removed as expired
  have hkeep {locks : List (Text × LockItem D)} {at_ : Text} {item : LockItem D}
      (hmem : (at_, call.change config item) ∈ locks)
      (hcovers : CoversPath path (at_, call.change config item)) :
      ∃ lock ∈ ((⟨locks⟩ : LockData D).removeExpired call.written).locks,
        call.written < lock.2.expires ∧ CoversPath path lock := by
    have hlasting : call.written < (call.change config item).expires :=
      call.change_expires config item ▸ hproper.lasting
    exact ⟨_, mem_filter.mpr ⟨hmem, decide_eq_true hlasting⟩, hlasting, hcovers⟩
  rcases hmade with ⟨-, htoken⟩ | ⟨-, htoken, hfind⟩ | ⟨hunlock, htoken, hremove⟩
  · exact hkeep (mem_append_right _ (mem_singleton_self _)) (Or.inl rfl)
  · rename_i found
    have hfound := mem_of_find?_eq_some hfind
    have hkey : found.2.lockId = call.ifLockToken := by simpa using find?_some hfind
    obtain ⟨hplace, hcovers⟩ := hproper.place hlock path hpath found hfound hkey
    refine hkeep (mem_updateFirst_of_find? hfind) ?_
    rcases hrequest : call.request with info | _ | _
    · exact Or.inl (hplace info hrequest)
    · rw [hrequest] at hlock
      contradiction
    · simp only [LockCall.change, hrequest]
      exact hcovers
  · rw [hunlock] at hlock
    contradiction

/-! ## Runs -/

/-- A request is served: the table stays as it is if the request fails. -/
def serve (config : LockConfig D) (stored : Option (LockData D)) (call : LockCall D) :
    Option (LockData D) :=
  match handleLockRequest config call stored with
  | .ok (_, stored') => stored'
  | .error _ => stored

/-- The requests of a run are proper for the tables that they find. -/
def ProperRun (config : LockConfig D) (stored : Option (LockData D)) : List (LockCall D) → Prop
  | [] => True
  | call :: calls =>
    Proper config (tableOf stored) call ∧ ProperRun config (serve config stored call) calls

theorem Sound.serve (h : Sound (tableOf stored)) (hproper : Proper config (tableOf stored) call) :
    Sound (tableOf (serve config stored call)) := by
  rw [Dav.serve]
  rcases hresult : handleLockRequest config call stored with _ | ⟨response, stored'⟩
  · exact h
  obtain ⟨path, data, hpath, hmade, htable, hfailed⟩ := exists_made hresult
  rw [htable]
  exact h.made hproper hpath hfailed hmade

theorem Sound.foldl_serve (h : Sound (tableOf stored)) {calls : List (LockCall D)}
    (hcalls : ProperRun config stored calls) :
    Sound (tableOf (calls.foldl (Dav.serve config) stored)) := by
  induction calls generalizing stored with
  | nil => exact h
  | cons call calls ih => exact ih (h.serve hcalls.1) hcalls.2

/-- Requests are served one after the other, from an empty table. No two locks conflict, and a
    `LOCK` request that succeeds leaves a lock that has not expired and covers its resource. -/
theorem serve_sound (config : LockConfig D) (calls : List (LockCall D))
    (h : ProperRun config none calls) :
    let stored := calls.foldl (serve config) none
    (tableOf stored).locks.Pairwise (fun a b => ¬Conflict a b) ∧
      ∀ call response stored', Proper config (tableOf stored) call → call.request.isLock = true →
        handleLockRequest config call stored = .ok (response, stored') →
        ∃ path, call.path = some path ∧ ∃ lock ∈ (tableOf stored').locks,
          call.written < lock.2.expires ∧ CoversPath path lock := by
  intro stored
  have hsound : Sound (tableOf stored) := Sound.empty.foldl_serve h
  refine ⟨hsound.pairwise, fun call response stored' hproper hlock hresult => ?_⟩
  obtain ⟨path, data, hpath, hmade, htable, -⟩ := exists_made hresult
  refine ⟨path, hpath, ?_⟩
  rw [htable]
  exact exists_covers_of_made hproper hpath hlock hmade

/-! ## Two users -/

/-- Locks last for at most an hour. -/
def lockConfig : LockConfig Unit where
  deadPropertySize := none
  maxLocksPerUser := 10
  maxLockTimeout := 3600
  sizeOf _ := 0

def fileCall (request : LockRequest Unit) (path : String) (user random time : ℕ) :
    LockCall Unit where
  request := request
  accountId := 1
  collection := .fileNode
  path := some path.toList
  isMember := true
  user := user
  headers := submitting []
  depthInfinity := false
  timeout := .none
  lockToken := none
  env := { lockedFiles with now := time }
  random := random
  made := time
  written := time

/-- An exclusive lock is asked for. -/
def exclusiveLock : LockRequest Unit := .lock ⟨true, none⟩

/-- A request without a token, for an id that is not in use, is proper. -/
theorem Proper.fileCall {data : LockData Unit} {path : String} {user random time : ℕ}
    (hid : random ^^^ (time + 3600) ≠ 0)
    (hfresh : ∀ lock ∈ data.locks, lock.2.lockId ≠ random ^^^ (time + 3600))
    (hzero : ∀ lock ∈ data.locks, lock.2.lockId ≠ 0) :
    Proper lockConfig data (fileCall exclusiveLock path user random time) where
  times := Nat.le_refl _
  lasting := by
    show time < time + 3600
    omega
  fresh := ⟨hid, hfresh⟩
  token := fun h => by contradiction
  place := fun _ _ _ lock hlock htoken => absurd htoken (hzero lock hlock)

/-- Two users lock two files. -/
theorem serve_sound_files :
    (tableOf ([fileCall exclusiveLock "a" 1 0 50, fileCall exclusiveLock "b" 2 0 60].foldl
      (serve lockConfig) none)).locks.Pairwise fun a b => ¬Conflict a b := by
  refine (serve_sound lockConfig [fileCall exclusiveLock "a" 1 0 50,
    fileCall exclusiveLock "b" 2 0 60] ⟨?_, ?_, trivial⟩).1
  · exact .fileCall (by decide) (forall_mem_nil _) (forall_mem_nil _)
  · exact .fileCall (by decide) (by decide) (by decide)

/-- A user locks a file, and another one sends a `LOCK` request for it without body and token. It is
    answered with a token, and the table has both locks. -/
theorem handleLockRequest_emptyRefresh :
    ∃ a b response,
      handleLockRequest lockConfig (fileCall .refresh "a" 2 0 60)
          (serve lockConfig none (fileCall exclusiveLock "a" 1 0 50)) =
        .ok (response, some ⟨[a, b]⟩) ∧
      60 < a.2.expires ∧ 60 < b.2.expires ∧ Conflict a b :=
  ⟨("a".toList, ⟨3650, 1, 3650, false, true, none⟩),
    ("a".toList, ⟨0, 0, 3660, false, false, none⟩), .created (lockUrn 0), rfl, by decide, by decide,
    Or.inl rfl, Or.inl (Or.inl rfl)⟩

end Inworkspace.Dav
