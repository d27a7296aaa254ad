import Inworkspace.Lib.Interleaving
import Mathlib.Data.List.Count
import Mathlib.Data.List.Induction
import Mathlib.Data.List.Nodup
import Mathlib.Data.List.Perm.Subperm

/-!
# The queue manager

`smtp::queue::manager` runs the workers that deliver the messages of the queue. A refresh goes
through the events that are due, takes a lock for each pair of a message and a virtual queue, and
starts a worker for it if the queue has capacity; a worker reports when it is done. The locks are
those of the node: an event stays in the store until its worker has saved or removed the message,
so until then only its lock keeps it from being started again.

A refresh removes the locks that it has not stamped with its revision, and it stamps those of
events that are due, in queues with capacity. So:

* `single_of_run`: the workers of a queue are counted right, and their number is within its limit;
  no pair has two workers if at each refresh the events of all workers are due, and their queues
  have capacity (`Watched`);
* `two_workers`: while a queue is full, a refresh removes the locks of its workers, and when one
  of them is done the others are started again.
-/

namespace Inworkspace.Queue

open Lib.Interleaving List Option Function

variable {Name : Type} [DecidableEq Name]

/-! ## The manager -/

structure QueuedMessage (Name : Type) where
  due : ℕ
  queueId : ℕ
  queueName : Name
  deriving DecidableEq

/-- The message and the queue of an event. -/
def QueuedMessage.key (self : QueuedMessage Name) : ℕ × Name := (self.queueId, self.queueName)

structure LockedMessage where
  expires : ℕ
  revision : ℕ
  deriving DecidableEq

structure QueueStats where
  inFlight : ℕ
  maxInFlight : ℕ
  deriving DecidableEq

def QueueStats.hasCapacity (self : QueueStats) : Bool := self.inFlight < self.maxInFlight

/-- `manager::Queue`. -/
structure Manager (Name : Type) where
  locked : ℕ × Name → Option LockedMessage
  lockedRevision : ℕ
  stats : Name → Option QueueStats

structure QueuedMessages (Name : Type) where
  messages : List (QueuedMessage Name)
  nextRefresh : ℕ

/-- `QUEUE_REFRESH`: five minutes. -/
def queueRefresh : ℕ := 5 * 60

/-- `INFINITE_LOCK`: one year. -/
def infiniteLock : ℕ := 60 * 60 * 24 * 365

/-- The lock of an event that a scan meets, and whether the event is taken. -/
def claim (now revision : ℕ) : Option LockedMessage → LockedMessage × Bool
  | some locked =>
    if locked.expires ≤ now then (⟨now + infiniteLock, revision⟩, true)
    else ({ locked with revision }, false)
  | none => (⟨now + infiniteLock, revision⟩, true)

variable (self : Manager Name) (threads : Name → ℕ)

namespace Manager

/-- The queue has capacity, as far as is known. -/
def hasRoom (name : Name) : Bool :=
  (self.stats name).all QueueStats.hasCapacity

/-- What the scan does with an event that is due. -/
def visit (now : ℕ) (state : Manager Name × QueuedMessages Name) (event : QueuedMessage Name) :
    Manager Name × QueuedMessages Name :=
  -- the lock is not even looked at if the queue is full
  if state.1.hasRoom event.queueName then
    let claimed := claim now state.1.lockedRevision (state.1.locked event.key)
    ({ state.1 with locked := update state.1.locked event.key (some claimed.1) },
      if claimed.2 then { state.2 with messages := state.2.messages ++ [event] }
      else { state.2 with nextRefresh := min claimed.1.expires state.2.nextRefresh })
  else state

/-- `SmtpSpool::next_event` over the events in the order of their keys, up to the first one that is
    not due. -/
def nextEvent (now : ℕ) (events : List (QueuedMessage Name)) (self : Manager Name) :
    Manager Name × QueuedMessages Name :=
  let (self, queued) := (events.takeWhile (·.due ≤ now)).foldl (visit now)
    ({ self with lockedRevision := self.lockedRevision + 1 }, ⟨[], now + queueRefresh⟩)
  match events.find? (now < ·.due) with
  | some event => (self, { queued with nextRefresh := min event.due queued.nextRefresh })
  | none => (self, queued)

/-- A worker is started for an event if the queue has capacity; if not, the lock is given back. The
    pairs with workers are collected. -/
def dispatch (state : Manager Name × List (ℕ × Name))
    (event : QueuedMessage Name) : Manager Name × List (ℕ × Name) :=
  let (self, started) := state
  let stats := (self.stats event.queueName).getD ⟨0, threads event.queueName⟩
  if stats.hasCapacity then
    let stats := { stats with inFlight := stats.inFlight + 1 }
    ({ self with stats := update self.stats event.queueName (some stats) },
      started ++ [event.key])
  else
    ({ self with
        stats := update self.stats event.queueName (some stats)
        locked := update self.locked event.key none }, started)

/-- The locks that are kept at the end of a refresh. -/
def sweep (now : ℕ) (self : Manager Name) : Manager Name :=
  { self with locked := fun key => (self.locked key).filter fun locked =>
      now < locked.expires ∧ locked.revision = self.lockedRevision }

end Manager

/-- `QueueEventStatus`; a locked event has the time its lock is kept for. -/
inductive QueueEventStatus where
  | completed
  | locked (expires : ℕ)
  | deferred

/-- `Queue::handle_event` for `QueueEvent::WorkerDone`. -/
def Manager.workerDone (now : ℕ) (key : ℕ × Name) (status : QueueEventStatus)
    (self : Manager Name) : Option (Manager Name) :=
  match self.stats key.2 with
  | some stats =>
    if 0 < stats.inFlight then
      some { self with
        stats := update self.stats key.2
          (some { stats with inFlight := stats.inFlight - 1 })
        locked := update self.locked key (match status with
          | .locked expires => some ⟨now + expires, self.lockedRevision⟩
          | .completed | .deferred => none) }
    else none
  | none => none

open Manager

open QueuedMessage

/-! ## The node -/

/-- The manager, with the pairs that workers have been started for, and have done. -/
structure Node (Name : Type) where
  queue : Manager Name
  dispatched : List (ℕ × Name)
  done : List (ℕ × Name)

/-- A refresh over the events of the store, which are shuffled if there are more than three, or the
    end of a worker. A refresh reads the clock twice. -/
inductive Step (Name : Type) where
  | refresh (now sweepAt : ℕ) (events order : List (QueuedMessage Name))
  | workerDone (now : ℕ) (key : ℕ × Name) (status : QueueEventStatus)

/-- The pair has a worker. -/
def Node.IsInFlight (s : Node Name) (key : ℕ × Name) : Prop :=
  s.done.count key < s.dispatched.count key

instance (s : Node Name) (key : ℕ × Name) : Decidable (s.IsInFlight key) :=
  inferInstanceAs (Decidable (_ < _))

/-- A step of the node: only workers that have been started can be done. -/
def Node.step (s : Node Name) : Step Name → Option (Node Name)
  | .refresh now sweepAt events order =>
    let (queue, queued) := s.queue.nextEvent now events
    if order.Perm queued.messages ∧ (queued.messages.length ≤ 3 → order = queued.messages) then
      let (queue, started) := order.foldl (dispatch threads) (queue, [])
      some ⟨queue.sweep sweepAt, s.dispatched ++ started, s.done⟩
    else none
  | .workerDone now key status =>
    if s.IsInFlight key then
      (s.queue.workerDone now key status).map fun queue => ⟨queue, s.dispatched, s.done ++ [key]⟩
    else none

/-- Queue managers start with nothing. -/
def node : System (Node Name) (Step Name) where
  Initial s := s = ⟨⟨fun _ => none, 0, fun _ => none⟩, [], []⟩
  step := Node.step threads

/-- At a refresh, the events of all workers are due, their queues have capacity, and no lock has
    expired: all happens within a year. -/
def Watched (clock : ℕ) (s : Node Name) : Step Name → Prop
  | .refresh now sweepAt events _ =>
    clock ≤ now ∧ now < clock + infiniteLock ∧ sweepAt < clock + infiniteLock ∧
      ∀ key, s.IsInFlight key → s.queue.hasRoom key.2 = true ∧
        ∃ event ∈ events.takeWhile (·.due ≤ now), event.key = key
  | .workerDone .. => True

/-! ## The scan -/

section Scan

variable {now revision : ℕ} {self} {events : List (QueuedMessage Name)}

/-- The pairs that are met in queues with capacity. -/
def Manager.seen (self : Manager Name) (events : List (QueuedMessage Name)) : List (ℕ × Name) :=
  (events.filter fun event => self.hasRoom event.queueName).map key

/-- A lock that has been taken is not taken again. -/
theorem claim_claim (locked : Option LockedMessage) :
    claim now revision (some (claim now revision locked).1) =
      ((claim now revision locked).1, false) := by
  have hinfinite : ¬ now + infiniteLock ≤ now := by
    rw [infiniteLock]
    omega
  rcases locked with _ | locked
  · simp [claim, hinfinite]
  · by_cases hexpired : locked.expires ≤ now <;> simp [claim, hexpired, hinfinite]

/-- A scan has stamped the locks of the pairs it has met, and taken those that were free. -/
structure Scanned (now : ℕ) (queue : Manager Name) (events : List (QueuedMessage Name))
    (result : Manager Name × QueuedMessages Name) : Prop where
  stats : result.1.stats = queue.stats
  revision : result.1.lockedRevision = queue.lockedRevision
  locked : ∀ key, result.1.locked key =
    if key ∈ queue.seen events then some (claim now queue.lockedRevision (queue.locked key)).1
    else queue.locked key
  count : ∀ key, (result.2.messages.map QueuedMessage.key).count key =
    if key ∈ queue.seen events ∧ (claim now queue.lockedRevision (queue.locked key)).2 then 1
    else 0

/-- An event that is due and not locked is taken up. -/
theorem Scanned.visit {queue : Manager Name} {queued : QueuedMessages Name}
    (h : Scanned now self events (queue, queued)) (event : QueuedMessage Name) :
    Scanned now self (events ++ [event]) (visit now (queue, queued) event) := by
  have hroom : queue.hasRoom event.queueName = self.hasRoom event.queueName := by
    rw [hasRoom, hasRoom, h.stats]
  by_cases hfull : self.hasRoom event.queueName = true
  · have hseen (key : ℕ × Name) :
        key ∈ self.seen (events ++ [event]) ↔ key ∈ self.seen events ∨ key = event.key := by
      simp [seen, hfull]
    have hrevision : queue.lockedRevision = self.lockedRevision := h.revision
    have hlocked := h.locked event.key
    have hcount := h.count event.key
    rw [Manager.visit, if_pos (hroom.trans hfull)]
    dsimp only
    by_cases hold : event.key ∈ self.seen events
    · -- it has been met before
      rw [if_pos hold] at hlocked
      rw [hrevision, hlocked, claim_claim]
      refine ⟨h.stats, rfl, fun key => ?_, fun key => ?_⟩
      · by_cases hkey : key = event.key
        · simp [hseen, hkey]
        · simpa [hseen, hkey] using h.locked key
      · by_cases hkey : key = event.key
        · simpa [hseen, hkey, hold] using hcount
        · simpa [hseen, hkey] using h.count key
    · rw [if_neg hold] at hlocked
      rw [hrevision, hlocked]
      rw [if_neg fun hmem => hold hmem.1] at hcount
      refine ⟨h.stats, rfl, fun key => ?_, fun key => ?_⟩
      · by_cases hkey : key = event.key
        · simp [hseen, hkey]
        · simpa [hseen, hkey] using h.locked key
      · by_cases hkey : key = event.key
        · cases htaken : (claim now self.lockedRevision (self.locked event.key)).2 <;>
            simp [hseen, hkey, hcount, htaken]
        · have hother := h.count key
          cases htaken : (claim now self.lockedRevision (self.locked event.key)).2 <;>
            simpa [hseen, hkey, Ne.symm hkey] using hother
  · have hseen : self.seen (events ++ [event]) = self.seen events := by simp [seen, hfull]
    rw [Manager.visit, if_neg (by rwa [hroom])]
    exact ⟨h.stats, h.revision, by rw [hseen]; exact h.locked, by rw [hseen]; exact h.count⟩

theorem scanned_foldl (now : ℕ) (self : Manager Name) (events : List (QueuedMessage Name))
    (refresh : ℕ) : Scanned now self events (events.foldl (visit now) (self, ⟨[], refresh⟩)) := by
  induction events using reverseRecOn with
  | nil => constructor <;> simp [seen]
  | append_singleton events event ih =>
    rw [foldl_append]
    exact ih.visit event

theorem scanned_nextEvent (events : List (QueuedMessage Name)) (self : Manager Name) :
    Scanned now { self with lockedRevision := self.lockedRevision + 1 }
      (events.takeWhile (·.due ≤ now)) (self.nextEvent now events) := by
  have hscanned := scanned_foldl now { self with lockedRevision := self.lockedRevision + 1 }
    (events.takeWhile (·.due ≤ now)) (now + queueRefresh)
  rw [nextEvent]
  cases events.find? (now < ·.due) with
  | none => exact hscanned
  | some event => exact ⟨hscanned.stats, hscanned.revision, hscanned.locked, hscanned.count⟩

end Scan

/-! ## Workers -/

section Dispatch

/-- The workers of a queue, as the manager counts them. -/
def Manager.inFlight (name : Name) : ℕ :=
  ((self.stats name).map QueueStats.inFlight).getD 0

/-- No queue has more workers than its limit. -/
def Manager.Limited : Prop :=
  ∀ name stats, self.stats name = some stats → stats.inFlight ≤ stats.maxInFlight

variable {self} {queue : Manager Name} {stats : QueueStats}

theorem Manager.Limited.of_update (h : self.Limited) {name : Name}
    (hle : stats.inFlight ≤ stats.maxInFlight)
    (hstats : queue.stats = update self.stats name (some stats)) : queue.Limited := by
  intro name' stats' hstats'
  rw [hstats] at hstats'
  by_cases hname : name' = name
  · subst hname
    rw [update_self] at hstats'
    exact some.inj hstats' ▸ hle
  · rw [update_of_ne hname] at hstats'
    exact h name' stats' hstats'

theorem Manager.inFlight_of_update {name : Name}
    (hstats : queue.stats = update self.stats name (some stats)) (name' : Name) :
    queue.inFlight name' = if name' = name then stats.inFlight else self.inFlight name' := by
  by_cases hname : name' = name <;> simp [inFlight, hstats, hname]

/-- What starting workers has done. -/
structure Dispatched (queue : Manager Name) (order : List (QueuedMessage Name))
    (result : Manager Name × List (ℕ × Name)) : Prop where
  revision : result.1.lockedRevision = queue.lockedRevision
  limited : queue.Limited → result.1.Limited
  inFlight : ∀ name, result.1.inFlight name = queue.inFlight name + result.2.countP (·.2 = name)
  sublist : result.2.Sublist (order.map key)
  locked : ∀ key, key ∈ result.2 ∨ key ∉ order.map QueuedMessage.key →
    (order.map QueuedMessage.key).Nodup → result.1.locked key = queue.locked key

/-- An event is started if its queue has a free thread. -/
theorem Dispatched.dispatch {order : List (QueuedMessage Name)} {started : List (ℕ × Name)}
    (h : Dispatched self order (queue, started)) (event : QueuedMessage Name) :
    Dispatched self (order ++ [event]) (dispatch threads (queue, started) event) := by
  rw [Manager.dispatch]
  set stats := (queue.stats event.queueName).getD ⟨0, threads event.queueName⟩ with hstats
  have hinFlight : stats.inFlight = queue.inFlight event.queueName := by
    rw [hstats, Manager.inFlight]
    cases queue.stats event.queueName <;> rfl
  split_ifs with hcapacity
  -- a thread is free, and the event is started
  · refine ⟨h.revision, fun hlimited => (h.limited hlimited).of_update ?_ rfl, fun name => ?_, ?_,
      fun key hkey hnodup => ?_⟩
    · exact of_decide_eq_true hcapacity
    · have hcount : queue.inFlight name = self.inFlight name + started.countP (·.2 = name) :=
        h.inFlight name
      rw [inFlight_of_update rfl, countP_append, countP_singleton]
      by_cases hname : name = event.queueName
      · subst hname
        simp only [if_true, hinFlight, hcount, key, decide_true, Nat.add_assoc]
      · simp [hname, hcount, key, Ne.symm hname]
    · rw [map_append]
      exact h.sublist.append (Sublist.refl _)
    · rw [map_append, nodup_append] at hnodup
      refine h.locked key ?_ hnodup.1
      rcases hkey with hkey | hkey
      · rcases mem_append.mp hkey with hkey | hkey
        · exact .inl hkey
        · refine .inr fun hmem => ?_
          exact hnodup.2.2 key hmem _ (mem_singleton_self _) (mem_singleton.mp hkey)
      · exact .inr fun hmem => hkey (by rw [map_append]; exact mem_append_left _ hmem)
  -- none is free: the event stays behind, and its lock alone changes
  · refine ⟨h.revision, fun hlimited => (h.limited hlimited).of_update ?_ rfl, fun name => ?_, ?_,
      fun key hkey hnodup => ?_⟩
    · cases hqueue : queue.stats event.queueName with
      | none => simp [hstats, hqueue]
      | some stats' =>
        rw [hstats, hqueue]
        exact h.limited hlimited _ _ hqueue
    · refine (inFlight_of_update rfl name).trans ((ite_eq_right_iff.mpr ?_).trans (h.inFlight name))
      rintro rfl
      exact hinFlight
    · rw [map_append]
      exact h.sublist.trans (sublist_append_left ..)
    · rw [map_append, nodup_append] at hnodup
      have hne : key ≠ event.key := by
        rcases hkey with hkey | hkey
        · exact hnodup.2.2 key (h.sublist.mem hkey) _ (mem_singleton_self _)
        · rintro rfl
          exact hkey (by simp)
      refine (update_of_ne hne _ _).trans (h.locked key ?_ hnodup.1)
      refine hkey.imp id fun hkey hmem => hkey ?_
      rw [map_append]
      exact mem_append_left _ hmem

theorem dispatched_foldl (order : List (QueuedMessage Name)) :
    Dispatched self order (order.foldl (dispatch threads) (self, [])) := by
  induction order using reverseRecOn with
  | nil => constructor <;> simp
  | append_singleton order event ih =>
    rw [foldl_append]
    exact ih.dispatch threads event

end Dispatch

/-! ## Runs -/

section Runs

variable {threads} {s s' : Node Name}

/-- The workers of each queue are those started and not done, and within its limit. -/
structure Counted (s : Node Name) : Prop where
  inFlight : ∀ name,
    s.queue.inFlight name + s.done.countP (·.2 = name) = s.dispatched.countP (·.2 = name)
  limited : s.queue.Limited
  subperm : s.done.Subperm s.dispatched

variable {now : ℕ} {key : ℕ × Name} {status : QueueEventStatus}
  {events order : List (QueuedMessage Name)}

theorem step_refresh {sweepAt : ℕ}
    (h : s.step threads (.refresh now sweepAt events order) = some s') :
    ∃ queue queued queue' started,
      Scanned now { s.queue with lockedRevision := s.queue.lockedRevision + 1 }
        (events.takeWhile (·.due ≤ now)) (queue, queued) ∧
      order.Perm queued.messages ∧ Dispatched queue order (queue', started) ∧
      s' = ⟨queue'.sweep sweepAt, s.dispatched ++ started, s.done⟩ := by
  rw [Node.step] at h
  dsimp only at h
  split_ifs at h with horder
  exact ⟨_, _, _, _, scanned_nextEvent events s.queue, horder.1,
    dispatched_foldl _ order, (some.inj h).symm⟩

theorem step_workerDone (h : s.step threads (.workerDone now key status) = some s') :
    s.IsInFlight key ∧ ∃ queue, s.queue.workerDone now key status = some queue ∧
      s' = ⟨queue, s.dispatched, s.done ++ [key]⟩ := by
  rw [Node.step] at h
  split_ifs at h with hflight
  obtain ⟨queue, hqueue, rfl⟩ := map_eq_some_iff.mp h
  exact ⟨hflight, queue, hqueue, rfl⟩

/-- A worker that is done had been counted. -/
theorem workerDone_eq_some {self queue : Manager Name}
    (h : self.workerDone now key status = some queue) :
    ∃ stats, self.stats key.2 = some stats ∧ 0 < stats.inFlight ∧
      queue.stats = update self.stats key.2 (some { stats with inFlight := stats.inFlight - 1 }) ∧
      ∀ key', key' ≠ key → queue.locked key' = self.locked key' := by
  unfold workerDone at h
  split at h
  case h_1 stats hstats =>
    split_ifs at h with hpos
    obtain rfl := some.inj h
    exact ⟨stats, hstats, hpos, rfl, fun key' hne => update_of_ne hne _ _⟩
  case h_2 => cases h

/-- Workers are counted when they are started and when they are done. -/
theorem Counted.step {a : Step Name} (h : Counted s) (hstep : s.step threads a = some s') :
    Counted s' := by
  cases a with
  | refresh now sweepAt events order =>
    obtain ⟨queue, queued, queue', started, hscan, -, hdone, rfl⟩ := step_refresh hstep
    have hstats : queue.stats = s.queue.stats := hscan.stats
    refine ⟨fun name => ?_, hdone.limited fun name stats hname => ?_, ?_⟩
    · have hinFlight : queue'.inFlight name = queue.inFlight name + started.countP (·.2 = name) :=
        hdone.inFlight name
      have hsame : queue.inFlight name = s.queue.inFlight name := by
        rw [Manager.inFlight, hstats, Manager.inFlight]
      have hold := h.inFlight name
      change queue'.inFlight name + s.done.countP _ = (s.dispatched ++ started).countP _
      rw [hinFlight, hsame, countP_append]
      omega
    · exact h.limited name stats (hstats ▸ hname)
    · exact h.subperm.trans (sublist_append_left ..).subperm
  | workerDone now key status =>
    obtain ⟨hflight, queue, hqueue, rfl⟩ := step_workerDone hstep
    obtain ⟨stats, hstats, hpos, hupdate, -⟩ := workerDone_eq_some hqueue
    refine ⟨fun name => ?_, h.limited.of_update ?_ hupdate, ?_⟩
    · have hold := h.inFlight name
      rw [inFlight_of_update hupdate, countP_append, countP_singleton]
      by_cases hname : name = key.2
      · subst hname
        rw [Manager.inFlight, hstats] at hold
        simp only [map_some, getD_some, decide_true, if_true] at hold ⊢
        omega
      · simpa [hname, Ne.symm hname] using hold
    · exact Nat.le_trans (Nat.sub_le ..) (h.limited _ _ hstats)
    -- it was in flight: started once more than it was done
    · refine subperm_ext_iff.mpr fun key' hkey' => ?_
      have hle := h.subperm.count_le key'
      by_cases heq : key' = key
      · subst heq
        simpa using Nat.succ_le_of_lt hflight
      · simpa [Ne.symm heq] using hle

/-- Every worker has a lock that is kept, and no two are for the same pair. -/
structure Held (clock : ℕ) (s : Node Name) : Prop where
  locked : ∀ key, s.IsInFlight key →
    ∃ locked, s.queue.locked key = some locked ∧ clock + infiniteLock ≤ locked.expires
  single : ∀ key, s.dispatched.count key ≤ s.done.count key + 1

/-- A refresh over the events of all workers keeps their locks. -/
theorem Held.refresh {clock sweepAt : ℕ} (h : Held clock s)
    (hwatched : Watched clock s (.refresh now sweepAt events order))
    (hstep : s.step threads (.refresh now sweepAt events order) = some s') : Held clock s' := by
  obtain ⟨hclock, hnow, hsweep, hseen⟩ := hwatched
  obtain ⟨queue, queued, queue', started, hscan, hperm, hdone, rfl⟩ := step_refresh hstep
  have hcount (key : ℕ × Name) :=
    ((hperm.map QueuedMessage.key).count_eq key).trans (hscan.count key)
  have hnodup : (order.map key).Nodup := by
    refine nodup_iff_count_le_one.mpr fun key => ?_
    rw [hcount]
    split_ifs <;> omega
  have hmem {key : ℕ × Name} (hkey : s.IsInFlight key) : key ∈
      seen { s.queue with lockedRevision := s.queue.lockedRevision + 1 }
        (events.takeWhile (·.due ≤ now)) := by
    obtain ⟨hroom, event, hevent, rfl⟩ := hseen key hkey
    exact mem_map_of_mem (mem_filter.mpr ⟨hevent, hroom⟩)
  -- the lock of a worker is stamped, and not given away
  have hold {key : ℕ × Name} (hkey : s.IsInFlight key) :
      key ∉ order.map QueuedMessage.key ∧ ∃ locked, queue.locked key =
        some ⟨locked, queue.lockedRevision⟩ ∧ clock + infiniteLock ≤ locked := by
    obtain ⟨locked, hlocked, hexpires⟩ := h.locked key hkey
    have hvalid : ¬ locked.expires ≤ now := by omega
    have hnew := hscan.locked key
    rw [if_pos (hmem hkey)] at hnew
    have hnot := hcount key
    simp only [hlocked, claim, hvalid, if_false, Bool.false_eq_true, and_false] at hnew hnot
    refine ⟨count_eq_zero.mp hnot, locked.expires, hnew.trans ?_, hexpires⟩
    rw [hscan.revision]
  refine ⟨fun key hkey => ?_, fun key => ?_⟩
  · have hlocked : ∃ expires, queue'.locked key = some ⟨expires, queue'.lockedRevision⟩ ∧
        clock + infiniteLock ≤ expires := by
      rw [hdone.revision]
      by_cases hflight : s.IsInFlight key
      · obtain ⟨hnot, expires, hlocked, hexpires⟩ := hold hflight
        exact ⟨expires, (hdone.locked key (.inr hnot) hnodup).trans hlocked, hexpires⟩
      -- a new worker has just got its lock
      have hstarted : key ∈ started := by
        by_contra hnot
        refine hflight ?_
        rwa [Node.IsInFlight, count_append, count_eq_zero_of_not_mem hnot] at hkey
      have hone := hcount key
      rw [count_eq_one_of_mem hnodup (hdone.sublist.mem hstarted)] at hone
      split_ifs at hone with hclaim
      have hlocked := hscan.locked key
      rw [if_pos hclaim.1] at hlocked
      refine ⟨now + infiniteLock, (hdone.locked key (.inl hstarted) hnodup).trans ?_, by omega⟩
      rw [hlocked, hscan.revision]
      revert hclaim
      cases hfree : s.queue.locked key with
      | none => exact fun _ => rfl
      | some locked => by_cases hexpired : locked.expires ≤ now <;> simp [claim, hexpired]
    obtain ⟨expires, hlocked, hexpires⟩ := hlocked
    refine ⟨⟨expires, queue'.lockedRevision⟩, ?_, hexpires⟩
    simp only [sweep, hlocked]
    exact filter_eq_some_iff.mpr ⟨rfl, decide_eq_true ⟨by dsimp only; omega, rfl⟩⟩
  · change (s.dispatched ++ started).count key ≤ s.done.count key + 1
    rw [count_append]
    have hsingle := h.single key
    have hle : started.count key ≤ (order.map QueuedMessage.key).count key :=
      hdone.sublist.count_le key
    by_cases hflight : s.IsInFlight key
    · rw [count_eq_zero_of_not_mem (hold hflight).1] at hle
      omega
    · rw [Node.IsInFlight] at hflight
      have hone := nodup_iff_count_le_one.mp hnodup key
      omega

/-- A worker that is done gives up its own lock. -/
theorem Held.workerDone {clock : ℕ} (h : Held clock s)
    (hstep : s.step threads (.workerDone now key status) = some s') : Held clock s' := by
  obtain ⟨hflight, queue, hqueue, rfl⟩ := step_workerDone hstep
  obtain ⟨-, -, -, -, hlocked⟩ := workerDone_eq_some hqueue
  refine ⟨fun key' hkey' => ?_, fun key' => ?_⟩
  · have hsingle := h.single key
    rw [Node.IsInFlight, count_append] at hkey'
    have hne : key' ≠ key := by
      rintro rfl
      rw [count_singleton_self] at hkey'
      dsimp only at hkey'
      omega
    have hflight' : s.IsInFlight key' := Nat.lt_of_le_of_lt (Nat.le_add_right ..) hkey'
    obtain ⟨locked, hold, hexpires⟩ := h.locked key' hflight'
    exact ⟨locked, (hlocked key' hne).trans hold, hexpires⟩
  · have hsingle := h.single key'
    change s.dispatched.count key' ≤ (s.done ++ [key]).count key' + 1
    rw [count_append]
    omega

/-- The workers of a queue are those that have been started and are not done, and are within its
    limit. If at each refresh the events of all workers are due, and their queues have capacity, no
    two workers are for the same message and queue. -/
theorem single_of_run (h : Run (node threads) (fun _ _ => True) s) :
    (∀ name, s.queue.inFlight name + s.done.countP (·.2 = name) =
        s.dispatched.countP (·.2 = name)) ∧
      (∀ name stats, s.queue.stats name = some stats → stats.inFlight ≤ stats.maxInFlight) ∧
      ∀ clock, Run (node threads) (Watched clock) s →
        ∀ key, s.dispatched.count key ≤ s.done.count key + 1 := by
  have hcounted : Counted s := by
    refine h.induction (fun s hs => ?_) fun s a s' ih _ hstep => ih.step hstep
    rw [hs]
    exact ⟨fun _ => rfl, nofun, Subperm.refl _⟩
  refine ⟨hcounted.inFlight, hcounted.limited, fun clock hwatched => ?_⟩
  have hheld : Held clock s := by
    refine hwatched.induction (fun s hs => ?_) fun s a s' ih hallowed hstep => ?_
    · rw [hs]
      exact ⟨nofun, fun _ => Nat.zero_le _⟩
    · have hstep : s.step threads a = some s' := hstep
      cases a with
      | refresh now sweepAt events order => exact ih.refresh hallowed hstep
      | workerDone now key status => exact ih.workerDone hstep
  exact hheld.single

end Runs

/-! ## A queue that is full -/

/-- Two messages in the local queue. -/
def localEvents : List (QueuedMessage String) := [⟨90, 1, "local"⟩, ⟨95, 2, "local"⟩]

/-- They are delivered, and the queue is refreshed after one of them is done. -/
def watchedSteps : List (Step String) :=
  [.refresh 100 100 localEvents localEvents, .workerDone 101 (2, "local") .completed,
    .refresh 102 102 [⟨90, 1, "local"⟩] []]

/-- The queue is refreshed in between too, while both workers are running. -/
def fullSteps : List (Step String) :=
  [.refresh 100 100 localEvents localEvents, .refresh 101 101 localEvents [],
    .workerDone 101 (2, "local") .completed, .refresh 102 102 [⟨90, 1, "local"⟩] [⟨90, 1, "local"⟩]]

/-- Nothing has been started yet. -/
def start : Node String := ⟨⟨fun _ => none, 0, fun _ => none⟩, [], []⟩

/-- With two threads, both messages have a worker, and the first is not started again after the
    second is done. -/
theorem single_watchedSteps : ∃ s, watchedSteps.foldlM (Node.step fun _ => 2) start = some s ∧
    s.queue.inFlight "local" = 1 ∧ s.dispatched = [(1, "local"), (2, "local")] ∧
      s.dispatched.count (1, "local") ≤ s.done.count (1, "local") + 1 := by
  have hfirst : Watched 100 start (.refresh 100 100 localEvents localEvents) :=
    ⟨by decide, by decide, by decide, fun key hkey => absurd hkey (Nat.lt_irrefl _)⟩
  have hsecond {queue : Manager String} (hqueue : queue.hasRoom "local" = true) :
      Watched 100 ⟨queue, [(1, "local"), (2, "local")], [(2, "local")]⟩
        (.refresh 102 102 [⟨90, 1, "local"⟩] []) := by
    refine ⟨by decide, by decide, by decide, fun key hkey => ?_⟩
    have hmem : key ∈ [(1, "local"), (2, "local")] :=
      count_pos_iff.mp (Nat.lt_of_le_of_lt (Nat.zero_le _) hkey)
    rw [mem_pair] at hmem
    rcases hmem with rfl | rfl
    · exact ⟨hqueue, ⟨90, 1, "local"⟩, by decide, rfl⟩
    · exact absurd hkey (Nat.lt_irrefl 1)
  have hrun : Run (node fun _ => 2) (Watched 100) _ :=
    .step (.step (.step (.initial rfl) hfirst rfl)
      (show Watched 100 _ (.workerDone 101 (2, "local") .completed) from trivial) rfl)
      (hsecond rfl) rfl
  refine ⟨_, rfl, rfl, rfl, (single_of_run ?_).2.2 100 hrun (1, "local")⟩
  exact Run.foldlM (.initial rfl) (fun _ _ _ => trivial) (rfl : watchedSteps.foldlM _ start = _)

/-- The first message is started a second time while its worker is running. -/
theorem two_workers : (fullSteps.foldlM (Node.step fun _ => 2) start).map
    (fun s => (s.dispatched.count (1, "local"), s.done.count (1, "local"))) = some (2, 0) := by
  decide +kernel

end Inworkspace.Queue
