import Mathlib

/-!
# Retries of tasks

When an attempt to run a task fails, `update_tasks` schedules the next one or parks the task. A
temporary failure is retried after the delay of the configured strategy (`next_retry_time`), and
other failures say themselves when to retry; both are limited by a number of attempts and by a
deadline that runs from the creation of the task.

* `withinLimits_of_pending`: a task is retried in time, and not too often, as long as no failure
  asks for a time after the deadline;
* `not_withinLimits_rateLimited`: a failure that asks for a time after the deadline gets it, since
  that time is compared with itself.
-/

namespace Inworkspace.Tasks

/-- `u64::saturating_add`. -/
def saturatingAdd (a b : ℕ) : ℕ := min (a + b) (2 ^ 64 - 1)

/-- `TaskManager`: the limits of the retries, in attempts and in seconds. -/
structure TaskManager where
  maxAttempts : ℕ
  totalDeadline : ℕ

/-- `TaskStatus`, with timestamps for the times. -/
inductive TaskStatus where
  | pending (createdAt : ℤ)
  | retry (due : ℤ) (attemptNumber : ℕ) (failureReason : String) (createdAt : ℤ)
  | failed (failedAt : ℤ) (failedAttemptNumber : ℕ) (failureReason : String) (createdAt : ℤ)
  deriving DecidableEq

/-- When the task was created, as its status has it. -/
def TaskStatus.createdAt : TaskStatus → ℤ
  | .pending createdAt | .retry _ _ _ createdAt | .failed _ _ _ createdAt => createdAt

inductive TaskFailureType where
  | retry (retryAt : ℕ)
  | temporary
  | permanent
  deriving DecidableEq

/-- `TaskResult::Failure`, with the time of the attempt and the delay of the strategy, which may be
    any. -/
structure Failure where
  typ : TaskFailureType
  message : String
  maxAttempts : Option ℕ
  now : ℕ
  delay : ℕ

variable (manager : TaskManager)

def nextRetryTime (maxAttempts : Option ℕ) (createTime attempt now delay : ℕ) : Option ℕ :=
  if maxAttempts.getD manager.maxAttempts ≤ attempt then none
  else
    let nextTime := saturatingAdd now delay
    if saturatingAdd createTime manager.totalDeadline < nextTime then none else some nextTime

/-- The attempts before this one, and the creation time, as `update_tasks` reads them. -/
def TaskStatus.progress : TaskStatus → ℕ × ℤ
  | .pending createdAt => (0, createdAt)
  | .retry _ attemptNumber _ createdAt => (attemptNumber, createdAt)
  | .failed failedAt failedAttemptNumber _ _ => (failedAttemptNumber, failedAt)

/-- When the task is tried again after a failure, if it is. -/
def retryTime (attemptNumber : ℕ) (createdAt : ℤ) (failure : Failure) : Option ℕ :=
  match failure.typ with
  | .retry retryAt =>
    -- the time is compared with itself, not with the creation
    if attemptNumber < failure.maxAttempts.getD manager.maxAttempts ∧
        retryAt < saturatingAdd retryAt manager.totalDeadline then some retryAt
    else none
  | .temporary =>
    nextRetryTime manager failure.maxAttempts (createdAt % 2 ^ 64).toNat attemptNumber failure.now
      failure.delay
  | .permanent => none

/-- `update_tasks` after a failure: the time of the due entry, and the status. -/
def updateTask (status : TaskStatus) (failure : Failure) : ℕ × TaskStatus :=
  let (attemptNumber, createdAt) := status.progress
  match retryTime manager attemptNumber createdAt failure with
  | some retryAt =>
    (retryAt, .retry ((retryAt : ℤ).bmod (2 ^ 64)) (attemptNumber + 1) failure.message createdAt)
  | none =>
    (2 ^ 64 - 1,
      .failed ((failure.now : ℤ).bmod (2 ^ 64)) attemptNumber failure.message createdAt)

/-- The failed attempts of a task until it is parked, and what each writes. -/
def attempts (manager : TaskManager) (status : TaskStatus) : List Failure → List (ℕ × TaskStatus)
  | [] => []
  | failure :: failures =>
    let updated := updateTask manager status failure
    updated :: match updated.2 with
      | .retry .. => attempts manager updated.2 failures
      | _ => []

/-- The retries are due before the deadline, are not more than allowed, and the creation time
    stays. -/
structure WithinLimits (maxAttempts : ℕ) (createdAt : ℤ)
    (updates : List (ℕ × TaskStatus)) : Prop where
  due : ∀ update ∈ updates, (∃ due attempt reason created,
    update.2 = .retry due attempt reason created) → update.1 ≤ createdAt + manager.totalDeadline
  count : updates.length ≤ maxAttempts + 1
  created : ∀ update ∈ updates, update.2.createdAt = createdAt

variable {manager} {attemptNumber maxAttempts : ℕ} {createdAt : ℤ}

/-- A retry is within the limits. -/
theorem retryTime_le {failure : Failure} {retryAt : ℕ} (hcreated : 0 ≤ createdAt)
    (hexplicit : ∀ retryAt, failure.typ = .retry retryAt →
      retryAt ≤ createdAt + manager.totalDeadline)
    (h : retryTime manager attemptNumber createdAt failure = some retryAt) :
    retryAt ≤ createdAt + manager.totalDeadline ∧
      attemptNumber < failure.maxAttempts.getD manager.maxAttempts := by
  rw [retryTime] at h
  rcases htyp : failure.typ with explicit | _ | _ <;> simp only [htyp] at h
  · split_ifs at h with hlimits
    exact ⟨Option.some.inj h ▸ hexplicit explicit htyp, hlimits.1⟩
  · simp only [nextRetryTime] at h
    split_ifs at h with hmany hlate
    have htime := Option.some.inj h
    rw [saturatingAdd] at hlate
    omega
  · cases h

section Limits

variable (failures : List Failure) (hcreated : 0 ≤ createdAt)
  (hexplicit : ∀ failure ∈ failures, ∀ retryAt, failure.typ = .retry retryAt →
    retryAt ≤ createdAt + manager.totalDeadline)
  (hmax : ∀ failure ∈ failures, failure.maxAttempts.getD manager.maxAttempts ≤ maxAttempts)

include hcreated hexplicit hmax

/-- From any status the attempts that are left are within the limits. -/
theorem withinLimits_attempts (status : TaskStatus)
    (hstatus : status.progress = (attemptNumber, createdAt)) :
    WithinLimits manager (maxAttempts - attemptNumber) createdAt
      (attempts manager status failures) := by
  induction failures generalizing status attemptNumber with
  | nil => exact ⟨nofun, Nat.zero_le _, nofun⟩
  | cons failure failures ih =>
    rw [List.forall_mem_cons] at hexplicit hmax
    rcases htime : retryTime manager attemptNumber createdAt failure with _ | retryAt <;>
      simp only [attempts, updateTask, hstatus, htime]
    · exact ⟨by simp, by simp, by simp [TaskStatus.createdAt]⟩
    obtain ⟨hle, hlt⟩ := retryTime_le hcreated hexplicit.1 htime
    have hrest := ih hexplicit.2 hmax.2 (.retry ((retryAt : ℤ).bmod (2 ^ 64)) (attemptNumber + 1)
      failure.message createdAt) rfl
    refine ⟨List.forall_mem_cons.mpr ⟨fun _ => hle, hrest.due⟩, ?_,
      List.forall_mem_cons.mpr ⟨rfl, hrest.created⟩⟩
    have hcount := hrest.count
    rw [List.length_cons]
    omega

/-- A task is retried within its limits until it is parked, if no failure asks for a time after the
    deadline. -/
theorem withinLimits_of_pending :
    WithinLimits manager maxAttempts createdAt (attempts manager (.pending createdAt) failures) :=
  withinLimits_attempts failures hcreated hexplicit hmax (.pending createdAt) rfl

end Limits

/-- A task is retried after a minute and, as it is asked to, after an hour, and is then parked. -/
theorem withinLimits_renewal :
    let timeout : Failure := ⟨.temporary, "Timeout", none, 1700000000, 60⟩
    let failures := [timeout, { timeout with typ := .retry 1700003600 }, timeout]
    (attempts ⟨2, 86400⟩ (.pending 1700000000) failures).map Prod.fst =
        [1700000060, 1700003600, 2 ^ 64 - 1] ∧
      WithinLimits ⟨2, 86400⟩ 2 1700000000 (attempts ⟨2, 86400⟩ (.pending 1700000000) failures) := by
  intro timeout failures
  exact ⟨by decide, withinLimits_of_pending _ (by decide) (by simp [failures, timeout])
    (by simp [failures, timeout])⟩

/-- The certificate authority asks for a retry after a week; the deadline is a day. -/
theorem not_withinLimits_rateLimited :
    ¬ WithinLimits ⟨3, 86400⟩ 3 1700000000 (attempts ⟨3, 86400⟩ (.pending 1700000000)
      [⟨.retry 1700604800, "Rate limited", none, 1700000000, 60⟩]) := by
  intro h
  have hdue := h.due _ List.mem_cons_self ⟨_, _, _, _, rfl⟩
  exact absurd hdue (by decide)

end Inworkspace.Tasks
