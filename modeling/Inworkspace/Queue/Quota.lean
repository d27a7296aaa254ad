import Inworkspace.Queue.Progress
import Mathlib

/-!
# Queue quotas

What is added to the quota counters when a message is queued is subtracted again, for each
recipient that is done when the message is saved (`release_quota`), and for the rest when it is
removed. The entries that a save releases should be gone from the record, but the merge of
`save_changes` keeps the metadata as it is.

* `conserved_of_run`: each entry is released at most once, and all are when the message is removed,
  if there is never more than one worker, and the ones that find other queues have nothing to
  release (`Alone`);
* `released_twice`: a recipient with a quota is done while another queue is pending. Its quota is
  released then, and again when the message is removed.
-/

namespace Inworkspace.Queue

open Lib.Interleaving List Function Option

variable {Name : Type} {message : Message Name}

/-- What has been added to a counter. -/
def total (key : QuotaKey) (added : List (QuotaKey × ℤ)) : ℤ :=
  ((added.filter (·.1 = key)).map Prod.snd).sum

def subtracted (amounts : List (QuotaKey × ℤ)) : List (QuotaKey × ℤ) :=
  amounts.map fun (key, amount) => (key, -amount)

theorem total_append (key : QuotaKey) (added added' : List (QuotaKey × ℤ)) :
    total key (added ++ added') = total key added + total key added' := by
  rw [total, filter_append, map_append, sum_append, total, total]

theorem total_subtracted (key : QuotaKey) (amounts : List (QuotaKey × ℤ)) :
    total key (subtracted amounts) = -total key amounts := by
  induction amounts with
  | nil => rfl
  | cons entry amounts ih =>
    rw [← singleton_append, total_append, neg_add, ← ih]
    by_cases hkey : entry.1 = key <;> simp [total, subtracted, hkey]

/-- No recipient has the id of the sender. -/
theorem zero_notMem_quotaIds : 0 ∉ message.quotaIds := by
  refine foldlRecOn message.recipients.zipIdx _
    (motive := fun (acc : List ℕ × List String) => 0 ∉ acc.1) not_mem_nil ?_
  intro (ids, seenDomains) hids (rcpt, pos) _
  have hdomain : (pos + 1) <<< 32 ≠ 0 := by
    rw [Nat.shiftLeft_eq]
    exact Nat.ne_of_gt (Nat.mul_pos pos.succ_pos (Nat.two_pow_pos 32))
  dsimp only at hids ⊢
  split_ifs <;> simp [hids, hdomain.symm]

/-- Nothing is released if there are only quotas of the sender. -/
theorem releaseQuota_of_sender
    (h : ∀ entry ∈ message.metadata, (entry.quota message.size).isSome → entry.id = 0) :
    message.releaseQuota.2 = [] := by
  have hreleased : message.metadata.filter message.isReleased = [] := by
    rw [filter_eq_nil_iff]
    intro entry hentry hreleased
    rw [Message.isReleased, Bool.and_eq_true, decide_eq_true_eq] at hreleased
    exact zero_notMem_quotaIds (h entry hentry hreleased.1 ▸ hreleased.2)
  rw [Message.releaseQuota, hreleased]
  rfl

/-- What is reserved has been released, or stands in the record. -/
def Accounted (reserved : List (QuotaKey × ℤ)) (store : Store Name) : Prop :=
  ∃ released, store.added = reserved ++ subtracted released ∧
    (released ++ store.message.elim [] fun message => message.quotas message.metadata).Perm reserved

variable [DecidableEq Name] {reserved : List (QuotaKey × ℤ)}

/-- Workers start one after the other, and those that find other queues pending have only quotas of
    the sender. -/
def Alone (s : Spool Name) : WorkerStep Name → Prop
  | .start queueName _ => (∀ name, (s.workers name).isNone) ∧
      ∀ message ∈ s.store.message, (MessageWrapper.new message queueName).isMultiQueue →
        ∀ entry ∈ message.metadata, (entry.quota message.size).isSome → entry.id = 0
  | .work .. | .save _ => True

/-- The worker has the metadata of the record, and releases nothing if there are other queues. -/
def Current (store : Store Name) (wrapper : MessageWrapper Name) : Prop :=
  ∃ message, store.message = some message ∧ wrapper.message.metadata = message.metadata ∧
    wrapper.message.size = message.size ∧ (wrapper.isMultiQueue = true →
      ∀ entry ∈ message.metadata, (entry.quota message.size).isSome → entry.id = 0)

/-- A save or the removal keeps the account. -/
theorem Accounted.finish {store : Store Name} {worker : Worker Name}
    (h : Accounted reserved store) (hcurrent : Current store worker.wrapper) :
    Accounted reserved (store.finish worker) := by
  obtain ⟨released, hadded, hperm⟩ := h
  obtain ⟨message, hmessage, hmetadata, hsize, hsender⟩ := hcurrent
  rw [hmessage, elim_some] at hperm
  have hquotas : worker.wrapper.message.quotas worker.wrapper.message.metadata =
      message.quotas message.metadata := by
    rw [Message.quotas, Message.quotas, hmetadata, hsize]
  rw [Store.finish]
  split_ifs
  · rw [Store.saveChanges]
    split_ifs with hmulti
    · rw [hmessage, releaseQuota_of_sender (by rw [hmetadata, hsize]; exact hsender hmulti)]
      dsimp only
      split_ifs
      · exact ⟨released, by rw [getD_some, append_nil, hadded], hperm⟩
      · exact ⟨released, hadded, by rwa [getD_none, hmessage]⟩
    · -- the entries that are released leave the record
      refine ⟨released ++ worker.wrapper.message.quotas
        (worker.wrapper.message.metadata.filter worker.wrapper.message.isReleased), ?_, ?_⟩
      · rw [hadded, subtracted, subtracted, map_append, append_assoc]
        rfl
      · rw [append_assoc]
        refine .trans (.append_left released ?_) hperm
        rw [← hquotas]
        have hsplit := (filter_append_perm worker.wrapper.message.isReleased
          worker.wrapper.message.metadata).filterMap (·.quota worker.wrapper.message.size)
        rwa [filterMap_append] at hsplit
  · refine ⟨released ++ message.quotas message.metadata, ?_, by simpa [Store.remove] using hperm⟩
    rw [Store.remove, hquotas, hadded, subtracted, subtracted, map_append, append_assoc]

/-- The account is kept, and there is at most one worker, with the metadata of the record. -/
structure Balanced (reserved : List (QuotaKey × ℤ)) (s : Spool Name) : Prop where
  accounted : Accounted reserved s.store
  current : ∀ name worker, s.workers name = some worker →
    Current s.store worker.wrapper ∧ ∀ other, other ≠ name → s.workers other = none

/-- What is reserved is released once, by a worker that is alone. -/
theorem Balanced.step {s s' : Spool Name} {a : WorkerStep Name} (h : Balanced reserved s)
    (halone : Alone s a) (hstep : s.step a = some s') : Balanced reserved s' := by
  -- the only worker afterwards
  have hupdate {queueName : Name} (hnone : ∀ other, other ≠ queueName → s.workers other = none)
      {new : Option (Worker Name)} {store : Store Name}
      (hnew : ∀ worker ∈ new, Current store worker.wrapper) (name : Name) (worker : Worker Name)
      (hworker : update s.workers queueName new name = some worker) :
      Current store worker.wrapper ∧
        ∀ other, other ≠ name → update s.workers queueName new other = none := by
    by_cases hname : name = queueName
    · rw [hname, update_self] at hworker
      refine ⟨hnew worker hworker, fun other hother => ?_⟩
      rw [update_of_ne (hname ▸ hother), hnone other (hname ▸ hother)]
    · rw [update_of_ne hname, hnone name hname] at hworker
      cases hworker
  cases a with
  | start queueName due =>
    obtain ⟨message, -, hmessage, rfl⟩ := Spool.step_start hstep
    obtain ⟨hnone, hsender⟩ := halone
    refine ⟨h.accounted, hupdate (fun other _ => isNone_iff_eq_none.mp (hnone other)) ?_⟩
    rintro worker ⟨⟩
    exact ⟨message, hmessage, rfl, rfl, hsender message hmessage⟩
  | work queueName work =>
    obtain ⟨worker, hworker, rfl⟩ := Spool.step_work hstep
    obtain ⟨⟨message, hmessage, hmetadata, hsize, hsender⟩, hnone⟩ := h.current _ _ hworker
    refine ⟨h.accounted, hupdate hnone ?_⟩
    rintro worker' ⟨⟩
    obtain ⟨recipients, hrun, -⟩ := @Work.exists_run _ worker.wrapper.message
      worker.wrapper.queueName _ work
    refine ⟨message, hmessage, ?_, ?_, hsender⟩
    · rw [Worker.work, hrun, hmetadata]
    · rw [Worker.work, hrun, hsize]
  | save queueName =>
    obtain ⟨worker, hworker, rfl⟩ := Spool.step_save hstep
    obtain ⟨hcurrent, hnone⟩ := h.current _ _ hworker
    exact ⟨h.accounted.finish hcurrent, hupdate hnone nofun⟩

/-- Each entry of the metadata is released at most once, and all are when the message is removed. -/
theorem conserved_of_run {message : Message Name} {s : Spool Name}
    (h : Run (deliveries message) Alone s) :
    ∃ released, s.store.added = message.quotas message.metadata ++ subtracted released ∧
      released.Subperm (message.quotas message.metadata) ∧
      (s.store.message = none → ∀ key, total key s.store.added = 0) := by
  have hbalanced : Balanced (message.quotas message.metadata) s := by
    refine h.induction (fun s hs => ?_) fun s a s' ih halone hstep => ih.step halone hstep
    rw [hs]
    exact ⟨⟨[], (append_nil _).symm, .rfl⟩, nofun⟩
  obtain ⟨released, hadded, hperm⟩ := hbalanced.accounted
  refine ⟨released, hadded, .trans (sublist_append_left _ _).subperm hperm.subperm,
    fun hnone key => ?_⟩
  rw [hnone, elim_none, append_nil] at hperm
  rw [hadded, total_append, total_subtracted]
  exact add_neg_eq_zero.mpr ((hperm.symm.filter _).map _).sum_eq

/-- The message has been queued, with a quota of its first recipient. -/
def limitedTo (recipients : List (Recipient String)) : Spool String :=
  ⟨.queue { newsletter with recipients, metadata := [.queueCount "jane" 1] }, fun _ => none, []⟩

/-- A worker delivers to a recipient. -/
def accepted (rcptIdx : ℕ) : List (Work String) :=
  [.check 100 (retryIn "remote"),
    .attempt 100 (retryIn "remote") [.status rcptIdx (.completed "250 OK")]]

theorem run_worker {s s' : Spool String} {message : Message String} (rcptIdx : ℕ)
    (h : Run (deliveries message) Alone s) (hstart : Alone s (.start "remote" 100))
    (hs : (WorkerStep.all "remote" 100 (accepted rcptIdx)).foldlM Spool.step s = some s') :
    Run (deliveries message) Alone s' := by
  obtain ⟨s₁, hstep, hs⟩ := bind_eq_some_iff.mp hs
  exact .foldlM (.step h hstart hstep) (by simp [accepted, Alone]) hs

/-- Two workers of a queue deliver to a recipient each: the first one saves the message and releases
    the quota, the second one removes the message. -/
theorem conserved_twoWorkers : ∃ s, (WorkerStep.all "remote" 100 (accepted 0) ++
      WorkerStep.all "remote" 100 (accepted 1)).foldlM Spool.step
        (limitedTo [scheduledIn "remote", scheduledIn "remote"]) = some s ∧
      s.store.message = none ∧ total (.count "jane") s.store.added = 0 := by
  have hfirst : Run (deliveries { newsletter with
      recipients := [scheduledIn "remote", scheduledIn "remote"]
      metadata := [.queueCount "jane" 1] }) Alone _ := run_worker 0 (.initial rfl) ⟨fun _ => rfl,
    fun message hmessage hmulti => by cases hmessage; exact absurd hmulti (by decide)⟩ rfl
  have hsecond := run_worker 1 hfirst ⟨fun name => by
    show Option.isNone ((update (update (update (update (fun _ => none) "remote" _) "remote" _)
      "remote" _) "remote" none : String → Option (Worker String)) name) = true
    simp [update_apply],
    fun message hmessage hmulti => by cases hmessage; exact absurd hmulti (by decide +kernel)⟩ rfl
  obtain ⟨released, -, -, htotal⟩ := conserved_of_run hsecond
  exact ⟨_, rfl, rfl, htotal rfl _⟩

/-- A second recipient is pending in another queue when the first one is done. -/
theorem released_twice : ((WorkerStep.all "remote" 100 (accepted 0) ++
      WorkerStep.all "local" 100 (accepted 1)).foldlM Spool.step
        (limitedTo [scheduledIn "remote", scheduledIn "local"])).map (fun s =>
      (s.store.message, total (.count "jane") s.store.added)) = some (none, -1) := by
  decide +kernel

end Inworkspace.Queue
