import Inworkspace.Queue.Worker

/-!
# What a save keeps

After a save, the record of a message should have what the worker has made of the recipients of its
queue, and the others as they were, and each pending recipient should have an event of its
queue that is due in time (`Progress`).

If the message has recipients in other queues, `save_changes` merges the recipients that are in the
queue of the worker *after* the attempt. The ones that the attempt has moved to another queue are
left out, with the event of the old queue already gone. So a save keeps what it should if and
only if no recipient has been moved, or there are no other queues and the worker has left the
recipients that are done in them alone (`progress_iff`).
-/

namespace Inworkspace.Queue

open List

variable {Name : Type} [DecidableEq Name] {message : Message Name} (queue : String)

/-- A recipient as the worker has read it, as it is stored then, and as the worker has left it. -/
structure Row (Name : Type) where
  read : Recipient Name
  stored : Recipient Name
  new : Recipient Name

/-- What a save should leave: the recipients of the queue as the worker left them, the others as
    stored, and events for those pending. -/
structure Progress (queueName : Name) (rows : List (Row Name)) (message : Message Name)
    (events : Name → Finset ℕ) : Prop where
  recipients : message.recipients =
    rows.map fun row => if row.read.queue = queueName then row.new else row.stored
  events : ∀ rcpt ∈ message.recipients, rcpt.status.isPending →
    ∃ due ∈ events rcpt.queue, due ≤ rcpt.nextDue message.created

/-- There is an event for each pending recipient. -/
theorem exists_nextEvents {rcpt : Recipient Name} (hmem : rcpt ∈ message.recipients)
    (hpending : rcpt.status.isPending = true) :
    ∃ due, message.nextEvents rcpt.queue = some due ∧ due ≤ rcpt.nextDue message.created := by
  have hdue : rcpt.nextDue message.created ∈ (message.recipients.filter fun other =>
      other.status.isPending && decide (other.queue = rcpt.queue)).map
        (·.nextDue message.created) :=
    mem_map_of_mem (mem_filter.mpr ⟨hmem, by simp [hpending]⟩)
  cases hmin : message.nextEvents rcpt.queue with
  | none =>
    rw [Message.nextEvents, min?_eq_none_iff] at hmin
    rw [hmin] at hdue
    cases hdue
  | some due => exact ⟨due, rfl, (min?_eq_some_iff.mp hmin).2 _ hdue⟩

/-- A worker does not move the recipients of other queues. -/
theorem queue_foldl_run {queueName : Name} {idx : ℕ} {works : List (Work Name)}
    {old : Recipient Name} (hold : message.recipients[idx]? = some old)
    (hne : old.queue ≠ queueName) :
    ∃ new, (works.foldl (fun message work => (work.run queueName message).1)
      message).recipients[idx]? = some new ∧ new.queue = old.queue := by
  induction works generalizing message old with
  | nil => exact ⟨old, hold, rfl⟩
  | cons work works ih =>
    obtain ⟨_, mid, hsome, hmid, hworked⟩ := Work.exists_worked work
      (List.getElem?_eq_some_iff.mp hold).1
    cases hold.symm.trans hsome
    have hqueue := hworked.queue fun h => absurd h hne
    obtain ⟨new, hnew, heq⟩ := ih hmid (hqueue ▸ hne)
    exact ⟨new, hnew, heq.trans hqueue⟩

section Save

variable (queueName : Name) (message : Message Name) (rows : List (Row Name))

def withRecipients (recipients : Row Name → Recipient Name) : Message Name :=
  { message with recipients := rows.map recipients }

/-- The worker that has read the message. -/
def workerOf : MessageWrapper Name :=
  { MessageWrapper.new (withRecipients message rows Row.read) queueName with
    message := withRecipients message rows Row.new }

variable {queueName rows}

theorem mergeRecipients_map :
    Store.mergeRecipients queueName (rows.map Row.stored) (rows.map Row.new) =
      rows.map fun row => if row.new.queue = queueName then row.new else row.stored := by
  rw [Store.mergeRecipients, zipWith_map, zipWith_self]

/-- The right recipients are merged if none has been moved. -/
theorem merged_eq_iff (hstored : ∀ row ∈ rows, row.stored.queue = row.read.queue)
    (hother : ∀ row ∈ rows, row.read.queue ≠ queueName → row.new.queue = row.read.queue) :
    (rows.map fun row => if row.new.queue = queueName then row.new else row.stored) =
        (rows.map fun row => if row.read.queue = queueName then row.new else row.stored) ↔
      ∀ row ∈ rows, row.read.queue = queueName → row.new.queue = queueName := by
  rw [map_inj_left]
  refine forall₂_congr fun row hrow => ?_
  by_cases hread : row.read.queue = queueName
  · rw [if_pos hread]
    refine ⟨fun heq _ => ?_, fun hnew => if_pos (hnew hread)⟩
    by_contra hnew
    -- what is stored is still in the queue of the worker
    rw [if_neg hnew] at heq
    exact hnew (heq ▸ (hstored row hrow).trans hread)
  · rw [if_neg hread, if_neg (hother row hrow hread ▸ hread)]
    exact iff_of_true rfl fun h => absurd h hread

/-- Without other queues, the recipients are saved as the worker has left them. -/
theorem new_eq_iff : rows.map Row.new =
      (rows.map fun row => if row.read.queue = queueName then row.new else row.stored) ↔
    ∀ row ∈ rows, row.read.queue ≠ queueName → row.new = row.stored := by
  rw [map_inj_left]
  refine forall₂_congr fun row _ => ?_
  by_cases hread : row.read.queue = queueName <;> simp

/-- What a save keeps, whatever the worker has done. The record may have changed, but recipients are
    in the same queues. -/
theorem progress_iff (works : List (Work Name))
    (hnew : rows.map Row.new = (works.foldl (fun message work => (work.run queueName message).1)
      (withRecipients message rows Row.read)).recipients)
    (hstored : ∀ row ∈ rows, row.stored.queue = row.read.queue) (store : Store Name)
    (hstore : store.message = some (withRecipients message rows Row.stored))
    (hevents : ∀ row ∈ rows, row.stored.status.isPending →
      ∃ due ∈ store.events row.stored.queue, due ≤ row.stored.nextDue message.created)
    (prevEvent : ℕ) :
    ∃ saved store', store.saveChanges (workerOf queueName message rows) prevEvent = some store' ∧
      store'.message = some saved ∧
      (Progress queueName rows saved store'.events ↔
        if (workerOf queueName message rows).isMultiQueue then
          ∀ row ∈ rows, row.read.queue = queueName → row.new.queue = queueName
        else ∀ row ∈ rows, row.read.queue ≠ queueName → row.new = row.stored) := by
  have hother : ∀ row ∈ rows, row.read.queue ≠ queueName → row.new.queue = row.read.queue := by
    intro row hrow hne
    obtain ⟨idx, hidx⟩ := mem_iff_getElem?.mp hrow
    have hread : (withRecipients message rows Row.read).recipients[idx]? = some row.read := by
      rw [withRecipients, getElem?_map, hidx, Option.map_some]
    obtain ⟨new, hsome, hqueue⟩ := queue_foldl_run hread hne
    rw [← hnew, getElem?_map, hidx, Option.map_some, Option.some.injEq] at hsome
    exact hsome ▸ hqueue
  set events := store.nextEvents (workerOf queueName message rows) prevEvent with hdefinition
  -- events of recipients that the worker has left are set, and those of other queues are kept
  have hset : ∀ row ∈ rows, row.new.status.isPending →
      ∃ due ∈ events row.new.queue, due ≤ row.new.nextDue message.created := by
    intro row hrow hpending
    have hmem : row.new ∈ (workerOf queueName message rows).message.recipients :=
      mem_map_of_mem hrow
    obtain ⟨due, hdue, hle⟩ := exists_nextEvents hmem hpending
    exact ⟨due, by simp [hdefinition, Store.nextEvents, hdue], hle⟩
  have hkept : ∀ row ∈ rows, row.read.queue ≠ queueName → row.stored.status.isPending →
      ∃ due ∈ events row.stored.queue, due ≤ row.stored.nextDue message.created := by
    intro row hrow hread hpending
    obtain ⟨due, hdue, hle⟩ := hevents row hrow hpending
    have hne : row.stored.queue ≠ queueName := hstored row hrow ▸ hread
    refine ⟨due, ?_, hle⟩
    have hclear : due ∈ store.clearEvent queueName prevEvent row.stored.queue := by
      rwa [Store.clearEvent, Function.update_of_ne hne]
    rw [hdefinition, Store.nextEvents]
    cases (workerOf queueName message rows).message.nextEvents row.stored.queue with
    | none => exact hclear
    | some next => exact Finset.mem_insert_of_mem hclear
  cases hmulti : (workerOf queueName message rows).isMultiQueue with
  | false =>
    refine ⟨_, _, by rw [Store.saveChanges, hmulti]; rfl, rfl, ?_⟩
    rw [← new_eq_iff]
    refine ⟨fun h => h.recipients, fun h => ⟨h, fun rcpt hrcpt => ?_⟩⟩
    obtain ⟨row, hrow, rfl⟩ := mem_map.mp hrcpt
    exact hset row hrow
  | true =>
    refine ⟨withRecipients message rows fun row =>
      if row.new.queue = queueName then row.new else row.stored, ⟨_, events, store.added ++
        (workerOf queueName message rows).message.releaseQuota.2⟩, ?_, rfl, ?_⟩
    · simp only [Store.saveChanges, hmulti, hstore, if_true]
      rw [if_pos ⟨rfl, (length_map _).trans (length_map _).symm⟩]
      simp only [withRecipients, ← mergeRecipients_map]
      rfl
    · rw [← merged_eq_iff hstored hother]
      refine ⟨fun h => h.recipients, fun h => ⟨h, fun rcpt hrcpt hpending => ?_⟩⟩
      rw [show (withRecipients message rows _).recipients = _ from h] at hrcpt
      obtain ⟨row, hrow, rfl⟩ := mem_map.mp hrcpt
      split_ifs at hpending ⊢ with hread
      · exact hset row hrow hpending
      · exact hkept row hrow hread hpending

end Save

/-! ## A recipient that is moved -/

/-- A recipient that is due in a queue. -/
def scheduledIn : Recipient String where
  address := "jane@example.org"
  retry := ⟨100, 0⟩
  notify := ⟨500, 0⟩
  expires := .ttl 1000
  queue
  status := .scheduled
  isDsnSent := false
  notifyNever := false
  notifySuccess := false
  notifyFailure := true
  notifyDelay := false

/-- Recipients are retried after 100 seconds, in some queue. -/
def retryIn : Recipient String → QueueStrategy String :=
  fun _ => ⟨[100], [], .ttl 1000, queue⟩

/-- A worker fails to deliver to the first recipient. -/
def refused : List (Work String) :=
  [.check 100 (retryIn queue),
    .attempt 100 (retryIn queue) [.status 0 (.temporaryFailure "connection refused")]]

/-- The recipient after the attempt. -/
def retriedIn : Recipient String :=
  { scheduledIn queue with
    retry := ⟨200, 1⟩
    status := .temporaryFailure "connection refused" }

/-- A message with a recipient in the queue of the worker and one in another. -/
def twoQueues : List (Row String) :=
  [⟨scheduledIn "remote", scheduledIn "remote", retriedIn "remote"⟩,
    ⟨scheduledIn "local", scheduledIn "local", scheduledIn "local"⟩]

/-- The message, without its recipients. -/
def newsletter : Message String where
  created := 50
  blobHash := 1
  returnPath := "sender@example.org"
  recipients := []
  size := 1000
  metadata := []

/-- Both recipients have an event at 100. -/
def queuedNewsletter : Spool String :=
  ⟨.queue (withRecipients newsletter twoQueues Row.stored), fun _ => none, []⟩

theorem progress_retried : ∃ saved store',
    queuedNewsletter.store.saveChanges (workerOf "remote" newsletter twoQueues) 100 =
      some store' ∧ store'.message = some saved ∧
      Progress "remote" twoQueues saved store'.events := by
  have hnew : twoQueues.map Row.new = ((refused "remote").foldl (fun message work =>
      (work.run "remote" message).1) (withRecipients newsletter twoQueues Row.read)).recipients := by
    decide
  obtain ⟨saved, store', hsave, hsaved, hiff⟩ := progress_iff newsletter _ hnew (by decide)
    queuedNewsletter.store rfl (by decide) 100
  exact ⟨saved, store', hsave, hsaved, hiff.mpr (by decide)⟩

/-- The first recipient is to be retried in the queue `slow`. The record still has it in the queue
    `remote`, which has no event any more. -/
theorem not_progress_moved : ((WorkerStep.all "remote" 100 (refused "slow")).foldlM Spool.step
    queuedNewsletter).map (fun s =>
      (s.store.message.map Message.recipients, s.store.events "remote", s.store.events "slow")) =
    some (some [scheduledIn "remote", scheduledIn "local"], ∅, {200}) := by
  decide +kernel

end Inworkspace.Queue
