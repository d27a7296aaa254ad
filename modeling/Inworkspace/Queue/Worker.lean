import Inworkspace.Lib.Interleaving
import Mathlib.Data.Finset.Sort

/-!
# Workers of a queued message

A message of the queue (`smtp::queue::Message`) has a list of recipients, each of which is in one of
the virtual queues, and a list of metadata, with the quota counters that have been increased for
it. The workers of the queues deliver it, each to the recipients of its queue: a worker reads
the message, marks the recipients that have expired and sends notifications; it attempts to
deliver, sends notifications again, and saves the message or removes it (`Spool.step`). Only
the recipients of its own queue are saved if there are other queues (`Store.saveChanges`).

What a worker does with a recipient of its copy, and when it reports it, is `Worked`.
-/

namespace Inworkspace.Queue

open List Option Function

variable {Name : Type}

section Model

variable [DecidableEq Name]

/-! ## Messages -/

structure Schedule where
  due : ℕ
  inner : ℕ
  deriving DecidableEq

inductive QueueExpiry where
  | ttl (time : ℕ)
  | attempts (count : ℕ)
  deriving DecidableEq

/-- `Status`; the text stands for the response of a host, or for an error. -/
inductive Status where
  | scheduled
  | completed (response : String)
  | temporaryFailure (error : String)
  | permanentFailure (error : String)
  deriving DecidableEq

/-- `Status::Scheduled | Status::TemporaryFailure(_)`. -/
def Status.isPending : Status → Bool
  | scheduled | temporaryFailure _ => true
  | completed _ | permanentFailure _ => false

/-- `Recipient`, with its flags. -/
structure Recipient (Name : Type) where
  address : String
  retry : Schedule
  notify : Schedule
  expires : QueueExpiry
  queue : Name
  status : Status
  isDsnSent : Bool
  notifyNever : Bool
  notifySuccess : Bool
  notifyFailure : Bool
  notifyDelay : Bool
  deriving DecidableEq

inductive Metadata where
  | queueSize (key : String) (id : ℕ)
  | queueCount (key : String) (id : ℕ)
  | headers (value : String) (id : ℕ)
  deriving DecidableEq

structure Message (Name : Type) where
  created : ℕ
  blobHash : ℕ
  returnPath : String
  recipients : List (Recipient Name)
  size : ℕ
  metadata : List Metadata
  deriving DecidableEq

structure MessageWrapper (Name : Type) where
  queueName : Name
  isMultiQueue : Bool
  message : Message Name

variable (message : Message Name)

def MessageWrapper.new (queueName : Name) : MessageWrapper Name where
  queueName
  isMultiQueue := message.recipients.any fun rcpt =>
    rcpt.status.isPending && decide (rcpt.queue ≠ queueName)
  message

variable (self : Recipient Name)

def Recipient.expirationTime (created : ℕ) : Option ℕ :=
  match self.expires with
  | .ttl time => some (created + time)
  | .attempts _ => none

def Recipient.isExpired (created now : ℕ) : Bool :=
  match self.expires with
  | .ttl time => created + time ≤ now
  | .attempts count => count ≤ self.retry.inner

/-- When something is to be done for a recipient. -/
def Recipient.nextDue (created : ℕ) : ℕ :=
  let earlierEvent := min self.retry.due self.notify.due
  (self.expirationTime created).elim earlierEvent (min earlierEvent)

/-- `Message::next_events`, by queue. -/
def Message.nextEvents (self : Message Name) (name : Name) : Option ℕ :=
  ((self.recipients.filter fun rcpt => rcpt.status.isPending && decide (rcpt.queue = name)).map
    (·.nextDue self.created)).min?

/-! ## Quotas -/

/-- `QueueClass::QuotaCount` and `QueueClass::QuotaSize`. -/
inductive QuotaKey where
  | count (key : String)
  | size (key : String)
  deriving DecidableEq

/-- The counter of an entry, and what has been added to it for a message. -/
def Metadata.quota (size : ℕ) : Metadata → Option (QuotaKey × ℤ)
  | queueCount key _ => some (.count key, 1)
  | queueSize key _ => some (.size key, size)
  | headers .. => none

/-- The number of the recipient, or of the first of its domain, that an entry is for. -/
def Metadata.id : Metadata → ℕ
  | queueSize _ id | queueCount _ id | headers _ id => id

def domainPart (address : String) : String :=
  if '@' ∈ address.toList then .ofList (address.toList.reverse.takeWhile (· ≠ '@')).reverse else ""

namespace Message

variable (self : Message Name)

/-- The amounts that the entries stand for. -/
def quotas (metadata : List Metadata) : List (QuotaKey × ℤ) :=
  metadata.filterMap (·.quota self.size)

/-- The ids of the recipients that are done, and of their domains. -/
def quotaIds : List ℕ :=
  (self.recipients.zipIdx.foldl (fun (ids, seenDomains) (rcpt, pos) =>
    if rcpt.status.isPending then (ids, seenDomains)
    else if domainPart rcpt.address ∈ seenDomains then (ids ++ [pos + 1], seenDomains)
    else (ids ++ [(pos + 1) <<< 32, pos + 1], domainPart rcpt.address :: seenDomains))
    (([], []) : List ℕ × List String)).1

def isReleased (entry : Metadata) : Bool :=
  (entry.quota self.size).isSome && decide (entry.id ∈ self.quotaIds)

/-- `release_quota`, with the amounts that are subtracted. -/
def releaseQuota : Message Name × List (QuotaKey × ℤ) :=
  ({ self with metadata := self.metadata.filter (!self.isReleased ·) },
    (self.quotas (self.metadata.filter self.isReleased)).map fun (key, amount) => (key, -amount))

end Message

/-! ## The store -/

/-- The record of a message, the times of its events in each queue, and what has been added to quota
    counters for it. -/
structure Store (Name : Type) where
  message : Option (Message Name)
  events : Name → Finset ℕ
  added : List (QuotaKey × ℤ)

namespace Store

/-- `MessageWrapper::queue`: the quotas are reserved, and the events are set. -/
def queue : Store Name where
  message := some message
  events name := (message.nextEvents name).elim ∅ ({·})
  added := message.quotas message.metadata

/-- The events without the one of the worker. -/
def clearEvent (self : Store Name) (queueName : Name) (prevEvent : ℕ) : Name → Finset ℕ :=
  update self.events queueName ((self.events queueName).erase prevEvent)

/-- The recipients that are stored if there are other queues: those now in the queue of the
    worker. -/
def mergeRecipients (queueName : Name) (current new : List (Recipient Name)) :
    List (Recipient Name) :=
  List.zipWith (fun current new => if new.queue = queueName then new else current) current new

variable (wrapper : MessageWrapper Name)

/-- The events after a save: that of the worker is cleared, and the next ones are set. -/
def nextEvents (prevEvent : ℕ) (self : Store Name) (name : Name) : Finset ℕ :=
  let events := self.clearEvent wrapper.queueName prevEvent name
  (wrapper.message.nextEvents name).elim events (insert · events)

/-- `MessageWrapper::save_changes`. -/
def saveChanges (prevEvent : ℕ) (self : Store Name) : Option (Store Name) :=
  let message := wrapper.message.releaseQuota.1
  let added := self.added ++ wrapper.message.releaseQuota.2
  if wrapper.isMultiQueue then
    match self.message with
    | some current =>
      if current.blobHash = message.blobHash ∧
          current.recipients.length = message.recipients.length then
        -- of the copy only the recipients are saved, not the rest
        let recipients :=
          mergeRecipients wrapper.queueName current.recipients message.recipients
        some ⟨some { current with recipients }, self.nextEvents wrapper prevEvent, added⟩
      else none
    | none => none
  else some ⟨some message, self.nextEvents wrapper prevEvent, added⟩

/-- `MessageWrapper::remove`. -/
def remove (prevEvent : ℕ) (self : Store Name) : Store Name where
  message := none
  events := self.clearEvent wrapper.queueName prevEvent
  added := self.added ++
    (wrapper.message.quotas wrapper.message.metadata).map fun (key, amount) => (key, -amount)

end Store

/-! ## Notifications -/

/-- `QueueStrategy`: what the configuration says of a recipient. -/
structure QueueStrategy (Name : Type) where
  retry : List ℕ
  notify : List ℕ
  expiry : QueueExpiry
  virtualQueue : Name

/-- The configuration of the queue. -/
abbrev Strategy (Name : Type) := Recipient Name → QueueStrategy Name

/-- The kinds of notifications. -/
inductive DsnKind where
  | success
  | delay
  | failure
  deriving DecidableEq

/-- `u64::MAX`. -/
def never : ℕ := 2 ^ 64 - 1

namespace Recipient

/-- What `has_pending_delivery` does with a recipient. -/
def expire (created now : ℕ) (self : Recipient Name) : Recipient Name :=
  if self.isExpired created now then
    match self.status with
    | .temporaryFailure error => { self with status := .permanentFailure error }
    | .scheduled => { self with
        status := .permanentFailure "Message expired without any delivery attempts made." }
    | _ => self
  else self

/-- What `build_dsn` does with a recipient, and the notification. -/
def report (now : ℕ) (self : Recipient Name) : Recipient Name × Option DsnKind :=
  if self.isDsnSent || self.notifyNever then (self, none)
  else match self.status with
    | .completed _ =>
      ({ self with isDsnSent := true }, if self.notifySuccess then some .success else none)
    | .permanentFailure _ =>
      ({ self with isDsnSent := true }, if self.notifyFailure then some .failure else none)
    | .temporaryFailure _ | .scheduled =>
      (self, if self.notify.due ≤ now ∧ self.notifyDelay then some .delay else none)

/-- What `handle_double_bounce` does with a recipient. -/
def doubleBounce (created now : ℕ) (self : Recipient Name) : Recipient Name :=
  let isSent := match self.status with
    | .permanentFailure _ => self.isDsnSent || !self.notifyNever
    | _ => self.isDsnSent
  if self.notify.due ≤ now then
    { self with
      isDsnSent := isSent
      notify.due := ((self.expirationTime created).map (· + 10)).getD never }
  else { self with isDsnSent := isSent }

variable (strategy : Strategy Name)

/-- What `update_next_dsn` does with a recipient. -/
def updateNextDsn (now : ℕ) (self : Recipient Name) : Recipient Name :=
  if self.status.isPending ∧ self.notify.due ≤ now then
    match (strategy self).notify[self.notify.inner + 1]? with
    | some next => { self with notify := ⟨now + next, self.notify.inner + 1⟩ }
    | none => { self with notify.due := never }
  else self

/-- `set_rcpt_status`. -/
def setStatus (now : ℕ) (status : Status) (self : Recipient Name) : Recipient Name :=
  let self := { self with status }
  if status.isPending then
    let queue := strategy self
    { self with
      retry := ⟨now + queue.retry.getD (min self.retry.inner (queue.retry.length - 1)) 0,
        self.retry.inner + 1⟩
      expires := queue.expiry
      queue := queue.virtualQueue }
  else self

/-- `set_rcpt_rate_limit`. -/
def setRateLimit (retryAt : ℕ) (self : Recipient Name) : Recipient Name :=
  { self with retry.due := retryAt, status := .temporaryFailure "localhost: rate limited" }

/-- What `send_dsn` does with a recipient. -/
def sendDsn (returnPath : String) (created now : ℕ)
    (strategy : Strategy Name) (self : Recipient Name) : Recipient Name :=
  (if returnPath = "" then self.doubleBounce created now else (self.report now).1).updateNextDsn
    strategy now

end Recipient

/-- `send_dsn`, with the positions of the recipients notified. -/
def Message.sendDsn (now : ℕ) (strategy : Strategy Name)
    (self : Message Name) : Message Name × List (ℕ × DsnKind) :=
  ({ self with recipients :=
      self.recipients.map (·.sendDsn self.returnPath self.created now strategy) },
    if self.returnPath = "" then []
    else self.recipients.zipIdx.filterMap fun (rcpt, idx) => (rcpt.report now).2.map (idx, ·))

/-! ## Workers -/

/-- The result of an attempt for a recipient: its status, or when to retry. -/
inductive DeliveryResult where
  | status (rcptIdx : ℕ) (status : Status)
  | rateLimited (rcptIdx retryAt : ℕ)

/-- The recipient that a result is for. -/
def DeliveryResult.rcptIdx : DeliveryResult → ℕ
  | status rcptIdx _ | rateLimited rcptIdx _ => rcptIdx

namespace Recipient

variable (now : ℕ) (strategy : Strategy Name)

def setResult (self : Recipient Name) : DeliveryResult → Recipient Name
  | .status _ status => self.setStatus strategy now status
  | .rateLimited _ retryAt => self.setRateLimit retryAt

/-- The worker of the queue delivers to the recipient. -/
def isRouted (queueName : Name) (self : Recipient Name) : Bool :=
  self.status.isPending && decide (self.retry.due ≤ now ∧ self.queue = queueName)

end Recipient

/-- The results of an attempt are applied one after the other; a host may reject a recipient and
    then fail. -/
def Message.applyResults (queueName : Name) (now : ℕ)
    (strategy : Strategy Name) (results : List DeliveryResult)
    (self : Message Name) : Message Name :=
  { self with recipients := results.foldl (fun recipients result =>
      if self.recipients[result.rcptIdx]?.any (·.isRouted now queueName) then
        recipients.modify result.rcptIdx (·.setResult now strategy result)
      else recipients) self.recipients }

/-- What a worker has done. -/
inductive Phase where
  | read
  | checked
  | attempted
  deriving DecidableEq

/-- What a worker does with its copy of the message. -/
inductive Work (Name : Type) where
  | check (now : ℕ) (strategy : Strategy Name)
  | throttle (now retryAt : ℕ)
  | attempt (now : ℕ) (strategy : Strategy Name)
      (results : List DeliveryResult)

namespace Work

/-- When it is done. -/
def phase : Work Name → Phase
  | check .. => .read
  | throttle .. | attempt .. => .checked

/-- What has been done then. -/
def nextPhase : Work Name → Phase
  | check .. => .checked
  | throttle .. | attempt .. => .attempted

/-- The parts of `deliver_task`: `has_pending_delivery` marks what has expired, and notifications
    are sent; the sender is throttled; or there is an attempt, if a recipient of the queue is due,
    with notifications again. -/
def run (queueName : Name) (message : Message Name) :
    Work Name → Message Name × List (ℕ × DsnKind)
  | check now strategy =>
    let recipients := message.recipients.map (Recipient.expire message.created now)
    { message with recipients }.sendDsn now strategy
  | throttle now retryAt =>
    ({ message with recipients := message.recipients.map fun rcpt =>
        if rcpt.isRouted now queueName then rcpt.setRateLimit retryAt else rcpt }, [])
  | attempt now strategy results =>
    if message.recipients.any (·.isRouted now queueName) then
      (message.applyResults queueName now strategy results).sendDsn now strategy
    else (message, [])

end Work

/-- A worker, with the event it has been started for. -/
structure Worker (Name : Type) where
  due : ℕ
  phase : Phase
  wrapper : MessageWrapper Name

/-- A worker reads the message, works on it, and saves or removes it. -/
inductive WorkerStep (Name : Type) where
  | start (queueName : Name) (due : ℕ)
  | work (queueName : Name) (work : Work Name)
  | save (queueName : Name)

/-- All that a worker does. -/
def WorkerStep.all (queueName : Name) (due : ℕ) (works : List (Work Name)) :
    List (WorkerStep Name) :=
  start queueName due :: works.map (work queueName) ++ [save queueName]

/-- The store, the workers, of which a lock allows one per queue, and the notifications sent. -/
structure Spool (Name : Type) where
  store : Store Name
  workers : Name → Option (Worker Name)
  notified : List (ℕ × DsnKind)

/-- The end of `deliver_task`: a message with pending recipients is saved. A save that fails changes
    nothing. -/
def Store.finish (self : Store Name) (worker : Worker Name) : Store Name :=
  if worker.wrapper.message.recipients.any (·.status.isPending) then
    (self.saveChanges worker.wrapper worker.due).getD self
  else self.remove worker.wrapper worker.due

/-- A worker after some work. -/
def Worker.work (self : Worker Name) (work : Work Name) : Worker Name where
  due := self.due
  phase := work.nextPhase
  wrapper := { self.wrapper with message := (work.run self.wrapper.queueName self.wrapper.message).1 }

/-- A step of a worker. -/
def Spool.step (self : Spool Name) : WorkerStep Name → Option (Spool Name)
  | .start queueName due =>
    match self.workers queueName, self.store.message with
    | none, some message =>
      let worker : Worker Name := ⟨due, .read, .new message queueName⟩
      some { self with workers := update self.workers queueName (some worker) }
    | _, _ => none
  | .work queueName work =>
    match self.workers queueName with
    | some worker =>
      if worker.phase = work.phase then
        some { self with
          workers := update self.workers queueName (some (worker.work work))
          notified := self.notified ++ (work.run queueName worker.wrapper.message).2 }
      else none
    | none => none
  | .save queueName =>
    match self.workers queueName with
    | some worker =>
      if worker.phase = .attempted then
        some { self with
          store := self.store.finish worker
          workers := update self.workers queueName none }
      else none
    | none => none

/-- The workers of a message that has been queued. -/
def deliveries : Lib.Interleaving.System (Spool Name) (WorkerStep Name) where
  Initial s := s = ⟨.queue message, fun _ => none, []⟩
  step := Spool.step

namespace Spool

variable {s s' : Spool Name} {queueName : Name}

/-- A start reads the stored message. -/
theorem step_start {due : ℕ} (h : s.step (.start queueName due) = some s') :
    ∃ message, s.workers queueName = none ∧ s.store.message = some message ∧
      s' = ⟨s.store, update s.workers queueName
        (some ⟨due, .read, .new message queueName⟩), s.notified⟩ := by
  rw [step] at h
  cases hworker : s.workers queueName with
  | some worker => simp [hworker] at h
  | none =>
    cases hmessage : s.store.message with
    | none => simp [hmessage] at h
    | some message =>
      simp only [hworker, hmessage, some.injEq] at h
      exact ⟨message, rfl, rfl, h.symm⟩

theorem step_work {work : Work Name} (h : s.step (.work queueName work) = some s') :
    ∃ worker, s.workers queueName = some worker ∧
      s' = ⟨s.store, update s.workers queueName (some (worker.work work)),
        s.notified ++ (work.run queueName worker.wrapper.message).2⟩ := by
  rw [step] at h
  cases hworker : s.workers queueName with
  | none => simp [hworker] at h
  | some worker =>
    simp only [hworker, ite_none_right_eq_some, some.injEq] at h
    exact ⟨worker, rfl, h.2.symm⟩

theorem step_save (h : s.step (.save queueName) = some s') :
    ∃ worker, s.workers queueName = some worker ∧
      s' = ⟨s.store.finish worker, update s.workers queueName none, s.notified⟩ := by
  rw [step] at h
  cases hworker : s.workers queueName with
  | none => simp [hworker] at h
  | some worker =>
    simp only [hworker, ite_none_right_eq_some, some.injEq] at h
    exact ⟨worker, rfl, h.2.symm⟩

end Spool

end Model

/-! ## What a worker does with a recipient -/

/-- The number of failure and success notifications for a recipient. -/
def finals (idx : ℕ) (notified : List (ℕ × DsnKind)) : ℕ :=
  notified.countP fun (rcptIdx, kind) => rcptIdx = idx ∧ kind ≠ .delay

namespace Recipient

/-- Nothing is attempted any more. -/
def IsDone (self : Recipient Name) : Prop :=
  self.status.isPending = false

/-- Neither a failure nor a success is reported any more. -/
def IsSilent (returnPath : String) (self : Recipient Name) : Prop :=
  returnPath = "" ∨ self.isDsnSent = true ∨ self.notifyNever = true

variable {rcpt : Recipient Name} {created now : ℕ} {strategy : Strategy Name}

theorem exists_expire : ∃ status, rcpt.expire created now = { rcpt with status } ∧
    (rcpt.IsDone ∨ rcpt.isExpired created now = false → status = rcpt.status) := by
  rw [expire, IsDone]
  split_ifs with hexpired
  · cases hstatus : rcpt.status with
    | scheduled => exact ⟨_, rfl, by simp [Status.isPending, hexpired]⟩
    | temporaryFailure error => exact ⟨_, rfl, by simp [Status.isPending, hexpired]⟩
    | completed response => exact ⟨rcpt.status, rfl, fun _ => hstatus⟩
    | permanentFailure error => exact ⟨rcpt.status, rfl, fun _ => hstatus⟩
  · exact ⟨rcpt.status, rfl, fun _ => rfl⟩

theorem exists_updateNextDsn : ∃ notify, rcpt.updateNextDsn strategy now = { rcpt with notify } := by
  rw [updateNextDsn]
  split_ifs
  · cases (strategy rcpt).notify[rcpt.notify.inner + 1]? <;> exact ⟨_, rfl⟩
  · exact ⟨rcpt.notify, rfl⟩

/-- A report changes only whether there has been one. -/
theorem exists_report : ∃ isDsnSent, (rcpt.report now).1 = { rcpt with isDsnSent } ∧
    (rcpt.isDsnSent = true → isDsnSent = true) ∧
    (rcpt.IsDone → isDsnSent = true ∨ rcpt.notifyNever = true) := by
  by_cases hsilent : (rcpt.isDsnSent || rcpt.notifyNever) = true
  · exact ⟨rcpt.isDsnSent, by rw [report, if_pos hsilent], id, fun _ => by simpa using hsilent⟩
  rw [report, if_neg hsilent, IsDone]
  split
  · exact ⟨true, rfl, fun _ => rfl, fun _ => .inl rfl⟩
  · exact ⟨true, rfl, fun _ => rfl, fun _ => .inl rfl⟩
  all_goals
    rename_i hstatus
    exact ⟨rcpt.isDsnSent, rfl, id, by simp [hstatus, Status.isPending]⟩

/-- What is done is reported, unless there is nobody to report it to. -/
theorem exists_sendDsn (returnPath : String) : ∃ isDsnSent notify,
    rcpt.sendDsn returnPath created now strategy = { rcpt with isDsnSent, notify } ∧
      (rcpt.isDsnSent = true → isDsnSent = true) ∧
      (rcpt.IsDone → returnPath = "" ∨ isDsnSent = true ∨ rcpt.notifyNever = true) := by
  have hupdate (other : Recipient Name) := @exists_updateNextDsn _ other now strategy
  rw [sendDsn]
  split_ifs with hpath
  · obtain ⟨notify, hnotify⟩ := hupdate (rcpt.doubleBounce created now)
    refine ⟨(rcpt.doubleBounce created now).isDsnSent, notify, ?_, ?_, fun _ => .inl hpath⟩
    · rw [hnotify, doubleBounce]
      split_ifs <;> rfl
    · rw [doubleBounce]
      cases rcpt.status <;> split_ifs <;> simp +contextual
  · obtain ⟨notify, hnotify⟩ := hupdate (rcpt.report now).1
    obtain ⟨isDsnSent, hreport, hsent, hdone⟩ := @exists_report _ rcpt now
    exact ⟨isDsnSent, notify, by rw [hnotify, hreport], hsent, fun h => .inr (hdone h)⟩

/-- Only what is done and has not been reported is. -/
theorem isDone_of_report {kind : DsnKind} (h : (rcpt.report now).2 = some kind)
    (hkind : kind ≠ .delay) : rcpt.IsDone ∧ ¬rcpt.isDsnSent = true ∧ ¬rcpt.notifyNever = true := by
  rw [report] at h
  by_cases hsilent : (rcpt.isDsnSent || rcpt.notifyNever) = true
  · rw [if_pos hsilent] at h
    cases h
  rw [Bool.or_eq_true, not_or] at hsilent
  refine ⟨?_, hsilent⟩
  rw [IsDone]
  cases hstatus : rcpt.status with
  | completed | permanentFailure => rfl
  | scheduled | temporaryFailure =>
    rw [hstatus] at h
    dsimp only at h
    split_ifs at h
    exact absurd (some.inj h).symm hkind

/-- The strategy leaves a recipient in the queue, whatever the results are. -/
def StaysIn (queueName : Name) (strategy : Strategy Name) (rcpt : Recipient Name) : Prop :=
  ∀ version : Recipient Name, version.address = rcpt.address → version.queue = queueName →
    (strategy version).virtualQueue = queueName

/-- The results of an attempt for a recipient. -/
theorem exists_setResult (queueName : Name) (results : List DeliveryResult) :
    let new := results.foldl (fun rcpt result => rcpt.setResult now strategy result) rcpt
    new.isDsnSent = rcpt.isDsnSent ∧ new.notifyNever = rcpt.notifyNever ∧
      (rcpt.StaysIn queueName strategy → rcpt.queue = queueName → new.queue = queueName) := by
  induction results generalizing rcpt with
  | nil => exact ⟨rfl, rfl, fun _ hqueue => hqueue⟩
  | cons result results ih =>
    obtain ⟨hsent, hnever, hqueue⟩ := @ih (rcpt.setResult now strategy result)
    obtain ⟨haddress, hsent', hnever', hqueue'⟩ :
        (rcpt.setResult now strategy result).address = rcpt.address ∧
        (rcpt.setResult now strategy result).isDsnSent = rcpt.isDsnSent ∧
        (rcpt.setResult now strategy result).notifyNever = rcpt.notifyNever ∧
        (rcpt.StaysIn queueName strategy → rcpt.queue = queueName →
          (rcpt.setResult now strategy result).queue = queueName) := by
      cases result with
      | status rcptIdx status =>
        rw [setResult, setStatus]
        cases hpending : status.isPending with
        -- a status that is pending comes with a new queue
        | true => exact ⟨rfl, rfl, rfl, fun hstays hqueue => hstays _ rfl hqueue⟩
        | false => exact ⟨rfl, rfl, rfl, fun _ hqueue => hqueue⟩
      | rateLimited rcptIdx retryAt => exact ⟨rfl, rfl, rfl, fun _ hqueue => hqueue⟩
    refine ⟨hsent.trans hsent', hnever.trans hnever', fun hstays h => hqueue ?_ (hqueue' hstays h)⟩
    rwa [StaysIn, haddress]

end Recipient

theorem finals_append (idx : ℕ) (notified notified' : List (ℕ × DsnKind)) :
    finals idx (notified ++ notified') = finals idx notified + finals idx notified' :=
  countP_append

/-- At most one notification is sent for a recipient. -/
theorem finals_zipIdx (recipients : List (Recipient Name)) (now start idx : ℕ) :
    finals idx ((recipients.zipIdx start).filterMap fun (rcpt, pos) =>
        (rcpt.report now).2.map (pos, ·)) =
      if start ≤ idx ∧ recipients[idx - start]?.any (fun rcpt =>
        (rcpt.report now).2.any (· ≠ .delay)) then 1 else 0 := by
  induction recipients generalizing start with
  | nil => simp [finals]
  | cons rcpt recipients ih =>
    have hcons : finals idx (((rcpt :: recipients).zipIdx start).filterMap fun (rcpt, pos) =>
        (rcpt.report now).2.map (pos, ·)) =
          finals idx ((recipients.zipIdx (start + 1)).filterMap fun (rcpt, pos) =>
            (rcpt.report now).2.map (pos, ·)) +
          if start = idx ∧ (rcpt.report now).2.any (· ≠ .delay) then 1 else 0 := by
      cases hreport : (rcpt.report now).2 with
      | none => simp [hreport]
      | some kind => simp [hreport, finals, countP_cons]
    rw [hcons, ih (start + 1)]
    rcases Nat.lt_trichotomy start idx with hlt | rfl | hgt
    · rw [show idx - start = idx - (start + 1) + 1 by omega]
      simp [Nat.ne_of_lt hlt, Nat.le_of_lt hlt, Nat.succ_le_of_lt hlt]
    · simp
    · simp [Nat.ne_of_gt hgt, Nat.not_le_of_gt hgt, show ¬start + 1 ≤ idx by omega]

section Work

variable {message : Message Name} {queueName : Name} {now idx : ℕ}
  {strategy : Strategy Name} {work : Work Name} {old mid new : Recipient Name}

namespace Work

/-- If the recipient is attempted, it stays in the queue. -/
def Keeps (queueName : Name) (rcpt : Recipient Name) : Work Name → Prop
  | attempt _ strategy _ => rcpt.StaysIn queueName strategy
  | check .. | throttle .. => True

/-- The recipient is not found to have expired. -/
def Spares (created : ℕ) (rcpt : Recipient Name) : Work Name → Prop
  | check now _ => rcpt.isExpired created now = false
  | throttle .. | attempt .. => True

end Work

/-- What a worker does with a recipient before it sends notifications. -/
structure Changed (message : Message Name) (queueName : Name) (work : Work Name)
    (old new : Recipient Name) : Prop where
  isDsnSent : new.isDsnSent = old.isDsnSent
  notifyNever : new.notifyNever = old.notifyNever
  done : old.IsDone → new = old
  queue : (old.queue = queueName → work.Keeps queueName old) → new.queue = old.queue
  other : old.queue ≠ queueName → work.Spares message.created old → new = old

/-- What a worker does with a recipient, and how often it reports that it is done. -/
structure Worked (message : Message Name) (queueName : Name) (work : Work Name)
    (old new : Recipient Name) (reports : ℕ) : Prop where
  done : old.IsDone → new.IsDone
  silent : old.IsSilent message.returnPath → new.IsSilent message.returnPath
  settled : new.IsDone → old.IsDone ∨ new.IsSilent message.returnPath
  queue : (old.queue = queueName → work.Keeps queueName old) → new.queue = old.queue
  other : old.queue ≠ queueName → work.Spares message.created old → new.IsDone → old.IsDone
  once : reports ≤ 1
  reported : reports ≠ 0 → new.IsDone ∧ ¬old.IsSilent message.returnPath

theorem Changed.worked (h : Changed message queueName work old new)
    (hnew : new.IsDone → old.IsDone) : Worked message queueName work old new 0 where
  done hdone := by rwa [h.done hdone]
  silent hsilent := by rwa [Recipient.IsSilent, h.isDsnSent, h.notifyNever]
  settled hdone := .inl (hnew hdone)
  queue := h.queue
  other hne hspares hdone := by rwa [← h.other hne hspares]
  once := Nat.zero_le 1
  reported := nofun

/-- Notifications are sent after a change. -/
theorem Changed.sendDsn (h : Changed message queueName work old mid) (changed : Message Name)
    (hmid : changed.recipients[idx]? = some mid) (hpath : changed.returnPath = message.returnPath) :
    Worked message queueName work old (mid.sendDsn changed.returnPath changed.created now strategy)
      (finals idx (changed.sendDsn now strategy).2) := by
  obtain ⟨isDsnSent, notify, heq, hsent, hdone⟩ := @Recipient.exists_sendDsn _ mid changed.created
    now strategy changed.returnPath
  rw [hpath] at hdone heq
  rw [hpath, heq]
  -- a report is final only for a status that is, and goes to a sender
  have hreported (hreports : finals idx (changed.sendDsn now strategy).2 ≠ 0) :
      message.returnPath ≠ "" ∧ ∃ kind, (mid.report now).2 = some kind ∧ kind ≠ .delay := by
    rw [Message.sendDsn, hpath] at hreports
    split_ifs at hreports with hempty
    · exact absurd rfl hreports
    · refine ⟨hempty, ?_⟩
      rw [finals_zipIdx] at hreports
      simpa [hmid, Option.any_eq_true] using hreports
  refine ⟨fun hold => ?_, fun hold => ?_, fun hnew => .inr (hdone hnew), h.queue, ?_, ?_, ?_⟩
  · rwa [h.done hold]
  · rw [Recipient.IsSilent, ← h.isDsnSent, ← h.notifyNever] at hold
    exact hold.imp_right (Or.imp_left hsent)
  · intro hne hspares hnew
    rwa [← h.other hne hspares]
  · rw [Message.sendDsn]
    split_ifs
    · exact Nat.zero_le 1
    · rw [finals_zipIdx]
      split_ifs <;> decide
  · intro hreports
    obtain ⟨hempty, kind, hkind, hfinal⟩ := hreported hreports
    obtain ⟨hdone, hsilent⟩ := Recipient.isDone_of_report hkind hfinal
    rw [Recipient.IsSilent, ← h.isDsnSent, ← h.notifyNever]
    exact ⟨hdone, not_or.mpr ⟨hempty, not_or.mpr hsilent⟩⟩

variable [DecidableEq Name] (results : List DeliveryResult)

/-- The results are applied to the recipients of the queue that are due. -/
theorem recipients_applyResults :
    (message.applyResults queueName now strategy results).recipients[idx]? =
      message.recipients[idx]?.map fun rcpt => if rcpt.isRouted now queueName then
        (results.filter (·.rcptIdx = idx)).foldl (·.setResult now strategy ·) rcpt else rcpt := by
  induction results using reverseRecOn with
  | nil => simp [Message.applyResults]
  | append_singleton results result ih =>
    simp only [Message.applyResults, foldl_append, foldl_cons, filter_append] at ih ⊢
    by_cases hidx : result.rcptIdx = idx
    · subst hidx
      cases hrcpt : message.recipients[result.rcptIdx]? with
      | none =>
        rw [hrcpt] at ih
        simpa using ih
      | some rcpt => cases hrouted : rcpt.isRouted now queueName <;> simp_all
    · rw [filter_cons_of_neg (by simpa using hidx), filter_nil]
      simp only [foldl_nil, ← ih]
      split_ifs
      · exact getElem?_modify_ne _ _ hidx
      · rfl

theorem length_applyResults :
    (message.applyResults queueName now strategy results).recipients.length =
      message.recipients.length := by
  refine foldlRecOn results _ (motive := fun recipients =>
    length recipients = message.recipients.length) rfl fun _ hlength result _ => ?_
  split_ifs
  · rw [length_modify, hlength]
  · exact hlength

theorem changed_of_routed {rcpt : Recipient Name} (h : rcpt.isRouted now queueName = true)
    (hsent : new.isDsnSent = rcpt.isDsnSent) (hnever : new.notifyNever = rcpt.notifyNever)
    (hqueue : (rcpt.queue = queueName → work.Keeps queueName rcpt) → new.queue = rcpt.queue) :
    Changed message queueName work rcpt new := by
  rw [Recipient.isRouted, Bool.and_eq_true, decide_eq_true_eq] at h
  refine ⟨hsent, hnever, fun hdone => ?_, hqueue, fun hne => absurd h.2.2 hne⟩
  rw [Recipient.IsDone, h.1] at hdone
  cases hdone

namespace Work

/-- What any work does to a recipient, and what is reported of it. -/
theorem worked (hold : message.recipients[idx]? = some old)
    (hnew : (work.run queueName message).1.recipients[idx]? = some new) :
    Worked message queueName work old new (finals idx (work.run queueName message).2) := by
  have hsame : Changed message queueName work old old :=
    ⟨rfl, rfl, fun _ => rfl, fun _ => rfl, fun _ _ => rfl⟩
  cases work with
  | check now strategy =>
    -- what has expired is marked first, so that it is reported in the same go
    obtain ⟨status, hexpire, hstatus⟩ := @Recipient.exists_expire _ old message.created now
    have hmid : (message.recipients.map (Recipient.expire message.created now))[idx]? =
        some { old with status } := by
      rw [getElem?_map, hold, map_some, hexpire]
    have hchanged : Changed message queueName (.check now strategy) old { old with status } :=
      ⟨rfl, rfl, fun hdone => by rw [hstatus (.inl hdone)], fun _ => rfl,
        fun _ hspares => by rw [hstatus (.inr hspares)]⟩
    simp only [run, Message.sendDsn, getElem?_map, hmid, map_some, some.injEq] at hnew
    rw [← hnew]
    exact hchanged.sendDsn { message with recipients := _ } hmid rfl
  | throttle now retryAt =>
    simp only [run, getElem?_map, hold, map_some, some.injEq] at hnew
    rw [← hnew]
    split_ifs with hrouted
    · have hchanged : Changed message queueName (.throttle now retryAt) old
          (old.setRateLimit retryAt) := changed_of_routed hrouted rfl rfl fun _ => rfl
      exact hchanged.worked fun hdone => by cases hdone
    · exact hsame.worked id
  | attempt now strategy results =>
    rw [run] at hnew ⊢
    -- results are for the recipients that were routed, the others keep what they had
    split_ifs at hnew ⊢ with hany
    · have hmid : (message.applyResults queueName now strategy results).recipients[idx]? = _ :=
        recipients_applyResults results
      rw [hold] at hmid
      simp only [Message.sendDsn, getElem?_map, hmid, map_some, some.injEq] at hnew
      rw [← hnew]
      refine Changed.sendDsn ?_ _ hmid rfl
      split_ifs with hrouted
      · obtain ⟨hsent, hnever, hqueue⟩ := @Recipient.exists_setResult _ old now strategy queueName
          (results.filter (·.rcptIdx = idx))
        refine changed_of_routed hrouted hsent hnever fun hkeeps => ?_
        rw [Recipient.isRouted, Bool.and_eq_true, decide_eq_true_eq] at hrouted
        have hrcpt : old.queue = queueName := hrouted.2.2
        rw [hrcpt]
        exact hqueue (hkeeps hrcpt) hrcpt
      · exact hsame
    · rw [hold] at hnew
      rw [← some.inj hnew]
      exact hsame.worked id

/-- Only the recipients change. -/
theorem exists_run (work : Work Name) : ∃ recipients,
    (work.run queueName message).1 = { message with recipients } ∧
      recipients.length = message.recipients.length := by
  cases work with
  | check now strategy => exact ⟨_, rfl, by simp⟩
  | throttle now retryAt => exact ⟨_, rfl, by simp⟩
  | attempt now strategy results =>
    rw [run]
    split_ifs
    · exact ⟨_, rfl, (length_map _).trans (length_applyResults results)⟩
    · exact ⟨message.recipients, rfl, rfl⟩

theorem exists_worked (work : Work Name) (h : idx < message.recipients.length) :
    ∃ old new, message.recipients[idx]? = some old ∧
      (work.run queueName message).1.recipients[idx]? = some new ∧
      Worked message queueName work old new (finals idx (work.run queueName message).2) := by
  obtain ⟨recipients, hrun, hlength⟩ := @exists_run _ message queueName _ work
  have hold := getElem?_eq_getElem h
  have hnew : (work.run queueName message).1.recipients[idx]? = some recipients[idx] := by
    rw [hrun, getElem?_eq_getElem]
  exact ⟨_, _, hold, hnew, worked hold hnew⟩

/-- Only recipients of the message are reported. -/
theorem lt_of_finals (h : finals idx (work.run queueName message).2 ≠ 0) :
    idx < message.recipients.length := by
  have hsend (changed : Message Name) {now : ℕ} {strategy : Strategy Name}
      (h : finals idx (changed.sendDsn now strategy).2 ≠ 0) : idx < changed.recipients.length := by
    rw [Message.sendDsn] at h
    split_ifs at h
    · exact absurd rfl h
    · by_contra hle
      rw [finals_zipIdx, Nat.sub_zero, getElem?_eq_none (Nat.le_of_not_lt hle)] at h
      exact h (if_neg fun hany => Bool.false_ne_true hany.2)
  cases work with
  | check now strategy => exact (hsend _ h).trans_eq (length_map _)
  | throttle now retryAt => exact absurd rfl h
  | attempt now strategy results =>
    rw [run] at h
    split_ifs at h
    · exact (hsend _ h).trans_eq (length_applyResults results)
    · exact absurd rfl h

end Work

end Work

end Inworkspace.Queue
