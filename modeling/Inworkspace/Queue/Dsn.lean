import Inworkspace.Queue.Progress

/-!
# Notifications

A recipient that is done is reported at most once by a worker, which marks it. But a worker looks at
the recipients of all queues, and if there are others it saves only those of its own: what it
has marked in another queue is reported again by the worker of that queue.

* `finals_le_of_run`: however the workers interleave, each recipient is reported at most once, if
  no worker finds that a recipient of another queue has expired, and recipients stay in their
  queues (`Separate`);
* `reported_twice`: a worker finds that a recipient of another queue has expired.

The record and the copies of the workers agree on who may still report a recipient (`Copied`): the
worker of its queue, as long as it has not been marked in the copy of this worker.
-/

namespace Inworkspace.Queue

open Lib.Interleaving Function Store List Option

variable {Name : Type}

/-- A worker leaves the recipients of its queue there, and finds none of another queue expired. -/
def Separate (s : Spool Name) : WorkerStep Name → Prop
  | .work queueName work => ∀ worker ∈ s.workers queueName,
      ∀ rcpt ∈ worker.wrapper.message.recipients,
        (rcpt.queue = queueName → work.Keeps queueName rcpt) ∧
        (rcpt.queue ≠ queueName → ¬rcpt.IsDone → work.Spares worker.wrapper.message.created rcpt)
  | .start .. | .save _ => True

/-- What the record has of a recipient. -/
def Store.rcptAt (self : Store Name) (idx : ℕ) : Option (Recipient Name) :=
  self.message.bind (·.recipients[idx]?)

/-- The message is a version of the one that has been queued. -/
structure IsVersion (queued message : Message Name) : Prop where
  returnPath : message.returnPath = queued.returnPath
  blobHash : message.blobHash = queued.blobHash
  length : message.recipients.length = queued.recipients.length

/-- The copy of a recipient that a worker has: up to date if it is of its queue, and left alone if
    not. -/
structure Copied (returnPath : String) (queueName : Name) (isMultiQueue : Bool)
    (stored : Option (Recipient Name)) (copy : Recipient Name) : Prop where
  silent : copy.IsDone → copy.IsSilent returnPath
  own : copy.queue = queueName → ∀ rcpt ∈ stored, rcpt.queue = queueName ∧
    (rcpt.IsDone → copy.IsDone) ∧ (rcpt.IsSilent returnPath → copy.IsSilent returnPath)
  gone : copy.queue = queueName → stored = none → copy.IsDone
  other : copy.queue ≠ queueName → ¬copy.IsDone ∧ isMultiQueue = true ∨
    copy.IsDone ∧ ∀ rcpt ∈ stored, rcpt.IsDone ∧ rcpt.queue = copy.queue

/-- The recipient is not reported any more, as the record or the copy of its worker says. -/
def Settled (returnPath : String) (s : Spool Name) (idx : ℕ) : Prop :=
  ∀ rcpt ∈ s.store.rcptAt idx, rcpt.IsSilent returnPath ∨
    ∃ worker copy, s.workers rcpt.queue = some worker ∧
      worker.wrapper.message.recipients[idx]? = some copy ∧
      copy.queue = rcpt.queue ∧ copy.IsSilent returnPath

/-- The worker of a queue, with its copies. -/
structure Active (queued : Message Name) (store : Store Name) (name : Name) (worker : Worker Name) :
    Prop where
  queueName : worker.wrapper.queueName = name
  version : IsVersion queued worker.wrapper.message
  copied : ∀ idx copy, worker.wrapper.message.recipients[idx]? = some copy →
    Copied queued.returnPath name worker.wrapper.isMultiQueue (store.rcptAt idx) copy

/-- What holds throughout. -/
structure Consistent (queued : Message Name) (s : Spool Name) : Prop where
  stored : ∀ message ∈ s.store.message, IsVersion queued message
  silent : ∀ idx, ∀ rcpt ∈ s.store.rcptAt idx, rcpt.IsDone → rcpt.IsSilent queued.returnPath
  active : ∀ name, ∀ worker ∈ s.workers name, Active queued s.store name worker
  once : ∀ idx, finals idx s.notified ≤ 1
  settled : ∀ idx, finals idx s.notified ≠ 0 → Settled queued.returnPath s idx

variable {queued : Message Name} {s : Spool Name} {queueName : Name} {worker : Worker Name}
  {message : Message Name}

/-- A copy after some work. -/
theorem Copied.work {isMultiQueue : Bool} {stored : Option (Recipient Name)} {work : Work Name}
    {old new : Recipient Name} {reports : ℕ}
    (h : Copied message.returnPath queueName isMultiQueue stored old)
    (hworked : Worked message queueName work old new reports)
    (hkeeps : old.queue = queueName → work.Keeps queueName old)
    (hspares : old.queue ≠ queueName → ¬old.IsDone → work.Spares message.created old) :
    Copied message.returnPath queueName isMultiQueue stored new := by
  have hqueue := hworked.queue hkeeps
  refine ⟨fun hnew => (hworked.settled hnew).elim (hworked.silent ∘ h.silent) id, ?_, ?_, ?_⟩
  · intro hown rcpt hrcpt
    obtain ⟨hstored, hdone, hsilent⟩ := h.own (hqueue ▸ hown) rcpt hrcpt
    exact ⟨hstored, hworked.done ∘ hdone, hworked.silent ∘ hsilent⟩
  · exact fun hown hnone => hworked.done (h.gone (hqueue ▸ hown) hnone)
  · intro hother
    rw [hqueue] at hother ⊢
    rcases h.other hother with ⟨hpending, hmulti⟩ | ⟨hdone, hstored⟩
    · exact .inl ⟨hpending ∘ hworked.other hother (hspares hother hpending), hmulti⟩
    · exact .inr ⟨hworked.done hdone, hstored⟩

variable [DecidableEq Name]

theorem active_update {store : Store Name} {worker : Option (Worker Name)}
    (hworker : ∀ new ∈ worker, Active queued store queueName new)
    (hothers : ∀ name, name ≠ queueName → ∀ other ∈ s.workers name,
      Active queued store name other) :
    ∀ name, ∀ other ∈ update s.workers queueName worker name, Active queued store name other :=
  (forall_update_iff s.workers fun name new =>
    ∀ other ∈ new, Active queued store name other).mpr ⟨hworker, hothers⟩

/-- A worker that has read the record. -/
theorem Consistent.start (h : Consistent queued s) (due : ℕ) (hnone : s.workers queueName = none)
    (hmessage : s.store.message = some message) :
    Consistent queued ⟨s.store, update s.workers queueName
      (some ⟨due, .read, .new message queueName⟩), s.notified⟩ := by
  have hcopied (idx : ℕ) (copy : Recipient Name) (hcopy : message.recipients[idx]? = some copy) :
      Copied queued.returnPath queueName (MessageWrapper.new message queueName).isMultiQueue
        (s.store.rcptAt idx) copy := by
    have hstored : s.store.rcptAt idx = some copy := by rw [rcptAt, hmessage, bind_some, hcopy]
    rw [hstored]
    refine ⟨h.silent idx copy hstored, ?_, fun _ => nofun, fun hother => ?_⟩
    · rintro hown rcpt ⟨⟩
      exact ⟨hown, id, id⟩
    · by_cases hdone : copy.IsDone
      · refine .inr ⟨hdone, ?_⟩
        rintro rcpt ⟨⟩
        exact ⟨hdone, rfl⟩
      · refine .inl ⟨hdone, any_eq_true.mpr ⟨copy, mem_of_getElem? hcopy, ?_⟩⟩
        rw [Bool.and_eq_true, decide_eq_true_eq]
        exact ⟨Bool.not_eq_false _ ▸ hdone, hother⟩
  refine ⟨h.stored, h.silent, ?_, h.once, fun idx hfinal rcpt hrcpt => ?_⟩
  · refine active_update ?_ fun name _ => h.active name
    rintro worker ⟨⟩
    exact ⟨rfl, h.stored message hmessage, hcopied⟩
  · refine (h.settled idx hfinal rcpt hrcpt).imp_right fun ⟨worker, copy, hworker, hcopy⟩ => ?_
    -- the queue of this worker had none that could have settled it
    have hne : rcpt.queue ≠ queueName := fun heq => by
      rw [heq, hnone] at hworker
      cases hworker
    exact ⟨worker, copy, (update_of_ne hne _ _).trans hworker, hcopy⟩

/-- A worker has done some work. -/
theorem Consistent.work (h : Consistent queued s) {work : Work Name}
    (hworker : s.workers queueName = some worker) (hseparate : Separate s (.work queueName work)) :
    Consistent queued ⟨s.store, update s.workers queueName (some (worker.work work)),
      s.notified ++ (work.run queueName worker.wrapper.message).2⟩ := by
  obtain ⟨hname, hversion, hcopied⟩ := h.active queueName worker hworker
  have hrcpt {idx : ℕ} {rcpt : Recipient Name}
      (hold : worker.wrapper.message.recipients[idx]? = some rcpt) :=
    hseparate worker hworker rcpt (mem_of_getElem? hold)
  obtain ⟨recipients, hrun, hlength⟩ := @Work.exists_run _ worker.wrapper.message queueName _ work
  have hwork : (worker.work work).wrapper.message =
      (work.run queueName worker.wrapper.message).1 := by
    rw [Worker.work, hname]
  have hcopy (idx : ℕ) (hlt : idx < worker.wrapper.message.recipients.length) :
      ∃ old new, worker.wrapper.message.recipients[idx]? = some old ∧
        (worker.work work).wrapper.message.recipients[idx]? = some new ∧
        Worked worker.wrapper.message queueName work old new
          (finals idx (work.run queueName worker.wrapper.message).2) ∧
        Copied queued.returnPath queueName worker.wrapper.isMultiQueue (s.store.rcptAt idx) new := by
    obtain ⟨old, new, hold, hnew, hworked⟩ := @Work.exists_worked _ _ queueName _ _ work hlt
    refine ⟨old, new, hold, hwork ▸ hnew, hworked, ?_⟩
    rw [← hversion.returnPath] at hcopied ⊢
    exact (hcopied idx old hold).work hworked (hrcpt hold).1 (hrcpt hold).2
  -- a recipient that is reported is of this queue, and has not been marked in the copy before
  have hreport (idx : ℕ) (hfinal : finals idx (work.run queueName worker.wrapper.message).2 ≠ 0) :
      finals idx s.notified = 0 ∧ Settled queued.returnPath ⟨s.store,
        update s.workers queueName (some (worker.work work)), []⟩ idx := by
    obtain ⟨old, new, hold, hnew, hworked, hcopied'⟩ := hcopy idx (Work.lt_of_finals hfinal)
    obtain ⟨hdone, hsilent⟩ := hworked.reported hfinal
    rw [hversion.returnPath] at hsilent
    have hpending : ¬old.IsDone := hsilent ∘ (hcopied idx old hold).silent
    have hown : old.queue = queueName := by
      by_contra hother
      exact hpending (hworked.other hother ((hrcpt hold).2 hother hpending) hdone)
    constructor
    · by_contra hreported
      cases hstored : s.store.rcptAt idx with
      | none => exact hpending ((hcopied idx old hold).gone hown hstored)
      | some rcpt =>
        obtain ⟨hqueue, -, hmarked⟩ := (hcopied idx old hold).own hown rcpt hstored
        rcases h.settled idx hreported rcpt hstored with hrcpt | ⟨_, _, hself, hcopy, -, hcopied⟩
        · exact hsilent (hmarked hrcpt)
        rw [hqueue, hworker] at hself
        cases hself
        rw [hold] at hcopy
        cases hcopy
        exact hsilent hcopied
    · intro rcpt hstored
      have hqueue := ((hcopied idx old hold).own hown rcpt hstored).1
      refine .inr ⟨worker.work work, new, ?_, hnew, ?_, hcopied'.silent hdone⟩
      · exact hqueue ▸ update_self _ _ _
      · rw [hworked.queue (hrcpt hold).1, hown, hqueue]
  refine ⟨h.stored, h.silent, ?_, fun idx => ?_, fun idx hfinal rcpt hstored => ?_⟩
  · refine active_update ?_ fun name _ => h.active name
    rintro _ ⟨⟩
    refine ⟨hname, ?_, fun idx new hnew => ?_⟩
    · rw [hwork, hrun]
      exact ⟨hversion.returnPath, hversion.blobHash, hlength.trans hversion.length⟩
    · have hlt : idx < worker.wrapper.message.recipients.length := by
        rw [← hlength]
        rw [hwork, hrun] at hnew
        exact (List.getElem?_eq_some_iff.mp hnew).1
      obtain ⟨_, _, -, hsome, -, hcopied'⟩ := hcopy idx hlt
      cases hnew.symm.trans hsome
      exact hcopied'
  · rw [finals_append]
    by_cases hfinal : finals idx (work.run queueName worker.wrapper.message).2 = 0
    · rw [hfinal]
      exact h.once idx
    · obtain ⟨_, _, -, -, hworked, -⟩ := hcopy idx (Work.lt_of_finals hfinal)
      rw [(hreport idx hfinal).1, Nat.zero_add]
      exact hworked.once
  · by_cases hnew : finals idx (work.run queueName worker.wrapper.message).2 = 0
    · rw [finals_append, hnew] at hfinal
      refine (h.settled idx hfinal rcpt hstored).imp_right ?_
      rintro ⟨worker', copy, hworker', hold, hqueue, hsilent⟩
      by_cases hself : rcpt.queue = queueName
      · rw [hself, hworker] at hworker'
        cases hworker'
        obtain ⟨_, new, hsome, hnew, hworked, -⟩ := hcopy idx (List.getElem?_eq_some_iff.mp hold).1
        cases hold.symm.trans hsome
        refine ⟨worker.work work, new, hself ▸ update_self _ _ _, hnew, ?_, ?_⟩
        · rw [hworked.queue (hrcpt hold).1, hqueue]
        · rw [← hversion.returnPath] at hsilent ⊢
          exact hworked.silent hsilent
      · exact ⟨worker', copy, (update_of_ne hself _ _).trans hworker', hold, hqueue, hsilent⟩
    · exact (hreport idx hnew).2 rcpt hstored

/-- What a worker leaves. It removes the message only if all its copies are done; if not, each
    recipient is replaced by its copy, or left as it was if it is of another queue. -/
theorem Consistent.finish (h : Consistent queued s) (hworker : s.workers queueName = some worker) :
    (s.store.finish worker).message = none ∧ (s.store.message = none ∨
      ∀ copy ∈ worker.wrapper.message.recipients, copy.IsDone) ∨
    ∃ message, (s.store.finish worker).message = some message ∧ IsVersion queued message ∧
      ∀ idx rcpt, message.recipients[idx]? = some rcpt → ∃ old copy,
        s.store.rcptAt idx = some old ∧ worker.wrapper.message.recipients[idx]? = some copy ∧
        (rcpt = copy ∧ (copy.queue ≠ queueName → worker.wrapper.isMultiQueue = false) ∨
          rcpt = old ∧ copy.queue ≠ queueName) := by
  obtain ⟨hname, hversion, hcopied⟩ := h.active queueName worker hworker
  rw [Store.finish]
  split_ifs with hpending
  · cases hmessage : s.store.message with
    | none =>
      -- the copy that is pending is of another queue
      obtain ⟨copy, hcopy, hpending⟩ := any_eq_true.mp hpending
      obtain ⟨idx, hidx⟩ := mem_iff_getElem?.mp hcopy
      have hgone : s.store.rcptAt idx = none := by rw [rcptAt, hmessage, bind_none]
      have hdone : ¬copy.IsDone := Bool.ne_false_iff.mpr hpending
      have hmulti : worker.wrapper.isMultiQueue = true := by
        by_cases hown : copy.queue = queueName
        · exact absurd ((hcopied idx copy hidx).gone hown hgone) hdone
        · exact ((hcopied idx copy hidx).other hown).elim And.right fun h => absurd h.1 hdone
      simp [saveChanges, hmulti, hmessage]
    | some message =>
      have hstored := h.stored message hmessage
      have hlength := hstored.length.trans hversion.length.symm
      refine .inr ?_
      cases hmulti : worker.wrapper.isMultiQueue with
      | true =>
        have hsave : ((s.store.saveChanges worker.wrapper worker.due).getD s.store).message =
            let recipients := mergeRecipients worker.wrapper.queueName message.recipients
              worker.wrapper.message.recipients
            some { message with recipients } := by
          simp only [saveChanges, hmulti, hmessage, if_true]
          rw [if_pos ⟨hstored.blobHash.trans hversion.blobHash.symm, hlength⟩]
          rfl
        refine ⟨_, hsave, ⟨hstored.returnPath, hstored.blobHash, ?_⟩, ?_⟩
        · rw [mergeRecipients, length_zipWith, ← hlength, Nat.min_self, hstored.length]
        · intro idx rcpt hrcpt
          rw [mergeRecipients, getElem?_zipWith_eq_some] at hrcpt
          obtain ⟨old, copy, hold, hcopy, rfl⟩ := hrcpt
          refine ⟨old, copy, by rw [rcptAt, hmessage, bind_some, hold], hcopy, ?_⟩
          rw [hname]
          split_ifs with hown
          · exact .inl ⟨rfl, absurd hown⟩
          · exact .inr ⟨rfl, hown⟩
      | false =>
        refine ⟨worker.wrapper.message.releaseQuota.1, ?_,
          ⟨hversion.returnPath, hversion.blobHash, hversion.length⟩, fun idx rcpt hrcpt => ?_⟩
        · simp [saveChanges, hmulti]
        · have hlt : idx < message.recipients.length :=
            hlength ▸ (List.getElem?_eq_some_iff.mp hrcpt).1
          refine ⟨message.recipients[idx], rcpt, ?_, hrcpt, .inl ⟨rfl, fun _ => rfl⟩⟩
          rw [rcptAt, hmessage, bind_some, getElem?_eq_getElem hlt]
  · refine .inl ⟨rfl, .inr fun copy hcopy => ?_⟩
    rw [List.any_eq_true, not_exists] at hpending
    exact Bool.eq_false_iff.mpr fun h => hpending copy ⟨hcopy, h⟩

/-- The copy of another worker after the end of a worker. -/
theorem Copied.save {returnPath : String} {name : Name} {isMultiQueue isMultiQueue' : Bool}
    {old rcpt copy copy' : Recipient Name} (hne : name ≠ queueName)
    (h : Copied returnPath name isMultiQueue (some old) copy)
    (hself : Copied returnPath queueName isMultiQueue' (some old) copy')
    (hrcpt : rcpt = copy' ∧ (copy'.queue ≠ queueName → isMultiQueue' = false) ∨
      rcpt = old ∧ copy'.queue ≠ queueName) :
    Copied returnPath name isMultiQueue (some rcpt) copy := by
  obtain ⟨rfl, hsingle⟩ | ⟨rfl, -⟩ := hrcpt
  · -- the new recipient is in the queue of the old one, and is done if that is
    have hstored : rcpt.queue = old.queue ∧ (old.IsDone → rcpt.IsDone) ∧
        (rcpt.queue ≠ queueName → old.IsDone) := by
      by_cases hown : rcpt.queue = queueName
      · obtain ⟨hqueue, hdone, -⟩ := hself.own hown old rfl
        exact ⟨hown.trans hqueue.symm, hdone, absurd hown⟩
      rcases hself.other hown with ⟨-, hmulti⟩ | ⟨hdone, hold⟩
      · rw [hsingle hown] at hmulti
        cases hmulti
      · exact ⟨(hold old rfl).2.symm, fun _ => hdone, fun _ => (hold old rfl).1⟩
    refine ⟨h.silent, ?_, fun _ => nofun, fun hother => (h.other hother).imp_right ?_⟩
    · rintro hown _ ⟨⟩
      obtain ⟨hqueue, hdone, -⟩ := h.own hown old rfl
      have hold := hdone (hstored.2.2 (hstored.1.trans hqueue ▸ hne))
      exact ⟨hstored.1.trans hqueue, fun _ => hold, fun _ => h.silent hold⟩
    · rintro ⟨hdone, hold⟩
      refine ⟨hdone, ?_⟩
      rintro _ ⟨⟩
      exact ⟨hstored.2.1 (hold old rfl).1, hstored.1.trans (hold old rfl).2⟩
  · exact h

/-- A worker has come to its end. -/
theorem Consistent.save (h : Consistent queued s) (hworker : s.workers queueName = some worker) :
    Consistent queued ⟨s.store.finish worker, update s.workers queueName none, s.notified⟩ := by
  obtain ⟨-, hversion, hcopied⟩ := h.active queueName worker hworker
  rcases h.finish hworker with ⟨hgone, hdone⟩ | ⟨message, hmessage, hstored, hrcpts⟩
  · have hnone (idx : ℕ) : (s.store.finish worker).rcptAt idx = none := by
      rw [rcptAt, hgone, bind_none]
    refine ⟨fun message hmessage => ?_, fun idx rcpt hrcpt => ?_, active_update nofun ?_, h.once, ?_⟩
    · rw [hgone] at hmessage
      cases hmessage
    · rw [hnone] at hrcpt
      cases hrcpt
    · intro name hname other hother
      obtain ⟨hqueue, hversion', hcopied'⟩ := h.active name other hother
      refine ⟨hqueue, hversion', fun idx copy hcopy => ?_⟩
      rw [hnone]
      have hold := hcopied' idx copy hcopy
      refine ⟨hold.silent, nofun, fun hown _ => ?_, fun hne => (hold.other hne).imp_right
        fun h => ⟨h.1, nofun⟩⟩
      cases hrcpt : s.store.rcptAt idx with
      | none => exact hold.gone hown hrcpt
      | some rcpt =>
        -- all copies of the worker that removes the message are done, also those of other queues
        have hlt : idx < worker.wrapper.message.recipients.length := by
          rw [hversion.length, ← hversion'.length]
          exact (List.getElem?_eq_some_iff.mp hcopy).1
        have hself := hcopied idx _ (getElem?_eq_getElem hlt)
        rw [hrcpt] at hself hold
        obtain ⟨hqueue, hrcptDone, -⟩ := hold.own hown rcpt rfl
        have hother : worker.wrapper.message.recipients[idx].queue ≠ queueName := fun heq =>
          hname (hqueue.symm.trans (hself.own heq rcpt rfl).1)
        rcases hself.other hother with ⟨hpending, -⟩ | ⟨-, hstored⟩
        · refine absurd (hdone.resolve_left (fun hnone => ?_) _ (getElem_mem hlt)) hpending
          rw [rcptAt, hnone] at hrcpt
          cases hrcpt
        · exact hrcptDone (hstored rcpt rfl).1
    · intro idx _ rcpt hrcpt
      rw [hnone] at hrcpt
      cases hrcpt
  · have hrcptAt (idx : ℕ) : (s.store.finish worker).rcptAt idx = message.recipients[idx]? := by
      rw [rcptAt, hmessage, bind_some]
    refine ⟨fun _ hsome => ?_, fun idx rcpt hrcpt hdone => ?_, active_update nofun ?_, h.once, ?_⟩
    · rw [hmessage] at hsome
      cases hsome
      exact hstored
    · obtain ⟨old, copy, hold, hcopy, ⟨rfl, -⟩ | ⟨rfl, -⟩⟩ := hrcpts idx rcpt (hrcptAt idx ▸ hrcpt)
      · exact (hcopied idx rcpt hcopy).silent hdone
      · exact h.silent idx rcpt hold hdone
    · intro name hname other hother
      obtain ⟨hqueue, hversion', hcopied'⟩ := h.active name other hother
      refine ⟨hqueue, hversion', fun idx copy hcopy => ?_⟩
      have hlt : idx < message.recipients.length := by
        rw [hstored.length, ← hversion'.length]
        exact (List.getElem?_eq_some_iff.mp hcopy).1
      rw [hrcptAt, getElem?_eq_getElem hlt]
      obtain ⟨old, copy', hold, hself, hrcpt⟩ := hrcpts idx _ (getElem?_eq_getElem hlt)
      exact .save hname (hold ▸ hcopied' idx copy hcopy) (hold ▸ hcopied idx copy' hself) hrcpt
    · intro idx hfinal rcpt hrcpt
      obtain ⟨old, copy, hold, hcopy, hcases⟩ := hrcpts idx rcpt (hrcptAt idx ▸ hrcpt)
      have hself := hcopied idx copy hcopy
      rw [hold] at hself
      have hsettled := h.settled idx hfinal old hold
      rcases hcases with ⟨rfl, hsingle⟩ | ⟨rfl, hother⟩
      · refine .inl ?_
        by_cases hown : rcpt.queue = queueName
        · obtain ⟨hqueue, -, hsilent⟩ := hself.own hown old rfl
          rcases hsettled with hmarked | ⟨_, _, hsame, hcopy', -, hmarked⟩
          · exact hsilent hmarked
          rw [hqueue, hworker] at hsame
          cases hsame
          cases hcopy.symm.trans hcopy'
          exact hmarked
        · rcases hself.other hown with ⟨-, hmulti⟩ | ⟨hdone, -⟩
          · rw [hsingle hown] at hmulti
            cases hmulti
          · exact hself.silent hdone
      · refine hsettled.imp_right ?_
        rintro ⟨other, copy', hsome, hcopy', hqueue, hsilent⟩
        have hne : rcpt.queue ≠ queueName := fun heq => by
          rw [heq, hworker] at hsome
          cases hsome
          cases hcopy.symm.trans hcopy'
          exact hother (hqueue.trans heq)
        exact ⟨other, copy', (update_of_ne hne _ _).trans hsome, hcopy', hqueue, hsilent⟩

/-- However the workers interleave, at most one failure or success is reported for each
    recipient. -/
theorem finals_le_of_run (hpending : ∀ rcpt ∈ queued.recipients, rcpt.status.isPending = true)
    (h : Run (deliveries queued) Separate s) (idx : ℕ) : finals idx s.notified ≤ 1 := by
  suffices hconsistent : Consistent queued s from hconsistent.once idx
  refine h.induction (fun s hs => ?_) fun s a s' ih hseparate hstep => ?_
  · rw [hs]
    refine ⟨?_, fun idx rcpt hrcpt hdone => ?_, nofun, fun _ => Nat.zero_le 1, fun _ => absurd rfl⟩
    · rintro _ ⟨⟩
      exact ⟨rfl, rfl, rfl⟩
    · have hmem : rcpt ∈ queued.recipients := mem_of_getElem? hrcpt
      -- a message is queued with all recipients pending
      rw [Recipient.IsDone, hpending rcpt hmem] at hdone
      cases hdone
  · cases a with
    | start queueName due =>
      obtain ⟨message, hnone, hmessage, rfl⟩ := Spool.step_start hstep
      exact ih.start due hnone hmessage
    | work queueName work =>
      obtain ⟨worker, hworker, rfl⟩ := Spool.step_work hstep
      exact ih.work hworker hseparate
    | save queueName =>
      obtain ⟨worker, hworker, rfl⟩ := Spool.step_save hstep
      exact ih.save hworker

/-- A message with a recipient that expires at 1050 and one that expires later. -/
def expiring : Message String :=
  { newsletter with
    recipients := [scheduledIn "remote", { scheduledIn "local" with expires := .ttl 5000 }] }

/-- A worker that finds nothing to deliver. -/
def checkAt (now : ℕ) (queue : String) : List (Work String) :=
  [.check now (retryIn queue), .attempt now (retryIn queue) []]

theorem finals_expiring : ∃ s, (WorkerStep.all "remote" 1100 (checkAt 1100 "remote")).foldlM
    Spool.step ⟨.queue expiring, fun _ => none, []⟩ = some s ∧ s.notified = [(0, .failure)] ∧
      ∀ idx, finals idx s.notified ≤ 1 := by
  have hcheck (s : Spool String) (hs : s.workers "remote" =
      some ⟨1100, .read, .new expiring "remote"⟩) :
      Separate s (.work "remote" (.check 1100 (retryIn "remote"))) := by
    intro worker hworker rcpt hrcpt
    rw [hs] at hworker
    cases hworker
    refine ⟨fun _ => trivial, fun hne _ => ?_⟩
    rcases mem_pair.mp hrcpt with rfl | rfl
    · exact absurd rfl hne
    · simp [Work.Spares, Recipient.isExpired]
  have hrest : ∀ a ∈ (WorkerStep.all "remote" 1100 (checkAt 1100 "remote")).tail.tail,
      ∀ s : Spool String, Separate s a := by
    simp [WorkerStep.all, checkAt, Separate, Work.Keeps, Recipient.StaysIn, Work.Spares, retryIn]
  have hrun : Run (deliveries expiring) Separate _ :=
    .foldlM (.step (.step (.initial rfl) (show Separate _ (.start "remote" 1100) from trivial) rfl)
      (hcheck _ rfl) rfl) hrest rfl
  exact ⟨_, rfl, by decide +kernel, finals_le_of_run (by decide) hrun⟩

/-- The worker of the queue `local` reports the failure of the other recipient, but does not save
    it. -/
theorem reported_twice : ((WorkerStep.all "local" 1100 (checkAt 1100 "local") ++
      WorkerStep.all "remote" 1200 (checkAt 1200 "remote")).foldlM Spool.step
        ⟨.queue expiring, fun _ => none, []⟩).map Spool.notified =
    some [(0, .failure), (0, .failure)] := by
  decide +kernel

end Inworkspace.Queue
