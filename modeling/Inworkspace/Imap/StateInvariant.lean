import Inworkspace.Imap.ClientView

/-!
# The numbering of a selected mailbox

The state of a selected mailbox numbers some messages (`IsNumbering`): the places are counted from
one in the order of the UIDs, the two maps lead from each message to the other of its numbers, and the
greatest UID and the number of messages go with them. What `fetch_messages` reads is such a
numbering, and so is the state when changes have been written. `synchronize_messages` takes what
has gone out of the maps, but does not count again, and `append_messages` notes a new message under
its UID in both places of the map to the ids: the state remains a numbering as long as nothing goes
and ids equal UIDs (`Operation.Fits`).
-/

namespace Inworkspace.Imap.Selected

open Lib List KeyedList

/-! ## Appending -/

/-- The loop of `append_messages`, with `uid_max` written at once. -/
def appendMessage (mailbox : MailboxState) (id : Message) : MailboxState :=
  { mailbox with
    uidMax := id.uid
    idToImap := upsert mailbox.idToImap id.documentId
      ⟨id.uid, mailbox.totalMessages + 1⟩
    uidToId := upsert mailbox.uidToId id.uid id.uid
    totalMessages := mailbox.totalMessages + 1 }

def appendMessages (ids : List Message) (modseq : Option ℕ) (mailbox : MailboxState) :
    MailboxState :=
  if modseq.getD 0 > mailbox.modseq then ids.foldl appendMessage { mailbox with uidMax := 0 }
  else mailbox

/-- What is done with the state of a selected mailbox; the cache is that of the time it is read. -/
inductive Operation where
  | synchronize (cache : MessagesCache)
  | append (ids : List Message) (modseq : Option ℕ)
  | write (cache : MessagesCache) (isQresync : Bool)

def MailboxState.step (mailboxId : ℕ) (self : MailboxState) : Operation → MailboxState
  | .synchronize cache => synchronizeMessages cache mailboxId self
  | .append ids modseq => appendMessages ids modseq self
  | .write cache isQresync => (writeMailboxChanges cache mailboxId isQresync self).1

/-- The operations on a mailbox that has been selected. -/
def operate (cache : MessagesCache) (mailboxId : ℕ) (operations : List Operation) : MailboxState :=
  operations.foldl (MailboxState.step mailboxId) (select cache mailboxId).state

/-! ## Numberings -/

/-- The maps, newest entry first, and the number of messages are those of messages numbered from one
    in the order of their UIDs. -/
structure Numbering.Maps (numbering : Numbering) (messages : List Message) : Prop where
  ascending : messages.Pairwise (·.uid < ·.uid)
  documents : (messages.map (·.documentId)).Nodup
  idToImap : numbering.idToImap = (entries messages).reverse
  uidToId : numbering.uidToId = (messages.map fun m => (m.uid, m.documentId)).reverse
  totalMessages : numbering.totalMessages = messages.length

/-- The messages are numbered without gaps, the maps between UIDs and ids are inverse, and the
    greatest UID and the number of messages are right. -/
def Numbering.IsNumbering (self : Numbering) : Prop :=
  ∃ messages, self.Maps messages ∧ self.uidMax = uidMaxOf messages

/-- What an operation finds. No message that the state knows has gone when the mailbox is read; what
    is appended has greater UIDs, in ascending order, and new ids, and each id is the UID. -/
def Operation.Fits (mailboxId : ℕ) (state : MailboxState) : Operation → Prop
  | .synchronize cache =>
    state.modseq = cache.changeId ∨
      ∀ entry ∈ state.idToImap, isIn (uidMap cache mailboxId) entry.2.uid
  | .append ids modseq =>
    modseq.getD 0 ≤ state.modseq ∨
      ids ≠ [] ∧ ids.Pairwise (·.uid < ·.uid) ∧ ∀ m ∈ ids, m.documentId = m.uid ∧
        ∀ entry ∈ state.idToImap, entry.2.uid < m.uid ∧ entry.1 ≠ m.documentId
  | .write _ _ => True

/-- Each operation finds what it needs. -/
def AllFit (mailboxId : ℕ) : MailboxState → List Operation → Prop
  | _, [] => True
  | state, operation :: operations =>
    operation.Fits mailboxId state ∧ AllFit mailboxId (state.step mailboxId operation) operations

/-- The state and the one that waits are numberings. -/
def MailboxState.Inv (self : MailboxState) : Prop :=
  self.IsNumbering ∧ ∀ next ∈ self.nextState, next.nextState.IsNumbering

variable {messages : List Message} {cache : MessagesCache} {mailboxId : ℕ} {state : MailboxState}
  {ids : List Message}

theorem isNumbering_of (mailboxId modseq : ℕ) :
    (Numbering.of (uidMap cache mailboxId) modseq).IsNumbering :=
  have hascending := pairwise_uidMap cache mailboxId
  have hdocuments := nodup_documents cache mailboxId
  ⟨_, ⟨hascending, hdocuments, idToImapOf_eq hdocuments, uidToId_of hascending modseq,
    length_idToImapOf hdocuments⟩, rfl⟩

/-- A message is appended. -/
theorem Numbering.Maps.append (h : state.Maps messages) {m : Message}
    (hnew : ∀ other ∈ messages, other.uid < m.uid ∧ other.documentId ≠ m.documentId)
    (hid : m.documentId = m.uid) :
    (appendMessage state m).Maps (messages ++ [m]) ∧
      (appendMessage state m).uidMax = uidMaxOf (messages ++ [m]) := by
  refine ⟨⟨?_, nodup_append_singleton h.documents fun other hother =>
    (hnew other hother).2, ?_, ?_, ?_⟩, ?_⟩
  · exact pairwise_append.mpr ⟨h.ascending, pairwise_singleton _ _,
      fun other hother _ hm => mem_singleton.mp hm ▸ (hnew other hother).1⟩
  · show upsert state.idToImap _ _ = _
    rw [upsert_of_new, h.idToImap, h.totalMessages, entries, entries, zipIdx_append,
      map_append, reverse_append, Nat.add_comm]
    · rfl
    · intro entry hentry
      rw [h.idToImap, mem_reverse, mem_entries] at hentry
      exact (hnew _ (mem_of_getElem? hentry.2)).2
  · -- the UID stands in the place of the id, which is the same here
    show upsert state.uidToId _ _ = _
    rw [upsert_of_new, h.uidToId, map_append, reverse_append, map_singleton, hid]
    · rfl
    · intro entry hentry
      rw [h.uidToId, mem_reverse] at hentry
      obtain ⟨other, hother, rfl⟩ := mem_map.mp hentry
      exact Nat.ne_of_lt (hnew other hother).1
  · rw [length_append, ← h.totalMessages]
    rfl
  · refine Nat.le_antisymm (le_uidMaxOf (mem_append_right _ (mem_singleton_self m)))
      (uidMaxOf_le_iff.mpr fun other hother => ?_)
    rcases mem_append.mp hother with hmem | hmem
    · exact Nat.le_of_lt (hnew other hmem).1
    · exact Nat.le_of_eq (congrArg _ (mem_singleton.mp hmem))

/-- Messages are appended one by one; the state that waits stays. -/
theorem Numbering.Maps.appendAll (h : state.Maps messages) (hids : ids.Pairwise (·.uid < ·.uid))
    (hnew : ∀ m ∈ ids, m.documentId = m.uid ∧
      ∀ other ∈ messages, other.uid < m.uid ∧ other.documentId ≠ m.documentId)
    (hnil : ids = [] → state.uidMax = uidMaxOf messages) :
    (ids.foldl appendMessage state).IsNumbering ∧
      (ids.foldl appendMessage state).nextState = state.nextState := by
  induction ids generalizing state messages with
  | nil => exact ⟨⟨messages, h, hnil rfl⟩, rfl⟩
  | cons m ids ih =>
    obtain ⟨⟨hid, hm⟩, hrest⟩ := forall_mem_cons.mp hnew
    obtain ⟨hlt, hids⟩ := pairwise_cons.mp hids
    obtain ⟨hmaps, huidMax⟩ := h.append hm hid
    refine ih hmaps hids (fun m' hm' => ⟨(hrest m' hm').1, ?_⟩) fun _ => huidMax
    rw [forall_mem_append, forall_mem_singleton, hid, (hrest m' hm').1]
    exact ⟨(hrest m' hm').1 ▸ (hrest m' hm').2, hlt m' hm', Nat.ne_of_lt (hlt m' hm')⟩

/-! ## Steps and runs -/

/-- Messages are appended behind those that are there. -/
theorem MailboxState.Inv.append (h : state.Inv) {modseq : Option ℕ}
    (hfits : (Operation.append ids modseq).Fits mailboxId state) :
    (appendMessages ids modseq state).Inv := by
  rw [appendMessages]
  split
  · rename_i hlater
    obtain ⟨⟨messages, hmaps, -⟩, hnext⟩ := h
    obtain ⟨hne, hids, hnew⟩ := hfits.resolve_left (Nat.not_le.mpr hlater)
    -- the greatest UID is forgotten first
    have hforgotten : { state with uidMax := 0 : MailboxState }.Maps messages :=
      ⟨hmaps.1, hmaps.2, hmaps.3, hmaps.4, hmaps.5⟩
    have hbelow : ∀ m ∈ ids, m.documentId = m.uid ∧
        ∀ other ∈ messages, other.uid < m.uid ∧ other.documentId ≠ m.documentId := by
      refine fun m hm => ⟨(hnew m hm).1, fun other hother => ?_⟩
      obtain ⟨n, hn⟩ := mem_iff_getElem?.mp hother
      refine (hnew m hm).2 (other.documentId, ⟨other.uid, n + 1⟩) ?_
      rw [hmaps.idToImap, mem_reverse, mem_entries]
      exact ⟨Nat.le_add_left 1 n, hn⟩
    obtain ⟨hnumbering, hkept⟩ := hforgotten.appendAll hids hbelow fun hnil => absurd hnil hne
    exact ⟨hnumbering, fun next hmem => hnext next (hkept ▸ hmem)⟩
  · exact h

/-- What waits when the mailbox has been read is a numbering. -/
theorem MailboxState.Inv.next_synchronize (h : state.Inv) (cache : MessagesCache) :
    ∀ next ∈ (synchronizeMessages cache mailboxId state).nextState, next.nextState.IsNumbering := by
  by_cases hmodseq : state.modseq = cache.changeId
  · rw [synchronizeMessages_of_eq hmodseq]
    exact h.2
  · rw [synchronizeMessages, fetchMessages_of_ne hmodseq]
    rintro next ⟨⟩
    exact isNumbering_of mailboxId cache.changeId

/-- A reload numbers all messages again. -/
theorem MailboxState.Inv.synchronize (h : state.Inv)
    (hfits : (Operation.synchronize cache).Fits mailboxId state) :
    (synchronizeMessages cache mailboxId state).Inv := by
  refine ⟨?_, h.next_synchronize cache⟩
  by_cases hmodseq : state.modseq = cache.changeId
  · rw [synchronizeMessages_of_eq hmodseq]
    exact h.1
  have hknown := hfits.resolve_left hmodseq
  have hgone : state.idToImap.filter (!isIn (uidMap cache mailboxId) ·.2.uid) = [] :=
    filter_eq_nil_iff.mpr fun entry hentry => by simp [hknown entry hentry]
  rw [synchronizeMessages, fetchMessages_of_ne hmodseq]
  simp only [isSome_lookup_uidToId (pairwise_uidMap cache mailboxId), hgone,
    filter_eq_self.mpr hknown, any_nil, Bool.not_false, filter_true]
  obtain ⟨⟨messages, hmaps, huidMax⟩, -⟩ := h
  exact ⟨messages, ⟨hmaps.1, hmaps.2, hmaps.3, hmaps.4, hmaps.5⟩, huidMax⟩

/-- Writing the changes takes over the state that was read last. -/
theorem MailboxState.Inv.write (h : state.Inv) (cache : MessagesCache) (isQresync : Bool) :
    (writeMailboxChanges cache mailboxId isQresync state).1.Inv := by
  rw [writeMailboxChanges]
  split
  · rename_i hnone
    -- nothing waits only if the mailbox was not read again
    by_cases hmodseq : state.modseq = cache.changeId
    · rw [synchronizeMessages_of_eq hmodseq]
      exact h
    · rw [synchronizeMessages, fetchMessages_of_ne hmodseq] at hnone
      contradiction
  · rename_i next hsome
    exact ⟨h.next_synchronize cache next hsome, fun _ hnext => by cases hnext⟩

/-- A run: if each operation finds what it needs, the state is a numbering. -/
theorem isNumbering_operate (cache : MessagesCache) (mailboxId : ℕ) (operations : List Operation)
    (h : AllFit mailboxId (select cache mailboxId).state operations) :
    (operate cache mailboxId operations).IsNumbering := by
  have hinv : (select cache mailboxId).state.Inv :=
    ⟨isNumbering_of mailboxId cache.changeId, fun _ hnext => absurd hnext (by simp [select])⟩
  rw [operate]
  generalize (select cache mailboxId).state = state at h hinv
  induction operations generalizing state with
  | nil => exact hinv.1
  | cons operation operations ih =>
    refine ih _ h.2 ?_
    rcases operation with cache | ⟨ids, modseq⟩ | ⟨cache, isQresync⟩
    · exact hinv.synchronize h.1
    · exact hinv.append h.1
    · exact hinv.write cache isQresync

/-- A message is appended whose id is its UID, and the changes are written. -/
theorem isNumbering_operate_inbox :
    (operate inbox 0 [.append [⟨4, 4⟩] (some 2), .write inboxLater true]).IsNumbering :=
  isNumbering_operate inbox 0 _ ⟨Or.inr (by decide), trivial, trivial⟩

/-- A fourth message is appended to the inbox, with the id 13 and the UID 4. The UID then leads to
    the id 4, which leads nowhere. -/
theorem not_isNumbering_operate_append :
    let state := operate inbox 0 [.append [⟨4, 13⟩] (some 2)]
    state.uidToId.lookup 4 = some 4 ∧ state.idToImap.lookup 13 = some ⟨4, 4⟩ ∧
      state.idToImap.lookup 4 = none ∧ ¬state.IsNumbering := by
  refine ⟨by decide, by decide, by decide, ?_⟩
  rintro ⟨messages, hmaps, -⟩
  -- the last message of the numbering would have the id 13 and the id 4
  have hdocuments : messages.map (·.documentId) = [10, 11, 12, 13] := by
    rw [← map_fst_entries, ← reverse_inj, ← map_reverse, ← hmaps.idToImap]
    decide
  have hids : messages.map (·.documentId) = [10, 11, 12, 4] := by
    have hsnd := congrArg (map Prod.snd) hmaps.uidToId
    rw [map_reverse, map_map] at hsnd
    exact reverse_injective (hsnd.symm.trans (by decide))
  exact absurd (hdocuments.symm.trans hids) (by decide)

end Inworkspace.Imap.Selected
