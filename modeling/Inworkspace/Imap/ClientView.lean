import Inworkspace.Imap.MailboxState

/-!
# What the client knows of a mailbox

The list of messages that the client has is followed through a session. As long as new messages
get numbers that were not used before (`Ascending`), the session keeps track of it (`Tracks`): the
messages that the client has are in the numbering it knows or among those that have gone, and the
mailbox as it was read last is what is left of them, followed by the new ones. When the changes are
written, the client can follow each response, and then has the messages of the mailbox, in the order
of their numbers (`view_write`).
-/

namespace Inworkspace.Imap.Selected

open Lib List KeyedList SortedList Nat

/-! ## Numberings -/

/-- The places of the messages in their order. -/
def entries (messages : List Message) : List (ℕ × ImapId) :=
  (messages.zipIdx 1).map fun entry => (entry.1.documentId, ⟨entry.1.uid, entry.2⟩)

variable {messages mailbox view : List Message} {state : MailboxState} {cache : MessagesCache}
  {mailboxId : ℕ} {m : Message} {deletions : List ImapId} {entry : ℕ × ImapId}

theorem map_fst_entries (messages : List Message) :
    (entries messages).map Prod.fst = messages.map (·.documentId) := by
  calc (entries messages).map Prod.fst = ((messages.zipIdx 1).map Prod.fst).map (·.documentId) := by
        rw [entries, map_map, map_map]
        rfl
    _ = messages.map (·.documentId) := by rw [zipIdx_map_fst]

theorem idToImapOf_eq (h : (messages.map (·.documentId)).Nodup) :
    idToImapOf messages = (entries messages).reverse := by
  have hzip : messages.zipIdx 1 = messages.zipIdx.map fun entry => (entry.1, entry.2 + 1) := by
    rw [zipIdx_succ]
  rw [← foldl_upsert (map_fst_entries messages ▸ h), entries, hzip, map_map, foldl_map]
  rfl

theorem mem_entries :
    entry ∈ entries messages ↔
      1 ≤ entry.2.seqnum ∧ messages[entry.2.seqnum - 1]? = some ⟨entry.2.uid, entry.1⟩ := by
  rw [entries, mem_map]
  constructor
  · rintro ⟨⟨m, n⟩, hmem, rfl⟩
    exact mem_zipIdx_iff_le_and_getElem?_sub.mp hmem
  · intro h
    exact ⟨(⟨entry.2.uid, entry.1⟩, entry.2.seqnum), mem_zipIdx_iff_le_and_getElem?_sub.mpr h, rfl⟩

theorem length_idToImapOf (h : (messages.map (·.documentId)).Nodup) :
    (idToImapOf messages).length = messages.length := by
  rw [idToImapOf_eq h, length_reverse, entries, length_map, length_zipIdx]

theorem uidMaxOf_le_iff {bound : ℕ} :
    uidMaxOf messages ≤ bound ↔ ∀ m ∈ messages, m.uid ≤ bound := by
  have hfold (l : List Message) (start : ℕ) :
      l.foldl (fun uidMax m => if m.uid > uidMax then m.uid else uidMax) start ≤ bound ↔
        start ≤ bound ∧ ∀ m ∈ l, m.uid ≤ bound := by
    induction l generalizing start with
    | nil => exact ⟨fun h => ⟨h, forall_mem_nil _⟩, fun h => h.1⟩
    | cons m l ih =>
      rw [foldl_cons, ih, forall_mem_cons, ← and_assoc]
      refine and_congr_left fun _ => ?_
      split <;> omega
  rw [uidMaxOf, hfold]
  exact and_iff_right (zero_le bound)

/-- `uid_max` is not less than the number of a message. -/
theorem le_uidMaxOf (h : m ∈ messages) : m.uid ≤ uidMaxOf messages :=
  uidMaxOf_le_iff.mp (le_refl _) m h

/-! ## The messages of the mailbox -/

section Mailbox

theorem mem_mailboxes_of_uidIn {item : MessageItem} {mailboxId uid : ℕ}
    (h : item.uidIn mailboxId = some uid) : ⟨mailboxId, uid⟩ ∈ item.mailboxes := by
  obtain ⟨m, hm, heq⟩ := exists_of_findSome?_eq_some h
  split at heq
  · rename_i hid
    rw [← hid, ← Option.some.inj heq]
    exact hm
  · contradiction

variable {items : List MessageItem} (h : (items.flatMap (·.mailboxes)).Nodup)
  (cache : MessagesCache) (mailboxId : ℕ)

include h in
/-- No two messages of the mailbox have the same UID. -/
theorem nodup_uids : ((items.filterMap fun item =>
    (item.uidIn mailboxId).map fun uid => (⟨uid, item.documentId⟩ : Message)).map
      Message.uid).Nodup := by
  rw [map_filterMap, Nodup, pairwise_filterMap]
  refine (nodup_flatMap.mp h).2.imp fun {item other} hdisjoint uid huid uid' huid' => ?_
  -- the number would be that of another message too
  rintro rfl
  simp only [Option.map_map, Option.map_eq_some_iff] at huid huid'
  obtain ⟨_, huid, rfl⟩ := huid
  obtain ⟨_, huid', rfl⟩ := huid'
  exact hdisjoint (mem_mailboxes_of_uidIn huid) (mem_mailboxes_of_uidIn huid')

include h in
/-- The messages of a mailbox are those that are in it. -/
theorem mem_messagesIn {mailboxId : ℕ} {m : Message} : m ∈ messagesIn items mailboxId ↔
    ∃ item ∈ items, item.documentId = m.documentId ∧ item.uidIn mailboxId = some m.uid := by
  rw [messagesIn, (ofList_perm (nodup_uids h mailboxId)).mem_iff, mem_filterMap]
  refine exists_congr fun item => and_congr_right fun _ => ?_
  rw [Option.map_eq_some_iff]
  constructor
  · rintro ⟨uid, huid, rfl⟩
    exact ⟨rfl, huid⟩
  · rintro ⟨hid, huid⟩
    exact ⟨m.uid, huid, by rw [hid]⟩

theorem pairwise_uidMap : (uidMap cache mailboxId).Pairwise (·.uid < ·.uid) :=
  pairwise_ofList (nodup_uids cache.nodupUids mailboxId)

theorem nodup_documents : ((uidMap cache mailboxId).map (·.documentId)).Nodup := by
  refine ((ofList_perm (nodup_uids cache.nodupUids mailboxId)).map _).nodup_iff.mpr ?_
  rw [map_filterMap, Nodup, pairwise_filterMap]
  refine (pairwise_map.mp cache.nodupDocuments).imp fun {item other} hne id hid id' hid' => ?_
  simp only [Option.map_map, Option.map_eq_some_iff] at hid hid'
  obtain ⟨_, -, rfl⟩ := hid
  obtain ⟨_, -, rfl⟩ := hid'
  exact hne

end Mailbox

/-! ## What a session knows -/

/-- The number of a message is that of one of the messages of a mailbox. -/
def isIn (mailbox : List Message) (uid : ℕ) : Bool := mailbox.any (·.uid = uid)

/-- A state tells of the client's messages, and of the mailbox as it was read. -/
def Numbered (view mailbox : List Message) (state : MailboxState) : Prop :=
  match state.nextState with
  | none => mailbox = view ∧ state.toNumbering = .of view state.modseq
  | some next =>
    next.nextState = .of mailbox state.modseq ∧ state.uidMax = uidMaxOf view ∧
      state.idToImap = (idToImapOf view).filter (isIn mailbox ·.2.uid) ∧
      next.deletions.Perm (((idToImapOf view).filter (!isIn mailbox ·.2.uid)).map Prod.snd)

/-- New messages have greater numbers than all before, of which `highest` is the greatest. -/
def Ascending (mailboxId : ℕ) : (highest : ℕ) → MessagesCache → List Event → Prop
  | _, _, [] => True
  | highest, cache, .change next :: events =>
    cache.changeId < next.changeId ∧
      (∀ m ∈ uidMap next mailboxId, m ∈ uidMap cache mailboxId ∨ highest < m.uid) ∧
      Ascending mailboxId (max highest (uidMaxOf (uidMap next mailboxId))) next events
  | highest, cache, .synchronize :: events => Ascending mailboxId highest cache events
  | highest, cache, .write _ :: events => Ascending mailboxId highest cache events

/-- The messages of the second list are in the first or came later. -/
def Newer (old new : List Message) : Prop := ∀ m ∈ new, m ∈ old ∨ uidMaxOf old < m.uid

/-- What is true of a session in which no number was greater than `highest`. -/
structure Tracks (mailboxId highest : ℕ) (session : Session) : Prop where
  sorted : session.view.Pairwise (·.uid < ·.uid)
  documents : (session.view.map (·.documentId)).Nodup
  mailboxSorted : session.mailbox.Pairwise (·.uid < ·.uid)
  mailboxDocuments : (session.mailbox.map (·.documentId)).Nodup
  newer : Newer session.view session.mailbox
  /-- The mailbox has what was there when it was read, and what came after that. -/
  unread : ∀ m ∈ uidMap session.cache mailboxId,
    m ∈ session.mailbox ∨ max (uidMaxOf session.view) (uidMaxOf session.mailbox) < m.uid
  bounded : uidMaxOf session.view ≤ highest ∧ uidMaxOf session.mailbox ≤ highest ∧
    uidMaxOf (uidMap session.cache mailboxId) ≤ highest
  modseq : session.state.modseq ≤ session.cache.changeId
  read : session.state.modseq = session.cache.changeId → session.mailbox = uidMap session.cache mailboxId
  numbered : Numbered session.view session.mailbox session.state

theorem isIn_eq_true {uid : ℕ} : isIn mailbox uid = true ↔ ∃ m ∈ mailbox, m.uid = uid := by
  rw [isIn]
  simp

/-- A message is in a later mailbox if its number is. -/
theorem mem_of_isIn (hview : view.Pairwise (·.uid < ·.uid)) (h : Newer view mailbox)
    (hm : m ∈ view) (hin : isIn mailbox m.uid = true) : m ∈ mailbox := by
  obtain ⟨other, hother, huid⟩ := isIn_eq_true.mp hin
  rcases h other hother with hmem | hlt
  · have hnodup : (view.map (·.uid)).Nodup := pairwise_map.mpr (hview.imp fun hlt => ne_of_lt hlt)
    rwa [← inj_on_of_nodup_map hnodup hmem hm huid]
  · exact absurd (le_uidMaxOf hm) (by omega)

/-- The mailbox is what is left of the client's messages, and the new ones. -/
theorem eq_append (hview : view.Pairwise (·.uid < ·.uid))
    (hmailbox : mailbox.Pairwise (·.uid < ·.uid)) (h : Newer view mailbox) :
    mailbox = view.filter (isIn mailbox ·.uid) ++ mailbox.filter (· ∉ view) := by
  have happend := eq_append_of_newer hview hmailbox fun m hm =>
    (h m hm).imp_right fun hlt v hv => lt_of_le_of_lt (le_uidMaxOf hv) hlt
  have hfilter : view.filter (isIn mailbox ·.uid) = view.filter (· ∈ mailbox) := by
    refine filter_congr fun m hm => ?_
    rw [Bool.eq_iff_iff, decide_eq_true_eq]
    exact ⟨mem_of_isIn hview h hm, fun hmem => isIn_eq_true.mpr ⟨m, hmem, rfl⟩⟩
  rw [hfilter]
  exact happend

theorem exists_mem_idToImapOf (h : (messages.map (·.documentId)).Nodup) (hm : m ∈ messages) :
    ∃ entry ∈ idToImapOf messages, entry.2.uid = m.uid := by
  obtain ⟨n, hn⟩ := mem_iff_getElem?.mp hm
  refine ⟨(m.documentId, ⟨m.uid, n + 1⟩), ?_, rfl⟩
  rw [idToImapOf_eq h, mem_reverse, mem_entries]
  exact ⟨le_add_left 1 n, hn⟩

theorem mem_of_mem_idToImapOf (h : (messages.map (·.documentId)).Nodup)
    (hentry : entry ∈ idToImapOf messages) : ⟨entry.2.uid, entry.1⟩ ∈ messages := by
  rw [idToImapOf_eq h, mem_reverse, mem_entries] at hentry
  exact mem_of_getElem? hentry.2

/-- What is true of a state whether or not something waits. -/
theorem Numbered.parts (hdocuments : (view.map (·.documentId)).Nodup)
    (h : Numbered view mailbox state) :
    state.uidMax = uidMaxOf view ∧
      state.idToImap = (idToImapOf view).filter (isIn mailbox ·.2.uid) ∧
      ((state.nextState.map (·.deletions)).getD []).Perm
        (((idToImapOf view).filter (!isIn mailbox ·.2.uid)).map Prod.snd) := by
  rw [Numbered] at h
  rcases hnext : state.nextState with _ | next
  · rw [hnext] at h
    obtain ⟨rfl, hstate⟩ := h
    have hall : ∀ entry ∈ idToImapOf mailbox, isIn mailbox entry.2.uid = true := fun entry hentry =>
      isIn_eq_true.mpr ⟨_, mem_of_mem_idToImapOf hdocuments hentry, rfl⟩
    have hnone : (idToImapOf mailbox).filter (!isIn mailbox ·.2.uid) = [] :=
      filter_eq_nil_iff.mpr fun entry hentry => by simp [hall entry hentry]
    rw [hstate, filter_eq_self.mpr hall, hnone]
    exact ⟨rfl, rfl, Perm.refl _⟩
  · rw [hnext] at h
    exact h.2

theorem uidToId_of (hsorted : messages.Pairwise (·.uid < ·.uid)) (modseq : ℕ) :
    (Numbering.of messages modseq).uidToId =
      (messages.map fun m => (m.uid, m.documentId)).reverse := by
  have hkeys : ((messages.map fun m => (m.uid, m.documentId)).map Prod.fst).Nodup := by
    rw [map_map, Nodup, pairwise_map]
    exact hsorted.imp fun hlt => ne_of_lt hlt
  rw [← foldl_upsert hkeys, foldl_map]
  rfl

/-- The numbers of the mailbox, as the session finds them. -/
theorem isSome_lookup_uidToId (hsorted : messages.Pairwise (·.uid < ·.uid)) (modseq uid : ℕ) :
    ((Numbering.of messages modseq).uidToId.lookup uid).isSome = isIn messages uid := by
  rw [uidToId_of hsorted, isIn, Bool.eq_iff_iff]
  simp [eq_comm (a := uid)]

theorem fetchMessages_of_ne (h : state.modseq ≠ cache.changeId) :
    fetchMessages cache mailboxId (some state.modseq) =
      some (.of (uidMap cache mailboxId) cache.changeId) :=
  if_neg fun heq => h (Option.some.inj heq)

theorem synchronizeMessages_of_eq (h : state.modseq = cache.changeId) :
    synchronizeMessages cache mailboxId state = state := by
  rw [synchronizeMessages, fetchMessages, if_pos (congrArg some h)]

/-- The session reads the mailbox. -/
theorem Numbered.synchronize (hdocuments : (view.map (·.documentId)).Nodup)
    (hsorted : view.Pairwise (·.uid < ·.uid)) (h : Numbered view mailbox state)
    (hnewer : Newer view (uidMap cache mailboxId))
    (hunread : ∀ m ∈ uidMap cache mailboxId, m ∈ mailbox ∨ uidMaxOf view < m.uid)
    (hmodseq : state.modseq ≠ cache.changeId) :
    Numbered view (uidMap cache mailboxId) (synchronizeMessages cache mailboxId state) := by
  obtain ⟨huidMax, hidToImap, hdeletions⟩ := h.parts hdocuments
  -- what had gone before does not come back
  have hgone : ∀ entry ∈ idToImapOf view, isIn (uidMap cache mailboxId) entry.2.uid = true →
      isIn mailbox entry.2.uid = true := by
    intro entry hentry hin
    have hmem := mem_of_mem_idToImapOf hdocuments hentry
    rcases hunread _ (mem_of_isIn hsorted hnewer hmem hin) with hold | hlt
    · exact isIn_eq_true.mpr ⟨_, hold, rfl⟩
    · exact absurd (le_uidMaxOf hmem) (not_le.mpr hlt)
  rw [synchronizeMessages, fetchMessages_of_ne hmodseq]
  simp only [isSome_lookup_uidToId (pairwise_uidMap cache mailboxId)]
  refine ⟨rfl, huidMax, ?_, ?_⟩
  · rw [hidToImap, filter_filter]
    refine filter_congr fun entry hentry => ?_
    grind
  · -- what went before and what has gone now
    have hbefore : (idToImapOf view).filter (!isIn mailbox ·.2.uid) =
        ((idToImapOf view).filter (!isIn (uidMap cache mailboxId) ·.2.uid)).filter
          (!isIn mailbox ·.2.uid) := by
      rw [filter_filter]
      refine filter_congr fun entry hentry => ?_
      grind
    rw [hidToImap, filter_comm]
    refine (hdeletions.append_right _).trans ?_
    rw [← map_append, hbefore]
    exact (perm_append_comm.trans (filter_append_perm _ _)).map _

/-! ## What the client is told -/

/-- The ranges cover the numbers. -/
theorem mem_serializeRanges {id rangeId : ℕ} (h : id ≤ rangeId) (ids : List ℕ) (uid : ℕ) :
    (∃ range ∈ serializeRanges id rangeId ids, range.1 ≤ uid ∧ uid ≤ range.2) ↔
      (id ≤ uid ∧ uid ≤ rangeId) ∨ uid ∈ ids := by
  induction ids generalizing id rangeId with
  | nil => simp [serializeRanges]
  | cons next ids ih =>
    rw [serializeRanges, mem_cons]
    split
    · rw [ih (by omega)]
      by_cases hmem : uid ∈ ids
      · simp [hmem]
      · simp only [hmem, or_false]
        omega
    · rw [exists_mem_cons_iff, ih (le_refl next)]
      refine or_congr_right (or_congr_left ?_)
      omega

theorem mem_serializeSequence (ids : List ℕ) (uid : ℕ) :
    (∃ range ∈ serializeSequence ids, range.1 ≤ uid ∧ uid ≤ range.2) ↔ uid ∈ ids := by
  rcases ids with _ | ⟨id, ids⟩
  · simp [serializeSequence]
  · rw [serializeSequence, mem_serializeRanges (le_refl id), mem_cons]
    refine or_congr_left ?_
    omega

section

variable (hdocuments : (view.map (·.documentId)).Nodup)
  (h : deletions.Perm (((idToImapOf view).filter (!isIn mailbox ·.2.uid)).map Prod.snd))

include hdocuments h

/-- The numbers of what has gone, in ascending order. -/
theorem mergeSort_seqnums :
    (deletions.map (·.seqnum)).mergeSort = ListEdit.numbers (isIn mailbox ·.uid) 1 view := by
  have hperm : (deletions.map (·.seqnum)).Perm (ListEdit.numbers (isIn mailbox ·.uid) 1 view) := by
    refine (h.map _).trans ?_
    rw [idToImapOf_eq hdocuments, filter_reverse, map_reverse, map_reverse]
    refine (reverse_perm _).trans ?_
    rw [entries, filter_map, map_map, map_map]
    exact Perm.refl _
  exact ((mergeSort_perm _ _).trans hperm).eq_of_pairwise' (pairwise_mergeSort' (· ≤ ·) _)
    ((ListEdit.pairwise_numbers _ _ _).imp le_of_lt)

/-- The client removes what has gone. -/
theorem foldlM_apply_serializeExpunge (isQresync : Bool) :
    (serializeExpunge isQresync
        (deletions.map fun id => if isQresync then id.uid else id.seqnum).mergeSort).foldlM
      (Response.apply mailbox) view = some (view.filter (isIn mailbox ·.uid)) := by
  rcases isQresync with _ | _
  · simp only [serializeExpunge, Bool.false_eq_true, if_false]
    -- each number is lowered by the removals before it
    rw [mergeSort_seqnums hdocuments h, foldlM_map]
    exact ListEdit.eraseEach_numbers _ _
  · simp only [if_true]
    refine congrArg some (filter_congr fun m hm => ?_)
    have hmem : m.uid ∈ (deletions.map (·.uid)).mergeSort ↔ isIn mailbox m.uid = false := by
      rw [(mergeSort_perm _ _).mem_iff, (h.map _).mem_iff]
      simp only [map_map, mem_map, mem_filter, Bool.not_eq_true']
      constructor
      · rintro ⟨entry, ⟨-, hin⟩, huid⟩
        rwa [← huid]
      · intro hin
        obtain ⟨entry, hentry, huid⟩ := exists_mem_idToImapOf hdocuments hm
        exact ⟨entry, ⟨hentry, huid ▸ hin⟩, huid⟩
    have hany : ((serializeSequence (deletions.map (·.uid)).mergeSort).any
        fun r => r.1 ≤ m.uid ∧ m.uid ≤ r.2) = true ↔ isIn mailbox m.uid = false := by
      rw [← hmem, ← mem_serializeSequence]
      simp
    rcases hin : isIn mailbox m.uid with _ | _
    · rw [hany.mpr hin]
      rfl
    · rw [Bool.eq_false_iff.mpr (mt hany.mp (by simp [hin]))]
      rfl

end

/-- The client has the messages of the mailbox when the changes have been written. -/
theorem foldlM_apply_changeResponses {view mailbox : List Message} {next : NextMailboxState}
    {modseq : ℕ} (hdocuments : (view.map (·.documentId)).Nodup)
    (hsorted : view.Pairwise (·.uid < ·.uid))
    (hmailboxDocuments : (mailbox.map (·.documentId)).Nodup)
    (hmailboxSorted : mailbox.Pairwise (·.uid < ·.uid)) (hnewer : Newer view mailbox)
    (hnext : next.nextState = .of mailbox modseq) (hdeletions : next.deletions.Perm
      (((idToImapOf view).filter (!isIn mailbox ·.2.uid)).map Prod.snd)) (isQresync : Bool) :
    (changeResponses isQresync (uidMaxOf view) next).foldlM (Response.apply mailbox) view =
      some mailbox := by
  have happend := eq_append hsorted hmailboxSorted hnewer
  -- the client has what is left, whether or not something has gone
  have hleft : (if next.deletions.isEmpty then [] else serializeExpunge isQresync
      (next.deletions.map fun id => if isQresync then id.uid else id.seqnum).mergeSort).foldlM
        (Response.apply mailbox) view = some (view.filter (isIn mailbox ·.uid)) := by
    split
    · rename_i hempty
      rw [List.isEmpty_iff] at hempty
      rw [hempty, nil_perm, map_eq_nil_iff, filter_eq_nil_iff] at hdeletions
      refine congrArg some (filter_eq_self.mpr fun m hm => ?_).symm
      obtain ⟨entry, hentry, huid⟩ := exists_mem_idToImapOf hdocuments hm
      have hin := hdeletions entry hentry
      rw [huid] at hin
      simpa using hin
    · exact foldlM_apply_serializeExpunge hdocuments hdeletions isQresync
  rw [changeResponses, foldlM_append, hleft]
  generalize (if next.deletions.isEmpty then [] else _ : List Response) = buf
  split
  · -- the new messages are those behind
    have htotal : next.nextState.totalMessages = mailbox.length := by
      rw [hnext]
      exact length_idToImapOf hmailboxDocuments
    have hdrop (left new : List Message) (heq : mailbox = left ++ new) :
        left ++ mailbox.drop left.length = mailbox := by
      rw [heq, drop_left]
    have hexists : Response.apply mailbox (view.filter (isIn mailbox ·.uid))
        (.exists next.nextState.totalMessages) = some mailbox := by
      rw [Response.apply, htotal, take_length, hdrop _ _ happend]
      exact if_pos rfl
    simp [hexists]
  · -- no number is greater than those that the client knows
    rename_i hnone
    rw [not_or, hnext] at hnone
    have hmax : uidMaxOf mailbox ≤ uidMaxOf view :=
      Nat.sub_eq_zero_iff_le.mp (Nat.eq_zero_of_not_pos hnone.2)
    have hnew : mailbox.filter (· ∉ view) = [] := by
      refine filter_eq_nil_iff.mpr fun m hm => ?_
      rcases hnewer m hm with hmem | hlt
      · simpa using hmem
      · exact absurd (le_trans (le_uidMaxOf hm) hmax) (not_le.mpr hlt)
    rw [hnew, append_nil] at happend
    exact congrArg some happend.symm

/-! ## Steps and runs -/

section Steps

variable {highest : ℕ} {session : Session} (cache)

/-- A session in which the client has the messages of the mailbox. -/
theorem tracks_of_view (hview : session.view = uidMap session.cache mailboxId)
    (hmailbox : session.mailbox = uidMap session.cache mailboxId)
    (hhighest : uidMaxOf (uidMap session.cache mailboxId) ≤ highest)
    (hmodseq : session.state.modseq = session.cache.changeId)
    (hnumbered : Numbered (uidMap session.cache mailboxId) (uidMap session.cache mailboxId)
      session.state) : Tracks mailboxId highest session := by
  refine ⟨?_, ?_, ?_, ?_, ?_, ?_, ?_, le_of_eq hmodseq, fun _ => hmailbox, ?_⟩ <;>
    simp only [hview, hmailbox]
  · exact pairwise_uidMap _ _
  · exact nodup_documents _ _
  · exact pairwise_uidMap _ _
  · exact nodup_documents _ _
  · exact fun _ hm => Or.inl hm
  · exact fun _ hm => Or.inl hm
  · exact ⟨hhighest, hhighest, hhighest⟩
  · exact hnumbered

theorem tracks_select (mailboxId : ℕ) :
    Tracks mailboxId (uidMaxOf (uidMap cache mailboxId)) (select cache mailboxId) :=
  tracks_of_view rfl rfl (le_refl _) rfl ⟨rfl, rfl⟩

section

variable (h : Tracks mailboxId highest session)

include h

/-- Messages come and go. -/
theorem Tracks.change {next : MessagesCache} (hchange : session.cache.changeId < next.changeId)
    (hnew : ∀ m ∈ uidMap next mailboxId, m ∈ uidMap session.cache mailboxId ∨ highest < m.uid) :
    Tracks mailboxId (max highest (uidMaxOf (uidMap next mailboxId)))
      (session.step mailboxId (.change next)) := by
  obtain ⟨hview, hmailbox, -⟩ := h.bounded
  refine { h with unread := ?_, bounded := ?_, modseq := ?_, read := ?_ }
  · intro m hm
    rcases hnew m hm with hmem | hlt
    · exact h.unread m hmem
    · exact Or.inr (Nat.lt_of_le_of_lt (Nat.max_le.mpr ⟨hview, hmailbox⟩) hlt)
  · exact ⟨le_trans hview (le_max_left _ _), le_trans hmailbox (le_max_left _ _), le_max_right _ _⟩
  · exact le_of_lt (lt_of_le_of_lt h.modseq hchange)
  · intro heq
    exact absurd heq (Nat.ne_of_lt (Nat.lt_of_le_of_lt h.modseq hchange))

/-- The new messages of the mailbox are new to the client. -/
theorem Tracks.newer_cache : Newer session.view (uidMap session.cache mailboxId) := by
  intro m hm
  rcases h.unread m hm with hmem | hlt
  · exact h.newer m hmem
  · exact Or.inr (lt_of_le_of_lt (le_max_left _ _) hlt)

theorem Tracks.numbered_synchronize :
    Numbered session.view (uidMap session.cache mailboxId)
      (synchronizeMessages session.cache mailboxId session.state) := by
  by_cases hmodseq : session.state.modseq = session.cache.changeId
  · rw [synchronizeMessages_of_eq hmodseq, ← h.read hmodseq]
    exact h.numbered
  · refine h.numbered.synchronize h.documents h.sorted h.newer_cache (fun m hm => ?_) hmodseq
    exact (h.unread m hm).imp_right (lt_of_le_of_lt (le_max_left _ _))

end

theorem modseq_synchronizeMessages (mailboxId : ℕ) (state : MailboxState) :
    (synchronizeMessages cache mailboxId state).modseq = cache.changeId := by
  by_cases hmodseq : state.modseq = cache.changeId
  · rw [synchronizeMessages_of_eq hmodseq]
    exact hmodseq
  · rw [synchronizeMessages, fetchMessages_of_ne hmodseq]
    rfl

section

variable (h : Tracks mailboxId highest session)

include h

theorem Tracks.synchronize :
    Tracks mailboxId highest (session.step mailboxId .synchronize) where
  sorted := h.sorted
  documents := h.documents
  mailboxSorted := pairwise_uidMap session.cache mailboxId
  mailboxDocuments := nodup_documents session.cache mailboxId
  newer := h.newer_cache
  unread := fun _ hm => Or.inl hm
  bounded := ⟨h.bounded.1, h.bounded.2.2, h.bounded.2.2⟩
  modseq := le_of_eq (modseq_synchronizeMessages _ _ _)
  read := fun _ => rfl
  numbered := h.numbered_synchronize

/-- The client has the messages of the mailbox when the changes have been written. -/
theorem Tracks.foldlM_writeMailboxChanges (isQresync : Bool) :
    let written := writeMailboxChanges session.cache mailboxId isQresync session.state
    written.2.foldlM (Response.apply (uidMap session.cache mailboxId)) session.view =
        some (uidMap session.cache mailboxId) ∧
      written.1.modseq = session.cache.changeId ∧
      Numbered (uidMap session.cache mailboxId) (uidMap session.cache mailboxId) written.1 := by
  have hmodseq := modseq_synchronizeMessages session.cache mailboxId session.state
  have hnumbered := h.numbered_synchronize
  rw [writeMailboxChanges]
  rw [Numbered] at hnumbered
  rcases hnext : (synchronizeMessages session.cache mailboxId session.state).nextState with _ | next
  · rw [hnext] at hnumbered
    refine ⟨congrArg some hnumbered.1.symm, hmodseq, ?_⟩
    rw [Numbered, hnext, hnumbered.1]
    exact ⟨rfl, hnumbered.2⟩
  · rw [hnext] at hnumbered
    obtain ⟨hstate, huidMax, -, hdeletions⟩ := hnumbered
    simp only [huidMax]
    refine ⟨foldlM_apply_changeResponses h.documents h.sorted (nodup_documents _ _)
      (pairwise_uidMap _ _) h.newer_cache hstate hdeletions isQresync, ?_⟩
    rw [hstate]
    exact ⟨hmodseq, rfl, rfl⟩

theorem Tracks.view_step_write (isQresync : Bool) :
    (session.step mailboxId (.write isQresync)).view = uidMap session.cache mailboxId := by
  rw [Session.step, (h.foldlM_writeMailboxChanges isQresync).1]
  rfl

theorem Tracks.write (isQresync : Bool) :
    Tracks mailboxId highest (session.step mailboxId (.write isQresync)) :=
  have hwrite := h.foldlM_writeMailboxChanges isQresync
  tracks_of_view (h.view_step_write isQresync) rfl h.bounded.2.2 hwrite.2.1 hwrite.2.2

/-- A run: the session keeps track of what the client has. -/
theorem Tracks.exists_foldl {events : List Event}
    (hevents : Ascending mailboxId highest session.cache events) :
    ∃ highest', Tracks mailboxId highest' (events.foldl (Session.step mailboxId) session) := by
  induction events generalizing highest session with
  | nil => exact ⟨highest, h⟩
  | cons event events ih =>
    rcases event with next | _ | isQresync
    · exact ih (h.change hevents.1 hevents.2.1) hevents.2.2
    · exact ih h.synchronize hevents
    · exact ih (h.write isQresync) hevents

end

end Steps

/-- When the changes are written at the end of a run, the client follows each response, and then has
    the messages of the mailbox, in the order of their numbers. -/
theorem view_write (cache : MessagesCache) (mailboxId : ℕ) (events : List Event) (isQresync : Bool)
    (h : Ascending mailboxId (uidMaxOf (uidMap cache mailboxId)) cache events) :
    let session := run cache mailboxId events
    let responses := (writeMailboxChanges session.cache mailboxId isQresync session.state).2
    let written := session.step mailboxId (.write isQresync)
    responses.foldlM (Response.apply (uidMap session.cache mailboxId)) session.view =
        some written.view ∧
      written.view.Pairwise (·.uid < ·.uid) ∧
      ∀ m, m ∈ written.view ↔ ∃ item ∈ session.cache.items,
        item.documentId = m.documentId ∧ item.uidIn mailboxId = some m.uid := by
  obtain ⟨highest, htracks⟩ := (tracks_select cache mailboxId).exists_foldl h
  intro session responses written
  have hview : written.view = uidMap session.cache mailboxId := htracks.view_step_write isQresync
  rw [hview]
  exact ⟨(htracks.foldlM_writeMailboxChanges isQresync).1, pairwise_uidMap _ _,
    fun m => mem_messagesIn session.cache.nodupUids⟩

/-- The inbox with three messages. -/
def inbox : MessagesCache where
  items := [⟨10, [⟨0, 1⟩]⟩, ⟨11, [⟨0, 2⟩]⟩, ⟨12, [⟨0, 3⟩, ⟨5, 1⟩]⟩]
  changeId := 1
  nodupDocuments := by decide
  nodupUids := by decide

/-- The first message has gone, and another one has come. -/
def inboxLater : MessagesCache where
  items := [⟨11, [⟨0, 2⟩]⟩, ⟨12, [⟨0, 3⟩, ⟨5, 1⟩]⟩, ⟨13, [⟨0, 4⟩]⟩]
  changeId := 2
  nodupDocuments := by decide
  nodupUids := by decide

/-- The second message goes too. -/
def inboxLast : MessagesCache where
  items := [⟨12, [⟨0, 3⟩, ⟨5, 1⟩]⟩, ⟨13, [⟨0, 4⟩]⟩]
  changeId := 3
  nodupDocuments := by decide
  nodupUids := by decide

/-- Messages go before and after the mailbox is read, and the client is told of both. -/
theorem view_write_inbox :
    let session := run inbox 0 [.change inboxLater, .synchronize, .change inboxLast]
    let written := session.step 0 (.write false)
    (writeMailboxChanges inboxLast 0 false session.state).2.foldlM
        (Response.apply (uidMap inboxLast 0)) (uidMap inbox 0) = some written.view ∧
      written.view.Pairwise (·.uid < ·.uid) ∧ ∀ m, m ∈ written.view ↔ ∃ item ∈ inboxLast.items,
        item.documentId = m.documentId ∧ item.uidIn 0 = some m.uid :=
  view_write inbox 0 [.change inboxLater, .synchronize, .change inboxLast] false
    ⟨by decide, by decide, by decide, by decide, trivial⟩

end Inworkspace.Imap.Selected
