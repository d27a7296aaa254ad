import Inworkspace.Imap.ClientView

/-!
# Numbers of messages in commands

A client names a message by its place in the list that it has. A search reports these places. But
a command looks for the place in the mailbox as it was read last, which may be another one: when
messages before the one that is meant have gone, and the client has not been told, the number
stands for a message behind it (`sequenceToIds_expunged`). It stands for the message that the
client means, or for none if that one has gone, in just those cases in which all messages up to it
are still there, or the mailbox has no such place (`sequenceToIds_meant_iff`).
-/

namespace Inworkspace.Imap.Selected

open Lib List Option

/-- The message at a place, counted from one. -/
def messageAt (messages : List Message) (n : ℕ) : Option Message :=
  if n = 0 then none else messages[n - 1]?

variable (view mailbox : List Message)

/-- What a client means by a number: the message at that place in its list, if it is still there. -/
def meant (n : ℕ) : Option Message :=
  (messageAt view n).filter (· ∈ mailbox)

/-- All messages up to the place are still there, or the mailbox has no such place, and the message
    that the client has there has gone. -/
def Kept (n : ℕ) : Prop :=
  (n ≤ view.length ∧ ∀ m ∈ view.take n, m ∈ mailbox) ∨
    (mailbox.length < n ∧ ∀ m, messageAt view n = some m → m ∉ mailbox)

/-- The entry of a message at a place. -/
def entryOf (n : ℕ) (m : Message) : ℕ × ImapId := (m.documentId, ⟨m.uid, n⟩)

/-! ## Places -/

/-- At most one element has a given number. -/
theorem filter_zipIdx {α : Type} (l : List α) (first n : ℕ) :
    (l.zipIdx first).filter (·.2 = n) =
      if first ≤ n then (l[n - first]?.map fun a => (a, n)).toList else [] := by
  induction l generalizing first with
  | nil => simp
  | cons a l ih =>
    rw [zipIdx_cons, filter_cons, ih]
    rcases Nat.lt_trichotomy first n with hlt | rfl | hlt
    · obtain ⟨k, rfl⟩ := Nat.exists_eq_add_of_lt hlt
      have hsub : first + k + 1 - first = k + 1 := by omega
      have hsub' : first + k + 1 - (first + 1) = k := by omega
      have hne : first ≠ first + k + 1 := by omega
      simp only [hne, decide_false, Bool.false_eq_true, if_false, hsub, hsub',
        getElem?_cons_succ, Nat.succ_le_of_lt hlt, Nat.le_of_lt hlt]
    · simp
    · simp only [Nat.ne_of_gt hlt, decide_false, Bool.false_eq_true, if_false, Nat.not_le.mpr hlt,
        Nat.not_le.mpr (Nat.lt_succ_of_lt hlt)]

/-- What a numbering has under a number. -/
theorem filter_idToImapOf {messages : List Message} (h : (messages.map (·.documentId)).Nodup)
    (n : ℕ) :
    (idToImapOf messages).filter (·.2.seqnum = n) =
      ((messageAt messages n).map (entryOf n)).toList := by
  have hentries : (entries messages).filter (·.2.seqnum = n) =
      ((messageAt messages n).map (entryOf n)).toList := by
    rw [entries, List.filter_map]
    have hzip := filter_zipIdx messages 1 n
    have hcomp : ((fun entry : ℕ × ImapId => decide (entry.2.seqnum = n)) ∘
        fun entry : Message × ℕ => (entry.1.documentId, (⟨entry.1.uid, entry.2⟩ : ImapId))) =
        fun entry => decide (entry.2 = n) := rfl
    rw [hcomp, hzip, messageAt]
    rcases n with _ | n
    · rfl
    · rcases messages[n + 1 - 1]? with _ | m <;> rfl
  rw [idToImapOf_eq h, filter_reverse, hentries]
  rcases messageAt messages n with _ | m <;> rfl

variable {view} {mailbox} {state : MailboxState}

/-- The numbers that a search reports are those of the client's list. -/
theorem messageAt_of_mapResultId (hdocuments : (view.map (·.documentId)).Nodup)
    (h : Numbered view mailbox state) {id n : ℕ} {imapId : ImapId}
    (hmap : mapResultId state id false = some (n, imapId)) :
    messageAt view n = some ⟨imapId.uid, id⟩ := by
  rw [mapResultId] at hmap
  rcases hlookup : state.idToImap.lookup id with _ | found
  · rw [hlookup] at hmap
    contradiction
  rw [hlookup] at hmap
  obtain ⟨rfl, rfl⟩ := Prod.mk.inj (some.inj hmap)
  have hmem := KeyedList.mem_of_lookup hlookup
  rw [(h.parts hdocuments).2.1] at hmem
  have hentry := (mem_filter.mp hmem).1
  rw [idToImapOf_eq hdocuments, mem_reverse, mem_entries] at hentry
  show messageAt view found.seqnum = _
  rw [messageAt, if_neg (Nat.one_le_iff_ne_zero.mp hentry.1)]
  exact hentry.2

/-- A command looks for numbers in the mailbox as it was read last. -/
theorem sequenceToIds_eq (h : Numbered view mailbox state) {sequence : Sequence}
    (hsequence : sequence.isSavedSearch = false) (savedSearch : Option (List ImapId)) :
    sequenceToIds state savedSearch sequence false =
      some ((idToImapOf mailbox).filter fun entry =>
        sequence.contains entry.2.seqnum (idToImapOf mailbox).length) := by
  rw [Numbered] at h
  rcases hnext : state.nextState with _ | next
  · rw [hnext] at h
    obtain ⟨rfl, hstate⟩ := h
    generalize state.modseq = modseq at hstate
    simp [sequenceToIds, hsequence, hnext, hstate, Numbering.of]
  · rw [hnext] at h
    simp [sequenceToIds, hsequence, hnext, h.1, Numbering.of]

/-! ## What a client means -/

section Meant

variable (hview : view.Pairwise (·.uid < ·.uid)) (hmailbox : mailbox.Pairwise (·.uid < ·.uid))
  (hnewer : Newer view mailbox)

include hview hmailbox hnewer

/-- The client and the mailbox have the same messages up to a place if they are all still there. -/
theorem take_eq_take {n : ℕ} (hn : n ≤ view.length) (h : ∀ m ∈ view.take n, m ∈ mailbox) :
    mailbox.take n = view.take n := by
  have happend := eq_append hview hmailbox hnewer
  have hfilter : (view.take n).filter (isIn mailbox ·.uid) = view.take n :=
    filter_eq_self.mpr fun m hm => isIn_eq_true.mpr ⟨m, h m hm, rfl⟩
  have hsplit : view.filter (isIn mailbox ·.uid) =
      view.take n ++ (view.drop n).filter (isIn mailbox ·.uid) := by
    conv_lhs => rw [← take_append_drop n view, filter_append, hfilter]
  rw [hsplit, append_assoc] at happend
  rw [happend, take_left' (by rw [length_take, Nat.min_eq_left hn])]

/-- If a message has the same place in both, so have all messages before it. -/
theorem mem_of_messageAt_eq {n : ℕ} {m : Message} (hm : messageAt view n = some m)
    (hm' : messageAt mailbox n = some m) : n ≤ view.length ∧ ∀ v ∈ view.take n, v ∈ mailbox := by
  rcases n with _ | n
  · contradiction
  have hget : view[n]? = some m := hm
  have hget' : mailbox[n]? = some m := hm'
  have hn := (List.getElem?_eq_some_iff.mp hget).1
  have hn' := (List.getElem?_eq_some_iff.mp hget').1
  refine ⟨hn, ?_⟩
  -- what the mailbox has up to the place is not new, so the client has it there too
  have hsubset : mailbox.take (n + 1) ⊆ view.take (n + 1) := by
    intro v hv
    obtain ⟨hmem, hle⟩ := (SortedList.mem_take_succ_iff hmailbox hget' v).mp hv
    refine (SortedList.mem_take_succ_iff hview hget v).mpr ⟨?_, hle⟩
    rcases hnewer v hmem with hold | hlt
    · exact hold
    · have := le_uidMaxOf (mem_of_getElem? hget)
      omega
  have hnodup : (mailbox.take (n + 1)).Nodup :=
    ((hmailbox.imp fun hlt heq => absurd (congrArg Message.uid heq) (ne_of_lt hlt)).sublist
      (take_sublist _ _))
  have hperm := (subperm_of_subset hnodup hsubset).perm_of_length_le (by
    rw [length_take, length_take]
    omega)
  intro v hv
  exact mem_of_mem_take (hperm.mem_iff.mpr hv)

/-- A number leads to the message that is meant in exactly these cases. -/
theorem messageAt_eq_meant_iff (n : ℕ) :
    messageAt mailbox n = meant view mailbox n ↔ Kept view mailbox n := by
  rcases n with _ | n
  · exact iff_of_true rfl (Or.inl ⟨Nat.zero_le _, fun _ hm => absurd hm not_mem_nil⟩)
  constructor
  · intro h
    rcases hmeant : meant view mailbox (n + 1) with _ | m
    · rw [hmeant] at h
      refine Or.inr ⟨Nat.lt_succ_of_le (getElem?_eq_none_iff.mp h), ?_⟩
      intro m hm hmem
      rw [meant, hm, filter_some, if_pos (decide_eq_true hmem)] at hmeant
      contradiction
    · rw [hmeant] at h
      exact Or.inl (mem_of_messageAt_eq hview hmailbox hnewer (filter_eq_some_iff.mp hmeant).1 h)
  -- up to the place nothing has gone, or neither side has a message there
  · rintro (⟨hn, hall⟩ | ⟨hn, hgone⟩)
    · have htake := take_eq_take hview hmailbox hnewer hn hall
      have hat (l : List Message) : messageAt l (n + 1) = (l.take (n + 1))[n]? :=
        (getElem?_take_of_lt (Nat.lt_succ_self n)).symm
      rw [meant, hat, hat, htake]
      rcases hm : (view.take (n + 1))[n]? with _ | m
      · rfl
      · rw [filter_some, if_pos (decide_eq_true (hall m (mem_of_getElem? hm)))]
    · have hnone : messageAt mailbox (n + 1) = none :=
        getElem?_eq_none_iff.mpr (Nat.le_of_lt_succ hn)
      rw [hnone, meant]
      refine (filter_eq_none_iff.mpr fun m hm => ?_).symm
      rw [decide_eq_true_eq]
      exact hgone m hm

end Meant

/-- The numbers that a search reports are those of the client's list. A number in a command stands
    for the message that the client means if and only if all messages up to it are still there, or
    there is no such place. -/
theorem sequenceToIds_meant_iff (cache : MessagesCache) (mailboxId : ℕ) (events : List Event)
    (h : Ascending mailboxId (uidMaxOf (uidMap cache mailboxId)) cache events)
    (sequence : Sequence) (hsequence : sequence.isSavedSearch = false)
    (savedSearch : Option (List ImapId)) (n : ℕ)
    (hn : sequence.contains n (run cache mailboxId events).mailbox.length = true) :
    let session := run cache mailboxId events
    (∀ id number imapId, mapResultId session.state id false = some (number, imapId) →
      messageAt session.view number = some ⟨imapId.uid, id⟩) ∧
    ((sequenceToIds session.state savedSearch sequence false).map (·.filter (·.2.seqnum = n)) =
      some ((meant session.view session.mailbox n).map (entryOf n)).toList ↔
        Kept session.view session.mailbox n) := by
  obtain ⟨highest, htracks⟩ := (tracks_select cache mailboxId).exists_foldl h
  intro session
  have htracks : Tracks mailboxId highest session := htracks
  refine ⟨fun id number imapId hmap =>
    messageAt_of_mapResultId htracks.documents htracks.numbered hmap, ?_⟩
  -- the number is looked up in the mailbox as it is now, not in the view
  have hlookup : (sequenceToIds session.state savedSearch sequence false).map
      (·.filter (·.2.seqnum = n)) =
        some ((messageAt session.mailbox n).map (entryOf n)).toList := by
    rw [sequenceToIds_eq htracks.numbered hsequence, map_some,
      ← filter_idToImapOf htracks.mailboxDocuments, List.filter_filter,
      length_idToImapOf htracks.mailboxDocuments]
    refine congrArg some (filter_congr fun entry _ => ?_)
    by_cases hseqnum : entry.2.seqnum = n
    · rw [hseqnum, hn, Bool.and_true]
    · simp [hseqnum]
  have hinjective : ∀ a b : Option Message,
      (a.map (entryOf n)).toList = (b.map (entryOf n)).toList ↔ a = b := by
    intro a b
    rcases a with _ | ⟨uid, id⟩ <;> rcases b with _ | ⟨uid', id'⟩ <;> simp [entryOf, and_comm]
  rw [hlookup, some_inj, hinjective]
  exact messageAt_eq_meant_iff htracks.sorted htracks.mailboxSorted htracks.newer n

/-- The inbox, in which another message has taken the place of the last one. -/
def inboxReplaced : MessagesCache where
  items := [⟨10, [⟨0, 1⟩]⟩, ⟨11, [⟨0, 2⟩]⟩, ⟨14, [⟨0, 4⟩]⟩]
  changeId := 2
  nodupDocuments := by decide
  nodupUids := by decide

/-- The last message is replaced by another one: the numbers before it stay. -/
theorem sequenceToIds_meant_before :
    let session := run inbox 0 [.change inboxReplaced, .synchronize]
    (sequenceToIds session.state none (.range (some 1) (some 2)) false).map
      (·.filter (·.2.seqnum = 2)) =
        some ((meant session.view session.mailbox 2).map (entryOf 2)).toList :=
  (sequenceToIds_meant_iff inbox 0 [.change inboxReplaced, .synchronize]
    ⟨by decide, by decide, trivial⟩ (.range (some 1) (some 2)) rfl none 2 (by decide)).2.mpr
      (Or.inl ⟨by decide, by decide⟩)

/-- Another session removes the first of three messages. By 2 the client means the second one, under
    which number a search reports it, but a command takes 2 for the third. -/
theorem sequenceToIds_expunged :
    let session := run inbox 0 [.change inboxLater, .synchronize]
    messageAt session.view 2 = some ⟨2, 11⟩ ∧ (⟨2, 11⟩ : Message) ∈ session.mailbox ∧
      mapResultId session.state 11 false = some (2, ⟨2, 2⟩) ∧
      sequenceToIds session.state none (.number 2) false = some [(12, ⟨3, 2⟩)] := by
  decide

end Inworkspace.Imap.Selected
