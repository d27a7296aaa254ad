import Inworkspace.Imap.ClientView

/-!
# The order in which deliveries are seen

A message gets its numbers in the mailboxes it is delivered to in one transaction
(`assign_email_ids`), and is written in a later one. Between them, other messages get greater
numbers and may be written. A session that looks at the mailbox then finds the greater number first,
and does not notice the message with the lower one afterwards, as it asks whether the greatest
number has grown (`changeResponses_overtaken`).

What first appears in a later look at the mailbox has a greater number than all that was seen before
if and only if no look finds a message while a delivery with a lower number is still to be written
and seen (`snapshots_ascend_iff`).
-/

namespace Inworkspace.Email

open Imap.Selected List Function Nat

/-! ## Deliveries -/

/-- What matters to deliveries: the counters, the messages that have numbers and are still to be
    written, and those that have been. -/
structure Mailboxes where
  documentId : ℕ
  uidCounter : ℕ → ℕ
  inFlight : List MessageItem
  items : List MessageItem

variable (self : Mailboxes)

namespace Mailboxes

/-- Nothing has been delivered. -/
def new : Mailboxes := ⟨0, fun _ => 0, [], []⟩

/-- The counters of the mailboxes are raised, one after the other. -/
def assignUids (uidCounter : ℕ → ℕ) : List ℕ → (ℕ → ℕ) × List UidMailbox
  | [] => (uidCounter, [])
  | mailboxId :: mailboxIds =>
    let uid := uidCounter mailboxId + 1
    let assigned := assignUids (update uidCounter mailboxId uid) mailboxIds
    (assigned.1, ⟨mailboxId, uid⟩ :: assigned.2)

/-- `assign_email_ids`, for a new message. -/
def assignEmailIds (mailboxIds : List ℕ) : Mailboxes :=
  let assigned := assignUids self.uidCounter mailboxIds
  { self with
    documentId := self.documentId + 1
    uidCounter := assigned.1
    inFlight := self.inFlight ++ [⟨self.documentId + 1, assigned.2⟩] }

/-- The batch of `email_ingest` is written. -/
def commit (documentId : ℕ) : Mailboxes :=
  { self with
    inFlight := self.inFlight.filter (·.documentId ≠ documentId)
    items := self.items ++ self.inFlight.filter (·.documentId = documentId) }

end Mailboxes

/-- The steps of deliveries, and looks at the mailboxes. -/
inductive Event where
  | assign (mailboxIds : List ℕ)
  | commit (documentId : ℕ)
  | snapshot
  deriving DecidableEq

def Mailboxes.step : Event → Mailboxes
  | .assign mailboxIds => self.assignEmailIds mailboxIds
  | .commit documentId => self.commit documentId
  | .snapshot => self

/-- What the looks find in a mailbox. -/
def snapshots (mailboxId : ℕ) : Mailboxes → List Event → List (List Message)
  | _, [] => []
  | self, .snapshot :: events => messagesIn self.items mailboxId :: snapshots mailboxId self events
  | self, event :: events => snapshots mailboxId (self.step event) events

/-- What only the later look finds has a greater number than all the earlier one finds, and a
    session that compares the greatest numbers notices it. -/
def Ascends (old new : List Message) : Prop :=
  ∀ m ∈ new, m ∉ old → (∀ v ∈ old, v.uid < m.uid) ∧ uidMaxOf old < uidMaxOf new

/-! ## Overtaking -/

/-- The message is written, and there is a look after that. -/
def Seen (documentId : ℕ) : List Event → Prop
  | [] => False
  | .commit id :: events => (id = documentId ∧ .snapshot ∈ events) ∨ Seen documentId events
  | _ :: events => Seen documentId events

/-- No look finds a message while a lower number is still to be written and seen. -/
def InOrder (mailboxId : ℕ) : Mailboxes → List Event → Prop
  | _, [] => True
  | self, .snapshot :: events =>
    (∀ item ∈ self.inFlight, Seen item.documentId events →
      ∀ uid, item.uidIn mailboxId = some uid →
        ∀ m ∈ messagesIn self.items mailboxId, m.uid < uid) ∧
      InOrder mailboxId self events
  | self, event :: events => InOrder mailboxId (self.step event) events

/-! ## Numbers -/

/-- Assigned numbers are new. -/
theorem assignUids_spec (uidCounter : ℕ → ℕ) (mailboxIds : List ℕ) :
    (∀ id, uidCounter id ≤ (Mailboxes.assignUids uidCounter mailboxIds).1 id) ∧
      (∀ m ∈ (Mailboxes.assignUids uidCounter mailboxIds).2,
        uidCounter m.mailboxId < m.uid ∧
          m.uid ≤ (Mailboxes.assignUids uidCounter mailboxIds).1 m.mailboxId) ∧
      (Mailboxes.assignUids uidCounter mailboxIds).2.Nodup := by
  induction mailboxIds generalizing uidCounter with
  | nil => exact ⟨fun _ => le_refl _, forall_mem_nil _, nodup_nil⟩
  | cons mailboxId mailboxIds ih =>
    obtain ⟨hle, hnew, hnodup⟩ := ih (update uidCounter mailboxId (uidCounter mailboxId + 1))
    have hupdate (id : ℕ) : uidCounter id ≤
        update uidCounter mailboxId (uidCounter mailboxId + 1) id := by
      rw [update_apply]
      split
      · rename_i heq
        rw [heq]
        exact le_succ _
      · exact le_refl _
    have hself := hle mailboxId
    rw [update_self] at hself
    rw [Mailboxes.assignUids, forall_mem_cons, nodup_cons]
    refine ⟨fun id => (hupdate id).trans (hle id), ⟨⟨lt_succ_self _, hself⟩, ?_⟩, ?_, hnodup⟩
    · intro m hm
      exact ⟨(hupdate m.mailboxId).trans_lt (hnew m hm).1, (hnew m hm).2⟩
    · intro hmem
      have hlt := (hnew _ hmem).1
      rw [update_self] at hlt
      exact lt_irrefl _ hlt

/-- A number is that of one message, and the counter is not below it. -/
structure Valid (store : Mailboxes) : Prop where
  nodup : ((store.items ++ store.inFlight).flatMap (·.mailboxes)).Nodup
  bounded : ∀ item ∈ store.items ++ store.inFlight, ∀ m ∈ item.mailboxes,
    0 < m.uid ∧ m.uid ≤ store.uidCounter m.mailboxId

namespace Valid

variable {store : Mailboxes}

theorem new : Valid .new := ⟨nodup_nil, forall_mem_nil _⟩

section

variable (h : Valid store) {m : Message}

include h

/-- New numbers are above all that a mailbox has. -/
theorem assign (mailboxIds : List ℕ) : Valid (store.assignEmailIds mailboxIds) := by
  obtain ⟨hle, hnew, hnodup⟩ := assignUids_spec store.uidCounter mailboxIds
  have happend : (store.assignEmailIds mailboxIds).items ++
      (store.assignEmailIds mailboxIds).inFlight =
      (store.items ++ store.inFlight) ++
        [⟨store.documentId + 1, (Mailboxes.assignUids store.uidCounter mailboxIds).2⟩] :=
    (append_assoc _ _ _).symm
  refine ⟨?_, ?_⟩ <;> rw [happend]
  · rw [flatMap_append, flatMap_singleton]
    refine nodup_append.mpr ⟨h.nodup, hnodup, ?_⟩
    rintro m hm _ hm' rfl
    -- old numbers are not above the counter, new ones are
    obtain ⟨item, hitem, hmem⟩ := mem_flatMap.mp hm
    exact absurd (h.bounded item hitem m hmem).2 (not_le.mpr (hnew m hm').1)
  · intro item hitem m hm
    rcases mem_append.mp hitem with hitem | hitem
    · exact ⟨(h.bounded item hitem m hm).1, (h.bounded item hitem m hm).2.trans (hle _)⟩
    · rw [mem_singleton.mp hitem] at hm
      exact ⟨zero_lt_of_lt (hnew m hm).1, (hnew m hm).2⟩

theorem commit (documentId : ℕ) : Valid (store.commit documentId) := by
  have hperm : ((store.commit documentId).items ++ (store.commit documentId).inFlight).Perm
      (store.items ++ store.inFlight) := by
    have hsplit := filter_append_perm (·.documentId = documentId) store.inFlight
    simp only [← decide_not] at hsplit
    show ((store.items ++ _) ++ _).Perm _
    rw [append_assoc]
    exact hsplit.append_left _
  refine ⟨(hperm.flatMap_right _).nodup_iff.mpr h.nodup, fun item hitem => ?_⟩
  exact h.bounded item (hperm.mem_iff.mp hitem)

theorem nodup_items : (store.items.flatMap (·.mailboxes)).Nodup := by
  have hnodup := h.nodup
  rw [flatMap_append] at hnodup
  exact (nodup_append.mp hnodup).1

theorem mem_messagesIn_iff {mailboxId : ℕ} :
    m ∈ messagesIn store.items mailboxId ↔
      ∃ item ∈ store.items, item.documentId = m.documentId ∧ item.uidIn mailboxId = some m.uid :=
  mem_messagesIn h.nodup_items

theorem uid_le {mailboxId : ℕ} (hm : m ∈ messagesIn store.items mailboxId) :
    m.uid ≤ store.uidCounter mailboxId := by
  obtain ⟨item, hitem, -, huid⟩ := h.mem_messagesIn_iff.mp hm
  exact (h.bounded item (mem_append_left _ hitem) _ (mem_mailboxes_of_uidIn huid)).2

/-- What is still to be written is not found. -/
theorem not_mem_messagesIn {mailboxId uid : ℕ} {item : MessageItem}
    (hitem : item ∈ store.inFlight) (huid : item.uidIn mailboxId = some uid) :
    (⟨uid, item.documentId⟩ : Message) ∉ messagesIn store.items mailboxId := by
  intro hmem
  obtain ⟨other, hother, -, huid'⟩ := h.mem_messagesIn_iff.mp hmem
  have hnodup := h.nodup
  rw [flatMap_append] at hnodup
  exact (nodup_append.mp hnodup).2.2 _
    (mem_flatMap.mpr ⟨other, hother, mem_mailboxes_of_uidIn huid'⟩) _
    (mem_flatMap.mpr ⟨item, hitem, mem_mailboxes_of_uidIn huid⟩) rfl

end

end Valid

/-- In every run, a number in a mailbox is that of one message, and the counter is not below it. -/
theorem valid_run (events : List Event) : Valid (events.foldl Mailboxes.step .new) := by
  refine foldlRecOn _ _ Valid.new fun store h event _ => ?_
  cases event with
  | assign mailboxIds => exact h.assign mailboxIds
  | commit documentId => exact h.commit documentId
  | snapshot => exact h

/-! ## Later looks -/

variable {mailboxId : ℕ} {store : Mailboxes} {events : List Event} {later : List Message}

theorem mem_of_mem_snapshots (h : later ∈ snapshots mailboxId store events) :
    Event.snapshot ∈ events := by
  induction events generalizing store with
  | nil => contradiction
  | cons event events ih =>
    rcases event with mailboxIds | documentId | _
    · exact mem_cons_of_mem _ (ih h)
    · exact mem_cons_of_mem _ (ih h)
    · exact mem_cons_self

/-- What a later look finds was there, will be seen, or has a number not assigned yet. -/
theorem mem_snapshots (hvalid : Valid store) {m : Message}
    (h : later ∈ snapshots mailboxId store events) (hm : m ∈ later) :
    m ∈ messagesIn store.items mailboxId ∨
      (∃ item ∈ store.inFlight, Seen item.documentId events ∧
        item.documentId = m.documentId ∧ item.uidIn mailboxId = some m.uid) ∨
      store.uidCounter mailboxId < m.uid := by
  induction events generalizing store with
  | nil => contradiction
  | cons event events ih =>
    rcases event with mailboxIds | documentId | _
    · rcases ih (hvalid.assign mailboxIds) h with hmem | ⟨item, hitem, hseen, hid, huid⟩ | hlt
      · exact Or.inl hmem
      · rcases mem_append.mp hitem with hitem | hitem
        · exact Or.inr (Or.inl ⟨item, hitem, hseen, hid, huid⟩)
        · rw [mem_singleton.mp hitem] at huid
          exact Or.inr (Or.inr ((assignUids_spec _ _).2.1 _ (mem_mailboxes_of_uidIn huid)).1)
      · exact Or.inr (Or.inr (((assignUids_spec _ mailboxIds).1 mailboxId).trans_lt hlt))
    · rcases ih (hvalid.commit documentId) h with hmem | ⟨item, hitem, hseen, hid, huid⟩ | hlt
      · obtain ⟨item, hitem, hid, huid⟩ := (hvalid.commit documentId).mem_messagesIn_iff.mp hmem
        rcases mem_append.mp hitem with hitem | hitem
        · exact Or.inl (hvalid.mem_messagesIn_iff.mpr ⟨item, hitem, hid, huid⟩)
        -- it is written now
        obtain ⟨hitem, hdocument⟩ := mem_filter.mp hitem
        exact Or.inr (Or.inl ⟨item, hitem,
          Or.inl ⟨(of_decide_eq_true hdocument).symm, mem_of_mem_snapshots h⟩, hid, huid⟩)
      · exact Or.inr (Or.inl ⟨item, (mem_filter.mp hitem).1, Or.inr hseen, hid, huid⟩)
      · exact Or.inr (Or.inr hlt)
    · rcases mem_cons.mp h with rfl | h
      · exact Or.inl hm
      · exact ih hvalid h

theorem Seen.mem_snapshot {documentId : ℕ} (h : Seen documentId events) :
    Event.snapshot ∈ events := by
  induction events with
  | nil => contradiction
  | cons event events ih =>
    rcases event with mailboxIds | id | _
    · exact mem_cons_of_mem _ (ih h)
    · rcases h with ⟨-, h⟩ | h
      · exact mem_cons_of_mem _ h
      · exact mem_cons_of_mem _ (ih h)
    · exact mem_cons_self

/-- What has been written, or is in flight and will be seen, is found by a later look. -/
theorem exists_snapshot {uid : ℕ} (hvalid : Valid store) {item : MessageItem}
    (huid : item.uidIn mailboxId = some uid)
    (h : item ∈ store.items ∧ Event.snapshot ∈ events ∨
      item ∈ store.inFlight ∧ Seen item.documentId events) :
    ∃ later ∈ snapshots mailboxId store events, ⟨uid, item.documentId⟩ ∈ later := by
  induction events generalizing store with
  | nil => simp [Seen] at h
  | cons event events ih =>
    rcases event with mailboxIds | id | _ <;> rcases h with ⟨hitem, h⟩ | ⟨hitem, h⟩
    · exact ih (hvalid.assign mailboxIds) (.inl ⟨hitem, (mem_cons.mp h).resolve_left nofun⟩)
    · exact ih (hvalid.assign mailboxIds) (.inr ⟨mem_append_left _ hitem, h⟩)
    · refine ih (hvalid.commit id) (.inl ⟨mem_append_left _ hitem, ?_⟩)
      exact (mem_cons.mp h).resolve_left nofun
    · by_cases hid : item.documentId = id
      · have hmem : item ∈ (store.commit id).items :=
          mem_append_right _ (mem_filter.mpr ⟨hitem, decide_eq_true hid⟩)
        exact ih (hvalid.commit id) (.inl ⟨hmem, h.elim And.right Seen.mem_snapshot⟩)
      · refine ih (hvalid.commit id) (.inr ⟨mem_filter.mpr ⟨hitem, decide_eq_true hid⟩, ?_⟩)
        exact h.resolve_left fun hcommit => hid hcommit.1.symm
    · exact ⟨_, mem_cons_self, hvalid.mem_messagesIn_iff.mpr ⟨item, hitem, rfl, huid⟩⟩
    · obtain ⟨later, hlater, hmem⟩ := ih hvalid (.inr ⟨hitem, h⟩)
      exact ⟨later, mem_cons_of_mem _ hlater, hmem⟩

/-- A look, and those that come after it. -/
theorem forall_ascends_iff (hvalid : Valid store) (events : List Event) :
    (∀ later ∈ snapshots mailboxId store events, Ascends (messagesIn store.items mailboxId) later) ↔
      ∀ item ∈ store.inFlight, Seen item.documentId events →
        ∀ uid, item.uidIn mailboxId = some uid →
          ∀ m ∈ messagesIn store.items mailboxId, m.uid < uid := by
  constructor
  · intro h item hitem hseen uid huid
    obtain ⟨later, hlater, hmem⟩ := exists_snapshot hvalid huid (.inr ⟨hitem, hseen⟩)
    exact (h later hlater _ hmem (hvalid.not_mem_messagesIn hitem huid)).1
  · intro h later hlater m hm hnew
    have hall : 0 < m.uid ∧ ∀ v ∈ messagesIn store.items mailboxId, v.uid < m.uid := by
      rcases mem_snapshots hvalid hlater hm with hmem | ⟨item, hitem, hseen, -, huid⟩ | hlt
      · exact absurd hmem hnew
      · exact ⟨(hvalid.bounded item (mem_append_right _ hitem) _
          (mem_mailboxes_of_uidIn huid)).1, h item hitem hseen _ huid⟩
      · exact ⟨zero_lt_of_lt hlt, fun v hv => (hvalid.uid_le hv).trans_lt hlt⟩
    refine ⟨hall.2, ?_⟩
    have hmax : uidMaxOf (messagesIn store.items mailboxId) ≤ m.uid - 1 :=
      uidMaxOf_le_iff.mpr fun v hv => le_sub_one_of_lt (hall.2 v hv)
    have := le_uidMaxOf hm
    omega

theorem pairwise_snapshots_iff (hvalid : Valid store) (events : List Event) :
    (snapshots mailboxId store events).Pairwise Ascends ↔ InOrder mailboxId store events := by
  induction events generalizing store with
  | nil => exact iff_of_true Pairwise.nil trivial
  | cons event events ih =>
    rcases event with mailboxIds | documentId | _
    · exact ih (hvalid.assign mailboxIds)
    · exact ih (hvalid.commit documentId)
    · rw [snapshots, pairwise_cons]
      exact and_congr (forall_ascends_iff hvalid events) (ih hvalid)

/-- Numbers are seen in ascending order if and only if no delivery is overtaken. -/
theorem snapshots_ascend_iff (mailboxId : ℕ) (events : List Event) :
    (snapshots mailboxId .new events).Pairwise Ascends ↔ InOrder mailboxId .new events :=
  pairwise_snapshots_iff Valid.new events

/-- Two messages are delivered, and the second is written first. A session that has seen it is not
    told of the first: it writes no response, although there is a new message. -/
theorem changeResponses_overtaken :
    snapshots 0 .new [.assign [0], .assign [0], .commit 2, .snapshot, .commit 1, .snapshot] =
        [[⟨2, 2⟩], [⟨1, 1⟩, ⟨2, 2⟩]] ∧
      changeResponses false (uidMaxOf [⟨2, 2⟩]) ⟨.of [⟨1, 1⟩, ⟨2, 2⟩] 2, []⟩ = [] := by
  decide

end Inworkspace.Email
