import Inworkspace.Lib.KeyedList
import Inworkspace.Lib.ListEdit
import Inworkspace.Lib.SortedList

/-!
# The state of a selected mailbox

A session that has selected a mailbox holds two numberings of its messages: the one the client
knows, and the one of the mailbox as it was last read, which waits until it can be told to the
client (`next_state`). `synchronizeMessages` reads the mailbox and notes what has gone;
`writeMailboxChanges` tells the client, by `EXPUNGE` (or `VANISHED`) and `EXISTS` responses, and
takes over the new numbering. `sequenceToIds` finds the messages that the numbers of a command are
about, and `mapResultId` the number under which a message is reported by a search.

What the client has is the list it was given when it selected the mailbox, with the responses it
has got applied to it one by one (`Response.apply`).
-/

namespace Inworkspace.Imap.Selected

open Lib

/-! ## The messages of an account -/

/-- `UidMailbox`: a mailbox of a message, and its number, which is never used again there. -/
structure UidMailbox where
  mailboxId : ℕ
  uid : ℕ
  deriving DecidableEq

/-- `MessageCache`, with the mailboxes of the message. -/
structure MessageItem where
  documentId : ℕ
  mailboxes : List UidMailbox
  deriving DecidableEq

/-- `MessagesCache`: the messages of an account, as of the last change. -/
structure MessagesCache where
  items : List MessageItem
  changeId : ℕ
  nodupDocuments : (items.map (·.documentId)).Nodup
  nodupUids : (items.flatMap (·.mailboxes)).Nodup

/-- A message of the selected mailbox. -/
structure Message where
  uid : ℕ
  documentId : ℕ
  deriving DecidableEq

/-- The number of a message in a mailbox. -/
def MessageItem.uidIn (self : MessageItem) (mailboxId : ℕ) : Option ℕ :=
  self.mailboxes.findSome? fun m => if m.mailboxId = mailboxId then some m.uid else none

/-- The messages that are in a mailbox, in the order of their numbers. -/
def messagesIn (items : List MessageItem) (mailboxId : ℕ) : List Message :=
  SortedList.ofList Message.uid (items.filterMap fun item =>
    (item.uidIn mailboxId).map fun uid => ⟨uid, item.documentId⟩)

variable (cache : MessagesCache) (mailboxId : ℕ)

/-- `uid_map`: the messages of a mailbox, in the order of their numbers. -/
def uidMap : List Message :=
  messagesIn cache.items mailboxId

/-! ## Numberings -/

structure ImapId where
  uid : ℕ
  seqnum : ℕ
  deriving DecidableEq

/-- `MailboxState`, as it is when it has been read: there is no next state. -/
structure Numbering where
  uidMax : ℕ
  idToImap : List (ℕ × ImapId)
  uidToId : List (ℕ × ℕ)
  totalMessages : ℕ
  modseq : ℕ

structure NextMailboxState where
  nextState : Numbering
  deletions : List ImapId

structure MailboxState extends Numbering where
  nextState : Option NextMailboxState

variable (messages : List Message) (isQresync : Bool)

/-- The greatest number. -/
def uidMaxOf : ℕ :=
  messages.foldl (fun uidMax m => if m.uid > uidMax then m.uid else uidMax) 0

/-- The places of the messages, counted from one. -/
def idToImapOf : List (ℕ × ImapId) :=
  messages.zipIdx.foldl
    (fun map entry => KeyedList.upsert map entry.1.documentId ⟨entry.1.uid, entry.2 + 1⟩) []

/-- The loop of `fetch_messages` over the messages. -/
def Numbering.of (modseq : ℕ) : Numbering where
  uidMax := uidMaxOf messages
  idToImap := idToImapOf messages
  uidToId := messages.foldl (fun map m => KeyedList.upsert map m.uid m.documentId) []
  totalMessages := (idToImapOf messages).length
  modseq := modseq

/-- `fetch_messages`: nothing, if the state is the current one. -/
def fetchMessages (currentState : Option ℕ) : Option Numbering :=
  if currentState = some cache.changeId then none
  else some (.of (uidMap cache mailboxId) cache.changeId)

/-- `synchronize_messages`; what it returns is the `modseq` of the state. -/
def synchronizeMessages (current : MailboxState) : MailboxState :=
  match fetchMessages cache mailboxId (some current.modseq) with
  | none => current
  | some newState =>
    let deletions := (current.nextState.map (·.deletions)).getD []
    let isKnown := fun (entry : ℕ × ImapId) => (newState.uidToId.lookup entry.2.uid).isSome
    { current with
      idToImap := current.idToImap.filter isKnown
      uidToId := current.uidToId.filter fun entry =>
        !(current.idToImap.filter (!isKnown ·)).any (·.2.uid = entry.1)
      modseq := newState.modseq
      nextState := some
        ⟨newState, deletions ++ (current.idToImap.filter (!isKnown ·)).map Prod.snd⟩ }

/-! ## Responses -/

/-- The untagged responses about messages, `VANISHED` with ranges of numbers. -/
inductive Response where
  | expunge (number : ℕ)
  | vanished (ranges : List (ℕ × ℕ))
  | exists (totalMessages : ℕ)
  deriving DecidableEq

/-- The loop of `serialize_sequence`, in a range from `id` to `rangeId`. -/
def serializeRanges (id rangeId : ℕ) : List ℕ → List (ℕ × ℕ)
  | [] => [(id, rangeId)]
  | next :: ids =>
    if next = rangeId + 1 then serializeRanges id next ids
    else (id, rangeId) :: serializeRanges next next ids

def serializeSequence : List ℕ → List (ℕ × ℕ)
  | [] => []
  | id :: ids => serializeRanges id id ids

/-- `expunge::Response::serialize_to`: each number is lowered by the responses before it. -/
def serializeExpunge (ids : List ℕ) : List Response :=
  if isQresync then [.vanished (serializeSequence ids)]
  else (ListEdit.lowered 0 ids).map .expunge

/-- The responses about the messages that have gone, and how many there are if some have, or if
    there is a greater number than the client knows. -/
def changeResponses (uidMax : ℕ) (next : NextMailboxState) : List Response :=
  let ids := (next.deletions.map fun id => if isQresync then id.uid else id.seqnum).mergeSort
  let buf := if next.deletions.isEmpty then [] else serializeExpunge isQresync ids
  buf ++
    if !buf.isEmpty ∨ next.nextState.uidMax - uidMax > 0 then
      [.exists next.nextState.totalMessages]
    else []

/-- `write_mailbox_changes`, and the responses that it writes. -/
def writeMailboxChanges (current : MailboxState) : MailboxState × List Response :=
  let current := synchronizeMessages cache mailboxId current
  match current.nextState with
  | none => (current, [])
  | some next => (⟨next.nextState, none⟩, changeResponses isQresync current.uidMax next)

/-- What a client makes of a response: an expunged message, counted in the list as it is, is
    removed, as are those that have vanished. If there are more messages than it knows of, it asks
    the session for what stands behind, in the mailbox as it was read last. It follows no response
    with a number that its list does not have, or with another count than that of its list. -/
def Response.apply (mailbox : List Message) (view : List Message) : Response → Option (List Message)
  | .expunge number => ListEdit.eraseNumber view number
  | .vanished ranges => some (view.filter fun m => !ranges.any fun r => r.1 ≤ m.uid ∧ m.uid ≤ r.2)
  | .exists totalMessages =>
    let view := view ++ (mailbox.take totalMessages).drop view.length
    if view.length = totalMessages then some view else none

/-! ## Numbers in commands and results -/

inductive Sequence where
  | number (value : ℕ)
  | range (start stop : Option ℕ)
  | savedSearch
  | list (items : List Sequence)

mutual

def Sequence.contains (value maxValue : ℕ) : Sequence → Bool
  | .number number => number = value
  | .range (some start) (some stop) => start ≤ value ∧ value ≤ stop ∨ stop ≤ value ∧ value ≤ start
  | .range (some range) none | .range none (some range) =>
    range ≤ value ∧ value ≤ maxValue ∨ maxValue ≤ value ∧ value ≤ range
  | .range none none => value = maxValue
  | .savedSearch => false
  | .list items => containsAny value maxValue items

def containsAny (value maxValue : ℕ) : List Sequence → Bool
  | [] => false
  | item :: items => item.contains value maxValue || containsAny value maxValue items

end

mutual

def Sequence.isSavedSearch : Sequence → Bool
  | .savedSearch => true
  | .list items => anySavedSearch items
  | _ => false

def anySavedSearch : List Sequence → Bool
  | [] => false
  | item :: items => item.isSavedSearch || anySavedSearch items

end

/-- `sequence_to_ids`; with the results of the saved search, if there are any. -/
def sequenceToIds (state : MailboxState) (savedSearch : Option (List ImapId))
    (sequence : Sequence) (isUid : Bool) : Option (List (ℕ × ImapId)) :=
  if !sequence.isSavedSearch then
    -- the numbering that waits is used, if there is one
    let numbering := (state.nextState.map (·.nextState)).getD state.toNumbering
    some (numbering.idToImap.filter fun entry =>
      if isUid then sequence.contains entry.2.uid numbering.uidMax
      else sequence.contains entry.2.seqnum numbering.totalMessages)
  else savedSearch.map fun savedIds => savedIds.filterMap fun imapId =>
    (state.uidToId.lookup imapId.uid).map fun id => (id, imapId)

def mapResultId (state : MailboxState) (documentId : ℕ) (isUid : Bool) : Option (ℕ × ImapId) :=
  match state.idToImap.lookup documentId with
  | some imapId => some (if isUid then imapId.uid else imapId.seqnum, imapId)
  | none =>
    if isUid then
      state.nextState.bind fun next =>
        (next.nextState.idToImap.lookup documentId).map fun imapId => (imapId.uid, imapId)
    else none

/-! ## Sessions -/

/-- A session with a selected mailbox, what its client knows and the mailbox as it was read last. -/
structure Session where
  cache : MessagesCache
  state : MailboxState
  view : List Message
  mailbox : List Message

/-- Messages are added and removed, by this session or by others. `FETCH`, `STORE`, `COPY` and
    `MOVE` synchronize before they look at numbers, and `SEARCH` may after it. `NOOP`, `IDLE`,
    `EXPUNGE` and `MOVE` write the changes. -/
inductive Event where
  | change (cache : MessagesCache)
  | synchronize
  | write (isQresync : Bool)

/-- `SELECT`: the client is told how many messages there are. -/
def select : Session where
  cache := cache
  state := { Numbering.of (uidMap cache mailboxId) cache.changeId with nextState := none }
  view := uidMap cache mailboxId
  mailbox := uidMap cache mailboxId

def Session.step (self : Session) : Event → Session
  | .change cache => { self with cache := cache }
  | .synchronize =>
    { self with
      state := synchronizeMessages self.cache mailboxId self.state
      mailbox := uidMap self.cache mailboxId }
  | .write isQresync =>
    let written := writeMailboxChanges self.cache mailboxId isQresync self.state
    { self with
      state := written.1
      -- a client that cannot follow the responses has nothing
      view := (written.2.foldlM (Response.apply (uidMap self.cache mailboxId)) self.view).getD []
      mailbox := uidMap self.cache mailboxId }

/-- A session from its `SELECT` on. -/
def run (events : List Event) : Session :=
  events.foldl (Session.step mailboxId) (select cache mailboxId)

end Inworkspace.Imap.Selected
