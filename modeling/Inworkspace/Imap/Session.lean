import Inworkspace.Imap.Receiver
import Inworkspace.Lib.Connection

/-!
# IMAP sessions

`imap::core::session`, `imap::core::client` and `imap::op::authenticate`: all of a read is
parsed, and each request is checked against the state of the session, before any
of the requests is executed; an accepted `STARTTLS` ends the execution. The session
goes on on the secured connection with its receiver and all it has been told with
`ENABLE` and the like.

* `keeps_ingest`: the session has the flags of a new one, unless a command of an
  authenticated client has been executed;
* `protocol_forgets`: then, if the receiver is not within a request, nothing of the clear
  text but the authentication matters on the secured connection.
-/

namespace Inworkspace.Imap

open Lib.Connection

/-- `imap_proto::Command`. -/
inductive Command where
  | capability
  | noop
  | logout
  | startTls
  | authenticate
  | login
  | enable
  | select
  | examine
  | create
  | delete
  | rename
  | subscribe
  | unsubscribe
  | list
  | namespace
  | status
  | append
  | idle
  | close
  | unselect
  | expunge (isUid : Bool)
  | search (isUid : Bool)
  | fetch (isUid : Bool)
  | store (isUid : Bool)
  | copy (isUid : Bool)
  | move (isUid : Bool)
  | lsub
  | check
  | sort (isUid : Bool)
  | thread (isUid : Bool)
  | setAcl
  | deleteAcl
  | getAcl
  | listRights
  | myRights
  | unauthenticate
  | id
  | getQuota
  | getQuotaRoot
  | getJmapAccess
  deriving DecidableEq

namespace Command

/-- The names of the commands; some commands have a variant for UIDs. -/
def table : List (String × (Bool → Command)) :=
  [("CAPABILITY", fun _ => capability), ("NOOP", fun _ => noop), ("LOGOUT", fun _ => logout),
    ("STARTTLS", fun _ => startTls), ("AUTHENTICATE", fun _ => authenticate),
    ("LOGIN", fun _ => login), ("ENABLE", fun _ => enable), ("SELECT", fun _ => select),
    ("EXAMINE", fun _ => examine), ("CREATE", fun _ => create), ("DELETE", fun _ => delete),
    ("RENAME", fun _ => rename), ("SUBSCRIBE", fun _ => subscribe),
    ("UNSUBSCRIBE", fun _ => unsubscribe), ("LIST", fun _ => list),
    ("NAMESPACE", fun _ => Command.namespace), ("STATUS", fun _ => status),
    ("APPEND", fun _ => append), ("IDLE", fun _ => idle), ("CLOSE", fun _ => close),
    ("UNSELECT", fun _ => unselect), ("EXPUNGE", expunge), ("SEARCH", search), ("FETCH", fetch),
    ("STORE", store), ("COPY", copy), ("MOVE", move), ("SORT", sort), ("THREAD", thread),
    ("LSUB", fun _ => lsub), ("CHECK", fun _ => check), ("SETACL", fun _ => setAcl),
    ("DELETEACL", fun _ => deleteAcl), ("GETACL", fun _ => getAcl),
    ("LISTRIGHTS", fun _ => listRights), ("MYRIGHTS", fun _ => myRights),
    ("UNAUTHENTICATE", fun _ => unauthenticate), ("ID", fun _ => Command.id),
    ("GETQUOTA", fun _ => getQuota), ("GETQUOTAROOT", fun _ => getQuotaRoot),
    ("GETJMAPACCESS", fun _ => getJmapAccess)]

instance : CommandParser Command where
  default := noop
  parse value uid := (table.find? fun entry => asBytes entry.1 == value).map fun entry => entry.2 uid
  tokenizeBrackets
    | fetch _ => true
    | _ => false

end Command

/-! ## Sessions -/

/-- An error, with the tag of the request it answers. -/
structure Error where
  error : TrcError
  id : Option String := none
  deriving DecidableEq

/-- What the client is told. -/
inductive Reply where
  | ok (tag text : String)
  | error (error : Error)
  | continuation (text : String)
  | response (text : String)
  deriving DecidableEq

/-- What is done for a client. -/
inductive Event where
  | executed (requests : List (Request Command))
  | login (credentials : Credentials)
  | reply (reply : Reply)
  deriving DecidableEq

/-- `State`, over the data of an authenticated client and of a selected mailbox. -/
inductive State (Data Mailbox : Type) where
  | notAuthenticated (authFailures : ℕ)
  | authenticated (data : Data)
  | selected (data : Data) (mailbox : Mailbox)
  deriving DecidableEq

inductive ProtocolVersion where
  | rev1
  | rev2
  deriving DecidableEq

/-- What a client has enabled. -/
structure Flags where
  version : ProtocolVersion := .rev1
  isCondstore : Bool := false
  isQresync : Bool := false
  isUtf8 : Bool := false
  isObjectid : Bool := false
  deriving DecidableEq

structure Session (Data Mailbox : Type) where
  receiver : Receiver Command
  state : State Data Mailbox
  flags : Flags
  isTls : Bool

/-- The configuration of the server, and what it answers, with the handlers of the commands that
    only report (`respond`) and of those for authenticated clients (`handle`). -/
structure Server (World Data Mailbox : Type) where
  allowPlainAuth : Bool
  maxAuthFailures : ℕ
  maxRequestSize : ℕ
  acceptorIsTls : Bool
  hasRateRequests : Bool
  isSelect : Mailbox → Bool
  base64Decode : String → Option (List UInt8)
  decodeSaslChallengeOauth : List UInt8 → Option Credentials
  isScannerFail2banned : World → Bool × World
  isRateAllowed : Data → World → Except TrcError Bool × World
  authenticate : Credentials → World → Except TrcError AccessToken × World
  isImapRequestAllowed : AccessToken → World → Bool × World
  newSessionData : AccessToken → World → Except TrcError Data × World
  respond : Request Command → Session Data Mailbox → World →
    (Except Error String × State Data Mailbox) × World
  handle : List (Request Command) → Bool → Session Data Mailbox → World →
    (Except Error String × State Data Mailbox × Flags) × World

section Handlers

variable {World Data Mailbox : Type} (server : Server World Data Mailbox)
  (request : Request Command) (bytes : List UInt8) (requests : List (Request Command))

/-- Computations of an IMAP session. -/
abbrev ImapM (World Data Mailbox : Type) := ConnM Error (Session Data Mailbox) World Event

/-- `write_error`: whether the connection stays open. -/
def writeError (err : Error) : ImapM World Data Mailbox Bool :=
  if err.error.shouldWriteErr then do
    emit (.reply (.error err))
    return !err.error.mustDisconnect
  else return false

/-- What follows a failed authentication: the failure is counted. -/
def authFailure (err : TrcError) (tag : String) : ImapM World Data Mailbox Error := do
  if err.event ≠ .authFailed then
    return ⟨err, some tag⟩
  match (← session).state with
  | .notAuthenticated authFailures =>
    if authFailures < server.maxAuthFailures then
      update fun s => { s with state := .notAuthenticated (authFailures + 1) }
      return ⟨err, some tag⟩
    else
      return ⟨⟨.authTooManyAttempts, ""⟩, none⟩
  -- `unreachable!()`, reached by two logins in one read: the task ends
  | _ => return ⟨⟨.networkWriteError, ""⟩, none⟩

/-- An error without its tag, given the tag. -/
def ofExceptId {α : Type} (tag : Option String) (x : Except TrcError α) :
    ImapM World Data Mailbox α :=
  match x with
  | .ok a => return a
  | .error err => throw ⟨err, tag⟩

def authenticate (credentials : Credentials) (tag : String) : ImapM World Data Mailbox Unit := do
  emit (.login credentials)
  match ← ask (server.authenticate credentials) with
  | .error err => throw (← authFailure server err tag)
  | .ok token =>
    let accessToken ← ofExceptId none
      (token.assertHasPermission .imapAuthenticate "imapAuthenticate")
    match ← ask (server.isImapRequestAllowed accessToken) with
    | false => throw ⟨⟨.limitConcurrentRequest, ""⟩, some tag⟩
    | true =>
      let data ← ofExceptId (some tag) (← ask (server.newSessionData accessToken))
      update fun s => { s with state := .authenticated data }
      emit (.reply (.ok tag "Authentication successful"))

/-- `parse_authenticate`: the mechanism and the parameters. -/
def parseAuthenticate : Except Error (Mechanism × List String) :=
  match request.tokens with
  | [] => .error ⟨⟨.imapError, "Authentication mechanism missing."⟩, some request.tag⟩
  | token :: tokens =>
    match Mechanism.parse token.unwrapBytes with
    | .error message => .error ⟨⟨.imapError, message⟩, some request.tag⟩
    | .ok mechanism => .ok (mechanism, tokens.filterMap fun token => token.unwrapString.toOption)

/-- `parse_login`: the user name and the password. -/
def parseLogin : Except Error (String × String) :=
  let bad message : Error := ⟨⟨.imapError, message⟩, some request.tag⟩
  match request.tokens with
  | [username, password] =>
    match username.unwrapString, password.unwrapString with
    | .ok username, .ok password => .ok (username, password)
    | .error message, _ => .error (bad message)
    | _, .error message => .error (bad message)
  | [] => .error (bad "Missing arguments.")
  | _ => .error (bad "Too many arguments.")

/-- The credentials in the response to a challenge. -/
def decodeSasl (mechanism : Mechanism) (challenge tag : String) : Except Error Credentials :=
  match server.base64Decode challenge with
  | none => .error ⟨⟨.authError, "Failed to decode challenge."⟩, some tag⟩
  | some challenge =>
    let credentials :=
      if mechanism = .plain then Credentials.decodeSaslChallengePlain challenge
      else server.decodeSaslChallengeOauth challenge
    match credentials with
    | some credentials => .ok credentials
    | none => .error ⟨⟨.authError, "Invalid SASL challenge."⟩, some tag⟩

/-- The receiver reads the next line as the last argument of `AUTHENTICATE`; its buffer stays. -/
def awaitResponse (tag : String) (mechanism : Mechanism) (receiver : Receiver Command) :
    Receiver Command :=
  { receiver with
    request := ⟨tag, .authenticate, [.argument (asBytes mechanism.asStr)]⟩
    state := .argument 32 }

def handleAuthenticate : ImapM World Data Mailbox Unit := do
  let (mechanism, params) ← ofExcept (parseAuthenticate request)
  if mechanism = .plain ∨ mechanism = .oAuthBearer ∨ mechanism = .xOauth2 then
    match params.getLast? with
    | some challenge =>
      let credentials ← ofExcept (decodeSasl server mechanism challenge request.tag)
      authenticate server credentials request.tag
    | none =>
      update fun s => { s with receiver := awaitResponse request.tag mechanism s.receiver }
      emit (.reply (.continuation ""))
  else
    throw ⟨⟨.authError, "Authentication mechanism not supported."⟩, some request.tag⟩

def handleLogin : ImapM World Data Mailbox Unit := do
  let (username, password) ← ofExcept (parseLogin request)
  authenticate server (.basic username password none) request.tag

/-- The commands that only report to the client. -/
def handleRespond : ImapM World Data Mailbox Unit := do
  let (result, state) ← ask (server.respond request (← session))
  update fun s => { s with state }
  emit (.reply (.response (← ofExcept result)))

/-- The commands for authenticated clients. -/
def handleOther (requests : List (Request Command)) (hasExpunge : Bool) :
    ImapM World Data Mailbox Unit := do
  let (result, state, flags) ← ask (server.handle requests hasExpunge (← session))
  update fun s => { s with state, flags }
  emit (.reply (.response (← ofExcept result)))

/-- The execution of a request, or of several of the same command. -/
def execute (more : List (Request Command)) (hasExpunge : Bool) :
    ImapM World Data Mailbox Outcome :=
  match request.command with
  | .authenticate => do
    handleAuthenticate server request
    return .goOn
  | .login => do
    handleLogin server request
    return .goOn
  | .startTls => do
    emit (.reply (.ok request.tag "Begin TLS negotiation now"))
    return .upgrade
  | .unauthenticate => do
    update fun s => { s with state := .notAuthenticated 0 }
    emit (.reply (.ok request.tag "UNAUTHENTICATE completed"))
    return .goOn
  | .logout => do
    handleRespond server request
    return .close
  | .capability | .noop | .check | .id => do
    handleRespond server request
    return .goOn
  | _ => do
    handleOther server (request :: more) hasExpunge
    return .goOn

/-! ## Reads -/

/-- The check of a command against the state, the second part of `is_allowed`. -/
def isPermitted (s : Session Data Mailbox) (command : Command) : Except String Unit :=
  match command with
  | .capability | .noop | .logout | .id => .ok ()
  | .startTls =>
    if s.isTls then .error "Already in TLS mode."
    else if server.acceptorIsTls then .ok () else .error "TLS is not available."
  | .authenticate =>
    match s.state with
    | .notAuthenticated _ => .ok ()
    | _ => .error "Already authenticated."
  | .login =>
    match s.state with
    | .notAuthenticated _ =>
      if s.isTls ∨ server.allowPlainAuth then .ok ()
      else .error "LOGIN is disabled on the clear-text port."
    | _ => .error "Already authenticated."
  | .enable | .select | .examine | .create | .delete | .rename | .subscribe | .unsubscribe
  | .list | .lsub | .namespace | .status | .append | .idle | .setAcl | .deleteAcl | .getAcl
  | .listRights | .myRights | .unauthenticate | .getQuota | .getQuotaRoot | .getJmapAccess =>
    match s.state with
    | .notAuthenticated _ => .error "Not authenticated."
    | _ => .ok ()
  | .close | .unselect | .expunge _ | .search _ | .fetch _ | .store _ | .copy _ | .move _
  | .check | .sort _ | .thread _ =>
    match s.state with
    | .notAuthenticated _ => .error "Not authenticated."
    | .authenticated _ => .error "No mailbox is selected."
    | .selected _ mailbox =>
      match command with
      | .store _ | .expunge _ | .move _ =>
        if server.isSelect mailbox then .ok () else .error "Not permitted in EXAMINE state."
      | _ => .ok ()

/-- The check of the rate of requests, the first part of `is_allowed`. -/
def checkRate (s : Session Data Mailbox) : ImapM World Data Mailbox Unit :=
  let check (data : Data) : ImapM World Data Mailbox Unit := do
    match ← ofExceptId none (← ask (server.isRateAllowed data)) with
    | true => return
    | false => throw ⟨⟨.limitTooManyRequests, ""⟩, none⟩
  if server.hasRateRequests then
    match s.state with
    | .notAuthenticated _ => return
    | .authenticated data => check data
    | .selected data _ => check data
  else return

def isAllowed : ImapM World Data Mailbox Unit := do
  let s ← session
  checkRate server s
  match isPermitted server s request.command with
  | .ok () => return
  | .error message => throw ⟨⟨.imapError, message⟩, some request.tag⟩

/-- How a read ends: the connection is closed, or there are requests, and perhaps the client waits
    to send a literal. -/
inductive Parsed where
  | closed
  | requests (requests : List (Request Command)) (needsLiteral : Option ℕ)

/-- What follows an error of the receiver, with which the read ends. -/
def handleReceiverError (requests : List (Request Command)) :
    ReceiverError → ImapM World Data Mailbox Parsed
  | .needsLiteral size => return .requests requests (some size)
  | .error tag message => do
    let report : ImapM World Data Mailbox Parsed := do
      match ← writeError ⟨⟨.imapError, message⟩, tag⟩ with
      | true => return .requests requests none
      | false => return .closed
    match (← session).state with
    | .notAuthenticated _ =>
      match ← ask server.isScannerFail2banned with
      | true => return .closed
      | false => report
    | _ => report

/-- The receiver is given a byte. -/
def receive (server : Server World Data Mailbox) (byte : UInt8) (s : Session Data Mailbox) :
    Except ReceiverError (Option (Request Command)) × Session Data Mailbox :=
  match Receiver.step server.maxRequestSize byte s.receiver with
  | .ok request receiver => (.ok request, { s with receiver })
  | .error err receiver => (.error err, { s with receiver })

/-- The first loop of `ingest`: the read is parsed, up to an error. -/
def parseRequests : List UInt8 → List (Request Command) → ImapM World Data Mailbox Parsed
  | [], requests => return .requests requests none
  | byte :: bytes, requests => do
    match ← change (receive server byte) with
    | .ok none => parseRequests bytes requests
    | .ok (some request) =>
      match ← attempt (isAllowed server request) with
      | .ok () => parseRequests bytes (requests ++ [request])
      | .error err =>
        match ← writeError err with
        | true => parseRequests bytes requests
        | false => return .closed
    | .error err => handleReceiverError server requests err

/-- Whether requests of the command are executed together. -/
def Command.isGrouped : Command → Bool
  | .create | .delete | .status | .fetch _ => true
  | _ => false

/-- `group_requests`: a grouped command is put together with the same command behind it. -/
def groupRequests : List (Request Command) → List (Request Command × List (Request Command))
  | [] => []
  | request :: requests =>
    match groupRequests requests with
    | (next, more) :: groups =>
      if request.command.isGrouped ∧ next.command = request.command then
        (request, next :: more) :: groups
      else (request, []) :: (next, more) :: groups
    | [] => [(request, [])]

/-- The second loop of `ingest`, over the requests. -/
def processRequests (hasExpunge : Bool) :
    List (Request Command × List (Request Command)) → ImapM World Data Mailbox Outcome
  | [] => return .goOn
  | (request, more) :: groups => do
    match ← attempt (logged (.executed (request :: more))
      (execute server request more hasExpunge)) with
    | .ok .goOn => processRequests hasExpunge groups
    | .ok outcome => return outcome
    | .error err =>
      match ← writeError err with
      | true => processRequests hasExpunge groups
      | false => return .close

/-- The requests for which `ingest` sets `has_expunge`. -/
def isExpunge : Bool :=
  match request.command with
  | .expunge _ | .close => true
  | _ => false

def ingest (bytes : List UInt8) : ImapM World Data Mailbox Outcome := do
  match ← parseRequests server bytes [] with
  | .closed => return .close
  | .requests requests needsLiteral =>
    let outcome ← processRequests server (requests.any isExpunge) (groupRequests requests)
    match outcome, needsLiteral with
    | .goOn, some size =>
      emit (.reply (.continuation ("Ready for " ++ toString size ++ " bytes.")))
      return .goOn
    | outcome, _ => return outcome

/-- An IMAP server: a session starts with nothing read or enabled, and `into_tls` keeps its
    receiver, its state and what is enabled. -/
def protocol :
    Protocol (List UInt8) (Session Data Mailbox) World Event (State Data Mailbox) where
  ingest bytes := orClose (ingest server bytes)
  initial := ⟨.new, .notAuthenticated 0, {}, false⟩
  intoTls s := { s with isTls := true }
  auth s := s.state

/-! ## What survives the handshake -/

/-- The commands that enable nothing: those that only report, or change as whom the client is
    authenticated. -/
def Command.isQuiet : Command → Bool
  | .capability | .noop | .check | .id | .logout | .startTls | .authenticate | .login
  | .unauthenticate => true
  | _ => false

/-- Another command has been executed. -/
def Event.IsLoud (e : Event) : Prop :=
  ∃ request more, e = .executed (request :: more) ∧ request.command.isQuiet = false

/-- Nothing is enabled. -/
def Plain (s : Session Data Mailbox) : Prop := s.flags = {}

theorem keeps_writeError {err : Error} :
    Keeps Event.IsLoud Plain (writeError err : ImapM World Data Mailbox Bool) := by
  rw [writeError]
  split
  · exact .bind (.emit _) fun _ => .pure _
  · exact .pure _

theorem keeps_ofExceptId {α : Type} {tag : Option String} (x : Except TrcError α) :
    Keeps Event.IsLoud Plain (ofExceptId tag x : ImapM World Data Mailbox α) := by
  cases x with
  | ok a => exact .pure a
  | error err => exact .throw _

theorem keeps_authFailure (err : TrcError) (tag : String) :
    Keeps Event.IsLoud Plain (authFailure server err tag) := by
  rw [authFailure]
  split
  · exact .pure _
  refine .bind .session fun s => ?_
  split
  · split
    · exact .bind (.update fun _ hs => hs) fun _ => .pure _
    · exact .pure _
  · exact .pure _

theorem keeps_authenticate (credentials : Credentials) (tag : String) :
    Keeps Event.IsLoud Plain (authenticate server credentials tag) := by
  refine .bind (.emit _) fun _ => .bind (.ask _) fun result => ?_
  split
  · exact .bind (keeps_authFailure server _ _) fun _ => .throw _
  refine .bind (keeps_ofExceptId _) fun _ => .bind (.ask _) fun isAllowed => ?_
  cases isAllowed with
  | false => exact .throw _
  | true =>
    exact .bind (.ask _) fun _ => .bind (keeps_ofExceptId _) fun _ =>
      .bind (.update fun _ hs => hs) fun _ => .emit _

theorem keeps_handleAuthenticate :
    Keeps Event.IsLoud Plain (handleAuthenticate server request) := by
  refine .bind (.ofExcept _) fun ⟨mechanism, params⟩ => ?_
  dsimp only
  split
  · split
    · exact .bind (.ofExcept _) fun _ => keeps_authenticate server _ _
    · exact .bind (.update fun _ hs => hs) fun _ => .emit _
  · exact .throw _

theorem keeps_handleRespond : Keeps Event.IsLoud Plain (handleRespond server request) :=
  .bind .session fun _ => .bind (.ask _) fun _ =>
    .bind (.update fun _ hs => hs) fun _ => .bind (.ofExcept _) fun _ => .emit _

/-- Only commands that are not quiet enable something, and they are in the log. -/
theorem keeps_logged_execute (more : List (Request Command)) (hasExpunge : Bool) :
    Keeps Event.IsLoud Plain (logged (.executed (request :: more))
      (execute server request more hasExpunge)) := by
  -- a command that is not quiet may do anything, for it is in the log
  cases hquiet : request.command.isQuiet with
  | false => exact .logged_of_loud ⟨request, more, rfl, hquiet⟩ _
  | true =>
    refine .logged ?_ _
    have hrespond (outcome : Outcome) : Keeps Event.IsLoud Plain (do
        handleRespond server request
        return outcome) := .bind (keeps_handleRespond server request) fun _ => .pure _
    rw [Command.isQuiet.eq_def] at hquiet
    rw [execute]
    split at hquiet
    iterate 5
      next h =>
        rw [h]
        exact hrespond _
    next h =>
      rw [h]
      exact .bind (.emit _) fun _ => .pure _
    next h =>
      rw [h]
      exact .bind (keeps_handleAuthenticate server _) fun _ => .pure _
    next h =>
      rw [h]
      exact .bind (.bind (.ofExcept _) fun _ => keeps_authenticate server _ _) fun _ => .pure _
    next h =>
      rw [h]
      exact .bind (.update fun _ hs => hs) fun _ => .bind (.emit _) fun _ => .pure _
    next => exact absurd hquiet Bool.false_ne_true

/-- The check enables nothing, whatever its answer. -/
theorem keeps_isAllowed : Keeps Event.IsLoud Plain (isAllowed server request) := by
  have hcheck (data : Data) : Keeps Event.IsLoud Plain (do
      match ← ofExceptId none (← ask (server.isRateAllowed data)) with
      | true => return
      | false => throw ⟨⟨.limitTooManyRequests, ""⟩, none⟩ : ImapM World Data Mailbox Unit) := by
    refine .bind (.ask _) fun _ => .bind (keeps_ofExceptId _) fun isAllowed => ?_
    cases isAllowed with
    | true => exact .pure _
    | false => exact .throw _
  refine .bind .session fun s => .bind ?_ fun _ => ?_
  · rw [checkRate]
    split
    · split
      · exact .pure _
      · exact hcheck _
      · exact hcheck _
    · exact .pure _
  · split
    · exact .pure _
    · exact .throw _

theorem keeps_handleReceiverError {err : ReceiverError} :
    Keeps Event.IsLoud Plain (handleReceiverError server requests err) := by
  cases err with
  | needsLiteral size => exact .pure _
  | error tag message =>
    have hreport : Keeps Event.IsLoud Plain (do
        match ← writeError ⟨⟨.imapError, message⟩, tag⟩ with
        | true => return .requests requests none
        | false => return .closed : ImapM World Data Mailbox Parsed) := by
      refine .bind keeps_writeError fun isOpen => ?_
      cases isOpen <;> exact .pure _
    refine .bind .session fun s => ?_
    split
    · refine .bind (.ask _) fun isBanned => ?_
      cases isBanned with
      | true => exact .pure _
      | false => exact hreport
    · exact hreport

theorem keeps_receive (byte : UInt8) :
    Keeps Event.IsLoud Plain (change (receive server byte) : ImapM World Data Mailbox _) := by
  refine .change fun s hflags => ?_
  rw [receive]
  split <;> exact hflags

/-- Parsing enables nothing. -/
theorem keeps_parseRequests :
    Keeps Event.IsLoud Plain (parseRequests server bytes requests) := by
  induction bytes generalizing requests with
  | nil => exact .pure _
  | cons byte bytes ih =>
    refine .bind (keeps_receive server byte) fun result => ?_
    split
    · exact ih _
    · refine .bind (.attempt (keeps_isAllowed server _)) fun result => ?_
      split
      · exact ih _
      refine .bind keeps_writeError fun isOpen => ?_
      cases isOpen with
      | true => exact ih _
      | false => exact .pure _
    · exact keeps_handleReceiverError _ _

/-- Requests are handled in groups, one after the other. -/
theorem keeps_processRequests (hasExpunge : Bool)
    (groups : List (Request Command × List (Request Command))) :
    Keeps Event.IsLoud Plain (processRequests server hasExpunge groups) := by
  induction groups with
  | nil => exact .pure _
  | cons group groups ih =>
    obtain ⟨request, more⟩ := group
    refine .bind (.attempt (keeps_logged_execute server request more hasExpunge)) fun result => ?_
    split
    · exact ih
    · exact .pure _
    refine .bind keeps_writeError fun isOpen => ?_
    cases isOpen with
    | true => exact ih
    | false => exact .pure _

theorem keeps_ingest : Keeps Event.IsLoud Plain (ingest server bytes) := by
  refine .bind (keeps_parseRequests server bytes []) fun parsed => ?_
  split
  · exact .pure _
  refine .bind (keeps_processRequests server _ _) fun outcome => ?_
  split
  · exact .bind (.emit _) fun _ => .pure _
  · exact .pure _

/-- Nothing of the clear text is kept: the receiver is not within a request, and only quiet commands
    have been executed. -/
def NothingPending (events : List Event) (s : Session Data Mailbox) : Prop :=
  s.receiver = .new ∧ ∀ e ∈ events, ¬ e.IsLoud

/-- Nothing of the clear text is used on the secured connection, if nothing was pending. -/
theorem protocol_forgets : (protocol server).Forgets NothingPending fun _ _ => True := by
  refine Protocol.forgets_of_keeps (P := Plain) (C := fun s => s.receiver = .new) rfl
    (keeps_ingest server) fun {s₁ s₂} hplain₁ hplain₂ hnew₁ hnew₂ hauth => ?_
  have hflags : s₁.flags = s₂.flags := hplain₁.trans hplain₂.symm
  have hstate : s₁.state = s₂.state := hauth
  simp only [protocol, hnew₁, hnew₂, hflags, hstate]

end Handlers

end Inworkspace.Imap
