import Inworkspace.Lib.Connection
import Inworkspace.Pop3.Request

/-!
# POP3 sessions

`pop3::session`, `pop3::client` and `pop3::op::authenticate`: what a client sends is
parsed read by read; the commands that end in a read are executed when all of it
has been parsed, up to an `STLS` that is accepted. The session goes on on the
secured connection as it is, with the state of its parser, with the user name
of a `USER` command that no `PASS` has followed, and with the marks of `DELE`.

* `keeps_ingest`: no user name is pending, and the maildrop is as it was fetched, if neither
  `USER` nor a command for messages has been executed;
* `protocol_forgets`: then, if the parser is not within a command, nothing of the clear
  text but the authentication matters on the secured connection.
-/

namespace Inworkspace.Pop3

open Lib.Connection

/-- What the client is told. -/
inductive Reply where
  | ok (text : String)
  | err (error : TrcError)
  | continuation
  | capability (mechanisms : List Mechanism) (stls : Bool)
  | transaction (text : String)
  deriving DecidableEq

/-- What is done for a client. -/
inductive Event where
  | executed (request : Request)
  | login (credentials : Credentials)
  | reply (reply : Reply)
  deriving DecidableEq

inductive LimiterResult where
  | allowed
  | forbidden
  | disabled
  deriving DecidableEq

/-- The configuration of the server, and what it answers, with the handlers of the commands for
    messages. The maildrop of an account is the same whenever it is fetched. -/
structure Server (World Mailbox : Type) where
  allowPlainAuth : Bool
  maxAuthFailures : ℕ
  hasRateRequests : Bool
  base64Decode : String → Option (List UInt8)
  decodeSaslChallengeOauth : List UInt8 → Option Credentials
  isScannerFail2banned : World → Bool × World
  isRateAllowed : Mailbox → World → Except TrcError Bool × World
  authenticate : Credentials → World → Except TrcError AccessToken × World
  isImapRequestAllowed : AccessToken → World → LimiterResult × World
  maildrop : ℕ → Mailbox
  fetchMailbox : ℕ → World → Except TrcError Mailbox × World
  fetchMailbox_eq : ∀ {id w mailbox}, (fetchMailbox id w).1 = .ok mailbox → mailbox = maildrop id
  transaction : Request → Mailbox → AccessToken → World → (Except TrcError String × Mailbox) × World
  quit : Option (Mailbox × AccessToken) → World → Except TrcError String × World

inductive State (Mailbox : Type) where
  | notAuthenticated (authFailures : ℕ) (username : Option String)
  | authenticated (mailbox : Mailbox) (accessToken : AccessToken)
  deriving DecidableEq

namespace State

variable {Mailbox : Type}

/-- The state without the user name that waits for its password. -/
def takeUsername : State Mailbox → State Mailbox
  | notAuthenticated authFailures _ => notAuthenticated authFailures none
  | authenticated mailbox accessToken => authenticated mailbox accessToken

/-- As whom the client is authenticated, or how often that has failed. -/
def auth : State Mailbox → State Unit
  | notAuthenticated authFailures _ => notAuthenticated authFailures none
  | authenticated _ accessToken => authenticated () accessToken

/-- The state with one more failure. -/
def countFailure : State Mailbox → State Mailbox
  | notAuthenticated authFailures username => notAuthenticated (authFailures + 1) username
  | authenticated mailbox accessToken => authenticated mailbox accessToken

/-- No user name waits for its password, and the maildrop is the one of the account. -/
def Fresh (maildrop : ℕ → Mailbox) : State Mailbox → Prop
  | notAuthenticated _ username => username = none
  | authenticated mailbox accessToken => mailbox = maildrop accessToken.accountId

variable {maildrop : ℕ → Mailbox} {state state' : State Mailbox}

theorem Fresh.takeUsername (h : state.Fresh maildrop) : state.takeUsername.Fresh maildrop := by
  cases state with
  | notAuthenticated => rfl
  | authenticated => exact h

theorem Fresh.countFailure (h : state.Fresh maildrop) : state.countFailure.Fresh maildrop := by
  cases state <;> exact h

/-- A fresh state is determined by the authentication. -/
theorem Fresh.eq_of_auth_eq (h : state.Fresh maildrop) (h' : state'.Fresh maildrop)
    (hauth : state.auth = state'.auth) : state = state' := by
  cases state <;> cases state' <;> cases hauth
  · rw [show _ = none from h, show _ = none from h']
  · rw [show _ = maildrop _ from h, show _ = maildrop _ from h']

end State

structure Session (Mailbox : Type) where
  receiver : ParserState
  state : State Mailbox
  isTls : Bool

section Handlers

variable {World Mailbox : Type} (server : Server World Mailbox) (bytes : List UInt8)
  (requests : List (Except TrcError Request)) (s : Session Mailbox) (command : Request)

/-- Computations of a POP3 session. -/
abbrev Pop3M (World Mailbox : Type) := ConnM TrcError (Session Mailbox) World Event

def writeOk (text : String) : Pop3M World Mailbox Unit := emit (.reply (.ok text))

/-- `write_err`: whether the connection stays open. -/
def writeErr (err : TrcError) : Pop3M World Mailbox Bool := do
  if err.shouldWriteErr then
    emit (.reply (.err err))
  return !err.mustDisconnect

/-- What follows a failed authentication: the failure is counted. -/
def authFailure (err : TrcError) : Pop3M World Mailbox TrcError := do
  if err.event ≠ .authFailed then
    return err
  match (← session).state with
  | .notAuthenticated authFailures _ =>
    if authFailures < server.maxAuthFailures then
      update fun s => { s with state := s.state.countFailure }
      return err
    else
      return ⟨.authTooManyAttempts, ""⟩
  | .authenticated _ _ => return ⟨.authTooManyAttempts, ""⟩

def handleAuth (credentials : Credentials) : Pop3M World Mailbox Unit := do
  emit (.login credentials)
  match ← ask (server.authenticate credentials) with
  | .error err => throw (← authFailure server err)
  | .ok token =>
    let accessToken ← ofExcept (token.assertHasPermission .pop3Authenticate "pop3Authenticate")
    match ← ask (server.isImapRequestAllowed accessToken) with
    | .forbidden => throw ⟨.limitConcurrentRequest, ""⟩
    | .allowed | .disabled =>
      let mailbox ← ofExcept (← ask (server.fetchMailbox accessToken.accountId))
      update fun s => { s with state := .authenticated mailbox accessToken }
      writeOk "Authentication successful"

/-- The credentials in the response to a challenge. -/
def decodeSasl (mechanism : Mechanism) (challenge : String) : Option Credentials := do
  let challenge ← server.base64Decode challenge
  if mechanism = .plain then Credentials.decodeSaslChallengePlain challenge
  else server.decodeSaslChallengeOauth challenge

/-- `handle_sasl`. Without an initial response, the parser reads the next line as the argument. -/
def handleSasl (mechanism : Mechanism) (params : List String) : Pop3M World Mailbox Unit := do
  if mechanism = .plain ∨ mechanism = .oAuthBearer ∨ mechanism = .xOauth2 then
    match params.getLast? with
    | some challenge =>
      match decodeSasl server mechanism challenge with
      | some credentials => handleAuth server credentials
      | none => throw ⟨.authError, "Invalid SASL challenge"⟩
    | none =>
      update fun s =>
        { s with receiver := .argument (.auth (asBytes mechanism.asStr) []) 1 true }
      emit (.reply .continuation)
  else
    throw ⟨.authError, "Authentication mechanism not supported."⟩

/-- The check of the commands that give a password away. -/
def validatePlain : Except TrcError Unit :=
  match s.state with
  | .notAuthenticated _ username =>
    if s.isTls ∨ server.allowPlainAuth then
      match command, username with
      | .pass _, none => .error ⟨.pop3Error, "Username was not provided."⟩
      | _, _ => .ok ()
    else .error ⟨.pop3Error, "Cannot authenticate over plain-text."⟩
  | .authenticated _ _ => .error ⟨.pop3Error, "Already authenticated."⟩

/-- The check of the commands for the messages of the mailbox. -/
def validateTransaction : Pop3M World Mailbox Unit :=
  match s.state with
  | .authenticated mailbox _ =>
    if server.hasRateRequests then do
      match ← ofExcept (← ask (server.isRateAllowed mailbox)) with
      | true => return
      | false => throw ⟨.limitTooManyRequests, ""⟩
    else return
  | .notAuthenticated _ _ => throw ⟨.pop3Error, "Not authenticated."⟩

def validateRequest : Pop3M World Mailbox Unit := do
  let s ← session
  match command with
  | .capa | .quit | .noop => return
  | .auth .plain _ | .user _ | .pass _ | .apop _ _ => ofExcept (validatePlain server s command)
  | .auth _ _ =>
    match s.state with
    | .notAuthenticated _ _ => return
    | .authenticated _ _ => throw ⟨.pop3Error, "Already authenticated."⟩
  | .stls => if s.isTls then throw ⟨.pop3Error, "Already in TLS mode."⟩ else return
  | .list _ | .retr _ | .dele _ | .deleMany _ | .top _ _ | .uidl _ | .utf8 | .stat | .rset =>
    validateTransaction server s

def handleCapa : Pop3M World Mailbox Unit := do
  let isTls := (← session).isTls
  let mechanisms :=
    if isTls ∨ server.allowPlainAuth then [.plain, .oAuthBearer, .xOauth2]
    else [.oAuthBearer, .xOauth2]
  emit (.reply (.capability mechanisms !isTls))

/-- The commands for the messages of the mailbox. -/
def handleTransaction : Pop3M World Mailbox Unit := do
  match (← session).state with
  | .authenticated mailbox accessToken =>
    let (result, mailbox) ← ask (server.transaction command mailbox accessToken)
    update fun s => { s with state := .authenticated mailbox accessToken }
    emit (.reply (.transaction (← ofExcept result)))
  -- `unreachable!()`: `validate_request` has refused the command
  | .notAuthenticated _ _ => throw ⟨.networkWriteError, ""⟩

def handleQuit : Pop3M World Mailbox Unit := do
  let open? := match (← session).state with
    | .authenticated mailbox accessToken => some (mailbox, accessToken)
    | .notAuthenticated _ _ => none
  writeOk (← ofExcept (← ask (server.quit open?)))

/-- `PASS`: the user name is used up. -/
def handlePass (string : String) : Pop3M World Mailbox Unit := do
  match (← session).state with
  | .notAuthenticated _ (some username) =>
    update fun s => { s with state := s.state.takeUsername }
    handleAuth server (.basic username string none)
  -- `unreachable!()`: `validate_request` has refused the command
  | _ => throw ⟨.networkWriteError, ""⟩

/-- The execution of a command that `validate_request` has accepted. -/
def execute : Pop3M World Mailbox Outcome :=
  match command with
  | .user name => do
    update fun s =>
      match s.state with
      | .notAuthenticated authFailures _ =>
        { s with state := .notAuthenticated authFailures (some name) }
      | .authenticated _ _ => s
    writeOk (name ++ " is a valid mailbox")
    return .goOn
  | .pass string => do
    handlePass server string
    return .goOn
  | .quit => do
    handleQuit server
    return .close
  | .noop => do
    writeOk "NOOP"
    return .goOn
  | .capa => do
    handleCapa server
    return .goOn
  | .stls => do
    writeOk "Begin TLS negotiation now"
    return .upgrade
  | .utf8 => do
    writeOk "UTF8 enabled"
    return .goOn
  | .auth mechanism params => do
    handleSasl server mechanism params
    return .goOn
  | .apop _ _ => throw ⟨.pop3Error, "APOP not supported."⟩
  | command => do
    handleTransaction server command
    return .goOn

/-! ## Reads -/

/-- The requests with one more; deletions are put together. -/
def pushRequest (requests : List (Except TrcError Request)) (request : Request) :
    List (Except TrcError Request) :=
  match request, requests.getLast? with
  | .dele msg, some (.ok (.deleMany msgs)) => requests.dropLast ++ [.ok (.deleMany (msgs ++ [msg]))]
  | .dele msg, some (.ok (.dele other)) => requests.dropLast ++ [.ok (.deleMany [other, msg])]
  | request, _ => requests ++ [.ok request]

/-- The first loop of `ingest`: the read is parsed. `none` if the client is banned as a port
    scanner. -/
def parseRequests : List UInt8 → List (Except TrcError Request) →
    Pop3M World Mailbox (Option (List (Except TrcError Request)))
  | [], requests => return some requests
  | byte :: bytes, requests => do
    let s ← session
    let (receiver, parsed) := s.receiver.step byte
    update fun s => { s with receiver := receiver }
    match parsed with
    | none => parseRequests bytes requests
    | some (.ok request) => parseRequests bytes (pushRequest requests request)
    | some (.error reason) =>
      match s.state with
      | .notAuthenticated _ _ =>
        if ← ask server.isScannerFail2banned then return none
        parseRequests bytes (requests ++ [.error ⟨.pop3Error, reason⟩])
      | .authenticated _ _ => parseRequests bytes (requests ++ [.error ⟨.pop3Error, reason⟩])

/-- A request is checked and executed. -/
def handleRequest (request : Except TrcError Request) : Pop3M World Mailbox Outcome := do
  let command ← ofExcept request
  validateRequest server command
  logged (.executed command) (execute server command)

/-- The second loop of `ingest`, over the requests. -/
def processRequests : List (Except TrcError Request) → Pop3M World Mailbox Outcome
  | [] => return .goOn
  | request :: requests => do
    match ← attempt (handleRequest server request) with
    | .ok .goOn => processRequests requests
    | .ok outcome => return outcome
    | .error err => if ← writeErr err then processRequests requests else return .close

def ingest (bytes : List UInt8) : Pop3M World Mailbox Outcome := do
  match ← parseRequests server bytes [] with
  | some requests => processRequests server requests
  | none => return .close

/-- A POP3 server: a session starts with nothing read, and `into_tls` keeps its parser
    and its state. -/
def protocol : Protocol (List UInt8) (Session Mailbox) World Event (State Unit) where
  ingest bytes := orClose (ingest server bytes)
  initial := ⟨.init, .notAuthenticated 0 none, false⟩
  intoTls s := { s with isTls := true }
  auth s := s.state.auth

/-! ## What survives the handshake -/

/-- The commands that leave nothing but the authentication. -/
def Request.isQuiet : Request → Bool
  | .capa | .noop | .quit | .stls | .utf8 | .auth .. | .pass _ | .apop .. => true
  | .user _ | .list _ | .retr _ | .dele _ | .deleMany _ | .top .. | .uidl _ | .stat | .rset => false

/-- Another command has been executed. -/
def Event.IsLoud (e : Event) : Prop := ∃ request, e = .executed request ∧ request.isQuiet = false

/-- Only the authentication is left. -/
def Fresh : Prop := s.state.Fresh server.maildrop

theorem keeps_authFailure (err : TrcError) :
    Keeps Event.IsLoud (Fresh server) (authFailure server err) := by
  rw [authFailure]
  split
  · exact .pure err
  refine .bind .session fun s => ?_
  split
  · split
    · exact .bind (.update fun s hs => hs.countFailure) fun _ => .pure err
    · exact .pure _
  · exact .pure _

/-- A login leaves no name, and opens the maildrop of its account. -/
theorem keeps_handleAuth {credentials : Credentials} :
    Keeps Event.IsLoud (Fresh server) (handleAuth server credentials) := by
  refine .bind (.emit _) fun _ => .bind (.ask _) fun result => ?_
  split
  next err => exact .bind (keeps_authFailure server err) fun err => .throw err
  next token =>
    refine .bind (.ofExcept _) fun accessToken => .bind (.ask _) fun limit => ?_
    have hrest : Keeps Event.IsLoud (Fresh server) (do
        let mailbox ← ofExcept (← ask (server.fetchMailbox accessToken.accountId))
        update fun s => { s with state := .authenticated mailbox accessToken }
        writeOk "Authentication successful") := by
      intro s w hs _
      -- the maildrop is the one that was fetched
      change Fresh server (ConnM.bind (ask _) _ s w).session
      rw [ConnM.bind, ask]
      cases hfetch : (server.fetchMailbox accessToken.accountId w).1 with
      | error err => exact hs
      | ok mailbox => exact server.fetchMailbox_eq hfetch
    split
    · exact .throw _
    · exact hrest
    · exact hrest

theorem keeps_handleSasl (mechanism : Mechanism) (params : List String) :
    Keeps Event.IsLoud (Fresh server) (handleSasl server mechanism params) := by
  rw [handleSasl]
  split
  · split
    · split
      · exact keeps_handleAuth _
      · exact .throw _
    · exact .bind (.update fun _ hs => hs) fun _ => .emit _
  · exact .throw _

theorem keeps_validateTransaction :
    Keeps Event.IsLoud (Fresh server) (validateTransaction server s) := by
  rw [validateTransaction]
  split
  · split
    · refine .bind (.ask _) fun _ => .bind (.ofExcept _) fun isAllowed => ?_
      cases isAllowed with
      | true => exact .pure _
      | false => exact .throw _
    · exact .pure _
  · exact .throw _

theorem keeps_validateRequest : Keeps Event.IsLoud (Fresh server) (validateRequest server command) := by
  refine .bind .session fun s => ?_
  split
  all_goals first
    | exact .pure _
    | exact .ofExcept _
    | exact keeps_validateTransaction server s
    | split <;> first | exact .pure _ | exact .throw _

theorem keeps_handlePass (string : String) :
    Keeps Event.IsLoud (Fresh server) (handlePass server string) := by
  refine .bind .session fun s => ?_
  split
  · exact .bind (.update fun s hs => hs.takeUsername) fun _ => keeps_handleAuth _
  · exact .throw _

/-- A command that leaves more is in the log then. -/
theorem keeps_logged_execute :
    Keeps Event.IsLoud (Fresh server) (logged (.executed command) (execute server command)) := by
  cases command with
  | user | stat | list | retr | dele | deleMany | rset | top | uidl =>
    exact .logged_of_loud ⟨_, rfl, rfl⟩ _
  | pass string => exact .logged (.bind (keeps_handlePass server string) fun _ => .pure _) _
  | quit =>
    exact .logged (.bind (.bind .session fun _ => .bind (.ask _) fun _ =>
      .bind (.ofExcept _) fun _ => .emit _) fun _ => .pure _) _
  | capa => exact .logged (.bind (.bind .session fun _ => .emit _) fun _ => .pure _) _
  | noop | stls | utf8 => exact .logged (.bind (.emit _) fun _ => .pure _) _
  | auth mechanism params =>
    exact .logged (.bind (keeps_handleSasl server mechanism params) fun _ => .pure _) _
  | apop name digest => exact .logged (.throw _) _

theorem keeps_parseRequests :
    Keeps Event.IsLoud (Fresh server) (parseRequests server bytes requests) := by
  induction bytes generalizing requests with
  | nil => exact .pure _
  | cons byte bytes ih =>
    refine .bind .session fun s => .bind (.update fun _ hs => hs) fun _ => ?_
    split
    · exact ih _
    · exact ih _
    split
    · refine .bind (.ask _) fun isBanned => ?_
      cases isBanned with
      | true => exact .pure _
      | false => exact ih _
    · exact ih _

theorem keeps_handleRequest (request : Except TrcError Request) :
    Keeps Event.IsLoud (Fresh server) (handleRequest server request) :=
  .bind (.ofExcept _) fun command => .bind (keeps_validateRequest server command) fun _ =>
    keeps_logged_execute server command

theorem keeps_writeErr (err : TrcError) :
    Keeps Event.IsLoud (Fresh server) (writeErr err : Pop3M World Mailbox Bool) := by
  rw [writeErr]
  split
  · exact .bind (.emit _) fun _ => .pure _
  · exact .pure _

/-- Only loud requests leave a name or change a maildrop. -/
theorem keeps_processRequests :
    Keeps Event.IsLoud (Fresh server) (processRequests server requests) := by
  induction requests with
  | nil => exact .pure _
  | cons request requests ih =>
    refine .bind (.attempt (keeps_handleRequest server request)) fun result => ?_
    split
    · exact ih
    · exact .pure _
    refine .bind (keeps_writeErr server _) fun isOpen => ?_
    cases isOpen with
    | true => exact ih
    | false => exact .pure _

theorem keeps_ingest : Keeps Event.IsLoud (Fresh server) (ingest server bytes) := by
  refine .bind (keeps_parseRequests server bytes []) fun requests => ?_
  split
  · exact keeps_processRequests server _
  · exact .pure _

/-- Nothing of the clear text waits for more: the parser is not within a command, and neither `USER`
    nor a command for messages has been executed. -/
def NothingPending (events : List Event) (s : Session Mailbox) : Prop :=
  s.receiver = .init ∧ ∀ e ∈ events, ¬ e.IsLoud

/-- Nothing of the clear text is used on the secured connection, if nothing was pending. -/
theorem protocol_forgets : (protocol server).Forgets NothingPending fun _ _ => True := by
  refine Protocol.forgets_of_keeps (P := Fresh server) (C := fun s => s.receiver = .init) rfl
    (keeps_ingest server) fun {s₁ s₂} hfresh₁ hfresh₂ hinit₁ hinit₂ hauth => ?_
  have hstate : s₁.state = s₂.state := hfresh₁.eq_of_auth_eq hfresh₂ hauth
  simp only [protocol, hstate, hinit₁, hinit₂]

end Handlers

end Inworkspace.Pop3
