import Inworkspace.Smtp.Session

/-!
# Serving SMTP

`smtp::inbound::session` and `smtp::inbound::spawn`: the loop over what is read. What the
bytes are read for depends on the state of the session (`State`): requests, a
message, an exchange of authentication, or something that is skipped. An accepted
`STARTTLS` drops the rest of the read and starts with a new receiver of requests, and
keeps everything else: the name the client has given, and its mail transaction.

* `keeps_ingest`: nothing but the authentication is known of a client that has executed
  neither a greeting nor `MAIL`;
* `protocol_forgets`: then nothing of the clear text but the authentication matters on the
  secured connection, as long as the limit of the transfer is not reached.
-/

namespace Inworkspace.Smtp

open Lib.Connection

/-- The receivers of `smtp_proto`. Each takes its part of the bytes and returns the rest; a request,
    right or wrong, and a line have at least one byte. -/
structure Proto where
  RequestReceiver : Type
  DataReceiver : Type
  BdatReceiver : Type
  DummyDataReceiver : Type
  DummyLineReceiver : Type
  newRequest : RequestReceiver
  newData : DataReceiver
  newBdat : ℕ → Bool → BdatReceiver
  isLast : BdatReceiver → Bool
  newSkipBdat : ℕ → DummyDataReceiver
  newSkipData : DataReceiver → DummyDataReceiver
  newSkipLine : DummyLineReceiver
  maxLineLength : ℕ
  ingestRequest : RequestReceiver → List UInt8 →
    Except RequestError Request × RequestReceiver × List UInt8
  ingestData : DataReceiver → List UInt8 → List UInt8 →
    Bool × DataReceiver × List UInt8 × List UInt8
  ingestBdat : BdatReceiver → List UInt8 → List UInt8 →
    Bool × BdatReceiver × List UInt8 × List UInt8
  ingestLine : List UInt8 → List UInt8 → Bool × List UInt8 × List UInt8
  ingestSkipData : DummyDataReceiver → List UInt8 → Bool × DummyDataReceiver × List UInt8
  ingestSkipLine : DummyLineReceiver → List UInt8 → Bool × DummyLineReceiver × List UInt8
  ingestRequest_lt : ∀ receiver bytes,
    (ingestRequest receiver bytes).1 ≠ .error .needsMoreData →
      (ingestRequest receiver bytes).2.2.length < bytes.length
  ingestData_le : ∀ receiver message bytes,
    (ingestData receiver message bytes).2.2.2.length ≤ bytes.length
  ingestBdat_le : ∀ receiver message bytes,
    (ingestBdat receiver message bytes).2.2.2.length ≤ bytes.length
  ingestLine_lt : ∀ buf bytes,
    (ingestLine buf bytes).1 = true → (ingestLine buf bytes).2.2.length < bytes.length
  ingestSkipData_le : ∀ receiver bytes,
    (ingestSkipData receiver bytes).2.2.length ≤ bytes.length
  ingestSkipLine_le : ∀ receiver bytes,
    (ingestSkipLine receiver bytes).2.2.length ≤ bytes.length

/-- `State`, without those that end a session. -/
inductive State (p : Proto) where
  | request (receiver : p.RequestReceiver)
  | bdat (receiver : p.BdatReceiver)
  | data (receiver : p.DataReceiver)
  | sasl (token : SaslToken) (buf : List UInt8)
  | skipData (receiver : p.DummyDataReceiver) (response : String)
  | requestTooLarge (receiver : p.DummyLineReceiver)

namespace State

variable {p : Proto}

def default : State p := .request p.newRequest

/-- How many states without a request may follow: too large a message is skipped first. -/
def rank : State p → ℕ
  | request _ => 0
  | data _ => 2
  | _ => 1

theorem rank_le (state : State p) : state.rank ≤ 2 := by cases state <;> simp [rank]

end State

section Handlers

variable {World : Type} (p : Proto) (server : Server World)

/-- What follows a request: the next one, another state, or the handshake. -/
inductive Next where
  | stay
  | goto (state : State p)
  | upgrade

variable {p}

/-- A handler, after which the next request is read. -/
def stayAfter (x : SmtpM World Unit) : SmtpM World (Next p) := do
  x
  return .stay

/-- `BDAT`. -/
def handleBdat (chunkSize : ℕ) (isLast : Bool) : SmtpM World (Next p) := do
  match ← canSendData server with
  | some response => return .goto (.skipData (p.newSkipBdat chunkSize) response)
  | none =>
    let s ← session
    if chunkSize + s.data.message.length < s.params.maxMessageSize then
      return .goto (.bdat (p.newBdat chunkSize isLast))
    else
      return .goto
        (.skipData (p.newSkipBdat chunkSize) "552 5.3.4 Message too big for system.\r\n")

/-- `AUTH`. -/
def handleAuth (mechanism : ℕ) (initialResponse : String) : SmtpM World (Next p) := do
  let auth ← consult server.mechanisms
  let s ← session
  if auth = 0 then stayAfter (write "503 5.5.1 AUTH not allowed.\r\n")
  else if s.data.authenticatedAs.isSome then
    stayAfter (write "503 5.5.1 Already authenticated.\r\n")
  else
    match SaslToken.fromMechanism server (mechanism &&& auth) with
    | none => stayAfter (write "554 5.7.8 Authentication mechanism not supported.\r\n")
    | some token =>
      match ← handleSaslResponse server token (asBytes initialResponse) with
      | some token => return .goto (.sasl token [])
      | none => return .stay

/-- `STARTTLS`. -/
def handleStartTls : SmtpM World (Next p) := do
  let s ← session
  if s.isTls then stayAfter (write "504 5.7.4 Already in TLS mode.\r\n")
  else if server.acceptorIsTls then
    write "220 2.0.0 Ready to start TLS.\r\n"
    return .upgrade
  else stayAfter (write "502 5.7.0 TLS not available.\r\n")

/-- The execution of a request. -/
def handleRequest (request : Request) : SmtpM World (Next p) :=
  match request with
  | .rcpt to_ => stayAfter (handleRcptTo server to_)
  | .mail from_ => stayAfter (handleMailFrom server from_)
  | .ehlo host =>
    stayAfter (if server.protocol = .smtp then handleEhlo server host true
      else write "500 5.5.1 Invalid command.\r\n")
  | .helo host =>
    stayAfter (if server.protocol = .smtp then handleEhlo server host false
      else write "500 5.5.1 Invalid command: LHLO expected.\r\n")
  | .lhlo host =>
    stayAfter (if server.protocol = .lmtp then handleEhlo server host true
      else write "502 5.5.1 Invalid command: EHLO expected.\r\n")
  | .data => do
    match ← canSendData server with
    | some response => stayAfter (write response)
    | none =>
      write "354 Start mail input; end with <CRLF>.<CRLF>\r\n"
      updateData fun data => { data with message := [] }
      return .goto (.data p.newData)
  | .bdat chunkSize isLast => handleBdat server chunkSize isLast
  | .auth mechanism initialResponse => handleAuth server mechanism initialResponse
  | .noop => stayAfter (write "250 2.0.0 OK\r\n")
  | .vrfy value => do
    let s ← session
    if s.params.canVrfy then stayAfter (do write (← ask (server.vrfy value)))
    else stayAfter (write "252 2.5.1 VRFY is disabled.\r\n")
  | .expn value => do
    let s ← session
    if s.params.canExpn then stayAfter (do write (← ask (server.expn value)))
    else stayAfter (write "252 2.5.1 EXPN is disabled.\r\n")
  | .startTls => handleStartTls server
  | .rset => do
    updateData SessionData.reset
    stayAfter (write "250 2.0.0 OK\r\n")
  | .quit => do
    write "221 2.0.0 Bye.\r\n"
    throw ()
  | .help => stayAfter (write "250 2.0.0 Help can be found at https://stalw.art\r\n")
  | .etrn | .atrn | .burl => stayAfter (write "502 5.5.1 Command not implemented.\r\n")

/-- What follows bytes that are not a request. -/
def handleError (err : RequestError) : SmtpM World (Next p) := do
  let s ← session
  match err with
  | .needsMoreData => return .stay
  | .unknownCommand | .invalidResponse =>
    let isBanned ← if s.data.authenticatedAs.isNone then ask server.isScannerFail2banned
      else pure false
    if isBanned then throw ()
    else stayAfter (write "500 5.5.1 Invalid command.\r\n")
  | .invalidSenderAddress => stayAfter (write "501 5.1.8 Bad sender's system address.\r\n")
  | .invalidRecipientAddress =>
    stayAfter (write "501 5.1.3 Bad destination mailbox address syntax.\r\n")
  | .syntaxError expected =>
    if !s.params.ehloRejectNonFqdn ∧ expected.startsWith "EHLO " then
      stayAfter (logged (.executed (.ehlo "null")) (handleEhlo server "null" true))
    else stayAfter (write ("501 5.5.2 Syntax error, expected: " ++ expected ++ "\r\n"))
  | .invalidParameter param =>
    stayAfter (write ("501 5.5.4 Invalid parameter \"" ++ param ++ "\".\r\n"))
  | .unsupportedParameter param =>
    stayAfter (write ("504 5.5.4 Unsupported parameter \"" ++ param ++ "\".\r\n"))
  | .responseTooLong => return .goto (.requestTooLarge p.newSkipLine)

/-- The request, or the error, that the receiver has read. -/
def handleParsed (parsed : Except RequestError Request) : SmtpM World (Next p) :=
  match parsed with
  | .ok request => logged (.executed request) (handleRequest server request)
  | .error err => handleError server err

/-- A line of an authentication: the token to go on with, if it goes on. -/
def handleSaslLine (token : SaslToken) (buf : List UInt8) : SmtpM World (Option SaslToken) := do
  if buf.length < p.maxLineLength then handleSaslResponse server token buf
  else
    authError "500 5.5.6 Authentication Exchange line is too long.\r\n"
    return none

def endChunk (isLast : Bool) : SmtpM World Unit :=
  if isLast then endMessage server else write "250 2.6.0 Chunk accepted.\r\n"

/-- The loop of `ingest` over a read of length `readLen`: what becomes of the connection, and its
    next state. -/
def loop (readLen : ℕ) : State p → List UInt8 → SmtpM World (Outcome × State p)
  | .request receiver, bytes =>
    let r := p.ingestRequest receiver bytes
    if hmore : r.1 = .error .needsMoreData then return (.goOn, .request r.2.1)
    else do
      -- for the termination
      have := p.ingestRequest_lt receiver bytes hmore
      match ← handleParsed server r.1 with
      | .stay => loop readLen (.request r.2.1) r.2.2
      | .goto state =>
        have := state.rank_le
        loop readLen state r.2.2
      | .upgrade => return (.upgrade, State.default)
  | .data receiver, bytes => do
    let s ← session
    if s.data.message.length + readLen < s.params.maxMessageSize then
      let r := p.ingestData receiver s.data.message bytes
      have := p.ingestData_le receiver s.data.message bytes
      updateData fun data => { data with message := r.2.2.1 }
      if r.1 then
        endMessage server
        loop readLen State.default r.2.2.2
      else return (.goOn, .data r.2.1)
    else
      loop readLen
        (.skipData (p.newSkipData receiver) "552 5.3.4 Message too big for system.\r\n") bytes
  | .bdat receiver, bytes => do
    let s ← session
    let r := p.ingestBdat receiver s.data.message bytes
    have := p.ingestBdat_le receiver s.data.message bytes
    updateData fun data => { data with message := r.2.2.1 }
    if r.1 then
      endChunk server (p.isLast r.2.1)
      loop readLen State.default r.2.2.2
    else return (.goOn, .bdat r.2.1)
  | .sasl token buf, bytes =>
    let r := p.ingestLine buf bytes
    if hdone : r.1 = true then do
      have := p.ingestLine_lt buf bytes hdone
      match ← handleSaslLine (p := p) server token r.2.1 with
      | some token => loop readLen (.sasl token []) r.2.2
      | none => loop readLen State.default r.2.2
    else return (.goOn, .sasl token r.2.1)
  | .skipData receiver response, bytes =>
    let r := p.ingestSkipData receiver bytes
    have := p.ingestSkipData_le receiver bytes
    if r.1 then do
      updateData fun data => { data with message := [] }
      write response
      loop readLen State.default r.2.2
    else return (.goOn, .skipData r.2.1 response)
  | .requestTooLarge receiver, bytes =>
    let r := p.ingestSkipLine receiver bytes
    have := p.ingestSkipLine_le receiver bytes
    if r.1 then do
      write "554 5.3.4 Line is too long.\r\n"
      loop readLen State.default r.2.2
    else return (.goOn, .requestTooLarge r.2.1)
termination_by state bytes => 3 * bytes.length + state.rank
decreasing_by all_goals first | omega | (simp only [State.rank, State.default]; omega)

/-- `Session`: what is known of the client, what is read for, and the limits of the connection. -/
structure Session (p : Proto) where
  dialogue : Dialogue
  state : State p
  bytesLeft : ℕ
  validUntil : ℕ

variable (p) in
/-- `handle_conn`, for one read. -/
def handleRead (bytes : List UInt8) (s : Session p) (w : World) : Served (Session p) World Event :=
  let (instant, w) := server.instant w
  if instant < s.validUntil ∧ bytes.length ≤ s.bytesLeft then
    let s := { s with bytesLeft := s.bytesLeft - bytes.length }
    let r := loop server bytes.length s.state bytes s.dialogue w
    match r.value with
    | .ok (outcome, state) => ⟨outcome, { s with dialogue := r.session, state }, r.world, r.events⟩
    | .error _ => ⟨.close, { s with dialogue := r.session }, r.world, r.events⟩
  else if s.bytesLeft < bytes.length then
    ⟨.close, s, w, [.reply ("452 4.7.28 " ++ server.hostname ++
      " Session exceeded transfer quota.\r\n")]⟩
  else
    ⟨.close, s, (server.isLoiterFail2banned w).2, [.reply ("421 4.3.2 " ++ server.hostname ++
      " Session open for too long.\r\n")]⟩

variable (params : SessionParameters)

variable (p) in
/-- An SMTP server, with the parameters and the limits of a connection. An accepted `STARTTLS` has
    replaced the receiver, and `into_tls` keeps the rest. -/
def protocol (bytesLeft validUntil : ℕ) :
    Protocol (List UInt8) (Session p) World Event (Option AccountInfo × ℕ × Bool × Bool) where
  ingest := handleRead p server
  initial := ⟨⟨{}, params, false⟩, State.default, bytesLeft, validUntil⟩
  intoTls s := { s with dialogue.isTls := true }
  auth s :=
    (s.dialogue.data.authenticatedAs, s.dialogue.data.authErrors, s.dialogue.params.canExpn,
      s.dialogue.params.canVrfy)

/-! ## What survives the handshake -/

/-- A greeting or a `MAIL` command has been executed. -/
def Event.IsLoud : Event → Prop
  | .executed (.ehlo _) | .executed (.helo _) | .executed (.lhlo _) | .executed (.mail _) => True
  | _ => False

/-- Nothing is known of the client but how it is authenticated. -/
structure Unknown (d : Dialogue) : Prop where
  data : d.data =
    { authenticatedAs := d.data.authenticatedAs, authErrors := d.data.authErrors }
  params : d.params = { params with canExpn := d.params.canExpn, canVrfy := d.params.canVrfy }
  isTls : d.isTls = false

/-- No message is being received. -/
def State.IsIdle : State p → Prop
  | .data _ | .bdat _ => False
  | _ => True

section Keeps

variable {params} {d : Dialogue} (token : SaslToken)

theorem Unknown.mailFrom (h : Unknown params d) : d.data.mailFrom = none := by rw [h.data]

/-- The authentication is all there is. -/
theorem Unknown.eq {d d' : Dialogue} (h : Unknown params d) (h' : Unknown params d')
    (has : d.data.authenticatedAs = d'.data.authenticatedAs)
    (herrors : d.data.authErrors = d'.data.authErrors)
    (hexpn : d.params.canExpn = d'.params.canExpn)
    (hvrfy : d.params.canVrfy = d'.params.canVrfy) : d = d' := by
  have hdata : d.data = d'.data := by rw [h.data, h'.data, has, herrors]
  have hparams : d.params = d'.params := by rw [h.params, h'.params, hexpn, hvrfy]
  have htls : d.isTls = d'.isTls := by rw [h.isTls, h'.isTls]
  exact Dialogue.mk.injEq .. ▸ ⟨hdata, hparams, htls⟩

theorem keeps_consult {α : Type} {oracle : Oracle World α} :
    Keeps Event.IsLoud (Unknown params) (consult oracle) :=
  .bind .session fun _ => .ask _

theorem keeps_authError {response : String} :
    Keeps Event.IsLoud (Unknown params) (authError response : SmtpM World Unit) := by
  refine .bind (.update fun d hd => ⟨?_, hd.params, hd.isTls⟩) fun _ => .bind (.emit _) fun _ =>
    .bind .session fun s => ?_
  · rw [hd.data]
  · split
    · exact .pure _
    · exact .bind (.emit _) fun _ => .throw _

theorem keeps_authFailure (err : TrcError) :
    Keeps Event.IsLoud (Unknown params) (authFailure err : SmtpM World Unit) := by
  rw [authFailure]
  split
  all_goals first
    | exact keeps_authError
    | exact .emit _
    | exact .throw _

theorem keeps_authenticate (credentials : Credentials) :
    Keeps Event.IsLoud (Unknown params) (authenticate server credentials) := by
  refine .bind (.emit _) fun _ => .bind (.ask _) fun result => ?_
  split
  · exact keeps_authFailure _
  refine .bind (.ask _) fun info => ?_
  split
  · exact keeps_authFailure _
  refine .bind (.update fun d hd => ⟨?_, hd.params, hd.isTls⟩) fun _ =>
    .bind keeps_consult fun _ => .bind keeps_consult fun _ =>
    .bind (.update fun d hd => ⟨hd.data, ?_, hd.isTls⟩) fun _ => .emit _
  · rw [hd.data]
  · rw [hd.params]

/-- A response tells nothing of the client but its authentication. -/
theorem keeps_handleSaslResponse (response : List UInt8) :
    Keeps Event.IsLoud (Unknown params) (handleSaslResponse server token response) := by
  -- an exchange ends in one of two ways, or goes on with another challenge
  have hinvalid : Keeps Event.IsLoud (Unknown params) (do
      authError "500 5.5.6 Invalid challenge.\r\n"
      return none : SmtpM World (Option SaslToken)) :=
    .bind keeps_authError fun _ => .pure _
  have hfinish (credentials : Credentials) : Keeps Event.IsLoud (Unknown params) (do
      authenticate server credentials
      return none : SmtpM World (Option SaslToken)) :=
    .bind (keeps_authenticate server _) fun _ => .pure _
  rw [handleSaslResponse]
  beta_reduce
  split
  · split
    · split
      · exact .bind (.emit _) fun _ => .pure _
      · exact hinvalid
    · exact .bind (.emit _) fun _ => .pure _
  · split
    · exact hinvalid
    split
    · split
      · exact hfinish _
      · exact hinvalid
    split
    · split
      · split
        · exact .bind (.emit _) fun _ => .pure _
        · exact hfinish _
      · exact hinvalid
    · split
      · exact hfinish _
      · exact hinvalid

/-- What follows a request is not a message. -/
def Next.IsIdle : Next p → Prop
  | .goto state => state.IsIdle
  | _ => True

/-- `Ensures`, for what the handlers of requests return. -/
abbrev Idles (params : SessionParameters) (x : SmtpM World (Next p)) : Prop :=
  Ensures Event.IsLoud (Unknown params) Next.IsIdle x

theorem idles_stayAfter {x : SmtpM World Unit} (hx : Keeps Event.IsLoud (Unknown params) x) :
    Idles (p := p) params (stayAfter x) :=
  .keeps_bind hx fun _ => .pure trivial

theorem idles_write {text : String} :
    Idles (p := p) params (stayAfter (write text) : SmtpM World _) :=
  idles_stayAfter (.emit _)

/-- Without a sender no message can be sent. -/
theorem ensures_canSendData :
    Ensures Event.IsLoud (Unknown params) (fun response => response.isSome = true)
      (canSendData server) := by
  refine .session_bind fun d hd => ?_
  rw [hd.mailFrom]
  exact .pure rfl

theorem idles_handleBdat (chunkSize : ℕ) (isLast : Bool) :
    Idles (p := p) params (handleBdat server chunkSize isLast) := by
  refine .bind (ensures_canSendData server) fun response hresponse => ?_
  obtain ⟨response, rfl⟩ := Option.isSome_iff_exists.mp hresponse
  exact .pure trivial

theorem idles_handleAuth (mechanism : ℕ) (initialResponse : String) :
    Idles (p := p) params (handleAuth server mechanism initialResponse) := by
  refine .keeps_bind keeps_consult fun auth => .keeps_bind .session fun s => ?_
  split
  · exact idles_write
  split
  · exact idles_write
  split
  · exact idles_write
  refine .keeps_bind (keeps_handleSaslResponse server _ _) fun token => ?_
  cases token with
  | some token => exact .pure trivial
  | none => exact .pure trivial

theorem idles_handleStartTls : Idles (p := p) params (handleStartTls server) := by
  refine .keeps_bind .session fun s => ?_
  split
  · exact idles_write
  · split
    · exact .keeps_bind (.emit _) fun _ => .pure trivial
    · exact idles_write

theorem Unknown.reset (hd : Unknown params d) : Unknown params { d with data := d.data.reset } := by
  refine ⟨?_, hd.params, hd.isTls⟩
  rw [hd.data]
  rfl

theorem Unknown.clear (hd : Unknown params d) :
    Unknown params { d with data := { d.data with message := [] } } := by
  refine ⟨?_, hd.params, hd.isTls⟩
  rw [hd.data]

/-- Only greetings and `MAIL`, which are in the log, leave more than the authentication; the other
    requests of a transaction need a sender. -/
theorem idles_handleRequest (request : Request) :
    Idles (p := p) params (logged (.executed request) (handleRequest server request)) := by
  cases request with
  | ehlo _ | helo _ | lhlo _ | mail _ => exact .logged_of_loud trivial _
  | rcpt to_ =>
    refine .logged (idles_stayAfter (.session_bind fun d hd => ?_)) _
    -- there is no sender, so the recipient is turned down
    rw [hd.mailFrom]
    exact .emit _
  | data =>
    refine .logged (.bind (ensures_canSendData server) fun response hresponse => ?_) _
    obtain ⟨response, rfl⟩ := Option.isSome_iff_exists.mp hresponse
    exact idles_write
  | bdat chunkSize isLast => exact .logged (idles_handleBdat server chunkSize isLast) _
  | auth mechanism response => exact .logged (idles_handleAuth server mechanism response) _
  | startTls => exact .logged (idles_handleStartTls server) _
  | noop | help | etrn | atrn | burl => exact .logged (idles_write) _
  | vrfy value | expn value =>
    refine .logged (.keeps_bind .session fun s => ?_) _
    split
    · exact idles_stayAfter (.bind (.ask _) fun _ => .emit _)
    · exact idles_write
  | rset => exact .logged (.keeps_bind (.update fun _ hd => hd.reset) fun _ => idles_write) _
  | quit => exact .logged (.keeps_bind (.emit _) fun _ => .throw _) _

theorem idles_handleError (err : RequestError) :
    Idles (p := p) params (handleError server err) := by
  refine .keeps_bind .session fun s => ?_
  cases err with
  | needsMoreData | responseTooLong => exact .pure trivial
  | unknownCommand | invalidResponse =>
    have hrest (isBanned : Bool) : Idles (p := p) params (if isBanned = true then throw ()
        else stayAfter (write "500 5.5.1 Invalid command.\r\n") : SmtpM World (Next p)) := by
      cases isBanned with
      | true => exact .throw _
      | false => exact idles_write
    dsimp only
    split
    · exact .keeps_bind (.ask _) hrest
    · exact .keeps_bind (.pure _) hrest
  | syntaxError expected =>
    dsimp only
    split
    · exact idles_stayAfter (.logged_of_loud trivial _)
    · exact idles_write
  | invalidSenderAddress | invalidRecipientAddress | invalidParameter _
  | unsupportedParameter _ => exact idles_write

theorem idles_handleParsed {parsed : Except RequestError Request} :
    Idles (p := p) params (handleParsed server parsed) := by
  cases parsed with
  | ok request => exact idles_handleRequest server request
  | error err => exact idles_handleError server err

theorem keeps_handleSaslLine (buf : List UInt8) :
    Keeps Event.IsLoud (Unknown params) (handleSaslLine (p := p) server token buf) := by
  rw [handleSaslLine]
  split
  · exact keeps_handleSaslResponse server token buf
  · exact .bind keeps_authError fun _ => .pure _

/-- From a state that receives no message the loop ends in such a state, and with a new receiver of
    requests if it ends with the handshake. -/
theorem ensures_loop (readLen : ℕ) (state : State p) (bytes : List UInt8) (hidle : state.IsIdle) :
    Ensures Event.IsLoud (Unknown params)
      (fun r => r.2.IsIdle ∧ (r.1 = .upgrade → r.2 = State.default))
      (loop server readLen state bytes) := by
  induction state, bytes using loop.induct readLen with
  | case1 receiver bytes r hmore =>
    rw [loop, dif_pos hmore]
    exact .pure ⟨trivial, nofun⟩
  | case2 receiver bytes r hmore _ ihstay ihgoto =>
    rw [loop, dif_neg hmore]
    -- the handlers that leave the state say for which, an idle one
    refine .bind (idles_handleParsed _) fun next hnext => ?_
    cases next with
    | stay => exact ihstay trivial
    | goto state => exact ihgoto state hnext
    | upgrade => exact .pure ⟨trivial, fun _ => rfl⟩
  | case3 | case4 => exact hidle.elim
  | case5 token buf bytes r hdone _ ihsome ihnone =>
    rw [loop, dif_pos hdone]
    refine .keeps_bind (keeps_handleSaslLine server token _) fun next => ?_
    cases next with
    | some token => exact ihsome token trivial
    | none => exact ihnone trivial
  | case6 token buf bytes r hdone =>
    rw [loop, dif_neg hdone]
    exact .pure ⟨trivial, nofun⟩
  | case7 receiver response bytes r _ hdone ih =>
    rw [loop, if_pos hdone]
    exact .keeps_bind (.update fun _ hd => hd.clear) fun _ => .keeps_bind (.emit _) fun _ =>
      ih trivial
  | case9 receiver bytes r _ hdone ih =>
    rw [loop, if_pos hdone]
    exact .keeps_bind (.emit _) fun _ => ih trivial
  | case8 receiver _ bytes r _ hdone | case10 receiver bytes r _ hdone =>
    rw [loop, if_neg hdone]
    exact .pure ⟨trivial, nofun⟩

/-- Nothing is known of the session but the authentication, and it receives no message. -/
def Plain (params : SessionParameters) (validUntil : ℕ) (s : Session p) : Prop :=
  Unknown params s.dialogue ∧ s.state.IsIdle ∧ s.validUntil = validUntil

/-- What a read does to a session that has said nothing. -/
theorem keeps_handleRead {validUntil : ℕ} (bytes : List UInt8) (s : Session p) (w : World)
    (hs : Plain params validUntil s)
    (hquiet : ∀ e ∈ (handleRead p server bytes s w).events, ¬ e.IsLoud) :
    Plain params validUntil (handleRead p server bytes s w).session ∧
      ((handleRead p server bytes s w).outcome = .upgrade →
        (handleRead p server bytes s w).session.state = State.default) := by
  obtain ⟨hunknown, hidle, hvalid⟩ := hs
  have hloop := ensures_loop server bytes.length s.state bytes hidle s.dialogue
    (server.instant w).2 hunknown
  rw [handleRead] at hquiet ⊢
  dsimp only at hquiet ⊢
  -- a session whose time or transfer is up ends without a command
  split at hquiet
  · rename_i hwithin
    rw [if_pos hwithin]
    cases hv : (loop server bytes.length s.state bytes s.dialogue (server.instant w).2).value with
    | ok r =>
      simp only [hv] at hquiet ⊢
      obtain ⟨hd, hr⟩ := hloop hquiet
      exact ⟨⟨hd, (hr r hv).1, hvalid⟩, (hr r hv).2⟩
    | error _ =>
      simp only [hv] at hquiet ⊢
      exact ⟨⟨(hloop hquiet).1, hidle, hvalid⟩, nofun⟩
  · rename_i hwithin
    rw [if_neg hwithin]
    split
    · exact ⟨⟨hunknown, hidle, hvalid⟩, nofun⟩
    · exact ⟨⟨hunknown, hidle, hvalid⟩, nofun⟩

/-! ## The limits of the transfer -/

/-- What is to be read is within the limit of the transfer. -/
def WithinQuota (s : Session p) (reads : List (List UInt8)) : Prop :=
  (reads.map List.length).sum ≤ s.bytesLeft

/-- The sessions differ only in what is left of their transfers, which is enough. -/
structure SameUpToQuota (reads : List (List UInt8)) (s t : Session p) : Prop where
  dialogue : s.dialogue = t.dialogue
  state : s.state = t.state
  validUntil : s.validUntil = t.validUntil
  left : WithinQuota s reads
  right : WithinQuota t reads

/-- The quota that is left is not seen as long as it is enough. -/
theorem handleRead_congr (bytes : List UInt8) (reads : List (List UInt8)) (s t : Session p)
    (w : World) (h : SameUpToQuota (bytes :: reads) s t) :
    (handleRead p server bytes s w).observed = (handleRead p server bytes t w).observed ∧
      SameUpToQuota reads (handleRead p server bytes s w).session
        (handleRead p server bytes t w).session := by
  obtain ⟨d, st, m, v⟩ := s
  obtain ⟨d', st', n, v'⟩ := t
  obtain ⟨rfl, rfl, rfl, hm, hn⟩ := h
  simp only [WithinQuota, List.map_cons, List.sum_cons] at hm hn
  have hm' : bytes.length ≤ m := by omega
  have hn' : bytes.length ≤ n := by omega
  have hleft : (reads.map List.length).sum ≤ m - bytes.length := by omega
  have hright : (reads.map List.length).sum ≤ n - bytes.length := by omega
  simp only [handleRead, hm', hn']
  split
  · cases (loop server bytes.length st bytes d (server.instant w).2).value with
    | ok _ | error _ => exact ⟨rfl, rfl, rfl, rfl, hleft, hright⟩
  · rw [if_neg (by omega), if_neg (by omega)]
    exact ⟨rfl, rfl, rfl, rfl, hleft.trans (Nat.sub_le ..), hright.trans (Nat.sub_le ..)⟩

end Keeps

/-! ## The secured connection -/

/-- Neither a greeting nor `MAIL` has been executed. -/
def NothingSaid (events : List Event) (_ : Session p) : Prop := ∀ e ∈ events, ¬ e.IsLoud

/-- Clear text without greetings and senders leaves only the authentication, and what is left of the
    transfer. -/
theorem protocol_forgets (bytesLeft validUntil : ℕ) :
    (protocol p server params bytesLeft validUntil).Forgets NothingSaid WithinQuota := by
  refine Protocol.forgets_of_related (R := SameUpToQuota)
    (fun read reads s t w h => handleRead_congr server read reads s t w h) ?_
  rintro s₁ s₂ ⟨_, _, hs₁, hh₁⟩ ⟨_, _, hs₂, hh₂⟩ hauth reads hw₁ hw₂
  have hinit : Plain params validUntil (protocol p server params bytesLeft validUntil).initial :=
    ⟨⟨rfl, rfl, rfl⟩, trivial, rfl⟩
  obtain ⟨⟨hd₁, -, hv₁⟩, hst₁⟩ := hs₁.keeps (Q := fun s => s.state = State.default) hinit
    (keeps_handleRead server) hh₁
  obtain ⟨⟨hd₂, -, hv₂⟩, hst₂⟩ := hs₂.keeps (Q := fun s => s.state = State.default) hinit
    (keeps_handleRead server) hh₂
  simp only [protocol, Prod.mk.injEq] at hauth
  obtain ⟨has, herrors, hexpn, hvrfy⟩ := hauth
  have hd := hd₁.eq hd₂ has herrors hexpn hvrfy
  exact ⟨congrArg (fun d => { d with isTls := true }) hd, hst₁.trans hst₂.symm,
    hv₁.trans hv₂.symm, hw₁, hw₂⟩

end Handlers

end Inworkspace.Smtp
