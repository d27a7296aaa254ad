import Inworkspace.Auth.Sasl
import Inworkspace.Lib.Connection

/-!
# SMTP sessions

`smtp::core` and `smtp::inbound`: what a session knows of a client and of its mail
transaction (`SessionData`), and the handlers of the requests that change it. The
expressions of the configuration, the filters, the resolvers and the directory
answer from what the session knows (`Server`).
-/

namespace Inworkspace.Smtp

open Lib.Connection

/-! ## Requests -/

/-- `smtp_proto::MailFrom`. -/
structure MailFrom where
  address : String
  flags : ℕ
  size : ℕ
  by_ : ℤ
  mtPriority : ℤ
  envId : Option String
  holdFor : ℕ
  holdUntil : ℕ
  deriving DecidableEq

/-- `smtp_proto::RcptTo`. -/
structure RcptTo where
  address : String
  orcpt : Option String
  flags : ℕ
  deriving DecidableEq

/-- `smtp_proto::Request`. -/
inductive Request where
  | ehlo (host : String)
  | lhlo (host : String)
  | helo (host : String)
  | mail (from_ : MailFrom)
  | rcpt (to_ : RcptTo)
  | data
  | bdat (chunkSize : ℕ) (isLast : Bool)
  | auth (mechanism : ℕ) (initialResponse : String)
  | noop
  | vrfy (value : String)
  | expn (value : String)
  | startTls
  | rset
  | quit
  | help
  | etrn
  | atrn
  | burl
  deriving DecidableEq

/-- `smtp_proto::Error`. -/
inductive RequestError where
  | needsMoreData
  | unknownCommand
  | invalidResponse
  | invalidSenderAddress
  | invalidRecipientAddress
  | syntaxError (expected : String)
  | invalidParameter (param : String)
  | unsupportedParameter (param : String)
  | responseTooLong
  deriving DecidableEq

/-! ## Sessions -/

structure SessionAddress where
  address : String
  addressLcase : String
  domain : String
  flags : ℕ
  dsnInfo : Option String
  deriving DecidableEq

inductive SpfResult where
  | pass
  | fail
  | softFail
  | neutral
  | none
  | tempError
  | permError
  deriving DecidableEq

inductive IprevResult where
  | pass
  | fail
  | tempError
  | permError
  | none
  deriving DecidableEq

/-- `AccountInfo`: the name and the addresses of an account. -/
structure AccountInfo where
  name : String
  addresses : List String
  deriving DecidableEq

/-- `SessionData`: the client and its mail transaction. -/
structure SessionData where
  heloDomain : String := ""
  mailFrom : Option SessionAddress := none
  rcptTo : List SessionAddress := []
  rcptErrors : ℕ := 0
  rcptOks : ℕ := 0
  message : List UInt8 := []
  authenticatedAs : Option AccountInfo := none
  authErrors : ℕ := 0
  priority : ℤ := 0
  deliveryBy : ℤ := 0
  futureRelease : ℕ := 0
  messagesSent : ℕ := 0
  iprev : Option IprevResult := none
  spfEhlo : Option SpfResult := none
  spfMailFrom : Option SpfResult := none
  deriving DecidableEq

inductive VerifyStrategy where
  | strict
  | relaxed
  | disable
  deriving DecidableEq

namespace VerifyStrategy

def verify : VerifyStrategy → Bool
  | disable => false
  | _ => true

def isStrict : VerifyStrategy → Bool
  | strict => true
  | _ => false

end VerifyStrategy

/-- `SessionParameters`, without the waiting times. -/
structure SessionParameters where
  ehloRequire : Bool
  ehloRejectNonFqdn : Bool
  authRequire : Bool
  authErrorsMax : ℕ
  rcptErrorsMax : ℕ
  rcptMax : ℕ
  rcptDsn : Bool
  canExpn : Bool
  canVrfy : Bool
  maxMessageSize : ℕ
  iprev : VerifyStrategy
  spfEhlo : VerifyStrategy
  spfMailFrom : VerifyStrategy
  deriving DecidableEq

/-- What the handlers of the requests see of a session. -/
structure Dialogue where
  data : SessionData
  params : SessionParameters
  isTls : Bool
  deriving DecidableEq

/-- What is done for a client. -/
inductive Event where
  | executed (request : Request)
  | login (credentials : Credentials)
  | message (mailFrom : Option SessionAddress) (rcptTo : List SessionAddress)
    (message : List UInt8)
  | reply (text : String)
  deriving DecidableEq

/-! ## The server -/

/-- The modification of an envelope by a script. -/
abbrev EnvelopeModification := SessionData → SessionData

/-- `ScriptResult`: modifications of the envelope, or a rejection. -/
inductive ScriptResult where
  | accept (modifications : List EnvelopeModification)
  | reject (message : String)

inductive RcptResolution where
  | accept
  | rewrite (address : String)
  | expand (members : List String)
  | unknownRecipient
  | unknownDomain

/-- `Stage`, where filters may be run. -/
inductive Stage where
  | ehlo
  | mail
  | rcpt
  deriving DecidableEq

inductive ServerProtocol where
  | smtp
  | lmtp
  deriving DecidableEq

/-- An answer of the rest of the server, given what the session knows. -/
abbrev Oracle (World α : Type) := Dialogue → World → α × World

/-- The values `eval_rcpt_params` computes. -/
structure RcptParameters where
  rcptErrorsMax : ℕ
  rcptMax : ℕ
  rcptDsn : Bool
  maxMessageSize : ℕ

/-- The configuration of the server, the flags of the protocol, and what it answers. -/
structure Server (World : Type) where
  protocol : ServerProtocol
  acceptorIsTls : Bool
  hasRcptFilters : Bool
  hasGreyList : Bool
  hostname : String
  mailRequiretls : ℕ
  mailByNotify : ℕ
  mailByReturn : ℕ
  rcptNotify : ℕ
  authPlain : ℕ
  authLogin : ℕ
  authOauthbearer : ℕ
  authXoauth2 : ℕ
  hasValidLabels : String → Bool
  toLowercaseAddress : String → String
  domainPart : String → String
  base64Decode : List UInt8 → Option (List UInt8)
  decodeSaslChallengeOauth : List UInt8 → Option Credentials
  intoString : List UInt8 → String
  spfStatus : SpfResult → String
  now : World → ℕ × World
  instant : World → ℕ × World
  mechanisms : Oracle World ℕ
  script : Stage → Oracle World (Option ScriptResult)
  runMilters : Stage → Oracle World (Option String)
  runMtaHooks : Stage → Oracle World (Option String)
  verifySpfEhlo : Oracle World SpfResult
  verifySpfMailFrom : Oracle World SpfResult
  sendSpfReport : Bool → Oracle World Unit
  verifyIprev : Oracle World IprevResult
  ehloResponse : Oracle World String
  mailIsAllowed : Oracle World Bool
  mailRewrite : Oracle World (Option String)
  mustMatchSender : Oracle World Bool
  requiretls : Oracle World Bool
  deliverBy : Oracle World (Option ℕ)
  hasMtPriority : Oracle World Bool
  maxMessageSize : Oracle World ℕ
  futureRelease : Oracle World (Option ℕ)
  dsn : Oracle World Bool
  isAllowed : Oracle World Bool
  rcptParameters : Oracle World RcptParameters
  rcptRewrite : Oracle World (Option String)
  rcptResolve : String → World → Option RcptResolution × World
  relay : Oracle World Bool
  isGreylisted : Oracle World Bool
  isRcptFail2banned : String → World → Unit × World
  isScannerFail2banned : World → Bool × World
  isLoiterFail2banned : World → Unit × World
  maxMessages : Oracle World ℕ
  authenticate : Credentials → World → Except TrcError AccessToken × World
  accountInfo : ℕ → World → Except TrcError AccountInfo × World
  canExpn : Oracle World Bool
  canVrfy : Oracle World Bool
  vrfy : String → World → String × World
  expn : String → World → String × World
  queueMessage : Oracle World (String × Bool)

section Handlers

variable {World : Type} (server : Server World) (from_ : MailFrom)

/-- Computations of an SMTP session; one that fails closes the connection. -/
abbrev SmtpM (World : Type) := ConnM Unit Dialogue World Event

def write (text : String) : SmtpM World Unit := emit (.reply text)

/-- An answer of the rest of the server. -/
def consult {α : Type} (oracle : Oracle World α) : SmtpM World α := do
  let s ← session
  ask (oracle s)

/-- Change the data of the session. -/
def updateData (f : SessionData → SessionData) : SmtpM World Unit :=
  update fun s => { s with data := f s.data }

/-- `reset`: the mail transaction is forgotten. -/
def SessionData.reset (data : SessionData) : SessionData :=
  { data with
    mailFrom := none, spfMailFrom := none, rcptTo := [], message := [], priority := 0,
    deliveryBy := 0, futureRelease := 0, rcptOks := 0 }

/-- `handle_spf`: whether the result of the check is accepted. -/
def handleSpf (result : SpfResult) (strict : Bool) : SmtpM World Bool := do
  let accepted ← match result, strict with
    | .pass, _ => pure true
    | .tempError, true => do
      write "451 4.7.24 Temporary SPF validation error.\r\n"
      pure false
    | _, true => do
      write ("550 5.7.23 SPF validation failed, status: " ++ server.spfStatus result ++ ".\r\n")
      pure false
    | _, false => pure true
  consult (server.sendSpfReport (!accepted))
  return accepted

/-! ## The greeting -/

/-- The first filter that rejects a stage: a script, a milter or a hook. -/
def filter (stage : Stage) : SmtpM World (Option String) := do
  match ← consult (server.runMilters stage) with
  | some message => return some message
  | none => consult (server.runMtaHooks stage)

/-- The checks of a new name of the client; `true` if it is accepted. -/
def checkHelo (domain : String) : SmtpM World Bool := do
  let s ← session
  let prevHeloDomain := s.data.heloDomain
  updateData fun data => { data with heloDomain := domain }
  let verified ← if s.params.spfEhlo.verify then do
      let result ← consult server.verifySpfEhlo
      if ← handleSpf server result s.params.spfEhlo.isStrict then
        updateData fun data => { data with spfEhlo := some result }
        pure true
      else
        updateData fun data => { data with mailFrom := none, heloDomain := prevHeloDomain }
        pure false
    else pure true
  if verified then
    let rejection ← match ← consult (server.script .ehlo) with
      | some (.reject message) => pure (some message)
      | _ => filter server .ehlo
    match rejection with
    | some message =>
      updateData fun data =>
        { data with mailFrom := none, heloDomain := prevHeloDomain, spfEhlo := none }
      write message
      return false
    | none => return true
  else return false

/-- The end of `handle_ehlo`: the transaction is reset, the client greeted. -/
def greet (isExtended : Bool) : SmtpM World Unit := do
  updateData fun data => if data.mailFrom.isSome then data.reset else data
  if isExtended then write (← consult server.ehloResponse)
  else write ("250 " ++ server.hostname ++ " you had me at HELO\r\n")

/-- `handle_ehlo`. A name that is already known is not checked again. -/
def handleEhlo (domain : String) (isExtended : Bool) : SmtpM World Unit := do
  let s ← session
  if domain = s.data.heloDomain then greet server isExtended
  else if s.params.ehloRejectNonFqdn ∧ !server.hasValidLabels domain then
    write "550 5.5.0 Invalid EHLO domain.\r\n"
  else if ← checkHelo server domain then greet server isExtended
  else return

/-! ## The sender -/

/-- The outcome of the first of the checks that rejects. -/
def firstRejection : List (SmtpM World (Option String)) → SmtpM World (Option String)
  | [] => return none
  | check :: checks => do
    match ← check with
    | some message => return some message
    | none => firstRejection checks

/-- A script may change the envelope, or reject it. -/
def runScript (stage : Stage) : SmtpM World (Option String) := do
  match ← consult (server.script stage) with
  | some (.accept modifications) =>
    updateData fun data => modifications.foldl (fun data modify => modify data) data
    return none
  | some (.reject message) => return some message
  | none => return none

/-- The address with another text, for a rewritten sender or recipient. -/
def SessionAddress.rewritten (self : SessionAddress) (address : String) : SessionAddress :=
  let addressLcase := server.toLowercaseAddress address
  { self with address, addressLcase, domain := server.domainPart addressLcase }

/-- The rewriting of the sender. -/
def rewriteMailFrom : SmtpM World (Option String) := do
  match ← consult server.mailRewrite with
  | none => return none
  | some address =>
    updateData fun data =>
      { data with
        mailFrom := data.mailFrom.map fun mailFrom =>
          if address.contains '@' then mailFrom.rewritten server address
          else if address = "" then
            { mailFrom with address := "", addressLcase := "", domain := "" }
          else mailFrom }
    return none

/-- An authenticated client has to send from one of its own addresses. -/
def checkSender : SmtpM World (Option String) := do
  let s ← session
  match s.data.authenticatedAs with
  | none => return none
  | some account =>
    if ← consult server.mustMatchSender then
      let address := (s.data.mailFrom.map (·.addressLcase)).getD ""
      if account.name ≠ address ∧ address ∉ account.addresses then
        return some "501 5.5.4 You are not allowed to send from this address.\r\n"
      else return none
    else return none

/-- The parameter `BY`. -/
def checkDeliverBy : SmtpM World (Option String) := do
  if from_.flags &&& (server.mailByNotify ||| server.mailByReturn) = 0 then return none
  else
    match ← consult server.deliverBy with
    | none => return some "501 5.5.4 DELIVERBY extension has been disabled.\r\n"
    | some seconds =>
      -- `checked_abs` of the least number of 64 bits fails, and is taken for 0
      let distance := if from_.by_ = -2 ^ 63 then 0 else from_.by_.natAbs
      if distance ≤ seconds ∧ (0 < from_.by_ ∨ from_.flags &&& server.mailByNotify ≠ 0) then
        updateData fun data => { data with deliveryBy := from_.by_ }
        return none
      else
        return some ("501 5.5.4 BY parameter exceeds maximum of " ++ toString seconds ++
          " seconds.\r\n")

/-- The parameter `MT-PRIORITY`. -/
def checkPriority : SmtpM World (Option String) := do
  if from_.mtPriority = 0 then return none
  else if ← consult server.hasMtPriority then
    if -6 ≤ from_.mtPriority ∧ from_.mtPriority < 6 then
      updateData fun data => { data with priority := from_.mtPriority }
      return none
    else return some "501 5.5.4 Invalid priority value.\r\n"
  else return some "501 5.5.4 MT-PRIORITY extension has been disabled.\r\n"

/-- The parameters `HOLDFOR` and `HOLDUNTIL`. -/
def checkFutureRelease : SmtpM World (Option String) := do
  if from_.holdFor = 0 ∧ from_.holdUntil = 0 then return none
  else
    match ← consult server.futureRelease with
    | none => return some "501 5.5.4 FUTURERELEASE extension has been disabled.\r\n"
    | some maxHold =>
      let holdFor ← if from_.holdFor ≠ 0 then pure from_.holdFor
        else (from_.holdUntil - ·) <$> ask server.now
      if holdFor ≤ maxHold then
        updateData fun data => { data with futureRelease := holdFor }
        return none
      else
        return some ("501 5.5.4 Requested hold time exceeds maximum of " ++ toString maxHold ++
          " seconds.\r\n")

/-- A check that rejects with one message. -/
def require (isFine : SmtpM World Bool) (message : String) : SmtpM World (Option String) := do
  if ← isFine then return none else return some message

/-- The checks of the sender, in their order. -/
def mailChecks : List (SmtpM World (Option String)) :=
  [require (consult server.mailIsAllowed) "550 5.7.1 Sender address not allowed.\r\n",
    runScript server .mail, filter server .mail, rewriteMailFrom server, checkSender server,
    require (if from_.flags &&& server.mailRequiretls ≠ 0 then consult server.requiretls
      else pure true) "501 5.5.4 REQUIRETLS has been disabled.\r\n",
    checkDeliverBy server from_, checkPriority server from_,
    require (if 0 < from_.size then do
        let maxMessageSize ← consult server.maxMessageSize
        return maxMessageSize = 0 ∨ from_.size ≤ maxMessageSize
      else pure true) "552 5.3.4 Message too big for system.\r\n",
    checkFutureRelease server from_,
    require (if from_.envId.isSome then consult server.dsn else pure true)
      "501 5.5.4 DSN extension has been disabled.\r\n",
    require (consult server.isAllowed) "452 4.4.5 Rate limit exceeded, try again later.\r\n"]

/-- The address of the sender as the session keeps it. -/
def senderAddress : SessionAddress :=
  let addressLcase := if from_.address = "" then "" else server.toLowercaseAddress from_.address
  { address := from_.address, addressLcase
    domain := if from_.address = "" then "" else server.domainPart addressLcase
    flags := from_.flags, dsnInfo := from_.envId }

/-- The sender is accepted, if its domain lets the client send for it. -/
def acceptMailFrom : SmtpM World Unit := do
  let s ← session
  let verified ← if s.params.spfMailFrom.verify then do
      let result ← consult server.verifySpfMailFrom
      if ← handleSpf server result s.params.spfMailFrom.isStrict then
        updateData fun data => { data with spfMailFrom := some result }
        pure true
      else
        updateData fun data => { data with mailFrom := none }
        pure false
    else pure true
  if verified then
    let rcpt ← consult server.rcptParameters
    update fun s =>
      { s with
        params.rcptErrorsMax := rcpt.rcptErrorsMax, params.rcptMax := rcpt.rcptMax,
        params.rcptDsn := rcpt.rcptDsn, params.maxMessageSize := rcpt.maxMessageSize }
    write "250 2.1.0 OK\r\n"
  else return

def handleMailFrom : SmtpM World Unit := do
  let s ← session
  if s.data.heloDomain = "" ∧
      (s.params.ehloRequire ∨ s.params.spfEhlo.verify ∨ s.params.spfMailFrom.verify) then
    write "503 5.5.1 Polite people say EHLO first.\r\n"
  else if s.data.mailFrom.isSome then
    write "503 5.5.1 Multiple MAIL commands not allowed.\r\n"
  else if s.params.authRequire ∧ s.data.authenticatedAs.isNone then
    write "503 5.5.1 You must authenticate first.\r\n"
  else
    if s.data.iprev.isNone ∧ s.params.iprev.verify then
      let iprev ← consult server.verifyIprev
      updateData fun data => { data with iprev := some iprev }
    let s ← session
    if s.params.iprev.isStrict ∧ s.data.iprev ≠ some .pass then
      write (if s.data.iprev = some .tempError
        then "451 4.7.25 Temporary error validating reverse DNS.\r\n"
        else "550 5.7.25 Reverse DNS validation failed.\r\n")
    else
      updateData fun data => { data with mailFrom := some (senderAddress server from_) }
      match ← firstRejection (mailChecks server from_) with
      | some message =>
        updateData fun data => { data with mailFrom := none }
        write message
      | none => acceptMailFrom server

/-! ## Recipients -/

/-- Recipients are compared by their addresses in lower case. -/
def SessionData.hasRcpt (data : SessionData) (rcpt : SessionAddress) : Bool :=
  data.rcptTo.any (·.addressLcase == rcpt.addressLcase)

/-- The last recipient is taken back. -/
def popRcpt : SmtpM World Unit :=
  updateData fun data => { data with rcptTo := data.rcptTo.dropLast }

/-- A recipient is acknowledged. -/
def acknowledgeRcpt : SmtpM World Unit := do
  updateData fun data => { data with rcptOks := data.rcptOks + 1 }
  write "250 2.1.5 OK\r\n"

def rcptError (response rcpt : String) : SmtpM World Unit := do
  updateData fun data => { data with rcptErrors := data.rcptErrors + 1 }
  let s ← session
  ask (server.isRcptFail2banned rcpt)
  if s.data.rcptErrors < s.params.rcptErrorsMax then write response
  else
    write "451 4.3.0 Too many errors, disconnecting.\r\n"
    throw ()

/-- `SessionAddress::new`, of the text of a recipient. -/
def SessionAddress.new (address : String) : SessionAddress :=
  let addressLcase := address.toLower
  { address, addressLcase, domain := server.domainPart addressLcase, flags := 0, dsnInfo := none }

/-- The filters of the last recipient: a rejection, if any. -/
def filterRcpt : SmtpM World (Option String) := do
  firstRejection [runScript server .rcpt, filter server .rcpt, (do
    match ← consult server.rcptRewrite with
    | some address =>
      if address.contains '@' then
        updateData fun data =>
          { data with
            rcptTo := data.rcptTo.modify (data.rcptTo.length - 1) (·.rewritten server address) }
      return none
    | none => return none)]

/-- A list is replaced by those of its members that are not recipients yet. -/
def expandRcpt (members : List String) : SmtpM World Unit := updateData fun data =>
  match data.rcptTo.getLast? with
  | none => data
  | some list =>
    members.foldl (fun data member =>
      let rcpt : SessionAddress :=
        { SessionAddress.new server member with
          dsnInfo := some ("rfc822;" ++ list.addressLcase), flags := list.flags }
      if !data.hasRcpt rcpt && rcpt.addressLcase != list.addressLcase then
        { data with rcptTo := data.rcptTo ++ [rcpt] }
      else data) { data with rcptTo := data.rcptTo.dropLast }

/-- The last recipient, resolved, is accepted if no limit forbids it. -/
def acceptRcpt (members : Option (List String)) : SmtpM World Unit := do
  if ← consult server.isAllowed then
    let s ← session
    let greylisted ← if server.hasGreyList ∧ s.data.authenticatedAs.isNone
      then consult server.isGreylisted else pure false
    if greylisted then
      popRcpt
      write "452 4.2.2 Greylisted, please try again in a few moments.\r\n"
    else
      match members with
      | some members => expandRcpt server members
      | none => pure ()
      acknowledgeRcpt
  else
    popRcpt
    write "452 4.4.5 Rate limit exceeded, try again later.\r\n"

/-- The last recipient is resolved. -/
def resolveRcpt : SmtpM World Unit := do
  let s ← session
  let rcpt := (s.data.rcptTo.getLast?.map (·.addressLcase)).getD ""
  match ← ask (server.rcptResolve rcpt) with
  | some .accept => acceptRcpt server none
  | some (.rewrite address) =>
    let orig := s.data.rcptTo.getLast?
    popRcpt
    let new : SessionAddress :=
      { SessionAddress.new server address with
        dsnInfo := some ("rfc822;" ++ rcpt), flags := (orig.map (·.flags)).getD 0 }
    let s ← session
    if s.data.hasRcpt new then acknowledgeRcpt
    else
      updateData fun data => { data with rcptTo := data.rcptTo ++ [new] }
      acceptRcpt server none
  | some (.expand members) => acceptRcpt server (some members)
  | some .unknownRecipient =>
    popRcpt
    rcptError server "550 5.1.2 Mailbox does not exist.\r\n" rcpt
  | some .unknownDomain =>
    if ← consult server.relay then acceptRcpt server none
    else
      popRcpt
      rcptError server "550 5.1.2 Relay not allowed.\r\n" rcpt
  | none =>
    popRcpt
    write "451 4.4.3 Unable to verify address at this time.\r\n"

def handleRcptTo (to_ : RcptTo) : SmtpM World Unit := do
  let s ← session
  if s.data.mailFrom.isNone then write "503 5.5.1 MAIL is required first.\r\n"
  else if s.params.rcptMax ≤ min s.data.rcptTo.length s.data.rcptOks then
    write "455 4.5.3 Too many recipients.\r\n"
  else if (to_.flags &&& server.rcptNotify ≠ 0 ∨ to_.orcpt.isSome) ∧ !s.params.rcptDsn then
    write "501 5.5.4 DSN extension has been disabled.\r\n"
  else
    let addressLcase := server.toLowercaseAddress to_.address
    let rcpt : SessionAddress :=
      { address := to_.address, addressLcase, domain := server.domainPart addressLcase
        flags := to_.flags, dsnInfo := to_.orcpt }
    if s.data.hasRcpt rcpt then acknowledgeRcpt
    else
      updateData fun data => { data with rcptTo := data.rcptTo ++ [rcpt] }
      if server.hasRcptFilters then
        match ← filterRcpt server with
        | some message =>
          popRcpt
          write message
        | none =>
          let s ← session
          let isDuplicate : Bool := match s.data.rcptTo.getLast? with
            | some last => 1 < s.data.rcptTo.countP (·.addressLcase == last.addressLcase)
            | none => false
          if isDuplicate then
            popRcpt
            acknowledgeRcpt
          else resolveRcpt server
      else resolveRcpt server

/-! ## Authentication -/

structure SaslToken where
  mechanism : ℕ
  credentials : Credentials
  deriving DecidableEq

def SaslToken.fromMechanism (mechanism : ℕ) : Option SaslToken :=
  if mechanism = server.authPlain ∨ mechanism = server.authLogin then
    some ⟨mechanism, .basic "" "" none⟩
  else if mechanism = server.authOauthbearer ∨ mechanism = server.authXoauth2 then
    some ⟨mechanism, .bearer none ""⟩
  else none

def authError (response : String) : SmtpM World Unit := do
  updateData fun data => { data with authErrors := data.authErrors + 1 }
  write response
  let s ← session
  if s.data.authErrors < s.params.authErrorsMax then return
  else
    write "455 4.3.0 Too many authentication errors, disconnecting.\r\n"
    throw ()

/-- What follows a failed authentication. -/
def authFailure (err : TrcError) : SmtpM World Unit :=
  match err.event with
  | .authFailed => authError "535 5.7.8 Authentication credentials invalid.\r\n"
  | .authTokenExpired => authError "535 5.7.8 OAuth token expired.\r\n"
  | .authMfaRequired =>
    authError ("334 5.7.8 This account requires multi-factor authentication. " ++
      "Alternatively, you can use an app password if your account has one.\r\n")
  | .securityUnauthorized =>
    write "550 5.7.1 Your account is not authorized to use this service.\r\n"
  | .securityIpUnauthorized | .securityAuthenticationBan => throw ()
  | _ => write "454 4.7.0 Temporary authentication failure\r\n"

def authenticate (credentials : Credentials) : SmtpM World Unit := do
  emit (.login credentials)
  let result ← ask (server.authenticate credentials)
  match result.bind fun token => token.assertHasPermission .emailSend "emailSend" with
  | .error err => authFailure err
  | .ok token =>
    match ← ask (server.accountInfo token.accountId) with
    | .error err => authFailure err
    | .ok account =>
      updateData fun data => { data with authenticatedAs := some account }
      let canExpn ← consult server.canExpn
      let canVrfy ← consult server.canVrfy
      update fun s => { s with params.canExpn := canExpn, params.canVrfy := canVrfy }
      write "235 2.7.0 Authentication succeeded.\r\n"

/-- `handle_sasl_response`: the token to go on with, if any. -/
def handleSaslResponse (token : SaslToken) (response : List UInt8) :
    SmtpM World (Option SaslToken) := do
  let invalid : SmtpM World (Option SaslToken) := do
    authError "500 5.5.6 Invalid challenge.\r\n"
    return none
  let finish (credentials : Option Credentials) : SmtpM World (Option SaslToken) := do
    match credentials with
    | some credentials =>
      authenticate server credentials
      return none
    | none => invalid
  if response = [] then
    if token.mechanism = server.authLogin then
      match token.credentials with
      | .basic "" "" _ =>
        write "334 VXNlcm5hbWU6\r\n"
        return some token
      | _ => invalid
    else
      write "334 \r\n"
      return some token
  else
    match server.base64Decode response with
    | none => invalid
    | some response =>
      if token.mechanism = server.authPlain then
        finish (Credentials.decodeSaslChallengePlain response)
      else if token.mechanism = server.authLogin then
        match token.credentials with
        | .basic username _ mfaToken =>
          if username = "" then
            write "334 UGFzc3dvcmQ6\r\n"
            let credentials := .basic (server.intoString response) "" mfaToken
            return some { token with credentials }
          else finish (some (.basic username (server.intoString response) mfaToken))
        | .bearer _ _ => invalid
      else finish (server.decodeSaslChallengeOauth response)

/-- `can_send_data`: why a message cannot be sent now, if it cannot. -/
def canSendData : SmtpM World (Option String) := do
  let s ← session
  if s.data.mailFrom.isNone then return some "503 5.5.1 MAIL is required first.\r\n"
  else if s.data.rcptTo = [] then return some "503 5.5.1 RCPT is required first.\r\n"
  else if s.data.messagesSent < (← consult server.maxMessages) then return none
  else return some "452 4.4.5 Maximum number of messages per session exceeded.\r\n"

/-- The same text, several times. -/
def writeTimes (text : String) : ℕ → SmtpM World Unit
  | 0 => return
  | n + 1 => do
    write text
    writeTimes text n

/-- The end of a message: it is queued or refused, and the transaction ends. LMTP has an answer for
    each recipient. -/
def endMessage : SmtpM World Unit := do
  let s ← session
  let (response, isSent) ← consult server.queueMessage
  if isSent then
    emit (.message s.data.mailFrom s.data.rcptTo s.data.message)
    updateData fun data => { data with messagesSent := data.messagesSent + 1 }
  if response = "" then throw ()
  else
    writeTimes response (if server.protocol = .smtp then 1 else s.data.rcptOks)
    updateData SessionData.reset

end Handlers

end Inworkspace.Smtp
