import Inworkspace.Auth.Sasl

/-!
# POP3 requests

`pop3::protocol::request`: the parser of the commands of a client. It is fed the
bytes one by one and keeps what it has read of an unfinished command
(`ParserState`) until the next bytes arrive. A command that cannot be recognised
is skipped up to the end of the line, which a name of one or two letters reaches
one line too late: the line feed that should end it only makes it invalid.
-/

namespace Inworkspace.Pop3

open Lib.Ascii

/-- `Command`, with its texts and its mechanism as read or as understood. -/
inductive Command (T M : Type) where
  | user (name : T)
  | pass (string : T)
  | apop (name digest : T)
  | quit
  | stat
  | list (msg : Option ℕ)
  | retr (msg : ℕ)
  | dele (msg : ℕ)
  | deleMany (msgs : List ℕ)
  | noop
  | rset
  | top (msg n : ℕ)
  | uidl (msg : Option ℕ)
  | capa
  | stls
  | utf8
  | auth (mechanism : M) (params : List T)
  deriving DecidableEq

/-- A command as it is read. -/
abbrev RawCommand := Command (List UInt8) (List UInt8)

/-- A command as it is understood. -/
abbrev Request := Command String Mechanism

/-- `MAX_ARG_LEN`. -/
def maxArgLen : ℕ := 256

/-- `add_digit`, for a number of 32 bits. -/
def addDigit (num : ℕ) (byte : UInt8) : Except String ℕ :=
  if isAsciiDigit byte then
    let num' := num * 10 + (byte.toNat - 48)
    if num' ≤ u32Max then .ok num' else .error "Numeric argument out of range"
  else .error "Invalid digit"

def intoString (bytes : List UInt8) : Except String String :=
  match fromUtf8 bytes with
  | some text => .ok text
  | none => .error "Invalid UTF-8"

namespace RawCommand

/-- The names of the commands, and the commands before their arguments are read. -/
def table : List (String × RawCommand) :=
  [("user", .user []), ("uidl", .uidl none), ("utf8", .utf8), ("pass", .pass []),
    ("apop", .apop [] []), ("auth", .auth [] []), ("quit", .quit), ("list", .list none),
    ("retr", .retr 0), ("rset", .rset), ("dele", .dele 0), ("noop", .noop), ("top", .top 0 0),
    ("capa", .capa), ("stls", .stls), ("stat", .stat)]

/-- `Command::parse`. -/
def parse (bytes : List UInt8) : Except String RawCommand :=
  match table.find? fun entry => asBytes entry.1 == bytes with
  | some entry => .ok entry.2
  | none => .error "Invalid command"

/-- The parameters of `AUTH` with the next byte of the argument `argNum`. -/
def pushParam (params : List (List UInt8)) (argNum : ℕ) (byte : UInt8) : List (List UInt8) :=
  let params := if params.length < argNum - 1 then params ++ [[]] else params
  params.modify (params.length - 1) (· ++ [byte])

/-- `Command::update_argument`. -/
def updateArgument (self : RawCommand) (argNum : ℕ) (byte : UInt8) : Except String RawCommand :=
  let tooMany := .error "Too many arguments"
  match self with
  | .user name =>
    if argNum = 1 ∧ name.length < maxArgLen then .ok (.user (name ++ [byte])) else tooMany
  | .pass string =>
    if argNum = 1 ∧ string.length < maxArgLen then .ok (.pass (string ++ [byte])) else tooMany
  | .apop name digest =>
    if argNum ≤ 2 ∧ name.length < maxArgLen ∧ digest.length < maxArgLen then
      if argNum = 1 then .ok (.apop (name ++ [byte]) digest)
      else .ok (.apop name (digest ++ [byte]))
    else tooMany
  | .list msg =>
    if argNum = 1 then (addDigit (msg.getD 0) byte).map fun n => .list (some n) else tooMany
  | .retr msg => if argNum = 1 then (addDigit msg byte).map .retr else tooMany
  | .dele msg => if argNum = 1 then (addDigit msg byte).map .dele else tooMany
  | .top msg n =>
    if argNum ≤ 2 then
      if argNum = 1 then (addDigit msg byte).map fun m => .top m n
      else (addDigit n byte).map fun m => .top msg m
    else tooMany
  | .uidl msg =>
    if argNum = 1 then (addDigit (msg.getD 0) byte).map fun n => .uidl (some n) else tooMany
  | .auth mechanism params =>
    if argNum ≤ 4 ∧ mechanism.length < 64 ∧
        (params.map List.length).sum < maxArgLen * 4 then
      if argNum = 1 then .ok (.auth (mechanism ++ [byte]) params)
      else .ok (.auth mechanism (pushParam params argNum byte))
    else tooMany
  | _ => tooMany

/-- `Command::finalize`. -/
def finalize (self : RawCommand) (numArgs : ℕ) : Except String Request :=
  let missing := .error "Missing arguments"
  match self with
  | .user name => if numArgs = 1 then (intoString name).map .user else missing
  | .pass string => if numArgs = 1 then (intoString string).map .pass else missing
  | .apop name digest =>
    if numArgs = 2 then do return .apop (← intoString name) (← intoString digest) else missing
  | .quit => .ok .quit
  | .stat => .ok .stat
  | .list msg => .ok (.list msg)
  | .retr msg => if numArgs = 1 then .ok (.retr msg) else missing
  | .dele msg => if numArgs = 1 then .ok (.dele msg) else missing
  | .noop => .ok .noop
  | .rset => .ok .rset
  | .top msg n => if numArgs = 2 then .ok (.top msg n) else missing
  | .uidl msg => .ok (.uidl msg)
  | .capa => .ok .capa
  | .stls => .ok .stls
  | .utf8 => .ok .utf8
  | .auth mechanism params =>
    if 1 ≤ numArgs then do
      return .auth (← Mechanism.parse mechanism) (← params.mapM intoString)
    else missing
  | .deleMany _ => missing

end RawCommand

/-! ## The parser -/

/-- `request::State`, with the bytes so far of the name of a command. -/
inductive ParserState where
  | init
  | command (buf : List UInt8)
  | argument (request : RawCommand) (num : ℕ) (lastIsSpace : Bool)
  | error (reason : String)
  deriving DecidableEq

namespace ParserState

/-- What the parser makes of a byte: its next state and, at the end of a command, the command or why
    there is none. -/
def step (self : ParserState) (byte : UInt8) : ParserState × Option (Except String Request) :=
  match self with
  | .init =>
    if byte = 32 ∨ byte = 9 ∨ byte = 13 ∨ byte = 10 then (.init, none)
    else if isAsciiLowercase byte then (.command [byte], none)
    else if isAsciiUppercase byte then (.command [byte ||| 0x20], none)
    else (.error "Invalid command", none)
  | .command buf =>
    if (isAsciiLowercase byte ∨ byte = 56) ∧ buf.length < 4 then (.command (buf ++ [byte]), none)
    else if isAsciiUppercase byte ∧ buf.length < 4 then (.command (buf ++ [byte ||| 0x20]), none)
    else if (byte = 32 ∨ byte = 9) ∧ (buf.length = 4 ∨ buf.length = 3) then
      match RawCommand.parse buf with
      | .ok request => (.argument request 0 true, none)
      | .error err => (.error err, none)
    else if byte = 13 then (.command buf, none)
    else if byte = 10 ∧ (buf.length = 4 ∨ buf.length = 3) then
      match RawCommand.parse buf with
      | .ok request => (.init, some (request.finalize 0))
      | .error err => (.init, some (.error err))
    else (.error "Invalid command", none)
  | .argument request num lastIsSpace =>
    if byte = 32 ∨ byte = 9 then (.argument request num true, none)
    else if byte = 13 then (.argument request num lastIsSpace, none)
    else if byte = 10 then (.init, some (request.finalize num))
    else
      let num := if lastIsSpace then num + 1 else num
      match request.updateArgument num byte with
      | .ok request => (.argument request num false, none)
      | .error err => (.error err, none)
  | .error reason =>
    if byte = 10 then (.init, some (.error reason)) else (.error reason, none)

end ParserState

end Inworkspace.Pop3
