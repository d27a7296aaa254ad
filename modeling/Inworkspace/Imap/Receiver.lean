import Inworkspace.Auth.Sasl

/-!
# Receiving IMAP requests

`imap_proto::receiver`: the parser that splits what a client sends into a tag, a
command and its arguments. It is fed the bytes one by one (`Receiver.step`). It keeps
what it has read of an unfinished request, and stops at the end of a request, at
an error, and where the client waits to be told to go on with a literal.
-/

namespace Inworkspace.Imap

open Lib.Ascii

inductive Token where
  | argument (value : List UInt8)
  | parenthesisOpen
  | parenthesisClose
  | bracketOpen
  | bracketClose
  | lt
  | gt
  | dot
  | nil
  deriving DecidableEq

namespace Token

/-- `Token::unwrap_bytes`, `Token::as_bytes`. -/
def unwrapBytes : Token → List UInt8
  | argument value => value
  | parenthesisOpen => asBytes "("
  | parenthesisClose => asBytes ")"
  | bracketOpen => asBytes "["
  | bracketClose => asBytes "]"
  | lt => asBytes "<"
  | gt => asBytes ">"
  | dot => asBytes "."
  | nil => []

def unwrapString (self : Token) : Except String String :=
  match fromUtf8 self.unwrapBytes with
  | some text => .ok text
  | none => .error "Invalid UTF-8 in argument."

end Token

/-- `CommandParser`: the commands of a protocol, by their names. -/
class CommandParser (T : Type) extends Inhabited T where
  parse : List UInt8 → Bool → Option T
  tokenizeBrackets : T → Bool

structure Request (T : Type) where
  tag : String
  command : T
  tokens : List Token
  deriving DecidableEq

/-- `receiver::State`. -/
inductive ReceiverState where
  | start
  | tag
  | command (isUid : Bool)
  | argument (lastCh : UInt8)
  | argumentQuoted (escaped : Bool)
  | literal (nonSync : Bool)
  | literalSeek (size : ℕ) (nonSync : Bool)
  | literalData (remaining : ℕ)
  | literalDiscard (remaining : ℕ)
  deriving DecidableEq

/-- `receiver::Error`, with the tag of the request if it has been read; all are of the code
    `PARSE`. -/
inductive ReceiverError where
  | needsLiteral (size : ℕ)
  | error (tag : Option String) (message : String)
  deriving DecidableEq

/-- `Receiver`. Its limit and its first state, which for IMAP is `start`, stay as they are, and are
    not in the state. -/
structure Receiver (T : Type) where
  buf : List UInt8
  request : Request T
  state : ReceiverState
  currentRequestSize : ℕ
  deriving DecidableEq

/-- `ARG_MAX_LEN`. -/
def argMaxLen : ℕ := 8000

variable {T : Type} [CommandParser T]

def Request.default : Request T := ⟨"", Inhabited.default, []⟩

/-- `Receiver::with_max_request_size`, whatever the limit. -/
def Receiver.new : Receiver T := ⟨[], Request.default, .start, 0⟩

/-- Computations of a receiver, which stop at an error. -/
abbrev ReceiverM (T : Type) := EStateM ReceiverError (Receiver T)

namespace Receiver

def errorReset {α : Type} (message : String) : ReceiverM T α := do
  let self : Receiver T ← get
  set (Receiver.new : Receiver T)
  throw (.error (if self.request.tag = "" then none else some self.request.tag) message)

variable (maxRequestSize : ℕ)

/-- The error of a request that is too large. -/
def exceedsLimit {α : Type} : ReceiverM T α :=
  errorReset ("Request exceeds maximum limit of " ++ toString maxRequestSize ++ " bytes.")

def pushArgument (inQuote : Bool) : ReceiverM T Unit := do
  let self : Receiver T ← get
  if self.buf ≠ [] then
    let size := self.currentRequestSize + self.buf.length
    set { self with currentRequestSize := size }
    if maxRequestSize < size then exceedsLimit maxRequestSize
    else
      set { self with
        currentRequestSize := size, buf := [],
        request.tokens := self.request.tokens ++ [Token.argument self.buf] }
  else if inQuote then
    set { self with request.tokens := self.request.tokens ++ [Token.nil] }

def pushToken (token : Token) : ReceiverM T Unit := do
  let self : Receiver T ← get
  let size := self.currentRequestSize + 1
  set { self with currentRequestSize := size }
  if maxRequestSize < size then exceedsLimit maxRequestSize
  else
    set { self with
      currentRequestSize := size, request.tokens := self.request.tokens ++ [token] }

/-- `push_checked`, or an error. -/
def pushChecked (ch : UInt8) (limit : ℕ) (message : String) : ReceiverM T Unit := do
  let self : Receiver T ← get
  if self.buf.length < limit then set { self with buf := self.buf ++ [ch] }
  else errorReset message

/-- Change the state only. -/
def goto (state : ReceiverState) : ReceiverM T Unit := modify fun self => { self with state }

/-- The end of a request. -/
def finish : ReceiverM T (Option (Request T)) := do
  let self : Receiver T ← get
  set { self with request := (Request.default : Request T), state := .start, currentRequestSize := 0 }
  return some self.request

/-- The number the digits of a literal stand for, `parse::<u32>`. -/
def parseSize (digits : List UInt8) : Option ℕ :=
  let size := digits.foldl (fun n ch => n * 10 + (ch.toNat - 48)) 0
  if size ≤ u32Max then some size else none

/-! ## The states -/

/-- A byte where a request starts. -/
def stepStart (ch : UInt8) : ReceiverM T (Option (Request T)) := do
  if !isAsciiWhitespace ch then
    modify fun self => { self with buf := self.buf ++ [ch], state := .tag }
  return none

/-- A byte of the tag. -/
def stepTag (ch : UInt8) : ReceiverM T (Option (Request T)) := do
  let self : Receiver T ← get
  if ch = 32 then
    if self.buf ≠ [] then
      match fromUtf8 self.buf with
      | some tag =>
        set { self with buf := [], request.tag := tag, state := .command false }
        return none
      | none =>
        set { self with buf := [] }
        errorReset "Tag is not a valid UTF-8 string."
    else return none
  else if ch = 9 ∨ ch = 13 then return none
  else if ch = 10 then
    errorReset ("Missing command after tag \"" ++ (fromUtf8 self.buf).getD "" ++
      "\", found CRLF instead.")
  else
    pushChecked ch 128 "Tag exceeds maximum length of 128 characters."
    return none

/-- A byte of the name of the command. -/
def stepCommand (isUid : Bool) (ch : UInt8) : ReceiverM T (Option (Request T)) := do
  let self : Receiver T ← get
  if isAsciiAlphanumeric ch then
    pushChecked (toAsciiUppercase ch) 15 "Command exceeds maximum length of 15 characters."
    return none
  else if isAsciiWhitespace ch then
    if self.buf ≠ [] then
      if eqIgnoreAsciiCase self.buf (asBytes "UID") then
        set { self with buf := [], state := .command true }
        return none
      else
        match (CommandParser.parse self.buf isUid : Option T) with
        | none => errorReset ("Unrecognized command '" ++ fromUtf8Lossy self.buf ++ "'.")
        | some command =>
          set { self with buf := [], request.command := command }
          if ch ≠ 10 then
            goto (.argument 32)
            return none
          else finish
    else return none
  else errorReset ("Invalid character '" ++ String.singleton (Char.ofNat ch.toNat) ++
    "' in command name.")

/-- The token of a bracket, for the commands in which brackets are tokens. -/
def bracketToken (ch : UInt8) : Option Token :=
  if ch = 91 then some .bracketOpen
  else if ch = 93 then some .bracketClose
  else if ch = 60 then some .lt
  else if ch = 62 then some .gt
  else if ch = 46 then some .dot
  else none

/-- The token a byte between arguments stands for. -/
def separator (command : T) (ch : UInt8) : Option Token :=
  if ch = 40 then some .parenthesisOpen
  else if ch = 41 then some .parenthesisClose
  else if CommandParser.tokenizeBrackets command then bracketToken ch
  else none

/-- A byte of the arguments. -/
def stepArgument (lastCh ch : UInt8) : ReceiverM T (Option (Request T)) := do
  let self : Receiver T ← get
  if ch = 34 ∧ isAsciiWhitespace lastCh then
    pushArgument maxRequestSize false
    goto (.argumentQuoted false)
    return none
  else if ch = 123 ∧ (isAsciiWhitespace lastCh ∨ lastCh = 126 ∧ self.buf.length = 1) then
    if lastCh ≠ 126 then pushArgument maxRequestSize false else set { self with buf := [] }
    goto (.literal false)
    return none
  else
    match separator self.request.command ch with
    | some token =>
      pushArgument maxRequestSize false
      pushToken maxRequestSize token
      return none
    | none =>
      if ch = 10 then
        pushArgument maxRequestSize false
        finish
      else if isAsciiWhitespace ch then
        pushArgument maxRequestSize false
        goto (.argument ch)
        return none
      else
        pushChecked ch argMaxLen "Argument exceeds maximum length of 8000 bytes."
        goto (.argument ch)
        return none

/-- A byte of a quoted argument. -/
def stepArgumentQuoted (escaped : Bool) (ch : UInt8) : ReceiverM T (Option (Request T)) := do
  let tooLong := "Quoted argument too long."
  if ch = 34 then
    if !escaped then
      pushArgument maxRequestSize true
      goto (.argument 32)
    else
      pushChecked ch argMaxLen tooLong
      goto (.argumentQuoted false)
    return none
  else if ch = 92 then
    if escaped then pushChecked ch argMaxLen tooLong
    goto (.argumentQuoted !escaped)
    return none
  else if ch = 10 then errorReset "Unterminated quoted argument."
  else
    -- a backslash that escapes nothing is kept
    if escaped then modify fun self => { self with buf := self.buf ++ [92] }
    pushChecked ch argMaxLen tooLong
    goto (.argumentQuoted false)
    return none

/-- The error of a literal that is too large. -/
def literalTooLarge {α : Type} : ReceiverM T α :=
  errorReset
    ("Literal exceeds the maximum request size of " ++ toString maxRequestSize ++ " bytes.")

/-- A byte of the size of a literal. -/
def stepLiteral (nonSync : Bool) (ch : UInt8) : ReceiverM T (Option (Request T)) := do
  let self : Receiver T ← get
  if ch = 125 then
    if self.buf ≠ [] then
      match parseSize self.buf with
      | none => errorReset "Literal size is not a valid number."
      | some size =>
        -- what the client sends without waiting has to be read and skipped
        if maxRequestSize < self.currentRequestSize + size ∧ !nonSync then
          literalTooLarge maxRequestSize
        else
          set { self with buf := [], state := .literalSeek size nonSync }
          return none
    else errorReset "Invalid empty literal."
  else if ch = 43 then
    if self.buf ≠ [] then
      goto (.literal true)
      return none
    else errorReset "Invalid non-sync literal."
  else if isAsciiDigit ch then
    if !nonSync then
      pushChecked ch 15 "Literal size exceeds maximum of 15 digits."
      return none
    else errorReset "Invalid literal."
  else errorReset ("Invalid character '" ++ String.singleton (Char.ofNat ch.toNat) ++
    "' in literal.")

/-- A byte between the size of a literal and the literal. -/
def stepLiteralSeek (size : ℕ) (nonSync : Bool) (ch : UInt8) :
    ReceiverM T (Option (Request T)) := do
  let self : Receiver T ← get
  if ch = 10 then
    if nonSync ∧ maxRequestSize < self.currentRequestSize + size then
      goto (.literalDiscard size)
      return none
    else
      if 0 < size then goto (.literalData size)
      else
        goto (.argument 32)
        pushToken maxRequestSize .nil
      if !nonSync then throw (.needsLiteral size) else return none
  else if !isAsciiWhitespace ch then
    errorReset "Expected CRLF after literal, found an invalid char."
  else return none

/-- A byte of a literal that is skipped. -/
def stepLiteralDiscard (remaining : ℕ) : ReceiverM T (Option (Request T)) := do
  if 1 < remaining then
    goto (.literalDiscard (remaining - 1))
    return none
  else literalTooLarge maxRequestSize

/-- A byte of a literal. -/
def stepLiteralData (remaining : ℕ) (ch : UInt8) : ReceiverM T (Option (Request T)) := do
  modify fun self => { self with buf := self.buf ++ [ch] }
  if 1 < remaining then goto (.literalData (remaining - 1))
  else
    pushArgument maxRequestSize false
    goto (.argument 32)
  return none

/-- The body of the loop of `parse`: the next byte, and the request that ends with it. -/
def step (ch : UInt8) : ReceiverM T (Option (Request T)) := do
  match (← get).state with
  | .start => stepStart ch
  | .tag => stepTag ch
  | .command isUid => stepCommand isUid ch
  | .argument lastCh => stepArgument maxRequestSize lastCh ch
  | .argumentQuoted escaped => stepArgumentQuoted maxRequestSize escaped ch
  | .literal nonSync => stepLiteral maxRequestSize nonSync ch
  | .literalSeek size nonSync => stepLiteralSeek maxRequestSize size nonSync ch
  | .literalDiscard remaining => stepLiteralDiscard maxRequestSize remaining
  | .literalData remaining => stepLiteralData maxRequestSize remaining ch

end Receiver

end Inworkspace.Imap
