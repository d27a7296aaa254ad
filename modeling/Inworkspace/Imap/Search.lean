import Inworkspace.Imap.Receiver
import Inworkspace.Lib.FilterTree

/-!
# Parsing search criteria

`parse_filters` reads the criteria of an IMAP `SEARCH`. It is one loop over the tokens of the
command. What a round of the loop reads, a key with its arguments, an operator or a parenthesis, is
an `Item` here; the items of a command end where one cannot be read (`items`), so that errors come
in the order of the tokens. What a round does is `ParseState.step`: filters are collected in
frames, one for each operator and parenthesis that is open, and a frame that is complete is handed
over to the one around it (`unwind`).

The parsers of dates, numbers, flags and sequence sets are parameters.
-/

namespace Inworkspace.Imap

open Lib.Ascii Lib.FilterTree

/-! ## What the tokens say -/

inductive ModSeqEntry (F : Type) where
  | shared (flag : F)
  | «private» (flag : F)
  | all (flag : F)
  | none
  deriving DecidableEq

/-- The conditions of `search::Filter`, over flags and sequence sets. -/
inductive Key (F S : Type) where
  | sequence (set : S) (uid : Bool)
  | all
  | answered
  | bcc (text : String)
  | before (date : ℤ)
  | body (text : String)
  | cc (text : String)
  | deleted
  | draft
  | flagged
  | from (text : String)
  | header (name value : String)
  | keyword (flag : F)
  | larger (size : ℕ)
  | on (date : ℤ)
  | seen
  | sentBefore (date : ℤ)
  | sentOn (date : ℤ)
  | sentSince (date : ℤ)
  | since (date : ℤ)
  | smaller (size : ℕ)
  | subject (text : String)
  | text (text : String)
  | to (text : String)
  | unanswered
  | undeleted
  | undraft
  | unflagged
  | unkeyword (flag : F)
  | unseen
  | recent
  | new
  | old
  | older (secs : ℕ)
  | younger (secs : ℕ)
  | modSeq (value : ℕ) (entry : ModSeqEntry F)
  | emailId (id : String)
  | threadId (id : String)
  deriving DecidableEq

/-- `search::Filter`: a condition, `And`, `Or` or `Not`, or `End`. -/
abbrev Filter (L : Type) := Lib.FilterTree.Token L

/-- `parse_date`, `parse_number` for some bits, `Flag::parse_imap` and `parse_sequence_set`. -/
structure ArgumentParsers (F S : Type) where
  date : List UInt8 → Except String ℤ
  number : (bits : ℕ) → List UInt8 → Except String ℕ
  flag : List UInt8 → Except String F
  sequenceSet : List UInt8 → Except String S

/-- Computations that take tokens from a list. -/
abbrev Reader := StateT (List Token) (Except String)

/-- The next token, or an error with the message. -/
def nextToken (message : String) : Reader Token
  | [] => .error message
  | token :: tokens => .ok (token, tokens)

def decodeArgument (decoder : Option (List UInt8 → String)) : Reader String := do
  let argument := (← nextToken "Expected string.").unwrapBytes
  match decoder with
  | some decoder => return decoder argument
  | none =>
    match fromUtf8 argument with
    | some text => return text
    | none => throw "Invalid UTF-8 argument."

section Keys

variable {F S : Type} (parsers : ArgumentParsers F S)

/-- The next argument, as one of the parsers reads it. -/
def argument {α : Type} (message : String) (parse : List UInt8 → Except String α) : Reader α := do
  let token ← nextToken message
  parse token.unwrapBytes

/-- The arguments of `MODSEQ`. -/
def modSeqArguments : Reader (Key F S) := do
  let param := (← nextToken "Missing MODSEQ parameters.").unwrapBytes
  if param.isEmpty || param.any (!isAsciiDigit ·) then
    if param.length ≤ 7 || !(asBytes "/flags/").isPrefixOf param then
      throw ("Unsupported MODSEQ parameter '" ++ fromUtf8Lossy param ++ "'.")
    let flag ← parsers.flag (param.drop 7)
    let token ← nextToken "Missing MODSEQ entry-type-req parameter."
    let unsupported : String :=
      "Unsupported MODSEQ parameter '" ++ fromUtf8Lossy token.unwrapBytes ++ "'."
    let entry : ModSeqEntry F ← match token with
      | .argument value =>
        if eqIgnoreAsciiCase value (asBytes "all") then pure (.all flag)
        else if eqIgnoreAsciiCase value (asBytes "shared") then pure (.shared flag)
        else if eqIgnoreAsciiCase value (asBytes "priv") then pure (.private flag)
        else throw unsupported
      | _ => throw unsupported
    let value ← argument "Missing MODSEQ mod-sequence-valzer parameter." (parsers.number 64)
    return .modSeq value entry
  else
    return .modSeq (← parsers.number 64 param) .none

/-- The keys with their arguments. -/
def keys (decoder : Option (List UInt8 → String)) : List (String × Reader (Key F S)) :=
  let text := decodeArgument decoder
  let date := argument "Expected date" parsers.date
  let integer := argument "Expected integer" (parsers.number 32)
  let flag := argument "Expected keyword" parsers.flag
  [("ALL", pure .all), ("ANSWERED", pure .answered), ("BCC", .bcc <$> text),
    ("BEFORE", .before <$> date), ("BODY", .body <$> text), ("CC", .cc <$> text),
    ("DELETED", pure .deleted), ("DRAFT", pure .draft), ("FLAGGED", pure .flagged),
    ("FROM", .from <$> text), ("HEADER", .header <$> text <*> text),
    ("KEYWORD", .keyword <$> flag), ("LARGER", .larger <$> integer), ("ON", .on <$> date),
    ("SEEN", pure .seen), ("SENTBEFORE", .sentBefore <$> date), ("SENTON", .sentOn <$> date),
    ("SENTSINCE", .sentSince <$> date), ("SINCE", .since <$> date),
    ("SMALLER", .smaller <$> integer), ("SUBJECT", .subject <$> text), ("TEXT", .text <$> text),
    ("TO", .to <$> text),
    ("UID", (.sequence · true) <$> argument "Missing sequence set." parsers.sequenceSet),
    ("UNANSWERED", pure .unanswered), ("UNDELETED", pure .undeleted), ("UNDRAFT", pure .undraft),
    ("UNFLAGGED", pure .unflagged), ("UNKEYWORD", .unkeyword <$> flag), ("UNSEEN", pure .unseen),
    ("OLDER", .older <$> integer), ("YOUNGER", .younger <$> integer), ("OLD", pure .old),
    ("NEW", pure .new), ("RECENT", pure .recent), ("MODSEQ", modSeqArguments parsers),
    ("EMAILID", do
      let token ← nextToken "Expected an EMAILID value."
      return .emailId (← token.unwrapString)),
    ("THREADID", do
      let token ← nextToken "Expected an THREADID value."
      return .threadId (← token.unwrapString))]

end Keys

/-- What a round of the loop reads: a condition, an opening parenthesis (as `and`), `OR` or `NOT`, a
    closing parenthesis, or none of these. -/
inductive Item (L : Type) where
  | key (l : L)
  | nest (op : Op)
  | close
  | fail (message : String)
  deriving DecidableEq

section Items

variable {F S : Type} (parsers : ArgumentParsers F S) (decoder : Option (List UInt8 → String))

/-- The item that starts with a token, and the tokens that follow it. -/
def readItem : Token → Reader (Item (Key F S))
  | .argument value =>
    if eqIgnoreAsciiCase value (asBytes "OR") then pure (.nest .or)
    else if eqIgnoreAsciiCase value (asBytes "NOT") then pure (.nest .not)
    else
      match (keys parsers decoder).find? fun entry => eqIgnoreAsciiCase value (asBytes entry.1) with
      | some entry => .key <$> entry.2
      | none => do return .key (.sequence (← parsers.sequenceSet value) false)
  | .parenthesisOpen => pure (.nest .and)
  | .parenthesisClose => pure .close
  | token => throw ("Unexpected token \"" ++ fromUtf8Lossy token.unwrapBytes ++ "\".")

/-- The items of some tokens, up to one that cannot be read; `skip` tokens are arguments of the last
    one. -/
def items : List Token → (skip : ℕ) → List (Item (Key F S))
  | [], _ => []
  | _ :: tokens, skip + 1 => items tokens skip
  | token :: tokens, 0 =>
    match readItem parsers decoder token tokens with
    | .error message => [.fail message]
    | .ok (item, rest) => item :: items tokens (tokens.length - rest.length)

end Items

/-! ## What is done with them -/

variable {L : Type}

/-- The filters of an open operator or parenthesis, and how many there are. -/
structure Frame (L : Type) where
  filters : List (Filter L)
  operator : Op
  filtersLen : ℕ
  deriving DecidableEq

namespace Frame

/-- A frame that has just been opened. -/
def opened (operator : Op) : Frame L := ⟨[], operator, 0⟩

/-- The frame with more filters. -/
def add (self : Frame L) (filters : List (Filter L)) (count : ℕ) : Frame L :=
  { self with filters := self.filters ++ filters, filtersLen := self.filtersLen + count }

/-- The frame around a complete one, with its filters. Those of a parenthesis are taken over as they
    are, unless they are several in an `Or`. -/
def mergeInto (self prev : Frame L) : Frame L :=
  if self.operator = .and ∧ (prev.operator ≠ .or ∨ self.filtersLen = 1) then
    prev.add self.filters self.filtersLen
  else prev.add (.group self.operator :: (self.filters ++ [.close])) 1

/-- More filters may follow. -/
def isOpen (self : Frame L) : Prop :=
  self.operator = .and ∨ self.operator = .or ∧ self.filtersLen < 2

instance (self : Frame L) : Decidable self.isOpen :=
  inferInstanceAs (Decidable (_ ∨ _))

end Frame

/-- The state of the loop: the innermost frame, and `filters_stack`. -/
structure ParseState (L : Type) where
  current : Frame L
  stack : List (Frame L)
  deriving DecidableEq

/-- The inner loop of `parse_filters`. -/
def unwind (current : Frame L) : List (Frame L) → ParseState L
  | [] => ⟨current, []⟩
  | prev :: stack =>
    let merged := current.mergeInto prev
    if merged.isOpen then ⟨merged, stack⟩ else unwind merged stack

namespace ParseState

/-- What follows a condition or a closing parenthesis. -/
def settle (self : ParseState L) (foundParenthesis : Bool) : ParseState L :=
  let current := self.current
  if self.stack ≠ [] ∧ (foundParenthesis = true ∨
      current.operator = .or ∧ current.filtersLen = 2 ∨
      current.operator = .not ∧ current.filtersLen = 1) then
    Imap.unwind current self.stack
  else self

/-- A round of the loop of `parse_filters`. -/
def step (self : ParseState L) : Item L → Except String (ParseState L)
  | .key l => .ok (settle { self with current := self.current.add [.leaf l] 1 } false)
  | .nest op =>
    if self.stack.length > 10 then .error "Too many nested filters"
    else .ok ⟨Frame.opened op, self.current :: self.stack⟩
  | .close =>
    if self.stack = [] then .error "Unexpected parenthesis." else .ok (self.settle true)
  | .fail message => .error message

end ParseState

/-- The loop of `parse_filters`; only the filters of the innermost frame are returned. -/
def parseItems (items : List (Item L)) : Except String (List (Filter L)) := do
  let state ← items.foldlM ParseState.step ⟨Frame.opened .and, []⟩
  return state.current.filters

def parseFilters {F S : Type} (parsers : ArgumentParsers F S)
    (decoder : Option (List UInt8 → String)) (tokens : List Token) :
    Except String (List (Filter (Key F S))) :=
  parseItems (items parsers decoder tokens 0)

end Inworkspace.Imap
