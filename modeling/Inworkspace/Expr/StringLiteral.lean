import Inworkspace.Auth.Credential
import Inworkspace.Lib.Ascii

/-!
# Strings in expressions

`Tokenizer::parse_string`: the bytes of a literal are collected up to the closing quote. A byte
behind a backslash is taken for what it stands for, but the backslash has been collected too. So a
literal is read as it is meant exactly when nothing in it is escaped (`parseString_iff`).
-/

namespace Inworkspace.Expr

open List

def backslash : UInt8 := 92

/-- What a byte stands for behind a backslash. -/
def unescaped (ch : UInt8) : UInt8 :=
  if ch = 'n'.toUInt8 then 10 else if ch = 'r'.toUInt8 then 13
  else if ch = 't'.toUInt8 then 9 else ch

/-- The loop of `parse_string`, with what the closing quote is followed by. -/
def collect (stopCh : UInt8) (buf : List UInt8) (lastCh : UInt8) :
    List UInt8 → Option (List UInt8 × List UInt8)
  | [] => none
  | ch :: iter =>
    if lastCh ≠ backslash then
      -- the backslash itself is pushed too
      if ch ≠ stopCh then collect stopCh (buf ++ [ch]) ch iter else some (buf, iter)
    else collect stopCh (buf ++ [unescaped ch]) ch iter

/-- `Tokenizer::parse_string`, with what is left to be tokenised. -/
def parseString (stopCh : UInt8) (iter : List UInt8) : Except String (String × List UInt8) :=
  match collect stopCh [] 0 iter with
  | some (buf, iter) => match Lib.Ascii.fromUtf8 buf with
    | some text => .ok (text, iter)
    | none => .error "Invalid UTF-8"
  | none => .error "Unterminated string"

/-- A byte in a literal, as it is or behind a backslash. -/
inductive LiteralByte
  | plain (ch : UInt8)
  | escaped (ch : UInt8)

open LiteralByte

/-- How it is written. -/
def LiteralByte.text : LiteralByte → List UInt8
  | plain ch => [ch]
  | escaped ch => [backslash, ch]

/-- What is meant. -/
def LiteralByte.value : LiteralByte → UInt8
  | plain ch => ch
  | escaped ch => unescaped ch

/-- A text between quotes: backslashes and quotes in it are escaped, and other bytes may be. -/
structure Literal (quote : UInt8) where
  bytes : List LiteralByte
  proper : ∀ ch, plain ch ∈ bytes → ch ≠ backslash ∧ ch ≠ quote

variable {quote lastCh : UInt8} {buf buf' iter rest : List UInt8} {s : String}

/-- The text is what the loop has collected, as UTF-8. -/
theorem parseString_eq_ok_iff :
    parseString quote iter = .ok (s, rest) ↔ collect quote [] 0 iter = some (asBytes s, rest) := by
  have hutf8 {buf : List UInt8} : Lib.Ascii.fromUtf8 buf = some s ↔ buf = asBytes s := by
    rw [Lib.Ascii.fromUtf8, String.fromUTF8?]
    refine ⟨fun h => ?_, ?_⟩
    · split at h <;> cases h
      rfl
    · rintro rfl
      exact dif_pos s.isValidUTF8
  rw [parseString]
  rcases collect quote [] 0 iter with _ | ⟨buf, iter⟩
  · exact iff_of_false nofun nofun
  rw [Option.some_inj, Prod.mk.injEq, ← hutf8]
  dsimp only
  cases Lib.Ascii.fromUtf8 buf <;> simp

/-- Each byte before the closing quote adds one. -/
theorem length_collect (h : collect quote buf lastCh iter = some (buf', rest)) :
    buf'.length + rest.length + 1 = buf.length + iter.length := by
  induction iter generalizing buf lastCh with
  | nil => cases h
  | cons ch iter ih =>
    rw [collect] at h
    split_ifs at h
    · grind
    · cases h
      rfl
    · grind

theorem collect_plain (h : ∀ ch ∈ iter, ch ≠ backslash ∧ ch ≠ quote) (hlast : lastCh ≠ backslash) :
    collect quote buf lastCh (iter ++ quote :: rest) = some (buf ++ iter, rest) := by
  induction iter generalizing buf lastCh with
  | nil => simp [collect, hlast]
  | cons ch iter ih =>
    rw [forall_mem_cons] at h
    rw [cons_append, collect, if_pos hlast, if_pos h.1.2, ih h.2 h.1.1, append_assoc]
    rfl

/-- Escapes are longer than what they stand for. -/
theorem length_flatMap_text (bytes : List LiteralByte) :
    bytes.length ≤ (bytes.flatMap text).length ∧
      ((bytes.flatMap text).length = bytes.length → ∀ ch, escaped ch ∉ bytes) := by
  induction bytes with
  | nil => exact ⟨le_rfl, fun _ _ => not_mem_nil⟩
  | cons byte bytes ih =>
    rw [flatMap_cons, length_append, length_cons]
    cases byte <;> rw [text] <;> grind

/-- A literal of a text is read as the text exactly when nothing is escaped. -/
theorem parseString_iff (literal : Literal quote) (h : literal.bytes.map value = asBytes s)
    (rest : List UInt8) :
    parseString quote (literal.bytes.flatMap text ++ quote :: rest) = .ok (s, rest) ↔
      ∀ ch, escaped ch ∉ literal.bytes := by
  rw [parseString_eq_ok_iff]
  refine ⟨fun hread => (length_flatMap_text _).2 ?_, fun hplain => ?_⟩
  · have hlength := length_collect hread
    rw [← h] at hlength
    grind
  · have htext : literal.bytes.flatMap text = asBytes s := by
      rw [← h, ← flatMap_singleton' (map _ _), flatMap_map]
      refine flatMap_congr fun byte hbyte => ?_
      cases byte with
      | plain ch => rfl
      | escaped ch => exact absurd hbyte (hplain ch)
    rw [htext]
    refine collect_plain (fun ch hch => ?_) (by decide)
    rw [← h] at hch
    obtain ⟨byte, hbyte, rfl⟩ := mem_map.mp hch
    cases byte with
    | plain ch => exact literal.proper ch hbyte
    | escaped ch => exact absurd hbyte (hplain ch)

/-- The literal `"a"`. -/
theorem parseString_letter : parseString 34 (asBytes "a\" + 1") = .ok ("a", asBytes " + 1") :=
  (parseString_iff ⟨[plain 97], by simp [backslash]⟩ (by decide +kernel) (asBytes " + 1")).mpr
    (by simp)

/-- A line feed is read with its backslash. -/
theorem parseString_newline :
    [plain 97, escaped 110, plain 98].map value = asBytes "a\nb" ∧
      parseString 34 ([plain 97, escaped 110, plain 98].flatMap text ++ [34]) =
        .ok ("a\\\nb", []) := by
  decide +kernel

end Inworkspace.Expr
