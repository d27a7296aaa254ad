import Mathlib.Logic.Basic

/-!
# Bytes as characters

The functions of the standard library on bytes that are read as ASCII characters
or as UTF-8.
-/

namespace Inworkspace.Lib.Ascii

variable (byte : UInt8)

/-- Space, tab, line feed, form feed or carriage return. -/
def isAsciiWhitespace : Bool :=
  byte == 32 || byte == 9 || byte == 10 || byte == 12 || byte == 13

def isAsciiDigit : Bool := 48 ≤ byte && byte ≤ 57

def isAsciiLowercase : Bool := 97 ≤ byte && byte ≤ 122

def isAsciiUppercase : Bool := 65 ≤ byte && byte ≤ 90

def isAsciiAlphanumeric : Bool :=
  isAsciiDigit byte || isAsciiLowercase byte || isAsciiUppercase byte

def toAsciiUppercase : UInt8 := if isAsciiLowercase byte then byte - 32 else byte

/-- Equal up to the case of ASCII letters. -/
def eqIgnoreAsciiCase (a b : List UInt8) : Bool :=
  a.map toAsciiUppercase == b.map toAsciiUppercase

/-- The text whose UTF-8 encoding the bytes are. -/
def fromUtf8 (bytes : List UInt8) : Option String := String.fromUTF8? ⟨bytes.toArray⟩

/-- The text whose UTF-8 encoding the bytes are, or a replacement character. -/
def fromUtf8Lossy (bytes : List UInt8) : String := (fromUtf8 bytes).getD "\uFFFD"

end Inworkspace.Lib.Ascii
