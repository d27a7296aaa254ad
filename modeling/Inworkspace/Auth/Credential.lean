import Inworkspace.Auth.Directory

/-!
# The texts of secondary credentials

`common::auth::credential`: an app password is `app` and a character, followed by
the id and the secret of the credential in a base 32 encoding of its own; an API
key is `API_` followed by the ids of the account and the credential and the
secret in URL-safe base 64.
-/

namespace Inworkspace

/-- The bytes of a text, `as_bytes`. -/
def asBytes (text : String) : List UInt8 := text.toUTF8.data.toList

/-- `u32::from_be_bytes`. -/
def fromBeBytes (bytes : List UInt8) : ℕ := bytes.foldl (fun n byte => n * 256 + byte.toNat) 0

/-! ## Base 32 -/

/-- `BASE32_INVERSE`: small letters, large letters from `K` on, and the digits `7`, `9`, `2`, `0`,
    `1`, `3`. -/
def base32Inverse (byte : UInt8) : Option UInt8 :=
  if 97 ≤ byte ∧ byte ≤ 122 then some (byte - 97)
  else if 75 ≤ byte ∧ byte ≤ 90 then some (byte - 65)
  else ([(55, 26), (57, 27), (50, 28), (48, 29), (49, 30), (51, 31)] : List (UInt8 × UInt8)).lookup
    byte

structure Base32Reader where
  bytes : List UInt8
  lastByte : UInt8
  pos : ℕ
  deriving DecidableEq

namespace Base32Reader

def new (bytes : List UInt8) : Base32Reader := ⟨bytes, 0, 0⟩

def mapByte (self : Base32Reader) : Option UInt8 × Base32Reader :=
  match self.bytes with
  | [] => (none, self)
  | byte :: bytes =>
    match base32Inverse byte with
    | some byte => (some byte, { self with bytes, lastByte := byte })
    | none => (none, { self with bytes })

def next (self : Base32Reader) : Option (UInt8 × Base32Reader) :=
  match self.mapByte with
  | (none, _) => none
  | (some byte, reader) =>
    let lastByte := self.lastByte
    let reader := { reader with pos := reader.pos + 1 }
    match self.pos % 5 with
    | 0 =>
      let (low, reader) := reader.mapByte
      some (byte <<< 3 ||| low.getD 0 >>> 2, reader)
    | 1 =>
      let (low, reader) := reader.mapByte
      some (lastByte <<< 6 ||| byte <<< 1 ||| low.getD 0 >>> 4, reader)
    | 2 => some (lastByte <<< 4 ||| byte >>> 1, reader)
    | 3 =>
      let (low, reader) := reader.mapByte
      some (lastByte <<< 7 ||| byte <<< 2 ||| low.getD 0 >>> 3, reader)
    | _ => some (lastByte <<< 5 ||| byte, reader)

/-- The next `n` bytes. -/
def take : ℕ → Base32Reader → Option (List UInt8 × Base32Reader)
  | 0, reader => some ([], reader)
  | n + 1, reader => do
    let (byte, reader) ← reader.next
    let (bytes, reader) ← take n reader
    some (byte :: bytes, reader)

end Base32Reader

/-! ## Credentials -/

structure AppPassword where
  credentialId : ℕ
  secret : List UInt8
  deriving DecidableEq

def AppPassword.parse (token : String) : Option AppPassword := do
  let token ← (asBytes token).dropPrefix? (asBytes "app")
  -- one byte is skipped, whichever it is
  let bytes ← if token.isEmpty then none else some token.tail
  let (credentialId, reader) ← (Base32Reader.new bytes).take 4
  let (secret, reader) ← reader.take 18
  if reader.next.isNone then some ⟨fromBeBytes credentialId, secret⟩ else none

structure ApiKey where
  accountId : ℕ
  credentialId : ℕ
  secret : List UInt8
  deriving DecidableEq

def ApiKey.parse (decodeUrlSafe : String → Option (List UInt8)) (token : String) :
    Option ApiKey := do
  let token ← token.toList.dropPrefix? "API_".toList
  let decoded ← decodeUrlSafe (String.ofList token)
  if decoded.length = 28 then
    some ⟨fromBeBytes (decoded.take 4), fromBeBytes ((decoded.drop 4).take 4), decoded.drop 8⟩
  else none

example : (AppPassword.parse ("app_aaaaaai" ++ String.ofList (List.replicate 29 'b'))).map
    AppPassword.credentialId = some 1 := by decide +kernel

end Inworkspace
