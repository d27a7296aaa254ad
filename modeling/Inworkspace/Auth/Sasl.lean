import Inworkspace.Auth.Credential
import Inworkspace.Lib.Ascii

/-!
# SASL responses

The mechanisms of the IMAP and POP3 servers, and `directory::core::sasl`: the
credentials in the response of a client.
-/

namespace Inworkspace

open Lib.Ascii

/-- `Mechanism`, for IMAP and for POP3. -/
inductive Mechanism where
  | plain
  | cramMd5
  | digestMd5
  | scramSha1
  | scramSha256
  | apop
  | ntlm
  | gssapi
  | anonymous
  | external
  | oAuthBearer
  | xOauth2
  deriving DecidableEq

namespace Mechanism

/-- `Mechanism::as_str`, and `into_bytes`. -/
def asStr : Mechanism → String
  | plain => "PLAIN"
  | cramMd5 => "CRAM-MD5"
  | digestMd5 => "DIGEST-MD5"
  | scramSha1 => "SCRAM-SHA-1"
  | scramSha256 => "SCRAM-SHA-256"
  | apop => "APOP"
  | ntlm => "NTLM"
  | gssapi => "GSSAPI"
  | anonymous => "ANONYMOUS"
  | external => "EXTERNAL"
  | oAuthBearer => "OAUTHBEARER"
  | xOauth2 => "XOAUTH2"

/-- The mechanisms, in the order in which a name is compared with theirs. -/
def all : List Mechanism :=
  [plain, cramMd5, digestMd5, scramSha1, scramSha256, apop, ntlm, gssapi, anonymous, external,
    oAuthBearer, xOauth2]

def parse (value : List UInt8) : Except String Mechanism :=
  match all.find? fun mechanism => eqIgnoreAsciiCase value (asBytes mechanism.asStr) with
  | some mechanism => .ok mechanism
  | none => .error ("Unsupported mechanism '" ++ fromUtf8Lossy value ++ "'.")

end Mechanism

/-- A response of `PLAIN` as it is read: the user name and the secret so far, and the number of
    separators. -/
structure PlainChallenge where
  username : List UInt8 := []
  secret : List UInt8 := []
  argNum : ℕ := 0

/-- The next byte of the response. -/
def PlainChallenge.push (self : PlainChallenge) (ch : UInt8) : PlainChallenge :=
  if ch ≠ 0 then
    if self.argNum = 1 then { self with username := self.username ++ [ch] }
    else if self.argNum = 2 then { self with secret := self.secret ++ [ch] }
    else self
  else { self with argNum := self.argNum + 1 }

def Credentials.decodeSaslChallengePlain (challenge : List UInt8) : Option Credentials :=
  let read := challenge.foldl PlainChallenge.push {}
  match fromUtf8 read.username, fromUtf8 read.secret with
  | some username, some secret =>
    if username ≠ "" ∧ secret ≠ "" then some (.basic username secret none) else none
  | _, _ => none

end Inworkspace
