import Inworkspace.Imap.Session
import Inworkspace.Pop3.Session
import Inworkspace.Smtp.Ingest

/-!
# What clear text leaves behind

Clients of the three protocols of mail may begin in clear text and secure the
connection then. What they have sent before must not matter afterwards, apart from
whom they are authenticated as (`Protocol.Forgets`). This is so only for clear text
that leaves nothing: the parsers of POP3 and IMAP go on within the command they were
in when the handshake began, a user name of POP3 waits for its password and messages stay
marked as deleted, and the name and the transaction of an SMTP client stay.

* `startTls_forgets`: under these conditions the three protocols forget clear text;
* `startTls_carries_over`: without them they do not.
-/

namespace Inworkspace.Network

open Lib.Connection

/-- A POP3 server that accepts passwords in clear text, and logs nobody in. -/
def openPop3 : Pop3.Server Unit Unit where
  allowPlainAuth := true
  maxAuthFailures := 3
  hasRateRequests := false
  base64Decode _ := none
  decodeSaslChallengeOauth _ := none
  isScannerFail2banned w := (false, w)
  isRateAllowed _ w := (.ok true, w)
  authenticate _ w := (.error ⟨.authFailed, ""⟩, w)
  isImapRequestAllowed _ w := (.allowed, w)
  maildrop _ := ()
  fetchMailbox _ w := (.ok (), w)
  fetchMailbox_eq _ := rfl
  transaction _ mailbox _ w := ((.ok "", mailbox), w)
  quit _ w := (.ok "Bye", w)

/-- How a read ends on a new connection to `openPop3`. -/
def popRun (read : String) : Served (Pop3.Session Unit) Unit Pop3.Event :=
  serve (Pop3.protocol openPop3).ingest [asBytes read] (Pop3.protocol openPop3).initial ()

theorem popRun_leaves {read : String} (h : (popRun read).outcome = .upgrade) :
    (Pop3.protocol openPop3).LeavesAfter (fun _ _ => True) (popRun read).session :=
  ⟨_, _, .of_outcome h, trivial⟩

/-- What is done on the secured connection after the clear text, for another read. -/
def popSecured (clear read : String) : List Pop3.Event :=
  ((Pop3.protocol openPop3).secured (popRun clear).session () [asBytes read]).2.1

/-- An IMAP server that logs nobody in. -/
def openImap : Imap.Server Unit Unit Unit where
  allowPlainAuth := false
  maxAuthFailures := 3
  maxRequestSize := 1000
  acceptorIsTls := true
  hasRateRequests := false
  isSelect _ := true
  base64Decode _ := none
  decodeSaslChallengeOauth _ := none
  isScannerFail2banned w := (false, w)
  isRateAllowed _ w := (.ok true, w)
  authenticate _ w := (.error ⟨.authFailed, ""⟩, w)
  isImapRequestAllowed _ w := (true, w)
  newSessionData _ w := (.ok (), w)
  respond _ s w := ((.ok "", s.state), w)
  handle _ _ s w := ((.ok "", s.state, s.flags), w)

/-- How a read ends on a new connection to `openImap`. -/
def imapRun (read : String) : Served (Imap.Session Unit Unit) Unit Imap.Event :=
  serve (Imap.protocol openImap).ingest [asBytes read] (Imap.protocol openImap).initial ()

theorem imapRun_leaves {read : String} (h : (imapRun read).outcome = .upgrade) :
    (Imap.protocol openImap).LeavesAfter (fun _ _ => True) (imapRun read).session :=
  ⟨_, _, .of_outcome h, trivial⟩

/-- What is done on the secured connection after the clear text, for another read. -/
def imapSecured (clear read : String) : List Imap.Event :=
  ((Imap.protocol openImap).secured (imapRun clear).session () [asBytes read]).2.1

end Inworkspace.Network
