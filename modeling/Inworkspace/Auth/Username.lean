import Mathlib.Data.List.Basic

/-!
# User names

`UsernameParts`: a user name is the address of an account, or, to log in to the
account as a master user, the address of the account and that of the master
user with a `%` between them. An address without a domain is completed with the
default domain.
-/

namespace Inworkspace

/-- An address, with the position after its last `@`, if there is one. -/
structure Username where
  name : List Char
  domainStart : Option ℕ
  deriving DecidableEq

structure UsernameParts where
  account : Username
  masterUser : Option Username
  deriving DecidableEq

variable (toLowercase : Char → List Char)

namespace Username

/-- An empty address. -/
def empty : Username := ⟨[], none⟩

variable (self : Username)

/-- The address with one more character. -/
def push (ch : Char) : Username :=
  if ch ≠ '@' then { self with name := self.name ++ toLowercase ch }
  else ⟨self.name ++ [ch], some (self.name.length + 1)⟩

def address : String := String.ofList self.name

/-- `Username::local`. -/
def localPart : String :=
  match self.domainStart with
  | some start => String.ofList (self.name.take (start - 1))
  | none => ""

def domain : Option String :=
  self.domainStart.map fun start => String.ofList (self.name.drop start)

def addMissingDomain (defaultDomainName : String) (self : Username) : Username :=
  if self.domain.isNone then
    { name := self.name ++ '@' :: defaultDomainName.toList
      domainStart := some (self.name.length + 1) }
  else self

end Username

namespace UsernameParts

variable (self : UsernameParts)

/-- One round of the loop of `UsernameParts::new`: a `%` starts the master user anew. -/
def push (ch : Char) : UsernameParts :=
  if ch = '%' then { self with masterUser := some .empty }
  else
    match self.masterUser with
    | some masterUser => { self with masterUser := some (masterUser.push toLowercase ch) }
    | none => { self with account := self.account.push toLowercase ch }

/-- `UsernameParts::new`. A master user that is the account itself is none. -/
def new (address : String) : UsernameParts :=
  let parts := address.toList.foldl (push toLowercase) ⟨.empty, none⟩
  { parts with masterUser := parts.masterUser.filter (· ≠ parts.account) }

def authAs : Username := self.masterUser.getD self.account

def isMaster : Bool := self.masterUser.isSome

/-- Both addresses completed with the default domain. -/
def addMissingDomain (defaultDomainName : String) (self : UsernameParts) : UsernameParts where
  account := self.account.addMissingDomain defaultDomainName
  masterUser := self.masterUser.map (·.addMissingDomain defaultDomainName)

example : (new (fun c => [c.toLower]) "Alice@a.org%Admin").account.address = "alice@a.org" ∧
    (new (fun c => [c.toLower]) "Alice@a.org%Admin").authAs.address = "admin" := by decide

end UsernameParts

end Inworkspace
