import Inworkspace.Auth.TokenCache
import Inworkspace.Auth.Username
import Inworkspace.Lib.Stateful
import Mathlib.Data.List.MinMax

/-!
# Accounts, domains and directories

The state that authentication works on: the accounts of the registry, and the
cache of their tokens. The accounts of a domain can be kept in an external
directory. A computation of the server (`AuthM`) can change the state and can
fail; one that fails keeps the changes it has made.
-/

namespace Inworkspace

open Lib.KeyedList

/-! ## Directories -/

inductive Credentials where
  | basic (username secret : String) (mfaToken : Option String)
  | bearer (username : Option String) (token : String)
  deriving DecidableEq

/-- `directory::Account`, an account as an external directory describes it. -/
structure DirectoryAccount where
  email : String
  emailAliases : List String
  secret : Option String
  groups : Option (List String)
  deriving DecidableEq

/-- `Recipient`; a group is not an account, nor is an address that is not valid. -/
inductive Recipient where
  | account (account : DirectoryAccount)
  | group
  | invalid
  deriving DecidableEq

/-- An external directory, `Directory`. -/
structure Directory where
  hasBearerTokenSupport : Bool
  authenticate : Credentials → Except TrcError DirectoryAccount
  recipient : String → Except TrcError Recipient

/-- `DomainCache`: an enabled domain. The id is a `u32`. -/
structure DomainCache where
  id : ℕ
  id_lt : id < 2 ^ 32
  names : List String
  idDirectory : Option ℕ
  idTenant : Option ℕ
  deriving DecidableEq

inductive GrantType where
  | accessToken
  | refreshToken
  | liveTracing
  | liveMetrics
  | liveDelivery
  | rsvp
  deriving DecidableEq

/-- The content of a token that was issued by the server, `RawToken`. -/
structure RawToken where
  grantType : GrantType
  accountId : ℕ
  claims : Option String
  issuedAt : ℕ
  expiry : ℕ
  credentialVersion : ℕ
  deriving DecidableEq

/-- What authentication depends on beside the accounts: the configuration, the directories, and the
    primitives of other libraries. -/
structure AuthEnv where
  xxh3 : String → ℕ
  ahash : HashedAccount → ℕ
  verifySecretHash : String → List UInt8 → Except TrcError Bool
  /-- A one-time password is checked against the URL it is configured with. -/
  checkTotp : String → String → Except TrcError Bool
  openToken : String → Option RawToken
  decodeUrlSafe : String → Option (List UInt8)
  extractJwtDomain : String → Option String
  toAsciiDomain : String → Option String
  toLowercase : Char → List Char
  revision : ℕ
  domains : List DomainCache
  defaultDomainId : ℕ
  defaultDomainName : String
  directories : ℕ → Option Directory
  defaultDirectory : Option Directory
  recoveryAdmin : Option (String × String)
  /-- The addresses of mailing lists. -/
  listAddresses : List (String × ℕ)
  canCreateAccount : Bool
  /-- The registry refuses to write an account (a key is in use, a reference is missing). -/
  refusesWrite : Account → Bool
  /-- Too many failed logins from the address or with the user name. -/
  isAuthFail2banned : IpAddr → Option String → Bool

namespace AuthEnv

variable (env : AuthEnv)

/-- `Server::domain`. -/
def domain (name : String) : Option DomainCache :=
  (env.toAsciiDomain name).bind fun name => env.domains.find? (·.names.contains name)

/-- `Server::domain_by_id`. -/
def domainById (id : ℕ) : Option DomainCache := env.domains.find? (·.id == id)

/-- `Server::get_directory_for_cached_domain`. -/
def getDirectoryForCachedDomain (isEnterpriseEdition : Bool) (domain : DomainCache) :
    Option Directory :=
  if isEnterpriseEdition then domain.idDirectory.bind env.directories <|> env.defaultDirectory
  else env.defaultDirectory

/-- `Server::get_directory_for_domain`. -/
def getDirectoryForDomain (isEnterpriseEdition : Bool) (name : String) : Option Directory :=
  if isEnterpriseEdition then
    ((env.domain name).bind (·.idDirectory)).bind env.directories <|> env.defaultDirectory
  else env.defaultDirectory

end AuthEnv

/-! ## Addresses -/

/-- The local part and the domain id of the primary name of an account. -/
def Account.primaryAddress : Account → String × ℕ
  | .user account => (account.name, documentId account.domainId)
  | .group account => (account.name, documentId account.domainId)

def Account.aliases : Account → List EmailAlias
  | .user account => account.aliases
  | .group account => account.aliases

def EmailAlias.address (self : EmailAlias) : String × ℕ :=
  (self.name, documentId self.domainId)

/-- The addresses of an account: its primary name and its enabled aliases. -/
def Account.addresses (account : Account) : List (String × ℕ) :=
  account.primaryAddress :: (account.aliases.filter (·.enabled)).map (·.address)

/-- The text split at its last `@`. -/
def rsplitOnce (text : String) : Option (String × String) :=
  let parts := text.toList.splitOn '@'
  if parts.length < 2 then none
  else some (String.ofList (['@'].intercalate parts.dropLast), String.ofList (parts.getLastD []))

/-- The text split at its first `@`. -/
def splitOnce (text : String) : Option (String × String) :=
  match text.toList.span (· ≠ '@') with
  | (_, []) => none
  | (before, _ :: after) => some (String.ofList before, String.ofList after)

/-! ## The state -/

/-- The roles and tenants, the accounts, the cached and the issued tokens, and the time. -/
structure AuthState (env : AuthEnv) where
  server : Server
  accounts : List (ℕ × Account)
  cache : TokenCache env.xxh3 env.ahash
  issued : List (String × RawToken)
  now : ℕ

variable {env : AuthEnv}

namespace AuthState

variable (st : AuthState env)

/-- `Server::account_id_from_parts`. -/
def accountIdFromParts (localPart : String) (domainId : ℕ) : Option ℕ :=
  (st.accounts.find? (·.2.addresses.contains (localPart, domainId))).map Prod.fst

/-- `Server::rcpt_id_from_parts` finds something, be it a disabled address. -/
def hasRcpt (localPart : String) (domainId : ℕ) : Bool :=
  st.accounts.any (fun e => e.2.primaryAddress == (localPart, domainId) ||
      e.2.aliases.any (·.address == (localPart, domainId))) ||
    env.listAddresses.contains (localPart, domainId)

/-- `Server::account_id_from_email`, without resolving sub-addresses. -/
def accountIdFromEmail (address : String) : Option ℕ :=
  (splitOnce address).bind fun (localPart, domain) =>
    (env.domain domain).bind fun domain => st.accountIdFromParts localPart domain.id

/-- `CacheInvalidationBuilder::process_update`, as far as access tokens are concerned. -/
def invalidatesToken : Account → Account → Bool
  | .user current, .user new =>
    current.memberTenantId != new.memberTenantId || current.memberGroupIds != new.memberGroupIds ||
      current.credentials != new.credentials || current.roles != new.roles ||
      current.permissions != new.permissions
  | .group current, .group new =>
    current.memberTenantId != new.memberTenantId || current.roles != new.roles ||
      current.permissions != new.permissions
  | _, _ => false

/-- An account is replaced, and what is cached of it invalidated. -/
def updateAccount (id : ℕ) (current new : Account) : AuthState env :=
  { st with
    accounts := upsert st.accounts id new
    cache := if invalidatesToken current new then Function.update st.cache id none else st.cache }

/-- An id that no account has. -/
def nextId : ℕ := (st.accounts.map Prod.fst).foldr max 0 + 1

theorem lookup_nextId : st.accounts.lookup st.nextId = none := by
  refine List.lookup_eq_none_iff.mpr fun a ha => ?_
  have hle : a.1 ≤ (st.accounts.map Prod.fst).foldr max 0 :=
    List.le_max_of_le' 0 (List.mem_map_of_mem ha) le_rfl
  have hne : st.nextId ≠ a.1 := by
    rw [nextId]
    omega
  simpa using hne

/-- A new account. -/
def insertAccount (account : Account) : AuthState env :=
  { st with accounts := upsert st.accounts st.nextId account }

/-- The call that builds a token for an account as it is. -/
def call (id : ℕ) (account : Account) : TokenCall :=
  ⟨st.server, st.now, id, account, env.revision⟩

end AuthState

/-! ## Tokens -/

/-- The computations of the server. -/
abbrev AuthM (env : AuthEnv) := EStateM TrcError (AuthState env)

/-- `Server::access_token_from_account`. -/
def accessTokenFromAccount (id : ℕ) (account : Account) : AuthM env AccessTokenInner := do
  let st ← get
  let (token, cache) ← ofExcept (st.cache.accessTokenFromAccount (st.call id account))
  set { st with cache }
  pure token

/-- `Server::access_token`. The recovery administrator has no account, but always the same token. -/
def accessToken (id : ℕ) : AuthM env AccessTokenInner := do
  let st ← get
  match st.cache id, st.accounts.lookup id with
  | some entry, _ => pure entry.token
  | none, some account =>
    let (token, cache) ← ofExcept (st.cache.insertNew (st.call id account))
    set { st with cache }
    pure token
  | none, none =>
    if id = recoveryAdminId then pure .newAdmin
    else throw ⟨.securityUnauthorized, "Account not found"⟩

end Inworkspace
