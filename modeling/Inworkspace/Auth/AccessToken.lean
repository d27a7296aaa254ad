import Inworkspace.Auth.Permissions

/-!
# Access tokens

`common::auth::access_token`: the token of an account, built from the account, its roles and its
tenant. It has a scope for the main password and one for each secondary credential (an app password
or an API key) that has not expired.

* `CredentialScopes.build_eq`: the scopes of a token;
* `buildAccessToken_ok`: what a token is built from;
* `holds_iff`: the permissions the token of an account holds.
-/

namespace Inworkspace

open Credential Permissions

/-! ## Tokens -/

/-- The largest `u64`, an expiry that is never reached. -/
def u64Max : ℕ := 2 ^ 64 - 1

/-- The largest `u32`, the credential id of the main scope. -/
def u32Max : ℕ := 2 ^ 32 - 1

/-- `as u64` on a timestamp, an `i64`. -/
def asU64 (timestamp : ℤ) : ℕ := (timestamp % 2 ^ 64).toNat

/-- The expiry of a credential. -/
def expiry (expiresAt : Option ℤ) : ℕ := (expiresAt.map asU64).getD u64Max

/-- What a token allows when used with one of the credentials, `AccessScope`. -/
structure AccessScope where
  permissions : Permissions
  credentialId : ℕ
  expiresAt : ℕ
  allowedIps : List IpAddrOrMask
  deriving DecidableEq

def AccessScope.new (permissions : Permissions) (credentialId : ℕ) : AccessScope where
  permissions
  credentialId
  expiresAt := u64Max
  allowedIps := []

structure AccessTokenInner where
  accountId : ℕ
  tenantId : Option ℕ
  memberOf : List ℕ
  scopes : List AccessScope
  revisionAccount : ℕ
  revision : ℕ
  credentialVersion : ℕ
  deriving DecidableEq

/-- A token used with one of its scopes, `AccessToken`. -/
structure AccessToken where
  scopeIdx : ℕ
  inner : AccessTokenInner
  deriving DecidableEq

/-- The account id of the recovery administrator. -/
def recoveryAdminId : ℕ := u32Max

def AccessTokenInner.newAdmin : AccessTokenInner where
  accountId := recoveryAdminId
  tenantId := none
  memberOf := []
  scopes := [AccessScope.new Bitset.all u32Max]
  revisionAccount := 0
  revision := 0
  credentialVersion := 0

namespace AccessToken

variable (self : AccessToken) (inner : AccessTokenInner)

def accountId : ℕ := self.inner.accountId

def tenantId : Option ℕ := self.inner.tenantId

def accessScope : Option AccessScope := self.inner.scopes[self.scopeIdx]?

def hasPermission (permission : Permission) : Bool :=
  self.accessScope.any (·.permissions.get permission.id)

def isMember (accountId : ℕ) : Bool :=
  self.inner.accountId == accountId || self.inner.memberOf.contains accountId ||
    self.hasPermission .impersonate

/-- `AccessToken::permissions_bits`: the permissions of the scope or, if there is none, of the main
    scope, which every token has. -/
def permissionsBits : Permissions :=
  ((self.accessScope <|> self.inner.scopes.head?).map AccessScope.permissions).getD Bitset.new

theorem hasPermission_iff {self : AccessToken} {p : Permission} :
    self.hasPermission p = true ↔ ∃ scope, self.accessScope = some scope ∧ p ∈ scope.permissions := by
  rw [hasPermission, Option.any_eq_true]
  rfl

/-! ### Checking a token -/

/-- What is left of the main scope when it has expired: what is needed to change the password. -/
def expiredPermissions : List Permission :=
  [.authenticate, .authenticateWithAlias, .sysAccountPasswordGet, .sysAccountPasswordUpdate,
    .emailReceive]

/-- The main scope of a token whose main password has expired. -/
def downgrade (scope : AccessScope) : AccessScope :=
  { scope with
    permissions := fromPermission
      (expiredPermissions.filter fun p => scope.permissions.get p.id)
    expiresAt := u64Max }

/-- `AccessToken::assert_is_valid`, at the time `now` and from the address `remoteIp`. -/
def assertIsValid (now : ℕ) (remoteIp : IpAddr) : Except TrcError AccessToken :=
  match self.accessScope with
  | none => .error ⟨.securityUnauthorized, "Credential not valid."⟩
  | some scope =>
    let isValidIp := scope.allowedIps.isEmpty || scope.allowedIps.any (·.matches remoteIp)
    if scope.expiresAt ≤ now ∧ self.scopeIdx > 0 then
      .error ⟨.authCredentialExpired, "Credential expired."⟩
    else
      let accessToken :=
        if scope.expiresAt ≤ now then
          { self with inner := { self.inner with scopes := self.inner.scopes.modifyHead downgrade } }
        else self
      if isValidIp then .ok accessToken
      else .error ⟨.securityIpUnauthorized, "IP address not allowed."⟩

/-- A valid token is used as it is, or it is one for the main password, which has expired. -/
theorem assertIsValid_ok {self token : AccessToken} {now : ℕ} {remoteIp : IpAddr}
    (h : self.assertIsValid now remoteIp = .ok token) :
    ∃ scope, self.accessScope = some scope ∧
      (scope.allowedIps = [] ∨ ∃ network ∈ scope.allowedIps, network.matches remoteIp = true) ∧
      (now < scope.expiresAt ∧ token = self ∨ scope.expiresAt ≤ now ∧ self.scopeIdx = 0 ∧ token =
        { self with
          inner := { self.inner with scopes := self.inner.scopes.modifyHead downgrade } }) := by
  rw [assertIsValid] at h
  split at h
  · cases h
  rename_i scope hscope
  dsimp only at h
  split at h
  · cases h
  split at h
  · rename_i hip
    obtain rfl := Except.ok.inj h
    refine ⟨scope, hscope, by simpa using hip, ?_⟩
    split
    · rename_i hexpired
      exact .inr ⟨hexpired, by omega, rfl⟩
    · rename_i hexpired
      exact .inl ⟨not_le.mp hexpired, rfl⟩
  · cases h

def new (now : ℕ) (remoteIp : IpAddr) : Except TrcError AccessToken :=
  AccessToken.assertIsValid ⟨0, inner⟩ now remoteIp

def newMaybeInvalid : AccessToken := ⟨0, inner⟩

def newScoped (credentialId now : ℕ) (remoteIp : IpAddr) : Except TrcError AccessToken :=
  match inner.scopes.findIdx? (·.credentialId == credentialId) with
  | none => .error ⟨.securityUnauthorized, "Credential expired or removed."⟩
  | some scopeIdx => AccessToken.assertIsValid ⟨scopeIdx, inner⟩ now remoteIp

/-- `AccessToken::assert_has_permission`; the error names the permission. -/
def assertHasPermission (permission : Permission) (name : String) : Except TrcError AccessToken :=
  if self.hasPermission permission then .ok self else .error ⟨.securityUnauthorized, name⟩

end AccessToken

open AccessScope

/-! ## Building a token -/

/-- The permissions of a secondary credential, given those of the account. -/
def CredentialPermissions.apply (account : Permissions) : CredentialPermissions → Permissions
  | .inherit => account
  | .disable list => account.clearMany (fromPermission list)
  | .replace list => (fromPermission list).intersection account

variable {p : Permission} (xxh3 : String → ℕ)

/-- A secondary credential never has more permissions than the account. -/
theorem CredentialPermissions.mem_of_mem_apply {account : Permissions}
    {permissions : CredentialPermissions} (h : p ∈ permissions.apply account) :
    p ∈ account := by
  cases permissions with
  | inherit => exact h
  | disable list => exact (mem_difference.mp h).1
  | replace list => exact (mem_intersection.mp h).2

def SecondaryCredential.scope (account : Permissions)
    (credential : SecondaryCredential) : AccessScope where
  permissions := credential.permissions.apply account
  credentialId := documentId credential.credentialId
  expiresAt := expiry credential.expiresAt
  allowedIps := credential.allowedIps

/-- What the loop of `build_access_token` computes: the version of the main password, the main scope
    and those of the secondary credentials. -/
structure CredentialScopes where
  credentialVersion : ℕ
  main : AccessScope
  secondary : List AccessScope
  deriving DecidableEq

/-- One round of the loop over the credentials; `xxh3` hashes the secret of the main password. -/
def CredentialScopes.add (now : ℕ) (self : CredentialScopes) : Credential → CredentialScopes
  | .password credential =>
    { self with
      credentialVersion := max (xxh3 credential.secret) 1
      main :=
        if credential.expiresAt.isSome || !credential.allowedIps.isEmpty then
          { self.main with
            expiresAt := expiry credential.expiresAt
            allowedIps := credential.allowedIps }
        else self.main }
  | .apiKey credential | .appPassword credential =>
    if expiry credential.expiresAt > now then
      { self with secondary := self.secondary ++ [credential.scope self.main.permissions] }
    else self

/-- The scopes of an account with the given permissions and credentials. -/
def CredentialScopes.build (now : ℕ) (permissions : Permissions)
    (credentials : List Credential) : CredentialScopes :=
  credentials.foldl (add xxh3 now) ⟨0, new permissions u32Max, []⟩

def Credential.credentialId : Credential → ℕ
  | .password credential => credential.credentialId
  | .appPassword credential | .apiKey credential => credential.credentialId

def Credential.asSecondaryCredential : Credential → Option SecondaryCredential
  | .password _ => none
  | .appPassword credential | .apiKey credential => some credential

/-- The main password, if the credential is one. -/
def Credential.asPassword : Credential → Option PasswordCredential
  | .password credential => some credential
  | .appPassword _ | .apiKey _ => none

/-- What one main password contributes to a token. -/
def CredentialScopes.addPassword (self : ℕ × AccessScope)
    (credential : PasswordCredential) : ℕ × AccessScope :=
  (max (xxh3 credential.secret) 1,
    if credential.expiresAt.isSome || !credential.allowedIps.isEmpty then
      { self.2 with
        expiresAt := expiry credential.expiresAt
        allowedIps := credential.allowedIps }
    else self.2)

variable (now : ℕ) (permissions : Permissions) (s : Server)

/-- The permissions of the main scope stay. -/
theorem CredentialScopes.main_permissions_add (st : CredentialScopes) (c : Credential) :
    (st.add xxh3 now c).main.permissions = st.main.permissions := by
  cases c <;> simp only [add] <;> split <;> rfl

/-- The scopes of an account, from its passwords and its secondary credentials, however these are
    interleaved. -/
theorem CredentialScopes.build_eq (credentials : List Credential) :
    let passwords := (credentials.filterMap (·.asPassword)).foldl (addPassword xxh3)
      (0, new permissions u32Max)
    build xxh3 now permissions credentials =
      { credentialVersion := passwords.1
        main := passwords.2
        secondary := ((credentials.filterMap (·.asSecondaryCredential)).filter
          fun c => expiry c.expiresAt > now).map (·.scope permissions) } := by
  suffices h : ∀ st : CredentialScopes, st.main.permissions = permissions →
      credentials.foldl (add xxh3 now) st =
        { credentialVersion := ((credentials.filterMap (·.asPassword)).foldl (addPassword xxh3)
            (st.credentialVersion, st.main)).1
          main := ((credentials.filterMap (·.asPassword)).foldl (addPassword xxh3)
            (st.credentialVersion, st.main)).2
          secondary := st.secondary ++ ((credentials.filterMap (·.asSecondaryCredential)).filter
            fun c => expiry c.expiresAt > now).map (·.scope permissions) } by
    simpa [build] using h ⟨0, new permissions u32Max, []⟩ rfl
  -- passwords and the others change different fields, so each can be folded alone
  induction credentials with
  | nil => simp
  | cons c credentials ih =>
    intro st hst
    rw [List.foldl_cons, ih _ ((main_permissions_add xxh3 now st c).trans hst)]
    cases c with
    | password c =>
      simp [add, asPassword, asSecondaryCredential, addPassword]
    | appPassword c | apiKey c =>
      by_cases hc : expiry c.expiresAt > now <;>
        simp [add, asPassword, asSecondaryCredential, hc, hst]

/-- The main scope of an account has its permissions. -/
theorem CredentialScopes.main_permissions_build (credentials : List Credential) :
    (build xxh3 now permissions credentials).main.permissions = permissions := by
  suffices h : ∀ st : CredentialScopes,
      (credentials.foldl (add xxh3 now) st).main.permissions = st.main.permissions from
    h ⟨0, new permissions u32Max, []⟩
  induction credentials with
  | nil => exact fun _ => rfl
  | cons c credentials ih =>
    intro st
    rw [List.foldl_cons, ih, main_permissions_add]

/-- No scope of an account has more permissions than the account. -/
theorem CredentialScopes.mem_of_mem_scope {xxh3 : String → ℕ} {now : ℕ}
    {permissions : Permissions} {credentials : List Credential} {scope : AccessScope}
    (h : scope ∈ (build xxh3 now permissions credentials).main ::
      (build xxh3 now permissions credentials).secondary) (hp : p ∈ scope.permissions) :
    p ∈ permissions := by
  rcases List.mem_cons.mp h with rfl | h
  · rwa [main_permissions_build] at hp
  · rw [build_eq] at h
    obtain ⟨c, -, rfl⟩ := List.mem_map.mp h
    exact c.permissions.mem_of_mem_apply hp

namespace Server

/-- The roles of a user: its own, or the default ones of users, of administrators or of a tenant's
    administrators. -/
def userRoleIds (tenantId : Option ℕ) : UserRoles → List ℕ
  | .user => s.security.defaultRoleIdsUser
  | .admin =>
    if tenantId.isNone then s.security.defaultRoleIdsAdmin else s.security.defaultRoleIdsTenant
  | .custom roleIds => roleIds

/-- The permissions `build_access_token` computes for an account. -/
def accountPermissions : Account → Except TrcError PermissionsGroup
  | .user account =>
    let tenantId := account.memberTenantId.map documentId
    s.effectivePermissions account.permissions (s.userRoleIds tenantId account.roles) tenantId
  | .group account =>
    s.effectivePermissions account.permissions
      (account.roles.roleIds.getD s.security.defaultRoleIdsGroup)
      (account.memberTenantId.map documentId)

def buildAccessToken (xxh3 : String → ℕ) (now : ℕ) (account : Account)
    (accountId revision revisionAccount : ℕ) : Except TrcError AccessTokenInner := do
  let permissions ← s.accountPermissions account
  match account with
  | .user account =>
    let scopes := CredentialScopes.build xxh3 now permissions.finalize account.credentials
    .ok
      { accountId
        tenantId := account.memberTenantId.map documentId
        memberOf := account.memberGroupIds.map documentId
        scopes := scopes.main :: scopes.secondary
        revisionAccount
        revision
        credentialVersion := scopes.credentialVersion }
  | .group account =>
    .ok
      { accountId
        tenantId := account.memberTenantId.map documentId
        memberOf := []
        scopes := [new permissions.finalize u32Max]
        revisionAccount
        revision
        credentialVersion := 0 }

end Server

/-- The credentials of an account; a group has none. -/
def Account.credentials : Account → List Credential
  | .user account => account.credentials
  | .group _ => []

def Account.memberTenantId : Account → Option ℕ
  | .user account => account.memberTenantId
  | .group account => account.memberTenantId

variable {account : Account} {s}

/-- A token is built when the permissions can be computed, with the scopes of the credentials; a
    group has the main scope only. -/
theorem Server.buildAccessToken_ok {xxh3 : String → ℕ} {now : ℕ}
    {accountId revision revisionAccount : ℕ} {token : AccessTokenInner}
    (h : s.buildAccessToken xxh3 now account accountId revision revisionAccount = .ok token) :
    ∃ g, s.accountPermissions account = .ok g ∧
      let scopes := CredentialScopes.build xxh3 now g.finalize account.credentials
      token.scopes = scopes.main :: scopes.secondary ∧
        token.credentialVersion = scopes.credentialVersion ∧ token.accountId = accountId ∧
        token.tenantId = account.memberTenantId.map documentId ∧
        token.revisionAccount = revisionAccount := by
  obtain ⟨g, hg, h⟩ := Lib.Loop.bind_eq_ok_iff.mp h
  refine ⟨g, hg, ?_⟩
  cases account with
  | user account =>
    obtain rfl := Except.ok.inj h
    exact ⟨rfl, rfl, rfl, rfl, rfl⟩
  | group account =>
    obtain rfl := Except.ok.inj h
    exact ⟨rfl, rfl, rfl, rfl, rfl⟩

/-- A token with those scopes can be built when the permissions can be computed. -/
theorem Server.exists_buildAccessToken {g : PermissionsGroup}
    (h : s.accountPermissions account = .ok g) (xxh3 : String → ℕ)
    (now accountId revision revisionAccount : ℕ) :
    let scopes := CredentialScopes.build xxh3 now g.finalize account.credentials
    ∃ token, s.buildAccessToken xxh3 now account accountId revision revisionAccount = .ok token ∧
      token.scopes = scopes.main :: scopes.secondary ∧
        token.credentialVersion = scopes.credentialVersion := by
  cases account with
  | user account => exact ⟨_, by rw [buildAccessToken, h]; rfl, rfl, rfl⟩
  | group account => exact ⟨_, by rw [buildAccessToken, h]; rfl, rfl, rfl⟩

/-- The account has a token that holds the permission, in some scope. -/
def Server.Holds (s : Server) (account : Account) (p : Permission) : Prop :=
  ∃ xxh3 now accountId revision revisionAccount token,
    s.buildAccessToken xxh3 now account accountId revision revisionAccount = .ok token ∧
      ∃ scope ∈ token.scopes, p ∈ scope.permissions

/-- The token of an account holds the permissions of the account. -/
theorem Server.holds_iff :
    s.Holds account p ↔ ∃ g, s.accountPermissions account = .ok g ∧ p ∈ g.finalize := by
  constructor
  · rintro ⟨xxh3, now, accountId, revision, revisionAccount, token, htoken, scope, hscope, hp⟩
    obtain ⟨g, hg, hscopes, -⟩ := buildAccessToken_ok htoken
    rw [hscopes] at hscope
    exact ⟨g, hg, CredentialScopes.mem_of_mem_scope hscope hp⟩
  · rintro ⟨g, hg, hp⟩
    obtain ⟨token, htoken, hscopes, -⟩ := exists_buildAccessToken hg (fun _ => 0) 0 0 0 0
    refine ⟨_, _, _, _, _, token, htoken, _, hscopes ▸ List.mem_cons_self, ?_⟩
    rwa [CredentialScopes.main_permissions_build]

end Inworkspace
