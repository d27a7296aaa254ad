import Inworkspace.Auth.AccessToken
import Inworkspace.Lib.Bits

/-!
# Validating accounts and roles

`jmap::registry::mapping::principal`: what is checked before an account or a
role that a client creates or changes is stored. Beside the credentials, it is
checked that the client does not hand out permissions it does not have
(`canGrantPermissions`): for an account, its effective permissions, if its own
permissions or roles are changed; for a role, the permissions the role enables
and does not disable itself.

`validateAccount_ok` says what is known of an accepted account, and
`mem_permissionsBits_of_canGrant` what the check is good for.
-/

namespace Inworkspace

open Lib.Loop

/-! ## Errors -/

/-- The properties that errors refer to. -/
inductive Property where
  | secret
  | credentials
  | type
  | memberTenantId
  deriving DecidableEq

inductive SetErrorType where
  | forbidden
  | invalidProperties
  | invalidPatch
  | invalidForeignKey
  | notFound
  | overQuota
  deriving DecidableEq

/-- `SetError`: why an object was not created or updated. -/
structure SetError where
  type : SetErrorType
  property : Option Property := none
  description : String := ""
  deriving DecidableEq

/-- An object is rejected, or the whole request fails. -/
inductive RegistryError where
  | set (error : SetError)
  | server (error : TrcError)
  deriving DecidableEq

/-! ## Granting permissions -/

/-- `build_permissions_list`: the permissions of a set, word by word, from the highest bit of a word
    on. -/
def Permissions.buildPermissionsList (self : Permissions) : List Permission :=
  (List.range 83).flatMap fun blockNum =>
    (Lib.Bits.bits (self.bits.extractLsb' (64 * blockNum) 64)).filterMap fun item =>
      if h : 64 * blockNum + item < Permission.count then some ⟨⟨64 * blockNum + item, h⟩⟩
      else none

/-- `AccessToken::can_grant_permissions`, with the permissions that are missing. -/
def AccessToken.canGrantPermissions (self : AccessToken) (requested : Permissions) :
    Except (List Permission) Unit :=
  let missing := requested.difference self.permissionsBits
  if missing.isEmpty then .ok () else .error (Permissions.buildPermissionsList missing)

/-- What a token can grant are permissions it has. -/
theorem AccessToken.mem_permissionsBits_of_canGrant {token : AccessToken} {requested : Permissions}
    (h : token.canGrantPermissions requested = .ok ()) {p : Permission} (hp : p ∈ requested) :
    p ∈ token.permissionsBits := by
  by_cases hempty : (requested.difference token.permissionsBits).isEmpty = true
  · have hget := Bitset.get_eq_false_of_isEmpty hempty (i := p.id)
    rw [Bitset.get_difference, Permissions.mem_def.mp hp] at hget
    exact Permissions.mem_def.mpr (by simpa using hget)
  · rw [canGrantPermissions, if_neg hempty] at h
    cases h

/-- `build_set_error`: at most five of the missing permissions are named. -/
def buildSetError (name : Permission → String) (permissions : List Permission) : SetError where
  type := .forbidden
  description :=
    let named := ", ".intercalate ((permissions.take 5).map name)
    let more := permissions.length - 5
    "You are not authorized to grant permissions: " ++
      (if more > 0 then named ++ " and " ++ toString more ++ " more" else named)

/-- The permissions setting and the roles of an account. -/
def Account.access : Account → Structs.Permissions × (UserRoles ⊕ Roles)
  | .user account => (account.permissions, .inl account.roles)
  | .group account => (account.permissions, .inr account.roles)

/-- The roles of an account; those of an administrator depend on the tenant. -/
def Server.roleIds (s : Server) (tenantId : Option ℕ) : UserRoles ⊕ Roles → List ℕ
  | .inl roles => s.userRoleIds tenantId roles
  | .inr roles => roles.roleIds.getD s.security.defaultRoleIdsGroup

/-- `Server::can_set_permissions`. The roles of an administrator are those for the tenant of the
    token, not of the account. -/
def Server.canSetPermissions (s : Server) (token : AccessToken) (account : Account) :
    Except TrcError (Except (List Permission) Unit) :=
  (s.effectivePermissions account.access.1 (s.roleIds token.tenantId account.access.2)
    (account.memberTenantId.map documentId)).map fun permissions =>
      token.canGrantPermissions permissions.finalize

/-- The permissions of the token of an account are computed alike, for the tenant of the account. -/
theorem Server.accountPermissions_eq (s : Server) (account : Account) :
    s.accountPermissions account =
      s.effectivePermissions account.access.1
        (s.roleIds (account.memberTenantId.map documentId) account.access.2)
        (account.memberTenantId.map documentId) := by
  cases account <;> rfl

/-! ## Credentials -/

/-- What the validation of an account or role depends on beside the server and the token. -/
structure ValidationContext where
  accessToken : AccessToken
  now : ℤ
  isPasswordHash : String → Bool
  hashSecret : String → String
  isSecurePassword : String → Except String Unit
  passwordDefaultExpiration : Option ℤ
  /-- The domain with the given id has an external directory. -/
  isExternalDirectory : ℕ → Bool
  canCreateAccount : Bool
  licensedAccounts : ℕ
  validateAccountQuota : Except SetError Unit
  validateGroupQuota : Except SetError Unit
  validateRoleQuota : Except SetError Unit
  permissionName : Permission → String

/-- `MASKED_PASSWORD`, which clients are shown in place of a secret. -/
def maskedPassword : String := "****"

/-- Whether an id is one that has been assigned, `Id::is_valid`. -/
def isValidId (id : ℕ) : Bool := id != u64Max

def Credential.setCredentialId (credentialId : ℕ) : Credential → Credential
  | .password credential => .password { credential with credentialId }
  | .appPassword credential => .appPassword { credential with credentialId }
  | .apiKey credential => .apiKey { credential with credentialId }

namespace ValidationContext

variable (ctx : ValidationContext) {account account' : Account}
  (isExternalDirectory hasPassword : Bool)

/-- A secret that is stored as it is, since it is a hash already. -/
def isHashed (secret : String) : Bool :=
  (secret.toList.head? == some '$' || secret.toList.head? == some (Char.ofNat 0x7b)) &&
    ctx.isPasswordHash secret

/-- The secret to store for a new password. -/
def secureSecret (secret : String) : Except SetError String :=
  if ctx.isHashed secret then .ok secret
  else
    match ctx.isSecurePassword secret with
    | .error err => .error ⟨.invalidProperties, some .secret, err⟩
    | .ok () => .ok (ctx.hashSecret secret)

def validateCredentialCreation : Credential → Except SetError Credential
  | .password credential => do
    if isExternalDirectory then
      .error ⟨.forbidden, none, "Cannot set credentials for accounts in an external directory."⟩
    else if hasPassword then
      .error ⟨.invalidProperties, some .credentials, "Only one password credential is allowed."⟩
    else
      let expiresAt := credential.expiresAt <|> ctx.passwordDefaultExpiration.map (ctx.now + ·)
      let secret ← ctx.secureSecret credential.secret
      .ok (.password { credential with expiresAt, secret })
  | .appPassword _ | .apiKey _ =>
    .error ⟨.invalidProperties, some .credentials, "Secondary credentials cannot be set directly."⟩

/-- A main password that is changed. -/
def updatePassword (credential old : PasswordCredential) : Except SetError PasswordCredential := do
  if isExternalDirectory then
    .error ⟨.forbidden, none, "Cannot change credentials for accounts in an external directory."⟩
  else
    -- the client may have sent the masked secrets back
    let secret := if credential.secret = maskedPassword then old.secret else credential.secret
    let otpAuth :=
      if credential.otpAuth = some maskedPassword then old.otpAuth else credential.otpAuth
    let credential := { credential with secret, otpAuth }
    if secret ≠ old.secret then
      let expiresAt :=
        if credential.expiresAt = old.expiresAt ∧ credential.expiresAt.any (· ≤ ctx.now) then
          ctx.passwordDefaultExpiration.map (ctx.now + ·) <|> credential.expiresAt
        else credential.expiresAt
      let secret ← ctx.secureSecret secret
      .ok { credential with expiresAt, secret }
    else .ok credential

/-- An app password or API key that is changed. -/
def updateSecondary (credential old : SecondaryCredential) : Except SetError SecondaryCredential :=
  let secret := if credential.secret = maskedPassword then old.secret else credential.secret
  if secret ≠ old.secret then
    .error ⟨.forbidden, none,
      "Cannot change app password or API credentials through this method."⟩
  else .ok { credential with secret }

/-- The round of `validate_account` for one credential of an updated account. -/
def validateCredentialUpdate (oldCredentials : List Credential) (credential : Credential) :
    Except SetError Credential :=
  match oldCredentials.find? (·.credentialId == credential.credentialId) with
  | none => ctx.validateCredentialCreation isExternalDirectory hasPassword credential
  | some old =>
    if credential ≠ old then
      match credential, old with
      | .password credential, .password old =>
        (ctx.updatePassword isExternalDirectory credential old).map .password
      | .appPassword credential, .appPassword old =>
        (updateSecondary credential old).map .appPassword
      | .apiKey credential, .apiKey old => (updateSecondary credential old).map .apiKey
      | _, _ =>
        .error ⟨.invalidProperties, some .credentials, "Credential type cannot be changed."⟩
    else .ok credential

/-- Ids for the credentials that have none, counting on from the largest. -/
def assignCredentialIds : ℕ → List Credential → List Credential
  | _, [] => []
  | maxId, credential :: credentials =>
    if isValidId credential.credentialId then
      credential :: assignCredentialIds maxId credentials
    else credential.setCredentialId (maxId + 1) :: assignCredentialIds (maxId + 1) credentials

/-- The credentials of an updated account. -/
def validateCredentials (credentials old : List Credential) :
    Except SetError (List Credential) := do
  let hasPassword := credentials.any fun
    | .password credential => isValidId credential.credentialId
    | _ => false
  let validated ← credentials.mapM (ctx.validateCredentialUpdate isExternalDirectory hasPassword old)
  let maxId := ((credentials.map (·.credentialId)).filter isValidId).foldl max 0
  let hasNewCredentials := credentials.any fun credential =>
    (old.find? (·.credentialId == credential.credentialId)).isNone
  .ok (if hasNewCredentials then assignCredentialIds maxId validated else validated)

/-- The credentials of a new account: at most one, a password. -/
def createCredentials (credentials : List Credential) : Except SetError (List Credential) :=
  credentials.zipIdx.mapM fun (credential, index) =>
    (ctx.validateCredentialCreation isExternalDirectory (decide (index > 0)) credential).map
      (·.setCredentialId index)

/-! ## Accounts and roles -/

/-- The check of the permissions, made if `validatePermissions`. -/
def checkPermissions (s : Server) (validatePermissions : Bool) (account : Account) :
    Except RegistryError Account :=
  if validatePermissions then
    match s.canSetPermissions ctx.accessToken account with
    | .error e => .error (.server e)
    | .ok (.error missing) => .error (.set (buildSetError ctx.permissionName missing))
    | .ok (.ok ()) => .ok account
  else .ok account

/-- A rejected object. -/
def rejectIf {α : Type} : Except SetError α → Except RegistryError α
  | .ok a => .ok a
  | .error e => .error (.set e)

/-- `validate_account`, with the account to be replaced, if any: the account to store. -/
def validateAccount (s : Server) (account : Account) (old : Option Account) :
    Except RegistryError Account := do
  if s.isEnterpriseEdition && old.isNone && !ctx.canCreateAccount then
    .error (.set ⟨.forbidden, none, "Enterprise licensed account limit reached: " ++
      toString ctx.licensedAccounts ++ " accounts licensed."⟩)
  else
    match account, old with
    | .user account, some (.user old) => do
      let isExternal := ctx.isExternalDirectory (documentId account.domainId)
      let credentials ← rejectIf (ctx.validateCredentials isExternal account.credentials
        old.credentials)
      ctx.checkPermissions s
        (decide (account.permissions ≠ old.permissions ∨ account.roles ≠ old.roles))
        (.user { account with credentials })
    | .group account, some (.group old) =>
      ctx.checkPermissions s
        (decide (account.permissions ≠ old.permissions ∨ account.roles ≠ old.roles))
        (.group account)
    | .user account, none => do
      rejectIf ctx.validateAccountQuota
      let isExternal := ctx.isExternalDirectory (documentId account.domainId)
      let credentials ← rejectIf (ctx.createCredentials isExternal account.credentials)
      ctx.checkPermissions s true (.user { account with credentials })
    | .group account, none => do
      rejectIf ctx.validateGroupQuota
      ctx.checkPermissions s true (.group account)
    | .user _, some (.group _) | .group _, some (.user _) =>
      .error (.set ⟨.invalidProperties, some .type,
        "Cannot change the type of an existing account."⟩)

/-- A check that passes leaves the account as it is. -/
theorem checkPermissions_ok {s : Server} {validatePermissions : Bool}
    (h : ctx.checkPermissions s validatePermissions account = .ok account') :
    account' = account ∧ (validatePermissions = true →
      s.canSetPermissions ctx.accessToken account = .ok (.ok ())) := by
  rw [checkPermissions] at h
  split at h
  · split at h
    · cases h
    · cases h
    · rename_i hset
      exact ⟨(Except.ok.inj h).symm, fun _ => hset⟩
  · rename_i hval
    exact ⟨(Except.ok.inj h).symm, fun hval' => absurd hval' hval⟩

/-- An accepted account is the requested one, up to its credentials; if it is new, or its
    permissions or roles have changed, the token can grant what it was checked for. -/
theorem validateAccount_ok {s : Server} {old : Option Account}
    (h : ctx.validateAccount s account old = .ok account') :
    account'.access = account.access ∧ account'.memberTenantId = account.memberTenantId ∧
      (old.map (·.access) ≠ some account.access →
        s.canSetPermissions ctx.accessToken account' = .ok (.ok ())) := by
  rw [validateAccount.eq_def] at h
  split at h
  · cases h
  split at h
  · obtain ⟨credentials, -, h⟩ := bind_eq_ok_iff.mp h
    obtain ⟨rfl, hcheck⟩ := ctx.checkPermissions_ok h
    refine ⟨rfl, rfl, fun hne => hcheck (decide_eq_true ?_)⟩
    -- an update is checked only if its permissions or roles are new
    contrapose! hne
    rw [Option.map_some, Account.access, Account.access, hne.1, hne.2]
  · obtain ⟨rfl, hcheck⟩ := ctx.checkPermissions_ok h
    refine ⟨rfl, rfl, fun hne => hcheck (decide_eq_true ?_)⟩
    contrapose! hne
    rw [Option.map_some, Account.access, Account.access, hne.1, hne.2]
  · obtain ⟨_, -, h⟩ := bind_eq_ok_iff.mp h
    obtain ⟨credentials, -, h⟩ := bind_eq_ok_iff.mp h
    obtain ⟨rfl, hcheck⟩ := ctx.checkPermissions_ok h
    exact ⟨rfl, rfl, fun _ => hcheck rfl⟩
  · obtain ⟨_, -, h⟩ := bind_eq_ok_iff.mp h
    obtain ⟨rfl, hcheck⟩ := ctx.checkPermissions_ok h
    exact ⟨rfl, rfl, fun _ => hcheck rfl⟩
  · cases h
  · cases h

def validateRole (role : Role) (old : Option Role) : Except RegistryError Unit := do
  if old.isNone then rejectIf ctx.validateRoleQuota
  if old.all fun old => old.enabledPermissions ≠ role.enabledPermissions ∨
      old.disabledPermissions ≠ role.disabledPermissions ∨ old.roleIds ≠ role.roleIds then
    -- what the role gets from other roles is not in here
    let permissions : PermissionsGroup :=
      { enabled := Permissions.fromPermission role.enabledPermissions
        disabled := Permissions.fromPermission role.disabledPermissions
        merge := false }
    match ctx.accessToken.canGrantPermissions permissions.finalize with
    | .ok () => .ok ()
    | .error missing => .error (.set (buildSetError ctx.permissionName missing))
  else .ok ()

end ValidationContext

end Inworkspace
