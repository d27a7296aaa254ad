import Inworkspace.Auth.Credential
import Inworkspace.Auth.Synchronize

/-!
# Authentication

`Server::authenticate`: a request with a user name and a secret, or with a bearer token, is answered
with an access token. The secret can be that of the recovery administrator, an app password, one
that an external directory accepts or the main password; the bearer token an API key, one that an
external directory accepts, or one that the server has issued.
-/

namespace Inworkspace

variable {env : AuthEnv} (req : AuthRequest)

structure AuthRequest where
  credentials : Credentials
  remoteIp : IpAddr
  deriving DecidableEq

def AuthRequest.username : Option String :=
  match req.credentials with
  | .basic username _ _ => some username
  | .bearer username _ => username

/-! ## Secrets -/

inductive SecretVerificationResult where
  | valid
  | invalid
  | missingMfaToken
  deriving DecidableEq

def verifyMfaSecretHash (env : AuthEnv) (totpUri totpToken : Option String)
    (hashedSecret secret : String) : Except TrcError SecretVerificationResult := do
  match totpUri, totpToken with
  | some totpUri, some totpToken =>
    if ← env.verifySecretHash hashedSecret (asBytes secret) then
      if ← env.checkTotp totpUri totpToken then .ok .valid else .ok .invalid
    else .ok .invalid
  | some _, none =>
    if hashedSecret.isEmpty || secret.isEmpty then .ok .invalid
    else if ← env.verifySecretHash hashedSecret (asBytes secret) then .ok .missingMfaToken
    else .ok .invalid
  | none, _ =>
    if hashedSecret.isEmpty || secret.isEmpty then .ok .invalid
    else if ← env.verifySecretHash hashedSecret (asBytes secret) then .ok .valid
    else .ok .invalid

def Account.intoUser : Account → Option UserAccount
  | .user account => some account
  | .group _ => none

/-- `AccessToken::new`, at the present time. -/
def newToken (token : AccessTokenInner) (remoteIp : IpAddr) : AuthM env AccessToken := do
  ofExcept (AccessToken.new token (← get).now remoteIp)

/-- `Server::validate_credential`. -/
def validateCredential (accountId credentialId : ℕ) (secret : List UInt8) (remoteIp : IpAddr) :
    AuthM env AccessToken := do
  let st ← get
  match (st.accounts.lookup accountId).bind (·.intoUser) with
  | none => throw ⟨.authFailed, "Account not found for credential"⟩
  | some account =>
    match (Account.user account).secondaryCredentials.find?
      fun credential => documentId credential.credentialId == credentialId with
    | none => throw ⟨.authFailed, "Credential not found for account"⟩
    | some credential =>
      let verified ← ofExcept (env.verifySecretHash credential.secret secret)
      if !verified then throw ⟨.authFailed, "Invalid credential secret"⟩
      else if credential.expiresAt.any (· < (st.now : ℤ)) then
        throw ⟨.authCredentialExpired, "Credential has expired"⟩
      else
        let token ← accessTokenFromAccount accountId (.user account)
        ofExcept (AccessToken.newScoped token credentialId st.now remoteIp)

/-! ## Tokens of the server -/

/-- `OAUTH_EPOCH`. -/
def oauthEpoch : ℕ := 946684800

/-- `FAILED_TO_DECODE_TOKEN`. -/
def failedToDecodeToken : String :=
  "Failed to decode token. If you are using an external OIDC provider, make sure it is " ++
    "configured as the default directory under the Authentication object."

structure TokenInfo where
  grantType : GrantType
  accountId : ℕ
  claims : Option String
  expiry : ℕ
  issuedAt : ℕ
  expiresIn : ℕ
  deriving DecidableEq

/-- The main password has not changed since the token was issued, if the token has a version. -/
def assertCredentialVersion (token : RawToken) : AuthM env Unit := do
  if token.credentialVersion ≠ 0 then
    let current ← EStateM.adaptExcept (fun err => ⟨.authError, err.details⟩)
      (accessToken token.accountId)
    if current.credentialVersion ≠ token.credentialVersion then
      throw ⟨.authTokenExpired, "Token revoked"⟩

/-- `Server::validate_access_token`. -/
def validateAccessToken (expectedGrantType : Option GrantType) (text : String) :
    AuthM env TokenInfo := do
  match env.openToken text with
  | none => throw ⟨.authError, failedToDecodeToken⟩
  | some token =>
    let now := (← get).now - oauthEpoch
    if token.expiry ≤ now ∨ token.issuedAt > now then throw ⟨.authTokenExpired, ""⟩
    else if expectedGrantType.any (· ≠ token.grantType) then
      throw ⟨.authError, "Invalid grant type"⟩
    else
      assertCredentialVersion token
      pure
        { grantType := token.grantType
          accountId := token.accountId
          claims := token.claims
          expiry := token.expiry + oauthEpoch
          issuedAt := token.issuedAt + oauthEpoch
          expiresIn := token.expiry - now }

/-! ## User name and secret -/

def resolveDomain (name : String) : AuthM env DomainCache :=
  match env.domain name with
  | some domain => pure domain
  | none => throw ⟨.authFailed, "Domain not found"⟩

def buildDirectoryToken (account : DirectoryAccount) (remoteIp : IpAddr) :
    AuthM env AccessToken := do
  let (id, account) ← synchronizeAccount account
  let token ← accessTokenFromAccount id account
  newToken token remoteIp

variable (username : UsernameParts)

/-- A login with the secret of the recovery administrator, as the administrator or as a master
    user. -/
def authenticateRecoveryAdmin (hash secret : String)
    (remoteIp : IpAddr) : AuthM env AccessToken := do
  let verified ← ofExcept (env.verifySecretHash hash (asBytes secret))
  if !verified then throw ⟨.authFailed, "Fallback admin authentication failed"⟩
  else if username.isMaster then
    match (← get).accountIdFromEmail username.account.address with
    | some accountId =>
      let token ← accessToken accountId
      newToken token remoteIp
    | none =>
      throw ⟨.authFailed, "Master user account not found for fallback admin authentication"⟩
  else pure (AccessToken.newMaybeInvalid .newAdmin)

/-- A login with an app password. -/
def authenticateAppPassword (isMaster : Bool) (localPart : String) (domain : DomainCache)
    (appPassword : AppPassword) (remoteIp : IpAddr) : AuthM env AccessToken := do
  if isMaster then throw ⟨.authFailed, "App passwords cannot be used for impersonation"⟩
  else
    match (← get).accountIdFromParts localPart domain.id with
    | some accountId =>
      validateCredential accountId appPassword.credentialId appPassword.secret remoteIp
    | none => throw ⟨.authFailed, "App password authentication failed: account not found"⟩

/-- A login that an external directory accepts, and whether it is by an alias. -/
def authenticateDirectory (directory : Directory) (credentials : Credentials) (address : String)
    (remoteIp : IpAddr) : AuthM env (AccessToken × Bool) := do
  let account ← ofExcept (directory.authenticate credentials)
  let token ← buildDirectoryToken account remoteIp
  pure (token, account.email != address)

/-- A login with the main password, and whether it is by an alias. -/
def authenticatePassword (localPart : String) (domain : DomainCache) (secret : String)
    (mfaToken : Option String) (remoteIp : IpAddr) : AuthM env (AccessToken × Bool) := do
  let st ← get
  match st.accountIdFromParts localPart domain.id with
  | none => throw ⟨.authFailed, "Account not found"⟩
  | some accountId =>
    match (st.accounts.lookup accountId).bind (·.intoUser) with
    | none => throw ⟨.authError, "Account not found in registry"⟩
    | some account =>
      match passwordCredential account with
      | none => throw ⟨.authFailed, "Password credential not found for account"⟩
      | some credential =>
        match ← ofExcept (verifyMfaSecretHash env credential.otpAuth mfaToken credential.secret
          secret) with
        | .valid =>
          let token ← accessToken accountId
          let token ← newToken token remoteIp
          -- local parts are compared, without the domains
          pure (token, account.name != localPart)
        | .invalid => throw ⟨.authFailed, "Authentication failed"⟩
        | .missingMfaToken => throw ⟨.authMfaRequired, "MFA token required"⟩

/-- The check that a login by an alias is permitted. -/
def assertAliasLogin (isAliasLogin : Bool) (token : AccessToken) : AuthM env Unit :=
  if isAliasLogin && !token.hasPermission .authenticateWithAlias then
    throw ⟨.authFailed, "Authenticated using an email alias but account does not have " ++
      "AuthenticateAlias permission"⟩
  else pure ()

/-- The account that a master user logs in to; one that only an external directory has is
    synchronised first. -/
def impersonatedId (account : Username) : AuthM env (Option ℕ) := do
  let st ← get
  match st.accountIdFromEmail account.address with
  | some accountId => pure (some accountId)
  | none =>
    let directory := (account.domain.bind env.domain).bind
      (env.getDirectoryForCachedDomain st.server.isEnterpriseEdition)
    match directory with
    | none => pure none
    | some directory =>
      match ← ofExcept (directory.recipient account.address) with
      | .account recipient =>
        let (accountId, _) ← synchronizeAccount recipient
        pure (some accountId)
      | .group | .invalid => pure none

/-- A master user, whose token is given, logs in to an account. -/
def authenticateMaster (token : AccessToken) (account : Username) : AuthM env AccessToken := do
  let token ← ofExcept (token.assertHasPermission .impersonate "impersonate")
  let _ ← ofExcept (token.assertHasPermission .authenticate "authenticate")
  match ← impersonatedId account with
  | some accountId =>
    let token ← accessToken accountId
    pure (AccessToken.newMaybeInvalid token)
  | none => throw ⟨.authFailed, "Master user account not found"⟩

/-- The login of a user name, to its account or as the master user: the token, and whether it is by
    an alias. -/
def login (domain : DomainCache) (secret : String)
    (mfaToken : Option String) : AuthM env (AccessToken × Bool) := do
  let authAs := username.authAs
  match env.getDirectoryForCachedDomain (← get).server.isEnterpriseEdition domain with
  | some directory =>
    -- the directory is asked about the master user, not about the account
    let credentials :=
      if username.isMaster then .basic authAs.address secret mfaToken else req.credentials
    authenticateDirectory directory credentials authAs.address req.remoteIp
  | none => authenticatePassword authAs.localPart domain secret mfaToken req.remoteIp

/-- `route_auth_request`, for a user name with a domain and a secret. -/
def routeBasic (secret : String) (mfaToken : Option String) : AuthM env AccessToken := do
  let authAs := username.authAs
  let domain ← resolveDomain (authAs.domain.getD "")
  match AppPassword.parse secret with
  | some appPassword =>
    -- a login by an alias is not checked for app passwords
    authenticateAppPassword username.isMaster authAs.localPart domain appPassword req.remoteIp
  | none =>
    let (token, isAliasLogin) ← login req username domain secret mfaToken
    assertAliasLogin isAliasLogin token
    if username.isMaster then authenticateMaster token username.account else pure token

/-! ## Bearer tokens -/

/-- The directory that is asked about a bearer token. -/
def bearerDirectory (env : AuthEnv) (isEnterpriseEdition : Bool) (username : Option String)
    (token : String) : Option Directory :=
  let domain := (username.bind fun username =>
    (UsernameParts.new env.toLowercase username).authAs.domain) <|> env.extractJwtDomain token
  match domain with
  | some domain => env.getDirectoryForDomain isEnterpriseEdition domain
  | none => env.defaultDirectory

/-- A bearer token of the server; `externalError` is the error of the directory, if one was
    asked. -/
def authenticateIssued (token : String) (externalError : Option TrcError) (remoteIp : IpAddr) :
    AuthM env AccessToken := do
  let tokenInfo ← EStateM.adaptExcept (externalError.getD ·)
    (validateAccessToken (some .accessToken) token)
  let token ← accessToken tokenInfo.accountId
  newToken token remoteIp

/-- `route_auth_request`, for a bearer token. -/
def routeBearer (username : Option String) (token : String) : AuthM env AccessToken := do
  match ApiKey.parse env.decodeUrlSafe token with
  | some key => validateCredential key.accountId key.credentialId key.secret req.remoteIp
  | none =>
    match bearerDirectory env (← get).server.isEnterpriseEdition username token with
    | some directory =>
      if directory.hasBearerTokenSupport then
        match directory.authenticate req.credentials with
        | .ok account => buildDirectoryToken account req.remoteIp
        | .error err => authenticateIssued token (some err) req.remoteIp
      else authenticateIssued token none req.remoteIp
    | none => authenticateIssued token none req.remoteIp

/-! ## Requests -/

/-- `Server::route_auth_request`. -/
def routeAuthRequest : AuthM env AccessToken :=
  match req.credentials with
  | .basic username secret mfaToken =>
    let username := UsernameParts.new env.toLowercase username
    match env.recoveryAdmin.filter fun admin => username.authAs.address == admin.1 with
    | some (_, hash) => authenticateRecoveryAdmin username hash secret req.remoteIp
    | none => routeBasic req (username.addMissingDomain env.defaultDomainName) secret mfaToken
  | .bearer username token => routeBearer req username token

/-- The error of a failed request; after too many of them it is a ban. -/
def authError (env : AuthEnv) (req : AuthRequest) (err : TrcError) : TrcError :=
  if (err.event = .authFailed ∨ err.event = .securityIpUnauthorized) ∧
      env.isAuthFail2banned req.remoteIp req.username then
    ⟨.securityAuthenticationBan, ""⟩
  else err

/-- `Server::authenticate`. -/
def authenticate : AuthM env AccessToken :=
  EStateM.adaptExcept (authError env req) do
    let token ← routeAuthRequest req
    ofExcept (token.assertHasPermission .authenticate "authenticate")

end Inworkspace
