import Inworkspace.Auth.Authentication
import Inworkspace.Auth.Coherent

/-!
# Authentication is sound

An access token is returned for a reason (`Justified`): the secret is that of the account, or an
external directory has accepted the account; the secret is that of a secondary credential, and the
token is limited to what it allows; the token was issued by the server for the account, and the main
password has not changed since; or the secret is that of a master user or of the recovery
administrator.

A request works on the tokens that earlier requests have left in the cache, and these have to be
tokens of the accounts as they are now (`Coherent`).
-/

namespace Inworkspace

open Lib.Stateful CredentialScopes AccessToken List Option

variable {env : AuthEnv} {servers : List Server}

/-! ## Tokens -/

/-- The version of the main password of an account. -/
def Account.credentialVersion (xxh3 : String → ℕ) (account : Account) : ℕ :=
  account.passwords.foldl (fun _ credential => max (xxh3 credential.secret) 1) 0

/-- What the passwords of an account contribute to a token. -/
theorem foldl_addPassword {xxh3 : String → ℕ} (passwords : List PasswordCredential)
    (self : ℕ × AccessScope) :
    (passwords.foldl (addPassword xxh3) self).1 =
        passwords.foldl (fun _ credential => max (xxh3 credential.secret) 1) self.1 ∧
      (passwords.foldl (addPassword xxh3) self).2.permissions = self.2.permissions ∧
      (passwords.foldl (addPassword xxh3) self).2.credentialId = self.2.credentialId := by
  induction passwords generalizing self with
  | nil => exact ⟨rfl, rfl, rfl⟩
  | cons c passwords ih =>
    have hadd : (addPassword xxh3 self c).2.permissions = self.2.permissions ∧
        (addPassword xxh3 self c).2.credentialId = self.2.credentialId := by
      rw [addPassword]
      split <;> exact ⟨rfl, rfl⟩
    obtain ⟨hversion, hpermissions, hid⟩ := ih (addPassword xxh3 self c)
    exact ⟨hversion, hpermissions.trans hadd.1, hid.trans hadd.2⟩

namespace TokenOf

variable {now id : ℕ} {account : Account} {inner : AccessTokenInner}

section

variable (h : TokenOf env servers now id account inner)

include h

theorem credentialVersion_eq : inner.credentialVersion = account.credentialVersion env.xxh3 := by
  obtain ⟨call, -, -, -, hinputs, hbuilt⟩ := h
  obtain ⟨g, -, -, hversion, -⟩ := Server.buildAccessToken_ok hbuilt
  rw [hversion, build_eq, Account.credentials_eq_of_tokenInputs_eq hinputs]
  exact (foldl_addPassword _ _).1

/-- The scopes of a token: the main one, and those of the secondary credentials that had not
    expired. -/
theorem scopes_eq :
    ∃ main before, main.credentialId = u32Max ∧
      inner.scopes = main ::
        (account.secondaryCredentials.filter fun c => expiry c.expiresAt > before).map
          (·.scope main.permissions) := by
  obtain ⟨call, -, -, -, hinputs, hbuilt⟩ := h
  obtain ⟨g, -, hscopes, -⟩ := Server.buildAccessToken_ok hbuilt
  rw [build_eq, Account.credentials_eq_of_tokenInputs_eq hinputs] at hscopes
  obtain ⟨-, hpermissions, hid⟩ := foldl_addPassword
    (account.credentials.filterMap (·.asPassword)) (0, AccessScope.new g.finalize u32Max)
  refine ⟨_, call.now, hid, hscopes.trans ?_⟩
  rw [hpermissions]
  rfl

/-- A token of a secondary credential is limited to what that allows. -/
theorem newScoped_ok (hdistinct : account.DistinctCredentials) {c : SecondaryCredential}
    (hc : c ∈ account.secondaryCredentials) {remoteIp : IpAddr} {token : AccessToken}
    (hnew : newScoped inner (documentId c.credentialId) now remoteIp = .ok token) :
    token.accountId = id ∧ now < expiry c.expiresAt ∧
      (c.allowedIps = [] ∨ ∃ network ∈ c.allowedIps, network.matches remoteIp = true) ∧
      ∃ main, token.inner.scopes.head? = some main ∧
        token.accessScope = some (c.scope main.permissions) := by
  obtain ⟨main, before, hmain, hscopes⟩ := h.scopes_eq
  rw [newScoped] at hnew
  split at hnew
  · cases hnew
  rename_i idx hidx
  obtain ⟨hlt, hfound, -⟩ := findIdx?_eq_some_iff_getElem.mp hidx
  -- the main scope has an id that no credential has
  have hne : idx ≠ 0 := by
    rintro rfl
    simp only [hscopes, getElem_cons_zero, hmain, beq_iff_eq] at hfound
    exact hdistinct.ne_main c hc hfound.symm
  obtain ⟨n, rfl⟩ := Nat.exists_eq_succ_of_ne_zero hne
  obtain ⟨scope, hscope, hip, ⟨hexpiry, rfl⟩ | ⟨-, hzero, -⟩⟩ := assertIsValid_ok hnew
  · have hget : inner.scopes[n + 1]? = some scope := hscope
    have hid : scope.credentialId = documentId c.credentialId := by
      obtain ⟨_, rfl⟩ := List.getElem?_eq_some_iff.mp hget
      exact beq_iff_eq.mp hfound
    have hmem := hget
    rw [hscopes] at hmem
    obtain ⟨c', hc', rfl⟩ := mem_map.mp (mem_of_getElem? hmem)
    obtain rfl : c' = c := inj_on_of_nodup_map hdistinct.nodup (mem_of_mem_filter hc') hc hid
    exact ⟨h.accountId_eq, hexpiry, hip, main, by rw [hscopes]; rfl, hget⟩
  · cases hzero

end

end TokenOf

/-! ## Reasons for a token -/

/-- The secret is verified against the main password of the account, with the second factor if there
    is one, or its directory has accepted it. -/
inductive LoggedIn (st : AuthState env) : Credentials → ℕ → Account → Prop
  | password {username secret : String} {mfaToken : Option String} {id : ℕ}
      {account : UserAccount} {credential : PasswordCredential} :
      st.accounts.lookup id = some (.user account) →
      passwordCredential account = some credential →
      env.verifySecretHash credential.secret (asBytes secret) = .ok true →
      (∀ uri, credential.otpAuth = some uri →
        ∃ token, mfaToken = some token ∧ env.checkTotp uri token = .ok true) →
      LoggedIn st (.basic username secret mfaToken) id (.user account)
  | directory {credentials : Credentials} {directory : Directory}
      {directoryAccount : DirectoryAccount} {id : ℕ} {account : Account}
      {st' : AuthState env} {localPart : String} {domain : DomainCache} :
      directory.authenticate credentials = .ok directoryAccount →
      synchronizeAccount directoryAccount st = .ok (id, account) st' →
      env.validateAddress directoryAccount.email = .ok (localPart, domain) →
      (localPart, domain.id) ∈ account.addresses →
      env.getDirectoryForCachedDomain st.server.isEnterpriseEdition domain = some directory →
      LoggedIn st credentials id account

/-- The secret of an app password or an API key. -/
def Credentials.secondarySecret (env : AuthEnv) : Credentials → Option (List UInt8)
  | .basic _ secret _ => (AppPassword.parse secret).map (·.secret)
  | .bearer _ token => (ApiKey.parse env.decodeUrlSafe token).map (·.secret)

/-- The token may be returned for the request. -/
inductive Justified (servers : List Server) (st : AuthState env) (req : AuthRequest)
    (token : AccessToken) : Prop
  /-- The account has logged in. -/
  | login {account : Account} :
      LoggedIn st req.credentials token.accountId account → Justified servers st req token
  /-- The secret is that of a secondary credential `c` that has not expired, and the token has the
      permissions, the expiry and the networks of `c`. -/
  | credential {account : Account} {c : SecondaryCredential} {secret : List UInt8}
      {main : AccessScope} :
      req.credentials.secondarySecret env = some secret →
      st.accounts.lookup token.accountId = some account →
      c ∈ account.secondaryCredentials →
      env.verifySecretHash c.secret secret = .ok true →
      st.now < expiry c.expiresAt →
      (c.allowedIps = [] ∨ ∃ network ∈ c.allowedIps, network.matches req.remoteIp = true) →
      token.inner.scopes.head? = some main →
      token.accessScope = some (c.scope main.permissions) → Justified servers st req token
  /-- The server has issued the token for the account, as an access token that has not expired; its
      credential version, if any, is that of the account. -/
  | issued {username : Option String} {text : String} {raw : RawToken} :
      req.credentials = .bearer username text →
      (text, raw) ∈ st.issued →
      raw.accountId = token.accountId →
      raw.grantType = .accessToken →
      raw.issuedAt ≤ st.now - oauthEpoch →
      st.now - oauthEpoch < raw.expiry →
      (raw.credentialVersion = 0 ∨ ∃ account, st.accounts.lookup raw.accountId = some account ∧
        account.credentialVersion env.xxh3 = raw.credentialVersion) → Justified servers st req token
  /-- A master user, whose token has the permissions for it, has logged in. -/
  | master {username address secret : String} {mfaToken : Option String} {id : ℕ}
      {account : Account} {inner : AccessTokenInner} {masterToken : AccessToken} :
      req.credentials = .basic username secret mfaToken →
      LoggedIn st (.basic address secret mfaToken) id account →
      TokenOf env servers st.now id account inner →
      AccessToken.new inner st.now req.remoteIp = .ok masterToken →
      masterToken.hasPermission .impersonate = true →
      masterToken.hasPermission .authenticate = true → Justified servers st req token
  /-- The secret is that of the recovery administrator. -/
  | recoveryAdmin {username user hash secret : String} {mfaToken : Option String} :
      req.credentials = .basic username secret mfaToken →
      env.recoveryAdmin = some (user, hash) →
      (UsernameParts.new env.toLowercase username).authAs.address = user →
      env.verifySecretHash hash (asBytes secret) = .ok true → Justified servers st req token

/-! ## Logins -/

section Logins

variable {st st' : AuthState env} {token : AccessToken} {remoteIp : IpAddr}
  {inner : AccessTokenInner}

theorem newToken_ok (h : newToken inner remoteIp st = .ok token st') :
    new inner st.now remoteIp = .ok token ∧ st' = st := by
  obtain ⟨hnew, rfl⟩ := ofExcept_eq_ok_iff.mp h
  exact ⟨hnew, rfl⟩

theorem accountId_of_new {now : ℕ} (h : new inner now remoteIp = .ok token) :
    token.accountId = inner.accountId := by
  obtain ⟨-, -, -, ⟨-, rfl⟩ | ⟨-, -, rfl⟩⟩ := assertIsValid_ok h <;> rfl

variable {secret : String} {directoryAccount : DirectoryAccount} {directory : Directory}
  {domain : DomainCache} {mfaToken : Option String} {req : AuthRequest} {isAlias : Bool}
  {isEnterpriseEdition : Bool} {username : Option String} {localPart : String} {text : String}

/-- The secret is right, and so is the second factor, if the account has one. -/
theorem verifyMfaSecretHash_valid {totpUri totpToken : Option String} {hashedSecret : String}
    (h : verifyMfaSecretHash env totpUri totpToken hashedSecret secret = .ok .valid) :
    env.verifySecretHash hashedSecret (asBytes secret) = .ok true ∧
      ∀ uri, totpUri = some uri → ∃ token, totpToken = some token ∧
        env.checkTotp uri token = .ok true := by
  cases totpUri with
  | some uri =>
    cases totpToken with
    | some token =>
      obtain ⟨verified, hverified, h⟩ := Lib.Loop.bind_eq_ok_iff.mp h
      cases verified with
      | false => cases h
      | true =>
        obtain ⟨checked, hchecked, h⟩ := Lib.Loop.bind_eq_ok_iff.mp h
        cases checked with
        | false => cases h
        | true => exact ⟨hverified, fun _ huri => ⟨token, rfl, some.inj huri ▸ hchecked⟩⟩
    | none =>
      rw [verifyMfaSecretHash] at h
      split at h
      · cases h
      · obtain ⟨verified, -, h⟩ := Lib.Loop.bind_eq_ok_iff.mp h
        cases verified <;> cases h
  | none =>
    rw [verifyMfaSecretHash] at h
    split at h
    · cases h
    obtain ⟨verified, hverified, h⟩ := Lib.Loop.bind_eq_ok_iff.mp h
    cases verified with
    | false => cases h
    | true => exact ⟨hverified, nofun⟩

/-- An account that is a user's. -/
theorem lookup_of_intoUser {account : Option Account} {user : UserAccount}
    (h : account.bind (·.intoUser) = some user) : account = some (.user user) := by
  obtain ⟨account, rfl, h⟩ := bind_eq_some_iff.mp h
  cases account with
  | user account => rw [some.inj h]
  | group account => cases h

/-- What a successful login with the main password does. -/
theorem authenticatePassword_cases {secret : String}
    (h : authenticatePassword localPart domain secret mfaToken remoteIp st =
      .ok (token, isAlias) st') :
    ∃ id account credential inner st₁, st.accountIdFromParts localPart domain.id = some id ∧
      st.accounts.lookup id = some (.user account) ∧ passwordCredential account = some credential ∧
      verifyMfaSecretHash env credential.otpAuth mfaToken credential.secret secret = .ok .valid ∧
      accessToken id st = .ok inner st₁ ∧ newToken inner remoteIp st₁ = .ok token st' ∧
      isAlias = (account.name != localPart) := by
  have h := get_bind_eq_ok_iff.mp h
  rcases hid : st.accountIdFromParts localPart domain.id with _ | id <;> simp only [hid] at h
  · cases h
  rcases haccount : (st.accounts.lookup id).bind (·.intoUser) with _ | account <;>
    simp only [haccount] at h
  · cases h
  rcases hcredential : passwordCredential account with _ | credential <;>
    simp only [hcredential] at h
  · cases h
  obtain ⟨result, _, hchecked, hresult⟩ := bind_eq_ok_iff.mp h
  obtain ⟨hverify, rfl⟩ := ofExcept_eq_ok_iff.mp hchecked
  cases result with
  | invalid | missingMfaToken => cases hresult
  | valid =>
    obtain ⟨inner, st₁, hserved, hrest⟩ := bind_eq_ok_iff.mp hresult
    obtain ⟨token', st₂, hbuilt, hpure⟩ := bind_eq_ok_iff.mp hrest
    obtain ⟨⟨⟩, rfl⟩ := pure_eq_ok_iff.mp hpure
    exact ⟨id, account, credential, inner, st₁, rfl, lookup_of_intoUser haccount, hcredential,
      hverify, hserved, hbuilt, rfl⟩

/-- A login with the main password. -/
theorem authenticatePassword_ok (hst : st.Coherent servers) {username secret : String}
    (h : authenticatePassword localPart domain secret mfaToken remoteIp st =
      .ok (token, isAlias) st') :
    ∃ account inner, LoggedIn st (.basic username secret mfaToken) token.accountId account ∧
      TokenOf env servers st.now token.accountId account inner ∧
      new inner st.now remoteIp = .ok token ∧ st'.Coherent servers := by
  obtain ⟨id, account, credential, inner, st₁, -, haccount, hcredential, hverify, hserved, hbuilt,
    -⟩ := authenticatePassword_cases h
  obtain ⟨hnew, rfl⟩ := newToken_ok hbuilt
  obtain ⟨hof, hst', cache, rfl⟩ := (serves_accessToken hst _).ok hserved
  obtain ⟨account', haccount', hof⟩ | ⟨hnone, -⟩ := hof
  · obtain rfl : Account.user account = account' := some.inj (haccount.symm.trans haccount')
    obtain rfl : token.accountId = id := (accountId_of_new hnew).trans hof.accountId_eq
    obtain ⟨hsecret, htotp⟩ := verifyMfaSecretHash_valid hverify
    exact ⟨_, inner, .password haccount hcredential hsecret htotp, hof, hnew, hst'⟩
  · cases hnone.symm.trans haccount

/-- A login that an external directory accepts. -/
theorem buildDirectoryToken_ok (hst : st.Coherent servers)
    (h : buildDirectoryToken directoryAccount remoteIp st = .ok token st') :
    ∃ account inner st₁,
      synchronizeAccount directoryAccount st = .ok (token.accountId, account) st₁ ∧
      TokenOf env servers st.now token.accountId account inner ∧
      new inner st.now remoteIp = .ok token ∧ st'.Coherent servers := by
  obtain ⟨⟨id, account⟩, st₁, hsync, hrest⟩ := bind_eq_ok_iff.mp h
  obtain ⟨inner, st₂, hserved, hbuilt⟩ := bind_eq_ok_iff.mp hrest
  obtain ⟨hnew, rfl⟩ := newToken_ok hbuilt
  obtain ⟨hlookup, hnow, -, -⟩ := synchronizeAccount_ok hst hsync
  have hst₁ := (keeps_synchronizeAccount directoryAccount).of_eq_ok hst hsync
  obtain ⟨hof, hst₂, cache, rfl⟩ := (serves_accessTokenFromAccount hst₁ hlookup).ok hserved
  obtain rfl : token.accountId = id := (accountId_of_new hnew).trans hof.accountId_eq
  rw [hnow] at hof
  exact ⟨account, inner, st₁, hsync, hof, hnow ▸ hnew, hst₂⟩

/-- A directory that the server can ask. -/
def AuthEnv.HasDirectory (env : AuthEnv) (directory : Directory) : Prop :=
  env.defaultDirectory = some directory ∨ ∃ id, env.directories id = some directory

/-- The directories accept only accounts of their own domains. -/
def AuthEnv.IdealDirectories (env : AuthEnv) (isEnterpriseEdition : Bool) : Prop :=
  ∀ directory, env.HasDirectory directory → ∀ credentials account localPart domain,
    directory.authenticate credentials = .ok account →
    env.validateAddress account.email = .ok (localPart, domain) →
    env.getDirectoryForCachedDomain isEnterpriseEdition domain = some directory

theorem AuthEnv.hasDirectory_of_orElse {id : Option ℕ}
    (h : (id.bind env.directories <|> env.defaultDirectory) = some directory) :
    env.HasDirectory directory := by
  cases hid : id.bind env.directories with
  | none => exact .inl (by simpa [hid] using h)
  | some _ =>
    obtain ⟨n, -, hn⟩ := bind_eq_some_iff.mp hid
    exact .inr ⟨n, by simpa [hid, hn] using h⟩

theorem AuthEnv.hasDirectory_of_cachedDomain
    (h : env.getDirectoryForCachedDomain isEnterpriseEdition domain = some directory) :
    env.HasDirectory directory := by
  rw [getDirectoryForCachedDomain] at h
  split at h
  · exact hasDirectory_of_orElse h
  · exact .inl h

theorem hasDirectory_of_bearerDirectory
    (h : bearerDirectory env isEnterpriseEdition username text = some directory) :
    env.HasDirectory directory := by
  rw [bearerDirectory] at h
  split at h
  · rw [AuthEnv.getDirectoryForDomain] at h
    split at h
    · exact AuthEnv.hasDirectory_of_orElse h
    · exact .inl h
  · exact .inl h

section

variable (hst : st.Coherent servers)

include hst

section

variable (hideal : env.IdealDirectories st.server.isEnterpriseEdition)

include hideal

theorem loggedIn_of_directory (hdirectory : env.HasDirectory directory) {credentials : Credentials}
    (hauth : directory.authenticate credentials = .ok directoryAccount) {id : ℕ}
    {account : Account}
    (hsync : synchronizeAccount directoryAccount st = .ok (id, account) st') :
    LoggedIn st credentials id account := by
  obtain ⟨-, -, -, localPart, domain, haddress, hmem⟩ := synchronizeAccount_ok hst hsync
  exact .directory hauth hsync haddress hmem (hideal _ hdirectory _ _ _ _ hauth haddress)

/-- The first stage of a login: the token is that of the account or the master user. -/
theorem login_ok {name : String} (hreq : req.credentials = .basic name secret mfaToken)
    {username : UsernameParts}
    (h : login req username domain secret mfaToken st = .ok (token, isAlias) st') :
    ∃ account inner,
      LoggedIn st
        (if username.isMaster then .basic username.authAs.address secret mfaToken
          else req.credentials) token.accountId account ∧
      TokenOf env servers st.now token.accountId account inner ∧
      new inner st.now req.remoteIp = .ok token ∧ st'.Coherent servers := by
  have h := get_bind_eq_ok_iff.mp h
  cases hdirectory : env.getDirectoryForCachedDomain st.server.isEnterpriseEdition domain with
  | some directory =>
    simp only [hdirectory] at h
    obtain ⟨directoryAccount, _, hasked, hrest⟩ := bind_eq_ok_iff.mp h
    obtain ⟨hauth, rfl⟩ := ofExcept_eq_ok_iff.mp hasked
    obtain ⟨_, _, hbuilt, hpure⟩ := bind_eq_ok_iff.mp hrest
    obtain ⟨⟨⟩, rfl⟩ := pure_eq_ok_iff.mp hpure
    obtain ⟨account, inner, st₁, hsync, hof, hnew, hst'⟩ := buildDirectoryToken_ok hst hbuilt
    exact ⟨account, inner, loggedIn_of_directory hst hideal
      (AuthEnv.hasDirectory_of_cachedDomain hdirectory) hauth hsync, hof, hnew, hst'⟩
  | none =>
    simp only [hdirectory] at h
    split
    · exact authenticatePassword_ok hst h
    · rw [hreq]
      exact authenticatePassword_ok hst h

end

/-- A login with an app password or an API key. -/
theorem validateCredential_ok {accountId credentialId : ℕ} {secret : List UInt8}
    (h : validateCredential accountId credentialId secret remoteIp st = .ok token st') :
    ∃ account c inner, st.accounts.lookup accountId = some account ∧
      c ∈ account.secondaryCredentials ∧ env.verifySecretHash c.secret secret = .ok true ∧
      TokenOf env servers st.now accountId account inner ∧
      newScoped inner (documentId c.credentialId) st.now remoteIp = .ok token := by
  have h := get_bind_eq_ok_iff.mp h
  rcases haccount : (st.accounts.lookup accountId).bind (·.intoUser) with _ | account <;>
    simp only [haccount] at h
  · cases h
  have haccount := lookup_of_intoUser haccount
  rcases hfind : (Account.user account).secondaryCredentials.find?
    fun credential => documentId credential.credentialId == credentialId with _ | c <;>
    simp only [hfind] at h
  · cases h
  have hc := mem_of_find?_eq_some hfind
  obtain rfl : documentId c.credentialId = credentialId := by simpa using find?_some hfind
  obtain ⟨verified, _, hasked, hrest⟩ := bind_eq_ok_iff.mp h
  obtain ⟨hverified, rfl⟩ := ofExcept_eq_ok_iff.mp hasked
  cases verified with
  | false => cases hrest
  | true =>
    simp only [Bool.not_true, Bool.false_eq_true, if_false] at hrest
    split at hrest
    · cases hrest
    obtain ⟨inner, st₁, hserved, hscoped⟩ := bind_eq_ok_iff.mp hrest
    obtain ⟨hnew, rfl⟩ := ofExcept_eq_ok_iff.mp hscoped
    obtain ⟨hof, -⟩ := (serves_accessTokenFromAccount hst haccount).ok hserved
    exact ⟨_, c, inner, haccount, hc, hverified, hof, hnew⟩

theorem validateCredential_justified {accountId credentialId : ℕ} {secret : List UInt8}
    (hsecret : req.credentials.secondarySecret env = some secret)
    (h : validateCredential accountId credentialId secret req.remoteIp st = .ok token st') :
    Justified servers st req token := by
  obtain ⟨account, c, inner, haccount, hc, hverified, hof, hnew⟩ := validateCredential_ok hst h
  obtain ⟨rfl, hexpiry, hip, main, hmain, hscope⟩ :=
    hof.newScoped_ok (hst.credentials _ _ haccount) hc hnew
  exact .credential hsecret haccount hc hverified hexpiry hip hmain hscope

/-- The credential version of a token, if it has one, is that of the account. -/
theorem assertCredentialVersion_ok {raw : RawToken}
    (h : assertCredentialVersion raw st = .ok () st') :
    (raw.credentialVersion = 0 ∨ ∃ account, st.accounts.lookup raw.accountId = some account ∧
        account.credentialVersion env.xxh3 = raw.credentialVersion) ∧
      st'.Coherent servers ∧ ∃ cache, st' = { st with cache } := by
  rw [assertCredentialVersion] at h
  split at h
  · rename_i hversion
    obtain ⟨current, st₁, hadapted, hrest⟩ := bind_eq_ok_iff.mp h
    have hserved := adaptExcept_eq_ok_iff.mp hadapted
    obtain ⟨hof, hst₁, hcache⟩ := (serves_accessToken hst _).ok hserved
    split at hrest
    · cases hrest
    rename_i hsame
    obtain ⟨-, rfl⟩ := pure_eq_ok_iff.mp hrest
    have hsame := not_not.mp hsame
    obtain ⟨account, haccount, hof⟩ | ⟨-, -, rfl⟩ := hof
    · exact ⟨.inr ⟨account, haccount, hof.credentialVersion_eq.symm.trans hsame⟩, hst₁, hcache⟩
    · exact absurd hsame.symm hversion
  · rename_i hversion
    obtain ⟨-, rfl⟩ := pure_eq_ok_iff.mp h
    exact ⟨.inl (not_not.mp hversion), hst, st.cache, rfl⟩

/-- A token that the server has issued. -/
theorem authenticateIssued_justified
    (hissued : ∀ text raw, env.openToken text = some raw → (text, raw) ∈ st.issued)
    (hreq : req.credentials = .bearer username text) {externalError : Option TrcError}
    (h : authenticateIssued text externalError remoteIp st = .ok token st') :
    Justified servers st req token := by
  obtain ⟨info, st₁, hadapted, hrest⟩ := bind_eq_ok_iff.mp h
  have hvalid := adaptExcept_eq_ok_iff.mp hadapted
  rw [validateAccessToken] at hvalid
  rcases hopen : env.openToken text with _ | raw <;> simp only [hopen] at hvalid
  · cases hvalid
  have hvalid := get_bind_eq_ok_iff.mp hvalid
  split at hvalid
  · cases hvalid
  split at hvalid
  · cases hvalid
  rename_i hgrant
  obtain ⟨⟨⟩, st₂, hversion, hpure⟩ := bind_eq_ok_iff.mp hvalid
  obtain ⟨rfl, rfl⟩ := pure_eq_ok_iff.mp hpure
  obtain ⟨hversion, hst₂, -⟩ := assertCredentialVersion_ok hst hversion
  obtain ⟨inner, st₃, hserved, hbuilt⟩ := bind_eq_ok_iff.mp hrest
  obtain ⟨hnew, rfl⟩ := newToken_ok hbuilt
  have haccount := (accountId_of_new hnew).trans (accountId_of_accessToken hst₂ hserved)
  have hgrant : GrantType.accessToken = raw.grantType := by simpa using hgrant
  exact .issued hreq (hissued _ _ hopen) haccount.symm hgrant.symm (by omega) (by omega) hversion

end

end Logins

/-! ## Requests -/

section Requests

variable {st st' : AuthState env} {req : AuthRequest} {token : AccessToken}
  {username : UsernameParts}

theorem resolveDomain_ok {name : String} {domain : DomainCache}
    (h : resolveDomain name st = .ok domain st') : env.domain name = some domain ∧ st = st' := by
  rw [resolveDomain] at h
  rcases hdomain : env.domain name with _ | d <;> simp only [hdomain] at h
  · cases h
  · obtain ⟨rfl, rfl⟩ := pure_eq_ok_iff.mp h
    exact ⟨rfl, rfl⟩

/-- A master user has the permissions for it. -/
theorem hasPermission_of_authenticateMaster {masterToken : AccessToken} {account : Username}
    (h : authenticateMaster masterToken account st = .ok token st') :
    masterToken.hasPermission .impersonate = true ∧
      masterToken.hasPermission .authenticate = true := by
  obtain ⟨_, _, himpersonate, hrest⟩ := bind_eq_ok_iff.mp h
  obtain ⟨_, _, hauthenticate, -⟩ := bind_eq_ok_iff.mp hrest
  have himpersonate := (ofExcept_eq_ok_iff.mp himpersonate).1
  rw [assertHasPermission] at himpersonate hauthenticate
  split at himpersonate
  · obtain rfl := Except.ok.inj himpersonate
    split at hauthenticate
    · exact ⟨by assumption, by assumption⟩
    · cases hauthenticate
  · cases himpersonate

variable (hst : st.Coherent servers) (hideal : env.IdealDirectories st.server.isEnterpriseEdition)

include hst hideal

/-- A login with a name and a secret. -/
theorem routeBasic_justified {name secret : String} {mfaToken : Option String}
    (hreq : req.credentials = .basic name secret mfaToken)
    (h : routeBasic req username secret mfaToken st = .ok token st') :
    Justified servers st req token := by
  obtain ⟨domain, _, hresolved, hrest⟩ := bind_eq_ok_iff.mp h
  obtain ⟨-, rfl⟩ := resolveDomain_ok hresolved
  cases hparse : AppPassword.parse secret with
  | some appPassword =>
    simp only [hparse, authenticateAppPassword] at hrest
    split at hrest
    · cases hrest
    have hrest := get_bind_eq_ok_iff.mp hrest
    rcases hid : st.accountIdFromParts username.authAs.localPart domain.id with _ | id <;>
      simp only [hid] at hrest
    · cases hrest
    · refine validateCredential_justified hst ?_ hrest
      rw [hreq, Credentials.secondarySecret, hparse]
      rfl
  | none =>
    simp only [hparse] at hrest
    obtain ⟨⟨first, isAlias⟩, st₁, hlogin, hrest⟩ := bind_eq_ok_iff.mp hrest
    obtain ⟨_, st₂, -, hrest⟩ := bind_eq_ok_iff.mp hrest
    obtain ⟨account, inner, hloggedIn, hof, hnew, hst₁⟩ := login_ok hst hideal hreq hlogin
    -- the login was by a master user, or by the account itself
    split at hrest
    · rename_i hmaster
      rw [if_pos hmaster] at hloggedIn
      obtain ⟨himpersonate, hauthenticate⟩ := hasPermission_of_authenticateMaster hrest
      exact .master hreq hloggedIn hof hnew himpersonate hauthenticate
    · rename_i hmaster
      rw [if_neg hmaster] at hloggedIn
      obtain ⟨rfl, -⟩ := pure_eq_ok_iff.mp hrest
      exact .login hloggedIn

variable (hissued : ∀ text raw, env.openToken text = some raw → (text, raw) ∈ st.issued)

include hissued

/-- A login with a token, by an API key, a directory or one that was issued. -/
theorem routeBearer_justified {username : Option String} {text : String}
    (hreq : req.credentials = .bearer username text)
    (h : routeBearer req username text st = .ok token st') : Justified servers st req token := by
  rw [routeBearer] at h
  cases hparse : ApiKey.parse env.decodeUrlSafe text with
  | some key =>
    simp only [hparse] at h
    refine validateCredential_justified hst ?_ h
    rw [hreq, Credentials.secondarySecret, hparse]
    rfl
  | none =>
    simp only [hparse] at h
    have h := get_bind_eq_ok_iff.mp h
    cases hdirectory : bearerDirectory env st.server.isEnterpriseEdition username text with
    | none =>
      simp only [hdirectory] at h
      exact authenticateIssued_justified hst hissued hreq h
    | some directory =>
      simp only [hdirectory] at h
      -- a token that the directory refuses can still be one that was issued
      split at h
      · cases hauth : directory.authenticate req.credentials with
        | error err =>
          simp only [hauth] at h
          exact authenticateIssued_justified hst hissued hreq h
        | ok directoryAccount =>
          simp only [hauth] at h
          obtain ⟨account, inner, st₁, hsync, -⟩ := buildDirectoryToken_ok hst h
          exact .login (loggedIn_of_directory hst hideal
            (hasDirectory_of_bearerDirectory hdirectory) hauth hsync)
      · exact authenticateIssued_justified hst hissued hreq h

/-- All ways to log in. -/
theorem routeAuthRequest_justified (h : routeAuthRequest req st = .ok token st') :
    Justified servers st req token := by
  rw [routeAuthRequest] at h
  cases hreq : req.credentials with
  | bearer username text =>
    simp only [hreq] at h
    exact routeBearer_justified hst hideal hissued hreq h
  | basic name secret mfaToken =>
    simp only [hreq] at h
    cases hadmin : env.recoveryAdmin.filter fun admin =>
        (UsernameParts.new env.toLowercase name).authAs.address == admin.1 with
    | none =>
      simp only [hadmin] at h
      exact routeBasic_justified hst hideal hreq h
    | some admin =>
      simp only [hadmin] at h
      obtain ⟨hadmin, hname⟩ := filter_eq_some_iff.mp hadmin
      obtain ⟨verified, _, hasked, hrest⟩ := bind_eq_ok_iff.mp h
      cases verified with
      | false => cases hrest
      | true =>
        exact .recoveryAdmin hreq hadmin (beq_iff_eq.mp hname) (ofExcept_eq_ok_iff.mp hasked).1

end Requests

end Inworkspace
