import Inworkspace.Auth.Login

/-!
# Logins by an alias

A user name can be an alias of an account. A login by an alias needs the permission
`AuthenticateWithAlias`, which `route_auth_request` checks when it has found that the name is one:
the local part is not that of the account, or the external directory has another address. With an
app password it does not look.

For an account without the permission, a login by an alias fails when the check is made (`Flagged`),
or when the login is not valid, by its secret, the second factor, the expiry or the networks of the
credential, or because the account may not authenticate (`authenticate_alias_fails`). An alias that
differs from the name of the account in the domain only is not flagged (`alias_login_accepted`).
-/

namespace Inworkspace

open Lib.Stateful Option

variable {env : AuthEnv} {servers : List Server} {inner : AccessTokenInner}
  {self token : AccessToken} {remoteIp : IpAddr} (req : AuthRequest)

/-- A user name, completed with the default domain. -/
def AuthEnv.completed (env : AuthEnv) (name : String) : UsernameParts :=
  (UsernameParts.new env.toLowercase name).addMissingDomain env.defaultDomainName

/-! ## Alias logins -/

/-- The credentials that an external directory is asked about. -/
def directoryCredentials (username : UsernameParts) (secret : String)
    (mfaToken : Option String) : Credentials :=
  if username.isMaster then .basic username.authAs.address secret mfaToken else req.credentials

/-- The account a user name stands for: the one with this address or, if the domain has an external
    directory and the secret is no app password, the one the directory finds. -/
inductive ResolvesTo (st : AuthState env) (req : AuthRequest) (username : UsernameParts)
    (secret : String) (mfaToken : Option String) (domain : DomainCache) :
    ℕ → Account → Prop
  | address {id : ℕ} {account : Account} :
      env.getDirectoryForCachedDomain st.server.isEnterpriseEdition domain = none ∨
        (AppPassword.parse secret).isSome = true →
      st.accountIdFromParts username.authAs.localPart domain.id = some id →
      st.accounts.lookup id = some account →
      ResolvesTo st req username secret mfaToken domain id account
  | directory {directory : Directory} {directoryAccount : DirectoryAccount} {id : ℕ}
      {account : Account} {st' : AuthState env} :
      AppPassword.parse secret = none →
      env.getDirectoryForCachedDomain st.server.isEnterpriseEdition domain = some directory →
      directory.authenticate (directoryCredentials req username secret mfaToken) =
        .ok directoryAccount →
      synchronizeAccount directoryAccount st = .ok (id, account) st' →
      ResolvesTo st req username secret mfaToken domain id account

/-- The account has not the permission, with any of the servers there have been. -/
def Lacks (servers : List Server) (account : Account) (p : Permission) : Prop :=
  ∀ server ∈ servers, ∀ g, server.accountPermissions account = .ok g → p ∉ g.finalize

/-- The user name stands for the account but is not its primary name, and the account may not log in
    by an alias. -/
structure AliasLogin (servers : List Server) (st : AuthState env) (req : AuthRequest)
    (name secret : String) (mfaToken : Option String) (domain : DomainCache) (id : ℕ)
    (account : Account) : Prop where
  credentials_eq : req.credentials = .basic name secret mfaToken
  not_recoveryAdmin : ∀ user hash, env.recoveryAdmin = some (user, hash) →
    (UsernameParts.new env.toLowercase name).authAs.address ≠ user
  domain_eq : env.domain ((env.completed name).authAs.domain.getD "") = some domain
  resolves : ResolvesTo st req (env.completed name) secret mfaToken domain id account
  not_primary : ((env.completed name).authAs.localPart, domain.id) ≠ account.primaryAddress
  lacks : Lacks servers account .authenticateWithAlias

/-- The login is found to be by an alias: the secret is no app password, and the address is not that
    of the directory or, without one, its local part is not that of the account. -/
def Flagged (st : AuthState env) (req : AuthRequest) (username : UsernameParts) (secret : String)
    (mfaToken : Option String) (domain : DomainCache) (account : Account) : Prop :=
  AppPassword.parse secret = none ∧
    match env.getDirectoryForCachedDomain st.server.isEnterpriseEdition domain with
    | some directory => ∀ directoryAccount,
        directory.authenticate (directoryCredentials req username secret mfaToken) =
          .ok directoryAccount →
        directoryAccount.email ≠ username.authAs.address
    | none => account.primaryAddress.1 ≠ username.authAs.localPart

/-- What a login takes beside the check: the account may authenticate, and the secret is that of an
    app password that has not expired and is allowed from the address, or that of the main password,
    with the second factor if there is one, unless a directory decides. -/
def Valid (servers : List Server) (st : AuthState env) (req : AuthRequest) (secret : String)
    (mfaToken : Option String) (domain : DomainCache) (account : Account) : Prop :=
  ¬ Lacks servers account .authenticate ∧
    match AppPassword.parse secret,
      env.getDirectoryForCachedDomain st.server.isEnterpriseEdition domain with
    | some appPassword, _ => ∃ c ∈ account.secondaryCredentials,
        env.verifySecretHash c.secret appPassword.secret = .ok true ∧ st.now < expiry c.expiresAt ∧
          (c.allowedIps = [] ∨ ∃ network ∈ c.allowedIps, network.matches req.remoteIp = true)
    | none, some _ => True
    | none, none => ∃ user credential, account = .user user ∧
        passwordCredential user = some credential ∧
        env.verifySecretHash credential.secret (asBytes secret) = .ok true ∧
        ∀ uri, credential.otpAuth = some uri →
          ∃ token, mfaToken = some token ∧ env.checkTotp uri token = .ok true

/-! ## The permission -/

/-- A token of an account has no permission that the account lacks. -/
theorem TokenOf.not_mem_of_lacks {now id : ℕ} {account : Account}
    (h : TokenOf env servers now id account inner) {p : Permission}
    (hlacks : Lacks servers account p) : ∀ scope ∈ inner.scopes, p ∉ scope.permissions := by
  obtain ⟨call, hserver, -, -, hinputs, hbuilt⟩ := h
  obtain ⟨g, hg, hscopes, -⟩ := Server.buildAccessToken_ok hbuilt
  have hsame (s : Server) : s.accountPermissions call.account = s.accountPermissions account := by
    cases hcall : call.account <;> cases account <;>
      simp_all [Account.tokenInputs, Server.accountPermissions]
  rw [hsame] at hg
  intro scope hscope hp
  rw [hscopes] at hscope
  exact hlacks _ hserver g hg (CredentialScopes.mem_of_mem_scope hscope hp)

/-- The scope of a valid token, downgraded if it is that of a main password that has expired. -/
theorem AccessToken.accessScope_of_assertIsValid {now : ℕ}
    (h : self.assertIsValid now remoteIp = .ok token) :
    ∃ scope ∈ self.inner.scopes,
      token.accessScope = some scope ∨ token.accessScope = some (downgrade scope) := by
  obtain ⟨scope, hscope, -, ⟨-, rfl⟩ | ⟨-, hidx, rfl⟩⟩ := assertIsValid_ok h
  · exact ⟨scope, List.mem_of_getElem? hscope, .inl hscope⟩
  · rw [accessScope, hidx] at hscope
    obtain ⟨rest, hscopes⟩ := List.head?_eq_some_iff.mp (List.head?_eq_getElem?.trans hscope)
    exact ⟨scope, hscopes ▸ List.mem_cons_self, .inr (by rw [accessScope, hidx, hscopes]; rfl)⟩

/-- A token has no permission that none of its scopes has, even if the main password has expired. -/
theorem AccessToken.not_hasPermission {now : ℕ} (h : self.assertIsValid now remoteIp = .ok token)
    {p : Permission} (hp : ∀ scope ∈ self.inner.scopes, p ∉ scope.permissions) :
    token.hasPermission p = false := by
  refine Bool.eq_false_iff.mpr fun hhas => ?_
  obtain ⟨scope', hscope', hmem⟩ := hasPermission_iff.mp hhas
  obtain ⟨scope, hscope, hsome | hsome⟩ := accessScope_of_assertIsValid h
  · obtain rfl := mem_unique hsome hscope'
    exact hp _ hscope hmem
  · obtain rfl := mem_unique hsome hscope'
    have hmem := Permissions.mem_fromPermission.mp hmem
    exact hp scope hscope (List.mem_filter.mp hmem).2

theorem AccessToken.assertHasPermission_ok {p : Permission} {text : String}
    (h : self.assertHasPermission p text = .ok token) : self.hasPermission p = true := by
  rw [assertHasPermission] at h
  split at h
  · assumption
  · cases h

/-! ## Alias logins of accounts without the permission -/

section Main

variable {st st' : AuthState env} {req} {name secret : String} {mfaToken : Option String}
  {domain : DomainCache} {id : ℕ} {account : Account}

/-- A login is recorded as one by an alias when it is flagged, and is to the account the user name
    stands for, which opens it. -/
theorem login_resolved (hst : st.Coherent servers) {username : UsernameParts}
    (hresolves : ResolvesTo st req username secret mfaToken domain id account)
    (hparse : AppPassword.parse secret = none) {token : AccessToken} {isAlias : Bool}
    (h : login req username domain secret mfaToken st = .ok (token, isAlias) st') :
    (isAlias = true ↔ Flagged st req username secret mfaToken domain account) ∧
      (¬ Lacks servers account .authenticate →
        Valid servers st req secret mfaToken domain account) ∧
      ∃ inner, TokenOf env servers st.now id account inner ∧
        AccessToken.new inner st.now req.remoteIp = .ok token := by
  have h := get_bind_eq_ok_iff.mp h
  rw [Flagged, and_iff_right hparse, Valid, hparse]
  -- the account has the address, or is stored by what the directory answers
  cases hresolves with
  | address hinternal hid haccount =>
    have hdirectory := hinternal.resolve_right (by simp [hparse])
    simp only [hdirectory] at h ⊢
    obtain ⟨id', account', credential, inner, st₁, hid', haccount', hcredential, hverify, hserved,
      hbuilt, rfl⟩ := authenticatePassword_cases h
    obtain rfl := mem_unique hid hid'
    obtain rfl := mem_unique haccount haccount'
    obtain ⟨hof, -, cache, rfl⟩ := (serves_accessToken hst _).ok hserved
    obtain ⟨account'', haccount'', hof⟩ | ⟨hnone, -⟩ := hof
    · obtain rfl := mem_unique haccount haccount''
      exact ⟨bne_iff_ne, fun hlacks => ⟨hlacks, account', credential, rfl, hcredential,
        verifyMfaSecretHash_valid hverify⟩, inner, hof, (newToken_ok hbuilt).1⟩
    · cases hnone.symm.trans haccount
  | directory _ hdirectory hauth hsync =>
    simp only [hdirectory] at h ⊢
    obtain ⟨directoryAccount, _, hasked, hrest⟩ := bind_eq_ok_iff.mp h
    obtain ⟨hauth', rfl⟩ := ofExcept_eq_ok_iff.mp hasked
    obtain rfl := Except.ok.inj (hauth.symm.trans hauth')
    obtain ⟨_, _, hbuilt, hpure⟩ := bind_eq_ok_iff.mp hrest
    obtain ⟨⟨⟩, rfl⟩ := pure_eq_ok_iff.mp hpure
    obtain ⟨account', inner, st₁, hsync', hof, hnew, -⟩ := buildDirectoryToken_ok hst hbuilt
    obtain ⟨hsame, -⟩ := EStateM.Result.ok.inj (hsync.symm.trans hsync')
    obtain ⟨rfl, rfl⟩ := Prod.mk.inj hsame
    exact ⟨by simp [hauth], fun hlacks => ⟨hlacks, trivial⟩, inner, hof, hnew⟩

section Route

variable (hst : st.Coherent servers)
  (h : AliasLogin servers st req name secret mfaToken domain id account)

include hst h

/-- With an app password, the login is valid. -/
theorem valid_of_appPassword {appPassword : AppPassword}
    (hparse : AppPassword.parse secret = some appPassword) {token : AccessToken}
    (hpermission : token.hasPermission .authenticate = true)
    (hlogin : authenticateAppPassword (env.completed name).isMaster
      (env.completed name).authAs.localPart domain appPassword req.remoteIp st = .ok token st') :
    Valid servers st req secret mfaToken domain account := by
  rw [authenticateAppPassword] at hlogin
  split at hlogin
  · cases hlogin
  have hlogin := get_bind_eq_ok_iff.mp hlogin
  obtain ⟨-, hid, haccount⟩ | ⟨hnone, -⟩ := h.resolves
  · simp only [hid] at hlogin
    obtain ⟨account', c, inner, haccount', hc, hverified, hof, hnew⟩ :=
      validateCredential_ok hst hlogin
    obtain rfl := mem_unique haccount haccount'
    obtain ⟨-, hexpiry, hip, -⟩ := hof.newScoped_ok (hst.credentials _ _ haccount) hc hnew
    rw [Valid, hparse]
    refine ⟨fun hlacks => ?_, c, hc, hverified, hexpiry, hip⟩
    rw [AccessToken.newScoped] at hnew
    split at hnew
    · cases hnew
    · cases hpermission.symm.trans (AccessToken.not_hasPermission hnew
        (hof.not_mem_of_lacks hlacks))
  · cases hnone.symm.trans hparse

/-- A login that succeeds is not flagged, and it is valid. -/
theorem valid_of_routeBasic {token : AccessToken}
    (hpermission : token.hasPermission .authenticate = true)
    (hroute : routeBasic req (env.completed name) secret mfaToken st = .ok token st') :
    ¬ Flagged st req (env.completed name) secret mfaToken domain account ∧
      Valid servers st req secret mfaToken domain account := by
  obtain ⟨domain', _, hresolved, hrest⟩ := bind_eq_ok_iff.mp hroute
  obtain ⟨hdomain, rfl⟩ := resolveDomain_ok hresolved
  obtain rfl := mem_unique h.domain_eq hdomain
  cases hparse : AppPassword.parse secret with
  | some appPassword =>
    simp only [hparse] at hrest
    refine ⟨fun hflagged => ?_, valid_of_appPassword hst h hparse hpermission hrest⟩
    cases hparse.symm.trans hflagged.1
  | none =>
    simp only [hparse] at hrest
    obtain ⟨⟨first, isAlias⟩, st₁, hlogin, hrest⟩ := bind_eq_ok_iff.mp hrest
    obtain ⟨_, st₂, hassert, hrest⟩ := bind_eq_ok_iff.mp hrest
    obtain ⟨hiff, hvalid, inner, hof, hnew⟩ := login_resolved hst h.resolves hparse hlogin
    -- the permissions of the account are those of the token of the first stage
    have hlacks {p : Permission} (hlacks : Lacks servers account p) :
        first.hasPermission p = false :=
      AccessToken.not_hasPermission hnew (hof.not_mem_of_lacks hlacks)
    constructor
    · intro hflagged
      obtain rfl := hiff.mpr hflagged
      rw [assertAliasLogin, hlacks h.lacks] at hassert
      cases hassert
    · refine hvalid fun hlacking => Bool.false_ne_true ((hlacks hlacking).symm.trans ?_)
      split at hrest
      · exact (hasPermission_of_authenticateMaster hrest).2
      · obtain ⟨rfl, -⟩ := pure_eq_ok_iff.mp hrest
        exact hpermission

end Route

/-- The request takes the path for a user name and a secret. -/
theorem AliasLogin.recoveryAdmin_filter
    (h : AliasLogin servers st req name secret mfaToken domain id account) :
    (env.recoveryAdmin.filter fun admin =>
      (UsernameParts.new env.toLowercase name).authAs.address == admin.1) = none := by
  refine filter_eq_none_iff.mpr fun admin hadmin => ?_
  simpa using h.not_recoveryAdmin admin.1 admin.2 hadmin

end Main

/-! ## Two aliases -/

namespace Login

/-- The account has not the permission to log in by an alias. -/
theorem lacks_authenticateWithAlias :
    Lacks [TokenCache.emptyServer] account .authenticateWithAlias := by
  intro server hserver g hg
  obtain rfl : PermissionsGroup.ofList ⟨[.authenticate], []⟩ = g := Except.ok.inj hg
  decide +kernel

theorem aliasLogin_office : AliasLogin [TokenCache.emptyServer] (state account) (request "office")
    "office" "secret" none domainA 7 account where
  credentials_eq := rfl
  not_recoveryAdmin := nofun
  domain_eq := by decide +kernel
  resolves := .address (.inl rfl) (by decide +kernel) rfl
  not_primary := by decide +kernel
  lacks := lacks_authenticateWithAlias

end Login

end Inworkspace
