import Inworkspace.Auth.AccessToken
import Mathlib.Data.List.Zip

/-!
# The cache of access tokens

Tokens are cached by account. `access_token_from_account` is given the current account and serves
the cached token if the hash of the account (`hash_account`) is the one the token was built for. The
hash does not cover all `build_access_token` reads: neither the main password, its expiry and its
networks, nor the networks of the secondary credentials, nor the roles and tenants the permissions
come from, nor the time, at which expired credentials are dropped from the token.

* `build_fresh`: what has to be unchanged, beside the hash, for a token to be as good as a new one
  (`SameInputs`);
* `run_fresh`: in a run in which that is unchanged whenever the cache is hit, every token served is
  as good as a new one;
* `stale_token_served`: a run in which it is not.
-/

namespace Inworkspace

open List Function

/-! ## What the hash covers -/

/-- The fields of an account that `hash_account` feeds to the hash. -/
inductive HashedAccount where
  | user (memberTenantId : Option ℕ) (roles : UserRoles) (permissions : Structs.Permissions)
      (secondary : List (ℕ × Option ℤ × CredentialPermissions))
      (memberGroupIds : List ℕ)
  | group (memberTenantId : Option ℕ) (roles : Roles) (permissions : Structs.Permissions)
  deriving DecidableEq

/-- The fields of a secondary credential that are hashed. -/
def SecondaryCredential.hashed (credential : SecondaryCredential) :
    ℕ × Option ℤ × CredentialPermissions :=
  -- the secret and the networks are left out
  (credential.credentialId, credential.expiresAt, credential.permissions)

/-- The part of `hash_account` that selects what is hashed. -/
def Account.hashed : Account → HashedAccount
  | .user account => .user account.memberTenantId account.roles account.permissions
      ((account.credentials.filterMap (·.asSecondaryCredential)).map (·.hashed))
      account.memberGroupIds
  | .group account => .group account.memberTenantId account.roles account.permissions

/-- The main passwords of an account; there is at most one. -/
def Account.passwords (account : Account) : List PasswordCredential :=
  account.credentials.filterMap (·.asPassword)

def Account.secondaryCredentials (account : Account) : List SecondaryCredential :=
  account.credentials.filterMap (·.asSecondaryCredential)

/-! ## What a token depends on -/

variable {account account' : Account}

/-- The permissions of an account are computed from hashed fields. -/
theorem Server.accountPermissions_eq_of_hashed_eq (h : account.hashed = account'.hashed)
    (s : Server) : s.accountPermissions account = s.accountPermissions account' := by
  cases account <;> cases account' <;>
    simp only [Account.hashed, HashedAccount.user.injEq, HashedAccount.group.injEq,
      reduceCtorEq] at h
  · obtain ⟨htenant, hroles, hpermissions, -, -⟩ := h
    simp only [accountPermissions, htenant, hroles, hpermissions]
  · obtain ⟨htenant, hroles, hpermissions⟩ := h
    simp only [accountPermissions, htenant, hroles, hpermissions]

/-- The secondary credentials are hashed, except for their secrets and networks. -/
theorem map_hashed_eq_of_hashed_eq (h : account.hashed = account'.hashed) :
    account.secondaryCredentials.map (·.hashed) = account'.secondaryCredentials.map (·.hashed) := by
  cases account <;> cases account' <;>
    simp only [Account.hashed, HashedAccount.user.injEq, reduceCtorEq] at h
  · exact h.2.2.2.1
  · rfl

/-- The scopes of the secondary credentials depend on their hashed fields and their networks. -/
theorem map_scope_filter_eq {l l' : List SecondaryCredential}
    (hhashed : l.map (·.hashed) = l'.map (·.hashed))
    (hips : l.map (·.allowedIps) = l'.map (·.allowedIps)) {now now' : ℕ}
    (hexpiry : ∀ c ∈ l, expiry c.expiresAt > now ↔ expiry c.expiresAt > now')
    (permissions : Permissions) :
    (l.filter fun c => expiry c.expiresAt > now).map (·.scope permissions) =
      (l'.filter fun c => expiry c.expiresAt > now').map (·.scope permissions) := by
  induction l generalizing l' with
  | nil =>
    obtain rfl : l' = [] := by simpa using hhashed.symm
    rfl
  | cons c l ih =>
    obtain _ | ⟨c', l'⟩ := l'
    · cases hhashed
    simp only [map_cons, cons.injEq] at hhashed hips
    have hc := hexpiry c mem_cons_self
    have ih := ih hhashed.2 hips.2 fun d hd => hexpiry d (mem_cons_of_mem _ hd)
    obtain ⟨hid, hexp, hperm⟩ : c.credentialId = c'.credentialId ∧ c.expiresAt = c'.expiresAt ∧
        c.permissions = c'.permissions := by
      simpa [SecondaryCredential.hashed] using hhashed.1
    have hscope : c.scope permissions = c'.scope permissions := by
      simp [SecondaryCredential.scope, hid, hexp, hperm, hips.1]
    simp only [filter_cons, ← hexp, hc]
    split
    · rw [map_cons, map_cons, ih, hscope]
    · exact ih

/-! ## The cache -/

/-- A token that is asked for: the account as it is at that time, and the server with its roles and
    tenants. The revision of a new token is random. -/
structure TokenCall where
  server : Server
  now : ℕ
  accountId : ℕ
  account : Account
  revision : ℕ

section Cache

-- the hash of the secrets, and the hash of the fields of an account
variable (xxh3 : String → ℕ) (ahash : HashedAccount → ℕ)

def hashAccount (account : Account) : ℕ := ahash account.hashed

/-- A token built for the call. -/
def TokenCall.build (call : TokenCall) : Except TrcError AccessTokenInner :=
  call.server.buildAccessToken xxh3 call.now call.account call.accountId call.revision
    (hashAccount ahash call.account)

/-- A cached token, with the call it was built for, which the cache itself does not hold. -/
structure CachedToken where
  call : TokenCall
  token : AccessTokenInner
  built : call.build xxh3 ahash = .ok token

/-- The cached tokens, by account. -/
abbrev TokenCache := ℕ → Option (CachedToken xxh3 ahash)

variable {xxh3 ahash}

namespace TokenCache

variable (cache : TokenCache xxh3 ahash) (call : TokenCall)

/-- The cache after a new token has been built and stored. -/
def insertNew : Except TrcError (AccessTokenInner × TokenCache xxh3 ahash) :=
  match h : call.build xxh3 ahash with
  | .ok token => .ok (token, update cache call.accountId (some ⟨call, token, h⟩))
  | .error e => .error e

/-- `Server::access_token_from_account`. -/
def accessTokenFromAccount : Except TrcError (AccessTokenInner × TokenCache xxh3 ahash) :=
  match cache call.accountId with
  | some entry =>
    if entry.token.revisionAccount = hashAccount ahash call.account then .ok (entry.token, cache)
    else cache.insertNew call
  | none => cache.insertNew call

/-- `Server::access_token`, for an account of the registry: a cached token is served as it is. -/
def accessToken : Except TrcError (AccessTokenInner × TokenCache xxh3 ahash) :=
  match cache call.accountId with
  | some entry => .ok (entry.token, cache)
  | none => cache.insertNew call

variable {cache} {call} {token : AccessTokenInner} {cache' : TokenCache xxh3 ahash}

theorem insertNew_of_build (h : call.build xxh3 ahash = .ok token) :
    cache.insertNew call = .ok (token, update cache call.accountId (some ⟨call, token, h⟩)) := by
  rw [insertNew]
  split
  · rename_i token' h'
    obtain rfl : token = token' := Except.ok.inj (h.symm.trans h')
    rfl
  · rename_i e he
    cases h.symm.trans he

theorem insertNew_ok (h : cache.insertNew call = .ok (token, cache')) :
    ∃ hbuild : call.build xxh3 ahash = .ok token,
      cache' = update cache call.accountId (some ⟨call, token, hbuild⟩) := by
  rw [insertNew] at h
  split at h
  · rename_i hbuild
    obtain ⟨rfl, rfl⟩ := Prod.mk.inj (Except.ok.inj h)
    exact ⟨hbuild, rfl⟩
  · cases h

/-- A token served for an account is the cached one of the same hash, or a new one. -/
theorem accessTokenFromAccount_ok (h : cache.accessTokenFromAccount call = .ok (token, cache')) :
    (∃ entry, cache call.accountId = some entry ∧ entry.token = token ∧ cache' = cache ∧
        hashAccount ahash entry.call.account = hashAccount ahash call.account) ∨
      cache.insertNew call = .ok (token, cache') := by
  rw [accessTokenFromAccount] at h
  split at h
  · rename_i entry hentry
    split at h
    · rename_i hrev
      obtain ⟨-, -, -, -, -, -, hrev'⟩ := Server.buildAccessToken_ok entry.built
      obtain ⟨rfl, rfl⟩ := Prod.mk.inj (Except.ok.inj h)
      exact .inl ⟨entry, hentry, rfl, rfl, hrev'.symm.trans hrev⟩
    · exact .inr h
  · exact .inr h

/-! ## Freshness -/

/-- The token has the permissions, credential scopes, password expiry and credential version of one
    newly built for the call. -/
def Fresh (xxh3 : String → ℕ) (ahash : HashedAccount → ℕ) (call : TokenCall)
    (token : AccessTokenInner) : Prop :=
  ∃ new, call.build xxh3 ahash = .ok new ∧ token.scopes = new.scopes ∧
    token.credentialVersion = new.credentialVersion

/-- What is not hashed is the same in two calls: the permissions that the roles and the tenant give,
    the main password and the networks of the secondary credentials, none of which has expired in
    between. -/
structure SameInputs (old new : TokenCall) : Prop where
  permissions : old.server.accountPermissions new.account =
    new.server.accountPermissions new.account
  passwords : old.account.passwords = new.account.passwords
  allowedIps : old.account.secondaryCredentials.map (·.allowedIps) =
    new.account.secondaryCredentials.map (·.allowedIps)
  expiry : ∀ c ∈ old.account.secondaryCredentials,
    expiry c.expiresAt > old.now ↔ expiry c.expiresAt > new.now

/-- A token is as good as a new one if the hashed and the other inputs are the same. -/
theorem build_fresh {old new : TokenCall} (hhashed : old.account.hashed = new.account.hashed)
    (hinputs : SameInputs old new) (h : old.build xxh3 ahash = .ok token) :
    Fresh xxh3 ahash new token := by
  obtain ⟨g, hg, hscopes, hversion, -⟩ := Server.buildAccessToken_ok h
  have hg' : new.server.accountPermissions new.account = .ok g := by
    rw [← hinputs.permissions, ← Server.accountPermissions_eq_of_hashed_eq hhashed]
    exact hg
  obtain ⟨token', htoken', hscopes', hversion'⟩ := Server.exists_buildAccessToken hg' xxh3 new.now
    new.accountId new.revision (hashAccount ahash new.account)
  refine ⟨token', htoken', ?_⟩
  have hpasswords : old.account.credentials.filterMap (·.asPassword) =
    new.account.credentials.filterMap (·.asPassword) := hinputs.passwords
  have hsecondary := map_scope_filter_eq (map_hashed_eq_of_hashed_eq hhashed) hinputs.allowedIps
    hinputs.expiry g.finalize
  rw [hscopes, hscopes', hversion, hversion', CredentialScopes.build_eq, CredentialScopes.build_eq]
  simp only [hpasswords, true_and, cons.injEq, and_true]
  exact hsecondary

/-- The runs of the cache: calls that serve a token for an account, which are traced and satisfy
    `ok`, calls that serve one by the account id, and tokens that are invalidated or evicted. The
    server, the time and the account are arbitrary at each call. -/
inductive Run (ok : TokenCache xxh3 ahash → TokenCall → Prop) :
    List (TokenCall × AccessTokenInner) → TokenCache xxh3 ahash → Prop
  | init : Run ok [] fun _ => none
  | fromAccount {trace : List (TokenCall × AccessTokenInner)} {cache cache' : TokenCache xxh3 ahash}
      {call : TokenCall} {token : AccessTokenInner} : Run ok trace cache → ok cache call →
      cache.accessTokenFromAccount call = .ok (token, cache') →
      Run ok (trace ++ [(call, token)]) cache'
  | fromRegistry {trace : List (TokenCall × AccessTokenInner)}
      {cache cache' : TokenCache xxh3 ahash} {call : TokenCall} {token : AccessTokenInner} :
      Run ok trace cache → cache.accessToken call = .ok (token, cache') → Run ok trace cache'
  | evict {trace : List (TokenCall × AccessTokenInner)} {cache : TokenCache xxh3 ahash}
      (accountId : ℕ) : Run ok trace cache → Run ok trace (update cache accountId none)

/-- If the cache has a token with the hash of the account, the hash does not collide and what is not
    hashed has not changed since. -/
def Unchanged (cache : TokenCache xxh3 ahash) (call : TokenCall) : Prop :=
  ∀ entry, cache call.accountId = some entry →
    hashAccount ahash entry.call.account = hashAccount ahash call.account →
    entry.call.account.hashed = call.account.hashed ∧ SameInputs entry.call call

/-- If what is not hashed has not changed whenever the cache is hit, every token served for an
    account is as good as a new one. -/
theorem run_fresh {trace : List (TokenCall × AccessTokenInner)} {cache : TokenCache xxh3 ahash}
    (h : Run Unchanged trace cache) : ∀ served ∈ trace, Fresh xxh3 ahash served.1 served.2 := by
  induction h with
  | init => exact fun _ hs => absurd hs not_mem_nil
  | fromAccount _ hok hcall ih =>
    intro served hserved
    rcases mem_append.mp hserved with hserved | hserved
    · exact ih served hserved
    obtain rfl := mem_singleton.mp hserved
    rcases TokenCache.accessTokenFromAccount_ok hcall with ⟨entry, hentry, rfl, -, hhash⟩ | hnew
    · obtain ⟨hhashed, hinputs⟩ := hok entry hentry hhash
      exact build_fresh hhashed hinputs entry.built
    · obtain ⟨hbuild, -⟩ := insertNew_ok hnew
      exact ⟨_, hbuild, rfl, rfl⟩
  | fromRegistry _ _ ih => exact ih
  | evict _ _ ih => exact ih

end TokenCache

end Cache

/-! ## A stale token -/

namespace TokenCache

/-- A server without roles and tenants. -/
def emptyServer : Server where
  roles := []
  tenants := []
  security := ⟨[], [], [], []⟩
  isEnterpriseEdition := true
  userPermissions := {}

/-- A user whose main password may be used from the given networks. -/
def userWithNetworks (allowedIps : List IpAddrOrMask) : Account :=
  .user
    { name := "user"
      domainId := 1
      credentials := [.password ⟨0, "secret", none, none, allowedIps⟩]
      memberGroupIds := []
      memberTenantId := none
      roles := .user
      permissions := .replace ⟨[.authenticate], []⟩
      aliases := [] }

/-- A call for that user. -/
def callWithNetworks (allowedIps : List IpAddrOrMask) : TokenCall :=
  ⟨emptyServer, 0, 7, userWithNetworks allowedIps, 0⟩

/-- The networks are those of the first scope of the token. -/
theorem exists_build_callWithNetworks {xxh3 : String → ℕ} (ahash : HashedAccount → ℕ)
    (allowedIps : List IpAddrOrMask) :
    ∃ token, (callWithNetworks allowedIps).build xxh3 ahash = .ok token ∧
      token.scopes.head?.map AccessScope.allowedIps = some allowedIps := by
  have hg : emptyServer.accountPermissions (userWithNetworks allowedIps) =
    .ok (PermissionsGroup.ofList ⟨[.authenticate], []⟩) := rfl
  obtain ⟨token, htoken, hscopes, -⟩ := Server.exists_buildAccessToken hg xxh3 0 7 0
    (hashAccount ahash (userWithNetworks allowedIps))
  refine ⟨token, htoken, ?_⟩
  rw [hscopes]
  cases allowedIps <;> rfl

/-- A user whose networks change between two calls is served the same token. -/
theorem run_callWithNetworks {xxh3 : String → ℕ} {ahash : HashedAccount → ℕ}
    (ok : TokenCache xxh3 ahash → TokenCall → Prop) (old new : List IpAddrOrMask)
    {token : AccessTokenInner} (h : (callWithNetworks old).build xxh3 ahash = .ok token)
    (hold : ok (fun _ => none) (callWithNetworks old))
    (hnew : ok (update (fun _ => none) 7 (some ⟨_, token, h⟩)) (callWithNetworks new)) :
    ∃ cache, Run ok [(callWithNetworks old, token), (callWithNetworks new, token)] cache := by
  let entry : CachedToken xxh3 ahash := ⟨callWithNetworks old, token, h⟩
  let cache : TokenCache xxh3 ahash := update (fun _ => none) 7 (some entry)
  have hentry : cache (callWithNetworks new).accountId = some entry := update_self 7 _ _
  obtain ⟨-, -, -, -, -, -, hrev⟩ := Server.buildAccessToken_ok h
  have hserved : cache.accessTokenFromAccount (callWithNetworks new) = .ok (token, cache) := by
    rw [accessTokenFromAccount, hentry]
    exact if_pos hrev
  exact ⟨cache, .fromAccount (.fromAccount .init hold (insertNew_of_build h)) hnew hserved⟩

/-- The same call twice: the second one is served the cached token. -/
theorem run_fresh_twice : ∃ token, Fresh (fun _ => 5) (fun _ => 3) (callWithNetworks []) token := by
  obtain ⟨token, htoken, -⟩ := exists_build_callWithNetworks (fun _ => 3) []
  have hsame : SameInputs (callWithNetworks []) (callWithNetworks []) :=
    ⟨rfl, rfl, rfl, fun _ _ => Iff.rfl⟩
  obtain ⟨cache, hrun⟩ := run_callWithNetworks Unchanged [] [] htoken
    (fun _ hentry => by cases hentry) (fun entry hentry _ => by
      obtain rfl : ⟨_, token, htoken⟩ = entry :=
        Option.some.inj ((update_self 7 _ _).symm.trans hentry)
      exact ⟨rfl, hsame⟩)
  exact ⟨token, run_fresh hrun _ (mem_cons_of_mem _ mem_cons_self)⟩

/-- After the password has been restricted to the loopback address, the token served may still be
    used from everywhere. -/
theorem exists_run_stale (xxh3 : String → ℕ) (ahash : HashedAccount → ℕ) :
    ∃ (trace : List (TokenCall × AccessTokenInner)) (cache : TokenCache xxh3 ahash),
      Run (fun _ _ => True) trace cache ∧
      ∃ served ∈ trace, ¬ Fresh xxh3 ahash served.1 served.2 := by
  let loopback := IpAddrOrMask.fromIp (.v4 0x7f000001#32)
  obtain ⟨token, htoken, hips⟩ := exists_build_callWithNetworks ahash []
  obtain ⟨cache, hrun⟩ := run_callWithNetworks (fun _ _ => True) [] [loopback] htoken
    trivial trivial
  refine ⟨_, cache, hrun, _, mem_cons_of_mem _ mem_cons_self, ?_⟩
  rintro ⟨new, hnew, hscopes, -⟩
  obtain ⟨token', htoken', hips'⟩ := exists_build_callWithNetworks ahash [loopback]
  obtain rfl : new = token' := Except.ok.inj (hnew.symm.trans htoken')
  rw [hscopes, hips'] at hips
  cases Option.some.inj hips

/-- No hash functions make every token that is served as good as a new one. -/
theorem stale_token_served :
    ¬ ∃ (xxh3 : String → ℕ) (ahash : HashedAccount → ℕ),
      ∀ (trace : List (TokenCall × AccessTokenInner)) (cache : TokenCache xxh3 ahash),
        Run (fun _ _ => True) trace cache →
          ∀ served ∈ trace, Fresh xxh3 ahash served.1 served.2 := by
  rintro ⟨xxh3, ahash, hfresh⟩
  obtain ⟨trace, cache, hrun, served, hserved, hstale⟩ := exists_run_stale xxh3 ahash
  exact hstale (hfresh trace cache hrun served hserved)

end TokenCache

end Inworkspace
