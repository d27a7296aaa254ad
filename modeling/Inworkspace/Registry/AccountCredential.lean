import Inworkspace.Auth.TokenCache
import Inworkspace.Registry.Principal

/-!
# Credentials that a client gives itself

`jmap::registry::mapping::account`: the app passwords and API keys of an account are set
with one of its own tokens. The client has to be authorized for the objects
(`validateSet`), and the permissions the credential is to have are compared with those of the
token (`validateCredentialPermissions`). The permissions of the credential are relative to
those of the account, for which the check takes the main scope of the token. Once the main
password has expired this is a downgraded scope: the check alone would let such a token
give away what it has lost, but it is not authorized for the objects any more.

* `credential_contained`: a credential that an authorized token sets has, in every later
  token of the account, only permissions that the token had;
* `expired_passes_check`: the check accepts more for an expired main password.
-/

namespace Inworkspace

open AccessToken CredentialScopes List TokenCache Except

/-! ## Authorization -/

namespace Permission

@[inherit_doc authenticate]
def sysApiKeyCreate : Permission := ⟨⟨267, by decide⟩⟩

@[inherit_doc authenticate]
def sysApiKeyUpdate : Permission := ⟨⟨268, by decide⟩⟩

@[inherit_doc authenticate]
def sysApiKeyDestroy : Permission := ⟨⟨269, by decide⟩⟩

@[inherit_doc authenticate]
def sysAppPasswordCreate : Permission := ⟨⟨272, by decide⟩⟩

@[inherit_doc authenticate]
def sysAppPasswordUpdate : Permission := ⟨⟨273, by decide⟩⟩

@[inherit_doc authenticate]
def sysAppPasswordDestroy : Permission := ⟨⟨274, by decide⟩⟩

end Permission

/-- The objects that stand for secondary credentials. -/
inductive SecondaryType where
  | apiKey
  | appPassword
  deriving DecidableEq

namespace SecondaryType

/-- `ObjectType::set_permission`. -/
def setPermission : SecondaryType → Permission × Permission × Permission
  | apiKey => (.sysApiKeyCreate, .sysApiKeyUpdate, .sysApiKeyDestroy)
  | appPassword => (.sysAppPasswordCreate, .sysAppPasswordUpdate, .sysAppPasswordDestroy)

/-- The credential of an account that the object stands for. -/
def credential : SecondaryType → SecondaryCredential → Credential
  | apiKey, credential => .apiKey credential
  | appPassword, credential => .appPassword credential

end SecondaryType

/-- Whether a `SetRequest` has something to create, to update and to destroy. -/
structure SetRequest where
  create : Bool
  update : Bool
  destroy : Bool
  deriving DecidableEq

variable (self : AccessToken)

def AccessToken.validateSet (set : SetRequest)
    (permissions : Permission × Permission × Permission) : Except TrcError Unit :=
  let canCreate := self.hasPermission permissions.1
  let canUpdate := self.hasPermission permissions.2.1
  let canDestroy := self.hasPermission permissions.2.2
  let forbidden actions : Except TrcError Unit :=
    .error ⟨.jmapForbidden, "You are not authorized to " ++ actions ++ " objects of this type"⟩
  if canCreate && canUpdate && canDestroy then .ok ()
  else if !canCreate && !canUpdate && !canDestroy then forbidden "create, update or destroy"
  else if !canCreate && set.create then forbidden "create"
  else if !canUpdate && set.update then forbidden "update"
  else if !canDestroy && set.destroy then forbidden "destroy"
  else .ok ()

/-! ## The check of the permissions -/

/-- `AccessToken::account_permissions`: those of the main scope. -/
def AccessToken.accountPermissions : Permissions :=
  (self.inner.scopes.head?.map AccessScope.permissions).getD Bitset.new

/-- The permissions `validate_credential_permissions` takes a credential to have. -/
def CredentialPermissions.requested (account : Permissions) : CredentialPermissions → Permissions
  | .inherit => account
  | .disable list => account.clearMany (Permissions.fromPermission list)
  | .replace list => Permissions.fromPermission list

def validateCredentialPermissions (permissionName : Permission → String) (token : AccessToken)
    (credential : SecondaryCredential) : Except SetError Unit :=
  match token.canGrantPermissions (credential.permissions.requested token.accountPermissions) with
  | .ok () => .ok ()
  | .error missing => .error (buildSetError permissionName missing)

/-- The scope of a credential has at most what the check takes it to have, if that knows the
    permissions of the account. -/
theorem CredentialPermissions.mem_requested_of_mem_apply {account : Permissions} {p : Permission}
    {permissions : CredentialPermissions} (h : p ∈ permissions.apply account) :
    p ∈ permissions.requested account := by
  cases permissions with
  | inherit => exact h
  | disable list => exact h
  | replace list => exact (Permissions.mem_intersection.mp h).1

variable {token : AccessToken}

/-! ## Tokens -/

/-- The scope in use has expired. -/
def AccessToken.hasExpired (now : ℕ) : Bool :=
  self.accessScope.any fun scope => decide (scope.expiresAt ≤ now)

/-- The server gives the token to a client that authenticates as the user, with the main password,
    which may have `expired`, or with a secondary credential, whose scopes `AccessToken::new` and
    `new_scoped` find. The token of the account may have been built before. -/
def Server.Issues (s : Server) (account : UserAccount) (token : AccessToken)
    (expired : Bool) : Prop :=
  ∃ xxh3 built accountId revision revisionAccount inner now remoteIp scopeIdx,
    s.buildAccessToken xxh3 built (.user account) accountId revision revisionAccount = .ok inner ∧
      AccessToken.assertIsValid ⟨scopeIdx, inner⟩ now remoteIp = .ok token ∧
      expired = AccessToken.hasExpired ⟨scopeIdx, inner⟩ now

section Issued

variable {s : Server} {account : UserAccount} {expired : Bool}

/-- An issued token has the scopes of the account, the first one downgraded if it is in use and has
    expired. -/
theorem Server.Issues.scopes (h : s.Issues account token expired) :
    ∃ g main rest, s.accountPermissions (.user account) = .ok g ∧
      main.permissions = g.finalize ∧ (∀ scope ∈ rest, ∀ p ∈ scope.permissions, p ∈ g.finalize) ∧
      (∃ scope, token.accessScope = some scope) ∧
      (expired = false ∧ token.inner.scopes = main :: rest ∨ expired = true ∧
        token.scopeIdx = 0 ∧ token.inner.scopes = downgrade main :: rest) := by
  obtain ⟨xxh3, built, accountId, revision, revisionAccount, inner, now, remoteIp, scopeIdx,
    hbuild, hvalid, rfl⟩ := h
  obtain ⟨g, hg, hscopes, -⟩ := Server.buildAccessToken_ok hbuild
  obtain ⟨scope, hscope, -, hcases⟩ := assertIsValid_ok hvalid
  rw [hasExpired, hscope]
  refine ⟨g, _, (build xxh3 built g.finalize account.credentials).secondary, hg,
    main_permissions_build xxh3 built g.finalize account.credentials,
    fun scope hscope p hp => mem_of_mem_scope (mem_cons_of_mem _ hscope) hp, ?_⟩
  rcases hcases with ⟨hexpired, rfl⟩ | ⟨hexpired, hidx, rfl⟩
  · exact ⟨⟨scope, hscope⟩, .inl ⟨decide_eq_false hexpired.not_ge, hscopes⟩⟩
  refine ⟨⟨downgrade (build xxh3 built g.finalize account.credentials).main, ?_⟩,
    .inr ⟨decide_eq_true hexpired, hidx, by rw [hscopes]; rfl⟩⟩
  rw [hidx, hscopes]
  rfl

variable {g : PermissionsGroup} {p : Permission} {credential : SecondaryCredential}
  {Within : Permission → Prop}

/-- A scope of an issued token has no more than the account. -/
theorem Server.Issues.mem_of_mem_scope (h : s.Issues account token expired)
    (hg : s.accountPermissions (.user account) = .ok g) {scope : AccessScope}
    (hscope : scope ∈ token.inner.scopes) (hp : p ∈ scope.permissions) : p ∈ g.finalize := by
  obtain ⟨g', main, rest, hg', hmain, hrest, -, hscopes⟩ := h.scopes
  obtain rfl := ok.inj (hg.symm.trans hg')
  rcases hscopes with ⟨-, hscopes⟩ | ⟨-, -, hscopes⟩ <;> rw [hscopes] at hscope <;>
    rcases mem_cons.mp hscope with rfl | hscope
  · rwa [hmain] at hp
  · exact hrest scope hscope p hp
  · have hp := (mem_filter.mp (Permissions.mem_fromPermission.mp hp)).2
    exact hmain ▸ Permissions.mem_def.mpr hp
  · exact hrest scope hscope p hp

/-- An issued token knows the permissions of the account, if its main password has not expired. -/
theorem Server.Issues.accountPermissions_eq (h : s.Issues account token false)
    (hg : s.accountPermissions (.user account) = .ok g) :
    token.accountPermissions = g.finalize := by
  obtain ⟨g', main, rest, hg', hmain, -, -, ⟨-, hscopes⟩ | ⟨hexpired, -⟩⟩ := h.scopes
  · obtain rfl := ok.inj (hg.symm.trans hg')
    rw [AccessToken.accountPermissions, hscopes]
    exact hmain
  · cases hexpired

/-- A token for an expired main password may only change the password. -/
theorem Server.Issues.mem_expiredPermissions (h : s.Issues account token true)
    (hp : token.hasPermission p = true) : p ∈ expiredPermissions := by
  obtain ⟨-, main, rest, -, -, -, -, ⟨hexpired, -⟩ | ⟨-, hidx, hscopes⟩⟩ := h.scopes
  · cases hexpired
  obtain ⟨scope, hscope, hp⟩ := hasPermission_iff.mp hp
  rw [accessScope, hidx, hscopes] at hscope
  obtain rfl := Option.some.inj hscope
  exact (mem_filter.mp (Permissions.mem_fromPermission.mp hp)).1

/-- No client whose main password has expired may set secondary credentials. -/
theorem Server.Issues.validateSet_ne_ok (h : s.Issues account token true) (type : SecondaryType)
    (set : SetRequest) : token.validateSet set type.setPermission ≠ .ok () := by
  -- whoever may only change the password has none of the permissions
  have hlacks {p : Permission} (hp : p ∉ expiredPermissions) : ¬token.hasPermission p = true :=
    fun hhas => hp (h.mem_expiredPermissions hhas)
  have hcreate := @hlacks type.setPermission.1 (by cases type <;> decide)
  have hupdate := @hlacks type.setPermission.2.1 (by cases type <;> decide)
  have hdestroy := @hlacks type.setPermission.2.2 (by cases type <;> decide)
  simp [validateSet, hcreate, hupdate, hdestroy]

/-! ## Tokens with one more credential -/

/-- One more secondary credential adds at most its own scope to a token. -/
theorem CredentialScopes.build_insert (xxh3 : String → ℕ) (now : ℕ) (permissions : Permissions)
    (type : SecondaryType) (credential : SecondaryCredential)
    (before after : List Credential) :
    let scopes := build xxh3 now permissions (before ++ after)
    ∃ k added, added.length ≤ 1 ∧ (∀ scope ∈ added, scope = credential.scope permissions) ∧
      build xxh3 now permissions (before ++ type.credential credential :: after) =
        { scopes with secondary := scopes.secondary.take k ++ added ++ scopes.secondary.drop k } := by
  have hpassword : (type.credential credential).asPassword = none := by cases type <;> rfl
  have hsecondary : (type.credential credential).asSecondaryCredential = some credential := by
    cases type <;> rfl
  simp only [build_eq, filterMap_append, filterMap_cons, hpassword, hsecondary,
    filter_append, map_append]
  refine ⟨(((before.filterMap (·.asSecondaryCredential)).filter
      fun c => expiry c.expiresAt > now).map (·.scope permissions)).length,
    ([credential].filter fun c => expiry c.expiresAt > now).map (·.scope permissions), ?_, ?_, ?_⟩
  · rw [length_map]
    exact length_filter_le _ _
  · intro scope hscope
    obtain ⟨c, hc, rfl⟩ := mem_map.mp hscope
    rw [mem_singleton.mp (mem_filter.mp hc).1]
  · rw [take_left, drop_left, ← singleton_append, filter_append, map_append, append_assoc]

/-- With the credential, wherever it is, tokens of the account have at most one more scope, `Within`
    what is given. -/
def Server.AddsWithin (s : Server) (account : UserAccount) (credential : Credential)
    (Within : Permission → Prop) : Prop :=
  ∀ xxh3 now accountId revision revisionAccount before after, ∃ old new k added,
    s.buildAccessToken xxh3 now (.user { account with credentials := before ++ after })
      accountId revision revisionAccount = .ok old ∧
    s.buildAccessToken xxh3 now (.user { account with credentials := before ++ credential :: after })
      accountId revision revisionAccount = .ok new ∧
    new.scopes = old.scopes.take (k + 1) ++ added ++ old.scopes.drop (k + 1) ∧
    added.length ≤ 1 ∧ ∀ scope ∈ added, ∀ p ∈ scope.permissions, Within p

/-- A credential adds its own scope. -/
theorem Server.addsWithin_of_scope (hg : s.accountPermissions (.user account) = .ok g)
    (type : SecondaryType) (h : ∀ p ∈ (credential.scope g.finalize).permissions, Within p) :
    s.AddsWithin account (type.credential credential) Within := by
  intro xxh3 now accountId revision revisionAccount before after
  -- the credentials have no part in the permissions of the account
  have hgcred (credentials) : s.accountPermissions (.user { account with credentials }) = .ok g :=
    hg
  obtain ⟨old, hold, hscopes₁, -⟩ := Server.exists_buildAccessToken (hgcred (before ++ after)) xxh3
    now accountId revision revisionAccount
  obtain ⟨new, hnew, hscopes₂, -⟩ := Server.exists_buildAccessToken
    (hgcred (before ++ type.credential credential :: after)) xxh3 now accountId revision
    revisionAccount
  obtain ⟨k, added, hone, hadded, hbuild⟩ :=
    build_insert xxh3 now g.finalize type credential before after
  refine ⟨old, new, k, added, hold, hnew, ?_, hone, fun scope hscope => hadded scope hscope ▸ h⟩
  rw [hscopes₂, hscopes₁]
  simp only [Account.credentials]
  rw [hbuild]
  rfl

/-- And it adds all of it, as long as it has not expired. -/
theorem Server.AddsWithin.of_mem_scope (hg : s.accountPermissions (.user account) = .ok g)
    (h : s.AddsWithin account (.appPassword credential) Within)
    (hlive : 0 < expiry credential.expiresAt) (hp : p ∈ (credential.scope g.finalize).permissions) :
    Within p := by
  obtain ⟨old, new, k, added, hold, hnew, hscopes, -, hwithin⟩ := h (fun _ => 0) 0 0 0 0 [] []
  obtain ⟨g₁, hg₁, hscopes₁, -⟩ := Server.buildAccessToken_ok hold
  obtain ⟨g₂, hg₂, hscopes₂, -⟩ := Server.buildAccessToken_ok hnew
  obtain rfl := ok.inj (hg.symm.trans hg₁)
  obtain rfl := ok.inj (hg.symm.trans hg₂)
  have hadded : [credential.scope g.finalize] = added := by
    simpa [hscopes₁, hscopes₂, Account.credentials, build,
      add, hlive, AccessScope.new] using hscopes
  exact hwithin _ (hadded ▸ mem_singleton_self _) p hp

/-- No scope of a token has more than the account; a client whose main password has expired may not
    set secondary credentials; and what the check accepts for any other token adds to the tokens of
    the account only what the token has. -/
theorem credential_contained (h : s.Issues account token expired) :
    (∀ g, s.accountPermissions (.user account) = .ok g → ∀ scope ∈ token.inner.scopes,
      ∀ p ∈ scope.permissions, p ∈ g.finalize) ∧
    ∀ (type : SecondaryType) (set : SetRequest) (permissionName : Permission → String)
      (credential : SecondaryCredential),
      (expired = true → token.validateSet set type.setPermission ≠ .ok ()) ∧
      (expired = false → validateCredentialPermissions permissionName token credential = .ok () →
        s.AddsWithin account (type.credential credential) fun p => token.hasPermission p = true) := by
  refine ⟨fun g hg scope hscope p hp => h.mem_of_mem_scope hg hscope hp, ?_⟩
  intro type set permissionName credential
  refine ⟨?_, ?_⟩
  · rintro rfl
    exact h.validateSet_ne_ok type set
  · rintro rfl hvalid
    obtain ⟨g, -, -, hg, -, -, ⟨scope, hscope⟩, -⟩ := h.scopes
    refine Server.addsWithin_of_scope hg type fun p hp => ?_
    have hreq := CredentialPermissions.mem_requested_of_mem_apply hp
    rw [← h.accountPermissions_eq hg] at hreq
    rw [validateCredentialPermissions] at hvalid
    split at hvalid
    · rename_i hgrant
      -- the permission bits of an issued token are those of its scope
      have hbits := token.mem_permissionsBits_of_canGrant hgrant hreq
      refine hasPermission_iff.mpr ⟨scope, hscope, ?_⟩
      simpa [permissionsBits, hscope] using hbits
    · cases hvalid

end Issued

/-! ## An expired main password -/

/-- A user whose main password expires at the time 5. -/
def expiringUser : UserAccount where
  name := "user"
  domainId := 1
  credentials := [.password ⟨0, "secret", none, some 5, []⟩]
  memberGroupIds := []
  memberTenantId := none
  roles := .custom []
  permissions := .replace ⟨[.authenticate, .impersonate, .sysAppPasswordCreate], []⟩
  aliases := []

/-- The token of the user, used at the given time. -/
def expiringToken (now : ℕ) : Except TrcError AccessToken := do
  let inner ← emptyServer.buildAccessToken (fun _ => 1) 0 (.user expiringUser) 7 0 0
  AccessToken.new inner now (.v4 0x7f000001#32)

/-- An app password with the permissions of the account. -/
def inheritingPassword : SecondaryCredential := ⟨1, "hash", none, .inherit, []⟩

theorem issues_expiringToken {now : ℕ} {expired : Bool} (h : expiringToken now = .ok token)
    (hexpired : expired = decide (5 ≤ now)) : emptyServer.Issues expiringUser token expired := by
  obtain ⟨inner, hinner, hnew⟩ := Lib.Loop.bind_eq_ok_iff.mp h
  refine ⟨fun _ => 1, 0, 7, 0, 0, inner, now, .v4 0x7f000001#32, 0, hinner, hnew, ?_⟩
  obtain ⟨g, -, hscopes, -⟩ := Server.buildAccessToken_ok hinner
  rw [hasExpired, accessScope, hscopes, hexpired]
  rfl

/-- The token is good for an app password while the main password is valid. -/
theorem contained_expiringToken :
    ∃ token, expiringToken 3 = .ok token ∧ emptyServer.AddsWithin expiringUser
      (.appPassword inheritingPassword) fun p => token.hasPermission p = true := by
  obtain ⟨token, htoken⟩ : ∃ token, expiringToken 3 = .ok token := ⟨_, rfl⟩
  have hissued : emptyServer.Issues expiringUser token false := issues_expiringToken htoken rfl
  have hvalid : validateCredentialPermissions (fun _ => "") token inheritingPassword = .ok () := by
    obtain rfl := ok.inj htoken
    decide +kernel
  exact ⟨token, htoken, ((credential_contained hissued).2 .appPassword ⟨true, false, false⟩
    (fun _ => "") inheritingPassword).2 rfl hvalid⟩

/-- Once the main password has expired, the check still accepts an app password that inherits the
    permissions of the account and may impersonate others, which the token may not. -/
theorem expired_passes_check :
    ∃ token, emptyServer.Issues expiringUser token true ∧
      validateCredentialPermissions (fun _ => "") token inheritingPassword = .ok () ∧
      ¬ emptyServer.AddsWithin expiringUser (.appPassword inheritingPassword)
        fun p => token.hasPermission p = true := by
  obtain ⟨token, htoken⟩ : ∃ token, expiringToken 10 = .ok token := ⟨_, rfl⟩
  refine ⟨token, issues_expiringToken htoken rfl, ?_, ?_⟩
  · obtain rfl := ok.inj htoken
    decide +kernel
  · intro hadds
    have himpersonate : token.hasPermission .impersonate = true :=
      hadds.of_mem_scope rfl (by decide) (by decide +kernel)
    obtain rfl := ok.inj htoken
    exact absurd himpersonate (by decide +kernel)

end Inworkspace
