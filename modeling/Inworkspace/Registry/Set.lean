import Inworkspace.Auth.RoleChange
import Inworkspace.Registry.Principal

/-!
# Creating and updating accounts and roles

`jmap::registry::set` for accounts and roles: a client creates or changes one,
it is validated against the permissions of the client's access token, and
stored. A change should not give any account a permission that the token does
not have (`NoEscalation`).

The validation looks at the changed object only. For a role these are its own
permissions, although an account also gains what the roles it refers to enable,
and what it no longer disables; for an account the check is made with the roles
of an administrator for the tenant of the token, and not at all if only its
tenant has changed.

* `noEscalation_of_harmless`: an accepted change of an account gives nobody
  more than the token has if the account was checked for what its token is built
  from, or nothing it is built from has changed. That of a role is safe exactly
  when the role, with the roles it leads to, disables all it disabled before and
  grants nothing new beyond the permissions of the token;
* `nested_role_escalates`: an accepted change of a role that is not safe.
-/

namespace Inworkspace

open Lib.Loop Lib.KeyedList Server PermissionsGroup Option Except List

/-! ## The registry -/

/-- The registry, as far as accounts, roles and tenants are concerned. -/
structure Registry where
  server : Server
  accounts : List (ℕ × Account)

/-- A reference of an object to another one. -/
inductive ForeignKey where
  | role (id : ℕ)
  | tenant (id : ℕ)
  deriving DecidableEq

/-- The roles that are named. -/
def UserRoles.roleIds : UserRoles → List ℕ
  | .user | .admin => []
  | .custom roleIds => roleIds

/-- The roles and the tenant an account refers to. -/
def Account.foreignKeys : Account → List ForeignKey
  | .user account =>
    account.memberTenantId.toList.map .tenant ++ account.roles.roleIds.map .role
  | .group account =>
    account.memberTenantId.toList.map .tenant ++ (account.roles.roleIds.getD []).map .role

/-- The roles and the tenant a role refers to. -/
def Role.foreignKeys (role : Role) : List ForeignKey :=
  role.memberTenantId.toList.map .tenant ++ role.roleIds.map .role

/-- `set_member_tenant_id` on a new object, if the token has a tenant. -/
def Account.withTenant (token : AccessToken) : Account → Account
  | .user account =>
    .user { account with memberTenantId := token.tenantId <|> account.memberTenantId }
  | .group account =>
    .group { account with memberTenantId := token.tenantId <|> account.memberTenantId }

/-- A change a client asks for. A new object is given the next free id. -/
inductive Change where
  | createAccount (id : ℕ) (account : Account)
  | updateAccount (id : ℕ) (account : Account)
  | createRole (id : ℕ) (role : Role)
  | updateRole (id : ℕ) (role : Role)

namespace Registry

/-- The object a key refers to exists, and a role is of the tenant of the referring object, if
    any. -/
def keyExists (s : Server) (tenantId : Option ℕ) : ForeignKey → Bool
  | .tenant id => (s.tenants.lookup id).isSome
  | .role id => (s.roles.lookup id).any fun role =>
      tenantId.isNone || role.memberTenantId == tenantId

/-- The check of the references that an object did not have before. -/
def checkForeignKeys (s : Server) (tenantId : Option ℕ) (keys oldKeys : List ForeignKey) :
    Except RegistryError Unit :=
  if (keys.filter (· ∉ oldKeys)).all (keyExists s tenantId) then .ok ()
  else .error (.set ⟨.invalidForeignKey, none, ""⟩)

/-- A token with a tenant is confined to the objects of the tenant. -/
def checkTenant (token : AccessToken) (old new : Option ℕ) : Except RegistryError Unit :=
  if token.tenantId.isSome ∧ token.tenantId ≠ old then .error (.set ⟨.notFound, none, ""⟩)
  else if token.tenantId.isSome ∧ new ≠ old then
    .error (.set ⟨.invalidPatch, some .memberTenantId, "Cannot modify memberTenantId property"⟩)
  else .ok ()

/-- An id that is in use is not assigned. -/
def checkFresh {α : Type} (objects : List (ℕ × α)) (id : ℕ) : Except RegistryError Unit :=
  if (objects.lookup id).isSome then .error (.set ⟨.notFound, none, ""⟩) else .ok ()

/-- The object with the given id. -/
def find {α : Type} (objects : List (ℕ × α)) (id : ℕ) : Except RegistryError α :=
  match objects.lookup id with
  | some object => .ok object
  | none => .error (.set ⟨.notFound, none, ""⟩)

/-- The part of `registry_set` that creates and updates accounts and roles. -/
def set (reg : Registry) (ctx : ValidationContext) : Change → Except RegistryError Registry
  | .createAccount id account => do
    checkFresh reg.accounts id
    let account ← ctx.validateAccount reg.server (account.withTenant ctx.accessToken) none
    checkForeignKeys reg.server account.memberTenantId account.foreignKeys []
    .ok { reg with accounts := upsert reg.accounts id account }
  | .updateAccount id account => do
    let old ← find reg.accounts id
    checkTenant ctx.accessToken old.memberTenantId account.memberTenantId
    let account ← ctx.validateAccount reg.server account (some old)
    checkForeignKeys reg.server account.memberTenantId account.foreignKeys old.foreignKeys
    .ok { reg with accounts := upsert reg.accounts id account }
  | .createRole id role => do
    checkFresh reg.server.roles id
    let role := { role with memberTenantId := ctx.accessToken.tenantId <|> role.memberTenantId }
    ctx.validateRole role none
    checkForeignKeys reg.server role.memberTenantId role.foreignKeys []
    .ok { reg with server := reg.server.withRole id role }
  | .updateRole id role => do
    let old ← find reg.server.roles id
    checkTenant ctx.accessToken old.memberTenantId role.memberTenantId
    ctx.validateRole role (some old)
    checkForeignKeys reg.server role.memberTenantId role.foreignKeys old.foreignKeys
    .ok { reg with server := reg.server.withRole id role }

/-- The ids are those of existing roles. -/
def RolesFound (s : Server) (roleIds : List ℕ) : Prop :=
  ∀ id ∈ roleIds, ∃ role, s.roles.lookup (documentId id) = some role

/-- The references of the registry are valid, as is checked when an object is stored or deleted. -/
structure WellFormed (reg : Registry) : Prop where
  role_lt : ∀ e ∈ reg.server.roles, e.1 < 2 ^ 32
  roles : ∀ e ∈ reg.server.roles, RolesFound reg.server e.2.roleIds
  tenants : ∀ e ∈ reg.server.tenants, RolesFound reg.server (reg.server.tenantRoleIds e.2)
  account_roles : ∀ e ∈ reg.accounts, ∀ tenantId,
    RolesFound reg.server (reg.server.roleIds tenantId e.2.access.2)
  account_tenants : ∀ e ∈ reg.accounts, ∀ id ∈ e.2.memberTenantId,
    ∃ tenant, reg.server.tenants.lookup (documentId id) = some tenant

variable {reg : Registry} {roleIds : List ℕ}

/-- All roles that are reachable exist. -/
theorem WellFormed.rolesExist (h : reg.WellFormed) (hroles : RolesFound reg.server roleIds) :
    reg.server.RolesExist (roleIds.map documentId) := by
  have hfound : ∀ ids, RolesFound reg.server ids → ∀ id ∈ ids.map documentId,
      ∃ r, reg.server.role id = some r := by
    intro ids hids id hid
    obtain ⟨fullId, hmem, rfl⟩ := mem_map.mp hid
    obtain ⟨role, hrole⟩ := hids fullId hmem
    exact ⟨_, map_eq_some_iff.mpr ⟨role, hrole, rfl⟩⟩
  intro id hid
  refine hid.induction (P := fun id => ∃ r, reg.server.role id = some r)
    (fun r hr => hfound _ hroles r hr) fun a b _ hb a' ha' => ?_
  obtain ⟨role, hrole, rfl⟩ := map_eq_some_iff.mp hb
  exact hfound _ (h.roles _ (mem_of_lookup hrole)) a' ha'

theorem WellFormed.rolesExist_ownAndRoles (h : reg.WellFormed)
    (hroles : RolesFound reg.server roleIds) (permissions : Structs.Permissions) :
    reg.server.RolesExist (permissions.ownAndRoles roleIds).2 := by
  cases permissions with
  | inherit | merge => exact h.rolesExist hroles
  | replace => exact fun _ hid => absurd hid not_roleReachable_nil

variable {account : Account} {s : Server} {role : Role} {p : Permission} {token : AccessToken}

/-- The permissions of every account can be computed. -/
theorem WellFormed.exists_accountPermissions (h : reg.WellFormed) {id : ℕ}
    (haccount : reg.accounts.lookup id = some account) :
    ∃ g, reg.server.accountPermissions account = .ok g := by
  have hmem := mem_of_lookup haccount
  rw [accountPermissions_eq]
  refine DependenciesExist.exists_effectivePermissions ⟨?_, fun tenantId htenant => ?_⟩
  · exact h.rolesExist_ownAndRoles (h.account_roles _ hmem _) _
  · obtain ⟨id, hid, rfl⟩ := map_eq_some_iff.mp htenant
    obtain ⟨tenant, htenant⟩ := h.account_tenants _ hmem id hid
    exact ⟨tenant, htenant, h.rolesExist_ownAndRoles (h.tenants _ (mem_of_lookup htenant)) _⟩

/-! ## What an accepted change does -/

variable {ctx : ValidationContext} {new : Registry} {id : ℕ}

theorem checkFresh_ok {α : Type} {objects : List (ℕ × α)} {u : Unit}
    (h : checkFresh objects id = .ok u) : objects.lookup id = none := by
  rw [checkFresh] at h
  split at h
  · cases h
  · rename_i hnone
    exact not_isSome_iff_eq_none.mp hnone

theorem find_ok {α : Type} {objects : List (ℕ × α)} {object : α}
    (h : find objects id = .ok object) : objects.lookup id = some object := by
  rw [find] at h
  split at h
  · rename_i hsome
    rw [hsome, ok.inj h]
  · cases h

/-- The roles a stored role refers to are old ones or exist. -/
theorem checkForeignKeys_ok {old : Role} {u : Unit}
    (h : checkForeignKeys s role.memberTenantId role.foreignKeys old.foreignKeys = .ok u) :
    ∀ k ∈ role.roleIds, k ∈ old.roleIds ∨ ∃ r, s.roles.lookup k = some r := by
  intro k hk
  rw [checkForeignKeys] at h
  split at h
  · rename_i hall
    by_cases hold : k ∈ old.roleIds
    · exact .inl hold
    have hexists := all_eq_true.mp hall (.role k) (mem_filter.mpr ⟨by simp [Role.foreignKeys, hk],
        by simp [Role.foreignKeys, hold]⟩)
    rw [keyExists, Option.any_eq_true] at hexists
    obtain ⟨r, hr, -⟩ := hexists
    exact .inr ⟨r, hr⟩
  · cases h

theorem set_createAccount (h : reg.set ctx (.createAccount id account) = .ok new) :
    reg.accounts.lookup id = none ∧
      ∃ stored, ctx.validateAccount reg.server (account.withTenant ctx.accessToken) none =
        .ok stored ∧ new = { reg with accounts := upsert reg.accounts id stored } := by
  obtain ⟨_, hfresh, h⟩ := bind_eq_ok_iff.mp h
  obtain ⟨stored, hstored, h⟩ := bind_eq_ok_iff.mp h
  obtain ⟨_, -, h⟩ := bind_eq_ok_iff.mp h
  exact ⟨checkFresh_ok hfresh, stored, hstored, (ok.inj h).symm⟩

theorem set_updateAccount (h : reg.set ctx (.updateAccount id account) = .ok new) :
    ∃ old stored, reg.accounts.lookup id = some old ∧
      ctx.validateAccount reg.server account (some old) = .ok stored ∧
      new = { reg with accounts := upsert reg.accounts id stored } := by
  obtain ⟨old, hold, h⟩ := bind_eq_ok_iff.mp h
  obtain ⟨_, -, h⟩ := bind_eq_ok_iff.mp h
  obtain ⟨stored, hstored, h⟩ := bind_eq_ok_iff.mp h
  obtain ⟨_, -, h⟩ := bind_eq_ok_iff.mp h
  exact ⟨old, stored, find_ok hold, hstored, (ok.inj h).symm⟩

theorem set_updateRole (h : reg.set ctx (.updateRole id role) = .ok new) :
    (∃ old, reg.server.roles.lookup id = some old ∧
        ∀ k ∈ role.roleIds, k ∈ old.roleIds ∨ ∃ r, reg.server.roles.lookup k = some r) ∧
      new = { reg with server := reg.server.withRole id role } := by
  obtain ⟨old, hold, h⟩ := bind_eq_ok_iff.mp h
  obtain ⟨_, -, h⟩ := bind_eq_ok_iff.mp h
  obtain ⟨_, -, h⟩ := bind_eq_ok_iff.mp h
  obtain ⟨_, hkeys, h⟩ := bind_eq_ok_iff.mp h
  exact ⟨⟨old, find_ok hold, checkForeignKeys_ok hkeys⟩, (ok.inj h).symm⟩

/-! ## Safe changes -/

/-- The permissions that accounts have gained are permissions of the token. -/
def NoEscalation (token : AccessToken) (old new : Registry) : Prop :=
  ∀ id account, new.accounts.lookup id = some account → ∀ p, new.server.Holds account p →
    p ∉ token.permissionsBits →
      ∃ before, old.accounts.lookup id = some before ∧ old.server.Holds before p

/-- Whatever the accounts are, the change gives none a permission the token does not have. -/
def Safe (reg : Registry) (ctx : ValidationContext) (change : Change) : Prop :=
  ∀ accounts, ({ reg with accounts } : Registry).WellFormed →
    ∀ new, ({ reg with accounts } : Registry).set ctx change = .ok new →
      NoEscalation ctx.accessToken { reg with accounts } new

/-- The roles an account is checked with are those its token is built with. -/
def CheckedAsBuilt (token : AccessToken) (account : Account) : Prop :=
  account.access.2 = .inl .admin → (token.tenantId.isNone ↔ account.memberTenantId.isNone)

/-- What a change has to satisfy, beyond being accepted. A role, with those it leads to, disables
    what it disabled and grants nothing new, up to the permissions of the token; an account was
    checked for what its token is built from, or has its old permissions, roles and tenant. -/
def Harmless (reg : Registry) (ctx : ValidationContext) : Change → Prop
  | .createRole .. => True
  | .updateRole id role => ∀ p ∉ ctx.accessToken.permissionsBits,
      (reg.server.RoleDisables id p → (reg.server.withRole id role).RoleDisables id p) ∧
        ((reg.server.withRole id role).RoleGrants id p → reg.server.RoleGrants id p)
  | .createAccount _ account =>
      CheckedAsBuilt ctx.accessToken (account.withTenant ctx.accessToken)
  | .updateAccount id account => ∀ old, reg.accounts.lookup id = some old →
      if old.access = account.access then old.memberTenantId = account.memberTenantId
        else CheckedAsBuilt ctx.accessToken account

/-! ### Accounts -/

theorem holds_congr {account' : Account} (haccess : account.access = account'.access)
    (htenant : account.memberTenantId = account'.memberTenantId) :
    s.Holds account p ↔ s.Holds account' p := by
  rw [holds_iff, holds_iff, accountPermissions_eq, accountPermissions_eq, haccess, htenant]

/-- The roles are the same for the same kind of tenancy. -/
theorem CheckedAsBuilt.roleIds_eq (h : CheckedAsBuilt token account) (s : Server) :
    s.roleIds token.tenantId account.access.2 =
      s.roleIds (account.memberTenantId.map documentId) account.access.2 := by
  rcases hroles : account.access.2 with roles | roles
  · cases roles with
    | user | custom => rfl
    | admin =>
      have hnone : token.tenantId.isNone = (account.memberTenantId.map documentId).isNone := by
        rw [isNone_map]
        exact Bool.eq_iff_iff.mpr (h hroles)
      simp only [roleIds, userRoleIds, hnone]
  · rfl

/-- An account checked for what its token is built from holds what the client's token holds. -/
theorem CheckedAsBuilt.mem_permissionsBits (h : CheckedAsBuilt token account)
    (hset : s.canSetPermissions token account = .ok (.ok ())) (hp : s.Holds account p) :
    p ∈ token.permissionsBits := by
  obtain ⟨g, hg, hp⟩ := holds_iff.mp hp
  rw [accountPermissions_eq, ← h.roleIds_eq s] at hg
  rw [canSetPermissions, hg] at hset
  exact AccessToken.mem_permissionsBits_of_canGrant (ok.inj hset) hp

/-- A change of an account concerns no other account. -/
theorem noEscalation_upsert {stored : Account}
    (h : ∀ p, reg.server.Holds stored p → p ∉ token.permissionsBits →
      ∃ before, reg.accounts.lookup id = some before ∧ reg.server.Holds before p) :
    NoEscalation token reg { reg with accounts := upsert reg.accounts id stored } := by
  intro id' account haccount p hp hnot
  by_cases hid : id' = id
  · subst hid
    obtain rfl : stored = account := by simpa only [lookup_upsert_self, some.injEq] using haccount
    exact h p hp hnot
  · simp only [lookup_upsert_of_ne _ _ hid] at haccount
    exact ⟨account, haccount, hp⟩

theorem noEscalation_createAccount (h : reg.set ctx (.createAccount id account) = .ok new)
    (hharm : reg.Harmless ctx (.createAccount id account)) :
    NoEscalation ctx.accessToken reg new := by
  obtain ⟨-, stored, hstored, rfl⟩ := set_createAccount h
  obtain ⟨haccess, htenant, hcheck⟩ := ctx.validateAccount_ok hstored
  refine noEscalation_upsert fun p hp hnot => ?_
  have hbuilt : CheckedAsBuilt ctx.accessToken stored := by
    rwa [CheckedAsBuilt, haccess, htenant]
  exact absurd (hbuilt.mem_permissionsBits (hcheck nofun) hp) hnot

/-- An account that is changed harmlessly gains nothing that the token does not have. -/
theorem noEscalation_updateAccount (h : reg.set ctx (.updateAccount id account) = .ok new)
    (hharm : reg.Harmless ctx (.updateAccount id account)) :
    NoEscalation ctx.accessToken reg new := by
  obtain ⟨old, stored, hold, hstored, rfl⟩ := set_updateAccount h
  obtain ⟨haccess, htenant, hcheck⟩ := ctx.validateAccount_ok hstored
  refine noEscalation_upsert fun p hp hnot => ?_
  have hharm := hharm old hold
  split at hharm
  · -- not checked again, but its token is built from the same
    rename_i hsame
    exact ⟨old, hold, (holds_congr (hsame.trans haccess.symm) (hharm.trans htenant.symm)).mpr hp⟩
  · rename_i hchanged
    have hbuilt : CheckedAsBuilt ctx.accessToken stored := by
      rwa [CheckedAsBuilt, haccess, htenant]
    refine absurd (hbuilt.mem_permissionsBits (hcheck ?_) hp) hnot
    exact fun heq => hchanged (some.inj heq)

/-! ### Roles -/

/-- If nothing new is granted through a role, its change gives no account a new permission. -/
theorem noEscalation_withRole (hreg : reg.WellFormed) {token : AccessToken}
    (hsub : ∀ p ∉ token.permissionsBits, ∀ gr, reg.server.RolesExist gr.2 →
      (reg.server.withRole id role).GrantsBy gr p → reg.server.GrantsBy gr p) :
    NoEscalation token reg { reg with server := reg.server.withRole id role } := by
  intro accountId account haccount p hp hnot
  obtain ⟨g', hg', hp⟩ := holds_iff.mp hp
  obtain ⟨g, hg⟩ := hreg.exists_accountPermissions haccount
  refine ⟨account, haccount, holds_iff.mpr ⟨g, hg, ?_⟩⟩
  rw [accountPermissions_eq] at hg hg'
  exact mem_effectivePermissions_of_withRole (hsub p hnot) hg hg' hp

/-- A user with the given role, who has the given permissions beside. -/
def userWithRole (roleId : ℕ) (enabled : List Permission) : Account :=
  .user
    { name := "user"
      domainId := 1
      credentials := []
      memberGroupIds := []
      memberTenantId := none
      roles := .custom [roleId]
      permissions := .merge ⟨enabled, []⟩
      aliases := [] }

/-- What such a user holds. -/
theorem holds_userWithRole (hid : id < 2 ^ 32) (hroles : s.RolesExist [id])
    {enabled : List Permission} :
    s.Holds (userWithRole id enabled) p ↔
      s.GrantsBy (ofList ⟨enabled, []⟩, [id]) p := by
  have heq : s.accountPermissions (userWithRole id enabled) =
      s.withRoles (ofList ⟨enabled, []⟩, [id]) := by
    have hown : (Structs.Permissions.merge ⟨enabled, []⟩).ownAndRoles [id] =
        (ofList ⟨enabled, []⟩, [id]) := by
      rw [Structs.Permissions.ownAndRoles, map_singleton, documentId_of_lt hid]
    change (s.withRoles ((Structs.Permissions.merge ⟨enabled, []⟩).ownAndRoles [id]) >>= .ok) = _
    rw [hown]
    cases s.withRoles _ <;> rfl
  rw [holds_iff, heq]
  constructor
  · rintro ⟨g, hg, hp⟩
    exact (mem_finalize_of_withRoles hg).mp hp
  · intro hp
    have hroles' : s.RolesExist (ofList ⟨enabled, []⟩, [id]).2 := hroles
    obtain ⟨g, hg⟩ := exists_withRoles_iff.mpr hroles'
    exact ⟨g, hg, (mem_finalize_of_withRoles hg).mpr hp⟩

section UpdateRole

variable (h : reg.set ctx (.updateRole id role) = .ok new)

include h

/-- The roles that a stored role leads to exist. -/
theorem rolesExist_withRole (hreg : reg.WellFormed) :
    (reg.server.withRole id role).RolesExist [id] := by
  obtain ⟨⟨old, hold, hkeys⟩, -⟩ := set_updateRole h
  -- a role that exists before the change exists after it
  have hkeep : ∀ k, (∃ r, reg.server.roles.lookup k = some r) →
      ∃ r, (reg.server.withRole id role).role k = some r := by
    rintro k ⟨r, hr⟩
    by_cases hk : k = id
    · exact ⟨_, by rw [hk, Server.role_withRole_self]⟩
    · exact ⟨_, by rw [Server.role_withRole_of_ne hk, Server.role, hr, map_some]⟩
  intro x hx
  refine hx.induction (P := fun x => ∃ r, (reg.server.withRole id role).role x = some r)
    (fun r hr => ?_) fun a b _ hb a' ha' => ?_
  · obtain rfl := mem_singleton.mp hr
    exact ⟨_, role_withRole_self⟩
  · by_cases ha : a = id
    · obtain rfl := ha
      obtain rfl := some.inj (role_withRole_self.symm.trans hb)
      obtain ⟨k, hk, rfl⟩ := mem_map.mp ha'
      rcases hkeys k hk with hk | ⟨r, hr⟩
      · exact hkeep _ (hreg.roles _ (mem_of_lookup hold) k hk)
      · rw [documentId_of_lt (hreg.role_lt _ (mem_of_lookup hr))]
        exact hkeep k ⟨r, hr⟩
    · rw [role_withRole_of_ne ha] at hb
      obtain ⟨r, hr, rfl⟩ := map_eq_some_iff.mp hb
      obtain ⟨k, hk, rfl⟩ := mem_map.mp ha'
      exact hkeep _ (hreg.roles _ (mem_of_lookup hr) k hk)

/-- Whether the change of a role is accepted does not depend on the accounts. -/
theorem set_updateRole_accounts (accounts : List (ℕ × Account)) :
    ({ reg with accounts } : Registry).set ctx (.updateRole id role) =
      .ok { new with accounts } := by
  obtain ⟨old, hold, h⟩ := bind_eq_ok_iff.mp h
  obtain ⟨_, htenant, h⟩ := bind_eq_ok_iff.mp h
  obtain ⟨_, hrole, h⟩ := bind_eq_ok_iff.mp h
  obtain ⟨_, hkeys, h⟩ := bind_eq_ok_iff.mp h
  obtain rfl := ok.inj h
  refine bind_eq_ok_iff.mpr ⟨old, hold, bind_eq_ok_iff.mpr ⟨_, htenant, ?_⟩⟩
  exact bind_eq_ok_iff.mpr ⟨_, hrole, bind_eq_ok_iff.mpr ⟨_, hkeys, rfl⟩⟩

/-- If a change of a role is safe, then a user with that role gains nothing. -/
theorem Safe.grantsBy (hreg : reg.WellFormed) (hsafe : reg.Safe ctx (.updateRole id role))
    {p : Permission} (hp : p ∉ ctx.accessToken.permissionsBits) (enabled : List Permission)
    (hgrants : (reg.server.withRole id role).GrantsBy (ofList ⟨enabled, []⟩, [id]) p) :
    reg.server.GrantsBy (ofList ⟨enabled, []⟩, [id]) p := by
  obtain ⟨⟨old, hold, -⟩, rfl⟩ := set_updateRole h
  have hid := hreg.role_lt _ (mem_of_lookup hold)
  have hfound : RolesFound reg.server [id] := by
    intro k hk
    obtain rfl := mem_singleton.mp hk
    exact ⟨old, by rwa [documentId_of_lt hid]⟩
  have hexist : reg.server.RolesExist [id] := by
    have := hreg.rolesExist hfound
    rwa [map_singleton, documentId_of_lt hid] at this
  -- safe means for all accounts, so also for one with this role alone
  let accounts := [(0, userWithRole id enabled)]
  have hwf : ({ reg with accounts } : Registry).WellFormed := by
    refine ⟨hreg.role_lt, hreg.roles, hreg.tenants, fun e he _ => ?_, fun e he => ?_⟩
    · obtain rfl := mem_singleton.mp he
      exact hfound
    · obtain rfl := mem_singleton.mp he
      exact nofun
  have hno := hsafe accounts hwf _ (set_updateRole_accounts h accounts)
  obtain ⟨before, hbefore, hholds⟩ := hno 0 (userWithRole id enabled) rfl p
    ((holds_userWithRole hid (rolesExist_withRole h hreg)).mpr hgrants) hp
  obtain rfl : userWithRole id enabled = before := some.inj hbefore
  exact (holds_userWithRole hid hexist).mp hholds

/-- For a role nothing less is enough. -/
theorem safe_updateRole_iff (hreg : reg.WellFormed) :
    reg.Safe ctx (.updateRole id role) ↔ reg.Harmless ctx (.updateRole id role) := by
  constructor
  · intro hsafe p hp
    constructor
    · -- a user who has the permission already is only kept from it by the role
      intro hdis
      by_contra hdis'
      have hgrants := hsafe.grantsBy h hreg hp [p]
        ⟨.inl (by simp), by simpa [RoleDisables] using hdis'⟩
      exact hgrants.2 (.inr hdis)
    · -- a user who has nothing else gains what the role grants
      intro hgrant
      have hgrants := hsafe.grantsBy h hreg hp []
        ⟨.inr hgrant.1, by simpa [RoleDisables] using hgrant.2⟩
      simpa [GrantsBy, RoleGrants, RoleDisables] using hgrants
  · intro hharm accounts hwf new hnew
    obtain ⟨-, rfl⟩ := set_updateRole hnew
    refine noEscalation_withRole hwf fun p hp gr _ hgrants => ?_
    exact grantsBy_of_withRole (hharm p hp).1 (hharm p hp).2 hgrants

end UpdateRole

theorem noEscalation_createRole (hreg : reg.WellFormed)
    (h : reg.set ctx (.createRole id role) = .ok new) : NoEscalation ctx.accessToken reg new := by
  obtain ⟨_, hfresh, h⟩ := bind_eq_ok_iff.mp h
  obtain ⟨_, -, h⟩ := bind_eq_ok_iff.mp h
  obtain ⟨_, -, h⟩ := bind_eq_ok_iff.mp h
  obtain rfl := ok.inj h
  have hnone : reg.server.role id = none := by
    rw [Server.role, checkFresh_ok hfresh, map_none]
  exact noEscalation_withRole hreg fun p _ gr hgr hgrants =>
    grantsBy_of_withRole_new hnone hgr hgrants

/-- An accepted change that is harmless gives nobody a permission that the token does not have. For
    a change of a role this is what it takes, whatever the accounts are. -/
theorem noEscalation_of_harmless (hreg : reg.WellFormed) {change : Change}
    (h : reg.set ctx change = .ok new) :
    (reg.Harmless ctx change → NoEscalation ctx.accessToken reg new) ∧
      ∀ id role, change = .updateRole id role →
        (reg.Safe ctx change ↔ reg.Harmless ctx change) := by
  cases change with
  | createAccount id account => exact ⟨noEscalation_createAccount h, by rintro _ _ ⟨⟩⟩
  | updateAccount id account => exact ⟨noEscalation_updateAccount h, by rintro _ _ ⟨⟩⟩
  | createRole id role => exact ⟨fun _ => noEscalation_createRole hreg h, by rintro _ _ ⟨⟩⟩
  | updateRole id role =>
    have hiff := safe_updateRole_iff h hreg
    exact ⟨fun hharm => hiff.mpr hharm reg.accounts hreg new h, fun _ _ _ => hiff⟩

/-! ## A role that is nested -/

/-- A role without permissions, one that may impersonate, and a user with the first. -/
def twoRoles : Registry where
  server :=
    { roles := [(1, ⟨none, [], [], []⟩), (2, ⟨none, [], [.impersonate], []⟩)]
      tenants := []
      security := ⟨[], [], [], []⟩
      isEnterpriseEdition := true
      userPermissions := {} }
  accounts := [(5, userWithRole 1 [])]

/-- A client that can only send mail. -/
def mailClient : ValidationContext where
  accessToken :=
    { scopeIdx := 0
      inner :=
        { accountId := 7
          tenantId := none
          memberOf := []
          scopes := [.new (Permissions.fromPermission [.emailSend]) u32Max]
          revisionAccount := 0
          revision := 0
          credentialVersion := 0 } }
  now := 0
  isPasswordHash _ := true
  hashSecret secret := secret
  isSecurePassword _ := .ok ()
  passwordDefaultExpiration := none
  isExternalDirectory _ := false
  canCreateAccount := true
  licensedAccounts := 10
  validateAccountQuota := .ok ()
  validateGroupQuota := .ok ()
  validateRoleQuota := .ok ()
  permissionName p := toString p.id

theorem wellFormed_twoRoles : twoRoles.WellFormed := by
  refine ⟨by decide, ?_, nofun, ?_, ?_⟩
  · intro e he k hk
    simp [twoRoles] at he
    rcases he with rfl | rfl <;> cases hk
  · intro e he tenantId k hk
    obtain rfl := mem_singleton.mp he
    obtain rfl := mem_singleton.mp hk
    exact ⟨_, rfl⟩
  · intro e he
    obtain rfl := mem_singleton.mp he
    exact nofun

/-- A client that can send mail can create a user who can do just that. -/
theorem noEscalation_mail :
    ∃ new, twoRoles.set mailClient (.createAccount 6 (userWithRole 1 [.emailSend])) = .ok new ∧
      NoEscalation mailClient.accessToken twoRoles new := by
  have haccepted :
      (twoRoles.set mailClient (.createAccount 6 (userWithRole 1 [.emailSend]))).isOk = true := by
    decide +kernel
  obtain ⟨new, hnew⟩ := exists_eq_ok_of_isOk haccepted
  exact ⟨new, hnew, (noEscalation_of_harmless wellFormed_twoRoles hnew).1 nofun⟩

/-- The client lets the first role refer to the second. This is accepted, since the role itself
    enables nothing, and the user can now impersonate others. -/
theorem nested_role_escalates : twoRoles.WellFormed ∧
    ∃ new, twoRoles.set mailClient (.updateRole 1 ⟨none, [2], [], []⟩) = .ok new ∧
      ¬ NoEscalation mailClient.accessToken twoRoles new := by
  have haccepted : (twoRoles.set mailClient (.updateRole 1 ⟨none, [2], [], []⟩)).isOk = true := by
    decide +kernel
  obtain ⟨new, hnew⟩ := exists_eq_ok_of_isOk haccepted
  refine ⟨wellFormed_twoRoles, new, hnew, fun h => ?_⟩
  obtain ⟨-, rfl⟩ := set_updateRole hnew
  have hafter : (twoRoles.server.withRole 1 ⟨none, [2], [], []⟩).Holds (userWithRole 1 [])
      .impersonate :=
    holds_iff.mpr ⟨_, rfl, by decide +kernel⟩
  obtain ⟨before, hbefore, hholds⟩ := h 5 _ rfl .impersonate hafter (by decide +kernel)
  obtain rfl : userWithRole 1 [] = before := some.inj hbefore
  obtain ⟨g, hg, hp⟩ := holds_iff.mp hholds
  obtain rfl := ok.inj (hg.symm.trans (show _ = ok _ from rfl))
  revert hp
  decide +kernel

end Registry

end Inworkspace
