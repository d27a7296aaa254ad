import Inworkspace.Lib.KeyedList
import Inworkspace.Lib.Loop
import Inworkspace.Lib.Worklist
import Inworkspace.Registry.Structs

/-!
# Effective permissions

`common::auth::permissions`: the permissions of an account are its own and, unless it replaces them,
those of its roles, of the roles these refer to, and so on; a tenant restricts its accounts to its
own permissions, computed in the same way. Roles may refer to each other in cycles: they are
collected by a worklist (`Lib.Worklist`).

* `exists_effectivePermissions_iff`: the computation succeeds exactly when all roles and the tenant
  it needs exist;
* `effectivePermissions_spec`: a permission is granted when it is enabled, and not disabled, for the
  account and for its tenant. An account (or a tenant) that replaces its permissions does not
  consult its roles, neither for what they enable nor for what they disable.
-/

namespace Inworkspace

open Lib.Worklist List PermissionsGroup Permissions Structs.Permissions

/-! ## The server -/

/-- The events of the errors of the server, `trc`. -/
inductive TrcEvent where
  | authError
  | authFailed
  | authMfaRequired
  | authTokenExpired
  | authCredentialExpired
  | authTooManyAttempts
  | securityUnauthorized
  | securityIpUnauthorized
  | securityAuthenticationBan
  | limitConcurrentRequest
  | limitTooManyRequests
  | networkWriteError
  | storeUnexpectedError
  | imapError
  | jmapForbidden
  | pop3Error
  deriving DecidableEq

/-- An error, with the text it carries as details or reason. -/
structure TrcError where
  event : TrcEvent
  details : String := ""
  deriving DecidableEq

/-- `must_disconnect`: the client is disconnected after the error. -/
def TrcError.mustDisconnect (self : TrcError) : Bool :=
  match self.event with
  | .networkWriteError | .authTooManyAttempts | .limitConcurrentRequest | .limitTooManyRequests
  | .securityUnauthorized | .securityIpUnauthorized | .securityAuthenticationBan => true
  | _ => false

/-- `should_write_err`: the client is told of the error. -/
def TrcError.shouldWriteErr (self : TrcError) : Bool :=
  match self.event with
  | .networkWriteError | .securityUnauthorized | .securityIpUnauthorized
  | .securityAuthenticationBan => false
  | _ => true

structure RoleCache where
  idRoles : List ℕ
  permissions : PermissionsGroup
  deriving DecidableEq

structure TenantCache where
  idRoles : List ℕ
  permissions : Option PermissionsGroup
  deriving DecidableEq

/-- The default roles, `core.network.security`. -/
structure Security where
  defaultRoleIdsUser : List ℕ
  defaultRoleIdsGroup : List ℕ
  defaultRoleIdsTenant : List ℕ
  defaultRoleIdsAdmin : List ℕ

/-- What permissions depend on: the roles and tenants by their ids, and the configuration. -/
structure Server where
  roles : List (ℕ × Role)
  tenants : List (ℕ × Tenant)
  security : Security
  isEnterpriseEdition : Bool
  /-- `PermissionsGroup::user()`, the permissions every user has by default. -/
  userPermissions : PermissionsGroup

namespace PermissionsGroup

/-- `From<&PermissionsList> for PermissionsGroup`. -/
def ofList (value : PermissionsList) : PermissionsGroup where
  enabled := fromPermission value.enabledPermissions
  disabled := fromPermission value.disabledPermissions
  merge := false

def withMerge (self : PermissionsGroup) (merge : Bool) : PermissionsGroup := { self with merge }

variable {value : PermissionsList} {p : Permission} {role : Role}

@[simp]
theorem mem_ofList_enabled :
    p ∈ (ofList value).enabled ↔ p ∈ value.enabledPermissions :=
  mem_fromPermission

@[simp]
theorem mem_ofList_disabled :
    p ∈ (ofList value).disabled ↔ p ∈ value.disabledPermissions :=
  mem_fromPermission

end PermissionsGroup

/-- The cached form of a role. -/
def RoleCache.ofRole (role : Role) : RoleCache where
  idRoles := role.roleIds.map documentId
  permissions :=
    { enabled := fromPermission role.enabledPermissions
      disabled := fromPermission role.disabledPermissions
      merge := false }

@[simp]
theorem RoleCache.mem_ofRole_enabled {p : Permission} :
    p ∈ (ofRole role).permissions.enabled ↔ p ∈ role.enabledPermissions :=
  mem_fromPermission

@[simp]
theorem RoleCache.mem_ofRole_disabled {p : Permission} :
    p ∈ (ofRole role).permissions.disabled ↔ p ∈ role.disabledPermissions :=
  mem_fromPermission

/-- The permissions of an account itself and the roles to add to them. -/
def Structs.Permissions.ownAndRoles (roleIds : List ℕ) :
    Structs.Permissions → PermissionsGroup × List ℕ
  | .inherit => ({}, roleIds.map documentId)
  | .merge permissions => (ofList permissions, roleIds.map documentId)
  -- the roles are left out, not only overridden
  | .replace permissions => (ofList permissions, [])

/-- The permissions of a tenant itself and the roles to add to them. -/
def TenantCache.ownAndRoles (tenant : TenantCache) : PermissionsGroup × List ℕ :=
  match tenant.permissions with
  | some permissions =>
    if permissions.merge then (permissions, tenant.idRoles) else (permissions, [])
  | none => ({}, tenant.idRoles)

namespace Server

variable (s : Server)

/-- `Server::role`, `none` standing for the error `Role not found.` -/
def role (id : ℕ) : Option RoleCache :=
  (s.roles.lookup id).map RoleCache.ofRole

def tenant (id : ℕ) : Except TrcError TenantCache :=
  match s.tenants.lookup id with
  | none => .error ⟨.authError, "Tenant not found."⟩
  | some tenant => .ok
      { idRoles :=
          (tenant.roles.roleIds.getD s.security.defaultRoleIdsTenant).map documentId
        permissions :=
          match tenant.permissions with
          | .inherit => none
          | .merge permissions => some ((ofList permissions).withMerge true)
          | .replace permissions => some ((ofList permissions).withMerge false) }

/-- The roles of the registry are the nodes of the role graph. -/
theorem mem_roles_of_role (id : ℕ) (r : RoleCache) (h : s.role id = some r) :
    id ∈ s.roles.map Prod.fst := by
  obtain ⟨role, hrole, -⟩ := Option.map_eq_some_iff.mp h
  exact mem_map.mpr ⟨(id, role), Lib.KeyedList.mem_of_lookup hrole, rfl⟩

/-- The loop of `add_role_permissions`, which ends (`visit_bound_ne_none`). The last role is popped
    first. -/
def addRolePermissions (basePermissions : PermissionsGroup) (roles : List ℕ) :
    Except TrcError PermissionsGroup :=
  match visitAll s.role RoleCache.idRoles (fun g r => g.union r.permissions)
      (s.roles.map Prod.fst) s.mem_roles_of_role roles.reverse basePermissions with
  | .ok permissions => .ok permissions
  | .error _ => .error ⟨.authError, "Role not found."⟩

/-- The permissions with those of the roles, if there are any. -/
def withRoles (permissions : PermissionsGroup × List ℕ) : Except TrcError PermissionsGroup :=
  if !permissions.2.isEmpty then s.addRolePermissions permissions.1 permissions.2
  else .ok permissions.1

def effectivePermissions (permissions : Structs.Permissions) (roleIds : List ℕ)
    (tenantId : Option ℕ) : Except TrcError PermissionsGroup := do
  let permissions ← s.withRoles (permissions.ownAndRoles roleIds)
  match tenantId with
  | none => .ok permissions
  | some tenantId =>
    if s.isEnterpriseEdition then do
      let tenant ← s.tenant tenantId
      let tenantPermissions ← s.withRoles tenant.ownAndRoles
      .ok (permissions.restrict tenantPermissions)
    else .ok (permissions.restrict s.userPermissions)

/-! ## What the roles give -/

/-- The roles reachable from `roots`. -/
def RoleReachable (roots : List ℕ) (id : ℕ) : Prop :=
  Reachable s.role RoleCache.idRoles roots id

/-- Some role reachable from `roots` satisfies `P`. -/
def ByRole (roots : List ℕ) (P : RoleCache → Prop) : Prop :=
  ∃ id r, s.RoleReachable roots id ∧ s.role id = some r ∧ P r

/-- All roles reachable from `roots` exist. -/
def RolesExist (roots : List ℕ) : Prop :=
  ∀ id, s.RoleReachable roots id → ∃ r, s.role id = some r

variable {s} {p : Permission}

variable {id : ℕ} {g : PermissionsGroup} {gr : PermissionsGroup × List ℕ}
  {permissions : Structs.Permissions} {roleIds : List ℕ} {tenantId : Option ℕ}
  {base : PermissionsGroup}

theorem not_roleReachable_nil : ¬ s.RoleReachable [] id := fun ⟨_, hr, _⟩ => not_mem_nil hr

theorem roleReachable_reverse {roots : List ℕ} :
    s.RoleReachable roots.reverse id ↔ s.RoleReachable roots id :=
  exists_congr fun _ => and_congr_left' mem_reverse

/-- A fold of unions has the permissions of all its groups. -/
theorem mem_foldl_union (new : List (ℕ × RoleCache)) (base : PermissionsGroup) (p : Permission) :
    (p ∈ (new.foldl (fun g r => g.union r.2.permissions) base).enabled ↔
        p ∈ base.enabled ∨ ∃ r ∈ new, p ∈ r.2.permissions.enabled) ∧
      (p ∈ (new.foldl (fun g r => g.union r.2.permissions) base).disabled ↔
        p ∈ base.disabled ∨ ∃ r ∈ new, p ∈ r.2.permissions.disabled) := by
  induction new generalizing base with
  | nil => simp
  | cons r new ih =>
    rw [foldl_cons, (ih (base.union r.2.permissions)).1, (ih _).2]
    simp [union, or_assoc]

/-- `add_role_permissions` adds what the reachable roles enable and disable. -/
theorem addRolePermissions_ok {roles : List ℕ} (h : s.addRolePermissions base roles = .ok g)
    (p : Permission) :
    (p ∈ g.enabled ↔ p ∈ base.enabled ∨ s.ByRole roles (p ∈ ·.permissions.enabled)) ∧
      (p ∈ g.disabled ↔ p ∈ base.disabled ∨ s.ByRole roles (p ∈ ·.permissions.disabled)) := by
  rw [addRolePermissions] at h
  split at h
  · rename_i g' hvisit
    obtain ⟨new, hacc, hnode, hreach⟩ := visitAll_ok hvisit
    -- the loop has taken up what is reachable, and nothing else
    have hmem : ∀ id r, (id, r) ∈ new ↔ s.RoleReachable roles id ∧ s.role id = some r := by
      intro id r
      rw [← roleReachable_reverse]
      refine ⟨fun h => ⟨(hreach id).mpr ⟨r, h⟩, hnode _ h⟩, fun ⟨hid, hr⟩ => ?_⟩
      obtain ⟨r', hr'⟩ := (hreach id).mp hid
      have : s.role id = some r' := hnode _ hr'
      rwa [Option.some.inj (hr.symm.trans this)]
    have hiff : ∀ P : RoleCache → Prop, (∃ r ∈ new, P r.2) ↔ s.ByRole roles P := fun P =>
      ⟨fun ⟨⟨id, r⟩, hr, hP⟩ => ⟨id, r, ((hmem id r).mp hr).1, ((hmem id r).mp hr).2, hP⟩,
        fun ⟨id, r, hid, hr, hP⟩ => ⟨(id, r), (hmem id r).mpr ⟨hid, hr⟩, hP⟩⟩
    obtain ⟨hen, hdis⟩ := mem_foldl_union new base p
    rw [← Except.ok.inj h, hacc, hen, hdis]
    exact ⟨or_congr_right (hiff (p ∈ ·.permissions.enabled)),
      or_congr_right (hiff (p ∈ ·.permissions.disabled))⟩
  · cases h

/-- `add_role_permissions` succeeds exactly when the reachable roles exist. -/
theorem exists_addRolePermissions_iff {roles : List ℕ} :
    (∃ g, s.addRolePermissions base roles = .ok g) ↔ s.RolesExist roles := by
  constructor
  · rintro ⟨g, h⟩ id hid
    rw [addRolePermissions] at h
    split at h
    · rename_i hvisit
      exact exists_visitAll_ok_iff.mp ⟨_, hvisit⟩ id (roleReachable_reverse.mpr hid)
    · cases h
  · intro h
    obtain ⟨g, hg⟩ := exists_visitAll_ok_iff.mpr fun id hid => h id (roleReachable_reverse.mp hid)
    exact ⟨g, by rw [addRolePermissions, hg]⟩

/-- `withRoles` gives the own permissions and those of the reachable roles. -/
theorem withRoles_ok (h : s.withRoles gr = .ok g) (p : Permission) :
    (p ∈ g.enabled ↔ p ∈ gr.1.enabled ∨ s.ByRole gr.2 (p ∈ ·.permissions.enabled)) ∧
      (p ∈ g.disabled ↔ p ∈ gr.1.disabled ∨ s.ByRole gr.2 (p ∈ ·.permissions.disabled)) := by
  obtain ⟨base, _ | ⟨id, roles⟩⟩ := gr
  · have hnone : ∀ P, ¬ s.ByRole [] P := fun _ ⟨_, _, h, _⟩ => not_roleReachable_nil h
    have hg : base = g := Except.ok.inj h
    simp [hg, hnone]
  · exact addRolePermissions_ok h p

theorem exists_withRoles_iff : (∃ g, s.withRoles gr = .ok g) ↔ s.RolesExist gr.2 := by
  obtain ⟨base, _ | ⟨id, roles⟩⟩ := gr
  · exact iff_of_true ⟨base, rfl⟩ fun _ h => absurd h not_roleReachable_nil
  · exact exists_addRolePermissions_iff

/-- What an account holds: its tenant restricts what is enabled and adds to what is disabled. -/
theorem effectivePermissions_ok (h : s.effectivePermissions permissions roleIds tenantId = .ok g) :
    ∃ own, s.withRoles (permissions.ownAndRoles roleIds) = .ok own ∧
      match tenantId with
      | none => g = own
      | some tenantId =>
        if s.isEnterpriseEdition then
          ∃ tenant limit, s.tenant tenantId = .ok tenant ∧
            s.withRoles tenant.ownAndRoles = .ok limit ∧ g = own.restrict limit
        else g = own.restrict s.userPermissions := by
  obtain ⟨own, hown, h⟩ := Lib.Loop.bind_eq_ok_iff.mp h
  refine ⟨own, hown, ?_⟩
  cases tenantId with
  | none => exact (Except.ok.inj h).symm
  | some tenantId =>
    simp only at h ⊢
    split at h
    · rename_i he
      obtain ⟨tenant, htenant, h⟩ := Lib.Loop.bind_eq_ok_iff.mp h
      obtain ⟨limit, hlimit, h⟩ := Lib.Loop.bind_eq_ok_iff.mp h
      rw [if_pos he]
      exact ⟨tenant, limit, htenant, hlimit, (Except.ok.inj h).symm⟩
    · rename_i he
      rw [if_neg he]
      exact (Except.ok.inj h).symm

/-! ## The permissions an account should have -/

/-- The roles of an account with the roles `roleIds`: these, and those the roles refer to. -/
def HasRole (s : Server) (roleIds : List ℕ) (id : ℕ) : Prop :=
  Reachable (s.roles.lookup ·) Role.roleIds roleIds id

/-- Some role of an account with the roles `roleIds` satisfies `P`. -/
def SomeRole (s : Server) (roleIds : List ℕ) (P : Role → Prop) : Prop :=
  ∃ id role, s.HasRole roleIds id ∧ s.roles.lookup id = some role ∧ P role

/-- The setting, of an account or a tenant, or one of its roles enables the permission; only the
    setting if it replaces the permissions. -/
def Enables (s : Server) (roleIds : List ℕ) (p : Permission) : Structs.Permissions → Prop
  | .inherit => s.SomeRole roleIds (p ∈ ·.enabledPermissions)
  | .merge own => p ∈ own.enabledPermissions ∨ s.SomeRole roleIds (p ∈ ·.enabledPermissions)
  | .replace own => p ∈ own.enabledPermissions

/-- The setting, or one of its roles, disables the permission; only the setting if it replaces the
    permissions. -/
def Disables (s : Server) (roleIds : List ℕ) (p : Permission) : Structs.Permissions → Prop
  | .inherit => s.SomeRole roleIds (p ∈ ·.disabledPermissions)
  | .merge own => p ∈ own.disabledPermissions ∨ s.SomeRole roleIds (p ∈ ·.disabledPermissions)
  | .replace own => p ∈ own.disabledPermissions

def tenantRoleIds (s : Server) (tenant : Tenant) : List ℕ :=
  tenant.roles.roleIds.getD s.security.defaultRoleIdsTenant

/-- The permission is enabled and not disabled, for the account and for its tenant if there is
    one. -/
def Granted (s : Server) (permissions : Structs.Permissions) (roleIds : List ℕ)
    (tenantId : Option ℕ) (p : Permission) : Prop :=
  (s.Enables roleIds p permissions ∧ ¬ s.Disables roleIds p permissions) ∧
    ∀ id ∈ tenantId, ∃ tenant, s.tenants.lookup id = some tenant ∧
      s.Enables (s.tenantRoleIds tenant) p tenant.permissions ∧
      ¬ s.Disables (s.tenantRoleIds tenant) p tenant.permissions

/-- All role ids are below `2 ^ 32`, so that none is truncated. -/
structure IdsFit (s : Server) : Prop where
  roles : ∀ e ∈ s.roles, ∀ id ∈ e.2.roleIds, id < 2 ^ 32
  tenants : ∀ e ∈ s.tenants, ∀ id ∈ s.tenantRoleIds e.2, id < 2 ^ 32

theorem map_documentId {ids : List ℕ} (h : ∀ id ∈ ids, id < 2 ^ 32) : ids.map documentId = ids :=
  (map_congr_left fun id hid => documentId_of_lt (h id hid)).trans (map_id ids)

/-- The cached roles have the same graph as the roles. -/
theorem IdsFit.roleReachable_iff (hs : s.IdsFit) :
    s.RoleReachable roleIds id ↔ s.HasRole roleIds id := by
  refine reachable_congr (fun a => ?_) id
  cases h : s.roles.lookup a with
  | none => simp [role, h]
  | some role =>
    have hids := hs.roles _ (Lib.KeyedList.mem_of_lookup h)
    simp [Server.role, h, RoleCache.ofRole, map_documentId hids]

theorem IdsFit.byRole_iff (hs : s.IdsFit) {P : RoleCache → Prop} :
    s.ByRole roleIds P ↔ s.SomeRole roleIds (P ∘ RoleCache.ofRole) := by
  constructor
  · rintro ⟨id, r, hid, hr, hP⟩
    obtain ⟨role, hrole, rfl⟩ := Option.map_eq_some_iff.mp hr
    exact ⟨id, role, hs.roleReachable_iff.mp hid, hrole, hP⟩
  · rintro ⟨id, role, hid, hrole, hP⟩
    exact ⟨id, _, hs.roleReachable_iff.mpr hid, Option.map_eq_some_iff.mpr ⟨role, hrole, rfl⟩, hP⟩

/-- What an account or a tenant enables and disables is what `Enables` and `Disables` say. -/
theorem IdsFit.ownAndRoles_iff (hs : s.IdsFit) (hids : ∀ id ∈ roleIds, id < 2 ^ 32)
    (hgr : gr = permissions.ownAndRoles roleIds) (p : Permission) :
    (p ∈ gr.1.enabled ∨ s.ByRole gr.2 (p ∈ ·.permissions.enabled) ↔
        s.Enables roleIds p permissions) ∧
      (p ∈ gr.1.disabled ∨ s.ByRole gr.2 (p ∈ ·.permissions.disabled) ↔
        s.Disables roleIds p permissions) := by
  have hnone : ∀ P, ¬ s.SomeRole [] P := fun _ ⟨_, _, ⟨_, hr, _⟩, _⟩ => not_mem_nil hr
  subst hgr
  rw [hs.byRole_iff, hs.byRole_iff]
  cases permissions with
  | inherit =>
    simp [ownAndRoles, Enables, Disables, map_documentId hids, Function.comp_def]
  | merge own =>
    simp [ownAndRoles, Enables, Disables, map_documentId hids, Function.comp_def]
  | replace own => simp [ownAndRoles, Enables, Disables, hnone]

/-- The cached form of a tenant has the permissions and the roles of the tenant. -/
theorem tenant_ok {cache : TenantCache} (h : s.tenant id = .ok cache) :
    ∃ tenant, s.tenants.lookup id = some tenant ∧
      cache.ownAndRoles.1.enabled =
        (tenant.permissions.ownAndRoles (s.tenantRoleIds tenant)).1.enabled ∧
      cache.ownAndRoles.1.disabled =
        (tenant.permissions.ownAndRoles (s.tenantRoleIds tenant)).1.disabled ∧
      cache.ownAndRoles.2 = (tenant.permissions.ownAndRoles (s.tenantRoleIds tenant)).2 := by
  rw [tenant] at h
  split at h
  · cases h
  rename_i tenant htenant
  refine ⟨tenant, htenant, ?_⟩
  rw [← Except.ok.inj h]
  cases hp : tenant.permissions <;> exact ⟨rfl, rfl, rfl⟩

/-- The effective permissions, once computed, are those that should be granted. -/
theorem IdsFit.mem_finalize_iff (hs : s.IdsFit) (he : s.isEnterpriseEdition = true)
    (hids : ∀ id ∈ roleIds, id < 2 ^ 32)
    (h : s.effectivePermissions permissions roleIds tenantId = .ok g) (p : Permission) :
    p ∈ g.finalize ↔ s.Granted permissions roleIds tenantId p := by
  obtain ⟨own, hown, hg⟩ := effectivePermissions_ok h
  obtain ⟨hen, hdis⟩ := withRoles_ok hown p
  obtain ⟨hen', hdis'⟩ := hs.ownAndRoles_iff hids rfl p
  rw [hen'] at hen
  rw [hdis'] at hdis
  cases tenantId with
  | none =>
    rw [hg, mem_finalize, hen, hdis]
    simp [Granted]
  | some tenantId =>
    simp only [he] at hg
    obtain ⟨cache, limit, hcache, hlimit, rfl⟩ := hg
    obtain ⟨tenant, htenant, hen₁, hdis₁, hroles⟩ := tenant_ok hcache
    obtain ⟨hlen, hldis⟩ := withRoles_ok hlimit p
    obtain ⟨hten, htdis⟩ := hs.ownAndRoles_iff
      (hs.tenants _ (Lib.KeyedList.mem_of_lookup htenant)) rfl p
    rw [hen₁, hroles, hten] at hlen
    rw [hdis₁, hroles, htdis] at hldis
    have hsome : ∀ P : Tenant → Prop, (∀ id ∈ some tenantId, ∃ tenant,
        s.tenants.lookup id = some tenant ∧ P tenant) ↔ P tenant := by
      intro P
      simp [htenant]
    rw [mem_finalize, Granted, hsome]
    simp only [restrict, mem_intersection, mem_union, hen, hdis, hlen, hldis, not_or]
    exact and_and_and_comm

/-- The roles, and the tenant with its roles, that an account depends on all exist. -/
def DependenciesExist (s : Server) (permissions : Structs.Permissions) (roleIds : List ℕ)
    (tenantId : Option ℕ) : Prop :=
  s.RolesExist (permissions.ownAndRoles roleIds).2 ∧
    ∀ id ∈ tenantId, ∃ tenant, s.tenants.lookup id = some tenant ∧
      s.RolesExist (tenant.permissions.ownAndRoles (s.tenantRoleIds tenant)).2

/-- The computation succeeds if all it depends on exists. -/
theorem DependenciesExist.exists_effectivePermissions
    (h : s.DependenciesExist permissions roleIds tenantId) :
    ∃ g, s.effectivePermissions permissions roleIds tenantId = .ok g := by
  obtain ⟨hroles, htenants⟩ := h
  obtain ⟨own, hown⟩ := exists_withRoles_iff.mpr hroles
  cases tenantId with
  | none => exact ⟨own, by rw [effectivePermissions, hown]; rfl⟩
  | some id =>
    by_cases he : s.isEnterpriseEdition = true
    · obtain ⟨tenant, htenant, htroles⟩ := htenants id rfl
      obtain ⟨cache, hcache⟩ : ∃ cache, s.tenant id = .ok cache := by simp [Server.tenant, htenant]
      obtain ⟨tenant', htenant', -, -, hroles'⟩ := tenant_ok hcache
      obtain rfl : tenant = tenant' := Option.some.inj (htenant.symm.trans htenant')
      obtain ⟨limit, hlimit⟩ := exists_withRoles_iff.mpr (hroles'.symm ▸ htroles)
      refine ⟨own.restrict limit, ?_⟩
      rw [effectivePermissions, hown]
      simp only [he, if_true, hcache, hlimit, bind, Except.bind]
    · refine ⟨own.restrict s.userPermissions, ?_⟩
      rw [effectivePermissions, hown]
      simp only [he]
      rfl

/-- The computation succeeds exactly when all it depends on exists. -/
theorem exists_effectivePermissions_iff (he : s.isEnterpriseEdition = true) :
    (∃ g, s.effectivePermissions permissions roleIds tenantId = .ok g) ↔
      s.DependenciesExist permissions roleIds tenantId := by
  refine ⟨?_, DependenciesExist.exists_effectivePermissions⟩
  rintro ⟨g, h⟩
  obtain ⟨own, hown, hg⟩ := effectivePermissions_ok h
  refine ⟨exists_withRoles_iff.mp ⟨own, hown⟩, fun id hid => ?_⟩
  obtain rfl : tenantId = some id := hid
  simp only [he] at hg
  obtain ⟨cache, limit, hcache, hlimit, -⟩ := hg
  obtain ⟨tenant, htenant, -, -, hroles⟩ := tenant_ok hcache
  exact ⟨tenant, htenant, hroles ▸ exists_withRoles_iff.mp ⟨limit, hlimit⟩⟩

/-- The loop over the roles of an account ends; it succeeds when they and the tenant exist; and a
    permission is then granted exactly when it is enabled and not disabled for the account and its
    tenant, where one that replaces its permissions does not consult its roles. -/
theorem effectivePermissions_spec (hs : s.IdsFit) (he : s.isEnterpriseEdition = true)
    (permissions : Structs.Permissions) (roleIds : List ℕ) (hids : ∀ id ∈ roleIds, id < 2 ^ 32)
    (tenantId : Option ℕ) :
    (∀ (roots : List ℕ) (base : PermissionsGroup), ∃ rounds result,
        visit s.role RoleCache.idRoles (fun g r => g.union r.permissions) rounds roots [] base =
          some result) ∧
      ((∃ g, s.effectivePermissions permissions roleIds tenantId = .ok g) ↔
        s.DependenciesExist permissions roleIds tenantId) ∧
      ∀ g, s.effectivePermissions permissions roleIds tenantId = .ok g →
        ∀ p, p ∈ g.finalize ↔ s.Granted permissions roleIds tenantId p :=
  ⟨fun _ _ => ⟨_, _, visit_eq_visitAll s.mem_roles_of_role⟩,
    exists_effectivePermissions_iff he, fun _ h => hs.mem_finalize_iff he hids h⟩

/-- Two roles that refer to each other: the first enables sending and receiving mail, the second
    disables sending. A tenant enables both. -/
def cyclicServer : Server where
  roles :=
    [(1, ⟨none, [2], [.emailSend, .emailReceive], []⟩), (2, ⟨none, [1], [], [.emailSend]⟩)]
  tenants := [(9, ⟨.custom [], .replace ⟨[.emailSend, .emailReceive], []⟩⟩)]
  security := ⟨[], [], [], []⟩
  isEnterpriseEdition := true
  userPermissions := {}

theorem effectivePermissions_spec_cyclic :
    (∃ g, cyclicServer.effectivePermissions .inherit [1] (some 9) = .ok g ∧
      (.emailReceive ∈ g.finalize ∧ .emailSend ∉ g.finalize) ∧
      ∀ p, p ∈ g.finalize ↔ cyclicServer.Granted .inherit [1] (some 9) p) := by
  have hfit : cyclicServer.IdsFit := ⟨by decide, by decide⟩
  obtain ⟨-, -, hspec⟩ := effectivePermissions_spec hfit rfl .inherit [1] (by decide) (some 9)
  exact ⟨_, rfl, by decide +kernel, hspec _ rfl⟩

/-- An account that replaces its permissions holds one that its role disables. -/
theorem replace_ignores_disabling_role :
    ∃ g, cyclicServer.effectivePermissions (.replace ⟨[.emailSend], []⟩) [2] none = .ok g ∧
      .emailSend ∈ g.finalize ∧
      cyclicServer.SomeRole [2] (.emailSend ∈ ·.disabledPermissions) :=
  ⟨_, rfl, by decide +kernel, 2, _, .root (mem_singleton_self 2), rfl, mem_singleton_self _⟩

end Server

end Inworkspace
