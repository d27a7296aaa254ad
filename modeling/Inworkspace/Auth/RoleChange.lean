import Inworkspace.Auth.Permissions

/-!
# Changing a role

What an account holds depends on all roles reachable from its own, so a change of a role can be felt
by accounts that refer to it through others. The roles are split into those reachable without
passing through the role that changes, which stay as they are, and those reachable from it:

* `byRole_iff_other`: what the roles of an account do, the others do or the changed role does;
* `grantsBy_of_withRole`: an account loses no restriction and gains no permission that the changed
  role does not drop or gain itself.
-/

namespace Inworkspace.Server

open Lib.Worklist

variable (s : Server)

/-- The server with the role set. -/
def withRole (id : ℕ) (role : Role) : Server :=
  { s with roles := Lib.KeyedList.upsert s.roles id role }

/-- Some role other than `id` satisfies `P`, reachable without passing through `id`. -/
def ByOtherRole (id : ℕ) (roots : List ℕ) (P : RoleCache → Prop) : Prop :=
  ∃ x r, x ≠ id ∧ Reachable (erase s.role id) RoleCache.idRoles roots x ∧ s.role x = some r ∧ P r

/-- The roles lead to the role `id`. -/
def LeadsTo (id : ℕ) (roots : List ℕ) : Prop :=
  Reachable (erase s.role id) RoleCache.idRoles roots id

variable {s} {id : ℕ} {role : Role} {roots : List ℕ} {p : Permission}
  {gr : PermissionsGroup × List ℕ} {P : RoleCache → Prop}

theorem role_withRole_self : (s.withRole id role).role id = some (.ofRole role) := by
  rw [Server.role, withRole, Lib.KeyedList.lookup_upsert_self, Option.map_some]

theorem role_withRole_of_ne {x : ℕ} (hx : x ≠ id) : (s.withRole id role).role x = s.role x := by
  rw [Server.role, withRole, Lib.KeyedList.lookup_upsert_of_ne _ _ hx, Server.role]

/-- What a reachable role does, another role does or one reachable from `id`. -/
theorem byRole_iff_other (id : ℕ) :
    s.ByRole roots P ↔ s.ByOtherRole id roots P ∨ (s.LeadsTo id roots ∧ s.ByRole [id] P) := by
  constructor
  · rintro ⟨x, r, hx, hr, hP⟩
    rcases (reachable_iff_erase id).mp hx with hx | ⟨hid, hx⟩
    · by_cases heq : x = id
      · subst heq
        exact .inr ⟨hx, x, r, .root (List.mem_singleton_self x), hr, hP⟩
      · exact .inl ⟨x, r, heq, hx, hr, hP⟩
    · exact .inr ⟨hid, x, r, hx, hr, hP⟩
  · rintro (⟨x, r, -, hx, hr, hP⟩ | ⟨hid, x, r, hx, hr, hP⟩)
    · exact ⟨x, r, (reachable_iff_erase id).mpr (.inl hx), hr, hP⟩
    · exact ⟨x, r, (reachable_iff_erase id).mpr (.inr ⟨hid, hx⟩), hr, hP⟩

/-- The other roles do not change. -/
theorem erase_role_withRole : erase (s.withRole id role).role id = erase s.role id := by
  funext x
  by_cases hx : x = id
  · simp [erase, hx]
  · simp [erase, hx, role_withRole_of_ne]

theorem byOtherRole_withRole :
    (s.withRole id role).ByOtherRole id roots P ↔ s.ByOtherRole id roots P := by
  refine exists_congr fun x => exists_congr fun r => and_congr_right fun hx => ?_
  rw [erase_role_withRole, role_withRole_of_ne hx]

theorem leadsTo_withRole : (s.withRole id role).LeadsTo id roots ↔ s.LeadsTo id roots := by
  rw [LeadsTo, erase_role_withRole, LeadsTo]

/-! ## What is granted -/

/-- The permission is enabled, and not disabled, by a group of permissions and roles. -/
def GrantsBy (s : Server) (gr : PermissionsGroup × List ℕ) (p : Permission) : Prop :=
  (p ∈ gr.1.enabled ∨ s.ByRole gr.2 (p ∈ ·.permissions.enabled)) ∧
    ¬ (p ∈ gr.1.disabled ∨ s.ByRole gr.2 (p ∈ ·.permissions.disabled))

/-- The role, or one reachable from it, disables the permission. -/
def RoleDisables (s : Server) (id : ℕ) (p : Permission) : Prop :=
  s.ByRole [id] (p ∈ ·.permissions.disabled)

/-- The role, or one reachable from it, enables the permission, and none disables it. -/
def RoleGrants (s : Server) (id : ℕ) (p : Permission) : Prop :=
  s.ByRole [id] (p ∈ ·.permissions.enabled) ∧ ¬ s.RoleDisables id p

theorem mem_finalize_of_withRoles {g : PermissionsGroup} (h : s.withRoles gr = .ok g) :
    p ∈ g.finalize ↔ s.GrantsBy gr p := by
  obtain ⟨hen, hdis⟩ := withRoles_ok h p
  rw [PermissionsGroup.mem_finalize, hen, hdis, GrantsBy]

theorem mem_finalize_restrict {own limit : PermissionsGroup} :
    p ∈ (own.restrict limit).finalize ↔ p ∈ own.finalize ∧ p ∈ limit.finalize := by
  simp only [PermissionsGroup.mem_finalize, PermissionsGroup.restrict,
    Permissions.mem_intersection, Permissions.mem_union, not_or]
  exact and_and_and_comm

/-- If the changed role disables what it did and grants nothing new, nothing new is granted through
    it. -/
theorem grantsBy_of_withRole (hdis : s.RoleDisables id p → (s.withRole id role).RoleDisables id p)
    (hgrant : (s.withRole id role).RoleGrants id p → s.RoleGrants id p)
    (h : (s.withRole id role).GrantsBy gr p) : s.GrantsBy gr p := by
  rw [GrantsBy, byRole_iff_other id (P := (p ∈ ·.permissions.enabled)),
    byRole_iff_other id (P := (p ∈ ·.permissions.disabled)), byOtherRole_withRole,
    byOtherRole_withRole, leadsTo_withRole] at h
  rw [GrantsBy, byRole_iff_other id (P := (p ∈ ·.permissions.enabled)),
    byRole_iff_other id (P := (p ∈ ·.permissions.disabled))]
  obtain ⟨hen, hnot⟩ := h
  simp only [not_or, not_and] at hnot ⊢
  obtain ⟨hown, hother, hid⟩ := hnot
  refine ⟨?_, hown, hother, fun hlead hdis' => hid hlead (hdis hdis')⟩
  rcases hen with hen | hen | ⟨hlead, hen⟩
  · exact .inl hen
  · exact .inr (.inl hen)
  · exact .inr (.inr ⟨hlead, (hgrant ⟨hen, hid hlead⟩).1⟩)

/-- Existing roles do not lead to a new one, so nothing changes when it is created. -/
theorem grantsBy_of_withRole_new (hnew : s.role id = none) (hgr : s.RolesExist gr.2)
    (h : (s.withRole id role).GrantsBy gr p) : s.GrantsBy gr p := by
  have hlead : ¬ s.LeadsTo id gr.2 := by
    intro hlead
    obtain ⟨r, hr⟩ := hgr id ((reachable_iff_erase id).mpr (.inl hlead))
    rw [hnew] at hr
    cases hr
  have hiff : ∀ P, (s.withRole id role).ByRole gr.2 P ↔ s.ByRole gr.2 P := by
    intro P
    rw [byRole_iff_other id (s := s.withRole id role), byRole_iff_other id (s := s),
      byOtherRole_withRole, leadsTo_withRole]
    simp [hlead]
  rwa [GrantsBy, hiff, hiff] at h

/-- Nothing new is granted to an account or its tenant if nothing new is granted through their
    roles. -/
theorem mem_effectivePermissions_of_withRole {permissions : Structs.Permissions}
    {roleIds : List ℕ} {tenantId : Option ℕ} {g g' : PermissionsGroup}
    (hsub : ∀ gr, s.RolesExist gr.2 → (s.withRole id role).GrantsBy gr p → s.GrantsBy gr p)
    (hg : s.effectivePermissions permissions roleIds tenantId = .ok g)
    (hg' : (s.withRole id role).effectivePermissions permissions roleIds tenantId = .ok g')
    (hp : p ∈ g'.finalize) : p ∈ g.finalize := by
  obtain ⟨own, hown, hlimit⟩ := effectivePermissions_ok hg
  obtain ⟨own', hown', hlimit'⟩ := effectivePermissions_ok hg'
  have hsub' : ∀ {gr : PermissionsGroup × List ℕ} {g g' : PermissionsGroup},
      s.withRoles gr = .ok g → (s.withRole id role).withRoles gr = .ok g' → p ∈ g'.finalize →
        p ∈ g.finalize := fun hg hg' h =>
    (mem_finalize_of_withRoles hg).mpr (hsub _ (exists_withRoles_iff.mp ⟨_, hg⟩)
      ((mem_finalize_of_withRoles hg').mp h))
  cases tenantId with
  | none =>
    subst hlimit hlimit'
    exact hsub' hown hown' hp
  | some tenantId =>
    -- the limit is that of the tenant, with roles of its own, or one for all tenants
    by_cases he : s.isEnterpriseEdition = true
    · have he' : (s.withRole id role).isEnterpriseEdition = true := he
      simp only [he, he'] at hlimit hlimit'
      obtain ⟨tenant, limit, htenant, hlimit, rfl⟩ := hlimit
      obtain ⟨tenant', limit', htenant', hlimit', rfl⟩ := hlimit'
      obtain rfl : tenant = tenant' := Except.ok.inj (htenant.symm.trans htenant')
      obtain ⟨hp, hpt⟩ := mem_finalize_restrict.mp hp
      exact mem_finalize_restrict.mpr ⟨hsub' hown hown' hp, hsub' hlimit hlimit' hpt⟩
    · have he' : (s.withRole id role).isEnterpriseEdition ≠ true := he
      simp only [he, he'] at hlimit hlimit'
      rw [hlimit', mem_finalize_restrict] at hp
      rw [hlimit, mem_finalize_restrict]
      exact ⟨hsub' hown hown' hp.1, hp.2⟩

end Inworkspace.Server
