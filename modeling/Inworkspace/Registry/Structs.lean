import Inworkspace.Auth.Permission
import Inworkspace.Registry.IpMask

/-!
# Registry objects

The objects of the registry that accounts are made of
(`registry::schema::structs`), with the fields that authentication and the
permissions depend on.
-/

namespace Inworkspace

/-- `Id::document_id`: the low 32 bits of an id. -/
def documentId (id : ℕ) : ℕ := id % 2 ^ 32

theorem documentId_of_lt {id : ℕ} (h : id < 2 ^ 32) : documentId id = id := Nat.mod_eq_of_lt h

structure PermissionsList where
  enabledPermissions : List Permission
  disabledPermissions : List Permission
  deriving DecidableEq

/-- How the permissions of an account or a tenant relate to those of its roles. -/
inductive Structs.Permissions where
  | inherit
  | merge (permissions : PermissionsList)
  | replace (permissions : PermissionsList)
  deriving DecidableEq

structure Role where
  memberTenantId : Option ℕ
  roleIds : List ℕ
  enabledPermissions : List Permission
  disabledPermissions : List Permission
  deriving DecidableEq

/-- The roles of a group or a tenant, `Roles`. -/
inductive Roles where
  | default
  | custom (roleIds : List ℕ)
  deriving DecidableEq

def Roles.roleIds : Roles → Option (List ℕ)
  | default => none
  | custom roleIds => some roleIds

/-- The roles of a user, `UserRoles`. -/
inductive UserRoles where
  | user
  | admin
  | custom (roleIds : List ℕ)
  deriving DecidableEq

structure Tenant where
  roles : Roles
  permissions : Structs.Permissions
  deriving DecidableEq

/-- The permissions of a secondary credential, relative to those of its account. -/
inductive CredentialPermissions where
  | inherit
  | disable (permissions : List Permission)
  | replace (permissions : List Permission)
  deriving DecidableEq

/-- An app password or an API key, `SecondaryCredential`. -/
structure SecondaryCredential where
  credentialId : ℕ
  secret : String
  expiresAt : Option ℤ
  permissions : CredentialPermissions
  allowedIps : List IpAddrOrMask
  deriving DecidableEq

structure PasswordCredential where
  credentialId : ℕ
  secret : String
  otpAuth : Option String
  expiresAt : Option ℤ
  allowedIps : List IpAddrOrMask
  deriving DecidableEq

inductive Credential where
  | password (credential : PasswordCredential)
  | appPassword (credential : SecondaryCredential)
  | apiKey (credential : SecondaryCredential)
  deriving DecidableEq

structure EmailAlias where
  enabled : Bool
  name : String
  domainId : ℕ
  deriving DecidableEq

structure UserAccount where
  name : String
  domainId : ℕ
  credentials : List Credential
  memberGroupIds : List ℕ
  memberTenantId : Option ℕ
  roles : UserRoles
  permissions : Structs.Permissions
  aliases : List EmailAlias
  deriving DecidableEq

structure GroupAccount where
  name : String
  domainId : ℕ
  memberTenantId : Option ℕ
  roles : Roles
  permissions : Structs.Permissions
  aliases : List EmailAlias
  deriving DecidableEq

inductive Account where
  | user (account : UserAccount)
  | group (account : GroupAccount)
  deriving DecidableEq

end Inworkspace
