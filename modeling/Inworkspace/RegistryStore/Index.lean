import Inworkspace.Auth.Credential
import Inworkspace.Lib.Batch
import Mathlib.Data.BitVec

/-!
# The index of the registry

`registry::types::index` and the part of `store::registry::write` that turns the entries of
the index into keys of the store. An object has entries it can be searched by, entries
that are unique among all objects, and entries for the objects it refers to
(`IndexKey`). The key of an entry (`IndexKey.registryClass`) has the id of the object,
except for a unique entry, where it is the value that is stored.

Two entries may have the same key: the two values of a unique entry are written
one after the other (`serializeCompositeKey`), and the key of a reference does not tell
which type is asked for.
-/

namespace Inworkspace.RegistryStore

/-! ## Objects -/

/-- An id of a registry object, a `u64`. -/
abbrev Id := BitVec 64

/-- `Property`, by its number. -/
structure Property where
  id : ℕ
  deriving DecidableEq

namespace Property

/-- The properties the store itself refers to. -/
def type : Property := ⟨0⟩

@[inherit_doc type]
def memberTenantId : Property := ⟨19⟩

@[inherit_doc type]
def accountId : Property := ⟨57⟩

end Property

/-- `ObjectType`, by its number. -/
structure ObjectType where
  id : ℕ
  deriving DecidableEq

structure ObjectId where
  object : ObjectType
  id : Id
  deriving DecidableEq

inductive IndexValue where
  | text (text : String)
  | bytes (bytes : List UInt8)
  | u64 (num : BitVec 64)
  | i64 (num : BitVec 64)
  | u16 (num : BitVec 16)
  | none
  deriving DecidableEq

/-- `IndexKey`: an entry of the index of an object. -/
inductive IndexKey where
  | unique (property : Property) (value₁ value₂ : IndexValue) (global : Bool)
  | search (property : Property) (value : IndexValue)
  | foreignKey (objectId : ObjectId) (typeFilter : IndexValue)
  deriving DecidableEq

/-- What the store asks of an object: its type, its tenant and account, and the entries of its
    index, which are a set. The generated `index` functions enter the tenant and the account as what
    they are. -/
structure Object where
  objectType : ObjectType
  memberTenantId : Option Id
  accountId : Option Id
  index : List IndexKey
  contents : String
  nodup : index.Nodup
  tenant_of_search : ∀ v, .search .memberTenantId v ∈ index →
    ∃ t, memberTenantId = some t ∧ v = .u64 t
  account_of_search : ∀ v, .search .accountId v ∈ index → ∃ a, accountId = some a ∧ v = .u64 a
  deriving DecidableEq

/-! ## Keys -/

def toBeBytes {k : ℕ} (num : BitVec (8 * k)) : List UInt8 :=
  (List.range k).map fun i => UInt8.ofBitVec (num.extractLsb' (8 * (k - 1 - i)) 8)

theorem toBeBytes_injective {k : ℕ} : Function.Injective (toBeBytes (k := k)) := by
  intro a b h
  refine BitVec.eq_of_getLsbD_eq fun j hj => ?_
  -- the byte that has the bit
  have hbyte : a.extractLsb' (8 * (j / 8)) 8 = b.extractLsb' (8 * (j / 8)) 8 := by
    have hget := List.map_inj_left.mp h (k - 1 - j / 8) (by rw [List.mem_range]; omega)
    have hidx : k - 1 - (k - 1 - j / 8) = j / 8 := by omega
    rw [hidx] at hget
    exact congrArg UInt8.toBitVec hget
  have hbit := congrArg (fun byte => byte.getLsbD (j % 8)) hbyte
  have hmod : j % 8 < 8 := Nat.mod_lt _ (by decide)
  simp only [BitVec.getLsbD_extractLsb', hmod] at hbit
  rwa [Nat.div_add_mod] at hbit

def IndexValue.serialize : IndexValue → List UInt8
  | .text string => asBytes string
  | .bytes value => value
  | .u64 num | .i64 num => toBeBytes (k := 8) num
  | .u16 num => toBeBytes (k := 2) num
  | .none => []

def serializeCompositeKey (value₁ value₂ : IndexValue) : List UInt8 :=
  value₁.serialize ++ value₂.serialize

/-- `RegistryClass`: the keys of the registry in the store. -/
inductive RegistryClass where
  | item (objectId : ObjectId)
  | indexId (objectId : ObjectId)
  | index (indexId : Property) (objectId : ObjectId) (key : List UInt8)
  | reference (to_ from_ : ObjectId)
  | primaryKey (objectType : Option ObjectType) (indexId : Property) (key : List UInt8)
  | idCounter (objectType : ObjectType)
  deriving DecidableEq

/-- What is stored under the keys. -/
inductive Value where
  | object (object : Object)
  | empty
  | owner (objectId : ObjectId)
  | counter (count : ℕ)
  deriving DecidableEq

namespace IndexKey

/-- The key of an entry of the index of an object. -/
def registryClass (owner : ObjectId) : IndexKey → RegistryClass
  | unique property value₁ value₂ global =>
    .primaryKey (if global then none else some owner.object) property
      (serializeCompositeKey value₁ value₂)
  | search property value => .index property owner value.serialize
  | foreignKey objectId _ => .reference objectId owner

/-- What is stored under the key of an entry. -/
def value (owner : ObjectId) : IndexKey → Value
  | unique .. => .owner owner
  | search .. | foreignKey .. => .empty

/-- A unique entry. -/
def isUnique : IndexKey → Bool
  | unique .. => true
  | _ => false

end IndexKey

namespace RegistryClass

def isEntry : RegistryClass → Bool
  | index .. | reference .. | primaryKey .. => true
  | _ => false

/-- What an object stores under the key of an entry. -/
def entryValue (owner : ObjectId) : RegistryClass → Value
  | primaryKey .. => .owner owner
  | _ => .empty

end RegistryClass

section Keys

variable {owner owner' : ObjectId} {key key' : IndexKey}

@[simp]
theorem IndexKey.isEntry_registryClass (key : IndexKey) :
    (key.registryClass owner).isEntry = true := by
  cases key <;> rfl

theorem IndexKey.value_eq (key : IndexKey) :
    key.value owner = (key.registryClass owner).entryValue owner := by
  cases key <;> rfl

section

variable (h : key.registryClass owner = key'.registryClass owner')

include h

theorem IndexKey.isUnique_congr : key.isUnique = key'.isUnique := by
  cases key <;> cases key' <;> simp_all [registryClass, isUnique]

/-- Objects share the keys of unique entries only. -/
theorem IndexKey.isUnique_of_registryClass_eq (hne : owner ≠ owner') :
    key.isUnique = true ∧ key'.isUnique = true := by
  cases key <;> cases key' <;> simp_all [registryClass, isUnique]

end

/-- A key of a unique entry tells its owner. -/
theorem IndexKey.owner_eq_of_value (hkey : key.isUnique = true)
    (h : key.value owner = key'.value owner') : owner = owner' := by
  cases key <;> cases key' <;> simp_all [value, isUnique]

end Keys

end Inworkspace.RegistryStore
