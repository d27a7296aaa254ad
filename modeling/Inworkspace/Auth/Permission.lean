import Mathlib.Data.Set.Basic

/-!
# Permissions

The permissions of an account (`registry::schema::enums::Permission`) and the
bit sets they are kept in (`trc::ipc::bitset::Bitset`). A `PermissionsGroup`
has the permissions that are enabled and those that are disabled; disabling
wins (`PermissionsGroup.mem_finalize`).
-/

namespace Inworkspace

/-! ## Bit sets -/

/-- `Bitset<N>`: `n` words of 64 bits, as one bit vector. -/
@[ext]
structure Bitset (n : ℕ) where
  bits : BitVec (64 * n)
  deriving DecidableEq

namespace Bitset

variable {n : ℕ} (self other : Bitset n)

def new : Bitset n := ⟨0⟩

def all : Bitset n := ⟨BitVec.allOnes _⟩

def set (self : Bitset n) (index : ℕ) : Bitset n := ⟨self.bits ||| BitVec.twoPow _ index⟩

def get (self : Bitset n) (index : ℕ) : Bool := self.bits.getLsbD index

def union : Bitset n := ⟨self.bits ||| other.bits⟩

def intersection : Bitset n := ⟨self.bits &&& other.bits⟩

def difference : Bitset n := ⟨self.bits &&& ~~~other.bits⟩

/-- `Bitset::clear_many`, which is `Bitset::difference`. -/
def clearMany : Bitset n := self.difference other

def isEmpty (self : Bitset n) : Bool := self.bits == 0

variable {a b : Bitset n} {i : ℕ}

@[simp]
theorem get_new : (new : Bitset n).get i = false := by simp [new, get]

@[simp]
theorem get_union : (a.union b).get i = (a.get i || b.get i) := by simp [union, get]

@[simp]
theorem get_intersection : (a.intersection b).get i = (a.get i && b.get i) := by
  simp [intersection, get]

@[simp]
theorem get_difference : (a.difference b).get i = (a.get i && !b.get i) := by
  by_cases hi : i < 64 * n
  · rw [difference, get, BitVec.getLsbD_and, BitVec.getLsbD_not, decide_eq_true hi]
    rfl
  · have : a.bits.getLsbD i = false := BitVec.getLsbD_of_ge _ _ (Nat.not_lt.mp hi)
    simp [difference, get, this]

theorem get_set {j : ℕ} (hj : j < 64 * n) : (a.set j).get i = (a.get i || decide (i = j)) := by
  simp [set, get, hj, eq_comm]

theorem get_eq_false_of_isEmpty (h : a.isEmpty = true) : a.get i = false := by
  rw [get, beq_iff_eq.mp h]
  simp

end Bitset

/-! ## Permissions -/

/-- The number of permissions, `Permission::COUNT`. -/
def Permission.count : ℕ := 660

/-- A permission, given by its number (`Permission::to_id`). -/
structure Permission where
  id : Fin Permission.count
  deriving DecidableEq

namespace Permission

/-- The permissions the server itself asks for, by their numbers. -/
def authenticate : Permission := ⟨⟨0, by decide⟩⟩

@[inherit_doc authenticate]
def authenticateWithAlias : Permission := ⟨⟨1, by decide⟩⟩

@[inherit_doc authenticate]
def impersonate : Permission := ⟨⟨3, by decide⟩⟩

@[inherit_doc authenticate]
def emailSend : Permission := ⟨⟨7, by decide⟩⟩

@[inherit_doc authenticate]
def emailReceive : Permission := ⟨⟨8, by decide⟩⟩

@[inherit_doc authenticate]
def imapAuthenticate : Permission := ⟨⟨129, by decide⟩⟩

@[inherit_doc authenticate]
def pop3Authenticate : Permission := ⟨⟨157, by decide⟩⟩

@[inherit_doc authenticate]
def sysAccountPasswordGet : Permission := ⟨⟨224, by decide⟩⟩

@[inherit_doc authenticate]
def sysAccountPasswordUpdate : Permission := ⟨⟨225, by decide⟩⟩

end Permission

/-- `Permissions`: one bit for each, in `COUNT.div_ceil(size_of::<usize>())` words. -/
abbrev Permissions := Bitset 83

namespace Permissions

theorem id_lt (p : Permission) : (p.id : ℕ) < 64 * 83 := p.id.isLt.trans (by decide)

instance : Membership Permission Permissions := ⟨fun ps p => ps.get p.id = true⟩

instance (ps : Permissions) (p : Permission) : Decidable (p ∈ ps) :=
  inferInstanceAs (Decidable (ps.get p.id = true))

def fromPermission (list : List Permission) : Permissions :=
  list.foldl (fun permissions p => permissions.set p.id) Bitset.new

variable {a b : Permissions} {p : Permission}

theorem mem_def : p ∈ a ↔ a.get p.id = true := Iff.rfl

@[simp]
theorem not_mem_new : p ∉ (Bitset.new : Permissions) := by simp [mem_def]

@[simp]
theorem mem_union : p ∈ a.union b ↔ p ∈ a ∨ p ∈ b := by simp [mem_def]

@[simp]
theorem mem_intersection : p ∈ a.intersection b ↔ p ∈ a ∧ p ∈ b := by simp [mem_def]

@[simp]
theorem mem_difference : p ∈ a.difference b ↔ p ∈ a ∧ p ∉ b := by simp [mem_def]

@[simp]
theorem mem_set {q : Permission} : p ∈ Bitset.set a q.id ↔ p = q ∨ p ∈ a := by
  have hid : (p.id : ℕ) = q.id ↔ p = q :=
    ⟨fun h => by cases p; cases q; simpa using Fin.ext h, fun h => by rw [h]⟩
  rw [mem_def, Bitset.get_set (id_lt q), Bool.or_eq_true, decide_eq_true_iff, hid, or_comm, mem_def]

@[simp]
theorem mem_fromPermission {list : List Permission} : p ∈ fromPermission list ↔ p ∈ list := by
  suffices h : ∀ init : Permissions,
      p ∈ list.foldl (fun permissions p => Bitset.set permissions p.id) init ↔
        p ∈ list ∨ p ∈ init by
    simpa [fromPermission] using h Bitset.new
  induction list with
  | nil => simp
  | cons q list ih =>
    intro init
    rw [List.foldl_cons, ih, mem_set, List.mem_cons]
    rw [or_left_comm, or_assoc]

end Permissions

/-- The permissions that are enabled and those that are disabled, `PermissionsGroup`. -/
structure PermissionsGroup where
  enabled : Permissions := Bitset.new
  disabled : Permissions := Bitset.new
  merge : Bool := false
  deriving DecidableEq

namespace PermissionsGroup

def union (self other : PermissionsGroup) : PermissionsGroup :=
  { self with
    enabled := self.enabled.union other.enabled
    disabled := self.disabled.union other.disabled }

def restrict (self other : PermissionsGroup) : PermissionsGroup :=
  { self with
    enabled := self.enabled.intersection other.enabled
    disabled := self.disabled.union other.disabled }

def finalize (self : PermissionsGroup) : Permissions :=
  self.enabled.difference self.disabled

@[simp]
theorem mem_finalize {g : PermissionsGroup} {p : Permission} :
    p ∈ g.finalize ↔ p ∈ g.enabled ∧ p ∉ g.disabled :=
  Permissions.mem_difference

end PermissionsGroup

end Inworkspace
