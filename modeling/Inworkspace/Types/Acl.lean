import Inworkspace.Utils.Bitmap

/-!
# Access control lists

`types::acl`: the rights (`Acl`) an object can be shared with, and the entries
(`AclGrant`) of its access control list, each granting a set of rights to one
account.
-/

namespace Inworkspace

/-- The rights of an access control list. `none` stands for numbers that encode no right. -/
inductive Acl where
  | read
  | modify
  | delete
  | readItems
  | addItems
  | modifyItems
  | removeItems
  | createChild
  | share
  | submit
  | schedulingReadFreeBusy
  | schedulingInvite
  | schedulingReply
  | modifyItemsOwn
  | modifyPrivateProperties
  | modifyRSVP
  | none
  deriving DecidableEq

namespace Acl

/-- `From<Acl> for u64`: the constructors are numbered from `0`. -/
def toU64 (acl : Acl) : ℕ := acl.ctorIdx

/-- `From<u64> for Acl`. -/
def ofU64 : ℕ → Acl
  | 0 => read
  | 1 => modify
  | 2 => delete
  | 3 => readItems
  | 4 => addItems
  | 5 => modifyItems
  | 6 => removeItems
  | 7 => createChild
  | 8 => share
  | 9 => submit
  | 10 => schedulingReadFreeBusy
  | 11 => schedulingInvite
  | 12 => schedulingReply
  | 13 => modifyItemsOwn
  | 14 => modifyPrivateProperties
  | 15 => modifyRSVP
  | _ => none

instance : BitmapItem Acl where
  toU64 := toU64
  ofU64 := ofU64
  max := 16
  isValid acl := acl != none
  toU64_lt acl := by cases acl <;> decide
  toU64_injective s t h := by
    have ofU64_toU64 : ∀ acl : Acl, ofU64 (toU64 acl) = acl := fun acl => by cases acl <;> rfl
    rw [← ofU64_toU64 s, h, ofU64_toU64]
  isValid_iff acl := by cases acl <;> decide
  toU64_ofU64 := by decide

end Acl

/-- An entry of an access control list, `AclGrant`. -/
structure AclGrant where
  accountId : ℕ
  grants : Bitmap Acl
  deriving DecidableEq

end Inworkspace
