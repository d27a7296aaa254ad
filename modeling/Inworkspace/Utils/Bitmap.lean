import Inworkspace.Lib.Bits
import Mathlib.Order.ConditionallyCompleteLattice.Basic

/-!
# Bitmaps of small enumerations

`utils::map::bitmap`: a set of items of an enumeration, stored in the bits of
one `u64`. Every operation is described by its effect on the members
(`mem_insert`, `mem_union`, ...), so that the users of a bitmap never look at
its bits.

The bits above the valid items are not ruled out by the type; `Valid` states
that none of them is set, and two valid bitmaps with the same members are
equal (`Valid.ext`).

`remove` toggles the bit of the item instead of clearing it (`mem_remove`), so
it adds an item that is not in the bitmap. Its sibling `removeMany` clears.
-/

namespace Inworkspace

/-- `BitmapItem`: the conversions from and to `u64` and the number `max` of valid items, from `0`
    on. -/
class BitmapItem (T : Type) where
  toU64 : T → ℕ
  ofU64 : ℕ → T
  max : ℕ
  isValid : T → Bool
  /-- Every item has a bit of its own. -/
  toU64_lt : ∀ t, toU64 t < 64
  toU64_injective : ∀ s t, toU64 s = toU64 t → s = t
  isValid_iff : ∀ t, isValid t = true ↔ toU64 t < max
  toU64_ofU64 : ∀ i, i < max → toU64 (ofU64 i) = i

/-- A set of items of `T`, one bit per item. -/
@[ext]
structure Bitmap (T : Type) where
  bitmap : BitVec 64
  deriving DecidableEq

namespace Bitmap

open BitmapItem Lib.Bits List

variable {T : Type} [BitmapItem T] (self : Bitmap T) (items : List T)

def new : Bitmap T := ⟨0⟩

/-- The bit of an item, `1 << item.into()`. -/
def bit (item : T) : BitVec 64 :=
  BitVec.twoPow 64 (toU64 item)

def union (self items : Bitmap T) : Bitmap T := ⟨self.bitmap ||| items.bitmap⟩

def intersection (self items : Bitmap T) : Bitmap T := ⟨self.bitmap &&& items.bitmap⟩

def insert (item : T) : Bitmap T := ⟨self.bitmap ||| bit item⟩

def insertMany : Bitmap T := items.foldl insert self

def removeMany : Bitmap T :=
  items.foldl (fun b item => ⟨b.bitmap &&& ~~~bit item⟩) self

/-- `Bitmap::remove`, which toggles the bit of the item. -/
def remove (item : T) : Bitmap T := ⟨self.bitmap ^^^ bit item⟩

def contains (item : T) : Bool := self.bitmap &&& bit item != 0

def isEmpty : Bool := self.bitmap == 0

/-- The items a bitmap yields as an `Iterator`: the highest bit first. -/
def toList : List T := (bits self.bitmap).map ofU64

/-- `Bitmap::from_iter`, which skips the items that are not valid. -/
def fromIter : Bitmap T :=
  items.foldl (fun b item => if isValid item then b.insert item else b) new

instance : Membership T (Bitmap T) := ⟨fun b t => b.contains t = true⟩

instance (b : Bitmap T) (t : T) : Decidable (t ∈ b) :=
  inferInstanceAs (Decidable (b.contains t = true))

def members (b : Bitmap T) : Set T := {t | t ∈ b}

/-- No bit is set above those of the valid items. -/
def Valid (b : Bitmap T) : Prop := b.bitmap.toNat < 2 ^ max T

instance (b : Bitmap T) : Decidable b.Valid :=
  inferInstanceAs (Decidable (b.bitmap.toNat < 2 ^ max T))

/-! ## Members and bits -/

variable {t : T} {b c : Bitmap T} {items}

theorem toU64_eq_iff {s : T} : toU64 s = toU64 t ↔ t = s :=
  ⟨fun h => (toU64_injective s t h).symm, fun h => by rw [h]⟩

theorem contains_iff : b.contains t = true ↔ b.bitmap.getLsbD (toU64 t) = true := by
  rw [contains, bit, BitVec.and_twoPow]
  split <;> rename_i h
  · have hlt := BitVec.lt_of_getLsbD h
    have hne : BitVec.twoPow 64 (toU64 t) ≠ 0#64 := fun h0 => by
      have := congrArg (fun x => BitVec.getLsbD x (toU64 t)) h0
      simp [hlt] at this
    simp [h, hne]
  · simpa using h

theorem mem_iff : t ∈ b ↔ b.bitmap.getLsbD (toU64 t) = true := contains_iff

@[simp]
theorem getLsbD_bit (i : ℕ) : (bit t).getLsbD i = decide (toU64 t = i) := by
  simp [bit, toU64_lt t]

theorem valid_iff : b.Valid ↔ ∀ i, b.bitmap.getLsbD i = true → i < max T := by
  constructor
  · intro h i hi
    by_contra hge
    rw [← BitVec.testBit_toNat, Nat.testBit_eq_false_of_lt
      (Nat.lt_of_lt_of_le h (Nat.pow_le_pow_right (by decide) (Nat.not_lt.mp hge)))] at hi
    cases hi
  · intro h
    refine Nat.lt_pow_two_of_testBit _ fun i hi => ?_
    exact Bool.eq_false_iff.mpr fun hb => absurd (h i hb) (Nat.not_lt.mpr hi)

/-- A bit of a valid bitmap is the bit of a valid item. -/
theorem Valid.getLsbD_iff (hb : b.Valid) (i : ℕ) :
    b.bitmap.getLsbD i = true ↔ i < max T ∧ (ofU64 i : T) ∈ b := by
  constructor
  · intro hi
    have hlt := valid_iff.mp hb i hi
    exact ⟨hlt, by rwa [mem_iff, toU64_ofU64 i hlt]⟩
  · rintro ⟨hlt, hm⟩
    rwa [mem_iff, toU64_ofU64 i hlt] at hm

/-- Valid bitmaps with the same members are equal. -/
theorem Valid.ext (hb : b.Valid) (hc : c.Valid) (h : b.members = c.members) : b = c := by
  have hmem : ∀ t, t ∈ b ↔ t ∈ c := fun t => Set.ext_iff.mp h t
  refine Bitmap.ext (BitVec.eq_of_getLsbD_eq fun i _ => Bool.eq_iff_iff.mpr ?_)
  rw [hb.getLsbD_iff, hc.getLsbD_iff, hmem]

/-! ## Members of the operations -/

@[simp]
theorem not_mem_new (t : T) : t ∉ (new : Bitmap T) := by simp [mem_iff, new]

@[simp]
theorem mem_union : t ∈ b.union c ↔ t ∈ b ∨ t ∈ c := by simp [mem_iff, union]

@[simp]
theorem mem_intersection : t ∈ b.intersection c ↔ t ∈ b ∧ t ∈ c := by simp [mem_iff, intersection]

@[simp]
theorem mem_insert {s : T} : t ∈ b.insert s ↔ t = s ∨ t ∈ b := by
  simp [mem_iff, insert, toU64_eq_iff, or_comm]

/-- `remove` toggles the membership of the item. -/
theorem mem_remove {s : T} : t ∈ b.remove s ↔ (t ∈ b ↔ t ≠ s) := by
  by_cases h : t = s <;> simp [mem_iff, remove, toU64_eq_iff, h]

@[simp]
theorem mem_insertMany : t ∈ b.insertMany items ↔ t ∈ items ∨ t ∈ b := by
  induction items generalizing b with
  | nil => simp [insertMany]
  | cons s items ih =>
    have : t ∈ (b.insert s).insertMany items ↔ t ∈ items ∨ t ∈ b.insert s := ih
    rw [insertMany, foldl_cons, ← insertMany, this, mem_insert, mem_cons]
    tauto

@[simp]
theorem mem_removeMany : t ∈ b.removeMany items ↔ t ∈ b ∧ t ∉ items := by
  induction items generalizing b with
  | nil => simp [removeMany]
  | cons s items ih =>
    have hb : t ∈ (⟨b.bitmap &&& ~~~bit s⟩ : Bitmap T) ↔ t ∈ b ∧ t ≠ s := by
      rw [mem_iff, mem_iff, BitVec.getLsbD_and, BitVec.getLsbD_not, getLsbD_bit]
      simp [toU64_lt t, toU64_eq_iff]
    rw [removeMany, foldl_cons, ← removeMany, ih, hb, mem_cons]
    tauto

/-- Items that are not valid are left out. -/
theorem mem_fromIter : t ∈ (fromIter items : Bitmap T) ↔ t ∈ items ∧ isValid t = true := by
  suffices h : ∀ b : Bitmap T,
      t ∈ items.foldl (fun b item => if isValid item then b.insert item else b) b ↔
        (t ∈ items ∧ isValid t = true) ∨ t ∈ b by
    simpa [fromIter] using h new
  induction items with
  | nil => simp
  | cons s items ih =>
    intro b
    rw [foldl_cons, ih, mem_cons]
    by_cases hs : isValid s = true
    · rw [if_pos hs, mem_insert]
      constructor
      · rintro (⟨h, hv⟩ | rfl | h)
        exacts [.inl ⟨.inr h, hv⟩, .inl ⟨.inl rfl, hs⟩, .inr h]
      · rintro (⟨rfl | h, hv⟩ | h)
        exacts [.inr (.inl rfl), .inl ⟨h, hv⟩, .inr (.inr h)]
    · rw [if_neg hs]
      constructor
      · exact Or.imp_left (And.imp_left .inr)
      · rintro (⟨rfl | h, hv⟩ | h)
        exacts [absurd hv hs, .inl ⟨h, hv⟩, .inr h]

/-! ## Validity -/

theorem valid_new : (new : Bitmap T).Valid := Nat.two_pow_pos _

theorem members_union (b c : Bitmap T) : (b.union c).members = b.members ∪ c.members :=
  Set.ext fun _ => mem_union

theorem Valid.union (hb : b.Valid) (hc : c.Valid) : (b.union c).Valid := by
  rw [valid_iff] at *
  intro i hi
  rw [Bitmap.union, BitVec.getLsbD_or, Bool.or_eq_true] at hi
  exact hi.elim (hb i) (hc i)

theorem Valid.insert (hb : b.Valid) (ht : isValid t = true) : (b.insert t).Valid := by
  rw [valid_iff] at *
  intro i hi
  rw [Bitmap.insert, BitVec.getLsbD_or, getLsbD_bit, Bool.or_eq_true, decide_eq_true_iff] at hi
  rcases hi with hi | rfl
  · exact hb i hi
  · exact (isValid_iff t).mp ht

theorem Valid.insertMany (hb : b.Valid) (hitems : ∀ t ∈ items, isValid t = true) :
    (b.insertMany items).Valid := by
  induction items generalizing b with
  | nil => exact hb
  | cons s items ih =>
    exact ih (hb.insert (hitems s mem_cons_self)) fun t ht => hitems t (mem_cons_of_mem _ ht)

theorem Valid.removeMany (hb : b.Valid) (items : List T) : (b.removeMany items).Valid := by
  induction items generalizing b with
  | nil => exact hb
  | cons s items ih => exact ih (Nat.lt_of_le_of_lt Nat.and_le_left hb)

theorem valid_fromIter (items : List T) : (fromIter items : Bitmap T).Valid := by
  suffices h : ∀ b : Bitmap T, b.Valid →
      (items.foldl (fun b item => if isValid item then b.insert item else b) b).Valid from
    h new valid_new
  induction items with
  | nil => exact fun _ hb => hb
  | cons s items ih =>
    intro b hb
    refine ih _ ?_
    show (if isValid s then b.insert s else b).Valid
    split
    · exact hb.insert ‹_›
    · exact hb

/-- Toggling valid bits keeps a bitmap valid. -/
theorem Valid.xor (hb : b.Valid) (hc : c.Valid) : (⟨b.bitmap ^^^ c.bitmap⟩ : Bitmap T).Valid := by
  rw [valid_iff] at *
  intro i hi
  by_contra hge
  have hb' : b.bitmap.getLsbD i = false := Bool.eq_false_iff.mpr fun h => hge (hb i h)
  have hc' : c.bitmap.getLsbD i = false := Bool.eq_false_iff.mpr fun h => hge (hc i h)
  simp [hb', hc'] at hi

/-- A valid bitmap is empty exactly when it has no member. -/
theorem Valid.isEmpty_iff (hb : b.Valid) : b.isEmpty = true ↔ b.members = ∅ := by
  constructor
  · intro h
    have h0 : b = new := Bitmap.ext (beq_iff_eq.mp h)
    exact Set.eq_empty_iff_forall_notMem.mpr fun t => h0 ▸ not_mem_new t
  · intro h
    have h0 : (new : Bitmap T).members = ∅ :=
      Set.eq_empty_iff_forall_notMem.mpr fun t => not_mem_new t
    rw [hb.ext valid_new (h.trans h0.symm)]
    rfl

theorem Valid.intersection (hc : c.Valid) : (b.intersection c).Valid := by
  rw [valid_iff] at *
  intro i hi
  rw [Bitmap.intersection, BitVec.getLsbD_and, Bool.and_eq_true] at hi
  exact hc i hi.2

/-- The test whether `b` has all the members of `c`. -/
theorem Valid.intersection_eq_iff (hc : c.Valid) : b.intersection c = c ↔ ∀ t ∈ c, t ∈ b := by
  constructor
  · intro h t ht
    rw [← h, mem_intersection] at ht
    exact ht.1
  · intro h
    refine hc.intersection.ext hc (Set.ext fun t => ?_)
    exact mem_intersection.trans (and_iff_right_of_imp (h t))

/-- The test whether `b` has any of the members of `c`. -/
theorem Valid.isEmpty_intersection_iff (hc : c.Valid) :
    (b.intersection c).isEmpty = false ↔ ∃ t ∈ c, t ∈ b := by
  rw [← Bool.not_eq_true, hc.intersection.isEmpty_iff, ← Ne, ← Set.nonempty_iff_ne_empty]
  exact exists_congr fun t => mem_intersection.trans and_comm

/-! ## Removing the items of another bitmap -/

/-- Calling `remove` for every item of a valid bitmap `r`, in any order, toggles them. -/
theorem foldl_remove_toList (b : Bitmap T) {r : Bitmap T} (hr : r.Valid) :
    r.toList.foldl remove b = ⟨b.bitmap ^^^ r.bitmap⟩ := by
  have h : ∀ (l : List ℕ) (b : Bitmap T), (∀ i ∈ l, i < max T) → (l.map ofU64).foldl remove b =
        ⟨l.foldl (fun g i => g ^^^ BitVec.twoPow 64 i) b.bitmap⟩ := by
    intro l
    induction l with
    | nil => exact fun _ _ => rfl
    | cons i l ih =>
      intro b hl
      rw [map_cons, foldl_cons, ih _ fun j hj => hl j (mem_cons_of_mem _ hj),
        remove, bit, toU64_ofU64 i (hl i mem_cons_self), foldl_cons]
  rw [toList, h _ _ fun i hi => valid_iff.mp hr i (mem_bits.mp hi), foldl_xor_bits]

/-- The items left after removing those of `r`: the symmetric difference. -/
theorem members_foldl_remove_toList (b : Bitmap T) {r : Bitmap T} (hr : r.Valid) :
    (r.toList.foldl remove b).members = symmDiff b.members r.members := by
  ext t
  rw [foldl_remove_toList b hr, Set.mem_symmDiff]
  simp only [members, Set.mem_ofPred_eq, mem_iff, BitVec.getLsbD_xor]
  cases b.bitmap.getLsbD (toU64 t) <;> cases r.bitmap.getLsbD (toU64 t) <;> simp

end Bitmap

end Inworkspace
