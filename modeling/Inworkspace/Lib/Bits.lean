import Mathlib.Data.Nat.Bitwise
import Mathlib.Data.List.Basic

/-!
# Bit vectors as sets of positions

A bit vector `x : BitVec w` is read as the set of the positions `i` with
`x.getLsbD i`. Its positions can be listed by popping the highest set bit
until none is left (`bits`), which is how a bit set is iterated over in
practice:

* `mem_bits`: the list has exactly the positions of the set bits;
* `foldl_xor_bits`: toggling the listed positions one after the other in a
  bit vector `g` gives `g ^^^ x`.
-/

namespace Inworkspace.Lib.Bits

open Nat

variable {w : ℕ} (x : BitVec w)

/-- The position of the highest set bit (`0` when there is none). -/
def topBit : ℕ :=
  x.toNat.log2

/-- The bit vector without its highest set bit. -/
def popTop : BitVec w :=
  x ^^^ BitVec.twoPow w (topBit x)

/-- The positions of the set bits, from the highest on, at most `fuel` of them. -/
def popBits : ℕ → BitVec w → List ℕ
  | 0, _ => []
  | fuel + 1, x => if x = 0 then [] else topBit x :: popBits fuel (popTop x)

/-- The positions of the set bits, from the highest to the lowest. -/
def bits : List ℕ :=
  popBits w x

variable {x} {fuel : ℕ} {i : ℕ}

theorem toNat_ne_zero (hx : x ≠ 0) : x.toNat ≠ 0 :=
  fun h => hx (BitVec.eq_of_toNat_eq (by simpa using h))

theorem topBit_lt_of_toNat_lt (hx : x ≠ 0) {n : ℕ} (hn : x.toNat < 2 ^ n) : topBit x < n :=
  (log2_lt (toNat_ne_zero hx)).mpr hn

theorem getLsbD_topBit (hx : x ≠ 0) : x.getLsbD (topBit x) = true := by
  exact testBit_log2 (toNat_ne_zero hx)

/-- No bit is set above the highest one. -/
theorem getLsbD_of_topBit_lt (hi : topBit x < i) : x.getLsbD i = false := by
  exact testBit_eq_false_of_lt (lt_of_lt_of_le lt_log2_self (Nat.pow_le_pow_right (by decide) hi))

theorem getLsbD_popTop (hx : x ≠ 0) (i : ℕ) :
    (popTop x).getLsbD i = (x.getLsbD i && decide (i ≠ topBit x)) := by
  rw [popTop]
  by_cases hi : i = topBit x
  · subst hi
    simp [getLsbD_topBit hx, topBit_lt_of_toNat_lt hx x.isLt]
  · simp [hi, Ne.symm hi]

/-- Popping the highest bit leaves lower ones, so the rest needs less fuel. -/
theorem popTop_toNat_lt (hx : x ≠ 0) (hfuel : x.toNat < 2 ^ (fuel + 1)) :
    (popTop x).toNat < 2 ^ fuel := by
  have htop : topBit x ≤ fuel := Nat.lt_succ_iff.mp (topBit_lt_of_toNat_lt hx hfuel)
  refine lt_pow_two_of_testBit _ fun i hi => ?_
  rw [BitVec.testBit_toNat, getLsbD_popTop hx]
  rcases eq_or_lt_of_le (htop.trans hi) with rfl | hlt
  · simp
  · simp [getLsbD_of_topBit_lt hlt]

/-- With one unit of fuel for each possible bit, all set bits are listed. -/
theorem mem_popBits (hx : x.toNat < 2 ^ fuel) : i ∈ popBits fuel x ↔ x.getLsbD i = true := by
  induction fuel generalizing x with
  | zero =>
    have : x = 0 := BitVec.eq_of_toNat_eq (by simpa using hx)
    simp [popBits, this]
  | succ fuel ih =>
    by_cases h0 : x = 0
    · simp [popBits, h0]
    rw [popBits, if_neg h0, List.mem_cons, ih (popTop_toNat_lt h0 hx), getLsbD_popTop h0]
    by_cases hi : i = topBit x
    · simp [hi, getLsbD_topBit h0]
    · simp [hi]

theorem mem_bits : i ∈ bits x ↔ x.getLsbD i = true := mem_popBits x.isLt

theorem lt_of_mem_bits (h : i ∈ bits x) : i < w := BitVec.lt_of_getLsbD (mem_bits.mp h)

theorem nodup_popBits (hx : x.toNat < 2 ^ fuel) : (popBits fuel x).Nodup := by
  induction fuel generalizing x with
  | zero => exact List.nodup_nil
  | succ fuel ih =>
    by_cases h0 : x = 0
    · simp [popBits, h0]
    · have hpop := popTop_toNat_lt h0 hx
      rw [popBits, if_neg h0, List.nodup_cons, mem_popBits hpop, getLsbD_popTop h0]
      exact ⟨by simp, ih hpop⟩

/-- No position is listed twice. -/
theorem nodup_bits (x : BitVec w) : (bits x).Nodup := nodup_popBits x.isLt

/-- Toggling the set bits of `x` one after the other is toggling all of them. -/
theorem foldl_xor_popBits (hx : x.toNat < 2 ^ fuel) (g : BitVec w) :
    (popBits fuel x).foldl (fun g i => g ^^^ BitVec.twoPow w i) g = g ^^^ x := by
  induction fuel generalizing x g with
  | zero =>
    have : x = 0 := BitVec.eq_of_toNat_eq (by simpa using hx)
    simp [popBits, this]
  | succ fuel ih =>
    by_cases h0 : x = 0
    · simp [popBits, h0]
    rw [popBits, if_neg h0, List.foldl_cons, ih (popTop_toNat_lt h0 hx), popTop]
    -- the bit toggled first is toggled back inside `popTop x`
    rw [BitVec.xor_assoc, BitVec.xor_comm x, ← BitVec.xor_assoc (BitVec.twoPow w _),
      BitVec.xor_self, BitVec.zero_xor]

theorem foldl_xor_bits (g x : BitVec w) :
    (bits x).foldl (fun g i => g ^^^ BitVec.twoPow w i) g = g ^^^ x :=
  foldl_xor_popBits x.isLt g

end Inworkspace.Lib.Bits
