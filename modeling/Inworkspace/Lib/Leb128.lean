import Mathlib.Data.Nat.Bitwise
import Mathlib.Data.List.Basic

/-!
# Numbers of variable length

Unsigned numbers in groups of seven bits, the lowest first, with the highest bit of a byte set
if another one follows. A number is read with a list of shifts, one for each byte it may have,
into an integer of some width; what does not fit is lost. Numbers that fit are read back,
whatever follows them (`fromLeb128_toLeb128`), and so are lists of them (`readEach_flatMap`).
-/

namespace Inworkspace.Lib.Leb128

open List

/-- The bytes of a number. -/
def toLeb128 (value : ℕ) : List UInt8 :=
  if value < 0x80 then [UInt8.ofNat value]
  else UInt8.ofNat (value % 0x80 + 0x80) :: toLeb128 (value / 0x80)
termination_by value

/-- The number that bytes start with, and the bytes that follow. -/
def fromLeb128 (width : ℕ) : (shifts : List ℕ) → (result : ℕ) → List UInt8 →
    Option (ℕ × List UInt8)
  | shift :: shifts, result, byte :: bytes =>
    let group := byte.toNat % 0x80 * 2 ^ shift % 2 ^ width
    if byte.toNat < 0x80 then some (result ||| group, bytes)
    else fromLeb128 width shifts (result ||| group) bytes
  | _, _, _ => none

section RoundTrip

variable {width : ℕ}

/-- A group goes above what has been read. -/
theorem or_group {result group i : ℕ} (hresult : result < 2 ^ i)
    (hgroup : group * 2 ^ i < 2 ^ width) :
    result ||| group * 2 ^ i % 2 ^ width = result + group * 2 ^ i := by
  rw [Nat.mod_eq_of_lt hgroup, Nat.mul_comm, Nat.or_comm, ← Nat.two_pow_add_eq_or_of_lt hresult,
    Nat.add_comm]

theorem fromLeb128_last {value : ℕ} (hvalue : value < 0x80) {result i : ℕ}
    (hresult : result < 2 ^ i) (hwidth : value * 2 ^ i < 2 ^ width) (shifts : List ℕ)
    (rest : List UInt8) :
    fromLeb128 width (i :: shifts) result (toLeb128 value ++ rest) =
      some (result + value * 2 ^ i, rest) := by
  have hbyte : (UInt8.ofNat value).toNat = value := by
    rw [UInt8.toNat_ofNat', Nat.mod_eq_of_lt (by omega)]
  rw [toLeb128, if_pos hvalue, singleton_append, fromLeb128, hbyte, Nat.mod_eq_of_lt hvalue,
    if_pos hvalue, or_group hresult hwidth]

/-- A number that fits is read back, after `i` groups have been read. -/
theorem fromLeb128_toLeb128 (count : ℕ) {value result i : ℕ} (hresult : result < 2 ^ (7 * i))
    (hwidth : value * 2 ^ (7 * i) < 2 ^ width) (hvalue : value < 2 ^ (7 * (count + 1)))
    (rest : List UInt8) :
    fromLeb128 width ((range' i (count + 1)).map (7 * ·)) result (toLeb128 value ++ rest) =
      some (result + value * 2 ^ (7 * i), rest) := by
  induction count generalizing value result i with
  | zero => exact fromLeb128_last (by simpa using hvalue) hresult hwidth [] rest
  | succ count ih =>
    by_cases hlast : value < 0x80
    · exact fromLeb128_last hlast hresult hwidth _ rest
    have hbyte : (UInt8.ofNat (value % 0x80 + 0x80)).toNat = value % 0x80 + 0x80 := by
      rw [UInt8.toNat_ofNat', Nat.mod_eq_of_lt (by omega)]
    have hpow : 2 ^ (7 * (i + 1)) = 0x80 * 2 ^ (7 * i) := by
      rw [Nat.mul_succ, Nat.pow_add, Nat.mul_comm]
    -- the number is its lowest group and the others
    have hsplit : value * 2 ^ (7 * i) =
        value % 0x80 * 2 ^ (7 * i) + value / 0x80 * 2 ^ (7 * (i + 1)) := by
      rw [hpow, ← Nat.mul_assoc, ← Nat.add_mul, Nat.mul_comm (value / 0x80), Nat.mod_add_div]
    have hmod : value % 0x80 < 0x80 := Nat.mod_lt _ (by decide)
    rw [range'_succ, map_cons, toLeb128, if_neg hlast, cons_append, fromLeb128,
      hbyte, Nat.add_mod_right, Nat.mod_mod, if_neg (by omega), or_group hresult (by omega), ih]
    · rw [hsplit, Nat.add_assoc]
    · calc result + value % 0x80 * 2 ^ (7 * i)
          < 2 ^ (7 * i) + value % 0x80 * 2 ^ (7 * i) := Nat.add_lt_add_right hresult _
        _ = (value % 0x80 + 1) * 2 ^ (7 * i) := by rw [Nat.add_mul, Nat.one_mul, Nat.add_comm]
        _ ≤ 2 ^ (7 * (i + 1)) := by rw [hpow]; exact Nat.mul_le_mul_right _ hmod
    · omega
    · rw [Nat.div_lt_iff_lt_mul (by decide)]
      rwa [Nat.mul_succ, Nat.pow_add] at hvalue

end RoundTrip

/-- The shifts of integers of 64 bits. -/
def shifts64 : List ℕ := [0, 7, 14, 21, 28, 35, 42, 49, 56, 63]

/-- The integer of 64 bits that bytes start with, and the bytes that follow. -/
def next64 (bytes : List UInt8) : Option (ℕ × List UInt8) := fromLeb128 64 shifts64 0 bytes

theorem next64_toLeb128 {value : ℕ} (h : value < 2 ^ 64) (rest : List UInt8) :
    next64 (toLeb128 value ++ rest) = some (value, rest) := by
  have hread := @fromLeb128_toLeb128 64 9 value 0 0 (Nat.two_pow_pos _) (by simpa using h)
    (h.trans (by decide)) rest
  rwa [Nat.zero_add, Nat.pow_zero, Nat.mul_one] at hread

/-- The shifts of integers of 32 bits. -/
def shifts32 : List ℕ := [0, 7, 14, 21, 28]

/-- The integer of 32 bits that bytes start with, and the bytes that follow. -/
def next32 (bytes : List UInt8) : Option (ℕ × List UInt8) := fromLeb128 32 shifts32 0 bytes

theorem next32_toLeb128 {value : ℕ} (h : value < 2 ^ 32) (rest : List UInt8) :
    next32 (toLeb128 value ++ rest) = some (value, rest) := by
  have hread := @fromLeb128_toLeb128 32 4 value 0 0 (Nat.two_pow_pos _) (by simpa using h)
    (h.trans (by decide)) rest
  rwa [Nat.zero_add, Nat.pow_zero, Nat.mul_one] at hread

/-- What is read fits. -/
theorem fromLeb128_lt {width : ℕ} {shifts : List ℕ} {result value : ℕ} {bytes rest : List UInt8}
    (hresult : result < 2 ^ width) (h : fromLeb128 width shifts result bytes = some (value, rest)) :
    value < 2 ^ width := by
  induction shifts generalizing result bytes with
  | nil => contradiction
  | cons shift shifts ih =>
    rcases bytes with _ | ⟨byte, bytes⟩
    · contradiction
    have hor : result ||| byte.toNat % 0x80 * 2 ^ shift % 2 ^ width < 2 ^ width :=
      Nat.or_lt_two_pow hresult (Nat.mod_lt _ (Nat.two_pow_pos _))
    rw [fromLeb128] at h
    split at h
    · obtain ⟨rfl, -⟩ := Prod.mk.inj (Option.some.inj h)
      exact hor
    · exact ih hor h

/-- As many integers as are expected, each with what it does. -/
def readEach {σ : Type} (f : σ → ℕ → σ) : (count : ℕ) → σ → List UInt8 → Option (σ × List UInt8)
  | 0, s, bytes => some (s, bytes)
  | count + 1, s, bytes => do
    let (value, bytes) ← next64 bytes
    readEach f count (f s value) bytes

/-- A list of integers is read back. -/
theorem readEach_flatMap {σ : Type} (f : σ → ℕ → σ) {values : List ℕ}
    (h : ∀ value ∈ values, value < 2 ^ 64) (s : σ) (rest : List UInt8) :
    readEach f values.length s (values.flatMap toLeb128 ++ rest) = some (values.foldl f s, rest) := by
  induction values generalizing s with
  | nil => rfl
  | cons value values ih =>
    rw [flatMap_cons, append_assoc, length_cons, readEach, next64_toLeb128 (h value mem_cons_self)]
    exact ih (fun value hvalue => h value (mem_cons_of_mem _ hvalue)) (f s value)

end Inworkspace.Lib.Leb128
