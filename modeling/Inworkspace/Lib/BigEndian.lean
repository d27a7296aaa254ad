import Mathlib.Tactic.Positivity
import Mathlib.Tactic.Ring

/-!
# The order of numbers and of their bytes

Numbers of a fixed number of bytes, the highest byte first. The bytes are read back
(`ofBigEndian_bigEndian`), and they are ordered, one after the other, as the numbers are
(`bigEndian_lt_bigEndian`). This stays so behind the same bytes, but not behind different
ones: the rest of a longer text is compared with the bytes of the number behind a shorter one.
What can be said there is that nothing is before zero (`append_zero_le_append`), and that
texts of the same length come first (`append_lt_append_of_length_eq`).
-/

namespace Inworkspace.Lib.BigEndian

open List Nat

variable {a b : List ℕ}

/-- The `k` bytes of a number, the highest first. -/
def bigEndian : (k n : ℕ) → List ℕ
  | 0, _ => []
  | k + 1, n => n / 256 ^ k % 256 :: bigEndian k n

@[simp] theorem length_bigEndian (k n : ℕ) : (bigEndian k n).length = k := by
  induction k with
  | zero => rfl
  | succ k ih => rw [bigEndian, length_cons, ih]

theorem lt_of_mem_bigEndian {k n byte : ℕ} (h : byte ∈ bigEndian k n) : byte < 256 := by
  induction k with
  | zero => cases h
  | succ k ih =>
    rcases mem_cons.mp h with rfl | h
    · exact mod_lt _ (by decide)
    · exact ih h

/-- The number that some bytes are. -/
def ofBigEndian (bytes : List ℕ) : ℕ := bytes.foldl (fun n byte => n * 256 + byte) 0

theorem foldl_bigEndian (k n m : ℕ) :
    (bigEndian k n).foldl (fun n byte => n * 256 + byte) m = m * 256 ^ k + n % 256 ^ k := by
  induction k generalizing m with
  | zero => simp [bigEndian, mod_one]
  | succ k ih =>
    rw [bigEndian, foldl_cons, ih, mod_pow_succ]
    ring

/-- The bytes of a number are read back, as far as it fits. -/
theorem ofBigEndian_bigEndian (k n : ℕ) : ofBigEndian (bigEndian k n) = n % 256 ^ k := by
  rw [ofBigEndian, foldl_bigEndian, zero_mul, zero_add]

/-- A number of `k + 1` bytes is before another if its first byte is, or else its rest. -/
theorem mod_pow_succ_lt_mod_pow_succ (k a b : ℕ) :
    a % 256 ^ (k + 1) < b % 256 ^ (k + 1) ↔
      a / 256 ^ k % 256 < b / 256 ^ k % 256 ∨
        a / 256 ^ k % 256 = b / 256 ^ k % 256 ∧ a % 256 ^ k < b % 256 ^ k := by
  have hpos : 0 < 256 ^ k := by positivity
  have hda := mod_lt a hpos
  have hdb := mod_lt b hpos
  rw [mod_pow_succ, mod_pow_succ]
  generalize a / 256 ^ k % 256 = high
  generalize b / 256 ^ k % 256 = high'
  generalize 256 ^ k = m at *
  rcases lt_trichotomy high high' with hlt | rfl | hgt
  · have hmul : m * (high + 1) ≤ m * high' := mul_le_mul_left m hlt
    rw [mul_succ] at hmul
    exact iff_of_true (by omega) (.inl hlt)
  · simp
  · have hmul : m * (high' + 1) ≤ m * high := mul_le_mul_left m hgt
    rw [mul_succ] at hmul
    exact iff_of_false (by omega) (by omega)

/-- Bytes are ordered as the numbers are, as far as they fit. -/
theorem bigEndian_lt_bigEndian (k a b : ℕ) :
    bigEndian k a < bigEndian k b ↔ a % 256 ^ k < b % 256 ^ k := by
  induction k with
  | zero => simp [bigEndian, mod_one]
  | succ k ih => rw [bigEndian, bigEndian, cons_lt_cons_iff, ih, mod_pow_succ_lt_mod_pow_succ]

theorem append_lt_append_left (c a b : List ℕ) : c ++ a < c ++ b ↔ a < b := by
  induction c with
  | nil => rfl
  | cons x c ih => rw [cons_append, cons_append, cons_lt_cons_iff, ih]; simp

theorem append_le_append_left (c a b : List ℕ) : c ++ a ≤ c ++ b ↔ a ≤ b := by
  rw [← not_lt, append_lt_append_left, not_lt]

/-- Behind a text and a later one: what follows the first text is compared with the rest of the
    other, if that goes on behind it. -/
theorem append_le_append_iff (h : a ≤ b) (c d : List ℕ) :
    a ++ c ≤ b ++ d ↔ ¬∃ rest, b = a ++ rest ∧ rest ++ d < c := by
  induction a generalizing b with
  | nil => simp
  | cons x a ih =>
    obtain _ | ⟨y, b⟩ := b
    · exact absurd h (not_le.mpr (nil_lt_cons x a))
    rw [← not_lt, cons_lt_cons_iff] at h
    rw [cons_append, cons_append, ← not_lt, cons_lt_cons_iff]
    rcases lt_trichotomy x y with hlt | rfl | hgt
    · simp [hlt.not_gt, hlt.ne']
    · simpa using ih (not_lt.mp fun hlt => h (.inr ⟨rfl, hlt⟩))
    · exact absurd (.inl hgt) h

/-- Texts of the same length are compared before what is behind them. -/
theorem append_lt_append_of_length_eq (hlength : a.length = b.length)
    (hlt : a < b) (c d : List ℕ) : a ++ c < b ++ d := by
  refine lt_of_le_of_ne ((append_le_append_iff hlt.le c d).mpr ?_) fun heq =>
    hlt.ne (append_inj_left heq hlength)
  rintro ⟨rest, rfl, -⟩
  exact hlt.ne (by simpa using hlength)

/-- Nothing of at least `k` bytes is before the `k` bytes of zero. -/
theorem bigEndian_zero_le {k : ℕ} {bytes : List ℕ} (hlength : k ≤ bytes.length) :
    bigEndian k 0 ≤ bytes := by
  induction k generalizing bytes with
  | zero => exact not_lt.mp (not_lt_nil bytes)
  | succ k ih =>
    obtain _ | ⟨byte, bytes⟩ := bytes
    · simp at hlength
    rw [bigEndian, Nat.zero_div, ← not_lt, cons_lt_cons_iff]
    have hrest := ih (by simpa using hlength)
    rintro (hlt | ⟨-, hlt⟩)
    · exact absurd hlt (not_lt_zero _)
    · exact absurd hlt (not_lt.mpr hrest)

/-- Zero behind a text is before everything behind this text or a later one. -/
theorem append_zero_le_append (hle : a ≤ b) {k : ℕ} {c : List ℕ}
    (hlength : k ≤ c.length) : a ++ bigEndian k 0 ≤ b ++ c := by
  rw [append_le_append_iff hle]
  rintro ⟨rest, -, hlt⟩
  exact not_lt.mpr (bigEndian_zero_le (by rw [length_append]; omega)) hlt

end Inworkspace.Lib.BigEndian
