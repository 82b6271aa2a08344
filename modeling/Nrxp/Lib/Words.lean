import Mathlib.Algebra.Order.Ring.Nat
import Mathlib.Data.Nat.Notation

/-!
# Bits of 64-bit words

Single bits and low-bit masks, as numbers: a word with a bit set or cleared, and a word put together
from the high bits of one and the low bits of another.
-/

namespace UInt64

theorem toNat_one_shiftLeft {k : ℕ} (hk : k < 64) :
    ((1 : UInt64) <<< UInt64.ofNat k).toNat = 2 ^ k := by
  have hlt : 2 ^ k < 2 ^ 64 := Nat.pow_lt_pow_right (by decide) hk
  rw [UInt64.toNat_shiftLeft, UInt64.toNat_ofNat', Nat.mod_eq_of_lt (show k < 2 ^ 64 by omega),
    Nat.mod_eq_of_lt hk, UInt64.toNat_one, Nat.one_shiftLeft, Nat.mod_eq_of_lt hlt]

theorem testBit_not (x : UInt64) (j : ℕ) :
    (~~~x).toNat.testBit j = (decide (j < 64) && !x.toNat.testBit j) := by
  have h : (~~~x).toNat = 2 ^ 64 - (x.toNat + 1) := by
    rw [UInt64.toNat_not]
    show 2 ^ 64 - 1 - x.toNat = _
    omega
  rw [h, Nat.testBit_two_pow_sub_succ x.toNat_lt]

/-- Setting a bit. -/
theorem testBit_or_one_shiftLeft (x : UInt64) {k : ℕ} (hk : k < 64) (j : ℕ) :
    (x ||| 1 <<< UInt64.ofNat k).toNat.testBit j = (x.toNat.testBit j || decide (k = j)) := by
  rw [UInt64.toNat_or, Nat.testBit_or, toNat_one_shiftLeft hk, Nat.testBit_two_pow]

/-- Clearing a bit. -/
theorem testBit_and_not_one_shiftLeft (x : UInt64) {k : ℕ} (hk : k < 64) (j : ℕ) :
    (x &&& ~~~(1 <<< UInt64.ofNat k)).toNat.testBit j
      = (x.toNat.testBit j && !decide (k = j)) := by
  rw [UInt64.toNat_and, Nat.testBit_and, testBit_not, toNat_one_shiftLeft hk, Nat.testBit_two_pow]
  rcases Nat.lt_or_ge j 64 with hj | hj
  · simp [hj]
  · have hx : x.toNat.testBit j = false :=
      Nat.testBit_lt_two_pow (x.toNat_lt.trans_le (Nat.pow_le_pow_right (by decide) hj))
    simp [hx]

/-- Testing a bit. -/
theorem and_one_shiftLeft_ne_zero (x : UInt64) {k : ℕ} (hk : k < 64) :
    (x &&& 1 <<< UInt64.ofNat k != 0) = x.toNat.testBit k := by
  have h : (x &&& 1 <<< UInt64.ofNat k).toNat = if x.toNat.testBit k then 2 ^ k else 0 := by
    rw [UInt64.toNat_and, toNat_one_shiftLeft hk]
    apply Nat.eq_of_testBit_eq
    intro j
    rw [Nat.testBit_and, Nat.testBit_two_pow]
    by_cases hj : k = j
    · subst hj
      cases x.toNat.testBit k <;> simp
    · cases x.toNat.testBit k <;> simp [hj]
  rw [Bool.eq_iff_iff, bne_iff_ne, ne_eq, ← UInt64.toNat_inj, h, UInt64.toNat_zero]
  cases x.toNat.testBit k <;> simp

/-- Setting a bit that is set changes nothing. -/
theorem or_one_shiftLeft_eq_self {x : UInt64} {k : ℕ} (hk : k < 64) (h : x.toNat.testBit k = true) :
    x ||| 1 <<< UInt64.ofNat k = x := by
  apply UInt64.toNat_inj.mp
  apply Nat.eq_of_testBit_eq
  intro j
  rw [testBit_or_one_shiftLeft x hk]
  by_cases hj : k = j
  · subst hj
    simp [h]
  · simp [hj]

theorem toNat_mask {k : ℕ} (hk : k < 64) :
    ((1 : UInt64) <<< UInt64.ofNat k - 1).toNat = 2 ^ k - 1 := by
  have h := toNat_one_shiftLeft hk
  rw [UInt64.toNat_sub_of_le, h, UInt64.toNat_one]
  rw [UInt64.le_iff_toNat_le, h, UInt64.toNat_one]
  exact Nat.one_le_two_pow

/-- The low `k` bits of a word. -/
theorem toNat_and_mask (x : UInt64) {k : ℕ} (hk : k < 64) :
    (x &&& ((1 : UInt64) <<< UInt64.ofNat k - 1)).toNat = x.toNat % 2 ^ k := by
  rw [UInt64.toNat_and, toNat_mask hk, Nat.and_two_pow_sub_one_eq_mod]

/-- The high bits of one word and the low `k` bits of another. -/
theorem toNat_or_of_masks (x y : UInt64) {k : ℕ} (hk : k < 64) :
    ((x &&& ~~~((1 : UInt64) <<< UInt64.ofNat k - 1))
      ||| (y &&& ((1 : UInt64) <<< UInt64.ofNat k - 1))).toNat
      = x.toNat / 2 ^ k * 2 ^ k + y.toNat % 2 ^ k := by
  have hhigh : (x &&& ~~~((1 : UInt64) <<< UInt64.ofNat k - 1)).toNat
      = 2 ^ k * (x.toNat / 2 ^ k) := by
    apply Nat.eq_of_testBit_eq
    intro j
    rw [UInt64.toNat_and, Nat.testBit_and, testBit_not, toNat_mask hk, Nat.testBit_two_pow_sub_one,
      Nat.testBit_two_pow_mul, Nat.testBit_div_two_pow]
    rcases Nat.lt_or_ge j k with hj | hj
    · simp [hj, Nat.not_le_of_lt hj]
    · rw [Nat.sub_add_cancel hj]
      rcases Nat.lt_or_ge j 64 with hj' | hj'
      · simp [hj, hj', Nat.not_lt_of_le hj]
      · have hx : x.toNat.testBit j = false :=
          Nat.testBit_lt_two_pow (x.toNat_lt.trans_le (Nat.pow_le_pow_right (by decide) hj'))
        simp [hx]
  rw [UInt64.toNat_or, hhigh, toNat_and_mask y hk,
    ← Nat.two_pow_add_eq_or_of_lt (Nat.mod_lt _ (Nat.two_pow_pos k)), Nat.mul_comm]

end UInt64
