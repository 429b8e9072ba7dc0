import Mathlib.Data.Nat.Bitwise
import Mathlib.Tactic.NormNum

/-!
# Machine words

Masks, shifts and flags of 64-bit words as arithmetic on their values: a field of
`m` bits from bit `k` on is a quotient and a remainder, and setting flags below a
multiple of `2 ^ k` is an addition.  Signed words are read as integers.
-/

namespace AcharyaOS.Foundation

theorem and_fieldMask (n m k : Nat) : n &&& (2 ^ m - 1) * 2 ^ k = n / 2 ^ k % 2 ^ m * 2 ^ k := by
  apply Nat.eq_of_testBit_eq
  intro i
  rw [Nat.testBit_and, Nat.testBit_mul_two_pow, Nat.testBit_mul_two_pow,
    Nat.testBit_two_pow_sub_one, Nat.testBit_mod_two_pow, Nat.testBit_div_two_pow]
  by_cases hk : k ≤ i
  · rw [Nat.sub_add_cancel hk]
    simp [hk, Bool.and_comm]
  · simp [hk]

/-- Flags fit below a multiple of `2 ^ k`. -/
theorem or_eq_add_of_dvd {a b k : Nat} (ha : 2 ^ k ∣ a) (hb : b < 2 ^ k) : a ||| b = a + b := by
  obtain ⟨c, rfl⟩ := ha
  exact (Nat.two_pow_add_eq_or_of_lt hb c).symm

section UInt64

variable (x : UInt64)

/-- The code's `(x >> k) & mask` for a mask of `m` low bits. -/
theorem toNat_shiftRight_and {k mask : UInt64} {m : Nat} (hk : k.toNat < 64)
    (hmask : mask.toNat = 2 ^ m - 1) :
    ((x >>> k) &&& mask).toNat = x.toNat / 2 ^ k.toNat % 2 ^ m := by
  rw [UInt64.toNat_and, UInt64.toNat_shiftRight, Nat.mod_eq_of_lt hk, hmask,
    Nat.shiftRight_eq_div_pow, Nat.and_two_pow_sub_one_eq_mod]

theorem toNat_lowMask {mask : UInt64} {m : Nat} (hmask : mask.toNat = 2 ^ m - 1) :
    (x &&& mask).toNat = x.toNat % 2 ^ m := by
  rw [UInt64.toNat_and, hmask, Nat.and_two_pow_sub_one_eq_mod]

theorem toNat_and_fieldMask {mask : UInt64} {m k : Nat}
    (hmask : mask.toNat = (2 ^ m - 1) * 2 ^ k) :
    (x &&& mask).toNat = x.toNat / 2 ^ k % 2 ^ m * 2 ^ k := by
  rw [UInt64.toNat_and, hmask, and_fieldMask]

theorem toNat_or_of_dvd {x y : UInt64} {k : Nat} (hx : 2 ^ k ∣ x.toNat)
    (hy : y.toNat < 2 ^ k) : (x ||| y).toNat = x.toNat + y.toNat := by
  rw [UInt64.toNat_or, or_eq_add_of_dvd hx hy]

/-- A sum that is not below its first term has not wrapped. -/
theorem toNat_add_of_not_lt {x y : UInt64} (h : ¬ x + y < x) :
    (x + y).toNat = x.toNat + y.toNat := by
  have hy := y.toNat_lt
  rw [UInt64.not_lt, UInt64.le_iff_toNat_le, UInt64.toNat_add] at h
  rw [UInt64.toNat_add]
  omega

theorem and_bit_beq_zero {bit : UInt64} {k : Nat} (hbit : bit.toNat = 2 ^ k) :
    (x &&& bit == 0) = !x.toNat.testBit k := by
  have hand : (x &&& bit).toNat = (x.toNat.testBit k).toNat * 2 ^ k := by
    rw [UInt64.toNat_and, hbit, Nat.and_two_pow]
  rw [Bool.eq_iff_iff, beq_iff_eq, ← UInt64.toNat_inj, hand]
  cases x.toNat.testBit k <;> simp

end UInt64

/-! The same for words of 32 bits. -/

theorem toNat_lowMask_u32 (x : UInt32) {mask : UInt32} {m : Nat} (hmask : mask.toNat = 2 ^ m - 1) :
    (x &&& mask).toNat = x.toNat % 2 ^ m := by
  rw [UInt32.toNat_and, hmask, Nat.and_two_pow_sub_one_eq_mod]

theorem toNat_shiftRight_and_u32 (x : UInt32) {k mask : UInt32} {m : Nat} (hk : k.toNat < 32)
    (hmask : mask.toNat = 2 ^ m - 1) :
    ((x >>> k) &&& mask).toNat = x.toNat / 2 ^ k.toNat % 2 ^ m := by
  rw [UInt32.toNat_and, UInt32.toNat_shiftRight, Nat.mod_eq_of_lt hk, hmask,
    Nat.shiftRight_eq_div_pow, Nat.and_two_pow_sub_one_eq_mod]

theorem toNat_bit_u32 {k : UInt32} (hk : k.toNat < 32) :
    ((1 : UInt32) <<< k).toNat = 2 ^ k.toNat := by
  have hpow : 2 ^ k.toNat < 2 ^ 32 := Nat.pow_lt_pow_right (by decide) hk
  have hone : (1 : UInt32).toNat = 1 := rfl
  rw [UInt32.toNat_shiftLeft, Nat.mod_eq_of_lt hk, hone, Nat.one_shiftLeft, Nat.mod_eq_of_lt hpow]

theorem testBit_clearBit_u32 (x : UInt32) {k : UInt32} (hk : k.toNat < 32) {i : Nat}
    (hi : i < 32) :
    (x &&& ~~~((1 : UInt32) <<< k)).toNat.testBit i =
      (x.toNat.testBit i && decide (i ≠ k.toNat)) := by
  have hnot : (~~~((1 : UInt32) <<< k)).toNat.testBit i =
      !((1 : UInt32) <<< k).toNat.testBit i := by
    show (~~~((1 : UInt32) <<< k).toBitVec).toNat.testBit i = _
    rw [BitVec.testBit_toNat, BitVec.getLsbD_not, decide_eq_true hi, Bool.true_and]
    rfl
  rw [UInt32.toNat_and, Nat.testBit_and, hnot, toNat_bit_u32 hk, Nat.testBit_two_pow,
    ← decide_not, decide_eq_decide.mpr ne_comm]

/-! ## Signed words -/

theorem toInt_toInt32 {x : UInt32} (h : x.toNat < 2 ^ 31) : x.toInt32.toInt = x.toNat := by
  show x.toBitVec.toInt = x.toBitVec.toNat
  apply BitVec.toInt_eq_toNat_of_lt
  show 2 * x.toNat < 2 ^ 32
  omega

theorem toInt_toInt8 (x : UInt8) :
    x.toInt8.toInt = if x.toNat < 128 then (x.toNat : Int) else x.toNat - 256 := by
  show x.toBitVec.toInt = _
  rw [BitVec.toInt_eq_toNat_cond]
  have hnat : x.toBitVec.toNat = x.toNat := rfl
  rw [hnat]
  split <;> split <;> omega

/-- A sum that fits into 32 bits is reached on the ring of 32 bits by no other small step. -/
theorem bmod_add_eq_iff {a step meant : Int} (hlow : -2 ^ 31 ≤ a + meant)
    (hhigh : a + meant < 2 ^ 31) (hnear : step - meant ≤ 256 ∧ meant - step ≤ 256) :
    (a + step).bmod (2 ^ 32) = a + meant ↔ step = meant := by
  rw [Int.bmod_def]
  split <;> omega

end AcharyaOS.Foundation
