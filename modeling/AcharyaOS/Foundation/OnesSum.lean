import Mathlib.Algebra.Group.Nat.Defs
import Mathlib.Data.Nat.Bitwise

/-!
# One's complement sums

The sum of the 16-bit words of a text of bytes, high byte first, and the end-around carry
that folds a number into a word.  Folding keeps the residue modulo 2^16 - 1, and of the two
words with residue zero it gives the smaller to the number zero alone.
-/

namespace AcharyaOS.Foundation

/-! ## The end-around carry -/

/-- The number among `1, ..., m` with the residue of `n` modulo `m`, and zero for zero. -/
def endAround (m n : Nat) : Nat := if n = 0 then 0 else (n - 1) % m + 1

theorem endAround_of_le {m n : Nat} (h : n ≤ m) : endAround m n = n := by
  unfold endAround
  by_cases hzero : n = 0
  · rw [if_pos hzero, hzero]
  · rw [if_neg hzero, Nat.mod_eq_of_lt (by omega)]
    omega

theorem endAround_le {m : Nat} (hm : 0 < m) (n : Nat) : endAround m n ≤ m := by
  unfold endAround
  split
  · exact Nat.zero_le m
  · exact Nat.mod_lt _ hm

theorem endAround_carry (m n : Nat) :
    endAround m (n % (m + 1) + n / (m + 1)) = endAround m n := by
  have hsplit : (m + 1) * (n / (m + 1)) + n % (m + 1) = n := Nat.div_add_mod n (m + 1)
  rw [Nat.add_mul, Nat.one_mul] at hsplit
  generalize n / (m + 1) = q at hsplit ⊢
  generalize n % (m + 1) = r at hsplit ⊢
  unfold endAround
  by_cases hzero : r + q = 0
  · -- neither a carry nor a low part
    obtain ⟨rfl, rfl⟩ : r = 0 ∧ q = 0 := by omega
    rw [Nat.mul_zero] at hsplit
    rw [← hsplit]
  · have hless : r + q - 1 + m * q = n - 1 := by
      generalize m * q = p at hsplit ⊢
      omega
    have hne : n ≠ 0 := by
      generalize m * q = p at hsplit
      omega
    rw [if_neg hzero, if_neg hne, ← hless, Nat.add_mul_mod_self_left]

theorem endAround_mod (m n : Nat) : endAround m n % m = n % m := by
  unfold endAround
  split
  · next hzero => rw [hzero]
  · next hzero =>
      rw [Nat.add_mod, Nat.mod_mod, ← Nat.add_mod]
      congr 1
      omega

/-- The fold is all ones exactly for the positive multiples of `m`. -/
theorem endAround_eq_iff {m : Nat} (hm : 0 < m) (n : Nat) :
    endAround m n = m ↔ n ≠ 0 ∧ n % m = 0 := by
  have hmod := endAround_mod m n
  have hle := endAround_le hm n
  constructor
  · intro heq
    rw [heq, Nat.mod_self] at hmod
    refine ⟨fun hzero => ?_, hmod.symm⟩
    rw [hzero] at heq
    exact hm.ne heq
  · rintro ⟨hne, hzero⟩
    rw [hzero] at hmod
    have hpos : 0 < endAround m n := by
      unfold endAround
      rw [if_neg hne]
      exact Nat.succ_pos _
    have hdvd := Nat.le_of_dvd hpos (Nat.dvd_of_mod_eq_zero hmod)
    omega

theorem endAround_add_complement {m : Nat} (hm : 0 < m) (n : Nat) :
    endAround m (n + (m - endAround m n)) = m := by
  have hle := endAround_le hm n
  refine (endAround_eq_iff hm _).mpr ⟨?_, ?_⟩
  · intro hzero
    have hn : n = 0 := by omega
    subst hn
    have hnone : endAround m 0 = 0 := if_pos rfl
    omega
  · have hmod := endAround_mod m n
    calc (n + (m - endAround m n)) % m
        = (n % m + (m - endAround m n)) % m := (Nat.mod_add_mod _ _ _).symm
      _ = (endAround m n % m + (m - endAround m n)) % m := by rw [hmod]
      _ = (endAround m n + (m - endAround m n)) % m := Nat.mod_add_mod _ _ _
      _ = 0 := by rw [Nat.add_sub_cancel' hle, Nat.mod_self]

/-! ## The sum of the words -/

/-- The big-endian words of the text added up; a last byte alone is a high one. -/
def wordSum : List UInt8 → Nat
  | b0 :: b1 :: bytes => b0.toNat * 256 + b1.toNat + wordSum bytes
  | [b0] => b0.toNat * 256
  | [] => 0

theorem wordSum_le : ∀ bytes : List UInt8, wordSum bytes ≤ 65535 * bytes.length
  | [] => Nat.le_refl 0
  | [b0] => by
      have hb0 := b0.toNat_lt
      rw [wordSum, List.length_singleton]
      omega
  | b0 :: b1 :: bytes => by
      have hb0 := b0.toNat_lt
      have hb1 := b1.toNat_lt
      have hrest := wordSum_le bytes
      rw [wordSum, List.length_cons, List.length_cons]
      omega

theorem wordSum_append : ∀ {front : List UInt8} (_ : front.length % 2 = 0) (bytes : List UInt8),
    wordSum (front ++ bytes) = wordSum front + wordSum bytes
  | [], _, _ => (Nat.zero_add _).symm
  | [_], heven, _ => absurd heven Nat.one_ne_zero
  | b0 :: b1 :: front, heven, bytes => by
      have heven' : front.length % 2 = 0 := by
        rw [List.length_cons, List.length_cons] at heven
        omega
      rw [List.cons_append, List.cons_append, wordSum, wordSum, wordSum_append heven' bytes]
      omega

/-- What the byte at index `i` counts for. -/
def byteWeight (i : Nat) : Nat := if i % 2 = 0 then 256 else 1

theorem byteWeight_add_two (i : Nat) : byteWeight (i + 2) = byteWeight i := by
  unfold byteWeight
  rw [Nat.add_mod_right]

theorem wordSum_set : ∀ (bytes : List UInt8) {i : Nat} (_ : i < bytes.length) (b : UInt8),
    wordSum (bytes.set i b) + (bytes.getD i 0).toNat * byteWeight i =
      wordSum bytes + b.toNat * byteWeight i
  | [], _, hi, _ => absurd hi (Nat.not_lt_zero _)
  | [b0], 0, _, b => by
      rw [List.set_cons_zero, wordSum, wordSum, List.getD_cons_zero]
      show _ + b0.toNat * 256 = _ + b.toNat * 256
      omega
  | [_], _ + 1, hi, _ => absurd hi (by simp)
  | b0 :: b1 :: bytes, 0, _, b => by
      rw [List.set_cons_zero, wordSum, wordSum, List.getD_cons_zero]
      show _ + b0.toNat * 256 = _ + b.toNat * 256
      omega
  | b0 :: b1 :: bytes, 1, _, b => by
      rw [List.set_cons_succ, List.set_cons_zero, wordSum, wordSum, List.getD_cons_succ,
        List.getD_cons_zero]
      show _ + b1.toNat * 1 = _ + b.toNat * 1
      omega
  | b0 :: b1 :: bytes, i + 2, hi, b => by
      have hi' : i < bytes.length := by
        rw [List.length_cons, List.length_cons] at hi
        omega
      have hrest := wordSum_set bytes hi' b
      rw [List.set_cons_succ, List.set_cons_succ, wordSum, wordSum, List.getD_cons_succ,
        List.getD_cons_succ, byteWeight_add_two]
      omega

/-! ## Single bits -/

theorem xor_two_pow (n j : Nat) : n ^^^ 2 ^ j = n + 2 ^ j ∨ (n ^^^ 2 ^ j) + 2 ^ j = n := by
  have hdiv : (n ^^^ 2 ^ j) / 2 ^ j = n / 2 ^ j ^^^ 1 := by
    rw [Nat.xor_div_two_pow, Nat.div_self (Nat.two_pow_pos j)]
  have hmod : (n ^^^ 2 ^ j) % 2 ^ j = n % 2 ^ j := by
    rw [Nat.xor_mod_two_pow, Nat.mod_self, Nat.xor_zero]
  have hn := Nat.div_add_mod n (2 ^ j)
  have hx := Nat.div_add_mod (n ^^^ 2 ^ j) (2 ^ j)
  rw [hdiv, hmod] at hx
  rcases Nat.even_or_odd (n / 2 ^ j) with heven | hodd
  · left
    rw [Nat.xor_one_of_even heven, Nat.mul_add, Nat.mul_one] at hx
    omega
  · right
    rw [Nat.xor_one_of_odd hodd] at hx
    obtain ⟨q, hq⟩ := hodd
    rw [hq, Nat.add_sub_cancel] at hx
    rw [hq, Nat.mul_add, Nat.mul_one] at hn
    omega

/-- The text with bit `j` of its byte at index `i` inverted. -/
def flipBit (bytes : List UInt8) (i j : Nat) : List UInt8 :=
  bytes.set i (bytes.getD i 0 ^^^ UInt8.ofNat (2 ^ j))

/-- A bit changes the sum by its place in the word. -/
theorem wordSum_flipBit {bytes : List UInt8} {i j : Nat} (hi : i < bytes.length) (hj : j < 8) :
    ∃ k < 16, wordSum (flipBit bytes i j) = wordSum bytes + 2 ^ k ∨
      wordSum (flipBit bytes i j) + 2 ^ k = wordSum bytes := by
  have hset := wordSum_set bytes hi (bytes.getD i 0 ^^^ UInt8.ofNat (2 ^ j))
  have hbit : (UInt8.ofNat (2 ^ j)).toNat = 2 ^ j := by
    rw [UInt8.toNat_ofNat']
    exact Nat.mod_eq_of_lt (Nat.pow_lt_pow_right (by decide) hj)
  rw [UInt8.toNat_xor, hbit] at hset
  have hxor := xor_two_pow (bytes.getD i 0).toNat j
  unfold flipBit
  unfold byteWeight at hset
  by_cases heven : i % 2 = 0
  · rw [if_pos heven] at hset
    refine ⟨j + 8, by omega, ?_⟩
    rw [Nat.pow_add]
    omega
  · rw [if_neg heven] at hset
    refine ⟨j, by omega, ?_⟩
    omega

/-- A single bit takes the fold away from all ones. -/
theorem endAround_flipBit_ne {bytes : List UInt8} {i j : Nat} (hi : i < bytes.length) (hj : j < 8)
    (h : endAround 65535 (wordSum bytes) = 65535) :
    endAround 65535 (wordSum (flipBit bytes i j)) ≠ 65535 := by
  obtain ⟨k, hk, hchange⟩ := wordSum_flipBit hi hj
  have hpos : 0 < 2 ^ k := Nat.two_pow_pos k
  have hle : 2 ^ k ≤ 2 ^ 15 := Nat.pow_le_pow_right (by decide) (by omega)
  have hmod := ((endAround_eq_iff (by decide) _).mp h).2
  intro hflipped
  have hmod' := ((endAround_eq_iff (by decide) _).mp hflipped).2
  omega

end AcharyaOS.Foundation
