import Mathlib.Algebra.Group.Nat.Defs
import Mathlib.Data.List.Basic
import Mathlib.Data.Nat.Notation

/-!
# Numerals by repeated division

The loop that a freestanding program prints numbers with takes the digits off a value from
the low end, into an array of a fixed size, and prints the array backwards.
-/

namespace AcharyaOS.Foundation

/-- The digits of `n` in base `b`, lowest first, of which there is room for `room`. -/
def lowDigits (b : Nat) : Nat → Nat → List Char
  | 0, _ => []
  | room + 1, n => if n = 0 then [] else (n % b).digitChar :: lowDigits b room (n / b)

/-- Backwards, the digits are the numeral, when they all have room. -/
theorem reverse_lowDigits {b : Nat} (hb : 1 < b) :
    ∀ {room n : Nat}, 0 < n → n < b ^ room → (lowDigits b room n).reverse = Nat.toDigits b n := by
  intro room
  induction room with
  | zero =>
    intro n hpos hlt
    rw [Nat.pow_zero] at hlt
    omega
  | succ room ih =>
    intro n hpos hlt
    have hdiv : n / b < b ^ room := by
      apply Nat.div_lt_of_lt_mul
      rwa [Nat.pow_succ'] at hlt
    have hstep : lowDigits b (room + 1) n = (n % b).digitChar :: lowDigits b room (n / b) :=
      if_neg (Nat.pos_iff_ne_zero.mp hpos)
    rw [hstep, List.reverse_cons]
    by_cases hsmall : n < b
    · have hrest : lowDigits b room (n / b) = [] := by
        rw [Nat.div_eq_of_lt hsmall]
        cases room with
        | zero => rfl
        | succ room => rfl
      rw [hrest, Nat.mod_eq_of_lt hsmall, Nat.toDigits_of_lt_base hsmall]
      rfl
    · have hge : b ≤ n := Nat.le_of_not_lt hsmall
      rw [ih (Nat.div_pos hge (by omega)) hdiv, ← Nat.toDigits_of_base_le hb hge]

/-- `n` in base `b`, as text. -/
def numeral (b n : Nat) : List UInt8 := (Nat.toDigits b n).map Char.toUInt8

/-- `x` in decimal, as text. -/
def signedNumeral (x : Int) : List UInt8 :=
  if x < 0 then '-'.toUInt8 :: numeral 10 x.natAbs else numeral 10 x.natAbs

theorem numeral_zero (b : Nat) : numeral b 0 = ['0'.toUInt8] := by
  rw [numeral, Nat.toDigits_zero]
  rfl

theorem map_reverse_lowDigits {b room n : Nat} (hb : 1 < b) (hpos : 0 < n) (hlt : n < b ^ room) :
    ((lowDigits b room n).map Char.toUInt8).reverse = numeral b n := by
  rw [← List.map_reverse, reverse_lowDigits hb hpos hlt, numeral]

/-! ## Reading numerals -/

/-- The number that decimal digits stand for. -/
def decimalValue (digits : List UInt8) : Nat :=
  digits.foldl (fun n c => n * 10 + (c.toNat - 48)) 0

def isDecimal (c : UInt8) : Bool := '0'.toUInt8 ≤ c && c ≤ '9'.toUInt8

theorem isDecimal_spec {c : UInt8} (h : isDecimal c = true) :
    (c - '0'.toUInt8).toNat = c.toNat - 48 ∧ 48 ≤ c.toNat ∧ c.toNat ≤ 57 := by
  have hrange := (Bool.and_eq_true _ _).mp h
  have hge : '0'.toUInt8 ≤ c := decide_eq_true_iff.mp hrange.1
  have hle : c ≤ '9'.toUInt8 := decide_eq_true_iff.mp hrange.2
  exact ⟨UInt8.toNat_sub_of_le _ _ hge, UInt8.le_iff_toNat_le.mp hge, UInt8.le_iff_toNat_le.mp hle⟩

theorem le_foldl_decimal (digits : List UInt8) : ∀ n : Nat,
    n ≤ digits.foldl (fun n c => n * 10 + (c.toNat - 48)) n := by
  induction digits with
  | nil => exact fun n => Nat.le_refl n
  | cons c digits ih =>
      intro n
      have hstep : n ≤ n * 10 + (c.toNat - 48) := by omega
      exact Nat.le_trans hstep (ih _)

theorem toNat_toUInt8_of_isDigit {c : Char} (h : c.isDigit = true) : c.toUInt8.toNat = c.toNat := by
  have hle : c.toNat ≤ 57 := by
    have hrange := (Bool.and_eq_true _ _).mp h
    exact (UInt32.le_iff_toNat_le.mp (decide_eq_true_iff.mp hrange.2))
  show c.toNat % 256 = c.toNat
  omega

theorem decimalValue_numeral (n : Nat) : decimalValue (numeral 10 n) = n := by
  have hdigits : (Nat.toDigits 10 n).foldl (fun n c => n * 10 + (c.toUInt8.toNat - 48)) 0 =
      (Nat.toDigits 10 n).foldl (fun n c => 10 * n + (c.toNat - '0'.toNat)) 0 := by
    apply List.foldl_ext
    intro m c hc
    rw [toNat_toUInt8_of_isDigit (Nat.isDigit_of_mem_toDigits (by decide) (by decide) hc),
      Nat.mul_comm]
    rfl
  rw [decimalValue, numeral, List.foldl_map, hdigits, ← Nat.ofDigitChars_eq_foldl,
    Nat.ofDigitChars_ten_toDigits]

theorem isDecimal_of_mem_numeral {n : Nat} {c : UInt8} (h : c ∈ numeral 10 n) :
    isDecimal c = true := by
  obtain ⟨d, hd, rfl⟩ := List.mem_map.mp h
  have hdigit : d.isDigit = true := Nat.isDigit_of_mem_toDigits (by decide) (by decide) hd
  have hrange := (Bool.and_eq_true _ _).mp hdigit
  have hge : 48 ≤ d.toNat := UInt32.le_iff_toNat_le.mp (decide_eq_true_iff.mp hrange.1)
  have hle : d.toNat ≤ 57 := UInt32.le_iff_toNat_le.mp (decide_eq_true_iff.mp hrange.2)
  have hnat := toNat_toUInt8_of_isDigit hdigit
  unfold isDecimal
  rw [Bool.and_eq_true, decide_eq_true_iff, decide_eq_true_iff, UInt8.le_iff_toNat_le,
    UInt8.le_iff_toNat_le, hnat]
  exact ⟨hge, hle⟩

theorem minus_notMem_numeral (n : Nat) : '-'.toUInt8 ∉ numeral 10 n := fun hmem =>
  absurd (isDecimal_of_mem_numeral hmem) (by decide)

theorem exists_numeral_eq_cons (n : Nat) : ∃ c rest, numeral 10 n = c :: rest ∧ isDecimal c = true := by
  cases h : numeral 10 n with
  | nil =>
      have hnil : Nat.toDigits 10 n = [] := List.map_eq_nil_iff.mp h
      exact absurd hnil Nat.toDigits_ne_nil
  | cons c rest => exact ⟨c, rest, rfl, isDecimal_of_mem_numeral (h ▸ List.mem_cons_self)⟩

theorem signedNumeral_injective : Function.Injective signedNumeral := by
  intro x y h
  unfold signedNumeral at h
  by_cases hx : x < 0 <;> by_cases hy : y < 0
  · rw [if_pos hx, if_pos hy, List.cons.injEq] at h
    have habs := congrArg decimalValue h.2
    rw [decimalValue_numeral, decimalValue_numeral] at habs
    omega
  · rw [if_pos hx, if_neg hy] at h
    exact absurd (h ▸ List.mem_cons_self) (minus_notMem_numeral y.natAbs)
  · rw [if_neg hx, if_pos hy] at h
    exact absurd (h ▸ List.mem_cons_self) (minus_notMem_numeral x.natAbs)
  · rw [if_neg hx, if_neg hy] at h
    have habs := congrArg decimalValue h
    rw [decimalValue_numeral, decimalValue_numeral] at habs
    omega

end AcharyaOS.Foundation
