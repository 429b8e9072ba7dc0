import AcharyaOS.Foundation.OnesSum
import AcharyaOS.Foundation.Words
import AcharyaOS.Ipv4.Code

/-!
# The internet checksum

`ipv4_checksum` is the complement of the folded sum of words, as long as the sum stays in
its 32 bits.  A packet that carries its own checksum adds up to all ones, and no single bit
of it can be lost unseen.
-/

namespace AcharyaOS.Ipv4

open Foundation

theorem toNat_checksumWord (b0 b1 : UInt8) :
    (b0.toUInt32 <<< 8 ||| b1.toUInt32).toNat = b0.toNat * 256 + b1.toNat := by
  have hb0 := b0.toNat_lt
  have hb1 := b1.toNat_lt
  have hhigh : (b0.toUInt32 <<< 8).toNat = b0.toNat * 2 ^ 8 := by
    rw [UInt32.toNat_shiftLeft, UInt8.toNat_toUInt32, Nat.shiftLeft_eq]
    show b0.toNat * 2 ^ 8 % 2 ^ 32 = b0.toNat * 2 ^ 8
    omega
  rw [UInt32.toNat_or, hhigh, UInt8.toNat_toUInt32,
    or_eq_add_of_dvd (Nat.dvd_mul_left (2 ^ 8) b0.toNat) hb1]
  omega

theorem toNat_checksumWords : ∀ (bytes : List UInt8) {sum : UInt32},
    sum.toNat + wordSum bytes < 2 ^ 32 →
      (checksumWords sum bytes).toNat = sum.toNat + wordSum bytes
  | [], _, _ => rfl
  | [b0], sum, hfits => by
      have hword := toNat_checksumWord b0 0
      rw [wordSum] at hfits
      have hzero : (0 : UInt8).toUInt32 = 0 := rfl
      rw [hzero, UInt32.or_zero, UInt8.toNat_zero, Nat.add_zero] at hword
      rw [checksumWords, wordSum, UInt32.toNat_add, hword, Nat.mod_eq_of_lt hfits]
  | b0 :: b1 :: bytes, sum, hfits => by
      rw [wordSum] at hfits
      have hlt : sum.toNat + (b0.toNat * 256 + b1.toNat) < 2 ^ 32 :=
        Nat.lt_of_le_of_lt (Nat.add_le_add_left (Nat.le_add_right _ _) _) hfits
      have hsum : (sum + (b0.toUInt32 <<< 8 ||| b1.toUInt32)).toNat =
          sum.toNat + (b0.toNat * 256 + b1.toNat) := by
        rw [UInt32.toNat_add, toNat_checksumWord, Nat.mod_eq_of_lt hlt]
      have hrest : (sum + (b0.toUInt32 <<< 8 ||| b1.toUInt32)).toNat + wordSum bytes < 2 ^ 32 := by
        rw [hsum, Nat.add_assoc]
        exact hfits
      rw [checksumWords, wordSum, toNat_checksumWords bytes hrest, hsum, Nat.add_assoc]

theorem toNat_checksumCarry (sum : UInt32) :
    ((sum &&& (0xFFFF : UInt32)) + (sum >>> 16)).toNat =
      sum.toNat % (65535 + 1) + sum.toNat / (65535 + 1) := by
  have hlt := sum.toNat_lt
  have hlow : (sum &&& (0xFFFF : UInt32)).toNat = sum.toNat % 65536 := by
    rw [UInt32.toNat_and]
    exact Nat.and_two_pow_sub_one_eq_mod sum.toNat 16
  have hhigh : (sum >>> 16).toNat = sum.toNat / 65536 := by
    rw [UInt32.toNat_shiftRight, Nat.shiftRight_eq_div_pow]
    rfl
  rw [UInt32.toNat_add, hlow, hhigh, Nat.mod_eq_of_lt (by omega)]

theorem toNat_checksumFold (sum : UInt32) :
    (checksumFold sum).toNat = endAround 65535 sum.toNat := by
  induction sum using checksumFold.induct with
  | case1 sum hhigh =>
      have hshift : sum.toNat / 65536 = 0 := by
        have hzero := congrArg UInt32.toNat hhigh
        rw [UInt32.toNat_shiftRight, Nat.shiftRight_eq_div_pow] at hzero
        exact hzero
      unfold checksumFold
      rw [if_pos hhigh, endAround_of_le (by omega)]
  | case2 sum hhigh ih =>
      unfold checksumFold
      rw [if_neg hhigh, ih, toNat_checksumCarry, endAround_carry]

theorem toNat_ipv4Checksum {data : List UInt8} (h : data.length ≤ 65535) :
    (ipv4Checksum data).toNat = 65535 - endAround 65535 (wordSum data) := by
  have hsum := wordSum_le data
  have hzero : (0 : UInt32).toNat = 0 := rfl
  have hwords : (checksumWords 0 data).toNat = wordSum data := by
    rw [toNat_checksumWords data (by omega), hzero, Nat.zero_add]
  have hle := endAround_le (m := 65535) (by decide) (wordSum data)
  unfold ipv4Checksum
  rw [UInt16.toNat_not, UInt32.toNat_toUInt16, toNat_checksumFold, hwords,
    Nat.mod_eq_of_lt (by omega)]
  rfl

theorem ipv4Checksum_eq_zero_iff {data : List UInt8} (h : data.length ≤ 65535) :
    ipv4Checksum data = 0 ↔ endAround 65535 (wordSum data) = 65535 := by
  have hle := endAround_le (m := 65535) (by decide) (wordSum data)
  rw [← UInt16.toNat_inj, toNat_ipv4Checksum h]
  show 65535 - _ = 0 ↔ _
  omega

/-! ## Packets -/

/-- The packet verifies, and with any one bit inverted it does not. -/
def ChecksumVerifies (packet : List UInt8) : Prop :=
  ipv4Checksum packet = 0 ∧
    ∀ i < packet.length, ∀ j < 8, ipv4Checksum (flipBit packet i j) ≠ 0

/-- The high and the low byte of a checksum field. -/
def checksumBytes (checksum : UInt16) : List UInt8 :=
  [(checksum >>> 8).toUInt8, (checksum &&& 0xFF).toUInt8]

theorem wordSum_checksumBytes (checksum : UInt16) :
    wordSum (checksumBytes checksum) = checksum.toNat := by
  have hlt := checksum.toNat_lt
  have hmask : checksum.toNat &&& (0xFF : UInt16).toNat = checksum.toNat % 256 :=
    Nat.and_two_pow_sub_one_eq_mod checksum.toNat 8
  unfold checksumBytes
  rw [wordSum, wordSum, UInt16.toNat_toUInt8, UInt16.toNat_toUInt8, UInt16.toNat_and, hmask,
    UInt16.toNat_shiftRight, Nat.shiftRight_eq_div_pow]
  show checksum.toNat / 256 % 256 * 256 + checksum.toNat % 256 % 256 + 0 = checksum.toNat
  omega

theorem checksumVerifies_of_field {front back : List UInt8} {checksum : UInt16}
    (heven : front.length % 2 = 0) (hlen : (front ++ checksumBytes checksum ++ back).length ≤ 65535)
    (hchecksum : checksum = ipv4Checksum (front ++ checksumBytes 0 ++ back)) :
    ChecksumVerifies (front ++ checksumBytes checksum ++ back) := by
  have hsum : ∀ c : UInt16, wordSum (front ++ checksumBytes c ++ back) =
      wordSum front + c.toNat + wordSum back := by
    intro c
    have heven' : (front ++ checksumBytes c).length % 2 = 0 := by
      rw [List.length_append]
      show (front.length + 2) % 2 = 0
      omega
    rw [wordSum_append heven', wordSum_append heven, wordSum_checksumBytes]
  have hzeroed : (front ++ checksumBytes 0 ++ back).length ≤ 65535 := by
    rw [List.length_append, List.length_append] at hlen ⊢
    exact hlen
  have hstored := toNat_ipv4Checksum hzeroed
  rw [← hchecksum, hsum 0, UInt16.toNat_zero, Nat.add_zero] at hstored
  have hones : endAround 65535 (wordSum (front ++ checksumBytes checksum ++ back)) = 65535 := by
    have hcomplement := endAround_add_complement (m := 65535) (by decide)
      (wordSum front + wordSum back)
    rw [← hstored] at hcomplement
    rw [hsum, Nat.add_right_comm]
    exact hcomplement
  refine ⟨(ipv4Checksum_eq_zero_iff hlen).mpr hones, fun i hi j hj hzero => ?_⟩
  have hflipped : (flipBit (front ++ checksumBytes checksum ++ back) i j).length ≤ 65535 := by
    unfold flipBit
    rw [List.length_set]
    exact hlen
  exact endAround_flipBit_ne hi hj hones ((ipv4Checksum_eq_zero_iff hflipped).mp hzero)

end AcharyaOS.Ipv4
