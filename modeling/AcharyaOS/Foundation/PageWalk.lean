import AcharyaOS.Foundation.Words

/-!
# The four-level page walk

How a 64-bit x86 processor translates an address: nine bits of it select an entry in each
table, from bits 47..39 in the root down, and a large entry ends the walk early.
-/

namespace AcharyaOS.Foundation.PageWalk

/-- The top 17 bits of a canonical address are equal. -/
def Canonical (va : Nat) : Prop := va < 2 ^ 47 ∨ 2 ^ 64 - 2 ^ 47 ≤ va ∧ va < 2 ^ 64

def present (e : UInt64) : Bool := e.toNat.testBit 0

def writable (e : UInt64) : Bool := e.toNat.testBit 1

def user (e : UInt64) : Bool := e.toNat.testBit 2

/-- Set in an entry of the two middle levels that maps a page itself. -/
def large (e : UInt64) : Bool := e.toNat.testBit 7

/-- The physical address in an entry, for a page or table of `2 ^ k` bytes. -/
def frame (k : Nat) (e : UInt64) : Nat := e.toNat / 2 ^ k % 2 ^ (52 - k) * 2 ^ k

theorem frame_lt {k : Nat} (hk : k ≤ 52) (e : UInt64) : frame k e < 2 ^ 52 := by
  have hsplit : 2 ^ (52 - k) * 2 ^ k = 2 ^ 52 := by
    rw [← Nat.pow_add, Nat.sub_add_cancel hk]
  rw [← hsplit]
  exact Nat.mul_lt_mul_of_pos_right (Nat.mod_lt _ (Nat.two_pow_pos _)) (Nat.two_pow_pos k)

/-- Everything in an entry but the physical address. -/
def attributes (k : Nat) (e : UInt64) : Nat := e.toNat - frame k e

/-- The lowest address bit that selects an entry `n` levels above the last. -/
def shift (n : Nat) : Nat := 12 + 9 * n

def index (n va : Nat) : Nat := va / 2 ^ shift n % 2 ^ 9

theorem index_lt (n va : Nat) : index n va < 512 := Nat.mod_lt _ (Nat.two_pow_pos 9)

/-- A completed walk: the table entries read, the entry of the page, the number of offset
bits, and the physical address. -/
structure Walk where
  upper : List UInt64
  leaf : UInt64
  pageBits : Nat
  physical : Nat
  deriving DecidableEq

def Walk.entries (w : Walk) : List UInt64 := w.upper ++ [w.leaf]

/-- The walk of `va` from a table `n` levels above the last, in a memory of entries. -/
def walkFrom (mem : Nat → UInt64) (va : Nat) : Nat → Nat → Option Walk
  | 0, table =>
      let e := mem (table + 8 * index 0 va)
      if present e then some ⟨[], e, 12, frame 12 e + va % 2 ^ 12⟩ else none
  | n + 1, table =>
      let e := mem (table + 8 * index (n + 1) va)
      if !present e then none
      else if large e && n < 2 then
        some ⟨[], e, shift (n + 1), frame (shift (n + 1)) e + va % 2 ^ shift (n + 1)⟩
      else (walkFrom mem va n (frame 12 e)).map fun w => { w with upper := e :: w.upper }

/-- The walk from the root table. -/
def walk (mem : Nat → UInt64) (root va : Nat) : Option Walk := walkFrom mem va 3 root

/-! ## Entries -/

/-- An entry made of an aligned physical address and attribute bits below it. -/
structure IsEntry (k base flags : Nat) (e : UInt64) : Prop where
  dvd : 2 ^ k ∣ base
  lt : base < 2 ^ 52
  flags_lt : flags < 2 ^ k
  eq : e.toNat = base + flags

namespace IsEntry

variable {k base flags : Nat} {e : UInt64}

theorem of_or {a b : UInt64} (hdvd : 2 ^ k ∣ a.toNat) (hlt : a.toNat < 2 ^ 52)
    (hb : b.toNat < 2 ^ k) : IsEntry k a.toNat b.toNat (a ||| b) :=
  ⟨hdvd, hlt, hb, toNat_or_of_dvd hdvd hb⟩

theorem frame_eq (h : IsEntry k base flags e) (hk : k ≤ 52) : frame k e = base := by
  obtain ⟨c, hc⟩ := h.dvd
  have hpos : 0 < 2 ^ k := Nat.two_pow_pos k
  have hdiv : e.toNat / 2 ^ k = c := by
    rw [h.eq, hc, Nat.mul_add_div hpos, Nat.div_eq_of_lt h.flags_lt, Nat.add_zero]
  have hc_lt : c < 2 ^ (52 - k) := by
    apply Nat.lt_of_mul_lt_mul_left (a := 2 ^ k)
    rw [← hc, ← Nat.pow_add, Nat.add_sub_cancel' hk]
    exact h.lt
  rw [frame, hdiv, Nat.mod_eq_of_lt hc_lt, hc, Nat.mul_comm]

theorem attributes_eq (h : IsEntry k base flags e) (hk : k ≤ 52) : attributes k e = flags := by
  rw [attributes, h.frame_eq hk, h.eq, Nat.add_sub_cancel_left]

theorem testBit_eq (h : IsEntry k base flags e) {i : Nat} (hi : i < k) :
    e.toNat.testBit i = flags.testBit i := by
  obtain ⟨c, hc⟩ := h.dvd
  rw [h.eq, hc, Nat.testBit_two_pow_mul_add c h.flags_lt, if_pos hi]

end IsEntry

/-! ## Steps of a walk -/

section Steps

variable {mem : Nat → UInt64} {va n table : Nat}

theorem walkFrom_of_not_present
    (h : present (mem (table + 8 * index (n + 1) va)) = false) :
    walkFrom mem va (n + 1) table = none := by
  simp only [walkFrom, h, Bool.not_false, if_true]

theorem walkFrom_of_table {e : UInt64} (he : mem (table + 8 * index (n + 1) va) = e)
    (hpresent : present e = true) (hlarge : large e = false) :
    walkFrom mem va (n + 1) table =
      (walkFrom mem va n (frame 12 e)).map fun w => { w with upper := e :: w.upper } := by
  simp only [walkFrom, he, hpresent, hlarge, Bool.not_true, Bool.false_and, Bool.false_eq_true,
    if_false]

theorem walkFrom_of_large {e : UInt64} (he : mem (table + 8 * index 1 va) = e)
    (hpresent : present e = true) (hlarge : large e = true) :
    walkFrom mem va 1 table = some ⟨[], e, 21, frame 21 e + va % 2 ^ 21⟩ := by
  simp [walkFrom, he, hpresent, hlarge, shift]

end Steps

end AcharyaOS.Foundation.PageWalk
