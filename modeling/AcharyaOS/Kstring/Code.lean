import AcharyaOS.Foundation.Memory
import AcharyaOS.Foundation.Run
import Mathlib.Order.Nat
import Mathlib.Tactic.ByContra

/-!
# Bytes in memory

`memset`, `memcpy`, `memcmp` and `strlen` of `kernel/lib/kstring.c` on a memory of bytes, at
pointers whose ranges do not wrap.
-/

namespace AcharyaOS.Kstring

open Foundation Foundation.Run

/-- `memset(dest, value, count)`. -/
def memset (m : Memory) (dest : Nat) (value : Int32) (count : Nat) : Memory :=
  let v := value.toUInt32.toUInt8
  forRange count (fun i m => m.storeU8 (dest + i) v) m

/-- `memcpy(dest, src, count)`. -/
def memcpy (m : Memory) (dest src count : Nat) : Memory :=
  forRange count (fun i m => m.storeU8 (dest + i) (m (src + i))) m

/-- `memcmp(a, b, count)`. -/
def memcmp (m : Memory) (a b : Nat) : Nat → Int
  | 0 => 0
  | count + 1 =>
    if m a ≠ m b then (m a).toNat - (m b).toNat else memcmp m (a + 1) (b + 1) count

/-- `strlen(str)`, if it ends within so many steps. -/
def strlen (m : Memory) (str : Nat) : Nat → Option Nat
  | 0 => none
  | steps + 1 => if m str = 0 then some 0 else (strlen m (str + 1) steps).map (· + 1)

/-! ## Filling and copying -/

theorem storeU8_apply (m : Memory) (a b : Nat) (v : UInt8) :
    m.storeU8 a v b = if b = a then v else m b := by
  by_cases h : b = a
  · subst h
    simp [Memory.storeU8, Memory.store]
  · have hout : ¬ (a ≤ b ∧ b < a + 1) := by omega
    simp only [Memory.storeU8, Memory.store, if_neg hout, if_neg h]

theorem memset_apply (m : Memory) (dest : Nat) (value : Int32) (count b : Nat) :
    memset m dest value count b =
      if dest ≤ b ∧ b < dest + count then value.toUInt32.toUInt8 else m b := by
  unfold memset
  apply forRange_rule (P := fun n (m' : Memory) => m' b =
    if dest ≤ b ∧ b < dest + n then value.toUInt32.toUInt8 else m b)
  · rw [if_neg (by omega)]
  · intro i m' _ hm'
    rw [storeU8_apply, hm']
    by_cases hb : b = dest + i
    · rw [if_pos hb, if_pos (by omega)]
    · have hiff : (dest ≤ b ∧ b < dest + i) ↔ dest ≤ b ∧ b < dest + (i + 1) := by omega
      rw [if_neg hb]
      simp only [hiff]

/-- The byte that `memcpy` puts at `dest + i`: copying forward onto its own source repeats the
part of it in front of `dest`. -/
def copied (m : Memory) (dest src i : Nat) : UInt8 :=
  if src < dest then m (src + i % (dest - src)) else m (src + i)

theorem copied_eq (m : Memory) (dest src i : Nat) :
    copied m dest src i =
      if dest ≤ src + i ∧ src < dest then copied m dest src (src + i - dest)
      else m (src + i) := by
  unfold copied
  by_cases hlt : src < dest
  · by_cases hover : dest ≤ src + i
    · have hperiod : i % (dest - src) = (src + i - dest) % (dest - src) := by
        have hi : i = src + i - dest + (dest - src) := by omega
        calc i % (dest - src) = (src + i - dest + (dest - src)) % (dest - src) := by rw [← hi]
          _ = (src + i - dest) % (dest - src) := Nat.add_mod_right _ _
      rw [if_pos hlt, if_pos ⟨hover, hlt⟩, if_pos hlt, hperiod]
    · have hsmall : i % (dest - src) = i := Nat.mod_eq_of_lt (by omega)
      rw [if_pos hlt, if_neg fun h => hover h.1, hsmall]
  · rw [if_neg hlt, if_neg fun h => hlt h.2]

theorem memcpy_apply (m : Memory) (dest src count b : Nat) :
    memcpy m dest src count b =
      if dest ≤ b ∧ b < dest + count then copied m dest src (b - dest) else m b := by
  have hall : ∀ b, memcpy m dest src count b =
      if dest ≤ b ∧ b < dest + count then copied m dest src (b - dest) else m b := by
    apply forRange_rule (P := fun n (m' : Memory) => ∀ b, m' b =
      if dest ≤ b ∧ b < dest + n then copied m dest src (b - dest) else m b)
    · intro b
      rw [if_neg (by omega)]
    · intro i m' _ hm' b
      rw [storeU8_apply]
      by_cases hb : b = dest + i
      · have hback : b - dest = i := by omega
        rw [if_pos hb, if_pos (by omega), hback, hm' (src + i), copied_eq m dest src i]
        -- a byte that an earlier round has written lies behind `dest`
        by_cases hlt : src < dest
        · by_cases hover : dest ≤ src + i
          · rw [if_pos (by omega), if_pos ⟨hover, hlt⟩]
          · rw [if_neg (by omega), if_neg fun h => hover h.1]
        · rw [if_neg (by omega), if_neg fun h => hlt h.2]
      · have hiff : (dest ≤ b ∧ b < dest + i) ↔ dest ≤ b ∧ b < dest + (i + 1) := by omega
        rw [if_neg hb, hm' b]
        simp only [hiff]
  exact hall b

/-! ## Comparing -/

theorem memcmp_of_first {m : Memory} {count k : Nat} :
    ∀ {a b : Nat}, k < count → (∀ i < k, m (a + i) = m (b + i)) → m (a + k) ≠ m (b + k) →
      memcmp m a b count = (m (a + k)).toNat - (m (b + k)).toNat := by
  induction count generalizing k with
  | zero => exact fun hk => absurd hk (Nat.not_lt_zero k)
  | succ count ih =>
      intro a b hk hsame hdiff
      cases k with
      | zero => exact if_pos hdiff
      | succ k =>
          have hfirst : m a = m b := hsame 0 (Nat.succ_pos k)
          have hshift : ∀ c j, c + 1 + j = c + (j + 1) := fun c j => by omega
          have hrest := ih (k := k) (a := a + 1) (b := b + 1) (Nat.lt_of_succ_lt_succ hk)
            (fun i hi => by
              rw [hshift, hshift]
              exact hsame (i + 1) (Nat.succ_lt_succ hi))
            (by rwa [hshift, hshift])
          rw [hshift, hshift] at hrest
          rw [memcmp, if_neg (not_not_intro hfirst), hrest]

theorem memcmp_eq_zero_iff (m : Memory) (count : Nat) :
    ∀ a b, memcmp m a b count = 0 ↔ ∀ i < count, m (a + i) = m (b + i) := by
  induction count with
  | zero => exact fun a b => iff_of_true rfl fun i hi => absurd hi (Nat.not_lt_zero i)
  | succ count ih =>
      intro a b
      by_cases hfirst : m a = m b
      · rw [memcmp, if_neg (not_not_intro hfirst), ih]
        constructor
        · intro h i hi
          cases i with
          | zero => exact hfirst
          | succ i =>
              have hstep := h i (Nat.lt_of_succ_lt_succ hi)
              rwa [Nat.add_right_comm a 1 i, Nat.add_right_comm b 1 i] at hstep
        · intro h i hi
          rw [Nat.add_right_comm a 1 i, Nat.add_right_comm b 1 i]
          exact h (i + 1) (Nat.succ_lt_succ hi)
      · have hne : (m a).toNat ≠ (m b).toNat := fun h => hfirst (UInt8.toNat_inj.mp h)
        rw [memcmp, if_pos hfirst]
        refine iff_of_false (by omega) fun h => hfirst (h 0 (Nat.succ_pos count))

theorem memcmp_neg_iff (m : Memory) (count : Nat) (a b : Nat) :
    memcmp m a b count < 0 ↔
      ∃ k < count, (∀ i < k, m (a + i) = m (b + i)) ∧ m (a + k) < m (b + k) := by
  constructor
  · intro hneg
    have hne : ¬ ∀ i < count, m (a + i) = m (b + i) := fun h => by
      rw [(memcmp_eq_zero_iff m count a b).mpr h] at hneg
      exact absurd hneg (by decide)
    simp only [not_forall] at hne
    -- the first place where the ranges differ
    obtain ⟨k, hk, hdiff, hsame⟩ : ∃ k, k < count ∧ m (a + k) ≠ m (b + k) ∧
        ∀ i < k, m (a + i) = m (b + i) := by
      obtain ⟨hk, hdiff⟩ := Nat.find_spec hne
      refine ⟨Nat.find hne, hk, hdiff, fun i hi => ?_⟩
      by_contra h
      exact Nat.find_min hne hi ⟨Nat.lt_trans hi hk, h⟩
    rw [memcmp_of_first hk hsame hdiff] at hneg
    exact ⟨k, hk, hsame, UInt8.lt_iff_toNat_lt.mpr (by omega)⟩
  · rintro ⟨k, hk, hsame, hlt⟩
    have hlt' := UInt8.lt_iff_toNat_lt.mp hlt
    have hdiff : m (a + k) ≠ m (b + k) := fun h => by
      rw [h] at hlt'
      exact Nat.lt_irrefl _ hlt'
    rw [memcmp_of_first hk hsame hdiff]
    omega

theorem strlen_eq_some_iff (m : Memory) (steps : Nat) :
    ∀ str n, strlen m str steps = some n ↔
      n < steps ∧ m (str + n) = 0 ∧ ∀ i < n, m (str + i) ≠ 0 := by
  induction steps with
  | zero => exact fun str n => iff_of_false nofun fun h => Nat.not_lt_zero n h.1
  | succ steps ih =>
      intro str n
      by_cases hnul : m str = 0
      · rw [strlen, if_pos hnul, Option.some.injEq]
        constructor
        · rintro rfl
          exact ⟨Nat.succ_pos steps, hnul, fun i hi => absurd hi (Nat.not_lt_zero i)⟩
        · rintro ⟨-, -, hbefore⟩
          by_contra hn
          exact hbefore 0 (Nat.pos_of_ne_zero fun h => hn h.symm) hnul
      · rw [strlen, if_neg hnul, Option.map_eq_some_iff]
        constructor
        · rintro ⟨k, hk, rfl⟩
          obtain ⟨hlt, hzero, hbefore⟩ := (ih (str + 1) k).mp hk
          rw [Nat.add_right_comm] at hzero
          refine ⟨Nat.succ_lt_succ hlt, hzero, fun i hi => ?_⟩
          cases i with
          | zero => exact hnul
          | succ i =>
              have hi' := hbefore i (Nat.lt_of_succ_lt_succ hi)
              rwa [Nat.add_right_comm] at hi'
        · rintro ⟨hlt, hzero, hbefore⟩
          cases n with
          | zero => exact absurd hzero hnul
          | succ k =>
              refine ⟨k, (ih (str + 1) k).mpr ⟨Nat.lt_of_succ_lt_succ hlt, ?_, fun i hi => ?_⟩,
                rfl⟩
              · rwa [Nat.add_right_comm]
              · rw [Nat.add_right_comm]
                exact hbefore (i + 1) (Nat.succ_lt_succ hi)

/-! ## Copy, compare and measure -/

/-- `memcpy` writes its destination and nothing else, there the source, or where it copies
forward onto its own source the part in front of the destination over and over.  It is a copy
of the source as it was unless the destination begins inside the source, and `memcmp` finds
apart ranges equal after it.  `memcmp` goes by the first difference and `strlen` by the first
NUL. -/
theorem kstring_spec (m : Memory) (dest src count : Nat) :
    (∀ b, b < dest ∨ dest + count ≤ b → memcpy m dest src count b = m b) ∧
    (∀ i < count, memcpy m dest src count (dest + i) =
      if src < dest then m (src + i % (dest - src)) else m (src + i)) ∧
    (dest ≤ src ∨ src + count ≤ dest →
      ∀ i < count, memcpy m dest src count (dest + i) = m (src + i)) ∧
    (dest + count ≤ src ∨ src + count ≤ dest →
      memcmp (memcpy m dest src count) dest src count = 0) ∧
    (∀ a b, (memcmp m a b count = 0 ↔ ∀ i < count, m (a + i) = m (b + i)) ∧
      (memcmp m a b count < 0 ↔
        ∃ k < count, (∀ i < k, m (a + i) = m (b + i)) ∧ m (a + k) < m (b + k))) ∧
    (∀ steps str n, strlen m str steps = some n ↔
      n < steps ∧ m (str + n) = 0 ∧ ∀ i < n, m (str + i) ≠ 0) := by
  have hinside : ∀ i < count, memcpy m dest src count (dest + i) = copied m dest src i := by
    intro i hi
    rw [memcpy_apply, if_pos (by omega), Nat.add_sub_cancel_left]
  have hcopy : dest ≤ src ∨ src + count ≤ dest →
      ∀ i < count, memcpy m dest src count (dest + i) = m (src + i) := by
    intro hplace i hi
    rw [hinside i hi, copied]
    split
    · have hsmall : i % (dest - src) = i := Nat.mod_eq_of_lt (by omega)
      rw [hsmall]
    · rfl
  refine ⟨fun b hb => ?_, hinside, hcopy, fun hapart => ?_, fun a b => ?_,
    strlen_eq_some_iff m⟩
  · rw [memcpy_apply, if_neg (by omega)]
  · rw [memcmp_eq_zero_iff]
    intro i hi
    have hsource : memcpy m dest src count (src + i) = m (src + i) := by
      rw [memcpy_apply, if_neg (by omega)]
    rw [hcopy (by omega) i hi, hsource]
  · exact ⟨memcmp_eq_zero_iff m count a b, memcmp_neg_iff m count a b⟩

end AcharyaOS.Kstring
