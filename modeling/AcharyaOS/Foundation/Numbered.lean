import AcharyaOS.Foundation.Slots
import Mathlib.Algebra.Group.Nat.Defs

/-!
# Tables of numbered entries

A new entry goes into the first free slot and takes the next number, from 1 on.  No entry is
ever taken out, so the number of an entry tells its slot.
-/

namespace AcharyaOS.Foundation

variable {n : Nat} {α : Type} {used : α → Bool} {number : α → UInt32} {table : Fin n → α}
  {next : UInt32} {count : Nat}

/-- The first `count` slots are in use and numbered from 1 on, and `next` is the number after
them. -/
structure Numbered (used : α → Bool) (number : α → UInt32) (table : Fin n → α) (next : UInt32)
    (count : Nat) : Prop where
  bounded : n + 1 < 2 ^ 32
  count_le : count ≤ n
  used_iff : ∀ i, used (table i) = true ↔ i.val < count
  number_eq : ∀ i : Fin n, i.val < count → number (table i) = .ofNat (i.val + 1)
  next_eq : next = .ofNat (count + 1)

namespace Numbered

theorem empty (hn : n + 1 < 2 ^ 32) (hfree : ∀ i, used (table i) = false) :
    Numbered used number table 1 0 where
  bounded := hn
  count_le := Nat.zero_le n
  used_iff := fun i => by simp [hfree i]
  number_eq := fun i hi => absurd hi (Nat.not_lt_zero i.val)
  next_eq := rfl

/-- What neither frees nor renumbers an entry keeps the table. -/
theorem congr (h : Numbered used number table next count) {table' : Fin n → α}
    (hused : ∀ i, used (table' i) = used (table i))
    (hnumber : ∀ i, number (table' i) = number (table i)) :
    Numbered used number table' next count where
  bounded := h.bounded
  count_le := h.count_le
  used_iff := fun i => by rw [hused, h.used_iff]
  number_eq := fun i hi => (hnumber i).trans (h.number_eq i hi)
  next_eq := h.next_eq

theorem set (h : Numbered used number table next count) (i : Fin n) {a : α}
    (hused : used a = used (table i)) (hnumber : number a = number (table i)) :
    Numbered used number (Function.update table i a) next count := by
  refine h.congr (fun j => ?_) fun j => ?_
  · by_cases hj : j = i
    · rw [hj, Function.update_self, hused]
    · rw [Function.update_of_ne hj]
  · by_cases hj : j = i
    · rw [hj, Function.update_self, hnumber]
    · rw [Function.update_of_ne hj]

theorem push (h : Numbered used number table next count) (hlt : count < n) {a : α}
    (hused : used a = true) (hnumber : number a = next) :
    Numbered used number (Function.update table ⟨count, hlt⟩ a) (next + 1) (count + 1) where
  bounded := h.bounded
  count_le := hlt
  used_iff := fun i => by
    by_cases hi : i = ⟨count, hlt⟩
    · subst hi
      rw [Function.update_self]
      exact ⟨fun _ => Nat.lt_succ_self count, fun _ => hused⟩
    · have hne : i.val ≠ count := fun heq => hi (Fin.ext heq)
      rw [Function.update_of_ne hi, h.used_iff]
      omega
  number_eq := fun i hi => by
    by_cases hbelow : i.val < count
    · rw [update_mk_of_lt hlt table a hbelow]
      exact h.number_eq i hbelow
    · rw [update_mk_of_not_lt hlt table a hi hbelow, hnumber, h.next_eq]
      have heq : i.val = count := Nat.eq_of_lt_succ_of_not_lt hi hbelow
      rw [heq]
  next_eq := by
    rw [h.next_eq]
    exact (UInt32.ofNat_add _ 1).symm

theorem not_used (h : Numbered used number table next count) (hlt : count < n) :
    used (table ⟨count, hlt⟩) = false := by
  have hfree := mt (h.used_iff ⟨count, hlt⟩).mp (Nat.lt_irrefl count)
  simpa using hfree

theorem free (h : Numbered used number table next count) :
    (firstSlot fun i => !used (table i)) =
      if hlt : count < n then some ⟨count, hlt⟩ else none := by
  by_cases hlt : count < n
  · rw [dif_pos hlt]
    apply firstSlot_of_first
    · rw [h.not_used hlt, Bool.not_false]
    · intro j hj
      have hused := (h.used_iff j).mpr hj
      simp [hused]
  · rw [dif_neg hlt, firstSlot_eq_none_iff]
    intro i
    have hused := (h.used_iff i).mpr (by omega)
    simp [hused]

theorem toNat_number (h : Numbered used number table next count) {i : Fin n}
    (hi : used (table i) = true) : (number (table i)).toNat = i.val + 1 := by
  have hbounded := h.bounded
  have hlt := i.isLt
  rw [h.number_eq i ((h.used_iff i).mp hi), UInt32.toNat_ofNat']
  omega

theorem number_ne_zero (h : Numbered used number table next count) {i : Fin n}
    (hi : used (table i) = true) : number (table i) ≠ 0 := by
  intro h0
  have hnat := h.toNat_number hi
  rw [h0, UInt32.toNat_zero] at hnat
  omega

theorem next_ne_zero (h : Numbered used number table next count) : next ≠ 0 := by
  intro h0
  have hnat := congrArg UInt32.toNat (h.next_eq.symm.trans h0)
  have hbounded := h.bounded
  have hcount := h.count_le
  rw [UInt32.toNat_ofNat', UInt32.toNat_zero] at hnat
  omega

theorem number_inj (h : Numbered used number table next count) {i j : Fin n}
    (hi : used (table i) = true) (hj : used (table j) = true)
    (heq : number (table i) = number (table j)) : i = j := by
  have hnat := h.toNat_number hi
  rw [heq, h.toNat_number hj] at hnat
  exact Fin.ext (Nat.succ.inj hnat).symm

/-- The slot with a number in it. -/
def lookup (used : α → Bool) (number : α → UInt32) (table : Fin n → α) (id : UInt32) :
    Option (Fin n) :=
  firstSlot fun i => used (table i) && number (table i) == id

theorem lookup_eq_some_iff (h : Numbered used number table next count) {id : UInt32}
    {i : Fin n} :
    lookup used number table id = some i ↔ used (table i) = true ∧ number (table i) = id := by
  constructor
  · intro hlookup
    have hfound := firstSlot_some hlookup
    rwa [Bool.and_eq_true, beq_iff_eq] at hfound
  · rintro ⟨hused, rfl⟩
    apply firstSlot_of_unique
    · rw [hused, beq_self_eq_true, Bool.and_true]
    · intro j hj
      rw [Bool.and_eq_true, beq_iff_eq] at hj
      exact h.number_inj hj.1 hused hj.2

end Numbered

end AcharyaOS.Foundation
