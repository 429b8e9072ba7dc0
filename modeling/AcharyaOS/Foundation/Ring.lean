import Mathlib.Data.List.DropRight
import Mathlib.Logic.Function.Basic

/-!
# Ring buffers

A table of `n` slots written round and round keeps the last `n` of an unbounded
sequence of values.  The values stored last stand in front of the head.
-/

namespace AcharyaOS.Foundation.Ring

variable {α : Type} {n : Nat}

/-- Slot `x` of a ring, counted round. -/
def slotAt (hn : 0 < n) (x : Nat) : Fin n := ⟨x % n, Nat.mod_lt _ hn⟩

/-- The `m` values stored last, oldest first. -/
def recent (hn : 0 < n) (slots : Fin n → α) (head m : Nat) : List α :=
  (List.range m).map fun j => slots (slotAt hn (head + n - m + j))

theorem mod_of_lt_add {x : Nat} (h : x < n + n) : x % n = if x < n then x else x - n := by
  split
  · next hlt => exact Nat.mod_eq_of_lt hlt
  · next hge =>
      rw [Nat.mod_eq_sub_mod (by omega)]
      exact Nat.mod_eq_of_lt (by omega)

/-- Values stored before the last `n` writes are the only ones a write overwrites. -/
theorem slotAt_ne_head (hn : 0 < n) {head m j : Nat} (hhead : head < n) (hm : m < n)
    (hj : j < m) : slotAt hn (head + n - m + j) ≠ ⟨head, hhead⟩ := by
  intro h
  have hval : (head + n - m + j) % n = head := congrArg Fin.val h
  rw [mod_of_lt_add (by omega)] at hval
  split at hval <;> omega

theorem recent_push (hn : 0 < n) (slots : Fin n → α) {head m : Nat} (hhead : head < n)
    (hm : m < n) (x : α) :
    recent hn (Function.update slots ⟨head, hhead⟩ x) ((head + 1) % n) (m + 1) =
      recent hn slots head m ++ [x] := by
  have hshift : ∀ j, j ≤ m →
      ((head + 1) % n + n - (m + 1) + j) % n = (head + n - m + j) % n := by
    intro j hj
    by_cases hwrap : head + 1 < n
    · rw [Nat.mod_eq_of_lt hwrap]
      congr 1
      omega
    · have hlast : head + 1 = n := by omega
      rw [hlast, Nat.mod_self, show head + n - m + j = 0 + n - (m + 1) + j + n by omega,
        Nat.add_mod_right]
  have hslot : ∀ j, j ≤ m →
      slotAt hn ((head + 1) % n + n - (m + 1) + j) = slotAt hn (head + n - m + j) :=
    fun j hj => Fin.ext (hshift j hj)
  have hnew : slotAt hn (head + n - m + m) = ⟨head, hhead⟩ := by
    apply Fin.ext
    show (head + n - m + m) % n = head
    rw [show head + n - m + m = head + n by omega, Nat.add_mod_right, Nat.mod_eq_of_lt hhead]
  unfold recent
  rw [List.range_succ, List.map_append, List.map_singleton, hslot m le_rfl, hnew,
    Function.update_self]
  congr 1
  apply List.map_congr_left
  intro j hj
  rw [List.mem_range] at hj
  rw [hslot j hj.le, Function.update_of_ne (slotAt_ne_head hn hhead hm hj)]

/-- The ring holds the end of the sequence `l`. -/
def Holds (hn : 0 < n) (slots : Fin n → α) (head : Nat) (l : List α) : Prop :=
  ∀ m, m ≤ l.length → m ≤ n → recent hn slots head m = l.rtake m

theorem Holds.nil (hn : 0 < n) (slots : Fin n → α) (head : Nat) : Holds hn slots head [] := by
  intro m hm _
  rw [Nat.le_zero.mp hm]
  rfl

/-- Writing to the head appends to the sequence. -/
theorem Holds.push {hn : 0 < n} {slots : Fin n → α} {head : Nat} {l : List α}
    (h : Holds hn slots head l) (hhead : head < n) (x : α) :
    Holds hn (Function.update slots ⟨head, hhead⟩ x) ((head + 1) % n) (l ++ [x]) := by
  intro m hm hmn
  cases m with
  | zero => rw [List.rtake_zero]; rfl
  | succ m =>
      rw [List.length_append, List.length_singleton] at hm
      rw [recent_push hn slots hhead (by omega), List.rtake_concat_succ,
        h m (by omega) (by omega)]

theorem rtake_min_length (l : List α) (n : Nat) : l.rtake (min l.length n) = l.rtake n := by
  rw [List.rtake, List.rtake]
  congr 1
  omega

end AcharyaOS.Foundation.Ring
