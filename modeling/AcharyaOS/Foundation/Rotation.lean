import Mathlib.Algebra.BigOperators.Group.Finset.Basic
import Mathlib.Algebra.Order.BigOperators.Group.Finset
import Mathlib.Logic.Function.Iterate

/-!
# Rotations

`n` slots take turns, slot `i` for `len i` ticks.  Over any stretch as long as
one full turn every slot is served exactly `len i` times, wherever in a turn the
stretch begins.
-/

namespace AcharyaOS.Foundation

open Finset

/-! ## Visits -/

section Visits

variable {σ : Type} (step : σ → σ) (p : σ → Prop) [DecidablePred p]

/-- How often `p` holds in the first `k` states of the run from `s`. -/
def visits (k : Nat) (s : σ) : Nat := ∑ j ∈ range k, if p (step^[j] s) then 1 else 0

@[simp] theorem visits_zero (s : σ) : visits step p 0 s = 0 := rfl

theorem visits_succ (k : Nat) (s : σ) :
    visits step p (k + 1) s = visits step p k s + if p (step^[k] s) then 1 else 0 := by
  rw [visits, sum_range_succ, visits]

theorem visits_add (k m : Nat) (s : σ) :
    visits step p (k + m) s = visits step p k s + visits step p m (step^[k] s) := by
  induction m with
  | zero => simp
  | succ m ih =>
      rw [← Nat.add_assoc, visits_succ, visits_succ, ih, Nat.add_comm k m,
        Function.iterate_add_apply, Nat.add_assoc]

variable {step p}

/-- A window as long as a cycle sees the same visits wherever it begins. -/
theorem visits_of_cycle {c : Nat} {s : σ} (hcycle : step^[c] s = s) (k : Nat) :
    visits step p c (step^[k] s) = visits step p c s := by
  have hfirst := visits_add step p k c s
  have hlast := visits_add step p c k s
  rw [hcycle] at hlast
  rw [Nat.add_comm k c] at hfirst
  omega

end Visits

/-! ## Phases -/

/-- The slot whose turn it is and the ticks it has had of this turn. -/
structure Phase where
  slot : Nat
  progress : Nat

namespace Phase

variable (n : Nat) (len : Nat → Nat)

def tick (q : Phase) : Phase :=
  if q.progress + 1 < len q.slot then ⟨q.slot, q.progress + 1⟩ else ⟨(q.slot + 1) % n, 0⟩

/-- The ticks of a full turn. -/
def turn : Nat := ∑ i ∈ range n, len i

/-- How often slot `i` is served in the `k` ticks from `q` on. -/
def served (k : Nat) (q : Phase) (i : Nat) : Nat :=
  visits (tick n len) (fun q => q.slot = i) k q

variable {n : Nat} {len : Nat → Nat}

theorem tick_iterate_progress {i k : Nat} (hk : k < len i) :
    (tick n len)^[k] ⟨i, 0⟩ = ⟨i, k⟩ := by
  induction k with
  | zero => rfl
  | succ k ih => rw [Function.iterate_succ_apply', ih (by omega), tick, if_pos hk]

theorem tick_iterate_len {i : Nat} (hlen : 0 < len i) :
    (tick n len)^[len i] ⟨i, 0⟩ = ⟨(i + 1) % n, 0⟩ := by
  obtain ⟨k, hk⟩ := Nat.exists_eq_succ_of_ne_zero hlen.ne'
  have hbefore : (tick n len)^[k] ⟨i, 0⟩ = ⟨i, k⟩ := tick_iterate_progress (by omega)
  rw [hk, Function.iterate_succ_apply', hbefore, tick, if_neg (by simp only; omega)]

theorem served_within {i k : Nat} (hk : k ≤ len i) (j : Nat) :
    served n len k ⟨i, 0⟩ j = if i = j then k else 0 := by
  induction k with
  | zero => simp [served]
  | succ k ih =>
      have hnow : (tick n len)^[k] ⟨i, 0⟩ = ⟨i, k⟩ := tick_iterate_progress (by omega)
      rw [served, visits_succ, hnow, ← served, ih (by omega)]
      split <;> rfl

theorem tick_iterate_turns (hlen : ∀ i < n, 0 < len i) {m : Nat} (hm : m ≤ n) :
    (tick n len)^[turn m len] ⟨0, 0⟩ = ⟨m % n, 0⟩ ∧
      ∀ j, served n len (turn m len) ⟨0, 0⟩ j = if j < m then len j else 0 := by
  induction m with
  | zero => simp [turn, served]
  | succ m ih =>
      obtain ⟨hstate, hserved⟩ := ih (by omega)
      have hmod : m % n = m := Nat.mod_eq_of_lt hm
      have hturn : turn (m + 1) len = turn m len + len m := sum_range_succ _ _
      rw [hmod] at hstate
      constructor
      · rw [hturn, Nat.add_comm, Function.iterate_add_apply, hstate,
          tick_iterate_len (hlen m hm)]
      · intro j
        have hlast : served n len (len m) ⟨m, 0⟩ j = if m = j then len m else 0 :=
          served_within le_rfl j
        have hfirst := hserved j
        unfold served at hfirst hlast ⊢
        rw [hturn, visits_add, hstate, hfirst, hlast]
        by_cases hj : j < m
        · rw [if_pos hj, if_neg (by omega), if_pos (by omega), Nat.add_zero]
        · by_cases hjm : m = j
          · subst hjm
            simp
          · rw [if_neg hj, if_neg hjm, if_neg (by omega)]

/-- Every phase lies on the cycle through the start of slot 0. -/
theorem exists_iterate_eq (hlen : ∀ i < n, 0 < len i) {q : Phase} (hslot : q.slot < n)
    (hprogress : q.progress < len q.slot) : ∃ k, (tick n len)^[k] ⟨0, 0⟩ = q := by
  refine ⟨q.progress + turn q.slot len, ?_⟩
  rw [Function.iterate_add_apply, (tick_iterate_turns hlen hslot.le).1,
    Nat.mod_eq_of_lt hslot, tick_iterate_progress hprogress]

/-- In any stretch of one full turn each slot is served for its own length. -/
theorem served_turn (hlen : ∀ i < n, 0 < len i) {q : Phase} (hslot : q.slot < n)
    (hprogress : q.progress < len q.slot) {i : Nat} (hi : i < n) :
    served n len (turn n len) q i = len i := by
  obtain ⟨hcycle, hserved⟩ := tick_iterate_turns hlen (le_refl n)
  rw [Nat.mod_self] at hcycle
  obtain ⟨k, rfl⟩ := exists_iterate_eq hlen hslot hprogress
  rw [served, visits_of_cycle hcycle, ← served, hserved, if_pos hi]

end Phase

end AcharyaOS.Foundation
