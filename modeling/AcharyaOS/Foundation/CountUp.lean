import Mathlib.Data.UInt

/-!
# Loops that count up

`for (uint32_t i = start; i < stop; i++)` with a body that may leave an array, `none` standing
for that.
-/

namespace AcharyaOS.Foundation

variable {σ : Type}

theorem toNat_succ_of_lt {i stop : UInt32} (h : i < stop) : (i + 1).toNat = i.toNat + 1 := by
  have hi : i.toNat < stop.toNat := UInt32.lt_iff_toNat_lt.mp h
  have hstop := stop.toNat_lt
  rw [UInt32.toNat_add, UInt32.toNat_one]
  omega

def countUp (stop : UInt32) (body : UInt32 → σ → Option σ) (i : UInt32) (s : σ) : Option σ :=
  if _h : i < stop then (body i s).bind (countUp stop body (i + 1)) else some s
termination_by stop.toNat - i.toNat
decreasing_by
  have hsucc := toNat_succ_of_lt _h
  have hlt : i.toNat < stop.toNat := UInt32.lt_iff_toNat_lt.mp _h
  omega

theorem countUp_of_le {stop i : UInt32} (h : stop ≤ i) (body : UInt32 → σ → Option σ) (s : σ) :
    countUp stop body i s = some s := by
  rw [countUp, dif_neg (UInt32.not_lt.mpr h)]

/-- The loop stays inside if every round does, and what is carried from each round to the
next holds at its end, which is the start where there is no round. -/
theorem countUp_rule {P : Nat → σ → Prop} {stop : UInt32} {body : UInt32 → σ → Option σ}
    (hbody : ∀ i s, i < stop → P i.toNat s → ∃ t, body i s = some t ∧ P (i.toNat + 1) t)
    (i : UInt32) (s : σ) (h : P i.toNat s) :
    ∃ t, countUp stop body i s = some t ∧ P (max i.toNat stop.toNat) t := by
  induction hn : stop.toNat - i.toNat generalizing i s with
  | zero =>
    have hle : stop.toNat ≤ i.toNat := by omega
    refine ⟨s, countUp_of_le (UInt32.le_iff_toNat_le.mpr hle) body s, ?_⟩
    rwa [Nat.max_eq_left hle]
  | succ n ih =>
    have hlt : i < stop := by
      rw [UInt32.lt_iff_toNat_lt]
      omega
    have hsucc := toNat_succ_of_lt hlt
    obtain ⟨t, ht, hP⟩ := hbody i s hlt h
    rw [← hsucc] at hP
    obtain ⟨u, hu, hPu⟩ := ih (i + 1) t hP (by omega)
    refine ⟨u, ?_, ?_⟩
    · rw [countUp, dif_pos hlt, ht]
      exact hu
    · rw [hsucc, Nat.max_eq_right (by omega)] at hPu
      rwa [Nat.max_eq_right (by omega)]

end AcharyaOS.Foundation
