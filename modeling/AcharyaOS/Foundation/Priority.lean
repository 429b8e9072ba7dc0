import AcharyaOS.Foundation.Slots

/-!
# Requests in the order of priority

A controller with some lines, of which the first goes first.  A request is granted while no line
of the same or a higher priority is in service.  The end of a service is reported without a
name and taken for the line of the highest priority, which is the right one when services are
nested.
-/

namespace AcharyaOS.Foundation

structure Controller (n : Nat) where
  request : Fin n → Bool
  service : Fin n → Bool

namespace Controller

variable {n : Nat} (c : Controller n)

def Quiet : Prop := ∀ i, c.service i = false

def raise (i : Fin n) : Controller n := { c with request := Function.update c.request i true }

/-- The services let a request of the line through. -/
def admits (i : Fin n) : Bool := decide (∀ j, j ≤ i → c.service j = false)

/-- The request that is next. -/
def next (masked : Fin n → Bool) : Option (Fin n) :=
  firstSlot fun i => c.request i && !masked i && c.admits i

def grant (i : Fin n) : Controller n where
  request := Function.update c.request i false
  service := Function.update c.service i true

/-- The request is over. -/
def withdraw (i : Fin n) : Controller n :=
  { c with request := Function.update c.request i false }

def finish : Controller n :=
  match firstSlot c.service with
  | none => c
  | some i => { c with service := Function.update c.service i false }

variable {c}

theorem next_some {masked : Fin n → Bool} {i : Fin n} (h : c.next masked = some i) :
    c.request i = true ∧ masked i = false ∧ ∀ j, j ≤ i → c.service j = false := by
  have hi := firstSlot_some h
  rw [Bool.and_eq_true, Bool.and_eq_true, Bool.not_eq_true', admits, decide_eq_true_eq] at hi
  exact ⟨hi.1.1, hi.1.2, hi.2⟩

theorem Quiet.next_eq (h : c.Quiet) (masked : Fin n → Bool) :
    c.next masked = firstSlot fun i => c.request i && !masked i := by
  unfold next
  congr 1
  ext i : 1
  have hadmits : c.admits i = true := decide_eq_true fun j _ => h j
  rw [hadmits, Bool.and_true]

theorem finish_grant {i : Fin n} (h : ∀ j, j ≤ i → c.service j = false) :
    (c.grant i).finish = c.withdraw i := by
  have hfirst : firstSlot (c.grant i).service = some i := by
    apply firstSlot_of_first
    · exact Function.update_self i true c.service
    · intro j hj
      show Function.update c.service i true j = false
      rw [Function.update_of_ne (Fin.ne_of_lt hj)]
      exact h j (Fin.le_of_lt hj)
  have hback : Function.update (Function.update c.service i true) i false = c.service := by
    rw [Function.update_idem]
    exact Function.update_eq_self_iff.mpr (h i (Fin.le_refl i)).symm
  unfold finish
  rw [hfirst]
  show Controller.mk _ (Function.update (Function.update c.service i true) i false) = _
  rw [hback]
  rfl

end Controller

end AcharyaOS.Foundation
