import Mathlib.Logic.Function.Basic

/-!
# One buffer for several senders

Senders hold items of type `α` for a reader.  The buffer takes one item at a time, from any
sender, and no other before it has been read.
-/

namespace AcharyaOS.Foundation

/-- The item that was last put into the buffer, whose it is while it has not been read, and the
items that the senders still hold. -/
structure SharedBuffer (S α : Type) where
  data : α
  full : Option S
  waiting : S → List α

namespace SharedBuffer

variable {S α : Type} [DecidableEq S] (b : SharedBuffer S α)

/-- A sender has one more item. -/
def send (s : S) (x : α) : SharedBuffer S α :=
  { b with waiting := Function.update b.waiting s (b.waiting s ++ [x]) }

/-- The next item of a sender comes into the buffer, if there is one and room for it. -/
def load (s : S) : Option (SharedBuffer S α) :=
  match b.full, b.waiting s with
  | none, x :: rest =>
      some { data := x, full := some s, waiting := Function.update b.waiting s rest }
  | _, _ => none

/-- The buffer once it has been read. -/
def clear : SharedBuffer S α := { b with full := none }

/-- What of a sender has not been read. -/
def unread (s : S) : List α := (if b.full = some s then [b.data] else []) ++ b.waiting s

variable {b} {b' : SharedBuffer S α}

theorem load_eq_some {s : S} (h : b.load s = some b') :
    b.full = none ∧ b'.full = some s ∧ ∀ t, b'.unread t = b.unread t := by
  unfold load at h
  split at h
  · next x rest hfull hwaiting =>
    cases h
    refine ⟨hfull, rfl, fun t => ?_⟩
    simp only [unread, hfull, reduceCtorEq, if_false, List.nil_append, Option.some.injEq]
    by_cases ht : s = t
    · subst ht
      rw [if_pos rfl, Function.update_self, hwaiting]
      rfl
    · rw [if_neg ht, Function.update_of_ne (Ne.symm ht)]
      rfl
  · exact absurd h.symm (Option.some_ne_none b')

theorem load_eq_none {s : S} (h : b.load s = none) : b.full ≠ none ∨ b.waiting s = [] := by
  unfold load at h
  split at h
  · exact absurd h (Option.some_ne_none _)
  · next hno =>
    cases hfull : b.full with
    | some t => exact .inl (Option.some_ne_none t)
    | none =>
      cases hwaiting : b.waiting s with
      | nil => exact .inr rfl
      | cons x rest => exact absurd hwaiting (hno x rest hfull)

theorem unread_send (s : S) (x : α) (t : S) :
    (b.send s x).unread t = b.unread t ++ if t = s then [x] else [] := by
  simp only [unread, send]
  by_cases ht : t = s
  · rw [if_pos ht, ht, Function.update_self, List.append_assoc]
    rfl
  · rw [if_neg ht, Function.update_of_ne ht, List.append_nil]
    rfl

theorem unread_clear {s : S} (h : b.full = some s) : b.unread s = b.data :: b.clear.unread s := by
  simp only [unread, clear, h, if_true, reduceCtorEq, if_false]
  rfl

theorem unread_clear_of_ne {s t : S} (h : b.full = some s) (ht : t ≠ s) :
    b.clear.unread t = b.unread t := by
  have hne : ¬ s = t := Ne.symm ht
  simp only [unread, clear, h, reduceCtorEq, if_false, Option.some.injEq, hne]

theorem unread_of_empty {s : S} (h : b.full = none) : b.unread s = b.waiting s := by
  simp only [unread, h, reduceCtorEq, if_false, List.nil_append]

end SharedBuffer

end AcharyaOS.Foundation
