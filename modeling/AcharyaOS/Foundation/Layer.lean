import Mathlib.Data.List.Basic

/-!
# Layers

A layer shows something at some points and lets through what is below it at the others.
Whatever is painted over a picture, the last layer that shows something at a point decides.
-/

namespace AcharyaOS.Foundation

variable {ι α : Type}

abbrev Layer (ι α : Type) := ι → Option α

namespace Layer

/-- The picture with the layer over it. -/
def onto (l : Layer ι α) (f : ι → α) : ι → α := fun i => (l i).getD (f i)

/-- A picture, as far as a region goes. -/
def region (r : ι → Prop) [DecidablePred r] (c : ι → α) : Layer ι α := fun i =>
  if r i then some (c i) else none

/-- Layers painted one after the other. -/
def overAll (ls : List (Layer ι α)) (f : ι → α) : ι → α := ls.foldl (fun f l => l.onto f) f

theorem onto_region (r : ι → Prop) [DecidablePred r] (c f : ι → α) (i : ι) :
    (region r c).onto f i = if r i then c i else f i := by
  unfold onto region
  by_cases h : r i
  · rw [if_pos h, if_pos h]
    rfl
  · rw [if_neg h, if_neg h]
    rfl

/-- The last layer that shows something decides. -/
theorem overAll_apply (ls : List (Layer ι α)) (f : ι → α) (i : ι) :
    overAll ls f i = (ls.reverse.findSome? fun l => l i).getD (f i) := by
  induction ls generalizing f with
  | nil => rfl
  | cons l ls ih =>
    have hstep : overAll (l :: ls) f i = overAll ls (l.onto f) i := rfl
    rw [hstep, ih, List.reverse_cons, List.findSome?_append]
    cases h : ls.reverse.findSome? fun l => l i with
    | some a => rfl
    | none =>
        rw [Option.none_or, List.findSome?_singleton]
        rfl

/-- The painter's rule: of things painted in order, each on its own region, the last one whose
region has the point is seen there. -/
theorem overAll_regions {β : Type} (r : β → ι → Prop) [∀ b, DecidablePred (r b)] (c : β → ι → α)
    (bs : List β) (f : ι → α) (i : ι) :
    overAll (bs.map fun b => region (r b) (c b)) f i =
      ((bs.reverse.find? fun b => decide (r b i)).elim (f i) fun b => c b i) := by
  rw [overAll_apply, ← List.map_reverse]
  induction bs.reverse with
  | nil => rfl
  | cons b bs ih =>
    rw [List.map_cons, List.findSome?_cons, List.find?_cons]
    unfold region
    by_cases h : r b i
    · rw [if_pos h, decide_eq_true h]
      rfl
    · rw [if_neg h, decide_eq_false h]
      exact ih

end Layer

end AcharyaOS.Foundation
