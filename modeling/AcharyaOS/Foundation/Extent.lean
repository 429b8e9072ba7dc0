import Mathlib.Data.Finset.Lattice.Fold
import Mathlib.Data.Fintype.Basic
import Mathlib.Order.CompletePartialOrder
import Mathlib.Order.Interval.Set.Disjoint
import Mathlib.Order.Lattice.Nat

/-!
# Extents and the high-water mark

Contiguous runs of sectors, families of them indexed by the slots of a table,
and the allocator that places a new extent behind every existing one.
-/

namespace AcharyaOS.Foundation

/-- `len` consecutive sectors from `start` on. -/
structure Extent where
  start : Nat
  len : Nat
  deriving DecidableEq

namespace Extent

def stop (e : Extent) : Nat := e.start + e.len

@[simp] theorem stop_mk (start len : Nat) : (⟨start, len⟩ : Extent).stop = start + len := rfl

def sectors (e : Extent) : Set Nat := Set.Ico e.start e.stop

/-- One of the two ends before the other begins. -/
def Apart (a b : Extent) : Prop := a.stop ≤ b.start ∨ b.stop ≤ a.start

theorem Apart.symm {a b : Extent} (h : Apart a b) : Apart b a := Or.symm h

theorem Apart.disjoint {a b : Extent} (h : Apart a b) : Disjoint a.sectors b.sectors := by
  rw [Set.disjoint_left]
  intro x hxa hxb
  simp only [sectors, Set.mem_Ico] at hxa hxb
  rcases h with h | h <;> omega

end Extent

variable {ι : Type} {f g : ι → Option Extent}

def PairwiseApart (f : ι → Option Extent) : Prop :=
  ∀ ⦃i j a b⦄, i ≠ j → f i = some a → f j = some b → a.Apart b

namespace PairwiseApart

theorem none : PairwiseApart (fun _ : ι => (none : Option Extent)) := by
  intro i j a b _ ha
  exact absurd ha (by simp)

theorem of_subfamily (hf : PairwiseApart f) (hg : ∀ i a, g i = some a → f i = some a) :
    PairwiseApart g :=
  fun _ _ _ _ hij ha hb => hf hij (hg _ _ ha) (hg _ _ hb)

variable [DecidableEq ι]

theorem update_none (hf : PairwiseApart f) (k : ι) :
    PairwiseApart (Function.update f k Option.none) := by
  apply hf.of_subfamily
  intro i a ha
  by_cases hik : i = k
  · subst hik
    simp at ha
  · simpa [Function.update_of_ne hik] using ha

theorem update_above (hf : PairwiseApart f) (k : ι) {e : Extent}
    (he : ∀ i a, i ≠ k → f i = some a → a.stop ≤ e.start) :
    PairwiseApart (Function.update f k (some e)) := by
  intro i j a b hij ha hb
  by_cases hik : i = k
  · subst hik
    rw [Function.update_self, Option.some.injEq] at ha
    rw [Function.update_of_ne hij.symm] at hb
    exact Or.inr (ha ▸ he j b hij.symm hb)
  · rw [Function.update_of_ne hik] at ha
    by_cases hjk : j = k
    · subst hjk
      rw [Function.update_self, Option.some.injEq] at hb
      exact Or.inl (hb ▸ he i a hik ha)
    · rw [Function.update_of_ne hjk] at hb
      exact hf hij ha hb

end PairwiseApart

/-! ## The high-water mark -/

/-- The end of the last extent, at least `base`. -/
def highWater [Fintype ι] (base : Nat) (f : ι → Option Extent) : Nat :=
  max base (Finset.univ.sup fun i => (f i).elim 0 Extent.stop)

theorem highWater_le_iff [Fintype ι] {base b : Nat} :
    highWater base f ≤ b ↔ base ≤ b ∧ ∀ i a, f i = some a → a.stop ≤ b := by
  rw [highWater, max_le_iff, Finset.sup_le_iff]
  apply and_congr_right'
  constructor
  · intro h i a ha
    simpa [ha] using h i (Finset.mem_univ i)
  · intro h i _
    cases ha : f i with
    | none => simp
    | some a => simpa using h i a ha

theorem base_le_highWater [Fintype ι] (base : Nat) (f : ι → Option Extent) :
    base ≤ highWater base f :=
  (highWater_le_iff.mp le_rfl).1

theorem stop_le_highWater [Fintype ι] (base : Nat) {i : ι} {a : Extent}
    (ha : f i = some a) : a.stop ≤ highWater base f :=
  (highWater_le_iff.mp le_rfl).2 i a ha

end AcharyaOS.Foundation
