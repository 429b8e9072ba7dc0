import Mathlib.Data.List.FinRange
import Mathlib.Logic.Function.Basic

/-!
# Tables of slots

A C table of fixed size is a function from slot numbers.  The search loops over
it stop at the first slot that fits.
-/

namespace AcharyaOS.Foundation

variable {n : Nat}

def firstSlot (p : Fin n → Bool) : Option (Fin n) := (List.finRange n).find? p

theorem firstSlot_some {p : Fin n → Bool} {i : Fin n} (h : firstSlot p = some i) :
    p i = true :=
  List.find?_some h

theorem firstSlot_eq_none_iff {p : Fin n → Bool} :
    firstSlot p = none ↔ ∀ i, p i = false := by
  simp [firstSlot]

theorem firstSlot_of_unique {p : Fin n → Bool} {i : Fin n} (hi : p i = true)
    (huniq : ∀ j, p j = true → j = i) : firstSlot p = some i := by
  cases h : firstSlot p with
  | none =>
      have := firstSlot_eq_none_iff.mp h i
      rw [hi] at this
      exact absurd this (by decide)
  | some j => rw [huniq j (firstSlot_some h)]

theorem firstSlot_of_first {p : Fin n → Bool} {i : Fin n} (hi : p i = true)
    (hfirst : ∀ j < i, p j = false) : firstSlot p = some i := by
  rw [firstSlot, List.find?_eq_some_iff_getElem]
  refine ⟨hi, i.val, by simp, by simp, fun j hj => ?_⟩
  have hlt : (⟨j, hj.trans i.isLt⟩ : Fin n) < i := hj
  simpa using hfirst _ hlt

theorem update_mk_of_lt {α : Type} {k : Nat} (hk : k < n) (f : Fin n → α) (a : α) {i : Fin n}
    (hi : i.val < k) : Function.update f ⟨k, hk⟩ a i = f i := by
  apply Function.update_of_ne
  rintro rfl
  exact Nat.lt_irrefl k hi

theorem update_mk_of_not_lt {α : Type} {k : Nat} (hk : k < n) (f : Fin n → α) (a : α)
    {i : Fin n} (hi : i.val < k + 1) (hge : ¬ i.val < k) :
    Function.update f ⟨k, hk⟩ a i = a := by
  have heq : i = ⟨k, hk⟩ := Fin.ext (Nat.eq_of_lt_succ_of_not_lt hi hge)
  rw [heq, Function.update_self]

def countSlots (p : Fin n → Bool) : Nat := (List.finRange n).countP p

theorem countP_update {α : Type} [DecidableEq α] (p : α → Bool) (a : α) (b : Bool) (l : List α)
    (hnodup : l.Nodup) (hmem : a ∈ l) :
    l.countP (Function.update p a b) + (p a).toNat = l.countP p + b.toNat := by
  induction l with
  | nil => cases hmem
  | cons x l ih =>
      rw [List.nodup_cons] at hnodup
      rw [List.countP_cons, List.countP_cons]
      rcases List.mem_cons.mp hmem with rfl | htail
      · have hrest : l.countP (Function.update p a b) = l.countP p := by
          apply List.countP_congr
          intro y hy
          rw [Function.update_of_ne (by rintro rfl; exact hnodup.1 hy)]
        rw [hrest, Function.update_self]
        cases p a <;> cases b <;> simp
      · have hne : x ≠ a := by
          rintro rfl
          exact hnodup.1 htail
        have htail' := ih hnodup.2 htail
        rw [Function.update_of_ne hne]
        omega

theorem countSlots_update (p : Fin n → Bool) (i : Fin n) (b : Bool) :
    countSlots (Function.update p i b) + (p i).toNat = countSlots p + b.toNat :=
  countP_update p i b _ (List.nodup_finRange n) (List.mem_finRange i)

theorem countSlots_le (p : Fin n → Bool) : countSlots p ≤ n :=
  List.countP_le_length.trans_eq List.length_finRange

/-! ## Tables with keys -/

section Distinct

variable {κ : Type} {key : Fin n → Option κ}

/-- No two slots hold the same key. -/
def Distinct (key : Fin n → Option κ) : Prop :=
  ∀ i j k, key i = some k → key j = some k → i = j

instance [DecidableEq κ] : Decidable (Distinct key) :=
  decidable_of_iff (∀ i j, (key i).isSome = true → key i = key j → i = j) (by
    constructor
    · intro h i j k hi hj
      exact h i j (Option.isSome_iff_exists.mpr ⟨k, hi⟩) (hi.trans hj.symm)
    · intro h i j hi hij
      obtain ⟨k, hk⟩ := Option.isSome_iff_exists.mp hi
      exact h i j k hk (hij.symm.trans hk))

namespace Distinct

theorem free : Distinct fun _ : Fin n => (none : Option κ) :=
  fun _ _ _ h => absurd h.symm (Option.some_ne_none _)

/-- A slot may take a key that no other slot holds. -/
theorem update (h : Distinct key) (i : Fin n) (k : Option κ)
    (hfresh : ∀ x, k = some x → ∀ j, j ≠ i → key j ≠ some x) :
    Distinct (Function.update key i k) := by
  intro a b x ha hb
  by_cases hai : a = i
  · by_cases hbi : b = i
    · rw [hai, hbi]
    · rw [hai, Function.update_self] at ha
      rw [Function.update_of_ne hbi] at hb
      exact absurd hb (hfresh x ha b hbi)
  · rw [Function.update_of_ne hai] at ha
    by_cases hbi : b = i
    · rw [hbi, Function.update_self] at hb
      exact absurd ha (hfresh x hb a hai)
    · rw [Function.update_of_ne hbi] at hb
      exact h a b x ha hb

end Distinct

/-- The slot that holds a key, the first one if there are several. -/
def slotOf [DecidableEq κ] (key : Fin n → Option κ) (k : κ) : Option (Fin n) :=
  firstSlot fun i => decide (key i = some k)

variable [DecidableEq κ]

theorem slotOf_some {k : κ} {i : Fin n} (h : slotOf key k = some i) : key i = some k :=
  of_decide_eq_true (firstSlot_some h)

theorem slotOf_eq_none_iff {k : κ} : slotOf key k = none ↔ ∀ i, key i ≠ some k := by
  simp [slotOf, firstSlot_eq_none_iff]

theorem Distinct.slotOf_eq (h : Distinct key) {k : κ} {i : Fin n} (hi : key i = some k) :
    slotOf key k = some i :=
  firstSlot_of_unique (decide_eq_true hi) fun j hj => h j i k (of_decide_eq_true hj) hi

/-- Changing a slot does not move a key that the slot neither held nor takes. -/
theorem slotOf_update_of_ne {k : κ} {i : Fin n} {new : Option κ} (hold : key i ≠ some k)
    (hnew : new ≠ some k) : slotOf (Function.update key i new) k = slotOf key k := by
  unfold slotOf
  congr 1
  ext j : 1
  by_cases hj : j = i
  · subst hj
    rw [Function.update_self, decide_eq_false hold, decide_eq_false hnew]
  · rw [Function.update_of_ne hj]

end Distinct

/-! ## Tables filled from the front -/

section Fills

variable {α : Type} {view : Fin n → Option α} {l : List α}

/-- The slots hold the list `l` from slot 0 on, and the others are free. -/
structure Fills (view : Fin n → Option α) (l : List α) : Prop where
  length_le : l.length ≤ n
  view_eq : ∀ i, view i = l[i.val]?

/-- What the table holds, in the order of its slots. -/
def slotList (view : Fin n → Option α) : List α := (List.finRange n).filterMap view

theorem length_slotList_le (view : Fin n → Option α) : (slotList view).length ≤ n :=
  (List.length_filterMap_le _ _).trans_eq List.length_finRange

theorem mem_slotList {a : α} : a ∈ slotList view ↔ ∃ i, view i = some a := by
  simp [slotList]

/-- A free slot that is taken adds what it takes. -/
theorem slotList_update_perm {i : Fin n} (hfree : view i = none) (a : α) :
    (slotList (Function.update view i (some a))).Perm (a :: slotList view) := by
  have hsplit := List.perm_cons_erase (List.mem_finRange i)
  have hrest : ((List.finRange n).erase i).filterMap (Function.update view i (some a)) =
      ((List.finRange n).erase i).filterMap view := by
    refine List.filterMap_congr fun j hj => Function.update_of_ne ?_ _ _
    rintro rfl
    exact (List.nodup_finRange n).not_mem_erase hj
  have htaken := hsplit.filterMap (Function.update view i (some a))
  have hview := hsplit.filterMap view
  rw [List.filterMap_cons_some (Function.update_self i (some a) view), hrest] at htaken
  rw [List.filterMap_cons_none hfree] at hview
  exact htaken.trans (hview.symm.cons a)

theorem exists_free_of_length_lt (h : (slotList view).length < n) : ∃ i, view i = none := by
  by_contra hnone
  push Not at hnone
  have hall : (slotList view).length = (List.finRange n).length := by
    rw [slotList, List.filterMap_length_eq_length]
    exact fun i _ => Option.isSome_iff_ne_none.mpr (hnone i)
  rw [List.length_finRange] at hall
  omega

theorem filterMap_range_getElem? (l : List α) (k : Nat) :
    (List.range k).filterMap (fun i => l[i]?) = l.take k := by
  induction k with
  | zero => simp
  | succ k ih =>
      rw [List.range_succ, List.filterMap_append, ih, List.take_add_one]
      cases hk : l[k]? <;> simp [hk]

namespace Fills

theorem slotList_eq (h : Fills view l) : slotList view = l := by
  calc slotList view
      = ((List.finRange n).map Fin.val).filterMap fun i => l[i]? := by
        rw [List.filterMap_map]
        exact List.filterMap_congr fun i _ => h.view_eq i
    _ = l.take n := by rw [List.map_coe_finRange_eq_range, filterMap_range_getElem?]
    _ = l := List.take_of_length_le h.length_le

theorem nil : Fills (fun _ : Fin n => (none : Option α)) [] :=
  ⟨Nat.zero_le n, fun _ => rfl⟩

theorem unique {view' : Fin n → Option α} (h : Fills view l) (h' : Fills view' l) (i : Fin n) :
    view i = view' i :=
  (h.view_eq i).trans (h'.view_eq i).symm

theorem firstSlot_free (h : Fills view l) (hlt : l.length < n) :
    firstSlot (fun i => (view i).isNone) = some ⟨l.length, hlt⟩ := by
  apply firstSlot_of_first
  · rw [h.view_eq, List.getElem?_eq_none le_rfl]
    rfl
  · intro j hj
    have hj' : j.val < l.length := hj
    rw [h.view_eq, List.getElem?_eq_getElem hj']
    rfl

theorem push (h : Fills view l) (hlt : l.length < n) (a : α) :
    Fills (Function.update view ⟨l.length, hlt⟩ (some a)) (l ++ [a]) := by
  have hlength : (l ++ [a]).length = l.length + 1 := by simp
  refine ⟨hlength.trans_le hlt, fun i => ?_⟩
  by_cases hi : i = ⟨l.length, hlt⟩
  · subst hi
    simp
  · have hne : i.val ≠ l.length := fun heq => hi (Fin.ext heq)
    rw [Function.update_of_ne hi, h.view_eq]
    rcases Nat.lt_or_gt_of_ne hne with hbelow | habove
    · rw [List.getElem?_append_left hbelow]
    · rw [List.getElem?_eq_none habove.le, List.getElem?_eq_none (hlength.trans_le habove)]

theorem set (h : Fills view l) (i : Fin n) (hi : i.val < l.length) (a : α) :
    Fills (Function.update view i (some a)) (l.set i a) := by
  refine ⟨by simpa using h.length_le, fun j => ?_⟩
  by_cases hj : j = i
  · subst hj
    rw [Function.update_self, List.getElem?_set_self hi]
  · have hne : i.val ≠ j.val := fun heq => hj (Fin.ext heq.symm)
    rw [Function.update_of_ne hj, h.view_eq, List.getElem?_set_ne hne]

end Fills

end Fills

end AcharyaOS.Foundation
