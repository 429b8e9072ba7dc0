import AcharyaOS.Foundation.Slots
import Mathlib.Data.List.Basic

/-!
# Tables filled from the front, as lists

A search for the first slot that fits finds the first such entry of the list, a search for the
first free slot its end.  Changing what a slot holds changes that entry of the list.
-/

namespace AcharyaOS.Foundation.Fills

variable {n : Nat} {α : Type} {view : Fin n → Option α} {l : List α}

theorem getElem?_of_view (h : Fills view l) {i : Fin n} {a : α} (hi : view i = some a) :
    l[i.val]? = some a :=
  (h.view_eq i).symm.trans hi

theorem lt_of_view (h : Fills view l) {i : Fin n} {a : α} (hi : view i = some a) :
    i.val < l.length :=
  (List.getElem?_eq_some_iff.mp (h.getElem?_of_view hi)).1

theorem exists_view (h : Fills view l) {a : α} (ha : a ∈ l) : ∃ i, view i = some a := by
  obtain ⟨i, hi, rfl⟩ := List.getElem_of_mem ha
  exact ⟨⟨i, hi.trans_le h.length_le⟩, by rw [h.view_eq, List.getElem?_eq_getElem hi]⟩

theorem any_eq (h : Fills view l) (p : α → Bool) {i : Nat} (hi : i < l.length) (hn : i < n) :
    (view ⟨i, hn⟩).any p = p l[i] := by
  rw [h.view_eq, List.getElem?_eq_getElem hi]
  rfl

theorem firstSlot_any (h : Fills view l) (p : α → Bool) :
    (firstSlot fun i => (view i).any p).map Fin.val = l.findIdx? p := by
  cases hfirst : l.findIdx? p with
  | none =>
    have hnone : firstSlot (fun i => (view i).any p) = none := by
      rw [firstSlot_eq_none_iff]
      intro i
      rw [h.view_eq]
      cases hi : l[i.val]? with
      | none => rfl
      | some a => exact List.findIdx?_eq_none_iff.mp hfirst a (List.mem_of_getElem? hi)
    rw [hnone, Option.map_none]
  | some k =>
    obtain ⟨hk, hp, hbefore⟩ := List.findIdx?_eq_some_iff_getElem.mp hfirst
    have hn : k < n := hk.trans_le h.length_le
    have hslot : firstSlot (fun i => (view i).any p) = some ⟨k, hn⟩ := by
      apply firstSlot_of_first
      · rw [h.any_eq p hk hn]
        exact hp
      · intro j hj
        have hjk : j.val < k := hj
        have hnot := hbefore j.val hjk
        rw [← h.any_eq p (hjk.trans hk) j.isLt] at hnot
        simpa using hnot
    rw [hslot, Option.map_some]

theorem firstSlot_isNone (h : Fills view l) :
    (firstSlot fun i => (view i).isNone).map Fin.val =
      if l.length < n then some l.length else none := by
  by_cases hlt : l.length < n
  · rw [if_pos hlt, h.firstSlot_free hlt, Option.map_some]
  · have hnone : firstSlot (fun i => (view i).isNone) = none := by
      rw [firstSlot_eq_none_iff]
      intro i
      have hi : i.val < l.length := by omega
      rw [h.view_eq, List.getElem?_eq_getElem hi]
      rfl
    rw [if_neg hlt, hnone, Option.map_none]

theorem modify (h : Fills view l) {i : Fin n} {a : α} (hi : view i = some a) (f : α → α) :
    Fills (Function.update view i (some (f a))) (l.modify i.val f) := by
  have hget := h.getElem?_of_view hi
  have hset : l.modify i.val f = l.set i.val (f a) := by
    rw [List.modify_eq_set_getElem?, hget]
    rfl
  rw [hset]
  exact h.set i (h.lt_of_view hi) (f a)

theorem countSlots_any (h : Fills view l) (p : α → Bool) :
    (countSlots fun i => (view i).any p) = l.countP p := by
  rw [countSlots, ← h.slotList_eq, slotList, List.countP_filterMap]
  apply List.countP_congr
  intro i _
  cases view i <;> simp

/-- The list as a loop over the table copies it out. -/
theorem map_filter_finRange {β : Type} {table : Fin n → β} {ok : β → Bool} {g : β → α}
    (h : Fills (fun i => if ok (table i) then some (g (table i)) else none) l) :
    (((List.finRange n).map table).filter ok).map g = l := by
  rw [← h.slotList_eq, slotList]
  induction List.finRange n with
  | nil => rfl
  | cons i is ih =>
    rw [List.map_cons, List.filter_cons, List.filterMap_cons]
    by_cases hok : ok (table i) = true
    · rw [if_pos hok, if_pos hok, List.map_cons, ih]
    · rw [if_neg hok, if_neg hok, ih]

end AcharyaOS.Foundation.Fills
