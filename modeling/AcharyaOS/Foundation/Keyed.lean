import Mathlib.Data.List.Basic

/-!
# The first entry of a key

A list searched by key, in which entries are changed in place and new ones go to the end.
-/

namespace AcharyaOS.Foundation.Keyed

variable {α κ : Type} [BEq κ] [LawfulBEq κ] {key : α → κ} {l : List α}

/-- A change of the first entry of a key that leaves the keys as they are. -/
theorem find?_modify {f : α → α} (hf : ∀ a, key (f a) = key a) {k : κ} {i : Nat}
    (hi : l.findIdx? (fun a => key a == k) = some i) (k' : κ) :
    (l.modify i f).find? (fun a => key a == k') =
      if k' == k then (l.find? fun a => key a == k).map f
      else l.find? fun a => key a == k' := by
  induction l generalizing i with
  | nil => simp at hi
  | cons a l ih =>
    rw [List.findIdx?_cons] at hi
    cases ha : key a == k with
    | true =>
      rw [ha, if_pos rfl, Option.some.injEq] at hi
      rw [← hi, List.modify_zero_cons, List.find?_cons, List.find?_cons, List.find?_cons, hf, ha]
      cases hk : k' == k with
      | true =>
        have hsame : (key a == k') = true := by rw [eq_of_beq hk, ha]
        simp [hsame]
      | false =>
        have hother : (key a == k') = false := by
          rw [eq_of_beq ha]
          exact beq_eq_false_iff_ne.mpr fun h => beq_eq_false_iff_ne.mp hk h.symm
        simp [hother]
    | false =>
      rw [ha, if_neg Bool.false_ne_true] at hi
      obtain ⟨j, hj, rfl⟩ := Option.map_eq_some_iff.mp hi
      rw [List.modify_succ_cons, List.find?_cons, List.find?_cons, List.find?_cons, ih hj, ha]
      cases hk : k' == k with
      | true =>
        have hother : (key a == k') = false := by rw [eq_of_beq hk, ha]
        simp [hother]
      | false => rfl

theorem getElem?_of_findIdx? {p : α → Bool} {i : Nat} (hi : l.findIdx? p = some i) :
    l[i]? = l.find? p := by
  rw [List.find?_eq_bind_findIdx?_getElem?, hi, Option.bind_some]

theorem find?_of_findIdx?_none {p : α → Bool} (hnone : l.findIdx? p = none) :
    l.find? p = none := by
  rw [List.find?_eq_bind_findIdx?_getElem?, hnone, Option.bind_none]

theorem find?_append_of_some {p : α → Bool} {a : α} (h : l.find? p = some a) (m : List α) :
    (l ++ m).find? p = some a := by
  rw [List.find?_append, h, Option.some_or]

end AcharyaOS.Foundation.Keyed
