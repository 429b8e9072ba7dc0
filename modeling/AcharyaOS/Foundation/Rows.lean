import Mathlib.Logic.Function.Basic

/-!
# Rows of a fixed array

An array of `n` cells of which the first `count` are in use.  A cell is opened by moving
the ones behind it up, and closed by moving them down: the two copying loops are
`List.insertIdx` and `List.eraseIdx` on the cells in use.
-/

namespace AcharyaOS.Foundation

variable {α : Type} {n : Nat}

/-- The cells in use. -/
def rowsTake (rows : Fin n → α) (count : Nat) (h : count ≤ n) : List α :=
  List.ofFn fun i : Fin count => rows (i.castLE h)

/-- `for (i = count; i > pos; i--) rows[i] = rows[i - 1];` -/
def shiftUp (rows : Fin n → α) (pos : Nat) : (i : Nat) → i < n → Fin n → α
  | 0, _ => rows
  | i + 1, hi =>
      if i + 1 > pos then
        shiftUp (Function.update rows ⟨i + 1, hi⟩ (rows ⟨i, by omega⟩)) pos i (by omega)
      else rows

/-- `for (i = pos; i + 1 < count; i++) rows[i] = rows[i + 1];` -/
def shiftDown (rows : Fin n → α) (count : Nat) (h : count ≤ n) (i : Nat) : Fin n → α :=
  if hi : i + 1 < count then
    shiftDown (Function.update rows ⟨i, by omega⟩ (rows ⟨i + 1, by omega⟩)) count h (i + 1)
  else rows
termination_by count - i

section Rows

variable {rows : Fin n → α} {count pos : Nat}

@[simp] theorem length_rowsTake (h : count ≤ n) : (rowsTake rows count h).length = count :=
  List.length_ofFn

theorem getElem_rowsTake (h : count ≤ n) {i : Nat} (hi : i < (rowsTake rows count h).length) :
    (rowsTake rows count h)[i] = rows ⟨i, by rw [length_rowsTake] at hi; omega⟩ :=
  List.getElem_ofFn hi

theorem rowsTake_congr {rows' : Fin n → α} (h : count ≤ n)
    (heq : ∀ i : Fin n, i.val < count → rows i = rows' i) :
    rowsTake rows count h = rowsTake rows' count h := by
  unfold rowsTake
  congr 1
  ext i : 1
  exact heq _ i.isLt

theorem shiftUp_apply (i : Nat) (hi : i < n) : ∀ (rows : Fin n → α) (j : Fin n),
    shiftUp rows pos i hi j =
      if pos < j.val ∧ j.val ≤ i then rows ⟨j.val - 1, by omega⟩ else rows j := by
  induction i with
  | zero =>
      intro rows j
      rw [shiftUp, if_neg (by omega)]
  | succ i ih =>
      intro rows j
      rw [shiftUp]
      by_cases hpos : i + 1 > pos
      · rw [if_pos hpos, ih]
        by_cases hmoved : pos < j.val ∧ j.val ≤ i
        · -- the cell copied from is not the one just written
          rw [if_pos hmoved, if_pos (by omega), Function.update_of_ne]
          intro heq
          have hval := congrArg Fin.val heq
          simp only at hval
          omega
        · rw [if_neg hmoved]
          by_cases hlast : j.val = i + 1
          · have hj : j = ⟨i + 1, hi⟩ := Fin.ext hlast
            subst hj
            rw [Function.update_self, if_pos ⟨hpos, Nat.le_refl _⟩]
            rfl
          · rw [if_neg (by omega), Function.update_of_ne]
            intro heq
            exact hlast (congrArg Fin.val heq)
      · rw [if_neg hpos, if_neg (by omega)]

theorem shiftDown_apply (h : count ≤ n) (rows : Fin n → α) (i : Nat) (j : Fin n) :
    shiftDown rows count h i j =
      if hj : i ≤ j.val ∧ j.val + 1 < count then rows ⟨j.val + 1, by omega⟩ else rows j := by
  fun_induction shiftDown rows count h i with
  | case1 rows i hi ih =>
      rw [ih]
      by_cases hmoved : i + 1 ≤ j.val ∧ j.val + 1 < count
      · -- the cell copied from is not the one just written
        rw [dif_pos hmoved, dif_pos (by omega), Function.update_of_ne]
        intro heq
        have hval := congrArg Fin.val heq
        simp only at hval
        omega
      · rw [dif_neg hmoved]
        by_cases hfirst : j.val = i
        · have hj : j = ⟨i, Nat.lt_of_lt_of_le (Nat.lt_of_succ_lt hi) h⟩ := Fin.ext hfirst
          subst hj
          rw [Function.update_self, dif_pos ⟨Nat.le_refl _, hi⟩]
        · rw [dif_neg (by omega), Function.update_of_ne]
          intro heq
          exact hfirst (congrArg Fin.val heq)
  | case2 rows i hi => rw [dif_neg (by omega)]

theorem rowsTake_shiftUp (hcount : count < n) (hpos : pos ≤ count) (x : α) :
    rowsTake (Function.update (shiftUp rows pos count hcount) ⟨pos, by omega⟩ x) (count + 1)
        hcount = (rowsTake rows count (Nat.le_of_lt hcount)).insertIdx pos x := by
  apply List.ext_getElem
  · rw [List.length_insertIdx, length_rowsTake, length_rowsTake, if_pos hpos]
  · intro j hj _
    rw [length_rowsTake] at hj
    rw [getElem_rowsTake, List.getElem_insertIdx]
    by_cases hlt : j < pos
    · rw [dif_pos hlt, getElem_rowsTake, Function.update_of_ne, shiftUp_apply,
        if_neg (by simp only; omega)]
      intro heq
      have hval := congrArg Fin.val heq
      simp only at hval
      omega
    · rw [dif_neg hlt]
      by_cases heq : j = pos
      · subst heq
        rw [dif_pos rfl, Function.update_self]
      · rw [dif_neg heq, getElem_rowsTake, Function.update_of_ne, shiftUp_apply,
          if_pos (by simp only; omega)]
        intro h
        exact heq (congrArg Fin.val h)

theorem rowsTake_update_last (hcount : count < n) (x : α) :
    rowsTake (Function.update rows ⟨count, hcount⟩ x) (count + 1) hcount =
      rowsTake rows count (Nat.le_of_lt hcount) ++ [x] := by
  have hstay : shiftUp rows count count hcount = rows := by
    ext j : 1
    rw [shiftUp_apply, if_neg (by omega)]
  have hinsert := @rowsTake_shiftUp _ _ rows _ _ hcount (Nat.le_refl count) x
  have hlast := List.insertIdx_length_self (l := rowsTake rows count (Nat.le_of_lt hcount)) (x := x)
  rw [length_rowsTake] at hlast
  rw [hstay, hlast] at hinsert
  exact hinsert

theorem rowsTake_shiftDown (hcount : count ≤ n) (hpos : pos < count) :
    rowsTake (shiftDown rows count hcount pos) (count - 1) (by omega) =
      (rowsTake rows count hcount).eraseIdx pos := by
  apply List.ext_getElem
  · rw [List.length_eraseIdx, length_rowsTake, length_rowsTake, if_pos hpos]
  · intro j hj _
    rw [length_rowsTake] at hj
    rw [getElem_rowsTake, shiftDown_apply, List.getElem_eraseIdx]
    by_cases hlt : j < pos
    · rw [dif_neg (by simp only; omega), dif_pos hlt, getElem_rowsTake]
    · rw [dif_pos (by simp only; omega), dif_neg hlt, getElem_rowsTake]

end Rows

end AcharyaOS.Foundation
