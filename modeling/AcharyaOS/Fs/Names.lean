import AcharyaOS.Fs.Code

/-!
# Stored names

Storing a name cuts it to 15 bytes, looking a name up compares the whole
string.  The two agree exactly for names that fit the field.
-/

namespace AcharyaOS.Fs

open Foundation

theorem fsNameEqualsFrom_iff (b : CString) (xs : List UInt8) :
    ∀ done ys, b.bytes = done ++ ys → done.length + xs.length = fsNameMax →
      (fsNameEqualsFrom b xs ys = true ↔ cText xs = ys ∧ ys.length < xs.length) := by
  induction xs with
  | nil =>
      intro done ys hb hlen
      -- all 16 bytes were equal and none of them NUL, so `b[15]` is not NUL
      have hlast : 15 < done.length := by
        simp only [List.length_nil, Nat.add_zero, fsNameMax] at hlen
        omega
      have hmem : done[15] ∈ b.bytes := by
        rw [hb]
        exact List.mem_append_left _ (List.getElem_mem hlast)
      have hchar : b.charAt 15 = done[15] := by
        simp [CString.charAt, hb, List.getElem?_append_left hlast, hlast]
      have hne : b.charAt 15 ≠ 0 := by
        rw [hchar]
        exact fun h => b.no_nul (h ▸ hmem)
      simp [fsNameEqualsFrom, fsNameMax, hne]
  | cons x xs ih =>
      intro done ys hb hlen
      cases ys with
      | nil => by_cases hx : x = 0 <;> simp [fsNameEqualsFrom, cText_cons, hx]
      | cons y ys =>
          have hy : y ≠ 0 := fun h => b.no_nul (by simp [hb, h])
          by_cases hxy : x = y
          · subst hxy
            have hrec := ih (done ++ [x]) ys (by simp [hb]) (by simp at hlen ⊢; omega)
            simp [fsNameEqualsFrom, cText_cons, hy, hrec]
          · have hne : ¬ cText (x :: xs) = y :: ys := by
              rw [cText_cons]
              by_cases hx : x = 0
              · simp [hx]
              · simp [hx, hxy]
            simp [fsNameEqualsFrom, hxy, hne]

/-- A name matches a stored field when it is the field's text and leaves room
for the terminator. -/
theorem fsNameEquals_iff (a : Bytes fsNameMax) (b : CString) :
    fsNameEquals a b = true ↔ cText a.toList = b.bytes ∧ b.length < fsNameMax := by
  have h := fsNameEqualsFrom_iff b a.toList [] b.bytes rfl (by simp)
  rw [a.length_toList] at h
  exact h

theorem cText_fsCopyName (dest : Bytes fsNameMax) (src : CString) :
    cText (fsCopyName dest src).toList = src.bytes.take (fsNameMax - 1) := by
  rw [fsCopyName, cText_boundedCopy _ _ src.no_nul, dest.length_toList]

theorem length_cText_fsCopyName (dest : Bytes fsNameMax) (src : CString) :
    (cText (fsCopyName dest src).toList).length < fsNameMax := by
  rw [cText_fsCopyName, List.length_take]
  simp only [fsNameMax]
  omega

theorem cText_fsCopyName_of_lt (dest : Bytes fsNameMax) {src : CString}
    (hsrc : src.length < fsNameMax) : cText (fsCopyName dest src).toList = src.bytes := by
  rw [cText_fsCopyName, List.take_of_length_le]
  simp only [CString.length, fsNameMax] at hsrc ⊢
  omega

theorem fsNameEquals_fsCopyName_self (dest : Bytes fsNameMax) (src : CString) :
    fsNameEquals (fsCopyName dest src) src = true ↔ src.length < fsNameMax := by
  rw [fsNameEquals_iff]
  constructor
  · exact fun h => h.2
  · exact fun h => ⟨cText_fsCopyName_of_lt dest h, h⟩

end AcharyaOS.Fs
