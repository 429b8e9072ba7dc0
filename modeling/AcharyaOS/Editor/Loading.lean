import AcharyaOS.Editor.Buffer
import AcharyaOS.Foundation.Lines

/-!
# Loading

What is in the rows after a file was loaded: its first 32 lines, each cut to 63 characters.
-/

namespace AcharyaOS.Editor

open Foundation

/-- The text without its carriage returns. -/
def withoutCr (data : List UInt8) : List UInt8 := data.filter (· ≠ '\r'.toUInt8)

/-- The lines of a text as the rows hold them. -/
def rowLines (text : List UInt8) : List (List UInt8) :=
  ((textLines text).take editorMaxLines).map (List.take (editorLineMax - 1))

namespace EditorPoint

/-- The lines that are complete. -/
def done (p : EditorPoint) : List (List UInt8) :=
  (rowsTake p.lines p.line p.line_le).map CField.text

/-- The line that a file without a last newline ends with. -/
def pending (p : EditorPoint) : List (List UInt8) :=
  if p.line < editorMaxLines ∧ p.row ≠ [] then [cText p.row] else []

theorem length_done (p : EditorPoint) : p.done.length = p.line := by
  unfold done
  rw [List.length_map, length_rowsTake]

theorem done_endLine (p : EditorPoint) (h : p.line < editorMaxLines) :
    (rowsTake (p.endLine h) (p.line + 1) h).map CField.text = p.done ++ [cText p.row] := by
  unfold endLine done
  rw [rowsTake_update_last, List.map_append, List.map_singleton, CField.text_ofChars]

theorem pending_eq {p : EditorPoint} {r : List UInt8} (hzero : 0 ∉ r)
    (hline : '\n'.toUInt8 ∉ r) (hrow : p.row = r.take (editorLineMax - 1)) :
    p.pending = ((textLines r).take (editorMaxLines - p.line)).map
      (List.take (editorLineMax - 1)) := by
  have hzero' : 0 ∉ p.row := by
    rw [hrow]
    exact fun h => hzero (List.mem_of_mem_take h)
  unfold pending
  rw [cText_of_zero_notMem hzero']
  by_cases hnil : r = []
  · rw [hnil, List.take_nil] at hrow
    rw [hnil, textLines_nil, hrow, if_neg (fun h => h.2 rfl), List.take_nil, List.map_nil]
  · have hne : p.row ≠ [] := by
      rw [hrow]
      simp [hnil]
    rw [textLines_of_notMem hline hnil]
    by_cases hroom : p.line < editorMaxLines
    · have hleft : editorMaxLines - p.line = editorMaxLines - (p.line + 1) + 1 := by omega
      rw [if_pos ⟨hroom, hne⟩, hleft, List.take_succ_cons, List.take_nil, List.map_singleton,
        hrow]
    · have hk : editorMaxLines - p.line = 0 := by omega
      rw [if_neg (fun h => hroom h.1), hk, List.take_zero, List.map_nil]

/-- A character behind the line so far finds room or is dropped. -/
theorem take_concat (r : List UInt8) (c : UInt8) :
    (r ++ [c]).take (editorLineMax - 1) =
      if (r.take (editorLineMax - 1)).length + 1 < editorLineMax then
        r.take (editorLineMax - 1) ++ [c]
      else r.take (editorLineMax - 1) := by
  rw [List.length_take]
  by_cases hlen : r.length < editorLineMax - 1
  · rw [if_pos (by omega), List.take_of_length_le (l := r) (by omega), List.take_of_length_le]
    rw [List.length_append, List.length_singleton]
    omega
  · rw [if_neg (by omega), List.take_append_of_le_length (by omega)]

theorem take_lines_newline {line : Nat} (h : line < editorMaxLines) {r : List UInt8}
    (hr : '\n'.toUInt8 ∉ r) (rest : List UInt8) :
    ((textLines (r ++ '\n'.toUInt8 :: rest)).take (editorMaxLines - line)).map
        (List.take (editorLineMax - 1)) =
      r.take (editorLineMax - 1) :: ((textLines rest).take (editorMaxLines - (line + 1))).map
        (List.take (editorLineMax - 1)) := by
  have hleft : editorMaxLines - line = editorMaxLines - (line + 1) + 1 := by omega
  rw [textLines_append hr, hleft, List.take_succ_cons, List.map_cons]

/-- The loop from a point at which the current line has been `r` so far: `row` is what of it
has found room. -/
theorem fill_spec (bytes : List UInt8) : ∀ (p : EditorPoint) (r : List UInt8), 0 ∉ bytes →
    0 ∉ r → '\n'.toUInt8 ∉ r → p.row = r.take (editorLineMax - 1) →
      (p.fill bytes).done ++ (p.fill bytes).pending =
        p.done ++ ((textLines (r ++ withoutCr bytes)).take (editorMaxLines - p.line)).map
          (List.take (editorLineMax - 1)) := by
  induction bytes with
  | nil =>
      intro p r _ hzero hline hrow
      have hend : r ++ withoutCr [] = r := List.append_nil r
      rw [hend, ← pending_eq hzero hline hrow]
      rfl
  | cons c bytes ih =>
      intro p r hbytes hzero hline hrow
      rw [List.mem_cons, not_or] at hbytes
      obtain ⟨hc, hbytes⟩ := hbytes
      rw [fill]
      by_cases h : p.line < editorMaxLines
      · rw [dif_pos h]
        unfold put
        by_cases hcr : c = '\r'.toUInt8
        · have hskip : withoutCr (c :: bytes) = withoutCr bytes :=
            List.filter_cons_of_neg (by simp [hcr])
          rw [if_pos hcr, hskip]
          exact ih p r hbytes hzero hline hrow
        · have hkeep : withoutCr (c :: bytes) = c :: withoutCr bytes :=
            List.filter_cons_of_pos (by simp [hcr])
          rw [if_neg hcr, hkeep]
          by_cases hnl : c = '\n'.toUInt8
          · -- the line is complete
            have hzero' : 0 ∉ p.row := by
              rw [hrow]
              exact fun h => hzero (List.mem_of_mem_take h)
            have hdone := p.done_endLine h
            rw [if_pos hnl, ih _ [] hbytes List.not_mem_nil List.not_mem_nil rfl, hnl,
              take_lines_newline h hline, ← hrow, List.append_cons, List.nil_append]
            unfold done
            rw [hdone, cText_of_zero_notMem hzero']
            rfl
          · have hzero' : 0 ∉ r ++ [c] := by
              simp [hzero, hc]
            have hline' : '\n'.toUInt8 ∉ r ++ [c] := by
              rw [List.mem_append, List.mem_singleton]
              exact fun h => h.elim hline fun heq => hnl heq.symm
            have hsplit : r ++ c :: withoutCr bytes = (r ++ [c]) ++ withoutCr bytes :=
              List.append_cons r c (withoutCr bytes)
            rw [if_neg hnl, hsplit]
            by_cases hroom : p.row.length + 1 < editorLineMax
            · have hrow' : p.row ++ [c] = (r ++ [c]).take (editorLineMax - 1) := by
                rw [take_concat, ← hrow, if_pos hroom]
              rw [dif_pos hroom]
              exact ih _ (r ++ [c]) hbytes hzero' hline' hrow'
            · have hrow' : p.row = (r ++ [c]).take (editorLineMax - 1) := by
                rw [take_concat, ← hrow, if_neg hroom]
              rw [dif_neg hroom]
              exact ih p (r ++ [c]) hbytes hzero' hline' hrow'
      · have hk : editorMaxLines - p.line = 0 := by omega
        have hpending : p.pending = [] := if_neg fun hp => h hp.1
        rw [dif_neg h, hk, List.take_zero, List.map_nil, hpending]

/-- A file without any line gives one empty row. -/
theorem texts_finish (p : EditorPoint) (ed : EditorState) :
    (p.finish ed).texts =
      if p.done ++ p.pending = [] then [[]] else p.done ++ p.pending := by
  have hlen := p.length_done
  unfold finish
  by_cases h : p.line < editorMaxLines
  · rw [dif_pos h]
    by_cases hrow : p.row = []
    · have hpending : p.pending = [] := if_neg fun hp => hp.2 hrow
      rw [hpending, List.append_nil]
      by_cases hline : p.line = 0
      · rw [hline] at hlen
        rw [if_pos (.inr hline), if_pos (List.eq_nil_of_length_eq_zero hlen)]
        have hdone := p.done_endLine h
        rw [List.eq_nil_of_length_eq_zero hlen, hrow, cText_nil] at hdone
        exact hdone
      · have hne : p.done ≠ [] := by
          intro hnil
          rw [hnil] at hlen
          exact hline hlen.symm
        have hcond : ¬ (p.row.length > 0 ∨ p.line = 0) := by
          rw [hrow, List.length_nil]
          omega
        rw [if_neg hcond, if_neg hne]
        unfold done EditorState.texts EditorState.rows
        congr 1
        apply rowsTake_congr
        intro i hi
        apply Function.update_of_ne
        rintro rfl
        exact absurd hi (Nat.lt_irrefl _)
    · have hpending : p.pending = [cText p.row] := if_pos ⟨h, hrow⟩
      rw [if_pos (.inl (List.length_pos_iff.mpr hrow)), hpending, if_neg (by simp)]
      exact p.done_endLine h
  · have hpending : p.pending = [] := if_neg fun hp => h hp.1
    have hne : p.done ≠ [] := by
      intro hnil
      rw [hnil, List.length_nil] at hlen
      rw [← hlen] at h
      exact h (by decide)
    rw [dif_neg h, hpending, List.append_nil, if_neg hne]
    rfl

end EditorPoint

/-- What the rows hold once a text was loaded; one without any line gives an empty row. -/
def openedLines (text : List UInt8) : List (List UInt8) :=
  if rowLines text = [] then [[]] else rowLines text

theorem texts_editorFill (ed : EditorState) {data : List UInt8} (h : 0 ∉ data) :
    (editorFill ed data).texts = openedLines (withoutCr data) := by
  have hspec := EditorPoint.fill_spec data ⟨ed.lines, 0, Nat.zero_le _, [], by decide⟩ [] h
    List.not_mem_nil List.not_mem_nil rfl
  have hnone : EditorPoint.done ⟨ed.lines, 0, Nat.zero_le _, [], by decide⟩ = [] :=
    List.eq_nil_of_length_eq_zero (EditorPoint.length_done _)
  rw [hnone, List.nil_append, List.nil_append] at hspec
  unfold editorFill
  rw [EditorPoint.texts_finish, hspec]
  rfl

theorem openedLines_ne_nil (text : List UInt8) : openedLines text ≠ [] := by
  unfold openedLines
  split
  · exact List.cons_ne_nil _ _
  · next h => exact h

theorem openedLines_bounds (text : List UInt8) :
    (openedLines text).length ≤ editorMaxLines ∧ ∀ line ∈ openedLines text,
      '\n'.toUInt8 ∉ line ∧ line.length ≤ editorLineMax - 1 := by
  unfold openedLines
  split
  · refine ⟨by decide, ?_⟩
    rw [List.forall_mem_singleton]
    exact ⟨List.not_mem_nil, Nat.zero_le _⟩
  · unfold rowLines
    constructor
    · rw [List.length_map, List.length_take]
      exact Nat.min_le_left _ _
    · intro line hline
      obtain ⟨whole, hwhole, rfl⟩ := List.mem_map.mp hline
      constructor
      · exact fun h => newline_notMem_textLines text whole (List.mem_of_mem_take hwhole)
          (List.mem_of_mem_take h)
      · rw [List.length_take]
        exact Nat.min_le_left _ _

theorem sameText_openedLines {text : List UInt8}
    (h : FitsLines (editorLineMax - 1) editorMaxLines text) :
    SameText (joinLines (openedLines text)) text := by
  unfold openedLines
  split
  · next hnil =>
      -- only the empty text has no line
      have hlines : textLines text = [] := by
        unfold rowLines at hnil
        rw [List.map_eq_nil_iff, List.take_eq_nil_iff] at hnil
        exact hnil.resolve_left (by decide)
      have hempty : text = [] := by
        have hjoin := joinLines_textLines text
        rw [hlines, joinLines_nil] at hjoin
        exact hjoin.elim Eq.symm fun h => absurd h.symm (by simp)
      rw [hempty]
      decide
  · exact h.sameText

end AcharyaOS.Editor
