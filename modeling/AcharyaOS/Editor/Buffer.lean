import AcharyaOS.Editor.Code
import AcharyaOS.Foundation.Run
import AcharyaOS.Fs.Reach

/-!
# The buffer as a list of lines

What the commands mean on a list of lines with a cursor.  The copying loops of
`editor_insert_line` and `editor_delete_line` have that effect at every cursor;
`editor_append_line` moves the cursor behind the last line first, so that the new line comes
after the cursor line only when the cursor was on the last one.
-/

namespace AcharyaOS.Editor

open Foundation Foundation.Run Disk Fs

/-- Lines, and the index of the one the cursor is on. -/
structure Buffer where
  lines : List (List UInt8)
  cursor : Nat
  deriving DecidableEq

/-- A typed line as a row can hold it. -/
def cutLine (text : CString) : List UInt8 := text.bytes.take (editorLineMax - 1)

namespace Buffer

/-- The intended effect of a command. -/
def apply (b : Buffer) : EditorCommand → Buffer
  | .insert text =>
      if b.lines.length < editorMaxLines then
        ⟨b.lines.insertIdx b.cursor (cutLine text), b.cursor⟩
      else b
  | .append text =>
      if b.lines.length < editorMaxLines then
        if b.lines = [] then ⟨[cutLine text], 0⟩
        else ⟨b.lines.insertIdx (b.cursor + 1) (cutLine text), b.cursor + 1⟩
      else b
  | .delete =>
      if b.lines = [] then b
      else ⟨b.lines.eraseIdx b.cursor, min b.cursor (b.lines.length - 2)⟩
  | .lineDown => if b.cursor + 1 < b.lines.length then ⟨b.lines, b.cursor + 1⟩ else b
  | .lineUp => ⟨b.lines, b.cursor - 1⟩
  | _ => b

end Buffer

namespace EditorState

/-- The lines in the rows. -/
def texts (ed : EditorState) : List (List UInt8) := ed.rows.map CField.text

def buffer (ed : EditorState) : Buffer := ⟨ed.texts, ed.cursor⟩

/-- The cursor is on a line, if there is one. -/
def OnLine (ed : EditorState) : Prop := ed.cursor < ed.lineCount ∨ ed.lineCount = 0

@[simp] theorem length_texts (ed : EditorState) : ed.texts.length = ed.lineCount := by
  unfold texts rows
  rw [List.length_map, length_rowsTake]

theorem texts_eq_nil_iff (ed : EditorState) : ed.texts = [] ↔ ed.lineCount = 0 := by
  rw [← List.length_eq_zero_iff, length_texts]

end EditorState

/-! ## Inserting and deleting -/

section Editing

variable (ed : EditorState) (text : CString)

theorem texts_editorInsertLine (h : ed.lineCount < editorMaxLines) :
    (editorInsertLine ed text).texts = ed.texts.insertIdx ed.cursor (cutLine text) := by
  unfold editorInsertLine EditorState.texts EditorState.rows
  rw [dif_pos h]
  simp only
  rw [rowsTake_shiftUp h ed.cursor_le, List.map_insertIdx, CField.text_copy]
  rfl

theorem buffer_editorInsertLine :
    (editorInsertLine ed text).buffer = ed.buffer.apply (.insert text) := by
  unfold EditorState.buffer Buffer.apply
  simp only [EditorState.length_texts]
  by_cases h : ed.lineCount < editorMaxLines
  · rw [if_pos h, texts_editorInsertLine ed text h]
    unfold editorInsertLine
    rw [dif_pos h]
  · unfold editorInsertLine
    rw [dif_neg h, if_neg h]

theorem buffer_editorAppendLine (h : ed.lineCount < editorMaxLines) :
    (editorAppendLine ed text).buffer = ⟨ed.texts ++ [cutLine text], ed.lineCount⟩ := by
  unfold editorAppendLine
  rw [if_pos h, buffer_editorInsertLine]
  unfold Buffer.apply
  simp only [EditorState.buffer, EditorState.length_texts, h, if_true]
  congr 1
  have hlast := List.insertIdx_length_self (l := ed.texts) (x := cutLine text)
  rw [EditorState.length_texts] at hlast
  exact hlast

theorem buffer_editorAppendLine_iff (hon : ed.OnLine) :
    (editorAppendLine ed text).buffer = ed.buffer.apply (.append text) ↔
      ed.lineCount ≤ ed.cursor + 1 ∨ editorMaxLines ≤ ed.lineCount := by
  by_cases h : ed.lineCount < editorMaxLines
  · rw [buffer_editorAppendLine ed text h]
    unfold Buffer.apply
    simp only [EditorState.buffer, EditorState.length_texts, h, if_true,
      EditorState.texts_eq_nil_iff]
    by_cases hzero : ed.lineCount = 0
    · rw [if_pos hzero, (EditorState.texts_eq_nil_iff ed).mpr hzero, hzero]
      exact iff_of_true rfl (.inl (Nat.zero_le _))
    · rw [if_neg hzero]
      have hcursor := hon.resolve_right hzero
      constructor
      · intro heq
        left
        have hlast : ed.lineCount = ed.cursor + 1 := congrArg Buffer.cursor heq
        omega
      · intro hcond
        have hlast : ed.cursor + 1 = ed.texts.length := by
          rw [EditorState.length_texts]
          omega
        rw [hlast, List.insertIdx_length_self, EditorState.length_texts]
  · unfold editorAppendLine Buffer.apply
    simp only [EditorState.buffer, EditorState.length_texts, h, if_false, true_iff]
    exact .inr (Nat.le_of_not_lt h)

theorem texts_editorDeleteLine (h : ed.cursor < ed.lineCount) :
    (editorDeleteLine ed).texts = ed.texts.eraseIdx ed.cursor := by
  have hne : ed.lineCount ≠ 0 := by omega
  unfold editorDeleteLine EditorState.texts EditorState.rows
  rw [dif_neg hne]
  simp only
  rw [List.eraseIdx_map, ← rowsTake_shiftDown ed.count_le h]
  congr 1
  apply rowsTake_congr
  intro i hi
  apply Function.update_of_ne
  intro heq
  have hval : i.val = ed.lineCount - 1 := congrArg Fin.val heq
  omega

theorem buffer_editorDeleteLine (hon : ed.OnLine) :
    (editorDeleteLine ed).buffer = ed.buffer.apply .delete := by
  unfold EditorState.buffer Buffer.apply
  simp only [EditorState.texts_eq_nil_iff, EditorState.length_texts]
  by_cases hzero : ed.lineCount = 0
  · unfold editorDeleteLine
    rw [dif_pos hzero, if_pos hzero]
  · have hcursor := hon.resolve_right hzero
    rw [if_neg hzero, texts_editorDeleteLine ed hcursor]
    congr 1
    unfold editorDeleteLine
    rw [dif_neg hzero]
    show (if ed.cursor ≥ ed.lineCount - 1 ∧ ed.cursor > 0 then ed.cursor - 1 else ed.cursor) =
      min ed.cursor (ed.lineCount - 2)
    -- only from the last line does the cursor move
    split <;> omega

theorem buffer_editorLineDown :
    (editorLineDown ed).buffer = ed.buffer.apply .lineDown := by
  unfold editorLineDown Buffer.apply
  simp only [EditorState.buffer, EditorState.length_texts]
  by_cases h : ed.cursor + 1 < ed.lineCount
  · rw [dif_pos h, if_pos h]
    rfl
  · rw [dif_neg h, if_neg h]

theorem buffer_editorLineUp : (editorLineUp ed).buffer = ed.buffer.apply .lineUp := by
  unfold editorLineUp Buffer.apply
  by_cases h : ed.cursor > 0
  · rw [if_pos h]
    rfl
  · have hzero : ed.cursor = 0 := by omega
    rw [if_neg h]
    simp only [EditorState.buffer, hzero]

end Editing

/-! ## The cursor -/

section Cursor

variable {ed : EditorState}

theorem onLine_editorInsertLine (text : CString) (hon : ed.OnLine) :
    (editorInsertLine ed text).OnLine := by
  unfold editorInsertLine
  by_cases h : ed.lineCount < editorMaxLines
  · rw [dif_pos h]
    exact .inl (Nat.lt_succ_of_le ed.cursor_le)
  · rw [dif_neg h]
    exact hon

theorem onLine_editorAppendLine (text : CString) (hon : ed.OnLine) :
    (editorAppendLine ed text).OnLine := by
  unfold editorAppendLine editorInsertLine
  by_cases h : ed.lineCount < editorMaxLines
  · rw [if_pos h, dif_pos h]
    exact .inl (Nat.lt_succ_self _)
  · rw [if_neg h]
    exact hon

theorem onLine_editorDeleteLine (hon : ed.OnLine) : (editorDeleteLine ed).OnLine := by
  unfold editorDeleteLine
  by_cases hzero : ed.lineCount = 0
  · rw [dif_pos hzero]
    exact hon
  · have hcursor := hon.resolve_right hzero
    rw [dif_neg hzero]
    unfold EditorState.OnLine
    simp only
    split <;> omega

theorem onLine_editorLineDown (hon : ed.OnLine) : (editorLineDown ed).OnLine := by
  unfold editorLineDown
  by_cases h : ed.cursor + 1 < ed.lineCount
  · rw [dif_pos h]
    exact .inl h
  · rw [dif_neg h]
    exact hon

theorem onLine_editorLineUp (hon : ed.OnLine) : (editorLineUp ed).OnLine := by
  unfold editorLineUp
  by_cases h : ed.cursor > 0
  · rw [if_pos h]
    unfold EditorState.OnLine at hon ⊢
    simp only
    omega
  · rw [if_neg h]
    exact hon

end Cursor

/-! ## Sessions -/

/-- The line typed does to the buffer what it is for. -/
def Refines (s : EditorSession) (e : Faults × CString) : Prop :=
  s.running = true → (editorStep s e).ed.buffer = s.ed.buffer.apply (editorParse e.2)

instance (s : EditorSession) (e : Faults × CString) : Decidable (Refines s e) :=
  inferInstanceAs (Decidable (_ → _))

/-- An `a` is typed with the cursor on the last line, or into an empty or a full buffer. -/
def AppendsAtEnd (s : EditorSession) (e : Faults × CString) : Prop :=
  s.running = true → ∀ text, editorParse e.2 = .append text →
    s.ed.lineCount ≤ s.ed.cursor + 1 ∨ editorMaxLines ≤ s.ed.lineCount

section Sessions

variable {s : EditorSession}

/-- What a command does to the editor state, the disk apart. -/
theorem editorExec_ed (s : EditorSession) (f : Faults) (c : EditorCommand) :
    (editorExec s f c).ed =
      match c with
      | .lineDown => editorLineDown s.ed
      | .lineUp => editorLineUp s.ed
      | .delete => editorDeleteLine s.ed
      | .save => { s.ed with dirty := false }
      | .insert text => editorInsertLine s.ed text
      | .append text => editorAppendLine s.ed text
      | _ => s.ed := by
  cases c with
  | saveQuit =>
      simp only [editorExec]
      split <;> rfl
  | quit =>
      simp only [editorExec]
      split <;> rfl
  | _ => rfl

theorem refines_iff_appendsAtEnd (hon : s.ed.OnLine) (e : Faults × CString) :
    Refines s e ↔ AppendsAtEnd s e := by
  unfold Refines AppendsAtEnd editorStep
  by_cases hrun : s.running = true
  · rw [if_pos hrun, forall_prop_of_true hrun, forall_prop_of_true hrun, editorExec_ed]
    cases hparse : editorParse e.2 with
    | append text =>
        have hiff := buffer_editorAppendLine_iff s.ed text hon
        simpa using hiff
    | insert text => exact iff_of_true (buffer_editorInsertLine s.ed text) nofun
    | delete => exact iff_of_true (buffer_editorDeleteLine s.ed hon) nofun
    | lineDown => exact iff_of_true (buffer_editorLineDown s.ed) nofun
    | lineUp => exact iff_of_true (buffer_editorLineUp s.ed) nofun
    | _ => exact iff_of_true rfl nofun
  · exact iff_of_true (fun h => absurd h hrun) fun h => absurd h hrun

theorem onLine_editorStep (s : EditorSession) (e : Faults × CString) (hon : s.ed.OnLine) :
    (editorStep s e).ed.OnLine := by
  unfold editorStep
  by_cases hrun : s.running = true
  · rw [if_pos hrun, editorExec_ed]
    cases editorParse e.2 with
    | append text => exact onLine_editorAppendLine text hon
    | insert text => exact onLine_editorInsertLine text hon
    | delete => exact onLine_editorDeleteLine hon
    | lineDown => exact onLine_editorLineDown hon
    | lineUp => exact onLine_editorLineUp hon
    | _ => exact hon
  · rw [if_neg hrun]
    exact hon

theorem onLine_editorFill (ed : EditorState) (bytes : List UInt8) :
    (editorFill ed bytes).OnLine := by
  have hcursor : (editorFill ed bytes).cursor = 0 := by
    unfold editorFill EditorPoint.finish
    split
    · split <;> rfl
    · rfl
  unfold EditorState.OnLine
  omega

theorem onLine_editorOpen (fs : FsState) (f : Faults) (path : Option CString) :
    (editorOpen fs f path).ed.OnLine := by
  have hreset : ∀ path, (editorReset path).OnLine := fun _ => .inr rfl
  unfold editorOpen
  cases path with
  | none => exact hreset _
  | some path =>
      simp only
      split
      · exact hreset _
      · unfold editorLoad
        simp only
        split
        · exact hreset _
        · exact onLine_editorFill _ _

end Sessions

/-- In every session, each command has its effect on the list of lines exactly when no `a` is
typed in front of the last line. -/
theorem refines_run_iff (fs : FsState) (f : Faults) (path : Option CString)
    (events : List (Faults × CString)) :
    AllSteps editorStep Refines (editorOpen fs f path) events ↔
      AllSteps editorStep AppendsAtEnd (editorOpen fs f path) events := by
  apply allSteps_congr (I := fun s => s.ed.OnLine)
  · exact fun s e hon => onLine_editorStep s e hon
  · exact fun s e hon => refines_iff_appendsAtEnd hon e
  · exact onLine_editorOpen fs f path

/-- "a x" -/
def lineAppendX : CString := ⟨['a'.toUInt8, ' '.toUInt8, 'x'.toUInt8], by decide⟩

/-- "a y" -/
def lineAppendY : CString := ⟨['a'.toUInt8, ' '.toUInt8, 'y'.toUInt8], by decide⟩

/-- "p" -/
def lineUpWord : CString := .read ['p'.toUInt8]

/-- "x" and "y" are appended and the cursor goes back to "x": a second "y" is not put between
them. -/
theorem not_refines_run :
    ¬ ∀ (fs : FsState) (f : Faults) (path : Option CString) (events : List (Faults × CString)),
      AllSteps editorStep Refines (editorOpen fs f path) events := by
  intro h
  have hrun := h (fsBlankDisk 5000) .none (some fsNameA)
    [(.none, lineAppendX), (.none, lineAppendY), (.none, lineUpWord), (.none, lineAppendY)]
  revert hrun
  decide +kernel

end AcharyaOS.Editor
