import AcharyaOS.Editor.Buffer
import AcharyaOS.Foundation.Checked
import AcharyaOS.Fs.View

/-!
# The editor's arrays

The functions of `kernel/editor/editor.c` once more, down to single accesses of the arrays of
`editor_state_t` and of the local buffers, each checked against the size of its array.  From a
reset buffer on no access is outside, and what they do is what the editor on terminated rows
does.
-/

namespace AcharyaOS.Editor

open Foundation Foundation.Checked Foundation.Run Disk Fs

/-- `editor_state_t` -/
structure EditorMemory where
  lines : Fin editorMaxLines → Bytes editorLineMax
  lineCount : Nat
  cursor : Nat
  path : Bytes fsNameMax
  dirty : Bool

namespace EditorMemory

/-! ## The functions -/

/-- What the loop of `editor_load` works on. -/
structure LoadPoint where
  lines : Fin editorMaxLines → Bytes editorLineMax
  line : Nat
  pos : Nat

/-- `lines[line][pos] = c` -/
def LoadPoint.store (p : LoadPoint) (c : UInt8) : Option (Fin editorMaxLines → Bytes editorLineMax) :=
  (readAt p.lines p.line).bind fun row => (writeByte row p.pos c).bind fun row =>
    writeAt p.lines p.line row

def LoadPoint.put (p : LoadPoint) (c : UInt8) : Option LoadPoint :=
  if c = '\r'.toUInt8 then some p
  else if c = '\n'.toUInt8 then (p.store 0).map fun lines => ⟨lines, p.line + 1, 0⟩
  else if p.pos + 1 < editorLineMax then (p.store c).map fun lines => ⟨lines, p.line, p.pos + 1⟩
  else some p

/-- The loop from `buffer[i]` on. -/
def LoadPoint.fill : Nat → LoadPoint → List UInt8 → Option LoadPoint
  | _, p, [] => some p
  | i, p, c :: bytes =>
      if p.line < editorMaxLines then
        if i < editorFileMax then (p.put c).bind fun p => fill (i + 1) p bytes else none
      else some p

/-- `editor_load` with what `fs_read_file` stored in the buffer, `none` for -1. -/
def load (m : EditorMemory) (file : Option (List UInt8)) : Option EditorMemory :=
  (readString m.path.toList).bind fun _ =>
    match file with
    | none => some m
    | some bytes =>
        (LoadPoint.fill 0 ⟨m.lines, 0, 0⟩ bytes).bind fun p =>
          if p.line < editorMaxLines then
            (p.store 0).map fun lines =>
              { m with
                lines := lines
                lineCount := if p.pos > 0 ∨ p.line = 0 then p.line + 1 else p.line
                cursor := 0 }
          else some { m with lines := p.lines, lineCount := p.line, cursor := 0 }

/-- The rows from `lines[i]` on that `editor_show` prints, `k` of them. -/
def showRows (m : EditorMemory) : Nat → Nat → Option (List (List UInt8))
  | 0, _ => some []
  | k + 1, i =>
      (readAt m.lines i).bind fun row => (readString row.toList).bind fun text =>
        (showRows m k (i + 1)).map (text :: ·)

/-- The rows that `editor_show` prints under the path. -/
def showLines (m : EditorMemory) : Option (List (List UInt8)) :=
  (readString m.path.toList).bind fun _ => showRows m m.lineCount 0

def insertLine (m : EditorMemory) (text : CString) : Option EditorMemory :=
  if m.lineCount ≥ editorMaxLines then some m
  else
    (moveUp m.cursor m.lineCount m.lines).bind fun lines =>
      (readAt lines m.cursor).bind fun row => (storeText row 0 text.bytes).bind fun row =>
        (writeAt lines m.cursor row).map fun lines =>
          { m with lines := lines, lineCount := m.lineCount + 1, dirty := true }

def appendLine (m : EditorMemory) (text : CString) : Option EditorMemory :=
  if m.lineCount ≥ editorMaxLines then some m
  else insertLine { m with cursor := m.lineCount } text

def deleteLine (m : EditorMemory) : Option EditorMemory :=
  if m.lineCount = 0 then some m
  else
    (moveDown m.lineCount m.cursor m.lines).bind fun lines =>
      (writeAt lines (m.lineCount - 1) (.zero _)).map fun lines =>
        { m with
          lines := lines
          lineCount := m.lineCount - 1
          cursor :=
            if m.cursor ≥ m.lineCount - 1 ∧ m.cursor > 0 then m.cursor - 1 else m.cursor
          dirty := true }

/-- One row in `editor_save`, from its `j`-th character on. -/
def saveRow : List UInt8 → List UInt8 → Option (List UInt8)
  | _, [] => none
  | buffer, c :: row =>
      if c ≠ 0 ∧ buffer.length + 1 < editorFileMax then
        (pushByte editorFileMax buffer c).bind fun buffer => saveRow buffer row
      else some buffer

/-- The loop of `editor_save` from `lines[i]` on, over `k` rows. -/
def saveRows (m : EditorMemory) : Nat → Nat → List UInt8 → Option (List UInt8)
  | 0, _, buffer => some buffer
  | k + 1, i, buffer =>
      (readAt m.lines i).bind fun row => (saveRow buffer row.toList).bind fun buffer =>
        (if buffer.length + 1 < editorFileMax then pushByte editorFileMax buffer '\n'.toUInt8
          else some buffer).bind fun buffer => saveRows m k (i + 1) buffer

/-- The text that `editor_save` passes to `fs_write_file`. -/
def saveText (m : EditorMemory) : Option (List UInt8) :=
  (readString m.path.toList).bind fun _ => (saveRows m m.lineCount 0 []).bind fun buffer =>
    if buffer.length == 0 then pushByte editorFileMax buffer '\n'.toUInt8 else some buffer

/-- One command of `editor_run`; whether it ends the loop does not matter here. -/
def exec (m : EditorMemory) : EditorCommand → Option EditorMemory
  | .help => some m
  | .showLines => m.showLines.map fun _ => m
  | .lineDown => some (if m.cursor + 1 < m.lineCount then { m with cursor := m.cursor + 1 } else m)
  | .lineUp => some (if m.cursor > 0 then { m with cursor := m.cursor - 1 } else m)
  | .delete => m.deleteLine
  | .save => m.saveText.map fun _ => { m with dirty := false }
  | .saveQuit => m.saveText.map fun _ => m
  | .quit => some m
  | .insert text => m.insertLine text
  | .append text => m.appendLine text
  | .blank => some m
  | .unknown => some m

end EditorMemory

/-! ## The rows with their terminators -/

def rowBytes {n : Nat} (f : CField n) : Bytes n := ⟨f.bytes, f.length_eq⟩

/-- The arrays that a state of the editor stands for. -/
def EditorState.memory (ed : EditorState) : EditorMemory where
  lines i := rowBytes (ed.lines i)
  lineCount := ed.lineCount
  cursor := ed.cursor
  path := rowBytes ed.path
  dirty := ed.dirty

theorem readString_row {n : Nat} (f : CField n) : readString (rowBytes f).toList = some f.text :=
  readString_eq f.terminated

theorem rowBytes_update {n m : Nat} (rows : Fin n → CField m) (i : Fin n) (f : CField m) :
    (fun j => rowBytes (Function.update rows i f j)) =
      Function.update (fun j => rowBytes (rows j)) i (rowBytes f) :=
  Function.comp_update rowBytes rows i f

theorem rowBytes_shiftUp {n m : Nat} (pos i : Nat) (hi : i < n) (rows : Fin n → CField m) :
    (fun j => rowBytes (shiftUp rows pos i hi j)) =
      shiftUp (fun j => rowBytes (rows j)) pos i hi := by
  ext j : 1
  rw [shiftUp_apply, shiftUp_apply]
  split <;> rfl

theorem rowBytes_shiftDown {n m : Nat} {count : Nat} (h : count ≤ n) (i : Nat)
    (rows : Fin n → CField m) :
    (fun j => rowBytes (shiftDown rows count h i j)) =
      shiftDown (fun j => rowBytes (rows j)) count h i := by
  ext j : 1
  rw [shiftDown_apply, shiftDown_apply]
  split <;> rfl

/-! ## Commands -/

section Commands

variable (ed : EditorState)

theorem memory_insertLine (text : CString) :
    ed.memory.insertLine text = some (editorInsertLine ed text).memory := by
  unfold EditorMemory.insertLine editorInsertLine
  by_cases h : ed.lineCount < editorMaxLines
  · have hat : ed.cursor < editorMaxLines := Nat.lt_of_le_of_lt ed.cursor_le h
    have hfull : ¬ ed.memory.lineCount ≥ editorMaxLines := Nat.not_le.mpr h
    have hmoved := rowBytes_shiftUp ed.cursor ed.lineCount h ed.lines
    obtain ⟨row, hrow, htext⟩ := storeText_eq text.bytes
      (shiftUp ed.memory.lines ed.cursor ed.lineCount h ⟨ed.cursor, hat⟩)
      (by decide : 0 < editorLineMax)
    have hcopy : row =
        rowBytes ((shiftUp ed.lines ed.cursor ed.lineCount h ⟨ed.cursor, hat⟩).copy text) := by
      apply Bytes.ext
      rw [htext, List.take_zero, List.nil_append, List.drop_zero]
      exact congrArg (fun r => boundedCopy (Bytes.toList r) text.bytes)
        (congrFun hmoved ⟨ed.cursor, hat⟩).symm
    rw [if_neg hfull, dif_pos h]
    simp only [EditorState.memory] at hrow hcopy ⊢
    rw [moveUp_eq ed.cursor ed.lineCount h, Option.bind_some, readAt_of_lt _ hat,
      Option.bind_some, hrow, Option.bind_some, writeAt_of_lt _ hat, Option.map_some,
      rowBytes_update, hmoved, hcopy]
  · have hfull : ed.memory.lineCount ≥ editorMaxLines := Nat.le_of_not_lt h
    rw [if_pos hfull, dif_neg h]

theorem memory_appendLine (text : CString) :
    ed.memory.appendLine text = some (editorAppendLine ed text).memory := by
  unfold EditorMemory.appendLine editorAppendLine
  by_cases h : ed.lineCount < editorMaxLines
  · have hfull : ¬ ed.memory.lineCount ≥ editorMaxLines := Nat.not_le.mpr h
    rw [if_neg hfull, if_pos h]
    exact memory_insertLine { ed with cursor := ed.lineCount, cursor_le := Nat.le_refl _ } text
  · have hfull : ed.memory.lineCount ≥ editorMaxLines := Nat.le_of_not_lt h
    rw [if_pos hfull, if_neg h]

theorem memory_deleteLine : ed.memory.deleteLine = some (editorDeleteLine ed).memory := by
  unfold EditorMemory.deleteLine editorDeleteLine
  by_cases h : ed.lineCount = 0
  · have hzero : ed.memory.lineCount = 0 := h
    rw [if_pos hzero, dif_pos h]
  · have hzero : ¬ ed.memory.lineCount = 0 := h
    have hle := ed.count_le
    have hlast : ed.lineCount - 1 < editorMaxLines := by omega
    rw [if_neg hzero, dif_neg h]
    simp only [EditorState.memory]
    rw [moveDown_eq ed.count_le, Option.bind_some, writeAt_of_lt _ hlast, Option.map_some,
      rowBytes_update, rowBytes_shiftDown]
    rfl

/-! ### Rows that are printed and saved -/

theorem getElem?_rows {i : Nat} (hi : i < ed.lineCount) :
    ∃ row, readAt ed.memory.lines i = some (rowBytes row) ∧
      ed.rows.drop i = row :: ed.rows.drop (i + 1) := by
  have hmax : i < editorMaxLines := Nat.lt_of_lt_of_le hi ed.count_le
  have hlen : i < ed.rows.length := by
    unfold EditorState.rows
    rwa [length_rowsTake]
  refine ⟨ed.lines ⟨i, hmax⟩, readAt_of_lt _ hmax, ?_⟩
  rw [List.drop_eq_getElem_cons hlen]
  congr 1
  exact getElem_rowsTake ed.count_le hlen

theorem drop_rows_of_le {i : Nat} (hi : ed.lineCount ≤ i) : ed.rows.drop i = [] := by
  rw [List.drop_eq_nil_iff, EditorState.rows, length_rowsTake]
  exact hi

theorem memory_showRows (k : Nat) : ∀ i, i + k = ed.lineCount →
    ed.memory.showRows k i = some ((ed.rows.drop i).map CField.text) := by
  induction k with
  | zero =>
    intro i hi
    rw [drop_rows_of_le ed (by omega)]
    rfl
  | succ k ih =>
    intro i hi
    obtain ⟨row, hread, hdrop⟩ := getElem?_rows ed (i := i) (by omega)
    rw [EditorMemory.showRows, hread, Option.bind_some, readString_row, Option.bind_some,
      ih (i + 1) (by omega), hdrop, Option.map_some, List.map_cons]

theorem memory_showLines : ed.memory.showLines = some ed.texts := by
  have hpath : readString ed.memory.path.toList = some ed.path.text := readString_row ed.path
  have hrows := memory_showRows ed ed.lineCount 0 (Nat.zero_add _)
  unfold EditorMemory.showLines
  rw [hpath, Option.bind_some]
  exact hrows

theorem saveRow_eq (row : List UInt8) : ∀ buffer : List UInt8, 0 ∈ row →
    EditorMemory.saveRow buffer row = some (appendText editorFileMax buffer row) := by
  induction row with
  | nil => exact fun _ h => absurd h List.not_mem_nil
  | cons c row ih =>
    intro buffer h
    rw [EditorMemory.saveRow, appendText]
    by_cases hroom : c ≠ 0 ∧ buffer.length + 1 < editorFileMax
    · have hrest : 0 ∈ row := (List.mem_cons.mp h).resolve_left (Ne.symm hroom.1)
      rw [if_pos hroom, if_pos hroom, pushByte_of_lt (by omega), Option.bind_some, ih _ hrest]
    · rw [if_neg hroom, if_neg hroom]

theorem memory_saveRows (k : Nat) : ∀ i buffer, i + k = ed.lineCount →
    ed.memory.saveRows k i buffer = some (editorSaveRows buffer (ed.rows.drop i)) := by
  induction k with
  | zero =>
    intro i buffer hi
    rw [drop_rows_of_le ed (by omega)]
    rfl
  | succ k ih =>
    intro i buffer hi
    obtain ⟨row, hread, hdrop⟩ := getElem?_rows ed (i := i) (by omega)
    have hrow : EditorMemory.saveRow buffer (rowBytes row).toList =
        some (appendText editorFileMax buffer row.bytes) := saveRow_eq _ _ row.terminated
    rw [EditorMemory.saveRows, hread, Option.bind_some, hrow, Option.bind_some, hdrop,
      editorSaveRows]
    by_cases hroom : (appendText editorFileMax buffer row.bytes).length + 1 < editorFileMax
    · rw [if_pos hroom, if_pos hroom, pushByte_of_lt (by omega), Option.bind_some,
        ih _ _ (by omega)]
    · rw [if_neg hroom, if_neg hroom, Option.bind_some, ih _ _ (by omega)]

theorem memory_saveText : ed.memory.saveText = some (editorSaveText ed) := by
  have hpath : readString ed.memory.path.toList = some ed.path.text := readString_row ed.path
  have hrows := memory_saveRows ed ed.lineCount 0 [] (Nat.zero_add _)
  rw [List.drop_zero] at hrows
  unfold EditorMemory.saveText editorSaveText
  rw [hpath, Option.bind_some]
  change (ed.memory.saveRows ed.lineCount 0 []).bind _ = _
  rw [hrows, Option.bind_some]
  by_cases hempty : ((editorSaveRows [] ed.rows).length == 0) = true
  · have hnil : editorSaveRows [] ed.rows = [] := by simpa using hempty
    rw [hnil]
    rfl
  · simp only [if_neg hempty]

end Commands

/-- What a command makes of the buffer, the disk apart. -/
def EditorState.exec (ed : EditorState) : EditorCommand → EditorState
  | .lineDown => editorLineDown ed
  | .lineUp => editorLineUp ed
  | .delete => editorDeleteLine ed
  | .save => { ed with dirty := false }
  | .insert text => editorInsertLine ed text
  | .append text => editorAppendLine ed text
  | _ => ed

theorem ed_editorExec (s : EditorSession) (f : Faults) (c : EditorCommand) :
    (editorExec s f c).ed = s.ed.exec c := by
  rw [editorExec_ed]
  cases c <;> rfl

theorem EditorState.OnLine.exec {ed : EditorState} (h : ed.OnLine) (c : EditorCommand) :
    (ed.exec c).OnLine := by
  cases c with
  | append text => exact onLine_editorAppendLine text h
  | insert text => exact onLine_editorInsertLine text h
  | delete => exact onLine_editorDeleteLine h
  | lineDown => exact onLine_editorLineDown h
  | lineUp => exact onLine_editorLineUp h
  | _ => exact h

/-- Each command stays inside the arrays, and does what it does on terminated rows. -/
theorem memory_exec (ed : EditorState) (c : EditorCommand) :
    ed.memory.exec c = some (ed.exec c).memory := by
  cases c with
  | showLines =>
    rw [EditorMemory.exec, memory_showLines, Option.map_some]
    rfl
  | lineDown =>
    by_cases h : ed.cursor + 1 < ed.lineCount
    · have h' : ed.memory.cursor + 1 < ed.memory.lineCount := h
      simp only [EditorMemory.exec, EditorState.exec, editorLineDown, dif_pos h, if_pos h']
      rfl
    · have h' : ¬ ed.memory.cursor + 1 < ed.memory.lineCount := h
      simp only [EditorMemory.exec, EditorState.exec, editorLineDown, dif_neg h, if_neg h']
  | lineUp =>
    by_cases h : ed.cursor > 0
    · have h' : ed.memory.cursor > 0 := h
      simp only [EditorMemory.exec, EditorState.exec, editorLineUp, if_pos h, if_pos h']
      rfl
    · have h' : ¬ ed.memory.cursor > 0 := h
      simp only [EditorMemory.exec, EditorState.exec, editorLineUp, if_neg h, if_neg h']
  | delete => exact memory_deleteLine ed
  | save =>
    rw [EditorMemory.exec, memory_saveText, Option.map_some]
    rfl
  | saveQuit =>
    rw [EditorMemory.exec, memory_saveText, Option.map_some]
    rfl
  | insert text => exact memory_insertLine ed text
  | append text => exact memory_appendLine ed text
  | _ => rfl

/-! ## Loading -/

namespace EditorPoint

/-- The arrays at a point of the loop: the current row holds its line so far. -/
def memory (p : EditorPoint) : EditorMemory.LoadPoint where
  lines i := rowBytes (if h : p.line < editorMaxLines then p.endLine h i else p.lines i)
  line := p.line
  pos := p.row.length

theorem editorLineMax_pos : 0 < editorLineMax := by decide

/-- The rows from the current one on are as `editor_reset` left them. -/
def Fresh (p : EditorPoint) : Prop :=
  ∀ i : Fin editorMaxLines, p.line ≤ i.val → p.lines i = .zero _ editorLineMax_pos

variable {p : EditorPoint}

theorem memory_lines (h : p.line < editorMaxLines) :
    p.memory.lines = fun i => rowBytes (p.endLine h i) := by
  ext i : 1
  simp only [memory, dif_pos h]

/-- `lines[line][pos] = c` overwrites the terminator of the line so far. -/
theorem store_memory (h : p.line < editorMaxLines) (c : UInt8) :
    ∃ row : Bytes editorLineMax,
      row.toList = p.row ++ c :: List.replicate (editorLineMax - p.row.length - 1) 0 ∧
        p.memory.store c = some (Function.update (fun i => rowBytes (p.lines i)) ⟨p.line, h⟩ row) := by
  have hzeros : List.replicate (editorLineMax - p.row.length) (0 : UInt8) =
      0 :: List.replicate (editorLineMax - p.row.length - 1) 0 := by
    have hlt := p.row_lt
    rw [← List.replicate_succ]
    congr 1
    omega
  have hrow : p.memory.lines ⟨p.line, h⟩ = rowBytes (.ofChars p.row p.row_lt) := by
    rw [memory_lines h]
    exact congrArg rowBytes (Function.update_self ..)
  refine ⟨(rowBytes (.ofChars p.row p.row_lt)).set p.row.length c, ?_, ?_⟩
  · show (p.row ++ List.replicate (editorLineMax - p.row.length) 0).set p.row.length c = _
    rw [hzeros, List.set_append_right _ _ (Nat.le_refl _), Nat.sub_self, List.set_cons_zero]
  · have hread : readAt p.memory.lines p.memory.line =
        some (rowBytes (.ofChars p.row p.row_lt)) := by
      rw [← hrow]
      exact readAt_of_lt _ h
    have hwrite : writeByte (rowBytes (.ofChars p.row p.row_lt)) p.memory.pos c =
        some ((rowBytes (.ofChars p.row p.row_lt)).set p.row.length c) :=
      writeByte_of_lt _ p.row_lt c
    unfold EditorMemory.LoadPoint.store
    rw [hread, Option.bind_some, hwrite, Option.bind_some]
    refine (writeAt_of_lt _ h _).trans (congrArg some ?_)
    rw [memory_lines h]
    unfold endLine
    rw [rowBytes_update, Function.update_idem]

theorem store_zero (h : p.line < editorMaxLines) :
    p.memory.store 0 = some fun i => rowBytes (p.endLine h i) := by
  obtain ⟨row, hrow, hstore⟩ := store_memory h 0
  have hsame : row = rowBytes (.ofChars p.row p.row_lt) := by
    have hlt := p.row_lt
    apply Bytes.ext
    rw [hrow, ← List.replicate_succ]
    show _ = p.row ++ List.replicate (editorLineMax - p.row.length) 0
    congr 2
    omega
  rw [hstore, hsame]
  unfold endLine
  rw [rowBytes_update]

theorem memory_of_blank (hfresh : p.Fresh) (hrow : p.row = []) :
    p.memory = ⟨fun i => rowBytes (p.lines i), p.line, 0⟩ := by
  have hlines : ∀ i, (if h : p.line < editorMaxLines then p.endLine h i else p.lines i) =
      p.lines i := by
    intro i
    by_cases h : p.line < editorMaxLines
    · rw [dif_pos h]
      by_cases hi : i = ⟨p.line, h⟩
      · have hzero := hfresh i (by rw [hi])
        rw [hzero, endLine, hi, Function.update_self]
        obtain ⟨lines, line, line_le, row, row_lt⟩ := p
        subst hrow
        rfl
      · rw [endLine, Function.update_of_ne hi]
    · rw [dif_neg h]
  unfold memory
  simp only [hlines, hrow, List.length_nil]

theorem put_memory (hfresh : p.Fresh) (h : p.line < editorMaxLines) (c : UInt8) :
    p.memory.put c = some (p.put h c).memory ∧ (p.put h c).Fresh := by
  unfold EditorMemory.LoadPoint.put put
  by_cases hcr : c = '\r'.toUInt8
  · rw [if_pos hcr, if_pos hcr]
    exact ⟨rfl, hfresh⟩
  · rw [if_neg hcr, if_neg hcr]
    by_cases hnl : c = '\n'.toUInt8
    · rw [if_pos hnl, if_pos hnl, store_zero h, Option.map_some]
      have hnext : Fresh ⟨p.endLine h, p.line + 1, h, [], by decide⟩ := by
        intro i hi
        have hold : i ≠ ⟨p.line, h⟩ := by
          rintro rfl
          exact absurd hi (Nat.not_succ_le_self _)
        show p.endLine h i = _
        rw [endLine, Function.update_of_ne hold]
        exact hfresh i (Nat.le_of_succ_le hi)
      rw [memory_of_blank hnext rfl]
      exact ⟨rfl, hnext⟩
    · rw [if_neg hnl, if_neg hnl]
      by_cases hroom : p.row.length + 1 < editorLineMax
      · have hroom' : p.memory.pos + 1 < editorLineMax := hroom
        obtain ⟨row, hrow, hstore⟩ := store_memory h c
        rw [if_pos hroom', dif_pos hroom, hstore, Option.map_some]
        refine ⟨?_, hfresh⟩
        have hlen : (p.row ++ [c]).length = p.row.length + 1 := List.length_append
        have hchars : row = rowBytes (.ofChars (p.row ++ [c]) (hlen.trans_lt hroom)) := by
          apply Bytes.ext
          show row.toList = (p.row ++ [c]) ++ List.replicate (editorLineMax - (p.row ++ [c]).length) 0
          rw [hrow, hlen, List.append_assoc, List.singleton_append]
          rfl
        unfold memory
        simp only [hlen, dif_pos h, endLine]
        rw [rowBytes_update, hchars]
      · have hroom' : ¬ p.memory.pos + 1 < editorLineMax := hroom
        rw [if_neg hroom', dif_neg hroom]
        exact ⟨rfl, hfresh⟩

theorem fill_memory (bytes : List UInt8) : ∀ (i : Nat) (p : EditorPoint), p.Fresh →
    i + bytes.length ≤ editorFileMax →
      EditorMemory.LoadPoint.fill i p.memory bytes = some (p.fill bytes).memory ∧
        (p.fill bytes).Fresh := by
  induction bytes with
  | nil => exact fun _ _ hfresh _ => ⟨rfl, hfresh⟩
  | cons c bytes ih =>
    intro i p hfresh hlen
    rw [List.length_cons] at hlen
    rw [EditorMemory.LoadPoint.fill, fill]
    by_cases h : p.line < editorMaxLines
    · have h' : p.memory.line < editorMaxLines := h
      obtain ⟨hput, hnext⟩ := put_memory hfresh h c
      rw [if_pos h', dif_pos h, if_pos (by omega), hput, Option.bind_some]
      exact ih (i + 1) _ hnext (by omega)
    · have h' : ¬ p.memory.line < editorMaxLines := h
      rw [if_neg h', dif_neg h]
      exact ⟨rfl, hfresh⟩

end EditorPoint

theorem memory_load (path : CString) {file : Option (List UInt8)}
    (hfile : ∀ bytes, file = some bytes → bytes.length ≤ editorFileMax) :
    (editorReset path).memory.load file =
      some (file.elim (editorReset path) (editorFill (editorReset path))).memory := by
  have hpath : readString (editorReset path).memory.path.toList =
      some (editorReset path).path.text := readString_row _
  unfold EditorMemory.load
  rw [hpath, Option.bind_some]
  cases file with
  | none => rfl
  | some bytes =>
    have hfresh : EditorPoint.Fresh ⟨(editorReset path).lines, 0, Nat.zero_le _, [], by decide⟩ :=
      fun _ _ => rfl
    have hstart := EditorPoint.memory_of_blank hfresh rfl
    obtain ⟨hfill, -⟩ := EditorPoint.fill_memory bytes 0 _ hfresh
      ((Nat.zero_add _).trans_le (hfile bytes rfl))
    rw [hstart] at hfill
    simp only [Option.elim_some, editorFill]
    change (EditorMemory.LoadPoint.fill 0
      ⟨fun i => rowBytes ((editorReset path).lines i), 0, 0⟩ bytes).bind _ = _
    rw [hfill, Option.bind_some]
    generalize EditorPoint.fill _ bytes = p
    unfold EditorPoint.finish
    by_cases h : p.line < editorMaxLines
    · have h' : p.memory.line < editorMaxLines := h
      rw [if_pos h', dif_pos h, EditorPoint.store_zero h, Option.map_some]
      by_cases hlast : p.row.length > 0 ∨ p.line = 0
      · have hlast' : p.memory.pos > 0 ∨ p.memory.line = 0 := hlast
        rw [if_pos hlast', if_pos hlast]
        rfl
      · have hlast' : ¬ (p.memory.pos > 0 ∨ p.memory.line = 0) := hlast
        rw [if_neg hlast', if_neg hlast]
        rfl
    · have h' : ¬ p.memory.line < editorMaxLines := h
      rw [if_neg h', dif_neg h]
      congr 2
      ext i : 1
      simp only [EditorPoint.memory, dif_neg h]

/-! ## Sessions -/

theorem size_of_fsReadFile {fs : FsState} {name : Option CString} {bufferLen size : Nat}
    {buffer : List UInt8} (h : (fsReadFile fs name bufferLen).2 = some (size, buffer)) :
    size ≤ bufferLen := by
  rw [fsReadFile_snd] at h
  obtain ⟨e, hcheck, hread⟩ := Option.bind_eq_some_iff.mp h
  obtain ⟨-, -, -, -, -, -, hsize⟩ := fsReadCheck_eq_some_iff.mp hcheck
  split at hread
  · cases hread
    exact Nat.zero_le _
  · split at hread
    · cases hread
      exact hsize
    · cases hread

/-- The arrays of a session just opened are those of a load of at most the buffer's size. -/
theorem memory_editorLoad (fs : FsState) (f : Faults) (path : CString) :
    ∃ file : Option (List UInt8), (∀ bytes, file = some bytes → bytes.length ≤ editorFileMax) ∧
      (editorReset path).memory.load file =
        some (editorLoad fs f (editorReset path)).2.memory := by
  unfold editorLoad
  simp only
  cases hread : (fsReadFile (fs.withFaults f)
      (some (CString.read (editorReset path).path.bytes)) editorFileMax).2 with
  | none =>
    have hfile : ∀ bytes, (none : Option (List UInt8)) = some bytes →
        bytes.length ≤ editorFileMax := by rintro bytes ⟨⟩
    exact ⟨none, hfile, memory_load path hfile⟩
  | some r =>
    obtain ⟨size, buffer⟩ := r
    have hfile : ∀ bytes, some (buffer.take size) = some bytes → bytes.length ≤ editorFileMax := by
      rintro bytes ⟨⟩
      rw [List.length_take]
      exact (Nat.min_le_left _ _).trans (size_of_fsReadFile hread)
    exact ⟨some (buffer.take size), hfile, memory_load path hfile⟩

theorem memory_editorStep {s : EditorSession} (h : s.running = true) (e : Faults × CString) :
    s.ed.memory.exec (editorParse e.2) = some (editorStep s e).ed.memory := by
  rw [memory_exec, editorStep, if_pos h, ed_editorExec]

/-! ## Every state -/

/-- At most 32 rows are in use, the cursor is on one of them if there is any, and each has a
terminator within its 64 bytes. -/
structure EditorMemory.Bounded (m : EditorMemory) : Prop where
  count_le : m.lineCount ≤ editorMaxLines
  cursor : m.cursor < m.lineCount ∨ m.cursor = 0 ∧ m.lineCount = 0
  terminated : ∀ i : Fin editorMaxLines, i.val < m.lineCount → 0 ∈ (m.lines i).toList

theorem EditorState.OnLine.bounded {ed : EditorState} (h : ed.OnLine) : ed.memory.Bounded where
  count_le := ed.count_le
  cursor := by
    have hle := ed.cursor_le
    rcases h with hlt | hzero
    · exact .inl hlt
    · exact .inr ⟨Nat.le_zero.mp (hzero ▸ hle), hzero⟩
  terminated i _ := (ed.lines i).terminated

theorem memory_run (commands : List EditorCommand) : ∀ {ed : EditorState}, ed.OnLine →
    ∃ ed' : EditorState, ed'.OnLine ∧
      commands.foldlM EditorMemory.exec ed.memory = some ed'.memory := by
  induction commands with
  | nil => exact fun {ed} hon => ⟨ed, hon, rfl⟩
  | cons c commands ih =>
    intro ed hon
    obtain ⟨ed', hon', hrun⟩ := ih (hon.exec c)
    refine ⟨ed', hon', ?_⟩
    rw [List.foldlM_cons, memory_exec]
    exact hrun

/-- After `editor_reset` and `editor_load` of any file that fits the buffer, no command makes
an access outside an array, and the state stays within its bounds. -/
theorem editorMemory_run (path : CString) {file : Option (List UInt8)}
    (hfile : ∀ bytes, file = some bytes → bytes.length ≤ editorFileMax)
    (commands : List EditorCommand) :
    ∃ m, ((editorReset path).memory.load file >>= fun m => commands.foldlM EditorMemory.exec m) =
      some m ∧ m.Bounded := by
  have hon : (file.elim (editorReset path) (editorFill (editorReset path))).OnLine := by
    cases file with
    | none => exact .inr rfl
    | some bytes => exact onLine_editorFill _ bytes
  obtain ⟨ed, hon', hrun⟩ := memory_run commands hon
  refine ⟨ed.memory, ?_, hon'.bounded⟩
  rw [memory_load path hfile]
  exact hrun

theorem editorMemory_run_append :
    ∃ m, ((editorReset fsNameA).memory.load (some ['\n'.toUInt8]) >>= fun m =>
      [EditorCommand.append (.read ['x'.toUInt8]), .delete, .showLines].foldlM
        EditorMemory.exec m) = some m ∧ m.Bounded :=
  editorMemory_run fsNameA (by rintro bytes ⟨⟩; decide) _

end AcharyaOS.Editor
