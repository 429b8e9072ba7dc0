import AcharyaOS.Foundation.Field
import AcharyaOS.Foundation.Rows
import AcharyaOS.Fs.Code

/-!
# The line editor

`kernel/editor/editor.c`: a buffer of 32 rows with a cursor, loaded from a file, changed by
typed commands and saved back.
-/

namespace AcharyaOS.Editor

open Foundation Disk Fs

abbrev editorMaxLines : Nat := 32

abbrev editorLineMax : Nat := 64

abbrev editorFileMax : Nat := editorMaxLines * editorLineMax

structure EditorState where
  lines : Fin editorMaxLines → CField editorLineMax
  lineCount : Nat
  count_le : lineCount ≤ editorMaxLines
  cursor : Nat
  cursor_le : cursor ≤ lineCount
  path : CField fsNameMax
  dirty : Bool

/-- The rows in use. -/
def EditorState.rows (ed : EditorState) : List (CField editorLineMax) :=
  rowsTake ed.lines ed.lineCount ed.count_le

def editorReset (path : CString) : EditorState where
  lines := fun _ => .zero _ (by decide)
  lineCount := 0
  count_le := Nat.zero_le _
  cursor := 0
  cursor_le := Nat.zero_le _
  path := (CField.zero _ (by decide)).copy path
  dirty := false

/-! ## Loading -/

/-- The loop of `editor_load` in front of a byte: `row` is what stands in `lines[line]`,
which is zero behind it. -/
structure EditorPoint where
  lines : Fin editorMaxLines → CField editorLineMax
  line : Nat
  line_le : line ≤ editorMaxLines
  row : List UInt8
  row_lt : row.length < editorLineMax

namespace EditorPoint

/-- `lines[line][pos] = '\\0'` -/
def endLine (p : EditorPoint) (h : p.line < editorMaxLines) :
    Fin editorMaxLines → CField editorLineMax :=
  Function.update p.lines ⟨p.line, h⟩ (.ofChars p.row p.row_lt)

def put (p : EditorPoint) (h : p.line < editorMaxLines) (c : UInt8) : EditorPoint :=
  if c = '\r'.toUInt8 then p
  else if c = '\n'.toUInt8 then ⟨p.endLine h, p.line + 1, h, [], by decide⟩
  else if hroom : p.row.length + 1 < editorLineMax then
    { p with
      row := p.row ++ [c]
      row_lt := by rw [List.length_append]; exact hroom }
  else p

def fill : EditorPoint → List UInt8 → EditorPoint
  | p, [] => p
  | p, c :: bytes => if h : p.line < editorMaxLines then fill (p.put h c) bytes else p

/-- The buffer behind the loop; a last line without newline counts when it is not empty or
the only one. -/
def finish (p : EditorPoint) (ed : EditorState) : EditorState :=
  if h : p.line < editorMaxLines then
    if p.row.length > 0 ∨ p.line = 0 then
      { ed with
        lines := p.endLine h
        lineCount := p.line + 1
        count_le := h
        cursor := 0
        cursor_le := Nat.zero_le _ }
    else
      { ed with
        lines := p.endLine h
        lineCount := p.line
        count_le := p.line_le
        cursor := 0
        cursor_le := Nat.zero_le _ }
  else
    { ed with
      lines := p.lines
      lineCount := p.line
      count_le := p.line_le
      cursor := 0
      cursor_le := Nat.zero_le _ }

end EditorPoint

/-- What `editor_load` makes of the bytes of the file. -/
def editorFill (ed : EditorState) (bytes : List UInt8) : EditorState :=
  (EditorPoint.fill ⟨ed.lines, 0, Nat.zero_le _, [], by decide⟩ bytes).finish ed

/-- `editor_load`; a file that cannot be read is a new file. -/
def editorLoad (fs : FsState) (f : Faults) (ed : EditorState) : FsState × EditorState :=
  let r := fsReadFile (fs.withFaults f) (some (CString.read ed.path.bytes)) editorFileMax
  match r.2 with
  | none => (r.1.withFaults .none, ed)
  | some (size, buffer) => (r.1.withFaults .none, editorFill ed (buffer.take size))

/-! ## Editing -/

def editorInsertLine (ed : EditorState) (text : CString) : EditorState :=
  if h : ed.lineCount < editorMaxLines then
    have hat : ed.cursor < editorMaxLines := Nat.lt_of_le_of_lt ed.cursor_le h
    let lines := shiftUp ed.lines ed.cursor ed.lineCount h
    { ed with
      lines := Function.update lines ⟨ed.cursor, hat⟩ ((lines ⟨ed.cursor, hat⟩).copy text)
      lineCount := ed.lineCount + 1
      count_le := h
      cursor_le := Nat.le_succ_of_le ed.cursor_le
      dirty := true }
  else ed

def editorAppendLine (ed : EditorState) (text : CString) : EditorState :=
  if ed.lineCount < editorMaxLines then
    editorInsertLine { ed with cursor := ed.lineCount, cursor_le := Nat.le_refl _ } text
  else ed

def editorDeleteLine (ed : EditorState) : EditorState :=
  if h : ed.lineCount = 0 then ed
  else
    have hlast : ed.lineCount - 1 < editorMaxLines := by
      have hle := ed.count_le
      omega
    { ed with
      lines := Function.update (shiftDown ed.lines ed.lineCount ed.count_le ed.cursor)
        ⟨ed.lineCount - 1, hlast⟩ (.zero _ (by decide))
      lineCount := ed.lineCount - 1
      count_le := Nat.le_of_lt hlast
      cursor := if ed.cursor ≥ ed.lineCount - 1 ∧ ed.cursor > 0 then ed.cursor - 1 else ed.cursor
      cursor_le := by
        have hle := ed.cursor_le
        split <;> omega
      dirty := true }

/-- `n` -/
def editorLineDown (ed : EditorState) : EditorState :=
  if h : ed.cursor + 1 < ed.lineCount then
    { ed with cursor := ed.cursor + 1, cursor_le := Nat.le_of_lt h }
  else ed

/-- `p` -/
def editorLineUp (ed : EditorState) : EditorState :=
  if ed.cursor > 0 then
    { ed with cursor := ed.cursor - 1, cursor_le := (Nat.sub_le _ _).trans ed.cursor_le }
  else ed

/-! ## Saving -/

/-- The loop of `editor_save` over the rows. -/
def editorSaveRows : List UInt8 → List (CField editorLineMax) → List UInt8
  | buffer, [] => buffer
  | buffer, row :: rows =>
      let buffer := appendText editorFileMax buffer row.bytes
      editorSaveRows
        (if buffer.length + 1 < editorFileMax then buffer ++ ['\n'.toUInt8] else buffer) rows

/-- The text `editor_save` builds in its buffer. -/
def editorSaveText (ed : EditorState) : List UInt8 :=
  let buffer := editorSaveRows [] ed.rows
  if buffer.length == 0 then buffer ++ ['\n'.toUInt8] else buffer

/-- `editor_save` on a disk that answers as the script says. -/
def editorSave (fs : FsState) (f : Faults) (ed : EditorState) : FsState × Int :=
  fsExec fs (f, .writeFile (some (CString.read ed.path.bytes)) (some (editorSaveText ed)))

/-! ## Commands -/

/-- `editor_starts_with_word`; the buffer holds `line` and its terminator. -/
def editorStartsWithWord (line word : CString) : Bool :=
  ((List.range word.length).all fun i => line.charAt i == word.charAt i) &&
    (line.charAt word.length == 0 || line.charAt word.length == ' '.toUInt8)

/-- What follows the command letter and the spaces behind it. -/
def editorArgument (line : CString) : CString where
  bytes := (line.bytes.drop 1).dropWhile (· == ' '.toUInt8)
  no_nul h := line.no_nul
    (List.mem_of_mem_drop ((List.dropWhile_suffix (· == ' '.toUInt8)).subset h))

inductive EditorCommand
  | help
  | showLines
  | lineDown
  | lineUp
  | delete
  | save
  | saveQuit
  | quit
  | insert (text : CString)
  | append (text : CString)
  | blank
  | unknown
  deriving DecidableEq

/-- The commands `editor_run` compares the whole line with, in its order. -/
def editorWords : List (CString × EditorCommand) :=
  [(⟨['h'.toUInt8, 'e'.toUInt8, 'l'.toUInt8, 'p'.toUInt8], by decide⟩, .help),
    (⟨['s'.toUInt8, 'h'.toUInt8, 'o'.toUInt8, 'w'.toUInt8], by decide⟩, .showLines),
    (⟨['n'.toUInt8], by decide⟩, .lineDown),
    (⟨['p'.toUInt8], by decide⟩, .lineUp),
    (⟨['d'.toUInt8], by decide⟩, .delete),
    (⟨['s'.toUInt8], by decide⟩, .save),
    (⟨['w'.toUInt8, 'q'.toUInt8], by decide⟩, .saveQuit),
    (⟨['q'.toUInt8], by decide⟩, .quit)]

/-- The chain of comparisons in `editor_run`. -/
def editorParse (line : CString) : EditorCommand :=
  match editorWords.find? fun w => strcmp line.bytes w.1.bytes == 0 with
  | some w => w.2
  | none =>
      if editorStartsWithWord line ⟨['i'.toUInt8], by decide⟩ then
        .insert (editorArgument line)
      else if editorStartsWithWord line ⟨['a'.toUInt8], by decide⟩ then
        .append (editorArgument line)
      else if line.charAt 0 == 0 then .blank
      else .unknown

/-! ## Sessions -/

/-- An `editor_run`; it is over when `running` is false. -/
structure EditorSession where
  fs : FsState
  ed : EditorState
  running : Bool

/-- `editor_run` up to its first prompt. -/
def editorOpen (fs : FsState) (f : Faults) (path : Option CString) : EditorSession :=
  match path with
  | none => ⟨fs, editorReset (.read []), false⟩
  | some path =>
      if path.bytes == [] then ⟨fs, editorReset path, false⟩
      else
        let r := editorLoad fs f (editorReset path)
        ⟨r.1, r.2, true⟩

/-- One command, during which the disk answers as the script says. -/
def editorExec (s : EditorSession) (f : Faults) : EditorCommand → EditorSession
  | .help => s
  | .showLines => s
  | .lineDown => { s with ed := editorLineDown s.ed }
  | .lineUp => { s with ed := editorLineUp s.ed }
  | .delete => { s with ed := editorDeleteLine s.ed }
  | .save =>
      let w := editorSave s.fs f s.ed
      -- the result is not looked at
      { s with fs := w.1, ed := { s.ed with dirty := false } }
  | .saveQuit =>
      let w := editorSave s.fs f s.ed
      if w.2 == 0 then { s with fs := w.1, running := false } else { s with fs := w.1 }
  | .quit => if s.ed.dirty then s else { s with running := false }
  | .insert text => { s with ed := editorInsertLine s.ed text }
  | .append text => { s with ed := editorAppendLine s.ed text }
  | .blank => s
  | .unknown => s

/-- One pass of the loop in `editor_run`, for a line that was typed. -/
def editorStep (s : EditorSession) (e : Faults × CString) : EditorSession :=
  if s.running then editorExec s e.1 (editorParse e.2) else s

end AcharyaOS.Editor
