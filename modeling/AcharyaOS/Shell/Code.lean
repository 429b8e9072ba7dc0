import AcharyaOS.Foundation.CString
import AcharyaOS.Foundation.Packed
import Mathlib.Logic.Function.Basic

/-!
# The command shell

The command history of `kernel/shell/shell.c` and the part of `shell_execute` that reads and
writes it.  Of the commands themselves only `clearhist` changes the history.
-/

namespace AcharyaOS.Shell

open Foundation

abbrev shellLineMax : Nat := 128

abbrev shellHistoryMax : Nat := 16

/-- The static variables of the history.  The count is at most the number of slots, and the
next slot is one of them. -/
structure ShellHistory where
  history : Fin shellHistoryMax → Bytes shellLineMax
  count : Nat
  count_le : count ≤ shellHistoryMax
  next : Fin shellHistoryMax

/-- The static variables as the kernel starts, and after `shell_history_clear`. -/
def shellHistoryClear : ShellHistory where
  history := fun _ => .zero _
  count := 0
  count_le := Nat.zero_le _
  next := 0

/-- What a `const char *` of the shell points to: a line of its caller, or a slot of the
history. -/
inductive LinePointer
  | line (text : List UInt8)
  | slot (i : Fin shellHistoryMax)

/-- `p[i]`, read from the memory as it is now. -/
def LinePointer.charAt (history : Fin shellHistoryMax → Bytes shellLineMax) :
    LinePointer → Nat → UInt8
  | .line text, i => text.getD i 0
  | .slot j, i => (history j).toList.getD i 0

/-- The string a pointer points to now. -/
def LinePointer.text (s : ShellHistory) : LinePointer → List UInt8
  | .line text => text
  | .slot j => cText (s.history j).toList

/-! ## The ring -/

/-- The loop of `shell_history_add` with `n` characters to go: the memory it leaves behind
and the index it stops at. -/
def copyChars (next : Fin shellHistoryMax) (line : LinePointer) :
    Nat → Nat → (Fin shellHistoryMax → Bytes shellLineMax) →
      (Fin shellHistoryMax → Bytes shellLineMax) × Nat
  | 0, i, history => (history, i)
  | n + 1, i, history =>
      let c := line.charAt history i
      if c = 0 then (history, i)
      else copyChars next line n (i + 1) (Function.update history next ((history next).set i c))

def shellHistoryAdd (s : ShellHistory) (line : LinePointer) : ShellHistory :=
  if line.charAt s.history 0 = 0 then s
  else
    let r := copyChars s.next line (shellLineMax - 1) 0 s.history
    { history := Function.update r.1 s.next ((r.1 s.next).set r.2 0)
      count := if s.count < shellHistoryMax then s.count + 1 else s.count
      count_le := by
        have hle := s.count_le
        split
        · omega
        · exact hle
      next := ⟨(s.next + 1) % shellHistoryMax, Nat.mod_lt _ (by decide)⟩ }

/-- `shell_history_get`; a null pointer is `none`. -/
def shellHistoryGet (s : ShellHistory) (index : Nat) : Option LinePointer :=
  if index ≥ s.count then none
  else
    let start := (s.next + shellHistoryMax - s.count) % shellHistoryMax
    some (.slot ⟨(start + index) % shellHistoryMax, Nat.mod_lt _ (by decide)⟩)

/-! ## Executing a line -/

/-- The texts "!!", "history" and "clearhist". -/
def repeatText : List UInt8 := [33, 33]

def historyText : List UInt8 := [104, 105, 115, 116, 111, 114, 121]

def clearhistText : List UInt8 := [99, 108, 101, 97, 114, 104, 105, 115, 116]

def skipSpaces (s : List UInt8) : List UInt8 := s.dropWhile (· == ' '.toUInt8)

def isDigit (c : UInt8) : Bool := '0'.toUInt8 ≤ c && c ≤ '9'.toUInt8

/-- `while (line[i] >= '0' && line[i] <= '9') index = index * 10 + (line[i] - '0');` -/
def recallIndexFrom : UInt64 → List UInt8 → UInt64
  | index, [] => index
  | index, c :: line =>
      if isDigit c then recallIndexFrom (index * 10 + (c - '0'.toUInt8).toUInt64) line else index

/-- What `shell_execute` makes of its line. -/
inductive Expansion
  /-- A recall that found no entry. -/
  | failed
  /-- The line to execute, and whether it is `line` itself, with leading spaces or without. -/
  | run (execLine : LinePointer) (copied : Bool)

/-- The entry with the index given, which the code has checked. -/
def recallEntry (s : ShellHistory) (index : Nat) : Expansion :=
  match shellHistoryGet s index with
  | none => .failed
  | some entry => .run entry true

def shellExpand (s : ShellHistory) (origin : List UInt8) : Expansion :=
  let line := skipSpaces origin
  if strcmp line repeatText == 0 then
    if s.count == 0 then .failed else recallEntry s (s.count - 1)
  else if line.getD 0 0 == '!'.toUInt8 && isDigit (line.getD 1 0) then
    let index := recallIndexFrom 0 (line.drop 1)
    if index == 0 || index.toNat > s.count then .failed else recallEntry s (index.toNat - 1)
  else .run (.line origin) (line != origin)

/-- The history once the command in `line` has come back. -/
def shellDispatch (s : ShellHistory) (line : List UInt8) : ShellHistory :=
  if strcmp line clearhistText == 0 then shellHistoryClear else s

/-- What `shell_execute` does with the line it has decided on.  A command such as `halt` may
not come back. -/
def shellRun (s : ShellHistory) (execLine : LinePointer) (line : List UInt8) (returns : Bool) :
    ShellHistory :=
  let s := shellDispatch s line
  if !returns then s
  else if strcmp line historyText == 0 || strcmp line clearhistText == 0 then s
  else if execLine.charAt s.history 0 != 0 && strcmp (execLine.text s) historyText != 0 &&
      strcmp (execLine.text s) clearhistText != 0 then
    shellHistoryAdd s execLine
  else s

/-- The history after `shell_execute`. -/
def shellExecute (s : ShellHistory) (origin : CString) (returns : Bool) : ShellHistory :=
  if skipSpaces origin.bytes == [] then s
  else
    match shellExpand s origin.bytes with
    | .failed => s
    | .run execLine copied =>
        let line := if copied then (execLine.text s).take (shellLineMax - 1)
          else skipSpaces origin.bytes
        shellRun s execLine line returns

/-- A line given to `shell_execute`, neither empty nor with a space in front, and whether
the command in it comes back. -/
structure ShellCall where
  line : CString
  starts : line.bytes.headD ' '.toUInt8 ≠ ' '.toUInt8
  returns : Bool

def shellStep (s : ShellHistory) (c : ShellCall) : ShellHistory :=
  shellExecute s c.line c.returns

end AcharyaOS.Shell
