import AcharyaOS.Keyboard.Code
import AcharyaOS.Kio.Code
import AcharyaOS.Vga.Typing

/-!
# The console under keyboard interrupts

`vga_putchar` of `drivers/vga/vga.c`, with the `vga_scroll` and `vga_hw_set_cursor` it calls,
cut at every assignment and every test, so that the keyboard interrupt handler can come
between any two of them.  The handler prints through the same driver, runs to its end once
it has started and is not interrupted itself.
-/

namespace AcharyaOS.Console

open Keyboard Kio Vga

/-- The characters that `keyboard_interrupt_handler` prints for a scancode. -/
def keyboardEcho (s : KeyboardState) (scancode : UInt8) : List UInt8 :=
  let key := scancode &&& ~~~keyReleased
  let released := scancode &&& keyReleased != 0
  if key = 0x2A ∨ key = 0x36 then []
  else if released then []
  else
    let c := keyChar s.shiftDown key
    if c = 0 then [] else (kprintfLit "[kbd]%c" [.word c.toUInt32]).getD []

/-- What `vga_putchar` does next. -/
inductive PutcharPoint
  /-- It has returned, or has not been called yet. -/
  | idle
  /-- `vga_cursor_row++` -/
  | nextRow
  /-- `vga_cursor_col--`, which the test of the column has let through -/
  | stepBack
  /-- the blank behind the backspace -/
  | erase
  /-- `vga_cursor_col++` -/
  | nextCol
  | colTest
  /-- `vga_cursor_col = 0` at the end of a row -/
  | wrap
  | rowTest
  /-- the assignment of `vga_scroll` to cell `col` of row `n`, from the row below -/
  | moveCell (n col : Nat)
  /-- the blank for cell `col` of the last row -/
  | blankCell (col : Nat)
  /-- `vga_cursor_row = VGA_ROWS - 1` -/
  | lastRow
  | hwCall
  /-- the calls of `outb` that are left of `vga_hw_set_cursor` -/
  | ports (outs : List (UInt16 × UInt8))
  deriving DecidableEq

/-- The calls of `outb` in `vga_hw_set_cursor`. -/
def hwCursorOuts (row col : Int) : List (UInt16 × UInt8) :=
  let position := UInt16.ofInt (row * vgaCols + col)
  [(vgaCtrlPort, vgaCursorHighReg), (vgaDataPort, (position >>> 8 &&& 0xFF).toUInt8),
    (vgaCtrlPort, vgaCursorLowReg), (vgaDataPort, (position &&& 0xFF).toUInt8)]

/-- Where the loops of `vga_scroll` go after cell `col` of row `n`. -/
def nextMove (n col : Nat) : PutcharPoint :=
  if col + 1 < vgaCols.toNat then .moveCell n (col + 1)
  else if n + 1 < (vgaRows - 1).toNat then .moveCell (n + 1) 0
  else .blankCell 0

/-- One assignment or test of `vga_putchar`, from `idle` the first one of a call for `c`. -/
def putcharStep (s : VgaState) (c : UInt8) : PutcharPoint → VgaState × PutcharPoint
  | .idle =>
      if c = '\n'.toUInt8 then ({ s with cursorCol := 0 }, .nextRow)
      else if c = '\r'.toUInt8 then ({ s with cursorCol := 0 }, .rowTest)
      else if c = 8 then (s, if s.cursorCol > 0 then .stepBack else .rowTest)
      else (s.store (s.cursorRow * vgaCols + s.cursorCol) (vgaMakeCell c s.currentColor), .nextCol)
  | .nextRow => ({ s with cursorRow := s.cursorRow + 1 }, .rowTest)
  | .stepBack => ({ s with cursorCol := s.cursorCol - 1 }, .erase)
  | .erase => (s.store (s.cursorRow * vgaCols + s.cursorCol) s.blank, .rowTest)
  | .nextCol => ({ s with cursorCol := s.cursorCol + 1 }, .colTest)
  | .colTest => (s, if s.cursorCol ≥ vgaCols then .wrap else .rowTest)
  | .wrap => ({ s with cursorCol := 0 }, .nextRow)
  | .rowTest => (s, if s.cursorRow ≥ vgaRows then .moveCell 0 0 else .hwCall)
  | .moveCell n col =>
      (s.store (n * vgaCols + col) (s.buffer ((n + 1) * vgaCols + col)), nextMove n col)
  | .blankCell col =>
      (s.store ((vgaRows - 1) * vgaCols + col) s.blank,
        if col + 1 < vgaCols.toNat then .blankCell (col + 1) else .lastRow)
  | .lastRow => ({ s with cursorRow := vgaRows - 1 }, .hwCall)
  | .hwCall => (s, .ports (hwCursorOuts s.cursorRow s.cursorCol))
  | .ports [] => (s, .idle)
  | .ports (out :: outs) => (outb s out.1 out.2, .ports outs)

/-- The two drivers, and where the foreground stands in `vga_putchar`. -/
structure ConsoleState where
  vga : VgaState
  keyboard : KeyboardState
  point : PutcharPoint

/-- The next step of the foreground, which from `idle` on prints `c`, or an interrupt with a
scancode. -/
inductive ConsoleEvent
  | putchar (c : UInt8)
  | interrupt (scancode : UInt8)

def consoleStep (s : ConsoleState) : ConsoleEvent → ConsoleState
  | .putchar c =>
      let r := putcharStep s.vga c s.point
      { s with vga := r.1, point := r.2 }
  | .interrupt scancode =>
      { s with
        vga := vgaPrint s.vga (keyboardEcho s.keyboard scancode)
        keyboard := keyboardInterruptHandler s.keyboard scancode }

/-- The console after `vga_init`, with the cursor and the colours set to anything. -/
def consoleStart (buffer : Int → UInt16) (selected : UInt8) (registers : UInt8 → UInt8)
    (row col : Int) (foreground background : UInt8) (keyboard : KeyboardState) : ConsoleState where
  vga := vgaSetCursor
    (vgaSetColor (vgaInit (vgaBoot buffer selected registers)) foreground background) row col
  keyboard := keyboard
  point := .idle

end AcharyaOS.Console
