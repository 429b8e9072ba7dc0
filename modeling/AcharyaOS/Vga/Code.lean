import AcharyaOS.Foundation.Run
import Mathlib.Logic.Function.Basic

/-!
# The VGA text driver

The functions of `drivers/vga/vga.c` on the text memory and on the two ports of the display
controller.
-/

namespace AcharyaOS.Vga

open Foundation.Run

abbrev vgaCols : Int := 80

abbrev vgaRows : Int := 25

def vgaCtrlPort : UInt16 := 0x3D4

def vgaDataPort : UInt16 := 0x3D5

def vgaCursorHighReg : UInt8 := 0x0E

def vgaCursorLowReg : UInt8 := 0x0F

/-- The palette entries that the driver names itself. -/
def vgaColorBlack : UInt8 := 0

def vgaColorLightGrey : UInt8 := 7

/-- The static variables of `vga.c`, the memory around `vga_buffer` by the offset of a cell,
the offsets written so far, and the controller: its registers and the one selected. -/
structure VgaState where
  buffer : Int → UInt16
  written : List Int
  cursorRow : Int
  cursorCol : Int
  currentColor : UInt8
  selected : UInt8
  registers : UInt8 → UInt8

/-- The driver before `vga_init`, whatever memory and controller hold. -/
def vgaBoot (buffer : Int → UInt16) (selected : UInt8) (registers : UInt8 → UInt8) : VgaState :=
  ⟨buffer, [], 0, 0, vgaColorBlack <<< 4 ||| vgaColorLightGrey, selected, registers⟩

/-- `vga_buffer[i] = cell` -/
def VgaState.store (s : VgaState) (i : Int) (cell : UInt16) : VgaState :=
  { s with buffer := Function.update s.buffer i cell, written := i :: s.written }

def outb (s : VgaState) (port : UInt16) (value : UInt8) : VgaState :=
  if port = vgaCtrlPort then { s with selected := value }
  else if port = vgaDataPort then
    { s with registers := Function.update s.registers s.selected value }
  else s

def vgaMakeCell (c color : UInt8) : UInt16 := c.toUInt16 ||| color.toUInt16 <<< 8

def vgaHwSetCursor (s : VgaState) (row col : Int) : VgaState :=
  let position := UInt16.ofInt (row * vgaCols + col)
  let s := outb s vgaCtrlPort vgaCursorHighReg
  let s := outb s vgaDataPort (position >>> 8 &&& 0xFF).toUInt8
  let s := outb s vgaCtrlPort vgaCursorLowReg
  outb s vgaDataPort (position &&& 0xFF).toUInt8

/-- The blank of the current colour. -/
def VgaState.blank (s : VgaState) : UInt16 := vgaMakeCell ' '.toUInt8 s.currentColor

/-- The loops of `vga_scroll` that move the rows up; iteration `n` is about row `n + 1`. -/
def vgaMoveRows (s : VgaState) : VgaState :=
  forRange (vgaRows - 1).toNat (fun n =>
    forRange vgaCols.toNat fun col s =>
      s.store (n * vgaCols + col) (s.buffer ((n + 1) * vgaCols + col))) s

def vgaScroll (s : VgaState) : VgaState :=
  let s := vgaMoveRows s
  let s := forRange vgaCols.toNat (fun col s => s.store ((vgaRows - 1) * vgaCols + col) s.blank) s
  { s with cursorRow := vgaRows - 1 }

def vgaSetColor (s : VgaState) (foreground background : UInt8) : VgaState :=
  { s with currentColor := background <<< 4 ||| (foreground &&& 0x0F) }

def vgaClear (s : VgaState) : VgaState :=
  let s := forRange (vgaCols * vgaRows).toNat (fun i s => s.store i s.blank) s
  let s := { s with cursorRow := 0, cursorCol := 0 }
  vgaHwSetCursor s s.cursorRow s.cursorCol

def vgaInit (s : VgaState) : VgaState :=
  vgaClear (vgaSetColor s vgaColorLightGrey vgaColorBlack)

/-- What `vga_putchar` does before it scrolls and moves the hardware cursor. -/
def vgaPlace (s : VgaState) (c : UInt8) : VgaState :=
  if c = '\n'.toUInt8 then { s with cursorCol := 0, cursorRow := s.cursorRow + 1 }
  else if c = '\r'.toUInt8 then { s with cursorCol := 0 }
  else if c = 8 then
    if s.cursorCol > 0 then
      let s := { s with cursorCol := s.cursorCol - 1 }
      s.store (s.cursorRow * vgaCols + s.cursorCol) s.blank
    else s
  else
    let s := s.store (s.cursorRow * vgaCols + s.cursorCol) (vgaMakeCell c s.currentColor)
    let s := { s with cursorCol := s.cursorCol + 1 }
    if s.cursorCol ≥ vgaCols then { s with cursorCol := 0, cursorRow := s.cursorRow + 1 } else s

def vgaPutchar (s : VgaState) (c : UInt8) : VgaState :=
  let s := vgaPlace s c
  let s := if s.cursorRow ≥ vgaRows then vgaScroll s else s
  vgaHwSetCursor s s.cursorRow s.cursorCol

def vgaSetCursor (s : VgaState) (row col : Int) : VgaState :=
  let row := if row < 0 then 0 else row
  let row := if row ≥ vgaRows then vgaRows - 1 else row
  let col := if col < 0 then 0 else col
  let col := if col ≥ vgaCols then vgaCols - 1 else col
  let s := { s with cursorRow := row, cursorCol := col }
  vgaHwSetCursor s s.cursorRow s.cursorCol

/-- A call of the driver after `vga_init`. -/
inductive VgaCall
  | putchar (c : UInt8)
  | setCursor (row col : Int)
  | clear
  | setColor (foreground background : UInt8)

def vgaStep (s : VgaState) : VgaCall → VgaState
  | .putchar c => vgaPutchar s c
  | .setCursor row col => vgaSetCursor s row col
  | .clear => vgaClear s
  | .setColor foreground background => vgaSetColor s foreground background

end AcharyaOS.Vga
