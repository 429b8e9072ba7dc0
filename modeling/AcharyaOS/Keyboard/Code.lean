import Mathlib.Data.Fin.Basic
import Mathlib.Logic.Function.Basic

/-!
# The keyboard code

The functions of `drivers/keyboard/keyboard.c` on its static variables.  The interrupt
handler runs to its end once it has started.  `keyboard_getchar` is cut at its accesses to
the `volatile` variables, so that an interrupt can come between any two of them.
-/

namespace AcharyaOS.Keyboard

abbrev keybufSize : Nat := 128

def keyReleased : UInt8 := 0x80

/-- Escape, "1234567890-=", backspace, tab, "qwertyuiop[]", newline, "asdfghjkl;'`",
"\\zxcvbnm,./", "*" and a space; the rest of the table is zero. -/
def scancodeAscii : List UInt8 :=
  [0, 27, 49, 50, 51, 52, 53, 54, 55, 56, 57, 48, 45, 61, 8,
    9, 113, 119, 101, 114, 116, 121, 117, 105, 111, 112, 91, 93, 10, 0,
    97, 115, 100, 102, 103, 104, 106, 107, 108, 59, 39, 96, 0, 92,
    122, 120, 99, 118, 98, 110, 109, 44, 46, 47, 0, 42, 0, 32]

/-- The same keys with shift: "!@#$%^&*()_+", "QWERTYUIOP\x7b\x7d", "ASDFGHJKL:", a double
quote, "~|ZXCVBNM<>?". -/
def scancodeAsciiShift : List UInt8 :=
  [0, 27, 33, 64, 35, 36, 37, 94, 38, 42, 40, 41, 95, 43, 8,
    9, 81, 87, 69, 82, 84, 89, 85, 73, 79, 80, 123, 125, 10, 0,
    65, 83, 68, 70, 71, 72, 74, 75, 76, 58, 34, 126, 0, 124,
    90, 88, 67, 86, 66, 78, 77, 60, 62, 63, 0, 42, 0, 32]

/-- The static variables of `keyboard.c`; both indices are only ever set to remainders
modulo the size of the buffer. -/
structure KeyboardState where
  keybuf : Fin keybufSize → UInt8
  keybufHead : Fin keybufSize
  keybufTail : Fin keybufSize
  shiftDown : Bool

def keyboardBoot : KeyboardState where
  keybuf := fun _ => 0
  keybufHead := 0
  keybufTail := 0
  shiftDown := false

/-- `(i + 1) % KEYBUF_SIZE`. -/
def keybufNext (i : Fin keybufSize) : Fin keybufSize :=
  ⟨(i + 1) % keybufSize, Nat.mod_lt _ (by decide)⟩

def keyboardBufferPush (s : KeyboardState) (c : UInt8) : KeyboardState :=
  let nextHead := keybufNext s.keybufHead
  if nextHead = s.keybufTail then s
  else
    { s with
      keybuf := Function.update s.keybuf s.keybufHead c
      keybufHead := nextHead }

/-- The character of a key, zero for a key without one. -/
def keyChar (shiftDown : Bool) (key : UInt8) : UInt8 :=
  (if shiftDown then scancodeAsciiShift else scancodeAscii).getD key.toNat 0

/-- `keyboard_interrupt_handler` with `scancode` read from the data port. -/
def keyboardInterruptHandler (s : KeyboardState) (scancode : UInt8) : KeyboardState :=
  let key := scancode &&& ~~~keyReleased
  let released := scancode &&& keyReleased != 0
  if key = 0x2A ∨ key = 0x36 then { s with shiftDown := !released }
  else if released then s
  else
    let c := keyChar s.shiftDown key
    if c = 0 then s else keyboardBufferPush s c

/-- Where `keyboard_getchar` stands between two of its accesses, with the values it has
read so far.  The operands of its first comparison may be read in either order. -/
inductive GetcharPoint
  | idle
  | headRead (head : Fin keybufSize)
  | tailRead (tail : Fin keybufSize)
  | nonEmpty
  | indexed (tail : Fin keybufSize)
  | loaded (c : UInt8)
  | advancing (c : UInt8) (tail : Fin keybufSize)
  | released (c : UInt8)

/-- The next access of `keyboard_getchar`, from `idle` the first one of a new call.  The
last component is the result of a call that ends here, `some none` standing for -1. -/
def getcharStep (headFirst : Bool) (s : KeyboardState) :
    GetcharPoint → KeyboardState × GetcharPoint × Option (Option UInt8)
  | .idle => (s, if headFirst then .headRead s.keybufHead else .tailRead s.keybufTail, none)
  | .headRead head =>
      if head = s.keybufTail then (s, .idle, some none) else (s, .nonEmpty, none)
  | .tailRead tail =>
      if s.keybufHead = tail then (s, .idle, some none) else (s, .nonEmpty, none)
  | .nonEmpty => (s, .indexed s.keybufTail, none)
  | .indexed tail => (s, .loaded (s.keybuf tail), none)
  | .loaded c => (s, .advancing c s.keybufTail, none)
  | .advancing c tail => ({ s with keybufTail := keybufNext tail }, .released c, none)
  | .released c => (s, .idle, some (some c))

/-- The driver with its consumer, and the history of the run: the characters pushed while
there was room, how often the tail has moved, and the results of the calls that ended. -/
structure KeySystem where
  keyboard : KeyboardState
  point : GetcharPoint
  accepted : List UInt8
  released : Nat
  results : List (Option UInt8)

def keyStart : KeySystem := ⟨keyboardBoot, .idle, [], 0, []⟩

/-- The characters handed out so far. -/
def KeySystem.returned (s : KeySystem) : List UInt8 := s.results.filterMap id

/-- The producer has put `t` in place with a push of `c`, if it pushed at all: the
character is accepted when the head has moved. -/
def KeySystem.produce (s : KeySystem) (t : KeyboardState) (c : UInt8) : KeySystem :=
  { s with
    keyboard := t
    accepted := if t.keybufHead = s.keyboard.keybufHead then s.accepted else s.accepted ++ [c] }

/-- A step of the consumer releases a character when it moves the tail. -/
def KeySystem.consume (s : KeySystem)
    (r : KeyboardState × GetcharPoint × Option (Option UInt8)) : KeySystem :=
  { s with
    keyboard := r.1
    point := r.2.1
    released := if r.1.keybufTail = s.keyboard.keybufTail then s.released else s.released + 1
    results := s.results ++ r.2.2.toList }

/-- What can happen next: a push of any character, an interrupt with any scancode, or the
next access of `keyboard_getchar`. -/
inductive KeyEvent
  | push (c : UInt8)
  | interrupt (scancode : UInt8)
  | getchar (headFirst : Bool)

def keyStep (s : KeySystem) : KeyEvent → KeySystem
  | .push c => s.produce (keyboardBufferPush s.keyboard c) c
  | .interrupt scancode =>
      s.produce (keyboardInterruptHandler s.keyboard scancode)
        (keyChar s.keyboard.shiftDown (scancode &&& ~~~keyReleased))
  | .getchar headFirst => s.consume (getcharStep headFirst s.keyboard s.point)

end AcharyaOS.Keyboard
