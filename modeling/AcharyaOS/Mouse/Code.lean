import Mathlib.Algebra.GroupWithZero.Nat
import Mathlib.Data.Fin.Basic
import Mathlib.Logic.Function.Basic

/-!
# The mouse code

The functions of `drivers/mouse/mouse.c` on its static variables.  The interrupt handler
runs to its end once it has started.  `mouse_poll_packet` is cut at its accesses to these
variables, so that an interrupt can come between any two of them.
-/

namespace AcharyaOS.Mouse

theorem packetSize_neZero : NeZero 3 := ⟨by decide⟩

attribute [local instance] packetSize_neZero

/-- The three bytes of a PS/2 packet. -/
abbrev Packet := Fin 3 → UInt8

/-- `mouse_state_t`. -/
structure MouseState where
  ready : Bool
  packetReady : Bool
  x : Int32
  y : Int32
  dx : Int8
  dy : Int8
  buttons : UInt8
  packetCount : UInt32

/-- The static variables of `mouse.c`.  Outside the handler `mouse_index` is below three. -/
structure MouseDriver where
  mouseState : MouseState
  mousePacket : Packet
  mouseIndex : Fin 3
  mouseHasPacket : Bool

def mouseBoot : MouseDriver where
  mouseState := ⟨false, false, 0, 0, 0, 0, 0, 0⟩
  mousePacket := fun _ => 0
  mouseIndex := 0
  mouseHasPacket := false

/-- `mouse_init`, which leaves the packet array as it is. -/
def mouseInit (s : MouseDriver) : MouseDriver where
  mouseState := ⟨true, false, 0, 0, 0, 0, 0, 0⟩
  mousePacket := s.mousePacket
  mouseIndex := 0
  mouseHasPacket := false

/-- The assignments to `mouse_state` when the third byte has come. -/
def MouseState.decode (m : MouseState) (packet : Packet) : MouseState :=
  { m with
    buttons := packet 0 &&& 0x07
    dx := (packet 1).toInt8
    dy := (packet 2).toInt8
    x := m.x + (packet 1).toInt8.toInt32
    y := m.y - (packet 2).toInt8.toInt32
    packetCount := m.packetCount + 1
    packetReady := true }

/-- `mouse_interrupt_handler` with `data` read from the data port. -/
def mouseInterruptHandler (s : MouseDriver) (data : UInt8) : MouseDriver :=
  if s.mouseIndex = 0 ∧ data &&& 0x08 = 0 then s
  else
    let packet := Function.update s.mousePacket s.mouseIndex data
    if h : s.mouseIndex.val + 1 < 3 then
      { s with
        mousePacket := packet
        mouseIndex := ⟨s.mouseIndex + 1, h⟩ }
    else
      { mouseState := s.mouseState.decode packet
        mousePacket := packet
        mouseIndex := 0
        mouseHasPacket := true }

/-- Where `mouse_poll_packet` stands between two of its accesses, with the caller's array
as far as it has been filled. -/
inductive PollPoint
  | idle
  | copying (k : Fin 3) (packet : Packet)
  | clearing (packet : Packet)
  | returning (packet : Packet)

/-- The first access of `mouse_poll_packet(packet)`, a null pointer being `none`; a call
that finds nothing returns 0 and is over. -/
def mousePollPacket (s : MouseDriver) : Option Packet → PollPoint
  | none => .idle
  | some packet => if s.mouseHasPacket then .copying 0 packet else .idle

/-- The next access of a call that has found a packet.  The last component is the packet
of a call that ends here with result 1. -/
def pollAccess (s : MouseDriver) : PollPoint → MouseDriver × PollPoint × Option Packet
  | .idle => (s, .idle, none)
  | .copying k packet =>
      let packet := Function.update packet k (s.mousePacket k)
      if h : k.val + 1 < 3 then (s, .copying ⟨k + 1, h⟩ packet, none)
      else (s, .clearing packet, none)
  | .clearing packet => ({ s with mouseHasPacket := false }, .returning packet, none)
  | .returning packet =>
      ({ s with mouseState := { s.mouseState with packetReady := false } }, .idle, some packet)

/-- The driver with its client, and the history of the run: the packets completed, how many
there were when `mouse_has_packet` was last cleared, and each packet returned with that
number. -/
structure MouseSystem where
  driver : MouseDriver
  point : PollPoint
  completed : List Packet
  takenAt : Nat
  returned : List (Nat × Packet)

def mouseStart (d : MouseDriver) : MouseSystem := ⟨mouseInit d, .idle, [], 0, []⟩

/-- What can happen next: an interrupt with any byte, a call of `mouse_poll_packet`, or the
next access of the call under way. -/
inductive MouseEvent
  | interrupt (data : UInt8)
  | call (packet : Option Packet)
  | access

/-- The handler completes a packet when it counts one. -/
def MouseSystem.receive (s : MouseSystem) (t : MouseDriver) : MouseSystem :=
  { s with
    driver := t
    completed :=
      if t.mouseState.packetCount = s.driver.mouseState.packetCount then s.completed
      else s.completed ++ [t.mousePacket] }

def MouseSystem.advance (s : MouseSystem) (r : MouseDriver × PollPoint × Option Packet) :
    MouseSystem :=
  { s with
    driver := r.1
    point := r.2.1
    takenAt :=
      if r.1.mouseHasPacket = s.driver.mouseHasPacket then s.takenAt else s.completed.length
    returned := s.returned ++ r.2.2.toList.map fun packet => (s.takenAt, packet) }

def mouseStep (s : MouseSystem) : MouseEvent → MouseSystem
  | .interrupt data => s.receive (mouseInterruptHandler s.driver data)
  | .call packet =>
      match s.point with
      | .idle => { s with point := mousePollPacket s.driver packet }
      | _ => s
  | .access => s.advance (pollAccess s.driver s.point)

end AcharyaOS.Mouse
