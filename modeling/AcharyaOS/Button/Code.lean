import AcharyaOS.Foundation.Field
import AcharyaOS.Foundation.Numbered

/-!
# The button code

The functions of `gui/button.c` that change its static variables.
-/

namespace AcharyaOS.Button

open Foundation

abbrev btnMaxButtons : Nat := 16

abbrev btnLabelMax : Nat := 24

/-- `btn_t`, with the label as text. -/
structure Btn where
  used : Bool
  id : UInt32
  windowId : UInt32
  x : UInt32
  y : UInt32
  width : UInt32
  height : UInt32
  fillColor : UInt32
  borderColor : UInt32
  pressedColor : UInt32
  textColor : UInt32
  pressed : Bool
  label : List UInt8

def Btn.zero : Btn := ⟨false, 0, 0, 0, 0, 0, 0, 0, 0, 0, 0, false, []⟩

/-- `btn_stats_t`. -/
structure BtnStats where
  buttonCount : UInt64
  nextButtonId : UInt32
  pressedButtonId : UInt32

/-- The static variables of `button.c`. -/
structure BtnState where
  buttons : Fin btnMaxButtons → Btn
  stats : BtnStats

def btnFind (s : BtnState) (id : UInt32) : Option (Fin btnMaxButtons) :=
  firstSlot fun i => (s.buttons i).used && (s.buttons i).id == id

/-- `btn_copy_label`, to an array that is long enough for the text and its terminator. -/
def btnCopyLabel (src : CString) : List UInt8 := src.bytes.take (btnLabelMax - 1)

def btnInit : BtnState where
  buttons := fun _ => .zero
  stats := ⟨0, 1, 0⟩

/-- The button that `btn_create` puts into a free slot. -/
def newButton (id windowId : UInt32) (label : Option CString) (x y width height : UInt32) :
    Btn where
  used := true
  id := id
  windowId := windowId
  x := x
  y := y
  width := width
  height := height
  fillColor := 0xFFB9C2CF
  borderColor := 0xFF2A2E35
  pressedColor := 0xFF7AA2F7
  textColor := 0xFFF4F7FA
  pressed := false
  label := btnCopyLabel (label.getD (.read (asciiText "button")))

/-- `btn_create`, given what `wm_ready` and `fb_ready` say; a null label is `none`. -/
def btnCreate (s : BtnState) (wmReady fbReady : Bool) (windowId : UInt32)
    (label : Option CString) (x y width height : UInt32) : BtnState × UInt32 :=
  if !wmReady || !fbReady || width < 12 || height < 12 then (s, 0)
  else
    match firstSlot fun i => !(s.buttons i).used with
    | none => (s, 0)
    | some slot =>
        let id := s.stats.nextButtonId
        ({ buttons :=
             Function.update s.buttons slot (newButton id windowId label x y width height)
           stats :=
             { s.stats with
               buttonCount := s.stats.buttonCount + 1
               nextButtonId := id + 1 } },
          id)

def btnSetPressed (s : BtnState) (id : UInt32) (pressed : Int) : BtnState × Int :=
  match btnFind s id with
  | none => (s, -1)
  | some i =>
      ({ buttons :=
           Function.update s.buttons i { s.buttons i with pressed := pressed != 0 }
         stats :=
           { s.stats with pressedButtonId := if pressed != 0 then id else 0 } },
        0)

end AcharyaOS.Button
