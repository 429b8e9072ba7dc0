import AcharyaOS.Foundation.Field
import AcharyaOS.Foundation.Numbered
import AcharyaOS.Shell.Code

/-!
# The desktop icon code

The functions of `gui/icons.c` on its static variables.  None of them, and no shell command,
changes what `fb_ready` says, which is kept with the state.
-/

namespace AcharyaOS.Icons

open Foundation Shell

abbrev iconsMaxIcons : Nat := 16

abbrev iconsLabelMax : Nat := 24

def iconCellW : UInt32 := 76

def iconCellH : UInt32 := 84

def iconPad : UInt32 := 16

/-- `icon_t`, with the label and the command as text. -/
structure Icon where
  used : Bool
  selected : Bool
  id : UInt32
  x : UInt32
  y : UInt32
  width : UInt32
  height : UInt32
  color : UInt32
  label : List UInt8
  launchCmd : List UInt8

def Icon.zero : Icon := ⟨false, false, 0, 0, 0, 0, 0, 0, [], []⟩

/-- `icon_stats_t`. -/
structure IconStats where
  iconCount : UInt64
  nextIconId : UInt32
  selectedIconId : UInt32

structure IconsState where
  icons : Fin iconsMaxIcons → Icon
  iconState : IconStats
  iconReady : Bool
  lastClickTick : UInt32
  fbReady : Bool

/-- `copy_text`, to an array of `size` bytes that is not empty. -/
def copyText (size : Nat) (src : CString) : List UInt8 := src.bytes.take (size - 1)

def findIcon (s : IconsState) (id : UInt32) : Option (Fin iconsMaxIcons) :=
  firstSlot fun i => (s.icons i).used && (s.icons i).id == id

def clearSelection (s : IconsState) : IconsState :=
  { s with
    icons := fun i => { s.icons i with selected := false }
    iconState := { s.iconState with selectedIconId := 0 } }

def iconsInit (fbReady wmReady : Bool) : IconsState where
  icons := fun _ => .zero
  iconState := ⟨0, 1, 0⟩
  iconReady := fbReady && wmReady
  lastClickTick := 0
  fbReady := fbReady

def iconsReady (s : IconsState) : Bool := s.iconReady && s.fbReady

/-- The icon that `icons_add` puts into a free slot. -/
def newIcon (id : UInt32) (count : UInt64) (label launchCmd : Option CString) (color : UInt32) :
    Icon where
  used := true
  selected := false
  id := id
  x := iconPad + (count % 4 * (iconCellW + iconPad).toUInt64).toUInt32
  y := iconPad + (count / 4 * (iconCellH + iconPad).toUInt64).toUInt32
  width := iconCellW
  height := iconCellH
  color := color
  label := copyText iconsLabelMax (label.getD (.read (asciiText "icon")))
  launchCmd := copyText iconsLabelMax (launchCmd.getD (.read []))

/-- `icons_add`; a null string is `none`. -/
def iconsAdd (s : IconsState) (label launchCmd : Option CString) (color : UInt32) :
    IconsState × UInt32 :=
  match firstSlot fun i => !(s.icons i).used with
  | none => (s, 0)
  | some slot =>
      if !iconsReady s then (s, 0)
      else
        let id := s.iconState.nextIconId
        ({ s with
           icons :=
             Function.update s.icons slot
               (newIcon id s.iconState.iconCount label launchCmd color)
           iconState :=
             { s.iconState with
               iconCount := s.iconState.iconCount + 1
               nextIconId := id + 1 } },
          id)

def inIcon (icon : Icon) (x y : Int32) : Bool :=
  decide (icon.x.toInt32 ≤ x) && decide (x < (icon.x + icon.width).toInt32) &&
    (decide (icon.y.toInt32 ≤ y) && decide (y < (icon.y + icon.height).toInt32))

/-- `shell_run_command` on a string: a blank line is refused, any other is executed. -/
def shellRunCommand (line : List UInt8) : Int := if skipSpaces line == [] then -1 else 0

/-- What `icons_launch` returns; the command it runs leaves the icons alone. -/
def iconsLaunch (s : IconsState) (id : UInt32) : Bool :=
  match findIcon s id with
  | none => false
  | some i => (s.icons i).launchCmd != [] && shellRunCommand (s.icons i).launchCmd == 0

/-- The state after a click, the result, and the id with which `icons_launch` was called. -/
structure Clicked where
  state : IconsState
  result : Int
  launched : Option UInt32

def iconsHandleClick (s : IconsState) (x y : Int32) (buttonMask : UInt8) (ticks : UInt64) :
    Clicked :=
  if !iconsReady s then ⟨s, -1, none⟩
  else if buttonMask &&& 0x01 == 0 then ⟨s, 0, none⟩
  else
    let now := ticks.toUInt32
    match firstSlot fun i => (s.icons i).used && inIcon (s.icons i) x y with
    | some i =>
        let id := (s.icons i).id
        if (s.icons i).selected && s.iconState.selectedIconId == id &&
            decide (now - s.lastClickTick ≤ 30) then
          let s := { s with lastClickTick := now }
          ⟨s, if iconsLaunch s id then 2 else 1, some id⟩
        else
          let s := clearSelection s
          ⟨{ s with
             icons := Function.update s.icons i { s.icons i with selected := true }
             iconState := { s.iconState with selectedIconId := id }
             lastClickTick := now }, 1, none⟩
    | none => ⟨{ clearSelection s with lastClickTick := now }, 0, none⟩

end AcharyaOS.Icons
