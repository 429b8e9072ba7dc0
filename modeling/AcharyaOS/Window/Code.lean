import AcharyaOS.Foundation.Field
import AcharyaOS.Foundation.Slots
import AcharyaOS.Framebuffer.Code

/-!
# The window manager code

The functions of `gui/window.c` on its static variables and the framebuffer.  `none` stands
for a write outside the framebuffer.
-/

namespace AcharyaOS.Window

open Foundation Framebuffer

abbrev wmMaxWindows : Nat := 8

abbrev wmTitleMax : Nat := 24

def wmBorderThickness : UInt32 := 2

def wmTitleHeight : UInt32 := 18

/-- `wm_window_t`, with the title as text. -/
structure WmWindow where
  used : Bool
  id : UInt32
  x : UInt32
  y : UInt32
  width : UInt32
  height : UInt32
  borderColor : UInt32
  titleColor : UInt32
  clientColor : UInt32
  title : List UInt8

def WmWindow.zero : WmWindow := ⟨false, 0, 0, 0, 0, 0, 0, 0, 0, []⟩

/-- `wm_stats_t`. -/
structure WmStats where
  windowCount : UInt64
  nextWindowId : UInt32
  activeWindowId : UInt32

/-- The static variables of `window.c` and of the framebuffer below it. -/
structure WmState where
  windows : Fin wmMaxWindows → WmWindow
  stats : WmStats
  isReady : Bool
  fb : FbState

def wmFind (s : WmState) (id : UInt32) : Option (Fin wmMaxWindows) :=
  firstSlot fun i => (s.windows i).used && (s.windows i).id == id

/-- `wm_copy_title`, to an array that is long enough for the text and its terminator. -/
def wmCopyTitle (src : CString) : List UInt8 := src.bytes.take (wmTitleMax - 1)

/-- `fb_fill_rect` where its result is not used. -/
def fill (s : FbState) (x y width height color : UInt32) : Option FbState :=
  (fbFillRect s x y width height color).map Prod.fst

/-- `width > trim ? width - trim : 0u` -/
def trimmed (length trim : UInt32) : UInt32 := if length > trim then length - trim else 0

def wmDrawWindow (s : FbState) (win : WmWindow) : Option FbState := do
  if !win.used then return s
  let x1 := win.x + win.width
  let y1 := win.y + win.height
  let s ← fill s win.x win.y win.width win.height win.borderColor
  let clientX := win.x + wmBorderThickness
  let clientY := win.y + wmTitleHeight
  let clientW := trimmed win.width (wmBorderThickness * 2)
  let clientH := trimmed win.height (wmTitleHeight + wmBorderThickness)
  let s ←
    if clientW > 0 && clientH > 0 then fill s clientX clientY clientW clientH win.clientColor
    else some s
  let titleW := trimmed win.width (wmBorderThickness * 2)
  if x1 > win.x && y1 > win.y && titleW > 0 then
    fill s (win.x + wmBorderThickness) (win.y + wmBorderThickness) titleW
      (wmTitleHeight - wmBorderThickness) win.titleColor
  else return s

def wmInit (s : WmState) : WmState where
  windows := fun _ => .zero
  stats := ⟨0, 1, 0⟩
  isReady := fbReady s.fb
  fb := s.fb

def wmReady (s : WmState) : Bool := s.isReady && fbReady s.fb

/-- The window that `wm_create_window` puts into a free slot. -/
def newWindow (id : UInt32) (title : Option CString) (x y width height : UInt32) : WmWindow where
  used := true
  id := id
  x := x
  y := y
  width := width
  height := height
  borderColor := 0xFF1D1F24
  titleColor := 0xFF4C78A8
  clientColor := 0xFFE7E9ED
  title := wmCopyTitle (title.getD (.read (asciiText "window")))

/-- `wm_create_window`; a null title is `none`. -/
def wmCreateWindow (s : WmState) (title : Option CString) (x y width height : UInt32) :
    WmState × UInt32 :=
  if !wmReady s || width < 40 || height < 30 then (s, 0)
  else
    match firstSlot fun i => !(s.windows i).used with
    | none => (s, 0)
    | some slot =>
        let id := s.stats.nextWindowId
        ({ s with
            windows := Function.update s.windows slot (newWindow id title x y width height)
            stats :=
              { windowCount := s.stats.windowCount + 1
                nextWindowId := id + 1
                activeWindowId := if s.stats.activeWindowId == 0 then id else s.stats.activeWindowId } },
          id)

def wmSetActive (s : WmState) (id : UInt32) : WmState × Int :=
  match wmFind s id with
  | none => (s, -1)
  | some _ => ({ s with stats := { s.stats with activeWindowId := id } }, 0)

/-- The loop of `wm_render` over the table. -/
def wmDrawAll (s : FbState) (wins : List WmWindow) : Option FbState := wins.foldlM wmDrawWindow s

def wmRender (s : WmState) : Option WmState := do
  if !wmReady s then return s
  let fb ← fbClear s.fb 0xFF101820
  let fb ← wmDrawAll fb (((List.finRange wmMaxWindows).map s.windows).filter WmWindow.used)
  if s.stats.activeWindowId == 0 then return { s with fb := fb }
  match wmFind s s.stats.activeWindowId with
  | none => return { s with fb := fb }
  | some i =>
      let active := s.windows i
      let fb ← fill fb active.x active.y active.width 3 0xFFF2C14E
      return { s with fb := fb }

end AcharyaOS.Window
