import AcharyaOS.Button.Code
import AcharyaOS.Icons.Code
import AcharyaOS.Menus.Code

/-!
# The desktop code

The drawing functions of `gui/icons.c` and `gui/button.c`, and the functions of
`gui/desktop.c`.  `none` stands for a write outside the framebuffer.
-/

namespace AcharyaOS.Desktop

open Foundation Framebuffer Window Menus Button Icons

/-! ## Icons -/

def iconGlyphW : UInt32 := 48

def iconGlyphH : UInt32 := 48

def iconLabelH : UInt32 := 16

def iconBg : UInt32 := 0xFF1D3557

def iconSelect : UInt32 := 0xFFF4A261

def iconTextBg : UInt32 := 0xFF1D3557

/-- `draw_label`; the text is shown as a box. -/
def drawLabel (fb : FbState) (x y : UInt32) (text : List UInt8) : Option FbState :=
  if text.length == 0 then some fb
  else do
    let fb ← fill fb x y iconCellW iconLabelH iconTextBg
    fill fb (x + 2) (y + 2) (iconCellW - 4) (iconLabelH - 4) iconBg

def drawIcon (fb : FbState) (icon : Icon) : Option FbState := do
  let frame := if icon.selected then iconSelect else 0xFF0B1320
  let fb ← fill fb icon.x icon.y iconCellW iconCellH frame
  let fb ← fill fb (icon.x + 4) (icon.y + 4) iconGlyphW iconGlyphH icon.color
  let fb ← fill fb (icon.x + 16) (icon.y + 16) 16 16 0xFFF1FAEE
  drawLabel fb icon.x (icon.y + iconGlyphH + 4) icon.label

def iconsRender (s : IconsState) (fb : FbState) : Option FbState :=
  if !iconsReady s then some fb
  else
    ((List.finRange iconsMaxIcons).filter fun i => (s.icons i).used).foldlM
      (fun fb i => drawIcon fb (s.icons i)) fb

def iconsAddDefaultIcons (s : IconsState) : IconsState :=
  let add (s : IconsState) (label cmd : String) (color : UInt32) : IconsState :=
    (iconsAdd s (some (.read (asciiText label))) (some (.read (asciiText cmd))) color).1
  let s := add s "Terminal" "shell" 0xFF2A9D8F
  let s := add s "Files" "files" 0xFFE9C46A
  let s := add s "Editor" "editor" 0xFFE76F51
  let s := add s "Calc" "calc" 0xFF4C78A8
  let s := add s "Settings" "settings" 0xFF8E9AAF
  add s "System" "sysmon" 0xFFF4A261

/-! ## Buttons -/

def btnPadding : UInt32 := 4

def btnDrawOne (fb : FbState) (btn : Btn) : Option FbState := do
  if !btn.used then return fb
  let color := if btn.pressed then btn.pressedColor else btn.fillColor
  let fb ← fill fb btn.x btn.y btn.width btn.height btn.borderColor
  if btn.width ≤ 2 || btn.height ≤ 2 then return fb
  let innerX := btn.x + 1
  let innerY := btn.y + 1
  let innerW := btn.width - 2
  let innerH := btn.height - 2
  let fb ← fill fb innerX innerY innerW innerH color
  if innerW > btnPadding * 2 && innerH > btnPadding * 2 then
    fill fb (innerX + btnPadding) (innerY + btnPadding) (innerW - btnPadding * 2)
      (innerH - btnPadding * 2) btn.textColor
  else return fb

def btnRender (s : BtnState) (fb : FbState) : Option FbState :=
  (((List.finRange btnMaxButtons).map s.buttons).filter Btn.used).foldlM btnDrawOne fb

/-- `wm_demo_layout` -/
def wmDemoLayout (wm : WmState) : Option WmState :=
  let wm := wmInit wm
  if !wmReady wm then some wm
  else
    let text (name : String) : Option CString := some (.read (asciiText name))
    let wm := (wmCreateWindow wm (text "shell") 20 20 150 90).1
    let wm := (wmCreateWindow wm (text "notes") 190 35 110 120).1
    let wm := (wmCreateWindow wm (text "monitor") 70 130 180 55).1
    wmRender { wm with stats := { wm.stats with activeWindowId := 1 } }

/-- The buttons of `btn_demo_layout`. -/
def btnDemoButtons (s : BtnState) (wmReady fbReady : Bool) : BtnState :=
  let text (name : String) : Option CString := some (.read (asciiText name))
  let (s, shell) := btnCreate s wmReady fbReady 1 (text "Shell") 38 58 52 22
  let s := (btnCreate s wmReady fbReady 2 (text "Notes") 208 86 56 22).1
  let s := (btnCreate s wmReady fbReady 3 (text "Power") 112 148 56 22).1
  if shell != 0 then (btnSetPressed s shell 1).1 else s

def btnDemoLayout (s : BtnState) (wm : WmState) : Option (BtnState × WmState) :=
  if !wmReady wm || !fbReady wm.fb then some (s, wm)
  else do
    let wm ← wmDemoLayout wm
    let s := btnDemoButtons s (wmReady wm) (fbReady wm.fb)
    let fb ← btnRender s wm.fb
    return (s, { wm with fb := fb })

/-! ## The desktop -/

def desktopTaskbarH : UInt32 := 34

def desktopTaskbarBg : UInt32 := 0xFF10151F

def desktopBg : UInt32 := 0xFF1D3557

def desktopStartW : UInt32 := 84

def desktopClockW : UInt32 := 72

/-- `desktop_stats_t`. -/
structure DesktopStats where
  iconCount : UInt64
  selectedIconId : UInt32
  nextIconId : UInt32
  taskbarHeight : UInt32

/-- The static variables of `desktop.c`. -/
structure DesktopState where
  stats : DesktopStats
  isReady : Bool
  menuId : UInt32
  windowId : UInt32
  startButtonId : UInt32

/-- The window manager with the framebuffer, and what is above them. -/
structure Gui where
  wm : WmState
  menus : MenuState
  buttons : BtnState
  icons : IconsState
  desktop : DesktopState

namespace Gui

def fb (g : Gui) : FbState := g.wm.fb

def withFb (g : Gui) (fb : FbState) : Gui := { g with wm := { g.wm with fb := fb } }

/-- A drawing on the framebuffer. -/
def draw (g : Gui) (f : FbState → Option FbState) : Option Gui := (f g.fb).map g.withFb

end Gui

def desktopReady (g : Gui) : Bool := g.desktop.isReady && fbReady g.fb

/-- The three fills of `desktop_draw_taskbar`. -/
def drawTaskbar (info : FbInfo) (fb : FbState) : Option FbState := do
  let fb ← fill fb 0 (info.height - desktopTaskbarH) info.width desktopTaskbarH desktopTaskbarBg
  let fb ← fill fb 0 (info.height - desktopTaskbarH) desktopStartW desktopTaskbarH 0xFF2A9D8F
  fill fb (info.width - desktopClockW) (info.height - desktopTaskbarH) desktopClockW
    desktopTaskbarH 0xFF243447

/-- The start button is released after every drawing of the taskbar. -/
def releaseStart (g : Gui) : Gui :=
  if g.desktop.startButtonId != 0 then
    { g with buttons := (btnSetPressed g.buttons g.desktop.startButtonId 0).1 }
  else g

def desktopDrawTaskbar (g : Gui) : Option Gui :=
  let info := g.fb.info
  if info.height < desktopTaskbarH || info.width == 0 then some g
  else (g.draw (drawTaskbar info)).map releaseStart

/-- The window, the menu and the start button that `desktop_init` makes. -/
def desktopFurnish (g : Gui) : Gui :=
  let info := g.fb.info
  let text (name : String) : Option CString := some (.read (asciiText name))
  let (wm, windowId) := wmCreateWindow g.wm (text "desktop") 8 8
    (if info.width > 16 then info.width - 16 else info.width)
    (if info.height > 16 then info.height - 16 else info.height)
  let (menus, menuId) := menuCreate g.menus (fbReady wm.fb) windowId (text "Desktop") 8 8 120
  let menus :=
    if menuId != 0 then
      let menus := (menuAddItem menus menuId (text "Terminal") 1).1
      let menus := (menuAddItem menus menuId (text "Files") 2).1
      (menuAddItem menus menuId (text "Settings") 3).1
    else menus
  let (buttons, startButtonId) := btnCreate g.buttons (wmReady wm) (fbReady wm.fb) windowId
    (text "Start") 4 (info.height - desktopTaskbarH + 4) 72 24
  { wm := wm
    menus := menus
    buttons := buttons
    icons := g.icons
    desktop :=
      { g.desktop with windowId := windowId, menuId := menuId, startButtonId := startButtonId } }

def desktopInit (g : Gui) : Gui :=
  let ready := fbReady g.fb && wmReady g.wm && menuReady g.menus (fbReady g.fb)
  let g := { g with
    icons := iconsInit (fbReady g.fb) (wmReady g.wm)
    desktop :=
      { stats := { g.desktop.stats with taskbarHeight := desktopTaskbarH }
        isReady := ready
        menuId := 0
        windowId := 0
        startButtonId := 0 } }
  if ready then desktopFurnish g else g

def desktopRenderTaskbar (g : Gui) : Option Gui :=
  if !desktopReady g then some g else desktopDrawTaskbar g

def desktopRender (g : Gui) : Option Gui :=
  let info := g.fb.info
  if !desktopReady g then some g
  else do
    let g ← g.draw fun fb => fill fb 0 0 info.width info.height desktopBg
    let wm ← wmRender g.wm
    let g := { g with wm := wm }
    let g ← g.draw (iconsRender g.icons)
    let g ← g.draw (menuRender g.menus)
    desktopDrawTaskbar g

/-- `desktop_handle_click`, at a time given in ticks. -/
def desktopHandleClick (g : Gui) (x y : Int32) (buttonMask : UInt8) (ticks : UInt64) : Gui :=
  let clicked := iconsHandleClick g.icons x y buttonMask ticks
  let stats := g.desktop.stats
  { g with
    icons := clicked.state
    desktop := { g.desktop with
      stats :=
        if clicked.result > 0 then
          { stats with
            iconCount := clicked.state.iconState.iconCount
            selectedIconId := clicked.state.iconState.selectedIconId
            nextIconId := clicked.state.iconState.nextIconId }
        else { stats with selectedIconId := 0 } } }

end AcharyaOS.Desktop
