import AcharyaOS.Desktop.Painting
import AcharyaOS.Foundation.Run

/-!
# The picture of the desktop

The graphics from `fb_init` on, under any sequence of calls: of the framebuffer itself, which
stand for the other applications, of the widgets and of the desktop.  A shell command that a
click launches makes its calls after the click.
-/

namespace AcharyaOS.Desktop

open Foundation Foundation.Run Framebuffer Window Menus Button Icons

/-! ## Calls -/

inductive GuiCall
  | fbClear (color : UInt32)
  | fbFillRect (x y width height color : UInt32)
  | wmInit
  | wmCreateWindow (title : Option CString) (x y width height : UInt32)
  | wmSetActive (id : UInt32)
  | wmRender
  | wmDemoLayout
  | menuInit
  | menuCreate (windowId : UInt32) (title : Option CString) (x y width : UInt32)
  | menuAddItem (menuId : UInt32) (text : Option CString) (actionId : UInt32)
  | menuSetActive (menuId : UInt32)
  | menuRender
  | menuDemoLayout
  | btnInit
  | btnCreate (windowId : UInt32) (label : Option CString) (x y width height : UInt32)
  | btnSetPressed (id : UInt32) (pressed : Int)
  | btnRender
  | btnDemoLayout
  | iconsAdd (label launchCmd : Option CString) (color : UInt32)
  | iconsRender
  | desktopInit
  | desktopAddDefaultIcons
  | desktopRenderTaskbar
  | desktopRender
  | desktopUpdateClock
  | desktopHandleClick (x y : Int32) (buttonMask : UInt8) (ticks : UInt64)

def guiStep (g : Gui) : GuiCall → Option Gui
  | .fbClear color => g.draw fun fb => fbClear fb color
  | .fbFillRect x y width height color => g.draw fun fb => fill fb x y width height color
  | .wmInit => some { g with wm := wmInit g.wm }
  | .wmCreateWindow title x y width height =>
      some { g with wm := (wmCreateWindow g.wm title x y width height).1 }
  | .wmSetActive id => some { g with wm := (wmSetActive g.wm id).1 }
  | .wmRender => (wmRender g.wm).map fun wm => { g with wm := wm }
  | .wmDemoLayout => (wmDemoLayout g.wm).map fun wm => { g with wm := wm }
  | .menuInit => some { g with menus := menuInit (fbReady g.fb) (wmReady g.wm) }
  | .menuCreate windowId title x y width =>
      some { g with menus := (menuCreate g.menus (fbReady g.fb) windowId title x y width).1 }
  | .menuAddItem menuId text actionId =>
      some { g with menus := (menuAddItem g.menus menuId text actionId).1 }
  | .menuSetActive menuId => some { g with menus := (menuSetActive g.menus menuId).1 }
  | .menuRender => g.draw (menuRender g.menus)
  | .menuDemoLayout =>
      (menuDemoLayout g.wm).map fun (menus, wm) => { g with menus := menus, wm := wm }
  | .btnInit => some { g with buttons := btnInit }
  | .btnCreate windowId label x y width height =>
      some { g with
        buttons :=
          (btnCreate g.buttons (wmReady g.wm) (fbReady g.fb) windowId label x y width height).1 }
  | .btnSetPressed id pressed => some { g with buttons := (btnSetPressed g.buttons id pressed).1 }
  | .btnRender => g.draw (btnRender g.buttons)
  | .btnDemoLayout =>
      (btnDemoLayout g.buttons g.wm).map fun (buttons, wm) =>
        { g with buttons := buttons, wm := wm }
  | .iconsAdd label launchCmd color =>
      some { g with icons := (iconsAdd g.icons label launchCmd color).1 }
  | .iconsRender => g.draw (iconsRender g.icons)
  | .desktopInit => some (desktopInit g)
  | .desktopAddDefaultIcons => some { g with icons := iconsAddDefaultIcons g.icons }
  | .desktopRenderTaskbar => desktopRenderTaskbar g
  | .desktopRender => desktopRender g
  | .desktopUpdateClock => desktopDrawTaskbar g
  | .desktopHandleClick x y buttonMask ticks => some (desktopHandleClick g x y buttonMask ticks)

/-- The static variables before any call. -/
def Gui.zero : Gui where
  wm := ⟨fun _ => .zero, ⟨0, 0, 0⟩, false, ⟨fun _ => 0, ⟨0, 0, 0, 0, 0, false, 0, 0⟩⟩⟩
  menus := ⟨fun _ => .zero, ⟨0, 0, 0⟩, false⟩
  buttons := ⟨fun _ => .zero, ⟨0, 0, 0⟩⟩
  icons := ⟨fun _ => .zero, ⟨0, 0, 0⟩, false, 0, false⟩
  desktop := ⟨⟨0, 0, 0, 0⟩, false, 0, 0, 0⟩

/-- What `kmain` does with the graphics. -/
def guiBoot : Option Gui := do
  let g ← Gui.zero.draw fbInit
  [.wmInit, .btnInit, .menuInit, .desktopInit, .desktopAddDefaultIcons, .desktopRender].foldlM
    guiStep g

/-- The calls that follow. -/
def guiRun (calls : List GuiCall) : Option Gui := guiBoot.bind fun g => calls.foldlM guiStep g

/-! ## The picture -/

/-- The windows on their background, then the icons, the menus and the taskbar. -/
def Gui.picture (g : Gui) : Point → UInt32 :=
  Layer.overAll [windowsLayer g.wm, iconsLayer g.icons, menusLayer g.menus, taskbarLayer]
    fun _ => 0xFF101820

/-! ## The invariant -/

/-- The graphics are up. -/
structure Running (g : Gui) : Prop where
  screen : Initialised g.fb
  windows : g.wm.isReady = true
  menus : g.menus.isReady = true
  icons : iconsReady g.icons = true
  desktop : g.desktop.isReady = true
  placed : ∃ last count, Follows ⟨g.icons, last⟩ count

section Kept

theorem wmCreateWindow_kept (s : WmState) (title : Option CString) (x y width height : UInt32) :
    (wmCreateWindow s title x y width height).1.isReady = s.isReady ∧
      (wmCreateWindow s title x y width height).1.fb = s.fb := by
  unfold wmCreateWindow
  split
  · exact ⟨rfl, rfl⟩
  · split <;> exact ⟨rfl, rfl⟩

theorem wmSetActive_kept (s : WmState) (id : UInt32) :
    (wmSetActive s id).1.isReady = s.isReady ∧ (wmSetActive s id).1.fb = s.fb := by
  unfold wmSetActive
  split <;> exact ⟨rfl, rfl⟩

theorem isReady_menuCreate (s : MenuState) (fbReady : Bool) (windowId : UInt32)
    (title : Option CString) (x y width : UInt32) :
    (menuCreate s fbReady windowId title x y width).1.isReady = s.isReady := by
  unfold menuCreate
  split
  · rfl
  · split <;> rfl

theorem isReady_menuAddItem (s : MenuState) (menuId : UInt32) (text : Option CString)
    (actionId : UInt32) : (menuAddItem s menuId text actionId).1.isReady = s.isReady := by
  unfold menuAddItem
  split
  · rfl
  · split <;> rfl

theorem isReady_menuSetActive (s : MenuState) (menuId : UInt32) :
    (menuSetActive s menuId).1.isReady = s.isReady := by
  unfold menuSetActive
  split <;> rfl

theorem isReady_menuDemoMenus (s : MenuState) (fbReady : Bool) :
    (menuDemoMenus s fbReady).isReady = s.isReady := by
  unfold menuDemoMenus
  simp only [isReady_menuAddItem, isReady_menuCreate]

end Kept

/-- The window manager is up. -/
def WmUp (s : WmState) : Prop := s.isReady = true ∧ Initialised s.fb

theorem WmUp.ready {s : WmState} (h : WmUp s) : wmReady s = true := by
  unfold wmReady fbReady
  rw [h.1, h.2.ready]
  rfl

theorem wmUp_wmInit {s : WmState} (hs : Initialised s.fb) : WmUp (wmInit s) := ⟨hs.ready, hs⟩

theorem WmUp.create {s : WmState} (h : WmUp s) (title : Option CString)
    (x y width height : UInt32) : WmUp (wmCreateWindow s title x y width height).1 := by
  obtain ⟨hready, hfb⟩ := wmCreateWindow_kept s title x y width height
  exact ⟨hready.trans h.1, hfb ▸ h.2⟩

theorem WmUp.render {s : WmState} (h : WmUp s) : ∃ t, wmRender s = some t ∧ WmUp t := by
  obtain ⟨fb, hrender, hfb, -⟩ := wmRender_windows h.1 h.2
  exact ⟨_, hrender, h.1, hfb⟩

theorem WmUp.demoLayout {s : WmState} (h : WmUp s) : ∃ t, wmDemoLayout s = some t ∧ WmUp t := by
  have hguard : ¬ (!wmReady (wmInit s)) = true := by
    rw [(wmUp_wmInit h.2).ready]
    decide
  have hone := (wmUp_wmInit h.2).create (some (.read (asciiText "shell"))) 20 20 150 90
  have htwo := hone.create (some (.read (asciiText "notes"))) 190 35 110 120
  have hthree := htwo.create (some (.read (asciiText "monitor"))) 70 130 180 55
  unfold wmDemoLayout
  dsimp only
  rw [if_neg hguard]
  exact WmUp.render ⟨hthree.1, hthree.2⟩

theorem WmUp.menuRender {s : WmState} {menus : MenuState} (h : WmUp s)
    (hready : menus.isReady = true) :
    ∃ fb, menuRender menus s.fb = some fb ∧ WmUp { s with fb := fb } := by
  obtain ⟨fb, hfb, hinit, -⟩ := menuRender_draws hready s.fb h.2
  exact ⟨fb, hfb, h.1, hinit⟩

theorem WmUp.menuDemoLayout {s : WmState} (h : WmUp s) :
    ∃ menus t, menuDemoLayout s = some (menus, t) ∧ menus.isReady = true ∧ WmUp t := by
  have hinit : (menuInit (fbReady s.fb) (wmReady s)).isReady = true := by
    unfold menuInit fbReady
    rw [h.2.ready, h.ready]
    rfl
  have hguard : ¬ (!menuReady (menuInit (fbReady s.fb) (wmReady s)) (fbReady s.fb)) = true := by
    unfold menuReady fbReady at *
    rw [hinit, h.2.ready]
    decide
  have hmenus := isReady_menuDemoMenus (menuInit (fbReady s.fb) (wmReady s)) (fbReady s.fb)
  obtain ⟨fb, hclear, hfb, -⟩ := fbClear_draws 0xFF0F172A s.fb h.2
  obtain ⟨t, hrender, hup⟩ := WmUp.render (s := { s with fb := fb }) ⟨h.1, hfb⟩
  obtain ⟨fb', hdraw, hup'⟩ := hup.menuRender (hmenus.trans hinit)
  refine ⟨_, _, ?_, hmenus.trans hinit, hup'⟩
  unfold Menus.menuDemoLayout
  simp only [if_neg hguard, hclear, hrender, hdraw, bind, pure, Option.bind_some]

theorem btnRender_draws (s : BtnState) : ∃ l, Draws l (btnRender s) := by
  have hall : ∀ btn : Btn, ∃ l, btn.used = true → Draws l fun fb => btnDrawOne fb btn := by
    intro btn
    by_cases hused : btn.used = true
    · obtain ⟨l, hl⟩ := btnDrawOne_draws hused
      exact ⟨l, fun _ => hl⟩
    · exact ⟨.clear, fun h => absurd h hused⟩
  choose l hl using hall
  exact ⟨_, Paints.foldlM _ fun btn hbtn => hl btn (List.mem_filter.mp hbtn).2⟩

theorem WmUp.btnDemoLayout {s : WmState} (h : WmUp s) (buttons : BtnState) :
    ∃ buttons' t, btnDemoLayout buttons s = some (buttons', t) ∧ WmUp t := by
  have hguard : ¬ (!wmReady s || !fbReady s.fb) = true := by
    unfold fbReady
    rw [h.ready, h.2.ready]
    decide
  obtain ⟨t, hlayout, hup⟩ := h.demoLayout
  have hbuttons := btnRender_draws (btnDemoButtons buttons (wmReady t) (fbReady t.fb))
  generalize hdemo : btnDemoButtons buttons (wmReady t) (fbReady t.fb) = buttons' at hbuttons
  obtain ⟨l, hl⟩ := hbuttons
  obtain ⟨fb, hdraw, hfb, -⟩ := hl t.fb hup.2
  refine ⟨buttons', { t with fb := fb }, ?_, hup.1, hfb⟩
  unfold Desktop.btnDemoLayout
  simp only [if_neg hguard, hlayout, hdemo, hdraw, bind, pure, Option.bind_some]

/-! ## Icons -/

/-- The icons are up, and in their places. -/
def IconsUp (s : IconsState) : Prop := iconsReady s = true ∧ ∃ last count, Follows ⟨s, last⟩ count

theorem iconsUp_iconsInit : IconsUp (iconsInit true true) :=
  ⟨rfl, none, 0, follows_trackInit true true⟩

theorem IconsUp.add {s : IconsState} (h : IconsUp s) (label launchCmd : Option CString)
    (color : UInt32) : IconsUp (iconsAdd s label launchCmd color).1 := by
  obtain ⟨hready, last, count, hfollows⟩ := h
  obtain ⟨count', hfollows'⟩ := hfollows.add label launchCmd color
  refine ⟨?_, last, count', hfollows'⟩
  rcases iconsAdd_cases s label launchCmd color with hsame | ⟨-, slot, -, hnew⟩
  · rw [hsame]
    exact hready
  · rw [hnew]
    exact hready

theorem IconsUp.addDefaultIcons {s : IconsState} (h : IconsUp s) :
    IconsUp (iconsAddDefaultIcons s) :=
  (((((h.add _ _ _).add _ _ _).add _ _ _).add _ _ _).add _ _ _).add _ _ _

theorem IconsUp.leftClick {s : IconsState} (h : IconsUp s) (x y : Int32) {buttonMask : UInt8}
    (ticks : UInt64) (hleft : Left buttonMask) :
    (iconsHandleClick s x y buttonMask ticks).state =
      s.select (s.iconAt x y) ticks.toUInt32 := by
  obtain ⟨hready, last, count, hfollows⟩ := h
  cases hat : s.iconAt x y with
  | none => rw [iconsHandleClick_miss hready hleft hat]
  | some i =>
      by_cases hagain : Again s i ticks.toUInt32
      · have hon := (hfollows.selected_iff i).mp hagain.1
        have hselect := hfollows.select_on ticks.toUInt32
        rw [hon] at hselect
        rw [(iconsHandleClick_again hready hleft hat hagain).1, hselect]
      · rw [iconsHandleClick_first hready hleft hat hagain]

theorem IconsUp.click {s : IconsState} (h : IconsUp s) (x y : Int32) (buttonMask : UInt8)
    (ticks : UInt64) : IconsUp (iconsHandleClick s x y buttonMask ticks).state := by
  by_cases hleft : Left buttonMask
  · obtain ⟨hready, last, count, hfollows⟩ := h
    have hstate := IconsUp.leftClick ⟨hready, last, count, hfollows⟩ x y ticks hleft
    refine ⟨?_, _, count, hfollows.leftClick hleft⟩
    rw [hstate]
    exact hready
  · rw [(iconsHandleClick_of_not_left hleft).1]
    exact h

/-! ## One call -/

theorem releaseStart_eq (g : Gui) :
    ∃ buttons, releaseStart g = { g with buttons := buttons } := by
  unfold releaseStart
  split
  · exact ⟨_, rfl⟩
  · exact ⟨_, rfl⟩

namespace Running

variable {g : Gui} (h : Running g)

include h

theorem wmUp : WmUp g.wm := ⟨h.windows, h.screen⟩

theorem iconsUp : IconsUp g.icons := ⟨h.icons, h.placed⟩

theorem setWm {wm : WmState} (hwm : WmUp wm) : Running { g with wm := wm } :=
  ⟨hwm.2, hwm.1, h.menus, h.icons, h.desktop, h.placed⟩

theorem setFb {fb : FbState} (hfb : Initialised fb) : Running (g.withFb fb) :=
  h.setWm ⟨h.windows, hfb⟩

theorem setMenus {menus : MenuState} (hmenus : menus.isReady = g.menus.isReady) :
    Running { g with menus := menus } :=
  ⟨h.screen, h.windows, hmenus.trans h.menus, h.icons, h.desktop, h.placed⟩

theorem setButtons (buttons : BtnState) : Running { g with buttons := buttons } :=
  ⟨h.screen, h.windows, h.menus, h.icons, h.desktop, h.placed⟩

theorem setIcons {icons : IconsState} (hicons : IconsUp icons) :
    Running { g with icons := icons } :=
  ⟨h.screen, h.windows, h.menus, hicons.1, h.desktop, hicons.2⟩

theorem setStats (stats : DesktopStats) :
    Running { g with desktop := { g.desktop with stats := stats } } :=
  ⟨h.screen, h.windows, h.menus, h.icons, h.desktop, h.placed⟩

theorem releaseStart : Running (releaseStart g) := by
  obtain ⟨buttons, hbuttons⟩ := releaseStart_eq g
  rw [hbuttons]
  exact h.setButtons buttons

theorem click (x y : Int32) (buttonMask : UInt8) (ticks : UInt64) :
    Running (desktopHandleClick g x y buttonMask ticks) :=
  (h.setIcons (h.iconsUp.click x y buttonMask ticks)).setStats _

theorem draw {l : Layer Point UInt32} {f : FbState → Option FbState} (hf : Draws l f) :
    ∃ fb, g.draw f = some (g.withFb fb) ∧ Running (g.withFb fb) ∧ fb.px = l.onto g.fb.px := by
  obtain ⟨fb, hfb, hinit, hpx⟩ := hf g.fb h.screen
  refine ⟨fb, ?_, h.setFb hinit, hpx⟩
  unfold Gui.draw
  rw [hfb, Option.map_some]

theorem drawTaskbar :
    ∃ fb, desktopDrawTaskbar g = some (Desktop.releaseStart (g.withFb fb)) ∧
      Initialised fb ∧ fb.px = taskbarLayer.onto g.fb.px := by
  have hguard : ¬ (g.fb.info.height < desktopTaskbarH || g.fb.info.width == 0) = true := by
    rw [h.screen.height, h.screen.width]
    decide
  obtain ⟨fb, hdraw, hrunning, hpx⟩ := h.draw (drawTaskbar_draws h.screen.width h.screen.height)
  refine ⟨fb, ?_, hrunning.screen, hpx⟩
  unfold desktopDrawTaskbar
  dsimp only
  rw [if_neg hguard, hdraw, Option.map_some]

theorem ready : desktopReady g = true := by
  unfold desktopReady fbReady
  rw [h.desktop, h.screen.ready]
  rfl

/-- The first fill of `desktop_render` is covered by the background of the window manager. -/
theorem render : ∃ fb, desktopRender g = some (Desktop.releaseStart (g.withFb fb)) ∧
    Initialised fb ∧ fb.px = g.picture := by
  have hguard : ¬ (!desktopReady g) = true := by
    rw [h.ready]
    decide
  obtain ⟨fb0, hdraw0, h0, -⟩ := h.draw
    (fill_draws 0 0 g.fb.info.width g.fb.info.height desktopBg)
  obtain ⟨fb1, hdraw1, hfb1, hpx1⟩ := wmRender_windows h0.windows h0.screen
  have h1 : Running (g.withFb fb1) := h0.setFb hfb1
  obtain ⟨last, count, hfollows⟩ := h.placed
  obtain ⟨fb2, hdraw2, h2, hpx2⟩ := h1.draw (iconsRender_draws hfollows h.icons)
  obtain ⟨fb3, hdraw3, h3, hpx3⟩ := h2.draw (menuRender_draws h.menus)
  obtain ⟨fb4, hdraw4, hfb4, hpx4⟩ := h3.drawTaskbar
  refine ⟨fb4, ?_, hfb4, ?_⟩
  · unfold desktopRender
    dsimp only
    rw [if_neg hguard]
    show (g.draw _).bind _ = _
    rw [hdraw0]
    show (wmRender (g.withFb fb0).wm).bind _ = _
    rw [hdraw1]
    show ((g.withFb fb1).draw (iconsRender g.icons)).bind _ = _
    rw [hdraw2]
    show (((g.withFb fb1).withFb fb2).draw (menuRender g.menus)).bind _ = _
    rw [hdraw3]
    exact hdraw4
  · have hwindows : (g.withFb fb1).fb.px = (windowsLayer g.wm).onto fun _ => 0xFF101820 :=
      funext hpx1
    rw [hwindows] at hpx2
    show fb4.px = taskbarLayer.onto ((menusLayer g.menus).onto ((iconsLayer g.icons).onto _))
    rw [hpx4, ← hpx2]
    exact congrArg taskbarLayer.onto hpx3

theorem furnish : Running (desktopFurnish g) := by
  have hwm := h.wmUp.create (some (.read (asciiText "desktop"))) 8 8
    (if g.fb.info.width > 16 then g.fb.info.width - 16 else g.fb.info.width)
    (if g.fb.info.height > 16 then g.fb.info.height - 16 else g.fb.info.height)
  refine ⟨hwm.2, hwm.1, ?_, h.icons, h.desktop, h.placed⟩
  unfold desktopFurnish
  simp only [apply_ite MenuState.isReady, isReady_menuAddItem, isReady_menuCreate, ite_self]
  exact h.menus

end Running

theorem running_desktopInit {g : Gui} (hwm : WmUp g.wm) (hmenus : g.menus.isReady = true) :
    Running (desktopInit g) := by
  have hfb : fbReady g.fb = true := hwm.2.ready
  have hready : (fbReady g.fb && wmReady g.wm && menuReady g.menus (fbReady g.fb)) = true := by
    unfold menuReady
    rw [hfb, hwm.ready, hmenus]
    rfl
  unfold desktopInit
  dsimp only
  rw [if_pos hready, hready, hfb, hwm.ready]
  exact Running.furnish
    ⟨hwm.2, hwm.1, hmenus, iconsUp_iconsInit.1, rfl, iconsUp_iconsInit.2⟩

/-- No call writes outside the framebuffer, and every call leaves the graphics up. -/
theorem Running.step {g : Gui} (h : Running g) (c : GuiCall) :
    ∃ t, guiStep g c = some t ∧ Running t := by
  have hready : wmReady g.wm = true := h.wmUp.ready
  have hfb : fbReady g.fb = true := h.screen.ready
  have hdraw : ∀ {f : FbState → Option FbState}, (∃ l, Draws l f) →
      ∃ t, g.draw f = some t ∧ Running t := by
    rintro f ⟨l, hf⟩
    obtain ⟨fb, hcall, hrunning, -⟩ := h.draw hf
    exact ⟨_, hcall, hrunning⟩
  have hwm : ∀ {o : Option WmState}, (∃ t, o = some t ∧ WmUp t) →
      ∃ t, (o.map fun wm => { g with wm := wm }) = some t ∧ Running t := by
    rintro o ⟨t, rfl, hup⟩
    exact ⟨_, rfl, h.setWm hup⟩
  cases c with
  | fbClear color => exact hdraw ⟨_, fbClear_draws color⟩
  | fbFillRect x y width height color => exact hdraw ⟨_, fill_draws x y width height color⟩
  | wmInit => exact ⟨_, rfl, h.setWm (wmUp_wmInit h.screen)⟩
  | wmCreateWindow title x y width height =>
      exact ⟨_, rfl, h.setWm (h.wmUp.create title x y width height)⟩
  | wmSetActive id =>
      obtain ⟨hkept, hscreen⟩ := wmSetActive_kept g.wm id
      exact ⟨_, rfl, h.setWm ⟨hkept.trans h.windows, hscreen ▸ h.screen⟩⟩
  | wmRender => exact hwm h.wmUp.render
  | wmDemoLayout => exact hwm h.wmUp.demoLayout
  | menuInit =>
      refine ⟨_, rfl, h.setMenus ?_⟩
      unfold menuInit
      rw [hfb, hready, h.menus]
      rfl
  | menuCreate windowId title x y width =>
      exact ⟨_, rfl, h.setMenus (isReady_menuCreate _ _ _ _ _ _ _)⟩
  | menuAddItem menuId text actionId =>
      exact ⟨_, rfl, h.setMenus (isReady_menuAddItem _ _ _ _)⟩
  | menuSetActive menuId => exact ⟨_, rfl, h.setMenus (isReady_menuSetActive _ _)⟩
  | menuRender => exact hdraw ⟨_, menuRender_draws h.menus⟩
  | menuDemoLayout =>
      obtain ⟨menus, wm, hcall, hmenus, hup⟩ := h.wmUp.menuDemoLayout
      refine ⟨{ g with menus := menus, wm := wm }, ?_, ?_⟩
      · unfold guiStep
        rw [hcall, Option.map_some]
      · exact (h.setWm hup).setMenus (hmenus.trans h.menus.symm)
  | btnInit => exact ⟨_, rfl, h.setButtons _⟩
  | btnCreate windowId label x y width height => exact ⟨_, rfl, h.setButtons _⟩
  | btnSetPressed id pressed => exact ⟨_, rfl, h.setButtons _⟩
  | btnRender => exact hdraw (btnRender_draws g.buttons)
  | btnDemoLayout =>
      obtain ⟨buttons, wm, hcall, hup⟩ := h.wmUp.btnDemoLayout g.buttons
      refine ⟨{ g with buttons := buttons, wm := wm }, ?_, ?_⟩
      · unfold guiStep
        rw [hcall, Option.map_some]
      · exact (h.setWm hup).setButtons buttons
  | iconsAdd label launchCmd color =>
      exact ⟨_, rfl, h.setIcons (h.iconsUp.add label launchCmd color)⟩
  | iconsRender =>
      obtain ⟨last, count, hfollows⟩ := h.placed
      exact hdraw ⟨_, iconsRender_draws hfollows h.icons⟩
  | desktopInit => exact ⟨_, rfl, running_desktopInit h.wmUp h.menus⟩
  | desktopAddDefaultIcons => exact ⟨_, rfl, h.setIcons h.iconsUp.addDefaultIcons⟩
  | desktopRenderTaskbar =>
      obtain ⟨fb, hcall, hinit, -⟩ := h.drawTaskbar
      refine ⟨_, ?_, (h.setFb hinit).releaseStart⟩
      show (if !desktopReady g then some g else desktopDrawTaskbar g) = _
      rw [h.ready]
      exact hcall
  | desktopRender =>
      obtain ⟨fb, hcall, hinit, -⟩ := h.render
      exact ⟨_, hcall, (h.setFb hinit).releaseStart⟩
  | desktopUpdateClock =>
      obtain ⟨fb, hcall, hinit, -⟩ := h.drawTaskbar
      exact ⟨_, hcall, (h.setFb hinit).releaseStart⟩
  | desktopHandleClick x y buttonMask ticks =>
      exact ⟨_, rfl, h.click x y buttonMask ticks⟩

/-! ## Runs -/

theorem running_guiBoot : ∃ g, guiBoot = some g ∧ Running g := by
  obtain ⟨fb, hinit, hfb, -⟩ := fbInit_spec Gui.zero.fb
  have hwm : WmUp (wmInit { Gui.zero.wm with fb := fb }) := wmUp_wmInit hfb
  have hmenus : (menuInit (fbReady fb) (wmReady (wmInit { Gui.zero.wm with fb := fb }))).isReady =
      true := by
    unfold menuInit fbReady
    rw [hfb.ready, hwm.ready]
    rfl
  have hrunning := running_desktopInit (g :=
    { wm := wmInit { Gui.zero.wm with fb := fb }
      menus := menuInit (fbReady fb) (wmReady (wmInit { Gui.zero.wm with fb := fb }))
      buttons := btnInit
      icons := Gui.zero.icons
      desktop := Gui.zero.desktop }) hwm hmenus
  obtain ⟨g, hrest, hg⟩ := foldlM_of_invariant (fun _ c h => Running.step h c)
    [.desktopAddDefaultIcons, .desktopRender] hrunning
  refine ⟨g, ?_, hg⟩
  unfold guiBoot Gui.draw
  rw [hinit]
  exact hrest

theorem running_guiRun (calls : List GuiCall) : ∃ g, guiRun calls = some g ∧ Running g := by
  obtain ⟨g, hboot, hg⟩ := running_guiBoot
  obtain ⟨t, hrun, ht⟩ := foldlM_of_invariant (fun _ c h => Running.step h c) calls hg
  refine ⟨t, ?_, ht⟩
  unfold guiRun
  rw [hboot, Option.bind_some, hrun]

/-- After every sequence of calls `desktop_render` shows the picture that the windows, the
icons and the menus make, and changes nothing else but the start button, which it releases. -/
theorem desktop_shows (calls : List GuiCall) :
    ∃ g, guiRun calls = some g ∧ ∃ fb,
      desktopRender g = some (releaseStart (g.withFb fb)) ∧ ∀ p, fb.px p = g.picture p := by
  obtain ⟨g, hrun, hg⟩ := running_guiRun calls
  obtain ⟨fb, hrender, -, hpx⟩ := hg.render
  exact ⟨g, hrun, fb, hrender, fun p => congrFun hpx p⟩

/-! ## Clicks -/

/-- The command that a click passes to `shell_run_command`: that of the icon it launches, if it
has one. -/
def clickCommand (s : IconsState) (x y : Int32) (buttonMask : UInt8) (ticks : UInt64) :
    Option (List UInt8) :=
  let clicked := iconsHandleClick s x y buttonMask ticks
  (clicked.launched.bind (findIcon clicked.state)).bind fun i =>
    let launchCmd := (clicked.state.icons i).launchCmd
    if launchCmd == [] then none else some launchCmd

/-- The end of `desktop_handle_click`. -/
def noteClick (handled : Int) (g : Gui) : Gui :=
  let stats := g.desktop.stats
  { g with
    desktop := { g.desktop with
      stats :=
        if handled > 0 then
          { stats with
            iconCount := g.icons.iconState.iconCount
            selectedIconId := g.icons.iconState.selectedIconId
            nextIconId := g.icons.iconState.nextIconId }
        else { stats with selectedIconId := 0 } } }

/-- `desktop_handle_click` with the command that it runs; `run` says what calls a command makes. -/
def desktopClick (run : List UInt8 → List GuiCall) (g : Gui) (x y : Int32) (buttonMask : UInt8)
    (ticks : UInt64) : Option Gui :=
  let clicked := iconsHandleClick g.icons x y buttonMask ticks
  let calls := (clickCommand g.icons x y buttonMask ticks).elim [] run
  (calls.foldlM guiStep { g with icons := clicked.state }).map (noteClick clicked.result)

theorem desktopClick_of_none (run : List UInt8 → List GuiCall) {g : Gui} {x y : Int32}
    {buttonMask : UInt8} {ticks : UInt64}
    (hnone : clickCommand g.icons x y buttonMask ticks = none) :
    desktopClick run g x y buttonMask ticks =
      some (desktopHandleClick g x y buttonMask ticks) := by
  unfold desktopClick
  rw [hnone]
  rfl

theorem Running.desktopClick {g : Gui} (h : Running g) (run : List UInt8 → List GuiCall)
    (x y : Int32) (buttonMask : UInt8) (ticks : UInt64) :
    ∃ t, desktopClick run g x y buttonMask ticks = some t ∧ Running t := by
  have hclicked := h.setIcons (h.iconsUp.click x y buttonMask ticks)
  obtain ⟨t, hcalls, ht⟩ := foldlM_of_invariant (fun _ c h => Running.step h c)
    ((clickCommand g.icons x y buttonMask ticks).elim [] run) hclicked
  refine ⟨noteClick (iconsHandleClick g.icons x y buttonMask ticks).result t, ?_, ht.setStats _⟩
  exact congrArg (Option.map (noteClick _)) hcalls

/-- The icon whose frame is seen at a point. -/
def Gui.frameAt (g : Gui) (p : Point) : Option (Fin iconsMaxIcons) :=
  if (taskbarLayer.above (menusLayer g.menus)) p = none then
    (g.icons.iconAt (.ofNat p.1.val) (.ofNat p.2.val)).filter fun i =>
      OnScreen i ∧ iconBody (g.icons.icons i) i p = none
  else none

/-- Whether an icon is selected after a click. -/
def selectedAfter (s : IconsState) (x y : Int32) (buttonMask : UInt8) (i : Fin iconsMaxIcons) :
    Bool :=
  if Left buttonMask then s.iconAt x y = some i else (s.icons i).selected

theorem IconsUp.icons_click {s : IconsState} (h : IconsUp s) (x y : Int32) (buttonMask : UInt8)
    (ticks : UInt64) : (iconsHandleClick s x y buttonMask ticks).state.icons =
      fun i => { s.icons i with selected := selectedAfter s x y buttonMask i } := by
  by_cases hleft : Left buttonMask
  · rw [h.leftClick x y ticks hleft]
    unfold IconsState.select selectedAfter
    simp only [if_pos hleft]
  · rw [(iconsHandleClick_of_not_left hleft).1]
    unfold selectedAfter
    simp only [if_neg hleft]

/-- Another selection is seen in the frames of the icons. -/
theorem iconsLayer_of_selected {s t : IconsState} {f : Fin iconsMaxIcons → Bool}
    (ht : t.icons = fun i => { s.icons i with selected := f i }) (p : Point) :
    iconsLayer t p = (s.iconAt (.ofNat p.1.val) (.ofNat p.2.val)).bind fun i =>
      if OnScreen i then some ((iconBody (s.icons i) i p).getD (frameColor (f i))) else none := by
  unfold iconsLayer IconsState.iconAt
  rw [ht]
  rfl

theorem picture_apply (g : Gui) (p : Point) :
    g.picture p = ((taskbarLayer.above (menusLayer g.menus)).above (iconsLayer g.icons)).onto
      ((windowsLayer g.wm).onto fun _ => 0xFF101820) p := by
  rw [Layer.onto_above, Layer.onto_above]
  rfl

/-- After a click the frames that are seen show the new selection, and nothing else has
changed. -/
theorem picture_click {g : Gui} (h : IconsUp g.icons) (x y : Int32) (buttonMask : UInt8)
    (ticks : UInt64) (p : Point) :
    (desktopHandleClick g x y buttonMask ticks).picture p =
      (g.frameAt p).elim (g.picture p) fun i =>
        frameColor (selectedAfter g.icons x y buttonMask i) := by
  have hafter := iconsLayer_of_selected (h.icons_click x y buttonMask ticks) p
  have hbefore := iconsLayer_of_selected (s := g.icons) (t := g.icons)
    (f := fun i => (g.icons.icons i).selected) rfl p
  rw [picture_apply, picture_apply]
  show ((taskbarLayer.above (menusLayer g.menus)).above (iconsLayer
      (iconsHandleClick g.icons x y buttonMask ticks).state) p).getD
        ((windowsLayer g.wm).onto (fun _ => 0xFF101820) p) =
    (g.frameAt p).elim (((taskbarLayer.above (menusLayer g.menus)).above (iconsLayer g.icons) p).getD
      ((windowsLayer g.wm).onto (fun _ => 0xFF101820) p)) _
  unfold Gui.frameAt
  cases htop : (taskbarLayer.above (menusLayer g.menus)) p with
  | some c =>
      rw [Layer.above_apply_of_some htop, Layer.above_apply_of_some htop, if_neg nofun]
      rfl
  | none =>
      rw [Layer.above_apply_of_none htop, Layer.above_apply_of_none htop, if_pos rfl, hafter,
        hbefore]
      cases g.icons.iconAt (.ofNat p.1.val) (.ofNat p.2.val) with
      | none => rfl
      | some i =>
          rw [Option.bind_some, Option.bind_some]
          by_cases hshown : OnScreen i
          · rw [if_pos hshown, if_pos hshown]
            cases hbody : iconBody (g.icons.icons i) i p with
            | some c => simp [Option.filter, hbody]
            | none => simp [Option.filter, hbody, hshown]
          · simp [Option.filter, hshown]

/-- After every sequence of calls a click and the command it runs leave the graphics up, and the
next rendering shows their picture.  A click that runs no command changes on the screen only the
frames of the icons: a left click puts the highlight on the icon it hits and takes it from all
others. -/
theorem click_repaints (run : List UInt8 → List GuiCall) (calls : List GuiCall) (x y : Int32)
    (buttonMask : UInt8) (ticks : UInt64) :
    ∃ g, guiRun calls = some g ∧ ∃ t u t', desktopRender g = some t ∧
      desktopClick run t x y buttonMask ticks = some u ∧ desktopRender u = some t' ∧
      (∀ p, t'.fb.px p = u.picture p) ∧
      (clickCommand g.icons x y buttonMask ticks = none →
        ∀ p, t'.fb.px p = (g.frameAt p).elim (t.fb.px p) fun i =>
          frameColor (selectedAfter g.icons x y buttonMask i)) := by
  obtain ⟨g, hrun, hg⟩ := running_guiRun calls
  obtain ⟨fb, hrender, hfb, hpx⟩ := hg.render
  have ht : Running (releaseStart (g.withFb fb)) := (hg.setFb hfb).releaseStart
  obtain ⟨u, hclick, hu⟩ := ht.desktopClick run x y buttonMask ticks
  obtain ⟨fb', hrender', -, hpx'⟩ := hu.render
  have hshown : (releaseStart (u.withFb fb')).fb.px = u.picture := by
    obtain ⟨buttons, hbuttons⟩ := releaseStart_eq (u.withFb fb')
    rw [hbuttons]
    exact hpx'
  refine ⟨g, hrun, _, u, _, hrender, hclick, hrender', fun p => congrFun hshown p,
    fun hnone p => ?_⟩
  obtain ⟨buttons, hbuttons⟩ := releaseStart_eq (g.withFb fb)
  have hicons : (releaseStart (g.withFb fb)).icons = g.icons := by
    rw [hbuttons]
    rfl
  rw [← hicons] at hnone
  rw [desktopClick_of_none run hnone] at hclick
  have hpicture := picture_click ht.iconsUp x y buttonMask ticks p
  rw [hshown, ← Option.some.inj hclick, hpicture, hbuttons]
  show (g.frameAt p).elim (g.picture p) _ = (g.frameAt p).elim (fb.px p) _
  rw [hpx]
  rfl

end AcharyaOS.Desktop
