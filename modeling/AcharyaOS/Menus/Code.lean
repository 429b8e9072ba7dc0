import AcharyaOS.Window.Code

/-!
# The menu code

The functions of `gui/menu.c` on its static variables, above the window manager and the
framebuffer.  `none` stands for a write outside the framebuffer.
-/

namespace AcharyaOS.Menus

open Foundation Framebuffer Window

abbrev menuMaxMenus : Nat := 8

abbrev menuTitleMax : Nat := 24

abbrev menuItemMax : Nat := 8

abbrev menuItemTextMax : Nat := 24

def menuBarHeight : UInt32 := 22

/-- `menu_item_t`, with its text. -/
structure MenuItem where
  text : List UInt8
  actionId : UInt32

/-- `menu_t`, with the title as text. -/
structure Menu where
  used : Bool
  id : UInt32
  windowId : UInt32
  x : UInt32
  y : UInt32
  width : UInt32
  itemHeight : UInt32
  titleColor : UInt32
  itemColor : UInt32
  highlightColor : UInt32
  title : List UInt8
  itemCount : UInt64
  items : Fin menuItemMax → MenuItem

def Menu.zero : Menu := ⟨false, 0, 0, 0, 0, 0, 0, 0, 0, 0, [], 0, fun _ => ⟨[], 0⟩⟩

/-- `menu_stats_t`. -/
structure MenuStats where
  menuCount : UInt64
  nextMenuId : UInt32
  activeMenuId : UInt32

/-- The static variables of `menu.c`. -/
structure MenuState where
  menuItems : Fin menuMaxMenus → Menu
  stats : MenuStats
  isReady : Bool

def menuFind (s : MenuState) (id : UInt32) : Option (Fin menuMaxMenus) :=
  firstSlot fun i => (s.menuItems i).used && (s.menuItems i).id == id

/-- `menu_copy_text`, to an array of `size` bytes that is not empty; a null text is `none`. -/
def menuCopyText (size : Nat) (src : Option CString) : List UInt8 :=
  src.elim [] fun src => src.bytes.take (size - 1)

/-- `menu_init`, given what `fb_ready` and `wm_ready` say. -/
def menuInit (fbReady wmReady : Bool) : MenuState where
  menuItems := fun _ => .zero
  stats := ⟨0, 1, 0⟩
  isReady := fbReady && wmReady

def menuReady (s : MenuState) (fbReady : Bool) : Bool := s.isReady && fbReady

/-- The menu that `menu_create` puts into a free slot. -/
def newMenu (id windowId : UInt32) (title : Option CString) (x y width : UInt32) : Menu where
  used := true
  id := id
  windowId := windowId
  x := x
  y := y
  width := width
  itemHeight := 18
  titleColor := 0xFF334155
  itemColor := 0xFFE2E8F0
  highlightColor := 0xFF94A3B8
  title := menuCopyText menuTitleMax (some (title.getD (.read (asciiText "menu"))))
  itemCount := 0
  items := fun _ => ⟨[], 0⟩

def menuCreate (s : MenuState) (fbReady : Bool) (windowId : UInt32) (title : Option CString)
    (x y width : UInt32) : MenuState × UInt32 :=
  if !menuReady s fbReady || width < 60 then (s, 0)
  else
    match firstSlot fun i => !(s.menuItems i).used with
    | none => (s, 0)
    | some slot =>
        let id := s.stats.nextMenuId
        ({ s with
            menuItems := Function.update s.menuItems slot (newMenu id windowId title x y width)
            stats :=
              { menuCount := s.stats.menuCount + 1
                nextMenuId := id + 1
                activeMenuId := if s.stats.activeMenuId == 0 then id else s.stats.activeMenuId } },
          id)

/-- `menu_add_item` behind the search for the menu. -/
def addItem (menu : Menu) (text : Option CString) (actionId : UInt32) : Option Menu :=
  if h : menu.itemCount.toNat < menuItemMax then
    some { menu with
      items := Function.update menu.items ⟨menu.itemCount.toNat, h⟩
        ⟨menuCopyText menuItemTextMax text, actionId⟩
      itemCount := menu.itemCount + 1 }
  else none

def menuAddItem (s : MenuState) (menuId : UInt32) (text : Option CString) (actionId : UInt32) :
    MenuState × Int :=
  match menuFind s menuId with
  | none => (s, -1)
  | some i =>
      match addItem (s.menuItems i) text actionId with
      | none => (s, -1)
      | some menu => ({ s with menuItems := Function.update s.menuItems i menu }, 0)

def menuSetActive (s : MenuState) (menuId : UInt32) : MenuState × Int :=
  match menuFind s menuId with
  | none => (s, -1)
  | some _ => ({ s with stats := { s.stats with activeMenuId := menuId } }, 0)

def menuDrawOne (active : UInt32) (fb : FbState) (menu : Menu) : Option FbState := do
  if !menu.used then return fb
  let fb ← fill fb menu.x menu.y menu.width menuBarHeight menu.titleColor
  let bodyH := (menu.itemCount * menu.itemHeight.toUInt64).toUInt32
  let fb ←
    if bodyH > 0 then fill fb menu.x (menu.y + menuBarHeight) menu.width bodyH menu.itemColor
    else some fb
  if active == menu.id then fill fb menu.x menu.y menu.width 2 menu.highlightColor
  else return fb

def menuRender (s : MenuState) (fb : FbState) : Option FbState :=
  if !menuReady s (fbReady fb) then some fb
  else
    (((List.finRange menuMaxMenus).map s.menuItems).filter Menu.used).foldlM
      (menuDrawOne s.stats.activeMenuId) fb

/-- The menus of `menu_demo_layout`. -/
def menuDemoMenus (s : MenuState) (fbReady : Bool) : MenuState :=
  let text (name : String) : Option CString := some (.read (asciiText name))
  let (s, fileMenu) := menuCreate s fbReady 0 (text "File") 20 20 110
  let (s, editMenu) := menuCreate s fbReady 0 (text "Edit") 140 20 110
  let s := (menuAddItem s fileMenu (text "New") 1).1
  let s := (menuAddItem s fileMenu (text "Open") 2).1
  let s := (menuAddItem s fileMenu (text "Save") 3).1
  let s := (menuAddItem s editMenu (text "Copy") 4).1
  let s := (menuAddItem s editMenu (text "Paste") 5).1
  { s with stats := { s.stats with activeMenuId := fileMenu } }

/-- `menu_demo_layout`; it paints the windows too. -/
def menuDemoLayout (wm : WmState) : Option (MenuState × WmState) :=
  let s := menuInit (fbReady wm.fb) (wmReady wm)
  if !menuReady s (fbReady wm.fb) then some (s, wm)
  else do
    let s := menuDemoMenus s (fbReady wm.fb)
    let fb ← fbClear wm.fb 0xFF0F172A
    let wm ← wmRender { wm with fb := fb }
    let fb ← menuRender s wm.fb
    return (s, { wm with fb := fb })

end AcharyaOS.Menus
