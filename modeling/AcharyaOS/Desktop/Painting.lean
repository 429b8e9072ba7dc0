import AcharyaOS.Desktop.Code
import AcharyaOS.Foundation.Painting
import AcharyaOS.Framebuffer.Fill
import AcharyaOS.Icons.Clicks

/-!
# What the widgets draw

Whatever its arguments are, a fill shows a rectangle that lies inside the framebuffer and
nothing otherwise.  A widget is a stack of such rectangles.
-/

namespace AcharyaOS.Desktop

open Foundation Framebuffer Window Menus Button Icons

instance (x y width height : UInt32) : Decidable (Inside x y width height) :=
  inferInstanceAs (Decidable (_ ∧ _))

/-- A drawing on the framebuffer. -/
abbrev Draws (l : Layer Point UInt32) (draw : FbState → Option FbState) : Prop :=
  Paints Initialised FbState.px l draw

/-! ## Rectangles -/

/-- A rectangle, if it lies inside. -/
def rect (x y width height color : UInt32) : Layer Point UInt32 :=
  .region (fun p => Inside x y width height ∧
    Between x.toNat (x.toNat + width.toNat) y.toNat (y.toNat + height.toNat) p) fun _ => color

theorem rect_of_not_inside {x y width height : UInt32} (h : ¬ Inside x y width height)
    (color : UInt32) : rect x y width height color = .clear := by
  funext p
  exact Layer.region_apply_of_neg (fun hp => h hp.1) _

/-- A rectangle given by numbers. -/
def box (a b w h : Nat) (color : UInt32) : Layer Point UInt32 :=
  .region (fun p => (a + w ≤ fbWidth ∧ b + h ≤ fbHeight) ∧ Between a (a + w) b (b + h) p)
    fun _ => color

theorem rect_eq_box {x y width height : UInt32} {a b w h : Nat} (hx : x.toNat = a)
    (hy : y.toNat = b) (hw : width.toNat = w) (hh : height.toNat = h) (hsize : 0 < w ∧ 0 < h)
    (color : UInt32) : rect x y width height color = box a b w h color := by
  have hwidth : width ≠ 0 := by
    rintro rfl
    rw [UInt32.toNat_zero] at hw
    omega
  have hheight : height ≠ 0 := by
    rintro rfl
    rw [UInt32.toNat_zero] at hh
    omega
  have hinside : Inside x y width height ↔ a + w ≤ fbWidth ∧ b + h ≤ fbHeight := by
    unfold Inside
    rw [hx, hy, hw, hh, and_iff_right hwidth, and_iff_right hheight]
  funext p
  unfold rect box Layer.region
  rw [hx, hy, hw, hh]
  exact if_congr (and_congr_left' hinside) rfl rfl

/-- The ends of a rectangle that is accepted because it wraps are in front of its start. -/
theorem not_between_of_wraps {x y width height : UInt32} (hchecked : Checked x y width height)
    (h : ¬ Inside x y width height) (p : Point) :
    ¬ Between x.toNat ((x.toNat + width.toNat) % 2 ^ 32) y.toNat
      ((y.toNat + height.toNat) % 2 ^ 32) p := by
  obtain ⟨hwidth, hheight, hstart, hends⟩ := hchecked
  have hx := x.toNat_lt
  have hy := y.toNat_lt
  have hw := width.toNat_lt
  have hh := height.toNat_lt
  have hbeyond : ¬ (x.toNat + width.toNat ≤ fbWidth ∧ y.toNat + height.toNat ≤ fbHeight) :=
    fun hin => h ⟨hwidth, hheight, hin⟩
  unfold fbWidth fbHeight at hbeyond hends
  unfold Between
  omega

theorem fill_draws (x y width height color : UInt32) :
    Draws (rect x y width height color) fun s => fill s x y width height color := by
  intro s hs
  by_cases hin : Inside x y width height
  · obtain ⟨t, hcall, hpaint⟩ := fbFillRect_inside hs hin color
    refine ⟨t, ?_, hs.of_info hpaint.1, ?_⟩
    · show (fbFillRect s x y width height color).map Prod.fst = some t
      rw [hcall, Option.map_some]
    · funext p
      rw [hpaint.2 p, rect, Layer.onto_region]
      exact if_congr (and_iff_right hin).symm rfl rfl
  · rw [rect_of_not_inside hin]
    rcases fbFillRect_spec hs x y width height color with ⟨-, hcall⟩ | ⟨hchecked, t, hcall, hpaint⟩
    · refine ⟨s, ?_, hs, rfl⟩
      show (fbFillRect s x y width height color).map Prod.fst = some s
      rw [hcall, Option.map_some]
    · refine ⟨t, ?_, hs.of_info hpaint.1, ?_⟩
      · show (fbFillRect s x y width height color).map Prod.fst = some t
        rw [hcall, Option.map_some]
      · funext p
        rw [hpaint.2 p, if_neg (not_between_of_wraps hchecked hin p)]
        rfl

theorem fbClear_draws (color : UInt32) :
    Draws (fun _ => some color) fun s => fbClear s color := by
  intro s hs
  obtain ⟨t, ht, hinit, hpx⟩ := fbClear_spec hs color
  refine ⟨t, ht, hinit, ?_⟩
  funext p
  exact hpx p

/-! ## Windows and menus -/

/-- The border, the client area and the title of a window.  A window that wraps has no title. -/
def windowLayer (w : WmWindow) : Layer Point UInt32 :=
  let innerW := trimmed w.width (wmBorderThickness * 2)
  let client := rect (w.x + wmBorderThickness) (w.y + wmTitleHeight) innerW
    (trimmed w.height (wmTitleHeight + wmBorderThickness)) w.clientColor
  let title :=
    if w.x + w.width > w.x && w.y + w.height > w.y && innerW > 0 then
      rect (w.x + wmBorderThickness) (w.y + wmBorderThickness) innerW
        (wmTitleHeight - wmBorderThickness) w.titleColor
    else .clear
  (title.above client).above (rect w.x w.y w.width w.height w.borderColor)

/-- A rectangle that is empty under a condition need not be left out under it. -/
theorem ite_rect {p : Prop} [Decidable p] {x y width height : UInt32}
    (h : 0 < width → 0 < height → p) (color : UInt32) :
    (if p then rect x y width height color else .clear) = rect x y width height color := by
  by_cases hp : p
  · exact if_pos hp
  · rw [if_neg hp]
    refine (rect_of_not_inside ?_ color).symm
    rintro ⟨hwidth, hheight, -⟩
    exact hp (h (UInt32.pos_iff_ne_zero.mpr hwidth) (UInt32.pos_iff_ne_zero.mpr hheight))

theorem wmDrawWindow_draws {w : WmWindow} (hused : w.used = true) :
    Draws (windowLayer w) fun s => wmDrawWindow s w := by
  have hborder := fill_draws w.x w.y w.width w.height w.borderColor
  have hclient := fill_draws (w.x + wmBorderThickness) (w.y + wmTitleHeight)
    (trimmed w.width (wmBorderThickness * 2))
    (trimmed w.height (wmTitleHeight + wmBorderThickness)) w.clientColor
  have htitle := Paints.ite (p := (w.x + w.width > w.x && w.y + w.height > w.y &&
      trimmed w.width (wmBorderThickness * 2) > 0) = true)
    (fill_draws (w.x + wmBorderThickness) (w.y + wmBorderThickness)
      (trimmed w.width (wmBorderThickness * 2)) (wmTitleHeight - wmBorderThickness) w.titleColor)
  have hroom : 0 < trimmed w.width (wmBorderThickness * 2) →
      0 < trimmed w.height (wmTitleHeight + wmBorderThickness) →
      (trimmed w.width (wmBorderThickness * 2) > 0 &&
        trimmed w.height (wmTitleHeight + wmBorderThickness) > 0) = true := by
    intro hwidth hheight
    rw [Bool.and_eq_true, decide_eq_true_iff, decide_eq_true_iff]
    exact ⟨hwidth, hheight⟩
  have hinner := hclient.ite_bind (p := (trimmed w.width (wmBorderThickness * 2) > 0 &&
    trimmed w.height (wmTitleHeight + wmBorderThickness) > 0) = true) htitle
  refine (hborder.bind hinner).congr ?_ fun s => ?_
  · unfold windowLayer
    rw [ite_rect hroom]
  · unfold wmDrawWindow
    rw [hused]
    rfl

def windows (s : WmState) : List WmWindow :=
  ((List.finRange wmMaxWindows).map s.windows).filter WmWindow.used

/-- The rows that mark the active window. -/
def markLayer (s : WmState) : Layer Point UInt32 :=
  if s.stats.activeWindowId == 0 then .clear
  else (wmFind s s.stats.activeWindowId).elim .clear fun i =>
    rect (s.windows i).x (s.windows i).y (s.windows i).width 3 0xFFF2C14E

/-- All windows, the later ones in front, with the mark in front of all. -/
def windowsLayer (s : WmState) : Layer Point UInt32 :=
  (markLayer s).above (.stack ((windows s).map windowLayer))

theorem windows_draw (s : WmState) :
    Draws (.stack ((windows s).map windowLayer)) fun fb => wmDrawAll fb (windows s) :=
  Paints.foldlM (windows s) fun _ hw => wmDrawWindow_draws (List.mem_filter.mp hw).2

/-- `wm_render` shows the windows before its background. -/
theorem wmRender_windows {s : WmState} (hready : s.isReady = true) (hs : Initialised s.fb) :
    ∃ fb, wmRender s = some { s with fb := fb } ∧ Initialised fb ∧
      ∀ p, fb.px p = (windowsLayer s).onto (fun _ => 0xFF101820) p := by
  have hwm : ¬ (!wmReady s) = true := by
    unfold wmReady fbReady
    rw [hready, hs.ready]
    decide
  obtain ⟨fb, hfb, hinit, hpx⟩ := (fbClear_draws 0xFF101820).bind (windows_draw s) s.fb hs
  obtain ⟨fb1, hclear, hall⟩ := Option.bind_eq_some_iff.mp hfb
  have hwindows : fb.px = (Layer.stack ((windows s).map windowLayer)).onto fun _ => 0xFF101820 := by
    rw [hpx, Layer.onto_above]
    rfl
  unfold windows at hall
  unfold windowsLayer
  rw [Layer.onto_above, ← hwindows]
  unfold markLayer wmRender
  by_cases hzero : (s.stats.activeWindowId == 0) = true
  · refine ⟨fb, ?_, hinit, fun p => ?_⟩
    · simp only [if_neg hwm, hclear, hall, if_pos hzero, bind, pure, Option.bind_some]
    · rw [if_pos hzero, Layer.onto_clear]
  · rw [if_neg hzero]
    cases hfind : wmFind s s.stats.activeWindowId with
    | none =>
        refine ⟨fb, ?_, hinit, fun p => ?_⟩
        · simp only [if_neg hwm, hclear, hall, if_neg hzero, bind, pure, Option.bind_some]
        · rw [Option.elim_none, Layer.onto_clear]
    | some i =>
        obtain ⟨fb2, hmark, hinit2, hpx2⟩ := fill_draws (s.windows i).x (s.windows i).y
          (s.windows i).width 3 0xFFF2C14E fb hinit
        refine ⟨fb2, ?_, hinit2, fun p => ?_⟩
        · simp only [if_neg hwm, hclear, hall, if_neg hzero, hmark, bind, pure,
            Option.bind_some]
        · rw [hpx2, Option.elim_some]

/-- The bar, the body and, for the active menu, the stripe of a menu. -/
def menuLayer (active : UInt32) (menu : Menu) : Layer Point UInt32 :=
  let bodyH := (menu.itemCount * menu.itemHeight.toUInt64).toUInt32
  let stripe :=
    if active == menu.id then rect menu.x menu.y menu.width 2 menu.highlightColor else .clear
  (stripe.above (rect menu.x (menu.y + menuBarHeight) menu.width bodyH menu.itemColor)).above
    (rect menu.x menu.y menu.width menuBarHeight menu.titleColor)

theorem menuDrawOne_draws (active : UInt32) {menu : Menu} (hused : menu.used = true) :
    Draws (menuLayer active menu) fun fb => menuDrawOne active fb menu := by
  have hbar := fill_draws menu.x menu.y menu.width menuBarHeight menu.titleColor
  have hbody := fill_draws menu.x (menu.y + menuBarHeight) menu.width
    (menu.itemCount * menu.itemHeight.toUInt64).toUInt32 menu.itemColor
  have hstripe := Paints.ite (p := (active == menu.id) = true)
    (fill_draws menu.x menu.y menu.width 2 menu.highlightColor)
  refine (hbar.bind (hbody.ite_bind
    (p := (menu.itemCount * menu.itemHeight.toUInt64).toUInt32 > 0) hstripe)).congr ?_ fun s => ?_
  · unfold menuLayer
    rw [ite_rect fun _ hheight => hheight]
  · unfold menuDrawOne
    rw [hused]
    rfl

def menus (s : MenuState) : List Menu :=
  ((List.finRange menuMaxMenus).map s.menuItems).filter Menu.used

/-- All menus, the later ones in front. -/
def menusLayer (s : MenuState) : Layer Point UInt32 :=
  .stack ((menus s).map (menuLayer s.stats.activeMenuId))

theorem menuRender_draws {s : MenuState} (hready : s.isReady = true) :
    Draws (menusLayer s) (menuRender s) := by
  intro fb hfb
  have hmenus : ¬ (!menuReady s (fbReady fb)) = true := by
    unfold menuReady fbReady
    rw [hready, hfb.ready]
    decide
  have hall := Paints.foldlM (menus s) (fun _ hm =>
    menuDrawOne_draws s.stats.activeMenuId (List.mem_filter.mp hm).2) fb hfb
  unfold menuRender
  rw [if_neg hmenus]
  exact hall

/-! ## Icons -/

/-- The corner of the cell of an icon. -/
def left (i : Fin iconsMaxIcons) : Nat := 16 + i.val % 4 * 92

def top (i : Fin iconsMaxIcons) : Nat := 16 + i.val / 4 * 100

/-- Of the four columns of cells three have room on the screen, of the four rows two. -/
def OnScreen (i : Fin iconsMaxIcons) : Prop := i.val % 4 < 3 ∧ i.val / 4 < 2

instance : DecidablePred OnScreen := fun i =>
  inferInstanceAs (Decidable (i.val % 4 < 3 ∧ i.val / 4 < 2))

def Cell (i : Fin iconsMaxIcons) (p : Point) : Prop :=
  Between (left i) (left i + 76) (top i) (top i + 84) p

instance (i : Fin iconsMaxIcons) : DecidablePred (Cell i) := fun p =>
  inferInstanceAs (Decidable (Between _ _ _ _ p))

/-- What is in front of the frame: the box for the label, if there is one, and the glyph with
a square in it. -/
def iconBody (icon : Icon) (i : Fin iconsMaxIcons) (p : Point) : Option UInt32 :=
  if icon.label ≠ [] ∧ Between (left i) (left i + 76) (top i + 52) (top i + 68) p then
    some 0xFF1D3557
  else if Between (left i + 16) (left i + 32) (top i + 16) (top i + 32) p then some 0xFFF1FAEE
  else if Between (left i + 4) (left i + 52) (top i + 4) (top i + 52) p then some icon.color
  else none

def frameColor (selected : Bool) : UInt32 := if selected then 0xFFF4A261 else 0xFF0B1320

/-- The colour of an icon at a point of its cell. -/
def iconColor (icon : Icon) (i : Fin iconsMaxIcons) (p : Point) : UInt32 :=
  (iconBody icon i p).getD (frameColor icon.selected)

def iconLayer (icon : Icon) (i : Fin iconsMaxIcons) : Layer Point UInt32 :=
  .region (fun p => OnScreen i ∧ Cell i p) (iconColor icon i)

/-- A rectangle in the cell of an icon, shown if the cell is on the screen. -/
def cellPart (i : Fin iconsMaxIcons) (dx dy width height : Nat) (color : UInt32) :
    Layer Point UInt32 :=
  .region (fun p => OnScreen i ∧
    Between (left i + dx) (left i + dx + width) (top i + dy) (top i + dy + height) p) fun _ => color

/-- It is long enough to lie outside with the cell. -/
def FitsCell (dx dy width height : UInt32) : Prop :=
  0 < height.toNat ∧ 29 ≤ dx.toNat + width.toNat ∧ dx.toNat + width.toNat ≤ 76 ∧
    dx.toNat < dx.toNat + width.toNat ∧ dy.toNat + height.toNat ≤ 84

instance (dx dy width height : UInt32) : Decidable (FitsCell dx dy width height) :=
  inferInstanceAs (Decidable (_ ∧ _))

section Place

variable {i : Fin iconsMaxIcons} {icon : Icon} (h : Placed i icon)

include h

theorem rect_in_cell {dx dy width height : UInt32} (hfits : FitsCell dx dy width height)
    (color : UInt32) : rect (icon.x + dx) (icon.y + dy) width height color =
      cellPart i dx.toNat dy.toNat width.toNat height.toNat color := by
  obtain ⟨hhigh, hlong, hright, hwide, hbottom⟩ := hfits
  have hi : i.val < 16 := i.isLt
  have hx : (icon.x + dx).toNat = left i + dx.toNat := by
    rw [UInt32.toNat_add, h.x_eq, UInt32.toNat_ofNat']
    unfold left
    omega
  have hy : (icon.y + dy).toNat = top i + dy.toNat := by
    rw [UInt32.toNat_add, h.y_eq, UInt32.toNat_ofNat']
    unfold top
    omega
  have hroom : left i + dx.toNat + width.toNat ≤ fbWidth ∧
      top i + dy.toNat + height.toNat ≤ fbHeight ↔ OnScreen i := by
    unfold OnScreen fbWidth fbHeight left top
    omega
  rw [rect_eq_box hx hy rfl rfl ⟨by omega, hhigh⟩]
  funext p
  exact if_congr (and_congr_left' hroom) rfl rfl

theorem fill_in_cell (dx dy width height : UInt32) (hfits : FitsCell dx dy width height)
    (color : UInt32) : Draws (cellPart i dx.toNat dy.toNat width.toNat height.toNat color)
      fun s => fill s (icon.x + dx) (icon.y + dy) width height color := by
  rw [← rect_in_cell h hfits]
  exact fill_draws _ _ _ _ _

theorem drawLabel_draws : Draws
    (.region (fun p => icon.label ≠ [] ∧ OnScreen i ∧
      Between (left i) (left i + 76) (top i + 52) (top i + 68) p) fun _ => 0xFF1D3557)
    fun fb => drawLabel fb icon.x (icon.y + iconGlyphH + 4) icon.label := by
  have hbox := fill_in_cell h 0 52 iconCellW iconLabelH (by decide) iconTextBg
  have hinner := fill_in_cell h 2 54 (iconCellW - 4) (iconLabelH - 4) (by decide) iconBg
  have hy : icon.y + iconGlyphH + 4 = icon.y + 52 := UInt32.add_assoc ..
  have hy' : icon.y + 52 + 2 = icon.y + 54 := UInt32.add_assoc ..
  unfold drawLabel
  rw [hy, hy']
  by_cases hlabel : icon.label = []
  · refine Paints.nothing.congr (funext fun p => ?_) fun fb => ?_
    · exact (Layer.region_apply_of_neg (fun hp => hp.1 hlabel) _).symm
    · rw [hlabel]
      rfl
  · have hlength : ¬ (icon.label.length == 0) = true := by
      rw [beq_iff_eq, List.length_eq_zero_iff]
      exact hlabel
    have hinside : ∀ p, OnScreen i ∧ Between (left i + 2) (left i + 2 + 72) (top i + 54)
        (top i + 54 + 12) p →
        OnScreen i ∧ Between (left i) (left i + 76) (top i + 52) (top i + 68) p := by
      rintro p ⟨hshown, hp⟩
      refine ⟨hshown, ?_⟩
      unfold Between at hp ⊢
      omega
    refine (hbox.bind hinner).congr ((Layer.region_above_region hinside _).trans ?_) fun fb => ?_
    · funext p
      exact if_congr (and_iff_right hlabel).symm rfl rfl
    · rw [if_neg hlength, UInt32.add_zero]
      rfl

theorem drawIcon_draws : Draws (iconLayer icon i) fun fb => drawIcon fb icon := by
  have hframe := fill_in_cell h 0 0 iconCellW iconCellH (by decide) (frameColor icon.selected)
  have hglyph := fill_in_cell h 4 4 iconGlyphW iconGlyphH (by decide) icon.color
  have hdot := fill_in_cell h 16 16 16 16 (by decide) 0xFFF1FAEE
  have hlabel := drawLabel_draws h
  refine (hframe.bind (hglyph.bind (hdot.bind hlabel))).congr (funext fun p => ?_) fun fb => ?_
  · rw [Layer.above_assoc, Layer.above_assoc, Layer.region_above]
    unfold cellPart
    rw [Layer.region_above, Layer.region_above]
    unfold iconLayer Layer.region iconColor iconBody
    by_cases hshown : OnScreen i
    · have hcell : (icon.label ≠ [] ∧
            Between (left i) (left i + 76) (top i + 52) (top i + 68) p ∨
          Between (left i + 16) (left i + 32) (top i + 16) (top i + 32) p ∨
          Between (left i + 4) (left i + 52) (top i + 4) (top i + 52) p) → Cell i p := by
        unfold Cell Between
        omega
      simp only [hshown, true_and]
      show (if icon.label ≠ [] ∧ Between (left i) (left i + 76) (top i + 52) (top i + 68) p then
          some 0xFF1D3557
        else if Between (left i + 16) (left i + 32) (top i + 16) (top i + 32) p then some 0xFFF1FAEE
        else if Between (left i + 4) (left i + 52) (top i + 4) (top i + 52) p then some icon.color
        else if Cell i p then some (frameColor icon.selected) else none) = _
      by_cases hp : Cell i p
      · rw [if_pos hp, if_pos hp]
        split
        · rfl
        · split
          · rfl
          · split
            · rfl
            · rfl
      · rw [if_neg fun hbad => hp (hcell (.inl hbad)),
          if_neg fun hbad => hp (hcell (.inr (.inl hbad))),
          if_neg fun hbad => hp (hcell (.inr (.inr hbad))), if_neg hp, if_neg hp]
    · simp only [hshown, false_and, and_false, if_false]
  · unfold drawIcon
    rw [UInt32.add_zero, UInt32.add_zero]
    rfl

end Place

/-- What is seen of the icons at a point is told by the test for clicks. -/
def iconsLayer (s : IconsState) : Layer Point UInt32 := fun p =>
  (s.iconAt (.ofNat p.1.val) (.ofNat p.2.val)).bind fun i =>
    if OnScreen i then some (iconColor (s.icons i) i p) else none

theorem Placed.cell_iff {i : Fin iconsMaxIcons} {icon : Icon} (h : Placed i icon) (p : Point) :
    inIcon icon (.ofNat p.1.val) (.ofNat p.2.val) = true ↔ Cell i p := by
  have hx : p.1.val < 320 := p.1.isLt
  have hy : p.2.val < 200 := p.2.isLt
  rw [h.inIcon_iff, Int32.toInt_ofNat_of_lt (by omega), Int32.toInt_ofNat_of_lt (by omega)]
  unfold Cell Between left top
  omega

section Icons

variable {t : Tracked} {count : Nat} (h : Follows t count)

include h

theorem hits_iff {i : Fin iconsMaxIcons} (p : Point) :
    t.s.Hits i (.ofNat p.1.val) (.ofNat p.2.val) ↔ (t.s.icons i).used = true ∧ Cell i p :=
  and_congr_right fun hused => Placed.cell_iff (h.placed i hused) p

theorem iconsLayer_eq : iconsLayer t.s =
    .stack (((List.finRange iconsMaxIcons).filter fun i => (t.s.icons i).used).map fun i =>
      iconLayer (t.s.icons i) i) := by
  funext p
  unfold iconsLayer
  cases hat : t.s.iconAt (.ofNat p.1.val) (.ofNat p.2.val) with
  | none =>
      refine (Layer.stack_eq_none fun l hl => ?_).symm
      obtain ⟨i, hi, rfl⟩ := List.mem_map.mp hl
      refine Layer.region_apply_of_neg (fun hp => ?_) _
      have hhit := (hits_iff h p).mpr ⟨(List.mem_filter.mp hi).2, hp.2⟩
      rw [h.iconAt_eq_some_iff.mpr hhit] at hat
      cases hat
  | some i =>
      have hhit := h.iconAt_eq_some_iff.mp hat
      obtain ⟨hused, hcell⟩ := (hits_iff h p).mp hhit
      have hmem : i ∈ (List.finRange iconsMaxIcons).filter fun i => (t.s.icons i).used :=
        List.mem_filter.mpr ⟨List.mem_finRange i, hused⟩
      rw [Layer.stack_map_of_unique hmem]
      · exact if_congr (and_iff_left hcell).symm rfl rfl
      · intro j hj hne
        have hshown : OnScreen j ∧ Cell j p := by
          by_contra hno
          exact hne (if_neg hno)
        exact h.apart ((hits_iff h p).mpr ⟨(List.mem_filter.mp hj).2, hshown.2⟩) hhit

theorem iconsRender_draws (hready : iconsReady t.s = true) :
    Draws (iconsLayer t.s) (iconsRender t.s) := by
  have hguard : ¬ (!iconsReady t.s) = true := by
    rw [hready]
    decide
  have hall : Draws (iconsLayer t.s) fun fb =>
      ((List.finRange iconsMaxIcons).filter fun i => (t.s.icons i).used).foldlM
        (fun fb i => drawIcon fb (t.s.icons i)) fb := by
    rw [iconsLayer_eq h]
    exact Paints.foldlM _ fun i hi => drawIcon_draws (h.placed i (List.mem_filter.mp hi).2)
  refine hall.congr rfl fun fb => ?_
  unfold iconsRender
  rw [if_neg hguard]

end Icons

/-! ## Buttons and the taskbar -/

theorem btnDrawOne_draws {btn : Btn} (hused : btn.used = true) :
    ∃ l, Draws l fun fb => btnDrawOne fb btn := by
  have hborder := fill_draws btn.x btn.y btn.width btn.height btn.borderColor
  by_cases hsmall : (btn.width ≤ 2 || btn.height ≤ 2) = true
  · refine ⟨_, hborder.congr rfl fun fb => ?_⟩
    unfold btnDrawOne
    simp only [hused, Bool.not_true, Bool.false_eq_true, if_false, hsmall, if_true, bind, pure,
      Option.bind_fun_some]
  · have hface := fill_draws (btn.x + 1) (btn.y + 1) (btn.width - 2) (btn.height - 2)
      (if btn.pressed then btn.pressedColor else btn.fillColor)
    have htext := Paints.ite (p := (btn.width - 2 > btnPadding * 2 &&
        btn.height - 2 > btnPadding * 2) = true)
      (fill_draws (btn.x + 1 + btnPadding) (btn.y + 1 + btnPadding)
        (btn.width - 2 - btnPadding * 2) (btn.height - 2 - btnPadding * 2) btn.textColor)
    refine ⟨_, (hborder.bind (hface.bind htext)).congr rfl fun fb => ?_⟩
    unfold btnDrawOne
    simp only [hused, Bool.not_true, Bool.false_eq_true, if_false, hsmall, bind, pure]

/-- The start button is on the left end of the bar, the clock on the right end. -/
def taskbarColor (x : Nat) : UInt32 :=
  if x < 84 then 0xFF2A9D8F else if 248 ≤ x then 0xFF243447 else 0xFF10151F

def taskbarLayer : Layer Point UInt32 :=
  .region (fun p => 166 ≤ p.2.val) fun p => taskbarColor p.1.val

theorem rect_at_bottom {x width : UInt32} (hin : Inside x 166 width 34) (color : UInt32)
    (p : Point) : rect x 166 width 34 color p =
      if 166 ≤ p.2.val ∧ x.toNat ≤ p.1.val ∧ p.1.val < x.toNat + width.toNat then some color
      else none := by
  have hy : p.2.val < 200 := p.2.isLt
  refine if_congr ((and_iff_right hin).trans ?_) rfl rfl
  show (x.toNat ≤ p.1.val ∧ p.1.val < x.toNat + width.toNat) ∧ 166 ≤ p.2.val ∧
    p.2.val < 166 + 34 ↔ _
  omega

theorem drawTaskbar_draws {info : FbInfo} (hwidth : info.width = .ofNat fbWidth)
    (hheight : info.height = .ofNat fbHeight) : Draws taskbarLayer (drawTaskbar info) := by
  have hbar := fill_draws 0 166 320 34 desktopTaskbarBg
  have hstart := fill_draws 0 166 84 34 0xFF2A9D8F
  have hclock := fill_draws 248 166 72 34 0xFF243447
  refine (hbar.bind (hstart.bind hclock)).congr (funext fun p => ?_) fun fb => ?_
  · have hx : p.1.val < 0 + 320 := p.1.isLt
    unfold Layer.above taskbarLayer Layer.region
    rw [rect_at_bottom (by decide), rect_at_bottom (by decide), rect_at_bottom (by decide)]
    by_cases hrow : 166 ≤ p.2.val
    · show ((if 166 ≤ p.2.val ∧ 248 ≤ p.1.val ∧ p.1.val < 248 + 72 then some _ else none).or
        (if 166 ≤ p.2.val ∧ 0 ≤ p.1.val ∧ p.1.val < 0 + 84 then some _ else none)).or
        (if 166 ≤ p.2.val ∧ 0 ≤ p.1.val ∧ p.1.val < 0 + 320 then some _ else none) =
        if 166 ≤ p.2.val then some (taskbarColor p.1.val) else none
      unfold taskbarColor
      rw [if_pos hrow, if_pos (show 166 ≤ p.2.val ∧ 0 ≤ p.1.val ∧ p.1.val < 0 + 320 from
        ⟨hrow, Nat.zero_le _, hx⟩)]
      by_cases hleft : p.1.val < 84
      · rw [if_neg (by omega), if_pos (by omega), if_pos hleft]
        rfl
      · rw [if_neg hleft, if_neg (show ¬ (166 ≤ p.2.val ∧ 0 ≤ p.1.val ∧ p.1.val < 0 + 84) by omega)]
        by_cases hright : 248 ≤ p.1.val
        · rw [if_pos (by omega), if_pos hright]
          rfl
        · rw [if_neg (by omega), if_neg hright]
          rfl
    · rw [if_neg (by omega), if_neg (by omega), if_neg (by omega), if_neg hrow]
      rfl
  · unfold drawTaskbar
    rw [hwidth, hheight]
    rfl

end AcharyaOS.Desktop
