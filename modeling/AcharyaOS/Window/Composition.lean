import AcharyaOS.Foundation.Numbered
import AcharyaOS.Foundation.Run
import AcharyaOS.Framebuffer.Fill
import AcharyaOS.Window.Code

/-!
# What the screen shows

A desk is a stack of panes, the latest on top, one of them marked.  The window manager keeps
a desk in its table and paints it.
-/

namespace AcharyaOS.Window

open Foundation Foundation.Run Framebuffer

/-! ## Desks -/

/-- The rectangle of a window. -/
structure Pane where
  x : Nat
  y : Nat
  width : Nat
  height : Nat

namespace Pane

variable (w : Pane)

def Contains (p : Point) : Prop := Between w.x (w.x + w.width) w.y (w.y + w.height) p

/-- The strip under the upper border. -/
def Title (p : Point) : Prop := Between (w.x + 2) (w.x + w.width - 2) (w.y + 2) (w.y + 18) p

def Client (p : Point) : Prop :=
  Between (w.x + 2) (w.x + w.width - 2) (w.y + 18) (w.y + w.height - 2) p

/-- The three rows that mark the active window. -/
def Mark (p : Point) : Prop := Between w.x (w.x + w.width) w.y (w.y + 3) p

instance : DecidablePred w.Contains := fun p => inferInstanceAs (Decidable (Between _ _ _ _ p))

instance : DecidablePred w.Title := fun p => inferInstanceAs (Decidable (Between _ _ _ _ p))

instance : DecidablePred w.Client := fun p => inferInstanceAs (Decidable (Between _ _ _ _ p))

instance : DecidablePred w.Mark := fun p => inferInstanceAs (Decidable (Between _ _ _ _ p))

/-- The colour of a window at a point in it. -/
def color (p : Point) : UInt32 :=
  if w.Title p then 0xFF4C78A8 else if w.Client p then 0xFFE7E9ED else 0xFF1D1F24

end Pane

/-- The panes in the order in which they were put down, and which of them is active. -/
structure Desk where
  panes : List Pane
  active : Option Nat

inductive WmCall
  | create (title : Option CString) (x y width height : UInt32)
  | setActive (id : UInt32)

/-- Up to eight panes of at least 40 by 30 are put down; the first one becomes active, and
later any that is there. -/
def deskStep (d : Desk) : WmCall → Desk
  | .create _ x y width height =>
      if 40 ≤ width.toNat ∧ 30 ≤ height.toNat ∧ d.panes.length < wmMaxWindows then
        { panes := d.panes ++ [⟨x.toNat, y.toNat, width.toNat, height.toNat⟩]
          active := some (d.active.getD d.panes.length) }
      else d
  | .setActive id =>
      if 1 ≤ id.toNat ∧ id.toNat ≤ d.panes.length then { d with active := some (id.toNat - 1) }
      else d

def emptyDesk : Desk := ⟨[], none⟩

/-- The accent colour in the marked rows, otherwise the colour of the latest pane that
contains the point, otherwise the background. -/
def Desk.color (d : Desk) (p : Point) : UInt32 :=
  if ∃ w ∈ d.active.bind fun k => d.panes[k]?, w.Mark p then 0xFFF2C14E
  else (d.panes.reverse.find? fun w => decide (w.Contains p)).elim 0xFF101820 fun w => w.color p

/-! ## One window -/

def WmWindow.pane (w : WmWindow) : Pane := ⟨w.x.toNat, w.y.toNat, w.width.toNat, w.height.toNat⟩

/-- A window as `wm_create_window` makes it, lying inside the framebuffer. -/
structure Proper (w : WmWindow) : Prop where
  used : w.used = true
  border : w.borderColor = 0xFF1D1F24
  titleColor : w.titleColor = 0xFF4C78A8
  client : w.clientColor = 0xFFE7E9ED
  wide : 40 ≤ w.width.toNat
  high : 30 ≤ w.height.toNat
  right : w.x.toNat + w.width.toNat ≤ fbWidth
  bottom : w.y.toNat + w.height.toNat ≤ fbHeight

theorem fill_inside {s : FbState} (hs : Initialised s) (x y width height color : UInt32)
    (hw : 0 < width.toNat) (hh : 0 < height.toNat) (hx : x.toNat + width.toNat ≤ fbWidth)
    (hy : y.toNat + height.toNat ≤ fbHeight) :
    ∃ t, fill s x y width height color = some t ∧ Initialised t ∧
      ∀ p, t.px p = if Between x.toNat (x.toNat + width.toNat) y.toNat (y.toNat + height.toNat) p
        then color else s.px p := by
  have hinside : Inside x y width height := by
    refine ⟨fun h0 => ?_, fun h0 => ?_, hx, hy⟩
    · rw [h0] at hw
      exact absurd hw (by decide)
    · rw [h0] at hh
      exact absurd hh (by decide)
  obtain ⟨t, hcall, hpaint⟩ := fbFillRect_inside hs hinside color
  refine ⟨t, ?_, hs.of_info hpaint.1, hpaint.2⟩
  unfold fill
  rw [hcall, Option.map_some]

theorem toNat_trimmed {length trim : UInt32} (h : trim.toNat < length.toNat) :
    (trimmed length trim).toNat = length.toNat - trim.toNat := by
  unfold trimmed
  have hgt : length > trim := UInt32.lt_iff_toNat_lt.mpr h
  rw [if_pos hgt, UInt32.toNat_sub_of_le _ _ (UInt32.le_iff_toNat_le.mpr (Nat.le_of_lt h))]

theorem toNat_shifted {start offset : UInt32} (h : start.toNat + offset.toNat < 2 ^ 32) :
    (start + offset).toNat = start.toNat + offset.toNat := by
  rw [UInt32.toNat_add]
  exact Nat.mod_eq_of_lt h

theorem WmWindow.pane_color (w : WmWindow) (p : Point) (below : UInt32)
    (hwide : 40 ≤ w.width.toNat) (hhigh : 30 ≤ w.height.toNat) :
    (if w.pane.Contains p then w.pane.color p else below) =
      if Between (w.x.toNat + 2) (w.x.toNat + 2 + (w.width.toNat - 4)) (w.y.toNat + 2)
          (w.y.toNat + 2 + 16) p then 0xFF4C78A8
      else if Between (w.x.toNat + 2) (w.x.toNat + 2 + (w.width.toNat - 4)) (w.y.toNat + 18)
          (w.y.toNat + 18 + (w.height.toNat - 20)) p then 0xFFE7E9ED
      else if Between w.x.toNat (w.x.toNat + w.width.toNat) w.y.toNat
          (w.y.toNat + w.height.toNat) p then 0xFF1D1F24
      else below := by
  have htitle : Between (w.x.toNat + 2) (w.x.toNat + 2 + (w.width.toNat - 4)) (w.y.toNat + 2)
      (w.y.toNat + 2 + 16) p ↔ w.pane.Title p := by
    unfold Pane.Title WmWindow.pane Between
    dsimp only
    omega
  have hclient : Between (w.x.toNat + 2) (w.x.toNat + 2 + (w.width.toNat - 4)) (w.y.toNat + 18)
      (w.y.toNat + 18 + (w.height.toNat - 20)) p ↔ w.pane.Client p := by
    unfold Pane.Client WmWindow.pane Between
    dsimp only
    omega
  have hinner : w.pane.Title p ∨ w.pane.Client p → w.pane.Contains p := by
    unfold Pane.Title Pane.Client Pane.Contains WmWindow.pane Between
    dsimp only
    omega
  unfold Pane.color
  by_cases ht : w.pane.Title p
  · rw [if_pos (hinner (.inl ht)), if_pos ht, if_pos (htitle.mpr ht)]
  · rw [if_neg ht, if_neg (ht ∘ htitle.mp)]
    by_cases hc : w.pane.Client p
    · rw [if_pos (hinner (.inr hc)), if_pos hc, if_pos (hclient.mpr hc)]
    · rw [if_neg hc, if_neg (hc ∘ hclient.mp)]
      rfl

section Corners

variable {w : WmWindow} (hw : Proper w)

include hw

theorem Proper.clientW :
    (trimmed w.width (wmBorderThickness * 2)).toNat = w.width.toNat - 4 := by
  have hwide := hw.wide
  exact toNat_trimmed (show 4 < w.width.toNat by omega)

theorem Proper.clientH :
    (trimmed w.height (wmTitleHeight + wmBorderThickness)).toNat = w.height.toNat - 20 := by
  have hhigh := hw.high
  exact toNat_trimmed (show 20 < w.height.toNat by omega)

theorem Proper.innerX : (w.x + wmBorderThickness).toNat = w.x.toNat + 2 := by
  have hright := hw.right
  unfold fbWidth at hright
  exact toNat_shifted (show w.x.toNat + 2 < 2 ^ 32 by omega)

theorem Proper.titleY : (w.y + wmBorderThickness).toNat = w.y.toNat + 2 := by
  have hbottom := hw.bottom
  unfold fbHeight at hbottom
  exact toNat_shifted (show w.y.toNat + 2 < 2 ^ 32 by omega)

theorem Proper.clientY : (w.y + wmTitleHeight).toNat = w.y.toNat + 18 := by
  have hbottom := hw.bottom
  unfold fbHeight at hbottom
  exact toNat_shifted (show w.y.toNat + 18 < 2 ^ 32 by omega)

theorem Proper.hasClient :
    (trimmed w.width (wmBorderThickness * 2) > 0 &&
      trimmed w.height (wmTitleHeight + wmBorderThickness) > 0 : Bool) = true := by
  have hwide := hw.wide
  have hhigh := hw.high
  have hclientW := hw.clientW
  have hclientH := hw.clientH
  rw [Bool.and_eq_true, decide_eq_true_iff, decide_eq_true_iff, gt_iff_lt, gt_iff_lt,
    UInt32.lt_iff_toNat_lt, UInt32.lt_iff_toNat_lt, UInt32.toNat_zero]
  omega

theorem Proper.hasTitle :
    (w.x + w.width > w.x && w.y + w.height > w.y &&
      trimmed w.width (wmBorderThickness * 2) > 0 : Bool) = true := by
  have hwide := hw.wide
  have hhigh := hw.high
  have hright := hw.right
  have hbottom := hw.bottom
  unfold fbWidth at hright
  unfold fbHeight at hbottom
  have hclientW := hw.clientW
  have hx : (w.x + w.width).toNat = w.x.toNat + w.width.toNat := toNat_shifted (by omega)
  have hy : (w.y + w.height).toNat = w.y.toNat + w.height.toNat := toNat_shifted (by omega)
  rw [Bool.and_eq_true, Bool.and_eq_true, decide_eq_true_iff, decide_eq_true_iff,
    decide_eq_true_iff, gt_iff_lt, gt_iff_lt, gt_iff_lt, UInt32.lt_iff_toNat_lt,
    UInt32.lt_iff_toNat_lt, UInt32.lt_iff_toNat_lt, UInt32.toNat_zero]
  omega

end Corners

/-- The three fills of `wm_draw_window` make one pane. -/
theorem wmDrawWindow_eq {s : FbState} (hs : Initialised s) {w : WmWindow} (hw : Proper w) :
    ∃ t, wmDrawWindow s w = some t ∧ Initialised t ∧
      ∀ p, t.px p = if w.pane.Contains p then w.pane.color p else s.px p := by
  have hwide := hw.wide
  have hhigh := hw.high
  have hright := hw.right
  have hbottom := hw.bottom
  have hclientW := hw.clientW
  have hclientH := hw.clientH
  have hinnerX := hw.innerX
  have htitleY := hw.titleY
  have hclientY := hw.clientY
  have hstrip : (wmTitleHeight - wmBorderThickness).toNat = 16 := rfl
  obtain ⟨s1, hs1, hinit1, hpx1⟩ := fill_inside hs w.x w.y w.width w.height w.borderColor
    (by omega) (by omega) hright hbottom
  obtain ⟨s2, hs2, hinit2, hpx2⟩ := fill_inside hinit1 (w.x + wmBorderThickness)
    (w.y + wmTitleHeight) (trimmed w.width (wmBorderThickness * 2))
    (trimmed w.height (wmTitleHeight + wmBorderThickness)) w.clientColor (by omega) (by omega)
    (by omega) (by omega)
  obtain ⟨s3, hs3, hinit3, hpx3⟩ := fill_inside hinit2 (w.x + wmBorderThickness)
    (w.y + wmBorderThickness) (trimmed w.width (wmBorderThickness * 2))
    (wmTitleHeight - wmBorderThickness) w.titleColor (by omega) (by omega) (by omega) (by omega)
  refine ⟨s3, ?_, hinit3, fun p => ?_⟩
  · unfold wmDrawWindow
    simp only [hw.used, Bool.not_true, Bool.false_eq_true, if_false, hs1, hw.hasClient, if_true,
      hs2, hw.hasTitle, hs3, bind, pure, Option.bind_some]
  · rw [hpx3 p, hpx2 p, hpx1 p, hinnerX, htitleY, hclientY, hclientW, hclientH, hstrip,
      hw.titleColor, hw.client, hw.border]
    exact (w.pane_color p _ hwide hhigh).symm

/-! ## All windows -/

/-- What a pane shows. -/
def Pane.layer (w : Pane) : Layer Point UInt32 := .region w.Contains w.color

theorem wmDrawAll_eq (wins : List WmWindow) : ∀ {s : FbState}, Initialised s →
    (∀ w ∈ wins, Proper w) →
    ∃ t, wmDrawAll s wins = some t ∧ Initialised t ∧
      t.px = Layer.overAll (wins.map fun w => w.pane.layer) s.px := by
  induction wins with
  | nil => exact fun hs _ => ⟨_, rfl, hs, rfl⟩
  | cons w wins ih =>
    intro s hs hproper
    rw [List.forall_mem_cons] at hproper
    obtain ⟨t, ht, hinit, hpx⟩ := wmDrawWindow_eq hs hproper.1
    obtain ⟨u, hu, hinit', hpx'⟩ := ih hinit hproper.2
    refine ⟨u, ?_, hinit', ?_⟩
    · unfold wmDrawAll
      rw [List.foldlM_cons, ht]
      exact hu
    · rw [hpx']
      have hover : t.px = w.pane.layer.onto s.px := by
        funext p
        rw [hpx p]
        exact (Layer.onto_region w.pane.Contains w.pane.color s.px p).symm
      rw [hover]
      rfl

/-! ## The table -/

/-- A window in use. -/
def WmWindow.held (w : WmWindow) : Option WmWindow := if w.used then some w else none

def WmState.view (s : WmState) (i : Fin wmMaxWindows) : Option WmWindow := (s.windows i).held

theorem view_update (s : WmState) (slot : Fin wmMaxWindows) {w : WmWindow} (hused : w.used = true) :
    WmState.view { s with windows := Function.update s.windows slot w } =
      Function.update s.view slot (some w) := by
  funext i
  show (Function.update s.windows slot w i).held = _
  by_cases hi : i = slot
  · rw [hi, Function.update_self, Function.update_self]
    exact if_pos hused
  · rw [Function.update_of_ne hi, Function.update_of_ne hi]
    rfl

/-- The table holds the desk: its windows from slot 0 on, with ids from 1 on. -/
structure Holds (s : WmState) (d : Desk) (wins : List WmWindow) : Prop where
  fills : Fills s.view wins
  panes : wins.map WmWindow.pane = d.panes
  proper : ∀ w ∈ wins, Proper w
  ids : ∀ k (h : k < wins.length), (wins[k]).id = .ofNat (k + 1)
  nextId : s.stats.nextWindowId = .ofNat (wins.length + 1)
  active : ∀ k, d.active = some k → k < wins.length ∧ s.stats.activeWindowId = .ofNat (k + 1)
  inactive : d.active = none → wins = [] ∧ s.stats.activeWindowId = 0
  ready : s.isReady = true
  initialised : Initialised s.fb

theorem holds_wmInit {s : WmState} (hs : Initialised s.fb) : Holds (wmInit s) emptyDesk [] where
  fills := .nil
  panes := rfl
  proper := fun _ hw => absurd hw List.not_mem_nil
  ids := fun k h => absurd h (Nat.not_lt_zero k)
  nextId := rfl
  active := fun _ hk => absurd hk.symm (Option.some_ne_none _)
  inactive := fun _ => ⟨rfl, rfl⟩
  ready := hs.ready
  initialised := hs

section Table

variable {s : WmState} {d : Desk} {wins : List WmWindow} (h : Holds s d wins)

include h

theorem Holds.length_le : wins.length ≤ 8 := h.fills.length_le

theorem Holds.windows_of_lt {i : Fin wmMaxWindows} (hi : i.val < wins.length) :
    s.windows i = wins[i.val] := by
  have hview := h.fills.view_eq i
  rw [List.getElem?_eq_getElem hi] at hview
  unfold WmState.view WmWindow.held at hview
  split at hview
  · exact Option.some.inj hview
  · cases hview

theorem Holds.lt_of_used {i : Fin wmMaxWindows} (hused : (s.windows i).used = true) :
    i.val < wins.length := by
  have hview := h.fills.view_eq i
  unfold WmState.view WmWindow.held at hview
  rw [if_pos hused] at hview
  exact (List.getElem?_eq_some_iff.mp hview.symm).1

theorem Holds.numbered :
    Numbered WmWindow.used WmWindow.id s.windows s.stats.nextWindowId wins.length where
  bounded := by decide
  count_le := h.length_le
  used_iff := fun i => by
    refine ⟨h.lt_of_used, fun hi => ?_⟩
    rw [h.windows_of_lt hi]
    exact (h.proper _ (List.getElem_mem hi)).used
  number_eq := fun i hi => by
    rw [h.windows_of_lt hi]
    exact h.ids i.val hi
  next_eq := h.nextId

theorem Holds.wmFind_some {k : Nat} (hk : k < wins.length) :
    wmFind s (.ofNat (k + 1)) = some ⟨k, Nat.lt_of_lt_of_le hk h.length_le⟩ :=
  h.numbered.lookup_eq_some_iff.mpr
    ⟨(h.numbered.used_iff _).mpr hk, h.numbered.number_eq _ hk⟩

theorem Holds.wmFind_none {id : UInt32} (hid : ¬ (1 ≤ id.toNat ∧ id.toNat ≤ wins.length)) :
    wmFind s id = none := by
  cases hfind : wmFind s id with
  | none => rfl
  | some i =>
      obtain ⟨hused, rfl⟩ := h.numbered.lookup_eq_some_iff.mp hfind
      have hlt := h.lt_of_used hused
      rw [h.numbered.toNat_number hused] at hid
      omega

theorem Holds.active_ne_zero {k : Nat} (hactive : d.active = some k) :
    ¬ (s.stats.activeWindowId == 0) = true := by
  obtain ⟨hk, hid⟩ := h.active k hactive
  have hwindow : k < wmMaxWindows := Nat.lt_of_lt_of_le hk h.length_le
  rw [hid, beq_iff_eq, ← h.numbered.number_eq ⟨k, hwindow⟩ hk]
  exact h.numbered.number_ne_zero ((h.numbered.used_iff _).mpr hk)

theorem Holds.length_panes : d.panes.length = wins.length := by
  rw [← h.panes, List.length_map]

theorem Holds.setActive (id : UInt32) :
    Holds (wmSetActive s id).1 (deskStep d (.setActive id)) wins := by
  have hlen := h.length_le
  unfold wmSetActive deskStep
  dsimp only
  by_cases hid : 1 ≤ id.toNat ∧ id.toNat ≤ wins.length
  · have hgiven : id = .ofNat (id.toNat - 1 + 1) := by
      apply UInt32.toNat_inj.mp
      rw [UInt32.toNat_ofNat']
      have hlt := id.toNat_lt
      omega
    have hfind := h.wmFind_some (show id.toNat - 1 < wins.length by omega)
    rw [← hgiven] at hfind
    rw [hfind, if_pos (by rw [h.length_panes]; exact hid)]
    refine ⟨h.fills, h.panes, h.proper, h.ids, h.nextId, ?_, nofun, h.ready, h.initialised⟩
    intro k hk
    cases hk
    exact ⟨by omega, hgiven⟩
  · rw [h.wmFind_none hid, if_neg (by rw [h.length_panes]; exact hid)]
    exact h

theorem Holds.wmReady_eq : wmReady s = true := by
  unfold wmReady fbReady
  rw [h.ready, h.initialised.ready]
  rfl

theorem Holds.ids_concat {w : WmWindow} (hid : w.id = s.stats.nextWindowId) :
    ∀ k (hk : k < (wins ++ [w]).length), ((wins ++ [w])[k]).id = .ofNat (k + 1) := by
  intro k hk
  by_cases hold : k < wins.length
  · rw [List.getElem_append_left hold]
    exact h.ids k hold
  · have hlast : k = wins.length := by
      rw [List.length_append, List.length_singleton] at hk
      omega
    subst hlast
    rw [List.getElem_append_right (Nat.le_refl _)]
    simp only [Nat.sub_self, List.getElem_cons_zero]
    exact hid.trans h.nextId

/-- The first window becomes active, and a later one leaves the active window as it is. -/
theorem Holds.active_concat {k : Nat} (hk : some (d.active.getD d.panes.length) = some k) :
    k < wins.length + 1 ∧
      (if s.stats.activeWindowId == 0 then s.stats.nextWindowId else s.stats.activeWindowId) =
        .ofNat (k + 1) := by
  have hk' : d.active.getD d.panes.length = k := Option.some.inj hk
  cases hactive : d.active with
  | none =>
      obtain ⟨-, hzero⟩ := h.inactive hactive
      rw [hactive, Option.getD_none, h.length_panes] at hk'
      rw [hzero, h.nextId, ← hk']
      exact ⟨Nat.lt_succ_self _, rfl⟩
  | some j =>
      obtain ⟨hj, hid⟩ := h.active j hactive
      rw [hactive, Option.getD_some] at hk'
      rw [← hk', if_neg (h.active_ne_zero hactive)]
      exact ⟨Nat.lt_succ_of_lt hj, hid⟩

theorem Holds.push (hlt : wins.length < wmMaxWindows) (title : Option CString)
    {x y width height : UInt32} (hwide : 40 ≤ width.toNat) (hhigh : 30 ≤ height.toNat)
    (hright : x.toNat + width.toNat ≤ fbWidth) (hbottom : y.toNat + height.toNat ≤ fbHeight) :
    Holds
      { s with
        windows := Function.update s.windows ⟨wins.length, hlt⟩
          (newWindow s.stats.nextWindowId title x y width height)
        stats :=
          { windowCount := s.stats.windowCount + 1
            nextWindowId := s.stats.nextWindowId + 1
            activeWindowId :=
              if s.stats.activeWindowId == 0 then s.stats.nextWindowId
              else s.stats.activeWindowId } }
      { panes := d.panes ++ [⟨x.toNat, y.toNat, width.toNat, height.toNat⟩]
        active := some (d.active.getD d.panes.length) }
      (wins ++ [newWindow s.stats.nextWindowId title x y width height]) := by
  set w := newWindow s.stats.nextWindowId title x y width height
  have hlength : (wins ++ [w]).length = wins.length + 1 := by
    rw [List.length_append, List.length_singleton]
  refine ⟨?_, ?_, ?_, h.ids_concat rfl, ?_, ?_, nofun, h.ready, h.initialised⟩
  · have hfills := h.fills.push hlt w
    rw [← view_update s ⟨wins.length, hlt⟩ (show w.used = true from rfl)] at hfills
    exact hfills
  · rw [List.map_append, h.panes]
    rfl
  · intro v hv
    rcases List.mem_append.mp hv with hold | hnew
    · exact h.proper v hold
    · rw [List.mem_singleton.mp hnew]
      exact ⟨rfl, rfl, rfl, rfl, hwide, hhigh, hright, hbottom⟩
  · show s.stats.nextWindowId + 1 = _
    rw [h.nextId, hlength]
    exact (UInt32.ofNat_add _ 1).symm
  · intro k hk
    rw [hlength]
    exact h.active_concat hk

theorem Holds.create (title : Option CString) (x y width height : UInt32)
    (hin : (wmCreateWindow s title x y width height).2 ≠ 0 →
      x.toNat + width.toNat ≤ fbWidth ∧ y.toNat + height.toNat ≤ fbHeight) :
    ∃ wins', Holds (wmCreateWindow s title x y width height).1
      (deskStep d (.create title x y width height)) wins' := by
  have hguard : (!wmReady s || width < 40 || height < 30 : Bool) = true ↔
      ¬ (40 ≤ width.toNat ∧ 30 ≤ height.toNat) := by
    rw [h.wmReady_eq, Bool.not_true, Bool.false_or, Bool.or_eq_true, decide_eq_true_iff,
      decide_eq_true_iff, UInt32.lt_iff_toNat_lt, UInt32.lt_iff_toNat_lt]
    show width.toNat < 40 ∨ height.toNat < 30 ↔ _
    omega
  unfold deskStep
  dsimp only
  unfold wmCreateWindow at hin ⊢
  rw [h.length_panes]
  by_cases hsize : 40 ≤ width.toNat ∧ 30 ≤ height.toNat
  · have hguard' := fun hbad => hguard.mp hbad hsize
    rw [if_neg hguard'] at hin ⊢
    by_cases hlt : wins.length < wmMaxWindows
    · have hfree := h.numbered.free
      rw [dif_pos hlt] at hfree
      rw [hfree] at hin ⊢
      obtain ⟨hright, hbottom⟩ := hin h.numbered.next_ne_zero
      rw [if_pos ⟨hsize.1, hsize.2, hlt⟩]
      have hpush := h.push hlt title hsize.1 hsize.2 hright hbottom
      rw [h.length_panes] at hpush
      exact ⟨_, hpush⟩
    · have hfree := h.numbered.free
      rw [dif_neg hlt] at hfree
      rw [hfree, if_neg fun hall => hlt hall.2.2]
      exact ⟨wins, h⟩
  · rw [if_pos (hguard.mpr hsize), if_neg fun hall => hsize ⟨hall.1, hall.2.1⟩]
    exact ⟨wins, h⟩

/-! ## Rendering -/

theorem Holds.drawn :
    ((List.finRange wmMaxWindows).map s.windows).filter WmWindow.used = wins := by
  rw [← h.fills.slotList_eq]
  unfold slotList WmState.view WmWindow.held
  induction List.finRange wmMaxWindows with
  | nil => rfl
  | cons i rest ih =>
    rw [List.map_cons, List.filter_cons, List.filterMap_cons, ih]
    by_cases hused : (s.windows i).used = true
    · rw [if_pos hused, if_pos hused]
    · rw [if_neg hused, if_neg hused]

theorem Holds.render :
    ∃ t, wmRender s = some t ∧ ∀ p, t.fb.px p = d.color p := by
  obtain ⟨s1, hs1, hinit1, hpx1⟩ := fbClear_spec h.initialised 0xFF101820
  obtain ⟨s2, hs2, hinit2, hpx2⟩ := wmDrawAll_eq wins hinit1 h.proper
  have hready : ¬ (!wmReady s) = true := by
    rw [h.wmReady_eq]
    decide
  have hstack : ∀ p, s2.px p =
      (d.panes.reverse.find? fun w => decide (w.Contains p)).elim 0xFF101820 fun w => w.color p := by
    intro p
    have hlayers : wins.map (fun w => w.pane.layer) =
        d.panes.map fun w => Layer.region w.Contains w.color := by
      rw [← h.panes, List.map_map]
      rfl
    rw [hpx2, hlayers, Layer.overAll_regions Pane.Contains Pane.color, hpx1 p]
  cases hactive : d.active with
  | none =>
    obtain ⟨-, hzero⟩ := h.inactive hactive
    have hnone : (s.stats.activeWindowId == 0) = true := beq_iff_eq.mpr hzero
    refine ⟨{ s with fb := s2 }, ?_, fun p => ?_⟩
    · unfold wmRender
      simp only [if_neg hready, hs1, h.drawn, hs2, if_pos hnone, bind, pure, Option.bind_some]
    · unfold Desk.color
      rw [hactive, if_neg (by simp)]
      exact hstack p
  | some k =>
    obtain ⟨hk, hid⟩ := h.active k hactive
    have hlen := h.length_le
    have hne := h.active_ne_zero hactive
    have hproper := h.proper _ (List.getElem_mem hk)
    have hbottom := hproper.bottom
    have hwide := hproper.wide
    have hhigh := hproper.high
    have hthree : (3 : UInt32).toNat = 3 := rfl
    obtain ⟨s3, hs3, -, hpx3⟩ := fill_inside hinit2 wins[k].x wins[k].y wins[k].width 3 0xFFF2C14E
      (by omega) (by decide) hproper.right (by rw [hthree]; omega)
    refine ⟨{ s with fb := s3 }, ?_, fun p => ?_⟩
    · have hwindow := h.windows_of_lt (i := ⟨k, Nat.lt_of_lt_of_le hk hlen⟩) hk
      have hfind := h.wmFind_some hk
      rw [← hid] at hfind
      unfold wmRender
      simp only [if_neg hready, hs1, h.drawn, hs2, if_neg hne, hfind, hwindow, hs3, bind, pure,
        Option.bind_some]
    · have hpane : d.panes[k]? = some wins[k].pane := by
        rw [← h.panes, List.getElem?_map, List.getElem?_eq_getElem hk]
        rfl
      unfold Desk.color
      rw [hactive, Option.bind_some, hpane]
      show s3.px p = _
      rw [hpx3 p, hstack p]
      exact if_congr (by simp [Pane.Mark, WmWindow.pane]) rfl rfl

end Table

/-! ## Runs -/

def wmStep (s : WmState) : WmCall → WmState
  | .create title x y width height => (wmCreateWindow s title x y width height).1
  | .setActive id => (wmSetActive s id).1

/-- A window that the call accepts lies inside the framebuffer. -/
def AcceptsInside (s : WmState) : WmCall → Prop
  | .create title x y width height => (wmCreateWindow s title x y width height).2 ≠ 0 →
      x.toNat + width.toNat ≤ fbWidth ∧ y.toNat + height.toNat ≤ fbHeight
  | .setActive _ => True

theorem Holds.step {s : WmState} {d : Desk} {wins : List WmWindow} (h : Holds s d wins)
    (c : WmCall) (hin : AcceptsInside s c) :
    ∃ wins', Holds (wmStep s c) (deskStep d c) wins' := by
  cases c with
  | create title x y width height => exact h.create title x y width height hin
  | setActive id => exact ⟨wins, h.setActive id⟩

theorem Holds.run (calls : List WmCall) : ∀ {s : WmState} {d : Desk} {wins : List WmWindow},
    Holds s d wins → AllSteps wmStep AcceptsInside s calls →
    ∃ wins', Holds (runSteps wmStep s calls) (runSteps deskStep d calls) wins' := by
  induction calls with
  | nil => exact fun h _ => ⟨_, h⟩
  | cons c calls ih =>
    intro s d wins h hin
    obtain ⟨wins', h'⟩ := h.step c hin.1
    exact ih h' hin.2

/-- After every sequence of calls that only puts down windows inside the framebuffer, what
`wm_render` leaves there is the desk of the sequence. -/
theorem wmRender_desk {s : WmState} (hs : Initialised s.fb) (calls : List WmCall)
    (hin : AllSteps wmStep AcceptsInside (wmInit s) calls) :
    ∃ t, wmRender (runSteps wmStep (wmInit s) calls) = some t ∧
      ∀ p, t.fb.px p = (runSteps deskStep emptyDesk calls).color p := by
  obtain ⟨wins, h⟩ := (holds_wmInit hs).run calls hin
  exact h.render

/-- The three windows of `wm_demo_layout`, the second one active. -/
def demoLayout : List WmCall :=
  [.create none 20 20 150 90, .create none 190 35 110 120, .create none 70 130 180 55, .setActive 2]

theorem wmRender_demoLayout :
    ∃ t, wmRender (runSteps wmStep (wmInit ⟨fun _ => .zero, ⟨0, 0, 0⟩, false, fbBlack⟩) demoLayout) =
        some t ∧
      ∀ p, t.fb.px p = (runSteps deskStep emptyDesk demoLayout).color p :=
  wmRender_desk initialised_fbBlack demoLayout
    ⟨fun _ => by decide, fun _ => by decide, fun _ => by decide, trivial, trivial⟩

end AcharyaOS.Window
