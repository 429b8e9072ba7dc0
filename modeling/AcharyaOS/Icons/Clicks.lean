import AcharyaOS.Foundation.Run
import AcharyaOS.Foundation.Words
import AcharyaOS.Icons.Code

/-!
# Clicks on the desktop

Which icon is selected and which one is launched follows from the last two left clicks alone.
-/

namespace AcharyaOS.Icons

open Foundation Foundation.Run

inductive IconCall
  | add (label launchCmd : Option CString) (color : UInt32)
  | click (x y : Int32) (buttonMask : UInt8) (ticks : UInt64)

namespace IconsState

variable (s : IconsState)

def Selected (i : Fin iconsMaxIcons) : Prop :=
  (s.icons i).used = true ∧ (s.icons i).selected = true

/-- The point lies in the icon. -/
def Hits (i : Fin iconsMaxIcons) (x y : Int32) : Prop :=
  (s.icons i).used = true ∧ inIcon (s.icons i) x y = true

/-- The icon at a point. -/
def iconAt (x y : Int32) : Option (Fin iconsMaxIcons) :=
  firstSlot fun i => (s.icons i).used && inIcon (s.icons i) x y

end IconsState

/-- The left button is down. -/
def Left (buttonMask : UInt8) : Prop := buttonMask &&& 0x01 ≠ 0

instance : DecidablePred Left := fun buttonMask =>
  inferInstanceAs (Decidable (buttonMask &&& 0x01 ≠ 0))

/-- A left click: the icon it hit, and when. -/
structure Click where
  on : Option (Fin iconsMaxIcons)
  tick : UInt64

/-- The icons, and the last left click. -/
structure Tracked where
  s : IconsState
  last : Option Click

def trackStep (t : Tracked) : IconCall → Tracked
  | .add label launchCmd color => { t with s := (iconsAdd t.s label launchCmd color).1 }
  | .click x y buttonMask ticks =>
      { s := (iconsHandleClick t.s x y buttonMask ticks).state
        last := if Left buttonMask then some ⟨t.s.iconAt x y, ticks⟩ else t.last }

def trackInit (fbReady wmReady : Bool) : Tracked := ⟨iconsInit fbReady wmReady, none⟩

/-- A left click comes after the one before it, and less than `2^32` ticks after it. -/
def Timely (t : Tracked) : IconCall → Prop
  | .add .. => True
  | .click _ _ buttonMask ticks => Left buttonMask → ∀ c ∈ t.last,
      c.tick.toNat ≤ ticks.toNat ∧ ticks.toNat < c.tick.toNat + 2 ^ 32

instance (t : Tracked) : DecidablePred (Timely t)
  | .add .. => .isTrue trivial
  | .click _ _ buttonMask _ => inferInstanceAs (Decidable (Left buttonMask → ∀ c ∈ t.last, _))

/-- At most one icon is selected, and `selected_icon_id` is its id, or 0 if there is none. -/
structure Selection (t : Tracked) : Prop where
  unique : ∀ i j, t.s.Selected i → t.s.Selected j → i = j
  named : ∀ i, t.s.Selected i → (t.s.icons i).id = t.s.iconState.selectedIconId
  zero_iff : t.s.iconState.selectedIconId = 0 ↔ ∀ i, ¬ t.s.Selected i
  apart : ∀ i j x y, t.s.Hits i x y → t.s.Hits j x y → i = j

/-- A click launches the icon it hits exactly if it is a left click and the left click before
it hit the same icon at most 30 ticks earlier.  Other clicks change nothing. -/
def TwoClicks (t : Tracked) : IconCall → Prop
  | .add .. => True
  | .click x y buttonMask ticks =>
      (∀ id, (iconsHandleClick t.s x y buttonMask ticks).launched = some id ↔
        Left buttonMask ∧ ∃ i, t.s.Hits i x y ∧ (t.s.icons i).id = id ∧
          ∃ c ∈ t.last, c.on = some i ∧ ticks.toNat ≤ c.tick.toNat + 30) ∧
      (¬ Left buttonMask → (iconsHandleClick t.s x y buttonMask ticks).state = t.s)

/-! ## Places -/

/-- The icons are laid out in rows of four cells. -/
structure Placed (i : Fin iconsMaxIcons) (icon : Icon) : Prop where
  x_eq : icon.x = .ofNat (16 + i.val % 4 * 92)
  y_eq : icon.y = .ofNat (16 + i.val / 4 * 100)
  width_eq : icon.width = 76
  height_eq : icon.height = 84

theorem toInt_toInt32_ofNat {k : Nat} (hk : k < 2 ^ 31) :
    (UInt32.ofNat k).toInt32.toInt = k := by
  have hnat : (UInt32.ofNat k).toNat = k := by
    rw [UInt32.toNat_ofNat']
    omega
  rw [toInt_toInt32 (by omega), hnat]

theorem Placed.inIcon_iff {i : Fin iconsMaxIcons} {icon : Icon} (h : Placed i icon) (x y : Int32) :
    inIcon icon x y = true ↔
      ((16 + i.val % 4 * 92 : Nat) ≤ x.toInt ∧ x.toInt < (16 + i.val % 4 * 92 + 76 : Nat)) ∧
      ((16 + i.val / 4 * 100 : Nat) ≤ y.toInt ∧ y.toInt < (16 + i.val / 4 * 100 + 84 : Nat)) := by
  have hi : i.val < 16 := i.isLt
  have hright : icon.x + icon.width = .ofNat (16 + i.val % 4 * 92 + 76) := by
    rw [h.x_eq, h.width_eq]
    exact (UInt32.ofNat_add _ 76).symm
  have hbottom : icon.y + icon.height = .ofNat (16 + i.val / 4 * 100 + 84) := by
    rw [h.y_eq, h.height_eq]
    exact (UInt32.ofNat_add _ 84).symm
  unfold inIcon
  rw [hright, hbottom, h.x_eq, h.y_eq]
  simp only [Bool.and_eq_true, decide_eq_true_iff, Int32.le_iff_toInt_le, Int32.lt_iff_toInt_lt]
  rw [toInt_toInt32_ofNat (by omega), toInt_toInt32_ofNat (by omega),
    toInt_toInt32_ofNat (by omega), toInt_toInt32_ofNat (by omega)]

theorem Placed.apart {i j : Fin iconsMaxIcons} {icon icon' : Icon} (h : Placed i icon)
    (h' : Placed j icon') {x y : Int32} (hin : inIcon icon x y = true)
    (hin' : inIcon icon' x y = true) : i = j := by
  obtain ⟨⟨hx, hx1⟩, hy, hy1⟩ := (h.inIcon_iff x y).mp hin
  obtain ⟨⟨hx', hx1'⟩, hy', hy1'⟩ := (h'.inIcon_iff x y).mp hin'
  have hcolumn : i.val % 4 = j.val % 4 := by omega
  have hrow : i.val / 4 = j.val / 4 := by omega
  apply Fin.ext
  omega

theorem placed_newIcon (i : Fin iconsMaxIcons) (id : UInt32) (label launchCmd : Option CString)
    (color : UInt32) : Placed i (newIcon id (.ofNat i.val) label launchCmd color) := by
  have hx : ∀ i : Fin iconsMaxIcons, iconPad +
      (UInt64.ofNat i.val % 4 * (iconCellW + iconPad).toUInt64).toUInt32 =
        .ofNat (16 + i.val % 4 * 92) := by decide
  have hy : ∀ i : Fin iconsMaxIcons, iconPad +
      (UInt64.ofNat i.val / 4 * (iconCellH + iconPad).toUInt64).toUInt32 =
        .ofNat (16 + i.val / 4 * 100) := by decide
  exact ⟨hx i, hy i, rfl, rfl⟩

/-! ## The calls -/

/-- The state with the selection on one icon, or on none. -/
def IconsState.select (s : IconsState) (on : Option (Fin iconsMaxIcons)) (tick : UInt32) :
    IconsState :=
  { s with
    icons := fun i => { s.icons i with selected := decide (on = some i) }
    iconState :=
      { s.iconState with selectedIconId := on.elim 0 fun i => (s.icons i).id }
    lastClickTick := tick }

theorem iconsAdd_cases (s : IconsState) (label launchCmd : Option CString) (color : UInt32) :
    (iconsAdd s label launchCmd color).1 = s ∨
      iconsReady s = true ∧ ∃ slot, (firstSlot fun i => !(s.icons i).used) = some slot ∧
        (iconsAdd s label launchCmd color).1 =
          { s with
            icons := Function.update s.icons slot
              (newIcon s.iconState.nextIconId s.iconState.iconCount label launchCmd color)
            iconState :=
              { s.iconState with
                iconCount := s.iconState.iconCount + 1
                nextIconId := s.iconState.nextIconId + 1 } } := by
  unfold iconsAdd
  cases hfree : firstSlot fun i => !(s.icons i).used with
  | none => exact .inl rfl
  | some slot =>
      cases hready : iconsReady s with
      | false => exact .inl rfl
      | true => exact .inr ⟨rfl, slot, rfl, rfl⟩

section Click

variable {s : IconsState} {x y : Int32} {buttonMask : UInt8} {ticks : UInt64}

theorem iconsHandleClick_of_not_left (h : ¬ Left buttonMask) :
    (iconsHandleClick s x y buttonMask ticks).state = s ∧
      (iconsHandleClick s x y buttonMask ticks).launched = none := by
  have hzero : (buttonMask &&& 0x01 == 0) = true := beq_iff_eq.mpr (not_not.mp h)
  unfold iconsHandleClick
  rw [if_pos hzero]
  cases iconsReady s <;> exact ⟨rfl, rfl⟩

theorem iconsHandleClick_of_not_ready (h : iconsReady s = false) :
    (iconsHandleClick s x y buttonMask ticks).state = s ∧
      (iconsHandleClick s x y buttonMask ticks).launched = none := by
  unfold iconsHandleClick
  rw [h]
  exact ⟨rfl, rfl⟩

theorem iconsHandleClick_miss (hready : iconsReady s = true) (hleft : Left buttonMask)
    (hat : s.iconAt x y = none) :
    iconsHandleClick s x y buttonMask ticks = ⟨s.select none ticks.toUInt32, 0, none⟩ := by
  have hmask : ¬ (buttonMask &&& 0x01 == 0) = true := fun h0 => hleft (beq_iff_eq.mp h0)
  unfold IconsState.iconAt at hat
  unfold iconsHandleClick
  rw [hready, if_neg hmask, hat]
  rfl

/-- The icon is selected and the last click was at most 30 ticks ago. -/
def Again (s : IconsState) (i : Fin iconsMaxIcons) (now : UInt32) : Prop :=
  (s.icons i).selected = true ∧ s.iconState.selectedIconId = (s.icons i).id ∧
    now - s.lastClickTick ≤ 30

theorem iconsHandleClick_again (hready : iconsReady s = true) (hleft : Left buttonMask)
    {i : Fin iconsMaxIcons} (hat : s.iconAt x y = some i) (hagain : Again s i ticks.toUInt32) :
    (iconsHandleClick s x y buttonMask ticks).state =
        { s with lastClickTick := ticks.toUInt32 } ∧
      (iconsHandleClick s x y buttonMask ticks).launched = some (s.icons i).id := by
  have hmask : ¬ (buttonMask &&& 0x01 == 0) = true := fun h0 => hleft (beq_iff_eq.mp h0)
  obtain ⟨hselected, hid, htick⟩ := hagain
  unfold IconsState.iconAt at hat
  unfold iconsHandleClick
  rw [hready, if_neg hmask, hat]
  simp only [hselected, hid, beq_self_eq_true, decide_eq_true htick, Bool.and_self]
  exact ⟨rfl, rfl⟩

theorem iconsHandleClick_first (hready : iconsReady s = true) (hleft : Left buttonMask)
    {i : Fin iconsMaxIcons} (hat : s.iconAt x y = some i) (hfirst : ¬ Again s i ticks.toUInt32) :
    iconsHandleClick s x y buttonMask ticks = ⟨s.select (some i) ticks.toUInt32, 1, none⟩ := by
  have hmask : ¬ (buttonMask &&& 0x01 == 0) = true := fun h0 => hleft (beq_iff_eq.mp h0)
  have hguard : ¬ ((s.icons i).selected && s.iconState.selectedIconId == (s.icons i).id &&
      decide (ticks.toUInt32 - s.lastClickTick ≤ 30)) = true := by
    rw [Bool.and_eq_true, Bool.and_eq_true, beq_iff_eq, decide_eq_true_iff, and_assoc]
    exact hfirst
  have hicons : Function.update (clearSelection s).icons i
      { (clearSelection s).icons i with selected := true } = (s.select (some i) 0).icons := by
    funext j
    by_cases hj : j = i
    · subst hj
      rw [Function.update_self]
      unfold clearSelection IconsState.select
      dsimp only
      rw [decide_eq_true rfl]
    · rw [Function.update_of_ne hj]
      unfold clearSelection IconsState.select
      dsimp only
      rw [decide_eq_false fun heq => hj (Option.some.inj heq).symm]
  unfold IconsState.iconAt at hat
  unfold iconsHandleClick
  rw [hready, if_neg hmask, hat]
  dsimp only
  rw [if_neg hguard, hicons]
  rfl

end Click

/-! ## The invariant -/

/-- The icon that the last left click hit. -/
def Tracked.on (t : Tracked) : Option (Fin iconsMaxIcons) := t.last.bind Click.on

/-- The icons are numbered and placed in their order, and the one that the last left click hit
is selected. -/
structure Follows (t : Tracked) (count : Nat) : Prop where
  numbered : Numbered Icon.used Icon.id t.s.icons t.s.iconState.nextIconId count
  count_eq : t.s.iconState.iconCount = .ofNat count
  placed : ∀ i, (t.s.icons i).used = true → Placed i (t.s.icons i)
  ready : ∀ i, (t.s.icons i).used = true → iconsReady t.s = true
  selected_iff : ∀ i, (t.s.icons i).selected = true ↔ t.on = some i
  on_used : ∀ i, t.on = some i → (t.s.icons i).used = true
  selectedId : t.s.iconState.selectedIconId = t.on.elim 0 fun i => (t.s.icons i).id
  tick : ∀ c i, t.last = some c → c.on = some i → t.s.lastClickTick = c.tick.toUInt32

theorem follows_trackInit (fbReady wmReady : Bool) : Follows (trackInit fbReady wmReady) 0 where
  numbered := .empty (by decide) fun _ => rfl
  count_eq := rfl
  placed := fun _ hi => absurd hi Bool.false_ne_true
  ready := fun _ hi => absurd hi Bool.false_ne_true
  selected_iff := fun _ => iff_of_false Bool.false_ne_true nofun
  on_used := nofun
  selectedId := rfl
  tick := nofun

section Invariant

variable {t : Tracked} {count : Nat} (h : Follows t count)

include h

theorem Follows.selected {i : Fin iconsMaxIcons} : t.s.Selected i ↔ t.on = some i := by
  unfold IconsState.Selected
  rw [h.selected_iff]
  exact and_iff_right_of_imp (h.on_used i)

theorem Follows.apart {i j : Fin iconsMaxIcons} {x y : Int32} (hi : t.s.Hits i x y)
    (hj : t.s.Hits j x y) : i = j :=
  (h.placed i hi.1).apart (h.placed j hj.1) hi.2 hj.2

theorem Follows.iconAt_eq_some_iff {i : Fin iconsMaxIcons} {x y : Int32} :
    t.s.iconAt x y = some i ↔ t.s.Hits i x y := by
  constructor
  · intro hat
    have hfound := firstSlot_some hat
    rwa [Bool.and_eq_true] at hfound
  · intro hi
    apply firstSlot_of_unique
    · rw [hi.1, hi.2]
      rfl
    · intro j hj
      rw [Bool.and_eq_true] at hj
      exact h.apart hj hi

theorem Follows.selection : Selection t where
  unique := fun i j hi hj => by
    rw [h.selected] at hi hj
    exact Option.some.inj (hi.symm.trans hj)
  named := fun i hi => by
    rw [h.selectedId, h.selected.mp hi]
    rfl
  zero_iff := by
    rw [h.selectedId]
    cases hon : t.on with
    | none =>
        refine iff_of_true rfl fun i hi => ?_
        rw [h.selected, hon] at hi
        cases hi
    | some i =>
        have hne := h.numbered.number_ne_zero (h.on_used i hon)
        exact iff_of_false hne fun hall => hall i (h.selected.mpr hon)
  apart := fun _ _ _ _ hi hj => h.apart hi hj

theorem Follows.select_on (tick : UInt32) :
    t.s.select t.on tick = { t.s with lastClickTick := tick } := by
  have hicons : (fun i => { t.s.icons i with selected := decide (t.on = some i) }) = t.s.icons := by
    funext i
    have hi : decide (t.on = some i) = (t.s.icons i).selected := by
      rw [Bool.eq_iff_iff, decide_eq_true_iff, h.selected_iff]
    rw [hi]
  unfold IconsState.select
  rw [hicons, ← h.selectedId]

theorem Follows.select (on : Option (Fin iconsMaxIcons)) (ticks : UInt64)
    (hon : ∀ i, on = some i → (t.s.icons i).used = true) :
    Follows ⟨t.s.select on ticks.toUInt32, some ⟨on, ticks⟩⟩ count where
  numbered := h.numbered.congr (fun _ => rfl) fun _ => rfl
  count_eq := h.count_eq
  placed := fun i hi => ⟨(h.placed i hi).x_eq, (h.placed i hi).y_eq, (h.placed i hi).width_eq,
    (h.placed i hi).height_eq⟩
  ready := h.ready
  selected_iff := fun _ => decide_eq_true_iff
  on_used := hon
  selectedId := rfl
  tick := fun c i hc _ => by
    cases hc
    rfl

theorem Follows.push (hready : iconsReady t.s = true) (hlt : count < iconsMaxIcons)
    (label launchCmd : Option CString) (color : UInt32) :
    Follows
      { t with s := { t.s with
        icons := Function.update t.s.icons ⟨count, hlt⟩
          (newIcon t.s.iconState.nextIconId t.s.iconState.iconCount label launchCmd color)
        iconState :=
          { t.s.iconState with
            iconCount := t.s.iconState.iconCount + 1
            nextIconId := t.s.iconState.nextIconId + 1 } } } (count + 1) := by
  have hslot : (t.s.icons ⟨count, hlt⟩).used = false := h.numbered.not_used hlt
  have hon : ∀ i, t.on = some i → i ≠ ⟨count, hlt⟩ := by
    rintro i hi rfl
    exact Bool.false_ne_true (hslot.symm.trans (h.on_used _ hi))
  refine ⟨h.numbered.push hlt rfl rfl, ?_, ?_, fun _ _ => hready, ?_, ?_, ?_, h.tick⟩
  · show t.s.iconState.iconCount + 1 = _
    rw [h.count_eq]
    exact (UInt64.ofNat_add _ 1).symm
  · intro i hi
    dsimp only at hi ⊢
    by_cases hi' : i = ⟨count, hlt⟩
    · subst hi'
      rw [Function.update_self, h.count_eq]
      exact placed_newIcon ⟨count, hlt⟩ _ label launchCmd color
    · rw [Function.update_of_ne hi'] at hi ⊢
      exact h.placed i hi
  · intro i
    dsimp only
    by_cases hi : i = ⟨count, hlt⟩
    · subst hi
      rw [Function.update_self]
      exact iff_of_false Bool.false_ne_true fun hat => hon _ hat rfl
    · rw [Function.update_of_ne hi]
      exact h.selected_iff i
  · intro i hi
    dsimp only
    rw [Function.update_of_ne (hon i hi)]
    exact h.on_used i hi
  · show t.s.iconState.selectedIconId = t.on.elim 0 _
    rw [h.selectedId]
    cases hat : t.on with
    | none => rfl
    | some i =>
        dsimp only [Option.elim_some]
        rw [Function.update_of_ne (hon i hat)]

theorem Follows.add (label launchCmd : Option CString) (color : UInt32) :
    ∃ count', Follows (trackStep t (.add label launchCmd color)) count' := by
  show ∃ count', Follows { t with s := (iconsAdd t.s label launchCmd color).1 } count'
  rcases iconsAdd_cases t.s label launchCmd color with hsame | ⟨hready, slot, hslot, hnew⟩
  · rw [hsame]
    exact ⟨count, h⟩
  · rw [h.numbered.free] at hslot
    rw [hnew]
    split at hslot
    · cases hslot
      exact ⟨count + 1, h.push hready _ label launchCmd color⟩
    · cases hslot

/-- The icon that the last left click hit is clicked again in time, on a clock of 32 bits. -/
theorem Follows.again_iff {i : Fin iconsMaxIcons} {ticks : UInt64}
    (htimely : ∀ c ∈ t.last, c.tick.toNat ≤ ticks.toNat ∧ ticks.toNat < c.tick.toNat + 2 ^ 32) :
    Again t.s i ticks.toUInt32 ↔
      ∃ c ∈ t.last, c.on = some i ∧ ticks.toNat ≤ c.tick.toNat + 30 := by
  have helapsed : ∀ c ∈ t.last, c.on = some i →
      (ticks.toUInt32 - t.s.lastClickTick ≤ 30 ↔ ticks.toNat ≤ c.tick.toNat + 30) := by
    intro c hc hi
    obtain ⟨hle, hlt⟩ := htimely c hc
    rw [h.tick c i hc hi, UInt32.le_iff_toNat_le, UInt32.toNat_sub, UInt64.toNat_toUInt32,
      UInt64.toNat_toUInt32]
    show _ ≤ 30 ↔ _
    omega
  unfold Again
  rw [h.selected_iff]
  constructor
  · rintro ⟨hon, -, htick⟩
    obtain ⟨c, hc, hi⟩ := Option.bind_eq_some_iff.mp hon
    exact ⟨c, hc, hi, (helapsed c hc hi).mp htick⟩
  · rintro ⟨c, hc, hi, hle⟩
    have hon : t.on = some i := Option.bind_eq_some_iff.mpr ⟨c, hc, hi⟩
    refine ⟨hon, ?_, (helapsed c hc hi).mpr hle⟩
    rw [h.selectedId, hon]
    rfl

theorem Follows.not_ready (hready : iconsReady t.s = false) (i : Fin iconsMaxIcons) :
    (t.s.icons i).used = false := by
  cases hused : (t.s.icons i).used with
  | false => rfl
  | true => exact absurd (hready.symm.trans (h.ready i hused)) Bool.false_ne_true

theorem Follows.leftClick {x y : Int32} {buttonMask : UInt8} {ticks : UInt64}
    (hleft : Left buttonMask) :
    Follows ⟨(iconsHandleClick t.s x y buttonMask ticks).state,
      some ⟨t.s.iconAt x y, ticks⟩⟩ count := by
  have hselect := h.select (t.s.iconAt x y) ticks fun i hi => (h.iconAt_eq_some_iff.mp hi).1
  cases hready : iconsReady t.s with
  | false =>
      have hat : t.s.iconAt x y = none :=
        firstSlot_eq_none_iff.mpr fun i => by rw [h.not_ready hready i, Bool.false_and]
      have hon : t.on = none := by
        cases hon : t.on with
        | none => rfl
        | some i => exact absurd (h.on_used i hon) (by simp [h.not_ready hready i])
      have hselected := h.selected_iff
      have hid := h.selectedId
      rw [hon] at hselected hid
      rw [(iconsHandleClick_of_not_ready hready).1, hat]
      exact ⟨h.numbered, h.count_eq, h.placed, h.ready, hselected, nofun, hid,
        fun c i hc hi => by cases hc; cases hi⟩
  | true =>
      cases hat : t.s.iconAt x y with
      | none =>
          rw [hat] at hselect
          rw [iconsHandleClick_miss hready hleft hat]
          exact hselect
      | some i =>
          rw [hat] at hselect
          by_cases hagain : Again t.s i ticks.toUInt32
          · have hon := (h.selected_iff i).mp hagain.1
            rw [← hon, h.select_on] at hselect
            rw [(iconsHandleClick_again hready hleft hat hagain).1, ← hon]
            exact hselect
          · rw [iconsHandleClick_first hready hleft hat hagain]
            exact hselect

theorem Follows.step (c : IconCall) : ∃ count', Follows (trackStep t c) count' := by
  cases c with
  | add label launchCmd color => exact h.add label launchCmd color
  | click x y buttonMask ticks =>
      refine ⟨count, ?_⟩
      unfold trackStep
      dsimp only
      by_cases hleft : Left buttonMask
      · rw [if_pos hleft]
        exact h.leftClick hleft
      · rw [if_neg hleft, (iconsHandleClick_of_not_left hleft).1]
        exact h

/-- What is launched depends on the last two left clicks. -/
theorem Follows.launched_iff {x y : Int32} {buttonMask : UInt8} {ticks : UInt64}
    (hleft : Left buttonMask) (id : UInt32) :
    (iconsHandleClick t.s x y buttonMask ticks).launched = some id ↔
      ∃ i, t.s.Hits i x y ∧ (t.s.icons i).id = id ∧ Again t.s i ticks.toUInt32 := by
  cases hready : iconsReady t.s with
  | false =>
      rw [(iconsHandleClick_of_not_ready hready).2]
      refine iff_of_false nofun ?_
      rintro ⟨i, hi, -⟩
      exact Bool.false_ne_true ((h.not_ready hready i).symm.trans hi.1)
  | true =>
      cases hat : t.s.iconAt x y with
      | none =>
          rw [iconsHandleClick_miss hready hleft hat]
          refine iff_of_false nofun ?_
          rintro ⟨i, hi, -⟩
          rw [h.iconAt_eq_some_iff.mpr hi] at hat
          cases hat
      | some i =>
          have hhit := h.iconAt_eq_some_iff.mp hat
          by_cases hagain : Again t.s i ticks.toUInt32
          · rw [(iconsHandleClick_again hready hleft hat hagain).2, Option.some.injEq]
            constructor
            · exact fun hid => ⟨i, hhit, hid, hagain⟩
            · rintro ⟨j, hj, hid, -⟩
              rw [h.apart hhit hj]
              exact hid
          · rw [iconsHandleClick_first hready hleft hat hagain]
            refine iff_of_false nofun ?_
            rintro ⟨j, hj, -, hbad⟩
            rw [← h.apart hhit hj] at hbad
            exact hagain hbad

theorem Follows.twoClicks (c : IconCall) (htimely : Timely t c) : TwoClicks t c := by
  cases c with
  | add => trivial
  | click x y buttonMask ticks =>
      refine ⟨fun id => ?_, fun hleft => (iconsHandleClick_of_not_left hleft).1⟩
      by_cases hleft : Left buttonMask
      · rw [h.launched_iff hleft, and_iff_right hleft]
        simp only [h.again_iff (htimely hleft)]
      · rw [(iconsHandleClick_of_not_left hleft).2]
        exact iff_of_false nofun fun hbad => hleft hbad.1

end Invariant

/-! ## Runs -/

/-- For every sequence of calls whose left clicks come in time order, the selection is in order
in every state, and every click launches what the last two left clicks say. -/
theorem clicks_run (fbReady wmReady : Bool) (calls : List IconCall)
    (htimely : AllSteps trackStep Timely (trackInit fbReady wmReady) calls) :
    AllStates trackStep Selection (trackInit fbReady wmReady) calls ∧
      AllSteps trackStep TwoClicks (trackInit fbReady wmReady) calls := by
  have hstart : ∃ count, Follows (trackInit fbReady wmReady) count :=
    ⟨0, follows_trackInit fbReady wmReady⟩
  have hstep : ∀ t c, (∃ count, Follows t count) → ∃ count, Follows (trackStep t c) count :=
    fun t c ⟨count, h⟩ => h.step c
  constructor
  · exact allStates_of_invariant hstep (fun t ⟨count, h⟩ => h.selection) calls hstart
  · exact htimely.imp_of_invariant hstep (fun t c ⟨count, h⟩ => h.twoClicks c) calls hstart

/-- Two icons, three clicks on the first one, a click on the second one and a right click. -/
def threeClicks : List IconCall :=
  [.add none none 0, .add none none 0, .click 20 20 1 4294967290, .click 20 20 1 4294967310,
    .click 20 20 1 4294967330, .click 120 20 1 4294967340, .click 120 20 2 4294967350]

theorem clicks_threeClicks :
    AllStates trackStep Selection (trackInit true true) threeClicks ∧
      AllSteps trackStep TwoClicks (trackInit true true) threeClicks :=
  clicks_run true true threeClicks (by decide)

end AcharyaOS.Icons
