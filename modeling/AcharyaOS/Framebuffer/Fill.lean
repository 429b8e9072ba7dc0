import AcharyaOS.Foundation.Layer
import AcharyaOS.Framebuffer.Code

/-!
# Filling rectangles

A rectangle that the range checks let through is filled as far as its ends, computed in 32
bits, say.
-/

namespace AcharyaOS.Framebuffer

open Foundation Foundation.Checked

/-! ## Pixels -/

/-- The column and the row of a pixel. -/
abbrev Point := Fin fbWidth × Fin fbHeight

theorem index_lt (p : Point) : p.2.val * fbWidth + p.1.val < fbWidth * fbHeight := by
  have hcol := p.1.isLt
  have hrow := p.2.isLt
  unfold fbWidth fbHeight at *
  omega

def index (p : Point) : Fin (fbWidth * fbHeight) := ⟨p.2.val * fbWidth + p.1.val, index_lt p⟩

def FbState.px (s : FbState) (p : Point) : UInt32 := s.backing (index p)

theorem index_injective {p q : Point} (h : index p = index q) : p = q := by
  have hval : p.2.val * fbWidth + p.1.val = q.2.val * fbWidth + q.1.val := congrArg Fin.val h
  have hp := p.1.isLt
  have hq := q.1.isLt
  unfold fbWidth at *
  apply Prod.ext
  · apply Fin.ext
    omega
  · apply Fin.ext
    omega

/-- `fb_init` has run. -/
structure Initialised (s : FbState) : Prop where
  width : s.info.width = .ofNat fbWidth
  height : s.info.height = .ofNat fbHeight
  pixelCount : s.info.pixelCount = .ofNat (fbWidth * fbHeight)
  ready : s.info.ready = true

theorem Initialised.of_info {s t : FbState} (h : Initialised s) (hinfo : t.info = s.info) :
    Initialised t :=
  ⟨hinfo ▸ h.width, hinfo ▸ h.height, hinfo ▸ h.pixelCount, hinfo ▸ h.ready⟩

theorem fbStore_eq (s : FbState) (color : UInt32) {row col width : UInt32}
    (hwidth : width = .ofNat fbWidth) (hrow : row.toNat < fbHeight) (hcol : col.toNat < fbWidth) :
    ∃ t, fbStore color (row * width + col) s = some t ∧ t.info = s.info ∧
      ∀ p : Point, t.px p =
        if p.2.val = row.toNat ∧ p.1.val = col.toNat then color else s.px p := by
  have hindex : (row * width + col).toNat = row.toNat * fbWidth + col.toNat := by
    have hwidth' : width.toNat = 320 := by rw [hwidth]; rfl
    unfold fbHeight fbWidth at *
    rw [UInt32.toNat_add, UInt32.toNat_mul, hwidth']
    omega
  have hlt : (row * width + col).toNat < fbWidth * fbHeight := by
    rw [hindex]
    exact index_lt (⟨col.toNat, hcol⟩, ⟨row.toNat, hrow⟩)
  refine ⟨{ s with backing := Function.update s.backing ⟨_, hlt⟩ color }, ?_, rfl, fun p => ?_⟩
  · unfold fbStore
    rw [writeAt_of_lt s.backing hlt color, Option.map_some]
  · have hpoint : (⟨_, hlt⟩ : Fin (fbWidth * fbHeight)) =
        index (⟨col.toNat, hcol⟩, ⟨row.toNat, hrow⟩) := Fin.ext hindex
    show Function.update s.backing ⟨_, hlt⟩ color (index p) = _
    rw [hpoint]
    by_cases hp : p.2.val = row.toNat ∧ p.1.val = col.toNat
    · have heq : p = (⟨col.toNat, hcol⟩, ⟨row.toNat, hrow⟩) := Prod.ext (Fin.ext hp.2) (Fin.ext hp.1)
      rw [if_pos hp, heq, Function.update_self]
    · have hne : index p ≠ index (⟨col.toNat, hcol⟩, ⟨row.toNat, hrow⟩) := by
        intro heq
        have hpq := index_injective heq
        exact hp ⟨congrArg (fun q : Point => q.2.val) hpq, congrArg (fun q : Point => q.1.val) hpq⟩
      rw [if_neg hp, Function.update_of_ne hne]
      rfl

theorem fbClear_spec {s : FbState} (hs : Initialised s) (color : UInt32) :
    ∃ t, fbClear s color = some t ∧ Initialised t ∧ ∀ p, t.px p = color := by
  have hcount : s.info.pixelCount.toNat = fbWidth * fbHeight := by
    rw [hs.pixelCount]
    rfl
  have hbody : ∀ (i : UInt32) (t : FbState), i < s.info.pixelCount →
      (t.info = s.info ∧ ∀ k : Fin (fbWidth * fbHeight), k.val < i.toNat → t.backing k = color) →
      ∃ u, fbStore color i t = some u ∧ u.info = s.info ∧
        ∀ k : Fin (fbWidth * fbHeight), k.val < i.toNat + 1 → u.backing k = color := by
    rintro i t hi ⟨hinfo, hdone⟩
    have hlt : i.toNat < fbWidth * fbHeight := by
      rw [← hcount]
      exact UInt32.lt_iff_toNat_lt.mp hi
    refine ⟨{ t with backing := Function.update t.backing ⟨_, hlt⟩ color }, ?_, hinfo, ?_⟩
    · unfold fbStore
      rw [writeAt_of_lt t.backing hlt color, Option.map_some]
    · intro k hk
      show Function.update t.backing ⟨_, hlt⟩ color k = color
      by_cases hkey : k = ⟨i.toNat, hlt⟩
      · rw [hkey, Function.update_self]
      · rw [Function.update_of_ne hkey]
        exact hdone k (Nat.lt_of_le_of_ne (Nat.le_of_lt_succ hk) fun heq => hkey (Fin.ext heq))
  obtain ⟨t, ht, hinfo, hdone⟩ := countUp_rule
    (P := fun n t => t.info = s.info ∧
      ∀ k : Fin (fbWidth * fbHeight), k.val < n → t.backing k = color)
    hbody 0 s ⟨rfl, fun k hk => absurd hk (Nat.not_lt_zero k.val)⟩
  have hinit := hs.of_info hinfo
  refine ⟨{ t with info := { t.info with background := color } }, ?_,
    ⟨hinit.width, hinit.height, hinit.pixelCount, hinit.ready⟩, fun p => ?_⟩
  · unfold fbClear
    rw [ht, Option.map_some]
  · apply hdone
    rw [hcount]
    exact Nat.lt_of_lt_of_le (index p).isLt (Nat.le_max_right _ _)

theorem fbInit_spec (s : FbState) :
    ∃ t, fbInit s = some t ∧ Initialised t ∧ ∀ p, t.px p = 0xFF000000 :=
  fbClear_spec ⟨rfl, rfl, rfl, rfl⟩ 0xFF000000

/-! ## The loops -/

/-- The pixels from column `x` and row `y` up to the ends. -/
def Between (x xEnd y yEnd : Nat) (p : Point) : Prop :=
  (x ≤ p.1.val ∧ p.1.val < xEnd) ∧ y ≤ p.2.val ∧ p.2.val < yEnd

instance (x xEnd y yEnd : Nat) : DecidablePred (Between x xEnd y yEnd) := fun p =>
  inferInstanceAs (Decidable ((x ≤ p.1.val ∧ p.1.val < xEnd) ∧ y ≤ p.2.val ∧ p.2.val < yEnd))

/-- A state that a fill of the pixels has led to. -/
def Painted (s : FbState) (r : Point → Prop) [DecidablePred r] (color : UInt32) (t : FbState) :
    Prop :=
  t.info = s.info ∧ ∀ p, t.px p = if r p then color else s.px p

theorem Painted.congr {s t : FbState} {r r' : Point → Prop} [DecidablePred r] [DecidablePred r']
    {color : UInt32} (h : Painted s r color t) (hr : ∀ p, r p ↔ r' p) : Painted s r' color t := by
  refine ⟨h.1, fun p => ?_⟩
  rw [h.2 p]
  exact if_congr (hr p) rfl rfl

/-- Two fills with one colour are a fill of both regions. -/
theorem Painted.trans {s t u : FbState} {r r' : Point → Prop} [DecidablePred r]
    [DecidablePred r'] {color : UInt32} (h : Painted s r color t) (h' : Painted t r' color u) :
    Painted s (fun p => r p ∨ r' p) color u := by
  refine ⟨h'.1.trans h.1, fun p => ?_⟩
  rw [h'.2 p, h.2 p]
  by_cases hr' : r' p
  · rw [if_pos hr', if_pos (.inr hr')]
  · by_cases hr : r p
    · rw [if_neg hr', if_pos hr, if_pos (.inl hr)]
    · rw [if_neg hr', if_neg hr, if_neg (not_or.mpr ⟨hr, hr'⟩)]

theorem Painted.refl (s : FbState) (color : UInt32) {r : Point → Prop} [DecidablePred r]
    (h : ∀ p, ¬ r p) : Painted s r color s :=
  ⟨rfl, fun p => (if_neg (h p)).symm⟩

section Loops

variable {s : FbState} (hs : Initialised s) (color : UInt32)

include hs

theorem countUp_cols {row x xEnd : UInt32} (hrow : row.toNat < fbHeight)
    (hend : xEnd.toNat ≤ fbWidth) :
    ∃ t, countUp xEnd (fun col => fbStore color (row * s.info.width + col)) x s = some t ∧
      Painted s (Between x.toNat xEnd.toNat row.toNat (row.toNat + 1)) color t := by
  have hstart : Painted s (Between x.toNat x.toNat row.toNat (row.toNat + 1)) color s := by
    apply Painted.refl
    unfold Between
    omega
  have hbody : ∀ (col : UInt32) (t : FbState), col < xEnd →
      x.toNat ≤ col.toNat ∧
        Painted s (Between x.toNat col.toNat row.toNat (row.toNat + 1)) color t →
      ∃ u, fbStore color (row * s.info.width + col) t = some u ∧ x.toNat ≤ col.toNat + 1 ∧
        Painted s (Between x.toNat (col.toNat + 1) row.toNat (row.toNat + 1)) color u := by
    rintro col t hcol ⟨hle, hpainted⟩
    have hlt : col.toNat < fbWidth := Nat.lt_of_lt_of_le (UInt32.lt_iff_toNat_lt.mp hcol) hend
    obtain ⟨u, hu, hinfo, hpx⟩ := fbStore_eq t color hs.width hrow hlt
    refine ⟨u, hu, Nat.le_succ_of_le hle, (hpainted.trans ⟨hinfo, hpx⟩).congr fun p => ?_⟩
    unfold Between
    omega
  obtain ⟨t, ht, hpainted⟩ := countUp_rule
    (P := fun n t => x.toNat ≤ n ∧
      Painted s (Between x.toNat n row.toNat (row.toNat + 1)) color t)
    hbody x s ⟨Nat.le_refl _, hstart⟩
  refine ⟨t, ht, hpainted.2.congr fun p => ?_⟩
  unfold Between
  omega

/-- The loops of `fb_fill_rect`; they do nothing where an end is in front of its start. -/
theorem countUp_rows {x xEnd y yEnd : UInt32} (hx : xEnd.toNat ≤ fbWidth)
    (hy : yEnd.toNat ≤ fbHeight) :
    ∃ t, countUp yEnd (fun row =>
        countUp xEnd (fun col => fbStore color (row * s.info.width + col)) x) y s = some t ∧
      Painted s (Between x.toNat xEnd.toNat y.toNat yEnd.toNat) color t := by
  have hstart : Painted s (Between x.toNat xEnd.toNat y.toNat y.toNat) color s := by
    apply Painted.refl
    unfold Between
    omega
  have hbody : ∀ (row : UInt32) (t : FbState), row < yEnd →
      y.toNat ≤ row.toNat ∧ Painted s (Between x.toNat xEnd.toNat y.toNat row.toNat) color t →
      ∃ u, countUp xEnd (fun col => fbStore color (row * s.info.width + col)) x t = some u ∧
        y.toNat ≤ row.toNat + 1 ∧
        Painted s (Between x.toNat xEnd.toNat y.toNat (row.toNat + 1)) color u := by
    rintro row t hrow ⟨hle, hpainted⟩
    have hlt : row.toNat < fbHeight := Nat.lt_of_lt_of_le (UInt32.lt_iff_toNat_lt.mp hrow) hy
    obtain ⟨u, hu, hcols⟩ := countUp_cols (hs.of_info hpainted.1) color hlt hx
    rw [hpainted.1] at hu
    refine ⟨u, hu, Nat.le_succ_of_le hle, (hpainted.trans hcols).congr fun p => ?_⟩
    unfold Between
    omega
  obtain ⟨t, ht, hpainted⟩ := countUp_rule
    (P := fun n t => y.toNat ≤ n ∧ Painted s (Between x.toNat xEnd.toNat y.toNat n) color t)
    hbody y s ⟨Nat.le_refl _, hstart⟩
  refine ⟨t, ht, hpainted.2.congr fun p => ?_⟩
  unfold Between
  omega

end Loops

/-! ## The function -/

/-- The range checks of `fb_fill_rect`: the rectangle is not empty, it begins inside, and its
ends modulo 2^32 are inside. -/
def Checked (x y width height : UInt32) : Prop :=
  width ≠ 0 ∧ height ≠ 0 ∧ (x.toNat < fbWidth ∧ y.toNat < fbHeight) ∧
    (x.toNat + width.toNat) % 2 ^ 32 ≤ fbWidth ∧ (y.toNat + height.toNat) % 2 ^ 32 ≤ fbHeight

instance (x y width height : UInt32) : Decidable (Checked x y width height) :=
  inferInstanceAs (Decidable (_ ∧ _))

section Guards

variable {s : FbState} (hs : Initialised s) (x y : UInt32)

include hs

theorem Initialised.outside_iff : (x ≥ s.info.width || y ≥ s.info.height : Bool) = true ↔
    ¬ (x.toNat < fbWidth ∧ y.toNat < fbHeight) := by
  rw [Bool.or_eq_true, decide_eq_true_iff, decide_eq_true_iff, ge_iff_le, ge_iff_le, hs.width,
    hs.height, UInt32.le_iff_toNat_le, UInt32.le_iff_toNat_le]
  show fbWidth ≤ x.toNat ∨ fbHeight ≤ y.toNat ↔ _
  omega

theorem Initialised.beyond_iff : (x > s.info.width || y > s.info.height : Bool) = true ↔
    ¬ (x.toNat ≤ fbWidth ∧ y.toNat ≤ fbHeight) := by
  rw [Bool.or_eq_true, decide_eq_true_iff, decide_eq_true_iff, gt_iff_lt, gt_iff_lt, hs.width,
    hs.height, UInt32.lt_iff_toNat_lt, UInt32.lt_iff_toNat_lt]
  show fbWidth < x.toNat ∨ fbHeight < y.toNat ↔ _
  omega

end Guards

theorem fbFillRect_spec {s : FbState} (hs : Initialised s) (x y width height color : UInt32) :
    (¬ Checked x y width height ∧ fbFillRect s x y width height color = some (s, -1)) ∨
      (Checked x y width height ∧ ∃ t, fbFillRect s x y width height color = some (t, 0) ∧
        Painted s (Between x.toNat ((x.toNat + width.toNat) % 2 ^ 32) y.toNat
          ((y.toNat + height.toNat) % 2 ^ 32)) color t) := by
  have hempty : (!s.info.ready || width == 0 || height == 0) = true ↔ width = 0 ∨ height = 0 := by
    rw [hs.ready, Bool.not_true, Bool.false_or, Bool.or_eq_true, beq_iff_eq, beq_iff_eq]
  unfold fbFillRect Checked
  rw [← UInt32.toNat_add, ← UInt32.toNat_add]
  by_cases hzero : width = 0 ∨ height = 0
  · rw [if_pos (hempty.mpr hzero)]
    refine .inl ⟨?_, rfl⟩
    rintro ⟨hwidth, hheight, -⟩
    exact hzero.elim hwidth hheight
  rw [if_neg fun h => hzero (hempty.mp h)]
  obtain ⟨hwidth, hheight⟩ := not_or.mp hzero
  dsimp only
  by_cases hstart : x.toNat < fbWidth ∧ y.toNat < fbHeight
  · rw [if_neg fun h => (hs.outside_iff x y).mp h hstart]
    by_cases hends : (x + width).toNat ≤ fbWidth ∧ (y + height).toNat ≤ fbHeight
    · rw [if_neg fun h => (hs.beyond_iff (x + width) (y + height)).mp h hends]
      obtain ⟨t, ht, hpainted⟩ := countUp_rows (x := x) (y := y) hs color hends.1 hends.2
      refine .inr ⟨⟨hwidth, hheight, hstart, hends⟩, t, ?_, hpainted⟩
      rw [ht, Option.map_some]
    · rw [if_pos ((hs.beyond_iff (x + width) (y + height)).mpr hends)]
      exact .inl ⟨fun h => hends h.2.2.2, rfl⟩
  · rw [if_pos ((hs.outside_iff x y).mpr hstart)]
    exact .inl ⟨fun h => hstart h.2.2.1, rfl⟩

/-- The rectangle is not empty and, as integers, its ends are inside. -/
def Inside (x y width height : UInt32) : Prop :=
  width ≠ 0 ∧ height ≠ 0 ∧ x.toNat + width.toNat ≤ fbWidth ∧ y.toNat + height.toNat ≤ fbHeight

theorem Inside.ends {x y width height : UInt32} (h : Inside x y width height) :
    Checked x y width height ∧
      (x.toNat + width.toNat) % 2 ^ 32 = x.toNat + width.toNat ∧
      (y.toNat + height.toNat) % 2 ^ 32 = y.toNat + height.toNat := by
  obtain ⟨hwidth, hheight, hx, hy⟩ := h
  have hw0 : width.toNat ≠ 0 := fun h0 => hwidth (UInt32.toNat_inj.mp h0)
  have hh0 : height.toNat ≠ 0 := fun h0 => hheight (UInt32.toNat_inj.mp h0)
  unfold Checked fbWidth fbHeight
  unfold fbWidth at hx
  unfold fbHeight at hy
  refine ⟨⟨hwidth, hheight, ?_⟩, ?_⟩
  · omega
  · omega

theorem fbFillRect_inside {s : FbState} (hs : Initialised s) {x y width height : UInt32}
    (h : Inside x y width height) (color : UInt32) :
    ∃ t, fbFillRect s x y width height color = some (t, 0) ∧
      Painted s (Between x.toNat (x.toNat + width.toNat) y.toNat (y.toNat + height.toNat)) color
        t := by
  obtain ⟨hchecked, hx, hy⟩ := h.ends
  rcases fbFillRect_spec hs x y width height color with ⟨hno, -⟩ | ⟨-, t, hcall, hpaint⟩
  · exact absurd hchecked hno
  · rw [hx, hy] at hpaint
    exact ⟨t, hcall, hpaint⟩

/-- The call returns 0 exactly for a rectangle inside, of which it changes exactly the pixels
to the colour, and changes nothing when it returns -1. -/
def FillsExactly (s : FbState) (x y width height color : UInt32) : Prop :=
  ∃ t result, fbFillRect s x y width height color = some (t, result) ∧
    (result = 0 ∨ result = -1) ∧
    (result = 0 ↔ Inside x y width height) ∧
    (Inside x y width height → ∀ p, t.px p =
      if Between x.toNat (x.toNat + width.toNat) y.toNat (y.toNat + height.toNat) p then color
      else s.px p) ∧
    (result = -1 → ∀ p, t.px p = s.px p)

/-- An end that passes 2^32. -/
def Wraps (start length : UInt32) : Prop := 2 ^ 32 ≤ start.toNat + length.toNat

/-- The rectangle begins inside and passes for one that ends there, because an end passes
2^32. -/
def PassesFor (x y width height : UInt32) : Prop :=
  width ≠ 0 ∧ height ≠ 0 ∧ (x.toNat < fbWidth ∧ y.toNat < fbHeight) ∧
    (x.toNat + width.toNat ≤ fbWidth ∨ Wraps x width) ∧
    (y.toNat + height.toNat ≤ fbHeight ∨ Wraps y height) ∧ (Wraps x width ∨ Wraps y height)

theorem PassesFor.checked {x y width height : UInt32} (h : PassesFor x y width height) :
    Checked x y width height := by
  have hx := x.toNat_lt
  have hy := y.toNat_lt
  have hw := width.toNat_lt
  have hh := height.toNat_lt
  obtain ⟨hwidth, hheight, hstart, hends⟩ := h
  refine ⟨hwidth, hheight, hstart, ?_⟩
  unfold Wraps fbWidth fbHeight at hends
  unfold fbWidth fbHeight at hstart
  unfold fbWidth fbHeight
  omega

theorem PassesFor.not_inside {x y width height : UInt32} (h : PassesFor x y width height) :
    ¬ Inside x y width height := by
  rintro ⟨-, -, hx, hy⟩
  obtain ⟨-, -, -, -, -, hwraps⟩ := h
  unfold Wraps at hwraps
  unfold fbWidth at hx
  unfold fbHeight at hy
  omega

theorem inside_of_checked {x y width height : UInt32} (h : ¬ PassesFor x y width height)
    (hchecked : Checked x y width height) : Inside x y width height := by
  have hx := x.toNat_lt
  have hy := y.toNat_lt
  have hw := width.toNat_lt
  have hh := height.toNat_lt
  obtain ⟨hwidth, hheight, hstart, hends⟩ := hchecked
  unfold PassesFor Wraps fbWidth fbHeight at h
  unfold fbWidth fbHeight at hstart hends
  refine ⟨hwidth, hheight, ?_⟩
  unfold fbWidth fbHeight
  have hwraps : ¬ (_ ∧ _) := fun hends => h ⟨hwidth, hheight, hstart, hends⟩
  omega

theorem PassesFor.not_fillsExactly {s : FbState} (hs : Initialised s)
    {x y width height : UInt32} (hpasses : PassesFor x y width height) (color : UInt32) :
    ¬ FillsExactly s x y width height color := by
  rintro ⟨t, result, hcall, -, hresult, -⟩
  rcases fbFillRect_spec hs x y width height color with ⟨hno, -⟩ | ⟨-, u, hu, -⟩
  · exact hno hpasses.checked
  · have hzero : result = 0 := congrArg Prod.snd (Option.some.inj (hcall.symm.trans hu))
    exact hpasses.not_inside (hresult.mp hzero)

/-- `fb_fill_rect` is exact except for rectangles that begin inside and have an end beyond
2^32. -/
theorem fillsExactly_iff {s : FbState} (hs : Initialised s) (x y width height color : UInt32) :
    FillsExactly s x y width height color ↔ ¬ PassesFor x y width height := by
  constructor
  · exact fun hexact hpasses => hpasses.not_fillsExactly hs color hexact
  · intro hpasses
    by_cases hin : Inside x y width height
    · obtain ⟨t, hcall, hpaint⟩ := fbFillRect_inside hs hin color
      exact ⟨t, 0, hcall, .inl rfl, iff_of_true rfl hin, fun _ => hpaint.2,
        fun h => absurd h (by decide)⟩
    · rcases fbFillRect_spec hs x y width height color with ⟨-, hcall⟩ | ⟨hchecked, -⟩
      · exact ⟨s, -1, hcall, .inr rfl, iff_of_false (by decide) hin, fun h => absurd h hin,
          fun _ p => rfl⟩
      · exact absurd (inside_of_checked hpasses hchecked) hin

/-- A black framebuffer, as `fb_init` leaves it. -/
def fbBlack : FbState := fbSyncState ⟨fun _ => 0xFF000000, ⟨0, 0, 0, 0, 0, false, 0xFF000000, 0xFFFFFFFF⟩⟩

theorem initialised_fbBlack : Initialised fbBlack := ⟨rfl, rfl, rfl, rfl⟩

theorem fillsExactly_tile :
    FillsExactly fbBlack 20 20 120 40 0xFFE8B04C ↔ ¬ PassesFor 20 20 120 40 :=
  fillsExactly_iff initialised_fbBlack 20 20 120 40 0xFFE8B04C

/-- From column 10 on, a width of 2^32 - 1 ends at column 9. -/
theorem not_fillsExactly_wide :
    ¬ ∀ (s : FbState) (x y width height color : UInt32), Initialised s →
      FillsExactly s x y width height color := by
  intro h
  have hexact := h fbBlack 10 10 0xFFFFFFFF 1 0 initialised_fbBlack
  have hwraps : Wraps 10 0xFFFFFFFF := by
    unfold Wraps
    decide
  have hpasses : PassesFor 10 10 0xFFFFFFFF 1 :=
    ⟨by decide, by decide, by decide, .inr hwraps, .inl (by decide), .inl hwraps⟩
  exact hpasses.not_fillsExactly initialised_fbBlack 0 hexact

end AcharyaOS.Framebuffer
