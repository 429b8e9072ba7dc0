import AcharyaOS.Vga.Code

/-!
# The screen as the end of an endless terminal

What the driver is for: a terminal of 80 columns whose rows only grow in number, of which
the last 25 are on the screen.  Scrolling moves the cells instead of the window.
-/

namespace AcharyaOS.Vga

open Foundation.Run

/-- A terminal of 80 columns without a last row.  Rows from `height` on have not been used
yet and are blank. -/
structure Terminal where
  cell : Nat → Nat → UInt8
  height : Nat
  row : Nat
  col : Nat

namespace Terminal

def start : Terminal := ⟨fun _ _ => ' '.toUInt8, 25, 0, 0⟩

def write (t : Terminal) (row col : Nat) (c : UInt8) : Terminal :=
  { t with cell := fun r k => if r = row ∧ k = col then c else t.cell r k }

/-- The cursor goes to the next row, which is a new one below the last. -/
def newline (t : Terminal) : Terminal :=
  { t with height := max t.height (t.row + 2), row := t.row + 1, col := 0 }

def putchar (t : Terminal) (c : UInt8) : Terminal :=
  if c = '\n'.toUInt8 then t.newline
  else if c = '\r'.toUInt8 then { t with col := 0 }
  else if c = 8 then
    if t.col = 0 then t
    else { t with col := t.col - 1 }.write t.row (t.col - 1) ' '.toUInt8
  else if t.col + 1 = 80 then (t.write t.row t.col c).newline
  else { t.write t.row t.col c with col := t.col + 1 }

/-- The number nearest to `x` among those below `n`. -/
def clamp (x : Int) (n : Nat) : Nat := min x.toNat (n - 1)

def step (t : Terminal) : VgaCall → Terminal
  | .putchar c => t.putchar c
  | .setCursor row col => { t with row := t.height - 25 + clamp row 25, col := clamp col 80 }
  | .clear => start
  | .setColor _ _ => t

/-- Row `r` of the last 25. -/
def shown (t : Terminal) (r c : Nat) : UInt8 := t.cell (t.height - 25 + r) c

end Terminal

/-- An offset of one of the 2000 cells. -/
def InScreen (i : Int) : Prop := 0 ≤ i ∧ i < 2000

/-- The character in a cell of the screen. -/
def VgaState.shown (s : VgaState) (r c : Nat) : UInt8 := (s.buffer (r * 80 + c)).toUInt8

/-- The position in the cursor registers of the controller. -/
def VgaState.hwPosition (s : VgaState) : Nat :=
  (s.registers vgaCursorHighReg).toNat * 256 + (s.registers vgaCursorLowReg).toNat

/-- The screen shows the end of the terminal. -/
structure Shows (s : VgaState) (t : Terminal) : Prop where
  height_ge : 25 ≤ t.height
  row_lt : t.row < t.height
  row_ge : t.height ≤ t.row + 25
  row_eq : s.cursorRow + t.height = t.row + 25
  col_lt : t.col < 80
  col_eq : s.cursorCol = t.col
  cells : ∀ r c, r < 25 → c < 80 → s.shown r c = t.shown r c
  unused : ∀ r c, t.height ≤ r → t.cell r c = ' '.toUInt8
  written : ∀ i ∈ s.written, InScreen i

/-! ## Drawing -/

/-- Only cells of the screen have been written. -/
structure Drawn (s s' : VgaState) : Prop where
  row_eq : s'.cursorRow = s.cursorRow
  col_eq : s'.cursorCol = s.cursorCol
  color_eq : s'.currentColor = s.currentColor
  written : (∀ i ∈ s.written, InScreen i) → ∀ i ∈ s'.written, InScreen i

theorem Drawn.refl (s : VgaState) : Drawn s s := ⟨rfl, rfl, rfl, fun h => h⟩

theorem Drawn.store {s s' : VgaState} (h : Drawn s s') {i : Int} (hi : InScreen i)
    (cell : UInt16) : Drawn s (s'.store i cell) where
  row_eq := h.row_eq
  col_eq := h.col_eq
  color_eq := h.color_eq
  written hs j hj := by
    rcases List.mem_cons.mp hj with rfl | hj
    · exact hi
    · exact h.written hs j hj

theorem toUInt8_vgaMakeCell (c color : UInt8) : (vgaMakeCell c color).toUInt8 = c := by
  unfold vgaMakeCell
  have hcolor : (color.toUInt16 <<< 8).toUInt8 = 0 := by
    rw [← UInt8.toNat_inj, UInt16.toNat_toUInt8, UInt16.toNat_shiftLeft]
    have hlt := color.toNat_lt
    simp only [UInt8.toNat_toUInt16, UInt16.reduceToNat, Nat.reduceMod, Nat.shiftLeft_eq]
    show _ = 0
    omega
  rw [UInt16.toUInt8_or, hcolor, UInt8.toUInt8_toUInt16, UInt8.or_zero]

/-- The rows have moved up by one; the last one is still there. -/
theorem vgaMoveRows_spec (s : VgaState) :
    Drawn s (vgaMoveRows s) ∧
      ∀ i : Int, (vgaMoveRows s).buffer i =
        if 0 ≤ i ∧ i < 1920 then s.buffer (i + 80) else s.buffer i := by
  -- the rows in front of row `n` are done, and `col` cells of row `n`
  let Done (n col : Nat) (s' : VgaState) : Prop := Drawn s s' ∧ ∀ i : Int,
    s'.buffer i = if 0 ≤ i ∧ i < n * 80 + col then s.buffer (i + 80) else s.buffer i
  have hrows : Done 24 0 (vgaMoveRows s) := by
    apply forRange_rule (P := fun n => Done n 0)
    · refine ⟨.refl s, fun i => ?_⟩
      rw [if_neg (by omega)]
    · intro n s₁ hn hdone
      have hrow : Done n 80 (forRange vgaCols.toNat (fun col s =>
          s.store (n * vgaCols + col) (s.buffer ((n + 1) * vgaCols + col))) s₁) := by
        apply forRange_rule (P := Done n) hdone
        intro col s₂ hcol hdone₂
        change n < 24 at hn
        change col < 80 at hcol
        have hscreen : InScreen (n * vgaCols + col) := by
          show 0 ≤ (n : Int) * 80 + col ∧ (n : Int) * 80 + col < 2000
          omega
        refine ⟨hdone₂.1.store hscreen _, fun i => ?_⟩
        show Function.update s₂.buffer (n * 80 + col) (s₂.buffer ((n + 1) * 80 + col)) i = _
        by_cases hi : i = n * 80 + col
        · -- the cell below has not been overwritten yet
          have hbelow := hdone₂.2 ((n + 1) * 80 + col)
          rw [if_neg (by omega)] at hbelow
          rw [hi, Function.update_self, hbelow, if_pos (by omega)]
          congr 1
          omega
        · rw [Function.update_of_ne hi, hdone₂.2 i]
          by_cases hlt : 0 ≤ i ∧ i < n * 80 + col
          · rw [if_pos hlt, if_pos (by omega)]
          · rw [if_neg hlt, if_neg (by omega)]
      refine ⟨hrow.1, fun i => ?_⟩
      rw [hrow.2 i]
      by_cases hlt : 0 ≤ i ∧ i < n * 80 + 80
      · rw [if_pos (by omega), if_pos (by omega)]
      · rw [if_neg (by omega), if_neg (by omega)]
  exact hrows

theorem fill_spec (s : VgaState) (first : Int) (n : Nat) (hfirst : 0 ≤ first)
    (hn : first + n ≤ 2000) :
    Drawn s (forRange n (fun i s => s.store (first + i) s.blank) s) ∧
      ∀ i : Int, (forRange n (fun i s => s.store (first + i) s.blank) s).buffer i =
        if first ≤ i ∧ i < first + n then s.blank else s.buffer i := by
  apply forRange_rule (P := fun n s' => Drawn s s' ∧ ∀ i : Int,
    s'.buffer i = if first ≤ i ∧ i < first + n then s.blank else s.buffer i)
  · refine ⟨.refl s, fun i => ?_⟩
    rw [if_neg (by omega)]
  · intro k s₁ hk hdone
    refine ⟨hdone.1.store ⟨by omega, by omega⟩ _, fun i => ?_⟩
    have hblank : s₁.blank = s.blank := by
      unfold VgaState.blank
      rw [hdone.1.color_eq]
    show Function.update s₁.buffer (first + k) s₁.blank i = _
    by_cases hi : i = first + k
    · rw [hi, Function.update_self, hblank, if_pos (by omega)]
    · rw [Function.update_of_ne hi, hdone.2 i]
      by_cases hlt : first ≤ i ∧ i < first + k
      · rw [if_pos hlt, if_pos (by omega)]
      · rw [if_neg hlt, if_neg (by omega)]

/-- After a scroll every row shows the one below it, and the last row is blank. -/
theorem vgaScroll_spec (s : VgaState) :
    (vgaScroll s).cursorRow = 24 ∧ (vgaScroll s).cursorCol = s.cursorCol ∧
      ((∀ i ∈ s.written, InScreen i) → ∀ i ∈ (vgaScroll s).written, InScreen i) ∧
      ∀ r c, r < 25 → c < 80 →
        (vgaScroll s).shown r c = if r = 24 then ' '.toUInt8 else s.shown (r + 1) c := by
  obtain ⟨hmoved, hcells⟩ := vgaMoveRows_spec s
  obtain ⟨hfilled, hlast⟩ := fill_spec (vgaMoveRows s) 1920 80 (by decide) (by decide)
  have hscroll : vgaScroll s = { forRange 80 (fun i s => s.store (1920 + i) s.blank)
      (vgaMoveRows s) with cursorRow := 24 } := rfl
  rw [hscroll]
  generalize forRange 80 (fun i s => VgaState.store s (1920 + i) s.blank) (vgaMoveRows s) = s'
    at hfilled hlast
  refine ⟨rfl, hfilled.col_eq.trans hmoved.col_eq, fun h => hfilled.written (hmoved.written h),
    fun r c hr hc => ?_⟩
  show (s'.buffer (r * 80 + c)).toUInt8 = _
  rw [hlast]
  unfold VgaState.shown
  by_cases hr24 : r = 24
  · rw [if_pos hr24, if_pos (by omega)]
    exact toUInt8_vgaMakeCell _ _
  · have hbelow := hcells (r * 80 + c)
    rw [if_pos (by omega)] at hbelow
    rw [if_neg hr24, if_neg (by omega), hbelow]
    congr 2
    push_cast
    omega

/-! ## The hardware cursor -/

theorem bytes_position (p : UInt16) :
    (p >>> 8 &&& 0xFF).toUInt8.toNat * 256 + (p &&& 0xFF).toUInt8.toNat = p.toNat := by
  have hlt := p.toNat_lt
  have hmask : ∀ n : Nat, n &&& (0xFF : UInt16).toNat = n % 256 :=
    fun n => Nat.and_two_pow_sub_one_eq_mod n 8
  rw [UInt16.toNat_toUInt8, UInt16.toNat_toUInt8, UInt16.toNat_and, UInt16.toNat_and,
    UInt16.toNat_shiftRight, hmask, hmask]
  simp only [UInt16.reduceToNat, Nat.reduceMod, Nat.shiftRight_eq_div_pow]
  omega

theorem hwPosition_vgaHwSetCursor (s : VgaState) {row col : Int} (h : InScreen (row * 80 + col)) :
    ((vgaHwSetCursor s row col).hwPosition : Int) = row * 80 + col := by
  have hposition : (UInt16.ofInt (row * 80 + col)).toNat = (row * 80 + col).toNat := by
    obtain ⟨h0, h2000⟩ := h
    obtain ⟨n, hn⟩ := Int.eq_ofNat_of_zero_le h0
    rw [hn] at h2000 ⊢
    unfold UInt16.ofInt
    simp
    omega
  have hregisters : (vgaHwSetCursor s row col).hwPosition =
      (UInt16.ofInt (row * 80 + col)).toNat := bytes_position _
  rw [hregisters, hposition, Int.toNat_of_nonneg h.1]

/-- The registers follow the cursor. -/
def Pointed (s : VgaState) : Prop := (s.hwPosition : Int) = s.cursorRow * 80 + s.cursorCol

theorem Shows.point {s : VgaState} {t : Terminal} (h : Shows s t) :
    Shows (vgaHwSetCursor s s.cursorRow s.cursorCol) t ∧
      Pointed (vgaHwSetCursor s s.cursorRow s.cursorCol) := by
  have hscreen : InScreen (s.cursorRow * 80 + s.cursorCol) := by
    have hrow := h.row_eq
    have hcol := h.col_eq
    have hlt := h.row_lt
    have hge := h.row_ge
    have hcol' := h.col_lt
    unfold InScreen
    omega
  exact ⟨⟨h.height_ge, h.row_lt, h.row_ge, h.row_eq, h.col_lt, h.col_eq, h.cells, h.unused,
    h.written⟩, hwPosition_vgaHwSetCursor s hscreen⟩

/-! ## One call -/

section Calls

variable {s : VgaState} {t : Terminal}

theorem Shows.write (h : Shows s t) {col : Nat} (hcol : col < 80) (c color : UInt8) :
    Shows (s.store (s.cursorRow * 80 + col) (vgaMakeCell c color)) (t.write t.row col c) := by
  have hheight := h.height_ge
  have hrow := h.row_eq
  have hlt := h.row_lt
  have hge := h.row_ge
  refine ⟨h.height_ge, h.row_lt, h.row_ge, h.row_eq, h.col_lt, h.col_eq, ?_, ?_, ?_⟩
  · intro r k hr hk
    have hshown := h.cells r k hr hk
    unfold VgaState.shown Terminal.shown at hshown ⊢
    show (Function.update s.buffer (s.cursorRow * 80 + col) _ (r * 80 + k)).toUInt8 =
      if t.height - 25 + r = t.row ∧ k = col then c else t.cell (t.height - 25 + r) k
    by_cases hcell : t.height - 25 + r = t.row ∧ k = col
    · have hoffset : (r : Int) * 80 + k = s.cursorRow * 80 + col := by omega
      rw [if_pos hcell, hoffset, Function.update_self, toUInt8_vgaMakeCell]
    · have hoffset : (r : Int) * 80 + k ≠ s.cursorRow * 80 + col := by omega
      rw [if_neg hcell, Function.update_of_ne hoffset, hshown]
  · intro r k hr
    show (if r = t.row ∧ k = col then c else t.cell r k) = _
    have hr' : t.height ≤ r := hr
    rw [if_neg (by omega)]
    exact h.unused r k hr
  · intro i hi
    rcases List.mem_cons.mp hi with rfl | hi
    · unfold InScreen
      omega
    · exact h.written i hi

theorem Shows.moveCol (h : Shows s t) {col : Nat} (hcol : col < 80) :
    Shows { s with cursorCol := col } { t with col := col } :=
  ⟨h.height_ge, h.row_lt, h.row_ge, h.row_eq, hcol, rfl, h.cells, h.unused, h.written⟩

theorem Shows.newline (h : Shows s t) {s' : VgaState}
    (hs' : s' = { s with cursorCol := 0, cursorRow := s.cursorRow + 1 }) :
    Shows (if s'.cursorRow ≥ vgaRows then vgaScroll s' else s') t.newline := by
  have hrow := h.row_eq
  have hheight := h.height_ge
  have hlt := h.row_lt
  have hge := h.row_ge
  have hrow' : s'.cursorRow = s.cursorRow + 1 := by rw [hs']
  have hcells' : ∀ r c, s'.shown r c = s.shown r c := by
    intro r c
    rw [hs']
    rfl
  have hwritten' : ∀ i ∈ s'.written, InScreen i := by
    rw [hs']
    exact h.written
  have hmax : t.newline.height = max t.height (t.row + 2) := rfl
  have hnext : t.newline.row = t.row + 1 := rfl
  have hcol' : t.newline.col < 80 := Nat.zero_lt_succ 79
  have hcell : t.newline.cell = t.cell := by
    unfold Terminal.newline
    rfl
  by_cases hlast : s'.cursorRow ≥ vgaRows
  · -- the terminal gets a row, and the window moves with it
    have hheight' : t.newline.height = t.height + 1 := by
      change s'.cursorRow ≥ 25 at hlast
      omega
    obtain ⟨hscrollRow, hscrollCol, hscrollWritten, hscrollCells⟩ := vgaScroll_spec s'
    rw [if_pos hlast]
    refine ⟨by omega, by omega, by omega, by omega, hcol', ?_, ?_, ?_,
      hscrollWritten hwritten'⟩
    · rw [hscrollCol, hs']
      rfl
    · intro r c hr hc
      rw [hscrollCells r c hr hc]
      unfold Terminal.shown
      rw [hheight', hcell]
      by_cases hr24 : r = 24
      · rw [if_pos hr24]
        exact (h.unused _ c (by omega)).symm
      · have hbelow : t.height + 1 - 25 + r = t.height - 25 + (r + 1) := by omega
        rw [if_neg hr24, hcells', h.cells (r + 1) c (by omega) hc, hbelow]
        rfl
    · intro r c hr
      rw [hcell]
      exact h.unused r c (by omega)
  · have hheight' : t.newline.height = t.height := by
      change ¬ s'.cursorRow ≥ 25 at hlast
      omega
    rw [if_neg hlast]
    refine ⟨by omega, by omega, by omega, by omega, hcol', ?_, ?_, ?_, hwritten'⟩
    · rw [hs']
      rfl
    · intro r c hr hc
      rw [hcells', h.cells r c hr hc]
      unfold Terminal.shown
      rw [hheight', hcell]
    · intro r c hr
      rw [hcell]
      exact h.unused r c (by omega)

theorem Shows.stay (h : Shows s t) :
    Shows (if s.cursorRow ≥ vgaRows then vgaScroll s else s) t := by
  have hrow := h.row_eq
  have hlt := h.row_lt
  have hstay : ¬ s.cursorRow ≥ vgaRows := by
    show ¬ s.cursorRow ≥ 25
    omega
  rw [if_neg hstay]
  exact h

theorem Shows.place (h : Shows s t) (c : UInt8) :
    Shows (if (vgaPlace s c).cursorRow ≥ vgaRows then vgaScroll (vgaPlace s c) else vgaPlace s c)
      (t.putchar c) := by
  have hcol := h.col_lt
  have hcolEq := h.col_eq
  unfold Terminal.putchar
  by_cases hnewline : c = '\n'.toUInt8
  · rw [if_pos hnewline]
    apply h.newline
    unfold vgaPlace
    rw [if_pos hnewline]
  rw [if_neg hnewline]
  by_cases hreturn : c = '\r'.toUInt8
  · have hplace : vgaPlace s c = { s with cursorCol := (0 : Nat) } := by
      unfold vgaPlace
      rw [if_neg hnewline, if_pos hreturn]
      rfl
    rw [if_pos hreturn, hplace]
    exact (h.moveCol (by decide)).stay
  rw [if_neg hreturn]
  by_cases hback : c = 8
  · rw [if_pos hback]
    by_cases hzero : t.col = 0
    · have hplace : vgaPlace s c = s := by
        unfold vgaPlace
        rw [if_neg hnewline, if_neg hreturn, if_pos hback, if_neg (by omega)]
      rw [if_pos hzero, hplace]
      exact h.stay
    · have hpred : s.cursorCol - 1 = (t.col - 1 : Nat) := by omega
      have hplace : vgaPlace s c = { s with cursorCol := (t.col - 1 : Nat) }.store
          (s.cursorRow * 80 + (t.col - 1 : Nat)) s.blank := by
        unfold vgaPlace
        rw [if_neg hnewline, if_neg hreturn, if_pos hback, if_pos (by omega), ← hpred]
        rfl
      rw [if_neg hzero, hplace]
      exact ((h.moveCol (by omega)).write (by omega) _ _).stay
  · -- a character of its own, which may be the last of its row
    have hput := h.write hcol c s.currentColor
    rw [if_neg hback]
    by_cases hwrap : t.col + 1 = 80
    · have hplace : vgaPlace s c =
          { s.store (s.cursorRow * 80 + t.col) (vgaMakeCell c s.currentColor) with
            cursorCol := 0, cursorRow := s.cursorRow + 1 } := by
        have hfull : s.cursorCol + 1 ≥ vgaCols := by
          show s.cursorCol + 1 ≥ 80
          omega
        unfold vgaPlace
        rw [if_neg hnewline, if_neg hreturn, if_neg hback, ← hcolEq]
        exact if_pos hfull
      rw [if_pos hwrap]
      exact hput.newline hplace
    · have hplace : vgaPlace s c =
          { s.store (s.cursorRow * 80 + t.col) (vgaMakeCell c s.currentColor) with
            cursorCol := (t.col + 1 : Nat) } := by
        have hroom : ¬ s.cursorCol + 1 ≥ vgaCols := by
          show ¬ s.cursorCol + 1 ≥ 80
          omega
        have hnext : ((t.col + 1 : Nat) : Int) = s.cursorCol + 1 := by omega
        unfold vgaPlace
        rw [if_neg hnewline, if_neg hreturn, if_neg hback, hnext, ← hcolEq]
        exact if_neg hroom
      have hlt : t.col + 1 < 80 := by omega
      rw [if_neg hwrap, hplace]
      exact (hput.moveCol hlt).stay

theorem Shows.putchar (h : Shows s t) (c : UInt8) :
    Shows (vgaPutchar s c) (t.putchar c) ∧ Pointed (vgaPutchar s c) :=
  (h.place c).point

theorem clamp_eq (x : Int) {n : Nat} (hn : 0 < n) :
    (if (if x < 0 then 0 else x) ≥ n then (n : Int) - 1 else if x < 0 then 0 else x) =
      Terminal.clamp x n := by
  unfold Terminal.clamp
  split <;> split at * <;> omega

theorem Shows.setCursor (h : Shows s t) (row col : Int) :
    Shows (vgaSetCursor s row col) (t.step (.setCursor row col)) ∧
      Pointed (vgaSetCursor s row col) := by
  have hheight := h.height_ge
  have hrow : Terminal.clamp row 25 < 25 := by
    unfold Terminal.clamp
    omega
  have hcol : Terminal.clamp col 80 < 80 := by
    unfold Terminal.clamp
    omega
  have hmove : vgaSetCursor s row col = vgaHwSetCursor
      { s with cursorRow := Terminal.clamp row 25, cursorCol := Terminal.clamp col 80 }
      (Terminal.clamp row 25) (Terminal.clamp col 80) := by
    rw [← clamp_eq row (by decide : 0 < 25), ← clamp_eq col (by decide : 0 < 80)]
    rfl
  rw [hmove]
  apply Shows.point
  refine ⟨h.height_ge, ?_, ?_, ?_, hcol, rfl, h.cells, h.unused, h.written⟩
  · show t.height - 25 + Terminal.clamp row 25 < t.height
    omega
  · show t.height ≤ t.height - 25 + Terminal.clamp row 25 + 25
    omega
  · show (Terminal.clamp row 25 : Int) + t.height =
      (t.height - 25 + Terminal.clamp row 25 : Nat) + 25
    omega

end Calls

theorem Shows.clear {s : VgaState} (hwritten : ∀ i ∈ s.written, InScreen i) :
    Shows (vgaClear s) .start ∧ Pointed (vgaClear s) := by
  obtain ⟨hfilled, hcells⟩ := fill_spec s 0 2000 (by decide) (by decide)
  have hclear : vgaClear s = vgaHwSetCursor { forRange 2000 (fun i s =>
      s.store (0 + i) s.blank) s with cursorRow := 0, cursorCol := 0 } 0 0 := by
    simp only [Int.zero_add]
    rfl
  rw [hclear]
  generalize forRange 2000 (fun i s => VgaState.store s (0 + i) s.blank) s = s' at hfilled hcells
  apply Shows.point
  refine ⟨Nat.le_refl 25, by decide, by decide, rfl, by decide, rfl, ?_, ?_,
    hfilled.written hwritten⟩
  · intro r c hr hc
    have hcell := hcells (r * 80 + c)
    rw [if_pos (by omega)] at hcell
    show (s'.buffer (r * 80 + c)).toUInt8 = ' '.toUInt8
    rw [hcell]
    exact toUInt8_vgaMakeCell _ _
  · intro r c _
    rfl

/-! ## Runs -/

/-- What the screen, the cursor and the controller show agrees with the terminal. -/
def Refines (s : VgaState) (t : Terminal) : Prop := Shows s t ∧ Pointed s

theorem Refines.step {s : VgaState} {t : Terminal} (h : Refines s t) (call : VgaCall) :
    Refines (vgaStep s call) (t.step call) := by
  cases call with
  | putchar c => exact h.1.putchar c
  | setCursor row col => exact h.1.setCursor row col
  | clear => exact Shows.clear h.1.written
  | setColor foreground background =>
    obtain ⟨hshows, hpointed⟩ := h
    exact ⟨⟨hshows.height_ge, hshows.row_lt, hshows.row_ge, hshows.row_eq, hshows.col_lt,
      hshows.col_eq, hshows.cells, hshows.unused, hshows.written⟩, hpointed⟩

theorem refines_run (buffer : Int → UInt16) (selected : UInt8) (registers : UInt8 → UInt8)
    (calls : List VgaCall) :
    Refines (runSteps vgaStep (vgaInit (vgaBoot buffer selected registers)) calls)
      (runSteps Terminal.step Terminal.start calls) := by
  have hinit : Refines (vgaInit (vgaBoot buffer selected registers)) Terminal.start := by
    apply Shows.clear
    intro i hi
    cases hi
  exact sim_runSteps (R := Refines) (fun _ _ call h => h.step call) calls _ _ hinit

/-- After any calls the cursor is on the screen, only cells of the screen have been written,
the screen shows the last 25 rows of the terminal, and the hardware cursor is where the next
character goes. -/
theorem screen_run (buffer : Int → UInt16) (selected : UInt8) (registers : UInt8 → UInt8)
    (calls : List VgaCall) :
    let s := runSteps vgaStep (vgaInit (vgaBoot buffer selected registers)) calls
    let t := runSteps Terminal.step Terminal.start calls
    (0 ≤ s.cursorRow ∧ s.cursorRow < 25) ∧ (0 ≤ s.cursorCol ∧ s.cursorCol < 80) ∧
      (∀ i ∈ s.written, InScreen i) ∧
      (∀ r c, r < 25 → c < 80 → s.shown r c = t.shown r c) ∧
      s.hwPosition = s.cursorRow * 80 + s.cursorCol := by
  intro s t
  obtain ⟨hshows, hpointed⟩ : Refines s t := refines_run buffer selected registers calls
  have hrow := hshows.row_eq
  have hlt := hshows.row_lt
  have hge := hshows.row_ge
  have hcol := hshows.col_lt
  have hcolEq := hshows.col_eq
  refine ⟨by omega, by omega, hshows.written, hshows.cells, hpointed⟩

end AcharyaOS.Vga
