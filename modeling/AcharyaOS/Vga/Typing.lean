import AcharyaOS.Vga.Terminal

/-!
# Typing on the screen

A text typed at any place goes on behind the end of its row, and the screen may scroll under
it.  Each scroll takes the place where the text began 80 cells back.
-/

namespace AcharyaOS.Vga

open Foundation.Run

/-- The offset of the cell under the cursor. -/
def VgaState.position (s : VgaState) : Int := s.cursorRow * vgaCols + s.cursorCol

/-- The characters from offset `start` up to the cursor, row by row. -/
def VgaState.textFrom (s : VgaState) (start : Int) : List UInt8 :=
  (List.range (s.position - start).toNat).map fun (i : Nat) => (s.buffer (start + i)).toUInt8

def vgaPrint (s : VgaState) (out : List UInt8) : VgaState := runSteps vgaPutchar s out

/-- How often the screen scrolls while `out` is printed. -/
def vgaScrolls : VgaState → List UInt8 → Nat
  | _, [] => 0
  | s, c :: out =>
      (if (vgaPlace s c).cursorRow ≥ vgaRows then 1 else 0) + vgaScrolls (vgaPutchar s c) out

namespace Terminal

def position (t : Terminal) : Nat := t.row * 80 + t.col

/-- The character that the place with the position given shows. -/
def charAt (t : Terminal) (p : Nat) : UInt8 := t.cell (p / 80) (p % 80)

def print (t : Terminal) (out : List UInt8) : Terminal := runSteps Terminal.putchar t out

def textFrom (t : Terminal) (start : Nat) : List UInt8 :=
  (List.range (t.position - start)).map fun i => t.charAt (start + i)

/-- Characters that `vga_putchar` does not treat apart. -/
def Plain (c : UInt8) : Prop := c ≠ '\n'.toUInt8 ∧ c ≠ '\r'.toUInt8 ∧ c ≠ 8

variable {t : Terminal} {c : UInt8}

theorem charAt_write (t : Terminal) {col : Nat} (hcol : col < 80) (row p : Nat) (c : UInt8) :
    (t.write row col c).charAt p = if p = row * 80 + col then c else t.charAt p := by
  have hplace : (p / 80 = row ∧ p % 80 = col) = (p = row * 80 + col) := by
    rw [eq_iff_iff]
    omega
  unfold charAt write
  simp only [hplace]

theorem position_putchar (hc : Plain c) :
    (t.putchar c).position = t.position + 1 := by
  obtain ⟨hnewline, hreturn, hback⟩ := hc
  unfold putchar position
  rw [if_neg hnewline, if_neg hreturn, if_neg hback]
  split
  · show (t.row + 1) * 80 + 0 = t.row * 80 + t.col + 1
    omega
  · rfl

theorem charAt_putchar (hcol : t.col < 80) (hc : Plain c) (p : Nat) :
    (t.putchar c).charAt p = if p = t.position then c else t.charAt p := by
  obtain ⟨hnewline, hreturn, hback⟩ := hc
  have hwrite := charAt_write t hcol t.row p c
  unfold putchar
  rw [if_neg hnewline, if_neg hreturn, if_neg hback]
  split
  · exact hwrite
  · exact hwrite

theorem putchar_erase : t.putchar 8 =
    if t.col = 0 then t
    else { t with col := t.col - 1 }.write t.row (t.col - 1) ' '.toUInt8 := rfl

theorem charAt_erase (hcol : t.col < 80) {p : Nat} (hp : p + 1 < t.position) :
    (t.putchar 8).charAt p = t.charAt p := by
  rw [putchar_erase]
  split
  · rfl
  · have hother : p ≠ t.row * 80 + (t.col - 1) := by
      unfold position at hp
      omega
    rw [charAt_write _ (by omega), if_neg hother]
    rfl

theorem position_erase (hzero : t.col ≠ 0) : (t.putchar 8).position = t.position - 1 := by
  rw [putchar_erase, if_neg hzero]
  show t.row * 80 + (t.col - 1) = t.row * 80 + t.col - 1
  omega

theorem col_putchar (hcol : t.col < 80) (c : UInt8) : (t.putchar c).col < 80 := by
  have hzero : 0 < 80 := by decide
  unfold putchar
  split
  · exact hzero
  split
  · exact hzero
  split
  · split
    · exact hcol
    · exact Nat.lt_of_le_of_lt (Nat.sub_le _ _) hcol
  split
  · exact hzero
  · next hroom =>
      show t.col + 1 < 80
      omega

theorem textFrom_type (hcol : t.col < 80) (hc : Plain c) {start : Nat}
    (hstart : start ≤ t.position) : (t.putchar c).textFrom start = t.textFrom start ++ [c] := by
  have hlen : t.position + 1 - start = t.position - start + 1 := by omega
  unfold textFrom
  rw [position_putchar hc, hlen, List.range_succ, List.map_append, List.map_singleton]
  congr 1
  · apply List.map_congr_left
    intro i hi
    rw [List.mem_range] at hi
    rw [charAt_putchar hcol hc, if_neg (by omega)]
  · rw [charAt_putchar hcol hc, if_pos (by omega)]

theorem textFrom_erase (hcol : t.col < 80) (hzero : t.col ≠ 0) {start : Nat}
    (hstart : start < t.position) :
    (t.putchar 8).textFrom start = (t.textFrom start).dropLast := by
  obtain ⟨n, hn⟩ : ∃ n, t.position - start = n + 1 := ⟨t.position - start - 1, by omega⟩
  have hn' : t.position - 1 - start = n := by omega
  unfold textFrom
  rw [position_erase hzero, hn, hn', List.range_succ, List.map_append, List.map_singleton,
    List.dropLast_concat]
  apply List.map_congr_left
  intro i hi
  rw [List.mem_range] at hi
  exact charAt_erase hcol (by omega)

/-- A terminal grows only where its last row is left, and the cursor goes down. -/
theorem height_putchar (hrow : t.row < t.height) (c : UInt8) :
    (t.putchar c).height = max t.height ((t.putchar c).row + 1) := by
  have hsame : t.height = max t.height (t.row + 1) := by omega
  unfold putchar
  split
  · rfl
  split
  · exact hsame
  split
  · split
    · exact hsame
    · exact hsame
  split
  · rfl
  · exact hsame

theorem row_putchar (t : Terminal) (c : UInt8) :
    t.row ≤ (t.putchar c).row ∧ (t.putchar c).row ≤ t.row + 1 := by
  have hstay : t.row ≤ t.row ∧ t.row ≤ t.row + 1 := ⟨Nat.le_refl _, Nat.le_succ _⟩
  have hnext : t.row ≤ t.row + 1 ∧ t.row + 1 ≤ t.row + 1 := ⟨Nat.le_succ _, Nat.le_refl _⟩
  unfold putchar
  split
  · exact hnext
  split
  · exact hstay
  split
  · split
    · exact hstay
    · exact hstay
  split
  · exact hnext
  · exact hstay

/-- The row of the cursor is the last one from the first new row on. -/
theorem height_print {h : Nat} (out : List UInt8) : ∀ {t : Terminal}, t.row < t.height →
    t.height = max h (t.row + 1) →
      (t.print out).height = max h ((t.print out).row + 1) := by
  induction out with
  | nil => exact fun _ h => h
  | cons c out ih =>
      intro t hrow hheight
      have hgrows := height_putchar hrow c
      have hdown := row_putchar t c
      have hnext : (t.putchar c).height = max h ((t.putchar c).row + 1) := by omega
      exact ih (by omega) hnext

end Terminal

/-! ## The screen and the terminal -/

section Print

variable {s : VgaState} {t : Terminal}

theorem Shows.position (h : Shows s t) :
    s.position = (t.position : Int) - 80 * ((t.height : Int) - 25) := by
  have hrow := h.row_eq
  have hcol := h.col_eq
  unfold VgaState.position Terminal.position
  push_cast
  show s.cursorRow * 80 + s.cursorCol = _
  omega

theorem Shows.cursorRow_place (h : Shows s t) (c : UInt8) :
    (vgaPlace s c).cursorRow + t.height = (t.putchar c).row + 25 := by
  have hrow := h.row_eq
  have hcol := h.col_eq
  unfold vgaPlace Terminal.putchar
  by_cases hnewline : c = '\n'.toUInt8
  · rw [if_pos hnewline, if_pos hnewline]
    show s.cursorRow + 1 + t.height = (t.row + 1 : Nat) + 25
    omega
  rw [if_neg hnewline, if_neg hnewline]
  by_cases hreturn : c = '\r'.toUInt8
  · rw [if_pos hreturn, if_pos hreturn]
    exact hrow
  rw [if_neg hreturn, if_neg hreturn]
  by_cases hback : c = 8
  · rw [if_pos hback, if_pos hback]
    by_cases hzero : t.col = 0
    · rw [if_pos hzero, if_neg (by omega)]
      exact hrow
    · rw [if_neg hzero, if_pos (by omega)]
      exact hrow
  rw [if_neg hback, if_neg hback]
  by_cases hwrap : t.col + 1 = 80
  · have hfull : s.cursorCol + 1 ≥ vgaCols := by
      show s.cursorCol + 1 ≥ 80
      omega
    rw [if_pos hwrap]
    dsimp only [VgaState.store]
    rw [if_pos hfull]
    show s.cursorRow + 1 + t.height = (t.row + 1 : Nat) + 25
    omega
  · have hlt := h.col_lt
    have hroom : ¬ s.cursorCol + 1 ≥ vgaCols := by
      show ¬ s.cursorCol + 1 ≥ 80
      omega
    rw [if_neg hwrap]
    dsimp only [VgaState.store]
    rw [if_neg hroom]
    exact hrow

theorem Shows.print (out : List UInt8) : ∀ {s : VgaState} {t : Terminal}, Shows s t →
    Shows (vgaPrint s out) (t.print out) ∧
      (t.print out).height = t.height + vgaScrolls s out := by
  induction out with
  | nil => exact fun h => ⟨h, rfl⟩
  | cons c out ih =>
      intro s t h
      obtain ⟨hshows, hheight⟩ := ih (h.putchar c).1
      refine ⟨hshows, ?_⟩
      have hrow := h.row_lt
      have hplace := h.cursorRow_place c
      have hgrows := Terminal.height_putchar hrow c
      have hnext := (h.putchar c).1.row_ge
      have hge : ∀ x : Int, x ≥ vgaRows ↔ 25 ≤ x := fun x => Iff.rfl
      have hheight' : (t.print (c :: out)).height =
          (t.putchar c).height + vgaScrolls (vgaPutchar s c) out := hheight
      rw [hheight', vgaScrolls]
      by_cases hscroll : (vgaPlace s c).cursorRow ≥ vgaRows
      · rw [if_pos hscroll]
        rw [hge] at hscroll
        have hone := (t.row_putchar c).2
        omega
      · rw [if_neg hscroll]
        rw [hge] at hscroll
        omega

theorem Shows.textFrom (h : Shows s t) {start : Nat} (hstart : t.height * 80 ≤ start + 2000) :
    s.textFrom ((start : Int) - 80 * ((t.height : Int) - 25)) = t.textFrom start := by
  have hheight := h.height_ge
  have hposition := h.position
  have hlen : (s.position - ((start : Int) - 80 * ((t.height : Int) - 25))).toNat =
      t.position - start := by
    omega
  unfold VgaState.textFrom Terminal.textFrom
  rw [hlen]
  apply List.map_congr_left
  intro i hi
  rw [List.mem_range] at hi
  have hrow := h.row_lt
  have hcol := h.col_lt
  have hplace : (start + i) / 80 < t.height := by
    unfold Terminal.position at hi
    omega
  have hcell := h.cells ((start + i) / 80 - (t.height - 25)) ((start + i) % 80) (by omega)
    (Nat.mod_lt _ (by decide))
  have hoffset : (start : Int) - 80 * ((t.height : Int) - 25) + i =
      ((start + i) / 80 - (t.height - 25) : Nat) * 80 + ((start + i) % 80 : Nat) := by
    omega
  have habsolute : t.height - 25 + ((start + i) / 80 - (t.height - 25)) = (start + i) / 80 := by
    omega
  unfold VgaState.shown Terminal.shown at hcell
  rw [habsolute] at hcell
  rw [hoffset]
  exact hcell

theorem Shows.start (h : Shows s t) (out : List UInt8) :
    s.position - vgaCols * vgaScrolls s out =
      (t.position : Int) - 80 * (((t.print out).height : Int) - 25) := by
  have hposition := h.position
  have hheight := (h.print out).2
  show s.position - 80 * (vgaScrolls s out : Int) = _
  omega

end Print

end AcharyaOS.Vga
