import AcharyaOS.Console.Calls
import AcharyaOS.Kio.Format

/-!
# Printing under interrupts

Between the assignments of `vga_putchar` the cursor is out of the screen for a while: below
the last row until the screen has scrolled, and behind the last column until the row has
wrapped.  What the handler prints goes wherever the cursor is.
-/

namespace AcharyaOS.Console

open Foundation Foundation.Run Keyboard Kio Vga

/-- The cursor is in the first `rows` rows and the first `cols` columns, and only cells of the
screen have been written. -/
structure Within (s : VgaState) (rows cols : Int) : Prop where
  row_ge : 0 ≤ s.cursorRow
  row_lt : s.cursorRow < rows
  col_ge : 0 ≤ s.cursorCol
  col_lt : s.cursorCol < cols
  written : ∀ i ∈ s.written, InScreen i

/-- Only cells of the screen are written, and a call that has returned has left the cursor
on it. -/
structure ConsoleSafe (s : ConsoleState) : Prop where
  written : ∀ i ∈ s.vga.written, InScreen i
  returned : s.point = .idle →
    (0 ≤ s.vga.cursorRow ∧ s.vga.cursorRow ≤ 24) ∧ 0 ≤ s.vga.cursorCol ∧ s.vga.cursorCol ≤ 79

/-- An interrupt that prints finds the cursor on a cell of the screen, and a backspace goes
back from a column above the first. -/
def Harmless (s : ConsoleState) : ConsoleEvent → Prop
  | .putchar _ => s.point = .stepBack → 0 < s.vga.cursorCol
  | .interrupt scancode => keyboardEcho s.keyboard scancode ≠ [] → s.vga.position < 2000

instance (s : ConsoleState) : ∀ e, Decidable (Harmless s e)
  | .putchar _ => inferInstanceAs (Decidable (_ → _))
  | .interrupt _ => inferInstanceAs (Decidable (_ → _))

/-! ## Whole calls -/

namespace Within

variable {s : VgaState} {rows cols : Int}

theorem mono (h : Within s rows cols) {rows' cols' : Int} (hrows : rows ≤ rows')
    (hcols : cols ≤ cols') : Within s rows' cols' :=
  ⟨h.row_ge, by have := h.row_lt; omega, h.col_ge, by have := h.col_lt; omega, h.written⟩

theorem store (h : Within s rows cols) {i : Int} (hi : InScreen i) (cell : UInt16) :
    Within (s.store i cell) rows cols where
  row_ge := h.row_ge
  row_lt := h.row_lt
  col_ge := h.col_ge
  col_lt := h.col_lt
  written j hj := by
    rcases List.mem_cons.mp hj with rfl | hj
    · exact hi
    · exact h.written j hj

theorem position_inScreen (h : Within s 25 80) : InScreen s.position := by
  obtain ⟨hrow, hrow', hcol, hcol', -⟩ := h
  show 0 ≤ s.cursorRow * 80 + s.cursorCol ∧ s.cursorRow * 80 + s.cursorCol < 2000
  omega

end Within

/-- The screen as a terminal of 25 rows. -/
def screenTerminal (s : VgaState) : Terminal where
  cell r c := if r < 25 then s.shown r c else ' '.toUInt8
  height := 25
  row := s.cursorRow.toNat
  col := s.cursorCol.toNat

theorem Within.shows {s : VgaState} (h : Within s 25 80) : Shows s (screenTerminal s) where
  height_ge := Nat.le_refl 25
  row_lt := by
    have hge := h.row_ge
    have hlt := h.row_lt
    show s.cursorRow.toNat < 25
    omega
  row_ge := Nat.le_add_left 25 _
  row_eq := by
    have hge := h.row_ge
    show s.cursorRow + 25 = (s.cursorRow.toNat : Int) + 25
    omega
  col_lt := by
    have hge := h.col_ge
    have hlt := h.col_lt
    show s.cursorCol.toNat < 80
    omega
  col_eq := (Int.toNat_of_nonneg h.col_ge).symm
  cells r c hr _ := by
    show s.shown r c = if 25 - 25 + r < 25 then s.shown (25 - 25 + r) c else _
    rw [Nat.sub_self, Nat.zero_add, if_pos hr]
  unused r c hr := if_neg (Nat.not_lt.mpr hr)
  written := h.written

theorem within_of_shows {s : VgaState} {t : Terminal} (h : Shows s t) : Within s 25 80 := by
  have hrow := h.row_eq
  have hlt := h.row_lt
  have hge := h.row_ge
  have hcol := h.col_eq
  have hcol' := h.col_lt
  exact ⟨by omega, by omega, by omega, by omega, h.written⟩

theorem Within.putchar {s : VgaState} (h : Within s 25 80) (c : UInt8) :
    Within (vgaPutchar s c) 25 80 :=
  within_of_shows (h.shows.putchar c).1

theorem Within.print {s : VgaState} (h : Within s 25 80) (out : List UInt8) :
    Within (vgaPrint s out) 25 80 :=
  runSteps_invariant (I := fun s => Within s 25 80) (fun _ c hs => hs.putchar c) out h

/-- A character of its own may also come behind the last column, unless the row is the last
one. -/
theorem Within.putchar_plain {s : VgaState} (h : Within s 25 81) (hpos : s.position < 2000)
    {c : UInt8} (hc : Terminal.Plain c) : Within (vgaPutchar s c) 25 80 := by
  obtain ⟨hrow, hrow', hcol, hcol', hwritten⟩ := h
  by_cases hlt : s.cursorCol < 80
  · exact Within.putchar ⟨hrow, hrow', hcol, hlt, hwritten⟩ c
  · have hposition : s.position = s.cursorRow * 80 + s.cursorCol := rfl
    have hplace : vgaPlace s c =
        { s.store s.position (vgaMakeCell c s.currentColor) with
          cursorCol := 0, cursorRow := s.cursorRow + 1 } := by
      have hfull : s.cursorCol + 1 ≥ vgaCols := by
        show s.cursorCol + 1 ≥ 80
        omega
      unfold vgaPlace
      rw [if_neg hc.1, if_neg hc.2.1, if_neg hc.2.2]
      exact if_pos hfull
    have hscreen : InScreen s.position := ⟨by omega, hpos⟩
    have hplaced : Within (vgaPlace s c) 25 80 := by
      rw [hplace]
      refine ⟨?_, ?_, Int.le_refl 0, (by decide : (0 : Int) < 80), ?_⟩
      · show 0 ≤ s.cursorRow + 1
        omega
      · show s.cursorRow + 1 < 25
        omega
      · intro i hi
        rcases List.mem_cons.mp hi with rfl | hi
        · exact hscreen
        · exact hwritten i hi
    have hshows := hplaced.shows.stay.point.1
    exact within_of_shows hshows

/-! ## What the handler prints -/

theorem keyboardEcho_cases (s : KeyboardState) (scancode : UInt8) :
    keyboardEcho s scancode = [] ∨
      ∃ c out, keyboardEcho s scancode = c :: out ∧ Terminal.Plain c := by
  unfold keyboardEcho
  dsimp only
  split
  · exact Or.inl rfl
  · split
    · exact Or.inl rfl
    · split
      · exact Or.inl rfl
      · have hpieces : pieces (CString.read (asciiText "[kbd]%c")).bytes =
            [.lit 91, .lit 107, .lit 98, .lit 100, .lit 93, .char] := rfl
        have hargs : Matches [.lit 91, .lit 107, .lit 98, .lit 100, .lit 93, .char]
            [.word (keyChar s.shiftDown (scancode &&& ~~~keyReleased)).toUInt32] := trivial
        rw [kprintfLit_eq hpieces hargs]
        exact Or.inr ⟨91, _, rfl, by decide, by decide, by decide⟩

/-- Where an interrupt is harmless it leaves the cursor as it is, or on the screen. -/
theorem Within.interrupt {s : VgaState} (h : Within s 26 81) {keyboard : KeyboardState}
    {scancode : UInt8} (hpos : keyboardEcho keyboard scancode ≠ [] → s.position < 2000) :
    vgaPrint s (keyboardEcho keyboard scancode) = s ∨
      Within (vgaPrint s (keyboardEcho keyboard scancode)) 25 80 := by
  rcases keyboardEcho_cases keyboard scancode with hnil | ⟨c, out, hecho, hc⟩
  · rw [hnil]
    exact Or.inl rfl
  · rw [hecho] at hpos ⊢
    have hlt := hpos (List.cons_ne_nil c out)
    obtain ⟨hrow, hrow', hcol, hcol', hwritten⟩ := h
    have hrow₂ : s.cursorRow < 25 := by
      have hposition : s.position = s.cursorRow * 80 + s.cursorCol := rfl
      omega
    have hfirst := Within.putchar_plain ⟨hrow, hrow₂, hcol, hcol', hwritten⟩ hlt hc
    exact Or.inr (hfirst.print out)

/-! ## Between two steps -/

/-- How far the cursor may stray: to the row below the screen before a scroll is over, and
behind the last column before a row has wrapped. -/
def PutcharPoint.rows : PutcharPoint → Int
  | .rowTest | .moveCell _ _ | .blankCell _ | .lastRow => 26
  | _ => 25

def PutcharPoint.cols : PutcharPoint → Int
  | .colTest | .wrap => 81
  | _ => 80

/-- The loops of `vga_scroll` stay in the screen. -/
def PutcharPoint.InLoop : PutcharPoint → Prop
  | .moveCell n col => n < 24 ∧ col < 80
  | .blankCell col => col < 80
  | _ => True

theorem PutcharPoint.rows_bounds (p : PutcharPoint) : 25 ≤ p.rows ∧ p.rows ≤ 26 := by
  unfold rows
  split <;> omega

theorem PutcharPoint.cols_bounds (p : PutcharPoint) : 80 ≤ p.cols ∧ p.cols ≤ 81 := by
  unfold cols
  split <;> omega

/-- The cursor is where it may be at this point. -/
structure Placed (s : VgaState) (p : PutcharPoint) : Prop where
  within : Within s p.rows p.cols
  inLoop : p.InLoop

theorem Within.placed {s : VgaState} (h : Within s 25 80) {p : PutcharPoint} (hp : p.InLoop) :
    Placed s p := ⟨h.mono p.rows_bounds.1 p.cols_bounds.1, hp⟩

theorem Placed.safe {s : ConsoleState} (h : Placed s.vga s.point) : ConsoleSafe s where
  written := h.within.written
  returned hidle := by
    obtain ⟨⟨hrow, hrow', hcol, hcol', -⟩, -⟩ := h
    rw [hidle] at hrow' hcol'
    change s.vga.cursorRow < 25 at hrow'
    change s.vga.cursorCol < 80 at hcol'
    omega

theorem Placed.interrupt {s : VgaState} {p : PutcharPoint} (h : Placed s p)
    {keyboard : KeyboardState} {scancode : UInt8}
    (hpos : keyboardEcho keyboard scancode ≠ [] → s.position < 2000) :
    Placed (vgaPrint s (keyboardEcho keyboard scancode)) p := by
  rcases (h.within.mono p.rows_bounds.2 p.cols_bounds.2).interrupt hpos with hsame | hscreen
  · rw [hsame]
    exact h
  · exact hscreen.placed h.inLoop

/-! ## The steps of the foreground -/

theorem Within.firstCol {s : VgaState} {rows cols : Int} (h : Within s rows cols) :
    Within { s with cursorCol := 0 } rows 80 :=
  ⟨h.row_ge, h.row_lt, Int.le_refl 0, (by decide : (0 : Int) < 80), h.written⟩

theorem Placed.idle {s : VgaState} (h : Within s 25 80) (c : UInt8) :
    Placed (putcharStep s c .idle).1 (putcharStep s c .idle).2 := by
  unfold putcharStep
  dsimp only
  by_cases hnewline : c = '\n'.toUInt8
  · rw [if_pos hnewline]
    exact h.firstCol.placed trivial
  rw [if_neg hnewline]
  by_cases hreturn : c = '\r'.toUInt8
  · rw [if_pos hreturn]
    exact h.firstCol.placed trivial
  rw [if_neg hreturn]
  by_cases hback : c = 8
  · rw [if_pos hback]
    by_cases hcol : s.cursorCol > 0
    · rw [if_pos hcol]
      exact h.placed trivial
    · rw [if_neg hcol]
      exact h.placed trivial
  · rw [if_neg hback]
    exact (h.store h.position_inScreen _).placed trivial

theorem Within.scroll_placed {s : VgaState} (h : Within s 26 80) {n col : Nat} (hn : n < 24) :
    Placed s (nextMove n col) := by
  unfold nextMove
  split
  · rename_i hcol
    exact ⟨h, hn, hcol⟩
  · split
    · rename_i hnext
      exact ⟨h, hnext, (by decide : 0 < 80)⟩
    · exact ⟨h, (by decide : 0 < 80)⟩

theorem Within.outb {s : VgaState} {rows cols : Int} (h : Within s rows cols) (port : UInt16)
    (value : UInt8) : Within (outb s port value) rows cols := by
  unfold Vga.outb
  split
  · exact ⟨h.row_ge, h.row_lt, h.col_ge, h.col_lt, h.written⟩
  · split
    · exact ⟨h.row_ge, h.row_lt, h.col_ge, h.col_lt, h.written⟩
    · exact h

theorem Placed.step {s : VgaState} {p : PutcharPoint} (h : Placed s p) (c : UInt8)
    (hback : p = .stepBack → 0 < s.cursorCol) :
    Placed (putcharStep s c p).1 (putcharStep s c p).2 := by
  obtain ⟨hwithin, hloop⟩ := h
  obtain ⟨hrow, hrow', hcol, hcol', hwritten⟩ := hwithin
  cases p with
  | idle => exact .idle ⟨hrow, hrow', hcol, hcol', hwritten⟩ c
  | nextRow =>
      have hlt : s.cursorRow + 1 < 26 := Int.add_lt_add_right hrow' 1
      exact ⟨⟨by show 0 ≤ s.cursorRow + 1; omega, hlt, hcol, hcol', hwritten⟩, trivial⟩
  | stepBack =>
      have hpos := hback rfl
      change s.cursorCol < 80 at hcol'
      exact ⟨⟨hrow, hrow', by show 0 ≤ s.cursorCol - 1; omega,
        by show s.cursorCol - 1 < 80; omega, hwritten⟩, trivial⟩
  | erase =>
      have hs : Within s 25 80 := ⟨hrow, hrow', hcol, hcol', hwritten⟩
      exact (hs.store hs.position_inScreen _).placed trivial
  | nextCol =>
      have hlt : s.cursorCol + 1 < 81 := Int.add_lt_add_right hcol' 1
      exact ⟨⟨hrow, hrow', by show 0 ≤ s.cursorCol + 1; omega, hlt, hwritten⟩, trivial⟩
  | colTest =>
      change s.cursorRow < 25 at hrow'
      change s.cursorCol < 81 at hcol'
      unfold putcharStep
      dsimp only
      by_cases hfull : s.cursorCol ≥ vgaCols
      · rw [if_pos hfull]
        exact ⟨⟨hrow, hrow', hcol, hcol', hwritten⟩, trivial⟩
      · rw [if_neg hfull]
        have hs : Within s 25 80 := ⟨hrow, hrow', hcol, Int.not_le.mp hfull, hwritten⟩
        exact hs.placed trivial
  | wrap =>
      have hs : Within s 25 81 := ⟨hrow, hrow', hcol, hcol', hwritten⟩
      exact hs.firstCol.placed trivial
  | rowTest =>
      unfold putcharStep
      dsimp only
      by_cases hbelow : s.cursorRow ≥ vgaRows
      · rw [if_pos hbelow]
        exact ⟨⟨hrow, hrow', hcol, hcol', hwritten⟩, by decide, by decide⟩
      · rw [if_neg hbelow]
        have hs : Within s 25 80 := ⟨hrow, Int.not_le.mp hbelow, hcol, hcol', hwritten⟩
        exact hs.placed trivial
  | moveCell n col =>
      have hs : Within s 26 80 := ⟨hrow, hrow', hcol, hcol', hwritten⟩
      obtain ⟨hn, hlt⟩ := hloop
      have hscreen : InScreen (n * vgaCols + col) := by
        show 0 ≤ (n : Int) * 80 + col ∧ (n : Int) * 80 + col < 2000
        omega
      exact (hs.store hscreen _).scroll_placed hn
  | blankCell col =>
      have hs : Within s 26 80 := ⟨hrow, hrow', hcol, hcol', hwritten⟩
      have hscreen : InScreen ((vgaRows - 1) * vgaCols + col) := by
        change col < 80 at hloop
        show 0 ≤ (24 : Int) * 80 + col ∧ (24 : Int) * 80 + col < 2000
        omega
      have hstored := hs.store hscreen s.blank
      unfold putcharStep
      dsimp only
      by_cases hnext : col + 1 < vgaCols.toNat
      · rw [if_pos hnext]
        exact ⟨hstored, hnext⟩
      · rw [if_neg hnext]
        exact ⟨hstored, trivial⟩
  | lastRow =>
      exact ⟨⟨(by decide : (0 : Int) ≤ 24), (by decide : (24 : Int) < 25), hcol, hcol', hwritten⟩,
        trivial⟩
  | hwCall => exact ⟨⟨hrow, hrow', hcol, hcol', hwritten⟩, trivial⟩
  | ports outs =>
      have hs : Within s 25 80 := ⟨hrow, hrow', hcol, hcol', hwritten⟩
      cases outs with
      | nil => exact hs.placed trivial
      | cons out outs => exact (hs.outb out.1 out.2).placed trivial

/-! ## Runs -/

theorem placed_step (s : ConsoleState) (e : ConsoleEvent) (h : Placed s.vga s.point)
    (hharmless : Harmless s e) : Placed (consoleStep s e).vga (consoleStep s e).point := by
  cases e with
  | putchar c => exact h.step c hharmless
  | interrupt scancode => exact h.interrupt hharmless

theorem within_start (buffer : Int → UInt16) (selected : UInt8) (registers : UInt8 → UInt8)
    (row col : Int) (foreground background : UInt8) (keyboard : KeyboardState) :
    Within (consoleStart buffer selected registers row col foreground background keyboard).vga
      25 80 := by
  obtain ⟨hshows, -⟩ := refines_run buffer selected registers
    [.setColor foreground background, .setCursor row col]
  exact within_of_shows hshows

/-- While interrupts are harmless the console is safe, whatever the foreground prints and
wherever the interrupts come. -/
theorem console_safe_run (buffer : Int → UInt16) (selected : UInt8) (registers : UInt8 → UInt8)
    (row col : Int) (foreground background : UInt8) (keyboard : KeyboardState)
    (events : List ConsoleEvent)
    (hharmless : AllSteps consoleStep Harmless
      (consoleStart buffer selected registers row col foreground background keyboard) events) :
    AllStates consoleStep ConsoleSafe
      (consoleStart buffer selected registers row col foreground background keyboard) events := by
  have hstart : Placed (consoleStart buffer selected registers row col foreground background
      keyboard).vga .idle := (within_start ..).placed trivial
  exact hharmless.allStates (I := fun s => Placed s.vga s.point) placed_step
    (fun _ hs => hs.safe) events hstart

/-- Characters typed while "A" is being printed. -/
theorem console_safe_typing :
    AllStates consoleStep ConsoleSafe
      (consoleStart (fun _ => 0) 0 (fun _ => 0) 0 0 7 0 keyboardBoot)
      [.putchar 65, .interrupt 0x1E, .putchar 65, .interrupt 0x9E, .putchar 65, .putchar 65] :=
  console_safe_run (fun _ => 0) 0 (fun _ => 0) 0 0 7 0 keyboardBoot _ (by decide +kernel)

/-! ## Interrupts that do harm -/

theorem written_vgaHwSetCursor (s : VgaState) (row col : Int) :
    (vgaHwSetCursor s row col).written = s.written := rfl

theorem cursorCol_vgaHwSetCursor (s : VgaState) (row col : Int) :
    (vgaHwSetCursor s row col).cursorCol = s.cursorCol := rfl

theorem mem_written_forRange {body : Nat → VgaState → VgaState} {i : Int}
    (hbody : ∀ (n : Nat) (s : VgaState), i ∈ s.written → i ∈ (body n s).written) (n : Nat)
    {s : VgaState} (hi : i ∈ s.written) : i ∈ (forRange n body s).written :=
  forRange_rule (P := fun (_ : Nat) (s : VgaState) => i ∈ s.written) hi n
    fun n s _ hs => hbody n s hs

theorem mem_written_vgaScroll {s : VgaState} {i : Int} (hi : i ∈ s.written) :
    i ∈ (vgaScroll s).written := by
  have hmoved : i ∈ (vgaMoveRows s).written := by
    unfold vgaMoveRows
    apply mem_written_forRange _ _ hi
    intro n s₁ h₁
    apply mem_written_forRange _ _ h₁
    exact fun col s₂ h₂ => List.mem_cons_of_mem _ h₂
  have hblank : i ∈ (forRange vgaCols.toNat (fun col s =>
      s.store ((vgaRows - 1) * vgaCols + col) s.blank) (vgaMoveRows s)).written := by
    apply mem_written_forRange _ _ hmoved
    exact fun col s₁ h₁ => List.mem_cons_of_mem _ h₁
  exact hblank

theorem mem_written_putchar {s : VgaState} {c : UInt8} {i : Int}
    (hi : i ∈ (vgaPlace s c).written) : i ∈ (vgaPutchar s c).written := by
  unfold vgaPutchar
  dsimp only
  rw [written_vgaHwSetCursor]
  split
  · exact mem_written_vgaScroll hi
  · exact hi

theorem mem_written_vgaPlace {s : VgaState} (c : UInt8) {i : Int} (hi : i ∈ s.written) :
    i ∈ (vgaPlace s c).written := by
  unfold vgaPlace
  split
  · exact hi
  · split
    · exact hi
    · split
      · split
        · exact List.mem_cons_of_mem _ hi
        · exact hi
      · dsimp only
        split
        · exact List.mem_cons_of_mem _ hi
        · exact List.mem_cons_of_mem _ hi

theorem position_mem_vgaPlace (s : VgaState) {c : UInt8} (hc : Terminal.Plain c) :
    s.position ∈ (vgaPlace s c).written := by
  unfold vgaPlace
  rw [if_neg hc.1, if_neg hc.2.1, if_neg hc.2.2]
  dsimp only
  split
  · exact List.mem_cons_self
  · exact List.mem_cons_self

/-- The first character goes to the cell under the cursor, wherever that is. -/
theorem position_mem_print (s : VgaState) {c : UInt8} (hc : Terminal.Plain c) (out : List UInt8) :
    s.position ∈ (vgaPrint s (c :: out)).written :=
  runSteps_invariant (I := fun s' : VgaState => s.position ∈ s'.written)
    (fun _ c' hs => mem_written_putchar (mem_written_vgaPlace c' hs)) out
    (mem_written_putchar (position_mem_vgaPlace s hc))

theorem not_safe_interrupt {s : ConsoleState} {scancode : UInt8}
    (hecho : keyboardEcho s.keyboard scancode ≠ []) (hpos : 2000 ≤ s.vga.position) :
    ¬ ConsoleSafe (consoleStep s (.interrupt scancode)) := by
  rcases keyboardEcho_cases s.keyboard scancode with hnil | ⟨c, out, hout, hc⟩
  · exact absurd hnil hecho
  · intro hsafe
    have hmem : s.vga.position ∈ (consoleStep s (.interrupt scancode)).vga.written := by
      show _ ∈ (vgaPrint s.vga (keyboardEcho s.keyboard scancode)).written
      rw [hout]
      exact position_mem_print s.vga hc out
    have hlt := (hsafe.written _ hmem).2
    omega

/-- A backspace that goes back from the first column leaves the cursor outside the screen if
nothing is printed until it has returned. -/
theorem not_safe_stepBack {s : VgaState} {keyboard : KeyboardState} (hrow : s.cursorRow < 25)
    (hcol : s.cursorCol = 0) (c : UInt8) :
    ∃ n, ¬ ConsoleSafe
      (runSteps consoleStep ⟨s, keyboard, .stepBack⟩ (List.replicate n (.putchar c))) := by
  let erased : VgaState := { s with cursorCol := s.cursorCol - 1 }.store
    (s.cursorRow * vgaCols + (s.cursorCol - 1)) s.blank
  have hstay : ¬ erased.cursorRow ≥ vgaRows := Int.not_le.mpr hrow
  have herased : Goes c (s, .stepBack) (erased, .rowTest) := (goes_step c s .stepBack).step
  have hdone := herased.trans (goes_rowTest c erased)
  rw [if_neg hstay] at hdone
  obtain ⟨n, hn⟩ := hdone
  refine ⟨n, fun hsafe => ?_⟩
  rw [iterate_foreground c keyboard n (s, .stepBack), hn] at hsafe
  have hback := (hsafe.returned rfl).2.1
  rw [cursorCol_vgaHwSetCursor] at hback
  change 0 ≤ s.cursorCol - 1 at hback
  omega

/-- The key A on the last row, right after a newline has moved the cursor below it. -/
theorem not_console_safe :
    ¬ ∀ (buffer : Int → UInt16) (selected : UInt8) (registers : UInt8 → UInt8) (row col : Int)
        (foreground background : UInt8) (keyboard : KeyboardState) (events : List ConsoleEvent),
      AllStates consoleStep ConsoleSafe
        (consoleStart buffer selected registers row col foreground background keyboard) events := by
  intro h
  have hlast := (h (fun _ => 0) 0 (fun _ => 0) 24 0 7 0 keyboardBoot
    [.putchar '\n'.toUInt8, .putchar '\n'.toUInt8, .interrupt 0x1E]).last
  exact not_safe_interrupt (by decide +kernel) (by decide +kernel) hlast

end AcharyaOS.Console
