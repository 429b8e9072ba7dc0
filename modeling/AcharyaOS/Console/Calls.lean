import AcharyaOS.Console.Code

/-!
# Calls left to themselves

Without interrupts the steps into which `vga_putchar` is cut add up to the whole function.
-/

namespace AcharyaOS.Console

open Foundation.Run Keyboard Vga

/-- The foreground alone gets from `x` to `y`. -/
def Goes (c : UInt8) (x y : VgaState × PutcharPoint) : Prop :=
  ∃ n, (fun x => putcharStep x.1 c x.2)^[n] x = y

theorem Goes.refl (c : UInt8) (x : VgaState × PutcharPoint) : Goes c x x := ⟨0, rfl⟩

theorem Goes.trans {c : UInt8} {x y z : VgaState × PutcharPoint} (h : Goes c x y)
    (h' : Goes c y z) : Goes c x z := by
  obtain ⟨n, rfl⟩ := h
  obtain ⟨m, rfl⟩ := h'
  exact ⟨m + n, Function.iterate_add_apply _ m n x⟩

theorem goes_step (c : UInt8) (s : VgaState) (p : PutcharPoint) :
    Goes c (s, p) (putcharStep s c p) := ⟨1, rfl⟩

theorem Goes.step {c : UInt8} {x : VgaState × PutcharPoint} {s : VgaState} {p : PutcharPoint}
    (h : Goes c x (s, p)) : Goes c x (putcharStep s c p) := h.trans (goes_step c s p)

theorem goes_ports (c : UInt8) (s : VgaState) (outs : List (UInt16 × UInt8)) :
    Goes c (s, .ports outs) (outs.foldl (fun s out => outb s out.1 out.2) s, .idle) := by
  induction outs generalizing s with
  | nil => exact goes_step c s (.ports [])
  | cons out outs ih => exact (goes_step c s (.ports (out :: outs))).trans (ih _)

theorem goes_hwCall (c : UInt8) (s : VgaState) :
    Goes c (s, .hwCall) (vgaHwSetCursor s s.cursorRow s.cursorCol, .idle) :=
  (goes_step c s .hwCall).trans (goes_ports c s _)

/-- Where the loops go when a row is done. -/
def afterRow (n : Nat) : PutcharPoint := if n < 24 then .moveCell n 0 else .blankCell 0

theorem goes_moveRows (c : UInt8) (s : VgaState) :
    Goes c (s, .moveCell 0 0) (vgaMoveRows s, .blankCell 0) := by
  apply forRange_rule (P := fun n s' => Goes c (s, .moveCell 0 0) (s', afterRow n))
  · exact .refl c _
  · intro n s₁ hn h₁
    change n < 24 at hn
    apply forRange_rule (P := fun col s' => Goes c (s, .moveCell 0 0)
      (s', if col < 80 then .moveCell n col else afterRow (n + 1)))
    · rw [if_pos (by decide)]
      rwa [afterRow, if_pos hn] at h₁
    · intro col s₂ hcol h₂
      change col < 80 at hcol
      rw [if_pos hcol] at h₂
      exact h₂.step

theorem goes_scroll (c : UInt8) (s : VgaState) :
    Goes c (s, .moveCell 0 0) (vgaScroll s, .hwCall) := by
  refine (goes_moveRows c s).trans ?_
  have hfill : Goes c (vgaMoveRows s, .blankCell 0)
      (forRange vgaCols.toNat (fun col s => s.store ((vgaRows - 1) * vgaCols + col) s.blank)
        (vgaMoveRows s), .lastRow) := by
    apply forRange_rule (P := fun col s' => Goes c (vgaMoveRows s, .blankCell 0)
      (s', if col < 80 then .blankCell col else .lastRow))
    · exact .refl c _
    · intro col s₁ hcol h₁
      change col < 80 at hcol
      rw [if_pos hcol] at h₁
      exact h₁.step
  exact hfill.step

theorem goes_rowTest (c : UInt8) (s : VgaState) :
    Goes c (s, .rowTest)
      (vgaHwSetCursor (if s.cursorRow ≥ vgaRows then vgaScroll s else s)
        (if s.cursorRow ≥ vgaRows then vgaScroll s else s).cursorRow
        (if s.cursorRow ≥ vgaRows then vgaScroll s else s).cursorCol, .idle) := by
  have htest := goes_step c s .rowTest
  unfold putcharStep at htest
  dsimp only at htest
  by_cases hbelow : s.cursorRow ≥ vgaRows
  · rw [if_pos hbelow] at htest
    rw [if_pos hbelow]
    exact (htest.trans (goes_scroll c s)).trans (goes_hwCall c (vgaScroll s))
  · rw [if_neg hbelow] at htest
    rw [if_neg hbelow]
    exact htest.trans (goes_hwCall c s)

theorem goes_nextCol (c : UInt8) (s : VgaState) :
    Goes c (s, .nextCol)
      (if s.cursorCol + 1 ≥ vgaCols then
        { s with cursorCol := 0, cursorRow := s.cursorRow + 1 }
      else { s with cursorCol := s.cursorCol + 1 }, .rowTest) := by
  have htest := (goes_step c s .nextCol).step
  unfold putcharStep at htest
  dsimp only at htest
  by_cases hfull : s.cursorCol + 1 ≥ vgaCols
  · rw [if_pos hfull] at htest ⊢
    exact htest.step.step
  · rw [if_neg hfull] at htest ⊢
    exact htest

theorem goes_place (c : UInt8) (s : VgaState) : Goes c (s, .idle) (vgaPlace s c, .rowTest) := by
  have hfirst := goes_step c s .idle
  unfold putcharStep at hfirst
  dsimp only at hfirst
  unfold vgaPlace
  by_cases hnewline : c = '\n'.toUInt8
  · rw [if_pos hnewline] at hfirst ⊢
    exact hfirst.step
  rw [if_neg hnewline] at hfirst ⊢
  by_cases hreturn : c = '\r'.toUInt8
  · rw [if_pos hreturn] at hfirst ⊢
    exact hfirst
  rw [if_neg hreturn] at hfirst ⊢
  by_cases hback : c = 8
  · rw [if_pos hback] at hfirst ⊢
    by_cases hcol : s.cursorCol > 0
    · rw [if_pos hcol] at hfirst ⊢
      exact hfirst.step.step
    · rw [if_neg hcol] at hfirst ⊢
      exact hfirst
  · rw [if_neg hback] at hfirst ⊢
    exact hfirst.trans (goes_nextCol c _)

theorem goes_putchar (c : UInt8) (s : VgaState) : Goes c (s, .idle) (vgaPutchar s c, .idle) :=
  (goes_place c s).trans (goes_rowTest c (vgaPlace s c))

theorem iterate_foreground (c : UInt8) (keyboard : KeyboardState) (n : Nat) :
    ∀ x : VgaState × PutcharPoint,
      runSteps consoleStep ⟨x.1, keyboard, x.2⟩ (List.replicate n (.putchar c)) =
        ⟨((fun x => putcharStep x.1 c x.2)^[n] x).1, keyboard,
          ((fun x => putcharStep x.1 c x.2)^[n] x).2⟩ := by
  induction n with
  | zero => exact fun _ => rfl
  | succ n ih =>
      intro x
      rw [List.replicate_succ, Function.iterate_succ_apply]
      exact ih (putcharStep x.1 c x.2)

/-- Without an interrupt the steps of a call are the call. -/
theorem putchar_uninterrupted (s : VgaState) (keyboard : KeyboardState) (c : UInt8) :
    ∃ n, runSteps consoleStep ⟨s, keyboard, .idle⟩ (List.replicate n (.putchar c)) =
      ⟨vgaPutchar s c, keyboard, .idle⟩ := by
  obtain ⟨n, hn⟩ := goes_putchar c s
  refine ⟨n, ?_⟩
  rw [iterate_foreground c keyboard n (s, .idle), hn]

end AcharyaOS.Console
