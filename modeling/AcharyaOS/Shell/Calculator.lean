import AcharyaOS.Calc.Evaluate
import AcharyaOS.Kio.Format
import AcharyaOS.Shell.Lines

/-!
# The calculator at the shell

The value of an expression has 64 bits, and `%d` prints 32 of them.
-/

namespace AcharyaOS.Shell

open Foundation Kio

/-! ## Blanks in front of an expression -/

theorem calcSkipSpaces_append_of_ne_nil {w : List UInt8} (h : Calc.calcSkipSpaces w ≠ [])
    (v : List UInt8) : Calc.calcSkipSpaces (w ++ v) = Calc.calcSkipSpaces w ++ v := by
  have hkeep : ¬ (List.dropWhile (· == ' '.toUInt8) w).isEmpty = true := by
    rw [List.isEmpty_iff]
    exact h
  unfold Calc.calcSkipSpaces
  rw [List.dropWhile_append, if_neg hkeep]

theorem derives_calcSkipSpaces {X : Calc.CalcSort} {w : List UInt8} {t : Calc.CalcTree}
    (h : Calc.Derives X w t) : Calc.Derives X (Calc.calcSkipSpaces w) t := by
  induction h with
  | number n hne hdigits =>
      obtain ⟨c, digits, rfl⟩ := List.exists_cons_of_ne_nil hne
      have hc : c ≠ ' '.toUInt8 := by
        rintro rfl
        exact absurd (hdigits _ List.mem_cons_self) (by decide)
      rw [Calc.calcSkipSpaces_append, Calc.calcSkipSpaces_cons hc]
      exact .number 0 hne hdigits
  | paren n m h =>
      rw [Calc.calcSkipSpaces_append, Calc.calcSkipSpaces_cons (by decide)]
      exact .paren 0 m h
  | @sign n c hc w t h =>
      have hspace : c ≠ ' '.toUInt8 := by
        rintro rfl
        exact absurd hc (by decide)
      rw [Calc.calcSkipSpaces_append, Calc.calcSkipSpaces_cons hspace]
      exact .sign 0 hc h
  | first _ ih => exact .first ih
  | next n _ hop hr ih =>
      rw [calcSkipSpaces_append_of_ne_nil ih.ne_nil]
      exact .next n ih hop hr

theorem calcSentence_calcSkipSpaces {s : List UInt8} {t : Calc.CalcTree}
    (h : Calc.CalcSentence s t) : Calc.CalcSentence (Calc.calcSkipSpaces s) t := by
  obtain ⟨w, n, rfl, hw⟩ := h
  have hskip := derives_calcSkipSpaces hw
  exact ⟨Calc.calcSkipSpaces w, n, calcSkipSpaces_append_of_ne_nil hskip.ne_nil _, hskip⟩

theorem calcEvaluate_skipSpaces {e : CString} {v : Int64}
    (h : Calc.calcEvaluate (some e) (some 0) = .returned 0 (some v)) :
    Calc.calcEvaluate (some (.read (skipSpaces e.bytes))) (some 0) = .returned 0 (some v) ∧
      skipSpaces e.bytes ≠ [] := by
  obtain ⟨t, ht, hv⟩ := (Calc.calcEvaluate_eq_returned_iff e 0 v).mp h
  have hskip := calcSentence_calcSkipSpaces ht
  have hread : (CString.read (skipSpaces e.bytes)).bytes = skipSpaces e.bytes :=
    CString.read_bytes (zero_notMem_skipSpaces e)
  constructor
  · refine (Calc.calcEvaluate_eq_returned_iff _ 0 v).mpr ⟨t, ?_, hv⟩
    rw [hread]
    exact hskip
  · obtain ⟨w, n, hw, hderives⟩ := hskip
    have hw' : skipSpaces e.bytes = w ++ Calc.spaces n := hw
    rw [hw']
    exact List.append_ne_nil_of_left_ne_nil hderives.ne_nil _

/-! ## The command -/

theorem zero_notMem_calcLine (e : CString) : 0 ∉ asciiText "calc " ++ e.bytes := by
  rw [List.mem_append, not_or]
  exact ⟨by decide, e.no_nul⟩

/-- The line that has an expression evaluated. -/
def calcLine (e : CString) : CString := ⟨asciiText "calc " ++ e.bytes, zero_notMem_calcLine e⟩

theorem calcLine_bytes (e : CString) :
    (calcLine e).bytes = 99 :: 97 :: 108 :: 99 :: 32 :: e.bytes := rfl

theorem shellCommand_calcLine (e : CString) :
    shellCommand (calcLine e).bytes = some .calculate := by
  rw [calcLine_bytes]
  rfl

theorem not_isRecall_calcLine (e : CString) : ¬ IsRecall (calcLine e).bytes := by
  rintro (hrepeat | ⟨hbang, -⟩)
  · cases hrepeat
  · cases hbang

theorem starts_calcLine (e : CString) : (calcLine e).bytes.headD ' '.toUInt8 ≠ ' '.toUInt8 := by
  have hc : (99 : UInt8) ≠ ' '.toUInt8 := by decide
  exact hc

theorem shellExecuteWith_calcLine {World : Type} (sys : SystemCommands World)
    (s : ShellHistory) (w : World) (e : CString) :
    (shellExecuteWith sys s w (calcLine e)).effect.output =
      (shellCalc w (calcLine e).bytes).output := by
  have hrun := shellExecuteWith_of_starts sys s w (calcLine e) (starts_calcLine e)
    (not_isRecall_calcLine e)
  have hbranch : shellBranch sys s w (calcLine e).bytes = shellCalc w (calcLine e).bytes := by
    unfold shellBranch
    rw [shellCommand_calcLine]
  rw [hrun]
  unfold shellRunLine
  rw [hbranch]
  show ((shellCalc w (calcLine e).bytes).output.map ([] ++ ·)) = _
  simp

theorem kprintfLit_decimal (x : Int32) :
    kprintfLit "%d\n" [.word x.toUInt32] = some (signedNumeral x.toInt ++ asciiText "\n") := by
  have hargs : Matches [.decimal, .lit 10] [.word x.toUInt32] := trivial
  have hpieces : pieces (CString.read (asciiText "%d\n")).bytes = [.decimal, .lit 10] := rfl
  rw [kprintfLit_eq hpieces hargs]
  rfl

/-- The text printed is the numeral of the low half of the value. -/
theorem shellCalc_output {World : Type} (w : World) {e : CString} {v : Int64}
    (h : Calc.calcEvaluate (some e) (some 0) = .returned 0 (some v)) :
    (shellCalc w (calcLine e).bytes).output =
      some (signedNumeral v.toInt32.toInt ++ asciiText "\n") := by
  obtain ⟨hvalue, hne⟩ := calcEvaluate_skipSpaces h
  have hexpr : skipSpaces ((calcLine e).bytes.drop 4) = skipSpaces e.bytes := rfl
  have hfirst : ((skipSpaces e.bytes).headD 0 == 0) = false := by
    obtain ⟨c, rest, hcons⟩ := List.exists_cons_of_ne_nil hne
    have hno := zero_notMem_skipSpaces e
    rw [hcons, List.mem_cons, not_or] at hno
    rw [hcons, List.headD_cons, beq_eq_false_iff_ne]
    exact fun hzero => hno.1 hzero.symm
  unfold shellCalc
  simp only [hexpr, hfirst, Bool.false_eq_true, if_false, hvalue]
  exact kprintfLit_decimal v.toInt32

/-- The command prints the value of an expression exactly when the value has 32 bits. -/
theorem shellCalc_prints_iff {World : Type} (sys : SystemCommands World) (s : ShellHistory)
    (w : World) (e : CString) (v : Int64)
    (h : Calc.calcEvaluate (some e) (some 0) = .returned 0 (some v)) :
    (shellExecuteWith sys s w (calcLine e)).effect.output =
        some (signedNumeral v.toInt ++ asciiText "\n") ↔
      -2 ^ 31 ≤ v.toInt ∧ v.toInt < 2 ^ 31 := by
  have hlow : v.toInt32.toInt = v.toInt.bmod (2 ^ 32) := Int64.toInt_toInt32 v
  rw [shellExecuteWith_calcLine, shellCalc_output w h, Option.some.injEq, List.append_left_inj,
    signedNumeral_injective.eq_iff, hlow]
  constructor
  · intro heq
    have hge := Int.le_bmod (x := v.toInt) (m := 2 ^ 32) (by decide)
    have hlt := Int.bmod_lt (x := v.toInt) (m := 2 ^ 32) (by decide)
    omega
  · rintro ⟨hge, hlt⟩
    apply Int.bmod_eq_of_le <;> omega

/-- `2+2` at the first prompt. -/
def calcTwo : CString := ⟨[50, 43, 50], by decide⟩

theorem shellCalc_prints_two :
    (shellExecuteWith idleSystem shellHistoryClear () (calcLine calcTwo)).effect.output =
        some (signedNumeral (4 : Int64).toInt ++ asciiText "\n") ↔
      -2 ^ 31 ≤ (4 : Int64).toInt ∧ (4 : Int64).toInt < 2 ^ 31 :=
  shellCalc_prints_iff _ _ _ calcTwo 4 (by decide +kernel)

/-- `2147483648`, the smallest number beyond 32 bits. -/
def calcTwoPow31 : CString := ⟨[50, 49, 52, 55, 52, 56, 51, 54, 52, 56], by decide⟩

/-- The command shows -2147483648 for it. -/
theorem not_shellCalc_prints :
    Calc.calcEvaluate (some calcTwoPow31) (some 0) = .returned 0 (some 2147483648) ∧
      (shellExecuteWith idleSystem shellHistoryClear () (calcLine calcTwoPow31)).effect.output =
        some (asciiText "-2147483648\n") ∧
      (shellExecuteWith idleSystem shellHistoryClear () (calcLine calcTwoPow31)).effect.output ≠
        some (signedNumeral (2147483648 : Int64).toInt ++ asciiText "\n") := by
  have hvalue : Calc.calcEvaluate (some calcTwoPow31) (some 0) =
      .returned 0 (some 2147483648) := by decide +kernel
  have hprinted := shellExecuteWith_calcLine idleSystem shellHistoryClear () calcTwoPow31
  rw [shellCalc_output () hvalue] at hprinted
  have htext : signedNumeral (2147483648 : Int64).toInt32.toInt ++ asciiText "\n" =
      asciiText "-2147483648\n" := by decide +kernel
  rw [htext] at hprinted
  refine ⟨hvalue, hprinted, ?_⟩
  rw [hprinted]
  decide +kernel

end AcharyaOS.Shell
