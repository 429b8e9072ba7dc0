import AcharyaOS.Kio.Format
import AcharyaOS.Shell.Commands
import AcharyaOS.Shell.History

/-!
# Lines with blanks in front

`shell_execute` compares the line behind its leading blanks with the recalls, and copies the
line it was called with when the two differ.
-/

namespace AcharyaOS.Shell

open Foundation Kio

/-- `!!`, or an exclamation mark and a digit, whatever follows. -/
def IsRecall (line : List UInt8) : Prop :=
  line = repeatText ∨ (line.getD 0 0 = '!'.toUInt8 ∧ isDigit (line.getD 1 0) = true)

instance (line : List UInt8) : Decidable (IsRecall line) :=
  inferInstanceAs (Decidable (line = repeatText ∨ _))

theorem zero_notMem_skipSpaces (origin : CString) : 0 ∉ skipSpaces origin.bytes := fun hmem =>
  origin.no_nul ((List.dropWhile_suffix _).subset hmem)

theorem shellExpand_of_not_isRecall (s : ShellHistory) {origin : CString}
    (h : ¬ IsRecall (skipSpaces origin.bytes)) :
    shellExpand s origin.bytes =
      .run (.line origin.bytes) (skipSpaces origin.bytes != origin.bytes) := by
  obtain ⟨hrepeat, hdigit⟩ := not_or.mp h
  have hrepeat' : (strcmp (skipSpaces origin.bytes) repeatText == 0) = false := by
    rw [strcmp_beq_zero (zero_notMem_skipSpaces origin) (by decide), decide_eq_false_iff_not]
    exact hrepeat
  have hdigit' : ¬ ((skipSpaces origin.bytes).getD 0 0 == '!'.toUInt8 &&
      isDigit ((skipSpaces origin.bytes).getD 1 0)) = true := by
    rw [Bool.and_eq_true, beq_iff_eq]
    exact hdigit
  unfold shellExpand
  simp only [hrepeat', Bool.false_eq_true, if_false, if_neg hdigit']

section Execute

variable {World : Type} (sys : SystemCommands World) (s : ShellHistory) (w : World)

/-- The history is the one of the model without the commands. -/
theorem shellExecuteWith_history (origin : CString) :
    (shellExecuteWith sys s w origin).history =
      shellExecute s origin (shellExecuteWith sys s w origin).effect.returns := by
  unfold shellExecuteWith shellExecute
  by_cases hnil : (skipSpaces origin.bytes == []) = true
  · rw [if_pos hnil, if_pos hnil]
  · rw [if_neg hnil, if_neg hnil]
    cases shellExpand s origin.bytes with
    | failed => rfl
    | run execLine copied => rfl

theorem shellExecuteWith_failed {origin : CString} (hne : skipSpaces origin.bytes ≠ [])
    (h : shellExpand s origin.bytes = .failed) :
    shellExecuteWith sys s w origin =
      ⟨s, none, ⟨recallFailure (skipSpaces origin.bytes), w, true⟩⟩ := by
  have hnil : ¬ (skipSpaces origin.bytes == []) = true := by
    rw [beq_iff_eq]
    exact hne
  unfold shellExecuteWith
  rw [if_neg hnil, h]

theorem shellExecuteWith_run {origin : CString} (hne : skipSpaces origin.bytes ≠ [])
    {execLine : LinePointer} {copied : Bool} (h : shellExpand s origin.bytes = .run execLine copied) :
    shellExecuteWith sys s w origin =
      shellRunLine sys s w execLine
        (if copied then (execLine.text s).take (shellLineMax - 1) else skipSpaces origin.bytes) := by
  have hnil : ¬ (skipSpaces origin.bytes == []) = true := by
    rw [beq_iff_eq]
    exact hne
  unfold shellExecuteWith
  rw [if_neg hnil, h]

/-- A line that is not a recall is executed as it was given: behind its blanks when there
are none, and with them otherwise. -/
theorem shellExecuteWith_of_not_isRecall {origin : CString} (hne : skipSpaces origin.bytes ≠ [])
    (h : ¬ IsRecall (skipSpaces origin.bytes)) :
    shellExecuteWith sys s w origin =
      shellRunLine sys s w (.line origin.bytes)
        (if skipSpaces origin.bytes != origin.bytes then origin.bytes.take (shellLineMax - 1)
          else skipSpaces origin.bytes) :=
  shellExecuteWith_run sys s w hne (shellExpand_of_not_isRecall s h)

theorem shellExecuteWith_of_starts (line : CString)
    (hstarts : line.bytes.headD ' '.toUInt8 ≠ ' '.toUInt8) (h : ¬ IsRecall line.bytes) :
    shellExecuteWith sys s w line = shellRunLine sys s w (.line line.bytes) line.bytes := by
  obtain ⟨hskip, hne⟩ := skipSpaces_eq hstarts
  have hrun := shellExecuteWith_of_not_isRecall sys s w (hskip.symm ▸ hne) (hskip.symm ▸ h)
  rw [hskip, bne_self_eq_false, if_neg Bool.false_ne_true] at hrun
  exact hrun

end Execute

/-! ## The command of a line -/

theorem shellCommand_eq_none {c : UInt8} (hc : c ≠ 0)
    (hwords : ∀ e ∈ shellChain, ∃ d word, asciiText e.2.2 = d :: word ∧ d ≠ c ∧ d ≠ 0)
    (line : List UInt8) : shellCommand (c :: line) = none := by
  have hfind : (shellChain.find? fun e => e.2.1.matches (c :: line) (asciiText e.2.2)) = none := by
    apply List.find?_eq_none.mpr
    intro e he hmatch
    obtain ⟨d, word, hword, hne, hd⟩ := hwords e he
    rw [hword] at hmatch
    cases htest : e.2.1 with
    | whole =>
        rw [htest] at hmatch
        have heq := (strcmp_eq_zero_iff _ _).mp (beq_iff_eq.mp hmatch)
        rw [cText_cons, cText_cons, if_neg hc, if_neg hd, List.cons.injEq] at heq
        exact hne heq.1.symm
    | first =>
        rw [htest] at hmatch
        have heq := beq_iff_eq.mp ((Bool.and_eq_true _ _).mp hmatch).1
        rw [List.length_cons, List.take_succ_cons, List.cons.injEq] at heq
        exact hne heq.1.symm
  unfold shellCommand
  rw [hfind]
  rfl

theorem shellCommand_space (line : List UInt8) : shellCommand (' '.toUInt8 :: line) = none := by
  have hheads : ∀ e ∈ shellChain, (asciiText e.2.2).headD 0 ≠ ' '.toUInt8 ∧
      (asciiText e.2.2).headD 0 ≠ 0 := by
    decide +kernel
  apply shellCommand_eq_none (by decide)
  intro e he
  obtain ⟨hspace, hzero⟩ := hheads e he
  cases htext : asciiText e.2.2 with
  | nil =>
      rw [htext] at hzero
      exact absurd rfl hzero
  | cons d word =>
      rw [htext] at hspace hzero
      exact ⟨d, word, rfl, hspace, hzero⟩

theorem shellBranch_unknown {World : Type} (sys : SystemCommands World) (s : ShellHistory)
    (w : World) {line : List UInt8} (hno : 0 ∉ line) (h : shellCommand line = none) :
    shellBranch sys s w line =
      ⟨some (asciiText "Unknown command: " ++
        (line ++ asciiText "\nType 'help' for available commands.\n")), w, true⟩ := by
  have hargs : Matches (pieces (CString.read (asciiText "Unknown command: %s\n")).bytes)
      [textArg line] := trivial
  have hfirst : kprintfLit "Unknown command: %s\n" [textArg line] =
      some (asciiText "Unknown command: " ++ (line ++ asciiText "\n")) := by
    rw [kprintfLit_eq rfl hargs]
    show some (asciiText "Unknown command: " ++ ((CString.read line).bytes ++ asciiText "\n")) = _
    rw [CString.read_bytes hno]
  have hsecond : kprintfLit "Type 'help' for available commands.\n" [] =
      some (asciiText "Type 'help' for available commands.\n") := by decide +kernel
  unfold shellBranch
  rw [h]
  simp only [kprintfAll, List.foldr_cons, List.foldr_nil, hfirst, hsecond, Option.bind_some,
    Option.map_some, List.append_nil, List.append_assoc]
  rfl

/-! ## Blanks in front of a line -/

/-- What the user and the other subsystems see of two calls is the same. -/
def SameEffect {World : Type} (a b : ShellOutcome World) : Prop :=
  a.command = b.command ∧ a.effect = b.effect

theorem zero_notMem_indented (k : Nat) (line : CString) :
    0 ∉ List.replicate k ' '.toUInt8 ++ line.bytes := by
  rw [List.mem_append, not_or]
  refine ⟨fun hmem => ?_, line.no_nul⟩
  exact absurd (List.eq_of_mem_replicate hmem) (by decide)

/-- The line behind `k` blanks. -/
def indented (k : Nat) (line : CString) : CString :=
  ⟨List.replicate k ' '.toUInt8 ++ line.bytes, zero_notMem_indented k line⟩

theorem skipSpaces_indented {line : CString} (hstart : line.bytes.head? ≠ some ' '.toUInt8)
    (k : Nat) : skipSpaces (indented k line).bytes = line.bytes := by
  have hblank : ∀ c ∈ List.replicate k ' '.toUInt8, (c == ' '.toUInt8) = true := by
    intro c hc
    rw [List.eq_of_mem_replicate hc]
    decide
  show List.dropWhile _ (List.replicate k ' '.toUInt8 ++ line.bytes) = line.bytes
  rw [List.dropWhile_append_of_pos hblank]
  cases hline : line.bytes with
  | nil => rfl
  | cons c rest =>
      rw [hline, List.head?_cons] at hstart
      exact List.dropWhile_cons_of_neg fun hc => hstart (congrArg some (beq_iff_eq.mp hc))

theorem shellExpand_congr_of_isRecall (s : ShellHistory) {origin origin' : List UInt8}
    (hskip : skipSpaces origin = skipSpaces origin') (h : IsRecall (skipSpaces origin)) :
    shellExpand s origin = shellExpand s origin' := by
  unfold shellExpand
  rw [← hskip]
  rcases h with hrepeat | ⟨hbang, hdigit⟩
  · have hmatch : (strcmp (skipSpaces origin) repeatText == 0) = true := by
      rw [hrepeat]
      decide
    simp only [hmatch, if_true]
  · have hmatch : ((skipSpaces origin).getD 0 0 == '!'.toUInt8 &&
        isDigit ((skipSpaces origin).getD 1 0)) = true := by
      rw [hbang, hdigit]
      decide
    simp only [hmatch, if_true]

section Indented

variable {World : Type} (sys : SystemCommands World) (s : ShellHistory) (w : World)

theorem shellExecuteWith_congr {origin origin' : CString}
    (hskip : skipSpaces origin.bytes = skipSpaces origin'.bytes)
    (hexpand : skipSpaces origin.bytes ≠ [] →
      shellExpand s origin.bytes = shellExpand s origin'.bytes) :
    shellExecuteWith sys s w origin = shellExecuteWith sys s w origin' := by
  unfold shellExecuteWith
  by_cases hnil : (skipSpaces origin.bytes == []) = true
  · rw [if_pos hnil, if_pos (hskip ▸ hnil)]
  · rw [if_neg hnil, if_neg (hskip ▸ hnil), hskip,
      hexpand fun heq => hnil (beq_iff_eq.mpr heq)]

/-- Behind a blank every line is an unknown command. -/
theorem shellExecuteWith_indented {line : CString}
    (hstart : line.bytes.head? ≠ some ' '.toUInt8) {k : Nat} (hk : k ≠ 0)
    (hfit : k + line.length < shellLineMax) (hne : line.bytes ≠ []) (h : ¬ IsRecall line.bytes) :
    shellExecuteWith sys s w (indented k line) =
      shellRunLine sys s w (.line (indented k line).bytes) (indented k line).bytes ∧
    shellCommand (indented k line).bytes = none := by
  have hskip := skipSpaces_indented hstart k
  have hlen : (indented k line).bytes.length = k + line.length := by
    show (List.replicate k ' '.toUInt8 ++ line.bytes).length = _
    rw [List.length_append, List.length_replicate]
    rfl
  have hcopied : (skipSpaces (indented k line).bytes != (indented k line).bytes) = true := by
    rw [bne_iff_ne, hskip]
    intro heq
    have hsame := congrArg List.length heq
    rw [hlen] at hsame
    have hlength : line.length = line.bytes.length := rfl
    omega
  have hrun := shellExecuteWith_of_not_isRecall sys s w (hskip.symm ▸ hne) (hskip.symm ▸ h)
  rw [hcopied, if_pos rfl, List.take_of_length_le (by omega)] at hrun
  refine ⟨hrun, ?_⟩
  obtain ⟨j, rfl⟩ := Nat.exists_eq_succ_of_ne_zero hk
  exact shellCommand_space _

/-- Blanks in front of a line change nothing exactly when there are none, or the line is
empty or a recall. -/
theorem sameEffect_indented_iff (line : CString)
    (hstart : line.bytes.head? ≠ some ' '.toUInt8) (k : Nat)
    (hfit : k + line.length < shellLineMax) :
    SameEffect (shellExecuteWith sys s w (indented k line)) (shellExecuteWith sys s w line) ↔
      k = 0 ∨ line.bytes = [] ∨ IsRecall line.bytes := by
  have hskip := skipSpaces_indented hstart k
  have hskip' : skipSpaces line.bytes = line.bytes := skipSpaces_indented hstart 0
  constructor
  · rintro ⟨hcommand, heffect⟩
    by_contra hnot
    obtain ⟨hk, hne, hrecall⟩ : k ≠ 0 ∧ line.bytes ≠ [] ∧ ¬ IsRecall line.bytes := by
      simpa only [not_or] using hnot
    obtain ⟨hindented, hnone⟩ := shellExecuteWith_indented sys s w hstart hk hfit hne hrecall
    have hstarts : line.bytes.headD ' '.toUInt8 ≠ ' '.toUInt8 := by
      cases hline : line.bytes with
      | nil => exact absurd hline hne
      | cons c rest =>
          rw [hline, List.head?_cons] at hstart
          exact fun heq => hstart (congrArg some heq)
    have hplain := shellExecuteWith_of_starts sys s w line hstarts hrecall
    rw [hindented, hplain] at hcommand heffect
    have hnone' : shellCommand line.bytes = none := hcommand.symm.trans hnone
    -- both lines are unknown: their reports show lines of different lengths
    have houtput := congrArg CommandEffect.output heffect
    simp only [shellRunLine, shellBranch_unknown sys s w (indented k line).no_nul hnone,
      shellBranch_unknown sys s w line.no_nul hnone', recallEcho, Option.bind_some,
      Option.map_some, Option.some.injEq, List.nil_append, List.append_cancel_left_eq,
      List.append_cancel_right_eq] at houtput
    have hlen := congrArg List.length houtput
    have hlen' : (indented k line).bytes.length = k + line.bytes.length := by
      show (List.replicate k ' '.toUInt8 ++ line.bytes).length = _
      rw [List.length_append, List.length_replicate]
    omega
  · intro h
    have hsame : shellExecuteWith sys s w (indented k line) = shellExecuteWith sys s w line := by
      rcases h with rfl | hnil | hrecall
      · exact congrArg _ (CString.ext rfl)
      · exact shellExecuteWith_congr sys s w (hskip.trans hskip'.symm)
          fun hne => absurd (hskip.trans hnil) hne
      · exact shellExecuteWith_congr sys s w (hskip.trans hskip'.symm)
          fun _ => shellExpand_congr_of_isRecall s (hskip.trans hskip'.symm) (hskip.symm ▸ hrecall)
    rw [hsame]
    exact ⟨rfl, rfl⟩

end Indented

/-- `version` -/
def versionLine : CString := ⟨[118, 101, 114, 115, 105, 111, 110], by decide⟩

theorem sameEffect_indented_version :
    SameEffect (shellExecuteWith idleSystem shellHistoryClear () (indented 3 versionLine))
        (shellExecuteWith idleSystem shellHistoryClear () versionLine) ↔
      3 = 0 ∨ versionLine.bytes = [] ∨ IsRecall versionLine.bytes :=
  sameEffect_indented_iff _ _ _ versionLine (by decide) 3 (by decide)

/-- One blank makes `version` an unknown command. -/
theorem not_sameEffect_version :
    (shellExecuteWith idleSystem shellHistoryClear () versionLine).command = some .version ∧
      (shellExecuteWith idleSystem shellHistoryClear () (indented 1 versionLine)).command = none ∧
      ¬ SameEffect (shellExecuteWith idleSystem shellHistoryClear () (indented 1 versionLine))
        (shellExecuteWith idleSystem shellHistoryClear () versionLine) := by
  have hplain : (shellExecuteWith idleSystem shellHistoryClear () versionLine).command =
      some .version := by decide +kernel
  have hindented : (shellExecuteWith idleSystem shellHistoryClear ()
      (indented 1 versionLine)).command = none := by decide +kernel
  refine ⟨hplain, hindented, fun h => ?_⟩
  have hcommand := h.1
  rw [hplain, hindented] at hcommand
  cases hcommand

end AcharyaOS.Shell
