import AcharyaOS.Foundation.Numeral
import AcharyaOS.Shell.Lines

/-!
# Recalls by number

The number in a line `!n` is read in 64-bit arithmetic up to the first other character, and
what follows is not looked at.
-/

namespace AcharyaOS.Shell

open Foundation Foundation.Run Kio

/-! ## The entries of the history -/

/-- Every slot has its terminator. -/
def SlotsTerminated (s : ShellHistory) : Prop :=
  ∀ i, (cText (s.history i).toList).length < shellLineMax

theorem slotsTerminated_clear : SlotsTerminated shellHistoryClear := by
  intro i
  have hzero : cText ((shellHistoryClear.history i).toList) = [] := rfl
  rw [hzero]
  exact Nat.zero_lt_succ _

theorem zero_notMem_text (s : ShellHistory) {line : LinePointer}
    (h : ∀ text, line = .line text → 0 ∉ text) : 0 ∉ line.text s := by
  cases line with
  | line text => exact h text rfl
  | slot i => exact zero_notMem_cText _

theorem SlotsTerminated.add {s : ShellHistory} (h : SlotsTerminated s) {line : LinePointer}
    (hline : ∀ text, line = .line text → 0 ∉ text) : SlotsTerminated (shellHistoryAdd s line) := by
  have hno := zero_notMem_text s hline
  by_cases hfirst : line.charAt s.history 0 = 0
  · unfold shellHistoryAdd
    rw [if_pos hfirst]
    exact h
  · have hne : line.text s ≠ [] := by
      intro hnil
      apply hfirst
      rw [reads_text s line 0 (Nat.zero_le _), hnil]
      rfl
    intro i
    have hslots := congrFun (shellHistoryAdd_spec s line hno hne).1 i
    rw [hslots]
    by_cases hi : i = s.next
    · rw [hi, Function.update_self, List.length_take]
      have hroom : shellLineMax - 1 < shellLineMax := by decide
      omega
    · rw [Function.update_of_ne hi]
      exact h i

theorem shellExpand_line_eq {s : ShellHistory} {origin text : List UInt8} {copied : Bool}
    (h : shellExpand s origin = .run (.line text) copied) : text = origin := by
  have hentry : ∀ index, recallEntry s index ≠ .run (.line text) copied := by
    intro index heq
    unfold recallEntry shellHistoryGet at heq
    by_cases hindex : index ≥ s.count
    · rw [if_pos hindex] at heq
      cases heq
    · rw [if_neg hindex] at heq
      cases heq
  unfold shellExpand at h
  dsimp only at h
  split at h
  · split at h
    · cases h
    · exact absurd h (hentry _)
  · split at h
    · split at h
      · cases h
      · exact absurd h (hentry _)
    · cases h
      rfl

theorem SlotsTerminated.execute {s : ShellHistory} (h : SlotsTerminated s) (origin : CString)
    (returns : Bool) : SlotsTerminated (shellExecute s origin returns) := by
  unfold shellExecute
  split
  · exact h
  · cases hexpand : shellExpand s origin.bytes with
    | failed => exact h
    | run execLine copied =>
        have hline : ∀ text, execLine = .line text → 0 ∉ text := by
          rintro text rfl
          rw [shellExpand_line_eq hexpand]
          exact origin.no_nul
        dsimp only
        generalize (if copied = true then (execLine.text s).take (shellLineMax - 1)
          else skipSpaces origin.bytes) = line
        have hdispatch : SlotsTerminated (shellDispatch s line) := by
          unfold shellDispatch
          split
          · exact slotsTerminated_clear
          · exact h
        unfold shellRun
        dsimp only
        split
        · exact hdispatch
        · split
          · exact hdispatch
          · split
            · exact hdispatch.add hline
            · exact hdispatch

/-- The histories that calls of `shell_execute` lead to, whether their commands come back
or not. -/
def ShellReachable : ShellHistory → Prop :=
  Reach (fun s => s = shellHistoryClear)
    (fun s (c : CString × Bool) => shellExecute s c.1 c.2) (fun _ _ => True)

theorem ShellReachable.slotsTerminated {s : ShellHistory} (h : ShellReachable s) :
    SlotsTerminated s := by
  apply Reach.invariant (P := SlotsTerminated) _ _ h
  · rintro s rfl
    exact slotsTerminated_clear
  · exact fun s c hs _ => hs.execute c.1 c.2

/-! ## The number of a recall -/

/-- The digits behind the exclamation mark. -/
def recallDigits (line : List UInt8) : List UInt8 := (line.drop 1).takeWhile isDigit

/-- What follows the digits. -/
def recallRest (line : List UInt8) : List UInt8 := (line.drop 1).dropWhile isDigit

def recallWritten (line : List UInt8) : Nat := decimalValue (recallDigits line)

theorem recallNumber_eq_written {line : List UInt8}
    (hbang : line.head? = some '!'.toUInt8) (hdigits : recallDigits line ≠ []) :
    recallNumber line = some (recallWritten line % 2 ^ 64) := by
  match line with
  | [] => cases hbang
  | [c] => exact absurd rfl hdigits
  | c :: d :: rest =>
      have hc : c = '!'.toUInt8 := Option.some.inj hbang
      have hd : isDigit d = true := by
        by_contra hd
        exact hdigits (List.takeWhile_cons_of_neg hd)
      exact if_pos ⟨hc, hd⟩

/-! ## What a recall comes to -/

section Recall

variable {World : Type} (sys : SystemCommands World) (s : ShellHistory) (w : World)

/-- The entry with the index given is shown and executed. -/
def RunsEntry (line : CString) (index : Nat) : Prop :=
  ∃ entry, shellHistoryGet s index = some entry ∧
    shellExpand s line.bytes = .run entry true ∧
    shellExecuteWith sys s w line = shellRunLine sys s w entry (entry.text s)

/-- Nothing is executed but the report. -/
def ReportsNotFound (line : CString) : Prop :=
  shellExpand s line.bytes = .failed ∧
    shellExecuteWith sys s w line =
      ⟨s, none, ⟨some (asciiText "history entry not found\n"), w, true⟩⟩

/-- The line is executed as any other. -/
def RunsItself (line : CString) : Prop :=
  shellExpand s line.bytes = .run (.line line.bytes) false ∧
    shellExecuteWith sys s w line = shellRunLine sys s w (.line line.bytes) line.bytes

/-- A line of an exclamation mark and digits recalls the entry with the number written, and
one with more behind the digits is no recall. -/
def RecallsByNumber (line : CString) : Prop :=
  if recallRest line.bytes = [] then
    if 1 ≤ recallWritten line.bytes ∧ recallWritten line.bytes ≤ s.count then
      RunsEntry sys s w line (recallWritten line.bytes - 1)
    else ReportsNotFound sys s w line
  else RunsItself sys s w line

variable {line : CString}

theorem shellExpand_recall (hbang : line.bytes.head? = some '!'.toUInt8)
    (hdigits : recallDigits line.bytes ≠ []) :
    shellExpand s line.bytes =
      if recallWritten line.bytes % 2 ^ 64 = 0 ∨ s.count < recallWritten line.bytes % 2 ^ 64 then
        .failed
      else recallEntry s (recallWritten line.bytes % 2 ^ 64 - 1) := by
  have hstarts : line.bytes.headD ' '.toUInt8 ≠ ' '.toUInt8 := by
    rw [List.headD_eq_head?_getD, hbang]
    decide
  have hrepeat : line.bytes ≠ repeatText := by
    intro heq
    rw [heq] at hdigits
    exact hdigits rfl
  exact shellExpand_number (c := ⟨line, hstarts, true⟩) hrepeat
    (recallNumber_eq_written hbang hdigits)

theorem skipSpaces_of_bang (hbang : line.bytes.head? = some '!'.toUInt8) :
    skipSpaces line.bytes = line.bytes ∧ line.bytes ≠ [] := by
  apply skipSpaces_eq
  rw [List.headD_eq_head?_getD, hbang]
  decide

theorem reportsNotFound_of_failed (hbang : line.bytes.head? = some '!'.toUInt8)
    (hdigits : recallDigits line.bytes ≠ []) (h : shellExpand s line.bytes = .failed) :
    ReportsNotFound sys s w line := by
  obtain ⟨hskip, hne⟩ := skipSpaces_of_bang hbang
  have houtcome := shellExecuteWith_failed sys s w (hskip.symm ▸ hne) h
  have hrepeat : ¬ (strcmp line.bytes repeatText == 0) = true := by
    rw [strcmp_beq_zero line.no_nul (by decide), decide_eq_true_iff]
    intro heq
    rw [heq] at hdigits
    exact hdigits rfl
  have htext : kprintfLit "history entry not found\n" [] =
      some (asciiText "history entry not found\n") := by decide +kernel
  unfold recallFailure at houtcome
  rw [hskip, if_neg hrepeat, htext] at houtcome
  exact ⟨h, houtcome⟩

theorem runsEntry_of_get (hterm : SlotsTerminated s)
    (hbang : line.bytes.head? = some '!'.toUInt8) {index : Nat} {entry : LinePointer}
    (hget : shellHistoryGet s index = some entry)
    (h : shellExpand s line.bytes = .run entry true) : RunsEntry sys s w line index := by
  obtain ⟨hskip, hne⟩ := skipSpaces_of_bang hbang
  have houtcome := shellExecuteWith_run sys s w (hskip.symm ▸ hne) h
  have hwhole : (entry.text s).take (shellLineMax - 1) = entry.text s := by
    apply List.take_of_length_le
    unfold shellHistoryGet at hget
    split at hget
    · cases hget
    · cases hget
      exact Nat.le_sub_one_of_lt (hterm _)
  rw [if_pos rfl, hwhole] at houtcome
  exact ⟨entry, hget, h, houtcome⟩

theorem recallEntry_of_lt {index : Nat} (h : index < s.count) :
    ∃ i, shellHistoryGet s index = some (.slot i) ∧ recallEntry s index = .run (.slot i) true := by
  have hget : shellHistoryGet s index = some (.slot ⟨((s.next + shellHistoryMax - s.count) %
      shellHistoryMax + index) % shellHistoryMax, Nat.mod_lt _ (by decide)⟩) := by
    unfold shellHistoryGet
    rw [if_neg (by omega)]
  refine ⟨_, hget, ?_⟩
  unfold recallEntry
  rw [hget]

/-- Recalls go by the number written exactly when nothing is behind the digits, and the
number either has 64 bits or wraps to one without an entry. -/
theorem recallsByNumber_iff (hreach : ShellReachable s)
    (hbang : line.bytes.head? = some '!'.toUInt8) (hdigits : recallDigits line.bytes ≠ []) :
    RecallsByNumber sys s w line ↔
      recallRest line.bytes = [] ∧
        (recallWritten line.bytes < 2 ^ 64 ∨ recallWritten line.bytes % 2 ^ 64 = 0 ∨
          s.count < recallWritten line.bytes % 2 ^ 64) := by
  have hexpand := shellExpand_recall s hbang hdigits
  have hcount := s.count_le
  have hmax : shellHistoryMax = 16 := rfl
  unfold RecallsByNumber
  generalize recallWritten line.bytes = n at hexpand ⊢
  by_cases hrest : recallRest line.bytes = []
  · rw [if_pos hrest]
    by_cases hfailed : n % 2 ^ 64 = 0 ∨ s.count < n % 2 ^ 64
    · -- the number read has no entry, and neither has the number written
      rw [if_pos hfailed] at hexpand
      have hnone : ¬ (1 ≤ n ∧ n ≤ s.count) := by omega
      rw [if_neg hnone]
      exact iff_of_true (reportsNotFound_of_failed sys s w hbang hdigits hexpand)
        ⟨hrest, .inr hfailed⟩
    · rw [if_neg hfailed] at hexpand
      have hindex : n % 2 ^ 64 - 1 < s.count := by omega
      obtain ⟨i, hget, hentry⟩ := recallEntry_of_lt s hindex
      by_cases hsmall : n < 2 ^ 64
      · -- the number read is the number written
        rw [Nat.mod_eq_of_lt hsmall] at hexpand hget hentry hfailed
        have hsome : 1 ≤ n ∧ n ≤ s.count := by omega
        rw [if_pos hsome]
        exact iff_of_true
          (runsEntry_of_get sys s w hreach.slotsTerminated hbang hget (hexpand.trans hentry))
          ⟨hrest, .inl hsmall⟩
      · have hnone : ¬ (1 ≤ n ∧ n ≤ s.count) := by omega
        rw [if_neg hnone]
        refine iff_of_false (fun hreports => ?_) (by omega)
        have hrun := hreports.1
        rw [hexpand, hentry] at hrun
        cases hrun
  · -- the rest of the line makes no difference to the code
    rw [if_neg hrest]
    refine iff_of_false (fun hitself => ?_) (fun h => hrest h.1)
    have hrun := hitself.1
    rw [hexpand] at hrun
    split at hrun
    · cases hrun
    · next hfailed =>
        have hindex : n % 2 ^ 64 - 1 < s.count := by omega
        obtain ⟨i, -, hentry⟩ := recallEntry_of_lt s hindex
        rw [hentry] at hrun
        cases hrun

end Recall

/-- The history after `version`. -/
def oneEntry : ShellHistory := shellExecute shellHistoryClear versionLine true

theorem shellReachable_oneEntry : ShellReachable oneEntry :=
  .next (i := (versionLine, true)) (.start rfl) trivial

/-- `!1` -/
def recallFirst : CString := ⟨[33, 49], by decide⟩

theorem recallsByNumber_first :
    RecallsByNumber idleSystem oneEntry () recallFirst ↔
      recallRest recallFirst.bytes = [] ∧
        (recallWritten recallFirst.bytes < 2 ^ 64 ∨ recallWritten recallFirst.bytes % 2 ^ 64 = 0 ∨
          oneEntry.count < recallWritten recallFirst.bytes % 2 ^ 64) :=
  recallsByNumber_iff _ _ _ shellReachable_oneEntry (by decide) (by decide)

/-- `!18446744073709551617`, which is 2^64 + 1. -/
def recallWrapped : CString :=
  ⟨[33, 49, 56, 52, 52, 54, 55, 52, 52, 48, 55, 51, 55, 48, 57, 53, 53, 49, 54, 49, 55],
    by decide⟩

/-- `!1x` -/
def recallTrailing : CString := ⟨[33, 49, 120], by decide⟩

/-- The number 2^64 + 1 recalls the first entry, and so does `!1x`. -/
theorem not_recallsByNumber :
    ¬ RecallsByNumber idleSystem oneEntry () recallWrapped ∧
      ¬ RecallsByNumber idleSystem oneEntry () recallTrailing ∧
      (shellExecuteWith idleSystem oneEntry () recallWrapped).command = some .version ∧
      (shellExecuteWith idleSystem oneEntry () recallTrailing).command = some .version := by
  have hfirst : 0 < oneEntry.count := by decide +kernel
  obtain ⟨i, -, hentry⟩ := recallEntry_of_lt oneEntry hfirst
  have hwrapped : recallDigits recallWrapped.bytes ≠ [] := by decide
  have htrailing : recallDigits recallTrailing.bytes ≠ [] := by decide
  refine ⟨fun h => ?_, fun h => ?_, by decide +kernel, by decide +kernel⟩
  · have hfailed : shellExpand oneEntry recallWrapped.bytes = .failed := h.1
    have hindex := shellExpand_recall oneEntry (by decide) hwrapped
    have hwritten : recallWritten recallWrapped.bytes = 18446744073709551617 := by decide +kernel
    rw [hwritten] at hindex
    have hfound : ¬ (18446744073709551617 % 2 ^ 64 = 0 ∨
        oneEntry.count < 18446744073709551617 % 2 ^ 64) := by decide +kernel
    rw [if_neg hfound] at hindex
    have hrun := hindex.trans hentry
    rw [hfailed] at hrun
    cases hrun
  · have hitself : shellExpand oneEntry recallTrailing.bytes = .run (.line _) false := h.1
    have hindex := shellExpand_recall oneEntry (by decide) htrailing
    have hwritten : recallWritten recallTrailing.bytes = 1 := by decide +kernel
    rw [hwritten] at hindex
    have hfound : ¬ (1 % 2 ^ 64 = 0 ∨ oneEntry.count < 1 % 2 ^ 64) := by decide +kernel
    rw [if_neg hfound] at hindex
    have hrun := hindex.trans hentry
    rw [hitself] at hrun
    cases hrun

end AcharyaOS.Shell
