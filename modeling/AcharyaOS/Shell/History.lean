import AcharyaOS.Foundation.Field
import AcharyaOS.Foundation.Ring
import AcharyaOS.Foundation.Run
import AcharyaOS.Shell.Code

/-!
# The history as a list of stored commands

What the history is for: the last 16 commands in their order, and a way to name one of them
again.  A recall stores the text it found, and hands `shell_history_add` a pointer into the
ring for it, perhaps to the very slot that is written.
-/

namespace AcharyaOS.Shell

open Foundation Foundation.Run

/-- The number in a line `!n`, in the 64-bit arithmetic of the shell. -/
def recallNumber (line : List UInt8) : Option Nat :=
  match line with
  | c :: d :: rest =>
      if c = '!'.toUInt8 ∧ isDigit d = true then
        some (((d :: rest).takeWhile isDigit).foldl (fun n c => n * 10 + (c.toNat - 48)) 0 % 2 ^ 64)
      else none
  | _ => none

/-- The commands stored since the last `clearhist`, after one more line. -/
def storedStep (stored : List (List UInt8)) (c : ShellCall) : List (List UInt8) :=
  let keep (text : Option (List UInt8)) :=
    if c.returns then stored ++ text.toList else stored
  if c.line.bytes = repeatText then keep (stored.rtake shellHistoryMax).getLast?
  else
    match recallNumber c.line.bytes with
    | some 0 => stored
    | some (n + 1) => keep (stored.rtake shellHistoryMax)[n]?
    | none =>
        if c.line.bytes = clearhistText then []
        else if c.line.bytes = historyText then stored
        else keep (some (c.line.bytes.take (shellLineMax - 1)))

/-- The entries `shell_history_get(0..count-1)`. -/
def historyEntries (s : ShellHistory) : List (Option (List UInt8)) :=
  (List.range s.count).map fun i => (shellHistoryGet s i).map (LinePointer.text s)

theorem shellHistoryMax_pos : 0 < shellHistoryMax := by decide

/-- A text that the shell keeps. -/
structure Storable (text : List UInt8) : Prop where
  no_nul : 0 ∉ text
  length_lt : text.length < shellLineMax
  ne_nil : text ≠ []
  ne_history : text ≠ historyText
  ne_clearhist : text ≠ clearhistText

/-- The ring stands for the stored commands. -/
structure HistoryRefines (s : ShellHistory) (stored : List (List UInt8)) : Prop where
  ring : Ring.Holds shellHistoryMax_pos (fun i => cText (s.history i).toList) s.next stored
  count_eq : s.count = min stored.length shellHistoryMax
  storable : ∀ text ∈ stored, Storable text

/-! ## Copying into the ring -/

/-- The pointer reads the string `src`, wherever it points. -/
def Reads (history : Fin shellHistoryMax → Bytes shellLineMax) (line : LinePointer)
    (src : List UInt8) : Prop :=
  ∀ i ≤ src.length, line.charAt history i = src.getD i 0

theorem reads_text (s : ShellHistory) (line : LinePointer) :
    Reads s.history line (line.text s) := by
  cases line with
  | line text => exact fun _ _ => rfl
  | slot j => exact fun i hi => getD_of_le_cText _ hi

/-- Storing a character of the string where the string has it does not disturb a pointer
that reads the string. -/
theorem Reads.set {history : Fin shellHistoryMax → Bytes shellLineMax} {line : LinePointer}
    {src : List UInt8} (h : Reads history line src) (next : Fin shellHistoryMax) (i : Nat) :
    Reads (Function.update history next ((history next).set i (src.getD i 0))) line src := by
  cases line with
  | line text => exact h
  | slot j =>
      intro m hm
      have hread : (history j).toList.getD m 0 = src.getD m 0 := h m hm
      by_cases hj : j = next
      · -- the slot being written is the one being read
        subst hj
        show ((Function.update history j _) j).toList.getD m 0 = _
        rw [Function.update_self]
        show ((history j).toList.set i (src.getD i 0)).getD m 0 = src.getD m 0
        rw [List.getD_eq_getElem?_getD, List.getElem?_set]
        rw [List.getD_eq_getElem?_getD] at hread
        by_cases hmi : i = m
        · rw [if_pos hmi, hmi]
          split
          · rfl
          · next hout =>
              rw [List.getElem?_eq_none (by omega)] at hread
              exact hread
        · rw [if_neg hmi]
          exact hread
      · show ((Function.update history next _) j).toList.getD m 0 = _
        rw [Function.update_of_ne hj]
        exact hread

/-- The loop copies the string as far as there is room, and leaves the other slots alone. -/
theorem copyChars_spec (next : Fin shellHistoryMax) (line : LinePointer) {src : List UInt8}
    (hsrc : 0 ∉ src) (n : Nat) : ∀ i history, Reads history line src → i ≤ src.length →
      i + n ≤ shellLineMax → (history next).toList.take i = src.take i →
      (copyChars next line n i history).2 = min (i + n) src.length ∧
        ((copyChars next line n i history).1 next).toList.take (min (i + n) src.length) =
          src.take (min (i + n) src.length) ∧
        ∀ j, j ≠ next → (copyChars next line n i history).1 j = history j := by
  induction n with
  | zero =>
      intro i history _ hi _ htake
      have hmin : min (i + 0) src.length = i := by omega
      rw [hmin]
      exact ⟨rfl, htake, fun _ _ => rfl⟩
  | succ n ih =>
      intro i history hreads hi hroom htake
      unfold copyChars
      rw [hreads i hi]
      by_cases hend : i = src.length
      · -- the terminator of the string
        have hzero : src.getD i 0 = 0 := by
          rw [hend, List.getD_eq_getElem?_getD, List.getElem?_eq_none le_rfl]
          rfl
        have hmin : min (i + (n + 1)) src.length = i := by omega
        rw [if_pos hzero, hmin]
        exact ⟨rfl, htake, fun _ _ => rfl⟩
      · have hlt : i < src.length := by omega
        have hget : src.getD i 0 = src[i] := by
          rw [List.getD_eq_getElem?_getD, List.getElem?_eq_getElem hlt]
          rfl
        have hne : src.getD i 0 ≠ 0 := by
          rw [hget]
          exact fun hzero => hsrc (hzero ▸ List.getElem_mem hlt)
        rw [if_neg hne]
        have hprefix : ((Function.update history next
            ((history next).set i (src.getD i 0))) next).toList.take (i + 1) =
              src.take (i + 1) := by
          have hlen : i < (history next).toList.length := by
            rw [Bytes.length_toList]
            omega
          rw [Function.update_self]
          show ((history next).toList.set i (src.getD i 0)).take (i + 1) = _
          rw [List.take_set, List.take_succ_eq_append_getElem hlen, htake,
            List.take_succ_eq_append_getElem hlt, List.set_append_right _ _ (by simp), hget]
          simp [Nat.min_eq_left hi]
        obtain ⟨hindex, hcopied, hothers⟩ :=
          ih (i + 1) _ (hreads.set next i) hlt (by omega) hprefix
        have hsum : i + 1 + n = i + (n + 1) := by omega
        rw [hsum] at hindex hcopied
        refine ⟨hindex, hcopied, fun j hj => ?_⟩
        rw [hothers j hj, Function.update_of_ne hj]

theorem cText_set_take {a src : List UInt8} {k : Nat} (hsrc : 0 ∉ src) (hk : k < a.length)
    (h : a.take k = src.take k) : cText (a.set k 0) = src.take k := by
  have hfree : 0 ∉ src.take k := fun hmem => hsrc (List.mem_of_mem_take hmem)
  rw [List.set_eq_take_append_cons_drop, if_pos hk, h, cText_append_zero,
    cText_of_zero_notMem hfree]

/-- Storing a string appends it to the ring, cut to the room in a slot, even when the
pointer is one to the slot being written. -/
theorem shellHistoryAdd_spec (s : ShellHistory) (line : LinePointer)
    (hsrc : 0 ∉ line.text s) (hne : line.text s ≠ []) :
    (fun i => cText ((shellHistoryAdd s line).history i).toList) =
        Function.update (fun i => cText (s.history i).toList) s.next
          ((line.text s).take (shellLineMax - 1)) ∧
      (shellHistoryAdd s line).count = min (s.count + 1) shellHistoryMax ∧
      (shellHistoryAdd s line).next.val = (s.next.val + 1) % shellHistoryMax := by
  have hreads := reads_text s line
  have hfirst : line.charAt s.history 0 ≠ 0 := by
    rw [hreads 0 (Nat.zero_le _)]
    cases htext : line.text s with
    | nil => exact absurd htext hne
    | cons c text =>
        rw [htext] at hsrc
        exact fun hzero => hsrc (hzero ▸ List.mem_cons_self)
  obtain ⟨hindex, hcopied, hothers⟩ := copyChars_spec s.next line hsrc (shellLineMax - 1) 0
    s.history hreads (Nat.zero_le _) (by decide) rfl
  rw [Nat.zero_add] at hindex hcopied
  generalize hcopy : copyChars s.next line (shellLineMax - 1) 0 s.history = r
    at hindex hcopied hothers
  have hhistory : (shellHistoryAdd s line).history =
      Function.update r.1 s.next ((r.1 s.next).set r.2 0) := by
    unfold shellHistoryAdd
    rw [if_neg hfirst, hcopy]
  have hcount := s.count_le
  refine ⟨?_, ?_, ?_⟩
  · rw [hhistory]
    ext i : 1
    by_cases hi : i = s.next
    · rw [hi, Function.update_self, Function.update_self, hindex]
      have hroom : min (shellLineMax - 1) (line.text s).length < (r.1 s.next).toList.length := by
        rw [Bytes.length_toList]
        exact (Nat.min_le_left _ _).trans_lt (by decide)
      have htext := cText_set_take hsrc hroom hcopied
      rw [← List.take_eq_take_min] at htext
      exact htext
    · rw [Function.update_of_ne hi, Function.update_of_ne hi, hothers i hi]
  · unfold shellHistoryAdd
    rw [if_neg hfirst]
    show (if s.count < shellHistoryMax then s.count + 1 else s.count) =
      min (s.count + 1) shellHistoryMax
    by_cases hroom : s.count < shellHistoryMax
    · rw [if_pos hroom]
      omega
    · rw [if_neg hroom]
      omega
  · unfold shellHistoryAdd
    rw [if_neg hfirst]

/-! ## The commands stored -/

theorem length_rtake (stored : List (List UInt8)) :
    (stored.rtake shellHistoryMax).length = min stored.length shellHistoryMax := by
  rw [List.rtake, List.length_drop]
  omega

theorem strcmp_beq_zero {a b : List UInt8} (ha : 0 ∉ a) (hb : 0 ∉ b) :
    (strcmp a b == 0) = decide (a = b) := by
  rw [Bool.eq_iff_iff, beq_iff_eq, decide_eq_true_iff, strcmp_eq_zero_iff,
    cText_of_zero_notMem ha, cText_of_zero_notMem hb]

namespace Storable

variable {text : List UInt8}

theorem cut (hno : 0 ∉ text) (hne : text ≠ []) (hhistory : text ≠ historyText)
    (hclear : text ≠ clearhistText) : Storable (text.take (shellLineMax - 1)) := by
  have hlen : (text.take (shellLineMax - 1)).length < shellLineMax := by
    rw [List.length_take]
    exact (Nat.min_le_left _ _).trans_lt (by decide)
  have hshort : ∀ word : List UInt8, word.length < shellLineMax - 1 → text ≠ word →
      text.take (shellLineMax - 1) ≠ word := by
    intro word hword hneq heq
    rw [← heq, List.length_take] at hword
    rw [List.take_of_length_le (by omega)] at heq
    exact hneq heq
  exact ⟨fun hmem => hno (List.mem_of_mem_take hmem), hlen, hshort [] (by decide) hne,
    hshort historyText (by decide) hhistory, hshort clearhistText (by decide) hclear⟩

theorem take_eq (h : Storable text) : text.take (shellLineMax - 1) = text :=
  List.take_of_length_le (Nat.le_sub_one_of_lt h.length_lt)

end Storable

namespace HistoryRefines

variable {s : ShellHistory} {stored : List (List UInt8)}

theorem clear : HistoryRefines shellHistoryClear [] where
  ring := .nil _ _ _
  count_eq := rfl
  storable _ hmem := absurd hmem List.not_mem_nil

theorem add (h : HistoryRefines s stored) {line : LinePointer}
    (hstorable : Storable ((line.text s).take (shellLineMax - 1))) (hno : 0 ∉ line.text s) :
    HistoryRefines (shellHistoryAdd s line)
      (stored ++ [(line.text s).take (shellLineMax - 1)]) := by
  have hne : line.text s ≠ [] := by
    intro hnil
    apply hstorable.ne_nil
    rw [hnil, List.take_nil]
  obtain ⟨hring, hcount, hnext⟩ := shellHistoryAdd_spec s line hno hne
  refine ⟨?_, ?_, ?_⟩
  · rw [hring, hnext]
    exact h.ring.push s.next.isLt _
  · have hold := h.count_eq
    rw [hcount, List.length_append, List.length_singleton]
    omega
  · intro text hmem
    rcases List.mem_append.mp hmem with hold | hnew
    · exact h.storable text hold
    · rw [List.mem_singleton.mp hnew]
      exact hstorable

theorem get (h : HistoryRefines s stored) (index : Nat) :
    (shellHistoryGet s index).map (LinePointer.text s) =
      (stored.rtake shellHistoryMax)[index]? := by
  have hrecent := h.ring s.count (by have := h.count_eq; omega) s.count_le
  rw [h.count_eq, Ring.rtake_min_length, ← h.count_eq] at hrecent
  rw [← hrecent]
  unfold shellHistoryGet Ring.recent
  by_cases hindex : index ≥ s.count
  · rw [if_pos hindex, List.getElem?_eq_none (by simpa using hindex)]
    rfl
  · have hslot : (⟨((s.next + shellHistoryMax - s.count) % shellHistoryMax + index) %
        shellHistoryMax, Nat.mod_lt _ (by decide)⟩ : Fin shellHistoryMax) =
          Ring.slotAt shellHistoryMax_pos (s.next + shellHistoryMax - s.count + index) :=
      Fin.ext (Nat.mod_add_mod _ _ _)
    rw [if_neg hindex, List.getElem?_map, List.getElem?_range (by omega)]
    simp only [Option.map_some, hslot]
    rfl

theorem entries (h : HistoryRefines s stored) :
    historyEntries s = (stored.rtake shellHistoryMax).map some := by
  have hlen : (stored.rtake shellHistoryMax).length = s.count := by
    rw [length_rtake, h.count_eq]
  apply List.ext_getElem?
  intro index
  unfold historyEntries
  rw [List.getElem?_map, List.getElem?_map]
  by_cases hindex : index < s.count
  · have hsome : (stored.rtake shellHistoryMax)[index]? =
        some (stored.rtake shellHistoryMax)[index] := List.getElem?_eq_getElem (by omega)
    rw [List.getElem?_range hindex, Option.map_some, h.get, hsome]
    rfl
  · rw [List.getElem?_eq_none (by simpa using hindex), List.getElem?_eq_none (by omega)]
    rfl

theorem recallEntry_cases (h : HistoryRefines s stored) (index : Nat) :
    (recallEntry s index = .failed ∧ (stored.rtake shellHistoryMax)[index]? = none) ∨
      ∃ entry, recallEntry s index = .run entry true ∧
        (stored.rtake shellHistoryMax)[index]? = some (entry.text s) := by
  have hget := h.get index
  unfold recallEntry
  cases hentry : shellHistoryGet s index with
  | none =>
      rw [hentry] at hget
      exact .inl ⟨rfl, hget.symm⟩
  | some entry =>
      rw [hentry] at hget
      exact .inr ⟨entry, rfl, hget.symm⟩

theorem run (h : HistoryRefines s stored) {execLine : LinePointer} {line : List UInt8}
    (hno : 0 ∉ execLine.text s) (hnil : execLine.text s ≠ [])
    (hhistory : execLine.text s ≠ historyText) (hclear : execLine.text s ≠ clearhistText)
    (hline : line = execLine.text s) (returns : Bool) :
    HistoryRefines (shellRun s execLine line returns)
      (if returns then stored ++ [(execLine.text s).take (shellLineMax - 1)] else stored) := by
  have hnotHistory : (strcmp (execLine.text s) historyText == 0) = false := by
    rw [strcmp_beq_zero hno (by decide), decide_eq_false_iff_not]
    exact hhistory
  have hnotClear : (strcmp (execLine.text s) clearhistText == 0) = false := by
    rw [strcmp_beq_zero hno (by decide), decide_eq_false_iff_not]
    exact hclear
  have hdispatch : shellDispatch s (execLine.text s) = s := by
    unfold shellDispatch
    rw [hnotClear]
    rfl
  have hfirst : (execLine.charAt s.history 0 == 0) = false := by
    rw [reads_text s execLine 0 (Nat.zero_le _), beq_eq_false_iff_ne]
    cases htext : execLine.text s with
    | nil => exact absurd htext hnil
    | cons c text =>
        rw [htext] at hno
        exact fun hzero => hno (hzero ▸ List.mem_cons_self)
  unfold shellRun
  rw [hline]
  cases returns with
  | false =>
      rw [hdispatch]
      exact h
  | true =>
      simp only [hdispatch, Bool.not_true, hnotHistory, hnotClear, Bool.or_false, hfirst,
        bne, Bool.not_false, Bool.and_true, Bool.false_eq_true, if_false, if_true]
      exact h.add (.cut hno hnil hhistory hclear) hno

theorem runEntry (h : HistoryRefines s stored) {entry : LinePointer}
    (hmem : entry.text s ∈ stored) (returns : Bool) :
    HistoryRefines (shellRun s entry ((entry.text s).take (shellLineMax - 1)) returns)
      (if returns then stored ++ [entry.text s] else stored) := by
  have hstorable := h.storable _ hmem
  have hrun := h.run hstorable.no_nul hstorable.ne_nil hstorable.ne_history
    hstorable.ne_clearhist hstorable.take_eq returns
  rw [hstorable.take_eq] at hrun ⊢
  exact hrun

end HistoryRefines

theorem shellRun_of_management {s : ShellHistory} {execLine : LinePointer} {line : List UInt8}
    (hline : line = historyText ∨ line = clearhistText) (returns : Bool) :
    shellRun s execLine line returns = shellDispatch s line := by
  have hmatch : (strcmp line historyText == 0 || strcmp line clearhistText == 0) = true := by
    rcases hline with rfl | rfl
    · decide
    · decide
  unfold shellRun
  simp only [hmatch, if_true, ite_self]

/-! ## One line -/

/-- Reading on from a number that has wrapped gives the number that would have wrapped. -/
theorem decimal_mod (digits : List UInt8) : ∀ n : Nat,
    digits.foldl (fun n c => n * 10 + (c.toNat - 48)) (n % 2 ^ 64) % 2 ^ 64 =
      digits.foldl (fun n c => n * 10 + (c.toNat - 48)) n % 2 ^ 64 := by
  induction digits with
  | nil => exact fun n => Nat.mod_mod _ _
  | cons c digits ih =>
      intro n
      rw [List.foldl_cons, List.foldl_cons, ← ih (n % 2 ^ 64 * 10 + (c.toNat - 48)),
        ← ih (n * 10 + (c.toNat - 48))]
      congr 2
      omega

theorem toNat_recallIndexFrom (line : List UInt8) : ∀ index : UInt64,
    (recallIndexFrom index line).toNat =
      (line.takeWhile isDigit).foldl (fun n c => n * 10 + (c.toNat - 48)) index.toNat %
        2 ^ 64 := by
  induction line with
  | nil =>
      intro index
      exact (Nat.mod_eq_of_lt index.toNat_lt).symm
  | cons c line ih =>
      intro index
      unfold recallIndexFrom
      by_cases hc : isDigit c = true
      · have hge : '0'.toUInt8 ≤ c := by
          unfold isDigit at hc
          rw [Bool.and_eq_true, decide_eq_true_iff] at hc
          exact hc.1
        have hdigit : (c - '0'.toUInt8).toUInt64.toNat = c.toNat - 48 := by
          rw [UInt8.toNat_toUInt64, UInt8.toNat_sub_of_le _ _ hge]
          rfl
        rw [if_pos hc, ih, List.takeWhile_cons_of_pos hc, List.foldl_cons, UInt64.toNat_add,
          UInt64.toNat_mul, hdigit, Nat.mod_add_mod, decimal_mod]
        rfl
      · rw [if_neg hc, List.takeWhile_cons_of_neg hc]
        exact (Nat.mod_eq_of_lt index.toNat_lt).symm

theorem recallNumber_eq (line : List UInt8) :
    recallNumber line =
      if line.getD 0 0 == '!'.toUInt8 && isDigit (line.getD 1 0) then
        some (recallIndexFrom 0 (line.drop 1)).toNat
      else none := by
  match line with
  | [] => rfl
  | [c] =>
      have hend : isDigit (([c] : List UInt8).getD 1 0) = false := rfl
      rw [hend, Bool.and_false, if_neg (by decide)]
      rfl
  | c :: d :: rest =>
      unfold recallNumber
      rw [List.drop_one, List.tail_cons, toNat_recallIndexFrom]
      simp only [List.getD_cons_zero, List.getD_cons_succ, Bool.and_eq_true, beq_iff_eq,
        UInt64.toNat_zero]

theorem skipSpaces_eq {line : List UInt8} (h : line.headD ' '.toUInt8 ≠ ' '.toUInt8) :
    skipSpaces line = line ∧ line ≠ [] := by
  cases line with
  | nil => exact absurd rfl h
  | cons c line =>
      have hc : (c == ' '.toUInt8) = false := beq_eq_false_iff_ne.mpr h
      refine ⟨?_, List.cons_ne_nil c line⟩
      unfold skipSpaces
      rw [List.dropWhile_cons, hc, if_neg (by decide)]

section Step

variable {s : ShellHistory} {stored : List (List UInt8)} {c : ShellCall}

theorem strcmp_repeatText (c : ShellCall) :
    (strcmp c.line.bytes repeatText == 0) = decide (c.line.bytes = repeatText) :=
  strcmp_beq_zero c.line.no_nul (by decide)

theorem shellExpand_repeat (hrepeat : c.line.bytes = repeatText) :
    shellExpand s c.line.bytes =
      if s.count == 0 then .failed else recallEntry s (s.count - 1) := by
  have hskip := (skipSpaces_eq c.starts).1
  have hmatch := strcmp_repeatText c
  rw [decide_eq_true hrepeat] at hmatch
  unfold shellExpand
  simp only [hskip, hmatch, if_true]

theorem shellExpand_number (hrepeat : c.line.bytes ≠ repeatText) {n : Nat}
    (hnumber : recallNumber c.line.bytes = some n) :
    shellExpand s c.line.bytes =
      if n = 0 ∨ s.count < n then .failed else recallEntry s (n - 1) := by
  have hskip := (skipSpaces_eq c.starts).1
  have hmatch := strcmp_repeatText c
  rw [decide_eq_false hrepeat] at hmatch
  rw [recallNumber_eq] at hnumber
  split at hnumber
  · next hdigit =>
      rw [Option.some.injEq] at hnumber
      unfold shellExpand
      simp only [hskip, hmatch, Bool.false_eq_true, if_false, if_pos hdigit]
      generalize recallIndexFrom 0 (c.line.bytes.drop 1) = index at hnumber ⊢
      subst hnumber
      congr 1
      rw [Bool.or_eq_true, beq_iff_eq, decide_eq_true_iff, ← UInt64.toNat_inj]
      rfl
  · cases hnumber

theorem shellExpand_line (hrepeat : c.line.bytes ≠ repeatText)
    (hnumber : recallNumber c.line.bytes = none) :
    shellExpand s c.line.bytes = .run (.line c.line.bytes) false := by
  have hskip := (skipSpaces_eq c.starts).1
  have hmatch := strcmp_repeatText c
  rw [decide_eq_false hrepeat] at hmatch
  rw [recallNumber_eq] at hnumber
  split at hnumber
  · cases hnumber
  · next hdigit =>
      unfold shellExpand
      simp only [hskip, hmatch, Bool.false_eq_true, if_false, if_neg hdigit, bne_self_eq_false]

theorem shellStep_failed (h : shellExpand s c.line.bytes = .failed) : shellStep s c = s := by
  unfold shellStep shellExecute
  rw [h, ite_self]

theorem shellStep_run {execLine : LinePointer} {copied : Bool}
    (h : shellExpand s c.line.bytes = .run execLine copied) :
    shellStep s c = shellRun s execLine
      (if copied then (execLine.text s).take (shellLineMax - 1) else skipSpaces c.line.bytes)
      c.returns := by
  obtain ⟨hskip, hnil⟩ := skipSpaces_eq c.starts
  have hskipped : (skipSpaces c.line.bytes == []) = false := by
    rw [hskip, beq_eq_false_iff_ne]
    exact hnil
  unfold shellStep shellExecute
  rw [hskipped, if_neg (by decide), h]

theorem HistoryRefines.stepRecall (h : HistoryRefines s stored) {index : Nat}
    (hexpand : shellExpand s c.line.bytes = recallEntry s index) :
    HistoryRefines (shellStep s c)
      (if c.returns then stored ++ ((stored.rtake shellHistoryMax)[index]?).toList else stored) := by
  rcases h.recallEntry_cases index with ⟨hfailed, hnone⟩ | ⟨entry, hrun, hsome⟩
  · rw [shellStep_failed (hexpand.trans hfailed), hnone, Option.toList_none, List.append_nil,
      ite_self]
    exact h
  · rw [shellStep_run (hexpand.trans hrun), hsome]
    have hmem : entry.text s ∈ stored := (List.drop_sublist _ _).subset
      (List.mem_of_getElem? hsome)
    exact h.runEntry hmem c.returns

theorem HistoryRefines.stepLine (h : HistoryRefines s stored)
    (hexpand : shellExpand s c.line.bytes = .run (.line c.line.bytes) false) :
    HistoryRefines (shellStep s c)
      (if c.line.bytes = clearhistText then []
        else if c.line.bytes = historyText then stored
        else if c.returns then stored ++ [c.line.bytes.take (shellLineMax - 1)] else stored) := by
  obtain ⟨hskip, hnil⟩ := skipSpaces_eq c.starts
  rw [shellStep_run hexpand, if_neg (by decide), hskip]
  by_cases hclear : c.line.bytes = clearhistText
  · rw [if_pos hclear, hclear, shellRun_of_management (.inr rfl)]
    exact .clear
  · rw [if_neg hclear]
    by_cases hhistory : c.line.bytes = historyText
    · rw [if_pos hhistory, hhistory, shellRun_of_management (.inl rfl)]
      exact h
    · have hno : 0 ∉ (LinePointer.line c.line.bytes).text s := c.line.no_nul
      rw [if_neg hhistory]
      exact h.run hno hnil hhistory hclear rfl c.returns

theorem HistoryRefines.step (h : HistoryRefines s stored) (c : ShellCall) :
    HistoryRefines (shellStep s c) (storedStep stored c) := by
  have hcount := h.count_eq
  have hlen := length_rtake stored
  have hpos := shellHistoryMax_pos
  unfold storedStep
  dsimp only
  by_cases hrepeat : c.line.bytes = repeatText
  · have hexpand := shellExpand_repeat (s := s) hrepeat
    have hlast : (stored.rtake shellHistoryMax).getLast? =
        (stored.rtake shellHistoryMax)[s.count - 1]? := by
      rw [List.getLast?_eq_getElem?, hlen, hcount]
    rw [if_pos hrepeat, hlast]
    by_cases hzero : s.count = 0
    · have hnone : (stored.rtake shellHistoryMax)[s.count - 1]? = none :=
        List.getElem?_eq_none (by omega)
      rw [if_pos (beq_iff_eq.mpr hzero)] at hexpand
      rw [shellStep_failed hexpand, hnone, Option.toList_none, List.append_nil, ite_self]
      exact h
    · rw [if_neg fun heq => hzero (beq_iff_eq.mp heq)] at hexpand
      exact h.stepRecall hexpand
  · rw [if_neg hrepeat]
    cases hnumber : recallNumber c.line.bytes with
    | none => exact h.stepLine (shellExpand_line hrepeat hnumber)
    | some n =>
        have hexpand := shellExpand_number (s := s) hrepeat hnumber
        cases n with
        | zero =>
            rw [if_pos (.inl rfl)] at hexpand
            rw [shellStep_failed hexpand]
            exact h
        | succ n =>
            by_cases hlarge : s.count < n + 1
            · have hnone : (stored.rtake shellHistoryMax)[n]? = none :=
                List.getElem?_eq_none (by omega)
              rw [if_pos (.inr hlarge)] at hexpand
              simp only [shellStep_failed hexpand, hnone, Option.toList_none, List.append_nil,
                ite_self]
              exact h
            · rw [if_neg (by omega)] at hexpand
              exact h.stepRecall hexpand

end Step

/-! ## Runs -/

theorem historyRefines_run (calls : List ShellCall) :
    HistoryRefines (runSteps shellStep shellHistoryClear calls)
      (runSteps storedStep [] calls) :=
  sim_runSteps (R := HistoryRefines) (fun _ _ c h => h.step c) calls _ _ .clear

/-- Recalling the oldest entry of a full ring overwrites the slot that is recalled: the entry
moves to the end with its text. -/
theorem HistoryRefines.recallOldest {s : ShellHistory} {stored : List (List UInt8)}
    (h : HistoryRefines s stored) (hfull : s.count = shellHistoryMax) {c : ShellCall}
    (hrecall : recallNumber c.line.bytes = some 1) (hreturns : c.returns = true) :
    historyEntries (shellStep s c) = (historyEntries s).tail ++ (historyEntries s).take 1 := by
  have hcount := h.count_eq
  have hlen := length_rtake stored
  have hpos := shellHistoryMax_pos
  have hrepeat : c.line.bytes ≠ repeatText := by
    intro heq
    rw [heq] at hrecall
    exact absurd hrecall (by decide)
  obtain ⟨oldest, rest, hwindow⟩ := List.exists_cons_of_length_pos
    (show 0 < (stored.rtake shellHistoryMax).length by omega)
  have hstep : storedStep stored c = stored ++ [oldest] := by
    unfold storedStep
    rw [if_neg hrepeat, hrecall, hwindow, hreturns]
    rfl
  have hrest : stored.rtake (shellHistoryMax - 1) = rest := by
    have htail := congrArg List.tail hwindow
    rw [List.tail_cons] at htail
    rw [← htail, List.rtake, List.rtake, List.tail_drop]
    congr 1
    omega
  have hnext := h.step c
  rw [hstep] at hnext
  have hlast : shellHistoryMax = shellHistoryMax - 1 + 1 := rfl
  rw [hnext.entries, h.entries, hwindow, hlast, List.rtake_concat_succ, hrest]
  simp

/-- After any lines the entries are the last 16 commands stored since the last `clearhist`,
each cut to the room in a slot, and a recall of the oldest entry of a full ring stores it
once more. -/
theorem historyEntries_run (calls : List ShellCall) :
    historyEntries (runSteps shellStep shellHistoryClear calls) =
        ((runSteps storedStep [] calls).rtake shellHistoryMax).map some ∧
      ∀ c : ShellCall, recallNumber c.line.bytes = some 1 → c.returns = true →
        (runSteps shellStep shellHistoryClear calls).count = shellHistoryMax →
          historyEntries (shellStep (runSteps shellStep shellHistoryClear calls) c) =
            (historyEntries (runSteps shellStep shellHistoryClear calls)).tail ++
              (historyEntries (runSteps shellStep shellHistoryClear calls)).take 1 := by
  have h := historyRefines_run calls
  exact ⟨h.entries, fun _ hrecall hreturns hfull => h.recallOldest hfull hrecall hreturns⟩

/-- A command of 128 characters. -/
def longCommand : ShellCall where
  line := ⟨List.replicate 128 97, by decide⟩
  starts := by decide
  returns := true

/-- A longer command is not stored as it was given. -/
theorem not_historyEntries_whole :
    ¬ ∀ c : ShellCall, c.line.bytes ≠ repeatText → recallNumber c.line.bytes = none →
      c.line.bytes ≠ historyText → c.line.bytes ≠ clearhistText → c.returns = true →
        historyEntries (runSteps shellStep shellHistoryClear [c]) = [some c.line.bytes] := by
  intro h
  have hentries := h longCommand (by decide) (by decide) (by decide) (by decide) rfl
  exact absurd hentries (by decide +kernel)

end AcharyaOS.Shell
