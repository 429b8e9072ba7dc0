import AcharyaOS.Foundation.Field

/-!
# Texts as lists of lines

Splitting a text into its lines and joining them again, how far a text fits into a given
number of lines of a given width, and that what is cut off the end of a text that fits fits
as well.
-/

namespace AcharyaOS.Foundation

/-- The text of the lines, each with its newline. -/
def joinLines (lines : List (List UInt8)) : List UInt8 := lines.flatMap (· ++ ['\n'.toUInt8])

/-- The texts are equal up to one final newline. -/
def SameText (a b : List UInt8) : Prop :=
  a = b ∨ a = b ++ ['\n'.toUInt8] ∨ b = a ++ ['\n'.toUInt8]

instance (a b : List UInt8) : Decidable (SameText a b) := inferInstanceAs (Decidable (_ ∨ _))

/-- The text has at most `count` lines, not counting one empty line behind them, and none of
more than `width` characters. -/
def FitsLines (width count : Nat) (a : List UInt8) : Prop :=
  (∀ line ∈ textLines a, line.length ≤ width) ∧
    ((textLines a).drop count = [] ∨ (textLines a).drop count = [[]])

section Join

@[simp] theorem joinLines_nil : joinLines [] = [] := rfl

theorem joinLines_cons (line : List UInt8) (lines : List (List UInt8)) :
    joinLines (line :: lines) = line ++ '\n'.toUInt8 :: joinLines lines := by
  unfold joinLines
  rw [List.flatMap_cons, List.append_assoc]
  rfl

theorem joinLines_append (lines lines' : List (List UInt8)) :
    joinLines (lines ++ lines') = joinLines lines ++ joinLines lines' :=
  List.flatMap_append

theorem length_joinLines_le {width : Nat} {lines : List (List UInt8)}
    (h : ∀ line ∈ lines, line.length ≤ width) :
    (joinLines lines).length ≤ lines.length * (width + 1) := by
  induction lines with
  | nil => exact Nat.zero_le _
  | cons line lines ih =>
      have hline := h line List.mem_cons_self
      have hrest := ih fun l hl => h l (List.mem_cons_of_mem _ hl)
      rw [joinLines_cons, List.length_append, List.length_cons, List.length_cons,
        Nat.add_mul, Nat.one_mul]
      omega

theorem joinLines_eq_concat {lines : List (List UInt8)} (h : lines ≠ []) :
    ∃ a, joinLines lines = a ++ ['\n'.toUInt8] := by
  obtain ⟨init, line, rfl⟩ := List.eq_nil_or_concat lines |>.resolve_left h
  refine ⟨joinLines init ++ line, ?_⟩
  rw [List.concat_eq_append, joinLines_append, joinLines_cons, joinLines_nil, List.append_assoc]

end Join

/-! ## Splitting -/

section Split

variable {a line : List UInt8}

@[simp] theorem textLines_nil : textLines [] = [] := by
  rw [textLines, dif_pos rfl]

theorem textLines_of_notMem (h : '\n'.toUInt8 ∉ a) (hne : a ≠ []) : textLines a = [a] := by
  rw [textLines, dif_neg hne, scanTo]
  have htake : a.takeWhile (· != '\n'.toUInt8) = a :=
    List.takeWhile_eq_self_iff.mpr (forall_ne_of_notMem h)
  have hdrop : a.dropWhile (· != '\n'.toUInt8) = [] :=
    List.dropWhile_eq_nil_iff.mpr (forall_ne_of_notMem h)
  simp only [htake, hdrop, List.drop_nil, textLines_nil]

/-- Induction along the lines of a text: the last one has no newline. -/
@[elab_as_elim] theorem lineInduction {P : List UInt8 → Prop}
    (last : ∀ a, '\n'.toUInt8 ∉ a → P a)
    (line : ∀ a rest, '\n'.toUInt8 ∉ a → P rest → P (a ++ '\n'.toUInt8 :: rest))
    (a : List UInt8) : P a := by
  by_cases h : '\n'.toUInt8 ∈ a
  · obtain ⟨first, rest, heq, hfirst⟩ := List.eq_append_cons_of_mem h
    have hlen : rest.length < a.length := by
      rw [heq, List.length_append, List.length_cons]
      omega
    rw [heq]
    exact line first rest hfirst (lineInduction last line rest)
  · exact last a h
termination_by a.length

theorem newline_notMem_textLines (a : List UInt8) :
    ∀ line ∈ textLines a, '\n'.toUInt8 ∉ line := by
  induction a using lineInduction with
  | last a h =>
      intro line hline
      by_cases hnil : a = []
      · rw [hnil, textLines_nil] at hline
        cases hline
      · rw [textLines_of_notMem h hnil, List.mem_singleton] at hline
        rwa [hline]
  | line a rest h ih =>
      intro line hline
      rw [textLines_append h, List.mem_cons] at hline
      rcases hline with rfl | hline
      · exact h
      · exact ih line hline

theorem isInfix_of_mem_textLines (a : List UInt8) : ∀ line ∈ textLines a, line <:+: a := by
  induction a using lineInduction with
  | last a h =>
      intro line hline
      by_cases hnil : a = []
      · rw [hnil, textLines_nil] at hline
        cases hline
      · rw [textLines_of_notMem h hnil, List.mem_singleton] at hline
        subst hline
        exact List.infix_refl _
  | line a rest h ih =>
      intro line hline
      rw [textLines_append h, List.mem_cons] at hline
      rcases hline with rfl | hline
      · exact (List.prefix_append _ _).isInfix
      · have hsuffix : rest <:+ a ++ '\n'.toUInt8 :: rest :=
          (List.suffix_cons _ _).trans (List.suffix_append _ _)
        exact (ih line hline).trans hsuffix.isInfix

theorem length_textLines_le (a : List UInt8) : (textLines a).length ≤ a.length := by
  induction a using lineInduction with
  | last a h =>
      by_cases hnil : a = []
      · rw [hnil, textLines_nil]
        exact Nat.zero_le _
      · rw [textLines_of_notMem h hnil]
        exact List.length_pos_iff.mpr hnil
  | line a rest h ih =>
      rw [textLines_append h, List.length_cons, List.length_append, List.length_cons]
      omega

theorem textLines_append_newline (a b : List UInt8) :
    textLines (a ++ '\n'.toUInt8 :: b) = textLines (a ++ ['\n'.toUInt8]) ++ textLines b := by
  induction a using lineInduction with
  | last a h => rw [textLines_append h, textLines_append h, textLines_nil, List.singleton_append]
  | line a rest h ih =>
      rw [List.append_assoc, List.append_assoc, List.cons_append, List.cons_append,
        textLines_append h, textLines_append h, ih, List.cons_append]

theorem joinLines_textLines (a : List UInt8) :
    joinLines (textLines a) = a ∨ joinLines (textLines a) = a ++ ['\n'.toUInt8] := by
  induction a using lineInduction with
  | last a h =>
      by_cases hnil : a = []
      · left
        rw [hnil, textLines_nil, joinLines_nil]
      · right
        rw [textLines_of_notMem h hnil, joinLines_cons, joinLines_nil]
  | line a rest h ih =>
      rw [textLines_append h, joinLines_cons]
      rcases ih with heq | heq
      · left
        rw [heq]
      · right
        rw [heq, List.append_assoc, List.cons_append]

theorem textLines_joinLines {lines : List (List UInt8)}
    (h : ∀ line ∈ lines, '\n'.toUInt8 ∉ line) : textLines (joinLines lines) = lines := by
  induction lines with
  | nil => rw [joinLines_nil, textLines_nil]
  | cons line lines ih =>
      rw [List.forall_mem_cons] at h
      rw [joinLines_cons, textLines_append h.1, ih h.2]

theorem textLines_joinLines_concat {lines : List (List UInt8)} {line : List UInt8}
    (h : ∀ l ∈ lines, '\n'.toUInt8 ∉ l) (hline : '\n'.toUInt8 ∉ line) (hne : line ≠ []) :
    textLines (joinLines lines ++ line) = lines ++ [line] := by
  induction lines with
  | nil => rw [joinLines_nil, List.nil_append, List.nil_append, textLines_of_notMem hline hne]
  | cons l lines ih =>
      rw [List.forall_mem_cons] at h
      rw [joinLines_cons, List.append_assoc, List.cons_append, textLines_append h.1, ih h.2,
        List.cons_append]

end Split

/-! ## Fitting -/

section Fits

variable {width count : Nat} {a line : List UInt8} {lines : List (List UInt8)}

theorem fitsLines_nil : FitsLines width count [] := by
  unfold FitsLines
  rw [textLines_nil, List.drop_nil]
  exact ⟨nofun, .inl rfl⟩

theorem fitsLines_of_line (h : '\n'.toUInt8 ∉ a) (hlen : a.length ≤ width) :
    FitsLines width (count + 1) a := by
  by_cases hnil : a = []
  · rw [hnil]
    exact fitsLines_nil
  · unfold FitsLines
    rw [textLines_of_notMem h hnil, List.drop_succ_cons, List.drop_nil, List.forall_mem_singleton]
    exact ⟨hlen, .inl rfl⟩

theorem fitsLines_cons (h : '\n'.toUInt8 ∉ line) (hlen : line.length ≤ width)
    (ha : FitsLines width count a) : FitsLines width (count + 1) (line ++ '\n'.toUInt8 :: a) := by
  unfold FitsLines
  rw [textLines_append h, List.drop_succ_cons, List.forall_mem_cons]
  exact ⟨⟨hlen, ha.1⟩, ha.2⟩

/-- What is left of lines that fit, cut anywhere, fits with and without a newline. -/
theorem fitsLines_of_cut (hlines : ∀ line ∈ lines, '\n'.toUInt8 ∉ line ∧ line.length ≤ width) :
    ∀ {count a}, lines.length ≤ count → a <+: joinLines lines →
      FitsLines width count a ∧ FitsLines width count (a ++ ['\n'.toUInt8]) := by
  induction lines with
  | nil =>
      intro count a _ ha
      have hsingle : textLines ['\n'.toUInt8] = [[]] := by
        rw [← List.nil_append ['\n'.toUInt8], textLines_append (by decide), textLines_nil]
      rw [List.prefix_nil.mp ha]
      refine ⟨fitsLines_nil, ?_⟩
      unfold FitsLines
      rw [List.nil_append, hsingle, List.forall_mem_singleton]
      refine ⟨Nat.zero_le _, ?_⟩
      cases count with
      | zero => exact .inr rfl
      | succ count => exact .inl List.drop_nil
  | cons line lines ih =>
      intro count a hcount ha
      obtain ⟨count, rfl⟩ : ∃ k, count = k + 1 := Nat.exists_eq_add_one.mpr (by
        rw [List.length_cons] at hcount
        omega)
      have hline := hlines line List.mem_cons_self
      rw [joinLines_cons] at ha
      by_cases hlen : a.length ≤ line.length
      · -- cut within the first line
        have hpre : a <+: line :=
          List.prefix_of_prefix_length_le ha (List.prefix_append _ _) hlen
        have hfree : '\n'.toUInt8 ∉ a := fun h => hline.1 (hpre.subset h)
        have hwidth : a.length ≤ width := hlen.trans hline.2
        exact ⟨fitsLines_of_line hfree hwidth, fitsLines_cons hfree hwidth fitsLines_nil⟩
      · -- cut behind it
        rw [List.append_cons] at ha
        have hfirst : line ++ ['\n'.toUInt8] <+: a := by
          apply List.prefix_of_prefix_length_le (List.prefix_append _ _) ha
          rw [List.length_append, List.length_singleton]
          omega
        obtain ⟨rest, rfl⟩ := hfirst
        rw [← List.append_cons, ← List.append_cons] at ha
        rw [← List.append_cons]
        rw [List.prefix_append_right_inj, List.cons_prefix_cons] at ha
        obtain ⟨hrest, hrest'⟩ := ih (fun l hl => hlines l (List.mem_cons_of_mem _ hl))
          (Nat.le_of_succ_le_succ hcount) ha.2
        rw [List.append_assoc, List.cons_append]
        exact ⟨fitsLines_cons hline.1 hline.2 hrest, fitsLines_cons hline.1 hline.2 hrest'⟩

/-- A text that fits survives being cut to the lines it fits into. -/
theorem FitsLines.sameText (h : FitsLines width count a) :
    SameText (joinLines (((textLines a).take count).map (List.take width))) a := by
  have hcut : ((textLines a).take count).map (List.take width) = (textLines a).take count :=
    calc ((textLines a).take count).map (List.take width)
        = ((textLines a).take count).map id := by
          apply List.map_congr_left
          intro line hline
          exact List.take_of_length_le (h.1 line (List.mem_of_mem_take hline))
      _ = (textLines a).take count := List.map_id _
  have hjoin : joinLines (textLines a) =
      joinLines ((textLines a).take count) ++ joinLines ((textLines a).drop count) := by
    rw [← joinLines_append, List.take_append_drop]
  rw [hcut]
  unfold SameText
  rcases h.2 with hnil | hempty
  · rw [hnil, joinLines_nil, List.append_nil] at hjoin
    rcases joinLines_textLines a with heq | heq
    · left
      rw [← hjoin, heq]
    · right
      left
      rw [← hjoin, heq]
  · -- the empty line behind them is one newline
    rw [hempty, joinLines_cons, joinLines_nil, List.nil_append] at hjoin
    rcases joinLines_textLines a with heq | heq
    · right
      right
      rw [← hjoin, heq]
    · left
      rw [heq] at hjoin
      exact (List.append_cancel_right hjoin).symm

theorem SameText.take_of_le {cap : Nat} {b : List UInt8} (h : SameText (b ++ ['\n'.toUInt8]) a)
    (hb : b.length < cap) (ha : a.length ≤ cap) :
    SameText ((b ++ ['\n'.toUInt8]).take (cap - 1)) a := by
  by_cases hlen : (b ++ ['\n'.toUInt8]).length ≤ cap - 1
  · rw [List.take_of_length_le hlen]
    exact h
  · rw [List.length_append, List.length_singleton] at hlen
    have hcap : cap - 1 = b.length := by omega
    rw [hcap, List.take_left]
    rcases h with heq | heq | heq
    · exact .inr (.inr heq.symm)
    · exact .inl (List.append_cancel_right heq)
    · rw [heq, List.length_append, List.length_append, List.length_singleton] at ha
      omega

end Fits

end AcharyaOS.Foundation
