import AcharyaOS.Foundation.Numeral
import AcharyaOS.Kio.Code
import Mathlib.Tactic.IntervalCases

/-!
# The language of the formats

What a format says, apart from any loop over it: its pieces in order, the arguments they
take, and the text they stand for.  `kprintf` prints that text.
-/

namespace AcharyaOS.Kio

open Foundation

/-- A character that stands for itself, or a conversion. -/
inductive Piece
  | lit (c : UInt8)
  | text
  | decimal
  | hex
  | char
  deriving DecidableEq

/-- The pieces that a percent sign and the character behind it make. -/
def conversion (c : UInt8) : List Piece :=
  if c = 's'.toUInt8 then [.text]
  else if c = 'd'.toUInt8 then [.decimal]
  else if c = 'x'.toUInt8 then [.hex]
  else if c = 'c'.toUInt8 then [.char]
  else if c = '%'.toUInt8 then [.lit '%'.toUInt8]
  else [.lit '%'.toUInt8, .lit c]

def pieces : List UInt8 → List Piece
  | [] => []
  | [c] => [.lit c]
  | c :: d :: fmt =>
    if c ≠ '%'.toUInt8 then .lit c :: pieces (d :: fmt) else conversion d ++ pieces fmt

/-- The arguments are those that the pieces take, perhaps with more behind them. -/
def Matches : List Piece → List FormatArg → Prop
  | [], _ => True
  | .lit _ :: ps, args => Matches ps args
  | .text :: ps, .str _ :: args => Matches ps args
  | .decimal :: ps, .word _ :: args => Matches ps args
  | .hex :: ps, .word _ :: args => Matches ps args
  | .char :: ps, .word _ :: args => Matches ps args
  | _ :: _, _ => False

/-- The text of the pieces: numbers are 32 bits wide, `decimal` ones signed. -/
def render : List Piece → List FormatArg → List UInt8
  | [], _ => []
  | .lit c :: ps, args => c :: render ps args
  | .text :: ps, .str s :: args => s.bytes ++ render ps args
  | .decimal :: ps, .word x :: args => signedNumeral x.toInt32.toInt ++ render ps args
  | .hex :: ps, .word x :: args => numeral 16 x.toNat ++ render ps args
  | .char :: ps, .word x :: args => x.toUInt8 :: render ps args
  | _ :: _, _ => []

@[simp] theorem pieces_nil : pieces [] = [] := rfl

@[simp] theorem render_nil (args : List FormatArg) : render [] args = [] := rfl

/-! ## Digits -/

theorem kprintDigit_eq {digit : UInt32} (h : digit.toNat < 16) :
    kprintDigit digit false = digit.toNat.digitChar.toUInt8 := by
  rw [← UInt32.ofNat_toNat (x := digit)]
  generalize digit.toNat = d at h
  interval_cases d <;> rfl

theorem kprintDigits_eq {base : UInt32} (hbase : 1 < base.toNat) (hbase' : base.toNat ≤ 16) :
    ∀ {room : Nat} {value : UInt32}, value.toNat < base.toNat ^ room →
      kprintDigits base false room value =
        some ((lowDigits base.toNat room value.toNat).map Char.toUInt8) := by
  intro room
  induction room with
  | zero =>
    intro value hlt
    rw [Nat.pow_zero] at hlt
    have hzero : ¬ value > 0 := by
      rw [gt_iff_lt, UInt32.lt_iff_toNat_lt]
      show ¬ 0 < value.toNat
      omega
    exact if_neg hzero
  | succ room ih =>
    intro value hlt
    unfold kprintDigits lowDigits
    by_cases hpos : value > 0
    · have hpos' : value.toNat ≠ 0 := Nat.pos_iff_ne_zero.mp (UInt32.lt_iff_toNat_lt.mp hpos)
      have hdiv : (value / base).toNat < base.toNat ^ room := by
        rw [UInt32.toNat_div]
        apply Nat.div_lt_of_lt_mul
        rwa [Nat.pow_succ'] at hlt
      have hmod : (value % base).toNat < 16 := by
        rw [UInt32.toNat_mod]
        exact Nat.lt_of_lt_of_le (Nat.mod_lt _ (by omega)) hbase'
      rw [if_pos hpos, if_neg hpos', ih hdiv, kprintDigit_eq hmod, UInt32.toNat_div,
        UInt32.toNat_mod]
      rfl
    · have hzero : value.toNat = 0 := by
        rw [gt_iff_lt, UInt32.lt_iff_toNat_lt] at hpos
        exact Nat.eq_zero_of_not_pos hpos
      rw [if_neg hpos, if_pos hzero]
      rfl

theorem kprintUint_eq (value : UInt32) {base : UInt32} (hbase : 1 < base.toNat)
    (hbase' : base.toNat ≤ 16) :
    kprintUint value base false = some (numeral base.toNat value.toNat) := by
  unfold kprintUint
  by_cases hzero : value = 0
  · rw [if_pos hzero, hzero, UInt32.toNat_zero, numeral_zero]
  · have hpos : 0 < value.toNat := Nat.pos_iff_ne_zero.mpr fun h => hzero (UInt32.toNat_inj.mp h)
    have hlt : value.toNat < base.toNat ^ 32 :=
      Nat.lt_of_lt_of_le value.toNat_lt (Nat.pow_le_pow_left hbase 32)
    rw [if_neg hzero, kprintDigits_eq hbase hbase' hlt, Option.map_some,
      map_reverse_lowDigits hbase hpos hlt]

/-- The negation in 64 bits is the absolute value, that of `INT32_MIN` too. -/
theorem toNat_neg_toInt64 {value : Int32} (h : value.toInt < 0) :
    (-value.toInt64).toUInt64.toUInt32.toNat = value.toInt.natAbs := by
  have hmin := value.le_toInt
  have hneg : (-value.toInt64).toInt = -value.toInt := by
    rw [Int64.toInt_neg, Int32.toInt_toInt64]
    apply Int.bmod_eq_of_le <;> omega
  have hnonneg : 0 ≤ -value.toInt64 := by
    rw [Int64.le_iff_toInt_le, hneg]
    show 0 ≤ -value.toInt
    omega
  have hwide : (-value.toInt64).toUInt64.toNat = value.toInt.natAbs := by
    rw [Int64.toNat_toUInt64_of_le hnonneg]
    show (-value.toInt64).toInt.toNat = _
    omega
  rw [UInt64.toNat_toUInt32, hwide]
  omega

theorem kprintInt_eq (value : Int32) : kprintInt value = some (signedNumeral value.toInt) := by
  unfold kprintInt signedNumeral
  by_cases hneg : value < 0
  · have hneg' : value.toInt < 0 := Int32.lt_iff_toInt_lt.mp hneg
    rw [if_pos hneg, if_pos hneg', kprintUint_eq _ (by decide) (by decide),
      toNat_neg_toInt64 hneg']
    rfl
  · have hle : 0 ≤ value := Int32.not_lt.mp hneg
    have hnonneg : 0 ≤ value.toInt := Int32.le_iff_toInt_le.mp hle
    have habs : value.toUInt32.toNat = value.toInt.natAbs := by
      rw [Int32.toNat_toUInt32_of_le hle]
      show value.toInt.toNat = _
      omega
    rw [if_neg hneg, if_neg (Int.not_lt.mpr hnonneg), kprintUint_eq _ (by decide) (by decide),
      habs]
    rfl

/-! ## The loop -/

theorem Matches.str {ps : List Piece} {args : List FormatArg} (h : Matches (.text :: ps) args) :
    ∃ s rest, args = .str s :: rest ∧ Matches ps rest := by
  match args, h with
  | .str s :: rest, h => exact ⟨s, rest, rfl, h⟩

theorem Matches.word {p : Piece} (hp : p = .decimal ∨ p = .hex ∨ p = .char) {ps : List Piece}
    {args : List FormatArg} (h : Matches (p :: ps) args) :
    ∃ x rest, args = .word x :: rest ∧ Matches ps rest := by
  rcases hp with rfl | rfl | rfl <;>
    match args, h with
    | .word x :: rest, h => exact ⟨x, rest, rfl, h⟩

theorem kprintfSwitch_spec (c : UInt8) {args : List FormatArg} {ps : List Piece}
    (h : Matches (conversion c ++ ps) args) :
    ∃ out rest, kprintfSwitch c args = some (out, rest) ∧ Matches ps rest ∧
      render (conversion c ++ ps) args = out ++ render ps rest := by
  unfold conversion at h ⊢
  unfold kprintfSwitch
  by_cases hs : c = 's'.toUInt8
  · simp only [if_pos hs] at h ⊢
    obtain ⟨s, rest, rfl, hrest⟩ := h.str
    exact ⟨s.bytes, rest, rfl, hrest, rfl⟩
  simp only [if_neg hs] at h ⊢
  by_cases hd : c = 'd'.toUInt8
  · simp only [if_pos hd] at h ⊢
    obtain ⟨x, rest, rfl, hrest⟩ := h.word (.inl rfl)
    refine ⟨signedNumeral x.toInt32.toInt, rest, ?_, hrest, rfl⟩
    show (kprintInt x.toInt32).bind _ = _
    rw [kprintInt_eq]
    rfl
  simp only [if_neg hd] at h ⊢
  by_cases hx : c = 'x'.toUInt8
  · simp only [if_pos hx] at h ⊢
    obtain ⟨x, rest, rfl, hrest⟩ := h.word (.inr (.inl rfl))
    refine ⟨numeral 16 x.toNat, rest, ?_, hrest, rfl⟩
    show (kprintUint x 16 false).bind _ = _
    rw [kprintUint_eq x (by decide) (by decide)]
    rfl
  simp only [if_neg hx] at h ⊢
  by_cases hc : c = 'c'.toUInt8
  · simp only [if_pos hc] at h ⊢
    obtain ⟨x, rest, rfl, hrest⟩ := h.word (.inr (.inr rfl))
    exact ⟨[x.toUInt8], rest, rfl, hrest, rfl⟩
  simp only [if_neg hc] at h ⊢
  by_cases hpercent : c = '%'.toUInt8
  · simp only [if_pos hpercent] at h ⊢
    exact ⟨['%'.toUInt8], args, rfl, h, rfl⟩
  · simp only [if_neg hpercent] at h ⊢
    exact ⟨['%'.toUInt8, c], args, rfl, h, rfl⟩

theorem kprintfLoop_spec (fmt : List UInt8) (args : List FormatArg)
    (h : Matches (pieces fmt) args) :
    kprintfLoop fmt args = some (render (pieces fmt) args) := by
  induction fmt, args using kprintfLoop.induct with
  | case1 args => rfl
  | case2 c args => rfl
  | case3 c d fmt args hc ih =>
    unfold pieces at h ⊢
    unfold kprintfLoop
    rw [if_pos hc] at h ⊢
    rw [if_pos hc, ih h]
    rfl
  | case4 c d fmt args hc ih =>
    unfold pieces at h ⊢
    unfold kprintfLoop
    rw [if_neg hc] at h ⊢
    obtain ⟨out, rest, hswitch, hrest, hrender⟩ := kprintfSwitch_spec d h
    rw [if_neg hc, hswitch, hrender]
    show (kprintfLoop fmt rest).bind _ = _
    rw [ih rest hrest]
    rfl

theorem kprintfSwitch_wrong (c : UInt8) {args : List FormatArg} {ps : List Piece}
    (h : ¬ Matches (conversion c ++ ps) args) {out : List UInt8} {rest : List FormatArg}
    (hswitch : kprintfSwitch c args = some (out, rest)) : ¬ Matches ps rest := by
  intro hrest
  apply h
  unfold kprintfSwitch at hswitch
  unfold conversion
  have hword : ∀ f : UInt32 → Option (List UInt8),
      ((vaArgWord args).bind fun p => (f p.1).bind fun text => some (text, p.2)) =
        some (out, rest) → ∃ x, args = .word x :: rest := by
    intro f hf
    cases args with
    | nil => cases hf
    | cons a args =>
        cases a with
        | str s => cases hf
        | word x =>
            have hf' : ((f x).bind fun text => some (text, args)) = some (out, rest) := hf
            obtain ⟨text, -, htext⟩ := Option.bind_eq_some_iff.mp hf'
            cases htext
            exact ⟨x, rfl⟩
  by_cases hs : c = 's'.toUInt8
  · rw [if_pos hs] at hswitch ⊢
    cases args with
    | nil => cases hswitch
    | cons a args =>
        cases a with
        | word x => cases hswitch
        | str s =>
            cases hswitch
            exact hrest
  rw [if_neg hs] at hswitch ⊢
  by_cases hd : c = 'd'.toUInt8
  · rw [if_pos hd] at hswitch ⊢
    obtain ⟨x, rfl⟩ := hword (fun v => kprintInt v.toInt32) hswitch
    exact hrest
  rw [if_neg hd] at hswitch ⊢
  by_cases hx : c = 'x'.toUInt8
  · rw [if_pos hx] at hswitch ⊢
    obtain ⟨x, rfl⟩ := hword (fun v => kprintUint v 16 false) hswitch
    exact hrest
  rw [if_neg hx] at hswitch ⊢
  by_cases hc : c = 'c'.toUInt8
  · rw [if_pos hc] at hswitch ⊢
    obtain ⟨x, rfl⟩ := hword (fun v => some [v.toUInt8]) hswitch
    exact hrest
  rw [if_neg hc] at hswitch ⊢
  by_cases hpercent : c = '%'.toUInt8
  · rw [if_pos hpercent] at hswitch ⊢
    cases hswitch
    exact hrest
  · rw [if_neg hpercent] at hswitch ⊢
    cases hswitch
    exact hrest

theorem kprintfLoop_eq_none (fmt : List UInt8) (args : List FormatArg)
    (h : ¬ Matches (pieces fmt) args) : kprintfLoop fmt args = none := by
  induction fmt, args using kprintfLoop.induct with
  | case1 args => exact absurd trivial h
  | case2 c args => exact absurd trivial h
  | case3 c d fmt args hc ih =>
    unfold pieces at h
    unfold kprintfLoop
    rw [if_pos hc] at h
    rw [if_pos hc, ih h]
    rfl
  | case4 c d fmt args hc ih =>
    unfold pieces at h
    unfold kprintfLoop
    rw [if_neg hc] at h
    rw [if_neg hc]
    cases hswitch : kprintfSwitch d args with
    | none => rfl
    | some r =>
        obtain ⟨out, rest⟩ := r
        show (kprintfLoop fmt rest).bind _ = _
        rw [ih rest (kprintfSwitch_wrong d h hswitch)]
        rfl

theorem kprintfLit_eq {fmt : String} {ps : List Piece} {args : List FormatArg}
    (hps : pieces (CString.read (asciiText fmt)).bytes = ps) (h : Matches ps args) :
    kprintfLit fmt args = some (render ps args) := by
  subst hps
  exact kprintfLoop_spec _ args h

theorem kprintfLit_eq_none {fmt : String} {ps : List Piece} {args : List FormatArg}
    (hps : pieces (CString.read (asciiText fmt)).bytes = ps) (h : ¬ Matches ps args) :
    kprintfLit fmt args = none := by
  subst hps
  exact kprintfLoop_eq_none _ args h

/-! ## Several calls -/

theorem kprintfAll_eq {calls : List (String × List FormatArg)}
    {text : String × List FormatArg → List UInt8}
    (h : ∀ call ∈ calls, kprintfLit call.1 call.2 = some (text call)) :
    kprintfAll calls = some (calls.flatMap text) := by
  induction calls with
  | nil => rfl
  | cons call calls ih =>
    rw [List.forall_mem_cons] at h
    show (kprintfLit call.1 call.2).bind (fun out => (kprintfAll calls).map (out ++ ·)) = _
    rw [h.1, ih h.2]
    rfl

theorem kprintfAll_eq_none {calls : List (String × List FormatArg)}
    (h : ∃ call ∈ calls, kprintfLit call.1 call.2 = none) : kprintfAll calls = none := by
  induction calls with
  | nil =>
    obtain ⟨call, hmem, -⟩ := h
    exact absurd hmem List.not_mem_nil
  | cons call calls ih =>
    show (kprintfLit call.1 call.2).bind (fun out => (kprintfAll calls).map (out ++ ·)) = _
    obtain ⟨bad, hmem, hbad⟩ := h
    rcases List.mem_cons.mp hmem with rfl | htail
    · rw [hbad]
      rfl
    · rw [ih ⟨bad, htail, hbad⟩]
      cases kprintfLit call.1 call.2 with
      | none => rfl
      | some out => rfl

end AcharyaOS.Kio
