import AcharyaOS.Foundation.Packed
import AcharyaOS.Kio.Format

/-!
# Formatting of log messages

`log_format_message` and its helpers in `kernel/debug/log.c`, a second reading of the formats
of `kprintf`.  It leaves in the buffer what `kprintf` prints, cut off to leave room for the
terminator.
-/

namespace AcharyaOS.Log

open Foundation Kio

/-- The arguments `buffer` and `pos` of the `log_append_` functions, `size` being `n`. -/
structure LogText (n : Nat) where
  buffer : Bytes n
  pos : Nat

section Code

variable {n : Nat}

def logAppendChar (t : LogText n) (c : UInt8) : LogText n :=
  { buffer := if t.pos + 1 < n then t.buffer.set t.pos c else t.buffer, pos := t.pos + 1 }

def logAppendStr (t : LogText n) (s : List UInt8) : LogText n := s.foldl logAppendChar t

/-- The character of a digit. -/
def logDigit (digit : UInt64) (uppercase : Bool) : UInt8 :=
  if digit < 10 then '0'.toUInt8 + digit.toUInt8
  else (if uppercase then 'A'.toUInt8 else 'a'.toUInt8) + (digit - 10).toUInt8

/-- What the first loop of `log_append_uint` puts into `tmp`, of which `room` bytes are
left. -/
def logDigits (base : UInt32) (uppercase : Bool) : Nat → UInt64 → List UInt8
  | 0, _ => []
  | room + 1, value =>
    if value > 0 then
      logDigit (value % base.toUInt64) uppercase ::
        logDigits base uppercase room (value / base.toUInt64)
    else []

def logAppendUint (t : LogText n) (value : UInt64) (base : UInt32) (uppercase : Bool) :
    LogText n :=
  if value = 0 then logAppendChar t '0'.toUInt8
  else (logDigits base uppercase 32 value).reverse.foldl logAppendChar t

def logAppendInt (t : LogText n) (value : Int64) : LogText n :=
  if value < 0 then
    logAppendUint (logAppendChar t '-'.toUInt8) ((-(value + 1)).toUInt64 + 1) 10 false
  else logAppendUint t value.toUInt64 10 false

/-- The cases of the `switch` in `log_format_message` other than the terminator. -/
def logFormatSwitch (t : LogText n) (c : UInt8) (args : List FormatArg) :
    Option (LogText n × List FormatArg) :=
  if c = 's'.toUInt8 then do
    let (s, args) ← vaArgStr args
    return (logAppendStr t s.bytes, args)
  else if c = 'd'.toUInt8 then do
    let (v, args) ← vaArgWord args
    return (logAppendInt t v.toInt32.toInt64, args)
  else if c = 'x'.toUInt8 then do
    let (v, args) ← vaArgWord args
    return (logAppendUint t v.toUInt64 16 false, args)
  else if c = 'c'.toUInt8 then do
    let (v, args) ← vaArgWord args
    return (logAppendChar t v.toUInt8, args)
  else if c = '%'.toUInt8 then some (logAppendChar t '%'.toUInt8, args)
  else some (logAppendChar (logAppendChar t '%'.toUInt8) c, args)

/-- The loop of `log_format_message` from some place of the format on. -/
def logFormatLoop (t : LogText n) : List UInt8 → List FormatArg → Option (LogText n)
  | [], _ => some t
  -- the last character, also a percent sign that the terminator follows
  | [c], _ => some (logAppendChar t c)
  | c :: d :: fmt, args =>
    if c ≠ '%'.toUInt8 then logFormatLoop (logAppendChar t c) (d :: fmt) args
    else do
      let (t, args) ← logFormatSwitch t d args
      logFormatLoop t fmt args

/-- `log_format_message(buffer, n, fmt, args)`: the buffer afterwards; `none` is undefined
behaviour. -/
def logFormatMessage (buffer : Bytes n) (fmt : CString) (args : List FormatArg) :
    Option (Bytes n) :=
  if n = 0 then some buffer
  else do
    let t ← logFormatLoop ⟨buffer, 0⟩ fmt.bytes args
    return t.buffer.set (if t.pos ≥ n then n - 1 else t.pos) 0

end Code

/-! ## The buffer -/

section Buffer

variable {n : Nat} {buffer : Bytes n} {out : List UInt8} {t : LogText n}

/-- The first `n - 1` of the characters `out` have gone into the buffer. -/
structure Written (buffer : Bytes n) (out : List UInt8) (t : LogText n) : Prop where
  pos_eq : t.pos = out.length
  cells : ∀ i : Nat, t.buffer.toList[i]? =
    if i + 1 < n ∧ i < out.length then out[i]? else buffer.toList[i]?

theorem Written.start (buffer : Bytes n) : Written buffer [] ⟨buffer, 0⟩ := by
  refine ⟨rfl, fun i => ?_⟩
  rw [if_neg (fun h => Nat.not_lt_zero i h.2)]

theorem Written.appendChar (h : Written buffer out t) (c : UInt8) :
    Written buffer (out ++ [c]) (logAppendChar t c) := by
  have hpos := h.pos_eq
  refine ⟨by rw [List.length_append, ← hpos]; rfl, fun i => ?_⟩
  rw [List.length_append, List.length_singleton]
  unfold logAppendChar
  by_cases hi : i = t.pos
  · have hlast : (out ++ [c])[i]? = some c := by
      rw [hi, hpos, List.getElem?_concat_length]
    by_cases hroom : t.pos + 1 < n
    · have hlen : t.pos < t.buffer.toList.length := by
        rw [t.buffer.length_toList]
        omega
      rw [if_pos hroom, if_pos (by omega), hlast, hi]
      exact List.getElem?_set_self hlen
    · rw [if_neg hroom, if_neg (by omega), h.cells i, if_neg (by omega)]
  · have hbefore : i < out.length → (out ++ [c])[i]? = out[i]? := List.getElem?_append_left
    have hset : (if t.pos + 1 < n then t.buffer.set t.pos c else t.buffer).toList[i]? =
        t.buffer.toList[i]? := by
      by_cases hroom : t.pos + 1 < n
      · rw [if_pos hroom]
        exact List.getElem?_set_ne (Ne.symm hi)
      · rw [if_neg hroom]
    rw [hset, h.cells i]
    by_cases hlt : i + 1 < n ∧ i < out.length
    · rw [if_pos hlt, if_pos (by omega), hbefore hlt.2]
    · rw [if_neg hlt, if_neg (by omega)]

theorem Written.append (h : Written buffer out t) (s : List UInt8) :
    Written buffer (out ++ s) (s.foldl logAppendChar t) := by
  induction s generalizing out t with
  | nil => rwa [List.append_nil]
  | cons c s ih =>
    have hrest := ih (h.appendChar c)
    rwa [List.append_assoc] at hrest

/-- The first `n - 1` characters, the terminator, and what was there before. -/
theorem Written.terminate (h : Written buffer out t) (hn : 0 < n) :
    (t.buffer.set (if t.pos ≥ n then n - 1 else t.pos) 0).toList =
      out.take (n - 1) ++ 0 :: buffer.toList.drop (min out.length (n - 1) + 1) := by
  have hpos := h.pos_eq
  have hend : (if t.pos ≥ n then n - 1 else t.pos) = min out.length (n - 1) := by
    split <;> omega
  rw [hend]
  apply List.ext_getElem?
  intro i
  show (t.buffer.toList.set (min out.length (n - 1)) 0)[i]? = _
  have htake : (out.take (n - 1)).length = min out.length (n - 1) := by
    rw [List.length_take, Nat.min_comm]
  rcases Nat.lt_trichotomy i (min out.length (n - 1)) with hlt | heq | hgt
  · rw [List.getElem?_set_ne (by omega), h.cells i, if_pos (by omega),
      List.getElem?_append_left (by omega), List.getElem?_take_of_lt (by omega)]
  · have hlen : i < t.buffer.toList.length := by
      rw [t.buffer.length_toList]
      omega
    rw [← heq, List.getElem?_set_self hlen, List.getElem?_append_right (by omega), htake, heq,
      Nat.sub_self]
    rfl
  · rw [List.getElem?_set_ne (by omega), h.cells i, if_neg (by omega),
      List.getElem?_append_right (by omega), htake]
    obtain ⟨k, hk⟩ : ∃ k, i - min out.length (n - 1) = k + 1 := ⟨_, (Nat.succ_pred (by omega)).symm⟩
    have hi : min out.length (n - 1) + 1 + k = i := by omega
    rw [hk, List.getElem?_cons_succ, List.getElem?_drop, hi]

end Buffer

/-! ## Digits -/

theorem logDigit_eq {digit : UInt64} (h : digit.toNat < 16) :
    logDigit digit false = digit.toNat.digitChar.toUInt8 := by
  rw [← UInt64.ofNat_toNat (x := digit)]
  generalize digit.toNat = d at h
  interval_cases d <;> rfl

theorem logDigits_eq {base : UInt32} (hbase : 1 < base.toNat) (hbase' : base.toNat ≤ 16)
    (room : Nat) (value : UInt64) :
    logDigits base false room value =
      (lowDigits base.toNat room value.toNat).map Char.toUInt8 := by
  induction room generalizing value with
  | zero => rfl
  | succ room ih =>
    unfold logDigits lowDigits
    by_cases hpos : value > 0
    · have hpos' : value.toNat ≠ 0 := Nat.pos_iff_ne_zero.mp (UInt64.lt_iff_toNat_lt.mp hpos)
      have hmod : (value % base.toUInt64).toNat < 16 := by
        rw [UInt64.toNat_mod, UInt32.toNat_toUInt64]
        exact Nat.lt_of_lt_of_le (Nat.mod_lt _ (by omega)) hbase'
      rw [if_pos hpos, if_neg hpos', ih, logDigit_eq hmod, UInt64.toNat_div, UInt64.toNat_mod,
        UInt32.toNat_toUInt64]
      rfl
    · have hzero : value.toNat = 0 := by
        rw [gt_iff_lt, UInt64.lt_iff_toNat_lt] at hpos
        exact Nat.eq_zero_of_not_pos hpos
      rw [if_neg hpos, if_pos hzero]
      rfl

/-- The magnitude that `log_append_int` computes without leaving 64 bits. -/
theorem toNat_magnitude {value : Int64} (h : value.toInt < 0) :
    ((-(value + 1)).toUInt64 + 1).toNat = value.toInt.natAbs := by
  have hmin := value.le_toInt
  have hsucc : (value + 1).toInt = value.toInt + 1 := by
    rw [Int64.toInt_add]
    show (value.toInt + 1).bmod (2 ^ 64) = _
    apply Int.bmod_eq_of_le <;> omega
  have hneg : (-(value + 1)).toInt = -(value.toInt + 1) := by
    rw [Int64.toInt_neg, hsucc]
    apply Int.bmod_eq_of_le <;> omega
  have hnonneg : 0 ≤ -(value + 1) := by
    rw [Int64.le_iff_toInt_le, hneg]
    show 0 ≤ -(value.toInt + 1)
    omega
  have hnat : (-(value + 1)).toUInt64.toNat = (-(value.toInt + 1)).toNat := by
    rw [Int64.toNat_toUInt64_of_le hnonneg]
    exact congrArg Int.toNat hneg
  rw [UInt64.toNat_add, hnat]
  show (_ + 1) % 2 ^ 64 = _
  omega

/-! ## The loop -/

section Loop

variable {n : Nat} {buffer : Bytes n} {out : List UInt8} {t : LogText n}

theorem Written.appendUint (h : Written buffer out t) (value : UInt64) {base : UInt32}
    (hbase : 1 < base.toNat) (hbase' : base.toNat ≤ 16)
    (hlt : value.toNat < base.toNat ^ 32) :
    Written buffer (out ++ numeral base.toNat value.toNat) (logAppendUint t value base false) := by
  unfold logAppendUint
  by_cases hzero : value = 0
  · rw [if_pos hzero, hzero, UInt64.toNat_zero, numeral_zero]
    exact h.appendChar _
  · have hpos : 0 < value.toNat := Nat.pos_iff_ne_zero.mpr fun h => hzero (UInt64.toNat_inj.mp h)
    rw [if_neg hzero, logDigits_eq hbase hbase', map_reverse_lowDigits hbase hpos hlt]
    exact h.append _

theorem Written.appendInt (h : Written buffer out t) (value : Int64) :
    Written buffer (out ++ signedNumeral value.toInt) (logAppendInt t value) := by
  have hten : ∀ v : UInt64, v.toNat < (10 : UInt32).toNat ^ 32 := fun v =>
    Nat.lt_of_lt_of_le v.toNat_lt (by decide)
  unfold logAppendInt signedNumeral
  by_cases hneg : value < 0
  · have hneg' : value.toInt < 0 := Int64.lt_iff_toInt_lt.mp hneg
    have hrest := (h.appendChar '-'.toUInt8).appendUint ((-(value + 1)).toUInt64 + 1)
      (by decide) (by decide) (hten _)
    rw [toNat_magnitude hneg', List.append_assoc] at hrest
    rw [if_pos hneg, if_pos hneg']
    exact hrest
  · have hle : 0 ≤ value := Int64.not_lt.mp hneg
    have hnonneg : 0 ≤ value.toInt := Int64.le_iff_toInt_le.mp hle
    have habs : value.toUInt64.toNat = value.toInt.natAbs := by
      rw [Int64.toNat_toUInt64_of_le hle]
      show value.toInt.toNat = _
      omega
    have hrest := h.appendUint value.toUInt64 (by decide) (by decide) (hten _)
    rw [habs] at hrest
    rw [if_neg hneg, if_neg (Int.not_lt.mpr hnonneg)]
    exact hrest

theorem Written.switch (h : Written buffer out t) (c : UInt8) {args : List FormatArg}
    {ps : List Kio.Piece} (hargs : Matches (conversion c ++ ps) args) :
    ∃ s t' rest, logFormatSwitch t c args = some (t', rest) ∧ Written buffer (out ++ s) t' ∧
      Matches ps rest ∧ render (conversion c ++ ps) args = s ++ render ps rest := by
  unfold conversion at hargs ⊢
  unfold logFormatSwitch
  by_cases hs : c = 's'.toUInt8
  · simp only [if_pos hs] at hargs ⊢
    obtain ⟨s, rest, rfl, hrest⟩ := hargs.str
    exact ⟨s.bytes, _, rest, rfl, h.append s.bytes, hrest, rfl⟩
  simp only [if_neg hs] at hargs ⊢
  by_cases hd : c = 'd'.toUInt8
  · simp only [if_pos hd] at hargs ⊢
    obtain ⟨x, rest, rfl, hrest⟩ := hargs.word (.inl rfl)
    have hint := h.appendInt x.toInt32.toInt64
    rw [Int32.toInt_toInt64] at hint
    exact ⟨_, _, rest, rfl, hint, hrest, rfl⟩
  simp only [if_neg hd] at hargs ⊢
  by_cases hx : c = 'x'.toUInt8
  · simp only [if_pos hx] at hargs ⊢
    obtain ⟨x, rest, rfl, hrest⟩ := hargs.word (.inr (.inl rfl))
    have hlt : x.toUInt64.toNat < (16 : UInt32).toNat ^ 32 :=
      Nat.lt_of_lt_of_le x.toUInt64.toNat_lt (by decide)
    have huint := h.appendUint x.toUInt64 (by decide) (by decide) hlt
    rw [UInt32.toNat_toUInt64] at huint
    exact ⟨_, _, rest, rfl, huint, hrest, rfl⟩
  simp only [if_neg hx] at hargs ⊢
  by_cases hc : c = 'c'.toUInt8
  · simp only [if_pos hc] at hargs ⊢
    obtain ⟨x, rest, rfl, hrest⟩ := hargs.word (.inr (.inr rfl))
    exact ⟨[x.toUInt8], _, rest, rfl, h.appendChar x.toUInt8, hrest, rfl⟩
  simp only [if_neg hc] at hargs ⊢
  by_cases hpercent : c = '%'.toUInt8
  · simp only [if_pos hpercent] at hargs ⊢
    exact ⟨['%'.toUInt8], _, args, rfl, h.appendChar _, hargs, rfl⟩
  · simp only [if_neg hpercent] at hargs ⊢
    exact ⟨['%'.toUInt8, c], _, args, rfl, h.append ['%'.toUInt8, c], hargs, rfl⟩

theorem Written.loop (h : Written buffer out t) {fmt : List UInt8} {args : List FormatArg}
    (hargs : Matches (pieces fmt) args) :
    ∃ t', logFormatLoop t fmt args = some t' ∧
      Written buffer (out ++ render (pieces fmt) args) t' := by
  induction t, fmt, args using logFormatLoop.induct generalizing out with
  | case1 t args =>
    refine ⟨t, rfl, ?_⟩
    rwa [pieces_nil, render_nil, List.append_nil]
  | case2 t c args => exact ⟨_, rfl, h.appendChar c⟩
  | case3 t c d fmt args hc ih =>
    unfold pieces at hargs ⊢
    unfold logFormatLoop
    rw [if_pos hc] at hargs ⊢
    rw [if_pos hc]
    obtain ⟨t', hloop, hwritten⟩ := ih (h.appendChar c) hargs
    refine ⟨t', hloop, ?_⟩
    rwa [List.append_assoc] at hwritten
  | case4 t c d fmt args hc ih =>
    unfold pieces at hargs ⊢
    unfold logFormatLoop
    rw [if_neg hc] at hargs ⊢
    rw [if_neg hc]
    obtain ⟨s, t₁, rest, hswitch, hwritten₁, hrest, hrender⟩ := h.switch d hargs
    obtain ⟨t', hloop, hwritten⟩ := ih t₁ rest hwritten₁ hrest
    rw [hswitch, hrender]
    refine ⟨t', hloop, ?_⟩
    rwa [List.append_assoc] at hwritten

end Loop

/-- With arguments that match the format both functions read it as the same text, the numbers
in it being numerals: `kprintf` prints it, and `log_format_message` leaves the first `n - 1`
characters and the terminator. -/
theorem logFormatMessage_eq_kprintf {n : Nat} (hn : 0 < n) (buffer : Bytes n) (fmt : CString)
    (args : List FormatArg) (hargs : Matches (pieces fmt.bytes) args) :
    ∃ out message, kprintf fmt args = some out ∧ out = render (pieces fmt.bytes) args ∧
      logFormatMessage buffer fmt args = some message ∧
      message.toList = out.take (n - 1) ++ 0 :: buffer.toList.drop (min out.length (n - 1) + 1) := by
  obtain ⟨t, hloop, hwritten⟩ := (Written.start buffer).loop hargs
  refine ⟨_, t.buffer.set (if t.pos ≥ n then n - 1 else t.pos) 0, kprintfLoop_spec _ _ hargs,
    rfl, ?_, hwritten.terminate hn⟩
  unfold logFormatMessage
  rw [if_neg (Nat.pos_iff_ne_zero.mp hn), hloop]
  rfl

/-- `"%d%x%%%q%"` with `INT32_MIN` and 48879, cut off in 14 bytes. -/
theorem logFormatMessage_minimum :
    let fmt : CString := ⟨['%', 'd', '%', 'x', '%', '%', '%', 'q', '%'].map Char.toUInt8, by decide⟩
    ∃ out message, kprintf fmt [.word 0x80000000, .word 0xBEEF] = some out ∧
      out = ['-', '2', '1', '4', '7', '4', '8', '3', '6', '4', '8', 'b', 'e', 'e', 'f', '%', '%',
        'q', '%'].map Char.toUInt8 ∧
      logFormatMessage (.zero 14) fmt [.word 0x80000000, .word 0xBEEF] = some message ∧
      message.toList = ['-', '2', '1', '4', '7', '4', '8', '3', '6', '4', '8', 'b',
        'e'].map Char.toUInt8 ++ [0] := by
  intro fmt
  obtain ⟨out, message, hprint, hout, hmessage, hlist⟩ := logFormatMessage_eq_kprintf
    (by decide : 0 < 14) (.zero 14) fmt [.word 0x80000000, .word 0xBEEF] trivial
  have hrender : render (pieces fmt.bytes) [.word 0x80000000, .word 0xBEEF] =
      ['-', '2', '1', '4', '7', '4', '8', '3', '6', '4', '8', 'b', 'e', 'e', 'f', '%', '%',
        'q', '%'].map Char.toUInt8 := by decide +kernel
  rw [hrender] at hout
  refine ⟨out, message, hprint, hout, hmessage, ?_⟩
  rw [hlist, hout]
  decide

end AcharyaOS.Log
