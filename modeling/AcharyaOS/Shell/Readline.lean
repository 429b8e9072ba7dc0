import AcharyaOS.Kio.Format
import AcharyaOS.Shell.Commands
import AcharyaOS.Vga.Typing

/-!
# Editing the line

`shell_readline` keeps the line in a buffer and has the screen follow it, character by
character.  The screen does not follow an erasure from the first column of a row.
-/

namespace AcharyaOS.Shell

open Foundation Foundation.Run Kio Vga

/-! ## The loop -/

/-- The variables of `shell_readline`, the characters passed to `kputchar` so far, and
whether the call has come back. -/
structure ReadlineState where
  len : Nat
  buffer : Bytes shellLineMax
  printed : Option (List UInt8)
  done : Bool

/-- `kprintf` behind what was printed before. -/
def ReadlineState.print (r : ReadlineState) (fmt : String) (args : List FormatArg) :
    Option (List UInt8) :=
  r.printed.bind fun out => (kprintfLit fmt args).map (out ++ ·)

/-- A round of the loop with the key polled; a negative one is none. -/
def readlineStep (r : ReadlineState) (ch : Int) : ReadlineState :=
  if r.done then r
  else if ch < 0 then r
  else if ch = 10 then
    { r with buffer := r.buffer.set r.len 0, printed := r.print "\n" [], done := true }
  else if ch = 8 then
    if r.len > 0 then { r with len := r.len - 1, printed := r.print "\x08" [] } else r
  else
    let ch := if ch = 9 then 32 else ch
    if ch ≥ 32 ∧ ch ≤ 126 ∧ r.len < shellLineMax - 1 then
      { r with
        len := r.len + 1
        buffer := r.buffer.set r.len (UInt8.ofNat ch.toNat)
        printed := r.print "%c" [.word (UInt32.ofNat ch.toNat)] }
    else r

/-- The characters in the buffer. -/
def ReadlineState.text (r : ReadlineState) : List UInt8 := r.buffer.toList.take r.len

/-! ## The line typed -/

/-- The line after one more key. -/
def typedKey (line : List UInt8) (ch : Int) : List UInt8 :=
  if ch = 8 then line.dropLast
  else
    let ch := if ch = 9 then 32 else ch
    if ch ≥ 32 ∧ ch ≤ 126 ∧ line.length < 127 then line ++ [UInt8.ofNat ch.toNat] else line

/-- What the screen is sent for a key. -/
def echoedKey (line : List UInt8) (ch : Int) : List UInt8 :=
  if ch = 8 then if line = [] then [] else [8]
  else
    let ch := if ch = 9 then 32 else ch
    if ch ≥ 32 ∧ ch ≤ 126 ∧ line.length < 127 then [UInt8.ofNat ch.toNat] else []

/-- The key does not erase a character at the end of a row; the prompt ends in column
`col`. -/
def ErasesInRow (col : Int) (line : List UInt8) (ch : Int) : Prop :=
  ch = 8 → line = [] ∨ (col + line.length) % 80 ≠ 0

instance (col : Int) (line : List UInt8) (ch : Int) : Decidable (ErasesInRow col line ch) :=
  inferInstanceAs (Decidable (_ → _))

/-! ## The buffer -/

theorem printable_spec {ch : Int} (h : ch ≥ 32 ∧ ch ≤ 126) :
    Terminal.Plain (UInt8.ofNat ch.toNat) ∧
      kprintfLit "%c" [.word (UInt32.ofNat ch.toNat)] = some [UInt8.ofNat ch.toNat] := by
  obtain ⟨n, rfl⟩ := Int.eq_ofNat_of_zero_le (show 0 ≤ ch by omega)
  rw [Int.toNat_natCast]
  have hn : 32 ≤ n ∧ n ≤ 126 := by omega
  have hvalue : (UInt8.ofNat n).toNat = n := by
    rw [UInt8.toNat_ofNat']
    omega
  have hne : ∀ c : UInt8, c.toNat < 32 → UInt8.ofNat n ≠ c := by
    rintro c hc rfl
    omega
  constructor
  · exact ⟨hne _ (by decide), hne _ (by decide), hne _ (by decide)⟩
  · have hargs : Matches [.char] [.word (UInt32.ofNat n)] := trivial
    have hpieces : pieces (CString.read (asciiText "%c")).bytes = [.char] := rfl
    rw [kprintfLit_eq hpieces hargs]
    show some [(UInt32.ofNat n).toUInt8] = _
    rw [UInt32.toUInt8_ofNat']

/-- The state of the loop stands for the line, with `out` printed. -/
structure Edits (r : ReadlineState) (line out : List UInt8) : Prop where
  len_eq : r.len = line.length
  len_lt : line.length < shellLineMax
  text : r.text = line
  printed : r.printed = some out
  running : r.done = false

theorem Edits.print {r : ReadlineState} {line out : List UInt8} (h : Edits r line out)
    {fmt : String} {args : List FormatArg} {text : List UInt8}
    (hprint : kprintfLit fmt args = some text) : r.print fmt args = some (out ++ text) := by
  unfold ReadlineState.print
  rw [h.printed, hprint]
  rfl

theorem Edits.erase {r : ReadlineState} {line out : List UInt8} (h : Edits r line out) :
    Edits { r with len := r.len - 1, printed := r.print "\x08" [] } line.dropLast (out ++ [8]) := by
  have hlen := h.len_eq
  have hlt := h.len_lt
  have hprint : kprintfLit "\x08" [] = some [8] := by decide +kernel
  refine ⟨?_, ?_, ?_, h.print hprint, h.running⟩
  · rw [List.length_dropLast, hlen]
  · rw [List.length_dropLast]
    omega
  · have htake := congrArg (List.take (r.len - 1)) h.text
    unfold ReadlineState.text at htake ⊢
    rw [List.take_take, Nat.min_eq_left (Nat.sub_le _ _)] at htake
    rw [List.dropLast_eq_take, ← hlen]
    exact htake

theorem Edits.put {r : ReadlineState} {line out : List UInt8} (h : Edits r line out) {key : Int}
    (hprintable : key ≥ 32 ∧ key ≤ 126) (hroom : line.length < 127) :
    Edits
      { r with
        len := r.len + 1
        buffer := r.buffer.set r.len (UInt8.ofNat key.toNat)
        printed := r.print "%c" [.word (UInt32.ofNat key.toNat)] }
      (line ++ [UInt8.ofNat key.toNat]) (out ++ [UInt8.ofNat key.toNat]) := by
  have hlen := h.len_eq
  have hmax : shellLineMax = 128 := rfl
  refine ⟨?_, ?_, ?_, h.print (printable_spec hprintable).2, h.running⟩
  · rw [List.length_append, List.length_singleton, ← hlen]
  · rw [List.length_append, List.length_singleton]
    omega
  · have hslot : r.len < r.buffer.toList.length := by
      rw [Bytes.length_toList]
      omega
    have hfirst : r.len - line.length = 0 := by omega
    have htext := h.text
    unfold ReadlineState.text at htext ⊢
    show (r.buffer.toList.set r.len (UInt8.ofNat key.toNat)).take (r.len + 1) = _
    rw [List.take_set, List.take_succ_eq_append_getElem hslot, htext,
      List.set_append_right _ _ (Nat.le_of_eq hlen.symm), hfirst]
    rfl

theorem Edits.step {r : ReadlineState} {line out : List UInt8} (h : Edits r line out) {ch : Int}
    (henter : ch ≠ 10) :
    Edits (readlineStep r ch) (typedKey line ch) (out ++ echoedKey line ch) := by
  have hlen := h.len_eq
  have hmax : shellLineMax = 128 := rfl
  have hstay : Edits r line (out ++ []) := by
    rw [List.append_nil]
    exact h
  have hrunning : ¬ r.done = true := by
    rw [h.running]
    exact Bool.false_ne_true
  unfold readlineStep
  rw [if_neg hrunning]
  by_cases hback : ch = 8
  · have hnonneg : ¬ ch < 0 := by omega
    unfold typedKey echoedKey
    rw [if_neg hnonneg, if_neg henter, if_pos hback, if_pos hback, if_pos hback]
    by_cases hnil : line = []
    · subst hnil
      have hzero : ¬ r.len > 0 := by
        rw [hlen]
        exact Nat.lt_irrefl 0
      rw [if_neg hzero, if_pos rfl]
      exact hstay
    · have hpos : r.len > 0 := by
        rw [hlen]
        exact List.length_pos_iff.mpr hnil
      rw [if_pos hpos, if_neg hnil]
      exact h.erase
  · unfold typedKey echoedKey
    rw [if_neg henter, if_neg hback, if_neg hback, if_neg hback]
    dsimp only
    generalize hkey : (if ch = 9 then 32 else ch) = key
    by_cases hput : key ≥ 32 ∧ key ≤ 126 ∧ line.length < 127
    · have hput' : key ≥ 32 ∧ key ≤ 126 ∧ r.len < shellLineMax - 1 := by omega
      have hnonneg : ¬ ch < 0 := by
        split at hkey <;> omega
      rw [if_neg hnonneg, if_pos hput, if_pos hput, if_pos hput']
      exact h.put ⟨hput.1, hput.2.1⟩ hput.2.2
    · have hput' : ¬ (key ≥ 32 ∧ key ≤ 126 ∧ r.len < shellLineMax - 1) := by omega
      rw [if_neg hput, if_neg hput, if_neg hput', ite_self]
      exact hstay

/-- What the screen is sent for keys typed behind a line. -/
def echoed : List UInt8 → List Int → List UInt8
  | _, [] => []
  | line, ch :: keys => echoedKey line ch ++ echoed (typedKey line ch) keys

theorem Edits.run (keys : List Int) (henter : ∀ ch ∈ keys, ch ≠ 10) :
    ∀ {r : ReadlineState} {line out : List UInt8}, Edits r line out →
      Edits (runSteps readlineStep r keys) (runSteps typedKey line keys)
        (out ++ echoed line keys) := by
  induction keys with
  | nil =>
      intro r line out h
      rw [echoed, List.append_nil]
      exact h
  | cons ch keys ih =>
      intro r line out h
      rw [echoed, ← List.append_assoc]
      exact ih (fun ch hch => henter ch (List.mem_cons_of_mem _ hch))
        (h.step (henter ch List.mem_cons_self))

/-- The terminal shows the line behind the place of `t₀`. -/
structure OnScreen (t₀ t : Terminal) (line : List UInt8) : Prop where
  col_lt : t.col < 80
  position_eq : t.position = t₀.position + line.length
  text : t.textFrom t₀.position = line

/-- The cursor is behind the place where the line would end. -/
structure Beyond (t₀ t : Terminal) (line : List UInt8) : Prop where
  col_lt : t.col < 80
  lt_position : t₀.position + line.length < t.position

section Keys

variable {t₀ t : Terminal} {line : List UInt8} {ch : Int}

theorem OnScreen.col_eq (h : OnScreen t₀ t line) : (t₀.col + line.length) % 80 = t.col := by
  have hposition := h.position_eq
  have hcol := h.col_lt
  unfold Terminal.position at hposition
  omega

theorem echoedKey_cases (line : List UInt8) (ch : Int) :
    (echoedKey line ch = [] ∧ typedKey line ch = line) ∨
      (ch = 8 ∧ line ≠ [] ∧ echoedKey line ch = [8] ∧ typedKey line ch = line.dropLast) ∨
      ∃ c, Terminal.Plain c ∧ echoedKey line ch = [c] ∧ typedKey line ch = line ++ [c] := by
  unfold typedKey echoedKey
  by_cases hback : ch = 8
  · rw [if_pos hback, if_pos hback]
    by_cases hnil : line = []
    · subst hnil
      exact Or.inl ⟨if_pos rfl, rfl⟩
    · exact Or.inr (Or.inl ⟨hback, hnil, if_neg hnil, rfl⟩)
  · rw [if_neg hback, if_neg hback]
    dsimp only
    generalize (if ch = 9 then 32 else ch) = key
    by_cases hput : key ≥ 32 ∧ key ≤ 126 ∧ line.length < 127
    · have hplain := (printable_spec ⟨hput.1, hput.2.1⟩).1
      exact Or.inr (Or.inr ⟨_, hplain, if_pos hput, if_pos hput⟩)
    · exact Or.inl ⟨if_neg hput, if_neg hput⟩

theorem OnScreen.step (h : OnScreen t₀ t line) (hok : ErasesInRow t₀.col line ch) :
    OnScreen t₀ (t.print (echoedKey line ch)) (typedKey line ch) := by
  have hposition := h.position_eq
  rcases echoedKey_cases line ch with ⟨hecho, htyped⟩ | ⟨hback, hnil, hecho, htyped⟩ |
    ⟨c, hplain, hecho, htyped⟩
  · rw [hecho, htyped]
    exact h
  · have hzero : t.col ≠ 0 := by
      have hcol := h.col_eq
      rcases hok hback with hempty | hinside
      · exact absurd hempty hnil
      · omega
    have hpos : 0 < line.length := List.length_pos_iff.mpr hnil
    rw [hecho, htyped]
    refine ⟨Terminal.col_putchar h.col_lt 8, ?_, ?_⟩
    · show (t.putchar 8).position = _
      rw [Terminal.position_erase hzero, List.length_dropLast]
      omega
    · show (t.putchar 8).textFrom _ = _
      rw [Terminal.textFrom_erase h.col_lt hzero (by omega), h.text]
  · rw [hecho, htyped]
    refine ⟨Terminal.col_putchar h.col_lt c, ?_, ?_⟩
    · show (t.putchar c).position = _
      rw [Terminal.position_putchar hplain, List.length_append, List.length_singleton]
      omega
    · show (t.putchar c).textFrom _ = _
      rw [Terminal.textFrom_type h.col_lt hplain (by omega), h.text]

/-- An erasure from the first column of a row leaves the character on the screen. -/
theorem OnScreen.slip (h : OnScreen t₀ t line) (hnot : ¬ ErasesInRow t₀.col line ch) :
    Beyond t₀ (t.print (echoedKey line ch)) (typedKey line ch) := by
  obtain ⟨hback, hor⟩ := Classical.not_imp.mp hnot
  obtain ⟨hnil, hfirst⟩ := not_or.mp hor
  have hposition := h.position_eq
  have hcol := h.col_eq
  have hzero : t.col = 0 := by omega
  have hpos : 0 < line.length := List.length_pos_iff.mpr hnil
  unfold typedKey echoedKey
  rw [if_pos hback, if_pos hback, if_neg hnil]
  have hprint : t.print [8] = t := by
    show t.putchar 8 = t
    rw [Terminal.putchar_erase, if_pos hzero]
  rw [hprint]
  refine ⟨h.col_lt, ?_⟩
  rw [List.length_dropLast]
  omega

/-- No key brings the cursor back. -/
theorem Beyond.step (h : Beyond t₀ t line) (ch : Int) :
    Beyond t₀ (t.print (echoedKey line ch)) (typedKey line ch) := by
  have hposition := h.lt_position
  rcases echoedKey_cases line ch with ⟨hecho, htyped⟩ | ⟨-, hnil, hecho, htyped⟩ |
    ⟨c, hplain, hecho, htyped⟩
  · rw [hecho, htyped]
    exact h
  · have hpos : 0 < line.length := List.length_pos_iff.mpr hnil
    rw [hecho, htyped]
    refine ⟨Terminal.col_putchar h.col_lt 8, ?_⟩
    show _ < (t.putchar 8).position
    rw [List.length_dropLast]
    by_cases hzero : t.col = 0
    · rw [Terminal.putchar_erase, if_pos hzero]
      omega
    · rw [Terminal.position_erase hzero]
      omega
  · rw [hecho, htyped]
    refine ⟨Terminal.col_putchar h.col_lt c, ?_⟩
    show _ < (t.putchar c).position
    rw [Terminal.position_putchar hplain, List.length_append, List.length_singleton]
    omega

theorem print_echoed (t : Terminal) (line : List UInt8) (ch : Int) (keys : List Int) :
    t.print (echoed line (ch :: keys)) =
      (t.print (echoedKey line ch)).print (echoed (typedKey line ch) keys) := by
  rw [echoed]
  exact List.foldl_append

theorem Beyond.run (keys : List Int) : ∀ {t : Terminal} {line : List UInt8}, Beyond t₀ t line →
    Beyond t₀ (t.print (echoed line keys)) (runSteps typedKey line keys) := by
  induction keys with
  | nil => exact fun h => h
  | cons ch keys ih =>
      intro t line h
      rw [print_echoed]
      exact ih (h.step ch)

theorem OnScreen.run (keys : List Int) : ∀ {t : Terminal} {line : List UInt8},
    OnScreen t₀ t line →
      if AllSteps typedKey (ErasesInRow t₀.col) line keys then
        OnScreen t₀ (t.print (echoed line keys)) (runSteps typedKey line keys)
      else Beyond t₀ (t.print (echoed line keys)) (runSteps typedKey line keys) := by
  induction keys with
  | nil =>
      intro t line h
      have hall : AllSteps typedKey (ErasesInRow t₀.col) line [] := trivial
      rw [if_pos hall]
      exact h
  | cons ch keys ih =>
      intro t line h
      rw [print_echoed]
      by_cases hok : ErasesInRow t₀.col line ch
      · have hrest : AllSteps typedKey (ErasesInRow t₀.col) line (ch :: keys) ↔
            AllSteps typedKey (ErasesInRow t₀.col) (typedKey line ch) keys :=
          and_iff_right hok
        simp only [hrest]
        exact ih (h.step hok)
      · have hnot : ¬ AllSteps typedKey (ErasesInRow t₀.col) line (ch :: keys) :=
          fun hall => hok hall.1
        rw [if_neg hnot]
        exact Beyond.run keys (h.slip hok)

end Keys

/-- A line of the length of the buffer does not leave the screen. -/
theorem OnScreen.fits {s : VgaState} {t : Terminal} (h : Shows s t) {out line : List UInt8}
    (hon : OnScreen t (t.print out) line) (hlen : line.length < shellLineMax) :
    (t.print out).height * 80 ≤ t.position + 2000 := by
  have hrow := h.row_lt
  have hge := h.row_ge
  have hheight : (t.print out).height = max t.height ((t.print out).row + 1) :=
    Terminal.height_print out hrow (by omega)
  have hposition := hon.position_eq
  have hmax : shellLineMax = 128 := rfl
  unfold Terminal.position at hposition ⊢
  omega

end AcharyaOS.Shell
