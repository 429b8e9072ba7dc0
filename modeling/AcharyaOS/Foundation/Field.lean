import AcharyaOS.Foundation.CString

/-!
# Text fields and text buffers

Fixed arrays that hold a terminated string, the bounded loops that assemble records of such
fields in a buffer, and the scans for a separator that take them apart again.
-/

namespace AcharyaOS.Foundation

/-- A property of all bytes of a text is decided along the text. -/
instance (priority := 2000) decidableForallMem (P : UInt8 → Prop) [DecidablePred P] (a : List UInt8) :
    Decidable (∀ c ∈ a, P c) :=
  List.decidableBAll P a

theorem zero_notMem_cText (a : List UInt8) : 0 ∉ cText a := fun h => by
  simpa using List.mem_takeWhile_imp h

theorem cText_of_zero_notMem {a : List UInt8} (h : 0 ∉ a) : cText a = a :=
  cText_bytes ⟨a, h⟩

theorem cText_append_zero (a rest : List UInt8) : cText (a ++ 0 :: rest) = cText a := by
  induction a with
  | nil => exact cText_cons_zero rest
  | cons c a ih => rw [List.cons_append, cText_cons, cText_cons, ih]

/-- The string that starts at the head of a byte array. -/
def CString.read (a : List UInt8) : CString := ⟨cText a, zero_notMem_cText a⟩

theorem CString.read_bytes {a : List UInt8} (h : 0 ∉ a) : (CString.read a).bytes = a :=
  cText_of_zero_notMem h

theorem zero_mem_boundedCopy {dest : List UInt8} (hdest : dest ≠ []) (src : List UInt8) :
    0 ∈ boundedCopy dest src := by
  induction dest generalizing src with
  | nil => exact absurd rfl hdest
  | cons e dest ih =>
      cases dest with
      | nil => exact List.mem_cons_self ..
      | cons d dest =>
          cases src with
          | nil => exact List.mem_cons_self ..
          | cons c src => exact List.mem_cons_of_mem _ (ih (List.cons_ne_nil d dest) src)

/-- A `char` array of `n` bytes that holds a terminated string. -/
structure CField (n : Nat) where
  bytes : List UInt8
  length_eq : bytes.length = n
  terminated : 0 ∈ bytes
  deriving DecidableEq

namespace CField

variable {n : Nat}

/-- The string in the field. -/
def text (f : CField n) : List UInt8 := cText f.bytes

theorem zero_notMem_text (f : CField n) : 0 ∉ f.text := zero_notMem_cText _

theorem length_text_lt (f : CField n) : f.text.length < n := by
  have hprefix : f.text <+: f.bytes := List.takeWhile_prefix _
  by_contra hge
  have heq : f.text = f.bytes := hprefix.eq_of_length_le (by rw [f.length_eq]; omega)
  exact f.zero_notMem_text (heq ▸ f.terminated)

/-- The field cleared by `memset`. -/
def zero (n : Nat) (h : 0 < n) : CField n where
  bytes := List.replicate n 0
  length_eq := List.length_replicate
  terminated := List.mem_replicate.mpr ⟨h.ne', rfl⟩

/-- The cleared field with the characters of `row` stored from its start on. -/
def ofChars (row : List UInt8) (h : row.length < n) : CField n where
  bytes := row ++ List.replicate (n - row.length) 0
  length_eq := by
    rw [List.length_append, List.length_replicate]
    omega
  terminated := by
    apply List.mem_append_right
    exact List.mem_replicate.mpr ⟨by omega, rfl⟩

theorem text_ofChars (row : List UInt8) (h : row.length < n) : (ofChars row h).text = cText row := by
  have hzeros : List.replicate (n - row.length) (0 : UInt8) =
      0 :: List.replicate (n - row.length - 1) 0 := by
    rw [← List.replicate_succ]
    congr 1
    omega
  show cText (row ++ List.replicate (n - row.length) 0) = cText row
  rw [hzeros, cText_append_zero]

/-- `copy_text(field, sizeof(field), src)`. -/
def copy (f : CField n) (src : CString) : CField n where
  bytes := boundedCopy f.bytes src.bytes
  length_eq := by rw [length_boundedCopy, f.length_eq]
  terminated := zero_mem_boundedCopy (List.ne_nil_of_mem f.terminated) _

theorem text_copy (f : CField n) (src : CString) :
    (f.copy src).text = src.bytes.take (n - 1) := by
  rw [text, copy, cText_boundedCopy _ _ src.no_nul, f.length_eq]

theorem text_copy_of_lt (f : CField n) {src : CString} (h : src.length < n) :
    (f.copy src).text = src.bytes := by
  rw [text_copy, List.take_of_length_le]
  exact Nat.le_sub_one_of_lt h

end CField

/-! ## Writing records -/

/-- `for (j = 0; src[j] != '\\0' && pos + 1 < cap; j++) buffer[pos++] = src[j];` -/
def appendText (cap : Nat) : List UInt8 → List UInt8 → List UInt8
  | buffer, [] => buffer
  | buffer, c :: src =>
      if c ≠ 0 ∧ buffer.length + 1 < cap then appendText cap (buffer ++ [c]) src else buffer

/-- A part of a record: a string, or a single character behind which the loop over the
records ends when the buffer is full. -/
inductive Piece
  | text (src : List UInt8)
  | char (c : UInt8)

namespace Piece

def render : Piece → List UInt8
  | text src => cText src
  | char c => [c]

end Piece

/-- The pieces of one record; `false` when the buffer is full. -/
def appendPieces (cap : Nat) : List UInt8 → List Piece → List UInt8 × Bool
  | buffer, [] => (buffer, true)
  | buffer, .text src :: pieces => appendPieces cap (appendText cap buffer src) pieces
  | buffer, .char c :: pieces =>
      if buffer.length + 1 ≥ cap then (buffer, false)
      else appendPieces cap (buffer ++ [c]) pieces

def appendRecords (cap : Nat) : List UInt8 → List (List Piece) → List UInt8
  | buffer, [] => buffer
  | buffer, record :: records =>
      let r := appendPieces cap buffer record
      if r.2 then appendRecords cap r.1 records else r.1

/-- The text of the records; a text without any is a single newline. -/
def recordsText (cap : Nat) (records : List (List Piece)) : List UInt8 :=
  let buffer := appendRecords cap [] records
  if buffer.length == 0 then buffer ++ ['\n'.toUInt8] else buffer

theorem appendText_take {cap : Nat} (src : List UInt8) : ∀ buffer : List UInt8,
    buffer.length < cap →
      appendText cap buffer src = (buffer ++ cText src).take (cap - 1) := by
  induction src with
  | nil =>
      intro buffer hcap
      rw [appendText, cText_nil, List.append_nil, List.take_of_length_le (by omega)]
  | cons c src ih =>
      intro buffer hcap
      rw [appendText, cText_cons]
      by_cases hc : c = 0
      · rw [if_neg (fun h => h.1 hc), if_pos hc, List.append_nil,
          List.take_of_length_le (by omega)]
      · rw [if_neg hc]
        by_cases hroom : buffer.length + 1 < cap
        · rw [if_pos ⟨hc, hroom⟩, ih, List.append_assoc, List.singleton_append]
          rwa [List.length_append, List.length_singleton]
        · have hfull : cap - 1 = buffer.length := by omega
          rw [if_neg (fun h => hroom h.2), hfull, List.take_left]

theorem appendText_eq {cap : Nat} (src : List UInt8) (buffer : List UInt8)
    (h : buffer.length + (cText src).length < cap) :
    appendText cap buffer src = buffer ++ cText src := by
  rw [appendText_take src buffer (by omega), List.take_of_length_le]
  rw [List.length_append]
  omega

theorem appendPieces_eq {cap : Nat} (pieces : List Piece) : ∀ buffer : List UInt8,
    buffer.length + (pieces.flatMap Piece.render).length < cap →
      appendPieces cap buffer pieces = (buffer ++ pieces.flatMap Piece.render, true) := by
  induction pieces with
  | nil =>
      intro buffer _
      rw [appendPieces, List.flatMap_nil, List.append_nil]
  | cons piece pieces ih =>
      intro buffer hcap
      rw [List.flatMap_cons, List.length_append] at hcap
      cases piece with
      | text src =>
          simp only [Piece.render] at hcap
          rw [appendPieces, appendText_eq src buffer (by omega), ih, List.append_assoc]
          · rfl
          · rw [List.length_append]
            omega
      | char c =>
          simp only [Piece.render, List.length_singleton] at hcap
          rw [appendPieces, if_neg (by omega), ih, List.append_assoc]
          · rfl
          · rw [List.length_append, List.length_singleton]
            omega

theorem appendRecords_eq {cap : Nat} (records : List (List Piece)) : ∀ buffer : List UInt8,
    buffer.length + (records.flatMap (List.flatMap Piece.render)).length < cap →
      appendRecords cap buffer records =
        buffer ++ records.flatMap (List.flatMap Piece.render) := by
  induction records with
  | nil =>
      intro buffer _
      rw [appendRecords, List.flatMap_nil, List.append_nil]
  | cons record records ih =>
      intro buffer hcap
      rw [List.flatMap_cons, List.length_append] at hcap
      rw [appendRecords, appendPieces_eq record buffer (by omega)]
      simp only [if_true]
      rw [ih, List.flatMap_cons, List.append_assoc]
      rw [List.length_append]
      omega

theorem recordsText_eq {cap : Nat} {records : List (List Piece)}
    (h : (records.flatMap (List.flatMap Piece.render)).length < cap) :
    recordsText cap records =
      if records.flatMap (List.flatMap Piece.render) = [] then ['\n'.toUInt8]
      else records.flatMap (List.flatMap Piece.render) := by
  have hrecords := appendRecords_eq records [] (by rwa [List.length_nil, Nat.zero_add])
  rw [List.nil_append] at hrecords
  simp only [recordsText, hrecords, beq_iff_eq, List.length_eq_zero_iff]
  by_cases hnil : records.flatMap (List.flatMap Piece.render) = []
  · rw [if_pos hnil, if_pos hnil, hnil, List.nil_append]
  · rw [if_neg hnil, if_neg hnil]

/-! ### What the buffer holds at most -/

theorem length_appendText_lt {cap : Nat} {buffer : List UInt8} (h : buffer.length < cap)
    (src : List UInt8) : (appendText cap buffer src).length < cap := by
  rw [appendText_take src buffer h, List.length_take]
  omega

theorem length_appendPieces_lt {cap : Nat} (pieces : List Piece) : ∀ {buffer : List UInt8},
    buffer.length < cap → (appendPieces cap buffer pieces).1.length < cap := by
  induction pieces with
  | nil => exact fun h => h
  | cons piece pieces ih =>
      intro buffer h
      cases piece with
      | text src => exact ih (length_appendText_lt h src)
      | char c =>
          rw [appendPieces]
          by_cases hfull : buffer.length + 1 ≥ cap
          · rwa [if_pos hfull]
          · rw [if_neg hfull]
            apply ih
            rw [List.length_append, List.length_singleton]
            omega

theorem length_appendRecords_lt {cap : Nat} (records : List (List Piece)) :
    ∀ {buffer : List UInt8}, buffer.length < cap →
      (appendRecords cap buffer records).length < cap := by
  induction records with
  | nil => exact fun h => h
  | cons record records ih =>
      intro buffer h
      have hrecord := length_appendPieces_lt record h
      rw [appendRecords]
      by_cases hroom : (appendPieces cap buffer record).2 = true
      · simp only [if_pos hroom]
        exact ih hrecord
      · simp only [if_neg hroom]
        exact hrecord

theorem length_recordsText_lt {cap : Nat} (hcap : 1 < cap) (records : List (List Piece)) :
    (recordsText cap records).length < cap := by
  have hlen : (appendRecords cap [] records).length < cap :=
    length_appendRecords_lt records (Nat.zero_lt_of_lt hcap)
  rw [recordsText]
  by_cases hempty : (appendRecords cap [] records).length = 0
  · rw [if_pos (beq_iff_eq.mpr hempty), List.length_append, hempty]
    exact hcap
  · rw [if_neg (by rwa [beq_iff_eq])]
    exact hlen

/-- The records of the used slots, where `view` is what a slot holds and `line` the text of
its record. -/
theorem flatMap_pieces {α β : Type} {used : α → Bool} {pieces : α → List Piece}
    {view : α → Option β} {line : β → List UInt8}
    (hfree : ∀ i, used i = false → view i = none)
    (hused : ∀ i, used i = true → (view i).map line = some ((pieces i).flatMap Piece.render))
    (is : List α) :
    ((is.filter used).map pieces).flatMap (List.flatMap Piece.render) =
      (is.filterMap view).flatMap line := by
  induction is with
  | nil => rfl
  | cons i is ih =>
      cases hi : used i with
      | false =>
          rw [List.filter_cons_of_neg (by rw [hi]; decide), List.filterMap_cons, hfree i hi]
          exact ih
      | true =>
          obtain ⟨a, ha, hline⟩ := Option.map_eq_some_iff.mp (hused i hi)
          rw [List.filter_cons_of_pos hi, List.filterMap_cons, ha, List.map_cons,
            List.flatMap_cons, List.flatMap_cons, ih, hline]

/-! ## Splitting at a separator -/

section Split

variable {sep : UInt8} {a : List UInt8}

theorem forall_ne_of_notMem (h : sep ∉ a) : ∀ c ∈ a, (c != sep) = true := by
  intro c hc
  rw [bne_iff_ne]
  rintro rfl
  exact h hc

theorem takeWhile_ne_append (h : sep ∉ a) (rest : List UInt8) :
    (a ++ sep :: rest).takeWhile (· != sep) = a := by
  rw [List.takeWhile_append_of_pos (forall_ne_of_notMem h)]
  simp

theorem dropWhile_ne_append (h : sep ∉ a) (rest : List UInt8) :
    (a ++ sep :: rest).dropWhile (· != sep) = sep :: rest := by
  rw [List.dropWhile_append_of_pos (forall_ne_of_notMem h)]
  simp

end Split

/-- `while (*text && *text != sep) text++;`: what the pointer passes, and what it then
points to. -/
def scanTo (sep : UInt8) (text : List UInt8) : List UInt8 × List UInt8 :=
  (text.takeWhile (· != sep), text.dropWhile (· != sep))

theorem scanTo_append {sep : UInt8} {a : List UInt8} (h : sep ∉ a) (rest : List UInt8) :
    scanTo sep (a ++ sep :: rest) = (a, sep :: rest) := by
  rw [scanTo, takeWhile_ne_append h, dropWhile_ne_append h]

/-! ## Lines -/

def isLineBreak (c : UInt8) : Prop := c = '\r'.toUInt8 ∨ c = '\n'.toUInt8

instance (c : UInt8) : Decidable (isLineBreak c) := inferInstanceAs (Decidable (_ ∨ _))

/-- The lines of a text; a last one without newline counts when it is not empty. -/
def textLines (text : List UInt8) : List (List UInt8) :=
  if _h : text = [] then []
  else (scanTo '\n'.toUInt8 text).1 :: textLines ((scanTo '\n'.toUInt8 text).2.drop 1)
termination_by text.length
decreasing_by
  have hpos := List.length_pos_iff.mpr _h
  have hdrop := List.length_dropWhile_le (· != '\n'.toUInt8) text
  simp only [scanTo, List.length_drop]
  omega

theorem textLines_append {line : List UInt8} (h : '\n'.toUInt8 ∉ line) (rest : List UInt8) :
    textLines (line ++ '\n'.toUInt8 :: rest) = line :: textLines rest := by
  rw [textLines, dif_neg (by simp), scanTo_append h]
  rfl

/-- `while (*text && *text != '\n' && i + 1 < size)`, dropping carriage returns: the line,
behind what it holds already, and the text left. -/
def copyLine (size : Nat) : List UInt8 → List UInt8 → List UInt8 × List UInt8
  | line, [] => (line, [])
  | line, c :: text =>
      if c ≠ '\n'.toUInt8 ∧ line.length + 1 < size then
        copyLine size (if c ≠ '\r'.toUInt8 then line ++ [c] else line) text
      else (line, c :: text)

theorem length_copyLine_le (size : Nat) (text : List UInt8) : ∀ line,
    (copyLine size line text).2.length ≤ text.length := by
  induction text with
  | nil => exact fun _ => le_rfl
  | cons c text ih =>
      intro line
      rw [copyLine]
      split
      · exact (ih _).trans (Nat.le_succ _)
      · exact le_rfl

/-- Behind the line breaks at its head, a text loses at least one character to the line. -/
theorem length_copyLine_lt {size : Nat} (hsize : 1 < size) {text : List UInt8}
    (h : text ≠ []) :
    (copyLine size [] (text.dropWhile fun c => c == '\r'.toUInt8 || c == '\n'.toUInt8)).2.length <
      text.length := by
  have hpos : 0 < text.length := List.length_pos_iff.mpr h
  have hstart := List.length_dropWhile_le
    (fun c => c == '\r'.toUInt8 || c == '\n'.toUInt8) text
  have hfirst := List.head?_dropWhile_not
    (fun c => c == '\r'.toUInt8 || c == '\n'.toUInt8) text
  cases hdrop : text.dropWhile fun c => c == '\r'.toUInt8 || c == '\n'.toUInt8 with
  | nil => exact hpos
  | cons c rest =>
      rw [hdrop] at hstart hfirst
      simp only [List.head?_cons, Bool.or_eq_false_iff, beq_eq_false_iff_ne] at hfirst
      rw [copyLine, if_pos ⟨hfirst.2, hsize⟩]
      refine (length_copyLine_le size rest _).trans_lt ?_
      rw [List.length_cons] at hstart
      omega

theorem copyLine_line {size : Nat} (a : List UInt8) {tail : List UInt8}
    (htail : ∀ c ∈ tail.head?, c = '\n'.toUInt8) : ∀ line : List UInt8,
    '\n'.toUInt8 ∉ a → line.length + a.length < size →
      copyLine size line (a ++ tail) = (line ++ a.filter (· != '\r'.toUInt8), tail) := by
  induction a with
  | nil =>
      intro line _ _
      rw [List.nil_append, List.filter_nil, List.append_nil]
      cases tail with
      | nil => rfl
      | cons c tail =>
          have hc : c = '\n'.toUInt8 := htail c rfl
          rw [copyLine, if_neg (fun h => h.1 hc)]
  | cons c a ih =>
      intro line hfree hlen
      rw [List.mem_cons, not_or] at hfree
      rw [List.length_cons] at hlen
      rw [List.cons_append, copyLine, if_pos ⟨Ne.symm hfree.1, by omega⟩]
      by_cases hc : c = '\r'.toUInt8
      · rw [if_neg (not_not.mpr hc), ih line hfree.2 (by omega),
          List.filter_cons_of_neg (by simp [hc])]
      · have hlen' : (line ++ [c]).length + a.length < size := by
          rw [List.length_append, List.length_singleton]
          omega
        rw [if_pos hc, ih _ hfree.2 hlen', List.filter_cons, if_pos (bne_iff_ne.mpr hc),
          List.append_assoc]
        rfl

theorem copyLine_eq {size : Nat} (a rest line : List UInt8) (hfree : ∀ x ∈ a, ¬ isLineBreak x)
    (hlen : line.length + a.length < size) :
    copyLine size line (a ++ '\n'.toUInt8 :: rest) = (line ++ a, '\n'.toUInt8 :: rest) := by
  have hline : '\n'.toUInt8 ∉ a := fun h => hfree _ h (.inr rfl)
  have hplain : a.filter (· != '\r'.toUInt8) = a :=
    List.filter_eq_self.mpr fun c hc => bne_iff_ne.mpr fun h => hfree c hc (.inl h)
  have htail : ∀ c ∈ ('\n'.toUInt8 :: rest).head?, c = '\n'.toUInt8 :=
    fun c hc => (Option.some.inj hc).symm
  rw [copyLine_line a htail line hline hlen, hplain]

end AcharyaOS.Foundation
