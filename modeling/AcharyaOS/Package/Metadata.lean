import AcharyaOS.Foundation.Assoc
import AcharyaOS.Package.Manifest

/-!
# The first pass over a manifest

`package_parse_manifest` reads its own lines and goes on to the end of the text.  Seen as a
walk over the lines of the manifest without their carriage returns, it takes the header from any
of them, and the name and the version from the last line for each.
-/

namespace AcharyaOS.Package

open Foundation Foundation.Assoc

/-! ## Lines -/

/-- The lines as the first pass copies them. -/
def plainLines (text : List UInt8) : List (List UInt8) :=
  (textLines text).map fun line => line.filter (· != '\r'.toUInt8)

theorem packageParseLine_nil (m : PackageManifest) : packageParseLine m [] = m := rfl

theorem packageParseLines_skip (m : PackageManifest) {c : UInt8} (hc : isLineBreak c)
    (text : List UInt8) : packageParseLines m (c :: text) = packageParseLines m text := by
  have hbreak : (c == '\r'.toUInt8 || c == '\n'.toUInt8) = true := by
    rw [Bool.or_eq_true, beq_iff_eq, beq_iff_eq]
    exact hc
  have hdrop : (c :: text).dropWhile (fun c => c == '\r'.toUInt8 || c == '\n'.toUInt8) =
      text.dropWhile fun c => c == '\r'.toUInt8 || c == '\n'.toUInt8 := by
    rw [List.dropWhile_cons, if_pos hbreak]
  rw [packageParseLines, dif_neg (List.cons_ne_nil _ _)]
  simp only [hdrop]
  by_cases htext : text = []
  · subst htext
    rfl
  · conv_rhs => rw [packageParseLines, dif_neg htext]

/-- One line is one turn of the loop, however many carriage returns stand in it. -/
theorem packageParseLines_line (m : PackageManifest) (tail : List UInt8) {a : List UInt8}
    (ha : '\n'.toUInt8 ∉ a) (hlen : a.length < packageManifestMax)
    (htail : ∀ c ∈ tail.head?, c = '\n'.toUInt8) :
    packageParseLines m (a ++ tail) =
      packageParseLines (packageParseLine m (a.filter (· != '\r'.toUInt8)))
        (packageSkipNewline tail) := by
  induction a with
  | nil =>
    rw [List.nil_append, List.filter_nil, packageParseLine_nil]
    cases tail with
    | nil => rfl
    | cons c tail =>
      have hc : c = '\n'.toUInt8 := htail c rfl
      rw [packageParseLines_skip m (.inr hc), packageSkipNewline, if_pos (beq_iff_eq.mpr hc)]
  | cons c a ih =>
    have hfree := ha
    rw [List.mem_cons, not_or] at hfree
    by_cases hc : c = '\r'.toUInt8
    · rw [List.length_cons] at hlen
      rw [List.cons_append, packageParseLines_skip m (.inl hc), ih hfree.2 (by omega),
        List.filter_cons, if_neg (by simp [hc])]
    · have hbreak : (c == '\r'.toUInt8 || c == '\n'.toUInt8) = false := by
        rw [Bool.or_eq_false_iff, beq_eq_false_iff_ne, beq_eq_false_iff_ne]
        exact ⟨hc, Ne.symm hfree.1⟩
      have hcopy : copyLine packageManifestMax [] (c :: (a ++ tail)) =
          ((c :: a).filter (· != '\r'.toUInt8), tail) :=
        copyLine_line (c :: a) htail [] ha (by rw [List.length_nil, Nat.zero_add]; exact hlen)
      rw [List.cons_append]
      rw [packageParseLines, dif_neg (List.cons_ne_nil _ _)]
      simp only [List.dropWhile_cons, hbreak, Bool.false_eq_true, if_false, hcopy]

theorem packageParseLines_eq (text : List UInt8) : ∀ {m : PackageManifest},
    text.length < packageManifestMax →
      packageParseLines m text = (plainLines text).foldl packageParseLine m := by
  unfold plainLines
  induction text using lineInduction with
  | last a h =>
    intro m hlen
    by_cases hnil : a = []
    · rw [hnil, textLines_nil, packageParseLines, dif_pos rfl]
      rfl
    · have hline := packageParseLines_line m [] h hlen (by simp)
      rw [List.append_nil] at hline
      rw [hline, textLines_of_notMem h hnil, packageSkipNewline, packageParseLines, dif_pos rfl]
      rfl
  | line a rest h ih =>
    intro m hlen
    rw [List.length_append, List.length_cons] at hlen
    have hline := packageParseLines_line m ('\n'.toUInt8 :: rest) h (by omega)
      fun c hc => (Option.some.inj hc).symm
    rw [hline, textLines_append h, packageSkipNewline, if_pos (beq_self_eq_true _),
      ih (by omega), List.map_cons, List.foldl_cons]

/-! ## Fields -/

/-- The value on the last line for a keyword, cut to the size of its field. -/
def manifestField (word : List UInt8) (size : Nat) (text : List UInt8) : List UInt8 :=
  ((plainLines text).filter (packageStartsWithWord · word)).getLast?.elim [] fun line =>
    (packageValue line).bytes.take (size - 1)

def manifestName (text : List UInt8) : List UInt8 :=
  manifestField packageNameWord packageNameMax text

def manifestVersion (text : List UInt8) : List UInt8 :=
  manifestField packageVersionWord packageVersionMax text

/-- The header stands on some line, and the last line for the name has one. -/
def Accepted (text : List UInt8) : Prop :=
  packageHeaderText ∈ plainLines text ∧ manifestName text ≠ []

instance (text : List UInt8) : Decidable (Accepted text) := inferInstanceAs (Decidable (_ ∧ _))

section ParseLine

variable (m : PackageManifest) {line : List UInt8}

theorem exists_append_of_startsWithWord {word : List UInt8}
    (h : packageStartsWithWord line word = true) : ∃ rest, line = word ++ rest := by
  rw [packageStartsWithWord, Bool.and_eq_true, List.isPrefixOf_iff_prefix] at h
  obtain ⟨⟨rest, rfl⟩, -⟩ := h
  exact ⟨rest, rfl⟩

theorem packageParseLine_cases (line : List UInt8) :
    packageParseLine m line = m ∨
      (strcmp line packageHeaderText == 0) = true ∧
        packageParseLine m line = { m with sawHeader := true } ∨
      packageStartsWithWord line packageNameWord = true ∧
        packageParseLine m line = { m with packageName := m.packageName.copy (packageValue line) } ∨
      packageStartsWithWord line packageVersionWord = true ∧
        packageParseLine m line =
          { m with packageVersion := m.packageVersion.copy (packageValue line) } := by
  unfold packageParseLine
  split
  · exact .inl rfl
  · split
    · next hheader => exact .inr (.inl ⟨hheader, rfl⟩)
    · split
      · next hname => exact .inr (.inr (.inl ⟨hname, rfl⟩))
      · split
        · next hversion => exact .inr (.inr (.inr ⟨hversion, rfl⟩))
        · exact .inl rfl

theorem packageParseLine_header (h : (strcmp line packageHeaderText == 0) = true) :
    (packageParseLine m line).sawHeader = true := by
  have hline : (line == []) = false := by
    rw [beq_eq_false_iff_ne]
    rintro rfl
    exact absurd h (by decide)
  simp only [packageParseLine, hline, Bool.false_eq_true, if_false, h, if_true]

theorem packageParseLine_noHeader (h : (strcmp line packageHeaderText == 0) = false) :
    (packageParseLine m line).sawHeader = m.sawHeader := by
  rcases packageParseLine_cases m line with heq | ⟨hheader, -⟩ | ⟨-, heq⟩ | ⟨-, heq⟩
  · rw [heq]
  · rw [h] at hheader
    cases hheader
  · rw [heq]
  · rw [heq]

/-- No keyword is the header or the start of the other one. -/
theorem packageParseLine_name (h : packageStartsWithWord line packageNameWord = true) :
    packageParseLine m line = { m with packageName := m.packageName.copy (packageValue line) } := by
  obtain ⟨rest, rfl⟩ := exists_append_of_startsWithWord h
  have hline : (packageNameWord ++ rest == []) = false := rfl
  have hheader : (strcmp (packageNameWord ++ rest) packageHeaderText == 0) = false := rfl
  simp only [packageParseLine, hline, hheader, Bool.false_eq_true, if_false, h, if_true]

theorem packageParseLine_version (h : packageStartsWithWord line packageVersionWord = true) :
    packageParseLine m line =
      { m with packageVersion := m.packageVersion.copy (packageValue line) } := by
  obtain ⟨rest, rfl⟩ := exists_append_of_startsWithWord h
  have hline : (packageVersionWord ++ rest == []) = false := rfl
  have hheader : (strcmp (packageVersionWord ++ rest) packageHeaderText == 0) = false := rfl
  have hname : packageStartsWithWord (packageVersionWord ++ rest) packageNameWord = false := rfl
  simp only [packageParseLine, hline, hheader, hname, Bool.false_eq_true, if_false, h, if_true]

theorem packageParseLine_noName (h : packageStartsWithWord line packageNameWord = false) :
    (packageParseLine m line).packageName = m.packageName := by
  rcases packageParseLine_cases m line with heq | ⟨-, heq⟩ | ⟨hname, -⟩ | ⟨-, heq⟩
  · rw [heq]
  · rw [heq]
  · rw [h] at hname
    cases hname
  · rw [heq]

theorem packageParseLine_noVersion (h : packageStartsWithWord line packageVersionWord = false) :
    (packageParseLine m line).packageVersion = m.packageVersion := by
  rcases packageParseLine_cases m line with heq | ⟨-, heq⟩ | ⟨-, heq⟩ | ⟨hversion, -⟩
  · rw [heq]
  · rw [heq]
  · rw [heq]
  · rw [h] at hversion
    cases hversion

end ParseLine

variable {text : List UInt8}

theorem packageParseLines_sawHeader (hzero : 0 ∉ text) (hlen : text.length < packageManifestMax) :
    (packageParseLines .empty text).sawHeader = true ↔ packageHeaderText ∈ plainLines text := by
  have hwalk := foldl_getLast PackageManifest.sawHeader
    (fun line => strcmp line packageHeaderText == 0) (fun _ => true)
    (fun m _ h => packageParseLine_header m h) (fun m _ h => packageParseLine_noHeader m h)
    .empty (plainLines text)
  rw [← packageParseLines_eq text hlen] at hwalk
  rw [hwalk]
  have hfree : ∀ line ∈ plainLines text, 0 ∉ line := by
    intro line hline hmem
    obtain ⟨line, hline', rfl⟩ := List.mem_map.mp hline
    exact (isLine_of_textLines hzero line hline').2 (List.mem_of_mem_filter hmem)
  have hmatch : ∀ line ∈ plainLines text,
      (strcmp line packageHeaderText == 0) = true ↔ line = packageHeaderText := by
    intro line hline
    rw [beq_iff_eq, strcmp_eq_zero_iff, cText_of_zero_notMem (hfree line hline),
      cText_of_zero_notMem (by decide : 0 ∉ packageHeaderText)]
  constructor
  · intro h
    cases hlast : ((plainLines text).filter
        fun line => strcmp line packageHeaderText == 0).getLast? with
    | none =>
      rw [hlast] at h
      exact absurd h (by decide)
    | some line =>
      have hline := List.mem_filter.mp (List.mem_of_getLast? hlast)
      exact (hmatch line hline.1).mp hline.2 ▸ hline.1
  · intro h
    have hmem : packageHeaderText ∈ (plainLines text).filter
        fun line => strcmp line packageHeaderText == 0 :=
      List.mem_filter.mpr ⟨h, (hmatch _ h).mpr rfl⟩
    rw [List.getLast?_eq_some_getLast (List.ne_nil_of_mem hmem)]
    rfl

theorem packageParseLines_name (hlen : text.length < packageManifestMax) :
    (packageParseLines .empty text).packageName.text = manifestName text := by
  rw [packageParseLines_eq text hlen]
  refine foldl_getLast (fun m : PackageManifest => m.packageName.text) _ _ ?_ ?_ .empty
    (plainLines text)
  · intro m line h
    rw [packageParseLine_name m h]
    exact CField.text_copy ..
  · intro m line h
    rw [packageParseLine_noName m h]

theorem packageParseLines_version (hlen : text.length < packageManifestMax) :
    (packageParseLines .empty text).packageVersion.text = manifestVersion text := by
  rw [packageParseLines_eq text hlen]
  refine foldl_getLast (fun m : PackageManifest => m.packageVersion.text) _ _ ?_ ?_ .empty
    (plainLines text)
  · intro m line h
    rw [packageParseLine_version m h]
    exact CField.text_copy ..
  · intro m line h
    rw [packageParseLine_noVersion m h]

/-- The first pass accepts a manifest with a header and a name. -/
theorem accepted_iff (hzero : 0 ∉ text) (hlen : text.length < packageManifestMax) :
    Accepted text ↔ ∃ m, packageParseManifest text = some m := by
  unfold packageParseManifest Accepted
  simp only [packageParseLines_name hlen]
  rw [← packageParseLines_sawHeader hzero hlen]
  simp

theorem packageParseManifest_fields (hlen : text.length < packageManifestMax)
    {m : PackageManifest} (h : packageParseManifest text = some m) :
    m.packageName.text = manifestName text ∧ m.packageVersion.text = manifestVersion text := by
  unfold packageParseManifest at h
  simp only at h
  split at h
  · rw [Option.some.injEq] at h
    rw [← h]
    exact ⟨packageParseLines_name hlen, packageParseLines_version hlen⟩
  · exact absurd h (by simp)

end AcharyaOS.Package
