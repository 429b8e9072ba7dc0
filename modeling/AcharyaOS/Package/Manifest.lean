import AcharyaOS.Foundation.Lines
import AcharyaOS.Package.Install

/-!
# The manifest as a list of lines

A reading of the manifest without the loop over it: its lines, the `file` lines in front of
the first `end`, and the files these stand for.  The second pass of `package_install` follows
it whenever it gets to its end.
-/

namespace AcharyaOS.Package

open Foundation Foundation.Run Disk Fs

/-! ## Lines -/

/-- The lines without the carriage returns at their ends. -/
def manifestLines (text : List UInt8) : List (List UInt8) :=
  (textLines text).map fun line => line.rdropWhile (· == '\r'.toUInt8)

/-- The `file` lines in front of the first line `end`. -/
def fileLines (lines : List (List UInt8)) : List (List UInt8) :=
  (lines.takeWhile (· != packageEndText)).filter (packageStartsWithWord · packageFileWord)

/-- What stands behind `file` and any spaces and equals signs. -/
def linePayload (line : List UInt8) : List UInt8 :=
  (line.drop 4).dropWhile fun c => c == ' '.toUInt8 || c == '='.toUInt8

/-- The name is the text up to the first separator, the content what follows it. -/
def lineFile (line : List UInt8) : CString × List UInt8 :=
  (.read ((linePayload line).takeWhile (· != '|'.toUInt8)),
    ((linePayload line).dropWhile (· != '|'.toUInt8)).drop 1)

/-- The files of a manifest, in the order of their lines. -/
def manifestFiles (text : List UInt8) : List (CString × List UInt8) :=
  (fileLines (manifestLines text)).map lineFile

/-- A line of a NUL-free text. -/
def IsLine (line : List UInt8) : Prop := '\n'.toUInt8 ∉ line ∧ 0 ∉ line

theorem packageTrimNewline_eq {line : List UInt8} (h : IsLine line) :
    packageTrimNewline line = line.rdropWhile (· == '\r'.toUInt8) := by
  obtain ⟨hnewline, -⟩ := h
  unfold packageTrimNewline
  induction line using List.reverseRecOn with
  | nil => rfl
  | append_singleton line c ih =>
    rw [List.mem_append, not_or, List.mem_singleton] at hnewline
    have hc : (c == '\n'.toUInt8) = false := beq_eq_false_iff_ne.mpr (Ne.symm hnewline.2)
    rw [List.rdropWhile_concat, List.rdropWhile_concat, hc, Bool.false_or, ih hnewline.1]

theorem isLine_of_textLines {text : List UInt8} (h : 0 ∉ text) :
    ∀ line ∈ textLines text, IsLine line := fun line hline =>
  ⟨newline_notMem_textLines text line hline, fun hzero =>
    h ((isInfix_of_mem_textLines text line hline).subset hzero)⟩

theorem strcmp_end_iff {line : List UInt8} (h : IsLine line) :
    (strcmp (packageTrimNewline line) packageEndText == 0) = true ↔
      packageTrimNewline line = packageEndText := by
  have hzero : 0 ∉ packageTrimNewline line := fun hmem =>
    h.2 ((List.rdropWhile_prefix _ _).subset hmem)
  rw [beq_iff_eq, strcmp_eq_zero_iff, cText_of_zero_notMem hzero,
    cText_of_zero_notMem (by decide : 0 ∉ packageEndText)]

theorem ne_end_of_file {line : List UInt8}
    (h : packageStartsWithWord line packageFileWord = true) : (line != packageEndText) = true := by
  rw [bne_iff_ne]
  rintro rfl
  exact absurd h (by decide)

theorem packageFilePayload_some {line : List UInt8} (h : '|'.toUInt8 ∈ linePayload line) :
    packageFilePayload line = some (lineFile line) := by
  have hscan : (linePayload line).dropWhile (· != '|'.toUInt8) ≠ [] := by
    rw [ne_eq, List.dropWhile_eq_nil_iff]
    intro hall
    exact absurd (hall _ h) (by decide)
  obtain ⟨c, content, hcontent⟩ := List.exists_cons_of_ne_nil hscan
  unfold packageFilePayload lineFile scanTo
  rw [hcontent]
  unfold linePayload at hcontent
  simp only [hcontent]
  rfl

theorem packageFilePayload_none {line : List UInt8} (h : '|'.toUInt8 ∉ linePayload line) :
    packageFilePayload line = none := by
  have hscan : (linePayload line).dropWhile (· != '|'.toUInt8) = [] :=
    List.dropWhile_eq_nil_iff.mpr (forall_ne_of_notMem h)
  unfold linePayload at hscan
  unfold packageFilePayload scanTo
  simp only [hscan]

/-! ## The second pass -/

section Pass

variable {faults : Nat → Faults} {line : List UInt8} {lines : List (List UInt8)}

/-- The calls for the files of some lines, `n` files having been written. -/
def linesWrites (faults : Nat → Faults) (lines : List (List UInt8)) (n : Nat) :
    List (Faults × FsCall) :=
  packageWrites faults ((fileLines lines).map lineFile) n

def AllWritten : FsState → List (Faults × FsCall) → Prop :=
  AllSteps fsStep fun fs c => (fsExec fs c).2 = 0

theorem fileLines_cons_file (h : packageStartsWithWord line packageFileWord = true) :
    fileLines (line :: lines) = line :: fileLines lines := by
  simp only [fileLines, List.takeWhile_cons, ne_end_of_file h, if_true, List.filter_cons, h]

theorem fileLines_cons_end (h : line = packageEndText) : fileLines (line :: lines) = [] := by
  simp only [fileLines, List.takeWhile_cons, h, bne_self_eq_false, Bool.false_eq_true, if_false,
    List.filter_nil]

theorem fileLines_cons_other (hfile : ¬ packageStartsWithWord line packageFileWord = true)
    (hend : line ≠ packageEndText) : fileLines (line :: lines) = fileLines lines := by
  simp only [fileLines, List.takeWhile_cons, bne_iff_ne.mpr hend, if_true, List.filter_cons,
    if_neg hfile]

/-- Every line has the separator behind the name. -/
def Separated (lines : List (List UInt8)) : Prop :=
  ∀ line ∈ fileLines lines, '|'.toUInt8 ∈ linePayload line

/-- The files written in turn are those of the lines in front of the first one without a
separator. -/
theorem packageFiles_eq (hlines : ∀ line ∈ lines, IsLine line) :
    packageFiles lines = ((fileLines (lines.map packageTrimNewline)).takeWhile fun line =>
      decide ('|'.toUInt8 ∈ linePayload line)).map lineFile := by
  induction lines with
  | nil => rfl
  | cons line lines ih =>
    have hline := hlines line (List.mem_cons_self ..)
    have hrest := ih fun l hl => hlines l (List.mem_cons_of_mem _ hl)
    rw [packageFiles, List.map_cons]
    by_cases hfile : packageStartsWithWord (packageTrimNewline line) packageFileWord = true
    · rw [if_pos hfile, fileLines_cons_file hfile, List.takeWhile_cons]
      by_cases hsep : '|'.toUInt8 ∈ linePayload (packageTrimNewline line)
      · rw [packageFilePayload_some hsep, if_pos (decide_eq_true hsep), List.map_cons]
        simp only [hrest]
      · rw [packageFilePayload_none hsep, if_neg (by simp [hsep]), List.map_nil]
    · rw [if_neg hfile]
      by_cases hend : packageTrimNewline line = packageEndText
      · rw [if_pos ((strcmp_end_iff hline).mpr hend), fileLines_cons_end hend]
        rfl
      · rw [if_neg fun heq => hend ((strcmp_end_iff hline).mp heq),
          fileLines_cons_other hfile hend, hrest]

/-- The pass gets to its end exactly if every line has its separator and every file is
written. -/
theorem packageInstallLines_snd_iff (hlines : ∀ line ∈ lines, IsLine line) : ∀ {fs : FsState}
    {n n' : Nat}, (packageInstallLines faults fs lines n).2 = some n' ↔
      Separated (lines.map packageTrimNewline) ∧
        AllWritten fs (linesWrites faults (lines.map packageTrimNewline) n) ∧
        n' = n + (fileLines (lines.map packageTrimNewline)).length := by
  induction lines with
  | nil =>
    intro fs n n'
    constructor
    · exact fun h => ⟨List.forall_mem_nil _, trivial, (Option.some.inj h).symm⟩
    · rintro ⟨-, -, rfl⟩
      rfl
  | cons line lines ih =>
    intro fs n n'
    have hline := hlines line (List.mem_cons_self ..)
    have hrest := @ih fun l hl => hlines l (List.mem_cons_of_mem _ hl)
    rw [packageInstallLines]
    unfold linesWrites Separated
    rw [List.map_cons]
    by_cases hfile : packageStartsWithWord (packageTrimNewline line) packageFileWord = true
    · simp only [if_pos hfile, strcmp_file_end hfile]
      rw [fileLines_cons_file hfile, List.map_cons, List.forall_mem_cons, List.length_cons]
      by_cases hsep : '|'.toUInt8 ∈ linePayload (packageTrimNewline line)
      · rw [packageFilePayload_some hsep]
        generalize lineFile (packageTrimNewline line) = file
        obtain ⟨name, content⟩ := file
        rw [packageWrites_cons]
        by_cases hok : (fsExec fs (faults n, .writeFile (some name) (some content))).2 = 0
        · simp only [hok, ne_eq, not_true_eq_false, if_false, Bool.false_eq_true]
          rw [hrest]
          constructor
          · rintro ⟨hseps, hall, rfl⟩
            exact ⟨⟨hsep, hseps⟩, ⟨hok, hall⟩, by omega⟩
          · rintro ⟨⟨-, hseps⟩, ⟨-, hall⟩, rfl⟩
            exact ⟨hseps, hall, by omega⟩
        · simp only [if_pos hok]
          exact iff_of_false (by simp) fun h => hok h.2.1.1
      · rw [packageFilePayload_none hsep]
        exact iff_of_false (by simp) fun h => hsep h.1.1
    · simp only [if_neg hfile]
      by_cases hend : packageTrimNewline line = packageEndText
      · simp only [if_pos ((strcmp_end_iff hline).mpr hend)]
        rw [fileLines_cons_end hend]
        constructor
        · exact fun h => ⟨List.forall_mem_nil _, trivial, (Option.some.inj h).symm⟩
        · rintro ⟨-, -, rfl⟩
          rfl
      · have hcmp := fun heq => hend ((strcmp_end_iff hline).mp heq)
        simp only [if_neg hcmp]
        rw [fileLines_cons_other hfile hend]
        exact hrest

theorem packageInstallLines_some (hlines : ∀ line ∈ lines, IsLine line) {fs : FsState} {n n' : Nat}
    (h : (packageInstallLines faults fs lines n).2 = some n') :
    (packageInstallLines faults fs lines n).1 =
        runSteps fsStep fs (linesWrites faults (lines.map packageTrimNewline) n) ∧
      Separated (lines.map packageTrimNewline) ∧
      AllWritten fs (linesWrites faults (lines.map packageTrimNewline) n) ∧
      n' = n + (fileLines (lines.map packageTrimNewline)).length := by
  obtain ⟨hseps, hall, hcount⟩ := (packageInstallLines_snd_iff hlines).mp h
  refine ⟨?_, hseps, hall, hcount⟩
  have hfiles : packageFiles lines =
      (fileLines (lines.map packageTrimNewline)).map lineFile := by
    rw [packageFiles_eq hlines, List.takeWhile_eq_self_iff.mpr]
    exact fun line hline => decide_eq_true (hseps line hline)
  rw [packageInstallLines_state, hfiles]
  exact runUntil_of_allSteps (fun _ _ hok => beq_iff_eq.mpr hok) _ hall

end Pass

/-! ## The installation -/

/-- The end of `package_install`, behind the second pass. -/
def packageFinish (f : PackageFaults) (t : PackageTable) (m : PackageManifest)
    (source : CString) (w : FsState × Option Nat) : FsState × PackageTable × Int :=
  match w.2 with
  | none => (w.1, t, -1)
  | some n =>
      match packageRecord t m source n with
      | none => (w.1, t, -1)
      | some t => ((packageSaveIndex w.1 f.index t).1, t, 0)

/-- What `package_install` does once it has the text of the manifest. -/
def packageInstallText (fs : FsState) (f : PackageFaults) (t : PackageTable)
    (text : List UInt8) (source : CString) : FsState × PackageTable × Int :=
  match packageParseManifest text with
  | none => (fs, t, -1)
  | some m => packageFinish f t m source (packageInstallLines f.file fs (textLines text) 0)

theorem packageReadText_text {fs : FsState} {f : Faults} {name : CString} {text : List UInt8}
    (h : (packageReadText fs f name).2 = some text) :
    0 ∉ text ∧ text.length < packageManifestMax := by
  unfold packageReadText at h
  obtain ⟨⟨size, bytes⟩, -, rfl⟩ := Option.map_eq_some_iff.mp h
  refine ⟨zero_notMem_cText _, ?_⟩
  have htake : (bytes.take
      (if size ≥ packageManifestMax then packageManifestMax - 1 else size)).length ≤
        packageManifestMax - 1 := by
    rw [List.length_take]
    refine (Nat.min_le_left _ _).trans ?_
    split <;> omega
  have htext := (List.takeWhile_prefix (· ≠ (0 : UInt8))).length_le.trans htake
  exact Nat.lt_of_le_of_lt htext (by decide)

theorem packageInstall_of_text {fs : FsState} {f : PackageFaults} {t : PackageTable}
    {name : CString} {text : List UInt8} (hname : name.bytes ≠ [])
    (htext : (packageReadText fs f.manifest name).2 = some text) :
    packageInstall fs f t (some name) =
      packageInstallText (packageReadText fs f.manifest name).1 f t text name := by
  unfold packageInstall packageInstallText
  simp only [beq_eq_false_iff_ne.mpr hname, Bool.false_eq_true, if_false, htext]
  rfl

theorem packageReadText_of_installed {fs : FsState} {f : PackageFaults} {t : PackageTable}
    {name : CString} (h : (packageInstall fs f t (some name)).2.2 = 0) :
    name.bytes ≠ [] ∧ ∃ text, (packageReadText fs f.manifest name).2 = some text := by
  unfold packageInstall at h
  by_cases hname : name.bytes = []
  · simp only [hname, BEq.rfl, if_true] at h
    exact absurd h (by decide)
  · refine ⟨hname, ?_⟩
    simp only [beq_eq_false_iff_ne.mpr hname, Bool.false_eq_true, if_false] at h
    cases htext : (packageReadText fs f.manifest name).2 with
    | none =>
      simp only [htext] at h
      exact absurd h (by decide)
    | some text => exact ⟨text, rfl⟩

theorem packageInstallText_zero {fs : FsState} {f : PackageFaults} {t : PackageTable}
    {text : List UInt8} {source : CString}
    (h : (packageInstallText fs f t text source).2.2 = 0) :
    ∃ m n t', packageParseManifest text = some m ∧
      (packageInstallLines f.file fs (textLines text) 0).2 = some n ∧
      packageRecord t m source n = some t' ∧
      packageInstallText fs f t text source =
        ((packageSaveIndex (packageInstallLines f.file fs (textLines text) 0).1 f.index t').1,
          t', 0) := by
  unfold packageInstallText at h ⊢
  cases hparse : packageParseManifest text with
  | none =>
    simp only [hparse] at h
    exact absurd h (by decide)
  | some m =>
    simp only [hparse] at h ⊢
    unfold packageFinish at h ⊢
    cases hlines : (packageInstallLines f.file fs (textLines text) 0).2 with
    | none =>
      simp only [hlines] at h
      exact absurd h (by decide)
    | some n =>
      simp only [hlines] at h ⊢
      cases hrecord : packageRecord t m source n with
      | none =>
        simp only [hrecord] at h
        exact absurd h (by decide)
      | some t' => exact ⟨m, n, t', rfl, rfl, hrecord, rfl⟩

end AcharyaOS.Package
