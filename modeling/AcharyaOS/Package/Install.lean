import AcharyaOS.Package.Code
import AcharyaOS.Fs.RoundTrip

/-!
# The writes of an installation

The files of a manifest are written while its lines are read, and nothing takes them back.
The table of packages is touched only when all of them have been written.
-/

namespace AcharyaOS.Package

open Foundation Foundation.Run Disk Fs

/-- The files a manifest names up to its end or its first malformed `file` line. -/
def packageFiles : List (List UInt8) → List (CString × List UInt8)
  | [] => []
  | line :: lines =>
      if packageStartsWithWord (packageTrimNewline line) packageFileWord then
        match packageFilePayload (packageTrimNewline line) with
        | none => []
        | some file => file :: packageFiles lines
      else if strcmp (packageTrimNewline line) packageEndText == 0 then []
      else packageFiles lines

/-- The calls that write these files, from the `n`-th write on. -/
def packageWrites (faults : Nat → Faults) (files : List (CString × List UInt8)) (n : Nat) :
    List (Faults × FsCall) :=
  (files.zipIdx n).map fun p => (faults p.2, .writeFile (some p.1.1) (some p.1.2))

def packageWritten (fs : FsState) (c : Faults × FsCall) : Bool := (fsExec fs c).2 == 0

theorem packageWrites_cons (faults : Nat → Faults) (name : CString) (content : List UInt8)
    (files : List (CString × List UInt8)) (n : Nat) :
    packageWrites faults ((name, content) :: files) n =
      (faults n, .writeFile (some name) (some content)) :: packageWrites faults files (n + 1) := by
  rw [packageWrites, List.zipIdx_cons, List.map_cons, packageWrites]

/-! ## The second pass -/

/-- A line that starts with "file" is not "end", wherever its separator stands. -/
theorem strcmp_file_end {line : List UInt8} (h : packageStartsWithWord line packageFileWord = true) :
    (strcmp (scanTo '|'.toUInt8 line).1 packageEndText == 0) = false := by
  rw [packageStartsWithWord, Bool.and_eq_true, List.isPrefixOf_iff_prefix] at h
  obtain ⟨⟨rest, rfl⟩, -⟩ := h
  have hbar : ((102 : UInt8) != '|'.toUInt8) = true := by decide
  rw [beq_eq_false_iff_ne, ne_eq, strcmp_eq_zero_iff]
  intro hend
  have hhead := congrArg List.head? hend
  simp [scanTo, packageFileWord, packageEndText, List.takeWhile_cons, hbar, cText_cons] at hhead

/-- The second pass makes the calls for the files in their order, until one fails. -/
theorem packageInstallLines_state (faults : Nat → Faults) (lines : List (List UInt8)) :
    ∀ fs n, (packageInstallLines faults fs lines n).1 =
      runUntil fsStep packageWritten fs (packageWrites faults (packageFiles lines) n) := by
  induction lines with
  | nil => exact fun _ _ => rfl
  | cons line lines ih =>
      intro fs n
      rw [packageInstallLines, packageFiles]
      by_cases hfile : packageStartsWithWord (packageTrimNewline line) packageFileWord = true
      · simp only [if_pos hfile, strcmp_file_end hfile]
        cases packageFilePayload (packageTrimNewline line) with
        | none => rfl
        | some file =>
            obtain ⟨name, content⟩ := file
            rw [packageWrites_cons, runUntil]
            by_cases hresult : (fsExec fs (faults n, .writeFile (some name)
                (some content))).2 = 0
            · have hwritten : packageWritten fs (faults n, .writeFile (some name)
                  (some content)) = true := beq_iff_eq.mpr hresult
              rw [if_pos hwritten]
              simp only [hresult, ne_eq, not_true_eq_false, if_false, Bool.false_eq_true]
              exact ih _ _
            · have hwritten : ¬ packageWritten fs (faults n, .writeFile (some name)
                  (some content)) = true := fun h => hresult (beq_iff_eq.mp h)
              rw [if_neg hwritten]
              simp only [if_pos hresult]
              rfl
      · simp only [if_neg hfile]
        split
        · rfl
        · exact ih fs n

/-! ## The installation -/

/-- The state in which the second pass starts, and the manifest if it gets that far. -/
def packageManifestText (fs : FsState) (f : PackageFaults) (manifestName : Option CString) :
    FsState × Option (List UInt8) :=
  match manifestName with
  | none => (fs, none)
  | some manifestName =>
      if manifestName.bytes == [] then (fs, none)
      else
        let r := packageReadText fs f.manifest manifestName
        (r.1, r.2.filter fun text => (packageParseManifest text).isSome)

/-- The calls for the files of the manifest; there are none without a header and a name. -/
def packageInstallWrites (fs : FsState) (f : PackageFaults) (manifestName : Option CString) :
    List (Faults × FsCall) :=
  match (packageManifestText fs f manifestName).2 with
  | none => []
  | some text => packageWrites f.file (packageFiles (textLines text)) 0

/-- Table, cache and disk content are the same. -/
structure FsUntouched (s s' : FsState) : Prop where
  info_eq : s'.info = s.info
  cache_eq : s'.cache = s.cache
  entries_eq : s'.entries = s.entries
  content_eq : s'.ata.device.content = s.ata.device.content

theorem FsUntouched.refl (s : FsState) : FsUntouched s s := ⟨rfl, rfl, rfl, rfl⟩

theorem fsUntouched_of_read (s : FsState) (name : Option CString) (bufferLen : Nat) :
    FsUntouched s (fsReadFile s name bufferLen).1 := by
  rw [fsReadFile]
  split
  · exact .refl s
  · split
    · exact .refl s
    · next e _ _ =>
        have hwrote := ataReadSectors_wrote s.ata e.startLba (fsReadCount e)
        exact ⟨rfl, rfl, rfl, by simpa using hwrote.device.content_eq⟩

theorem fsUntouched_manifestText (fs : FsState) (f : PackageFaults)
    (manifestName : Option CString) :
    FsUntouched fs (packageManifestText fs f manifestName).1 := by
  cases manifestName with
  | none => exact .refl fs
  | some name =>
      simp only [packageManifestText]
      split
      · exact .refl fs
      · have hread := fsUntouched_of_read (fs.withFaults f.manifest) (some name)
          packageManifestMax
        exact ⟨hread.info_eq, hread.cache_eq, hread.entries_eq, hread.content_eq⟩

/-- The state the second pass leaves behind. -/
def packageUnpacked (fs : FsState) (f : PackageFaults) (manifestName : Option CString) :
    FsState :=
  runUntil fsStep packageWritten (packageManifestText fs f manifestName).1
    (packageInstallWrites fs f manifestName)

theorem packageUnpacked_eq {fs : FsState} {f : PackageFaults} {name : CString}
    (hname : (name.bytes == []) = false) {text : List UInt8}
    (htext : (packageReadText fs f.manifest name).2 = some text) {m : PackageManifest}
    (hparse : packageParseManifest text = some m) :
    packageUnpacked fs f (some name) =
      (packageInstallLines f.file (packageReadText fs f.manifest name).1
        (textLines text) 0).1 := by
  rw [packageInstallLines_state]
  simp [packageUnpacked, packageInstallWrites, packageManifestText, Option.filter, hname, htext,
    hparse]

/-- An installation fails with the table of packages unchanged, or records the package and
saves the index. -/
theorem packageInstall_cases (fs : FsState) (f : PackageFaults) (t : PackageTable)
    (manifestName : Option CString) :
    packageInstall fs f t manifestName = (packageUnpacked fs f manifestName, t, -1) ∨
      ∃ m source n t', packageRecord t m source n = some t' ∧
        packageInstall fs f t manifestName =
          ((packageSaveIndex (packageUnpacked fs f manifestName) f.index t').1, t', 0) := by
  cases manifestName with
  | none => exact Or.inl rfl
  | some name =>
      cases hname : (name.bytes == []) with
      | true =>
          refine Or.inl ?_
          simp [packageInstall, packageUnpacked, packageInstallWrites, packageManifestText,
            hname, runUntil]
      | false =>
          cases htext : (packageReadText fs f.manifest name).2 with
          | none =>
              refine Or.inl ?_
              simp [packageInstall, packageUnpacked, packageInstallWrites, packageManifestText,
                hname, htext, runUntil]
          | some text =>
              cases hparse : packageParseManifest text with
              | none =>
                  refine Or.inl ?_
                  simp [packageInstall, packageUnpacked, packageInstallWrites,
                    packageManifestText, Option.filter, hname, htext, hparse, runUntil]
              | some m =>
                  rw [packageUnpacked_eq hname htext hparse]
                  simp only [packageInstall, hname, Bool.false_eq_true, if_false, htext, hparse]
                  cases hlines : (packageInstallLines f.file
                      (packageReadText fs f.manifest name).1 (textLines text) 0).2 with
                  | none => exact Or.inl rfl
                  | some n =>
                      cases hrecord : packageRecord t m name n with
                      | none => exact Or.inl (by simp [hrecord])
                      | some t' => exact Or.inr ⟨m, name, n, t', hrecord, by simp [hrecord]⟩

/-- "m" -/
def packageManifestName : CString := .read [109]

def packageNoFaults : PackageFaults := ⟨.none, fun _ => .none, .none⟩

end AcharyaOS.Package
