import AcharyaOS.Foundation.Field
import AcharyaOS.Fs.Code
import Mathlib.Data.List.DropRight

/-!
# The package installer

`kernel/package/package.c`: manifests are text files that unpack into the filesystem, and
the table of installed packages is kept in `packages.db`.
-/

namespace AcharyaOS.Package

open Foundation Disk Fs

abbrev packageNameMax : Nat := 32

abbrev packageVersionMax : Nat := 16

abbrev packageFileMax : Nat := 64

abbrev packageEntryMax : Nat := 12

abbrev packageManifestMax : Nat := 2048

structure PackageEntry where
  name : CField packageNameMax
  version : CField packageVersionMax
  source : CField packageFileMax
  installedFiles : UInt64
  used : Bool
  deriving DecidableEq

def PackageEntry.zero : PackageEntry :=
  ⟨.zero _ (by decide), .zero _ (by decide), .zero _ (by decide), 0, false⟩

abbrev PackageTable := Fin packageEntryMax → PackageEntry

/-- "packages.db" -/
def packageIndexFile : CString :=
  ⟨[112, 97, 99, 107, 97, 103, 101, 115, 46, 100, 98], by decide⟩

/-- The texts "PKG1", "package", "version", "file" and "end". -/
def packageHeaderText : List UInt8 := [80, 75, 71, 49]

def packageNameWord : List UInt8 := [112, 97, 99, 107, 97, 103, 101]

def packageVersionWord : List UInt8 := [118, 101, 114, 115, 105, 111, 110]

def packageFileWord : List UInt8 := [102, 105, 108, 101]

def packageEndText : List UInt8 := [101, 110, 100]

/-! ## Table and text helpers -/

def packageClearEntries : PackageTable := fun _ => .zero

/-- `package_find_index`, `none` standing for -1. -/
def packageFindIndex (t : PackageTable) (name : List UInt8) : Option (Fin packageEntryMax) :=
  firstSlot fun i => (t i).used && strcmp (t i).name.bytes name == 0

def packageFindFreeIndex (t : PackageTable) : Option (Fin packageEntryMax) :=
  firstSlot fun i => !(t i).used

def packageSkipSpaces (s : List UInt8) : List UInt8 := s.dropWhile (· == ' '.toUInt8)

/-- `memcmp` stops at the first difference, at the latest at the end of the line. -/
def packageStartsWithWord (line word : List UInt8) : Bool :=
  word.isPrefixOf line &&
    match line.drop word.length with
    | [] => true
    | c :: _ => c == ' '.toUInt8 || c == '='.toUInt8

/-- The loop of `package_parse_size`. -/
def packageParseSizeFrom : UInt64 → List UInt8 → UInt64
  | value, [] => value
  | value, c :: text =>
      if c ≥ '0'.toUInt8 ∧ c ≤ '9'.toUInt8 then
        packageParseSizeFrom (value * 10 + (c - '0'.toUInt8).toUInt64) text
      else value

def packageParseSize (text : List UInt8) : UInt64 := packageParseSizeFrom 0 text

def packageTrimNewline (s : List UInt8) : List UInt8 :=
  s.rdropWhile fun c => c == '\n'.toUInt8 || c == '\r'.toUInt8

/-! ## The index file -/

/-- The digits of a positive count, last one first, as far as there is room for them. -/
def packageDigits : Nat → UInt64 → List UInt8
  | 0, _ => []
  | room + 1, count =>
      if count > 0 then ('0'.toUInt8 + (count % 10).toUInt8) :: packageDigits room (count / 10)
      else []

/-- The digits `package_save_index` appends; its array has room for 16. -/
def packageCountText (count : UInt64) : List UInt8 :=
  if count == 0 then ['0'.toUInt8] else (packageDigits 16 count).reverse

def packagePieces (e : PackageEntry) : List Piece :=
  [.text e.name.bytes, .char '|'.toUInt8, .text e.version.bytes, .char '|'.toUInt8,
    .text e.source.bytes, .char '|'.toUInt8, .text (packageCountText e.installedFiles),
    .char '\n'.toUInt8]

/-- The text `package_save_index` builds in its buffer. -/
def packageIndexText (t : PackageTable) : List UInt8 :=
  recordsText packageManifestMax
    (((List.finRange packageEntryMax).filter fun i => (t i).used).map fun i =>
      packagePieces (t i))

/-- `package_save_index` on a disk that answers as the script says; its callers do not see
the result of the write. -/
def packageSaveIndex (fs : FsState) (f : Faults) (t : PackageTable) : FsState × Int :=
  fsExec fs (f, .writeFile (some packageIndexFile) (some (packageIndexText t)))

/-- The text a file leaves in a buffer of `PACKAGE_MANIFEST_MAX` bytes, cut to leave room
for the terminator. -/
def packageReadText (fs : FsState) (f : Faults) (name : CString) :
    FsState × Option (List UInt8) :=
  let r := fsReadFile (fs.withFaults f) (some name) packageManifestMax
  (r.1.withFaults .none, r.2.map fun file =>
    cText (file.2.take (if file.1 ≥ packageManifestMax then packageManifestMax - 1
      else file.1)))

/-- One line of the index; `none` when the loop breaks. -/
def packageLoadLine (t : PackageTable) (line : List UInt8) : Option PackageTable :=
  let name := scanTo '|'.toUInt8 line
  match name.2 with
  | [] => some t
  | _ :: version =>
      let version := scanTo '|'.toUInt8 version
      match version.2 with
      | [] => some t
      | _ :: source =>
          let source := scanTo '|'.toUInt8 source
          -- the separator is overwritten, and `count` stays on it
          let count := source.2.set 0 0
          match packageFindFreeIndex t with
          | none => none
          | some idx =>
              some (Function.update t idx {
                name := (t idx).name.copy (.read name.1)
                version := (t idx).version.copy (.read version.1)
                source := (t idx).source.copy (.read source.1)
                installedFiles := packageParseSize count
                used := true })

def packageLoadLines : PackageTable → List (List UInt8) → PackageTable
  | t, [] => t
  | t, line :: lines =>
      let line := packageTrimNewline line
      if line == [] then packageLoadLines t lines
      else match packageLoadLine t line with
        | none => t
        | some t => packageLoadLines t lines

def packageLoadIndex (fs : FsState) (f : Faults) : FsState × PackageTable :=
  let r := packageReadText fs f packageIndexFile
  match r.2 with
  | none => (r.1, packageClearEntries)
  | some text => (r.1, packageLoadLines packageClearEntries (textLines text))

def packageInit (fs : FsState) (f : Faults) : FsState × PackageTable := packageLoadIndex fs f

/-! ## The manifest -/

/-- The locals `package_parse_manifest` fills in. -/
structure PackageManifest where
  sawHeader : Bool
  packageName : CField packageNameMax
  packageVersion : CField packageVersionMax

/-- Both names start with a terminator. -/
def PackageManifest.empty : PackageManifest :=
  ⟨false, .zero _ (by decide), .zero _ (by decide)⟩

/-- The value behind a keyword of seven letters. -/
def packageValue (line : List UInt8) : CString :=
  match packageSkipSpaces (line.drop 7) with
  | [] => .read []
  | c :: value => if c == '='.toUInt8 then .read value else .read (c :: value)

def packageParseLine (m : PackageManifest) (line : List UInt8) : PackageManifest :=
  if line == [] then m
  else if strcmp line packageHeaderText == 0 then { m with sawHeader := true }
  else if packageStartsWithWord line packageNameWord then
    { m with packageName := m.packageName.copy (packageValue line) }
  else if packageStartsWithWord line packageVersionWord then
    { m with packageVersion := m.packageVersion.copy (packageValue line) }
  else m

/-- `if (*text == '\n') text++;` -/
def packageSkipNewline : List UInt8 → List UInt8
  | [] => []
  | c :: text => if c == '\n'.toUInt8 then text else c :: text

theorem length_packageSkipNewline_le (text : List UInt8) :
    (packageSkipNewline text).length ≤ text.length := by
  cases text with
  | nil => exact le_rfl
  | cons c text =>
      rw [packageSkipNewline]
      split
      · exact Nat.le_succ _
      · exact le_rfl

/-- The loop of `package_parse_manifest`. -/
def packageParseLines (m : PackageManifest) (text : List UInt8) : PackageManifest :=
  if _h : text = [] then m
  else
    let r := copyLine packageManifestMax []
      (text.dropWhile fun c => c == '\r'.toUInt8 || c == '\n'.toUInt8)
    packageParseLines (packageParseLine m r.1) (packageSkipNewline r.2)
termination_by text.length
decreasing_by
  exact (length_packageSkipNewline_le _).trans_lt (length_copyLine_lt (by decide) _h)

/-- `none` when the header or the name is missing. -/
def packageParseManifest (manifest : List UInt8) : Option PackageManifest :=
  let m := packageParseLines .empty manifest
  if m.sawHeader && m.packageName.text != [] then some m else none

/-! ## Installing -/

/-- The name and the content on a `file` line; `none` when there is no separator. -/
def packageFilePayload (line : List UInt8) : Option (CString × List UInt8) :=
  let payload := scanTo '|'.toUInt8
    ((line.drop 4).dropWhile fun c => c == ' '.toUInt8 || c == '='.toUInt8)
  match payload.2 with
  | [] => none
  | _ :: content => some (.read payload.1, content)

/-- The second pass over the manifest with `n` files installed, the disk answering the
next write as `faults n` says: the files installed, or `none` for -1. -/
def packageInstallLines (faults : Nat → Faults) (fs : FsState) :
    List (List UInt8) → Nat → FsState × Option Nat
  | [], n => (fs, some n)
  | line :: lines, n =>
      let line := packageTrimNewline line
      if packageStartsWithWord line packageFileWord then
        match packageFilePayload line with
        | none => (fs, none)
        | some (name, content) =>
            let w := fsExec fs (faults n, .writeFile (some name) (some content))
            if w.2 ≠ 0 then (w.1, none)
            -- the line now ends where its separator was
            else if strcmp (scanTo '|'.toUInt8 line).1 packageEndText == 0 then
              (w.1, some (n + 1))
            else packageInstallLines faults w.1 lines (n + 1)
      else if strcmp line packageEndText == 0 then (fs, some n)
      else packageInstallLines faults fs lines n

/-- The entry of an installed package; `none` when the table is full. -/
def packageRecord (t : PackageTable) (m : PackageManifest) (source : CString) (n : Nat) :
    Option PackageTable :=
  let idx := match packageFindIndex t m.packageName.bytes with
    | some idx => some idx
    | none => packageFindFreeIndex t
  idx.map fun idx => Function.update t idx {
    name := (t idx).name.copy (.read m.packageName.bytes)
    version := (t idx).version.copy (.read m.packageVersion.bytes)
    source := (t idx).source.copy source
    installedFiles := UInt64.ofNat n
    used := true }

/-- What the disk answers during one call: to the read of the manifest, to the files
written in turn, and to the write of the index. -/
structure PackageFaults where
  manifest : Faults
  file : Nat → Faults
  index : Faults

def packageInstall (fs : FsState) (f : PackageFaults) (t : PackageTable)
    (manifestName : Option CString) : FsState × PackageTable × Int :=
  match manifestName with
  | none => (fs, t, -1)
  | some manifestName =>
      if manifestName.bytes == [] then (fs, t, -1)
      else
        let r := packageReadText fs f.manifest manifestName
        match r.2 with
        | none => (r.1, t, -1)
        | some text =>
            match packageParseManifest text with
            | none => (r.1, t, -1)
            | some m =>
                let w := packageInstallLines f.file r.1 (textLines text) 0
                match w.2 with
                | none => (w.1, t, -1)
                | some n =>
                    match packageRecord t m manifestName n with
                    | none => (w.1, t, -1)
                    | some t => ((packageSaveIndex w.1 f.index t).1, t, 0)

def packageRemove (fs : FsState) (f : Faults) (t : PackageTable) (packageName : CString) :
    FsState × PackageTable × Int :=
  match packageFindIndex t packageName.bytes with
  | none => (fs, t, -1)
  | some idx =>
      let t := Function.update t idx .zero
      ((packageSaveIndex fs f t).1, t, 0)

end AcharyaOS.Package
