import AcharyaOS.Package.Effect
import AcharyaOS.Package.Metadata

/-!
# What a failed installation leaves behind

An installation that returns -1 has not touched the table of packages.  The filesystem is as the
writes for the `file` lines leave it, made in the order of the lines until one of them fails.
-/

namespace AcharyaOS.Package

open Foundation Foundation.Run Disk Fs

/-- The `file` lines in front of the first one without a separator. -/
def separatedLines (text : List UInt8) : List (List UInt8) :=
  (fileLines (manifestLines text)).takeWhile fun line => decide ('|'.toUInt8 ∈ linePayload line)

/-- The writes for the files of these lines; there are none for a manifest that cannot be read
or that has no header or no name. -/
def manifestWrites (fs : FsState) (f : PackageFaults) : Option CString → List (Faults × FsCall)
  | none => []
  | some name =>
      if name.bytes = [] then []
      else match (packageReadText fs f.manifest name).2 with
        | none => []
        | some text =>
            if Accepted text then packageWrites f.file ((separatedLines text).map lineFile) 0
            else []

theorem packageInstallWrites_eq (fs : FsState) (f : PackageFaults)
    (manifestName : Option CString) :
    packageInstallWrites fs f manifestName = manifestWrites fs f manifestName := by
  unfold packageInstallWrites
  cases manifestName with
  | none => rfl
  | some name =>
    rw [packageManifestText, manifestWrites]
    by_cases hname : name.bytes = []
    · simp only [hname, BEq.rfl, if_true]
    · simp only [beq_eq_false_iff_ne.mpr hname, Bool.false_eq_true, if_false, if_neg hname]
      cases hread : (packageReadText fs f.manifest name).2 with
      | none => rfl
      | some text =>
        obtain ⟨hzero, hlen⟩ := packageReadText_text hread
        by_cases haccepted : Accepted text
        · have hparsed : (packageParseManifest text).isSome = true :=
            Option.isSome_iff_exists.mpr ((accepted_iff hzero hlen).mp haccepted)
          simp only [Option.filter, hparsed, if_true, if_pos haccepted]
          rw [packageFiles_eq (isLine_of_textLines hzero), map_packageTrimNewline hzero,
            separatedLines]
        · have hnone : (packageParseManifest text).isSome = false := by
            rw [Option.isSome_eq_false_iff, Option.isNone_iff_eq_none,
              Option.eq_none_iff_forall_ne_some]
            exact fun m hm => haccepted ((accepted_iff hzero hlen).mpr ⟨m, hm⟩)
          simp only [Option.filter, hnone, Bool.false_eq_true, if_false, if_neg haccepted]

/-- A failed installation leaves the table of packages alone, and the filesystem as the
writes for the manifest's file lines leave it, made in order until one fails. -/
theorem packageInstall_failed {fs : FsState} {f : PackageFaults} {t : PackageTable}
    {manifestName : Option CString} (h : (packageInstall fs f t manifestName).2.2 = -1) :
    (packageInstall fs f t manifestName).2.1 = t ∧
      FsUntouched fs (packageManifestText fs f manifestName).1 ∧
      (packageInstall fs f t manifestName).1 =
        runUntil fsStep packageWritten (packageManifestText fs f manifestName).1
          (manifestWrites fs f manifestName) := by
  have huntouched := fsUntouched_manifestText fs f manifestName
  rw [← packageInstallWrites_eq]
  rcases packageInstall_cases fs f t manifestName with hfailed | ⟨m, source, n, t', -, hdone⟩
  · rw [hfailed]
    exact ⟨rfl, huntouched, rfl⟩
  · rw [hdone] at h
    simp at h

/-- The manifest "PKG1", "package=p", "file=a|x", "file=b", its last line without a
separator. -/
def packageBrokenManifest : List UInt8 :=
  [80, 75, 71, 49, 10, 112, 97, 99, 107, 97, 103, 101, 61, 112, 10, 102, 105, 108, 101, 61, 97,
    124, 120, 10, 102, 105, 108, 101, 61, 98, 10]

def packageBrokenDisk : FsState :=
  fsStep (fsBlankDisk 5000)
    (.none, .writeFile (some packageManifestName) (some packageBrokenManifest))

theorem packageInstall_failed_broken :
    (packageInstall packageBrokenDisk packageNoFaults packageClearEntries
        (some packageManifestName)).2.1 = packageClearEntries ∧
      FsUntouched packageBrokenDisk (packageManifestText packageBrokenDisk packageNoFaults
        (some packageManifestName)).1 ∧
      (packageInstall packageBrokenDisk packageNoFaults packageClearEntries
          (some packageManifestName)).1 =
        runUntil fsStep packageWritten (packageManifestText packageBrokenDisk packageNoFaults
            (some packageManifestName)).1
          (manifestWrites packageBrokenDisk packageNoFaults (some packageManifestName)) :=
  packageInstall_failed (by decide +kernel)

/-- The first file stays behind when the second line is found to be malformed. -/
theorem packageBrokenManifest_leaves_file :
    FsReachable packageBrokenDisk ∧
      (packageInstall packageBrokenDisk packageNoFaults packageClearEntries
        (some packageManifestName)).2.2 = -1 ∧
      fsFindEntry packageBrokenDisk.entries fsNameA = none ∧
      (fsReadFile (packageInstall packageBrokenDisk packageNoFaults packageClearEntries
        (some packageManifestName)).1 (some fsNameA) 512).2 =
          some (1, 120 :: List.replicate 511 0) :=
  ⟨.next (.start (fsFresh_blankDisk (by decide))) trivial, by decide +kernel,
    by decide +kernel, by decide +kernel⟩

end AcharyaOS.Package
