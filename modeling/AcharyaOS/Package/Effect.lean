import AcharyaOS.Foundation.Assoc
import AcharyaOS.Foundation.Slots
import AcharyaOS.Fs.Store
import AcharyaOS.Package.Manifest

/-!
# What a successful installation does

An installation that returns 0 updates the store of files at the files of the manifest, the
last line for a name winning, and gives the package one record.
-/

namespace AcharyaOS.Package

open Foundation Foundation.Run Foundation.Assoc Disk Fs

/-! ## The files -/

theorem fsContents_writes {faults : Nat → Faults} (files : List (CString × List UInt8)) :
    ∀ {fs : FsState} {n : Nat}, FsInv fs → (∀ p ∈ files, p.1.length < fsNameMax) →
      AllWritten fs (packageWrites faults files n) →
      FsInv (runSteps fsStep fs (packageWrites faults files n)) ∧
        fsContents (runSteps fsStep fs (packageWrites faults files n)) =
          files.foldl (fun (m : FileStore) p => Function.update m p.1 (some p.2))
            (fsContents fs) := by
  induction files with
  | nil => exact fun hinv _ _ => ⟨hinv, rfl⟩
  | cons p files ih =>
    intro fs n hinv hshort hok
    obtain ⟨name, content⟩ := p
    rw [packageWrites_cons] at hok ⊢
    obtain ⟨hfirst, hrest⟩ := hok
    have hwrite := fsContents_write hinv (hshort _ (List.mem_cons_self ..)) hfirst
    obtain ⟨hinv', hstore⟩ := ih (hinv.step _) (fun q hq => hshort q (List.mem_cons_of_mem _ hq))
      hrest
    refine ⟨hinv', ?_⟩
    rw [List.foldl_cons, ← hwrite]
    exact hstore

theorem packageReadText_of_stored {fs : FsState} (hinv : FsInv fs) {f : Faults} {name : CString}
    {text read : List UInt8} (hdata : fsContents fs name = some text) (hzero : 0 ∉ text)
    (hlen : text.length < packageManifestMax)
    (hread : (packageReadText fs f name).2 = some read) :
    (packageReadText fs f name).1 = fs ∧ read = text := by
  have hstate : (packageReadText fs f name).1 = fs.withFaults .none := fsReadFile_fst fs f _ _
  rw [FsState.withFaults_self hinv.faults_eq] at hstate
  refine ⟨hstate, ?_⟩
  have hmax : packageManifestMax = 2048 := rfl
  unfold packageReadText at hread
  by_cases hanswers : text.length ≤ packageManifestMax ∧ FsAnswers fs f name
  · have hsize : text.length ≤ 255 * fsBlockSize := by
      show _ ≤ 255 * 512
      omega
    obtain ⟨bytes, hbytes, htake⟩ := fsReadFile_of_answers hinv hdata hanswers.1 hsize hanswers.2
    have hshort : ¬ text.length ≥ packageManifestMax := by omega
    simp only [hbytes, Option.map_some, if_neg hshort, htake, cText_of_zero_notMem hzero,
      Option.some.injEq] at hread
    exact hread.symm
  · have hnone := fsReadFile_of_no_answer hinv hdata (by decide) hanswers
    simp only [hnone, Option.map_none] at hread
    exact absurd hread (by simp)

/-! ## The record -/

/-- The package in a slot, if it is used. -/
def packageNames (t : PackageTable) (i : Fin packageEntryMax) : Option (List UInt8) :=
  if (t i).used then some (t i).name.text else none

theorem packageNames_eq_some_iff {t : PackageTable} {i : Fin packageEntryMax} {k : List UInt8} :
    packageNames t i = some k ↔ (t i).used = true ∧ (t i).name.text = k := by
  unfold packageNames
  by_cases hused : (t i).used = true
  · simp [hused]
  · simp [hused]

theorem packageFindIndex_eq (t : PackageTable) (name : List UInt8) :
    packageFindIndex t name = slotOf (packageNames t) (cText name) := by
  unfold packageFindIndex slotOf
  congr 1
  ext i : 1
  rw [Bool.eq_iff_iff, Bool.and_eq_true, beq_iff_eq, strcmp_eq_zero_iff, decide_eq_true_iff,
    packageNames_eq_some_iff]
  rfl

/-- The entry of a package in its slot. -/
structure PackageEntry.Records (e : PackageEntry) (m : PackageManifest) (source : CString)
    (n : Nat) : Prop where
  used : e.used = true
  name : e.name.text = m.packageName.text
  version : e.version.text = m.packageVersion.text
  source : e.source.text = source.bytes.take (packageFileMax - 1)
  files : e.installedFiles = UInt64.ofNat n

/-- A name that is in one slot at most comes to stand in exactly one. -/
theorem packageRecord_spec {t t' : PackageTable} (ht : Distinct (packageNames t))
    {m : PackageManifest} {source : CString} {n : Nat}
    (h : packageRecord t m source n = some t') :
    ∃ idx, (t' idx).Records m source n ∧
      (∀ i, packageNames t' i = some m.packageName.text ↔ i = idx) ∧
      ∀ i, i ≠ idx → t' i = t i := by
  -- the slot is the one of the package, or a free one while there is none of that name
  have hslot : ∃ idx, (∀ i, i ≠ idx → packageNames t i ≠ some m.packageName.text) ∧
      t' = Function.update t idx {
        name := (t idx).name.copy (.read m.packageName.bytes)
        version := (t idx).version.copy (.read m.packageVersion.bytes)
        source := (t idx).source.copy source
        installedFiles := UInt64.ofNat n
        used := true } := by
    unfold packageRecord at h
    cases hfind : packageFindIndex t m.packageName.bytes with
    | some idx =>
      simp only [hfind, Option.map_some, Option.some.injEq] at h
      rw [packageFindIndex_eq] at hfind
      refine ⟨idx, fun i hi hname => hi ?_, h.symm⟩
      exact ht i idx _ hname (slotOf_some hfind)
    | none =>
      simp only [hfind] at h
      obtain ⟨idx, -, hidx⟩ := Option.map_eq_some_iff.mp h
      rw [packageFindIndex_eq, slotOf_eq_none_iff] at hfind
      exact ⟨idx, fun i _ => hfind i, hidx.symm⟩
  obtain ⟨idx, hothers, rfl⟩ := hslot
  have hname : CString.length (.read m.packageName.bytes) < packageNameMax :=
    CField.length_text_lt m.packageName
  have hversion : CString.length (.read m.packageVersion.bytes) < packageVersionMax :=
    CField.length_text_lt m.packageVersion
  have hrecords : PackageEntry.Records ⟨(t idx).name.copy (.read m.packageName.bytes),
      (t idx).version.copy (.read m.packageVersion.bytes), (t idx).source.copy source,
      UInt64.ofNat n, true⟩ m source n :=
    ⟨rfl, CField.text_copy_of_lt _ hname, CField.text_copy_of_lt _ hversion, CField.text_copy ..,
      rfl⟩
  refine ⟨idx, ?_, fun i => ?_, fun i hi => Function.update_of_ne hi _ _⟩
  · rw [Function.update_self]
    exact hrecords
  · by_cases hi : i = idx
    · rw [packageNames_eq_some_iff, hi, Function.update_self]
      exact iff_of_true ⟨hrecords.used, hrecords.name⟩ rfl
    · have hother := hothers i hi
      rw [ne_eq, packageNames_eq_some_iff] at hother
      rw [packageNames_eq_some_iff, Function.update_of_ne hi]
      exact iff_of_false hother hi

/-! ## The installation -/

theorem length_manifestFiles_le (text : List UInt8) :
    (manifestFiles text).length ≤ text.length := by
  unfold manifestFiles fileLines manifestLines
  rw [List.length_map]
  refine Nat.le_trans (List.length_filter_le _ _) ?_
  refine Nat.le_trans (List.takeWhile_prefix _).length_le ?_
  rw [List.length_map]
  exact length_textLines_le text

theorem map_packageTrimNewline {text : List UInt8} (h : 0 ∉ text) :
    (textLines text).map packageTrimNewline = manifestLines text :=
  List.map_congr_left fun line hline => packageTrimNewline_eq (isLine_of_textLines h line hline)

/-- If the installation returns 0 and the index is written as well, each file but the index is
what the last line for it says, or what it was; one record is that of the package, and the
others are what they were. -/
theorem packageInstall_effect {fs fs' : FsState} (hfs : FsReachable fs) {f : PackageFaults}
    {t t' : PackageTable} (ht : Distinct (packageNames t)) {name : CString} {text : List UInt8}
    (hdata : fsContents fs name = some text) (hzero : 0 ∉ text)
    (hlen : text.length < packageManifestMax)
    (hshort : ∀ p ∈ manifestFiles text, p.1.length < fsNameMax)
    (hinstall : packageInstall fs f t (some name) = (fs', t', 0))
    (hindex : (packageSaveIndex (packageUnpacked fs f (some name)) f.index t').2 = 0) :
    (∀ b, b ≠ packageIndexFile →
        fsContents fs' b = (lastValue (manifestFiles text) b).or (fsContents fs b)) ∧
      ∃ m idx, packageParseManifest text = some m ∧
        (t' idx).Records m name (manifestFiles text).length ∧
        (t' idx).installedFiles.toNat = (manifestFiles text).length ∧
        (∀ i, packageNames t' i = some m.packageName.text ↔ i = idx) ∧
        ∀ i, i ≠ idx → t' i = t i := by
  have hok : (packageInstall fs f t (some name)).2.2 = 0 := by rw [hinstall]
  obtain ⟨hname, read, hread⟩ := packageReadText_of_installed hok
  obtain ⟨hstate, rfl⟩ := packageReadText_of_stored hfs.inv hdata hzero hlen hread
  rw [packageInstall_of_text hname hread, hstate] at hinstall hok
  obtain ⟨m, n, t₁, hparse, hlines, hrecord, hdone⟩ := packageInstallText_zero hok
  have hunpacked := packageUnpacked_eq (beq_eq_false_iff_ne.mpr hname) hread hparse
  rw [hstate] at hunpacked
  rw [hunpacked] at hindex
  rw [hinstall, Prod.mk.injEq, Prod.mk.injEq] at hdone
  obtain ⟨hfs', rfl, -⟩ := hdone
  obtain ⟨hpass, -, hall, hcount⟩ := packageInstallLines_some (isLine_of_textLines hzero) hlines
  rw [linesWrites, map_packageTrimNewline hzero, ← manifestFiles] at hpass hall
  change n = 0 + (fileLines ((textLines read).map packageTrimNewline)).length at hcount
  rw [map_packageTrimNewline hzero, Nat.zero_add] at hcount
  have hfiles : n = (manifestFiles read).length := by
    rw [hcount, manifestFiles, List.length_map]
  constructor
  · intro b hb
    obtain ⟨hinv, hstore⟩ := fsContents_writes _ hfs.inv hshort hall
    rw [← hpass] at hinv hstore
    have hsave := fsContents_write hinv (by decide) hindex
    rw [hfs']
    change fsContents (fsStep _ _) b = _
    rw [hsave, Function.update_of_ne hb, hstore]
    exact foldl_update_apply _ _ b
  · obtain ⟨idx, hrecords, hunique, hothers⟩ := packageRecord_spec ht hrecord
    have hmax : packageManifestMax = 2048 := rfl
    have hsmall := length_manifestFiles_le read
    refine ⟨m, idx, hparse, hfiles ▸ hrecords, ?_, hunique, hothers⟩
    rw [hrecords.files, UInt64.toNat_ofNat', hfiles]
    exact Nat.mod_eq_of_lt (by omega)

/-- The manifest "PKG1", "package=p", "file=a|x", "file=a|y", "end", the second `file` line with
a carriage return at its end. -/
def packageTwiceManifest : List UInt8 :=
  [80, 75, 71, 49, 10, 112, 97, 99, 107, 97, 103, 101, 61, 112, 10, 102, 105, 108, 101, 61, 97,
    124, 120, 10, 102, 105, 108, 101, 61, 97, 124, 121, 13, 10, 101, 110, 100, 10]

def packageTwiceDisk : FsState :=
  fsStep (fsBlankDisk 5000)
    (.none, .writeFile (some packageManifestName) (some packageTwiceManifest))

theorem packageInstall_effect_twice :
    fsContents (packageInstall packageTwiceDisk packageNoFaults packageClearEntries
      (some packageManifestName)).1 fsNameA = some [121] := by
  have hreach : FsReachable packageTwiceDisk :=
    .next (.start (fsFresh_blankDisk (by decide))) trivial
  have hzero : (packageInstall packageTwiceDisk packageNoFaults packageClearEntries
      (some packageManifestName)).2.2 = 0 := by decide +kernel
  have heffect := @packageInstall_effect packageTwiceDisk _ hreach packageNoFaults
    packageClearEntries _ (by decide +kernel) packageManifestName packageTwiceManifest
    (by decide +kernel) (by decide) (by decide) (by decide +kernel)
    (Prod.ext rfl (Prod.ext rfl hzero)) (by decide +kernel)
  rw [heffect.1 fsNameA (by decide)]
  decide +kernel

end AcharyaOS.Package
