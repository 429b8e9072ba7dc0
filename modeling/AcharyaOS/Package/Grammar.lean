import AcharyaOS.Fs.Failure
import AcharyaOS.Package.Effect
import AcharyaOS.Package.Metadata
import AcharyaOS.Package.Slots

/-!
# Whether the two passes read one grammar

A manifest starts with its header and ends with `end`.  The second pass stops at `end`; the
first one goes on behind it, and neither asks where the header stands or whether there is an
`end`.
-/

namespace AcharyaOS.Package

open Foundation Foundation.Run Disk Fs

/-! ## The grammar -/

/-- The first line that is not blank is the header, and some line is `end`. -/
def Framed (text : List UInt8) : Prop :=
  (manifestLines text).find? (· != []) = some packageHeaderText ∧
    packageEndText ∈ manifestLines text

instance (text : List UInt8) : Decidable (Framed text) := inferInstanceAs (Decidable (_ ∧ _))

/-- The last line is `end`, and its newline is there. -/
def EndsInEnd (m : List UInt8) : Prop :=
  m.getLast? = some '\n'.toUInt8 ∧ (manifestLines m).getLast? = some packageEndText

instance (m : List UInt8) : Decidable (EndsInEnd m) := inferInstanceAs (Decidable (_ ∧ _))

def InstallsOnlyFramed (text : List UInt8) : Prop :=
  ∀ fs f t source, FsReachable fs → (packageInstallText fs f t text source).2.2 = 0 → Framed text

/-- Installing the one text leaves the filesystem and the table that installing the other
leaves. -/
def SameInstall (m text : List UInt8) : Prop :=
  ∀ fs f t source, FsReachable fs →
    (packageInstallText fs f t text source).1 = (packageInstallText fs f t m source).1 ∧
      (packageInstallText fs f t text source).2.1 = (packageInstallText fs f t m source).2.1

/-- Only framed manifests install, and nothing behind a line `end` makes a difference. -/
def OneGrammar (text : List UInt8) : Prop :=
  InstallsOnlyFramed text ∧
    ∀ m rest, text = m ++ rest → EndsInEnd m → SameInstall m text

/-! ## When it holds -/

/-- Every `file` line has its separator, and the files need no more slots than there are. -/
def Unpacks (text : List UInt8) : Prop :=
  Separated (manifestLines text) ∧ (takeSlots [] (manifestFiles text)).length ≤ fsFilesMax

/-- The first `file` line has no separator, so that nothing is ever written. -/
def GivesUp (text : List UInt8) : Prop :=
  ∃ line, (fileLines (manifestLines text)).head? = some line ∧ '|'.toUInt8 ∉ linePayload line

/-- What stands behind `m` changes neither the name nor the version where these are recorded,
and the first pass judges both texts alike where this matters. -/
def SameMetadata (m text : List UInt8) : Prop :=
  (Accepted m → Accepted text → Unpacks m →
      manifestName m = manifestName text ∧ manifestVersion m = manifestVersion text) ∧
    ((Accepted m ↔ Accepted text) ∨ GivesUp m)

/-! ## The second pass -/

section Pass

variable {faults : Nat → Faults} {lines rest : List (List UInt8)}

/-- Nothing behind a line `end` is read. -/
theorem packageInstallLines_append (hlines : ∀ line ∈ lines, IsLine line)
    (hend : packageEndText ∈ lines.map packageTrimNewline) : ∀ {fs n},
      packageInstallLines faults fs (lines ++ rest) n = packageInstallLines faults fs lines n := by
  induction lines with
  | nil => exact absurd hend (by simp)
  | cons line lines ih =>
    intro fs n
    have hline := hlines line (List.mem_cons_self ..)
    rw [List.map_cons, List.mem_cons] at hend
    have hrest := fun h => @ih (fun l hl => hlines l (List.mem_cons_of_mem _ hl)) h
    rw [List.cons_append, packageInstallLines, packageInstallLines]
    by_cases hfile : packageStartsWithWord (packageTrimNewline line) packageFileWord = true
    · have htail : packageEndText ∈ lines.map packageTrimNewline :=
        hend.resolve_left fun heq => bne_iff_ne.mp (ne_end_of_file hfile) heq.symm
      simp only [if_pos hfile, hrest htail]
    · simp only [if_neg hfile]
      by_cases hcmp : (strcmp (packageTrimNewline line) packageEndText == 0) = true
      · rw [if_pos hcmp, if_pos hcmp]
      · have htail : packageEndText ∈ lines.map packageTrimNewline :=
          hend.resolve_left fun heq => hcmp ((strcmp_end_iff hline).mpr heq.symm)
        rw [if_neg hcmp, if_neg hcmp, hrest htail]

end Pass

variable {text m : List UInt8}

theorem packageInstallLines_of_givesUp (hzero : 0 ∉ text) (h : GivesUp text)
    (faults : Nat → Faults) (fs : FsState) (n : Nat) :
    packageInstallLines faults fs (textLines text) n = (fs, none) := by
  obtain ⟨line, hhead, hsep⟩ := h
  obtain ⟨lines, hlines⟩ := List.head?_eq_some_iff.mp hhead
  have hfiles : packageFiles (textLines text) = [] := by
    rw [packageFiles_eq (isLine_of_textLines hzero), map_packageTrimNewline hzero, hlines,
      List.takeWhile_cons, if_neg (by simp [hsep]), List.map_nil]
  refine Prod.ext ?_ ?_
  · rw [packageInstallLines_state, hfiles]
    rfl
  · cases hpass : (packageInstallLines faults fs (textLines text) n).2 with
    | none => rfl
    | some n' =>
      obtain ⟨-, hseps, -⟩ := packageInstallLines_some (isLine_of_textLines hzero) hpass
      rw [map_packageTrimNewline hzero] at hseps
      refine absurd (hseps line ?_) hsep
      rw [hlines]
      exact List.mem_cons_self ..

theorem packagePass_iff (hzero : 0 ∉ text) (faults : Nat → Faults) (fs : FsState) :
    (∃ n, (packageInstallLines faults fs (textLines text) 0).2 = some n) ↔
      Separated (manifestLines text) ∧
        AllWritten fs (packageWrites faults (manifestFiles text) 0) := by
  have hlines := isLine_of_textLines hzero
  unfold manifestFiles
  rw [← map_packageTrimNewline hzero]
  constructor
  · rintro ⟨n, hn⟩
    obtain ⟨hseps, hall, -⟩ := (packageInstallLines_snd_iff hlines).mp hn
    exact ⟨hseps, hall⟩
  · rintro ⟨hseps, hall⟩
    exact ⟨_, (packageInstallLines_snd_iff hlines).mpr ⟨hseps, hall, rfl⟩⟩

theorem length_lineFile_le {line : List UInt8} (h : line ∈ fileLines (manifestLines text)) :
    (lineFile line).2.length ≤ text.length := by
  have hline := (List.takeWhile_prefix _).subset (List.mem_of_mem_filter h)
  obtain ⟨whole, hwhole, rfl⟩ := List.mem_map.mp hline
  have htrim : (whole.rdropWhile (· == '\r'.toUInt8)).length ≤ whole.length :=
    (List.rdropWhile_prefix _ _).length_le
  have htext := (isInfix_of_mem_textLines text whole hwhole).length_le
  generalize whole.rdropWhile (· == '\r'.toUInt8) = line at htrim
  have hpayload : (linePayload line).length ≤ line.length - 4 := by
    refine (List.length_dropWhile_le _ _).trans ?_
    rw [List.length_drop]
  have hcontent : (lineFile line).2.length ≤ (linePayload line).length - 1 := by
    change (((linePayload line).dropWhile (· != '|'.toUInt8)).drop 1).length ≤ _
    rw [List.length_drop]
    exact Nat.sub_le_sub_right (List.length_dropWhile_le _ _) 1
  omega

theorem unpacks_iff (hzero : 0 ∉ text) (hlen : text.length < packageManifestMax) :
    Unpacks text ↔ ∃ fs faults n, FsReachable fs ∧
      (packageInstallLines faults fs (textLines text) 0).2 = some n := by
  have hcount := (length_manifestFiles_le text).trans_lt hlen
  have hdata : ∀ p ∈ manifestFiles text, p.2.length < packageManifestMax := by
    intro p hp
    obtain ⟨line, hline, rfl⟩ := List.mem_map.mp hp
    exact (length_lineFile_le hline).trans_lt hlen
  unfold Unpacks
  rw [← exists_allWritten_iff hcount hdata]
  constructor
  · rintro ⟨hseps, fs, faults, hfs, hall⟩
    obtain ⟨n, hn⟩ := (packagePass_iff hzero faults fs).mpr ⟨hseps, hall⟩
    exact ⟨fs, faults, n, hfs, hn⟩
  · rintro ⟨fs, faults, n, hfs, hn⟩
    obtain ⟨hseps, hall⟩ := (packagePass_iff hzero faults fs).mp ⟨n, hn⟩
    exact ⟨hseps, fs, faults, hfs, hall⟩

/-! ## An empty filesystem -/

/-- Some file is stored. -/
def HasFile (fs : FsState) : Prop := ∃ i, (fs.entries i).isUsed = true

theorem hasFile_write {fs : FsState} {name : CString} {data : List UInt8}
    (h : fsPlan fs (.writeFile (some name) (some data)) ≠ none ∨ HasFile fs) (f : Faults) :
    HasFile (fsStep fs (f, .writeFile (some name) (some data))) := by
  rcases fsExec_cases fs f (c := .writeFile (some name) (some data)) (by simp) with
    ⟨hnone, heq⟩ | ⟨p, ws, hsome, hfollows⟩
  · obtain ⟨i, hi⟩ := h.resolve_left (not_not.mpr hnone)
    refine ⟨i, ?_⟩
    rw [fsStep, heq]
    exact hi
  · rcases fsPlan_cases hsome with
      ⟨name', data', idx, claimed, -, -, -, hclaim, rfl⟩ | ⟨name', idx, hcall, -⟩
    · refine ⟨idx, ?_⟩
      rw [fsStep, hfollows.entries_eq, fsWritePlan_entries_self]
      exact (fsClaimEntry_spec hclaim).2.1
    · exact absurd hcall (by simp)

theorem fsPlan_blankDisk (name : CString) {data : List UInt8} (h : data.length ≤ fsMaxFileBytes) :
    fsPlan (fsBlankDisk 5000) (.writeFile (some name) (some data)) ≠ none := by
  rw [ne_eq, fsPlan_eq_none_iff _ (by simp)]
  rintro (hmounted | hsize | ⟨-, hfull⟩)
  · exact absurd hmounted (by decide +kernel)
  · exact absurd h (Nat.not_le.mpr hsize)
  · rw [fsBlankDisk_entries] at hfull
    exact absurd hfull (by decide)

theorem not_hasFile_blankDisk : ¬ HasFile (fsBlankDisk 5000) := by
  rintro ⟨i, hi⟩
  rw [fsBlankDisk_entries] at hi
  cases hi

theorem hasFile_packageInstallLines (hzero : 0 ∉ text) (hlen : text.length < packageManifestMax)
    {line : List UInt8} {lines : List (List UInt8)}
    (hlines : fileLines (manifestLines text) = line :: lines)
    (hsep : '|'.toUInt8 ∈ linePayload line) (faults : Nat → Faults) :
    HasFile (packageInstallLines faults (fsBlankDisk 5000) (textLines text) 0).1 := by
  have hfiles : packageFiles (textLines text) = lineFile line ::
      (lines.takeWhile fun line => decide ('|'.toUInt8 ∈ linePayload line)).map lineFile := by
    rw [packageFiles_eq (isLine_of_textLines hzero), map_packageTrimNewline hzero, hlines,
      List.takeWhile_cons, if_pos (decide_eq_true hsep), List.map_cons]
  have hdata : (lineFile line).2.length ≤ fsMaxFileBytes := by
    have hmem : line ∈ fileLines (manifestLines text) := by
      rw [hlines]
      exact List.mem_cons_self ..
    have hsize := length_lineFile_le hmem
    have hmax : packageManifestMax = 2048 := rfl
    have hbytes : fsMaxFileBytes = 131072 := rfl
    omega
  generalize lineFile line = file at hfiles hdata
  obtain ⟨name, data⟩ := file
  have hfirst := hasFile_write (.inl (fsPlan_blankDisk name hdata)) (faults 0)
  rw [packageInstallLines_state, hfiles, packageWrites_cons, runUntil]
  split
  · refine runUntil_invariant (P := HasFile)
      (C := fun c => ∃ f name data, c = (f, .writeFile (some name) (some data))) ?_ _ hfirst ?_
    · rintro fs c hfs ⟨f, name, data, rfl⟩
      exact hasFile_write (.inr hfs) f
    · intro c hc
      obtain ⟨p, -, rfl⟩ := List.mem_map.mp hc
      exact ⟨_, _, _, rfl⟩
  · exact hfirst

/-! ## The record -/

theorem packageRecord_congr {a b : PackageManifest} (hname : a.packageName.text = b.packageName.text)
    (hversion : a.packageVersion.text = b.packageVersion.text) (t : PackageTable)
    (source : CString) (n : Nat) : packageRecord t a source n = packageRecord t b source n := by
  have hreadName : CString.read a.packageName.bytes = CString.read b.packageName.bytes := by
    rw [CString.read, CString.read, CString.mk.injEq]
    exact hname
  have hreadVersion : CString.read a.packageVersion.bytes = CString.read b.packageVersion.bytes := by
    rw [CString.read, CString.read, CString.mk.injEq]
    exact hversion
  have hfind : packageFindIndex t a.packageName.bytes = packageFindIndex t b.packageName.bytes := by
    rw [packageFindIndex_eq, packageFindIndex_eq]
    exact congrArg _ hname
  unfold packageRecord
  rw [hreadName, hreadVersion, hfind]

theorem packageRecord_clear (m : PackageManifest) (source : CString) (n : Nat) :
    ∃ t, packageRecord packageClearEntries m source n = some t ∧ (t 0).Records m source n := by
  have hclear : ∀ i, packageNames packageClearEntries i = none := fun _ => rfl
  have hdistinct : Distinct (packageNames packageClearEntries) := by
    intro i j k hi
    exact absurd (hclear i ▸ hi) (by simp)
  have hfind : packageFindIndex packageClearEntries m.packageName.bytes = none := by
    rw [packageFindIndex_eq, slotOf_eq_none_iff]
    intro i hi
    exact absurd (hclear i ▸ hi) (by simp)
  have hrecord : packageRecord packageClearEntries m source n = some (Function.update
      packageClearEntries 0 {
        name := (packageClearEntries 0).name.copy (.read m.packageName.bytes)
        version := (packageClearEntries 0).version.copy (.read m.packageVersion.bytes)
        source := (packageClearEntries 0).source.copy source
        installedFiles := UInt64.ofNat n
        used := true }) := by
    unfold packageRecord
    rw [hfind]
    rfl
  obtain ⟨idx, hrecords, -, hothers⟩ := packageRecord_spec hdistinct hrecord
  refine ⟨_, hrecord, ?_⟩
  by_cases hidx : (0 : Fin packageEntryMax) = idx
  · rw [hidx] at hrecords ⊢
    exact hrecords
  · have hsame := congrArg PackageEntry.used (hothers 0 hidx)
    rw [Function.update_self] at hsame
    cases hsame

/-! ## Installing a text and a beginning of it -/

/-- A pass that does not give up leaves a file or a record behind, on an empty disk and with an
empty table. -/
theorem packageFinish_changes (hzero : 0 ∉ m) (hlen : m.length < packageManifestMax)
    (hgives : ¬ GivesUp m) (f : PackageFaults) (a : PackageManifest) (source : CString) :
    ¬ ((packageFinish f packageClearEntries a source
          (packageInstallLines f.file (fsBlankDisk 5000) (textLines m) 0)).1 = fsBlankDisk 5000 ∧
        (packageFinish f packageClearEntries a source
          (packageInstallLines f.file (fsBlankDisk 5000) (textLines m) 0)).2.1 =
            packageClearEntries) := by
  rintro ⟨hstate, htable⟩
  cases hpass : (packageInstallLines f.file (fsBlankDisk 5000) (textLines m) 0).2 with
  | some n =>
    obtain ⟨t, hrecord, hrecords⟩ := packageRecord_clear a source n
    simp only [packageFinish, hpass, hrecord] at htable
    have hused := hrecords.used
    rw [htable] at hused
    exact absurd hused (by decide)
  | none =>
    simp only [packageFinish, hpass] at hstate
    cases hlines : fileLines (manifestLines m) with
    | nil =>
      -- without `file` lines the pass gets to its end
      have hend := (packagePass_iff hzero f.file (fsBlankDisk 5000)).mpr
      unfold Separated manifestFiles at hend
      rw [hlines] at hend
      obtain ⟨n, hn⟩ := hend ⟨List.forall_mem_nil _, trivial⟩
      rw [hn] at hpass
      cases hpass
    | cons line lines =>
      by_cases hsep : '|'.toUInt8 ∈ linePayload line
      · have hfile := hasFile_packageInstallLines hzero hlen hlines hsep f.file
        rw [hstate] at hfile
        exact not_hasFile_blankDisk hfile
      · exact hgives ⟨line, by rw [hlines, List.head?_cons], hsep⟩

section Beginning

variable {rest : List UInt8}

theorem zero_notMem_beginning (hzero : 0 ∉ m ++ rest) : 0 ∉ m := fun h =>
  hzero (List.mem_append_left _ h)

theorem length_beginning_lt (hlen : (m ++ rest).length < packageManifestMax) :
    m.length < packageManifestMax := by
  rw [List.length_append] at hlen
  omega

variable (hzero : 0 ∉ m ++ rest) (hlen : (m ++ rest).length < packageManifestMax)
  (hend : EndsInEnd m)

include hzero hend

theorem packageInstallLines_endsInEnd (faults : Nat → Faults) (fs : FsState) (n : Nat) :
    packageInstallLines faults fs (textLines (m ++ rest)) n =
      packageInstallLines faults fs (textLines m) n := by
  have hzeroM := zero_notMem_beginning hzero
  obtain ⟨hnewline, hlast⟩ := hend
  obtain ⟨a, rfl⟩ := List.getLast?_eq_some_iff.mp hnewline
  rw [List.append_assoc, List.singleton_append, textLines_append_newline]
  refine packageInstallLines_append (isLine_of_textLines hzeroM) ?_
  rw [map_packageTrimNewline hzeroM]
  exact List.mem_of_getLast? hlast

include hlen

/-- Fields that differ show in the table, on a filesystem that takes the files. -/
theorem SameInstall.fields_eq (h : SameInstall m (m ++ rest)) (hacceptM : Accepted m)
    (haccept : Accepted (m ++ rest)) (hunpacks : Unpacks m) :
    manifestName m = manifestName (m ++ rest) ∧ manifestVersion m = manifestVersion (m ++ rest) := by
  have hzeroM := zero_notMem_beginning hzero
  have hlenM := length_beginning_lt hlen
  obtain ⟨a, ha⟩ := (accepted_iff hzeroM hlenM).mp hacceptM
  obtain ⟨b, hb⟩ := (accepted_iff hzero hlen).mp haccept
  obtain ⟨fs, faults, n, hfs, hn⟩ := (unpacks_iff hzeroM hlenM).mp hunpacks
  have htable := (h fs ⟨.none, faults, .none⟩ packageClearEntries packageManifestName hfs).2
  obtain ⟨tA, hrecordA, hA⟩ := packageRecord_clear a packageManifestName n
  obtain ⟨tB, hrecordB, hB⟩ := packageRecord_clear b packageManifestName n
  simp only [packageInstallText, ha, hb, packageFinish, packageInstallLines_endsInEnd hzero hend,
    hn, hrecordA, hrecordB] at htable
  rw [htable] at hB
  obtain ⟨hnameA, hversionA⟩ := packageParseManifest_fields hlenM ha
  obtain ⟨hnameB, hversionB⟩ := packageParseManifest_fields hlen hb
  constructor
  · rw [← hnameA, ← hnameB, ← hA.name, ← hB.name]
  · rw [← hversionA, ← hversionB, ← hA.version, ← hB.version]

/-- If only one of the texts is accepted, the pass over it shows on the blank disk. -/
theorem SameInstall.accepted_iff_or (h : SameInstall m (m ++ rest)) :
    (Accepted m ↔ Accepted (m ++ rest)) ∨ GivesUp m := by
  have hzeroM := zero_notMem_beginning hzero
  have hlenM := length_beginning_lt hlen
  rw [or_iff_not_imp_right]
  intro hgives
  have hblank := h (fsBlankDisk 5000) packageNoFaults packageClearEntries packageManifestName
    (.start (fsFresh_blankDisk (by decide)))
  have hchanges := fun a => packageFinish_changes hzeroM hlenM hgives packageNoFaults a
    packageManifestName
  rw [accepted_iff hzeroM hlenM, accepted_iff hzero hlen]
  cases ha : packageParseManifest m with
  | none =>
    cases hb : packageParseManifest (m ++ rest) with
    | none => exact Iff.rfl
    | some b =>
      simp only [packageInstallText, ha, hb, packageInstallLines_endsInEnd hzero hend] at hblank
      exact absurd hblank (hchanges b)
  | some a =>
    cases hb : packageParseManifest (m ++ rest) with
    | none =>
      simp only [packageInstallText, ha, hb] at hblank
      exact absurd ⟨hblank.1.symm, hblank.2.symm⟩ (hchanges a)
    | some b => exact iff_of_true ⟨a, rfl⟩ ⟨b, rfl⟩

theorem SameMetadata.sameInstall (h : SameMetadata m (m ++ rest)) :
    SameInstall m (m ++ rest) := by
  have hzeroM := zero_notMem_beginning hzero
  have hlenM := length_beginning_lt hlen
  obtain ⟨hfields, haccepts⟩ := h
  rw [accepted_iff hzeroM hlenM, accepted_iff hzero hlen] at hfields haccepts
  intro fs f t source hfs
  simp only [packageInstallText, packageInstallLines_endsInEnd hzero hend]
  cases ha : packageParseManifest m with
  | none =>
    cases hb : packageParseManifest (m ++ rest) with
    | none => exact ⟨rfl, rfl⟩
    | some b =>
      have hgives := haccepts.resolve_left fun heq => by simp [ha, hb] at heq
      simp only [packageInstallLines_of_givesUp hzeroM hgives, packageFinish, and_self]
  | some a =>
    cases hb : packageParseManifest (m ++ rest) with
    | none =>
      have hgives := haccepts.resolve_left fun heq => by simp [ha, hb] at heq
      simp only [packageInstallLines_of_givesUp hzeroM hgives, packageFinish, and_self]
    | some b =>
      simp only [packageFinish]
      cases hn : (packageInstallLines f.file fs (textLines m) 0).2 with
      | none => exact ⟨rfl, rfl⟩
      | some n =>
        -- the files can be written, so the fields are the same
        obtain ⟨hname, hversion⟩ := hfields ⟨a, ha⟩ ⟨b, hb⟩
          ((unpacks_iff hzeroM hlenM).mpr ⟨fs, f.file, n, hfs, hn⟩)
        obtain ⟨hnameA, hversionA⟩ := packageParseManifest_fields hlenM ha
        obtain ⟨hnameB, hversionB⟩ := packageParseManifest_fields hlen hb
        have hrecord := packageRecord_congr (a := a) (b := b) (by rw [hnameA, hnameB, hname])
          (by rw [hversionA, hversionB, hversion]) t source n
        simp only [hrecord, and_self]

end Beginning

/-! ## One grammar -/

/-- A manifest that can be installed has been accepted, and its files have slots. -/
theorem installsOnlyFramed_iff (hzero : 0 ∉ text) (hlen : text.length < packageManifestMax) :
    InstallsOnlyFramed text ↔ (Accepted text → Unpacks text → Framed text) := by
  rw [accepted_iff hzero hlen, unpacks_iff hzero hlen]
  constructor
  · rintro h ⟨m, hm⟩ ⟨fs, faults, n, hfs, hn⟩
    obtain ⟨t, hrecord, -⟩ := packageRecord_clear m packageManifestName n
    refine h fs ⟨.none, faults, .none⟩ packageClearEntries packageManifestName hfs ?_
    simp only [packageInstallText, hm, packageFinish, hn, hrecord]
  · intro h fs f t source hfs hinstall
    obtain ⟨m, n, t', hm, hn, -⟩ := packageInstallText_zero hinstall
    exact h ⟨m, hm⟩ ⟨fs, f.file, n, hfs, hn⟩

/-- The two passes read one grammar exactly if the text installs nowhere or is framed, and no
line behind an `end` changes what is recorded or whether the manifest is accepted. -/
theorem oneGrammar_iff (hzero : 0 ∉ text) (hlen : text.length < packageManifestMax) :
    OneGrammar text ↔ (Accepted text → Unpacks text → Framed text) ∧
      ∀ m rest, text = m ++ rest → EndsInEnd m → SameMetadata m text := by
  unfold OneGrammar
  rw [installsOnlyFramed_iff hzero hlen]
  refine and_congr_right fun _ => forall₄_congr fun m rest htext hend => ?_
  subst htext
  constructor
  · intro h
    exact ⟨h.fields_eq hzero hlen hend, h.accepted_iff_or hzero hlen hend⟩
  · intro h
    exact h.sameInstall hzero hlen hend

theorem oneGrammar_twiceManifest : OneGrammar packageTwiceManifest := by
  refine (oneGrammar_iff (by decide) (by decide)).mpr ⟨fun _ _ => by decide +kernel, ?_⟩
  -- the one beginning that ends in `end` is the whole text
  have hwhole : ∀ k : Fin 39, EndsInEnd (packageTwiceManifest.take k) →
      packageTwiceManifest.take k = packageTwiceManifest := by decide +kernel
  intro m rest htext hend
  have hm : packageTwiceManifest.take m.length = m := by
    rw [htext, List.take_left]
  have hlen : m.length < 39 := by
    have hlength := congrArg List.length htext
    rw [List.length_append] at hlength
    have hall : packageTwiceManifest.length = 38 := rfl
    omega
  have hsame := hwhole ⟨m.length, hlen⟩
  rw [hm] at hsame
  rw [hsame hend]
  exact ⟨fun _ _ _ => ⟨rfl, rfl⟩, .inl Iff.rfl⟩

/-- The manifest "package=p", "PKG1". -/
def packageLooseManifest : List UInt8 :=
  [112, 97, 99, 107, 97, 103, 101, 61, 112, 10, 80, 75, 71, 49, 10]

/-- The manifest "PKG1", "package=p", "end". -/
def packagePlainManifest : List UInt8 :=
  [80, 75, 71, 49, 10, 112, 97, 99, 107, 97, 103, 101, 61, 112, 10, 101, 110, 100, 10]

/-- The line "package=q". -/
def packageOtherName : List UInt8 := [112, 97, 99, 107, 97, 103, 101, 61, 113, 10]

/-- A manifest is installed without `end` and with its header on the last line, and one with a
further name behind its `end` under that name. -/
theorem not_oneGrammar :
    (¬ ∀ text, 0 ∉ text → text.length < packageManifestMax → InstallsOnlyFramed text) ∧
      (¬ ∀ m rest, 0 ∉ m ++ rest → (m ++ rest).length < packageManifestMax → EndsInEnd m →
        SameInstall m (m ++ rest)) ∧
      ¬ ∀ text, 0 ∉ text → text.length < packageManifestMax → OneGrammar text := by
  have hreach : FsReachable (fsBlankDisk 5000) := .start (fsFresh_blankDisk (by decide))
  have hloose : ¬ InstallsOnlyFramed packageLooseManifest := fun h =>
    absurd (h (fsBlankDisk 5000) packageNoFaults packageClearEntries packageManifestName hreach
      (by decide +kernel)) (by decide +kernel)
  have hother : ¬ SameInstall packagePlainManifest (packagePlainManifest ++ packageOtherName) := by
    intro h
    have htable := (h (fsBlankDisk 5000) packageNoFaults packageClearEntries packageManifestName
      hreach).2
    have hname := congrArg (fun t : PackageTable => (t 0).name.text) htable
    exact absurd hname (by decide +kernel)
  refine ⟨fun h => hloose (h _ (by decide) (by decide)), fun h => hother (h _ _ (by decide)
    (by decide) (by decide +kernel)), fun h => hloose (h _ (by decide) (by decide)).1⟩

end AcharyaOS.Package
