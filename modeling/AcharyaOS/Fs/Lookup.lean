import AcharyaOS.Fs.Names
import AcharyaOS.Fs.Synced

/-!
# Looking up names

Which slot a name leads to before and after an update, and how far the table
holds each name once.
-/

namespace AcharyaOS.Fs

open Foundation Disk Foundation.Run

/-- The entry is the one `fs_find_entry` looks for. -/
def FsDiskEntry.named (e : FsDiskEntry) (name : CString) : Bool :=
  e.isUsed && fsNameEquals e.name name

theorem FsDiskEntry.named_iff {e : FsDiskEntry} {name : CString} :
    e.named name = true ↔
      e.isUsed = true ∧ cText e.name.toList = name.bytes ∧ name.length < fsNameMax := by
  rw [FsDiskEntry.named, Bool.and_eq_true, fsNameEquals_iff]

theorem FsDiskEntry.named_other {e : FsDiskEntry} {a b : CString} (h : e.named a = true)
    (hne : a ≠ b) : e.named b = false := by
  rw [← Bool.not_eq_true]
  intro hb
  apply hne
  exact CString.ext ((named_iff.mp h).2.1.symm.trans (named_iff.mp hb).2.1)

theorem FsDiskEntry.named_of_free {e : FsDiskEntry} (he : e.isUsed = false) (name : CString) :
    e.named name = false := by
  rw [FsDiskEntry.named, he, Bool.false_and]

theorem fsFindEntry_congr {entries entries' : FsTable} {name : CString}
    (h : ∀ i, (entries i).named name = (entries' i).named name) :
    fsFindEntry entries name = fsFindEntry entries' name :=
  congrArg firstSlot (funext h)

theorem fsFindEntry_of_long (entries : FsTable) {name : CString}
    (hname : fsNameMax ≤ name.length) : fsFindEntry entries name = none := by
  apply firstSlot_eq_none_iff.mpr
  intro i
  show (entries i).named name = false
  rw [← Bool.not_eq_true, FsDiskEntry.named_iff]
  omega

/-! ## The name a call is about -/

def FsCall.name? : FsCall → Option CString
  | .init => none
  | .writeFile name _ => name
  | .deleteFile name => some name

section OtherNames

variable {s : FsState} {c : FsCall} {p : FsPlan} {a b : CString}

theorem fsPlan_named_other (hplan : fsPlan s c = some p) (hname : c.name? = some a)
    (ha : a.length < fsNameMax) (hne : a ≠ b) (i : Fin fsFilesMax) :
    (p.entries i).named b = (s.entries i).named b ∧
      ((s.entries i).named b = true → p.entries i = s.entries i) := by
  rcases fsPlan_cases hplan with
    ⟨name, data, idx, claimed, rfl, -, -, hclaim, rfl⟩ | ⟨name, idx, rfl, hfind, rfl⟩
  · have hna : name = a := by simpa [FsCall.name?] using hname
    subst hna
    by_cases hi : i = idx
    · subst hi
      have hbefore : (s.entries i).named b = false := by
        rcases fsClaimEntry_cases hclaim with ⟨hfind, -⟩ | ⟨-, hfree, -⟩
        · exact FsDiskEntry.named_other (firstSlot_some hfind) hne
        · exact FsDiskEntry.named_of_free hfree b
      have hclaimed : (claimed i).named name = true := by
        rcases fsClaimEntry_cases hclaim with ⟨hfind, rfl⟩ | ⟨-, -, rfl⟩
        · exact firstSlot_some hfind
        · rw [Function.update_self, FsDiskEntry.named,
            (fsNameEquals_fsCopyName_self _ _).mpr ha, Bool.and_true]
          rfl
      have hafter : ((fsWritePlan s.info.dataStartLba i claimed data).entries i).named b =
          false := by
        rw [fsWritePlan_entries_self]
        exact FsDiskEntry.named_other (e := claimed i) hclaimed hne
      rw [hafter, hbefore]
      exact ⟨rfl, fun h => absurd h (by decide)⟩
    · rw [fsWritePlan_entries_of_ne _ _ _ hi, (fsClaimEntry_spec hclaim).1 i hi]
      exact ⟨rfl, fun _ => rfl⟩
  · have hna : name = a := by simpa [FsCall.name?] using hname
    subst hna
    by_cases hi : i = idx
    · subst hi
      have hbefore : (s.entries i).named b = false :=
        FsDiskEntry.named_other (firstSlot_some hfind) hne
      simp only [Function.update_self, hbefore]
      exact ⟨rfl, fun h => absurd h (by decide)⟩
    · simp [Function.update_of_ne hi]

theorem fsPlan_find_other (hplan : fsPlan s c = some p) (hname : c.name? = some a)
    (ha : a.length < fsNameMax) (hne : a ≠ b) :
    fsFindEntry p.entries b = fsFindEntry s.entries b :=
  fsFindEntry_congr fun i => (fsPlan_named_other hplan hname ha hne i).1

theorem fsPlan_entry_other (hplan : fsPlan s c = some p) (hname : c.name? = some a)
    (ha : a.length < fsNameMax) (hne : a ≠ b) {i : Fin fsFilesMax}
    (hfind : fsFindEntry s.entries b = some i) : p.entries i = s.entries i :=
  (fsPlan_named_other hplan hname ha hne i).2 (firstSlot_some hfind)

end OtherNames

/-! ## The written name -/

theorem fsWritePlan_find {entries claimed : FsTable} {name : CString} {idx : Fin fsFilesMax}
    (hclaim : fsClaimEntry entries name = some (idx, claimed)) (dataStartLba : UInt32)
    (data : List UInt8) (hname : name.length < fsNameMax) :
    fsFindEntry (fsWritePlan dataStartLba idx claimed data).entries name = some idx := by
  rcases fsClaimEntry_cases hclaim with ⟨hfind, rfl⟩ | ⟨hnone, -, hclaimed⟩
  · rw [← hfind]
    apply fsFindEntry_congr
    intro i
    by_cases hi : i = idx
    · subst hi
      rw [fsWritePlan_entries_self]
      rfl
    · rw [fsWritePlan_entries_of_ne _ _ _ hi]
  · apply firstSlot_of_unique
    · rw [fsWritePlan_entries_self, hclaimed, Function.update_self,
        (fsNameEquals_fsCopyName_self _ _).mpr hname]
      rfl
    · intro i hi
      by_contra hidx
      rw [fsWritePlan_entries_of_ne _ _ _ hidx, (fsClaimEntry_spec hclaim).1 i hidx] at hi
      have hother := firstSlot_eq_none_iff.mp hnone i
      rw [hi] at hother
      exact absurd hother (by decide)

/-! ## Unique names -/

/-- No two used entries hold the same text. -/
def FsUniqueNames (entries : FsTable) : Prop :=
  ∀ i j, (entries i).isUsed = true → (entries j).isUsed = true →
    cText (entries i).name.toList = cText (entries j).name.toList → i = j

namespace FsUniqueNames

variable {entries : FsTable}

theorem zero : FsUniqueNames .zero :=
  fun i _ hi => absurd (show FsDiskEntry.zero.isUsed = true from hi) (by decide)

theorem update (h : FsUniqueNames entries) (idx : Fin fsFilesMax) {e : FsDiskEntry}
    (he : e.isUsed = true → ∀ i, i ≠ idx → (entries i).isUsed = true →
      cText (entries i).name.toList ≠ cText e.name.toList) :
    FsUniqueNames (Function.update entries idx e) := by
  intro i j hi hj htext
  by_cases hii : i = idx
  · by_cases hjj : j = idx
    · rw [hii, hjj]
    · subst hii
      rw [Function.update_self] at hi htext
      rw [Function.update_of_ne hjj] at hj htext
      exact absurd htext.symm (he hi j hjj hj)
  · rw [Function.update_of_ne hii] at hi htext
    by_cases hjj : j = idx
    · subst hjj
      rw [Function.update_self] at hj htext
      exact absurd htext (he hj i hii hi)
    · rw [Function.update_of_ne hjj] at hj htext
      exact h i j hi hj htext

end FsUniqueNames

def FsCall.shortName : FsCall → Prop
  | .writeFile (some name) _ => name.length < fsNameMax
  | _ => True

instance (c : FsCall) : Decidable c.shortName :=
  match c with
  | .init => inferInstanceAs (Decidable True)
  | .writeFile none _ => inferInstanceAs (Decidable True)
  | .writeFile (some name) _ => inferInstanceAs (Decidable (name.length < fsNameMax))
  | .deleteFile _ => inferInstanceAs (Decidable True)

/-- The write gets as far as `fs_copy_name`. -/
structure FsCopiesName (s : FsState) (name : CString) (size : Nat) : Prop where
  mounted : s.info.mounted = true
  size_le : size ≤ fsMaxFileBytes
  missing : fsFindEntry s.entries name = none
  free : (fsFindFreeEntry s.entries).isSome

/-- If the call copies a name, it is a short one. -/
def FsCall.copiesShort (s : FsState) : FsCall → Prop
  | .writeFile (some name) (some data) => FsCopiesName s name data.length → name.length < fsNameMax
  | _ => True

theorem FsCall.shortName.copiesShort {c : FsCall} (h : c.shortName) (s : FsState) :
    c.copiesShort s := by
  cases c with
  | init => trivial
  | deleteFile name => trivial
  | writeFile name data =>
    cases name with
    | none => trivial
    | some name =>
      cases data with
      | none => trivial
      | some data => exact fun _ => h

theorem fsPlan_unique {s : FsState} {c : FsCall} {p : FsPlan} (hplan : fsPlan s c = some p)
    (hshort : c.copiesShort s) (h : FsUniqueNames s.entries) : FsUniqueNames p.entries := by
  rcases fsPlan_cases hplan with
    ⟨name, data, idx, claimed, rfl, hmounted, hsize, hclaim, rfl⟩ | ⟨name, idx, rfl, -, rfl⟩
  · rw [fsWritePlan_entries hclaim]
    apply h.update
    intro _ i hi hused htext
    rcases fsClaimEntry_cases hclaim with ⟨hfind, rfl⟩ | ⟨hnone, -, hclaimed⟩
    · exact hi (h i idx hused (isUsed_of_fsFindEntry hfind).1 htext)
    · have hfree : (fsFindFreeEntry s.entries).isSome := by
        have hsome : (fsClaimEntry s.entries name).isSome := by rw [hclaim]; rfl
        unfold fsClaimEntry at hsome
        rw [hnone] at hsome
        cases hfind : fsFindFreeEntry s.entries with
        | some free => rfl
        | none => simp [hfind] at hsome
      have hshort : name.length < fsNameMax := hshort ⟨hmounted, hsize, hnone, hfree⟩
      -- an entry of that text would have been found
      rw [hclaimed, Function.update_self] at htext
      have hnamed : (s.entries i).named name = true := by
        rw [FsDiskEntry.named_iff]
        exact ⟨hused, htext.trans (cText_fsCopyName_of_lt _ hshort), hshort⟩
      have hother : (s.entries i).named name = false := firstSlot_eq_none_iff.mp hnone i
      rw [hnamed] at hother
      exact absurd hother (by decide)
  · apply h.update
    intro hused
    exact absurd hused (by decide)

/-- A run of update calls that writes short names only. -/
def FsShortUpdate (_ : FsState) (c : Faults × FsCall) : Prop :=
  c.2 ≠ .init ∧ c.2.shortName

/-- A run of update calls that puts short names only into the table. -/
def FsShortCopies (s : FsState) (c : Faults × FsCall) : Prop :=
  c.2 ≠ .init ∧ c.2.copiesShort s

theorem FsShortUpdate.copies {s : FsState} {c : Faults × FsCall} (hc : FsShortUpdate s c) :
    FsShortCopies s c :=
  ⟨hc.1, hc.2.copiesShort s⟩

theorem fsStep_unique {s : FsState} {c : Faults × FsCall} (hc : FsShortCopies s c)
    (h : FsUniqueNames s.entries) : FsUniqueNames (fsStep s c).entries := by
  obtain ⟨f, c⟩ := c
  rcases fsExec_cases s f hc.1 with ⟨-, heq⟩ | ⟨p, ws, hplan, hfollows⟩
  · rw [fsStep, heq]
    exact h
  · rw [fsStep, hfollows.entries_eq]
    exact fsPlan_unique hplan hc.2 h

theorem FsUniqueNames.of_fresh {s : FsState} (h : FsFresh s) : FsUniqueNames s.entries := by
  rw [h.entries_eq]
  exact .zero

theorem fsUniqueNames_of_reach {s : FsState} (h : Reach FsFresh fsStep FsShortCopies s) :
    FsUniqueNames s.entries :=
  h.invariant (P := fun s => FsUniqueNames s.entries) (fun _ => .of_fresh)
    fun _ _ hs hc => fsStep_unique hc hs

/-! ## Names found again -/

/-- `fs_read_file` with a large enough buffer and `fs_delete_file` on a working
disk get past their lookup of the name. -/
def FsFinds (s : FsState) (name : CString) (size : Nat) : Prop :=
  (∀ bufferLen, size ≤ bufferLen → (fsReadCheck s (some name) bufferLen).isSome) ∧
    (fsExec s (.none, .deleteFile name)).2 = 0

/-- A successful write is found again under its name exactly when the name fits
the field. -/
theorem fsFinds_written_iff {s : FsState} (hinv : FsInv s) {f : Faults} {name : CString}
    {data : List UInt8}
    (hok : (fsExec s (f, .writeFile (some name) (some data))).2 = 0) :
    FsFinds (fsStep s (f, .writeFile (some name) (some data))) name data.length ↔
      name.length < fsNameMax := by
  have hinv' := hinv.step (f, .writeFile (some name) (some data))
  obtain ⟨idx, claimed, hclaim, -, hsize, hentries, -, hmounted, -⟩ :=
    fsExec_write_zero_cases hok
  constructor
  · intro hfinds
    by_contra hlong
    have hcheck := hfinds.1 _ le_rfl
    simp [fsReadCheck, hentries, fsFindEntry_of_long _ (Nat.le_of_not_lt hlong)] at hcheck
  · intro hshort
    have hfind := fsWritePlan_find hclaim s.info.dataStartLba data hshort
    constructor
    · intro bufferLen hlen
      have hnot : ¬ bufferLen < ((fsWritePlan s.info.dataStartLba idx claimed
          data).entries idx).sizeBytes.toNat := by
        rw [fsWritePlan_entries_self]
        show ¬ bufferLen < (UInt32.ofNat data.length).toNat
        rw [toNat_ofNat_size hsize]
        omega
      simp [fsReadCheck, hentries, hfind, hmounted, hnot]
    · apply fsExec_zero_of_no_faults hinv'
      · rw [fsPlan, hentries, hfind]
        rfl
      · simp

/-- Runs that copy short names only keep stored names unique, and a successful
write to follow is found again exactly when its name is short. -/
theorem fsNames_of_short_names {s : FsState} (hs : Reach FsFresh fsStep FsShortCopies s) :
    FsUniqueNames s.entries ∧
      ∀ f name data, (fsExec s (f, .writeFile (some name) (some data))).2 = 0 →
        (FsFinds (fsStep s (f, .writeFile (some name) (some data))) name data.length ↔
          name.length < fsNameMax) := by
  have hreach : FsReachable s := hs.mono fun _ _ _ => trivial
  refine ⟨fsUniqueNames_of_reach hs, ?_⟩
  intro f name data hok
  exact fsFinds_written_iff hreach.inv hok

theorem fsNames_of_short_names_blank :
    FsUniqueNames (fsBlankDisk 5000).entries ∧
      FsFinds (fsStep (fsBlankDisk 5000) (.none, .writeFile (some fsNameA) (some [1])))
        fsNameA 1 := by
  have hfresh : FsFresh (fsBlankDisk 5000) := fsFresh_blankDisk (by decide)
  have h := fsNames_of_short_names (.start hfresh)
  refine ⟨h.1, ?_⟩
  have hfinds := (h.2 .none fsNameA [1] (by decide +kernel)).mpr (by decide)
  exact hfinds

/-! ### A name of sixteen characters -/

/-- "aaaaaaaaaaaaaaaa" -/
def fsLongName : CString := ⟨List.replicate 16 97, by decide⟩

/-- Two successful writes under one long name to a fresh disk. -/
def fsLongNameTwice : FsState :=
  runSteps fsStep (fsBlankDisk 5000)
    [(.none, .writeFile (some fsLongName) (some [])),
      (.none, .writeFile (some fsLongName) (some []))]

theorem fsLongName_duplicated :
    FsFresh (fsBlankDisk 5000) ∧
      (fsExec (fsBlankDisk 5000) (.none, .writeFile (some fsLongName) (some []))).2 = 0 ∧
      (fsExec (fsStep (fsBlankDisk 5000) (.none, .writeFile (some fsLongName) (some [])))
        (.none, .writeFile (some fsLongName) (some []))).2 = 0 ∧
      ¬ FsUniqueNames fsLongNameTwice.entries ∧
      (fsReadFile fsLongNameTwice (some fsLongName) 512).2 = none ∧
      (fsExec fsLongNameTwice (.none, .deleteFile fsLongName)).2 = -1 := by
  refine ⟨fsFresh_blankDisk (by decide), ?_, ?_, ?_, ?_, ?_⟩
  · decide +kernel
  · decide +kernel
  · intro h
    exact absurd (h 0 1 (by decide +kernel) (by decide +kernel) (by decide +kernel))
      (by decide)
  · decide +kernel
  · decide +kernel

end AcharyaOS.Fs
