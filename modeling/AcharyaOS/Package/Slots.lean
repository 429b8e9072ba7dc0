import AcharyaOS.Foundation.Slots
import AcharyaOS.Fs.Accept
import AcharyaOS.Fs.Lookup
import AcharyaOS.Package.Manifest

/-!
# The slots a manifest needs

A file goes to the slot of its name or takes a new one.  A name too long for its field is stored
cut short and takes a new slot each time.  Some filesystem takes all the files exactly if an
empty table has slots enough.
-/

namespace AcharyaOS.Package

open Foundation Foundation.Run Disk Fs

/-! ## Taking slots -/

/-- The names in the used slots after a write under `name`. -/
def takeSlot (taken : List (List UInt8)) (name : CString) : List (List UInt8) :=
  if name.length < fsNameMax ∧ name.bytes ∈ taken then taken
  else name.bytes.take (fsNameMax - 1) :: taken

def takeSlots (taken : List (List UInt8)) (files : List (CString × List UInt8)) :
    List (List UInt8) :=
  files.foldl (fun taken file => takeSlot taken file.1) taken

section Taking

variable {taken stored : List (List UInt8)} {name : CString}

theorem takeSlot_of_mem (hname : name.length < fsNameMax ∧ name.bytes ∈ taken) :
    takeSlot taken name = taken := if_pos hname

theorem takeSlot_of_not_mem (hname : ¬ (name.length < fsNameMax ∧ name.bytes ∈ taken)) :
    takeSlot taken name = name.bytes.take (fsNameMax - 1) :: taken := if_neg hname

theorem length_le_takeSlot (taken : List (List UInt8)) (name : CString) :
    taken.length ≤ (takeSlot taken name).length := by
  by_cases hname : name.length < fsNameMax ∧ name.bytes ∈ taken
  · rw [takeSlot_of_mem hname]
  · rw [takeSlot_of_not_mem hname, List.length_cons]
    exact Nat.le_succ _

theorem length_le_takeSlots (files : List (CString × List UInt8)) :
    ∀ taken : List (List UInt8), taken.length ≤ (takeSlots taken files).length := by
  induction files with
  | nil => exact fun _ => le_rfl
  | cons file files ih => exact fun taken => (length_le_takeSlot taken file.1).trans (ih _)

/-- More slots taken before are no fewer afterwards. -/
theorem takeSlot_subperm (h : taken.Subperm stored) (name : CString) :
    (takeSlot taken name).Subperm (takeSlot stored name) := by
  by_cases htaken : name.length < fsNameMax ∧ name.bytes ∈ taken
  · rw [takeSlot_of_mem htaken, takeSlot_of_mem ⟨htaken.1, h.subset htaken.2⟩]
    exact h
  · by_cases hstored : name.length < fsNameMax ∧ name.bytes ∈ stored
    · have hshort : name.bytes.length < fsNameMax := hstored.1
      have hwhole : name.bytes.take (fsNameMax - 1) = name.bytes :=
        List.take_of_length_le (Nat.le_pred_of_lt hshort)
      rw [takeSlot_of_not_mem htaken, takeSlot_of_mem hstored, hwhole]
      exact List.cons_subperm_of_not_mem_of_mem (fun hmem => htaken ⟨hstored.1, hmem⟩) hstored.2 h
    · rw [takeSlot_of_not_mem htaken, takeSlot_of_not_mem hstored]
      exact (List.subperm_cons _).mpr h

end Taking

/-! ## The names of the table -/

/-- The name in a slot, if it is used. -/
def fsNames (entries : FsTable) (i : Fin fsFilesMax) : Option (List UInt8) :=
  if (entries i).isUsed then some (cText (entries i).name.toList) else none

def fsTaken (entries : FsTable) : List (List UInt8) := slotList (fsNames entries)

section Table

variable {entries claimed : FsTable} {name : CString} {idx : Fin fsFilesMax}

theorem fsNames_eq_some_iff {i : Fin fsFilesMax} {text : List UInt8} :
    fsNames entries i = some text ↔
      (entries i).isUsed = true ∧ cText (entries i).name.toList = text := by
  unfold fsNames
  by_cases hused : (entries i).isUsed = true
  · simp [hused]
  · simp [hused]

theorem fsFindEntry_isSome_iff : (fsFindEntry entries name).isSome ↔
    name.length < fsNameMax ∧ name.bytes ∈ fsTaken entries := by
  rw [← Option.ne_none_iff_isSome, ne_eq]
  have hnone : fsFindEntry entries name = none ↔ ∀ i, (entries i).named name = false :=
    firstSlot_eq_none_iff
  rw [hnone, not_forall, fsTaken, mem_slotList, ← exists_and_left]
  refine exists_congr fun i => ?_
  rw [Bool.not_eq_false, FsDiskEntry.named_iff, fsNames_eq_some_iff]
  tauto

theorem fsTaken_of_claim (hclaim : fsClaimEntry entries name = some (idx, claimed)) :
    (fsTaken claimed).Perm (takeSlot (fsTaken entries) name) := by
  rcases fsClaimEntry_cases hclaim with ⟨hfind, rfl⟩ | ⟨hnone, hfree, rfl⟩
  · rw [takeSlot_of_mem (fsFindEntry_isSome_iff.mp (by rw [hfind]; rfl))]
  · have hnew : ¬ (name.length < fsNameMax ∧ name.bytes ∈ fsTaken entries) := by
      rw [← fsFindEntry_isSome_iff, hnone]
      simp
    rw [takeSlot_of_not_mem hnew, fsTaken, fsTaken]
    have hview : fsNames (Function.update entries idx
        { entries idx with name := fsCopyName (entries idx).name name, used := 1 }) =
          Function.update (fsNames entries) idx (some (name.bytes.take (fsNameMax - 1))) := by
      funext i
      by_cases hi : i = idx
      · subst hi
        rw [Function.update_self, fsNames_eq_some_iff, Function.update_self]
        exact ⟨rfl, cText_fsCopyName _ _⟩
      · rw [Function.update_of_ne hi, fsNames, fsNames, Function.update_of_ne hi]
    rw [hview]
    exact slotList_update_perm (by simp [fsNames, hfree]) _

/-- Where the data goes does not change the names. -/
theorem fsTaken_placed (dataStartLba : UInt32) (data : List UInt8) :
    fsTaken (fsWritePlan dataStartLba idx claimed data).entries = fsTaken claimed := by
  unfold fsTaken
  congr 1
  funext i
  by_cases hi : i = idx
  · subst hi
    rw [fsNames, fsNames, fsWritePlan_entries_self]
    rfl
  · rw [fsNames, fsNames, fsWritePlan_entries_of_ne _ _ _ hi]

end Table

theorem fsTaken_write {fs : FsState} {f : Faults} {name : CString} {data : List UInt8}
    (hok : (fsExec fs (f, .writeFile (some name) (some data))).2 = 0) :
    (fsTaken (fsStep fs (f, .writeFile (some name) (some data))).entries).Perm
      (takeSlot (fsTaken fs.entries) name) := by
  obtain ⟨idx, claimed, hclaim, -, -, hentries, -⟩ := fsExec_write_zero_cases hok
  rw [hentries, fsTaken_placed]
  exact fsTaken_of_claim hclaim

/-! ## A filesystem that takes the files -/

theorem takeSlots_subperm {faults : Nat → Faults} (files : List (CString × List UInt8)) :
    ∀ {fs : FsState} {taken : List (List UInt8)} {n : Nat}, taken.Subperm (fsTaken fs.entries) →
      AllWritten fs (packageWrites faults files n) → (takeSlots taken files).Subperm
        (fsTaken (runSteps fsStep fs (packageWrites faults files n)).entries) := by
  induction files with
  | nil => exact fun h _ => h
  | cons file files ih =>
    intro fs taken n h hall
    obtain ⟨name, data⟩ := file
    rw [packageWrites_cons] at hall ⊢
    obtain ⟨hok, hrest⟩ := hall
    exact ih ((takeSlot_subperm h name).trans (fsTaken_write hok).symm.subperm) hrest

theorem fsBlockCount_le {data : List UInt8} (h : data.length < packageManifestMax) :
    fsBlockCount data.length ≤ 4 ∧ data.length ≤ fsMaxFileBytes := by
  have hmax : packageManifestMax = 2048 := rfl
  have hbytes : fsMaxFileBytes = 131072 := rfl
  unfold fsBlockCount
  omega

/-- A write moves the mark behind the file it stores, and no further. -/
theorem fsNextFreeLba_write_le {fs : FsState} (hinv : FsInv fs) {f : Faults} {name : CString}
    {data : List UInt8} (hok : (fsExec fs (f, .writeFile (some name) (some data))).2 = 0)
    (hroom : (fsNextFreeLba fs.info.dataStartLba fs.entries).toNat + fsBlockCount data.length <
      2 ^ 32) :
    (fsNextFreeLba (fsStep fs (f, .writeFile (some name) (some data))).info.dataStartLba
        (fsStep fs (f, .writeFile (some name) (some data))).entries).toNat ≤
      (fsNextFreeLba fs.info.dataStartLba fs.entries).toNat + fsBlockCount data.length := by
  obtain ⟨idx, claimed, hclaim, hmounted, hsize, hentries, -, hmounted', -⟩ :=
    fsExec_write_zero_cases hok
  have hstart := dataStart_le_fsNextFreeLba fs.info.dataStartLba fs.entries
  rw [hentries, (hinv.step _).data_start hmounted', ← hinv.data_start hmounted,
    fsNextFreeLba_le_iff]
  refine ⟨by omega, fun i hi => ?_⟩
  by_cases hidx : i = idx
  · subst hidx
    rw [fsWritePlan_entries_self, fsNextFreeLba_claimed _ hinv.table hclaim]
    have hblocks := fsEntryBlocks_placed (claimed i)
      (fsNextFreeLba fs.info.dataStartLba fs.entries) hsize
    rw [toNat_fsEntryEnd_of_lt (by rw [hblocks]; exact hroom), hblocks]
  · rw [fsWritePlan_entries hclaim, Function.update_of_ne hidx] at hi ⊢
    have hend := end_le_fsNextFreeLba fs.info.dataStartLba hi
    omega

/-- The names in the slots are `taken`, and behind the last file there are `sectors` free. -/
structure FsRoomy (fs : FsState) (taken : List (List UInt8)) (sectors : Nat) : Prop where
  inv : FsInv fs
  mounted : fs.info.mounted = true
  names : (fsTaken fs.entries).Perm taken
  room : (fsNextFreeLba fs.info.dataStartLba fs.entries).toNat + sectors ≤
    min fs.ata.device.capacity (2 ^ 28)

namespace FsRoomy

variable {fs : FsState} {taken : List (List UInt8)} {sectors : Nat} {name : CString}
  {data : List UInt8}

theorem accepts (h : FsRoomy fs taken sectors) (hdata : data.length < packageManifestMax)
    (hsectors : 4 ≤ sectors) (hslots : (takeSlot taken name).length ≤ fsFilesMax) :
    FsAccepts fs .none name data.length := by
  obtain ⟨hblocks, hsize⟩ := fsBlockCount_le hdata
  have hroom := h.room
  refine ⟨h.mounted, hsize, ?_, .inr (by omega), rfl⟩
  rw [or_iff_not_imp_left, fsFindEntry_isSome_iff, h.names.mem_iff]
  intro hnew
  rw [takeSlot_of_not_mem hnew, List.length_cons, ← h.names.length_eq] at hslots
  obtain ⟨i, hi⟩ := exists_free_of_length_lt hslots
  rw [← Option.ne_none_iff_isSome, ne_eq]
  intro hfull
  have hused : (!(fs.entries i).isUsed) = false := firstSlot_eq_none_iff.mp hfull i
  rw [Bool.not_eq_false'] at hused
  rw [fsNames, if_pos hused] at hi
  cases hi

theorem write (h : FsRoomy fs taken (sectors + 4)) (hdata : data.length < packageManifestMax)
    (hslots : (takeSlot taken name).length ≤ fsFilesMax) :
    (fsExec fs (.none, .writeFile (some name) (some data))).2 = 0 ∧
      FsRoomy (fsStep fs (.none, .writeFile (some name) (some data))) (takeSlot taken name)
        sectors := by
  have hok := (fsWriteFile_zero_iff_accepts h.inv).mpr
    (h.accepts hdata (Nat.le_add_left 4 sectors) hslots)
  obtain ⟨_, _, -, -, -, -, hwrote, hmounted, -⟩ := fsExec_write_zero_cases hok
  obtain ⟨hblocks, -⟩ := fsBlockCount_le hdata
  have hroom := h.room
  have hnext := fsNextFreeLba_write_le h.inv hok (by omega)
  have hsame := hwrote.device.capacity_eq
  refine ⟨hok, h.inv.step _, hmounted, ?_, by omega⟩
  have hnames : (takeSlot (fsTaken fs.entries) name).Perm (takeSlot taken name) :=
    (takeSlot_subperm h.names.subperm name).antisymm (takeSlot_subperm h.names.symm.subperm name)
  exact (fsTaken_write hok).trans hnames

theorem allWritten (files : List (CString × List UInt8)) :
    ∀ {fs : FsState} {taken : List (List UInt8)} {n : Nat},
      FsRoomy fs taken (4 * files.length) → (∀ p ∈ files, p.2.length < packageManifestMax) →
        (takeSlots taken files).length ≤ fsFilesMax →
          AllWritten fs (packageWrites (fun _ => .none) files n) := by
  induction files with
  | nil => exact fun _ _ _ => trivial
  | cons file files ih =>
    intro fs taken n h hdata hslots
    obtain ⟨name, data⟩ := file
    rw [List.forall_mem_cons] at hdata
    have hfirst := (length_le_takeSlots files (takeSlot taken name)).trans hslots
    obtain ⟨hok, hnext⟩ := h.write hdata.1 hfirst
    rw [packageWrites_cons]
    exact ⟨hok, ih hnext hdata.2 hslots⟩

theorem blankDisk {sectors : Nat} (h : sectors ≤ 8192) :
    FsRoomy (fsBlankDisk 20000) [] sectors := by
  have hsynced : FsSynced (fsBlankDisk 20000) := .of_fresh (fsFresh_blankDisk (by decide))
  have hcapacity : (fsBlankDisk 20000).ata.device.capacity = 20000 := by
    obtain ⟨_, hwrote, -⟩ := fsStep_init_cases (fsPowerOn 20000 fun _ => .zero _) .none
    exact hwrote.device.capacity_eq
  have hfree : ∀ i, ((fsBlankDisk 20000).entries i).isUsed = false := by
    rw [fsBlankDisk_entries]
    exact fun _ => rfl
  have hnext : (fsNextFreeLba (fsBlankDisk 20000).info.dataStartLba
      (fsBlankDisk 20000).entries).toNat ≤ 4098 := by
    rw [fsNextFreeLba_le_iff, hsynced.data_start hsynced.mounted_eq]
    refine ⟨by decide, fun i hi => ?_⟩
    rw [hfree i] at hi
    cases hi
  refine ⟨hsynced.toFsInv, hsynced.mounted_eq, ?_, by omega⟩
  have hview : fsNames (fsBlankDisk 20000).entries = fun _ => none := by
    funext i
    rw [fsNames, hfree i]
    rfl
  rw [fsTaken, hview, slotList, List.filterMap_none]

end FsRoomy

/-- Some filesystem takes all of a few small files exactly if an empty table has a slot for
each that needs one. -/
theorem exists_allWritten_iff {files : List (CString × List UInt8)}
    (hcount : files.length < packageManifestMax)
    (hdata : ∀ p ∈ files, p.2.length < packageManifestMax) :
    (∃ fs faults, FsReachable fs ∧ AllWritten fs (packageWrites faults files 0)) ↔
      (takeSlots [] files).length ≤ fsFilesMax := by
  constructor
  · rintro ⟨fs, faults, -, hall⟩
    exact (takeSlots_subperm files List.nil_subperm hall).length_le.trans (length_slotList_le _)
  · intro hslots
    have hmax : packageManifestMax = 2048 := rfl
    have hroomy : FsRoomy (fsBlankDisk 20000) [] (4 * files.length) := .blankDisk (by omega)
    exact ⟨_, _, .start (fsFresh_blankDisk (by decide)), hroomy.allWritten files hdata hslots⟩

end AcharyaOS.Package
