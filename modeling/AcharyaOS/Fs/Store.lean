import AcharyaOS.Fs.Remount
import AcharyaOS.Fs.RoundTrip

/-!
# The filesystem as a store of named files

What the filesystem is for: a map from names to contents, which writes and deletes
update.  Successful runs on short names refine it, and reads return what it holds.
-/

namespace AcharyaOS.Fs

open Foundation Disk Foundation.Run

/-- Contents by name. -/
abbrev FileStore := CString → Option (List UInt8)

namespace FileStore

def empty : FileStore := fun _ => none

/-- The intended effect of a successful call. -/
def apply (m : FileStore) : FsCall → FileStore
  | .writeFile (some name) (some data) => Function.update m name (some data)
  | .deleteFile name => Function.update m name none
  | _ => m

end FileStore

/-- The bytes of an entry's file, without the filling of its last sector. -/
def fsFileData (content : Nat → Sector) (e : FsDiskEntry) : List UInt8 :=
  (fsFileBytes content e).take e.sizeBytes.toNat

/-- The store a state stands for. -/
def fsContents (s : FsState) : FileStore := fun name =>
  (fsFindEntry s.entries name).map fun i => fsFileData s.ata.device.content (s.entries i)

/-! ## One call -/

theorem fsContents_of_find {s : FsState} {name : CString} {i : Fin fsFilesMax}
    (hfind : fsFindEntry s.entries name = some i) :
    fsContents s name = some (fsFileData s.ata.device.content (s.entries i)) := by
  rw [fsContents, hfind, Option.map_some]

theorem FsHolds.data_eq {s : FsState} {idx : Fin fsFilesMax} {data : List UInt8}
    (h : FsHolds s idx data) : fsFileData s.ata.device.content (s.entries idx) = data := by
  rw [fsFileData, h.bytes_eq, h.size_eq,
    flatMap_fsDataSectors _ _ (length_le_fsBlockCount data), List.take_left]

theorem fsContents_written {s : FsState} (h : FsInv s) {f : Faults} {name : CString}
    {data : List UInt8} (hname : name.length < fsNameMax)
    (hok : (fsExec s (f, .writeFile (some name) (some data))).2 = 0) :
    fsContents (fsStep s (f, .writeFile (some name) (some data))) name = some data := by
  obtain ⟨i, hholds, -, hfind⟩ := fsHolds_of_written h hok
  rw [fsContents_of_find (hfind hname), hholds.data_eq]

/-- A successful call writes no sector of a file of the table before it, not even of one whose
sectors are behind every disk. -/
theorem FsFollows.file_content_of_zero {s : FsState} {c : FsCall} {p : FsPlan}
    {ws : List (Nat × Sector)} {r : FsState × Int} (hinv : FsInv s) (hplan : fsPlan s c = some p)
    (h : FsFollows s p ws r) (hok : r.2 = 0) {i : Fin fsFilesMax}
    (hi : (s.entries i).isUsed = true) {j : Nat} (hj : j < fsEntryBlocks (s.entries i)) :
    r.1.ata.device.content ((s.entries i).startLba.toNat + j) =
      s.ata.device.content ((s.entries i).startLba.toNat + j) := by
  by_cases hstop : (s.entries i).startLba.toNat + fsEntryBlocks (s.entries i) < 2 ^ 32
  · exact h.file_content hinv hplan hi hstop hj
  · have hblocks := hinv.table.blocks_le i
    have hshadow := (fsPlan_inv hplan hinv.table hinv.data_start).2
    apply (h.content fun w hw => (hshadow w hw).1).2
    · rw [toNat_fsTableLba]
      omega
    · intro w hw
      rcases h.outcome with ⟨-, -, -, -, -, hbound⟩ | ⟨hfailed, -, -⟩
      · have hlt := (hbound w hw).1
        omega
      · rw [hok] at hfailed
        exact absurd hfailed (by decide)

theorem fsContents_other {s : FsState} (h : FsInv s) {f : Faults} {c : FsCall}
    {p : FsPlan} {ws : List (Nat × Sector)} (hplan : fsPlan s c = some p)
    (hfollows : FsFollows s p ws (fsExec s (f, c))) (hok : (fsExec s (f, c)).2 = 0)
    {a b : CString} (hname : c.name? = some a) (ha : a.length < fsNameMax) (hne : a ≠ b) :
    fsContents (fsStep s (f, c)) b = fsContents s b := by
  have hentries : (fsStep s (f, c)).entries = p.entries := hfollows.entries_eq
  unfold fsContents
  rw [hentries, fsPlan_find_other hplan hname ha hne]
  cases hfind : fsFindEntry s.entries b with
  | none => rfl
  | some i =>
      have hused := (isUsed_of_fsFindEntry hfind).1
      rw [Option.map_some, Option.map_some, fsPlan_entry_other hplan hname ha hne hfind,
        fsFileData, fsFileData]
      congr 2
      apply List.flatMap_congr
      intro j hj
      rw [fsStep, hfollows.file_content_of_zero h hplan hok hused (List.mem_range.mp hj)]

theorem fsContents_write {s : FsState} (h : FsInv s) {f : Faults} {name : CString}
    {data : List UInt8} (hname : name.length < fsNameMax)
    (hok : (fsExec s (f, .writeFile (some name) (some data))).2 = 0) :
    fsContents (fsStep s (f, .writeFile (some name) (some data))) =
      Function.update (fsContents s) name (some data) := by
  ext b : 1
  by_cases hb : b = name
  · rw [hb, Function.update_self, fsContents_written h hname hok]
  · rw [Function.update_of_ne hb]
    rcases fsExec_cases s f (c := .writeFile (some name) (some data)) (by simp) with
      ⟨-, heq⟩ | ⟨p, ws, hplan, hfollows⟩
    · rw [heq] at hok
      simp at hok
    · exact fsContents_other h hplan hfollows hok rfl hname (Ne.symm hb)

theorem fsFindEntry_deleted {entries : FsTable} (hunique : FsUniqueNames entries)
    {name : CString} {idx : Fin fsFilesMax} (hfind : fsFindEntry entries name = some idx) :
    fsFindEntry (Function.update entries idx .zero) name = none := by
  apply firstSlot_eq_none_iff.mpr
  intro i
  show (Function.update entries idx .zero i).named name = false
  by_cases hi : i = idx
  · rw [hi, Function.update_self]
    exact FsDiskEntry.named_of_free isUsed_zero name
  · rw [Function.update_of_ne hi, ← Bool.not_eq_true]
    intro hnamed
    have hidx : (entries idx).named name = true := firstSlot_some hfind
    rw [FsDiskEntry.named_iff] at hnamed hidx
    exact hi (hunique i idx hnamed.1 hidx.1 (hnamed.2.1.trans hidx.2.1.symm))

/-- A successful call on a short name does to the contents what it does to the store. -/
theorem fsContents_step {s : FsState} (h : FsSynced s) (hunique : FsUniqueNames s.entries)
    {c : Faults × FsCall} (hc : FsShortSuccess s c) :
    fsContents (fsStep s c) = (fsContents s).apply c.2 := by
  obtain ⟨f, c⟩ := c
  obtain ⟨⟨hinit, hshort⟩, hok⟩ := hc
  rcases fsExec_cases s f hinit with ⟨-, heq⟩ | ⟨p, ws, hplan, hfollows⟩
  · rw [heq] at hok
    simp at hok
  · rcases fsPlan_cases hplan with
      ⟨name, data, idx, claimed, rfl, -, -, -, -⟩ | ⟨name, idx, rfl, hfind, rfl⟩
    · exact fsContents_write h.toFsInv hshort hok
    · ext b : 1
      show _ = Function.update (fsContents s) name none b
      by_cases hb : b = name
      · subst hb
        have hentries : (fsStep s (f, .deleteFile b)).entries =
            Function.update s.entries idx .zero := hfollows.entries_eq
        rw [Function.update_self, fsContents, hentries, fsFindEntry_deleted hunique hfind]
        rfl
      · rw [Function.update_of_ne hb]
        apply fsContents_other h.toFsInv hplan hfollows hok rfl _ (Ne.symm hb)
        by_contra hlong
        rw [fsFindEntry_of_long _ (Nat.le_of_not_lt hlong)] at hfind
        exact absurd hfind (by simp)

/-! ## Reads -/

theorem length_fsFileBytes (content : Nat → Sector) (e : FsDiskEntry) :
    (fsFileBytes content e).length = fsEntryBlocks e * fsBlockSize := by
  rw [fsFileBytes, List.length_flatMap]
  simp [ataSectorSize]

theorem size_le_fsEntryBlocks {e : FsDiskEntry} (h : e.sizeBytes.toNat ≤ fsMaxFileBytes) :
    e.sizeBytes.toNat ≤ fsEntryBlocks e * fsBlockSize := by
  rw [fsEntryBlocks, toNat_fsBlocksForBytes h, fsBlockSize]
  omega

/-- The 8-bit count holds up to 255 sectors. -/
theorem toNat_fsReadCount_of_le {e : FsDiskEntry} (h : e.sizeBytes.toNat ≤ 255 * fsBlockSize) :
    (fsReadCount e).toNat = fsEntryBlocks e := by
  have hmax : e.sizeBytes.toNat ≤ fsMaxFileBytes := h.trans (by decide)
  rw [toNat_fsReadCount, fsEntryBlocks, toNat_fsBlocksForBytes hmax]
  rw [fsBlockSize] at h
  omega

theorem fsReadFile_of_not_stored {s : FsState} {name : CString}
    (hnone : fsContents s name = none) (bufferLen : Nat) :
    (fsReadFile s (some name) bufferLen).2 = none := by
  have hcheck : fsReadCheck s (some name) bufferLen = none := by
    rw [Option.eq_none_iff_forall_not_mem]
    intro e he
    obtain ⟨n, i, hn, -, hfind, -, -⟩ := fsReadCheck_eq_some_iff.mp he
    rw [Option.some.injEq] at hn
    subst hn
    rw [fsContents_of_find hfind] at hnone
    exact absurd hnone (by simp)
  simp [fsReadFile, hcheck]

theorem length_of_fsContents {s : FsState} (h : FsInv s) {name : CString} {data : List UInt8}
    (hdata : fsContents s name = some data) :
    ∃ i, fsFindEntry s.entries name = some i ∧
      fsFileData s.ata.device.content (s.entries i) = data ∧
      (s.entries i).sizeBytes.toNat = data.length := by
  cases hfind : fsFindEntry s.entries name with
  | none =>
      rw [fsContents, hfind] at hdata
      exact absurd hdata (by simp)
  | some i =>
      rw [fsContents_of_find hfind, Option.some.injEq] at hdata
      refine ⟨i, rfl, hdata, ?_⟩
      rw [← hdata, fsFileData, List.length_take, length_fsFileBytes]
      exact (Nat.min_eq_left (size_le_fsEntryBlocks (h.table.size_le i))).symm

/-- The disk answers a read of the file: it has the sectors, the driver can address them, and
the first command does not fail. -/
def FsAnswers (s : FsState) (f : Faults) (name : CString) : Prop :=
  s.info.mounted = true ∧ ∀ i, fsFindEntry s.entries name = some i →
    fsEntryBlocks (s.entries i) = 0 ∨
      f.reads.headD false = false ∧ (s.entries i).startLba ≤ ataLba28Mask ∧
        (s.entries i).startLba.toNat + fsEntryBlocks (s.entries i) ≤ s.ata.device.capacity

section Answers

variable {s : FsState} {f : Faults} {name : CString} {bufferLen : Nat} {data : List UInt8}

theorem fsReadFile_fst (s : FsState) (f : Faults) (name : Option CString) (bufferLen : Nat) :
    (fsReadFile (s.withFaults f) name bufferLen).1.withFaults .none = s.withFaults .none := by
  unfold fsReadFile
  split
  · rfl
  · split
    · rfl
    · unfold ataReadSectors Device.read
      split_ifs <;> rfl

theorem fsReadFile_of_answers (hinv : FsInv s) (hdata : fsContents s name = some data)
    (hbuffer : data.length ≤ bufferLen) (hsize : data.length ≤ 255 * fsBlockSize)
    (h : FsAnswers s f name) :
    ∃ bytes, (fsReadFile (s.withFaults f) (some name) bufferLen).2 = some (data.length, bytes) ∧
      bytes.take data.length = data := by
  obtain ⟨i, hfind, hfile, hlen⟩ := length_of_fsContents hinv hdata
  have hmax := hinv.table.size_le i
  have hcheck : fsReadCheck (s.withFaults f) (some name) bufferLen = some (s.entries i) :=
    fsReadCheck_eq_some_iff.mpr ⟨name, i, rfl, h.1, hfind, rfl, by omega⟩
  rw [fsReadFile_snd, hcheck, Option.bind_some]
  by_cases hzero : fsEntryBlocks (s.entries i) = 0
  · have hempty := size_le_fsEntryBlocks hmax
    rw [hzero, Nat.zero_mul, Nat.le_zero, hlen] at hempty
    rw [if_pos hzero, hempty, List.eq_nil_of_length_eq_zero hempty]
    exact ⟨[], rfl, rfl⟩
  · obtain ⟨hquiet, hmask, hstop⟩ := (h.2 i hfind).resolve_left hzero
    have hcount := toNat_fsReadCount_of_le (hlen.le.trans hsize)
    have hne := fsReadCount_ne_zero hcount hzero
    rw [if_neg hzero, hcount, if_pos ⟨hinv.present_eq, hne, hmask, hquiet, hstop⟩, hlen]
    refine ⟨_, rfl, ?_⟩
    rw [fsFileData, hlen] at hfile
    exact hfile

theorem fsReadFile_of_no_answer (hinv : FsInv s) (hdata : fsContents s name = some data)
    (hsize : bufferLen ≤ 255 * fsBlockSize)
    (h : ¬ (data.length ≤ bufferLen ∧ FsAnswers s f name)) :
    (fsReadFile (s.withFaults f) (some name) bufferLen).2 = none := by
  obtain ⟨i, hfind, -, hlen⟩ := length_of_fsContents hinv hdata
  rw [fsReadFile_snd]
  cases hcheck : fsReadCheck (s.withFaults f) (some name) bufferLen with
  | none => rfl
  | some e =>
      obtain ⟨n, j, hn, hmounted, hfind', he, hle⟩ := fsReadCheck_eq_some_iff.mp hcheck
      rw [Option.some.injEq] at hn
      subst hn
      have hij : j = i := Option.some.inj (hfind'.symm.trans hfind)
      subst hij
      have he' : s.entries j = e := he
      subst he'
      have hnot : ¬ FsAnswers s f name := fun ha => h ⟨by omega, ha⟩
      have hcount := toNat_fsReadCount_of_le (hle.trans hsize)
      rw [Option.bind_some, if_neg, if_neg]
      · intro hread
        apply hnot
        refine ⟨hmounted, fun k hk => .inr ?_⟩
        have hkj : k = j := Option.some.inj (hk.symm.trans hfind)
        subst hkj
        obtain ⟨-, -, hmask, hquiet, hfit⟩ := hread
        rw [hcount] at hfit
        exact ⟨hquiet, hmask, hfit⟩
      · intro hzero
        apply hnot
        refine ⟨hmounted, fun k hk => .inl ?_⟩
        have hkj : k = j := Option.some.inj (hk.symm.trans hfind)
        rw [hkj, hzero]

theorem FsSynced.answers (h : FsSynced s) (hquiet : f.reads.headD false = false)
    (name : CString) : FsAnswers s f name := by
  refine ⟨h.mounted_eq, fun i hfind => ?_⟩
  have hstop := h.stop_le i (isUsed_of_fsFindEntry hfind).1
  by_cases hzero : fsEntryBlocks (s.entries i) = 0
  · exact .inl hzero
  · refine .inr ⟨hquiet, ?_, by omega⟩
    rw [UInt32.le_iff_toNat_le, toNat_ataLba28Mask]
    omega

end Answers

theorem fsDelivers_of_stored {s : FsState} (h : FsSynced s) {name : CString}
    {data : List UInt8} (hdata : fsContents s name = some data)
    (hsize : data.length ≤ 255 * fsBlockSize) {bufferLen : Nat}
    (hbuffer : data.length ≤ bufferLen) : FsDelivers s name bufferLen data := by
  have hanswers : FsAnswers s .none name := h.answers rfl name
  have hread := fsReadFile_of_answers h.toFsInv hdata hbuffer hsize hanswers
  rw [FsState.withFaults_self h.faults_eq] at hread
  exact hread

/-! ## Runs -/

theorem fsContents_of_fresh {s : FsState} (h : FsFresh s) : fsContents s = .empty := by
  ext name : 1
  have hfree : fsFindEntry s.entries name = none := by
    apply firstSlot_eq_none_iff.mpr
    intro i
    rw [h.entries_eq]
    rfl
  rw [fsContents, hfree]
  rfl

def fsStoreRun (calls : List (Faults × FsCall)) : FileStore :=
  runSteps (fun m c => FileStore.apply m c.2) FileStore.empty calls

/-- Runs of successful calls on short names refine the store. -/
theorem fsContents_run {s : FsState} (hfresh : FsFresh s) {calls : List (Faults × FsCall)}
    (hall : AllSteps fsStep FsShortSuccess s calls) :
    fsContents (runSteps fsStep s calls) = fsStoreRun calls := by
  have hinv : ∀ s c, FsSynced s ∧ FsUniqueNames s.entries → FsShortSuccess s c →
      FsSynced (fsStep s c) ∧ FsUniqueNames (fsStep s c).entries :=
    fun _ _ hs hc =>
      ⟨hs.1.step (fsSucceeds_of_shortSuccess hs.1 hc), fsStep_unique hc.1.copies hs.2⟩
  have habs : ∀ s c, FsSynced s ∧ FsUniqueNames s.entries → FsShortSuccess s c →
      fsContents (fsStep s c) = (fun m c => FileStore.apply m c.2) (fsContents s) c :=
    fun _ _ hs hc => fsContents_step hs.1 hs.2 hc
  have hrun : fsContents (runSteps fsStep s calls) =
      runSteps (fun m c => FileStore.apply m c.2) (fsContents s) calls :=
    abs_runSteps hinv habs calls s ⟨.of_fresh hfresh, .of_fresh hfresh⟩ hall
  rw [hrun, fsContents_of_fresh hfresh, fsStoreRun]

theorem fsReadFile_run {s : FsState} (hfresh : FsFresh s) {calls : List (Faults × FsCall)}
    (hall : AllSteps fsStep FsShortSuccess s calls) (name : CString) {bufferLen : Nat} :
    (fsStoreRun calls name = none →
        (fsReadFile (runSteps fsStep s calls) (some name) bufferLen).2 = none) ∧
      ∀ data, fsStoreRun calls name = some data → data.length ≤ 255 * fsBlockSize →
        data.length ≤ bufferLen →
          FsDelivers (runSteps fsStep s calls) name bufferLen data := by
  rw [← fsContents_run hfresh hall]
  constructor
  · exact fun hnone => fsReadFile_of_not_stored hnone bufferLen
  · intro data hdata hsize hbuffer
    have hsynced := synced_of_shortSuccess (Reach.runSteps calls (.start hfresh) hall)
    exact fsDelivers_of_stored hsynced hdata hsize hbuffer

end AcharyaOS.Fs
