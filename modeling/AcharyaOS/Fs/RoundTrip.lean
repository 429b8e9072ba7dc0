import AcharyaOS.Fs.Lookup
import AcharyaOS.Fs.View

/-!
# Reading back what was written

The writer stores a file sector by sector, the reader asks for all of it in one
command whose sector count is eight bits wide, and for whole sectors only.
-/

namespace AcharyaOS.Fs

open Foundation Disk

/-! ## The written sectors -/

theorem content_of_writes {p : FsPlan} {start : UInt32} {data : List UInt8} {n : Nat}
    (hp : p.shadow = placed start.toNat (fsDataSectors data n))
    (hstart : fsDataLba.toNat ≤ start.toNat) (c : Nat → Sector) {j : Nat} (hj : j < n) :
    applyWrites c p.writes (start.toNat + j) = fsBlockSector data j := by
  rw [FsPlan.writes, applyWrites_append, applyWrites_of_ne]
  · rw [hp, applyWrites_placed _ _ _ _ (by rwa [length_fsDataSectors])]
    simp [fsDataSectors]
  · intro w hw
    rw [List.mem_singleton.mp hw, FsPlan.commit]
    show fsTableLba.toNat ≠ _
    rw [toNat_fsDataLba] at hstart
    rw [toNat_fsTableLba]
    omega

/-- The entry in slot `idx` describes `data`, and the disk holds it there. -/
structure FsHolds (s : FsState) (idx : Fin fsFilesMax) (data : List UInt8) : Prop where
  size_le : data.length ≤ fsMaxFileBytes
  size_eq : (s.entries idx).sizeBytes.toNat = data.length
  blocks_eq : fsEntryBlocks (s.entries idx) = fsBlockCount data.length
  fits : fsBlockCount data.length = 0 ∨
    (s.entries idx).startLba.toNat + fsBlockCount data.length ≤
      min s.ata.device.capacity (2 ^ 28)
  bytes_eq : fsFileBytes s.ata.device.content (s.entries idx) =
    (fsDataSectors data (fsBlockCount data.length)).flatMap Bytes.toList

theorem fsHolds_of_written {s : FsState} (hinv : FsInv s) {f : Faults} {name : CString}
    {data : List UInt8}
    (hok : (fsExec s (f, .writeFile (some name) (some data))).2 = 0) :
    ∃ idx, FsHolds (fsStep s (f, .writeFile (some name) (some data))) idx data ∧
      (fsStep s (f, .writeFile (some name) (some data))).info.mounted = true ∧
      (name.length < fsNameMax →
        fsFindEntry (fsStep s (f, .writeFile (some name) (some data))).entries name =
          some idx) := by
  obtain ⟨idx, claimed, hclaim, hmounted, hsize, hentries, hwrote, hmounted', hbound⟩ :=
    fsExec_write_zero_cases hok
  have hstart : ((fsStep s (f, .writeFile (some name) (some data))).entries idx).startLba =
      fsNextFreeLba s.info.dataStartLba claimed := by
    rw [hentries, fsWritePlan_entries_self]
  have hblocks : fsEntryBlocks ((fsStep s (f, .writeFile (some name)
      (some data))).entries idx) = fsBlockCount data.length := by
    rw [hentries, fsWritePlan_entries_self, fsEntryBlocks_placed _ _ hsize]
  have hdata : fsDataLba.toNat ≤ (fsNextFreeLba s.info.dataStartLba claimed).toNat := by
    rw [← hinv.data_start hmounted]
    exact dataStart_le_fsNextFreeLba _ _
  have hfits := (fsWritePlan_shadow_lt_iff s.info.dataStartLba idx claimed data
    (min s.ata.device.capacity (2 ^ 28))).mp fun w hw => Nat.lt_min.mpr (hbound w hw).symm
  refine ⟨idx, ⟨hsize, ?_, hblocks, ?_, ?_⟩, hmounted', ?_⟩
  · rw [hentries, fsWritePlan_entries_self]
    exact toNat_ofNat_size hsize
  · rw [hstart, hwrote.device.capacity_eq]
    exact hfits
  · rw [fsFileBytes, hblocks, hstart, hwrote.device.content_eq, fsDataSectors,
      List.flatMap_map]
    apply List.flatMap_congr
    intro j hj
    rw [content_of_writes rfl hdata _ (List.mem_range.mp hj)]
  · intro hname
    rw [hentries]
    exact fsWritePlan_find hclaim s.info.dataStartLba data hname

/-! ## The round trip -/

/-- `fs_read_file` returns 0, reports the size of `data` and delivers its bytes. -/
def FsDelivers (s : FsState) (name : CString) (bufferLen : Nat) (data : List UInt8) : Prop :=
  ∃ bytes, (fsReadFile s (some name) bufferLen).2 = some (data.length, bytes) ∧
    bytes.take data.length = data

theorem length_le_fsBlockCount (data : List UInt8) :
    data.length ≤ fsBlockCount data.length * fsBlockSize := by
  simp only [fsBlockCount, fsBlockSize]
  omega

theorem FsHolds.read {s : FsState} (hinv : FsInv s) (hmounted : s.info.mounted = true)
    {idx : Fin fsFilesMax} {data : List UInt8} (h : FsHolds s idx data) {name : CString}
    (hfind : fsFindEntry s.entries name = some idx) {bufferLen : Nat}
    (hbuffer : data.length ≤ bufferLen) :
    (fsReadFile s (some name) bufferLen).2 =
      if fsBlockCount data.length = 0 then some (0, [])
      else if fsBlockCount data.length < 256 then
        some (data.length,
          (fsDataSectors data (fsBlockCount data.length)).flatMap Bytes.toList)
      else none := by
  have hcheck : fsReadCheck s (some name) bufferLen = some (s.entries idx) :=
    fsReadCheck_eq_some_iff.mpr
      ⟨name, idx, rfl, hmounted, hfind, rfl, by rw [h.size_eq]; exact hbuffer⟩
  have hfits := h.fits
  rw [← h.blocks_eq] at hfits
  rw [fsReadFile_of_fits hinv.faults_eq hinv.present_eq hcheck (hinv.table.blocks_le idx)
    hfits, h.blocks_eq, h.size_eq, h.bytes_eq]

/-- A read delivers the data exactly when there are at most 255 sectors of it. -/
theorem FsHolds.delivers_iff {s : FsState} (hinv : FsInv s)
    (hmounted : s.info.mounted = true) {idx : Fin fsFilesMax} {data : List UInt8}
    (h : FsHolds s idx data) {name : CString} (hfind : fsFindEntry s.entries name = some idx)
    {bufferLen : Nat} (hbuffer : fsBlockCount data.length * fsBlockSize ≤ bufferLen) :
    FsDelivers s name bufferLen data ↔ data.length ≤ 255 * fsBlockSize := by
  have hround := length_le_fsBlockCount data
  have hcount : data.length ≤ 255 * fsBlockSize ↔ fsBlockCount data.length < 256 := by
    simp only [fsBlockCount, fsBlockSize]
    omega
  unfold FsDelivers
  rw [h.read hinv hmounted hfind (hround.trans hbuffer), hcount]
  by_cases hzero : fsBlockCount data.length = 0
  · have hnil : data = [] := by
      apply List.eq_nil_of_length_eq_zero
      simp only [fsBlockCount] at hzero
      omega
    rw [if_pos hzero, hnil]
    exact iff_of_true ⟨[], rfl, rfl⟩ (by decide)
  · rw [if_neg hzero]
    by_cases hfit : fsBlockCount data.length < 256
    · rw [if_pos hfit]
      refine iff_of_true ⟨_, rfl, ?_⟩ hfit
      rw [flatMap_fsDataSectors _ _ hround, List.take_left]
    · rw [if_neg hfit]
      simp [hfit]

theorem FsReachable.delivers_written {s : FsState} (h : FsReachable s) {f : Faults}
    {name : CString} {data : List UInt8} (hname : name.length < fsNameMax)
    (hok : (fsExec s (f, .writeFile (some name) (some data))).2 = 0)
    (hsize : data.length ≤ 255 * fsBlockSize) {bufferLen : Nat}
    (hbuffer : fsBlockCount data.length * fsBlockSize ≤ bufferLen) :
    FsDelivers (fsStep s (f, .writeFile (some name) (some data))) name bufferLen data := by
  obtain ⟨idx, hholds, hmounted, hfind⟩ := fsHolds_of_written h.inv hok
  have hinv := h.inv.step (f, .writeFile (some name) (some data))
  exact (hholds.delivers_iff hinv hmounted (hfind hname) hbuffer).mpr hsize

/-- A file just written is read back intact exactly when it has at most 255 sectors. -/
theorem fsDelivers_written_iff {s : FsState} (h : FsReachable s) {f : Faults}
    {name : CString} {data : List UInt8} (hname : name.length < fsNameMax)
    (hok : (fsExec s (f, .writeFile (some name) (some data))).2 = 0) :
    (∀ bufferLen, fsBlockCount data.length * fsBlockSize ≤ bufferLen →
        FsDelivers (fsStep s (f, .writeFile (some name) (some data))) name bufferLen data) ↔
      data.length ≤ 255 * fsBlockSize := by
  obtain ⟨idx, hholds, hmounted, hfind⟩ := fsHolds_of_written h.inv hok
  have hinv := h.inv.step (f, .writeFile (some name) (some data))
  constructor
  · intro hall
    exact (hholds.delivers_iff hinv hmounted (hfind hname) le_rfl).mp (hall _ le_rfl)
  · intro hsize bufferLen hbuffer
    exact (hholds.delivers_iff hinv hmounted (hfind hname) hbuffer).mpr hsize

theorem fsDelivers_written_blank :
    FsDelivers (fsStep (fsBlankDisk 5000)
      (.none, .writeFile (some fsNameA) (some [1, 2, 3]))) fsNameA 512 [1, 2, 3] := by
  have hreach : FsReachable (fsBlankDisk 5000) := .start (fsFresh_blankDisk (by decide))
  have hok : (fsExec (fsBlankDisk 5000)
      (.none, .writeFile (some fsNameA) (some [1, 2, 3]))).2 = 0 := by decide +kernel
  exact (fsDelivers_written_iff hreach (by decide) hok).mpr (by decide) 512 (by decide)

/-! ### A file of 256 sectors -/

theorem fsReadFile_of_largest {data : List UInt8} (hlen : data.length = fsMaxFileBytes) :
    (fsExec (fsBlankDisk 5000) (.none, .writeFile (some fsNameA) (some data))).2 = 0 ∧
      (fsReadFile (fsStep (fsBlankDisk 5000) (.none, .writeFile (some fsNameA) (some data)))
        (some fsNameA) fsMaxFileBytes).2 = none := by
  have hinv : FsInv (fsBlankDisk 5000) := .of_fresh (fsFresh_blankDisk (by decide))
  have hcount : fsBlockCount fsMaxFileBytes = 256 := by decide
  have hclaim : fsClaimEntry (fsBlankDisk 5000).entries fsNameA =
      some (0, Function.update FsTable.zero 0
        { FsDiskEntry.zero with name := fsCopyName (.zero _) fsNameA, used := 1 }) := by
    rw [fsBlankDisk_entries]
    rfl
  have hnext : (fsNextFreeLba (fsBlankDisk 5000).info.dataStartLba
      (Function.update FsTable.zero 0
        { FsDiskEntry.zero with name := fsCopyName (.zero _) fsNameA, used := 1 })).toNat =
      4098 := by decide +kernel
  have hok : (fsExec (fsBlankDisk 5000)
      (.none, .writeFile (some fsNameA) (some data))).2 = 0 := by
    apply (fsWriteFile_zero_iff_fits hinv (by decide +kernel) hlen.le hclaim).mpr
    rw [hlen, hcount, hnext]
    decide +kernel
  refine ⟨hok, ?_⟩
  obtain ⟨idx, hholds, hmounted, hfind⟩ := fsHolds_of_written hinv hok
  have hfull : ¬ fsBlockCount data.length < 256 := by
    rw [hlen, hcount]
    decide
  have hne : fsBlockCount data.length ≠ 0 := by
    rw [hlen, hcount]
    decide
  rw [hholds.read (hinv.step _) hmounted (hfind (by decide)) hlen.le, if_neg hne, if_neg hfull]

/-- `FS_MAX_FILE_BYTES` bytes. -/
def fsLargestFile : List UInt8 := List.replicate fsMaxFileBytes 1

theorem length_fsLargestFile : fsLargestFile.length = fsMaxFileBytes := List.length_replicate

theorem fsLargestFile_unreadable :
    FsReachable (fsBlankDisk 5000) ∧
      fsBlockCount fsLargestFile.length * fsBlockSize = fsMaxFileBytes ∧
      (fsExec (fsBlankDisk 5000) (.none, .writeFile (some fsNameA) (some fsLargestFile))).2 =
        0 ∧
      (fsReadFile (fsStep (fsBlankDisk 5000)
        (.none, .writeFile (some fsNameA) (some fsLargestFile))) (some fsNameA)
        fsMaxFileBytes).2 = none := by
  refine ⟨.start (fsFresh_blankDisk (by decide)), ?_, fsReadFile_of_largest length_fsLargestFile⟩
  rw [length_fsLargestFile]
  decide

/-! ## Whole sectors into the caller's buffer -/

/-- The bytes `fs_read_file` asks the disk layer to store. -/
def fsTransferBytes (e : FsDiskEntry) : Nat := (fsReadCount e).toNat * fsBlockSize

/-- The functions that read files into a buffer of their own. -/
inductive FsReader
  | browserPreviewFile
  | configLoad
  | packageInstall
  | packageLoadIndex
  | editorLoad
  | shellCat
  deriving DecidableEq

def FsReader.bufferLen : FsReader → Nat
  | .browserPreviewFile => 256
  | .configLoad => 1024
  | .packageInstall => 2048
  | .packageLoadIndex => 2048
  | .editorLoad => 32 * 64
  | .shellCat => fsBlockSize * 4

/-- A read stays within the buffer exactly when the file has more than 255 sectors, in
which case nothing is read, or its sectors fit into the whole sectors of the buffer. -/
theorem fsTransferBytes_le_iff {s : FsState} (h : FsReachable s) :
    (∀ name bufferLen e, fsReadCheck s name bufferLen = some e →
      (fsTransferBytes e ≤ bufferLen ↔
        255 * fsBlockSize < e.sizeBytes.toNat ∨
          e.sizeBytes.toNat ≤ bufferLen / fsBlockSize * fsBlockSize)) ∧
    ∀ (r : FsReader) name e, fsReadCheck s name r.bufferLen = some e →
      (fsTransferBytes e ≤ r.bufferLen ↔
        r ≠ .browserPreviewFile ∨ e.sizeBytes.toNat = 0) := by
  have hsize : ∀ {name bufferLen e}, fsReadCheck s name bufferLen = some e →
      e.sizeBytes.toNat ≤ fsMaxFileBytes ∧ e.sizeBytes.toNat ≤ bufferLen ∧
        fsTransferBytes e = (e.sizeBytes.toNat + 511) / 512 % 256 * 512 := by
    intro name bufferLen e he
    obtain ⟨n, i, -, -, -, rfl, hle⟩ := fsReadCheck_eq_some_iff.mp he
    have hmax := h.inv.table.size_le i
    refine ⟨hmax, hle, ?_⟩
    rw [fsTransferBytes, toNat_fsReadCount, fsEntryBlocks, toNat_fsBlocksForBytes hmax]
  constructor
  · intro name bufferLen e he
    obtain ⟨hmax, hle, htransfer⟩ := hsize he
    rw [htransfer]
    simp only [fsMaxFileBytes, fsBlockSize] at hmax ⊢
    omega
  · intro r name e he
    obtain ⟨hmax, hle, htransfer⟩ := hsize he
    rw [htransfer]
    cases r <;> simp only [FsReader.bufferLen, fsBlockSize, ne_eq, reduceCtorEq,
      not_true_eq_false, not_false_eq_true, false_or, true_or, iff_true] at hle ⊢ <;> omega

theorem fsTransferBytes_le_oneFile :
    fsTransferBytes (fsOneFile.entries 0) ≤ FsReader.shellCat.bufferLen :=
  ((fsTransferBytes_le_iff (fsSuccessful_oneFile.mono fun _ _ _ => trivial)).2 .shellCat
    (some fsNameA) _ (by decide +kernel)).mpr (by decide)

/-! ### A two-byte file in the preview buffer -/

theorem fsReadFile_overruns_preview :
    FsReachable fsOneFile ∧
      fsReadCheck fsOneFile (some fsNameA) FsReader.browserPreviewFile.bufferLen =
        some (fsOneFile.entries 0) ∧
      FsReader.browserPreviewFile.bufferLen < fsTransferBytes (fsOneFile.entries 0) ∧
      (fsReadFile fsOneFile (some fsNameA) FsReader.browserPreviewFile.bufferLen).2 =
        some (2, 1 :: 2 :: List.replicate 510 0) :=
  ⟨fsSuccessful_oneFile.mono fun _ _ _ => trivial, by decide +kernel, by decide +kernel,
    by decide +kernel⟩

end AcharyaOS.Fs
