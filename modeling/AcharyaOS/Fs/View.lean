import AcharyaOS.Fs.Synced

/-!
# What callers see

Listings and reads of a state whose disk works, and of the state `fs_init`
builds from a disk image at power-on.  Both depend on the disk only through the
metadata sectors and the sectors of the files in the table.
-/

namespace AcharyaOS.Fs

open Foundation Disk

theorem toNat_fsReadCount (e : FsDiskEntry) : (fsReadCount e).toNat = fsEntryBlocks e % 256 := by
  rw [fsReadCount, UInt32.toNat_toUInt8, fsEntryBlocks]

theorem fsReadCount_le (e : FsDiskEntry) : (fsReadCount e).toNat ≤ fsEntryBlocks e := by
  rw [toNat_fsReadCount]
  exact Nat.mod_le _ _

theorem fsReadCount_ne_zero {e : FsDiskEntry} (h : (fsReadCount e).toNat = fsEntryBlocks e)
    (hblocks : fsEntryBlocks e ≠ 0) : fsReadCount e ≠ 0 := by
  intro hzero
  rw [hzero] at h
  exact hblocks h.symm

theorem fsReadCheck_eq_some_iff {s : FsState} {name : Option CString} {bufferLen : Nat}
    {e : FsDiskEntry} :
    fsReadCheck s name bufferLen = some e ↔
      ∃ n i, name = some n ∧ s.info.mounted = true ∧ fsFindEntry s.entries n = some i ∧
        s.entries i = e ∧ e.sizeBytes.toNat ≤ bufferLen := by
  unfold fsReadCheck
  cases name with
  | none => simp
  | some n =>
      by_cases hmounted : s.info.mounted = true
      · cases hfind : fsFindEntry s.entries n with
        | none => simp [hmounted, hfind]
        | some i =>
            by_cases hlen : bufferLen < (s.entries i).sizeBytes.toNat
            · simp only [hmounted, hfind, hlen, Bool.not_true, Bool.false_eq_true, if_false,
                if_true, reduceCtorEq, false_iff]
              rintro ⟨n', i', hn, -, hi, rfl, hle⟩
              rw [Option.some.injEq] at hn
              subst hn
              rw [hfind, Option.some.injEq] at hi
              subst hi
              omega
            · simp only [hmounted, hfind, hlen, Bool.not_true, Bool.false_eq_true, if_false,
                Option.some.injEq]
              constructor
              · rintro rfl
                exact ⟨n, i, rfl, trivial, hfind, rfl, Nat.le_of_not_lt hlen⟩
              · rintro ⟨n', i', rfl, -, hi, he, -⟩
                rw [hfind, Option.some.injEq] at hi
                rw [hi, he]
      · simp [hmounted]

theorem fsReadCheck_congr {s t : FsState} {name : Option CString} {bufferLen : Nat}
    (hmounted : t.info.mounted = s.info.mounted)
    (hfind : ∀ n, name = some n → fsFindEntry t.entries n = fsFindEntry s.entries n)
    (hentry : ∀ n i, name = some n → fsFindEntry s.entries n = some i →
      t.entries i = s.entries i) :
    fsReadCheck t name bufferLen = fsReadCheck s name bufferLen := by
  unfold fsReadCheck
  cases name with
  | none => rfl
  | some n =>
      simp only [hmounted, hfind n rfl]
      cases hi : fsFindEntry s.entries n with
      | none => rfl
      | some i => simp only [hentry n i rfl hi]

/-! ## Reads -/

theorem fsReadFile_snd (s : FsState) (name : Option CString) (bufferLen : Nat) :
    (fsReadFile s name bufferLen).2 =
      (fsReadCheck s name bufferLen).bind fun e =>
        if fsEntryBlocks e = 0 then some (0, [])
        else if s.ata.present = true ∧ fsReadCount e ≠ 0 ∧ e.startLba ≤ ataLba28Mask ∧
            s.ata.device.faults.reads.headD false = false ∧
            e.startLba.toNat + (fsReadCount e).toNat ≤ s.ata.device.capacity then
          some (e.sizeBytes.toNat, (List.range (fsReadCount e).toNat).flatMap fun j =>
            (s.ata.device.content (e.startLba.toNat + j)).toList)
        else none := by
  unfold fsReadFile
  cases fsReadCheck s name bufferLen with
  | none => rfl
  | some e =>
      have hzero : (fsBlocksForBytes e.sizeBytes == 0) = true ↔ fsEntryBlocks e = 0 := by
        rw [beq_iff_eq, ← UInt32.toNat_inj]
        rfl
      simp only [Option.bind_some, hzero]
      split
      · rfl
      · rw [ataReadSectors_snd]
        simp only [apply_ite (Option.map _), Option.map_some, Option.map_none]

/-! ## Reads of a working disk -/

theorem fsReadFile_of_no_faults {s : FsState} (hfaults : s.ata.device.faults = .none)
    (name : Option CString) (bufferLen : Nat) :
    (fsReadFile s name bufferLen).2 =
      (fsReadCheck s name bufferLen).bind fun e =>
        if fsEntryBlocks e = 0 then some (0, [])
        else if s.ata.present = true ∧ fsReadCount e ≠ 0 ∧ e.startLba ≤ ataLba28Mask ∧
            e.startLba.toNat + (fsReadCount e).toNat ≤ s.ata.device.capacity then
          some (e.sizeBytes.toNat, (List.range (fsReadCount e).toNat).flatMap fun j =>
            (s.ata.device.content (e.startLba.toNat + j)).toList)
        else none := by
  have hhead : s.ata.device.faults.reads.headD false = false := by rw [hfaults]; rfl
  rw [fsReadFile_snd]
  simp only [hhead, true_and]

/-- The sectors of an entry's file, one after the other. -/
def fsFileBytes (content : Nat → Sector) (e : FsDiskEntry) : List UInt8 :=
  (List.range (fsEntryBlocks e)).flatMap fun j => (content (e.startLba.toNat + j)).toList

/-- An update call writes no sector of a file of the table before it. -/
theorem FsFollows.file_content {s : FsState} {c : FsCall} {p : FsPlan}
    {ws : List (Nat × Sector)} {r : FsState × Int} (hinv : FsInv s)
    (hplan : fsPlan s c = some p) (h : FsFollows s p ws r) {i : Fin fsFilesMax}
    (hi : (s.entries i).isUsed = true)
    (hstop : (s.entries i).startLba.toNat + fsEntryBlocks (s.entries i) < 2 ^ 32) {j : Nat}
    (hj : j < fsEntryBlocks (s.entries i)) :
    r.1.ata.device.content ((s.entries i).startLba.toNat + j) =
      s.ata.device.content ((s.entries i).startLba.toNat + j) := by
  have hshadow := (fsPlan_inv hplan hinv.table hinv.data_start).2
  have hstart := hinv.table.start_ge i hi
  apply (h.content fun w hw => (hshadow w hw).1).2
  · rw [toNat_fsDataLba] at hstart
    rw [toNat_fsTableLba]
    omega
  · intro w hw
    have hle := (hshadow w hw).2 i _ (fsExtents_of_lt hi hstop)
    rw [Extent.stop_mk] at hle
    omega

/-- The result of a read whose file lies on sectors of the disk: 256 sectors are one too
many for the 8-bit count. -/
theorem fsReadFile_of_fits {s : FsState} (hfaults : s.ata.device.faults = .none)
    (hpresent : s.ata.present = true) {name : Option CString} {bufferLen : Nat}
    {e : FsDiskEntry} (hcheck : fsReadCheck s name bufferLen = some e)
    (hblocks : fsEntryBlocks e ≤ 256)
    (hstop : fsEntryBlocks e = 0 ∨
      e.startLba.toNat + fsEntryBlocks e ≤ min s.ata.device.capacity (2 ^ 28)) :
    (fsReadFile s name bufferLen).2 =
      if fsEntryBlocks e = 0 then some (0, [])
      else if fsEntryBlocks e < 256 then
        some (e.sizeBytes.toNat, fsFileBytes s.ata.device.content e)
      else none := by
  rw [fsReadFile_of_no_faults hfaults, hcheck, Option.bind_some]
  have hcount := toNat_fsReadCount e
  by_cases hzero : fsEntryBlocks e = 0
  · rw [if_pos hzero, if_pos hzero]
  · rw [if_neg hzero, if_neg hzero]
    by_cases hfit : fsEntryBlocks e < 256
    · rw [Nat.mod_eq_of_lt hfit] at hcount
      have hne := fsReadCount_ne_zero hcount hzero
      have hmask : e.startLba ≤ ataLba28Mask := by
        rw [UInt32.le_iff_toNat_le, toNat_ataLba28Mask]
        omega
      rw [if_pos hfit, hcount, if_pos ⟨hpresent, hne, hmask, by omega⟩, fsFileBytes]
    · have hfull : fsEntryBlocks e = 256 := by omega
      rw [if_neg hfit, if_neg]
      rintro ⟨-, hne, -⟩
      apply hne
      rw [← UInt8.toNat_inj, hcount, hfull]
      rfl

/-- Two states whose checks agree and that hold the same file sectors answer a
read alike. -/
theorem fsReadFile_congr {s t : FsState} (hs : s.ata.device.faults = .none)
    (ht : t.ata.device.faults = .none) (hpresent : t.ata.present = s.ata.present)
    (hcap : t.ata.device.capacity = s.ata.device.capacity) {name : Option CString}
    {bufferLen : Nat} (hcheck : fsReadCheck t name bufferLen = fsReadCheck s name bufferLen)
    (hcontent : ∀ e, fsReadCheck s name bufferLen = some e →
      ∀ j < fsEntryBlocks e, e.startLba ≤ ataLba28Mask →
        t.ata.device.content (e.startLba.toNat + j) =
          s.ata.device.content (e.startLba.toNat + j)) :
    (fsReadFile t name bufferLen).2 = (fsReadFile s name bufferLen).2 := by
  rw [fsReadFile_of_no_faults hs, fsReadFile_of_no_faults ht, hcheck, hpresent, hcap]
  cases he : fsReadCheck s name bufferLen with
  | none => rfl
  | some e =>
      simp only [Option.bind_some]
      by_cases hmask : e.startLba ≤ ataLba28Mask
      · have hsame : ((List.range (fsReadCount e).toNat).flatMap fun j =>
              (t.ata.device.content (e.startLba.toNat + j)).toList) =
            (List.range (fsReadCount e).toNat).flatMap fun j =>
              (s.ata.device.content (e.startLba.toNat + j)).toList := by
          apply List.flatMap_congr
          intro j hj
          have hlt := List.mem_range.mp hj
          have hle := fsReadCount_le e
          rw [hcontent e he j (by omega) hmask]
        rw [hsame]
      · simp only [hmask, false_and, and_false, if_false]

/-! ## Views -/

/-- The answers of `fs_get_info`, `fs_list_files` and `fs_read_file`. -/
structure FsView where
  info : FsInfo
  files : Nat → List FsFileEntry
  read : Option CString → Nat → Option (Nat × List UInt8)

def fsView (s : FsState) : FsView where
  info := s.info
  files := fsListFiles s
  read name bufferLen := (fsReadFile s name bufferLen).2

/-- The view after `fs_init` has mounted a disk image on a working disk. -/
def fsBootView (capacity : Nat) (content : Nat → Sector) : FsView :=
  fsView (fsInit (fsPowerOn capacity content))

/-- The state `fs_init` mounts from a disk with a valid superblock. -/
def fsMountedState (capacity : Nat) (content : Nat → Sector) : FsState where
  ata := (fsPowerOn capacity content).ata
  info := fsMountInfo (fsDecodeSuperblock (content fsSuperblockLba.toNat))
    (fsMountTable content)
  cache i := fsSyncEntry (fsMountTable content i)
  entries := fsMountTable content

theorem fsInit_powerOn {capacity : Nat} (hcap : fsDataLba.toNat ≤ capacity)
    {content : Nat → Sector} (hformatted : FsFormatted content) :
    fsInit (fsPowerOn capacity content) = fsMountedState capacity content :=
  fsInit_of_formatted (s := fsPowerOn capacity content) rfl rfl hcap hformatted

theorem fsBootView_congr {capacity : Nat} (hcap : fsDataLba.toNat ≤ capacity)
    {content content' : Nat → Sector} (hformatted : FsFormatted content)
    (hsuper : content' fsSuperblockLba.toNat = content fsSuperblockLba.toNat)
    (htable : content' fsTableLba.toNat = content fsTableLba.toNat)
    (hfiles : ∀ i, (fsMountTable content i).isUsed = true →
      ∀ j < fsEntryBlocks (fsMountTable content i),
        content' ((fsMountTable content i).startLba.toNat + j) =
          content ((fsMountTable content i).startLba.toNat + j)) :
    fsBootView capacity content' = fsBootView capacity content := by
  have hformatted' : FsFormatted content' := by
    rw [FsFormatted, hsuper]
    exact hformatted
  have hmount : fsMountTable content' = fsMountTable content := by
    rw [fsMountTable, fsMountTable, htable]
  have hread : ∀ name bufferLen,
      (fsReadFile (fsMountedState capacity content') name bufferLen).2 =
        (fsReadFile (fsMountedState capacity content) name bufferLen).2 := by
    intro name bufferLen
    refine fsReadFile_congr (s := fsMountedState capacity content)
      (t := fsMountedState capacity content') rfl rfl rfl rfl ?_ ?_
    · exact fsReadCheck_congr rfl (fun n _ => congrArg (fsFindEntry · n) hmount)
        fun _ i _ _ => congrFun hmount i
    · intro e he j hj _
      obtain ⟨n, i, -, -, hfind, rfl, -⟩ := fsReadCheck_eq_some_iff.mp he
      exact hfiles i (isUsed_of_fsFindEntry hfind).1 j hj
  rw [fsBootView, fsBootView, fsInit_powerOn hcap hformatted, fsInit_powerOn hcap hformatted']
  simp only [fsView, hread]
  simp only [fsMountedState, hmount, hsuper]
  rfl

end AcharyaOS.Fs
