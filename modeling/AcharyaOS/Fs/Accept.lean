import AcharyaOS.Fs.Synced

/-!
# When a write is accepted

Whether `fs_write_file` returns 0 is settled by the state before the call and by the disk's
answers: there must be a slot for the entry, sectors for the data behind the last used one, and
every sector, the table's at the end, must be written without an error.
-/

namespace AcharyaOS.Fs

open Foundation Disk

theorem failed_ne_zero : ¬ (-1 : Int) = 0 := by decide

/-- The next `n` write commands of the script succeed. -/
def completes (f : Faults) (n : Nat) : Bool := (f.writes.take n).all (· == .done)

theorem completes_succ (f : Faults) (n : Nat) :
    completes f (n + 1) =
      (f.writes.headD .done == .done && completes ⟨f.reads, f.writes.tail⟩ n) := by
  obtain ⟨reads, writes⟩ := f
  cases writes with
  | nil => simp [completes]
  | cons o writes => simp [completes]

/-! ## Sectors -/

theorem ataWriteSectors_one_iff {ata : Ata} (lba : UInt32) (buffer : List UInt8)
    (hpresent : ata.present = true) :
    (ataWriteSectors ata lba 1 buffer).2 = 0 ↔
      lba.toNat < min ata.device.capacity (2 ^ 28) ∧
        (ata.device.faults.writes.headD .done == .done) = true := by
  have hmask : lba ≤ ataLba28Mask ↔ lba.toNat < 2 ^ 28 := by
    rw [UInt32.le_iff_toNat_le, toNat_ataLba28Mask]
    omega
  by_cases hlba : lba > ataLba28Mask
  · have hnot := mt hmask.mpr (UInt32.not_le.mpr hlba)
    have hfail : (ataWriteSectors ata lba 1 buffer).2 = -1 := by
      simp [ataWriteSectors, hlba]
    rw [hfail]
    refine iff_of_false (by decide) fun h => ?_
    omega
  · have hlt := hmask.mp (UInt32.not_lt.mp hlba)
    have hwrite := ata.device.write_ok_iff lba.toNat (bufferSectors buffer 1)
    rw [length_bufferSectors] at hwrite
    rw [ataWriteSectors_accepted ata buffer hpresent hlba, beq_iff_eq]
    calc (if (ata.device.write lba.toNat (bufferSectors buffer 1)).2 = true then (0 : Int)
            else -1) = 0
        ↔ (ata.device.write lba.toNat (bufferSectors buffer 1)).2 = true := by
          split <;> simp_all
      _ ↔ lba.toNat + 1 ≤ ata.device.capacity ∧
            ata.device.faults.writes.headD .done = .done := hwrite
      _ ↔ lba.toNat < min ata.device.capacity (2 ^ 28) ∧
            ata.device.faults.writes.headD .done = .done := by
          refine and_congr_left fun _ => ?_
          omega

theorem ataWriteSectors_faults {ata : Ata} {lba : UInt32} (buffer : List UInt8)
    (hpresent : ata.present = true) (hlba : lba.toNat < 2 ^ 28) :
    (ataWriteSectors ata lba 1 buffer).1.device.faults =
      ⟨ata.device.faults.reads, ata.device.faults.writes.tail⟩ := by
  have hmask : ¬ lba > ataLba28Mask := by
    rw [UInt32.not_lt, UInt32.le_iff_toNat_le, toNat_ataLba28Mask]
    omega
  rw [ataWriteSectors_accepted ata buffer hpresent hmask]
  exact ata.device.write_faults _ _

/-- The sectors of `n` blocks exist and the disk takes them all. -/
def FsBlocksFit (ata : Ata) (first n : Nat) : Prop :=
  (n = 0 ∨ first + n ≤ min ata.device.capacity (2 ^ 28)) ∧
    completes ata.device.faults n = true

theorem fsWriteBlocks_zero_iff (start : UInt32) (data : List UInt8) (n : Nat) :
    ∀ i ata, ata.present = true → start.toNat + i ≤ 2 ^ 28 →
      ((fsWriteBlocks start data i n ata).2 = 0 ↔ FsBlocksFit ata (start.toNat + i) n) ∧
        ((fsWriteBlocks start data i n ata).2 = 0 →
          (fsWriteBlocks start data i n ata).1.device.faults =
            ⟨ata.device.faults.reads, ata.device.faults.writes.drop n⟩) := by
  induction n with
  | zero =>
    intro i ata _ _
    refine ⟨iff_of_true rfl ⟨.inl rfl, ?_⟩, fun _ => rfl⟩
    simp [completes]
  | succ n ih =>
    intro i ata hpresent hstart
    have haddr : (start + UInt32.ofNat i).toNat = start.toNat + i := toNat_add_ofNat (by omega)
    have hone := ataWriteSectors_one_iff (start + UInt32.ofNat i)
      (Bytes.ofList fsBlockSize (fsChunk data i)).toList hpresent
    obtain ⟨ws, hwrote, -, -, hout⟩ := ataWriteSectors_one ata (start + UInt32.ofNat i)
      (Bytes.ofList fsBlockSize (fsChunk data i)).toList
    rw [haddr] at hone hout
    rcases hout with ⟨hok, -, -, -⟩ | hfail
    · obtain ⟨hlt, hdone⟩ := hone.mp hok
      have hfaults := ataWriteSectors_faults
        (Bytes.ofList fsBlockSize (fsChunk data i)).toList hpresent
        (haddr ▸ (by omega : start.toNat + i < 2 ^ 28))
      obtain ⟨hiff, hrest⟩ := ih (i + 1) _ (hwrote.present_eq.trans hpresent) (by omega)
      rw [fsWriteBlocks_succ_of_written n (Prod.ext rfl hok)]
      rw [hfaults, List.drop_tail] at hrest
      refine ⟨?_, hrest⟩
      rw [hiff, FsBlocksFit, FsBlocksFit, hwrote.device.capacity_eq, hfaults, completes_succ,
        hdone, Bool.true_and]
      refine and_congr_left fun _ => ?_
      omega
    · rw [fsWriteBlocks_succ_of_failed n (Prod.ext rfl hfail)]
      have hnot : ¬ FsBlocksFit ata (start.toNat + i) (n + 1) := by
        rintro ⟨hfit, hall⟩
        rw [completes_succ, Bool.and_eq_true] at hall
        have hok := hone.mpr ⟨by omega, hall.1⟩
        rw [hfail] at hok
        exact absurd hok (by decide)
      exact ⟨iff_of_false failed_ne_zero hnot, fun h => absurd h failed_ne_zero⟩

theorem fsWriteBlocks_iff (start : UInt32) (data : List UInt8) (n : Nat) {ata : Ata}
    (hpresent : ata.present = true) :
    ((fsWriteBlocks start data 0 n ata).2 = 0 ↔ FsBlocksFit ata start.toNat n) ∧
      ((fsWriteBlocks start data 0 n ata).2 = 0 →
        (fsWriteBlocks start data 0 n ata).1.device.faults =
          ⟨ata.device.faults.reads, ata.device.faults.writes.drop n⟩) := by
  by_cases hstart : start > ataLba28Mask
  · have hlt := UInt32.lt_iff_toNat_lt.mp hstart
    rw [toNat_ataLba28Mask] at hlt
    rw [fsWriteBlocks_of_unaddressable data n ata hstart]
    by_cases hn : n = 0
    · subst hn
      exact ⟨iff_of_true rfl ⟨.inl rfl, by simp [completes]⟩, fun _ => rfl⟩
    · simp only [hn, if_false]
      refine ⟨iff_of_false failed_ne_zero ?_, fun h => absurd h failed_ne_zero⟩
      rintro ⟨hfit, -⟩
      omega
  · have hle := UInt32.le_iff_toNat_le.mp (UInt32.not_lt.mp hstart)
    rw [toNat_ataLba28Mask] at hle
    exact fsWriteBlocks_zero_iff start data n 0 ata hpresent (by omega)

/-- The table's sector is on every disk with a data area. -/
theorem fsStoreTable_zero_iff {t : FsState} (hpresent : t.ata.present = true)
    (hroom : fsDataLba.toNat ≤ t.ata.device.capacity) :
    (fsStoreTable t).2 = 0 ↔ completes t.ata.device.faults 1 = true := by
  have hlba : fsTableLba.toNat < min t.ata.device.capacity (2 ^ 28) := by
    have htable : fsTableLba.toNat < fsDataLba.toNat := by decide
    have haddr : fsTableLba.toNat < 2 ^ 28 := by decide
    omega
  have hone : completes t.ata.device.faults 1 =
      (t.ata.device.faults.writes.headD .done == .done) := by
    rw [completes_succ, completes, List.take_zero, List.all_nil, Bool.and_true]
  rw [hone]
  exact (ataWriteSectors_one_iff fsTableLba _ hpresent).trans (and_iff_right hlba)

/-! ## Calls -/

/-- `fs_write_file` of `size` bytes under a name would return 0, the disk answering as the script
says. -/
structure FsAccepts (s : FsState) (f : Faults) (name : CString) (size : Nat) : Prop where
  mounted : s.info.mounted = true
  size_le : size ≤ fsMaxFileBytes
  slot : (fsFindEntry s.entries name).isSome ∨ (fsFindFreeEntry s.entries).isSome
  room : fsBlockCount size = 0 ∨
    (fsNextFreeLba s.info.dataStartLba s.entries).toNat + fsBlockCount size ≤
      min s.ata.device.capacity (2 ^ 28)
  completes_eq : completes f (fsBlockCount size + 1) = true

theorem fsClaimEntry_isSome_iff (entries : FsTable) (name : CString) :
    (fsClaimEntry entries name).isSome ↔
      (fsFindEntry entries name).isSome ∨ (fsFindFreeEntry entries).isSome := by
  unfold fsClaimEntry
  cases fsFindEntry entries name with
  | some i => simp
  | none =>
    cases fsFindFreeEntry entries with
    | some i => simp
    | none => simp

theorem completes_add (f : Faults) (n m : Nat) :
    completes f (n + m) = (completes f n && completes ⟨f.reads, f.writes.drop n⟩ m) := by
  rw [completes, List.take_add, List.all_append]
  rfl

theorem fsWriteFile_claimed_iff {s : FsState} (h : FsInv s) {f : Faults} {name : CString}
    {data : List UInt8} (hmounted : s.info.mounted = true)
    (hsize : data.length ≤ fsMaxFileBytes) {idx : Fin fsFilesMax} {claimed : FsTable}
    (hclaim : fsClaimEntry s.entries name = some (idx, claimed)) :
    (fsExec s (f, .writeFile (some name) (some data))).2 = 0 ↔
      (fsBlockCount data.length = 0 ∨
          (fsNextFreeLba s.info.dataStartLba s.entries).toNat + fsBlockCount data.length ≤
            min s.ata.device.capacity (2 ^ 28)) ∧
        completes f (fsBlockCount data.length + 1) = true := by
  have hblocks := toNat_fsBlocksForBytes_ofNat hsize
  have hnot : ¬ data.length > fsMaxFileBytes := Nat.not_lt.mpr hsize
  have hnext := fsNextFreeLba_claimed s.info.dataStartLba h.table hclaim
  have hpresent : (s.withFaults f).ata.present = true := h.present_eq
  obtain ⟨hloop, hrest⟩ := fsWriteBlocks_iff (fsNextFreeLba s.info.dataStartLba s.entries) data
    (fsBlockCount data.length) hpresent
  have hcount : fsBlockCount data.length ≤ 256 := by
    simp only [fsBlockCount, fsMaxFileBytes] at hsize ⊢
    omega
  obtain ⟨ws, hwrote, -⟩ := fsWriteBlocks_cases (fsNextFreeLba s.info.dataStartLba s.entries)
    data hcount (s.withFaults f).ata
  have hmounted' : (s.withFaults f).info.mounted = true := hmounted
  have hclaim' : fsClaimEntry (s.withFaults f).entries name = some (idx, claimed) := hclaim
  have hnext' : fsNextFreeLba (s.withFaults f).info.dataStartLba claimed =
      fsNextFreeLba s.info.dataStartLba s.entries := hnext
  rw [completes_add, Bool.and_eq_true, ← and_assoc]
  change _ ↔ FsBlocksFit (s.withFaults f).ata _ _ ∧ _
  rw [← hloop]
  simp only [fsExec, FsCall.perform, fsWriteFile, hmounted', hnot, hclaim', hblocks, hnext',
    Bool.not_true, Bool.false_eq_true, if_false]
  by_cases hok : (fsWriteBlocks (fsNextFreeLba s.info.dataStartLba s.entries) data 0
      (fsBlockCount data.length) (s.withFaults f).ata).2 = 0
  · have hroom : fsDataLba.toNat ≤ (s.withFaults f).ata.device.capacity := h.room
    rw [← hwrote.device.capacity_eq] at hroom
    have hstore := fsStoreTable_zero_iff (t := { s.withFaults f with
        entries := fsPlaceEntry claimed idx (fsNextFreeLba s.info.dataStartLba s.entries)
          data.length
        ata := (fsWriteBlocks (fsNextFreeLba s.info.dataStartLba s.entries) data 0
          (fsBlockCount data.length) (s.withFaults f).ata).1 })
      (hwrote.present_eq.trans h.present_eq) hroom
    rw [hrest hok] at hstore
    have htable : completes ⟨f.reads, f.writes.drop (fsBlockCount data.length)⟩ 1 = true ↔ _ :=
      hstore.symm
    simp only [hok, ne_eq, not_true_eq_false, if_false, true_and, htable]
    split
    · next hfailed => exact iff_of_false failed_ne_zero hfailed
    · next hstored => exact iff_of_true rfl (not_not.mp hstored)
  · simp only [hok, ne_eq, not_false_eq_true, if_true, false_and, iff_false]
    decide

/-- A write returns 0 exactly when it is accepted. -/
theorem fsWriteFile_zero_iff_accepts {s : FsState} (h : FsInv s) {f : Faults} {name : CString}
    {data : List UInt8} :
    (fsExec s (f, .writeFile (some name) (some data))).2 = 0 ↔
      FsAccepts s f name data.length := by
  constructor
  · intro hok
    obtain ⟨idx, claimed, hclaim, hmounted, hsize, -⟩ := fsExec_write_zero_cases hok
    obtain ⟨hroom, hcompletes⟩ := (fsWriteFile_claimed_iff h hmounted hsize hclaim).mp hok
    have hslot := (fsClaimEntry_isSome_iff s.entries name).mp (by rw [hclaim]; rfl)
    exact ⟨hmounted, hsize, hslot, hroom, hcompletes⟩
  · intro hacc
    have hslot := (fsClaimEntry_isSome_iff s.entries name).mpr hacc.slot
    obtain ⟨⟨idx, claimed⟩, hclaim⟩ := Option.isSome_iff_exists.mp hslot
    exact (fsWriteFile_claimed_iff h hacc.mounted hacc.size_le hclaim).mpr
      ⟨hacc.room, hacc.completes_eq⟩

end AcharyaOS.Fs
