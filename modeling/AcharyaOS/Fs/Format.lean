import AcharyaOS.Fs.View

/-!
# Mounting and formatting an existing disk

`fs_init` formats whatever it could not read as well as what it did not accept.
On a disk that carries a filesystem this is the only way it writes.
-/

namespace AcharyaOS.Fs

open Foundation Disk

theorem fsLoadSuperblock_eq_none_iff (ata : Ata) :
    (fsLoadSuperblock ata).2 = none ↔
      ata.present = false ∨ ata.device.capacity ≤ fsSuperblockLba.toNat ∨
        ata.device.faults.reads.headD false = true := by
  have hmask : ¬ fsSuperblockLba > ataLba28Mask := by decide
  have hone : (1 : UInt8).toNat = 1 := rfl
  cases hpresent : ata.present with
  | false => simp [fsLoadSuperblock, ataReadSectors, hpresent]
  | true =>
      simp only [fsLoadSuperblock, ataReadSectors, hpresent, hmask, Bool.not_true,
        Bool.false_or, show ((1 : UInt8) == 0) = false from rfl, Bool.false_eq_true, if_false,
        Option.map_eq_none_iff, false_or, Device.read, hone, reduceCtorEq]
      rw [toNat_fsSuperblockLba]
      have hfit : ata.device.capacity < 4096 + 1 ↔ ata.device.capacity ≤ 4096 :=
        Nat.lt_succ_iff
      split_ifs with h
      · simp only [Bool.or_eq_true, decide_eq_true_eq, hfit] at h
        simpa using h
      · simp only [Bool.or_eq_true, decide_eq_true_eq, hfit] at h
        simpa using h

/-! ## The writes of a format -/

/-- The sector writes of `fs_format` that reach a present disk of the given capacity
when its write commands are answered as scripted. -/
def fsFormatStored (capacity : Nat) (writes : List WriteOutcome) : List (Nat × Sector) :=
  storedBy capacity (writes.headD .done) fsSuperblockLba.toNat
      [fsSuperblockSector fsFormatSuperblock] ++
    if fsSuperblockLba.toNat < capacity ∧ writes.headD .done = .done then
      storedBy capacity (writes.tail.headD .done) fsTableLba.toNat [fsTableSector .zero]
    else []

theorem ataWriteSectors_stored (ata : Ata) {lba : UInt32} {buffer : List UInt8}
    {sector : Sector} (hsector : Bytes.ofList ataSectorSize buffer = sector)
    (hpresent : ata.present = true) (hlba : ¬ lba > ataLba28Mask) :
    ata.Wrote (ataWriteSectors ata lba 1 buffer).1
        (storedBy ata.device.capacity (ata.device.faults.writes.headD .done) lba.toNat
          [sector]) ∧
      ((ataWriteSectors ata lba 1 buffer).2 = 0 ↔
        lba.toNat < ata.device.capacity ∧ ata.device.faults.writes.headD .done = .done) ∧
      (ataWriteSectors ata lba 1 buffer).1.device.faults.writes =
        ata.device.faults.writes.tail := by
  have hbuffer : bufferSectors buffer 1 = [sector] := by
    simp [bufferSectors, hsector]
  rw [ataWriteSectors_accepted ata buffer hpresent hlba, hbuffer]
  have hok := ata.device.write_ok_iff lba.toNat [sector]
  refine ⟨⟨rfl, ata.device.write_wrote _ _⟩, ?_, ?_⟩
  · rw [List.length_singleton] at hok
    rw [← Nat.succ_le_iff, ← hok]
    cases (ata.device.write lba.toNat [sector]).2 <;> simp
  · rw [Device.write_faults]

theorem fsFormat_stored {s : FsState} (hpresent : s.ata.present = true) :
    s.ata.Wrote (fsFormat s).1.ata
      (fsFormatStored s.ata.device.capacity s.ata.device.faults.writes) := by
  obtain ⟨hwrote, hok, hfaults⟩ := ataWriteSectors_stored s.ata
    (show _ = fsSuperblockSector fsFormatSuperblock from rfl) hpresent
    (show ¬ fsSuperblockLba > ataLba28Mask by decide)
  obtain ⟨hwrote', -, -⟩ := ataWriteSectors_stored
    (fsStoreSuperblock s.ata fsFormatSuperblock).1
    (show _ = fsTableSector .zero from rfl) (hwrote.present_eq.trans hpresent)
    (show ¬ fsTableLba > ataLba28Mask by decide)
  have hcap : (fsStoreSuperblock s.ata fsFormatSuperblock).1.device.capacity =
      s.ata.device.capacity := hwrote.device.capacity_eq
  have hrest : (fsStoreSuperblock s.ata fsFormatSuperblock).1.device.faults.writes =
      s.ata.device.faults.writes.tail := hfaults
  rw [hcap, hrest] at hwrote'
  unfold fsFormatStored
  by_cases hdone : fsSuperblockLba.toNat < s.ata.device.capacity ∧
      s.ata.device.faults.writes.headD .done = .done
  · rw [if_pos hdone]
    have hzero : (fsStoreSuperblock s.ata fsFormatSuperblock).2 = 0 := hok.mpr hdone
    have hboth := hwrote.trans hwrote'
    by_cases htable : (ataWriteSectors (fsStoreSuperblock s.ata fsFormatSuperblock).1
        fsTableLba 1 (fsTableCodec.encode .zero)).2 = 0
    · simp only [fsFormat, hzero, fsStoreTable, htable, ne_eq, not_true_eq_false, if_false]
      exact hboth
    · simp only [fsFormat, hzero, fsStoreTable, htable, ne_eq, not_true_eq_false,
        not_false_eq_true, if_false, if_true]
      exact hboth
  · rw [if_neg hdone, List.append_nil]
    have hfail : (fsStoreSuperblock s.ata fsFormatSuperblock).2 ≠ 0 := mt hok.mp hdone
    simp only [fsFormat, hfail, ne_eq, not_false_eq_true, if_true]
    exact hwrote

theorem nodup_fsFormatStored (capacity : Nat) (writes : List WriteOutcome) :
    ((fsFormatStored capacity writes).map Prod.fst).Nodup := by
  have hpre : (fsFormatStored capacity writes).Sublist fsFormatWrites := by
    show List.Sublist (_ ++ _) ([_] ++ [_])
    apply List.Sublist.append
    · exact (storedBy_prefix_placed _ _ _ _).sublist
    · split
      · exact (storedBy_prefix_placed _ _ _ _).sublist
      · exact List.nil_sublist _
  exact (hpre.map Prod.fst).nodup (by decide)

/-! ## Mounting keeps the disk -/

/-- No sector has changed, and the next boot with a working disk shows the same files. -/
def FsPreserved (s t : FsState) : Prop :=
  t.ata.device.content = s.ata.device.content ∧
    fsBootView t.ata.device.capacity t.ata.device.content =
      fsBootView s.ata.device.capacity s.ata.device.content

theorem fsPreserved_iff_of_wrote {s t : FsState} {ws : List (Nat × Sector)}
    (h : s.ata.Wrote t.ata ws) :
    FsPreserved s t ↔ applyWrites s.ata.device.content ws = s.ata.device.content := by
  rw [FsPreserved, h.device.content_eq, h.device.capacity_eq]
  constructor
  · exact fun hsame => hsame.1
  · intro hsame
    rw [hsame]
    exact ⟨rfl, rfl⟩

section Init

variable {s : FsState} {f : Faults}

theorem fsStep_init_of_absent (hpresent : s.ata.present = false) :
    s.ata.Wrote (fsStep s (f, .init)).ata [] := by
  have hnothing : fsInit (s.withFaults f) = fsClearCache (s.withFaults f) := by
    simp [fsInit, fsClearCache, FsState.withFaults, hpresent]
  apply wrote_withFaults (f := f)
  rw [FsCall.perform, hnothing]
  exact .refl _

theorem fsStep_init_of_read (hformatted : FsFormatted s.ata.device.content)
    (hpresent : s.ata.present = true) {sb : FsSuperblock}
    (hsb : (fsLoadSuperblock (s.withFaults f).ata).2 = some sb) :
    s.ata.Wrote (fsStep s (f, .init)).ata [] := by
  have hpresent' : (s.withFaults f).ata.present = true := hpresent
  have haccept : sb.accepted := by
    rw [fsLoadSuperblock_some hsb]
    exact hformatted
  exact wrote_withFaults (fsInit_of_accepted hpresent' hsb haccept).1

theorem fsStep_init_of_format (hpresent : s.ata.present = true)
    (hformat : fsInit (s.withFaults f) = (fsFormat { fsClearCache (s.withFaults f) with
      ata := (fsLoadSuperblock (s.withFaults f).ata).1 }).1) :
    s.ata.Wrote (fsStep s (f, .init)).ata
      (fsFormatStored s.ata.device.capacity f.writes) := by
  have hload : (s.withFaults f).ata.Wrote (fsLoadSuperblock (s.withFaults f).ata).1 [] :=
    ataReadSectors_wrote _ _ _
  have hfaults : (fsLoadSuperblock (s.withFaults f).ata).1.device.faults.writes = f.writes :=
    ataReadSectors_faults_writes _ _ _
  have hcap : (fsLoadSuperblock (s.withFaults f).ata).1.device.capacity =
      s.ata.device.capacity := hload.device.capacity_eq
  have hwrites := fsFormat_stored (s := { fsClearCache (s.withFaults f) with
    ata := (fsLoadSuperblock (s.withFaults f).ata).1 }) (hload.present_eq.trans hpresent)
  rw [show (FsState.ata _).device.capacity = s.ata.device.capacity from hcap,
    show (FsState.ata _).device.faults.writes = f.writes from hfaults] at hwrites
  apply wrote_withFaults (f := f)
  rw [FsCall.perform, hformat]
  exact hload.trans hwrites

theorem fsStep_init_of_unread (hpresent : s.ata.present = true)
    (hsb : (fsLoadSuperblock (s.withFaults f).ata).2 = none) :
    s.ata.Wrote (fsStep s (f, .init)).ata
      (fsFormatStored s.ata.device.capacity f.writes) := by
  have hpresent' : (s.withFaults f).ata.present = true := hpresent
  exact fsStep_init_of_format hpresent (fsInit_of_unreadable hpresent' hsb)

end Init

theorem fsFormatStored_of_short {capacity : Nat} (h : capacity ≤ fsSuperblockLba.toNat)
    (writes : List WriteOutcome) : fsFormatStored capacity writes = [] := by
  unfold fsFormatStored storedBy
  rw [List.length_singleton, if_pos (by omega), if_neg (by omega), List.append_nil]

/-- `fs_init` keeps an existing filesystem exactly when its read of the superblock
succeeds, or none of the sectors it then formats changes. -/
theorem fsPreserved_of_init_iff {s : FsState} (hformatted : FsFormatted s.ata.device.content)
    (f : Faults) :
    FsPreserved s (fsStep s (f, .init)) ↔
      s.ata.present = false ∨ f.reads.headD false = false ∨
        ∀ w ∈ fsFormatStored s.ata.device.capacity f.writes,
          s.ata.device.content w.1 = w.2 := by
  have hread := fsLoadSuperblock_eq_none_iff (s.withFaults f).ata
  cases hpresent : s.ata.present with
  | false =>
      rw [fsPreserved_iff_of_wrote (fsStep_init_of_absent hpresent), applyWrites_nil]
      exact iff_of_true rfl (Or.inl rfl)
  | true =>
      cases hsb : (fsLoadSuperblock (s.withFaults f).ata).2 with
      | some sb =>
          have hhead : f.reads.headD false = false := by
            rw [← Bool.not_eq_true]
            intro hfault
            have hnone := hread.mpr (Or.inr (Or.inr hfault))
            rw [hsb] at hnone
            exact absurd hnone (by simp)
          rw [fsPreserved_iff_of_wrote (fsStep_init_of_read hformatted hpresent hsb),
            applyWrites_nil]
          exact iff_of_true rfl (Or.inr (Or.inl hhead))
      | none =>
          rw [fsPreserved_iff_of_wrote (fsStep_init_of_unread hpresent hsb),
            applyWrites_eq_self_iff _ (nodup_fsFormatStored _ _)]
          constructor
          · exact fun h => Or.inr (Or.inr h)
          · rintro (hfalse | hhead | h)
            · exact absurd hfalse (by decide)
            · -- the read failed without a fault: the disk ends before the superblock
              have hshort : s.ata.device.capacity ≤ fsSuperblockLba.toNat := by
                rcases hread.mp hsb with hno | hle | hfault
                · exact absurd (hpresent.symm.trans hno) (by decide)
                · exact hle
                · exact absurd (hhead.symm.trans hfault) (by decide)
              rw [fsFormatStored_of_short hshort]
              simp
            · exact h

theorem fsPreserved_of_init_oneFile :
    FsPreserved fsOneFile (fsStep fsOneFile (⟨[false, true], []⟩, .init)) :=
  (fsPreserved_of_init_iff (by decide +kernel) ⟨[false, true], []⟩).mpr (Or.inr (Or.inl rfl))

/-! ### One failing read at boot -/

theorem fsInit_formats_after_read_error :
    FsFormatted fsOneFile.ata.device.content ∧
      (fsListFiles (fsStep fsOneFile (.none, .init)) 32).length = 1 ∧
      fsListFiles (fsStep (fsStep fsOneFile (⟨[true], []⟩, .init)) (.none, .init)) 32 = [] ∧
      ¬ FsPreserved fsOneFile (fsStep fsOneFile (⟨[true], []⟩, .init)) := by
  refine ⟨by decide +kernel, by decide +kernel, by decide +kernel, ?_⟩
  intro h
  have htable := congrFun h.1 4097
  exact absurd htable (by decide +kernel)

end AcharyaOS.Fs
