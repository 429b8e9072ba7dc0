import AcharyaOS.Foundation.Run
import AcharyaOS.Fs.Alloc

/-!
# Mounting and reachable states

The three ways `fs_init` can end, the invariant every call keeps, and the
states reached from a freshly formatted disk.
-/

namespace AcharyaOS.Fs

open Foundation Disk Foundation.Run

theorem toNat_fsSuperblockLba : fsSuperblockLba.toNat = 4096 := rfl

theorem toNat_fsTableLba : fsTableLba.toNat = 4097 := rfl

theorem toNat_fsDataLba : fsDataLba.toNat = 4098 := rfl

/-! ## Formatting -/

/-- The sector writes of `fs_format`. -/
def fsFormatWrites : List (Nat × Sector) :=
  [(fsSuperblockLba.toNat, fsSuperblockSector fsFormatSuperblock),
    (fsTableLba.toNat, fsTableSector .zero)]

theorem fsFormat_cases (s : FsState) :
    ∃ ws, s.ata.Wrote (fsFormat s).1.ata ws ∧ ws <+: fsFormatWrites ∧
      (fsFormat s).1.entries = .zero ∧
      ((ws = fsFormatWrites ∧ (s.ata.present = true ∧
            fsDataLba.toNat ≤ s.ata.device.capacity) ∧
          (fsFormat s).1.info = fsFormatInfo ∧
          (fsFormat s).1.cache = fun _ => fsSyncEntry .zero) ∨
        ((fsFormat s).1.info = s.info ∧ (fsFormat s).1.cache = s.cache)) := by
  obtain ⟨ws, hwrote, hpre, -, hout⟩ :=
    ataWriteSectors_one s.ata fsSuperblockLba (fsSuperblockImage fsFormatSuperblock)
  have hcons : ws <+: fsFormatWrites :=
    hpre.trans (List.cons_prefix_cons.mpr ⟨rfl, List.nil_prefix⟩)
  rcases hout with ⟨hok, hws, hpresent, -⟩ | hfail
  · obtain ⟨vs, hwrote', hpre', -, hout'⟩ := ataWriteSectors_one
      (fsStoreSuperblock s.ata fsFormatSuperblock).1 fsTableLba
      (fsTableCodec.encode FsTable.zero)
    have hboth : s.ata.Wrote (ataWriteSectors (fsStoreSuperblock s.ata fsFormatSuperblock).1
        fsTableLba 1 (fsTableCodec.encode FsTable.zero)).1 (ws ++ vs) := hwrote.trans hwrote'
    have hissued : ws ++ vs <+: fsFormatWrites := by
      rw [hws]
      exact List.cons_prefix_cons.mpr ⟨rfl, hpre'⟩
    have hok' : (fsStoreSuperblock s.ata fsFormatSuperblock).2 = 0 := hok
    rcases hout' with ⟨hok'', hvs, -, hcap⟩ | hfail'
    · have hroom : fsDataLba.toNat ≤ s.ata.device.capacity := by
        rw [← hwrote.device.capacity_eq]
        exact hcap
      refine ⟨ws ++ vs, ?_⟩
      simp only [fsFormat, fsStoreTable, hok', hok'', ne_eq, not_true_eq_false, if_false]
      exact ⟨hboth, hissued, rfl,
        Or.inl ⟨by rw [hws, hvs]; rfl, ⟨hpresent, hroom⟩, rfl, rfl⟩⟩
    · refine ⟨ws ++ vs, ?_⟩
      simp only [fsFormat, fsStoreTable, hok', hfail', ne_eq, not_true_eq_false, if_false]
      exact ⟨hboth, hissued, rfl, Or.inr ⟨rfl, rfl⟩⟩
  · refine ⟨ws, ?_⟩
    have hfail' : (fsStoreSuperblock s.ata fsFormatSuperblock).2 = -1 := hfail
    simp only [fsFormat, hfail', ne_eq]
    exact ⟨hwrote, hcons, rfl, Or.inr ⟨rfl, rfl⟩⟩

theorem fsFormat_of_no_faults {s : FsState} (hpresent : s.ata.present = true)
    (hfaults : s.ata.device.faults = .none) (hcap : fsDataLba.toNat ≤ s.ata.device.capacity) :
    (fsFormat s).1.info = fsFormatInfo := by
  rw [toNat_fsDataLba] at hcap
  obtain ⟨hnext, hiff⟩ := ataWriteSectors_one_of_no_faults s.ata fsSuperblockLba
    (fsSuperblockImage fsFormatSuperblock) hpresent hfaults
  obtain ⟨ws, hwrote, -⟩ := ataWriteSectors_one s.ata fsSuperblockLba
    (fsSuperblockImage fsFormatSuperblock)
  have hsuper : (fsStoreSuperblock s.ata fsFormatSuperblock).2 = 0 :=
    hiff.mpr ⟨by decide, by rw [toNat_fsSuperblockLba]; omega⟩
  have htable := (ataWriteSectors_one_of_no_faults (fsStoreSuperblock s.ata fsFormatSuperblock).1
    fsTableLba (fsTableCodec.encode .zero) (hwrote.present_eq.trans hpresent) hnext).2.mpr
    ⟨by decide, by
      show fsTableLba.toNat < (ataWriteSectors _ _ _ _).1.device.capacity
      rw [hwrote.device.capacity_eq, toNat_fsTableLba]
      omega⟩
  simp only [fsFormat, hsuper, fsStoreTable, htable, ne_eq, not_true_eq_false, if_false]
  rfl

/-! ## Mounting -/

/-- The magic and version test of `fs_init`. -/
def FsSuperblock.accepted (sb : FsSuperblock) : Prop :=
  sb.magic = fsMagicValue ∧ sb.version = fsVersion

instance (sb : FsSuperblock) : Decidable sb.accepted :=
  inferInstanceAs (Decidable (_ ∧ _))

def FsFormatted (content : Nat → Sector) : Prop :=
  (fsDecodeSuperblock (content fsSuperblockLba.toNat)).accepted

instance (content : Nat → Sector) : Decidable (FsFormatted content) :=
  inferInstanceAs (Decidable (FsSuperblock.accepted _))

/-- The table `fs_init` loads from a disk. -/
def fsMountTable (content : Nat → Sector) : FsTable :=
  fsOverlayTable .zero (content fsTableLba.toNat).toList

theorem fsLoadSuperblock_some {ata : Ata} {sb : FsSuperblock}
    (h : (fsLoadSuperblock ata).2 = some sb) :
    sb = fsDecodeSuperblock (ata.device.content fsSuperblockLba.toNat) := by
  simp only [fsLoadSuperblock, Option.map_eq_some_iff] at h
  obtain ⟨bytes, hbytes, rfl⟩ := h
  rw [(ataReadSectors_one hbytes).2, fsDecodeSuperblock]

theorem fsInit_of_unreadable {s : FsState} (hpresent : s.ata.present = true)
    (hnone : (fsLoadSuperblock s.ata).2 = none) :
    fsInit s = (fsFormat { fsClearCache s with ata := (fsLoadSuperblock s.ata).1 }).1 := by
  simp [fsInit, fsClearCache, hpresent, hnone]

theorem fsInit_of_rejected {s : FsState} {sb : FsSuperblock} (hpresent : s.ata.present = true)
    (hsb : (fsLoadSuperblock s.ata).2 = some sb) (hreject : ¬ sb.accepted) :
    fsInit s = (fsFormat { fsClearCache s with ata := (fsLoadSuperblock s.ata).1 }).1 := by
  have hor : sb.magic ≠ fsMagicValue ∨ sb.version ≠ fsVersion := not_and_or.mp hreject
  simp only [fsInit, fsClearCache, hpresent, hsb, hor]
  rfl

theorem fsInit_of_accepted {s : FsState} {sb : FsSuperblock} (hpresent : s.ata.present = true)
    (hsb : (fsLoadSuperblock s.ata).2 = some sb) (haccept : sb.accepted) :
    s.ata.Wrote (fsInit s).ata [] ∧
      (((fsInit s).info = .zero ∧ (fsInit s).entries = .zero) ∨
        ((fsInit s).info = fsMountInfo sb (fsMountTable s.ata.device.content) ∧
          (fsInit s).entries = fsMountTable s.ata.device.content ∧
          (fsInit s).cache = fun i => fsSyncEntry (fsMountTable s.ata.device.content i))) := by
  have hnot : ¬ (sb.magic ≠ fsMagicValue ∨ sb.version ≠ fsVersion) := by
    rw [← not_and_or]
    exact not_not_intro haccept
  have hload : s.ata.Wrote (fsLoadSuperblock s.ata).1 [] :=
    ataReadSectors_wrote s.ata fsSuperblockLba 1
  have hwrote : s.ata.Wrote (ataReadSectors (fsLoadSuperblock s.ata).1 fsTableLba 1).1 [] :=
    hload.trans (ataReadSectors_wrote _ fsTableLba 1)
  have hcontent : (fsLoadSuperblock s.ata).1.device.content = s.ata.device.content :=
    hload.device.content_eq
  cases hbytes : (ataReadSectors (fsLoadSuperblock s.ata).1 fsTableLba 1).2 with
  | none =>
      simp only [fsInit, fsClearCache, hpresent, hsb, hnot, fsLoadTable, hbytes,
        Bool.not_true, Bool.false_eq_true, if_false, ne_eq]
      exact ⟨hwrote, Or.inl ⟨rfl, rfl⟩⟩
  | some bytes =>
      have htable := (ataReadSectors_one hbytes).2
      rw [hcontent] at htable
      subst htable
      simp only [fsInit, fsClearCache, hpresent, hsb, hnot, fsLoadTable, hbytes,
        Bool.not_true, Bool.false_eq_true, if_false, ne_eq, not_true_eq_false]
      exact ⟨hwrote, Or.inr ⟨rfl, rfl, rfl⟩⟩

/-- How `fs_init` can end: with nothing mounted, with a new filesystem, or with the one
found on the disk.  `ws` are the sector writes that reached the disk. -/
def FsInitOutcome (s t : FsState) (ws : List (Nat × Sector)) : Prop :=
  (ws <+: fsFormatWrites ∧ t.info = .zero ∧ t.entries = .zero) ∨
    (ws = fsFormatWrites ∧ (s.ata.present = true ∧ fsDataLba.toNat ≤ s.ata.device.capacity) ∧
      t.info = fsFormatInfo ∧ t.entries = .zero ∧ t.cache = fun _ => fsSyncEntry .zero) ∨
    (ws = [] ∧ FsFormatted s.ata.device.content ∧
      t.info = fsMountInfo (fsDecodeSuperblock (s.ata.device.content fsSuperblockLba.toNat))
        (fsMountTable s.ata.device.content) ∧
      t.entries = fsMountTable s.ata.device.content ∧
      t.cache = fun i => fsSyncEntry (fsMountTable s.ata.device.content i))

theorem fsFormat_outcome {s t : FsState} (hpresent : s.ata.present = true)
    (hata : t.ata = (fsLoadSuperblock s.ata).1) (hinfo : t.info = .zero) :
    ∃ ws, s.ata.Wrote (fsFormat t).1.ata ws ∧ FsInitOutcome s (fsFormat t).1 ws := by
  have hload : s.ata.Wrote (fsLoadSuperblock s.ata).1 [] :=
    ataReadSectors_wrote s.ata fsSuperblockLba 1
  obtain ⟨ws, hwrote, hpre, hentries, hout⟩ := fsFormat_cases t
  rw [hata] at hwrote
  refine ⟨ws, hload.trans hwrote, ?_⟩
  rcases hout with ⟨hws, hroom, hi, hc⟩ | ⟨hi, -⟩
  · rw [hata, hload.device.capacity_eq] at hroom
    exact Or.inr (Or.inl ⟨hws, ⟨hpresent, hroom.2⟩, hi, hentries, hc⟩)
  · exact Or.inl ⟨hpre, hi.trans hinfo, hentries⟩

theorem fsInit_cases (s : FsState) :
    ∃ ws, s.ata.Wrote (fsInit s).ata ws ∧ FsInitOutcome s (fsInit s) ws := by
  by_cases hpresent : s.ata.present = true
  · cases hsb : (fsLoadSuperblock s.ata).2 with
    | none =>
        rw [fsInit_of_unreadable hpresent hsb]
        exact fsFormat_outcome hpresent rfl rfl
    | some sb =>
        by_cases haccept : sb.accepted
        · obtain ⟨hwrote, hout⟩ := fsInit_of_accepted hpresent hsb haccept
          refine ⟨[], hwrote, ?_⟩
          rw [fsLoadSuperblock_some hsb] at haccept hout
          rcases hout with ⟨hinfo, hentries⟩ | hmount
          · exact Or.inl ⟨List.nil_prefix, hinfo, hentries⟩
          · exact Or.inr (Or.inr ⟨rfl, haccept, hmount⟩)
        · rw [fsInit_of_rejected hpresent hsb haccept]
          exact fsFormat_outcome hpresent rfl rfl
  · have heq : fsInit s = fsClearCache s := by simp [fsInit, fsClearCache, hpresent]
    rw [heq]
    exact ⟨[], .refl _, Or.inl ⟨List.nil_prefix, rfl, rfl⟩⟩

theorem ataReadSectors_metadata {ata : Ata} (hpresent : ata.present = true)
    (hfaults : ata.device.faults = .none) (hcap : fsDataLba.toNat ≤ ata.device.capacity)
    (lba : UInt32) (hlt : lba.toNat < fsDataLba.toNat) :
    ataReadSectors ata lba 1 = (ata, some (ata.device.content lba.toNat).toList) := by
  rw [toNat_fsDataLba] at hcap hlt
  have hmask : lba ≤ ataLba28Mask := by
    rw [UInt32.le_iff_toNat_le, toNat_ataLba28Mask]
    omega
  have hfit : lba.toNat + (1 : UInt8).toNat ≤ ata.device.capacity := by
    show lba.toNat + 1 ≤ _
    omega
  rw [ataReadSectors_of_no_faults _ _ _ hfaults, if_pos ⟨hpresent, by decide, hmask, hfit⟩]
  simp

theorem fsInit_of_unformatted {s : FsState} (hpresent : s.ata.present = true)
    (hfaults : s.ata.device.faults = .none) (hcap : fsDataLba.toNat ≤ s.ata.device.capacity)
    (hformatted : ¬ FsFormatted s.ata.device.content) :
    (fsInit s).info = fsFormatInfo := by
  have hsuper := ataReadSectors_metadata hpresent hfaults hcap fsSuperblockLba (by decide)
  have hor : (fsDecodeSuperblock (s.ata.device.content fsSuperblockLba.toNat)).magic ≠
        fsMagicValue ∨
      (fsDecodeSuperblock (s.ata.device.content fsSuperblockLba.toNat)).version ≠
        fsVersion :=
    not_and_or.mp hformatted
  simp only [fsInit, fsClearCache, hpresent, fsLoadSuperblock, hsuper, Option.map_some,
    Bool.not_true, Bool.false_eq_true, if_false]
  rw [← fsDecodeSuperblock, if_pos hor]
  exact fsFormat_of_no_faults hpresent hfaults hcap

/-- On a working disk with a valid superblock `fs_init` mounts the stored table
and writes nothing. -/
theorem fsInit_of_formatted {s : FsState} (hpresent : s.ata.present = true)
    (hfaults : s.ata.device.faults = .none) (hcap : fsDataLba.toNat ≤ s.ata.device.capacity)
    (hformatted : FsFormatted s.ata.device.content) :
    fsInit s =
      { ata := s.ata
        info := fsMountInfo
          (fsDecodeSuperblock (s.ata.device.content fsSuperblockLba.toNat))
          (fsMountTable s.ata.device.content)
        cache := fun i => fsSyncEntry (fsMountTable s.ata.device.content i)
        entries := fsMountTable s.ata.device.content } := by
  have hsuper := ataReadSectors_metadata hpresent hfaults hcap fsSuperblockLba (by decide)
  have htable := ataReadSectors_metadata hpresent hfaults hcap fsTableLba (by decide)
  have hnot :
      ¬ ((fsDecodeSuperblock (s.ata.device.content fsSuperblockLba.toNat)).magic ≠
          fsMagicValue ∨
        (fsDecodeSuperblock (s.ata.device.content fsSuperblockLba.toNat)).version ≠
          fsVersion) := by
    rw [← not_and_or]
    exact not_not_intro hformatted
  simp only [fsInit, fsClearCache, hpresent, fsLoadSuperblock, hsuper, Option.map_some,
    Bool.not_true, Bool.false_eq_true, if_false, fsLoadTable, htable]
  rw [← fsDecodeSuperblock, if_neg hnot]
  simp [fsSyncCache, fsMountTable]

end AcharyaOS.Fs
