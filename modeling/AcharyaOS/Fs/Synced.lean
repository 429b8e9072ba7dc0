import AcharyaOS.Fs.Reach

/-!
# Successful runs

Calls that succeed keep memory and disk in step: the stored sector is the one of
the table in memory, the cache mirrors the table, and every file lies on sectors
the disk has and the driver can address.
-/

namespace AcharyaOS.Fs

open Foundation Disk Foundation.Run

structure FsSynced (s : FsState) : Prop extends FsInv s where
  mounted_eq : s.info.mounted = true
  cache_eq : ∀ i, s.cache i = fsSyncEntry (s.entries i)
  table_eq : s.ata.device.content fsTableLba.toNat = fsTableSector s.entries
  stop_le : ∀ i, (s.entries i).isUsed = true →
    (s.entries i).startLba.toNat + fsEntryBlocks (s.entries i) ≤
      min s.ata.device.capacity (2 ^ 28)

/-- The call returns 0 and leaves the filesystem mounted. -/
def FsSucceeds (s : FsState) (c : Faults × FsCall) : Prop :=
  (fsExec s c).2 = 0 ∧ (fsStep s c).info.mounted = true

theorem fsExec_zero_cases {s : FsState} {f : Faults} {c : FsCall} (hc : c ≠ .init)
    (hok : (fsExec s (f, c)).2 = 0) :
    ∃ p, fsPlan s c = some p ∧ (fsStep s (f, c)).entries = p.entries ∧
      s.ata.Wrote (fsStep s (f, c)).ata p.writes ∧ s.ata.present = true ∧
      (fsStep s (f, c)).info =
        { s.info with usedFiles := (fsStep s (f, c)).info.usedFiles } ∧
      (fsStep s (f, c)).cache = (fun i => fsSyncEntry (p.entries i)) ∧
      ∀ w ∈ p.shadow, w.1 < 2 ^ 28 ∧ w.1 < s.ata.device.capacity := by
  rcases fsExec_cases s f hc with ⟨-, heq⟩ | ⟨p, ws, hplan, hfollows⟩
  · rw [heq] at hok
    simp at hok
  · rcases hfollows.outcome with ⟨-, rfl, hpresent, hinfo, hcache, hbound⟩ | ⟨hfail, -⟩
    · exact ⟨p, hplan, hfollows.entries_eq, hfollows.wrote, hpresent, hinfo, hcache, hbound⟩
    · rw [hfail] at hok
      simp at hok

theorem fsExec_write_zero_cases {s : FsState} {f : Faults} {name : CString}
    {data : List UInt8}
    (hok : (fsExec s (f, .writeFile (some name) (some data))).2 = 0) :
    ∃ idx claimed, fsClaimEntry s.entries name = some (idx, claimed) ∧
      s.info.mounted = true ∧ data.length ≤ fsMaxFileBytes ∧
      (fsStep s (f, .writeFile (some name) (some data))).entries =
        (fsWritePlan s.info.dataStartLba idx claimed data).entries ∧
      s.ata.Wrote (fsStep s (f, .writeFile (some name) (some data))).ata
        (fsWritePlan s.info.dataStartLba idx claimed data).writes ∧
      (fsStep s (f, .writeFile (some name) (some data))).info.mounted = true ∧
      ∀ w ∈ (fsWritePlan s.info.dataStartLba idx claimed data).shadow,
        w.1 < 2 ^ 28 ∧ w.1 < s.ata.device.capacity := by
  obtain ⟨p, hplan, hentries, hwrote, -, hinfo, -, hbound⟩ := fsExec_zero_cases (by simp) hok
  rcases fsPlan_cases hplan with
    ⟨name', data', idx, claimed, hcall, hmounted, hsize, hclaim, rfl⟩ | ⟨_, _, hcall, -⟩
  · obtain ⟨⟨⟩, ⟨⟩⟩ : name' = name ∧ data' = data := by
      simpa [eq_comm] using hcall
    refine ⟨idx, claimed, hclaim, hmounted, hsize, hentries, hwrote, ?_, hbound⟩
    rw [hinfo]
    exact hmounted
  · exact absurd hcall (by simp)

theorem fsStoreTable_of_no_faults {t : FsState} (hpresent : t.ata.present = true)
    (hfaults : t.ata.device.faults = .none)
    (hroom : fsDataLba.toNat ≤ t.ata.device.capacity) : (fsStoreTable t).2 = 0 := by
  have hiff := (ataWriteSectors_one_of_no_faults t.ata fsTableLba
    (fsTableCodec.encode t.entries) hpresent hfaults).2
  exact hiff.mpr ⟨by decide, hroom⟩

theorem fsExec_zero_of_no_faults {s : FsState} (h : FsInv s) {c : FsCall} {p : FsPlan}
    (hplan : fsPlan s c = some p)
    (hbound : ∀ w ∈ p.shadow, w.1 < 2 ^ 28 ∧ w.1 < s.ata.device.capacity) :
    (fsExec s (.none, c)).2 = 0 := by
  have hself := FsState.withFaults_self h.faults_eq
  rcases fsPlan_cases hplan with
    ⟨name, data, idx, claimed, rfl, hmounted, hsize, hclaim, rfl⟩ | ⟨name, idx, rfl, hfind, rfl⟩
  · have hblocks := toNat_fsBlocksForBytes_ofNat hsize
    have hnot : ¬ data.length > fsMaxFileBytes := Nat.not_lt.mpr hsize
    have hloop : (fsWriteBlocks (fsNextFreeLba s.info.dataStartLba claimed) data 0
          (fsBlockCount data.length) s.ata).2 = 0 ∧
        (fsWriteBlocks (fsNextFreeLba s.info.dataStartLba claimed) data 0
          (fsBlockCount data.length) s.ata).1.device.faults = .none := by
      by_cases hzero : fsBlockCount data.length = 0
      · rw [hzero]
        exact ⟨rfl, h.faults_eq⟩
      · apply fsWriteBlocks_of_no_faults _ _ _ 0 _ h.present_eq h.faults_eq
        have hfits := (fsWritePlan_shadow_lt_iff s.info.dataStartLba idx claimed data
          (min s.ata.device.capacity (2 ^ 28))).mp
          fun w hw => Nat.lt_min.mpr (hbound w hw).symm
        omega
    obtain ⟨ws, hwrote, -⟩ := fsWriteBlocks_cases (fsNextFreeLba s.info.dataStartLba claimed)
      data (n := fsBlockCount data.length)
      (by simp only [fsBlockCount, fsMaxFileBytes] at hsize ⊢; omega) s.ata
    have hroom := h.room
    rw [← hwrote.device.capacity_eq] at hroom
    have hok : (fsStoreTable { s with
        entries := fsPlaceEntry claimed idx (fsNextFreeLba s.info.dataStartLba claimed)
          data.length
        ata := (fsWriteBlocks (fsNextFreeLba s.info.dataStartLba claimed) data 0
          (fsBlockCount data.length) s.ata).1 }).2 = 0 :=
      fsStoreTable_of_no_faults (hwrote.present_eq.trans h.present_eq) hloop.2 hroom
    simp only [fsExec, hself, FsCall.perform, fsWriteFile, hmounted, hnot, hclaim, hblocks,
      hloop.1, hok, Bool.not_true, Bool.false_eq_true, if_false, ne_eq, not_true_eq_false]
  · have hok : (fsStoreTable { s with entries := Function.update s.entries idx .zero }).2 = 0 :=
      fsStoreTable_of_no_faults h.present_eq h.faults_eq h.room
    simp only [fsExec, hself, FsCall.perform, fsDeleteFile, hfind, hok, if_false, ne_eq,
      not_true_eq_false]

theorem fsWriteFile_zero_iff_fits {s : FsState} (h : FsInv s)
    (hmounted : s.info.mounted = true) {name : CString} {data : List UInt8}
    (hsize : data.length ≤ fsMaxFileBytes) {idx : Fin fsFilesMax} {claimed : FsTable}
    (hclaim : fsClaimEntry s.entries name = some (idx, claimed)) :
    (fsExec s (.none, .writeFile (some name) (some data))).2 = 0 ↔
      fsBlockCount data.length = 0 ∨
        (fsNextFreeLba s.info.dataStartLba claimed).toNat + fsBlockCount data.length ≤
          min s.ata.device.capacity (2 ^ 28) := by
  have hplan : fsPlan s (.writeFile (some name) (some data)) =
      some (fsWritePlan s.info.dataStartLba idx claimed data) := by
    simp [fsPlan, hmounted, hclaim, Nat.not_lt.mpr hsize]
  rw [← fsWritePlan_shadow_lt_iff s.info.dataStartLba idx claimed data]
  constructor
  · intro hok
    obtain ⟨p, hp, -, -, -, -, -, hw⟩ := fsExec_zero_cases (by simp) hok
    rw [hplan, Option.some.injEq] at hp
    subst hp
    intro w hmem
    have hlt := hw w hmem
    omega
  · intro hw
    apply fsExec_zero_of_no_faults h hplan
    intro w hmem
    have hlt := hw w hmem
    omega

namespace FsSynced

variable {s : FsState}

theorem zero_stop_le (n : Nat) (i : Fin fsFilesMax) (hi : (FsTable.zero i).isUsed = true) :
    (FsTable.zero i).startLba.toNat + fsEntryBlocks (FsTable.zero i) ≤ n :=
  absurd (show FsDiskEntry.zero.isUsed = true from hi) (by decide)

theorem of_formatted {t : FsState} (hinv : FsInv t) (hmounted : t.info.mounted = true)
    (hwrote : s.ata.Wrote t.ata fsFormatWrites) (hentries : t.entries = .zero)
    (hcache : t.cache = fun _ => fsSyncEntry .zero) : FsSynced t := by
  have happ := applyWrites_fsFormatWrites s.ata.device.content
  rw [← hwrote.device.content_eq] at happ
  exact
    { hinv with
      mounted_eq := hmounted
      cache_eq := fun i => by rw [hcache, hentries]; rfl
      table_eq := by rw [hentries]; exact happ.2
      stop_le := by rw [hentries]; exact zero_stop_le _ }

theorem of_fresh (h : FsFresh s) : FsSynced s := by
  have hinv := FsInv.of_fresh h
  obtain ⟨t, f, hnot, rfl, hmounted⟩ := h
  obtain ⟨ws, hwrote, ⟨-, hinfo, -⟩ | ⟨rfl, -, -, hentries, hcache⟩ |
    ⟨-, hformatted, -⟩⟩ := fsStep_init_cases t f
  · rw [hinfo] at hmounted
    exact absurd hmounted (by decide)
  · exact of_formatted hinv hmounted hwrote hentries hcache
  · exact absurd hformatted hnot

theorem next_le (h : FsSynced s) :
    (fsNextFreeLba s.info.dataStartLba s.entries).toNat ≤
      min s.ata.device.capacity (2 ^ 28) := by
  rw [fsNextFreeLba_le_iff, h.data_start h.mounted_eq]
  constructor
  · have hroom := h.room
    rw [toNat_fsDataLba] at hroom ⊢
    omega
  · intro i hi
    have hstop := h.stop_le i hi
    rw [toNat_fsEntryEnd_of_lt (by omega)]
    exact hstop

theorem step_init (h : FsSynced s) (f : Faults)
    (hmounted : (fsStep s (f, .init)).info.mounted = true) :
    FsSynced (fsStep s (f, .init)) := by
  have hinv := h.toFsInv.step_init f
  obtain ⟨ws, hwrote, ⟨-, hinfo, -⟩ | ⟨rfl, -, -, hentries, hcache⟩ |
    ⟨rfl, -, -, hentries, hcache⟩⟩ := fsStep_init_cases s f
  · rw [hinfo] at hmounted
    exact absurd hmounted (by decide)
  · exact of_formatted hinv hmounted hwrote hentries hcache
  · have hcontent := hwrote.device.content_eq
    rw [applyWrites_nil] at hcontent
    exact
      { hinv with
        mounted_eq := hmounted
        cache_eq := fun i => by rw [hcache, hentries]
        table_eq := by rw [hcontent, hentries, fsTableSector_fsMountTable]
        stop_le := by
          intro i hi
          rw [hentries] at hi ⊢
          have heq := (fsMountTable_used h.table_eq hi).2
          rw [heq] at hi ⊢
          rw [hwrote.device.capacity_eq]
          exact h.stop_le i hi }

theorem plan_stop_le (h : FsSynced s) {c : FsCall} {p : FsPlan} (hplan : fsPlan s c = some p)
    (hbound : ∀ w ∈ p.shadow, w.1 < 2 ^ 28 ∧ w.1 < s.ata.device.capacity)
    (i : Fin fsFilesMax) (hi : (p.entries i).isUsed = true) :
    (p.entries i).startLba.toNat + fsEntryBlocks (p.entries i) ≤
      min s.ata.device.capacity (2 ^ 28) := by
  rcases fsPlan_cases hplan with
    ⟨name, data, idx, claimed, -, -, hsize, hclaim, rfl⟩ | ⟨name, idx, -, -, rfl⟩
  · have hnext := h.next_le
    rw [← fsNextFreeLba_claimed _ h.table hclaim] at hnext
    by_cases hidx : i = idx
    · subst hidx
      rw [fsWritePlan_entries_self, fsEntryBlocks_placed _ _ hsize]
      by_cases hzero : fsBlockCount data.length = 0
      · rw [hzero]
        exact hnext
      · have hfits := (fsWritePlan_shadow_lt_iff s.info.dataStartLba i claimed data
          (min s.ata.device.capacity (2 ^ 28))).mp
          fun w hw => Nat.lt_min.mpr (hbound w hw).symm
        exact hfits.resolve_left hzero
    · rw [fsWritePlan_entries_of_ne _ _ _ hidx, (fsClaimEntry_spec hclaim).1 i hidx] at hi ⊢
      exact h.stop_le i hi
  · by_cases hidx : i = idx
    · subst hidx
      simp only [Function.update_self] at hi
      exact absurd hi (by decide)
    · simp only [Function.update_of_ne hidx] at hi ⊢
      exact h.stop_le i hi

/-- Successful calls keep memory and disk in step. -/
theorem step (h : FsSynced s) {c : Faults × FsCall} (hok : FsSucceeds s c) :
    FsSynced (fsStep s c) := by
  obtain ⟨f, c⟩ := c
  by_cases hc : c = .init
  · subst hc
    exact h.step_init f hok.2
  · obtain ⟨p, hplan, hentries, hwrote, -, -, hcache, hbound⟩ := fsExec_zero_cases hc hok.1
    exact
      { h.toFsInv.step (f, c) with
        mounted_eq := hok.2
        cache_eq := fun i => by rw [hcache, hentries]
        table_eq := by
          rw [hwrote.device.content_eq, hentries, FsPlan.writes, FsPlan.commit,
            applyWrites_concat]
        stop_le := by
          rw [hentries, hwrote.device.capacity_eq]
          exact h.plan_stop_le hplan hbound }

end FsSynced

/-- States of runs from a fresh format in which every call succeeds. -/
def FsSuccessful : FsState → Prop := Reach FsFresh fsStep FsSucceeds

theorem FsSuccessful.synced {s : FsState} (h : FsSuccessful s) : FsSynced s :=
  h.invariant (fun _ => .of_fresh) fun _ _ hs hc => hs.step hc

/-- A disk holding the one file "a". -/
def fsOneFile : FsState :=
  fsStep (fsBlankDisk 5000) (.none, .writeFile (some fsNameA) (some [1, 2]))

theorem fsSuccessful_oneFile : FsSuccessful fsOneFile :=
  .next (.start (fsFresh_blankDisk (by decide))) ⟨by decide +kernel, by decide +kernel⟩

end AcharyaOS.Fs
