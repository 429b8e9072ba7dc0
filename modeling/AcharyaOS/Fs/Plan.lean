import AcharyaOS.Fs.Blocks

/-!
# What an update call can do

`fs_write_file` and `fs_delete_file` either refuse a call and touch nothing, or
follow a plan fixed by the state before the call: the table they leave in
memory, the data sectors they write first and the table sector they write last.
A disk error stops the call after some prefix of these writes.
-/

namespace AcharyaOS.Fs

open Foundation Disk

/-- The table in memory and the data sectors written before it is stored. -/
structure FsPlan where
  entries : FsTable
  shadow : List (Nat × Sector)

namespace FsPlan

/-- The table write that makes the plan visible to a later mount. -/
def commit (p : FsPlan) : Nat × Sector := (fsTableLba.toNat, fsTableSector p.entries)

def writes (p : FsPlan) : List (Nat × Sector) := p.shadow ++ [p.commit]

end FsPlan

def fsBlockCount (size : Nat) : Nat := (size + 511) / 512

theorem toNat_fsBlocksForBytes_ofNat {size : Nat} (h : size ≤ fsMaxFileBytes) :
    (fsBlocksForBytes (UInt32.ofNat size)).toNat = fsBlockCount size := by
  rw [toNat_fsBlocksForBytes (by rwa [toNat_ofNat_size h]), toNat_ofNat_size h, fsBlockCount]

def fsWritePlan (dataStartLba : UInt32) (idx : Fin fsFilesMax) (claimed : FsTable)
    (data : List UInt8) : FsPlan where
  entries := fsPlaceEntry claimed idx (fsNextFreeLba dataStartLba claimed) data.length
  shadow := placed (fsNextFreeLba dataStartLba claimed).toNat
    (fsDataSectors data (fsBlockCount data.length))

theorem fsWritePlan_entries_self (dataStartLba : UInt32) (idx : Fin fsFilesMax)
    (claimed : FsTable) (data : List UInt8) :
    (fsWritePlan dataStartLba idx claimed data).entries idx =
      { claimed idx with
        startLba := fsNextFreeLba dataStartLba claimed
        sizeBytes := UInt32.ofNat data.length } := by
  simp [fsWritePlan, fsPlaceEntry]

theorem fsWritePlan_entries_of_ne (dataStartLba : UInt32) {idx i : Fin fsFilesMax}
    (claimed : FsTable) (data : List UInt8) (hi : i ≠ idx) :
    (fsWritePlan dataStartLba idx claimed data).entries i = claimed i := by
  simp [fsWritePlan, fsPlaceEntry, Function.update_of_ne hi]

theorem fsWritePlan_shadow_lt_iff (dataStartLba : UInt32) (idx : Fin fsFilesMax) (claimed : FsTable)
    (data : List UInt8) (bound : Nat) :
    (∀ w ∈ (fsWritePlan dataStartLba idx claimed data).shadow, w.1 < bound) ↔
      fsBlockCount data.length = 0 ∨
        (fsNextFreeLba dataStartLba claimed).toNat + fsBlockCount data.length ≤ bound := by
  have hfits := forall_mem_placed_lt_iff (fsNextFreeLba dataStartLba claimed).toNat bound
    (fsDataSectors data (fsBlockCount data.length))
  rw [length_fsDataSectors] at hfits
  exact hfits

/-- The plan of a call, `none` when the call is refused before any change. -/
def fsPlan (s : FsState) : FsCall → Option FsPlan
  | .writeFile (some name) (some data) =>
      if !s.info.mounted || data.length > fsMaxFileBytes then none
      else (fsClaimEntry s.entries name).map fun c =>
        fsWritePlan s.info.dataStartLba c.1 c.2 data
  | .deleteFile name =>
      (fsFindEntry s.entries name).map fun idx =>
        ⟨Function.update s.entries idx .zero, []⟩
  | _ => none

/-- The call left the plan's table and issued the writes `ws`; `r` is the state
and result it ended with. -/
structure FsFollows (s : FsState) (p : FsPlan) (ws : List (Nat × Sector))
    (r : FsState × Int) : Prop where
  entries_eq : r.1.entries = p.entries
  wrote : s.ata.Wrote r.1.ata ws
  issued : ws <+: p.writes
  outcome :
    (r.2 = 0 ∧ ws = p.writes ∧ s.ata.present = true ∧
        r.1.info = { s.info with usedFiles := r.1.info.usedFiles } ∧
        r.1.cache = (fun i => fsSyncEntry (p.entries i)) ∧
        ∀ w ∈ p.shadow, w.1 < 2 ^ 28 ∧ w.1 < s.ata.device.capacity) ∨
      (r.2 = -1 ∧ r.1.info = s.info ∧ r.1.cache = s.cache)

theorem FsFollows.info_eq {s : FsState} {p : FsPlan} {ws : List (Nat × Sector)}
    {r : FsState × Int} (h : FsFollows s p ws r) :
    r.1.info = { s.info with usedFiles := r.1.info.usedFiles } := by
  rcases h.outcome with ⟨-, -, -, hinfo, -⟩ | ⟨-, hinfo, -⟩
  · exact hinfo
  · rw [hinfo]

theorem FsFollows.of_store {s t : FsState} {p : FsPlan} (hentries : t.entries = p.entries)
    (hinfo : t.info = s.info) (hcache : t.cache = s.cache)
    (hwrote : s.ata.Wrote t.ata p.shadow)
    (hshadow : ∀ w ∈ p.shadow, w.1 < 2 ^ 28 ∧ w.1 < s.ata.device.capacity)
    (usedFiles : FsState → UInt32) :
    ∃ ws, FsFollows s p ws
      (if (fsStoreTable t).2 ≠ 0 then ((fsStoreTable t).1, -1)
        else (fsSyncCache { (fsStoreTable t).1 with
          info := { (fsStoreTable t).1.info with usedFiles := usedFiles (fsStoreTable t).1 } },
          0)) := by
  obtain ⟨ws, hstore, hpre, -, hout⟩ :=
    ataWriteSectors_one t.ata fsTableLba (fsTableCodec.encode t.entries)
  rw [hentries] at hstore hpre hout
  have hwrite : ∀ r, r = ataWriteSectors t.ata fsTableLba 1 (fsTableCodec.encode p.entries) →
      fsStoreTable t = ({ t with ata := r.1 }, r.2) := by
    rintro r rfl
    rw [fsStoreTable, hentries]
  rw [hwrite _ rfl]
  refine ⟨p.shadow ++ ws, ?_⟩
  rcases hout with ⟨hok, hws, hpresent, -⟩ | hfail
  · rw [if_neg (by simp [hok])]
    exact
      { entries_eq := hentries
        wrote := hwrote.trans hstore
        issued := (List.prefix_append_right_inj _).mpr hpre
        outcome := Or.inl ⟨rfl, by rw [hws]; rfl, by rw [← hwrote.present_eq, hpresent],
          by simp [fsSyncCache, hinfo], by simp [fsSyncCache, hentries], hshadow⟩ }
  · rw [if_pos (by simp [hfail])]
    exact
      { entries_eq := hentries
        wrote := hwrote.trans hstore
        issued := (List.prefix_append_right_inj _).mpr hpre
        outcome := Or.inr ⟨rfl, hinfo, hcache⟩ }

theorem fsWriteFile_follows (s : FsState) (name : CString) (data : List UInt8)
    {idx : Fin fsFilesMax} {claimed : FsTable} (hmounted : s.info.mounted = true)
    (hsize : data.length ≤ fsMaxFileBytes)
    (hclaim : fsClaimEntry s.entries name = some (idx, claimed)) :
    ∃ ws, FsFollows s (fsWritePlan s.info.dataStartLba idx claimed data) ws
      (fsWriteFile s (some name) (some data)) := by
  have hblocks := toNat_fsBlocksForBytes_ofNat hsize
  have hcount : fsBlockCount data.length ≤ 256 := by
    simp only [fsBlockCount, fsMaxFileBytes] at hsize ⊢
    omega
  obtain ⟨ws, hwrote, hpre, hout⟩ := fsWriteBlocks_cases
    (fsNextFreeLba s.info.dataStartLba claimed) data hcount s.ata
  have hnot : ¬ data.length > fsMaxFileBytes := Nat.not_lt.mpr hsize
  simp only [fsWriteFile, hmounted, hnot, hclaim, hblocks, Bool.not_true, Bool.false_eq_true,
    if_false]
  rcases hout with ⟨hok, hws, hbound⟩ | hfail
  · simp only [hok, ne_eq, not_true_eq_false, if_false]
    subst hws
    exact FsFollows.of_store (s := s)
      (t := { s with
        entries := fsPlaceEntry claimed idx (fsNextFreeLba s.info.dataStartLba claimed)
          data.length
        ata := (fsWriteBlocks (fsNextFreeLba s.info.dataStartLba claimed) data 0
          (fsBlockCount data.length) s.ata).1 })
      (p := fsWritePlan s.info.dataStartLba idx claimed data) rfl rfl rfl hwrote hbound
      fun t => fsCountUsed t.entries
  · refine ⟨ws, ?_⟩
    simp only [hfail, ne_eq]
    exact
      { entries_eq := rfl
        wrote := hwrote
        issued := hpre.trans (List.prefix_append _ _)
        outcome := Or.inr ⟨rfl, rfl, rfl⟩ }

theorem fsDeleteFile_follows (s : FsState) (name : CString) {idx : Fin fsFilesMax}
    (hfind : fsFindEntry s.entries name = some idx) :
    ∃ ws, FsFollows s ⟨Function.update s.entries idx .zero, []⟩ ws (fsDeleteFile s name) := by
  simp only [fsDeleteFile, hfind]
  exact FsFollows.of_store (s := s)
    (t := { s with entries := Function.update s.entries idx .zero })
    (p := ⟨Function.update s.entries idx .zero, []⟩) rfl rfl rfl (.refl _) (by simp)
    fun t => if t.info.usedFiles > 0 then t.info.usedFiles - 1 else t.info.usedFiles

theorem perform_cases (s : FsState) {c : FsCall} (hc : c ≠ .init) :
    (fsPlan s c = none ∧ c.perform s = (s, -1)) ∨
      ∃ p ws, fsPlan s c = some p ∧ FsFollows s p ws (c.perform s) := by
  cases c with
  | init => exact absurd rfl hc
  | writeFile name data =>
      match name, data with
      | none, _ => exact Or.inl ⟨rfl, rfl⟩
      | some _, none => exact Or.inl ⟨rfl, rfl⟩
      | some name, some data =>
          by_cases hmounted : s.info.mounted = true
          · by_cases hsize : data.length ≤ fsMaxFileBytes
            · cases hclaim : fsClaimEntry s.entries name with
              | none =>
                  left
                  simp [fsPlan, FsCall.perform, fsWriteFile, hclaim]
              | some claimed =>
                  right
                  obtain ⟨ws, hws⟩ := fsWriteFile_follows s name data hmounted hsize hclaim
                  refine ⟨_, ws, ?_, hws⟩
                  simp [fsPlan, hmounted, hclaim, Nat.not_lt.mpr hsize]
            · left
              have hlt : fsMaxFileBytes < data.length := Nat.lt_of_not_le hsize
              simp [fsPlan, FsCall.perform, fsWriteFile, hlt]
          · left
            simp [fsPlan, FsCall.perform, fsWriteFile, hmounted]
  | deleteFile name =>
      cases hfind : fsFindEntry s.entries name with
      | none =>
          left
          simp [fsPlan, FsCall.perform, fsDeleteFile, hfind]
      | some idx =>
          right
          obtain ⟨ws, hws⟩ := fsDeleteFile_follows s name hfind
          refine ⟨_, ws, ?_, hws⟩
          simp [fsPlan, hfind]

end AcharyaOS.Fs
