import AcharyaOS.Fs.Mount

/-!
# Reachable states

The states calls lead to from a freshly formatted disk, the invariant every
call keeps whatever the disk does, and the stronger one kept by successful
calls: memory and disk agree on the table.
-/

namespace AcharyaOS.Fs

open Foundation Disk Foundation.Run

/-! ## One call on the disk -/

theorem wrote_withFaults {s t : FsState} {f g : Faults} {ws : List (Nat × Sector)}
    (h : (s.withFaults f).ata.Wrote t.ata ws) : s.ata.Wrote (t.withFaults g).ata ws :=
  ⟨h.present_eq, h.device.1, h.device.2, h.device.3⟩

theorem fsExec_cases (s : FsState) (f : Faults) {c : FsCall} (hc : c ≠ .init) :
    (fsPlan s c = none ∧ fsExec s (f, c) = (s.withFaults .none, -1)) ∨
      ∃ p ws, fsPlan s c = some p ∧ FsFollows s p ws (fsExec s (f, c)) := by
  have hplan : fsPlan (s.withFaults f) c = fsPlan s c := by
    cases c <;> rfl
  rcases perform_cases (s.withFaults f) hc with ⟨hnone, heq⟩ | ⟨p, ws, hsome, h⟩
  · left
    refine ⟨hplan ▸ hnone, ?_⟩
    simp only [fsExec, heq]
    rfl
  · right
    refine ⟨p, ws, hplan ▸ hsome, ?_⟩
    exact
      { entries_eq := h.entries_eq
        wrote := wrote_withFaults h.wrote
        issued := h.issued
        outcome := h.outcome }

theorem fsStep_init_cases (s : FsState) (f : Faults) :
    ∃ ws, s.ata.Wrote (fsStep s (f, .init)).ata ws ∧
      FsInitOutcome s (fsStep s (f, .init)) ws := by
  obtain ⟨ws, hwrote, hout⟩ := fsInit_cases (s.withFaults f)
  exact ⟨ws, wrote_withFaults hwrote, hout⟩

theorem fsStep_init_info (s : FsState) (f : Faults) :
    (fsStep s (f, .init)).info = (fsInit (s.withFaults f)).info := rfl

theorem FsState.withFaults_self {s : FsState} (h : s.ata.device.faults = .none) :
    s.withFaults .none = s := by
  rw [FsState.withFaults, ← h]

theorem FsFollows.content {s : FsState} {p : FsPlan} {ws : List (Nat × Sector)}
    {r : FsState × Int} (h : FsFollows s p ws r)
    (hshadow : ∀ w ∈ p.shadow, fsDataLba.toNat ≤ w.1) :
    (r.1.ata.device.content fsTableLba.toNat = s.ata.device.content fsTableLba.toNat ∨
        r.1.ata.device.content fsTableLba.toNat = fsTableSector p.entries) ∧
      ∀ a, a ≠ fsTableLba.toNat → (∀ w ∈ p.shadow, w.1 ≠ a) →
        r.1.ata.device.content a = s.ata.device.content a := by
  rw [h.wrote.device.content_eq]
  have hissued := h.issued
  rw [FsPlan.writes, List.prefix_concat_iff] at hissued
  constructor
  · rcases hissued with rfl | hdata
    · right
      rw [FsPlan.commit, applyWrites_concat]
    · left
      apply applyWrites_of_ne
      intro w hw
      have hle := hshadow w (hdata.subset hw)
      rw [toNat_fsDataLba] at hle
      rw [toNat_fsTableLba]
      omega
  · intro a ha hnot
    apply applyWrites_of_ne
    intro w hw
    rcases List.mem_append.mp (h.issued.subset hw) with hw | hw
    · exact hnot w hw
    · rw [List.mem_singleton.mp hw]
      exact ha.symm

/-! ## The stored table -/

section MountTable

variable {content : Nat → Sector} {stored : FsTable}

theorem fsMountTable_of_lt (h : content fsTableLba.toNat = fsTableSector stored)
    {i : Fin fsFilesMax} (hi : i.val < fsStoredSlots) : fsMountTable content i = stored i := by
  rw [fsMountTable, h, fsOverlayTable_of_lt _ _ hi]

theorem fsMountTable_of_ge (content : Nat → Sector) {i : Fin fsFilesMax}
    (hi : fsStoredSlots ≤ i.val) :
    (fsMountTable content i).startLba = 0 ∧ (fsMountTable content i).sizeBytes = 0 ∧
      (fsMountTable content i).isUsed = false := by
  obtain ⟨hstart, hsize, hused⟩ :=
    fsOverlayTable_of_ge .zero (content fsTableLba.toNat) hi
  refine ⟨hstart, hsize, ?_⟩
  unfold fsMountTable FsDiskEntry.isUsed
  rw [hused]
  rfl

theorem fsMountTable_used (h : content fsTableLba.toNat = fsTableSector stored)
    {i : Fin fsFilesMax} (hi : (fsMountTable content i).isUsed = true) :
    i.val < fsStoredSlots ∧ fsMountTable content i = stored i := by
  by_cases hlt : i.val < fsStoredSlots
  · exact ⟨hlt, fsMountTable_of_lt h hlt⟩
  · have hfree := (fsMountTable_of_ge content (Nat.le_of_not_lt hlt)).2.2
    rw [hfree] at hi
    exact absurd hi (by decide)

theorem FsTableInv.mount (hinv : FsTableInv stored)
    (h : content fsTableLba.toNat = fsTableSector stored) :
    FsTableInv (fsMountTable content) where
  name_lt i hused := by
    have heq := (fsMountTable_used h hused).2
    rw [heq] at hused ⊢
    exact hinv.name_lt i hused
  size_le i := by
    by_cases hi : i.val < fsStoredSlots
    · rw [fsMountTable_of_lt h hi]
      exact hinv.size_le i
    · rw [(fsMountTable_of_ge content (Nat.le_of_not_lt hi)).2.1]
      exact Nat.zero_le _
  free_zero i hfree := by
    by_cases hi : i.val < fsStoredSlots
    · rw [fsMountTable_of_lt h hi] at hfree ⊢
      exact hinv.free_zero i hfree
    · have hge := fsMountTable_of_ge content (Nat.le_of_not_lt hi)
      exact ⟨hge.1, hge.2.1⟩
  start_ge i hused := by
    have heq := (fsMountTable_used h hused).2
    rw [heq] at hused ⊢
    exact hinv.start_ge i hused
  apart := by
    apply hinv.apart.of_subfamily
    intro i a ha
    have heq := (fsMountTable_used h (fsExtent_eq_some_iff.mp ha).1).2
    rw [fsExtents, ← heq]
    exact ha

end MountTable

theorem fsTableSector_fsMountTable (content : Nat → Sector) :
    fsTableSector (fsMountTable content) = content fsTableLba.toNat :=
  fsTableSector_overlay .zero (content fsTableLba.toNat)

/-! ## The invariant of all calls -/

/-- The machine at power-on, with a working disk of the given content. -/
def fsPowerOn (capacity : Nat) (content : Nat → Sector) : FsState where
  ata := ⟨true, ⟨capacity, content, [], .none⟩⟩
  info := .zero
  cache := fun _ => .zero
  entries := .zero

/-- A blank disk after the first `fs_init`. -/
def fsBlankDisk (capacity : Nat) : FsState :=
  fsStep (fsPowerOn capacity fun _ => .zero _) (.none, .init)

/-- `fs_init` has just formatted a disk that carried no filesystem. -/
def FsFresh (s : FsState) : Prop :=
  ∃ t f, ¬ FsFormatted t.ata.device.content ∧ s = fsStep t (f, .init) ∧
    s.info.mounted = true

/-- "a" -/
def fsNameA : CString := ⟨[97], by decide⟩

/-- "b" -/
def fsNameB : CString := ⟨[98], by decide⟩

theorem fsBlankDisk_entries (capacity : Nat) : (fsBlankDisk capacity).entries = .zero := by
  have hblank : ¬ FsFormatted fun _ => Bytes.zero ataSectorSize := by decide +kernel
  obtain ⟨ws, -, ⟨-, -, hentries⟩ | ⟨-, -, -, hentries, -⟩ | ⟨-, hformatted, -⟩⟩ :=
    fsStep_init_cases (fsPowerOn capacity fun _ => .zero _) .none
  · exact hentries
  · exact hentries
  · exact absurd hformatted hblank

theorem fsFresh_blankDisk {capacity : Nat} (hcap : fsDataLba.toNat ≤ capacity) :
    FsFresh (fsBlankDisk capacity) := by
  have hblank : ¬ FsFormatted fun _ => Bytes.zero ataSectorSize := by decide +kernel
  have hinfo : (fsInit ((fsPowerOn capacity fun _ => .zero _).withFaults .none)).info =
      fsFormatInfo :=
    fsInit_of_unformatted (s := (fsPowerOn capacity fun _ => .zero _).withFaults .none)
      rfl rfl hcap hblank
  have hmounted : (fsBlankDisk capacity).info.mounted = true := by
    unfold fsBlankDisk
    rw [fsStep_init_info, hinfo]
    rfl
  exact ⟨fsPowerOn capacity fun _ => .zero _, .none, hblank, rfl, hmounted⟩

/-- The states reached from a fresh format by any calls, failing ones included. -/
def FsReachable : FsState → Prop := Reach FsFresh fsStep fun _ _ => True

theorem FsFresh.entries_eq {s : FsState} (h : FsFresh s) : s.entries = .zero := by
  obtain ⟨t, f, hnot, rfl, -⟩ := h
  obtain ⟨ws, -, ⟨-, -, hentries⟩ | ⟨-, -, -, hentries, -⟩ | ⟨-, hformatted, -⟩⟩ :=
    fsStep_init_cases t f
  · exact hentries
  · exact hentries
  · exact absurd hformatted hnot

structure FsInv (s : FsState) : Prop where
  faults_eq : s.ata.device.faults = .none
  present_eq : s.ata.present = true
  room : fsDataLba.toNat ≤ s.ata.device.capacity
  table : FsTableInv s.entries
  data_start : s.info.mounted = true → s.info.dataStartLba = fsDataLba
  superblock : s.ata.device.content fsSuperblockLba.toNat =
    fsSuperblockSector fsFormatSuperblock
  stored : ∃ stored, FsTableInv stored ∧
    s.ata.device.content fsTableLba.toNat = fsTableSector stored

theorem fsFormatted_of_superblock {content : Nat → Sector}
    (h : content fsSuperblockLba.toNat = fsSuperblockSector fsFormatSuperblock) :
    FsFormatted content := by
  rw [FsFormatted, h, fsDecodeSuperblock_sector]
  exact ⟨rfl, rfl⟩

theorem applyWrites_fsFormatWrites (c : Nat → Sector) :
    applyWrites c fsFormatWrites fsSuperblockLba.toNat =
        fsSuperblockSector fsFormatSuperblock ∧
      applyWrites c fsFormatWrites fsTableLba.toNat = fsTableSector .zero := by
  constructor
  · rw [fsFormatWrites, applyWrites_cons, applyWrites_of_ne, Function.update_self]
    simp [toNat_fsSuperblockLba, toNat_fsTableLba]
  · exact applyWrites_concat c [_] fsTableLba.toNat _

/-- Formatting stopped midway leaves the new superblock or the sectors as they were. -/
theorem applyWrites_of_prefix_fsFormatWrites (c : Nat → Sector) {ws : List (Nat × Sector)}
    (h : ws <+: fsFormatWrites) :
    (applyWrites c ws fsSuperblockLba.toNat = c fsSuperblockLba.toNat ∨
        applyWrites c ws fsSuperblockLba.toNat = fsSuperblockSector fsFormatSuperblock) ∧
      (applyWrites c ws fsTableLba.toNat = c fsTableLba.toNat ∨
        applyWrites c ws fsTableLba.toNat = fsTableSector .zero) := by
  rw [show fsFormatWrites = [_] ++ [_] from rfl, List.prefix_concat_iff] at h
  rcases h with rfl | h
  · have happ := applyWrites_fsFormatWrites c
    exact ⟨Or.inr happ.1, Or.inr happ.2⟩
  · constructor
    · cases ws with
      | nil => exact Or.inl rfl
      | cons w ws =>
          obtain ⟨rfl, hnil⟩ := List.cons_prefix_cons.mp h
          rw [List.prefix_nil.mp hnil]
          right
          simp
    · left
      apply applyWrites_of_ne
      intro w hw
      rw [List.mem_singleton.mp (h.subset hw), toNat_fsSuperblockLba, toNat_fsTableLba]
      decide

namespace FsInv

variable {s : FsState}

theorem of_formatted {t : FsState} (hwrote : s.ata.Wrote t.ata fsFormatWrites)
    (hroom : s.ata.present = true ∧ fsDataLba.toNat ≤ s.ata.device.capacity)
    (hfaults : t.ata.device.faults = .none) (hinfo : t.info = fsFormatInfo)
    (hentries : t.entries = .zero) : FsInv t := by
  have happ := applyWrites_fsFormatWrites s.ata.device.content
  rw [← hwrote.device.content_eq] at happ
  exact
    { faults_eq := hfaults
      present_eq := by rw [hwrote.present_eq, hroom.1]
      room := by rw [hwrote.device.capacity_eq]; exact hroom.2
      table := hentries ▸ .zero
      data_start := fun _ => by rw [hinfo]; rfl
      superblock := happ.1
      stored := ⟨.zero, .zero, happ.2⟩ }

theorem of_fresh (h : FsFresh s) : FsInv s := by
  obtain ⟨t, f, hnot, rfl, hmounted⟩ := h
  obtain ⟨ws, hwrote, ⟨-, hinfo, -⟩ | ⟨rfl, hroom, hinfo, hentries, -⟩ |
    ⟨-, hformatted, -⟩⟩ :=
    fsStep_init_cases t f
  · rw [hinfo] at hmounted
    exact absurd hmounted (by decide)
  · exact of_formatted hwrote hroom rfl hinfo hentries
  · exact absurd hformatted hnot

theorem of_follows (h : FsInv s) {p : FsPlan} {ws : List (Nat × Sector)}
    {r : FsState × Int} (hfollows : FsFollows s p ws r)
    (hfaults : r.1.ata.device.faults = .none) (hp : FsTableInv p.entries)
    (hshadow : ∀ w ∈ p.shadow, fsDataLba.toNat ≤ w.1) : FsInv r.1 where
  faults_eq := hfaults
  present_eq := by rw [hfollows.wrote.present_eq, h.present_eq]
  room := by rw [hfollows.wrote.device.capacity_eq]; exact h.room
  table := hfollows.entries_eq ▸ hp
  data_start hmounted := by
    rw [hfollows.info_eq] at hmounted ⊢
    exact h.data_start hmounted
  superblock := by
    rw [(hfollows.content hshadow).2 _ (by decide), h.superblock]
    intro w hw
    have hle := hshadow w hw
    rw [toNat_fsDataLba] at hle
    rw [toNat_fsSuperblockLba]
    omega
  stored := by
    rcases (hfollows.content hshadow).1 with hsame | hnew
    · rw [hsame]
      exact h.stored
    · exact ⟨p.entries, hp, hnew⟩

theorem step_init (h : FsInv s) (f : Faults) : FsInv (fsStep s (f, .init)) := by
  obtain ⟨stored, hstored, hsector⟩ := h.stored
  have hdecode : (fsDecodeSuperblock (s.ata.device.content fsSuperblockLba.toNat)) =
      fsFormatSuperblock := by
    rw [h.superblock, fsDecodeSuperblock_sector]
  obtain ⟨ws, hwrote, hout⟩ := fsStep_init_cases s f
  have hcontent := hwrote.device.content_eq
  have hpresent : (fsStep s (f, .init)).ata.present = true := by
    rw [hwrote.present_eq, h.present_eq]
  have hroom : fsDataLba.toNat ≤ (fsStep s (f, .init)).ata.device.capacity := by
    rw [hwrote.device.capacity_eq]
    exact h.room
  rcases hout with ⟨hpre, hinfo, hentries⟩ | ⟨rfl, hformat, hinfo, hentries, -⟩ |
    ⟨rfl, -, hinfo, hentries, -⟩
  · obtain ⟨hsuper, htable⟩ := applyWrites_of_prefix_fsFormatWrites s.ata.device.content hpre
    rw [← hcontent] at hsuper htable
    exact
      { faults_eq := rfl
        present_eq := hpresent
        room := hroom
        table := hentries ▸ .zero
        data_start := fun hmounted => absurd (hinfo ▸ hmounted) (by decide)
        superblock := by
          rcases hsuper with hsuper | hsuper
          · rw [hsuper, h.superblock]
          · exact hsuper
        stored := by
          rcases htable with htable | htable
          · exact ⟨stored, hstored, htable.trans hsector⟩
          · exact ⟨.zero, .zero, htable⟩ }
  · exact of_formatted hwrote hformat rfl hinfo hentries
  · rw [applyWrites_nil] at hcontent
    exact
      { faults_eq := rfl
        present_eq := hpresent
        room := hroom
        table := hentries ▸ hstored.mount hsector
        data_start := fun _ => by rw [hinfo, hdecode]; rfl
        superblock := by rw [hcontent, h.superblock]
        stored := ⟨stored, hstored, by rw [hcontent, hsector]⟩ }

theorem step_of_refused (h : FsInv s) (f : Faults) {c : FsCall}
    (heq : fsExec s (f, c) = (s.withFaults .none, -1)) : fsStep s (f, c) = s := by
  rw [fsStep, heq]
  exact FsState.withFaults_self h.faults_eq

/-- Every call keeps the invariant, whatever the disk answers. -/
theorem step (h : FsInv s) (c : Faults × FsCall) : FsInv (fsStep s c) := by
  obtain ⟨f, c⟩ := c
  by_cases hc : c = .init
  · subst hc
    exact h.step_init f
  · rcases fsExec_cases s f hc with ⟨-, heq⟩ | ⟨p, ws, hplan, hfollows⟩
    · rw [h.step_of_refused f heq]
      exact h
    · obtain ⟨hp, hshadow⟩ := fsPlan_inv hplan h.table h.data_start
      exact h.of_follows hfollows rfl hp fun w hw => (hshadow w hw).1

theorem remount (h : FsInv s) :
    fsStep s (.none, .init) =
      { ata := s.ata
        info := fsMountInfo fsFormatSuperblock (fsMountTable s.ata.device.content)
        cache := fun i => fsSyncEntry (fsMountTable s.ata.device.content i)
        entries := fsMountTable s.ata.device.content } := by
  have hself := FsState.withFaults_self h.faults_eq
  rw [fsStep, fsExec, FsCall.perform, hself, fsInit_of_formatted h.present_eq h.faults_eq
    h.room (fsFormatted_of_superblock h.superblock), h.superblock, fsDecodeSuperblock_sector]
  exact FsState.withFaults_self h.faults_eq

end FsInv

theorem FsReachable.inv {s : FsState} (h : FsReachable s) : FsInv s :=
  h.invariant (fun _ => .of_fresh) fun _ c hs _ => hs.step c

end AcharyaOS.Fs
