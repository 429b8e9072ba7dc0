import AcharyaOS.Fs.Crash
import AcharyaOS.Fs.Format

/-!
# Formatting that is interrupted

`fs_format` writes the superblock first and the table behind it.  Stopped between the two, it
leaves a disk that the next `fs_init` accepts, with whatever the table sector held before.
-/

namespace AcharyaOS.Fs

open Foundation Disk

/-- Mounted, and no entry is in use. -/
structure FsMountsEmpty (s : FsState) : Prop where
  mounted : s.info.mounted = true
  used_files : s.info.usedFiles = 0
  entries : ∀ i, (s.entries i).isUsed = false

/-- The table that a mount would load from the disk has no file. -/
def FsTableFree (content : Nat → Sector) : Prop :=
  ∀ i, (fsMountTable content i).isUsed = false

instance (content : Nat → Sector) : Decidable (FsTableFree content) :=
  inferInstanceAs (Decidable (∀ i, (fsMountTable content i).isUsed = false))

theorem fsCountUsed_of_free {entries : FsTable} (h : ∀ i, (entries i).isUsed = false) :
    fsCountUsed entries = 0 := by
  have hzero : countSlots (fun i => (entries i).isUsed) = 0 := by
    unfold countSlots
    rw [List.countP_eq_zero]
    exact fun i _ => by rw [h i]; exact Bool.false_ne_true
  rw [fsCountUsed, hzero]
  rfl

/-- On a working disk `fs_init` ends mounted and empty exactly if there is no superblock, so
that it formats, or no file in the table it mounts. -/
theorem fsMountsEmpty_powerOn_iff {capacity : Nat} (hcap : fsDataLba.toNat ≤ capacity)
    (content : Nat → Sector) :
    FsMountsEmpty (fsInit (fsPowerOn capacity content)) ↔
      ¬ FsFormatted content ∨ FsTableFree content := by
  by_cases hformatted : FsFormatted content
  · rw [fsInit_powerOn hcap hformatted]
    constructor
    · exact fun h => .inr h.entries
    · intro h
      have hfree := h.resolve_left (not_not_intro hformatted)
      exact ⟨rfl, fsCountUsed_of_free hfree, hfree⟩
  · have hinfo := fsInit_of_unformatted (s := fsPowerOn capacity content) rfl rfl hcap hformatted
    refine iff_of_true ?_ (.inl hformatted)
    obtain ⟨ws, -, ⟨-, hzero, -⟩ | ⟨-, -, -, hentries, -⟩ | ⟨-, haccepted, -⟩⟩ :=
      fsInit_cases (fsPowerOn capacity content)
    · rw [hinfo] at hzero
      exact absurd (congrArg FsInfo.mounted hzero) (by decide)
    · refine ⟨by rw [hinfo]; rfl, by rw [hinfo]; rfl, fun i => ?_⟩
      rw [hentries]
      rfl
    · exact absurd haccepted hformatted

/-! ## The first run -/

theorem fsIssued_init {s : FsState} (hpresent : s.ata.present = true)
    (hnot : ¬ FsFormatted s.ata.device.content) (f : Faults) :
    fsIssued s (f, .init) = fsFormatStored s.ata.device.capacity f.writes := by
  apply fsIssued_of_wrote
  apply fsStep_init_of_format hpresent
  have hpresent' : (s.withFaults f).ata.present = true := hpresent
  cases hsb : (fsLoadSuperblock (s.withFaults f).ata).2 with
  | none => exact fsInit_of_unreadable hpresent' hsb
  | some sb =>
    have hreject : ¬ sb.accepted := by
      rw [fsLoadSuperblock_some hsb]
      exact hnot
    exact fsInit_of_rejected hpresent' hsb hreject

theorem fsFormatStored_initial (capacity : Nat) (writes : List WriteOutcome) :
    fsFormatStored capacity writes <+: fsFormatWrites := by
  have hsuper := storedBy_prefix_placed capacity (writes.headD .done) fsSuperblockLba.toNat
    [fsSuperblockSector fsFormatSuperblock]
  have htable := storedBy_prefix_placed capacity (writes.tail.headD .done) fsTableLba.toNat
    [fsTableSector .zero]
  unfold fsFormatStored
  by_cases hdone : fsSuperblockLba.toNat < capacity ∧ writes.headD .done = .done
  · rw [if_pos hdone, hdone.2, storedBy_done (by rw [List.length_singleton]; omega)]
    exact List.cons_prefix_cons.mpr ⟨rfl, htable⟩
  · rw [if_neg hdone, List.append_nil]
    exact hsuper.trans (List.cons_prefix_cons.mpr ⟨rfl, List.nil_prefix⟩)

theorem fsFormat_image {content : Nat → Sector} {ws : List (Nat × Sector)}
    (hws : ws <+: fsFormatWrites) (hnot : ¬ FsFormatted content) :
    ¬ FsFormatted (applyWrites content ws) ∨ FsTableFree (applyWrites content ws) ↔
      ws.length ≠ 1 ∨ FsTableFree content := by
  rw [show fsFormatWrites = [_] ++ [_] from rfl, List.prefix_concat_iff] at hws
  rcases hws with rfl | hws
  · -- both writes: the table is the empty one
    have htable := (applyWrites_fsFormatWrites content).2
    have hfree : FsTableFree (applyWrites content fsFormatWrites) := by
      intro i
      by_contra hused
      rw [Bool.not_eq_false] at hused
      have hmount := (fsMountTable_used htable hused).2
      rw [hmount] at hused
      cases hused
    exact iff_of_true (.inr hfree) (.inl (by decide))
  · cases ws with
    | nil => exact iff_of_true (.inl hnot) (.inl (by decide))
    | cons w ws =>
      -- the superblock alone: the table is the old one
      obtain ⟨rfl, hnil⟩ := List.cons_prefix_cons.mp hws
      rw [List.prefix_nil.mp hnil]
      have hsame : FsTableFree (applyWrites content
          [(fsSuperblockLba.toNat, fsSuperblockSector fsFormatSuperblock)]) ↔
            FsTableFree content := by
        unfold FsTableFree fsMountTable
        rw [applyWrites_of_ne content (a := fsTableLba.toNat)]
        intro v hv
        rw [List.mem_singleton.mp hv]
        decide
      have hformatted : FsFormatted (applyWrites content
          [(fsSuperblockLba.toNat, fsSuperblockSector fsFormatSuperblock)]) := by
        apply fsFormatted_of_superblock
        rw [applyWrites_cons, applyWrites_nil, Function.update_self]
      rw [hsame, List.length_singleton]
      simp only [hformatted, not_true_eq_false, false_or, ne_eq]

/-- Wherever the writes of a formatting `fs_init` stop, the next one on a working disk ends
mounted and empty exactly if it was not the superblock alone that had been written, or the old
table sector has no used entry in it. -/
theorem fsMountsEmpty_interrupted_iff {s : FsState} (hpresent : s.ata.present = true)
    (hcap : fsDataLba.toNat ≤ s.ata.device.capacity)
    (hnot : ¬ FsFormatted s.ata.device.content) (f : Faults) (k : Nat) :
    FsMountsEmpty (fsInit (fsPowerOn s.ata.device.capacity (fsCrashImage s (f, .init) k))) ↔
      ((fsFormatStored s.ata.device.capacity f.writes).take k).length ≠ 1 ∨
        FsTableFree s.ata.device.content := by
  have hprefix : (fsFormatStored s.ata.device.capacity f.writes).take k <+: fsFormatWrites :=
    (List.take_prefix _ _).trans (fsFormatStored_initial _ _)
  rw [fsMountsEmpty_powerOn_iff hcap, fsCrashImage, fsIssued_init hpresent hnot,
    fsFormat_image hprefix hnot]

theorem fsMountsEmpty_interrupted_blank :
    FsMountsEmpty (fsInit (fsPowerOn 5000
      (fsCrashImage (fsPowerOn 5000 fun _ => .zero _) (.none, .init) 1))) := by
  have hiff := fsMountsEmpty_interrupted_iff (s := fsPowerOn 5000 fun _ => .zero _) rfl
    (by decide) (by decide +kernel) .none 1
  exact hiff.mpr (.inr (by decide +kernel))

/-! ### Old data in the table sector -/

/-- A disk whose every byte is 1. -/
def fsOnesDisk : FsState :=
  fsPowerOn 5000 fun _ => Bytes.ofList ataSectorSize (List.replicate ataSectorSize 1)

/-- Power is lost between the two writes: the next boot mounts what stood in the table sector. -/
theorem fsOnesDisk_interrupted :
    ¬ FsFormatted fsOnesDisk.ata.device.content ∧
      (fsInit (fsPowerOn 5000 (fsCrashImage fsOnesDisk (.none, .init) 1))).info.mounted = true ∧
      ((fsInit (fsPowerOn 5000 (fsCrashImage fsOnesDisk (.none, .init) 1))).entries 0).isUsed =
        true ∧
      ¬ FsMountsEmpty (fsInit (fsPowerOn 5000 (fsCrashImage fsOnesDisk (.none, .init) 1))) := by
  have hused : ((fsInit (fsPowerOn 5000
      (fsCrashImage fsOnesDisk (.none, .init) 1))).entries 0).isUsed = true := by decide +kernel
  refine ⟨by decide +kernel, by decide +kernel, hused, fun h => ?_⟩
  rw [h.entries 0] at hused
  cases hused

end AcharyaOS.Fs
