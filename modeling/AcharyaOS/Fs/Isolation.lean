import AcharyaOS.Fs.Lookup
import AcharyaOS.Fs.View

/-!
# Isolation of files

An update of one file, successful or not, leaves what is read of every other
file unchanged, and the sector ranges of the files stay apart.
-/

namespace AcharyaOS.Fs

open Foundation Disk

/-- Used entries own disjoint sectors, none of them the superblock or the table. -/
structure FsDisjoint (entries : FsTable) : Prop where
  disjoint : ∀ i j, i ≠ j → (entries i).isUsed = true → (entries j).isUsed = true →
    Disjoint (fsSectors (entries i)) (fsSectors (entries j))
  superblock_not_mem : ∀ i, (entries i).isUsed = true →
    fsSuperblockLba.toNat ∉ fsSectors (entries i)
  table_not_mem : ∀ i, (entries i).isUsed = true →
    fsTableLba.toNat ∉ fsSectors (entries i)

theorem FsTableInv.disjoint {entries : FsTable} (h : FsTableInv entries)
    (hwrap : ∀ i, (entries i).isUsed = true →
      (entries i).startLba.toNat + fsEntryBlocks (entries i) < 2 ^ 32) :
    FsDisjoint entries where
  disjoint i j hij hi hj :=
    (h.apart hij (fsExtents_of_lt hi (hwrap i hi))
      (fsExtents_of_lt hj (hwrap j hj))).disjoint
  superblock_not_mem i hi hmem := by
    have hstart := h.start_ge i hi
    have hle : (entries i).startLba.toNat ≤ fsSuperblockLba.toNat := hmem.1
    rw [toNat_fsDataLba] at hstart
    rw [toNat_fsSuperblockLba] at hle
    omega
  table_not_mem i hi hmem := by
    have hstart := h.start_ge i hi
    have hle : (entries i).startLba.toNat ≤ fsTableLba.toNat := hmem.1
    rw [toNat_fsDataLba] at hstart
    rw [toNat_fsTableLba] at hle
    omega

def FsAddressable (entries : FsTable) : Prop :=
  ∀ i, (entries i).isUsed = true →
    (entries i).startLba.toNat + fsEntryBlocks (entries i) ≤ 2 ^ 28

section Update

variable {s : FsState} {c : FsCall} {p : FsPlan}

/-- A new file starts at or below sector 2^28, so its range does not wrap. -/
theorem fsPlan_no_wrap (hinv : FsInv s) (haddr : FsAddressable s.entries)
    (hplan : fsPlan s c = some p) (i : Fin fsFilesMax) (hi : (p.entries i).isUsed = true) :
    (p.entries i).startLba.toNat + fsEntryBlocks (p.entries i) < 2 ^ 32 := by
  rcases fsPlan_cases hplan with
    ⟨name, data, idx, claimed, -, hmounted, hsize, hclaim, rfl⟩ | ⟨name, idx, -, -, rfl⟩
  · have hnext : (fsNextFreeLba s.info.dataStartLba s.entries).toNat ≤ 2 ^ 28 := by
      rw [fsNextFreeLba_le_iff, hinv.data_start hmounted]
      refine ⟨by decide, ?_⟩
      intro j hj
      have hstop := haddr j hj
      rw [toNat_fsEntryEnd_of_lt (by omega)]
      exact hstop
    rw [← fsNextFreeLba_claimed _ hinv.table hclaim] at hnext
    by_cases hidx : i = idx
    · subst hidx
      have hblocks := (fsPlan_inv hplan hinv.table hinv.data_start).1.blocks_le i
      rw [fsWritePlan_entries_self] at hblocks ⊢
      show (fsNextFreeLba s.info.dataStartLba claimed).toNat + _ < _
      omega
    · rw [fsWritePlan_entries hclaim, Function.update_of_ne hidx] at hi ⊢
      have hstop := haddr i hi
      omega
  · by_cases hidx : i = idx
    · subst hidx
      simp only [Function.update_self] at hi
      exact absurd hi (by decide)
    · simp only [Function.update_of_ne hidx] at hi ⊢
      have hstop := haddr i hi
      omega

theorem fsReadFile_other {a b : CString} (hinv : FsInv s) (haddr : FsAddressable s.entries)
    (hplan : fsPlan s c = some p) (hname : c.name? = some a) (ha : a.length < fsNameMax)
    (hne : a ≠ b) {f : Faults} {ws : List (Nat × Sector)}
    (hfollows : FsFollows s p ws (fsExec s (f, c))) (bufferLen : Nat) :
    (fsReadFile (fsStep s (f, c)) (some b) bufferLen).2 =
      (fsReadFile s (some b) bufferLen).2 := by
  apply fsReadFile_congr hinv.faults_eq rfl hfollows.wrote.present_eq
    hfollows.wrote.device.capacity_eq
  · apply fsReadCheck_congr
    · rw [hfollows.info_eq]
    · rintro n ⟨⟩
      rw [hfollows.entries_eq]
      exact fsPlan_find_other hplan hname ha hne
    · rintro n i ⟨⟩ hfind
      rw [hfollows.entries_eq]
      exact fsPlan_entry_other hplan hname ha hne hfind
  · intro e he j hj _
    obtain ⟨n, i, -, -, hfind, rfl, -⟩ := fsReadCheck_eq_some_iff.mp he
    have hused := (isUsed_of_fsFindEntry hfind).1
    have hstop := haddr i hused
    exact hfollows.file_content hinv hplan hused (by omega) hj

end Update

/-- Whatever happens to a write or delete of `a`, reads of `b` do not notice, and the
files own disjoint sectors before and after. -/
theorem fsUpdate_isolated {s : FsState} (h : FsReachable s) (haddr : FsAddressable s.entries)
    {a b : CString} (ha : a.length < fsNameMax) (hne : a ≠ b)
    (f : Faults) {c : FsCall} (hc : c.name? = some a) :
    (∀ bufferLen, (fsReadFile (fsStep s (f, c)) (some b) bufferLen).2 =
        (fsReadFile s (some b) bufferLen).2) ∧
      FsDisjoint s.entries ∧ FsDisjoint (fsStep s (f, c)).entries := by
  have hinit : c ≠ .init := by
    rintro rfl
    exact absurd hc (by simp [FsCall.name?])
  have hbefore : FsDisjoint s.entries := by
    apply h.inv.table.disjoint
    intro i hi
    have hstop := haddr i hi
    omega
  rcases fsExec_cases s f hinit with ⟨-, heq⟩ | ⟨p, ws, hplan, hfollows⟩
  · rw [h.inv.step_of_refused f heq]
    exact ⟨fun _ => rfl, hbefore, hbefore⟩
  · refine ⟨fsReadFile_other h.inv haddr hplan hc ha hne hfollows, hbefore, ?_⟩
    have hentries : (fsStep s (f, c)).entries = p.entries := hfollows.entries_eq
    rw [hentries]
    exact (fsPlan_inv hplan h.inv.table h.inv.data_start).1.disjoint
      (fsPlan_no_wrap h.inv haddr hplan)

theorem fsUpdate_isolated_oneFile :
    (∀ bufferLen,
        (fsReadFile (fsStep fsOneFile (⟨[], [.failed 1]⟩,
            .writeFile (some fsNameB) (some [3]))) (some fsNameA) bufferLen).2 =
          (fsReadFile fsOneFile (some fsNameA) bufferLen).2) ∧
      FsDisjoint fsOneFile.entries ∧
      FsDisjoint (fsStep fsOneFile (⟨[], [.failed 1]⟩,
        .writeFile (some fsNameB) (some [3]))).entries :=
  fsUpdate_isolated (fsSuccessful_oneFile.mono fun _ _ _ => trivial)
    (by unfold FsAddressable; decide +kernel) (by decide) (by decide) _ rfl

end AcharyaOS.Fs
