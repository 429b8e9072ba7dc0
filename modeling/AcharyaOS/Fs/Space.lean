import AcharyaOS.Fs.Synced

/-!
# Space

A write is placed behind every file of the table, its own old extent included.
It succeeds exactly when that leaves enough sectors to the end of the disk.
-/

namespace AcharyaOS.Fs

open Foundation Disk

/-- `b` consecutive sectors of the data area that no used file owns, from sector `a`. -/
def FsFreeRun (s : FsState) (a b : Nat) : Prop :=
  fsDataLba.toNat ≤ a ∧ a + b ≤ s.ata.device.capacity ∧
    ∀ x, a ≤ x → x < a + b → ∀ i, (s.entries i).isUsed = true → x ∉ fsSectors (s.entries i)

theorem FsSynced.toNat_next {s : FsState} (h : FsSynced s) :
    (fsNextFreeLba s.info.dataStartLba s.entries).toNat =
      highWater fsDataLba.toNat (fsExtents s.entries) := by
  rw [h.data_start h.mounted_eq]
  apply toNat_fsNextFreeLba
  intro i hi
  have hstop := h.stop_le i hi
  omega

/-- On a working disk a write with a slot for its entry returns 0 exactly when its
sectors fit behind the last used one. -/
theorem fsWriteFile_zero_iff {s : FsState} (h : FsSuccessful s) {name : CString}
    {data : List UInt8} (hsize : data.length ≤ fsMaxFileBytes)
    (hslot : (fsFindEntry s.entries name).isSome ∨ (fsFindFreeEntry s.entries).isSome) :
    (fsExec s (.none, .writeFile (some name) (some data))).2 = 0 ↔
      fsBlockCount data.length = 0 ∨
        highWater fsDataLba.toNat (fsExtents s.entries) + fsBlockCount data.length ≤
          min s.ata.device.capacity (2 ^ 28) := by
  have hsynced := h.synced
  obtain ⟨idx, claimed, hclaim⟩ : ∃ idx claimed,
      fsClaimEntry s.entries name = some (idx, claimed) := by
    unfold fsClaimEntry
    cases hfind : fsFindEntry s.entries name with
    | some i => exact ⟨i, s.entries, rfl⟩
    | none =>
        cases hfree : fsFindFreeEntry s.entries with
        | some i => exact ⟨i, _, rfl⟩
        | none => simp [hfind, hfree] at hslot
  rw [← hsynced.toNat_next, ← fsNextFreeLba_claimed _ hsynced.table hclaim]
  exact fsWriteFile_zero_iff_fits hsynced.toFsInv hsynced.mounted_eq hsize hclaim

theorem fsWriteFile_zero_oneFile :
    (fsExec fsOneFile (.none, .writeFile (some fsNameB) (some [3]))).2 = 0 :=
  (fsWriteFile_zero_iff fsSuccessful_oneFile (by decide) (by decide +kernel)).mpr
    (by decide +kernel)

/-! ### Two sectors used, one of them free again -/

/-- A disk with two data sectors after "a" was written twice: the file lies on the
second one. -/
def fsTwiceWritten : FsState :=
  Run.runSteps fsStep (fsBlankDisk 4100)
    [(.none, .writeFile (some fsNameA) (some [1])),
      (.none, .writeFile (some fsNameA) (some [2]))]

theorem fsTwiceWritten_out_of_space :
    FsSuccessful fsTwiceWritten ∧ (fsFindEntry fsTwiceWritten.entries fsNameA).isSome ∧
      FsFreeRun fsTwiceWritten 4098 (fsBlockCount 1) ∧
      (fsExec fsTwiceWritten (.none, .writeFile (some fsNameA) (some [3]))).2 = -1 := by
  refine ⟨?_, by decide +kernel, ⟨by decide, by decide +kernel, ?_⟩, by decide +kernel⟩
  · exact Run.Reach.runSteps _ (.start (fsFresh_blankDisk (by decide)))
      ⟨⟨by decide +kernel, by decide +kernel⟩, ⟨by decide +kernel, by decide +kernel⟩,
        trivial⟩
  · intro x hge hlt i hi hmem
    have hstart : (fsTwiceWritten.entries i).startLba.toNat ≤ x := hmem.1
    have hx : x = 4098 := by
      have hone : fsBlockCount 1 = 1 := by decide
      omega
    subst hx
    have hall : ∀ i, (fsTwiceWritten.entries i).isUsed = true →
        4098 < (fsTwiceWritten.entries i).startLba.toNat := by decide +kernel
    have habove := hall i hi
    omega

end AcharyaOS.Fs
