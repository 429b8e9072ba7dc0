import AcharyaOS.Fs.Lookup
import AcharyaOS.Fs.View

/-!
# Remounting

The table sector holds the first 14 of the 32 entries.  A remount shows the same
filesystem as long as no file lives in a slot behind them.
-/

namespace AcharyaOS.Fs

open Foundation Disk Foundation.Run

/-- A successful update call that writes a short name. -/
def FsShortSuccess (s : FsState) (c : Faults × FsCall) : Prop :=
  FsShortUpdate s c ∧ (fsExec s c).2 = 0

instance (c : FsCall) : Decidable (c ≠ .init) :=
  match c with
  | .init => .isFalse fun h => h rfl
  | .writeFile _ _ => .isTrue FsCall.noConfusion
  | .deleteFile _ => .isTrue FsCall.noConfusion

instance (s : FsState) (c : Faults × FsCall) : Decidable (FsShortSuccess s c) :=
  inferInstanceAs (Decidable ((c.2 ≠ .init ∧ c.2.shortName) ∧ (fsExec s c).2 = 0))

theorem fsSucceeds_of_shortSuccess {s : FsState} (h : FsSynced s) {c : Faults × FsCall}
    (hc : FsShortSuccess s c) : FsSucceeds s c := by
  obtain ⟨p, -, -, -, -, hinfo, -⟩ := fsExec_zero_cases hc.1.1 hc.2
  refine ⟨hc.2, ?_⟩
  rw [hinfo]
  exact h.mounted_eq

theorem synced_of_shortSuccess {s : FsState} (h : Reach FsFresh fsStep FsShortSuccess s) :
    FsSynced s :=
  h.invariant (fun _ => .of_fresh) fun _ _ hs hc => hs.step (fsSucceeds_of_shortSuccess hs hc)

/-- The names, sizes and start sectors `fs_list_files` returns. -/
def fsListed (s : FsState) (maxFiles : Nat) : Set (List UInt8 × UInt32 × UInt32) :=
  {x | ∃ e ∈ fsListFiles s maxFiles, x = (cText e.name.toList, e.sizeBytes, e.startLba)}

/-- Both states list the same files and answer every read alike. -/
structure FsSameFiles (s t : FsState) : Prop where
  listed_eq : ∀ maxFiles, fsListed t maxFiles = fsListed s maxFiles
  read_eq : ∀ name bufferLen,
    (fsReadFile t name bufferLen).2 = (fsReadFile s name bufferLen).2

theorem mem_fsListFiles {s : FsState} {i : Fin fsFilesMax}
    (hi : (s.entries i).isUsed = true) : s.cache i ∈ fsListFiles s fsFilesMax := by
  unfold fsListFiles
  rw [List.take_of_length_le]
  · apply List.mem_map_of_mem
    rw [List.mem_filter]
    exact ⟨List.mem_finRange i, hi⟩
  · rw [List.length_map]
    apply (List.length_filter_le _ _).trans
    rw [List.length_finRange]

theorem of_mem_fsListFiles {s : FsState} {maxFiles : Nat} {e : FsFileEntry}
    (he : e ∈ fsListFiles s maxFiles) :
    ∃ i, (s.entries i).isUsed = true ∧ s.cache i = e := by
  have hmap := List.mem_of_mem_take he
  rw [List.mem_map] at hmap
  obtain ⟨i, hi, rfl⟩ := hmap
  exact ⟨i, (List.mem_filter.mp hi).2, rfl⟩

theorem fsListFiles_congr {s t : FsState}
    (hused : ∀ i, (t.entries i).isUsed = (s.entries i).isUsed)
    (hcache : ∀ i, (s.entries i).isUsed = true → t.cache i = s.cache i) (maxFiles : Nat) :
    fsListFiles t maxFiles = fsListFiles s maxFiles := by
  unfold fsListFiles
  simp only [hused]
  congr 1
  apply List.map_congr_left
  intro i hi
  exact hcache i (List.mem_filter.mp hi).2

theorem cText_fsSyncEntry {entries : FsTable} (hinv : FsTableInv entries)
    {i : Fin fsFilesMax} (hi : (entries i).isUsed = true) :
    cText (fsSyncEntry (entries i)).name.toList = cText (entries i).name.toList := by
  have hlt := hinv.name_lt i hi
  apply cText_set_zero
  simp only [fsNameMax] at hlt ⊢
  omega

section

variable {s : FsState}

theorem fsSameFiles_of_stored (h : FsSynced s)
    (hslots : ∀ i, (s.entries i).isUsed = true → i.val < fsStoredSlots) :
    FsSameFiles s (fsStep s (.none, .init)) := by
  have hremount := h.toFsInv.remount
  have hata : (fsStep s (.none, .init)).ata = s.ata := by rw [hremount]
  have hmounted : (fsStep s (.none, .init)).info.mounted = true := by
    rw [hremount]
    rfl
  have hentries : (fsStep s (.none, .init)).entries = fsMountTable s.ata.device.content := by
    rw [hremount]
  have hused : ∀ i, ((fsStep s (.none, .init)).entries i).isUsed = (s.entries i).isUsed := by
    intro i
    rw [hentries]
    by_cases hi : i.val < fsStoredSlots
    · rw [fsMountTable_of_lt h.table_eq hi]
    · have hfree : (s.entries i).isUsed = false := by
        rw [← Bool.not_eq_true]
        exact fun hu => hi (hslots i hu)
      rw [hfree, (fsMountTable_of_ge _ (Nat.le_of_not_lt hi)).2.2]
  have hentry : ∀ i, (s.entries i).isUsed = true →
      (fsStep s (.none, .init)).entries i = s.entries i := by
    intro i hi
    rw [hentries]
    exact fsMountTable_of_lt h.table_eq (hslots i hi)
  have hcache : ∀ i, (s.entries i).isUsed = true →
      (fsStep s (.none, .init)).cache i = s.cache i := by
    intro i hi
    rw [h.cache_eq i, ← hentry i hi, hremount]
  constructor
  · intro maxFiles
    unfold fsListed
    rw [fsListFiles_congr hused hcache]
  · intro name bufferLen
    apply fsReadFile_congr h.faults_eq rfl (by rw [hata]) (by rw [hata])
    · apply fsReadCheck_congr
      · rw [hmounted, h.mounted_eq]
      · intro n _
        apply fsFindEntry_congr
        intro i
        cases hi : (s.entries i).isUsed with
        | true => rw [hentry i hi]
        | false =>
            rw [FsDiskEntry.named_of_free hi, FsDiskEntry.named_of_free ((hused i).trans hi)]
      · intro n i _ hfind
        exact hentry i (isUsed_of_fsFindEntry hfind).1
    · intro e _ j _ _
      rw [hata]

theorem stored_of_fsSameFiles (h : FsSynced s) (hunique : FsUniqueNames s.entries)
    (hsame : FsSameFiles s (fsStep s (.none, .init))) (i : Fin fsFilesMax)
    (hi : (s.entries i).isUsed = true) : i.val < fsStoredSlots := by
  have hmem : (cText (s.cache i).name.toList, (s.cache i).sizeBytes, (s.cache i).startLba) ∈
      fsListed s fsFilesMax := ⟨s.cache i, mem_fsListFiles hi, rfl⟩
  rw [← hsame.listed_eq, h.toFsInv.remount] at hmem
  obtain ⟨e, he, htext⟩ := hmem
  obtain ⟨j, hj, rfl⟩ := of_mem_fsListFiles he
  obtain ⟨hlt, heq⟩ := fsMountTable_used h.table_eq hj
  simp only [heq] at hj htext
  rw [h.cache_eq, Prod.mk.injEq, cText_fsSyncEntry h.table hi,
    cText_fsSyncEntry h.table hj] at htext
  rw [hunique i j hi hj htext.1]
  exact hlt

end

/-- After a run of successful writes and deletes of short names, a remount shows the same
files exactly when all of them are in the 14 slots the table sector holds. -/
theorem fsSameFiles_of_remount_iff {s : FsState}
    (h : Reach FsFresh fsStep FsShortSuccess s) :
    FsSameFiles s (fsStep s (.none, .init)) ↔
      ∀ i, (s.entries i).isUsed = true → i.val < fsStoredSlots := by
  have hunique : FsUniqueNames s.entries :=
    fsUniqueNames_of_reach (h.mono fun _ _ hc => hc.1.copies)
  constructor
  · exact stored_of_fsSameFiles (synced_of_shortSuccess h) hunique
  · exact fsSameFiles_of_stored (synced_of_shortSuccess h)

theorem fsSameFiles_of_remount_oneFile :
    FsSameFiles fsOneFile (fsStep fsOneFile (.none, .init)) := by
  have hreach : Reach FsFresh fsStep FsShortSuccess fsOneFile :=
    .next (.start (fsFresh_blankDisk (by decide))) (by decide +kernel)
  exact (fsSameFiles_of_remount_iff hreach).mpr (by decide +kernel)

/-! ### Fifteen files -/

/-- Fifteen empty files named "a" to "o". -/
def fsFifteenWrites : List (Faults × FsCall) :=
  (List.finRange 15).map fun i =>
    (.none, .writeFile (some ⟨[97 + UInt8.ofNat i.val], by
      revert i
      decide⟩) (some []))

def fsFifteenFiles : FsState := runSteps fsStep (fsBlankDisk 5000) fsFifteenWrites

theorem fsFifteenFiles_lost :
    Reach FsFresh fsStep FsShortSuccess fsFifteenFiles ∧
      (fsListFiles fsFifteenFiles fsFilesMax).length = 15 ∧
      (fsListFiles (fsStep fsFifteenFiles (.none, .init)) fsFilesMax).length = 14 ∧
      ¬ FsSameFiles fsFifteenFiles (fsStep fsFifteenFiles (.none, .init)) := by
  refine ⟨?_, by decide +kernel, by decide +kernel, ?_⟩
  · apply Reach.runSteps _ (.start (fsFresh_blankDisk (by decide)))
    decide +kernel
  · intro hsame
    have hmem : ([111], 0, 4098) ∈ fsListed fsFifteenFiles fsFilesMax := by
      unfold fsListed
      simp only [Set.mem_ofPred_eq]
      decide +kernel
    rw [← hsame.listed_eq] at hmem
    unfold fsListed at hmem
    simp only [Set.mem_ofPred_eq] at hmem
    exact absurd hmem (by decide +kernel)

end AcharyaOS.Fs
