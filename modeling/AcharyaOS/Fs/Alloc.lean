import AcharyaOS.Foundation.Extent
import AcharyaOS.Fs.Names
import AcharyaOS.Fs.Plan

/-!
# The allocator

`fs_next_free_lba` is a high-water mark over the used entries, computed in
32-bit arithmetic.  Files written through it occupy sector ranges that stay
apart, start in the data area and hold at most 256 sectors.
-/

namespace AcharyaOS.Fs

open Foundation Disk

/-! ## The next free sector -/

private theorem foldl_next_le_iff (entries : FsTable) (b : Nat) (l : List (Fin fsFilesMax)) :
    ∀ next : UInt32,
      (l.foldl (fun next i =>
        if !(entries i).isUsed then next
        else if fsEntryEnd (entries i) > next then fsEntryEnd (entries i) else next)
        next).toNat ≤ b ↔
      next.toNat ≤ b ∧
        ∀ i ∈ l, (entries i).isUsed = true → (fsEntryEnd (entries i)).toNat ≤ b := by
  induction l with
  | nil => simp
  | cons i l ih =>
      intro next
      rw [List.foldl_cons, ih, List.forall_mem_cons]
      by_cases hused : (entries i).isUsed = true
      · by_cases hgt : fsEntryEnd (entries i) > next
        · have hlt := UInt32.lt_iff_toNat_lt.mp hgt
          simp only [hused, hgt, Bool.not_true, Bool.false_eq_true, if_false, if_true]
          constructor
          · rintro ⟨hend, hrest⟩
            exact ⟨by omega, fun _ => hend, hrest⟩
          · rintro ⟨_, hend, hrest⟩
            exact ⟨hend trivial, hrest⟩
        · have hle := UInt32.le_iff_toNat_le.mp (UInt32.not_lt.mp hgt)
          simp only [hused, hgt, Bool.not_true, Bool.false_eq_true, if_false]
          constructor
          · rintro ⟨hnext, hrest⟩
            exact ⟨hnext, fun _ => by omega, hrest⟩
          · rintro ⟨hnext, _, hrest⟩
            exact ⟨hnext, hrest⟩
      · simp [hused]

/-- The next free sector is the least bound of the start of the data area and
the ends of all used entries. -/
theorem fsNextFreeLba_le_iff {dataStartLba : UInt32} {entries : FsTable} {b : Nat} :
    (fsNextFreeLba dataStartLba entries).toNat ≤ b ↔
      dataStartLba.toNat ≤ b ∧
        ∀ i, (entries i).isUsed = true → (fsEntryEnd (entries i)).toNat ≤ b := by
  rw [fsNextFreeLba, foldl_next_le_iff]
  simp

theorem dataStart_le_fsNextFreeLba (dataStartLba : UInt32) (entries : FsTable) :
    dataStartLba.toNat ≤ (fsNextFreeLba dataStartLba entries).toNat :=
  (fsNextFreeLba_le_iff.mp le_rfl).1

theorem end_le_fsNextFreeLba (dataStartLba : UInt32) {entries : FsTable} {i : Fin fsFilesMax}
    (hi : (entries i).isUsed = true) :
    (fsEntryEnd (entries i)).toNat ≤ (fsNextFreeLba dataStartLba entries).toNat :=
  (fsNextFreeLba_le_iff.mp le_rfl).2 i hi

/-! ## Extents -/

def fsEntryBlocks (e : FsDiskEntry) : Nat := (fsBlocksForBytes e.sizeBytes).toNat

def fsSectors (e : FsDiskEntry) : Set Nat :=
  Extent.sectors ⟨e.startLba.toNat, fsEntryBlocks e⟩

/-- The extent of a used entry, unless their numbers wrap around 2^32. -/
def fsExtent (e : FsDiskEntry) : Option Extent :=
  if e.isUsed = true ∧ e.startLba.toNat + fsEntryBlocks e < 2 ^ 32 then
    some ⟨e.startLba.toNat, fsEntryBlocks e⟩
  else none

def fsExtents (entries : FsTable) (i : Fin fsFilesMax) : Option Extent :=
  fsExtent (entries i)

theorem fsExtent_eq_some_iff {e : FsDiskEntry} {x : Extent} :
    fsExtent e = some x ↔
      e.isUsed = true ∧ x = ⟨e.startLba.toNat, fsEntryBlocks e⟩ ∧ x.stop < 2 ^ 32 := by
  unfold fsExtent
  split_ifs with h
  · rw [Option.some.injEq]
    constructor
    · rintro rfl
      exact ⟨h.1, rfl, h.2⟩
    · rintro ⟨_, hx, _⟩
      exact hx.symm
  · constructor
    · simp
    · rintro ⟨hused, rfl, hstop⟩
      exact absurd ⟨hused, hstop⟩ h

theorem fsExtents_of_lt {entries : FsTable} {i : Fin fsFilesMax}
    (hi : (entries i).isUsed = true)
    (hstop : (entries i).startLba.toNat + fsEntryBlocks (entries i) < 2 ^ 32) :
    fsExtents entries i = some ⟨(entries i).startLba.toNat, fsEntryBlocks (entries i)⟩ :=
  fsExtent_eq_some_iff.mpr ⟨hi, rfl, hstop⟩

theorem toNat_fsEntryEnd_of_lt {e : FsDiskEntry}
    (h : e.startLba.toNat + fsEntryBlocks e < 2 ^ 32) :
    (fsEntryEnd e).toNat = e.startLba.toNat + fsEntryBlocks e := by
  unfold fsEntryBlocks at h ⊢
  rw [fsEntryEnd, UInt32.toNat_add]
  omega

theorem toNat_fsEntryEnd {e : FsDiskEntry} {x : Extent} (hx : fsExtent e = some x) :
    (fsEntryEnd e).toNat = x.stop := by
  obtain ⟨_, rfl, hstop⟩ := fsExtent_eq_some_iff.mp hx
  exact toNat_fsEntryEnd_of_lt hstop

theorem fsEntryBlocks_placed (e : FsDiskEntry) (startLba : UInt32) {size : Nat}
    (h : size ≤ fsMaxFileBytes) :
    fsEntryBlocks { e with startLba := startLba, sizeBytes := UInt32.ofNat size } =
      fsBlockCount size :=
  toNat_fsBlocksForBytes_ofNat h

theorem fsExtents_update (entries : FsTable) (idx : Fin fsFilesMax) (e : FsDiskEntry) :
    fsExtents (Function.update entries idx e) =
      Function.update (fsExtents entries) idx (fsExtent e) := by
  ext i : 1
  by_cases hi : i = idx
  · subst hi
    simp [fsExtents]
  · simp [fsExtents, Function.update_of_ne hi]

theorem stop_le_fsNextFreeLba (dataStartLba : UInt32) {entries : FsTable}
    {i : Fin fsFilesMax} {a : Extent} (ha : fsExtents entries i = some a) :
    a.stop ≤ (fsNextFreeLba dataStartLba entries).toNat := by
  have hused := (fsExtent_eq_some_iff.mp ha).1
  rw [← toNat_fsEntryEnd ha]
  exact end_le_fsNextFreeLba dataStartLba hused

/-- Without wrapping the allocator returns the high-water mark of the used extents. -/
theorem toNat_fsNextFreeLba (dataStartLba : UInt32) {entries : FsTable}
    (hwrap : ∀ i, (entries i).isUsed = true →
      (entries i).startLba.toNat + fsEntryBlocks (entries i) < 2 ^ 32) :
    (fsNextFreeLba dataStartLba entries).toNat =
      highWater dataStartLba.toNat (fsExtents entries) := by
  apply Nat.le_antisymm
  · rw [fsNextFreeLba_le_iff]
    refine ⟨base_le_highWater _ _, ?_⟩
    intro i hi
    rw [toNat_fsEntryEnd_of_lt (hwrap i hi)]
    exact stop_le_highWater _ (fsExtents_of_lt hi (hwrap i hi))
  · rw [highWater_le_iff]
    exact ⟨dataStart_le_fsNextFreeLba _ _, fun i a ha => stop_le_fsNextFreeLba _ ha⟩

/-! ## The table invariant -/

/-- What holds of every table in memory and on disk. -/
structure FsTableInv (entries : FsTable) : Prop where
  name_lt : ∀ i, (entries i).isUsed = true →
    (cText (entries i).name.toList).length < fsNameMax
  size_le : ∀ i, (entries i).sizeBytes.toNat ≤ fsMaxFileBytes
  free_zero : ∀ i, (entries i).isUsed = false →
    (entries i).startLba = 0 ∧ (entries i).sizeBytes = 0
  start_ge : ∀ i, (entries i).isUsed = true →
    fsDataLba.toNat ≤ (entries i).startLba.toNat
  apart : PairwiseApart (fsExtents entries)

theorem isUsed_zero : FsDiskEntry.zero.isUsed = false := rfl

theorem fsExtent_of_free {e : FsDiskEntry} (he : e.isUsed = false) : fsExtent e = none := by
  simp [fsExtent, he]

namespace FsTableInv

variable {entries : FsTable}

theorem zero : FsTableInv .zero where
  name_lt i hi := absurd (show FsDiskEntry.zero.isUsed = true from hi) (by decide)
  size_le _ := Nat.zero_le _
  free_zero _ _ := ⟨rfl, rfl⟩
  start_ge i hi := absurd (show FsDiskEntry.zero.isUsed = true from hi) (by decide)
  apart := by
    intro i j a b _ ha
    exact absurd ha (by simp [fsExtents, FsTable.zero, fsExtent_of_free isUsed_zero])

theorem blocks_le (h : FsTableInv entries) (i : Fin fsFilesMax) :
    fsEntryBlocks (entries i) ≤ 256 :=
  fsBlocksForBytes_le (h.size_le i)

theorem update (h : FsTableInv entries) (idx : Fin fsFilesMax) {e : FsDiskEntry}
    (hname : e.isUsed = true → (cText e.name.toList).length < fsNameMax)
    (hsize : e.sizeBytes.toNat ≤ fsMaxFileBytes)
    (hfree : e.isUsed = false → e.startLba = 0 ∧ e.sizeBytes = 0)
    (hstart : e.isUsed = true → fsDataLba.toNat ≤ e.startLba.toNat)
    (habove : e.isUsed = true →
      ∀ i a, i ≠ idx → fsExtents entries i = some a → a.stop ≤ e.startLba.toNat) :
    FsTableInv (Function.update entries idx e) where
  name_lt i := by
    by_cases hi : i = idx
    · subst hi
      simpa using hname
    · simpa [Function.update_of_ne hi] using h.name_lt i
  size_le i := by
    by_cases hi : i = idx
    · subst hi
      simpa using hsize
    · simpa [Function.update_of_ne hi] using h.size_le i
  free_zero i := by
    by_cases hi : i = idx
    · subst hi
      simpa using hfree
    · simpa [Function.update_of_ne hi] using h.free_zero i
  start_ge i := by
    by_cases hi : i = idx
    · subst hi
      simpa using hstart
    · simpa [Function.update_of_ne hi] using h.start_ge i
  apart := by
    rw [fsExtents_update]
    cases hx : fsExtent e with
    | none => exact h.apart.update_none idx
    | some x =>
        obtain ⟨hused, rfl, _⟩ := fsExtent_eq_some_iff.mp hx
        exact h.apart.update_above idx (habove hused)

end FsTableInv

/-! ## Claimed slots -/

theorem fsClaimEntry_cases {entries claimed : FsTable} {name : CString}
    {idx : Fin fsFilesMax} (h : fsClaimEntry entries name = some (idx, claimed)) :
    (fsFindEntry entries name = some idx ∧ claimed = entries) ∨
      (fsFindEntry entries name = none ∧ (entries idx).isUsed = false ∧
        claimed = Function.update entries idx
          { entries idx with name := fsCopyName (entries idx).name name, used := 1 }) := by
  unfold fsClaimEntry at h
  split at h
  · rename_i found hfound
    rw [Option.some.injEq, Prod.mk.injEq] at h
    obtain ⟨rfl, rfl⟩ := h
    exact Or.inl ⟨hfound, rfl⟩
  · rename_i hfound
    split at h
    · exact absurd h (by simp)
    · rename_i free hfree
      rw [Option.some.injEq, Prod.mk.injEq] at h
      obtain ⟨rfl, rfl⟩ := h
      exact Or.inr ⟨hfound, by simpa using firstSlot_some hfree, rfl⟩

theorem isUsed_of_fsFindEntry {entries : FsTable} {name : CString} {idx : Fin fsFilesMax}
    (h : fsFindEntry entries name = some idx) :
    (entries idx).isUsed = true ∧ fsNameEquals (entries idx).name name = true := by
  simpa using firstSlot_some h

/-- Claiming changes no extent: the slot keeps its range, or had none. -/
theorem fsClaimEntry_spec {entries claimed : FsTable} {name : CString}
    {idx : Fin fsFilesMax} (h : fsClaimEntry entries name = some (idx, claimed)) :
    (∀ j, j ≠ idx → claimed j = entries j) ∧ (claimed idx).isUsed = true ∧
      (claimed idx).startLba = (entries idx).startLba ∧
      (claimed idx).sizeBytes = (entries idx).sizeBytes := by
  rcases fsClaimEntry_cases h with ⟨hfind, rfl⟩ | ⟨_, _, rfl⟩
  · exact ⟨fun _ _ => rfl, (isUsed_of_fsFindEntry hfind).1, rfl, rfl⟩
  · refine ⟨fun j hj => Function.update_of_ne hj _ _, ?_, ?_, ?_⟩
    · simp [FsDiskEntry.isUsed]
    · simp
    · simp

theorem fsExtents_claimed {entries claimed : FsTable} {name : CString} {idx : Fin fsFilesMax}
    (h : fsClaimEntry entries name = some (idx, claimed)) {i : Fin fsFilesMax} {a : Extent}
    (ha : fsExtents entries i = some a) : fsExtents claimed i = some a := by
  obtain ⟨hother, hused, hstart, hsize⟩ := fsClaimEntry_spec h
  by_cases hi : i = idx
  · subst hi
    obtain ⟨_, hx, hstop⟩ := fsExtent_eq_some_iff.mp ha
    apply fsExtent_eq_some_iff.mpr
    rw [fsEntryBlocks, hstart, hsize]
    exact ⟨hused, hx, hstop⟩
  · rw [fsExtents, hother i hi]
    exact ha

theorem length_cText_claimed {entries claimed : FsTable} (hinv : FsTableInv entries)
    {name : CString} {idx : Fin fsFilesMax}
    (h : fsClaimEntry entries name = some (idx, claimed)) :
    (cText (claimed idx).name.toList).length < fsNameMax := by
  rcases fsClaimEntry_cases h with ⟨hfind, rfl⟩ | ⟨-, -, rfl⟩
  · exact hinv.name_lt idx (isUsed_of_fsFindEntry hfind).1
  · rw [Function.update_self]
    exact length_cText_fsCopyName _ _

/-- A slot just claimed ends at sector 0, so claiming does not move the mark. -/
theorem fsNextFreeLba_claimed (dataStartLba : UInt32) {entries claimed : FsTable}
    (hinv : FsTableInv entries) {name : CString} {idx : Fin fsFilesMax}
    (h : fsClaimEntry entries name = some (idx, claimed)) :
    fsNextFreeLba dataStartLba claimed = fsNextFreeLba dataStartLba entries := by
  rcases fsClaimEntry_cases h with ⟨-, rfl⟩ | ⟨-, hfree, rfl⟩
  · rfl
  · obtain ⟨hstart, hsize⟩ := hinv.free_zero idx hfree
    apply UInt32.toNat_inj.mp
    apply Nat.le_antisymm
    · rw [fsNextFreeLba_le_iff]
      refine ⟨dataStart_le_fsNextFreeLba _ _, ?_⟩
      intro i hi
      by_cases hidx : i = idx
      · subst hidx
        rw [Function.update_self, fsEntryEnd, hstart, hsize]
        exact Nat.zero_le _
      · rw [Function.update_of_ne hidx] at hi ⊢
        exact end_le_fsNextFreeLba _ hi
    · rw [fsNextFreeLba_le_iff]
      refine ⟨dataStart_le_fsNextFreeLba _ _, ?_⟩
      intro i hi
      have hidx : i ≠ idx := by
        rintro rfl
        exact absurd (hi.symm.trans hfree) (by decide)
      have hused : (Function.update entries idx
          { entries idx with name := fsCopyName (entries idx).name name, used := 1 }
          i).isUsed = true := by
        rwa [Function.update_of_ne hidx]
      have hend := end_le_fsNextFreeLba dataStartLba hused
      rwa [Function.update_of_ne hidx] at hend

/-! ## Plans keep the invariant -/

theorem fsPlan_cases {s : FsState} {c : FsCall} {p : FsPlan} (h : fsPlan s c = some p) :
    (∃ name data idx claimed, c = .writeFile (some name) (some data) ∧
      s.info.mounted = true ∧ data.length ≤ fsMaxFileBytes ∧
      fsClaimEntry s.entries name = some (idx, claimed) ∧
      p = fsWritePlan s.info.dataStartLba idx claimed data) ∨
    (∃ name idx, c = .deleteFile name ∧ fsFindEntry s.entries name = some idx ∧
      p = ⟨Function.update s.entries idx .zero, []⟩) := by
  unfold fsPlan at h
  split at h
  · rename_i name data
    split at h
    · exact absurd h (by simp)
    · rename_i hcheck
      rw [Option.map_eq_some_iff] at h
      obtain ⟨⟨idx, claimed⟩, hclaim, rfl⟩ := h
      simp only [Bool.or_eq_true, Bool.not_eq_true', decide_eq_true_eq, not_or,
        Bool.not_eq_false, Nat.not_lt] at hcheck
      exact Or.inl ⟨name, data, idx, claimed, rfl, hcheck.1, hcheck.2, hclaim, rfl⟩
  · rename_i name
    rw [Option.map_eq_some_iff] at h
    obtain ⟨idx, hfind, rfl⟩ := h
    exact Or.inr ⟨name, idx, rfl, hfind, rfl⟩
  · exact absurd h (by simp)

theorem fsWritePlan_entries {entries claimed : FsTable} {name : CString}
    {idx : Fin fsFilesMax} (hclaim : fsClaimEntry entries name = some (idx, claimed))
    (dataStartLba : UInt32) (data : List UInt8) :
    (fsWritePlan dataStartLba idx claimed data).entries =
      Function.update entries idx
        { claimed idx with
          startLba := fsNextFreeLba dataStartLba claimed
          sizeBytes := UInt32.ofNat data.length } := by
  ext i : 1
  by_cases hi : i = idx
  · subst hi
    rw [fsWritePlan_entries_self, Function.update_self]
  · rw [fsWritePlan_entries_of_ne _ _ _ hi, Function.update_of_ne hi,
      (fsClaimEntry_spec hclaim).1 i hi]

/-- The table a plan leaves is well formed, and its data sectors lie in the data
area behind every extent of the table before. -/
theorem fsPlan_inv {s : FsState} {c : FsCall} {p : FsPlan} (h : fsPlan s c = some p)
    (hinv : FsTableInv s.entries)
    (hstart : s.info.mounted = true → s.info.dataStartLba = fsDataLba) :
    FsTableInv p.entries ∧
      ∀ w ∈ p.shadow, fsDataLba.toNat ≤ w.1 ∧
        ∀ i a, fsExtents s.entries i = some a → a.stop ≤ w.1 := by
  rcases fsPlan_cases h with
    ⟨name, data, idx, claimed, -, hmounted, hsize, hclaim, rfl⟩ | ⟨name, idx, -, -, rfl⟩
  · have hdata : fsDataLba.toNat ≤ (fsNextFreeLba s.info.dataStartLba claimed).toNat := by
      rw [← hstart hmounted]
      exact dataStart_le_fsNextFreeLba _ _
    have habove : ∀ i a, fsExtents s.entries i = some a →
        a.stop ≤ (fsNextFreeLba s.info.dataStartLba claimed).toNat :=
      fun i a ha => stop_le_fsNextFreeLba _ (fsExtents_claimed hclaim ha)
    have hused := (fsClaimEntry_spec hclaim).2.1
    constructor
    · rw [fsWritePlan_entries hclaim]
      apply hinv.update
      · exact fun _ => length_cText_claimed hinv hclaim
      · rw [toNat_ofNat_size hsize]
        exact hsize
      · intro hfree
        exact absurd (hused.symm.trans hfree) (by decide)
      · exact fun _ => hdata
      · exact fun _ i a _ ha => habove i a ha
    · intro w hw
      have hle := (mem_placed hw).1
      exact ⟨hdata.trans hle, fun i a ha => (habove i a ha).trans hle⟩
  · constructor
    · apply hinv.update
      · exact fun hz => absurd hz (by decide)
      · exact Nat.zero_le _
      · exact fun _ => ⟨rfl, rfl⟩
      · exact fun hz => absurd hz (by decide)
      · exact fun hz => absurd hz (by decide)
    · simp

end AcharyaOS.Fs
