import AcharyaOS.Fs.View

/-!
# Failed updates

An update that fails after its checks leaves the new entry in memory and the old
one in the cache.  The caller sees no change exactly when the call never got
that far, or wrote an entry back as it was.
-/

namespace AcharyaOS.Fs

open Foundation Disk

/-- Nothing a caller can observe has changed from `s` to `t`, and the cache of `t`
mirrors its table. -/
structure FsUnchanged (s t : FsState) : Prop where
  entries_eq : t.entries = s.entries
  cache_eq : t.cache = s.cache
  agree : ∀ i, t.cache i = fsSyncEntry (t.entries i)
  usedFiles_eq : t.info.usedFiles = s.info.usedFiles
  files_eq : ∀ maxFiles, fsListFiles t maxFiles = fsListFiles s maxFiles
  read_eq : ∀ name bufferLen,
    (fsReadFile t name bufferLen).2 = (fsReadFile s name bufferLen).2

def FsRefused (s : FsState) : FsCall → Prop
  | .init => False
  | .writeFile none _ => True
  | .writeFile (some _) none => True
  | .writeFile (some name) (some data) =>
      s.info.mounted = false ∨ data.length > fsMaxFileBytes ∨
        (fsFindEntry s.entries name = none ∧ fsFindFreeEntry s.entries = none)
  | .deleteFile name => fsFindEntry s.entries name = none

/-- A write to an existing file that keeps its size and whose start is the sector
the allocator returns. -/
def FsRewritesSame (s : FsState) : FsCall → Prop
  | .writeFile (some name) (some data) =>
      ∃ i, fsFindEntry s.entries name = some i ∧
        (s.entries i).startLba = fsNextFreeLba s.info.dataStartLba s.entries ∧
        (s.entries i).sizeBytes = UInt32.ofNat data.length
  | _ => False

theorem fsClaimEntry_eq_none_iff {entries : FsTable} {name : CString} :
    fsClaimEntry entries name = none ↔
      fsFindEntry entries name = none ∧ fsFindFreeEntry entries = none := by
  unfold fsClaimEntry
  cases fsFindEntry entries name with
  | some i => simp
  | none => cases fsFindFreeEntry entries <;> simp

theorem fsPlan_eq_none_iff (s : FsState) {c : FsCall} (hc : c ≠ .init) :
    fsPlan s c = none ↔ FsRefused s c := by
  cases c with
  | init => exact absurd rfl hc
  | writeFile name data =>
      match name, data with
      | none, _ => simp [fsPlan, FsRefused]
      | some _, none => simp [fsPlan, FsRefused]
      | some name, some data =>
          simp only [fsPlan, FsRefused, ← fsClaimEntry_eq_none_iff]
          by_cases hmounted : s.info.mounted = true
          · by_cases hsize : data.length > fsMaxFileBytes
            · simp [hsize]
            · simp [hmounted, hsize]
          · simp [hmounted]
  | deleteFile name => simp [fsPlan, FsRefused]

theorem fsPlan_entries_eq_iff {s : FsState} {c : FsCall} {p : FsPlan}
    (hplan : fsPlan s c = some p) : p.entries = s.entries ↔ FsRewritesSame s c := by
  rcases fsPlan_cases hplan with
    ⟨name, data, idx, claimed, rfl, -, -, hclaim, rfl⟩ | ⟨name, idx, rfl, hfind, rfl⟩
  · rw [fsWritePlan_entries hclaim, Function.update_eq_self_iff]
    rcases fsClaimEntry_cases hclaim with ⟨hfind, rfl⟩ | ⟨hnone, hfree, hclaimed⟩
    · constructor
      · intro heq
        refine ⟨idx, hfind, ?_, ?_⟩
        · exact (congrArg FsDiskEntry.startLba heq).symm
        · exact (congrArg FsDiskEntry.sizeBytes heq).symm
      · rintro ⟨i, hi, hstart, hsize⟩
        rw [hfind, Option.some.injEq] at hi
        subst hi
        rw [← hstart, ← hsize]
    · constructor
      · intro heq
        have hused := (fsClaimEntry_spec hclaim).2.1
        have hsame : (claimed idx).isUsed = (s.entries idx).isUsed := by
          rw [← heq]
          rfl
        rw [hsame, hfree] at hused
        exact absurd hused (by decide)
      · rintro ⟨i, hi, -⟩
        rw [hnone] at hi
        exact absurd hi (by simp)
  · rw [Function.update_eq_self_iff]
    constructor
    · intro heq
      have hused := (isUsed_of_fsFindEntry hfind).1
      rw [← heq] at hused
      exact absurd hused (by decide)
    · exact False.elim

/-- Writing an entry back to where it was has no data sectors, or only sectors the
driver cannot address. -/
theorem fsPlan_shadow_of_same {s : FsState} {c : FsCall} {p : FsPlan} (hinv : FsInv s)
    (hplan : fsPlan s c = some p) (hsame : p.entries = s.entries) :
    ∀ w ∈ p.shadow, 2 ^ 32 - 256 ≤ w.1 := by
  rcases fsPlan_cases hplan with
    ⟨name, data, idx, claimed, -, -, hsize, hclaim, rfl⟩ | ⟨name, idx, -, -, rfl⟩
  · intro w hw
    obtain ⟨hge, hlt⟩ := mem_placed hw
    rw [length_fsDataSectors] at hlt
    have hentry : (fsWritePlan s.info.dataStartLba idx claimed data).entries idx =
        s.entries idx := congrFun hsame idx
    rw [fsWritePlan_entries_self] at hentry
    have hstart : fsNextFreeLba s.info.dataStartLba claimed = (s.entries idx).startLba :=
      congrArg FsDiskEntry.startLba hentry
    have hblocks : fsBlockCount data.length = fsEntryBlocks (s.entries idx) := by
      rw [← hentry, fsEntryBlocks_placed _ _ hsize]
    have hle := hinv.table.blocks_le idx
    -- the mark is at or behind the entry's own end, so that end must have wrapped
    by_contra hsmall
    have hused : (s.entries idx).isUsed = true := by
      rw [← hentry]
      exact (fsClaimEntry_spec hclaim).2.1
    have hend := end_le_fsNextFreeLba s.info.dataStartLba hused
    rw [toNat_fsEntryEnd_of_lt (by rw [← hstart]; omega),
      ← fsNextFreeLba_claimed _ hinv.table hclaim, hstart] at hend
    omega
  · simp

theorem fsReadFile_of_same {s : FsState} {f : Faults} {c : FsCall} {p : FsPlan}
    {ws : List (Nat × Sector)} (hinv : FsInv s) (hplan : fsPlan s c = some p)
    (hfollows : FsFollows s p ws (fsExec s (f, c))) (hsame : p.entries = s.entries)
    (name : Option CString) (bufferLen : Nat) :
    (fsReadFile (fsStep s (f, c)) name bufferLen).2 = (fsReadFile s name bufferLen).2 := by
  have hshadow := (fsPlan_inv hplan hinv.table hinv.data_start).2
  have hentries : (fsExec s (f, c)).1.entries = s.entries := hfollows.entries_eq.trans hsame
  apply fsReadFile_congr hinv.faults_eq rfl hfollows.wrote.present_eq
    hfollows.wrote.device.capacity_eq
  · apply fsReadCheck_congr
    · rw [hfollows.info_eq]
    · intro n _
      rw [hentries]
    · intro n i _ _
      rw [hentries]
  · intro e he j hj hmask
    obtain ⟨n, i, -, -, hfind, rfl, -⟩ := fsReadCheck_eq_some_iff.mp he
    have hstart := hinv.table.start_ge i (isUsed_of_fsFindEntry hfind).1
    have hblocks := hinv.table.blocks_le i
    rw [UInt32.le_iff_toNat_le, toNat_ataLba28Mask] at hmask
    rw [toNat_fsDataLba] at hstart
    apply (hfollows.content fun w hw => (hshadow w hw).1).2
    · rw [toNat_fsTableLba]
      omega
    · intro w hw
      have hhigh := fsPlan_shadow_of_same hinv hplan hsame w hw
      omega

/-- A failed update goes unnoticed exactly when cache and table agreed before it and it
was refused by its checks or wrote an entry back as it was. -/
theorem fsUnchanged_of_failed_iff {s : FsState} (h : FsReachable s) {f : Faults} {c : FsCall}
    (hfail : (fsExec s (f, c)).2 = -1) :
    FsUnchanged s (fsStep s (f, c)) ↔
      (∀ i, s.cache i = fsSyncEntry (s.entries i)) ∧
        (FsRefused s c ∨ FsRewritesSame s c) := by
  have hc : c ≠ .init := by
    rintro rfl
    exact absurd hfail (by simp [fsExec, FsCall.perform])
  rcases fsExec_cases s f hc with ⟨hnone, heq⟩ | ⟨p, ws, hplan, hfollows⟩
  · rw [h.inv.step_of_refused f heq]
    constructor
    · intro hsame
      exact ⟨hsame.agree, Or.inl ((fsPlan_eq_none_iff s hc).mp hnone)⟩
    · rintro ⟨hagree, -⟩
      exact ⟨rfl, rfl, hagree, rfl, fun _ => rfl, fun _ _ => rfl⟩
  · have hrefused : ¬ FsRefused s c := by
      rw [← fsPlan_eq_none_iff s hc, hplan]
      simp
    have hentries : (fsStep s (f, c)).entries = p.entries := hfollows.entries_eq
    obtain ⟨hinfo, hcache⟩ : (fsStep s (f, c)).info = s.info ∧
        (fsStep s (f, c)).cache = s.cache := by
      rcases hfollows.outcome with ⟨hok, -⟩ | ⟨-, hinfo, hcache⟩
      · rw [hfail] at hok
        exact absurd hok (by decide)
      · exact ⟨hinfo, hcache⟩
    constructor
    · intro hsame
      have heq : p.entries = s.entries := hentries.symm.trans hsame.entries_eq
      refine ⟨?_, Or.inr ((fsPlan_entries_eq_iff hplan).mp heq)⟩
      intro i
      rw [← hsame.cache_eq, ← hsame.entries_eq]
      exact hsame.agree i
    · rintro ⟨hagree, hor⟩
      have hsame := (fsPlan_entries_eq_iff hplan).mpr (hor.resolve_left hrefused)
      exact
        { entries_eq := hentries.trans hsame
          cache_eq := hcache
          agree := by rw [hcache, hentries, hsame]; exact hagree
          usedFiles_eq := by rw [hinfo]
          files_eq := by
            intro maxFiles
            rw [fsListFiles, fsListFiles, hcache, hentries, hsame]
          read_eq := fsReadFile_of_same h.inv hplan hfollows hsame }

theorem fsUnchanged_of_failed_oneFile :
    FsUnchanged fsOneFile (fsStep fsOneFile (.none, .deleteFile fsNameB)) :=
  (fsUnchanged_of_failed_iff (fsSuccessful_oneFile.mono fun _ _ _ => trivial)
    (by decide +kernel)).mpr
    ⟨by decide +kernel, Or.inl (show fsFindEntry fsOneFile.entries fsNameB = none by
      decide +kernel)⟩

/-! ### An overwrite failing at its first sector -/

/-- Overwriting "a" with one byte while the disk refuses the first write. -/
def fsFailedOverwrite : Faults × FsCall :=
  (⟨[], [.failed 0]⟩, .writeFile (some fsNameA) (some [3]))

theorem fsFailedOverwrite_loses_file :
    FsReachable fsOneFile ∧ fsOneFile.info.mounted = true ∧
      (fsExec fsOneFile fsFailedOverwrite).2 = -1 ∧
      (fsReadFile fsOneFile (some fsNameA) 512).2 =
        some (2, 1 :: 2 :: List.replicate 510 0) ∧
      (fsReadFile (fsStep fsOneFile fsFailedOverwrite) (some fsNameA) 512).2 =
        some (1, List.replicate 512 0) ∧
      ¬ FsUnchanged fsOneFile (fsStep fsOneFile fsFailedOverwrite) := by
  have hbefore : (fsReadFile fsOneFile (some fsNameA) 512).2 =
      some (2, 1 :: 2 :: List.replicate 510 0) := by decide +kernel
  have hafter : (fsReadFile (fsStep fsOneFile fsFailedOverwrite) (some fsNameA) 512).2 =
      some (1, List.replicate 512 0) := by decide +kernel
  refine ⟨fsSuccessful_oneFile.mono fun _ _ _ => trivial, by decide +kernel,
    by decide +kernel, hbefore, hafter, ?_⟩
  intro hsame
  have hread := hsame.read_eq (some fsNameA) 512
  rw [hbefore, hafter] at hread
  exact absurd (congrArg (Option.map Prod.fst) hread) (by decide)

end AcharyaOS.Fs
