import AcharyaOS.Disk.Ata

/-!
# The disk self-test

`ata_disk_self_test` writes a pattern over the scratch sector 2048 and puts the old
content back.  A write that reports failure may have stored its sector all the same.
-/

namespace AcharyaOS.Disk

open Foundation

def selfTestLba : UInt32 := 2048

/-- `(uint8_t)(0xA5u ^ (uint8_t) i)` for each byte of the sector. -/
def testPattern : List UInt8 :=
  (List.range ataSectorSize).map fun i => (0xA5 : UInt8) ^^^ UInt8.ofNat i

/-- What the test leaves behind and returns. -/
structure SelfTest where
  ata : Ata
  result : Int
  /-- The results of the writes meant to put the old content back. -/
  restores : List Int

/-- `ata_disk_self_test` with `total_sectors` as `ata_identify` found it. -/
def ataDiskSelfTest (ata : Ata) (totalSectors : UInt32) : SelfTest :=
  if !ata.present || totalSectors ≤ 2048 then ⟨ata, -1, []⟩
  else
    match ataReadSectors ata selfTestLba 1 with
    | (ata, none) => ⟨ata, -1, []⟩
    | (ata, some original) =>
        let w := ataWriteSectors ata selfTestLba 1 testPattern
        if w.2 != 0 then ⟨w.1, -1, []⟩
        else
          match ataReadSectors w.1 selfTestLba 1 with
          | (ata, none) =>
              let r := ataWriteSectors ata selfTestLba 1 original
              ⟨r.1, -1, [r.2]⟩
          | (ata, some verify) =>
              let r := ataWriteSectors ata selfTestLba 1 original
              if testPattern != verify then ⟨r.1, -1, [r.2]⟩
              else ⟨r.1, r.2, [r.2]⟩

def scratch (ata : Ata) : Sector := ata.device.content selfTestLba.toNat

/-- The scratch sector is as it was, or every write that should have put its content
back was made and failed. -/
def Restored (ata : Ata) (t : SelfTest) : Prop :=
  scratch t.ata = scratch ata ∨ t.restores ≠ [] ∧ ∀ r ∈ t.restores, r ≠ 0

/-- The pattern reaches the medium by a write that reports failure, over a sector that
holds something else. -/
structure PatternLeft (ata : Ata) (totalSectors : UInt32) : Prop where
  present : ata.present = true
  total : 2048 < totalSectors
  read : ata.device.faults.reads.headD false = false
  fits : selfTestLba.toNat + 1 ≤ ata.device.capacity
  reached : ∃ k, ata.device.faults.writes.headD .done = .failed (k + 1)
  ne : scratch ata ≠ Bytes.ofList ataSectorSize testPattern

theorem selfTestLba_le : ¬ selfTestLba > ataLba28Mask := by decide

/-! ## The writes -/

theorem bufferSectors_one (buffer : List UInt8) :
    bufferSectors buffer 1 = [Bytes.ofList ataSectorSize buffer] := by
  simp [bufferSectors]

theorem scratch_restored {ata : Ata} {original : Sector}
    (hok : (ataWriteSectors ata selfTestLba 1 original.toList).2 = 0) :
    scratch (ataWriteSectors ata selfTestLba 1 original.toList).1 = original := by
  obtain ⟨ws, hwrote, -, -, hdone | hfailed⟩ :=
    ataWriteSectors_one ata selfTestLba original.toList
  · rw [scratch, hwrote.device.content_eq, hdone.2.1, Bytes.ofList_toList, applyWrites_cons,
      applyWrites_nil, Function.update_self]
  · rw [hok] at hfailed
    exact absurd hfailed (by decide)

/-- A restoring write settles the matter, whatever it returns. -/
theorem restored_of_restore {ata a : Ata} {result : Int} :
    Restored ata ⟨(ataWriteSectors a selfTestLba 1 (scratch ata).toList).1, result,
      [(ataWriteSectors a selfTestLba 1 (scratch ata).toList).2]⟩ := by
  by_cases hok : (ataWriteSectors a selfTestLba 1 (scratch ata).toList).2 = 0
  · exact Or.inl (scratch_restored hok)
  · exact Or.inr ⟨List.cons_ne_nil _ _, fun r hr => by rwa [List.mem_singleton.mp hr]⟩

theorem scratch_failed_pattern {ata : Ata} (hpresent : ata.present = true)
    (hfailed : (ataWriteSectors ata selfTestLba 1 testPattern).2 ≠ 0) :
    scratch (ataWriteSectors ata selfTestLba 1 testPattern).1 ≠ scratch ata ↔
      selfTestLba.toNat + 1 ≤ ata.device.capacity ∧
      (∃ k, ata.device.faults.writes.headD .done = .failed (k + 1)) ∧
      scratch ata ≠ Bytes.ofList ataSectorSize testPattern := by
  rw [Ne, ataWriteSectors_one_zero_iff ata testPattern hpresent selfTestLba_le] at hfailed
  rw [scratch, ataWriteSectors_one_content ata testPattern hpresent selfTestLba_le,
    bufferSectors_one]
  unfold storedBy
  rw [List.length_singleton]
  by_cases hfits : selfTestLba.toNat + 1 ≤ ata.device.capacity
  · rw [if_neg (Nat.not_lt.mpr hfits), and_iff_right hfits]
    cases houtcome : ata.device.faults.writes.headD .done with
    | done => exact absurd ⟨hfits, houtcome⟩ hfailed
    | failed reached =>
        cases reached with
        | zero => simp [scratch]
        | succ k => simp [placed, scratch, eq_comm]
  · rw [if_pos (Nat.lt_of_not_le hfits)]
    exact iff_of_false (fun h => h rfl) fun h => hfits h.1

/-! ## The test -/

theorem selfTest_read {ata a : Ata} {r : Option (List UInt8)}
    (h : ataReadSectors ata selfTestLba 1 = (a, r)) :
    scratch a = scratch ata ∧ a.present = ata.present ∧
      a.device.capacity = ata.device.capacity ∧
      a.device.faults.writes = ata.device.faults.writes ∧
      ∀ original, r = some original → original = (scratch ata).toList := by
  have hwrote := ataReadSectors_wrote ata selfTestLba 1
  have hwrites := ataReadSectors_faults_writes ata selfTestLba 1
  rw [h] at hwrote hwrites
  have hcontent := hwrote.device.content_eq
  rw [applyWrites_nil] at hcontent
  refine ⟨by rw [scratch, scratch, hcontent], hwrote.present_eq, hwrote.device.capacity_eq,
    hwrites, fun original horiginal => ?_⟩
  have hsnd : (ataReadSectors ata selfTestLba 1).2 = some original := by rw [h, horiginal]
  exact (ataReadSectors_one hsnd).2

theorem selfTest_read_some {ata : Ata} {original : List UInt8}
    (h : (ataReadSectors ata selfTestLba 1).2 = some original) :
    ata.device.faults.reads.headD false = false ∧
      selfTestLba.toNat + 1 ≤ ata.device.capacity := by
  rw [ataReadSectors_snd] at h
  split at h
  · rename_i hserved
    exact hserved.2.2.2
  · exact absurd h (by simp)

theorem PatternLeft.read_isSome {ata : Ata} {totalSectors : UInt32}
    (h : PatternLeft ata totalSectors) : (ataReadSectors ata selfTestLba 1).2.isSome = true := by
  rw [ataReadSectors_snd, if_pos ⟨h.present, by decide, by decide, h.read, h.fits⟩]
  rfl

theorem selfTest_checks {ata : Ata} {totalSectors : UInt32} :
    (!ata.present || decide (totalSectors ≤ 2048)) = false ↔
      ata.present = true ∧ 2048 < totalSectors := by
  rw [Bool.or_eq_false_iff, Bool.not_eq_false', decide_eq_false_iff_not, UInt32.not_le]

theorem ataDiskSelfTest_of_failed {ata a : Ata} {totalSectors : UInt32} {original : List UInt8}
    (hcheck : (!ata.present || decide (totalSectors ≤ 2048)) = false)
    (hread : ataReadSectors ata selfTestLba 1 = (a, some original))
    (hw : (ataWriteSectors a selfTestLba 1 testPattern).2 ≠ 0) :
    ataDiskSelfTest ata totalSectors =
      ⟨(ataWriteSectors a selfTestLba 1 testPattern).1, -1, []⟩ := by
  have hfailed : ((ataWriteSectors a selfTestLba 1 testPattern).2 != 0) = true := by simpa using hw
  rw [ataDiskSelfTest, hcheck, if_neg Bool.false_ne_true, hread]
  dsimp only
  rw [if_pos hfailed]

theorem restored_nil_iff {ata a : Ata} {result : Int} :
    Restored ata ⟨a, result, []⟩ ↔ scratch a = scratch ata := or_iff_left fun h => h.1 rfl

theorem PatternLeft.not_restored {ata : Ata} {totalSectors : UInt32}
    (h : PatternLeft ata totalSectors) : ¬ Restored ata (ataDiskSelfTest ata totalSectors) := by
  obtain ⟨original, hsome⟩ := Option.isSome_iff_exists.mp h.read_isSome
  have hread : ataReadSectors ata selfTestLba 1 =
      ((ataReadSectors ata selfTestLba 1).1, some original) := Prod.ext rfl hsome
  obtain ⟨hscratch, hpres, hcap, hwrites, -⟩ := selfTest_read hread
  have hpresent := hpres.trans h.present
  have hw : (ataWriteSectors (ataReadSectors ata selfTestLba 1).1 selfTestLba 1 testPattern).2 ≠
      0 := by
    obtain ⟨k, hk⟩ := h.reached
    rw [Ne, ataWriteSectors_one_zero_iff _ testPattern hpresent selfTestLba_le, hwrites, hk]
    simp
  have hleft := scratch_failed_pattern hpresent hw
  rw [hscratch, hcap, hwrites] at hleft
  rw [ataDiskSelfTest_of_failed (selfTest_checks.mpr ⟨h.present, h.total⟩) hread hw,
    restored_nil_iff]
  exact hleft.mpr ⟨h.fits, h.reached, h.ne⟩

theorem restored_of_not_patternLeft {ata : Ata} {totalSectors : UInt32}
    (h : ¬ PatternLeft ata totalSectors) : Restored ata (ataDiskSelfTest ata totalSectors) := by
  cases hcheck : (!ata.present || decide (totalSectors ≤ 2048)) with
  | true =>
      rw [ataDiskSelfTest, if_pos hcheck]
      exact Or.inl rfl
  | false =>
      obtain ⟨hpresent, htotal⟩ := selfTest_checks.mp hcheck
      rcases hread : ataReadSectors ata selfTestLba 1 with ⟨a, _ | original⟩
      · obtain ⟨hscratch, -⟩ := selfTest_read hread
        rw [ataDiskSelfTest, hcheck, if_neg Bool.false_ne_true, hread]
        exact Or.inl hscratch
      · obtain ⟨hscratch, hpres, hcap, hwrites, horiginal⟩ := selfTest_read hread
        obtain rfl := horiginal original rfl
        obtain ⟨hserved, hfits⟩ := selfTest_read_some (congrArg Prod.snd hread)
        by_cases hw : (ataWriteSectors a selfTestLba 1 testPattern).2 = 0
        · rw [ataDiskSelfTest, hcheck, if_neg Bool.false_ne_true, hread]
          dsimp only
          rw [if_neg (by simp [hw])]
          -- every way on from here ends with a write of the old content
          split
          · exact restored_of_restore
          · split
            · exact restored_of_restore
            · exact restored_of_restore
        · have hleft := scratch_failed_pattern (hpres.trans hpresent) hw
          rw [hscratch, hcap, hwrites] at hleft
          rw [ataDiskSelfTest_of_failed hcheck hread hw, restored_nil_iff]
          by_contra hne
          obtain ⟨-, hreached, hpattern⟩ := hleft.mp hne
          exact h ⟨hpresent, htotal, hserved, hfits, hreached, hpattern⟩

/-- The test leaves the scratch sector as it found it, restoring writes that fail
apart, exactly when no failed write leaves the pattern there. -/
theorem selfTest_restored_iff (ata : Ata) (totalSectors : UInt32) :
    Restored ata (ataDiskSelfTest ata totalSectors) ↔ ¬ PatternLeft ata totalSectors :=
  ⟨fun h hleft => hleft.not_restored h, restored_of_not_patternLeft⟩

/-- A disk of 4096 empty sectors that stores the first sector written to it and says
it failed. -/
def faultyDisk : Ata where
  present := true
  device :=
    { capacity := 4096
      content := fun _ => Bytes.zero ataSectorSize
      log := []
      faults := { writes := [.failed 1] } }

theorem patternLeft_faultyDisk : PatternLeft faultyDisk 4096 where
  present := rfl
  total := by decide
  read := rfl
  fits := by decide
  reached := ⟨0, rfl⟩
  ne := by
    intro h
    have hfirst := congrArg (fun s : Sector => s.toList.head?) h
    exact absurd hfirst (by decide +kernel)

theorem not_selfTest_restored :
    ¬ ∀ (ata : Ata) (totalSectors : UInt32), Restored ata (ataDiskSelfTest ata totalSectors) := by
  intro h
  exact patternLeft_faultyDisk.not_restored (h faultyDisk 4096)

end AcharyaOS.Disk
