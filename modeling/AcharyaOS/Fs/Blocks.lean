import AcharyaOS.Fs.Image

/-!
# File data as sectors

The sectors `fs_write_file` cuts its data into, and what its write loop does to
the disk.
-/

namespace AcharyaOS.Fs

open Foundation Disk

/-! ## Block counts -/

theorem toNat_fsBlocksForBytes {x : UInt32} (hx : x.toNat ≤ fsMaxFileBytes) :
    (fsBlocksForBytes x).toNat = (x.toNat + 511) / 512 := by
  simp only [fsMaxFileBytes] at hx
  simp only [fsBlocksForBytes, UInt32.toNat_div, UInt32.toNat_sub, UInt32.toNat_add,
    UInt32.toNat_ofNat, Nat.reducePow, Nat.reduceMod]
  omega

theorem toNat_ofNat_size {size : Nat} (h : size ≤ fsMaxFileBytes) :
    (UInt32.ofNat size).toNat = size := by
  simp only [fsMaxFileBytes] at h
  rw [UInt32.toNat_ofNat']
  omega

theorem fsBlocksForBytes_le {x : UInt32} (hx : x.toNat ≤ fsMaxFileBytes) :
    (fsBlocksForBytes x).toNat ≤ 256 := by
  rw [toNat_fsBlocksForBytes hx]
  simp only [fsMaxFileBytes] at hx
  omega

/-! ## Data sectors -/

def fsBlockSector (data : List UInt8) (i : Nat) : Sector :=
  Bytes.ofList ataSectorSize (fsChunk data i)

def fsDataSectors (data : List UInt8) (n : Nat) : List Sector :=
  (List.range n).map (fsBlockSector data)

@[simp] theorem length_fsDataSectors (data : List UInt8) (n : Nat) :
    (fsDataSectors data n).length = n := by
  simp [fsDataSectors]

theorem fsChunk_zero (data : List UInt8) : fsChunk data 0 = data.take 512 := by
  simp only [fsChunk, fsBlockSize, Nat.zero_mul, List.drop_zero, Nat.zero_add, Nat.one_mul,
    Nat.sub_zero]
  split
  · rw [List.take_length, List.take_of_length_le (by omega)]
  · rfl

theorem fsChunk_succ (data : List UInt8) (i : Nat) :
    fsChunk data (i + 1) = fsChunk (data.drop 512) i := by
  have hdrop : (i + 1) * 512 = 512 + i * 512 := by omega
  have hroom : (if (i + 1 + 1) * 512 > data.length then data.length - (i + 1) * 512 else 512) =
      if (i + 1) * 512 > data.length - 512 then data.length - 512 - i * 512 else 512 := by
    split <;> split <;> omega
  rw [fsChunk, fsChunk, List.drop_drop, List.length_drop, fsBlockSize, hroom, hdrop]

theorem fsDataSectors_succ (data : List UInt8) (n : Nat) :
    fsDataSectors data (n + 1) = fsBlockSector data 0 :: fsDataSectors (data.drop 512) n := by
  simp [fsDataSectors, List.range_succ_eq_map, fsBlockSector, fsChunk_succ, Function.comp_def]

theorem flatMap_fsDataSectors (data : List UInt8) (n : Nat) (hn : data.length ≤ n * 512) :
    (fsDataSectors data n).flatMap Bytes.toList =
      data ++ List.replicate (n * 512 - data.length) 0 := by
  induction n generalizing data with
  | zero =>
      have hnil : data = [] := List.eq_nil_of_length_eq_zero (by omega)
      simp [fsDataSectors, hnil]
  | succ n ih =>
      have hrest : (data.drop 512).length ≤ n * 512 := by
        rw [List.length_drop]
        omega
      have hlen : (data.take 512).length ≤ ataSectorSize := by
        rw [List.length_take, ataSectorSize]
        omega
      rw [fsDataSectors_succ, List.flatMap_cons, ih _ hrest, fsBlockSector, fsChunk_zero,
        Bytes.toList_ofList_of_length_le hlen, List.length_take, List.length_drop,
        ataSectorSize]
      by_cases hfull : 512 ≤ data.length
      · rw [Nat.min_eq_left hfull, Nat.sub_self, List.replicate_zero, List.append_nil,
          ← List.append_assoc, List.take_append_drop,
          show n * 512 - (data.length - 512) = (n + 1) * 512 - data.length by omega]
      · rw [Nat.min_eq_right (by omega), List.take_of_length_le (by omega),
          List.drop_eq_nil_of_le (by omega), List.nil_append, List.append_assoc,
          List.replicate_append_replicate,
          show 512 - data.length + (n * 512 - (data.length - 512)) =
            (n + 1) * 512 - data.length by omega]

/-! ## The write loop -/

theorem toNat_add_ofNat {start : UInt32} {i : Nat} (h : start.toNat + i < 2 ^ 32) :
    (start + UInt32.ofNat i).toNat = start.toNat + i := by
  rw [UInt32.toNat_add, UInt32.toNat_ofNat']
  omega

theorem toNat_ataLba28Mask : ataLba28Mask.toNat = 2 ^ 28 - 1 := rfl

theorem ofList_block (data : List UInt8) (i : Nat) :
    Bytes.ofList ataSectorSize (Bytes.ofList fsBlockSize (fsChunk data i)).toList =
      fsBlockSector data i :=
  Bytes.ofList_toList _

section LoopStep

variable {start : UInt32} {data : List UInt8} {i : Nat} {ata ata' : Ata}

theorem fsWriteBlocks_succ_of_written (n : Nat)
    (h : ataWriteSectors ata (start + UInt32.ofNat i) 1
      (Bytes.ofList fsBlockSize (fsChunk data i)).toList = (ata', 0)) :
    fsWriteBlocks start data i (n + 1) ata = fsWriteBlocks start data (i + 1) n ata' := by
  simp [fsWriteBlocks, h]

theorem fsWriteBlocks_succ_of_failed (n : Nat)
    (h : ataWriteSectors ata (start + UInt32.ofNat i) 1
      (Bytes.ofList fsBlockSize (fsChunk data i)).toList = (ata', -1)) :
    fsWriteBlocks start data i (n + 1) ata = (ata', -1) := by
  simp [fsWriteBlocks, h]

end LoopStep

/-- The loop from block `i` on, while the sector numbers do not wrap: the
sectors written form a prefix of the intended ones, and all of them exist when
the loop succeeds. -/
theorem fsWriteBlocks_from (start : UInt32) (data : List UInt8) (n : Nat) :
    ∀ i ata, start.toNat + i + n < 2 ^ 32 →
      ∃ ws, ata.Wrote (fsWriteBlocks start data i n ata).1 ws ∧
        ws <+: placed (start.toNat + i) ((List.range' i n).map (fsBlockSector data)) ∧
        ((fsWriteBlocks start data i n ata).2 = 0 ∧
            ws = placed (start.toNat + i) ((List.range' i n).map (fsBlockSector data)) ∧
            (∀ w ∈ ws, w.1 < 2 ^ 28 ∧ w.1 < ata.device.capacity) ∨
          (fsWriteBlocks start data i n ata).2 = -1) := by
  induction n with
  | zero =>
      intro i ata _
      exact ⟨[], .refl ata, List.nil_prefix, Or.inl ⟨rfl, rfl, by simp⟩⟩
  | succ n ih =>
      intro i ata hwrap
      have haddr : (start + UInt32.ofNat i).toNat = start.toNat + i :=
        toNat_add_ofNat (by omega)
      obtain ⟨ws, hwrote, hpre, hlba, hout⟩ := ataWriteSectors_one ata
        (start + UInt32.ofNat i) (Bytes.ofList fsBlockSize (fsChunk data i)).toList
      rw [ofList_block, haddr] at hpre hout
      rw [List.range'_succ, List.map_cons, placed]
      rcases hout with ⟨hok, hws, -, hcap⟩ | hfail
      · obtain ⟨vs, hwrote', hpre', hout'⟩ := ih (i + 1) _ (by omega)
        have hmask : start.toNat + i < 2 ^ 28 := by
          have hle := UInt32.le_iff_toNat_le.mp (hlba (by simp [hws]))
          rw [haddr, toNat_ataLba28Mask] at hle
          omega
        rw [fsWriteBlocks_succ_of_written n (Prod.ext rfl hok)]
        refine ⟨ws ++ vs, hwrote.trans hwrote', ?_, ?_⟩
        · rw [hws, List.singleton_append]
          exact List.cons_prefix_cons.mpr ⟨rfl, hpre'⟩
        · rcases hout' with ⟨hok', hvs, hbound⟩ | hfail'
          · refine Or.inl ⟨hok', by rw [hws, hvs]; rfl, ?_⟩
            intro w hw
            rw [hws, List.singleton_append, List.mem_cons] at hw
            rcases hw with rfl | hw
            · exact ⟨hmask, hcap⟩
            · rw [← hwrote.device.capacity_eq]
              exact hbound w hw
          · exact Or.inr hfail'
      · rw [fsWriteBlocks_succ_of_failed n (Prod.ext rfl hfail)]
        refine ⟨ws, hwrote, hpre.trans ?_, Or.inr rfl⟩
        exact List.cons_prefix_cons.mpr ⟨rfl, List.nil_prefix⟩

/-- An extent starting behind the LBA28 range is refused at its first block. -/
theorem fsWriteBlocks_of_unaddressable {start : UInt32} (data : List UInt8) (n : Nat)
    (ata : Ata) (hstart : start > ataLba28Mask) :
    fsWriteBlocks start data 0 n ata = (ata, if n = 0 then 0 else -1) := by
  cases n with
  | zero => rfl
  | succ n =>
      have hzero : start + UInt32.ofNat 0 = start := by simp
      have hfail : ∀ buffer, ataWriteSectors ata start 1 buffer = (ata, -1) := by
        intro buffer
        simp [ataWriteSectors, hstart]
      simp only [fsWriteBlocks, hzero, hfail]
      simp

theorem fsWriteBlocks_cases (start : UInt32) (data : List UInt8) {n : Nat} (hn : n ≤ 256)
    (ata : Ata) :
    ∃ ws, ata.Wrote (fsWriteBlocks start data 0 n ata).1 ws ∧
      ws <+: placed start.toNat (fsDataSectors data n) ∧
      ((fsWriteBlocks start data 0 n ata).2 = 0 ∧
          ws = placed start.toNat (fsDataSectors data n) ∧
          (∀ w ∈ ws, w.1 < 2 ^ 28 ∧ w.1 < ata.device.capacity) ∨
        (fsWriteBlocks start data 0 n ata).2 = -1) := by
  by_cases hstart : start > ataLba28Mask
  · rw [fsWriteBlocks_of_unaddressable data n ata hstart]
    refine ⟨[], .refl ata, List.nil_prefix, ?_⟩
    by_cases hn0 : n = 0
    · subst hn0
      exact Or.inl ⟨rfl, rfl, by simp⟩
    · exact Or.inr (by simp [hn0])
  · have hle := UInt32.le_iff_toNat_le.mp (UInt32.not_lt.mp hstart)
    rw [toNat_ataLba28Mask] at hle
    have h := fsWriteBlocks_from start data n 0 ata (by omega)
    rw [Nat.add_zero, ← List.range_eq_range'] at h
    exact h

theorem fsWriteBlocks_of_no_faults (start : UInt32) (data : List UInt8) (n : Nat) :
    ∀ i ata, ata.present = true → ata.device.faults = .none →
      start.toNat + i + n ≤ min ata.device.capacity (2 ^ 28) →
      (fsWriteBlocks start data i n ata).2 = 0 ∧
        (fsWriteBlocks start data i n ata).1.device.faults = .none := by
  induction n with
  | zero =>
      intro i ata _ hfaults _
      exact ⟨rfl, hfaults⟩
  | succ n ih =>
      intro i ata hpresent hfaults hfit
      have haddr : (start + UInt32.ofNat i).toNat = start.toNat + i :=
        toNat_add_ofNat (by omega)
      have hmask : start + UInt32.ofNat i ≤ ataLba28Mask := by
        rw [UInt32.le_iff_toNat_le, haddr, toNat_ataLba28Mask]
        omega
      obtain ⟨hnext, hiff⟩ := ataWriteSectors_one_of_no_faults ata (start + UInt32.ofNat i)
        (Bytes.ofList fsBlockSize (fsChunk data i)).toList hpresent hfaults
      have hok := hiff.mpr ⟨hmask, by omega⟩
      obtain ⟨ws, hwrote, -⟩ := ataWriteSectors_one ata (start + UInt32.ofNat i)
        (Bytes.ofList fsBlockSize (fsChunk data i)).toList
      rw [fsWriteBlocks_succ_of_written n (Prod.ext rfl hok)]
      apply ih (i + 1) _ (hwrote.present_eq.trans hpresent) hnext
      rw [hwrote.device.capacity_eq]
      omega

end AcharyaOS.Fs
