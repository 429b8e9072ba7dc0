import AcharyaOS.Arch.Code
import AcharyaOS.Foundation.Words

/-!
# The descriptors the processor reads

The layouts of segment descriptors, task state descriptors and interrupt gates
on the numbers the processor loads from a table, eight bytes at a time, and what
they say about the tables the encoders of `gdt.c` and `idt.c` write.
-/

namespace AcharyaOS.Arch

open Foundation

/-- The `w` bits of `q` from bit `lo` on. -/
def bits (q lo w : Nat) : Nat := q / 2 ^ lo % 2 ^ w

/-- Base, limit, access byte and flag nibble of a segment. -/
structure Segment where
  base : Nat
  limit : Nat
  access : Nat
  flags : Nat
  deriving DecidableEq

def decodeSegment (q : Nat) : Segment where
  base := bits q 16 24 + 2 ^ 24 * bits q 56 8
  limit := bits q 0 16 + 2 ^ 16 * bits q 48 4
  access := bits q 40 8
  flags := bits q 52 4

/-- A system segment, whose base goes on in the second of its two slots. -/
def decodeSystemSegment (low high : Nat) : Segment :=
  { decodeSegment low with base := (decodeSegment low).base + 2 ^ 32 * bits high 0 32 }

structure Gate where
  offset : Nat
  selector : Nat
  ist : Nat
  typeAttr : Nat
  deriving DecidableEq

def decodeGate (low high : Nat) : Gate where
  offset := bits low 0 16 + 2 ^ 16 * bits low 48 16 + 2 ^ 32 * bits high 0 32
  selector := bits low 16 16
  ist := bits low 32 3
  typeAttr := bits low 40 8

/-- Slot `i` of the global descriptor table. -/
def gdtSlot (m : Memory) (i : Nat) : Nat := m.load 8 (gdtEntrySize * i)

/-- The two halves of entry `i` of the interrupt descriptor table. -/
def idtSlot (m : Memory) (i : Nat) : Nat × Nat :=
  (m.load 8 (idtEntrySize * i), m.load 8 (idtEntrySize * i + 8))

/-! ## The structures of the code on the processor's numbers -/

/-- The fields of a `gdt_entry_t` lie where the processor looks for them. -/
theorem decodeSegment_gdtSlot (m : Memory) (i : Nat) :
    decodeSegment (gdtSlot m i) =
      { base := m.load 2 (gdtEntrySize * i + GdtEntry.baseLow) +
          2 ^ 16 * m.load 1 (gdtEntrySize * i + GdtEntry.baseMid) +
          2 ^ 24 * m.load 1 (gdtEntrySize * i + GdtEntry.baseHigh)
        limit := m.load 2 (gdtEntrySize * i + GdtEntry.limitLow) +
          2 ^ 16 * (m.load 1 (gdtEntrySize * i + GdtEntry.granularity) % 2 ^ 4)
        access := m.load 1 (gdtEntrySize * i + GdtEntry.access)
        flags := m.load 1 (gdtEntrySize * i + GdtEntry.granularity) / 2 ^ 4 } := by
  have hsum := m.load_sum [2, 2, 1, 1, 1, 1] (gdtEntrySize * i)
  have h₀ := m.load_lt 2 (gdtEntrySize * i)
  have h₂ := m.load_lt 2 (gdtEntrySize * i + 2)
  have h₄ := m.load_lt 1 (gdtEntrySize * i + 4)
  have h₅ := m.load_lt 1 (gdtEntrySize * i + 5)
  have h₆ := m.load_lt 1 (gdtEntrySize * i + 6)
  have h₇ := m.load_lt 1 (gdtEntrySize * i + 7)
  simp only [List.sum_cons, List.sum_nil, Memory.joined, Nat.add_assoc, Nat.reduceAdd] at hsum
  simp only [decodeSegment, bits, gdtSlot, GdtEntry.limitLow, GdtEntry.baseLow,
    GdtEntry.baseMid, GdtEntry.access, GdtEntry.granularity, GdtEntry.baseHigh, Nat.add_zero,
    Segment.mk.injEq]
  refine ⟨?_, ?_, ?_, ?_⟩ <;> omega

theorem decodeGate_idtSlot (m : Memory) (i : Nat) :
    decodeGate (idtSlot m i).1 (idtSlot m i).2 =
      { offset := m.load 2 (idtEntrySize * i + IdtEntry.offsetLow) +
          2 ^ 16 * m.load 2 (idtEntrySize * i + IdtEntry.offsetMid) +
          2 ^ 32 * m.load 4 (idtEntrySize * i + IdtEntry.offsetHigh)
        selector := m.load 2 (idtEntrySize * i + IdtEntry.selector)
        ist := m.load 1 (idtEntrySize * i + IdtEntry.ist) % 2 ^ 3
        typeAttr := m.load 1 (idtEntrySize * i + IdtEntry.typeAttr) } := by
  have hlow := m.load_sum [2, 2, 1, 1, 2] (idtEntrySize * i)
  have hhigh := m.load_sum [4, 4] (idtEntrySize * i + 8)
  have h₀ := m.load_lt 2 (idtEntrySize * i)
  have h₂ := m.load_lt 2 (idtEntrySize * i + 2)
  have h₄ := m.load_lt 1 (idtEntrySize * i + 4)
  have h₅ := m.load_lt 1 (idtEntrySize * i + 5)
  have h₆ := m.load_lt 2 (idtEntrySize * i + 6)
  have h₈ := m.load_lt 4 (idtEntrySize * i + 8)
  simp only [List.sum_cons, List.sum_nil, Memory.joined, Nat.add_assoc, Nat.reduceAdd]
    at hlow hhigh
  simp only [decodeGate, bits, idtSlot, IdtEntry.offsetLow, IdtEntry.selector, IdtEntry.ist,
    IdtEntry.typeAttr, IdtEntry.offsetMid, IdtEntry.offsetHigh, Nat.add_zero, Gate.mk.injEq]
  refine ⟨?_, ?_, ?_, ?_⟩ <;> omega

/-! ## `gdt_set_entry` -/

theorem toNat_granularity (limit : UInt32) (granularity : UInt8) :
    (((limit >>> 16) &&& 0x0F) ||| (granularity.toUInt32 &&& 0xF0)).toNat =
      limit.toNat / 2 ^ 16 % 2 ^ 4 + granularity.toNat / 2 ^ 4 * 2 ^ 4 := by
  have hbyte := granularity.toNat_lt
  have hflags : (granularity.toUInt32 &&& 0xF0).toNat = granularity.toNat / 2 ^ 4 * 2 ^ 4 := by
    have hmask : (0xF0 : UInt32).toNat = (2 ^ 4 - 1) * 2 ^ 4 := rfl
    rw [UInt32.toNat_and, UInt8.toNat_toUInt32, hmask, and_fieldMask]
    omega
  have hlimit : ((limit >>> 16) &&& 0x0F).toNat = limit.toNat / 2 ^ 16 % 2 ^ 4 :=
    toNat_shiftRight_and_u32 limit (by decide) rfl
  have hdvd : 2 ^ 4 ∣ granularity.toNat / 2 ^ 4 * 2 ^ 4 := Nat.dvd_mul_left _ _
  have hor := or_eq_add_of_dvd hdvd (Nat.mod_lt (limit.toNat / 2 ^ 16) (by decide : 0 < 2 ^ 4))
  rw [UInt32.toNat_or, hlimit, hflags, Nat.or_comm, hor, Nat.add_comm]

theorem decodeSegment_gdtSetEntry (m : Memory) (index : Fin gdtSegmentCount)
    (base limit : UInt32) (access granularity : UInt8) :
    decodeSegment (gdtSlot (gdtSetEntry m index base limit access granularity) index) =
      { base := base.toNat
        limit := limit.toNat % 2 ^ 20
        access := access.toNat
        flags := granularity.toNat / 2 ^ 4 } := by
  have hbase := base.toNat_lt
  have haccess := access.toNat_lt
  have hflags := granularity.toNat_lt
  have hlimitLow : (limit &&& 0xFFFF).toNat = limit.toNat % 2 ^ 16 := toNat_lowMask_u32 limit rfl
  have hbaseLow : (base &&& 0xFFFF).toNat = base.toNat % 2 ^ 16 := toNat_lowMask_u32 base rfl
  have hbaseMid : ((base >>> 16) &&& 0xFF).toNat = base.toNat / 2 ^ 16 % 2 ^ 8 :=
    toNat_shiftRight_and_u32 base (by decide) rfl
  have hbaseHigh : ((base >>> 24) &&& 0xFF).toNat = base.toNat / 2 ^ 24 % 2 ^ 8 :=
    toNat_shiftRight_and_u32 base (by decide) rfl
  rw [decodeSegment_gdtSlot]
  simp (disch := omega) only [gdtSetEntry, Memory.storeU8, Memory.storeU16,
    GdtEntry.limitLow, GdtEntry.baseLow, GdtEntry.baseMid, GdtEntry.access, GdtEntry.granularity,
    GdtEntry.baseHigh, Memory.load_store, Memory.load_store_of_sep, toNat_granularity,
    UInt32.toNat_toUInt16, UInt32.toNat_toUInt8, hlimitLow, hbaseLow, hbaseMid, hbaseHigh,
    Segment.mk.injEq]
  refine ⟨?_, ?_, ?_, ?_⟩ <;> omega

theorem outside_gdtSetEntry (m : Memory) (index : Fin gdtSegmentCount) (base limit : UInt32)
    (access granularity : UInt8) :
    Memory.Outside m (gdtSetEntry m index base limit access granularity)
      (gdtEntrySize * index) gdtEntrySize := by
  simp only [gdtSetEntry, Memory.storeU8, Memory.storeU16, GdtEntry.limitLow, GdtEntry.baseLow,
    GdtEntry.baseMid, GdtEntry.access, GdtEntry.granularity, GdtEntry.baseHigh]
  have hsize : gdtEntrySize = 8 := rfl
  repeat' apply Memory.Outside.store
  case h => exact Memory.Outside.refl _ _ _
  all_goals omega

/-! ## `gdt_set_tss_entry` -/

theorem decodeSystemSegment_gdtSetTssEntry (m : Memory) (index : Fin (gdtSegmentCount - 1))
    (base : UInt64) (limit : UInt32) :
    decodeSystemSegment (gdtSlot (gdtSetTssEntry m index base limit) index)
        (gdtSlot (gdtSetTssEntry m index base limit) (index + 1)) =
      { base := base.toNat
        limit := limit.toNat % 2 ^ 20
        access := 0x89
        flags := 0 } := by
  have hbase := base.toNat_lt
  have hlimitLow : (limit &&& 0xFFFF).toNat = limit.toNat % 2 ^ 16 := toNat_lowMask_u32 limit rfl
  have hbaseLow : (base &&& 0xFFFF).toNat = base.toNat % 2 ^ 16 := toNat_lowMask base rfl
  have hbaseMid : ((base >>> 16) &&& 0xFF).toNat = base.toNat / 2 ^ 16 % 2 ^ 8 :=
    toNat_shiftRight_and base (by decide) rfl
  have hbaseHigh : ((base >>> 24) &&& 0xFF).toNat = base.toNat / 2 ^ 24 % 2 ^ 8 :=
    toNat_shiftRight_and base (by decide) rfl
  have hbaseUpper : ((base >>> 32) &&& 0xFFFFFFFF).toNat = base.toNat / 2 ^ 32 % 2 ^ 32 :=
    toNat_shiftRight_and base (by decide) rfl
  have hlimit : ((limit >>> 16) &&& 0x0F).toNat = limit.toNat / 2 ^ 16 % 2 ^ 4 :=
    toNat_shiftRight_and_u32 limit (by decide) rfl
  have hnext : gdtEntrySize * (index + 1 : Nat) = gdtEntrySize * index + 8 := rfl
  have hupper := (gdtSetTssEntry m index base limit).load_sum [4, 4] (gdtEntrySize * index + 8)
  simp only [List.sum_cons, List.sum_nil, Memory.joined, Nat.add_assoc, Nat.reduceAdd] at hupper
  rw [decodeSystemSegment, decodeSegment_gdtSlot, gdtSlot, hnext, hupper]
  simp (disch := omega) only [gdtSetTssEntry, Memory.storeU8, Memory.storeU16, Memory.storeU32,
    GdtEntry.limitLow, GdtEntry.baseLow, GdtEntry.baseMid, GdtEntry.access, GdtEntry.granularity,
    GdtEntry.baseHigh, TssDescriptor.baseUpper, TssDescriptor.reserved, Memory.load_store,
    Memory.load_store_of_sep, UInt32.toNat_toUInt16, UInt32.toNat_toUInt8, UInt64.toNat_toUInt16,
    UInt64.toNat_toUInt8, UInt64.toNat_toUInt32, hlimitLow, hbaseLow, hbaseMid, hbaseHigh,
    hbaseUpper, hlimit, bits, UInt8.reduceToNat, UInt32.reduceToNat, Segment.mk.injEq]
  refine ⟨?_, ?_, ?_, ?_⟩ <;> omega

theorem outside_gdtSetTssEntry (m : Memory) (index : Fin (gdtSegmentCount - 1)) (base : UInt64)
    (limit : UInt32) :
    Memory.Outside m (gdtSetTssEntry m index base limit) (gdtEntrySize * index)
      (2 * gdtEntrySize) := by
  simp only [gdtSetTssEntry, Memory.storeU8, Memory.storeU16, Memory.storeU32,
    GdtEntry.limitLow, GdtEntry.baseLow, GdtEntry.baseMid, GdtEntry.access, GdtEntry.granularity,
    GdtEntry.baseHigh, TssDescriptor.baseUpper, TssDescriptor.reserved]
  have hsize : gdtEntrySize = 8 := rfl
  repeat' apply Memory.Outside.store
  case h => exact Memory.Outside.refl _ _ _
  all_goals omega

/-! ## `idt_install_gate` -/

theorem decodeGate_idtInstallGate (m : Memory) (vector : UInt8) (handlerAddress : UInt64)
    (typeAttr : UInt8) :
    decodeGate (idtSlot (idtInstallGate m vector handlerAddress typeAttr) vector.toNat).1
        (idtSlot (idtInstallGate m vector handlerAddress typeAttr) vector.toNat).2 =
      { offset := handlerAddress.toNat
        selector := kernelCs.toNat
        ist := 0
        typeAttr := typeAttr.toNat } := by
  have hhandler := handlerAddress.toNat_lt
  have htype := typeAttr.toNat_lt
  have hlow : (handlerAddress &&& 0xFFFF).toNat = handlerAddress.toNat % 2 ^ 16 :=
    toNat_lowMask handlerAddress rfl
  have hmid : ((handlerAddress >>> 16) &&& 0xFFFF).toNat =
      handlerAddress.toNat / 2 ^ 16 % 2 ^ 16 :=
    toNat_shiftRight_and handlerAddress (by decide) rfl
  have hhigh : ((handlerAddress >>> 32) &&& 0xFFFFFFFF).toNat =
      handlerAddress.toNat / 2 ^ 32 % 2 ^ 32 :=
    toNat_shiftRight_and handlerAddress (by decide) rfl
  rw [decodeGate_idtSlot]
  simp (disch := omega) only [idtInstallGate, Memory.storeU8, Memory.storeU16, Memory.storeU32,
    IdtEntry.offsetLow, IdtEntry.selector, IdtEntry.ist, IdtEntry.typeAttr, IdtEntry.offsetMid,
    IdtEntry.offsetHigh, IdtEntry.zero, Memory.load_store, Memory.load_store_of_sep,
    UInt64.toNat_toUInt16, UInt64.toNat_toUInt32, hlow, hmid, hhigh, UInt8.reduceToNat, kernelCs,
    UInt16.reduceToNat, Gate.mk.injEq]
  refine ⟨?_, ?_, ?_, ?_⟩ <;> omega

theorem outside_idtInstallGate (m : Memory) (vector : UInt8) (handlerAddress : UInt64)
    (typeAttr : UInt8) :
    Memory.Outside m (idtInstallGate m vector handlerAddress typeAttr)
      (idtEntrySize * vector.toNat) idtEntrySize := by
  simp only [idtInstallGate, Memory.storeU8, Memory.storeU16, Memory.storeU32,
    IdtEntry.offsetLow, IdtEntry.selector, IdtEntry.ist, IdtEntry.typeAttr, IdtEntry.offsetMid,
    IdtEntry.offsetHigh, IdtEntry.zero]
  have hsize : idtEntrySize = 16 := rfl
  repeat' apply Memory.Outside.store
  case h => exact Memory.Outside.refl _ _ _
  all_goals omega

/-! ## The tables -/

theorem gdtSlot_of_outside {m m' : Memory} {i n j : Nat}
    (h : Memory.Outside m m' (gdtEntrySize * i) (n * gdtEntrySize)) (hj : j < i ∨ i + n ≤ j) :
    gdtSlot m' j = gdtSlot m j := by
  apply h.load
  simp only [gdtEntrySize]
  omega

theorem idtSlot_of_outside {m m' : Memory} {i j : Nat}
    (h : Memory.Outside m m' (idtEntrySize * i) idtEntrySize) (hj : j ≠ i) :
    idtSlot m' j = idtSlot m j := by
  have hsep : idtEntrySize * j + 16 ≤ idtEntrySize * i ∨
      idtEntrySize * i + idtEntrySize ≤ idtEntrySize * j := by
    simp only [idtEntrySize]
    omega
  rw [idtSlot, idtSlot, h.load (by omega), h.load (by omega)]

/-- What the processor reads back from the slots an encoder wrote is what the
encoder was given, and every other slot of the table keeps its content. -/
theorem encoders_lossless :
    (∀ (m : Memory) (index : Fin gdtSegmentCount) (base limit : UInt32)
        (access granularity : UInt8), limit.toNat < 2 ^ 20 →
      decodeSegment (gdtSlot (gdtSetEntry m index base limit access granularity) index) =
          { base := base.toNat
            limit := limit.toNat
            access := access.toNat
            flags := granularity.toNat / 2 ^ 4 } ∧
        ∀ j : Fin gdtSegmentCount, j ≠ index →
          gdtSlot (gdtSetEntry m index base limit access granularity) j = gdtSlot m j) ∧
    (∀ (m : Memory) (index : Fin (gdtSegmentCount - 1)) (base : UInt64) (limit : UInt32),
        limit.toNat < 2 ^ 20 →
      decodeSystemSegment (gdtSlot (gdtSetTssEntry m index base limit) index)
          (gdtSlot (gdtSetTssEntry m index base limit) (index + 1)) =
          { base := base.toNat
            limit := limit.toNat
            access := 0x89
            flags := 0 } ∧
        ∀ j : Fin gdtSegmentCount, (j : Nat) ≠ index → (j : Nat) ≠ index + 1 →
          gdtSlot (gdtSetTssEntry m index base limit) j = gdtSlot m j) ∧
    (∀ (m : Memory) (vector : UInt8) (handlerAddress : UInt64) (typeAttr : UInt8),
      decodeGate (idtSlot (idtInstallGate m vector handlerAddress typeAttr) vector.toNat).1
          (idtSlot (idtInstallGate m vector handlerAddress typeAttr) vector.toNat).2 =
          { offset := handlerAddress.toNat
            selector := kernelCs.toNat
            ist := 0
            typeAttr := typeAttr.toNat } ∧
        ∀ other : UInt8, other ≠ vector →
          idtSlot (idtInstallGate m vector handlerAddress typeAttr) other.toNat =
            idtSlot m other.toNat) := by
  refine ⟨fun m index base limit access granularity hlimit => ⟨?_, ?_⟩,
    fun m index base limit hlimit => ⟨?_, ?_⟩, fun m vector handlerAddress typeAttr => ⟨?_, ?_⟩⟩
  · rw [decodeSegment_gdtSetEntry, Nat.mod_eq_of_lt hlimit]
  · intro j hj
    have hne : (j : Nat) ≠ index := fun h => hj (Fin.ext h)
    have hout : Memory.Outside m (gdtSetEntry m index base limit access granularity)
        (gdtEntrySize * index) (1 * gdtEntrySize) := by
      rw [Nat.one_mul]
      exact outside_gdtSetEntry m index base limit access granularity
    exact gdtSlot_of_outside hout (by omega)
  · rw [decodeSystemSegment_gdtSetTssEntry, Nat.mod_eq_of_lt hlimit]
  · intro j hlow hhigh
    exact gdtSlot_of_outside (outside_gdtSetTssEntry m index base limit) (by omega)
  · exact decodeGate_idtInstallGate m vector handlerAddress typeAttr
  · intro other hother
    have hne : other.toNat ≠ vector.toNat := fun h => hother (UInt8.toNat_inj.mp h)
    exact idtSlot_of_outside (outside_idtInstallGate m vector handlerAddress typeAttr) hne

/-- The kernel's code segment. -/
theorem encoders_lossless_kernelCode :
    decodeSegment (gdtSlot (gdtSetEntry (fun _ => 0) gdtSegmentKernelCode 0 0xFFFFF 0x9A 0xAF)
        gdtSegmentKernelCode) =
      { base := 0
        limit := 0xFFFFF
        access := 0x9A
        flags := 0xA } :=
  (encoders_lossless.1 (fun _ => 0) gdtSegmentKernelCode 0 0xFFFFF 0x9A 0xAF (by decide)).1

end AcharyaOS.Arch
