import AcharyaOS.Arch.Descriptors
import AcharyaOS.Kstring.Code

/-!
# The kernel's segments

`gdt_init` of `gdt.c`: the table it builds, the task state segment the table points to, and
what the processor finds there behind the selectors of the kernel.
-/

namespace AcharyaOS.Arch

open Foundation Kstring

/-! ## `gdt.c` -/

/-- The static variables of `gdt.c`, each the memory from its first byte on. -/
structure GdtState where
  gdtEntries : Memory
  tss : Memory

theorem null_lt : 0 < gdtSegmentCount := by decide

theorem kernelData_lt : 2 < gdtSegmentCount := by decide

theorem userCode_lt : 3 < gdtSegmentCount := by decide

theorem userData_lt : 4 < gdtSegmentCount := by decide

theorem tssLow_lt : 5 < gdtSegmentCount - 1 := by decide

def gdtSegmentNull : Fin gdtSegmentCount := ⟨0, null_lt⟩

def gdtSegmentKernelData : Fin gdtSegmentCount := ⟨2, kernelData_lt⟩

def gdtSegmentUserCode : Fin gdtSegmentCount := ⟨3, userCode_lt⟩

def gdtSegmentUserData : Fin gdtSegmentCount := ⟨4, userData_lt⟩

def gdtSegmentTssLow : Fin (gdtSegmentCount - 1) := ⟨5, tssLow_lt⟩

/-! The fields of `tss_t` that are written. -/

def Tss.rsp0 : Nat := 4

def Tss.iomapBase : Nat := 102

def tssSize : Nat := 104

def tssStackSize : UInt64 := 8192

/-- `gdt_init` up to the loading of the table, with the addresses of `tss` and `tss_stack`. -/
def gdtInit (tssAddress tssStack : UInt64) (s : GdtState) : GdtState :=
  let m := gdtSetEntry s.gdtEntries gdtSegmentNull 0 0 0 0
  let m := gdtSetEntry m gdtSegmentKernelCode 0 0xFFFFF 0x9A 0xAF
  let m := gdtSetEntry m gdtSegmentKernelData 0 0xFFFFF 0x92 0xCF
  let m := gdtSetEntry m gdtSegmentUserCode 0 0xFFFFF 0xFA 0xAF
  let m := gdtSetEntry m gdtSegmentUserData 0 0xFFFFF 0xF2 0xCF
  let tss := memset s.tss 0 0 tssSize
  let tss := tss.store 8 Tss.rsp0 (tssStack + tssStackSize).toNat
  let tss := tss.storeU16 Tss.iomapBase tssSize.toUInt16
  { gdtEntries := gdtSetTssEntry m gdtSegmentTssLow tssAddress (tssSize - 1).toUInt32
    tss := tss }

/-! ## Selectors -/

/-- The processor's use of a selector: its slot of the table and its privilege level. -/
def selectorSlot (selector : UInt16) : Nat := selector.toNat / 8

def selectorLevel (selector : UInt16) : Nat := selector.toNat % 4

/-- A present 64-bit code segment of a privilege level. -/
def Segment.IsCode (seg : Segment) (level : Nat) : Prop :=
  seg.access.testBit 7 ∧ seg.access.testBit 4 ∧ seg.access.testBit 3 ∧
    seg.access / 32 % 4 = level ∧ seg.flags.testBit 1 ∧ seg.flags.testBit 2 = false

/-- A present writable data segment of a privilege level. -/
def Segment.IsData (seg : Segment) (level : Nat) : Prop :=
  seg.access.testBit 7 ∧ seg.access.testBit 4 ∧ seg.access.testBit 3 = false ∧
    seg.access.testBit 1 ∧ seg.access / 32 % 4 = level

/-- A selector of code or data can be loaded for the privilege level it names. -/
def LoadsCode (m : Memory) (selector : UInt16) : Prop :=
  (decodeSegment (gdtSlot m (selectorSlot selector))).IsCode (selectorLevel selector)

def LoadsData (m : Memory) (selector : UInt16) : Prop :=
  (decodeSegment (gdtSlot m (selectorSlot selector))).IsData (selectorLevel selector)

/-- The task state segment that `ltr` finds. -/
def tssSegment (m : Memory) (selector : UInt16) : Segment :=
  decodeSystemSegment (gdtSlot m (selectorSlot selector)) (gdtSlot m (selectorSlot selector + 1))

/-! ## The table -/

def segmentOf (m : Memory) (index : Fin gdtSegmentCount) : Segment :=
  decodeSegment (gdtSlot m index)

def codeOrData (access granularity : UInt8) : Segment where
  base := 0
  limit := 0xFFFFF
  access := access.toNat
  flags := granularity.toNat / 2 ^ 4

theorem segmentOf_gdtSetEntry (m : Memory) (index : Fin gdtSegmentCount)
    (base limit : UInt32) (access granularity : UInt8) :
    segmentOf (gdtSetEntry m index base limit access granularity) =
      Function.update (segmentOf m) index
        { base := base.toNat
          limit := limit.toNat % 2 ^ 20
          access := access.toNat
          flags := granularity.toNat / 2 ^ 4 } := by
  funext j
  by_cases hj : j = index
  · rw [hj, Function.update_self]
    exact decodeSegment_gdtSetEntry m index base limit access granularity
  · have hne : (j : Nat) ≠ index := fun h => hj (Fin.ext h)
    have hout : Memory.Outside m (gdtSetEntry m index base limit access granularity)
        (gdtEntrySize * index) (1 * gdtEntrySize) := by
      rw [Nat.one_mul]
      exact outside_gdtSetEntry m index base limit access granularity
    rw [Function.update_of_ne hj, segmentOf, segmentOf, gdtSlot_of_outside hout (by omega)]

theorem segmentOf_gdtSetTssEntry (m : Memory) (base : UInt64) (limit : UInt32)
    {index : Fin gdtSegmentCount} (hindex : (index : Nat) < 5) :
    segmentOf (gdtSetTssEntry m gdtSegmentTssLow base limit) index = segmentOf m index := by
  have hout := outside_gdtSetTssEntry m gdtSegmentTssLow base limit
  rw [segmentOf, segmentOf, gdtSlot_of_outside hout (.inl hindex)]

theorem segmentOf_gdtInit (tssAddress tssStack : UInt64) (s : GdtState) :
    segmentOf (gdtInit tssAddress tssStack s).gdtEntries gdtSegmentKernelCode =
        codeOrData 0x9A 0xAF ∧
      segmentOf (gdtInit tssAddress tssStack s).gdtEntries gdtSegmentKernelData =
        codeOrData 0x92 0xCF ∧
      segmentOf (gdtInit tssAddress tssStack s).gdtEntries gdtSegmentUserCode =
        codeOrData 0xFA 0xAF ∧
      segmentOf (gdtInit tssAddress tssStack s).gdtEntries gdtSegmentUserData =
        codeOrData 0xF2 0xCF := by
  refine ⟨?_, ?_, ?_, ?_⟩
  all_goals
    simp only [gdtInit]
    rw [segmentOf_gdtSetTssEntry _ _ _ (by decide)]
    simp only [segmentOf_gdtSetEntry]
    rfl

theorem tss_gdtInit (tssAddress tssStack : UInt64) (s : GdtState) :
    tssSegment (gdtInit tssAddress tssStack s).gdtEntries 0x28 =
        { base := tssAddress.toNat, limit := 103, access := 0x89, flags := 0 } ∧
      (gdtInit tssAddress tssStack s).tss.load 8 Tss.rsp0 =
        (tssStack + tssStackSize).toNat := by
  have hlt := (tssStack + tssStackSize).toNat_lt
  constructor
  · exact decodeSystemSegment_gdtSetTssEntry _ gdtSegmentTssLow tssAddress _
  · have hkeep : (gdtInit tssAddress tssStack s).tss.load 8 Tss.rsp0 =
        ((memset s.tss 0 0 tssSize).store 8 Tss.rsp0
          (tssStack + tssStackSize).toNat).load 8 Tss.rsp0 :=
      Memory.load_store_of_sep 2 _ (.inl (by decide))
    rw [hkeep, Memory.load_store]
    exact Nat.mod_eq_of_lt (by omega)

theorem loadsCode_of_segment {m : Memory} {selector : UInt16} {access granularity : UInt8}
    (hseg : decodeSegment (gdtSlot m (selectorSlot selector)) = codeOrData access granularity)
    (hcode : (codeOrData access granularity).IsCode (selectorLevel selector)) :
    LoadsCode m selector := by
  rw [LoadsCode, hseg]
  exact hcode

theorem loadsData_of_segment {m : Memory} {selector : UInt16} {access granularity : UInt8}
    (hseg : decodeSegment (gdtSlot m (selectorSlot selector)) = codeOrData access granularity)
    (hdata : (codeOrData access granularity).IsData (selectorLevel selector)) :
    LoadsData m selector := by
  rw [LoadsData, hseg]
  exact hdata

theorem loads_gdtInit (tssAddress tssStack : UInt64) (s : GdtState) :
    LoadsCode (gdtInit tssAddress tssStack s).gdtEntries kernelCs ∧
      LoadsData (gdtInit tssAddress tssStack s).gdtEntries 0x10 ∧
      LoadsCode (gdtInit tssAddress tssStack s).gdtEntries 0x1B ∧
      LoadsData (gdtInit tssAddress tssStack s).gdtEntries 0x23 := by
  obtain ⟨hkernelCode, hkernelData, huserCode, huserData⟩ :=
    segmentOf_gdtInit tssAddress tssStack s
  refine ⟨loadsCode_of_segment hkernelCode ?_, loadsData_of_segment hkernelData ?_,
    loadsCode_of_segment huserCode ?_, loadsData_of_segment huserData ?_⟩
  · unfold Segment.IsCode
    decide
  · unfold Segment.IsData
    decide
  · unfold Segment.IsCode
    decide
  · unfold Segment.IsData
    decide

end AcharyaOS.Arch
