import AcharyaOS.Foundation.Memory

/-!
# Descriptor tables

The encoders of `kernel/arch/x86_64/gdt.c` and `idt.c`.  A table is the memory
from its first byte on; the packed structures are given by the offsets of their
fields.
-/

namespace AcharyaOS.Arch

open Foundation

/-! ## `gdt.c` -/

def gdtSegmentCount : Nat := 7

theorem kernelCode_lt : 1 < gdtSegmentCount := by decide

def gdtSegmentKernelCode : Fin gdtSegmentCount := ⟨1, kernelCode_lt⟩

def gdtEntrySize : Nat := 8

/-! The fields of `gdt_entry_t`. -/

def GdtEntry.limitLow : Nat := 0

def GdtEntry.baseLow : Nat := 2

def GdtEntry.baseMid : Nat := 4

def GdtEntry.access : Nat := 5

def GdtEntry.granularity : Nat := 6

def GdtEntry.baseHigh : Nat := 7

/-! The fields of `tss_descriptor_t` behind its `gdt_entry_t`. -/

def TssDescriptor.baseUpper : Nat := 8

def TssDescriptor.reserved : Nat := 12

def gdtSetEntry (gdtEntries : Memory) (index : Fin gdtSegmentCount) (base limit : UInt32)
    (access granularity : UInt8) : Memory :=
  let entry := gdtEntrySize * index
  let m := gdtEntries.storeU16 (entry + GdtEntry.baseLow) (base &&& 0xFFFF).toUInt16
  let m := m.storeU8 (entry + GdtEntry.baseMid) ((base >>> 16) &&& 0xFF).toUInt8
  let m := m.storeU8 (entry + GdtEntry.baseHigh) ((base >>> 24) &&& 0xFF).toUInt8
  let m := m.storeU16 (entry + GdtEntry.limitLow) (limit &&& 0xFFFF).toUInt16
  let m := m.storeU8 (entry + GdtEntry.granularity)
    (((limit >>> 16) &&& 0x0F) ||| (granularity.toUInt32 &&& 0xF0)).toUInt8
  m.storeU8 (entry + GdtEntry.access) access

/-- `gdt_set_tss_entry`, whose descriptor takes the slot `index` and the next one. -/
def gdtSetTssEntry (gdtEntries : Memory) (index : Fin (gdtSegmentCount - 1)) (base : UInt64)
    (limit : UInt32) : Memory :=
  let desc := gdtEntrySize * index
  let m := gdtEntries.storeU16 (desc + GdtEntry.limitLow) (limit &&& 0xFFFF).toUInt16
  let m := m.storeU16 (desc + GdtEntry.baseLow) (base &&& 0xFFFF).toUInt16
  let m := m.storeU8 (desc + GdtEntry.baseMid) ((base >>> 16) &&& 0xFF).toUInt8
  let m := m.storeU8 (desc + GdtEntry.access) 0x89
  let m := m.storeU8 (desc + GdtEntry.granularity) ((limit >>> 16) &&& 0x0F).toUInt8
  let m := m.storeU8 (desc + GdtEntry.baseHigh) ((base >>> 24) &&& 0xFF).toUInt8
  let m := m.storeU32 (desc + TssDescriptor.baseUpper) ((base >>> 32) &&& 0xFFFFFFFF).toUInt32
  m.storeU32 (desc + TssDescriptor.reserved) 0

/-! ## `idt.c` -/

def idtEntrySize : Nat := 16

def kernelCs : UInt16 := 0x08

/-! The fields of `idt_entry_t`. -/

def IdtEntry.offsetLow : Nat := 0

def IdtEntry.selector : Nat := 2

def IdtEntry.ist : Nat := 4

def IdtEntry.typeAttr : Nat := 5

def IdtEntry.offsetMid : Nat := 6

def IdtEntry.offsetHigh : Nat := 8

def IdtEntry.zero : Nat := 12

def idtInstallGate (idt : Memory) (vector : UInt8) (handlerAddress : UInt64) (typeAttr : UInt8) :
    Memory :=
  let gate := idtEntrySize * vector.toNat
  let m := idt.storeU16 (gate + IdtEntry.offsetLow) (handlerAddress &&& 0xFFFF).toUInt16
  let m := m.storeU16 (gate + IdtEntry.selector) kernelCs
  let m := m.storeU8 (gate + IdtEntry.ist) 0
  let m := m.storeU8 (gate + IdtEntry.typeAttr) typeAttr
  let m := m.storeU16 (gate + IdtEntry.offsetMid) ((handlerAddress >>> 16) &&& 0xFFFF).toUInt16
  let m := m.storeU32 (gate + IdtEntry.offsetHigh)
    ((handlerAddress >>> 32) &&& 0xFFFFFFFF).toUInt32
  m.storeU32 (gate + IdtEntry.zero) 0

end AcharyaOS.Arch
