import Mathlib.Algebra.Group.Nat.Defs
import Mathlib.Data.Set.Lattice
import Mathlib.Order.CompletePartialOrder

/-!
# The kernel heap

The bump allocator of `memory/kheap.c`, with the bytes of memory it zeroes.
-/

namespace AcharyaOS.Heap

def kheapSizeBytes : UInt64 := 1024 * 1024

def kheapAlignment : UInt64 := 16

/-- The address of `__kernel_end`: that of an object, hence not null, and with room for
the heap behind it. -/
structure KernelEnd where
  address : UInt64
  pos : 0 < address.toNat
  room : address.toNat + 4096 + 1024 * 1024 < 2 ^ 64

/-- The static variables of `kheap.c` and the bytes of memory. -/
structure KheapState where
  heapStart : UInt64
  heapCurrent : UInt64
  heapEnd : UInt64
  allocationCount : UInt64
  memory : UInt64 → UInt8

def alignUp (value alignment : UInt64) : UInt64 :=
  (value + alignment - 1) &&& ~~~(alignment - 1)

def kheapInit (kernelEnd : UInt64) (memory : UInt64 → UInt8) : KheapState where
  heapStart := alignUp kernelEnd 4096
  heapCurrent := alignUp kernelEnd 4096
  heapEnd := alignUp kernelEnd 4096 + kheapSizeBytes
  allocationCount := 0
  memory := memory

/-- `kmalloc`; the address 0 is the null pointer. -/
def kmalloc (s : KheapState) (size : UInt64) : KheapState × UInt64 :=
  if size == 0 then (s, 0)
  else
    let allocation := alignUp s.heapCurrent kheapAlignment
    let next := allocation + size
    if next < allocation || next > s.heapEnd then (s, 0)
    else
      ({ s with heapCurrent := next, allocationCount := s.allocationCount + 1 }, allocation)

/-- `memset(ptr, 0, size)`. -/
def memsetZero (memory : UInt64 → UInt8) (ptr size : UInt64) : UInt64 → UInt8 := fun a =>
  if ptr.toNat ≤ a.toNat ∧ a.toNat < ptr.toNat + size.toNat then 0 else memory a

def kzalloc (s : KheapState) (size : UInt64) : KheapState × UInt64 :=
  let r := kmalloc s size
  if r.2 != 0 then ({ r.1 with memory := memsetZero r.1.memory r.2 size }, r.2) else r

def kfree (s : KheapState) (_ptr : UInt64) : KheapState := s

/-- A call into the heap. -/
inductive KheapCall
  | kmalloc (size : UInt64)
  | kzalloc (size : UInt64)
  | kfree (ptr : UInt64)

/-- The state a call leaves and the pointer it returns; `kfree` returns nothing. -/
def KheapCall.perform (s : KheapState) : KheapCall → KheapState × UInt64
  | .kmalloc size => Heap.kmalloc s size
  | .kzalloc size => Heap.kzalloc s size
  | .kfree ptr => (Heap.kfree s ptr, 0)

/-- The size argument of an allocating call. -/
def KheapCall.size : KheapCall → UInt64
  | .kmalloc size => size
  | .kzalloc size => size
  | .kfree _ => 0

end AcharyaOS.Heap
