import AcharyaOS.Foundation.Scan
import AcharyaOS.Vmm.Tables

/-!
# The system call code

`syscall_dispatch` of `syscall/syscall.c` with `kputs` of `kernel/lib/kio.c`, on a machine
whose paging the memory manager has set up.  The characters `kputs` prints leave for the
console; the memory it reads them from stays as it is.
-/

namespace AcharyaOS.Syscall

open Foundation Foundation.PageWalk Vmm

/-! ## The machine -/

instance (va : Nat) : Decidable (Canonical va) := inferInstanceAs (Decidable (_ ∨ _))

/-- What a system call finds besides the memory's contents: paging in a state the memory
manager has reached, the tick count and the process table. -/
structure Machine where
  layout : VmmLayout
  vmm : VmmState
  reachable : VmmReachable layout vmm
  rest : Nat → UInt64
  ticks : UInt64
  currentPid : UInt32
  processCount : UInt64

/-- The walk of a supervisor access; a non-canonical address faults. -/
def Machine.walk (k : Machine) (va : UInt64) : Option Walk :=
  if Canonical va.toNat then vmmWalk k.layout k.vmm k.rest va.toNat else none

def Machine.translate (k : Machine) (va : UInt64) : Option Nat :=
  (k.walk va).map Walk.physical

/-! ## The calls -/

def syscallPuts : UInt64 := 0

def syscallGetTicks : UInt64 := 1

def syscallGetPid : UInt64 := 2

def syscallGetProcessCount : UInt64 := 3

def syscallYield : UInt64 := 4

/-- The registers of `interrupt_frame_t` that `syscall_dispatch` looks at. -/
structure InterruptFrame where
  rax : UInt64
  rdi : UInt64
  deriving DecidableEq

/-- `kputs(str)`: the characters printed, within `n` of them, and how the loop ends. -/
def kputs (k : Machine) (m : Nat → UInt8) (n : Nat) (str : UInt64) :
    List UInt8 × Scan.End UInt64 :=
  Scan.scan (· + 1) (Scan.load k.translate m) n str

/-- How a system call ends: it returns to its caller, or the kernel faults at an address. -/
inductive SyscallEnd
  | returned (frame : InterruptFrame)
  | fault (va : UInt64)
  | running
  deriving DecidableEq

/-- The end of `kputs` in `syscall_dispatch`. -/
def afterKputs (frame : InterruptFrame) : Scan.End UInt64 → SyscallEnd
  | .nul => .returned { frame with rax := 0 }
  | .fault va => .fault va
  | .running => .running

/-- `syscall_dispatch(frame)` in a memory with contents `m`: the characters printed and how
the call ends.  The string is given as many steps as there are addresses. -/
def syscallDispatch (k : Machine) (m : Nat → UInt8) (frame : InterruptFrame) :
    List UInt8 × SyscallEnd :=
  if frame.rax = syscallPuts then
    let r := kputs k m (2 ^ 64) frame.rdi
    (r.1, afterKputs frame r.2)
  else if frame.rax = syscallGetTicks then ([], .returned { frame with rax := k.ticks })
  else if frame.rax = syscallGetPid then
    ([], .returned { frame with rax := k.currentPid.toUInt64 })
  else if frame.rax = syscallGetProcessCount then
    ([], .returned { frame with rax := k.processCount })
  else if frame.rax = syscallYield then ([], .returned { frame with rax := 0 })
  else ([], .returned { frame with rax := -1 })

end AcharyaOS.Syscall
