import AcharyaOS.Arch.Interrupts
import AcharyaOS.Arch.Segments
import AcharyaOS.Vmm.UserMap
import Mathlib.Data.Nat.Notation

/-!
# The user program

`users/userspace.c`: two pages of the kernel are filled with a program and a stack, mapped for
user code, and entered with an `iretq`.
-/

namespace AcharyaOS.Userspace

open Foundation Foundation.StackMachine Vmm Kstring Arch

def userCodeVaddr : UInt64 := 0x8000000000

def userStackVaddr : UInt64 := 0x8000200000

def userStackTop : UInt64 := userStackVaddr + vmmPageSize2m

def userRing3Cs : UInt16 := 0x1B

def userRing3Ds : UInt16 := 0x23

/-- Where the linker put the two pages and the program: apart, the pages in the memory that
the kernel maps to itself. -/
structure UserLayout where
  codePage : UInt64
  stackPage : UInt64
  programStart : UInt64
  programEnd : UInt64
  code_aligned : codePage.toNat % 2 ^ 21 = 0
  stack_aligned : stackPage.toNat % 2 ^ 21 = 0
  pages_ne : codePage ≠ stackPage
  code_lt : codePage.toNat < 2 ^ 30
  stack_lt : stackPage.toNat < 2 ^ 30
  start_le : programStart ≤ programEnd
  code_apart : programEnd ≤ codePage ∨ codePage.toNat + 2 ^ 21 ≤ programStart.toNat
  stack_apart : programEnd ≤ stackPage ∨ stackPage.toNat + 2 ^ 21 ≤ programStart.toNat

/-- The page tables, the memory, and `userspace_running`. -/
structure UserspaceState where
  vmm : VmmState
  mem : Memory
  running : Bool

/-- `userspace_init`, with the message of a panic. -/
def userspaceInit (L : VmmLayout) (U : UserLayout) (s : UserspaceState) :
    Except String UserspaceState :=
  let codeSize := U.programEnd - U.programStart
  if codeSize > vmmPageSize2m then .error "User program image too large"
  else
    let m := memset s.mem U.codePage.toNat 0 vmmPageSize2m.toNat
    let m := memset m U.stackPage.toNat 0 vmmPageSize2m.toNat
    let m := memcpy m U.codePage.toNat U.programStart.toNat codeSize.toNat
    let (vmm, code) := vmmMapUser2m L s.vmm userCodeVaddr U.codePage
    if code ≠ 0 then .error "Failed to map user code page"
    else
      let (vmm, stack) := vmmMapUser2m L vmm userStackVaddr U.stackPage
      if stack ≠ 0 then .error "Failed to map user stack page"
      else .ok { vmm := vmm, mem := m, running := false }

/-- The registers that the compiler takes for the operands of the assembly; the code overwrites
`rax`. -/
structure EnterOperands where
  cs : Reg
  stack : Reg
  entry : Reg
  nodup : [.rax, cs, stack, entry].Nodup

/-- The registers with the operands in their places. -/
def EnterOperands.load (ops : EnterOperands) (cpu : Cpu Reg) (entry stackTop : UInt64) : Cpu Reg :=
  ((cpu.setReg ops.cs userRing3Cs.toUInt64).setReg ops.stack stackTop).setReg ops.entry entry

/-- What a `movw` to `ax` makes of `rax`. -/
def withAx (rax : UInt64) (ax : UInt16) : UInt64 := (rax &&& 0xFFFFFFFFFFFF0000) ||| ax.toUInt64

/-- The flags behind `xor %eax, %eax`: zero and parity are set, carry, sign and overflow are
clear.  The processor may leave the adjust flag either way. -/
def flagsAfterXor (adjust : Bool) (rflags : UInt64) : UInt64 :=
  (rflags &&& 0xFFFFFFFFFFFFF72A) ||| 0x44 ||| (if adjust then 0x10 else 0)

/-- What `pushfq` stores, without the resume flag. -/
def pushedFlags (rflags : UInt64) : UInt64 := rflags &&& 0xFCFFFF

/-- With this flag set an `iretq` faults. -/
def flagNestedTask : UInt64 := 0x4000

/-- The instructions of `userspace_enter` on the stack, up to its `iretq`. -/
def enterCode (ops : EnterOperands) (rflags : UInt64) : StubCode :=
  [.pushReg .rax, .pushReg ops.stack, .pushImm (pushedFlags rflags), .pushReg ops.cs,
    .pushReg ops.entry]

/-- `userspace_enter(entry, stack_top)`, from a processor as the calls before have left it: the
context it goes on with, and the selector in `ds`, `es`, `fs` and `gs`. -/
def userspaceEnter (ops : EnterOperands) (adjust : Bool) (cpu : Cpu Reg)
    (rflags entry stackTop : UInt64) : Option (Context Reg × UInt16) :=
  let cpu := ops.load cpu entry stackTop
  let cpu := cpu.setReg .rax (withAx (cpu.reg .rax) userRing3Ds)
  let data := (cpu.reg .rax).toUInt16
  let cpu := cpu.setReg .rax 0
  let rflags := flagsAfterXor adjust rflags
  let cpu := cpu.setReg .rax (withAx (cpu.reg .rax) userRing3Ds)
  if rflags &&& flagNestedTask ≠ 0 then none
  else (exec (fun _ _ => none) (enterCode ops rflags) cpu).map fun cpu => (iretq cpu, data)

/-- `userspace_run_demo`: what it prints, the new state, and where it goes on.  The processor is
the one that `kprintf` leaves. -/
def userspaceRunDemo (ops : EnterOperands) (adjust : Bool) (s : UserspaceState) (cpu : Cpu Reg)
    (rflags : UInt64) :
    Option (List UInt8) × UserspaceState × Option (Context Reg × UInt16) :=
  if s.running then (Kio.kprintfLit "user demo already running\n" [], s, none)
  else
    (Kio.kprintfLit "entering user mode demo...\n" [], { s with running := true },
      userspaceEnter ops adjust cpu rflags userCodeVaddr userStackTop)

/-! ## The pages -/

section Pages

variable {L : VmmLayout} {U : UserLayout} {s : UserspaceState}

theorem accepts_code (U : UserLayout) : VmmAccepts userCodeVaddr U.codePage :=
  ⟨rfl, U.code_aligned, by decide, by decide⟩

theorem accepts_stack (U : UserLayout) : VmmAccepts userStackVaddr U.stackPage :=
  ⟨rfl, U.stack_aligned, by decide, by decide⟩

/-- The page tables that `userspace_init` leaves. -/
def userTables (L : VmmLayout) (U : UserLayout) (vmm : VmmState) : VmmState :=
  vmmStep L (vmmStep L vmm ⟨userCodeVaddr, U.codePage⟩) ⟨userStackVaddr, U.stackPage⟩

theorem reachable_userTables (h : VmmReachable L s.vmm) :
    VmmReachable L (userTables L U s.vmm) :=
  .next (.next h trivial) trivial

/-- The memory that `userspace_init` leaves. -/
def userMemory (U : UserLayout) (m : Memory) : Memory :=
  memcpy (memset (memset m U.codePage.toNat 0 (2 ^ 21)) U.stackPage.toNat 0 (2 ^ 21))
    U.codePage.toNat U.programStart.toNat (U.programEnd - U.programStart).toNat

theorem userTables_entries (hs : VmmInv L s.vmm) :
    (userTables L U s.vmm).tables .userPdpt 0 = L.address .userPd ||| 7 ∧
      (userTables L U s.vmm).tables .userPd (userPdSlot userCodeVaddr) = U.codePage ||| 0x87 ∧
      (userTables L U s.vmm).tables .userPd (userPdSlot userStackVaddr) =
        U.stackPage ||| 0x87 := by
  have hstep := hs.step ⟨userCodeVaddr, U.codePage⟩
  have hslots : userPdSlot userCodeVaddr ≠ userPdSlot userStackVaddr := by decide
  have hne : VmmTable.userPdpt ≠ .userPd := by decide
  rw [userTables, vmmStep, vmmMapUser2m_of_accepts hstep (accepts_stack U)]
  refine ⟨?_, ?_, setEntry_same _ _ _ _⟩
  · rw [setEntry_table _ _ _ _ hne, setEntry_same]
  · rw [setEntry_slot _ _ _ _ hslots, setEntry_table _ _ _ _ hne.symm, vmmStep,
      vmmMapUser2m_of_accepts hs (accepts_code U)]
    exact setEntry_same _ _ _ _

theorem userspaceInit_eq (hs : VmmInv L s.vmm)
    (hsize : (U.programEnd - U.programStart).toNat ≤ 2 ^ 21) :
    userspaceInit L U s =
      .ok { vmm := userTables L U s.vmm, mem := userMemory U s.mem, running := false } := by
  have hstep := hs.step ⟨userCodeVaddr, U.codePage⟩
  have hfit : ¬ U.programEnd - U.programStart > vmmPageSize2m := by
    rw [gt_iff_lt, UInt64.lt_iff_toNat_lt]
    exact Nat.not_lt.mpr hsize
  have hcode : (vmmMapUser2m L s.vmm userCodeVaddr U.codePage).2 = 0 := by
    rw [vmmMapUser2m_of_accepts hs (accepts_code U)]
  have hstack : (vmmMapUser2m L (vmmStep L s.vmm ⟨userCodeVaddr, U.codePage⟩) userStackVaddr
      U.stackPage).2 = 0 := by
    rw [vmmMapUser2m_of_accepts hstep (accepts_stack U)]
  unfold userspaceInit
  simp only [if_neg hfit]
  rw [if_neg (not_not_intro hcode)]
  exact if_neg (not_not_intro hstack)

theorem toNat_codeSize (U : UserLayout) :
    (U.programEnd - U.programStart).toNat = U.programEnd.toNat - U.programStart.toNat :=
  UInt64.toNat_sub_of_le _ _ U.start_le

theorem pages_apart (U : UserLayout) :
    U.codePage.toNat + 2 ^ 21 ≤ U.stackPage.toNat ∨
      U.stackPage.toNat + 2 ^ 21 ≤ U.codePage.toNat := by
  have hne : U.codePage.toNat ≠ U.stackPage.toNat := fun h => U.pages_ne (UInt64.toNat_inj.mp h)
  have h1 := U.code_aligned
  have h2 := U.stack_aligned
  omega

theorem userMemory_code (m : Memory) {off : Nat} (hoff : off < 2 ^ 21) :
    userMemory U m (U.codePage.toNat + off) =
      if off < (U.programEnd - U.programStart).toNat then m (U.programStart.toNat + off)
      else 0 := by
  have hsub := toNat_codeSize U
  have hpages := pages_apart U
  have hcode := U.code_apart
  have hstack := U.stack_apart
  rw [UInt64.le_iff_toNat_le] at hcode hstack
  rw [userMemory, memcpy_apply]
  by_cases hin : off < (U.programEnd - U.programStart).toNat
  · have hplace : U.codePage.toNat + off - U.codePage.toNat = off := Nat.add_sub_cancel_left _ _
    rw [if_pos (by omega), if_pos hin, hplace, copied]
    have hsource : ∀ a, a = U.programStart.toNat + off →
        memset (memset m U.codePage.toNat 0 (2 ^ 21)) U.stackPage.toNat 0 (2 ^ 21) a =
          m (U.programStart.toNat + off) := by
      intro a ha
      rw [memset_apply, if_neg (by omega), memset_apply, if_neg (by omega), ha]
    split
    · have hsmall : off % (U.codePage.toNat - U.programStart.toNat) = off :=
        Nat.mod_eq_of_lt (by omega)
      rw [hsmall, hsource _ rfl]
    · exact hsource _ rfl
  · rw [if_neg (by omega), if_neg hin, memset_apply, if_neg (by omega), memset_apply,
      if_pos (by omega)]
    rfl

theorem userMemory_stack (m : Memory)
    (hsize : (U.programEnd - U.programStart).toNat ≤ 2 ^ 21) {off : Nat} (hoff : off < 2 ^ 21) :
    userMemory U m (U.stackPage.toNat + off) = 0 := by
  have hpages := pages_apart U
  rw [userMemory, memcpy_apply, if_neg (by omega), memset_apply, if_pos (by omega)]
  rfl

theorem userMemory_outside (m : Memory)
    (hsize : (U.programEnd - U.programStart).toNat ≤ 2 ^ 21) {a : Nat}
    (hcode : a < U.codePage.toNat ∨ U.codePage.toNat + 2 ^ 21 ≤ a)
    (hstack : a < U.stackPage.toNat ∨ U.stackPage.toNat + 2 ^ 21 ≤ a) :
    userMemory U m a = m a := by
  rw [userMemory, memcpy_apply, if_neg (by omega), memset_apply, if_neg (by omega), memset_apply,
    if_neg (by omega)]

end Pages

/-! ## The program in its address space -/

/-- User code can read and write a byte of memory at an address. -/
def UserByte (L : VmmLayout) (s : UserspaceState) (rest : Nat → UInt64) (va : Nat) (c : UInt8) :
    Prop :=
  ∃ w, vmmWalk L s.vmm rest va = some w ∧ s.mem w.physical = c ∧
    ∀ e ∈ w.entries, PageWalk.present e = true ∧ PageWalk.writable e = true ∧
      PageWalk.user e = true

theorem userByte_of_page {L : VmmLayout} {s : UserspaceState} (hs : VmmInv L s.vmm)
    {va pa : UInt64} (hlink : s.vmm.tables .userPdpt 0 = L.address .userPd ||| 7)
    (haccepts : VmmAccepts va pa) (hva : va.toNat < 2 ^ 48) (hpa : pa.toNat < 2 ^ 52)
    (hleaf : s.vmm.tables .userPd (userPdSlot va) = pa ||| 0x87) (rest : Nat → UInt64)
    {off : Nat} (hoff : off < 2 ^ 21) :
    UserByte L s rest (va.toNat + off) (s.mem (pa.toNat + off)) := by
  obtain ⟨w, hw, hphysical, -, hbits, -⟩ :=
    ((vmmMapsTo_iff hs hlink haccepts hva hleaf rest).mpr hpa).walk off hoff
  exact ⟨w, hw, congrArg s.mem hphysical, hbits⟩

/-- After `userspace_init`, with whatever had been mapped before, user code finds the program
at `USER_CODE_VADDR` with zeros behind it and a cleared stack at `USER_STACK_VADDR`; memory
outside the two pages is as before, and the first gigabyte is still closed to user code.  A
program that does not fit stops the kernel before it is copied. -/
theorem userspace_image {L : VmmLayout} {U : UserLayout} {s : UserspaceState}
    (h : VmmReachable L s.vmm) :
    ((U.programEnd - U.programStart).toNat ≤ 2 ^ 21 →
      ∃ s', userspaceInit L U s = .ok s' ∧ VmmReachable L s'.vmm ∧ s'.running = false ∧
        (∀ rest, ∀ off < 2 ^ 21,
          UserByte L s' rest (userCodeVaddr.toNat + off)
            (if off < (U.programEnd - U.programStart).toNat then
              s.mem (U.programStart.toNat + off) else 0) ∧
          UserByte L s' rest (userStackVaddr.toNat + off) 0) ∧
        (∀ a, (a < U.codePage.toNat ∨ U.codePage.toNat + 2 ^ 21 ≤ a) →
          (a < U.stackPage.toNat ∨ U.stackPage.toNat + 2 ^ 21 ≤ a) → s'.mem a = s.mem a) ∧
        ∀ rest va c, va < 2 ^ 30 → ¬ UserByte L s' rest va c) ∧
    (2 ^ 21 < (U.programEnd - U.programStart).toNat →
      userspaceInit L U s = .error "User program image too large") := by
  constructor
  · intro hsize
    have hreachable := reachable_userTables (U := U) h
    obtain ⟨hlink, hcode, hstack⟩ := userTables_entries (U := U) h.inv
    have hcodePage := U.code_lt
    have hstackPage := U.stack_lt
    refine ⟨_, userspaceInit_eq h.inv hsize, hreachable, rfl, fun rest off hoff => ⟨?_, ?_⟩,
      fun a ha ha' => userMemory_outside s.mem hsize ha ha', fun rest va c hva hbyte => ?_⟩
    · rw [← userMemory_code s.mem hoff]
      exact userByte_of_page (s := ⟨userTables L U s.vmm, userMemory U s.mem, false⟩)
        hreachable.inv hlink (accepts_code U) (by decide) (by omega) hcode rest hoff
    · have hbyte := userByte_of_page (s := ⟨userTables L U s.vmm, userMemory U s.mem, false⟩)
        hreachable.inv hlink (accepts_stack U) (by decide) (by omega) hstack rest hoff
      have hzero := userMemory_stack s.mem hsize hoff
      rw [← hzero]
      exact hbyte
    · obtain ⟨w, hw, -, hbits⟩ := hbyte
      obtain ⟨leaf, -, hkernel⟩ := vmmWalk_kernel hreachable.inv rest hva
      rw [hkernel] at hw
      cases hw
      have huser := (hbits (L.address .kernelPdpt ||| 3) List.mem_cons_self).2.2
      rw [user_link] at huser
      cases huser
  · intro hlarge
    have hlarge' : U.programEnd - U.programStart > vmmPageSize2m := by
      rw [gt_iff_lt, UInt64.lt_iff_toNat_lt]
      exact hlarge
    exact if_pos hlarge'

/-- The pages behind the page tables. -/
def userLayoutFourMiB : UserLayout where
  codePage := 0x400000
  stackPage := 0x600000
  programStart := 0x300000
  programEnd := 0x300040
  code_aligned := rfl
  stack_aligned := rfl
  pages_ne := by decide
  code_lt := by decide
  stack_lt := by decide
  start_le := by decide
  code_apart := by decide
  stack_apart := by decide

theorem userspace_image_fourMiB :
    ∃ s', userspaceInit vmmLayoutTwoMiB userLayoutFourMiB
        ⟨vmmInit vmmLayoutTwoMiB ⟨fun _ _ => 0, 0, 0⟩, fun a => UInt8.ofNat a, false⟩ = .ok s' ∧
      UserByte vmmLayoutTwoMiB s' (fun _ => 0) (userCodeVaddr.toNat + 5) 5 := by
  obtain ⟨s', hs', -, -, hbytes, -⟩ := (userspace_image (L := vmmLayoutTwoMiB)
    (U := userLayoutFourMiB)
    (s := ⟨vmmInit vmmLayoutTwoMiB ⟨fun _ _ => 0, 0, 0⟩, fun a => UInt8.ofNat a, false⟩)
    (.start ⟨_, rfl⟩)).1 (by decide)
  exact ⟨s', hs', (hbytes (fun _ => 0) 5 (by decide)).1⟩

/-! ## Entering user mode -/

theorem toUInt16_withAx (rax : UInt64) (ax : UInt16) : (withAx rax ax).toUInt16 = ax := by
  have hmask : (0xFFFFFFFFFFFF0000 : UInt64).toUInt16 = 0 := rfl
  rw [withAx, UInt64.toUInt16_or, UInt64.toUInt16_and, hmask, UInt16.and_zero, UInt16.zero_or,
    UInt16.toUInt16_toUInt64]

theorem or_and_flag (a b c : UInt64) : (a ||| b) &&& c = (a &&& c) ||| (b &&& c) := by
  apply UInt64.toBitVec_inj.mp
  simp only [UInt64.toBitVec_and, UInt64.toBitVec_or, BitVec.and_or_distrib_right]

theorem flagsAfterXor_nestedTask (adjust : Bool) (rflags : UInt64) :
    flagsAfterXor adjust rflags &&& flagNestedTask = rflags &&& flagNestedTask := by
  have hkept : (0xFFFFFFFFFFFFF72A : UInt64) &&& flagNestedTask = flagNestedTask := by decide
  have hset : (0x44 : UInt64) &&& flagNestedTask = 0 := by decide
  have hadjust : (if adjust then 0x10 else 0 : UInt64) &&& flagNestedTask = 0 := by
    cases adjust <;> decide
  rw [flagsAfterXor, or_and_flag, or_and_flag, hadjust, hset,
    UInt64.and_assoc, hkept, UInt64.or_zero, UInt64.or_zero]

section Enter

variable (ops : EnterOperands) (cpu : Cpu Reg) (entry stackTop : UInt64)

theorem EnterOperands.reg_load :
    (ops.load cpu entry stackTop).reg ops.cs = userRing3Cs.toUInt64 ∧
      (ops.load cpu entry stackTop).reg ops.stack = stackTop ∧
      (ops.load cpu entry stackTop).reg ops.entry = entry ∧
      ∀ r, r ∉ [.rax, ops.cs, ops.stack, ops.entry] →
        (ops.load cpu entry stackTop).reg r = cpu.reg r := by
  have hnodup := ops.nodup
  simp only [List.nodup_cons, List.mem_cons, List.not_mem_nil, or_false, not_or] at hnodup
  obtain ⟨-, ⟨hstack, hentry⟩, hlast, -⟩ := hnodup
  refine ⟨?_, ?_, ?_, fun r hr => ?_⟩
  · simp only [load, Cpu.setReg, Function.update_of_ne hstack, Function.update_of_ne hentry,
      Function.update_self]
  · simp only [load, Cpu.setReg, Function.update_of_ne hlast, Function.update_self]
  · simp only [load, Cpu.setReg, Function.update_self]
  · simp only [List.mem_cons, List.not_mem_nil, or_false, not_or] at hr
    obtain ⟨-, hcs, hstack', hentry'⟩ := hr
    simp only [load, Cpu.setReg, Function.update_of_ne hcs, Function.update_of_ne hstack',
      Function.update_of_ne hentry']

theorem EnterOperands.ne_rax {r : Reg} (h : r ∈ [ops.cs, ops.stack, ops.entry]) : r ≠ .rax := by
  rintro rfl
  exact (List.nodup_cons.mp ops.nodup).1 h

/-- The registers of the program at its start. -/
def enterRegs : Reg → UInt64 :=
  Function.update (ops.load cpu entry stackTop).reg .rax userRing3Ds.toUInt64

variable {cpu}

theorem userspaceEnter_eq (adjust : Bool) (hroom : 40 ≤ cpu.sp.toNat) {rflags : UInt64}
    (htask : rflags &&& flagNestedTask = 0) :
    userspaceEnter ops adjust cpu rflags entry stackTop =
      some ({ reg := enterRegs ops cpu entry stackTop, rip := entry, cs := userRing3Cs,
              rflags := pushedFlags (flagsAfterXor adjust rflags), rsp := stackTop,
              ss := userRing3Ds }, userRing3Ds) := by
  have hrax : ∀ (c : Cpu Reg) (a b : UInt64), (c.setReg .rax a).setReg .rax b = c.setReg .rax b :=
    fun c a b => by simp only [Cpu.setReg, Function.update_idem]
  have hzero : withAx 0 userRing3Ds = userRing3Ds.toUInt64 := by decide
  have hreg : ∀ r ∈ [ops.cs, ops.stack, ops.entry],
      ((ops.load cpu entry stackTop).setReg .rax userRing3Ds.toUInt64).reg r =
        (ops.load cpu entry stackTop).reg r :=
    fun r hr => Function.update_of_ne (ops.ne_rax hr) _ _
  obtain ⟨hcs, hstack, hentry, -⟩ := ops.reg_load cpu entry stackTop
  have hpushes : exec (fun _ _ => none) (enterCode ops (flagsAfterXor adjust rflags))
      ((ops.load cpu entry stackTop).setReg .rax userRing3Ds.toUInt64) =
        some (((ops.load cpu entry stackTop).setReg .rax userRing3Ds.toUInt64).pushAll
          [userRing3Ds.toUInt64, stackTop, pushedFlags (flagsAfterXor adjust rflags),
            userRing3Cs.toUInt64, entry]) := by
    have hcs' := (hreg ops.cs (by simp)).trans hcs
    have hstack' := (hreg ops.stack (by simp)).trans hstack
    have hentry' := (hreg ops.entry (by simp)).trans hentry
    simp only [enterCode, exec, Instr.exec, Option.bind_some, Cpu.pushAll, List.foldl_cons,
      List.foldl_nil, Cpu.reg_setReg_self, Cpu.reg_push, hcs', hstack', hentry']
  have hsp : 40 ≤ ((ops.load cpu entry stackTop).setReg .rax userRing3Ds.toUInt64).sp.toNat := hroom
  have hiret := iretq_pushAll hsp userRing3Ds.toUInt64 stackTop
    (pushedFlags (flagsAfterXor adjust rflags)) userRing3Cs.toUInt64 entry
  unfold userspaceEnter
  simp only [flagsAfterXor_nestedTask, htask, ne_eq, not_true_eq_false, if_false,
    Cpu.reg_setReg_self, toUInt16_withAx, hrax, hzero, hpushes, Option.map_some, hiret]
  rfl

end Enter

theorem interruptStack_user {rsp0 : UInt64} {c : Context Reg} (huser : c.cs &&& 3 = 3)
    (haligned : rsp0.toNat % 16 = 0) : (interruptStack rsp0 c).toNat = rsp0.toNat := by
  have hlt := rsp0.toNat_lt
  have hring : ¬ c.cs &&& 3 = 0 := by
    rw [huser]
    decide
  have hmask : (0xFFFFFFFFFFFFFFF0 : UInt64).toNat = (2 ^ 60 - 1) * 2 ^ 4 := rfl
  rw [interruptStack, if_neg hring, toNat_and_fieldMask rsp0 hmask]
  omega

/-- Whatever the kernel was doing, `userspace_run_demo` enters the program once: at its first
byte, with an empty stack, at privilege level 3 on segments that the processor can load; and
the next interrupt finds its stack at the end of `tss_stack`. -/
theorem userspace_enter (ops : EnterOperands) (adjust : Bool) (cpu : Cpu Reg)
    (rflags tssAddress tssStack : UInt64) (g : GdtState) (s : UserspaceState)
    (hroom : 40 ≤ cpu.sp.toNat) (htask : rflags &&& flagNestedTask = 0)
    (haligned : tssStack.toNat % 16 = 0) (hstack : tssStack.toNat + 8192 < 2 ^ 64) :
    (s.running = true → (userspaceRunDemo ops adjust s cpu rflags).2 = (s, none)) ∧
    (s.running = false →
      (userspaceRunDemo ops adjust s cpu rflags).2.1 = { s with running := true } ∧
      ∃ c data, (userspaceRunDemo ops adjust s cpu rflags).2.2 = some (c, data) ∧
        c.rip = userCodeVaddr ∧ c.rsp = userStackTop ∧
        c.rflags = pushedFlags (flagsAfterXor adjust rflags) ∧
        c.reg .rax = userRing3Ds.toUInt64 ∧ c.reg ops.cs = userRing3Cs.toUInt64 ∧
        c.reg ops.stack = userStackTop ∧ c.reg ops.entry = userCodeVaddr ∧
        (∀ r, r ∉ [.rax, ops.cs, ops.stack, ops.entry] → c.reg r = cpu.reg r) ∧
        c.cs &&& 3 = 3 ∧ LoadsCode (gdtInit tssAddress tssStack g).gdtEntries c.cs ∧
        LoadsData (gdtInit tssAddress tssStack g).gdtEntries c.ss ∧
        LoadsData (gdtInit tssAddress tssStack g).gdtEntries data ∧
        (interruptStack (UInt64.ofNat ((gdtInit tssAddress tssStack g).tss.load 8 Tss.rsp0))
          c).toNat = tssStack.toNat + 8192) := by
  constructor
  · intro hrunning
    simp only [userspaceRunDemo, hrunning, if_true]
  · intro hrunning
    obtain ⟨-, -, hcode, hdata⟩ := loads_gdtInit tssAddress tssStack g
    have hrsp0 : (tssStack + tssStackSize).toNat = tssStack.toNat + 8192 := by
      rw [UInt64.toNat_add]
      exact Nat.mod_eq_of_lt hstack
    have hring : userRing3Cs &&& 3 = 3 := by decide
    have hrun : (userspaceRunDemo ops adjust s cpu rflags).2 = ({ s with running := true },
        userspaceEnter ops adjust cpu rflags userCodeVaddr userStackTop) := by
      simp only [userspaceRunDemo, hrunning, Bool.false_eq_true, if_false]
    obtain ⟨hcs, hstackReg, hentry, hothers⟩ := ops.reg_load cpu userCodeVaddr userStackTop
    have hkept : ∀ r, r ≠ .rax → enterRegs ops cpu userCodeVaddr userStackTop r =
        (ops.load cpu userCodeVaddr userStackTop).reg r :=
      fun r hr => Function.update_of_ne hr _ _
    rw [hrun, userspaceEnter_eq ops userCodeVaddr userStackTop adjust hroom htask]
    have hrax : enterRegs ops cpu userCodeVaddr userStackTop .rax = userRing3Ds.toUInt64 :=
      Function.update_self _ _ _
    refine ⟨rfl, _, _, rfl, rfl, rfl, rfl, hrax, ?_, ?_, ?_,
      fun r hr => ?_, hring, hcode, hdata, hdata, ?_⟩
    · exact (hkept _ (ops.ne_rax (by simp))).trans hcs
    · exact (hkept _ (ops.ne_rax (by simp))).trans hstackReg
    · exact (hkept _ (ops.ne_rax (by simp))).trans hentry
    · exact (hkept r fun h => hr (h ▸ List.mem_cons_self)).trans (hothers r hr)
    · rw [(tss_gdtInit tssAddress tssStack g).2, UInt64.ofNat_toNat,
        interruptStack_user hring (by omega), hrsp0]

/-- The operands in `rdx`, `rcx` and `rsi`. -/
def enterOperands : EnterOperands := ⟨.rdx, .rcx, .rsi, by decide⟩

/-- From a kernel stack at 1 MiB, with the interrupts on. -/
theorem userspace_enter_oneMiB :
    ∃ c data, (userspaceRunDemo enterOperands false
        ⟨vmmInit vmmLayoutTwoMiB ⟨fun _ _ => 0, 0, 0⟩, fun _ => 0, false⟩
        ⟨fun _ => 0, 0x100000, fun _ => 0⟩ 0x202).2.2 = some (c, data) ∧
      c.rip = userCodeVaddr ∧ c.rflags = 0x246 := by
  obtain ⟨-, c, data, hc, hrip, -, hflags, -⟩ := (userspace_enter enterOperands false
    ⟨fun _ => 0, 0x100000, fun _ => 0⟩ 0x202 0x110000 0x120000 ⟨fun _ => 0, fun _ => 0⟩
    ⟨vmmInit vmmLayoutTwoMiB ⟨fun _ _ => 0, 0, 0⟩, fun _ => 0, false⟩ (by decide) (by decide)
    (by decide) (by decide)).2 rfl
  exact ⟨c, data, hc, hrip, hflags⟩

end AcharyaOS.Userspace
