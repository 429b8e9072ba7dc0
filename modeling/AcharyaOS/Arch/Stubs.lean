import AcharyaOS.Foundation.StackMachine

/-!
# Interrupt stubs

`kernel/arch/x86_64/isr_stubs.S` with the frame of `kernel/include/idt.h`.  A stub saves what
an interrupt suspends in an `interrupt_frame_t`, hands the frame to `idt_dispatch` and goes on
with what it finds there afterwards.
-/

namespace AcharyaOS.Arch

open Foundation Foundation.StackMachine

/-! ## The code -/

inductive Reg
  | rax | rbx | rcx | rdx | rbp | rdi | rsi
  | r8 | r9 | r10 | r11 | r12 | r13 | r14 | r15
  deriving DecidableEq

inductive Callee
  | idtDispatch

abbrev StubCode := List (Instr Reg Callee)

/-- The label `isr_common` up to its `iretq`; `ret` is the address behind the call. -/
def isrCommon (ret : UInt64) : StubCode :=
  [.pushReg .rax, .pushReg .rbx, .pushReg .rcx, .pushReg .rdx, .pushReg .rbp, .pushReg .rdi,
    .pushReg .rsi, .pushReg .r8, .pushReg .r9, .pushReg .r10, .pushReg .r11, .pushReg .r12,
    .pushReg .r13, .pushReg .r14, .pushReg .r15,
    .movSp .rdi, .call .idtDispatch ret,
    .popReg .r15, .popReg .r14, .popReg .r13, .popReg .r12, .popReg .r11, .popReg .r10,
    .popReg .r9, .popReg .r8, .popReg .rsi, .popReg .rdi, .popReg .rbp, .popReg .rdx,
    .popReg .rcx, .popReg .rbx, .popReg .rax,
    .addSp 16]

/-- `ISR_NOERR`. -/
def isrNoErr (ret : UInt64) (vector : UInt8) : StubCode :=
  .pushImm 0 :: .pushImm vector.toUInt64 :: isrCommon ret

/-- `ISR_ERR`. -/
def isrErr (ret : UInt64) (vector : UInt8) : StubCode :=
  .pushImm vector.toUInt64 :: isrCommon ret

/-- The vectors whose stubs are made with `ISR_ERR`. -/
def isrErrVectors : List UInt8 := [8, 10, 11, 12, 13, 14, 17, 29, 30]

/-- The vectors that have a stub. -/
def HasStub (vector : UInt8) : Prop := vector < 48 ∨ vector = 128

instance (vector : UInt8) : Decidable (HasStub vector) := inferInstanceAs (Decidable (_ ∨ _))

/-- `isr_stub_n` for one of these vectors. -/
def isrStub (ret : UInt64) (vector : UInt8) : StubCode :=
  if vector ∈ isrErrVectors then isrErr ret vector else isrNoErr ret vector

/-! ## The frame -/

/-- `interrupt_frame_t`, with its general registers as one field. -/
structure InterruptFrame where
  reg : Reg → UInt64
  vector : UInt64
  errorCode : UInt64
  rip : UInt64
  cs : UInt64
  rflags : UInt64
  rsp : UInt64
  ss : UInt64

/-- The general registers in the order of the structure's fields. -/
def frameRegs : List Reg :=
  [.r15, .r14, .r13, .r12, .r11, .r10, .r9, .r8, .rsi, .rdi, .rbp, .rdx, .rcx, .rbx, .rax]

def frameSize : Nat := 176

namespace InterruptFrame

/-- The frame that a pointer points to. -/
def read (m : Memory) (a : Nat) : InterruptFrame where
  reg r := word m (a + 8 * frameRegs.idxOf r)
  vector := word m (a + 120)
  errorCode := word m (a + 128)
  rip := word m (a + 136)
  cs := word m (a + 144)
  rflags := word m (a + 152)
  rsp := word m (a + 160)
  ss := word m (a + 168)

/-- The fields of a frame in their order. -/
def words (frame : InterruptFrame) : List UInt64 :=
  frameRegs.map frame.reg ++
    [frame.vector, frame.errorCode, frame.rip, frame.cs, frame.rflags, frame.rsp, frame.ss]

theorem read_eq {m : Memory} {a : Nat} {frame : InterruptFrame}
    (h : ∀ i w, frame.words[i]? = some w → word m (a + 8 * i) = w) : read m a = frame := by
  have hreg : ∀ r, word m (a + 8 * frameRegs.idxOf r) = frame.reg r := by
    intro r
    apply h
    cases r <;> rfl
  cases frame
  rw [read, InterruptFrame.mk.injEq]
  exact ⟨funext hreg, h 15 _ rfl, h 16 _ rfl, h 17 _ rfl, h 18 _ rfl, h 19 _ rfl, h 20 _ rfl,
    h 21 _ rfl⟩

/-- What the end of a stub makes of a frame. -/
def context (frame : InterruptFrame) : Context Reg where
  reg := frame.reg
  rip := frame.rip
  cs := frame.cs.toUInt16
  rflags := frame.rflags
  rsp := frame.rsp
  ss := frame.ss.toUInt16

/-- The frame of an interrupt: the suspended context, the vector, and the error code or zero. -/
def suspend (c : Context Reg) (vector : UInt8) (errorCode : Option UInt64) :
    InterruptFrame where
  reg := c.reg
  vector := vector.toUInt64
  errorCode := errorCode.getD 0
  rip := c.rip
  cs := c.cs.toUInt64
  rflags := c.rflags
  rsp := c.rsp
  ss := c.ss.toUInt64

theorem context_suspend (c : Context Reg) (vector : UInt8) (errorCode : Option UInt64) :
    (suspend c vector errorCode).context = c := by
  simp [suspend, context]

end InterruptFrame

/-! ## Running a stub -/

/-- The compiled `idt_dispatch`; `none` where it does not return. -/
abbrev DispatchCode := Cpu Reg → Option (Cpu Reg)

/-- The processor takes an interrupt on a stack, runs the stub and returns from the
interrupt. -/
def runStub (code : DispatchCode) (ret : UInt64) (vector : UInt8) (c : Context Reg) (m : Memory)
    (stack : UInt64) (errorCode : Option UInt64) : Option (Context Reg × Memory) :=
  (exec (fun _ => code) (isrStub ret vector) (enter c m stack errorCode)).map
    fun s => (iretq s, s.mem)

/-- The code does to the frame that `rdi` points to, above its return address, what `f` says,
and returns with the stack as it was; where `f` has no frame it does not return. -/
structure Implements (f : InterruptFrame → Option InterruptFrame) (code : DispatchCode) :
    Prop where
  run : ∀ s : Cpu Reg, s.sp.toNat + 8 ≤ (s.reg .rdi).toNat →
    (s.reg .rdi).toNat + frameSize ≤ 2 ^ 64 →
    match f (InterruptFrame.read s.mem (s.reg .rdi).toNat) with
    | none => code s = none
    | some frame => ∃ s', code s = some s' ∧ s'.sp = s.sp ∧ s'.top = s.top ∧
        InterruptFrame.read s'.mem (s.reg .rdi).toNat = frame

/-- The words that the processor and a stub push, in their order. -/
def frameWords (c : Context Reg) (vector : UInt8) (errorCode : Option UInt64) : List UInt64 :=
  [c.ss.toUInt64, c.rsp, c.rflags, c.cs.toUInt64, c.rip, errorCode.getD 0, vector.toUInt64] ++
    frameRegs.reverse.map c.reg

/-- The processor with a complete frame on its stack. -/
def framed (c : Context Reg) (m : Memory) (stack : UInt64) (vector : UInt8)
    (errorCode : Option UInt64) : Cpu Reg :=
  ({ reg := c.reg, sp := stack, mem := m } : Cpu Reg).pushAll (frameWords c vector errorCode)

/-- The state in which `idt_dispatch` begins. -/
def atDispatch (ret : UInt64) (c : Context Reg) (m : Memory) (stack : UInt64) (vector : UInt8)
    (errorCode : Option UInt64) : Cpu Reg :=
  let s := framed c m stack vector errorCode
  (s.setReg .rdi s.sp).push ret

section Stub

variable (c : Context Reg) (m : Memory) (vector : UInt8) {stack : UInt64}
  (errorCode : Option UInt64)

theorem length_frameWords : (frameWords c vector errorCode).length = 22 := rfl

/-- `isr_common` once the registers are saved. -/
def isrTail (ret : UInt64) : StubCode :=
  [.movSp .rdi, .call .idtDispatch ret] ++ (frameRegs.map .popReg ++ [.addSp 16])

theorem isrCommon_eq (ret : UInt64) :
    isrCommon ret = frameRegs.reverse.map .pushReg ++ isrTail ret := rfl

theorem exec_isrCommon (code : DispatchCode) (ret : UInt64) (s : Cpu Reg) :
    exec (fun _ => code) (isrCommon ret) s =
      exec (fun _ => code) (isrTail ret) (s.pushAll (frameRegs.reverse.map s.reg)) := by
  rw [isrCommon_eq, exec_append, exec_pushes, Option.bind_some]

/-- The two kinds of stubs leave the same words: a missing error code is replaced by zero. -/
theorem exec_isrStub (code : DispatchCode) (ret : UInt64)
    (herror : errorCode.isSome ↔ vector ∈ isrErrVectors) :
    exec (fun _ => code) (isrStub ret vector) (enter c m stack errorCode) =
      exec (fun _ => code) (isrTail ret) (framed c m stack vector errorCode) := by
  unfold isrStub
  split
  case isTrue hmem =>
    obtain ⟨e, rfl⟩ := Option.isSome_iff_exists.mp (herror.mpr hmem)
    let s := (enter c m stack (some e)).push vector.toUInt64
    have hpush : exec (fun _ => code) (isrErr ret vector) (enter c m stack (some e)) =
        exec (fun _ => code) (isrCommon ret) s := Option.bind_some _ _
    have hframed : framed c m stack vector (some e) =
        s.pushAll (frameRegs.reverse.map s.reg) := by
      simp only [s, framed, frameWords, enter, Context.entryWords, Cpu.pushAll, Cpu.reg_push,
        List.foldl_append, List.foldl_cons, List.foldl_nil, Option.toList, Option.getD]
    rw [hpush, exec_isrCommon, hframed]
  case isFalse hmem =>
    have hnone : errorCode = none := Option.not_isSome_iff_eq_none.mp (mt herror.mp hmem)
    let s := ((enter c m stack none).push 0).push vector.toUInt64
    have hpush : exec (fun _ => code) (isrNoErr ret vector) (enter c m stack none) =
        exec (fun _ => code) (isrCommon ret) s :=
      (Option.bind_some _ _).trans (Option.bind_some _ _)
    have hframed : framed c m stack vector none =
        s.pushAll (frameRegs.reverse.map s.reg) := by
      simp only [s, framed, frameWords, enter, Context.entryWords, Cpu.pushAll, Cpu.reg_push,
        List.foldl_append, List.foldl_cons, List.foldl_nil, Option.toList, Option.getD]
    rw [hnone, hpush, exec_isrCommon, hframed]

/-! ## The frame on the stack -/

section Framed

variable (hroom : 184 ≤ stack.toNat)

include hroom

theorem toNat_sp_framed :
    (framed c m stack vector errorCode).sp.toNat = stack.toNat - frameSize := by
  have hsp : (framed c m stack vector errorCode).sp.toNat =
      stack.toNat - 8 * (frameWords c vector errorCode).length :=
    Cpu.toNat_sp_pushAll (by rw [length_frameWords]; show 8 * 22 ≤ stack.toNat; omega)
  rw [hsp, length_frameWords, frameSize]

theorem outside_framed :
    Memory.Outside m (framed c m stack vector errorCode).mem (stack.toNat - frameSize)
      frameSize := by
  let s : Cpu Reg := { reg := c.reg, sp := stack, mem := m }
  exact @Cpu.outside_pushAll Reg s (frameWords c vector errorCode)
    (by rw [length_frameWords]; show 8 * 22 ≤ stack.toNat; omega)

theorem word_framed {i : Nat} {w : UInt64} (hw : (frameWords c vector errorCode)[i]? = some w) :
    word (framed c m stack vector errorCode).mem (stack.toNat - frameSize + 8 * (21 - i)) = w := by
  let s : Cpu Reg := { reg := c.reg, sp := stack, mem := m }
  obtain ⟨hi, rfl⟩ := List.getElem?_eq_some_iff.mp hw
  have hword := @Cpu.word_pushAll Reg s (frameWords c vector errorCode)
    (by rw [length_frameWords]; show 8 * 22 ≤ stack.toNat; omega) i hi
  rw [length_frameWords] at hi
  have hplace : stack.toNat - frameSize + 8 * (21 - i) = s.sp.toNat - 8 * (i + 1) := by
    show stack.toNat - frameSize + 8 * (21 - i) = stack.toNat - 8 * (i + 1)
    rw [frameSize]
    omega
  rw [hplace]
  exact hword

theorem read_framed :
    InterruptFrame.read (framed c m stack vector errorCode).mem (stack.toNat - frameSize) =
      InterruptFrame.suspend c vector errorCode := by
  apply InterruptFrame.read_eq
  intro i w hw
  have hi : i < 22 := (List.getElem?_eq_some_iff.mp hw).1
  have hreverse : (InterruptFrame.suspend c vector errorCode).words =
      (frameWords c vector errorCode).reverse := rfl
  rw [hreverse, List.getElem?_reverse (by rw [length_frameWords]; exact hi),
    length_frameWords] at hw
  have hword := word_framed c m vector errorCode hroom hw
  have hplace : 21 - (22 - 1 - i) = i := by omega
  rwa [hplace] at hword

/-! ## The call -/

variable (ret : UInt64)

theorem toNat_rdi_atDispatch :
    ((atDispatch ret c m stack vector errorCode).reg .rdi).toNat = stack.toNat - frameSize := by
  rw [atDispatch, Cpu.reg_push, Cpu.reg_setReg_self, toNat_sp_framed c m vector errorCode hroom]

theorem toNat_sp_atDispatch :
    (atDispatch ret c m stack vector errorCode).sp.toNat = stack.toNat - 184 := by
  have hsp := toNat_sp_framed c m vector errorCode hroom
  rw [frameSize] at hsp
  rw [atDispatch, Cpu.toNat_sp_push ret (by rw [Cpu.sp_setReg]; omega), Cpu.sp_setReg]
  omega

theorem outside_call :
    Memory.Outside (framed c m stack vector errorCode).mem
      (atDispatch ret c m stack vector errorCode).mem (stack.toNat - 184) 8 := by
  have hsp := toNat_sp_framed c m vector errorCode hroom
  rw [frameSize] at hsp
  have hplace : stack.toNat - 184 = (framed c m stack vector errorCode).sp.toNat - 8 := by omega
  have hpush := Cpu.outside_push ret
    (c := (framed c m stack vector errorCode).setReg .rdi (framed c m stack vector errorCode).sp)
    (by rw [Cpu.sp_setReg]; omega)
  rw [Cpu.sp_setReg, Cpu.mem_setReg] at hpush
  rw [atDispatch, hplace]
  exact hpush

theorem read_atDispatch :
    InterruptFrame.read (atDispatch ret c m stack vector errorCode).mem
        ((atDispatch ret c m stack vector errorCode).reg .rdi).toNat =
      InterruptFrame.suspend c vector errorCode := by
  have hout := outside_call c m vector errorCode hroom ret
  have hword : ∀ k, word (atDispatch ret c m stack vector errorCode).mem
      (stack.toNat - frameSize + k) =
        word (framed c m stack vector errorCode).mem (stack.toNat - frameSize + k) := by
    intro k
    apply word_of_outside hout
    rw [frameSize]
    omega
  rw [toNat_rdi_atDispatch c m vector errorCode hroom ret, ← read_framed c m vector errorCode hroom]
  simp only [InterruptFrame.read, hword]

/-- An interrupt writes to the part of its stack that it takes, and nowhere else. -/
theorem outside_atDispatch :
    Memory.Outside m (atDispatch ret c m stack vector errorCode).mem (stack.toNat - 184) 184 := by
  intro b hb
  have hcall := outside_call c m vector errorCode hroom ret b (by omega)
  have hframe := outside_framed c m vector errorCode hroom b
    (by rw [frameSize]; omega)
  rw [hcall, hframe]

end Framed

end Stub

/-! ## The way back -/

theorem nodup_frameRegs : frameRegs.Nodup := by decide

theorem idxOf_frameRegs_lt (r : Reg) : frameRegs.idxOf r < frameRegs.length := by
  cases r <;> decide

theorem iretq_popAll {s : Cpu Reg} (hroom : s.sp.toNat + frameSize ≤ 2 ^ 64) :
    iretq ((s.popAll frameRegs).release 16) =
      (InterruptFrame.read s.mem s.sp.toNat).context := by
  rw [frameSize] at hroom
  have hlength : frameRegs.length = 15 := rfl
  have hpop : (s.popAll frameRegs).sp.toNat = s.sp.toNat + 8 * frameRegs.length :=
    Cpu.toNat_sp_popAll (by omega)
  have hsp : ((s.popAll frameRegs).release 16).sp.toNat = s.sp.toNat + 136 := by
    have hrelease : ((s.popAll frameRegs).release 16).sp.toNat =
        (s.popAll frameRegs).sp.toNat + 16 :=
      Cpu.toNat_sp_release (by rw [hpop, hlength]; simp only [UInt64.reduceToNat]; omega)
    omega
  have hmem : ((s.popAll frameRegs).release 16).mem = s.mem := Cpu.mem_popAll s frameRegs
  have hreg : ∀ r, (s.popAll frameRegs).reg r = word s.mem (s.sp.toNat + 8 * frameRegs.idxOf r) := by
    intro r
    have hpopped := Cpu.reg_popAll (c := s) nodup_frameRegs (by omega) (idxOf_frameRegs_lt r)
    rwa [List.getElem_idxOf] at hpopped
  rw [iretq, hsp, hmem, InterruptFrame.context, InterruptFrame.read, Context.mk.injEq]
  exact ⟨funext hreg, rfl, rfl, rfl, rfl, rfl⟩

theorem exec_isrTail (code : DispatchCode) (ret : UInt64) (s : Cpu Reg) :
    exec (fun _ => code) (isrTail ret) s =
      (code ((s.setReg .rdi s.sp).push ret)).bind fun s' =>
        if s'.top = ret then some (((s'.release 8).popAll frameRegs).release 16) else none := by
  have hpops : ∀ s' : Cpu Reg,
      exec (fun _ => code) (frameRegs.map .popReg ++ [.addSp 16] : StubCode) s' =
        some ((s'.popAll frameRegs).release 16) := by
    intro s'
    rw [exec_append, exec_pops, Option.bind_some, exec, Instr.exec, Option.bind_some, exec]
  have hcall : exec (fun _ => code) ([.movSp .rdi, .call .idtDispatch ret] : StubCode) s =
      (code ((s.setReg .rdi s.sp).push ret)).bind fun s' =>
        if s'.top = ret then some (s'.release 8) else none := by
    simp only [exec, Instr.exec, Option.bind_some, Option.bind_eq_bind, Option.bind_fun_some]
  rw [isrTail, exec_append, hcall, Option.bind_assoc]
  refine congrArg _ (funext fun s' => ?_)
  split
  · rw [Option.bind_some, hpops]
  · rfl

theorem runStub_eq (code : DispatchCode) (ret : UInt64) {vector : UInt8} (c : Context Reg)
    (m : Memory) (stack : UInt64) {errorCode : Option UInt64}
    (herror : errorCode.isSome ↔ vector ∈ isrErrVectors) :
    runStub code ret vector c m stack errorCode =
      ((code (atDispatch ret c m stack vector errorCode)).bind fun s' => if s'.top = ret then
        some (((s'.release 8).popAll frameRegs).release 16) else none).map
          fun s' => (iretq s', s'.mem) := by
  rw [runStub, exec_isrStub c m vector errorCode code ret herror, exec_isrTail]
  rfl

theorem runStub_mem {code : DispatchCode} {ret : UInt64} {vector : UInt8} {c : Context Reg}
    {m : Memory} {stack : UInt64} {errorCode : Option UInt64}
    (herror : errorCode.isSome ↔ vector ∈ isrErrVectors) {r : Context Reg × Memory}
    (h : runStub code ret vector c m stack errorCode = some r) :
    ∃ s', code (atDispatch ret c m stack vector errorCode) = some s' ∧ s'.mem = r.2 := by
  rw [runStub_eq code ret c m stack herror, Option.map_eq_some_iff] at h
  obtain ⟨t, ht, rfl⟩ := h
  obtain ⟨s', hs', hback⟩ := Option.bind_eq_some_iff.mp ht
  split at hback
  · cases hback
    exact ⟨s', hs', (Cpu.mem_popAll (s'.release 8) frameRegs).symm⟩
  · cases hback

/-- A stub makes of an interrupt what `idt_dispatch` makes of its frame: the context that
goes on is the one the changed frame describes. -/
theorem runStub_context {f : InterruptFrame → Option InterruptFrame} {code : DispatchCode}
    (hcode : Implements f code) (ret : UInt64) {vector : UInt8} (c : Context Reg) (m : Memory)
    {stack : UInt64} {errorCode : Option UInt64} (hroom : 184 ≤ stack.toNat)
    (herror : errorCode.isSome ↔ vector ∈ isrErrVectors) :
    (runStub code ret vector c m stack errorCode).map Prod.fst =
      (f (InterruptFrame.suspend c vector errorCode)).map InterruptFrame.context := by
  have hstack := stack.toNat_lt
  let s := atDispatch ret c m stack vector errorCode
  have hrdi : (s.reg .rdi).toNat = stack.toNat - frameSize :=
    toNat_rdi_atDispatch c m vector errorCode hroom ret
  have hsp : s.sp.toNat = stack.toNat - 184 := toNat_sp_atDispatch c m vector errorCode hroom ret
  have hread : InterruptFrame.read s.mem (s.reg .rdi).toNat =
      InterruptFrame.suspend c vector errorCode :=
    read_atDispatch c m vector errorCode hroom ret
  have hrun := runStub_eq code ret c m stack herror
  have hfit : s.sp.toNat + 8 ≤ (s.reg .rdi).toNat ∧
      (s.reg .rdi).toNat + frameSize ≤ 2 ^ 64 := by
    rw [hrdi, hsp, frameSize]
    omega
  have hdone := hcode.run s hfit.1 hfit.2
  rw [hread] at hdone
  cases hframe : f (InterruptFrame.suspend c vector errorCode) with
  | none =>
      rw [hframe] at hdone
      rw [hrun, hdone]
      rfl
  | some frame =>
      rw [hframe] at hdone
      obtain ⟨s', hs', hsp', htop, hfinal⟩ := hdone
      have htop' : s'.top = ret := htop.trans (Cpu.top_push _ ret)
      have hrelease : (s'.release 8).sp.toNat = (s.reg .rdi).toNat := by
        have hadd : (s'.release 8).sp.toNat = s'.sp.toNat + 8 :=
          Cpu.toNat_sp_release (by rw [hsp', hsp]; simp only [UInt64.reduceToNat]; omega)
        rw [hadd, hsp', hsp, hrdi, frameSize]
        omega
      have hback := iretq_popAll (s := s'.release 8) (by omega)
      rw [hrelease] at hback
      rw [hrun, hs', Option.bind_some, if_pos htop', Option.map_some, Option.map_some,
        Option.map_some, hback]
      exact congrArg (fun g => some g.context) hfinal

/-! ## A function on frames as code -/

/-- Code that writes the changed frame back to where it found it. -/
def compiled (f : InterruptFrame → Option InterruptFrame) : DispatchCode := fun s =>
  (f (InterruptFrame.read s.mem (s.reg .rdi).toNat)).map fun frame =>
    { s with mem := storeWords s.mem (s.reg .rdi).toNat frame.words }

theorem read_storeWords (m : Memory) (a : Nat) (frame : InterruptFrame) :
    InterruptFrame.read (storeWords m a frame.words) a = frame := by
  apply InterruptFrame.read_eq
  intro i w hw
  obtain ⟨hi, rfl⟩ := List.getElem?_eq_some_iff.mp hw
  exact word_storeWords m a hi

theorem implements_compiled (f : InterruptFrame → Option InterruptFrame) :
    Implements f (compiled f) := by
  constructor
  intro s hframe _
  cases hf : f (InterruptFrame.read s.mem (s.reg .rdi).toNat) with
  | none =>
      show (f _).map _ = none
      rw [hf]
      rfl
  | some frame =>
      refine ⟨{ s with mem := storeWords s.mem (s.reg .rdi).toNat frame.words }, ?_, rfl, ?_,
        read_storeWords s.mem (s.reg .rdi).toNat frame⟩
      · show (f _).map _ = _
        rw [hf]
        rfl
      · exact word_of_outside (outside_storeWords s.mem _ frame.words) (.inl hframe)

/-! ## Interrupts leave what they suspend to their handler -/

/-- For every interrupt, `idt_dispatch` is given a frame with all that the interrupt suspends,
and what it leaves in the frame is what goes on.  Apart from what `idt_dispatch` writes itself,
memory changes in no other place than the part of the stack below its top. -/
theorem interrupt_frame_round_trip {f : InterruptFrame → Option InterruptFrame}
    {code : DispatchCode} (hcode : Implements f code) (ret : UInt64) {vector : UInt8}
    (c : Context Reg) (m : Memory) {stack : UInt64} {errorCode : Option UInt64}
    (hroom : 184 ≤ stack.toNat) (herror : errorCode.isSome ↔ vector ∈ isrErrVectors) :
    (runStub code ret vector c m stack errorCode).map Prod.fst =
        (f (InterruptFrame.suspend c vector errorCode)).map InterruptFrame.context ∧
      (f (InterruptFrame.suspend c vector errorCode) =
          some (InterruptFrame.suspend c vector errorCode) →
        (runStub code ret vector c m stack errorCode).map Prod.fst = some c) ∧
      ∀ r, runStub code ret vector c m stack errorCode = some r →
        ∃ s s', code s = some s' ∧ s'.mem = r.2 ∧
          InterruptFrame.read s.mem (s.reg .rdi).toNat =
            InterruptFrame.suspend c vector errorCode ∧
          Memory.Outside m s.mem (stack.toNat - 184) 184 := by
  have hcontext := runStub_context hcode ret c m hroom herror
  refine ⟨hcontext, fun hsame => ?_, fun r hr => ?_⟩
  · rw [hcontext, hsame, Option.map_some, InterruptFrame.context_suspend]
  · obtain ⟨s', hs', hmem⟩ := runStub_mem herror hr
    exact ⟨_, s', hs', hmem, read_atDispatch c m vector errorCode hroom ret,
      outside_atDispatch c m vector errorCode hroom ret⟩

/-- A page fault, with an error code, whose handler leaves the frame alone. -/
theorem interrupt_frame_round_trip_pageFault :
    (runStub (compiled some) 0 14 ⟨fun _ => 5, 0x8000000000, 0x1B, 0x202, 0x8000200000, 0x23⟩
      (fun _ => 0) 0x10000 (some 6)).map Prod.fst =
        some ⟨fun _ => 5, 0x8000000000, 0x1B, 0x202, 0x8000200000, 0x23⟩ :=
  (interrupt_frame_round_trip (implements_compiled some) 0 _ _ (by decide)
    (iff_of_true rfl (by decide))).2.1 rfl

end AcharyaOS.Arch
