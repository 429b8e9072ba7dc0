import AcharyaOS.Arch.Descriptors
import AcharyaOS.Arch.Stubs
import AcharyaOS.Foundation.Run
import AcharyaOS.Log.Console
import AcharyaOS.Syscall.Privilege
import Mathlib.Data.List.Induction

/-!
# Interrupts

The tables of `idt.c`, the calls that fill them, and the way of an interrupt from the gate the
processor finds through the stub to the registered handler and back.
-/

namespace AcharyaOS.Arch

open Foundation Foundation.Run Foundation.StackMachine Log

/-! ## `idt.c` -/

/-- The functions that drivers and `syscall.c` register. -/
inductive Handler
  | keyboardInterruptHandler
  | mouseInterruptHandler
  | timerInterruptHandler
  | syscallDispatch
  deriving DecidableEq

/-- The static variables of `idt.c`, with the memory of `idt` from its first byte on. -/
structure IdtState where
  idt : Memory
  handlers : UInt8 → Option Handler

def idtEntryCount : Nat := 256

def idtPresent : UInt8 := 0x80

def idtGateInt64 : UInt8 := 0x0E

def idtIrqBase : UInt64 := 32

/-- The linked addresses of the stubs. -/
abbrev StubAddress := UInt8 → UInt64

def idtInstallDefaultGates (stubs : StubAddress) (idt : Memory) : Memory :=
  let idt := forRange 48 (fun vector idt => idtInstallGate idt (UInt8.ofNat vector)
    (stubs (UInt8.ofNat vector)) (idtPresent ||| idtGateInt64)) idt
  idtInstallGate idt 128 (stubs 128) (idtPresent ||| idtGateInt64)

def idtRegisterHandler (s : IdtState) (vector : UInt8) (handler : Handler) : IdtState :=
  { s with handlers := Function.update s.handlers vector (some handler) }

/-- The body of the loop of `idt_init`. -/
def idtClearEntry (i : Nat) (s : IdtState) : IdtState where
  idt := s.idt.store idtEntrySize (idtEntrySize * i) 0
  handlers := Function.update s.handlers (UInt8.ofNat i) none

/-- `idt_init` up to the loading of the table. -/
def idtInit (stubs : StubAddress) (s : IdtState) : IdtState :=
  let s := forRange idtEntryCount idtClearEntry s
  { s with idt := idtInstallDefaultGates stubs s.idt }

def syscallVector : UInt8 := 128

def syscallGateAttr : UInt8 := 0xEE

/-- `syscall_init`. -/
def syscallInit (stubs : StubAddress) (s : IdtState) : IdtState :=
  idtRegisterHandler
    { s with idt := idtInstallGate s.idt syscallVector (stubs syscallVector) syscallGateAttr }
    syscallVector .syscallDispatch

/-- The functions that register a handler; the drivers' own registers are not part of this. -/
inductive InitCall
  | keyboardInit
  | mouseInit
  | timerInit
  | syscallInit
  deriving DecidableEq

def initStep (stubs : StubAddress) (s : IdtState) : InitCall → IdtState
  | .keyboardInit => idtRegisterHandler s 33 .keyboardInterruptHandler
  | .mouseInit => idtRegisterHandler s 44 .mouseInterruptHandler
  | .timerInit => idtRegisterHandler s 32 .timerInterruptHandler
  | .syscallInit => syscallInit stubs s

/-- What `idt_dispatch` does with a frame: it calls a handler, or prints, or panics and leaves
a log.  The text is `none` where `kprintf` is undefined. -/
inductive DispatchAction
  | handler (h : Handler)
  | warned (text : Option (List UInt8))
  | panicked (log : LogState) (text : Option (List UInt8))
  | outOfTable

/-- `kernel_panic(message)` until it halts, the timer at `tick`: the log that it leaves and its
calls of `kprintf`. -/
def kernelPanic (log : LogState) (tick : UInt64) (message : CString) :
    LogState × List (String × List Kio.FormatArg) :=
  (logWrite log tick logPanic message,
    logWritePrints log.minimumLevel tick logPanic message ++
      [("\n[PANIC] %s\n[PANIC] System halted.\n", [.str message])])

/-- "Unhandled CPU exception" -/
def unhandledException : CString := .read (asciiText "Unhandled CPU exception")

/-- `idt_dispatch(frame)`.  The gates have turned the interrupts off, and the timer stands. -/
def idtDispatch (handlers : UInt8 → Option Handler) (log : LogState) (tick : UInt64)
    (frame : InterruptFrame) : DispatchAction :=
  if frame.vector < 256 then
    match handlers frame.vector.toUInt8 with
    | some h => .handler h
    | none =>
      if frame.vector < idtIrqBase then
        let panic := kernelPanic log tick unhandledException
        .panicked panic.1 (Kio.kprintfAll
          (("\n[PANIC] Unhandled CPU exception vector %d, error %x\n",
            [.word frame.vector.toUInt32, .word frame.errorCode.toUInt32]) :: panic.2))
      else
        .warned (Kio.kprintfLit "[warn] Unhandled IRQ vector %d\n" [.word frame.vector.toUInt32])
  else .outOfTable

/-! ## The handlers on the frame -/

/-- The registers that `syscall_dispatch` looks at. -/
def InterruptFrame.syscall (frame : InterruptFrame) : Syscall.InterruptFrame :=
  ⟨frame.reg .rax, frame.reg .rdi⟩

/-- What the processor does with an interrupt: it enters code, or raises an exception with an
error code instead. -/
inductive Delivery
  | enter (address : UInt64)
  | generalProtection (errorCode : UInt64)
  | notPresent (errorCode : UInt64)
  deriving DecidableEq

/-- Where the interrupt comes from: an `int` instruction is checked against the privilege
level of the gate. -/
inductive Source
  | software
  | hardware
  deriving DecidableEq

/-- The error code that names an entry of the table. -/
def idtError (source : Source) (vector : UInt8) : UInt64 :=
  8 * vector.toUInt64 + 2 + (match source with | .software => 0 | .hardware => 1)

def gateOf (idt : Memory) (vector : UInt8) : Gate :=
  decodeGate (idtSlot idt vector.toNat).1 (idtSlot idt vector.toNat).2

/-- The processor, at privilege level `cpl`, looks up an interrupt in the table. -/
def deliver (gate : Gate) (cpl : Nat) (source : Source) (vector : UInt8) : Delivery :=
  if gate.typeAttr % 32 ≠ 0x0E ∧ gate.typeAttr % 32 ≠ 0x0F then
    .generalProtection (idtError source vector)
  else if source = .software ∧ gate.typeAttr / 32 % 4 < cpl then
    .generalProtection (idtError source vector)
  else if gate.typeAttr / 128 = 0 then .notPresent (idtError source vector)
  else .enter (UInt64.ofNat gate.offset)

/-- What is fixed once the kernel is linked and loaded. -/
structure Linked where
  stubs : StubAddress
  stubs_inj : ∀ v w, HasStub v → HasStub w → stubs v = stubs w → v = w
  ret : UInt64
  rsp0 : UInt64

/-- The stub at an address. -/
def Linked.stubAt (k : Linked) (address : UInt64) : Option UInt8 :=
  ((List.range 256).map UInt8.ofNat).find? fun v => HasStub v ∧ k.stubs v = address

/-- The stack an interrupt uses: that of the kernel's TSS when it comes from user code. -/
def interruptStack (rsp0 : UInt64) (c : Context Reg) : UInt64 :=
  (if c.cs &&& 3 = 0 then c.rsp else rsp0) &&& 0xFFFFFFFFFFFFFFF0

/-- The processor enters the code at an address. -/
def Linked.enterAt (k : Linked) (code : DispatchCode) (address : UInt64) (errorCode : Option UInt64)
    (c : Context Reg) (m : Memory) : Option (Context Reg × Memory) :=
  match k.stubAt address with
  | some v => runStub code k.ret v c m (interruptStack k.rsp0 c) errorCode
  | none => none

/-- An interrupt, up to the instruction the interrupted code goes on with.  A fault on the way
to an exception's handler is not followed. -/
def Linked.interrupt (k : Linked) (code : DispatchCode) (idt : Memory) (source : Source)
    (vector : UInt8) (errorCode : Option UInt64) (c : Context Reg) (m : Memory) :
    Option (Context Reg × Memory) :=
  let cpl := (c.cs &&& 3).toNat
  match deliver (gateOf idt vector) cpl source vector with
  | .enter address => k.enterAt code address errorCode c m
  | .generalProtection e =>
    match deliver (gateOf idt 13) cpl .hardware 13 with
    | .enter address => k.enterAt code address (some e) c m
    | _ => none
  | .notPresent e =>
    match deliver (gateOf idt 11) cpl .hardware 11 with
    | .enter address => k.enterAt code address (some e) c m
    | _ => none

/-! ## The table after boot -/

def emptyGate : Gate := ⟨0, 0, 0, 0⟩

theorem load_store_zero {n k a b : Nat} (m : Memory) (hlow : a ≤ b) (hhigh : b + k ≤ a + n) :
    (m.store n a 0).load k b = 0 := by
  induction k generalizing b with
  | zero => rfl
  | succ k ih =>
      have hbyte : m.store n a 0 b = 0 := by
        rw [Memory.store, if_pos (by omega), Nat.zero_div]
        rfl
      rw [Memory.load, hbyte, ih (by omega) (by omega)]
      rfl

theorem gateOf_clear (m : Memory) (vector : UInt8) :
    gateOf (m.store idtEntrySize (idtEntrySize * vector.toNat) 0) =
      Function.update (gateOf m) vector emptyGate := by
  funext v
  by_cases hv : v = vector
  · have hlow : (m.store idtEntrySize (idtEntrySize * vector.toNat) 0).load 8
        (idtEntrySize * vector.toNat) = 0 :=
      load_store_zero m (Nat.le_refl _) (by rw [idtEntrySize]; omega)
    have hhigh : (m.store idtEntrySize (idtEntrySize * vector.toNat) 0).load 8
        (idtEntrySize * vector.toNat + 8) = 0 :=
      load_store_zero m (by omega) (by simp only [idtEntrySize]; omega)
    rw [hv, Function.update_self, gateOf, idtSlot, hlow, hhigh]
    rfl
  · have hne : v.toNat ≠ vector.toNat := fun h => hv (UInt8.toNat_inj.mp h)
    have hslot := idtSlot_of_outside
      (Memory.outside_store idtEntrySize m (idtEntrySize * vector.toNat) 0) hne
    rw [Function.update_of_ne hv, gateOf, gateOf, hslot]

theorem toNat_ofNat_of_lt {i : Nat} (h : i < 256) : (UInt8.ofNat i).toNat = i := by
  rw [UInt8.toNat_ofNat']
  exact Nat.mod_eq_of_lt h

theorem idtClear (s : IdtState) :
    gateOf (forRange idtEntryCount idtClearEntry s).idt = (fun _ => emptyGate) ∧
      (forRange idtEntryCount idtClearEntry s).handlers = fun _ => none := by
  have hclear : ∀ v : UInt8, v.toNat < idtEntryCount →
      gateOf (forRange idtEntryCount idtClearEntry s).idt v = emptyGate ∧
        (forRange idtEntryCount idtClearEntry s).handlers v = none := by
    apply forRange_rule (P := fun k (s : IdtState) => ∀ v : UInt8, v.toNat < k →
      gateOf s.idt v = emptyGate ∧ s.handlers v = none)
    · exact fun v hv => absurd hv (Nat.not_lt_zero _)
    · intro i s hi hs v hv
      have hvector := toNat_ofNat_of_lt hi
      have hgate : gateOf (idtClearEntry i s).idt =
          Function.update (gateOf s.idt) (UInt8.ofNat i) emptyGate := by
        rw [← gateOf_clear, hvector]
        rfl
      have hhandlers : (idtClearEntry i s).handlers =
          Function.update s.handlers (UInt8.ofNat i) none := rfl
      rw [hgate, hhandlers]
      by_cases heq : v = UInt8.ofNat i
      · rw [heq, Function.update_self, Function.update_self]
        exact ⟨rfl, rfl⟩
      · have hne : v.toNat ≠ i := fun h => heq (UInt8.toNat_inj.mp (h.trans hvector.symm))
        rw [Function.update_of_ne heq, Function.update_of_ne heq]
        exact hs v (by omega)
  exact ⟨funext fun v => (hclear v v.toNat_lt).1, funext fun v => (hclear v v.toNat_lt).2⟩

theorem handlers_idtInit (stubs : StubAddress) (s : IdtState) :
    (idtInit stubs s).handlers = fun _ => none := (idtClear s).2

/-! ## Runs of the initialisation -/

/-- The function that an initialisation registers, with its vector. -/
def InitCall.handler : InitCall → UInt8 × Handler
  | .keyboardInit => (33, .keyboardInterruptHandler)
  | .mouseInit => (44, .mouseInterruptHandler)
  | .timerInit => (32, .timerInterruptHandler)
  | .syscallInit => (128, .syscallDispatch)

theorem handlers_initStep (stubs : StubAddress) (s : IdtState) (call : InitCall) :
    (initStep stubs s call).handlers =
      Function.update s.handlers call.handler.1 (some call.handler.2) := by
  cases call <;> rfl

/-- A vector has the handler of the initialisation that takes it, once this has run. -/
theorem handlers_runSteps (stubs : StubAddress) (calls : List InitCall) (s : IdtState)
    (vector : UInt8) (h : Handler) :
    (runSteps (initStep stubs) (idtInit stubs s) calls).handlers vector = some h ↔
      ∃ call ∈ calls, call.handler = (vector, h) := by
  have hinj : ∀ c d : InitCall, c.handler.1 = d.handler.1 → c = d := by
    intro c d
    cases c <;> cases d <;> simp [InitCall.handler]
  induction calls using List.reverseRecOn with
  | nil =>
      show (idtInit stubs s).handlers vector = some h ↔ _
      rw [handlers_idtInit]
      simp
  | append_singleton calls call ih =>
      have hlast : (runSteps (initStep stubs) (idtInit stubs s) (calls ++ [call])).handlers =
          Function.update (runSteps (initStep stubs) (idtInit stubs s) calls).handlers
            call.handler.1 (some call.handler.2) := by
        rw [runSteps_append]
        exact handlers_initStep stubs _ call
      rw [hlast]
      by_cases hv : vector = call.handler.1
      · rw [hv, Function.update_self, Option.some.injEq]
        constructor
        · rintro rfl
          exact ⟨call, List.mem_append_right _ List.mem_cons_self, rfl⟩
        · rintro ⟨c, -, hc⟩
          have hsame : c = call := hinj c call (by rw [hc])
          rw [← hsame, hc]
      · rw [Function.update_of_ne hv]
        refine Iff.trans ih ?_
        constructor
        · rintro ⟨c, hc, heq⟩
          exact ⟨c, List.mem_append_left _ hc, heq⟩
        · rintro ⟨c, hc, heq⟩
          rcases List.mem_append.mp hc with hc | hc
          · exact ⟨c, hc, heq⟩
          · rw [List.mem_singleton] at hc
            rw [hc] at heq
            exact absurd (congrArg Prod.fst heq).symm hv

/-! ## The way of an interrupt -/

section Kernel

variable (k : Linked) (calls : List InitCall) (s : IdtState)

end Kernel

/-! ## `idt_dispatch` -/

theorem idtDispatch_of_handler {handlers : UInt8 → Option Handler} {frame : InterruptFrame}
    {vector : UInt8} {h : Handler} (log : LogState) (tick : UInt64)
    (hvector : frame.vector = vector.toUInt64) (hhandler : handlers vector = some h) :
    idtDispatch handlers log tick frame = .handler h := by
  have hlt : vector.toUInt64 < 256 := by
    rw [UInt64.lt_iff_toNat_lt, UInt8.toNat_toUInt64]
    exact vector.toNat_lt
  have hback : vector.toUInt64.toUInt8 = vector := by simp
  rw [idtDispatch, hvector, if_pos hlt, hback, hhandler]

end AcharyaOS.Arch
