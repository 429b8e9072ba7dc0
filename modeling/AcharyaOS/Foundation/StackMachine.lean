import AcharyaOS.Foundation.Memory
import Mathlib.Data.List.Nodup
import Mathlib.Logic.Function.Basic

/-!
# Straight-line code on a stack

A processor with registers named by `R`, a stack that grows down in a byte memory, and the
instructions that save registers on it, call a function and restore them.  Pushed words are
found again by their place below the top, popped registers by their place above it.
-/

namespace AcharyaOS.Foundation.StackMachine

variable {R F : Type}

/-- The 64-bit word at an address. -/
def word (m : Memory) (a : Nat) : UInt64 := UInt64.ofNat (m.load 8 a)

structure Cpu (R : Type) where
  reg : R → UInt64
  sp : UInt64
  mem : Memory

namespace Cpu

variable (c : Cpu R)

def push (v : UInt64) : Cpu R :=
  { c with sp := c.sp - 8, mem := c.mem.store 8 (c.sp - 8).toNat v.toNat }

/-- The first value of the list is pushed first. -/
def pushAll (vs : List UInt64) : Cpu R := vs.foldl push c

def top : UInt64 := word c.mem c.sp.toNat

def release (n : UInt64) : Cpu R := { c with sp := c.sp + n }

variable [DecidableEq R]

def setReg (r : R) (v : UInt64) : Cpu R := { c with reg := Function.update c.reg r v }

def pop (r : R) : Cpu R := (c.setReg r c.top).release 8

def popAll (rs : List R) : Cpu R := rs.foldl (fun c r => c.pop r) c

end Cpu

/-! ## Instructions -/

/-- A call names the function and the address behind the call instruction. -/
inductive Instr (R F : Type)
  | pushReg (r : R)
  | pushImm (v : UInt64)
  | popReg (r : R)
  | movSp (r : R)
  | addSp (n : UInt64)
  | call (f : F) (ret : UInt64)

section Exec

variable [DecidableEq R] (code : F → Cpu R → Option (Cpu R))

/-- What an instruction does; `none` is a call that does not come back to the instruction
behind it. -/
def Instr.exec : Instr R F → Cpu R → Option (Cpu R)
  | .pushReg r, c => some (c.push (c.reg r))
  | .pushImm v, c => some (c.push v)
  | .popReg r, c => some (c.pop r)
  | .movSp r, c => some (c.setReg r c.sp)
  | .addSp n, c => some (c.release n)
  | .call f ret, c => do
      let c ← code f (c.push ret)
      if c.top = ret then some (c.release 8) else none

def exec : List (Instr R F) → Cpu R → Option (Cpu R)
  | [], c => some c
  | i :: is, c => (i.exec code c).bind (exec is)

theorem exec_append (is js : List (Instr R F)) (c : Cpu R) :
    exec code (is ++ js) c = (exec code is c).bind (exec code js) := by
  induction is generalizing c with
  | nil => rfl
  | cons i is ih =>
      rw [List.cons_append, exec, exec, Option.bind_assoc]
      exact congrArg _ (funext ih)

theorem exec_pushes (rs : List R) (c : Cpu R) :
    exec code (rs.map .pushReg) c = some (c.pushAll (rs.map c.reg)) := by
  induction rs generalizing c with
  | nil => rfl
  | cons r rs ih => exact ih (c.push (c.reg r))

theorem exec_pops (rs : List R) (c : Cpu R) :
    exec code (rs.map .popReg) c = some (c.popAll rs) := by
  induction rs generalizing c with
  | nil => rfl
  | cons r rs ih => exact ih (c.pop r)

end Exec

/-! ## Words -/

theorem word_congr {m m' : Memory} {a : Nat} (h : m'.load 8 a = m.load 8 a) :
    word m' a = word m a := by
  rw [word, word, h]

theorem word_store (m : Memory) (a : Nat) (v : UInt64) : word (m.store 8 a v.toNat) a = v := by
  have hv := v.toNat_lt
  rw [word, Memory.load_store, Nat.mod_eq_of_lt (by omega), UInt64.ofNat_toNat]

theorem word_of_outside {m m' : Memory} {a n b : Nat} (h : Memory.Outside m m' a n)
    (hsep : b + 8 ≤ a ∨ a + n ≤ b) : word m' b = word m b :=
  word_congr (h.load hsep)

/-- Words stored from an address on. -/
def storeWords (m : Memory) (a : Nat) : List UInt64 → Memory
  | [] => m
  | v :: vs => (storeWords m (a + 8) vs).store 8 a v.toNat

theorem outside_storeWords (m : Memory) (a : Nat) (vs : List UInt64) :
    Memory.Outside m (storeWords m a vs) a (8 * vs.length) := by
  induction vs generalizing a with
  | nil => exact Memory.Outside.refl _ _ _
  | cons v vs ih =>
      rw [List.length_cons]
      intro b hb
      have hrest : storeWords m (a + 8) vs b = m b := ih (a + 8) b (by omega)
      have hfirst := Memory.outside_store 8 (storeWords m (a + 8) vs) a v.toNat b (by omega)
      rw [storeWords, hfirst, hrest]

theorem word_storeWords (m : Memory) (a : Nat) {vs : List UInt64} {i : Nat}
    (hi : i < vs.length) : word (storeWords m a vs) (a + 8 * i) = vs[i] := by
  induction vs generalizing a i with
  | nil => exact absurd hi (Nat.not_lt_zero i)
  | cons v vs ih =>
      rw [List.length_cons] at hi
      cases i with
      | zero => exact word_store _ a v
      | succ i =>
          have hplace : a + 8 * (i + 1) = a + 8 + 8 * i := by omega
          have hkeep : word (storeWords m a (v :: vs)) (a + 8 + 8 * i) =
              word (storeWords m (a + 8) vs) (a + 8 + 8 * i) :=
            word_of_outside (Memory.outside_store 8 _ a v.toNat) (by omega)
          rw [hplace, hkeep]
          exact ih (a + 8) (by omega)

/-! ## Pushing -/

namespace Cpu

theorem toNat_sp_push {c : Cpu R} (v : UInt64) (hroom : 8 ≤ c.sp.toNat) :
    (c.push v).sp.toNat = c.sp.toNat - 8 := by
  show (c.sp - 8).toNat = c.sp.toNat - 8
  exact UInt64.toNat_sub_of_le _ _ hroom

@[simp] theorem reg_push (c : Cpu R) (v : UInt64) : (c.push v).reg = c.reg := rfl

theorem top_push (c : Cpu R) (v : UInt64) : (c.push v).top = v := word_store c.mem _ v

theorem outside_push {c : Cpu R} (v : UInt64) (hroom : 8 ≤ c.sp.toNat) :
    Memory.Outside c.mem (c.push v).mem (c.sp.toNat - 8) 8 := by
  rw [← toNat_sp_push v hroom]
  exact Memory.outside_store 8 c.mem _ _

@[simp] theorem reg_pushAll (c : Cpu R) (vs : List UInt64) : (c.pushAll vs).reg = c.reg := by
  induction vs generalizing c with
  | nil => rfl
  | cons v vs ih => exact ih (c.push v)

theorem toNat_sp_pushAll {c : Cpu R} {vs : List UInt64} (hroom : 8 * vs.length ≤ c.sp.toNat) :
    (c.pushAll vs).sp.toNat = c.sp.toNat - 8 * vs.length := by
  induction vs generalizing c with
  | nil => rfl
  | cons v vs ih =>
      rw [List.length_cons] at hroom ⊢
      have hpush := toNat_sp_push v (c := c) (by omega)
      have hrest : (c.pushAll (v :: vs)).sp.toNat = (c.push v).sp.toNat - 8 * vs.length :=
        ih (by omega)
      rw [hrest, hpush]
      omega

theorem outside_pushAll {c : Cpu R} {vs : List UInt64} (hroom : 8 * vs.length ≤ c.sp.toNat) :
    Memory.Outside c.mem (c.pushAll vs).mem (c.sp.toNat - 8 * vs.length) (8 * vs.length) := by
  induction vs generalizing c with
  | nil => exact Memory.Outside.refl _ _ _
  | cons v vs ih =>
      rw [List.length_cons] at hroom ⊢
      have hpush := toNat_sp_push v (c := c) (by omega)
      intro b hb
      have hrest : (c.pushAll (v :: vs)).mem b = (c.push v).mem b := ih (by omega) b (by omega)
      have hfirst : (c.push v).mem b = c.mem b := outside_push v (by omega) b (by omega)
      rw [hrest, hfirst]

theorem word_pushAll {c : Cpu R} {vs : List UInt64} (hroom : 8 * vs.length ≤ c.sp.toNat)
    {i : Nat} (hi : i < vs.length) :
    word (c.pushAll vs).mem (c.sp.toNat - 8 * (i + 1)) = vs[i] := by
  induction vs generalizing c i with
  | nil => exact absurd hi (Nat.not_lt_zero i)
  | cons v vs ih =>
      rw [List.length_cons] at hroom hi
      have hpush := toNat_sp_push v (c := c) (by omega)
      have hrest := @outside_pushAll R (c.push v) vs (by omega)
      cases i with
      | zero =>
          have hkeep : word (c.pushAll (v :: vs)).mem (c.sp.toNat - 8 * (0 + 1)) =
              word (c.push v).mem (c.sp.toNat - 8 * (0 + 1)) :=
            word_of_outside hrest (by omega)
          have htop : c.sp.toNat - 8 * (0 + 1) = (c.push v).sp.toNat := by omega
          rw [hkeep, htop]
          exact top_push c v
      | succ i =>
          have hplace : c.sp.toNat - 8 * (i + 1 + 1) = (c.push v).sp.toNat - 8 * (i + 1) := by
            omega
          rw [hplace]
          exact ih (by omega) (by omega)

/-! ## Popping -/

section Registers

variable [DecidableEq R]

theorem reg_setReg_self (c : Cpu R) (r : R) (v : UInt64) : (c.setReg r v).reg r = v := by
  simp only [setReg, Function.update_self]

@[simp] theorem sp_setReg (c : Cpu R) (r : R) (v : UInt64) : (c.setReg r v).sp = c.sp := rfl

@[simp] theorem mem_setReg (c : Cpu R) (r : R) (v : UInt64) : (c.setReg r v).mem = c.mem := rfl

end Registers

theorem toNat_sp_release {c : Cpu R} {n : UInt64} (h : c.sp.toNat + n.toNat < 2 ^ 64) :
    (c.release n).sp.toNat = c.sp.toNat + n.toNat := by
  rw [release, UInt64.toNat_add, Nat.mod_eq_of_lt h]

variable [DecidableEq R]

@[simp] theorem mem_popAll (c : Cpu R) (rs : List R) : (c.popAll rs).mem = c.mem := by
  induction rs generalizing c with
  | nil => rfl
  | cons r rs ih => exact ih (c.pop r)

theorem toNat_sp_pop {c : Cpu R} (r : R) (h : c.sp.toNat + 8 < 2 ^ 64) :
    (c.pop r).sp.toNat = c.sp.toNat + 8 :=
  toNat_sp_release (c := c.setReg r c.top) h

theorem toNat_sp_popAll {c : Cpu R} {rs : List R}
    (h : c.sp.toNat + 8 * rs.length < 2 ^ 64) :
    (c.popAll rs).sp.toNat = c.sp.toNat + 8 * rs.length := by
  induction rs generalizing c with
  | nil => rfl
  | cons r rs ih =>
      rw [List.length_cons] at h ⊢
      have hpop := toNat_sp_pop r (c := c) (by omega)
      have hrest : (c.popAll (r :: rs)).sp.toNat = (c.pop r).sp.toNat + 8 * rs.length :=
        ih (c := c.pop r) (by omega)
      rw [hrest, hpop]
      omega

theorem reg_popAll_of_notMem {c : Cpu R} {rs : List R} {r : R} (h : r ∉ rs) :
    (c.popAll rs).reg r = c.reg r := by
  induction rs generalizing c with
  | nil => rfl
  | cons r' rs ih =>
      rw [List.mem_cons, not_or] at h
      have hrest : (c.popAll (r' :: rs)).reg r = (c.pop r').reg r := ih h.2
      rw [hrest]
      exact Function.update_of_ne h.1 _ _

theorem reg_popAll {c : Cpu R} {rs : List R} (hnodup : rs.Nodup)
    (h : c.sp.toNat + 8 * rs.length < 2 ^ 64) {i : Nat} (hi : i < rs.length) :
    (c.popAll rs).reg rs[i] = word c.mem (c.sp.toNat + 8 * i) := by
  induction rs generalizing c i with
  | nil => exact absurd hi (Nat.not_lt_zero i)
  | cons r rs ih =>
      rw [List.nodup_cons] at hnodup
      rw [List.length_cons] at h hi
      cases i with
      | zero =>
          have hrest : (c.popAll (r :: rs)).reg r = (c.pop r).reg r :=
            reg_popAll_of_notMem hnodup.1
          have hfirst : (c.pop r).reg r = c.top := reg_setReg_self c r _
          exact hrest.trans hfirst
      | succ i =>
          have hpop := toNat_sp_pop r (c := c) (by omega)
          have hrest : (c.popAll (r :: rs)).reg rs[i] =
              word (c.pop r).mem ((c.pop r).sp.toNat + 8 * i) :=
            ih (c := c.pop r) hnodup.2 (by omega) (by omega)
          have hplace : c.sp.toNat + 8 * (i + 1) = (c.pop r).sp.toNat + 8 * i := by omega
          rw [hplace]
          exact hrest

end Cpu

/-! ## Interrupts -/

/-- What an interrupt suspends. -/
structure Context (R : Type) where
  reg : R → UInt64
  rip : UInt64
  cs : UInt16
  rflags : UInt64
  rsp : UInt64
  ss : UInt16

/-- The words the processor pushes when it takes an interrupt, perhaps with an error code. -/
def Context.entryWords (c : Context R) (errorCode : Option UInt64) : List UInt64 :=
  [c.ss.toUInt64, c.rsp, c.rflags, c.cs.toUInt64, c.rip] ++ errorCode.toList

/-- The processor takes an interrupt on a stack. -/
def enter (c : Context R) (m : Memory) (stack : UInt64) (errorCode : Option UInt64) : Cpu R :=
  ({ reg := c.reg, sp := stack, mem := m } : Cpu R).pushAll (c.entryWords errorCode)

/-- The return from an interrupt pops what the processor pushed. -/
def iretq (c : Cpu R) : Context R where
  reg := c.reg
  rip := word c.mem c.sp.toNat
  cs := (word c.mem (c.sp.toNat + 8)).toUInt16
  rflags := word c.mem (c.sp.toNat + 16)
  rsp := word c.mem (c.sp.toNat + 24)
  ss := (word c.mem (c.sp.toNat + 32)).toUInt16

/-- Pushing a context's words and returning through them. -/
theorem iretq_pushAll {c : Cpu R} (hroom : 40 ≤ c.sp.toNat) (ss rsp rflags cs rip : UInt64) :
    iretq (c.pushAll [ss, rsp, rflags, cs, rip]) =
      { reg := c.reg, rip := rip, cs := cs.toUInt16, rflags := rflags, rsp := rsp,
        ss := ss.toUInt16 } := by
  have hroom' : 8 * [ss, rsp, rflags, cs, rip].length ≤ c.sp.toNat := hroom
  have hsp : (c.pushAll [ss, rsp, rflags, cs, rip]).sp.toNat = c.sp.toNat - 40 :=
    Cpu.toNat_sp_pushAll hroom'
  have hword : ∀ {i : Nat} {w : UInt64} {a : Nat}, [ss, rsp, rflags, cs, rip][i]? = some w →
      a = c.sp.toNat - 8 * (i + 1) →
        word (c.pushAll [ss, rsp, rflags, cs, rip]).mem a = w := by
    rintro i w a hw rfl
    obtain ⟨hi, rfl⟩ := List.getElem?_eq_some_iff.mp hw
    exact Cpu.word_pushAll hroom' hi
  rw [iretq, hsp, Cpu.reg_pushAll, Context.mk.injEq]
  refine ⟨rfl, hword (i := 4) rfl rfl, congrArg UInt64.toUInt16 (hword (i := 3) rfl (by omega)),
    hword (i := 2) rfl (by omega), hword (i := 1) rfl (by omega),
    congrArg UInt64.toUInt16 (hword (i := 0) rfl (by omega))⟩

end AcharyaOS.Foundation.StackMachine
