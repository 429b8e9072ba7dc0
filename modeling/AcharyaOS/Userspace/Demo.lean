import AcharyaOS.Userspace.Code

/-!
# The demo program

`users/demo_user.S` in the address space that `userspace_init` makes for it, with the system
calls of the kernel.  The program counter counts instructions.
-/

namespace AcharyaOS.Userspace

open Foundation Vmm Syscall

inductive UserInstr
  | movRax (imm : UInt64)
  | leaRdi (address : UInt64)
  | int80
  | jmp (target : Nat)

/-- The instructions from `demo_user_program_start` on, with the address of `user_msg`. -/
def demoProgram (userMsg : UInt64) : List UserInstr :=
  [.movRax syscallPuts, .leaRdi userMsg, .int80,
    .movRax syscallGetPid, .int80,
    .movRax syscallGetTicks, .int80,
    .movRax syscallYield, .int80, .jmp 7]

def userMsg : List UInt8 := asciiText "hello from user mode\n"

/-- The registers of the program that matter, and what the kernel has printed for it. -/
structure UserState where
  pc : Nat
  rax : UInt64
  rdi : UInt64
  out : List UInt8

/-- One instruction; `none` where the program or the kernel under it does not go on. -/
def userStep (k : Machine) (m : Memory) (program : List UserInstr) (s : UserState) :
    Option UserState :=
  match program[s.pc]? with
  | none => none
  | some (.movRax imm) => some { s with pc := s.pc + 1, rax := imm }
  | some (.leaRdi address) => some { s with pc := s.pc + 1, rdi := address }
  | some (.jmp target) => some { s with pc := target }
  | some .int80 =>
    let call := syscallDispatch k m ⟨s.rax, s.rdi⟩
    match call.2 with
    | .returned r => some { s with pc := s.pc + 1, rax := r.rax, out := s.out ++ call.1 }
    | _ => none

/-- `n` instructions of the program; the kernel is in some state at each of them. -/
def demoRun (k : Nat → Machine) (m : Memory) (msg : UInt64) (start : UserState) :
    Nat → Option UserState
  | 0 => some start
  | n + 1 => (demoRun k m msg start n).bind (userStep (k n) m (demoProgram msg))

/-! ## The message -/

/-- A page of user code is read by the kernel like any other memory. -/
theorem translate_of_userByte {L : VmmLayout} {s : UserspaceState} {k : Machine} {va : UInt64}
    {c : UInt8} (hlayout : k.layout = L) (hvmm : k.vmm = s.vmm)
    (hcanonical : PageWalk.Canonical va.toNat)
    (h : ∀ rest, UserByte L s rest va.toNat c) : Scan.load k.translate s.mem va = some c := by
  obtain ⟨w, hw, hc, -⟩ := h k.rest
  rw [Scan.load, Machine.translate, Machine.walk, if_pos hcanonical, hlayout, hvmm, hw]
  exact congrArg some hc

theorem kputs_of_userBytes {L : VmmLayout} {s : UserspaceState} {k : Machine} {str : UInt64}
    (hlayout : k.layout = L) (hvmm : k.vmm = s.vmm) (text : List UInt8)
    (hne : ∀ c ∈ text, c ≠ 0) (hlow : str.toNat + text.length < 2 ^ 47)
    (hbytes : ∀ i c, (text ++ [0])[i]? = some c →
      ∀ rest, UserByte L s rest (str.toNat + i) c) :
    kputs k s.mem (2 ^ 64) str = (text, .nul) := by
  have hread : ∀ i c, (text ++ [0])[i]? = some c →
      Scan.load k.translate s.mem ((· + 1)^[i] str) = some c := by
    intro i c hc
    have hi : i < (text ++ [0]).length := (List.getElem?_eq_some_iff.mp hc).1
    rw [List.length_append, List.length_singleton] at hi
    have hplace : (str + UInt64.ofNat i).toNat = str.toNat + i := by
      rw [UInt64.toNat_add, UInt64.toNat_ofNat']
      omega
    rw [iterate_succ_apply]
    apply translate_of_userByte hlayout hvmm
    · left
      rw [hplace]
      omega
    · rw [hplace]
      exact hbytes i c hc
  apply Scan.scan_of_string text (by omega) hne
  · intro i c hc
    have hi : i < text.length := (List.getElem?_eq_some_iff.mp hc).1
    exact hread i c (by rw [List.getElem?_append_left hi, hc])
  · exact hread text.length 0 (by simp)

/-! ## The run -/

/-- What the run needs of the kernel: it prints the message at this address. -/
def PrintsMessage (k : Nat → Machine) (m : Memory) (msg : UInt64) : Prop :=
  ∀ n, kputs (k n) m (2 ^ 64) msg = (userMsg, .nul)

section Run

variable {k : Nat → Machine} {m : Memory} {msg : UInt64} {start : UserState}

theorem dispatch_puts (hmsg : PrintsMessage k m msg) (n : Nat) :
    syscallDispatch (k n) m ⟨syscallPuts, msg⟩ = (userMsg, .returned ⟨0, msg⟩) := by
  rw [syscallDispatch, if_pos rfl, hmsg n]
  rfl

theorem demoRun_start (hmsg : PrintsMessage k m msg) (hpc : start.pc = 0)
    (hout : start.out = []) :
    demoRun k m msg start 1 = some ⟨1, syscallPuts, start.rdi, []⟩ ∧
    demoRun k m msg start 2 = some ⟨2, syscallPuts, msg, []⟩ ∧
    demoRun k m msg start 3 = some ⟨3, 0, msg, userMsg⟩ ∧
    demoRun k m msg start 4 = some ⟨4, syscallGetPid, msg, userMsg⟩ ∧
    demoRun k m msg start 5 = some ⟨5, (k 4).currentPid.toUInt64, msg, userMsg⟩ ∧
    demoRun k m msg start 6 = some ⟨6, syscallGetTicks, msg, userMsg⟩ ∧
    demoRun k m msg start 7 = some ⟨7, (k 6).ticks, msg, userMsg⟩ := by
  have h1 : demoRun k m msg start 1 = some ⟨1, syscallPuts, start.rdi, []⟩ := by
    simp [demoRun, userStep, demoProgram, hpc, hout]
  have h2 : demoRun k m msg start 2 = some ⟨2, syscallPuts, msg, []⟩ := by
    rw [demoRun, h1]
    rfl
  have h3 : demoRun k m msg start 3 = some ⟨3, 0, msg, userMsg⟩ := by
    rw [demoRun, h2]
    simp [userStep, demoProgram, dispatch_puts hmsg]
  have h4 : demoRun k m msg start 4 = some ⟨4, syscallGetPid, msg, userMsg⟩ := by
    rw [demoRun, h3]
    rfl
  have h5 : demoRun k m msg start 5 =
      some ⟨5, (k 4).currentPid.toUInt64, msg, userMsg⟩ := by
    rw [demoRun, h4]
    simp [userStep, demoProgram, syscallDispatch, syscallGetPid, syscallPuts, syscallGetTicks]
  have h6 : demoRun k m msg start 6 = some ⟨6, syscallGetTicks, msg, userMsg⟩ := by
    rw [demoRun, h5]
    rfl
  have h7 : demoRun k m msg start 7 = some ⟨7, (k 6).ticks, msg, userMsg⟩ := by
    rw [demoRun, h6]
    simp [userStep, demoProgram, syscallDispatch, syscallPuts, syscallGetTicks]
  exact ⟨h1, h2, h3, h4, h5, h6, h7⟩

/-- From the label on the program yields, three instructions a round. -/
theorem demoRun_loop (hmsg : PrintsMessage k m msg) (hpc : start.pc = 0)
    (hout : start.out = []) (n : Nat) :
    ∃ rax, demoRun k m msg start (7 + n) = some ⟨7 + n % 3, rax, msg, userMsg⟩ ∧
      (n % 3 = 1 → rax = syscallYield) := by
  induction n with
  | zero =>
      obtain ⟨-, -, -, -, -, -, h7⟩ := demoRun_start hmsg hpc hout
      exact ⟨_, h7, fun h => absurd h (by decide)⟩
  | succ n ih =>
      obtain ⟨rax, hrun, hyield⟩ := ih
      have hnext : demoRun k m msg start (7 + (n + 1)) =
          userStep (k (7 + n)) m (demoProgram msg) ⟨7 + n % 3, rax, msg, userMsg⟩ := by
        rw [← Nat.add_assoc, demoRun, hrun, Option.bind_some]
      have hlt := Nat.mod_lt n (by decide : 0 < 3)
      have hcases : n % 3 = 0 ∨ n % 3 = 1 ∨ n % 3 = 2 := by omega
      rcases hcases with h0 | h1 | h2
      · have hmod : (n + 1) % 3 = 1 := by omega
        rw [hnext, h0, hmod]
        exact ⟨syscallYield, rfl, fun _ => rfl⟩
      · have hmod : (n + 1) % 3 = 2 := by omega
        rw [hnext, h1, hmod, hyield h1]
        refine ⟨0, ?_, fun h => absurd h (by decide)⟩
        simp [userStep, demoProgram, syscallDispatch, syscallPuts, syscallGetTicks, syscallGetPid,
          syscallGetProcessCount, syscallYield]
      · have hmod : (n + 1) % 3 = 0 := by omega
        rw [hnext, h2, hmod]
        exact ⟨rax, rfl, fun h => absurd h (by decide)⟩

end Run

/-- The linked program has its message, with the NUL behind it, from an offset on. -/
structure HasMessage (U : UserLayout) (m : Memory) (offset : Nat) : Prop where
  fits : offset + userMsg.length < (U.programEnd - U.programStart).toNat
  bytes : ∀ i c, (userMsg ++ [0])[i]? = some c → m (U.programStart.toNat + offset + i) = c

theorem printsMessage {L : VmmLayout} {U : UserLayout} {s s' : UserspaceState}
    (h : VmmReachable L s.vmm) (hinit : userspaceInit L U s = .ok s') {offset : Nat}
    (hmessage : HasMessage U s.mem offset) {k : Nat → Machine}
    (hk : ∀ n, (k n).layout = L ∧ (k n).vmm = s'.vmm) :
    PrintsMessage k s'.mem (userCodeVaddr + UInt64.ofNat offset) := by
  have hfits := hmessage.fits
  have hsize : (U.programEnd - U.programStart).toNat ≤ 2 ^ 21 := by
    by_contra hlarge
    have hpanic : U.programEnd - U.programStart > vmmPageSize2m := by
      rw [gt_iff_lt, UInt64.lt_iff_toNat_lt]
      exact Nat.lt_of_not_le hlarge
    rw [userspaceInit, if_pos hpanic] at hinit
    cases hinit
  rw [userspaceInit_eq h.inv hsize] at hinit
  cases hinit
  obtain ⟨hlink, hcode, -⟩ := userTables_entries (U := U) h.inv
  have hpage := U.code_lt
  have hlength : userMsg.length = 21 := by decide
  have hmsg : (userCodeVaddr + UInt64.ofNat offset).toNat = userCodeVaddr.toNat + offset := by
    have hbase : userCodeVaddr.toNat = 0x8000000000 := rfl
    rw [UInt64.toNat_add, UInt64.toNat_ofNat', hbase]
    omega
  intro n
  apply kputs_of_userBytes (L := L) (s := ⟨userTables L U s.vmm, userMemory U s.mem, false⟩)
    (hk n).1 (hk n).2 userMsg (by decide)
  · have hbase : userCodeVaddr.toNat = 0x8000000000 := rfl
    rw [hmsg, hbase, hlength]
    omega
  · intro i c hc rest
    have hi : i < (userMsg ++ [0]).length := (List.getElem?_eq_some_iff.mp hc).1
    rw [List.length_append, List.length_singleton, hlength] at hi
    have hoff : offset + i < 2 ^ 21 := by omega
    have hin : offset + i < (U.programEnd - U.programStart).toNat := by omega
    have hbyte := userByte_of_page (s := ⟨userTables L U s.vmm, userMemory U s.mem, false⟩)
      (reachable_userTables h).inv hlink (accepts_code U) (by decide) (by omega) hcode rest hoff
    have hmem : userMemory U s.mem (U.codePage.toNat + (offset + i)) = c := by
      rw [userMemory_code s.mem hoff, if_pos hin, ← Nat.add_assoc]
      exact hmessage.bytes i c hc
    rw [hmsg, Nat.add_assoc, ← hmem]
    exact hbyte

/-- In the address space of `userspace_init`, with whatever ticks and processes at each of its
system calls, the program never stops: it prints its message once, with its third instruction,
is told its process number and the ticks, and then yields for ever. -/
theorem demo_run {L : VmmLayout} {U : UserLayout} {s s' : UserspaceState}
    (h : VmmReachable L s.vmm) (hinit : userspaceInit L U s = .ok s') {offset : Nat}
    (hmessage : HasMessage U s.mem offset) {k : Nat → Machine}
    (hk : ∀ n, (k n).layout = L ∧ (k n).vmm = s'.vmm) (start : UserState)
    (hpc : start.pc = 0) (hout : start.out = []) (n : Nat) :
    ∃ st, demoRun k s'.mem (userCodeVaddr + UInt64.ofNat offset) start n = some st ∧
      st.out = (if n < 3 then [] else asciiText "hello from user mode\n") ∧
      (n = 5 → st.rax = (k 4).currentPid.toUInt64) ∧ (n = 7 → st.rax = (k 6).ticks) ∧
      (7 ≤ n → st.pc = 7 + (n - 7) % 3 ∧ (st.pc = 8 → st.rax = syscallYield)) := by
  have hmsg := printsMessage h hinit hmessage hk
  obtain ⟨h1, h2, h3, h4, h5, h6, h7⟩ := demoRun_start hmsg hpc hout
  by_cases hn : n ≤ 7
  · have hcases : n = 0 ∨ n = 1 ∨ n = 2 ∨ n = 3 ∨ n = 4 ∨ n = 5 ∨ n = 6 ∨ n = 7 := by omega
    rcases hcases with rfl | rfl | rfl | rfl | rfl | rfl | rfl | rfl
    · exact ⟨start, rfl, hout, nofun, nofun, nofun⟩
    · exact ⟨_, h1, rfl, nofun, nofun, nofun⟩
    · exact ⟨_, h2, rfl, nofun, nofun, nofun⟩
    · exact ⟨_, h3, rfl, nofun, nofun, nofun⟩
    · exact ⟨_, h4, rfl, nofun, nofun, nofun⟩
    · exact ⟨_, h5, rfl, fun _ => rfl, nofun, nofun⟩
    · exact ⟨_, h6, rfl, nofun, nofun, nofun⟩
    · exact ⟨_, h7, rfl, nofun, fun _ => rfl, fun _ => ⟨rfl, nofun⟩⟩
  · obtain ⟨rax, hrun, hyield⟩ := demoRun_loop hmsg hpc hout (n - 7)
    have hplace : 7 + (n - 7) = n := by omega
    rw [hplace] at hrun
    refine ⟨_, hrun, (if_neg (by omega)).symm, fun h5 => absurd h5 (by omega),
      fun h7 => absurd h7 (by omega), fun _ => ⟨rfl, fun h8 => hyield ?_⟩⟩
    show (n - 7) % 3 = 1
    have h8' : 7 + (n - 7) % 3 = 8 := h8
    omega

/-- A memory with a text at an address. -/
def memoryWith (a : Nat) (text : List UInt8) : Memory := fun b => (text[b - a]?).getD 0

theorem memoryWith_apply {a : Nat} {text : List UInt8} {i : Nat} {c : UInt8}
    (h : text[i]? = some c) : memoryWith a text (a + i) = c := by
  rw [memoryWith, Nat.add_sub_cancel_left, h, Option.getD_some]

/-- The program at 3 MiB, its message 32 bytes behind its start. -/
def demoState : UserspaceState where
  vmm := bootMachine.vmm
  mem := memoryWith (userLayoutFourMiB.programStart.toNat + 32) (userMsg ++ [0])
  running := false

theorem hasMessage_demoState : HasMessage userLayoutFourMiB demoState.mem 32 := by
  constructor
  · decide
  · intro i c hc
    have hbyte := memoryWith_apply (a := userLayoutFourMiB.programStart.toNat + 32) hc
    simpa only [demoState] using hbyte

/-- A machine in the address space of the program. -/
def demoMachine : Machine :=
  { bootMachine with
    vmm := userTables vmmLayoutTwoMiB userLayoutFourMiB demoState.vmm
    reachable := .next (.next bootMachine.reachable trivial) trivial }

theorem demo_run_threeMiB :
    ∃ st, demoRun (fun _ => demoMachine) (userMemory userLayoutFourMiB demoState.mem)
        (userCodeVaddr + UInt64.ofNat 32) ⟨0, 0, 0, []⟩ 12 = some st ∧
      st.out = asciiText "hello from user mode\n" := by
  have hreachable : VmmReachable vmmLayoutTwoMiB demoState.vmm := bootMachine.reachable
  have hsize : (userLayoutFourMiB.programEnd - userLayoutFourMiB.programStart).toNat ≤ 2 ^ 21 := by
    decide
  have hinit := userspaceInit_eq (U := userLayoutFourMiB) hreachable.inv hsize
  have hmachine : ∀ n : Nat, demoMachine.layout = vmmLayoutTwoMiB ∧
      demoMachine.vmm = userTables vmmLayoutTwoMiB userLayoutFourMiB demoState.vmm :=
    fun _ => ⟨rfl, rfl⟩
  obtain ⟨st, hrun, hout, -⟩ := demo_run (k := fun _ => demoMachine) hreachable hinit
    hasMessage_demoState hmachine ⟨0, 0, 0, []⟩ rfl rfl 12
  exact ⟨st, hrun, hout⟩

end AcharyaOS.Userspace
