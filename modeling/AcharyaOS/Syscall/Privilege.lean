import AcharyaOS.Syscall.Code
import AcharyaOS.Vmm.Isolation

/-!
# What a system call discloses

Of all memory a system call reads only the string it prints.  The pointer comes from user
code and is followed as the kernel's own, so that the call is blind to memory closed to user
code exactly when the string lies in memory that user code could have read itself.
-/

namespace AcharyaOS.Syscall

open Foundation Foundation.PageWalk Foundation.Scan Vmm

attribute [local instance] tableSize_neZero

/-- The byte at physical address `p` is in a page that user code can access. -/
def Machine.UserAccessible (k : Machine) (p : Nat) : Prop :=
  ∃ va w, k.walk va = some w ∧ (∀ e ∈ w.entries, user e = true) ∧ w.physical = p

/-- The two memories have the same bytes in all user-accessible pages. -/
def Machine.AgreeOnUser (k : Machine) (m m' : Nat → UInt8) : Prop :=
  ∀ p, k.UserAccessible p → m' p = m p

/-- `kputs(str)` reads the byte at `va`: it comes to this address before any NUL, and the
address is mapped. -/
def Machine.Prints (k : Machine) (m : Nat → UInt8) (str : UInt64) (p : Nat) : Prop :=
  ∃ va, Visits (· + 1) (load k.translate m) str va ∧ k.translate va = some p

/-! ## Paging -/

theorem mem_entries_walkFrom {mem : Nat → UInt64} {va n table : Nat} {w : Walk}
    (h : walkFrom mem va (n + 1) table = some w) :
    mem (table + 8 * index (n + 1) va) ∈ w.entries := by
  unfold walkFrom at h
  simp only at h
  split at h
  · cases h
  · split at h
    · cases h
      exact List.mem_append_right _ (List.mem_singleton_self _)
    · obtain ⟨w', -, rfl⟩ := Option.map_eq_some_iff.mp h
      exact List.mem_append_left _ List.mem_cons_self

/-- User-accessible pages are mapped through slot 1 of the root table. -/
theorem slot_of_userAccessible (k : Machine) {va : UInt64} {w : Walk} (hw : k.walk va = some w)
    (huser : ∀ e ∈ w.entries, user e = true) : index 3 va.toNat = 1 := by
  have hinv := k.reachable.inv
  have hwalk : vmmWalk k.layout k.vmm k.rest va.toNat = some w := by
    unfold Machine.walk at hw
    split at hw
    · exact hw
    · cases hw
  by_contra h1
  by_cases h0 : index 3 va.toNat = 0
  · have hroot := huser _ (mem_entries_walkFrom hwalk)
    rw [vmmMemory_index k.layout k.vmm k.rest .kernelPml4 (i := 0) h0, hinv.pml4_kernel,
      user_link] at hroot
    cases hroot
  · rw [vmmWalk_outside hinv k.rest h0 h1] at hwalk
    cases hwalk

/-- The middle of the address space is not canonical. -/
theorem translate_middle (k : Machine) : k.translate 0x8000000000000000 = none := by
  have hmiddle : ¬ Canonical (0x8000000000000000 : UInt64).toNat := by
    unfold Canonical
    simp only [UInt64.reduceToNat]
    omega
  unfold Machine.translate Machine.walk
  rw [if_neg hmiddle]
  rfl

/-! ## The string -/

theorem iterate_succ_apply (str : UInt64) (j : Nat) :
    (fun a : UInt64 => a + 1)^[j] str = str + UInt64.ofNat j := by
  induction j generalizing str with
  | zero => simp
  | succ j ih =>
      rw [Function.iterate_succ_apply, ih, UInt64.ofNat_add, UInt64.add_assoc]
      congr 1
      rw [UInt64.add_comm]
      rfl

theorem kputs_ends (k : Machine) (m : Nat → UInt8) (str : UInt64) :
    (kputs k m (2 ^ 64) str).2 ≠ .running := by
  intro hrunning
  have hmapped := isSome_of_running (2 ^ 64) str hrunning (0x8000000000000000 - str).toNat
    (UInt64.toNat_lt _)
  rw [iterate_succ_apply, UInt64.ofNat_toNat] at hmapped
  have hmiddle : str + (0x8000000000000000 - str) = 0x8000000000000000 := by
    rw [UInt64.add_comm, UInt64.sub_add_cancel]
  rw [hmiddle] at hmapped
  unfold load at hmapped
  rw [translate_middle] at hmapped
  cases hmapped

theorem syscallDispatch_ends (k : Machine) (m : Nat → UInt8) (frame : InterruptFrame) :
    (syscallDispatch k m frame).2 ≠ .running := by
  have hkputs := kputs_ends k m frame.rdi
  unfold syscallDispatch
  repeat' split
  · simp only
    cases hend : (kputs k m (2 ^ 64) frame.rdi).2 with
    | nul => exact nofun
    | fault va => exact nofun
    | running => exact absurd hend hkputs
  all_goals exact nofun

/-- A system call shows nothing of the memory closed to user code exactly when it is not
`SYSCALL_PUTS` or each byte of its string is in a user-accessible page. -/
theorem syscallDispatch_private_iff (k : Machine) (m : Nat → UInt8) (frame : InterruptFrame) :
    (∀ m', k.AgreeOnUser m m' → syscallDispatch k m' frame = syscallDispatch k m frame) ↔
      frame.rax ≠ syscallPuts ∨ ∀ p, k.Prints m frame.rdi p → k.UserAccessible p := by
  by_cases hputs : frame.rax = syscallPuts
  · have hdispatch : ∀ m', syscallDispatch k m' frame =
        ((kputs k m' (2 ^ 64) frame.rdi).1,
          afterKputs frame (kputs k m' (2 ^ 64) frame.rdi).2) := fun m' => if_pos hputs
    constructor
    · intro hprivate
      right
      intro p hprints
      obtain ⟨va, hvisits, hva⟩ := hprints
      by_contra hsecret
      obtain ⟨m', hagree, hdiffer⟩ := exists_scan_ne
        (fun q => ¬ k.UserAccessible q) hvisits hva hsecret
      have hsame := hprivate m' fun q hq => hagree q (not_not_intro hq)
      rw [hdispatch, hdispatch] at hsame
      exact hdiffer (2 ^ 64) (kputs_ends k m frame.rdi) (Prod.mk.inj hsame).1
    · intro hcond m' hagree
      have hstring := hcond.resolve_left (not_not_intro hputs)
      have hkputs : kputs k m' (2 ^ 64) frame.rdi = kputs k m (2 ^ 64) frame.rdi := by
        apply scan_congr
        intro va hvisits
        unfold load
        cases hva : k.translate va with
        | none => rfl
        | some p => exact congrArg some (hagree p (hstring p ⟨va, hvisits, hva⟩))
      rw [hdispatch, hdispatch, hkputs]
  · refine iff_of_true ?_ (.inl hputs)
    intro m' _
    unfold syscallDispatch
    rw [if_neg hputs, if_neg hputs]

/-- The machine right after `vmm_init`. -/
def bootMachine : Machine where
  layout := vmmLayoutTwoMiB
  vmm := vmmInit vmmLayoutTwoMiB ⟨fun _ _ => 0, 0, 0⟩
  reachable := .start ⟨_, rfl⟩
  rest := fun _ => 0
  ticks := 0
  currentPid := 1
  processCount := 2

theorem bootMachine_userPdpt (i : Fin 512) : bootMachine.vmm.tables .userPdpt i = 0 := by
  have hother := (fillKernelPd_spec (vmmInitLinks vmmLayoutTwoMiB ⟨fun _ _ => 0, 0, 0⟩) 512
    le_rfl).2.1 .userPdpt (by decide)
  show (vmmInit vmmLayoutTwoMiB ⟨fun _ _ => 0, 0, 0⟩).tables .userPdpt i = 0
  rw [vmmInit_tables, hother]
  rfl

theorem not_userAccessible_bootMachine (p : Nat) : ¬ bootMachine.UserAccessible p := by
  intro h
  obtain ⟨va, w, hw, huser, -⟩ := h
  have hinv := bootMachine.reachable.inv
  have h3 : index 3 va.toNat = (1 : Fin 512) := slot_of_userAccessible bootMachine hw huser
  have hwalk : vmmWalk bootMachine.layout bootMachine.vmm bootMachine.rest va.toNat = none := by
    have hlower : walkFrom (vmmMemory bootMachine.layout bootMachine.vmm bootMachine.rest)
        va.toNat 2 (bootMachine.layout.address .userPdpt).toNat = none := by
      apply walkFrom_of_not_present
      rw [vmmMemory_index _ _ _ .userPdpt (i := ⟨index 2 va.toNat, index_lt 2 va.toNat⟩) rfl,
        bootMachine_userPdpt]
      decide
    rw [vmmWalk, PageWalk.walk, walkFrom_link h3 hinv.pml4_user (.inr rfl), hlower]
    rfl
  unfold Machine.walk at hw
  rw [hwalk] at hw
  split at hw <;> cases hw

theorem kputs_bootMachine {c : UInt8} (hc : c ≠ 0) {n : Nat} (hn : n ≠ 0) :
    (kputs bootMachine (fun p => if p = 0x100000 then c else 0) n 0x100000).1 ≠
      (kputs bootMachine (fun _ => 0) n 0x100000).1 := by
  obtain ⟨n, rfl⟩ := Nat.exists_eq_succ_of_ne_zero hn
  have htranslate : bootMachine.translate 0x100000 = some 0x100000 := by
    have hlow : 0x100000 < 2 ^ 30 := by norm_num
    obtain ⟨leaf, -, hwalk⟩ := vmmWalk_kernel bootMachine.reachable.inv bootMachine.rest hlow
    have hcanonical : Canonical (0x100000 : UInt64).toNat := by
      unfold Canonical
      simp only [UInt64.reduceToNat]
      omega
    unfold Machine.translate Machine.walk
    rw [if_pos hcanonical]
    exact congrArg (Option.map Walk.physical) hwalk
  have hread : load bootMachine.translate (fun _ => 0) 0x100000 = some 0 := by
    unfold load
    rw [htranslate]
    rfl
  have hread' : load bootMachine.translate (fun p => if p = 0x100000 then c else 0) 0x100000 =
      some c := by
    unfold load
    rw [htranslate]
    rfl
  unfold kputs
  exact scan_ne_here hread hread' (iff_of_true rfl hc)

/-- A byte of the kernel at 1 MiB is printed. -/
theorem syscallDispatch_not_private :
    ¬ ∀ (k : Machine) (m m' : Nat → UInt8) (frame : InterruptFrame),
      k.AgreeOnUser m m' → syscallDispatch k m' frame = syscallDispatch k m frame := by
  intro h
  have hsame := h bootMachine (fun _ => 0) (fun p => if p = 0x100000 then 75 else 0)
    ⟨syscallPuts, 0x100000⟩ fun p hp => absurd hp (not_userAccessible_bootMachine p)
  exact kputs_bootMachine (by decide) (by norm_num) (Prod.mk.inj hsame).1

end AcharyaOS.Syscall
