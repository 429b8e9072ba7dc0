import AcharyaOS.Foundation.Run
import AcharyaOS.Foundation.Words
import AcharyaOS.Heap.Code

/-!
# Allocation safety

Every block handed out lies between the cursor before the call and the cursor
after it, so blocks never meet, and the cursor never passes the end of the heap.
-/

namespace AcharyaOS.Heap

open Foundation Foundation.Run

/-- A block handed out: its address and the size asked for. -/
structure KheapBlock where
  address : UInt64
  size : UInt64

/-- The addresses of a block. -/
def KheapBlock.range (b : KheapBlock) : Set Nat :=
  Set.Ico b.address.toNat (b.address.toNat + b.size.toNat)

/-- The heap and, for the specification only, the blocks handed out so far. -/
structure KheapRun where
  state : KheapState
  blocks : List KheapBlock

/-- What happens between two looks at the heap: a call, or a write to memory by
anyone else. -/
inductive KheapEvent
  | call (c : KheapCall)
  | store (address : UInt64) (value : UInt8)

def kheapStep (g : KheapRun) : KheapEvent → KheapRun
  | .call c =>
      let r := c.perform g.state
      ⟨r.1, if r.2 = 0 then g.blocks else ⟨r.2, c.size⟩ :: g.blocks⟩
  | .store address value =>
      ⟨{ g.state with memory := Function.update g.state.memory address value }, g.blocks⟩

/-- The runs from `kheap_init` on. -/
def KheapReachable (e : KernelEnd) : KheapRun → Prop :=
  Reach (fun g => ∃ memory, g = ⟨kheapInit e.address memory, []⟩) kheapStep fun _ _ => True

/-! ## Alignment -/

theorem toNat_alignUp (value : UInt64) {alignment : UInt64} {k : Nat} (hk : k < 64)
    (halign : alignment.toNat = 2 ^ k) (hroom : value.toNat + 2 ^ k < 2 ^ 64) :
    (alignUp value alignment).toNat = (value.toNat + 2 ^ k - 1) / 2 ^ k * 2 ^ k := by
  have hpos : 0 < 2 ^ k := Nat.two_pow_pos k
  have hsplit : 2 ^ 64 = 2 ^ (64 - k) * 2 ^ k := by
    rw [← Nat.pow_add, Nat.sub_add_cancel hk.le]
  have hpred : (alignment - 1).toNat = 2 ^ k - 1 := by
    rw [UInt64.toNat_sub_of_le]
    · rw [halign]
      rfl
    · rw [UInt64.le_iff_toNat_le, halign]
      exact hpos
  have hmask : (~~~(alignment - 1)).toNat = (2 ^ (64 - k) - 1) * 2 ^ k := by
    rw [UInt64.toNat_not, hpred, Nat.sub_mul, ← hsplit]
    have hsize : UInt64.size = 2 ^ 64 := rfl
    omega
  have hsum : (value + alignment - 1).toNat = value.toNat + 2 ^ k - 1 := by
    have hadd : (value + alignment).toNat = value.toNat + 2 ^ k := by
      rw [UInt64.toNat_add, halign, Nat.mod_eq_of_lt hroom]
    rw [UInt64.toNat_sub_of_le, hadd]
    · rfl
    · rw [UInt64.le_iff_toNat_le, hadd]
      exact hpos.trans_le (Nat.le_add_left _ _)
  rw [alignUp, toNat_and_fieldMask _ hmask, hsum, Nat.mod_eq_of_lt]
  rw [Nat.div_lt_iff_lt_mul hpos, ← hsplit]
  omega

/-! ## One call -/

/-- What a call that hands out a block does. -/
structure KheapServed (s : KheapState) (c : KheapCall) (r : KheapState × UInt64) : Prop where
  size_pos : 0 < c.size.toNat
  aligned : r.2.toNat % 16 = 0
  current_le : s.heapCurrent.toNat ≤ r.2.toNat
  le_end : r.2.toNat + c.size.toNat ≤ s.heapEnd.toNat
  current_eq : r.1.heapCurrent.toNat = r.2.toNat + c.size.toNat
  start_eq : r.1.heapStart = s.heapStart
  end_eq : r.1.heapEnd = s.heapEnd
  count_eq : r.1.allocationCount = s.allocationCount + 1
  memory_eq : ∀ a : UInt64, a.toNat ∉ (KheapBlock.mk r.2 c.size).range →
    r.1.memory a = s.memory a
  zeroed : ∀ size, c = .kzalloc size →
    ∀ a : UInt64, a.toNat ∈ (KheapBlock.mk r.2 c.size).range → r.1.memory a = 0

theorem kmalloc_cases {s : KheapState} (size : UInt64)
    (hcurrent : s.heapCurrent.toNat ≤ s.heapEnd.toNat)
    (hend : s.heapEnd.toNat + 16 < 2 ^ 64) :
    kmalloc s size = (s, 0) ∨
      KheapServed s (.kmalloc size) (kmalloc s size) := by
  by_cases hzero : size = 0
  · left
    simp only [kmalloc, hzero, beq_self_eq_true, if_true]
  · have hne : (size == 0) = false := beq_eq_false_iff_ne.mpr hzero
    have hpos : 0 < size.toNat := UInt64.lt_iff_toNat_lt.mp (UInt64.pos_iff_ne_zero.mpr hzero)
    have halign := toNat_alignUp s.heapCurrent (k := 4) (by decide)
      (by decide : kheapAlignment.toNat = 2 ^ 4) (by omega)
    have heq : kmalloc s size =
        if alignUp s.heapCurrent kheapAlignment + size < alignUp s.heapCurrent kheapAlignment ||
          alignUp s.heapCurrent kheapAlignment + size > s.heapEnd then (s, 0)
        else ({ s with
          heapCurrent := alignUp s.heapCurrent kheapAlignment + size
          allocationCount := s.allocationCount + 1 }, alignUp s.heapCurrent kheapAlignment) := by
      simp only [kmalloc, hne, Bool.false_eq_true, if_false]
    generalize alignUp s.heapCurrent kheapAlignment = allocation at halign heq
    rw [heq]
    split
    · exact Or.inl rfl
    · next hfits =>
      right
      simp only [Bool.or_eq_true, decide_eq_true_eq, not_or, gt_iff_lt] at hfits
      obtain ⟨hnowrap, hle⟩ := hfits
      have hnext := toNat_add_of_not_lt hnowrap
      rw [UInt64.not_lt, UInt64.le_iff_toNat_le, hnext] at hle
      exact {
        size_pos := hpos
        aligned := by
          show allocation.toNat % 16 = 0
          omega
        current_le := by
          show s.heapCurrent.toNat ≤ allocation.toNat
          omega
        le_end := hle
        current_eq := hnext
        start_eq := rfl
        end_eq := rfl
        count_eq := rfl
        memory_eq := fun _ _ => rfl
        zeroed := fun _ h => nomatch h }

theorem memsetZero_of_mem {memory : UInt64 → UInt8} {ptr size a : UInt64}
    (ha : a.toNat ∈ (KheapBlock.mk ptr size).range) : memsetZero memory ptr size a = 0 :=
  if_pos ha

theorem memsetZero_of_notMem {memory : UInt64 → UInt8} {ptr size a : UInt64}
    (ha : a.toNat ∉ (KheapBlock.mk ptr size).range) :
    memsetZero memory ptr size a = memory a :=
  if_neg ha

theorem perform_cases {s : KheapState} (c : KheapCall)
    (hcurrent : s.heapCurrent.toNat ≤ s.heapEnd.toNat)
    (hend : s.heapEnd.toNat + 16 < 2 ^ 64) (hpos : 0 < s.heapCurrent.toNat) :
    c.perform s = (s, 0) ∨ (c.perform s).2 ≠ 0 ∧ KheapServed s c (c.perform s) := by
  have hnonnull : ∀ {d : KheapCall} {r}, KheapServed s d r → r.2 ≠ 0 := by
    intro d r h hzero
    have := h.current_le
    rw [hzero] at this
    exact absurd (hpos.trans_le this) (by decide)
  cases c with
  | kmalloc size =>
      rcases kmalloc_cases size hcurrent hend with h | h
      · exact Or.inl h
      · exact Or.inr ⟨hnonnull h, h⟩
  | kzalloc size =>
      simp only [KheapCall.perform, kzalloc]
      rcases kmalloc_cases size hcurrent hend with h | h
      · left
        simp [h]
      · right
        have hne := hnonnull h
        rw [if_pos (by simpa using hne)]
        refine ⟨hne, { h with memory_eq := ?_, zeroed := ?_ }⟩
        · intro a ha
          exact (memsetZero_of_notMem ha).trans (h.memory_eq a ha)
        · rintro size' hsize a ha
          exact memsetZero_of_mem ha
  | kfree ptr => exact Or.inl rfl

/-! ## Runs -/

/-- The invariant of the heap: every block handed out is aligned and lies between the
start and the cursor, and the cursor is at most the end. -/
structure KheapInv (g : KheapRun) : Prop where
  start_pos : 0 < g.state.heapStart.toNat
  current_ge : g.state.heapStart.toNat ≤ g.state.heapCurrent.toNat
  current_le : g.state.heapCurrent.toNat ≤ g.state.heapEnd.toNat
  end_room : g.state.heapEnd.toNat + 16 < 2 ^ 64
  aligned : ∀ b ∈ g.blocks, b.address.toNat % 16 = 0
  inside : ∀ b ∈ g.blocks, b.range ⊆ Set.Ico g.state.heapStart.toNat g.state.heapCurrent.toNat
  disjoint : g.blocks.Pairwise fun b b' => Disjoint b.range b'.range
  count_eq : g.state.allocationCount.toNat = g.blocks.length
  count_le : g.state.heapStart.toNat + g.blocks.length ≤ g.state.heapCurrent.toNat

theorem kheapInv_init (e : KernelEnd) (memory : UInt64 → UInt8) :
    KheapInv ⟨kheapInit e.address memory, []⟩ := by
  have hpos := e.pos
  have hroom := e.room
  have halign := toNat_alignUp e.address (k := 12) (by decide)
    (by decide : (4096 : UInt64).toNat = 2 ^ 12) (by omega)
  have hend : (alignUp e.address 4096 + kheapSizeBytes).toNat =
      (alignUp e.address 4096).toNat + 1024 * 1024 := by
    have hsize : kheapSizeBytes.toNat = 1024 * 1024 := by decide
    rw [UInt64.toNat_add, hsize]
    omega
  exact {
    start_pos := by
      show 0 < (alignUp e.address 4096).toNat
      omega
    current_ge := le_rfl
    current_le := by
      show (alignUp e.address 4096).toNat ≤ (alignUp e.address 4096 + kheapSizeBytes).toNat
      omega
    end_room := by
      show (alignUp e.address 4096 + kheapSizeBytes).toNat + 16 < 2 ^ 64
      omega
    aligned := fun _ hb => nomatch hb
    inside := fun _ hb => nomatch hb
    disjoint := .nil
    count_eq := rfl
    count_le := le_rfl }

theorem KheapInv.perform_cases {g : KheapRun} (h : KheapInv g) (c : KheapCall) :
    c.perform g.state = (g.state, 0) ∨
      (c.perform g.state).2 ≠ 0 ∧ KheapServed g.state c (c.perform g.state) :=
  Heap.perform_cases c h.current_le h.end_room (h.start_pos.trans_le h.current_ge)

/-- The block of a served call lies behind every earlier one. -/
theorem KheapServed.disjoint {g : KheapRun} (h : KheapInv g) {c : KheapCall}
    {r : KheapState × UInt64} (hr : KheapServed g.state c r) {b : KheapBlock}
    (hb : b ∈ g.blocks) : Disjoint (KheapBlock.mk r.2 c.size).range b.range := by
  rw [Set.disjoint_left]
  intro x hx hxb
  have hbelow := (h.inside b hb hxb).2
  exact absurd (hr.current_le.trans hx.1) (Nat.not_le.mpr hbelow)

/-- A served call keeps the invariant, with its block added. -/
theorem KheapInv.served {g : KheapRun} (h : KheapInv g) {c : KheapCall}
    {r : KheapState × UInt64} (hr : KheapServed g.state c r) :
    KheapInv ⟨r.1, ⟨r.2, c.size⟩ :: g.blocks⟩ := by
  have hcurrent := hr.current_eq
  have hle := hr.current_le
  have hend := hr.le_end
  have hge := h.current_ge
  have hsize := hr.size_pos
  have hcount := h.count_le
  have hroom := h.end_room
  refine {
    start_pos := hr.start_eq ▸ h.start_pos
    current_ge := ?_, current_le := ?_, end_room := hr.end_eq ▸ h.end_room
    aligned := List.forall_mem_cons.mpr ⟨hr.aligned, h.aligned⟩
    inside := List.forall_mem_cons.mpr ⟨?_, ?_⟩
    disjoint := List.pairwise_cons.mpr ⟨fun b hb => hr.disjoint h hb, h.disjoint⟩
    count_eq := ?_, count_le := ?_ } <;> simp only [hr.start_eq, hr.end_eq, hcurrent]
  · omega
  · omega
  · exact Set.Ico_subset_Ico (hge.trans hle) le_rfl
  · intro b hb
    exact (h.inside b hb).trans (Set.Ico_subset_Ico le_rfl (by omega))
  · -- each block has at least one byte, so the counter cannot wrap inside the heap
    rw [hr.count_eq, UInt64.toNat_add, h.count_eq, List.length_cons]
    exact Nat.mod_eq_of_lt (by change g.blocks.length + 1 < 2 ^ 64; omega)
  · simp only [List.length_cons]
    omega

theorem KheapInv.step {g : KheapRun} (h : KheapInv g) (event : KheapEvent) :
    KheapInv (kheapStep g event) := by
  cases event with
  | call c =>
      rcases h.perform_cases c with hnull | ⟨hne, hserved⟩
      · simpa only [kheapStep, hnull, if_true] using h
      · simpa only [kheapStep, hne, if_false] using h.served hserved
  | store address value => exact { h with }

theorem KheapReachable.inv {e : KernelEnd} {g : KheapRun} (h : KheapReachable e g) :
    KheapInv g := by
  refine h.invariant ?_ fun g event hg _ => hg.step event
  rintro _ ⟨memory, rfl⟩
  exact kheapInv_init e memory

/-- What one call does to the heap and to the bytes of the blocks handed out before. -/
structure KheapCallSafe (g : KheapRun) (c : KheapCall) (r : KheapState × UInt64) : Prop where
  null : r.2 = 0 → r.1.heapCurrent = g.state.heapCurrent ∧
    r.1.allocationCount = g.state.allocationCount
  zeroed : r.2 ≠ 0 → ∀ size, c = .kzalloc size →
    ∀ a : UInt64, a.toNat ∈ (KheapBlock.mk r.2 size).range → r.1.memory a = 0
  kept : ∀ b ∈ g.blocks, ∀ a : UInt64, a.toNat ∈ b.range → r.1.memory a = g.state.memory a

theorem KheapInv.callSafe {g : KheapRun} (h : KheapInv g) (c : KheapCall) :
    KheapCallSafe g c (c.perform g.state) := by
  rcases h.perform_cases c with hnull | ⟨hne, hserved⟩
  · rw [hnull]
    exact {
      null := fun _ => ⟨rfl, rfl⟩
      zeroed := fun hne => absurd rfl hne
      kept := fun _ _ _ _ => rfl }
  · exact {
      null := fun hnull => absurd hnull hne
      zeroed := by
        rintro _ size rfl
        exact hserved.zeroed size rfl
      kept := fun b hb a ha => hserved.memory_eq a fun hmem =>
        Set.disjoint_left.mp (hserved.disjoint h hb) hmem ha }

/-- In every run of the heap the blocks handed out are aligned, inside the heap and
pairwise disjoint, the counter is their number, and every further call is safe. -/
theorem kheap_safe (e : KernelEnd) (g : KheapRun) (h : KheapReachable e g) :
    (∀ b ∈ g.blocks, b.address.toNat % 16 = 0 ∧
      b.range ⊆ Set.Ico g.state.heapStart.toNat g.state.heapEnd.toNat) ∧
    (g.blocks.Pairwise fun b b' => Disjoint b.range b'.range) ∧
    g.state.allocationCount.toNat = g.blocks.length ∧
    ∀ c : KheapCall, KheapCallSafe g c (c.perform g.state) := by
  have hinv := h.inv
  refine ⟨fun b hb => ⟨hinv.aligned b hb, ?_⟩, hinv.disjoint, hinv.count_eq, hinv.callSafe⟩
  exact (hinv.inside b hb).trans (Set.Ico_subset_Ico le_rfl hinv.current_le)

/-- A heap behind a kernel that ends at 2 MiB. -/
def kernelEndTwoMiB : KernelEnd := ⟨0x200000, by decide, by decide⟩

/-- The heap after the two calls of `kheap_self_test`. -/
def kheapSelfTest : KheapRun :=
  runSteps kheapStep ⟨kheapInit kernelEndTwoMiB.address fun _ => 0xFF, []⟩
    [.call (.kmalloc 32), .call (.kzalloc 64)]

theorem kheap_safe_selfTest :
    kheapSelfTest.blocks.length = 2 ∧
      kheapSelfTest.blocks.Pairwise fun b b' => Disjoint b.range b'.range :=
  ⟨by decide, (kheap_safe kernelEndTwoMiB kheapSelfTest
    (Reach.runSteps _ (.start ⟨_, rfl⟩) (by repeat constructor))).2.1⟩

end AcharyaOS.Heap
