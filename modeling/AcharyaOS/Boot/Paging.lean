import AcharyaOS.Foundation.StackMachine
import AcharyaOS.Vmm.Isolation

/-!
# Paging at boot

The page tables that `boot.S` builds with 32-bit stores before it turns paging on, and the
change to the tables of `vmm_init`: no address gets another translation by it.
-/

namespace AcharyaOS.Boot

open Foundation Foundation.StackMachine Foundation.PageWalk Vmm

attribute [local instance] tableSize_neZero

/-! ## `boot.S` -/

/-- Where the linker put the three tables. -/
structure BootLayout where
  pml4Table : UInt32
  pdptTable : UInt32
  pdTable : UInt32
  pml4_aligned : pml4Table.toNat % 4096 = 0
  pdpt_aligned : pdptTable.toNat % 4096 = 0
  pd_aligned : pdTable.toNat % 4096 = 0
  pml4_ne_pdpt : pml4Table ≠ pdptTable
  pml4_ne_pd : pml4Table ≠ pdTable
  pdpt_ne_pd : pdptTable ≠ pdTable

/-- From the label `fill_pd_table` on, with the index in `ecx`; `none` stands for a loop that
is still running. -/
def fillPdTable (B : BootLayout) : Nat → UInt32 → Memory → Option Memory
  | 0, _, _ => none
  | steps + 1, ecx, m =>
    let eax := 0x200000 * ecx
    let eax := eax ||| 0x83
    let m := m.storeU32 (B.pdTable + 8 * ecx).toNat eax
    let ecx := ecx + 1
    if ecx = 512 then some m else fillPdTable B steps ecx m

/-- Step 1 of `_start`. -/
def buildTables (B : BootLayout) (m : Memory) : Option Memory :=
  let m := m.storeU32 B.pml4Table.toNat (B.pdptTable ||| 0x3)
  let m := m.storeU32 B.pdptTable.toNat (B.pdTable ||| 0x3)
  fillPdTable B 512 0 m

/-- The walk of an address once `cr3` is loaded. -/
def bootWalk (B : BootLayout) (m : Memory) (va : Nat) : Option Walk :=
  walk (word m) B.pml4Table.toNat va

/-- The tables are part of the `.bss`, which the loader fills with zeros. -/
def BssZero (B : BootLayout) (m : Memory) : Prop :=
  ∀ i < 512, m.load 8 (B.pml4Table.toNat + 8 * i) = 0 ∧
    m.load 8 (B.pdptTable.toNat + 8 * i) = 0 ∧ m.load 8 (B.pdTable.toNat + 8 * i) = 0

/-! ## The tables -/

theorem load_storeU32_of_zero {m : Memory} {a : Nat} (h : m.load 8 a = 0) (v : UInt32) :
    (m.storeU32 a v).load 8 a = v.toNat := by
  have hv := v.toNat_lt
  have hsplit : m.load 8 a = m.load 4 a + 256 ^ 4 * m.load 4 (a + 4) := m.load_add 4 4 a
  have hsplit' : (m.storeU32 a v).load 8 a =
      (m.storeU32 a v).load 4 a + 256 ^ 4 * (m.storeU32 a v).load 4 (a + 4) :=
    (m.storeU32 a v).load_add 4 4 a
  have hhigh : (m.storeU32 a v).load 4 (a + 4) = m.load 4 (a + 4) :=
    Memory.load_store_of_sep 4 m (by omega)
  have hlow : (m.storeU32 a v).load 4 a = v.toNat := by
    rw [Memory.storeU32, Memory.load_store]
    exact Nat.mod_eq_of_lt (by omega)
  rw [hsplit', hlow, hhigh]
  omega

/-- The directory after the first `n` entries are made. -/
structure PdFilled (B : BootLayout) (m₀ m : Memory) (n : Nat) : Prop where
  outside : Memory.Outside m₀ m B.pdTable.toNat 4096
  filled : ∀ i < n, m.load 8 (B.pdTable.toNat + 8 * i) = i * 2 ^ 21 + 0x83
  empty : ∀ i, n ≤ i → i < 512 → m.load 8 (B.pdTable.toNat + 8 * i) = 0

theorem toNat_pdEntry {n : Nat} (hn : n < 512) :
    (0x200000 * UInt32.ofNat n ||| 0x83).toNat = n * 2 ^ 21 + 0x83 := by
  have hbase : (0x200000 * UInt32.ofNat n).toNat = n * 2 ^ 21 := by
    rw [UInt32.toNat_mul, UInt32.toNat_ofNat']
    show 2 ^ 21 * (n % 2 ^ 32) % 2 ^ 32 = n * 2 ^ 21
    omega
  have hdvd : 2 ^ 21 ∣ n * 2 ^ 21 := Nat.dvd_mul_left _ _
  rw [UInt32.toNat_or, hbase]
  exact or_eq_add_of_dvd hdvd (by decide)

theorem toNat_pdAddress (B : BootLayout) {n : Nat} (hn : n < 512) :
    (B.pdTable + 8 * UInt32.ofNat n).toNat = B.pdTable.toNat + 8 * n := by
  have hlt := B.pdTable.toNat_lt
  have haligned := B.pd_aligned
  rw [UInt32.toNat_add, UInt32.toNat_mul, UInt32.toNat_ofNat']
  show (B.pdTable.toNat + 8 * (n % 2 ^ 32) % 2 ^ 32) % 2 ^ 32 = B.pdTable.toNat + 8 * n
  omega

theorem PdFilled.step {B : BootLayout} {m₀ m : Memory} {n : Nat} (h : PdFilled B m₀ m n)
    (hn : n < 512) :
    PdFilled B m₀ (m.storeU32 (B.pdTable + 8 * UInt32.ofNat n).toNat
      (0x200000 * UInt32.ofNat n ||| 0x83)) (n + 1) := by
  rw [toNat_pdAddress B hn]
  have hother : ∀ i, i ≠ n → i < 512 → (m.storeU32 (B.pdTable.toNat + 8 * n)
      (0x200000 * UInt32.ofNat n ||| 0x83)).load 8 (B.pdTable.toNat + 8 * i) =
        m.load 8 (B.pdTable.toNat + 8 * i) := by
    intro i hne hi
    exact Memory.load_store_of_sep 4 m (by omega)
  refine ⟨?_, fun i hi => ?_, fun i hlow hi => ?_⟩
  · exact h.outside.store _ (by omega) (by omega)
  · by_cases heq : i = n
    · rw [heq, load_storeU32_of_zero (h.empty n (Nat.le_refl n) hn), toNat_pdEntry hn]
    · rw [hother i heq (by omega), h.filled i (by omega)]
  · rw [hother i (by omega) hi, h.empty i (by omega) hi]

theorem fillPdTable_spec (B : BootLayout) {m₀ : Memory} (k : Nat) :
    ∀ {n : Nat} {m : Memory}, n + (k + 1) = 512 → PdFilled B m₀ m n →
      ∃ m', fillPdTable B (k + 1) (UInt32.ofNat n) m = some m' ∧ PdFilled B m₀ m' 512 := by
  induction k with
  | zero =>
      intro n m hn h
      have hn' : n = 511 := by omega
      subst hn'
      exact ⟨_, rfl, h.step (by decide)⟩
  | succ k ih =>
      intro n m hn h
      have hnext : UInt32.ofNat n + 1 = UInt32.ofNat (n + 1) := by
        rw [UInt32.ofNat_add]
        rfl
      have hmore : ¬ UInt32.ofNat (n + 1) = 512 := by
        intro heq
        have hnat := congrArg UInt32.toNat heq
        rw [UInt32.toNat_ofNat'] at hnat
        have hlt : (n + 1) % 2 ^ 32 = n + 1 := Nat.mod_eq_of_lt (by omega)
        rw [hlt] at hnat
        have hlast : n + 1 = 512 := hnat
        omega
      obtain ⟨m', hm', hfilled⟩ := ih (n := n + 1) (by omega) (h.step (by omega))
      refine ⟨m', ?_, hfilled⟩
      rw [fillPdTable]
      simp only [hnext, if_neg hmore]
      exact hm'

/-- What the code leaves in the three tables. -/
structure BootTables (B : BootLayout) (m : Memory) : Prop where
  pml4 : m.load 8 B.pml4Table.toNat = (B.pdptTable ||| 0x3).toNat
  pml4_rest : ∀ i, 0 < i → i < 512 → m.load 8 (B.pml4Table.toNat + 8 * i) = 0
  pdpt : m.load 8 B.pdptTable.toNat = (B.pdTable ||| 0x3).toNat
  pdpt_rest : ∀ i, 0 < i → i < 512 → m.load 8 (B.pdptTable.toNat + 8 * i) = 0
  pd : ∀ i < 512, m.load 8 (B.pdTable.toNat + 8 * i) = i * 2 ^ 21 + 0x83

theorem buildTables_spec {B : BootLayout} {m : Memory} (hbss : BssZero B m) :
    ∃ m', buildTables B m = some m' ∧ BootTables B m' := by
  have h1 := B.pml4_aligned
  have h2 := B.pdpt_aligned
  have h3 := B.pd_aligned
  have hne1 : B.pml4Table.toNat ≠ B.pdptTable.toNat := fun h => B.pml4_ne_pdpt (UInt32.toNat_inj.mp h)
  have hne2 : B.pml4Table.toNat ≠ B.pdTable.toNat := fun h => B.pml4_ne_pd (UInt32.toNat_inj.mp h)
  have hne3 : B.pdptTable.toNat ≠ B.pdTable.toNat := fun h => B.pdpt_ne_pd (UInt32.toNat_inj.mp h)
  let m₁ := m.storeU32 B.pml4Table.toNat (B.pdptTable ||| 0x3)
  let m₂ := m₁.storeU32 B.pdptTable.toNat (B.pdTable ||| 0x3)
  have hkeep₁ : ∀ a, a + 8 ≤ B.pml4Table.toNat ∨ B.pml4Table.toNat + 4 ≤ a →
      m₁.load 8 a = m.load 8 a := fun a ha => Memory.load_store_of_sep 4 m ha
  have hkeep₂ : ∀ a, a + 8 ≤ B.pdptTable.toNat ∨ B.pdptTable.toNat + 4 ≤ a →
      m₂.load 8 a = m₁.load 8 a := fun a ha => Memory.load_store_of_sep 4 m₁ ha
  have hstart : PdFilled B m₂ m₂ 0 := by
    refine ⟨Memory.Outside.refl _ _ _, fun i hi => absurd hi (Nat.not_lt_zero i), fun i _ hi => ?_⟩
    rw [hkeep₂ _ (by omega), hkeep₁ _ (by omega), (hbss i hi).2.2]
  obtain ⟨m', hm', hfilled⟩ := fillPdTable_spec B 511 (n := 0) rfl hstart
  have hkeep : ∀ a, a + 8 ≤ B.pdTable.toNat ∨ B.pdTable.toNat + 4096 ≤ a →
      m'.load 8 a = m₂.load 8 a := fun a ha => hfilled.outside.load ha
  refine ⟨m', hm', ?_, fun i h0 hi => ?_, ?_, fun i h0 hi => ?_, hfilled.filled⟩
  · rw [hkeep _ (by omega), hkeep₂ _ (by omega)]
    exact load_storeU32_of_zero (hbss 0 (by decide)).1 _
  · rw [hkeep _ (by omega), hkeep₂ _ (by omega), hkeep₁ _ (by omega), (hbss i hi).1]
  · have hzero : m₁.load 8 B.pdptTable.toNat = 0 := by
      rw [hkeep₁ _ (by omega)]
      exact (hbss 0 (by decide)).2.1
    rw [hkeep _ (by omega)]
    exact load_storeU32_of_zero hzero _
  · rw [hkeep _ (by omega), hkeep₂ _ (by omega), hkeep₁ _ (by omega), (hbss i hi).2.1]

/-! ## The walk -/

theorem isEntry_table {m : Memory} {table : UInt32} {a : Nat}
    (haligned : table.toNat % 4096 = 0) (h : m.load 8 a = (table ||| 0x3).toNat) :
    IsEntry 12 table.toNat 3 (word m a) := by
  have hlt := table.toNat_lt
  have hdvd : 2 ^ 12 ∣ table.toNat := Nat.dvd_of_mod_eq_zero haligned
  have hor : (table ||| 0x3).toNat = table.toNat + 3 := by
    rw [UInt32.toNat_or]
    exact or_eq_add_of_dvd hdvd (by decide)
  refine ⟨hdvd, by omega, by decide, ?_⟩
  rw [word, UInt64.toNat_ofNat', h, hor]
  omega

theorem isEntry_page {m : Memory} {a i : Nat} (hi : i < 512)
    (h : m.load 8 a = i * 2 ^ 21 + 0x83) : IsEntry 21 (i * 2 ^ 21) 0x83 (word m a) := by
  refine ⟨Nat.dvd_mul_left _ _, by omega, by decide, ?_⟩
  rw [word, UInt64.toNat_ofNat', h]
  omega

theorem not_present_of_zero {m : Memory} {a : Nat} (h : m.load 8 a = 0) :
    present (word m a) = false := by
  rw [word, h]
  decide

section Walk

variable {B : BootLayout} {m : Memory} {va : Nat}

/-- The first gigabyte is mapped to itself, writable and closed to user code. -/
theorem bootWalk_of_lt (h : BootTables B m) (hva : va < 2 ^ 30) :
    ∃ w, bootWalk B m va = some w ∧ w.physical = va ∧
      ∀ e ∈ w.entries, writable e = true ∧ user e = false := by
  have h3 : index 3 va = 0 := by
    simp only [index, shift]
    omega
  have h2 : index 2 va = 0 := by
    simp only [index, shift]
    omega
  have hpml4 := isEntry_table B.pdpt_aligned h.pml4
  have hpdpt := isEntry_table B.pd_aligned h.pdpt
  have hleaf := isEntry_page (index_lt 1 va) (h.pd (index 1 va) (index_lt 1 va))
  have hbits : ∀ {base : Nat} {e : UInt64}, IsEntry 12 base 3 e →
      present e = true ∧ large e = false ∧ writable e = true ∧ user e = false := by
    intro base e he
    refine ⟨?_, ?_, ?_, ?_⟩
    · exact (he.testBit_eq (by decide)).trans (by decide)
    · exact (he.testBit_eq (by decide)).trans (by decide)
    · exact (he.testBit_eq (by decide)).trans (by decide)
    · exact (he.testBit_eq (by decide)).trans (by decide)
  have hroot : word m (B.pml4Table.toNat + 8 * index 3 va) = word m B.pml4Table.toNat := by
    rw [h3, Nat.mul_zero, Nat.add_zero]
  have hmiddle : word m (B.pdptTable.toNat + 8 * index 2 va) = word m B.pdptTable.toNat := by
    rw [h2, Nat.mul_zero, Nat.add_zero]
  have hphysical : index 1 va * 2 ^ 21 + va % 2 ^ 21 = va := by
    simp only [index, shift]
    omega
  have hwalk : bootWalk B m va = some ⟨[word m B.pml4Table.toNat, word m B.pdptTable.toNat],
      word m (B.pdTable.toNat + 8 * index 1 va), 21, va⟩ := by
    rw [bootWalk, walk, walkFrom_of_table hroot (hbits hpml4).1 (hbits hpml4).2.1,
      hpml4.frame_eq (by decide), walkFrom_of_table hmiddle (hbits hpdpt).1 (hbits hpdpt).2.1,
      hpdpt.frame_eq (by decide), walkFrom_of_large rfl
        ((hleaf.testBit_eq (by decide)).trans (by decide))
        ((hleaf.testBit_eq (by decide)).trans (by decide)),
      hleaf.frame_eq (by decide), hphysical]
    rfl
  refine ⟨_, hwalk, rfl, fun e he => ?_⟩
  simp only [Walk.entries, List.cons_append, List.nil_append, List.mem_cons, List.not_mem_nil,
    or_false] at he
  rcases he with rfl | rfl | rfl
  · exact (hbits hpml4).2.2
  · exact (hbits hpdpt).2.2
  · exact ⟨(hleaf.testBit_eq (by decide)).trans (by decide),
      (hleaf.testBit_eq (by decide)).trans (by decide)⟩

theorem bootWalk_of_ge (h : BootTables B m) (hcanonical : Canonical va) (hva : 2 ^ 30 ≤ va) :
    bootWalk B m va = none := by
  by_cases h3 : index 3 va = 0
  · have h2 : 0 < index 2 va := by
      rcases hcanonical with hlow | hhigh
      all_goals
        simp only [index, shift] at h3 ⊢
        omega
    have hpml4 := isEntry_table B.pdpt_aligned h.pml4
    have hroot : word m (B.pml4Table.toNat + 8 * index 3 va) = word m B.pml4Table.toNat := by
      rw [h3, Nat.mul_zero, Nat.add_zero]
    rw [bootWalk, walk, walkFrom_of_table hroot
      ((hpml4.testBit_eq (by decide)).trans (by decide))
      ((hpml4.testBit_eq (by decide)).trans (by decide)), hpml4.frame_eq (by decide),
      walkFrom_of_not_present
        (not_present_of_zero (h.pdpt_rest (index 2 va) h2 (index_lt 2 va)))]
    rfl
  · have hpos : 0 < index 3 va := Nat.pos_of_ne_zero h3
    exact walkFrom_of_not_present
      (not_present_of_zero (h.pml4_rest (index 3 va) hpos (index_lt 3 va)))

end Walk

/-! ## The change to the tables of `vmm_init` -/

/-- Right after `vmm_init` the entries behind the first one map nothing, nor do those of the
table for user code. -/
theorem vmmInit_empty (L : VmmLayout) (s : VmmState) (i : Fin 512) :
    (i ≠ 0 → (vmmInit L s).tables .kernelPdpt i = 0) ∧ (vmmInit L s).tables .userPdpt i = 0 := by
  have hother := (fillKernelPd_spec (vmmInitLinks L s) 512 le_rfl).2.1
  constructor
  · intro hi
    rw [vmmInit_tables, hother .kernelPdpt (by decide)]
    simp [vmmInitLinks, VmmState.setEntry, Function.update_of_ne, hi]
  · rw [vmmInit_tables, hother .userPdpt (by decide)]
    rfl

theorem vmmWalk_of_ge (L : VmmLayout) (s : VmmState) (rest : Nat → UInt64) {va : Nat}
    (hcanonical : Canonical va) (hva : 2 ^ 30 ≤ va) :
    vmmWalk L (vmmInit L s) rest va = none := by
  have hinv := vmmInv_init L s
  have hzero : present 0 = false := by decide
  by_cases h3 : index 3 va = 0
  · have h2 : index 2 va ≠ 0 := by
      intro h2
      rcases hcanonical with hlow | hhigh
      all_goals
        simp only [index, shift] at h2 h3
        omega
    let i : Fin 512 := ⟨index 2 va, index_lt 2 va⟩
    have hi : i ≠ 0 := fun h => h2 (congrArg Fin.val h)
    have h3' : index 3 va = (0 : Fin 512) := h3
    have hlower : walkFrom (vmmMemory L (vmmInit L s) rest) va 2
        (L.address .kernelPdpt).toNat = none := by
      apply walkFrom_of_not_present
      rw [vmmMemory_index L _ rest _ (i := i) rfl, (vmmInit_empty L s i).1 hi, hzero]
    rw [vmmWalk, walk, walkFrom_link h3' hinv.pml4_kernel (.inl rfl), hlower]
    rfl
  · by_cases h1 : index 3 va = 1
    · let i : Fin 512 := ⟨index 2 va, index_lt 2 va⟩
      have h1' : index 3 va = (1 : Fin 512) := h1
      have hlower : walkFrom (vmmMemory L (vmmInit L s) rest) va 2
          (L.address .userPdpt).toNat = none := by
        apply walkFrom_of_not_present
        rw [vmmMemory_index L _ rest _ (i := i) rfl, (vmmInit_empty L s i).2, hzero]
      rw [vmmWalk, walk, walkFrom_link h1' hinv.pml4_user (.inr rfl), hlower]
      rfl
    · exact vmmWalk_outside hinv rest h3 h1

/-- The code of `boot.S` ends with tables that map the first gigabyte to itself, writable and
closed to user code, and nothing else, and loading the tables of `vmm_init` over them changes
the translation of no address. -/
theorem boot_handover (B : BootLayout) {m : Memory} (hbss : BssZero B m) (L : VmmLayout)
    (s : VmmState) (rest : Nat → UInt64) :
    ∃ m', buildTables B m = some m' ∧ ∀ va, Canonical va →
      (bootWalk B m' va).map Walk.physical = (if va < 2 ^ 30 then some va else none) ∧
      (∀ w, bootWalk B m' va = some w → ∀ e ∈ w.entries, writable e = true ∧ user e = false) ∧
      (vmmWalk L (vmmInit L s) rest va).map Walk.physical =
        (bootWalk B m' va).map Walk.physical := by
  obtain ⟨m', hm', htables⟩ := buildTables_spec hbss
  refine ⟨m', hm', fun va hcanonical => ?_⟩
  by_cases hva : va < 2 ^ 30
  · obtain ⟨w, hw, hphysical, hbits⟩ := bootWalk_of_lt htables hva
    obtain ⟨leaf, -, hkernel⟩ := vmmWalk_kernel (vmmInv_init L s) rest hva
    refine ⟨?_, fun w' hw' => ?_, ?_⟩
    · rw [hw, if_pos hva, Option.map_some, hphysical]
    · rw [hw] at hw'
      cases hw'
      exact hbits
    · rw [hw, hkernel, Option.map_some, Option.map_some, hphysical]
  · have hge := Nat.le_of_not_lt hva
    have hboot := bootWalk_of_ge htables hcanonical hge
    refine ⟨?_, fun w hw => ?_, ?_⟩
    · rw [hboot, if_neg hva]
      rfl
    · rw [hboot] at hw
      cases hw
    · rw [hboot, vmmWalk_of_ge L s rest hcanonical hge]

/-- Tables at 1 MiB. -/
def bootLayoutOneMiB : BootLayout where
  pml4Table := 0x100000
  pdptTable := 0x101000
  pdTable := 0x102000
  pml4_aligned := rfl
  pdpt_aligned := rfl
  pd_aligned := rfl
  pml4_ne_pdpt := by decide
  pml4_ne_pd := by decide
  pdpt_ne_pd := by decide

theorem load_zero (n a : Nat) : Memory.load n (fun _ => 0) a = 0 := by
  induction n generalizing a with
  | zero => rfl
  | succ n ih =>
      rw [Memory.load, ih]
      rfl

theorem boot_handover_oneMiB :
    ∃ m', buildTables bootLayoutOneMiB (fun _ => 0) = some m' ∧ ∀ va, Canonical va →
      (bootWalk bootLayoutOneMiB m' va).map Walk.physical =
        (if va < 2 ^ 30 then some va else none) ∧
      (∀ w, bootWalk bootLayoutOneMiB m' va = some w →
        ∀ e ∈ w.entries, writable e = true ∧ user e = false) ∧
      (vmmWalk vmmLayoutTwoMiB (vmmInit vmmLayoutTwoMiB ⟨fun _ _ => 0, 0, 0⟩) (fun _ => 0)
        va).map Walk.physical = (bootWalk bootLayoutOneMiB m' va).map Walk.physical :=
  boot_handover bootLayoutOneMiB
    (fun _ _ => ⟨load_zero 8 _, load_zero 8 _, load_zero 8 _⟩)
    vmmLayoutTwoMiB ⟨fun _ _ => 0, 0, 0⟩ (fun _ => 0)

end AcharyaOS.Boot
