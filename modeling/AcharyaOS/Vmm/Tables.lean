import AcharyaOS.Foundation.PageWalk
import AcharyaOS.Foundation.Run
import AcharyaOS.Vmm.Code

/-!
# What the page tables hold

The entries of the five tables over every sequence of mapping calls, and the
memory a page walk reads them from.
-/

namespace AcharyaOS.Vmm

open Foundation Foundation.Run Foundation.PageWalk

theorem tableSize_neZero : NeZero 512 := ⟨by decide⟩

attribute [local instance] tableSize_neZero

/-! ## Physical memory -/

theorem VmmTable.mem_all (t : VmmTable) : t ∈ VmmTable.all := by
  cases t <;> decide

/-- The entries a walk reads: the tables at their addresses, and anything elsewhere. -/
def vmmMemory (L : VmmLayout) (s : VmmState) (rest : Nat → UInt64) (a : Nat) : UInt64 :=
  match VmmTable.all.find? fun t => (L.address t).toNat == a / 4096 * 4096 with
  | some t => s.tables t (Fin.ofNat 512 (a / 8))
  | none => rest a

theorem vmmMemory_entry (L : VmmLayout) (s : VmmState) (rest : Nat → UInt64) (t : VmmTable)
    (i : Fin 512) : vmmMemory L s rest ((L.address t).toNat + 8 * i) = s.tables t i := by
  have haligned := L.aligned t
  have hpage : ((L.address t).toNat + 8 * i) / 4096 * 4096 = (L.address t).toNat := by omega
  have hslot : Fin.ofNat 512 (((L.address t).toNat + 8 * i) / 8) = i := by
    apply Fin.ext
    simp only [Fin.ofNat]
    omega
  have hfind : VmmTable.all.find?
      (fun t' => (L.address t').toNat == (L.address t).toNat) = some t := by
    cases hfound : VmmTable.all.find? fun t' => (L.address t').toNat == (L.address t).toNat with
    | none =>
        have := List.find?_eq_none.mp hfound t t.mem_all
        simp at this
    | some t' =>
        have hsame := List.find?_some hfound
        rw [beq_iff_eq, UInt64.toNat_inj] at hsame
        rw [L.injective hsame]
  simp only [vmmMemory, hpage, hfind, hslot]

/-- The page walk of `kernel_pml4`. -/
def vmmWalk (L : VmmLayout) (s : VmmState) (rest : Nat → UInt64) (va : Nat) : Option Walk :=
  walk (vmmMemory L s rest) (L.address .kernelPml4).toNat va

/-! ## Table indices and entries -/

theorem tableIndex_eq (va k : UInt64) (hk : k.toNat < 64) :
    (tableIndex ((va >>> k) &&& 0x1FF)).val = va.toNat / 2 ^ k.toNat % 2 ^ 9 := by
  have hmask : (0x1FF : UInt64).toNat = 2 ^ 9 - 1 := rfl
  simp only [tableIndex, Fin.ofNat, toNat_shiftRight_and va hk hmask]
  exact Nat.mod_mod _ _

theorem vmmMemory_index (L : VmmLayout) (s : VmmState) (rest : Nat → UInt64) (t : VmmTable)
    {n va : Nat} {i : Fin 512} (hi : index n va = i) :
    vmmMemory L s rest ((L.address t).toNat + 8 * index n va) = s.tables t i := by
  rw [hi]
  exact vmmMemory_entry L s rest t i

theorem isEntry_link (L : VmmLayout) (t : VmmTable) (flags : UInt64)
    (hflags : flags.toNat < 2 ^ 12) :
    IsEntry 12 (L.address t).toNat flags.toNat (L.address t ||| flags) :=
  .of_or (Nat.dvd_of_mod_eq_zero (L.aligned t)) (L.lt t) hflags

theorem present_link (L : VmmLayout) (t : VmmTable) {flags : UInt64}
    (hflags : flags = 3 ∨ flags = 7) : present (L.address t ||| flags) = true := by
  rcases hflags with rfl | rfl <;>
  · rw [present, (isEntry_link L t _ (by decide)).testBit_eq (by decide)]
    decide

/-- A walk goes on in the table an entry points to. -/
theorem walkFrom_link {L : VmmLayout} {s : VmmState} {rest : Nat → UInt64} {t t' : VmmTable}
    {n va : Nat} {i : Fin 512} {flags : UInt64} (hi : index (n + 1) va = i)
    (hentry : s.tables t i = L.address t' ||| flags) (hflags : flags = 3 ∨ flags = 7) :
    walkFrom (vmmMemory L s rest) va (n + 1) (L.address t).toNat =
      (walkFrom (vmmMemory L s rest) va n (L.address t').toNat).map
        fun w => { w with upper := (L.address t' ||| flags) :: w.upper } := by
  have he : IsEntry 12 (L.address t').toNat flags.toNat (L.address t' ||| flags) :=
    isEntry_link L t' flags (by rcases hflags with rfl | rfl <;> decide)
  have hlarge : large (L.address t' ||| flags) = false := by
    rw [large, he.testBit_eq (by decide)]
    rcases hflags with rfl | rfl <;> decide
  rw [walkFrom_of_table ((vmmMemory_index L s rest t hi).trans hentry)
    (present_link L t' hflags) hlarge, he.frame_eq (by decide)]

/-! ## The invariant -/

/-- What `vmm_init` sets up and no mapping call changes, with the one link that the first
accepted call adds. -/
structure VmmInv (L : VmmLayout) (s : VmmState) : Prop where
  pml4_kernel : s.tables .kernelPml4 0 = L.address .kernelPdpt ||| 3
  pml4_user : s.tables .kernelPml4 1 = L.address .userPdpt ||| 7
  pml4_rest : ∀ i, i ≠ 0 → i ≠ 1 → s.tables .kernelPml4 i = 0
  kernelPdpt : s.tables .kernelPdpt 0 = L.address .kernelPd ||| 3
  kernelPd : ∀ i : Fin 512, s.tables .kernelPd i = UInt64.ofNat i * vmmPageSize2m ||| 0x83
  userPdpt : s.tables .userPdpt 0 = 0 ∨ s.tables .userPdpt 0 = L.address .userPd ||| 7
  cr3 : s.cr3 = L.address .kernelPml4

section SetEntry

variable (s : VmmState) (t : VmmTable) (i : Fin 512) (e : UInt64)

theorem setEntry_same : (s.setEntry t i e).tables t i = e := by
  simp only [VmmState.setEntry, Function.update_self]

theorem setEntry_table {t' : VmmTable} (h : t' ≠ t) :
    (s.setEntry t i e).tables t' = s.tables t' := by
  simp only [VmmState.setEntry, Function.update_of_ne h]

theorem setEntry_slot {j : Fin 512} (h : j ≠ i) :
    (s.setEntry t i e).tables t j = s.tables t j := by
  simp only [VmmState.setEntry, Function.update_self, Function.update_of_ne h]

theorem setEntry_self (h : s.tables t i = e) : s.setEntry t i e = s := by
  simp only [VmmState.setEntry, ← h, Function.update_eq_self]

end SetEntry

theorem fillKernelPd_spec (s : VmmState) (pages : Nat) (hpages : pages ≤ 512) :
    (∀ i : Fin 512, i.val < pages →
      (fillKernelPd s pages).tables .kernelPd i = UInt64.ofNat i * vmmPageSize2m ||| 0x83) ∧
    (∀ t, t ≠ .kernelPd → (fillKernelPd s pages).tables t = s.tables t) ∧
    (fillKernelPd s pages).cr3 = s.cr3 := by
  induction pages with
  | zero => exact ⟨fun _ hi => absurd hi (Nat.not_lt_zero _), fun _ _ => rfl, rfl⟩
  | succ pages ih =>
      obtain ⟨hdone, hother, hcr3⟩ := ih (Nat.le_of_succ_le hpages)
      have hstep : fillKernelPd s (pages + 1) = (fillKernelPd s pages).setEntry .kernelPd
          (Fin.ofNat 512 pages) (UInt64.ofNat pages * vmmPageSize2m ||| 0x83) := by
        simp only [fillKernelPd, List.range_succ, List.foldl_append, List.foldl_cons,
          List.foldl_nil, UInt64.or_assoc]
        rfl
      rw [hstep]
      refine ⟨fun i hi => ?_, fun t ht => ?_, hcr3⟩
      · rcases Nat.lt_succ_iff_lt_or_eq.mp hi with hlt | heq
        · have hne : i ≠ Fin.ofNat 512 pages := by
            rintro rfl
            simp only [Fin.ofNat] at hlt
            omega
          rw [setEntry_slot _ _ _ _ hne, hdone i hlt]
        · have hsame : Fin.ofNat 512 pages = i := by
            apply Fin.ext
            simp only [Fin.ofNat]
            omega
          rw [hsame, setEntry_same, heq]
      · rw [setEntry_table _ _ _ _ ht, hother t ht]

/-- The state of `vmm_init` when its loop starts. -/
def vmmInitLinks (L : VmmLayout) (s : VmmState) : VmmState :=
  let s := { s with tables := fun _ _ => 0 }
  let s := s.setEntry .kernelPml4 0 (L.address .kernelPdpt ||| 3)
  let s := s.setEntry .kernelPdpt 0 (L.address .kernelPd ||| 3)
  let s := s.setEntry .kernelPml4 1 (L.address .userPdpt ||| 7)
  { s with mappedPages := 512 }

theorem vmmInit_tables (L : VmmLayout) (s : VmmState) :
    (vmmInit L s).tables = (fillKernelPd (vmmInitLinks L s) 512).tables := by
  simp only [vmmInit, vmmInitLinks, UInt64.or_assoc]
  rfl

theorem vmmInv_init (L : VmmLayout) (s : VmmState) : VmmInv L (vmmInit L s) := by
  obtain ⟨hpd, hother, -⟩ := fillKernelPd_spec (vmmInitLinks L s) 512 le_rfl
  have hlinks : ∀ t, t ≠ .kernelPd → (vmmInit L s).tables t = (vmmInitLinks L s).tables t := by
    intro t ht
    rw [vmmInit_tables, hother t ht]
  refine {
    pml4_kernel := ?_
    pml4_user := ?_
    pml4_rest := fun i h0 h1 => ?_
    kernelPdpt := ?_
    kernelPd := fun i => (congrFun (congrFun (vmmInit_tables L s) _) i).trans (hpd i i.isLt)
    userPdpt := .inl ?_
    cr3 := rfl }
  all_goals rw [hlinks _ (by decide)]
            simp only [vmmInitLinks]
  · rw [setEntry_slot _ _ _ _ (by decide), setEntry_table _ _ _ _ (by decide), setEntry_same]
  · rw [setEntry_same]
  · rw [setEntry_slot _ _ _ _ h1, setEntry_table _ _ _ _ (by decide), setEntry_slot _ _ _ _ h0]
  · rw [setEntry_table _ _ _ _ (by decide), setEntry_same]
  · rw [setEntry_table _ _ _ _ (by decide), setEntry_table _ _ _ _ (by decide),
      setEntry_table _ _ _ _ (by decide)]

/-! ## Mapping calls -/

/-- The arguments that pass every check of `vmm_map_user_2m`. -/
structure VmmAccepts (va pa : UInt64) : Prop where
  va_aligned : va.toNat % 2 ^ 21 = 0
  pa_aligned : pa.toNat % 2 ^ 21 = 0
  pml4 : index 3 va.toNat = 1
  pdpt : index 2 va.toNat = 0

instance (va pa : UInt64) : Decidable (VmmAccepts va pa) :=
  decidable_of_iff (va.toNat % 2 ^ 21 = 0 ∧ pa.toNat % 2 ^ 21 = 0 ∧ index 3 va.toNat = 1 ∧
      index 2 va.toNat = 0)
    ⟨fun ⟨hva, hpa, h3, h2⟩ => ⟨hva, hpa, h3, h2⟩, fun ⟨hva, hpa, h3, h2⟩ => ⟨hva, hpa, h3, h2⟩⟩

theorem mod_page_eq_zero (x : UInt64) : x % vmmPageSize2m = 0 ↔ x.toNat % 2 ^ 21 = 0 := by
  rw [← UInt64.toNat_inj, UInt64.toNat_mod]
  rfl

theorem pagePresent_eq (e : UInt64) : (e &&& pagePresent == 0) = !present e :=
  and_bit_beq_zero e (k := 0) rfl

theorem pageHuge2m_eq (e : UInt64) : (e &&& pageHuge2m == 0) = !large e :=
  and_bit_beq_zero e (k := 7) rfl

/-- The slot of `user_pd` that the call writes. -/
def userPdSlot (va : UInt64) : Fin 512 := tableIndex ((va >>> 21) &&& 0x1FF)

theorem userPdSlot_val (va : UInt64) : (userPdSlot va).val = index 1 va.toNat :=
  tableIndex_eq va 21 (by decide)

theorem shifted_eq_iff (va k : UInt64) (hk : k.toNat < 64) (c : Nat) (hc : c < 2 ^ 9) :
    (va >>> k) &&& 0x1FF = UInt64.ofNat c ↔ va.toNat / 2 ^ k.toNat % 2 ^ 9 = c := by
  have hmask : (0x1FF : UInt64).toNat = 2 ^ 9 - 1 := rfl
  rw [← UInt64.toNat_inj, toNat_shiftRight_and va hk hmask,
    UInt64.toNat_ofNat', Nat.mod_eq_of_lt (hc.trans (by decide))]

theorem vmmMapUser2m_of_rejected (L : VmmLayout) (s : VmmState) {va pa : UInt64}
    (h : ¬ VmmAccepts va pa) : vmmMapUser2m L s va pa = (s, -1) := by
  have hpml4 := shifted_eq_iff va 39 (by decide) 1 (by decide)
  have hpdpt := shifted_eq_iff va 30 (by decide) 0 (by decide)
  have hva := mod_page_eq_zero va
  have hpa := mod_page_eq_zero pa
  simp only [vmmMapUser2m, Bool.or_eq_true, bne_iff_ne, ne_eq, ite_not]
  split
  · rfl
  · next haligned =>
    rw [not_or, not_not, not_not] at haligned
    split
    · rfl
    · split
      · next h39 =>
        split
        · next h30 =>
          exact absurd
            ⟨hva.mp haligned.1, hpa.mp haligned.2, hpml4.mp h39, hpdpt.mp h30⟩ h
        · rfl
      · rfl

theorem vmmMapUser2m_of_checks (L : VmmLayout) (s : VmmState) {va pa : UInt64}
    (h : VmmAccepts va pa) :
    vmmMapUser2m L s va pa =
      (let s := if s.tables .kernelPml4 1 &&& pagePresent == 0 then
          s.setEntry .kernelPml4 1 (L.address .userPdpt ||| 7) else s
        let s := if s.tables .userPdpt 0 &&& pagePresent == 0 then
          s.setEntry .userPdpt 0 (L.address .userPd ||| 7) else s
        (s.setEntry .userPd (userPdSlot va) (pa ||| 0x87), 0)) := by
  have hva := (mod_page_eq_zero va).mpr h.va_aligned
  have hpa := (mod_page_eq_zero pa).mpr h.pa_aligned
  have hpml4 : (va >>> 39) &&& 0x1FF = 1 :=
    (shifted_eq_iff va 39 (by decide) 1 (by decide)).mpr h.pml4
  have hpdpt : (va >>> 30) &&& 0x1FF = 0 :=
    (shifted_eq_iff va 30 (by decide) 0 (by decide)).mpr h.pdpt
  have hge : ¬ va < vmmIdentityMapSize := by
    have hindex := h.pml4
    rw [UInt64.lt_iff_toNat_lt]
    simp only [index, shift] at hindex
    change ¬ va.toNat < 2 ^ 30
    omega
  simp only [vmmMapUser2m, hva, hpa, hpml4, hpdpt, hge, bne_self_eq_false, Bool.or_self,
    Bool.false_eq_true, if_false, UInt64.or_assoc]
  rfl

theorem vmmMapUser2m_of_accepts {L : VmmLayout} {s : VmmState} (hs : VmmInv L s)
    {va pa : UInt64} (h : VmmAccepts va pa) :
    vmmMapUser2m L s va pa =
      ((s.setEntry .userPdpt 0 (L.address .userPd ||| 7)).setEntry .userPd (userPdSlot va)
        (pa ||| 0x87), 0) := by
  have hlinked : (s.tables .kernelPml4 1 &&& pagePresent == 0) = false := by
    rw [pagePresent_eq, hs.pml4_user, present_link L _ (.inr rfl)]
    rfl
  rw [vmmMapUser2m_of_checks L s h]
  simp only [hlinked, Bool.false_eq_true, if_false]
  rcases hs.userPdpt with habsent | hpresent
  · rw [habsent]
    rfl
  · have hkept : (s.tables .userPdpt 0 &&& pagePresent == 0) = false := by
      rw [pagePresent_eq, hpresent, present_link L _ (.inr rfl)]
      rfl
    rw [hkept, setEntry_self s .userPdpt 0 _ hpresent]
    rfl

/-- A call that returns an error changes no table. -/
theorem vmmMapUser2m_of_error (L : VmmLayout) (s : VmmState) (va pa : UInt64)
    (h : (vmmMapUser2m L s va pa).2 ≠ 0) : (vmmMapUser2m L s va pa).1 = s := by
  by_cases hacc : VmmAccepts va pa
  · rw [vmmMapUser2m_of_checks L s hacc] at h
    exact absurd rfl h
  · rw [vmmMapUser2m_of_rejected L s hacc]

/-- A call of `vmm_map_user_2m`. -/
structure VmmCall where
  va : UInt64
  pa : UInt64

def vmmStep (L : VmmLayout) (s : VmmState) (c : VmmCall) : VmmState :=
  (vmmMapUser2m L s c.va c.pa).1

/-- The states after `vmm_init` and any mapping calls, accepted or rejected. -/
def VmmReachable (L : VmmLayout) : VmmState → Prop :=
  Reach (fun s => ∃ s₀, s = vmmInit L s₀) (vmmStep L) fun _ _ => True

theorem VmmInv.step {L : VmmLayout} {s : VmmState} (hs : VmmInv L s) (c : VmmCall) :
    VmmInv L (vmmStep L s c) := by
  by_cases h : VmmAccepts c.va c.pa
  · rw [vmmStep, vmmMapUser2m_of_accepts hs h]
    have hkept : ∀ t, t ≠ .userPdpt → t ≠ .userPd →
        ((s.setEntry .userPdpt 0 (L.address .userPd ||| 7)).setEntry .userPd (userPdSlot c.va)
          (c.pa ||| 0x87)).tables t = s.tables t := by
      intro t hpdpt hpd
      rw [setEntry_table _ _ _ _ hpd, setEntry_table _ _ _ _ hpdpt]
    exact {
      pml4_kernel := by rw [hkept _ (by decide) (by decide), hs.pml4_kernel]
      pml4_user := by rw [hkept _ (by decide) (by decide), hs.pml4_user]
      pml4_rest := by
        rw [hkept _ (by decide) (by decide)]
        exact hs.pml4_rest
      kernelPdpt := by rw [hkept _ (by decide) (by decide), hs.kernelPdpt]
      kernelPd := by
        rw [hkept _ (by decide) (by decide)]
        exact hs.kernelPd
      userPdpt := by
        rw [setEntry_table _ _ _ _ (by decide), setEntry_same]
        exact .inr rfl
      cr3 := hs.cr3 }
  · rw [vmmStep, vmmMapUser2m_of_rejected L s h]
    exact hs

theorem VmmReachable.inv {L : VmmLayout} {s : VmmState} (h : VmmReachable L s) :
    VmmInv L s := by
  refine h.invariant ?_ fun s c hs _ => hs.step c
  rintro _ ⟨s₀, rfl⟩
  exact vmmInv_init L s₀

end AcharyaOS.Vmm
