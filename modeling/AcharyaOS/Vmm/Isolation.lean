import AcharyaOS.Vmm.Tables

/-!
# The kernel's mapping is isolated

No mapping call touches the walk of an address below 1 GiB, opens it to user
code, or maps an address outside the first two root entries.
-/

namespace AcharyaOS.Vmm

open Foundation Foundation.Run Foundation.PageWalk

variable {L : VmmLayout} {s : VmmState}

theorem isEntry_kernelPd (i : Fin 512) :
    IsEntry 21 (i.val * 2 ^ 21) 0x83 (UInt64.ofNat i * vmmPageSize2m ||| 0x83) := by
  have hi := i.isLt
  have hbase : (UInt64.ofNat i * vmmPageSize2m).toNat = i.val * 2 ^ 21 := by
    rw [UInt64.toNat_mul, UInt64.toNat_ofNat']
    change i.val % 2 ^ 64 * 2 ^ 21 % 2 ^ 64 = i.val * 2 ^ 21
    omega
  rw [← hbase]
  exact .of_or (b := 0x83) (hbase ▸ Nat.dvd_mul_left _ _) (by omega) (by decide)

theorem vmmWalk_kernel (hs : VmmInv L s) (rest : Nat → UInt64) {va : Nat} (hva : va < 2 ^ 30) :
    ∃ leaf, IsEntry 21 (index 1 va * 2 ^ 21) 0x83 leaf ∧
      vmmWalk L s rest va =
        some ⟨[L.address .kernelPdpt ||| 3, L.address .kernelPd ||| 3], leaf, 21, va⟩ := by
  have h3 : index 3 va = (0 : Fin 512) := by
    simp only [index, shift]
    change va / 2 ^ 39 % 2 ^ 9 = 0
    omega
  have h2 : index 2 va = (0 : Fin 512) := by
    simp only [index, shift]
    change va / 2 ^ 30 % 2 ^ 9 = 0
    omega
  let i : Fin 512 := ⟨index 1 va, index_lt 1 va⟩
  have hleaf := isEntry_kernelPd i
  have hphysical : index 1 va * 2 ^ 21 + va % 2 ^ 21 = va := by
    simp only [index, shift]
    change va / 2 ^ 21 % 2 ^ 9 * 2 ^ 21 + va % 2 ^ 21 = va
    omega
  refine ⟨_, hleaf, ?_⟩
  rw [vmmWalk, walk, walkFrom_link h3 hs.pml4_kernel (.inl rfl),
    walkFrom_link h2 hs.kernelPdpt (.inl rfl),
    walkFrom_of_large ((vmmMemory_index L s rest _ (i := i) rfl).trans (hs.kernelPd i))
      (hleaf.testBit_eq (by decide)) (hleaf.testBit_eq (by decide)),
    hleaf.frame_eq (by decide), hphysical]
  rfl

theorem user_link (t : VmmTable) : user (L.address t ||| 3) = false := by
  rw [user, (isEntry_link L t 3 (by decide)).testBit_eq (by decide)]
  decide

theorem vmmTranslateIdentity_of_ge {va : UInt64} (hva : ¬ va.toNat < 2 ^ 30) :
    vmmTranslateIdentity s va = 0 := by
  have hge : va ≥ vmmIdentityMapSize := by
    rw [ge_iff_le, UInt64.le_iff_toNat_le]
    exact Nat.not_lt.mp hva
  simp only [vmmTranslateIdentity, hge, if_true]

theorem vmmTranslateIdentity_of_lt (hs : VmmInv L s) {va : UInt64} (hva : va.toNat < 2 ^ 30) :
    vmmTranslateIdentity s va = va := by
  have hlt : ¬ va ≥ vmmIdentityMapSize := by
    rw [ge_iff_le, UInt64.le_iff_toNat_le]
    exact Nat.not_le.mpr hva
  have hslot : (userPdSlot va).val = va.toNat / 2 ^ 21 := by
    rw [userPdSlot_val]
    simp only [index, shift]
    change va.toNat / 2 ^ 21 % 2 ^ 9 = _
    omega
  have hentry := isEntry_kernelPd (userPdSlot va)
  rw [← hs.kernelPd] at hentry
  have hread : s.tables .kernelPd (tableIndex ((va >>> 21) &&& 0x1FF)) =
      s.tables .kernelPd (userPdSlot va) := rfl
  generalize s.tables .kernelPd (userPdSlot va) = entry at hentry hread
  have hpresent : (entry &&& pagePresent == 0) = false := by
    rw [pagePresent_eq, present, hentry.testBit_eq (by decide)]
    decide
  have hlarge : (entry &&& pageHuge2m == 0) = false := by
    rw [pageHuge2m_eq, large, hentry.testBit_eq (by decide)]
    decide
  have hbase : (entry &&& 0x000FFFFFFFFFF000).toNat = va.toNat / 2 ^ 21 * 2 ^ 21 := by
    rw [toNat_and_fieldMask entry (m := 40) (k := 12) rfl, hentry.eq, hslot]
    omega
  have hoffset : (va &&& (vmmPageSize2m - 1)).toNat = va.toNat % 2 ^ 21 := by
    rw [toNat_and_fieldMask va (m := 21) (k := 0) rfl]
    omega
  simp only [vmmTranslateIdentity, hlt, if_false, hread, hpresent, hlarge, Bool.or_self,
    Bool.false_eq_true]
  rw [← UInt64.toNat_inj, UInt64.toNat_add, hbase, hoffset]
  omega

theorem vmmTranslateIdentity_eq (hs : VmmInv L s) (va : UInt64) :
    vmmTranslateIdentity s va = if va.toNat < 2 ^ 30 then va else 0 := by
  split
  · next hva => exact vmmTranslateIdentity_of_lt hs hva
  · next hva => exact vmmTranslateIdentity_of_ge hva

theorem vmmWalk_outside (hs : VmmInv L s) (rest : Nat → UInt64) {va : Nat}
    (h0 : index 3 va ≠ 0) (h1 : index 3 va ≠ 1) : vmmWalk L s rest va = none := by
  let i : Fin 512 := ⟨index 3 va, index_lt 3 va⟩
  apply walkFrom_of_not_present
  rw [vmmMemory_index L s rest _ (i := i) rfl, hs.pml4_rest i]
  · decide
  · exact fun h => h0 (congrArg Fin.val h)
  · exact fun h => h1 (congrArg Fin.val h)

/-- The self test of the memory manager holds after any mapping calls, not only at boot. -/
theorem vmmSelfTest_of_reachable (h : VmmReachable L s) : vmmSelfTest L s = true := by
  have hs := h.inv
  simp only [vmmSelfTest, hs.cr3, vmmTranslateIdentity_eq hs, bne_self_eq_false,
    Bool.false_eq_true, if_false]
  decide

/-- After `vmm_init` and any mapping calls, every address below 1 GiB is mapped to itself
and closed to user code, and nothing outside the first two root entries is mapped. -/
theorem vmm_isolated (L : VmmLayout) (s : VmmState) (h : VmmReachable L s)
    (rest : Nat → UInt64) (va : UInt64) :
    (va.toNat < 2 ^ 30 → ∃ w, vmmWalk L s rest va.toNat = some w ∧ w.physical = va.toNat ∧
      ∀ e ∈ w.entries, user e = false) ∧
    vmmTranslateIdentity s va = (if va.toNat < 2 ^ 30 then va else 0) ∧
    (index 3 va.toNat ≠ 0 → index 3 va.toNat ≠ 1 → vmmWalk L s rest va.toNat = none) := by
  have hs := h.inv
  refine ⟨fun hva => ?_, vmmTranslateIdentity_eq hs va, vmmWalk_outside hs rest⟩
  obtain ⟨leaf, hleaf, hwalk⟩ := vmmWalk_kernel hs rest hva
  refine ⟨_, hwalk, rfl, ?_⟩
  have huser : user leaf = false := hleaf.testBit_eq (by decide)
  intro e he
  simp only [Walk.entries, List.cons_append, List.nil_append, List.mem_cons, List.not_mem_nil,
    or_false] at he
  rcases he with rfl | rfl | rfl
  · exact user_link _
  · exact user_link _
  · exact huser

/-- Five tables from 2 MiB on. -/
def vmmLayoutTwoMiB : VmmLayout where
  address
    | .kernelPml4 => 0x200000
    | .kernelPdpt => 0x201000
    | .kernelPd => 0x202000
    | .userPdpt => 0x203000
    | .userPd => 0x204000
  injective := by
    intro t t' h
    cases t <;> cases t' <;> first | rfl | exact absurd h (by decide)
  aligned t := by cases t <;> rfl
  lt t := by cases t <;> decide

theorem vmm_isolated_userPage :
    let s := runSteps (vmmStep vmmLayoutTwoMiB)
      (vmmInit vmmLayoutTwoMiB ⟨fun _ _ => 0, 0, 0⟩) [⟨0x8000000000, 0x200000⟩]
    vmmTranslateIdentity s 0x200000 = 0x200000 :=
  (vmm_isolated vmmLayoutTwoMiB _
    (Reach.runSteps _ (.start ⟨_, rfl⟩) (by repeat constructor)) (fun _ => 0) 0x200000).2.1

end AcharyaOS.Vmm
