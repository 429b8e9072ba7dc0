import AcharyaOS.Vmm.Isolation

/-!
# What a user mapping means

The accepted calls beside the tables they write, and the page walk of every
address that was granted.
-/

namespace AcharyaOS.Vmm

open Foundation Foundation.Run Foundation.PageWalk

/-- The tables and, for the specification only, the physical address last granted to each
virtual address. -/
structure VmmRun where
  state : VmmState
  granted : UInt64 → Option UInt64

def vmmRunStep (L : VmmLayout) (g : VmmRun) (c : VmmCall) : VmmRun :=
  let r := vmmMapUser2m L g.state c.va c.pa
  ⟨r.1, if r.2 = 0 then Function.update g.granted c.va (some c.pa) else g.granted⟩

def vmmRunInit (L : VmmLayout) (s₀ : VmmState) : VmmRun := ⟨vmmInit L s₀, fun _ => none⟩

/-- `va` is canonical and its 2 MiB page is `pa`'s, open to user reads and writes, with no
other attribute in its entry than that of its size. -/
structure VmmMapsTo (L : VmmLayout) (s : VmmState) (rest : Nat → UInt64) (va pa : UInt64) :
    Prop where
  canonical : Canonical va.toNat
  walk : ∀ off < 2 ^ 21, ∃ w, vmmWalk L s rest (va.toNat + off) = some w ∧
    w.physical = pa.toNat + off ∧ w.pageBits = 21 ∧
    (∀ e ∈ w.entries, present e = true ∧ writable e = true ∧ user e = true) ∧
    attributes 21 w.leaf = 2 ^ 0 + 2 ^ 1 + 2 ^ 2 + 2 ^ 7

/-- Every granted address maps to what was asked for. -/
def VmmMeant (L : VmmLayout) (rest : Nat → UInt64) (g : VmmRun) : Prop :=
  ∀ va pa, g.granted va = some pa → VmmMapsTo L g.state rest va pa

/-! ## The walk of a user page -/

section Walk

variable {L : VmmLayout} {s : VmmState} {va pa : UInt64}

theorem VmmAccepts.lt_iff_canonical (h : VmmAccepts va pa) :
    Canonical va.toNat ↔ va.toNat < 2 ^ 48 := by
  have hindex := h.pml4
  have hva := va.toNat_lt
  simp only [index, shift] at hindex
  simp only [Canonical]
  omega

/-- Accepted addresses below `2 ^ 48` differ in their `user_pd` slot. -/
theorem VmmAccepts.slot_inj {va' pa' : UInt64} (h : VmmAccepts va pa) (h' : VmmAccepts va' pa')
    (hlt : va.toNat < 2 ^ 48) (hlt' : va'.toNat < 2 ^ 48)
    (hslot : userPdSlot va = userPdSlot va') : va = va' := by
  have hval := congrArg Fin.val hslot
  rw [userPdSlot_val, userPdSlot_val] at hval
  have h1 := h.va_aligned
  have h2 := h'.va_aligned
  have h3 := h.pml4
  have h4 := h'.pml4
  have h5 := h.pdpt
  have h6 := h'.pdpt
  simp only [index, shift] at hval h3 h4 h5 h6
  rw [← UInt64.toNat_inj]
  omega

theorem VmmAccepts.index_add (h : VmmAccepts va pa) {off : Nat} (hoff : off < 2 ^ 21) :
    index 3 (va.toNat + off) = 1 ∧ index 2 (va.toNat + off) = 0 ∧
      index 1 (va.toNat + off) = (userPdSlot va).val ∧ (va.toNat + off) % 2 ^ 21 = off := by
  rw [userPdSlot_val]
  have h1 := h.va_aligned
  have h3 := h.pml4
  have h5 := h.pdpt
  simp only [index, shift] at h3 h5 ⊢
  omega

theorem testBit_userLeaf (pa : UInt64) {i : Nat} (hi : i = 0 ∨ i = 1 ∨ i = 2 ∨ i = 7) :
    (pa ||| 0x87).toNat.testBit i = true := by
  rw [UInt64.toNat_or, Nat.testBit_or]
  have hflag : (0x87 : UInt64).toNat.testBit i = true := by
    rcases hi with rfl | rfl | rfl | rfl <;> decide
  rw [hflag, Bool.or_true]

theorem vmmWalk_user (hs : VmmInv L s) (hlink : s.tables .userPdpt 0 = L.address .userPd ||| 7)
    (h : VmmAccepts va pa) (hleaf : s.tables .userPd (userPdSlot va) = pa ||| 0x87)
    (rest : Nat → UInt64) {off : Nat} (hoff : off < 2 ^ 21) :
    vmmWalk L s rest (va.toNat + off) =
      some ⟨[L.address .userPdpt ||| 7, L.address .userPd ||| 7], pa ||| 0x87, 21,
        frame 21 (pa ||| 0x87) + off⟩ := by
  obtain ⟨h3, h2, h1, hmod⟩ := h.index_add hoff
  rw [vmmWalk, PageWalk.walk, walkFrom_link (i := 1) h3 hs.pml4_user (.inr rfl),
    walkFrom_link (i := 0) h2 hlink (.inr rfl),
    walkFrom_of_large ((vmmMemory_index L s rest _ h1).trans hleaf)
      (testBit_userLeaf pa (.inl rfl)) (testBit_userLeaf pa (.inr (.inr (.inr rfl)))), hmod]
  rfl

theorem isEntry_userLeaf (h : VmmAccepts va pa) (hpa : pa.toNat < 2 ^ 52) :
    IsEntry 21 pa.toNat 0x87 (pa ||| 0x87) :=
  .of_or (b := 0x87) (Nat.dvd_of_mod_eq_zero h.pa_aligned) hpa (by decide)

theorem userLink_bits (L : VmmLayout) (t : VmmTable) :
    present (L.address t ||| 7) = true ∧ writable (L.address t ||| 7) = true ∧
      user (L.address t ||| 7) = true := by
  have hentry := isEntry_link L t 7 (by decide)
  refine ⟨present_link L t (.inr rfl), ?_, ?_⟩
  · rw [writable, hentry.testBit_eq (by decide)]
    decide
  · rw [user, hentry.testBit_eq (by decide)]
    decide

theorem vmmMapsTo_iff (hs : VmmInv L s) (hlink : s.tables .userPdpt 0 = L.address .userPd ||| 7)
    (h : VmmAccepts va pa) (hva : va.toNat < 2 ^ 48)
    (hleaf : s.tables .userPd (userPdSlot va) = pa ||| 0x87) (rest : Nat → UInt64) :
    VmmMapsTo L s rest va pa ↔ pa.toNat < 2 ^ 52 := by
  have hwalk := fun off (hoff : off < 2 ^ 21) => vmmWalk_user hs hlink h hleaf rest hoff
  constructor
  · intro hmaps
    obtain ⟨w, hw, hphysical, -⟩ := hmaps.walk 0 (by decide)
    rw [hwalk 0 (by decide), Option.some.injEq] at hw
    have hlt := frame_lt (k := 21) (by decide) (pa ||| 0x87)
    subst hw
    simp only [Nat.add_zero] at hphysical
    rw [← hphysical]
    exact hlt
  · intro hpa
    have hentry := isEntry_userLeaf h hpa
    refine ⟨h.lt_iff_canonical.mpr hva, fun off hoff => ⟨_, hwalk off hoff, ?_, rfl, ?_, ?_⟩⟩
    · rw [hentry.frame_eq (by decide)]
    · intro e he
      simp only [Walk.entries, List.cons_append, List.nil_append, List.mem_cons,
        List.not_mem_nil, or_false] at he
      rcases he with rfl | rfl | rfl
      · exact userLink_bits L _
      · exact userLink_bits L _
      · exact ⟨testBit_userLeaf pa (.inl rfl), testBit_userLeaf pa (.inr (.inl rfl)),
          testBit_userLeaf pa (.inr (.inr (.inl rfl)))⟩
    · exact hentry.attributes_eq (by decide)

end Walk

/-! ## Runs -/

/-- What holds along every run: granted addresses passed the checks, the table of user pages
is linked once there is one, and while all of them are below `2 ^ 48` each still has its
entry. -/
structure VmmRunInv (L : VmmLayout) (g : VmmRun) : Prop where
  tables : VmmInv L g.state
  accepted : ∀ va pa, g.granted va = some pa → VmmAccepts va pa
  linked : ∀ va pa, g.granted va = some pa →
    g.state.tables .userPdpt 0 = L.address .userPd ||| 7
  leaf : (∀ va pa, g.granted va = some pa → va.toNat < 2 ^ 48) → ∀ va pa,
    g.granted va = some pa → g.state.tables .userPd (userPdSlot va) = pa ||| 0x87

theorem vmmRunStep_of_rejected {L : VmmLayout} {g : VmmRun} {c : VmmCall}
    (h : ¬ VmmAccepts c.va c.pa) : vmmRunStep L g c = g := by
  simp only [vmmRunStep, vmmMapUser2m_of_rejected L g.state h, if_neg (by decide : (-1 : Int) ≠ 0)]

theorem vmmRunStep_of_accepts {L : VmmLayout} {g : VmmRun} (hg : VmmInv L g.state) {c : VmmCall}
    (h : VmmAccepts c.va c.pa) :
    vmmRunStep L g c =
      ⟨(g.state.setEntry .userPdpt 0 (L.address .userPd ||| 7)).setEntry .userPd
        (userPdSlot c.va) (c.pa ||| 0x87), Function.update g.granted c.va (some c.pa)⟩ := by
  simp only [vmmRunStep, vmmMapUser2m_of_accepts hg h, if_true]

theorem vmmRunStep_granted {L : VmmLayout} {g : VmmRun} (hg : VmmInv L g.state) {c : VmmCall}
    (h : VmmAccepts c.va c.pa) : (vmmRunStep L g c).granted c.va = some c.pa := by
  rw [vmmRunStep_of_accepts hg h]
  exact Function.update_self ..

theorem forall_granted_update {granted : UInt64 → Option UInt64} {va pa : UInt64}
    {P : UInt64 → UInt64 → Prop} :
    (∀ va' pa', Function.update granted va (some pa) va' = some pa' → P va' pa') ↔
      P va pa ∧ ∀ va' pa', va' ≠ va → granted va' = some pa' → P va' pa' := by
  constructor
  · refine fun h => ⟨h va pa (Function.update_self ..), fun va' pa' hne hgranted => h va' pa' ?_⟩
    rw [Function.update_of_ne hne, hgranted]
  · rintro ⟨hnew, hold⟩ va' pa' hgranted
    by_cases heq : va' = va
    · subst heq
      rw [Function.update_self, Option.some.injEq] at hgranted
      exact hgranted ▸ hnew
    · rw [Function.update_of_ne heq] at hgranted
      exact hold va' pa' heq hgranted

theorem VmmRunInv.step {L : VmmLayout} {g : VmmRun} (hg : VmmRunInv L g) (c : VmmCall) :
    VmmRunInv L (vmmRunStep L g c) := by
  by_cases h : VmmAccepts c.va c.pa
  · have htables := hg.tables.step c
    rw [vmmRunStep_of_accepts hg.tables h]
    rw [vmmStep, vmmMapUser2m_of_accepts hg.tables h] at htables
    refine ⟨htables, ?_, fun va pa _ => ?_, fun hlow => ?_⟩
    · exact forall_granted_update.mpr ⟨h, fun va pa _ => hg.accepted va pa⟩
    · rw [setEntry_table _ _ _ _ (by decide), setEntry_same]
    · obtain ⟨hlow_new, hlow_old⟩ := forall_granted_update.mp hlow
      have hlow_before : ∀ va pa, g.granted va = some pa → va.toNat < 2 ^ 48 := by
        intro va pa hgranted
        by_cases heq : va = c.va
        · exact heq ▸ hlow_new
        · exact hlow_old va pa heq hgranted
      refine forall_granted_update.mpr ⟨setEntry_same .., fun va pa hne hgranted => ?_⟩
      -- another page below `2 ^ 48` has another slot
      have hslot : userPdSlot va ≠ userPdSlot c.va := fun heq =>
        hne ((hg.accepted va pa hgranted).slot_inj h (hlow_before va pa hgranted) hlow_new heq)
      rw [setEntry_slot _ _ _ _ hslot, setEntry_table _ _ _ _ (by decide)]
      exact hg.leaf hlow_before va pa hgranted
  · rw [vmmRunStep_of_rejected h]
    exact hg

theorem vmmRunInv_init (L : VmmLayout) (s₀ : VmmState) : VmmRunInv L (vmmRunInit L s₀) where
  tables := vmmInv_init L s₀
  accepted := fun _ _ h => nomatch h
  linked := fun _ _ h => nomatch h
  leaf := fun _ _ _ h => nomatch h

/-- The address ranges in which a mapping can mean what it says. -/
def VmmInRange (va pa : UInt64) : Prop := va.toNat < 2 ^ 48 ∧ pa.toNat < 2 ^ 52

theorem vmmMeant_iff {L : VmmLayout} {g : VmmRun} (hg : VmmRunInv L g) (rest : Nat → UInt64) :
    VmmMeant L rest g ↔ ∀ va pa, g.granted va = some pa → VmmInRange va pa := by
  constructor
  · intro hmeant
    have hlow : ∀ va pa, g.granted va = some pa → va.toNat < 2 ^ 48 := fun va pa h =>
      (hg.accepted va pa h).lt_iff_canonical.mp (hmeant va pa h).canonical
    intro va pa h
    exact ⟨hlow va pa h, (vmmMapsTo_iff hg.tables (hg.linked va pa h) (hg.accepted va pa h)
      (hlow va pa h) (hg.leaf hlow va pa h) rest).mp (hmeant va pa h)⟩
  · intro hrange va pa h
    have hlow : ∀ va pa, g.granted va = some pa → va.toNat < 2 ^ 48 := fun va pa h =>
      (hrange va pa h).1
    exact (vmmMapsTo_iff hg.tables (hg.linked va pa h) (hg.accepted va pa h) (hlow va pa h)
      (hg.leaf hlow va pa h) rest).mpr (hrange va pa h).2

/-- One call keeps every granted mapping as asked for exactly if it is in range or
rejected. -/
theorem vmmMeant_step_iff {L : VmmLayout} {g : VmmRun} (hg : VmmRunInv L g)
    {rest : Nat → UInt64} (hmeant : VmmMeant L rest g) (c : VmmCall) :
    VmmMeant L rest (vmmRunStep L g c) ↔ (VmmAccepts c.va c.pa → VmmInRange c.va c.pa) := by
  have hrange := (vmmMeant_iff hg rest).mp hmeant
  by_cases h : VmmAccepts c.va c.pa
  · rw [vmmMeant_iff (hg.step c), vmmRunStep_of_accepts hg.tables h, forall_granted_update]
    exact ⟨fun hall _ => hall.1, fun hnew => ⟨hnew h, fun va pa _ => hrange va pa⟩⟩
  · rw [vmmRunStep_of_rejected h]
    exact ⟨fun _ hacc => absurd hacc h, fun _ => hmeant⟩

/-- Along a run every user mapping means what was asked, and rejected calls change nothing,
exactly if every call that passes the checks has a virtual address below `2 ^ 48` and a
physical one below `2 ^ 52`. -/
theorem vmmMeant_run_iff (L : VmmLayout) (s₀ : VmmState) (rest : Nat → UInt64)
    (calls : List VmmCall) :
    (AllStates (vmmRunStep L) (VmmMeant L rest) (vmmRunInit L s₀) calls ∧
      AllSteps (vmmRunStep L) (fun g c => (vmmMapUser2m L g.state c.va c.pa).2 ≠ 0 →
        (vmmMapUser2m L g.state c.va c.pa).1 = g.state) (vmmRunInit L s₀) calls) ↔
      ∀ c ∈ calls, VmmAccepts c.va c.pa → c.va.toNat < 2 ^ 48 ∧ c.pa.toNat < 2 ^ 52 := by
  have hinit := vmmRunInv_init L s₀
  have hmeant : VmmMeant L rest (vmmRunInit L s₀) := fun _ _ h => nomatch h
  generalize vmmRunInit L s₀ = g at hinit hmeant ⊢
  have hrun : AllStates (vmmRunStep L) (VmmMeant L rest) g calls ↔
      AllSteps (vmmRunStep L) (fun _ c => VmmAccepts c.va c.pa → VmmInRange c.va c.pa) g calls :=
    allStates_iff_allSteps (fun _ c (hg : VmmRunInv L _) => hg.step c)
      (fun _ c hg hm => vmmMeant_step_iff hg hm c) calls g hinit hmeant
  rw [allSteps_iff_forall_mem] at hrun
  constructor
  · rintro ⟨hall, -⟩
    exact hrun.mp hall
  · intro hrange
    refine ⟨hrun.mpr hrange, ?_⟩
    apply allSteps_of_forall
    intro g c
    exact vmmMapUser2m_of_error L g.state c.va c.pa

/-- Bit 48 of the address is looked at by no check: the call returns 0 for an address that
is not canonical. -/
theorem vmmMeant_nonCanonical :
    (vmmMapUser2m vmmLayoutTwoMiB (vmmInit vmmLayoutTwoMiB ⟨fun _ _ => 0, 0, 0⟩)
      0x0001008000000000 0x200000).2 = 0 ∧
    ¬ AllStates (vmmRunStep vmmLayoutTwoMiB) (VmmMeant vmmLayoutTwoMiB fun _ => 0)
      (vmmRunInit vmmLayoutTwoMiB ⟨fun _ _ => 0, 0, 0⟩) [⟨0x0001008000000000, 0x200000⟩] := by
  have hacc : VmmAccepts 0x0001008000000000 0x200000 := by decide
  have hinit := (vmmRunInv_init vmmLayoutTwoMiB ⟨fun _ _ => 0, 0, 0⟩).tables
  refine ⟨by rw [vmmMapUser2m_of_checks _ _ hacc], fun h => ?_⟩
  simp only [AllStates] at h
  obtain ⟨-, hmeant⟩ := h
  have hmaps := hmeant 0x0001008000000000 0x200000
    (vmmRunStep_granted (c := ⟨0x0001008000000000, 0x200000⟩) hinit hacc)
  exact absurd (hacc.lt_iff_canonical.mp hmaps.canonical) (by decide)

end AcharyaOS.Vmm
