import AcharyaOS.Foundation.Run
import AcharyaOS.Foundation.Words
import AcharyaOS.Pic.Code

/-!
# Interrupt lines

Which lines reach the processor after `pic_init` and some calls of `pic_unmask_irq`.
A line of the second chip has to pass the second chip and then line 2 of the first,
which no call unmasks.
-/

namespace AcharyaOS.Pic

open Foundation Foundation.Run

/-- A device's line: all but line 2, on which the second chip hangs. -/
structure Line where
  irq : UInt8
  lt : irq.toNat < 16
  ne : irq.toNat ≠ 2
  deriving DecidableEq

def cascadeBit : Nat := 2

/-- The bit of line `n` in the mask register of its chip. -/
def masked (s : PicState) (n : Nat) : Bool :=
  if n < 8 then (s.mask .pic1).toNat.testBit n else (s.mask .pic2).toNat.testBit (n - 8)

/-- An interrupt of the line gets through to the processor. -/
def Deliverable (s : PicState) (l : Line) : Prop :=
  masked s l.irq.toNat = false ∧
    (8 ≤ l.irq.toNat → (s.mask .pic1).toNat.testBit cascadeBit = false)

instance (s : PicState) (l : Line) : Decidable (Deliverable s l) :=
  inferInstanceAs (Decidable (_ ∧ _))

/-- The calls of `pic_unmask_irq` for these lines, in this order. -/
def unmaskLines (s : PicState) (lines : List Line) : PicState :=
  runSteps (fun s l => picUnmaskIrq s l.irq) s lines

theorem testBit_clearMaskBit (mask irq : UInt8) (hirq : irq.toNat < 8) {i : Nat} (hi : i < 8) :
    (clearMaskBit mask irq).toNat.testBit i =
      (mask.toNat.testBit i && decide (i ≠ irq.toNat)) := by
  have hk : irq.toUInt32.toNat < 32 := by
    rw [UInt8.toNat_toUInt32]
    omega
  rw [clearMaskBit, UInt32.toNat_toUInt8, Nat.testBit_mod_two_pow, decide_eq_true hi,
    Bool.true_and, testBit_clearBit_u32 mask.toUInt32 hk (by omega), UInt8.toNat_toUInt32,
    UInt8.toNat_toUInt32]

/-! ## One call -/

theorem masked_picInit (s : PicState) {n : Nat} (hn : n < 16) : masked (picInit s) n = true := by
  have hones : ∀ {i : Nat}, i < 8 → (0xFF : UInt8).toNat.testBit i = true := by decide
  rw [masked]
  split
  · exact hones (by omega)
  · exact hones (by omega)

theorem masked_picUnmaskIrq (s : PicState) {irq : UInt8} (hirq : irq.toNat < 16) {n : Nat}
    (hn : n < 16) :
    masked (picUnmaskIrq s irq) n = (masked s n && decide (n ≠ irq.toNat)) := by
  by_cases hlow : irq < 8
  · have hlt : irq.toNat < 8 := UInt8.lt_iff_toNat_lt.mp hlow
    rw [picUnmaskIrq, if_pos hlow, masked, masked]
    split
    case isTrue hn₈ => exact testBit_clearMaskBit (s.mask .pic1) irq hlt hn₈
    case isFalse hn₈ =>
      have hne : n ≠ irq.toNat := by omega
      rw [decide_eq_true hne, Bool.and_true]
      rfl
  · have hge : 8 ≤ irq.toNat := UInt8.le_iff_toNat_le.mp (UInt8.not_lt.mp hlow)
    have hsub : (irq - 8).toNat = irq.toNat - 8 :=
      UInt8.toNat_sub_of_le irq 8 (UInt8.le_iff_toNat_le.mpr hge)
    rw [picUnmaskIrq, if_neg hlow, masked, masked]
    split
    case isTrue hn₈ =>
      have hne : n ≠ irq.toNat := by omega
      rw [decide_eq_true hne, Bool.and_true]
      rfl
    case isFalse hn₈ =>
      have hiff : n - 8 ≠ irq.toNat - 8 ↔ n ≠ irq.toNat := by omega
      have hbit := testBit_clearMaskBit (s.mask .pic2) (irq - 8) (by omega)
        (by omega : n - 8 < 8)
      rw [hsub, decide_eq_decide.mpr hiff] at hbit
      exact hbit

/-! ## All calls -/

theorem masked_unmaskLines (lines : List Line) (s : PicState) {n : Nat} (hn : n < 16) :
    masked (unmaskLines s lines) n = true ↔
      masked s n = true ∧ ∀ l ∈ lines, n ≠ l.irq.toNat := by
  induction lines generalizing s with
  | nil => simp [unmaskLines, runSteps]
  | cons l lines ih =>
      have hrest := ih (picUnmaskIrq s l.irq)
      rw [masked_picUnmaskIrq s l.lt hn, Bool.and_eq_true, decide_eq_true_eq] at hrest
      have hcons : unmaskLines s (l :: lines) = unmaskLines (picUnmaskIrq s l.irq) lines := rfl
      rw [hcons, hrest, List.forall_mem_cons, and_assoc]

theorem masked_run_iff (s : PicState) (lines : List Line) {n : Nat} (hn : n < 16) :
    masked (unmaskLines (picInit s) lines) n = true ↔ ∀ l ∈ lines, n ≠ l.irq.toNat := by
  rw [masked_unmaskLines lines (picInit s) hn, masked_picInit s hn]
  exact and_iff_right rfl

theorem unmasked_run_iff (s : PicState) (lines : List Line) (l : Line) :
    masked (unmaskLines (picInit s) lines) l.irq.toNat = false ↔ l ∈ lines := by
  rw [← Bool.not_eq_true, masked_run_iff s lines l.lt]
  constructor
  · intro h
    push Not at h
    obtain ⟨l', hmem, heq⟩ := h
    have hirq : l = l' := by
      cases l
      cases l'
      simpa [UInt8.toNat_inj] using heq
    rwa [hirq]
  · exact fun hmem h => h l hmem rfl

/-- No call reaches the bit of the second chip. -/
theorem cascade_masked (s : PicState) (lines : List Line) :
    ((unmaskLines (picInit s) lines).mask .pic1).toNat.testBit cascadeBit = true :=
  (masked_run_iff s lines (by decide : 2 < 16)).mpr fun l _ => l.ne.symm

theorem deliverable_run_iff (s : PicState) (lines : List Line) (l : Line) :
    Deliverable (unmaskLines (picInit s) lines) l ↔ l ∈ lines ∧ l.irq.toNat < 8 := by
  rw [Deliverable, unmasked_run_iff, cascade_masked, Bool.true_eq_false, imp_false, Nat.not_le]

/-- Calls make deliverable exactly the lines they name if and only if they name
lines of the first chip alone. -/
theorem unmasked_deliverable_iff (s : PicState) (lines : List Line) :
    (∀ l, Deliverable (unmaskLines (picInit s) lines) l ↔ l ∈ lines) ↔
      ∀ l ∈ lines, l.irq.toNat < 8 := by
  simp only [deliverable_run_iff]
  constructor
  · exact fun h l hmem => ((h l).mpr hmem).2
  · exact fun h l => ⟨And.left, fun hmem => ⟨hmem, h l hmem⟩⟩

theorem mouseIrq_lt : mouseIrq.toNat < 16 := by decide

theorem mouseIrq_ne : mouseIrq.toNat ≠ 2 := by decide

def mouseLine : Line := ⟨mouseIrq, mouseIrq_lt, mouseIrq_ne⟩

/-- Whatever was unmasked before, the mouse stays cut off after `mouse_init`. -/
theorem mouse_not_deliverable (s : PicState) (lines : List Line) :
    ¬ Deliverable (mouseInitPic (unmaskLines (picInit s) lines)) mouseLine := by
  have hrun : mouseInitPic (unmaskLines (picInit s) lines) =
      unmaskLines (picInit s) (lines ++ [mouseLine]) := by
    simp [unmaskLines, runSteps, mouseInitPic, mouseLine]
  rw [hrun, deliverable_run_iff]
  have hge : ¬ mouseLine.irq.toNat < 8 := by decide
  exact fun h => hge h.2

theorem not_unmasked_deliverable :
    ¬ ∀ (s : PicState) (lines : List Line) (l : Line),
      Deliverable (unmaskLines (picInit s) lines) l ↔ l ∈ lines := by
  intro h
  exact mouse_not_deliverable ⟨fun _ => 0⟩ [] ((h ⟨fun _ => 0⟩ [mouseLine] mouseLine).mpr
    (List.mem_singleton_self _))

end AcharyaOS.Pic
