import AcharyaOS.Foundation.Run
import AcharyaOS.Keyboard.Code
import Mathlib.Data.List.GetD

/-!
# The two Shift keys

One variable stands for both Shift keys.  It says what the latest Shift scancode said, which
is wrong while one of the keys has been released and the other one is still held.
-/

namespace AcharyaOS.Keyboard

open Foundation.Run

/-- What the scancodes so far tell about the keys: which are down, and the latest scancode of a
Shift key. -/
structure Keys where
  down : UInt8 → Bool
  lastShift : Option UInt8

def keysUp : Keys := ⟨fun _ => false, none⟩

/-- The key of a scancode. -/
def keyOf (scancode : UInt8) : UInt8 := scancode &&& ~~~keyReleased

def IsShift (key : UInt8) : Prop := key = 0x2A ∨ key = 0x36

instance : DecidablePred IsShift := fun _ => inferInstanceAs (Decidable (_ ∨ _))

def keysStep (k : Keys) (scancode : UInt8) : Keys where
  down := Function.update k.down (keyOf scancode) (scancode &&& keyReleased == 0)
  lastShift := if IsShift (keyOf scancode) then some scancode else k.lastShift

namespace Keys

variable (k : Keys)

def Shift : Prop := k.down 0x2A = true ∨ k.down 0x36 = true

instance : Decidable k.Shift := inferInstanceAs (Decidable (_ ∨ _))

/-- A Shift key was released last while the other one stayed down. -/
def Overlap : Prop := k.Shift ∧ ∃ c ∈ k.lastShift, c &&& keyReleased ≠ 0

end Keys

/-- A key is pressed when it is up and released when it is down. -/
def Alternates (k : Keys) (scancode : UInt8) : Prop :=
  k.down (keyOf scancode) = (scancode &&& keyReleased != 0)

instance (k : Keys) : DecidablePred (Alternates k) := fun _ => inferInstanceAs (Decidable (_ = _))

/-- The press of a key with a printable character. -/
def Printable (scancode : UInt8) : Prop :=
  0x20 ≤ keyChar false scancode ∧ keyChar false scancode ≤ 0x7E

instance : DecidablePred Printable := fun _ => inferInstanceAs (Decidable (_ ∧ _))

/-- The driver and the keys. -/
structure Typing where
  keyboard : KeyboardState
  keys : Keys

def typeStep (t : Typing) (scancode : UInt8) : Typing where
  keyboard := keyboardInterruptHandler t.keyboard scancode
  keys := keysStep t.keys scancode

def typeStart : Typing := ⟨keyboardBoot, keysUp⟩

/-- `shift_down ? scancode_ascii_shift : scancode_ascii` -/
def translationTable (s : KeyboardState) : List UInt8 :=
  if s.shiftDown then scancodeAsciiShift else scancodeAscii

/-- A printable key is translated with the shifted table exactly if a Shift key is down. -/
def ShiftLaw (t : Typing) (scancode : UInt8) : Prop :=
  Printable scancode →
    keyboardInterruptHandler t.keyboard scancode =
        keyboardBufferPush t.keyboard ((translationTable t.keyboard).getD scancode.toNat 0) ∧
      (translationTable t.keyboard = scancodeAsciiShift ↔ t.keys.Shift)

/-- No printable key is pressed after one Shift key was released with the other one down,
until a Shift key moves again. -/
def Separate (t : Typing) (scancode : UInt8) : Prop := Printable scancode → ¬ t.keys.Overlap

/-! ## One scancode -/

theorem keyboardInterruptHandler_printable (s : KeyboardState) {scancode : UInt8}
    (h : Printable scancode) :
    keyboardInterruptHandler s scancode =
      keyboardBufferPush s ((translationTable s).getD scancode.toNat 0) := by
  have hlt : scancode.toNat < 58 := by
    by_contra hge
    have hnone : keyChar false scancode = 0 :=
      List.getD_eq_default _ _ (Nat.not_lt.mp hge)
    rw [Printable, hnone] at h
    exact absurd h.1 (by decide)
  have hkeys : ∀ k : Fin 58, Printable (.ofNat k.val) →
      (UInt8.ofNat k.val &&& ~~~keyReleased = .ofNat k.val ∧
        UInt8.ofNat k.val &&& keyReleased = 0) ∧
      (UInt8.ofNat k.val ≠ 0x2A ∧ UInt8.ofNat k.val ≠ 0x36) ∧
      ∀ shift, keyChar shift (.ofNat k.val) ≠ 0 := by decide
  have hcode := hkeys ⟨scancode.toNat, hlt⟩
  rw [UInt8.ofNat_toNat] at hcode
  obtain ⟨⟨hkey, hpressed⟩, ⟨hleft, hright⟩, hchar⟩ := hcode h
  have hnot : ¬ (scancode = 0x2A ∨ scancode = 0x36) := not_or.mpr ⟨hleft, hright⟩
  unfold keyboardInterruptHandler
  simp only [hkey, hpressed, if_neg hnot, bne_self_eq_false, Bool.false_eq_true, if_false,
    if_neg (hchar s.shiftDown)]
  rfl

theorem translationTable_eq_shift_iff (s : KeyboardState) :
    translationTable s = scancodeAsciiShift ↔ s.shiftDown = true := by
  unfold translationTable
  cases s.shiftDown with
  | false => exact iff_of_false (by decide) Bool.false_ne_true
  | true => exact iff_of_true rfl rfl

theorem shiftDown_keyboardInterruptHandler (s : KeyboardState) (scancode : UInt8) :
    (keyboardInterruptHandler s scancode).shiftDown =
      if IsShift (keyOf scancode) then scancode &&& keyReleased == 0 else s.shiftDown := by
  have hpush : ∀ c, (keyboardBufferPush s c).shiftDown = s.shiftDown := by
    intro c
    unfold keyboardBufferPush
    dsimp only
    split <;> rfl
  unfold keyboardInterruptHandler
  dsimp only
  by_cases hshift : IsShift (keyOf scancode)
  · rw [if_pos hshift]
    unfold IsShift keyOf at hshift
    rw [if_pos hshift]
    exact Bool.not_not _
  · rw [if_neg hshift]
    unfold IsShift keyOf at hshift
    rw [if_neg hshift]
    split
    · rfl
    · split
      · rfl
      · exact hpush _

/-- The variable says what the latest Shift scancode said. -/
structure Synced (t : Typing) : Prop where
  said : t.keyboard.shiftDown = true ↔ ∃ c ∈ t.keys.lastShift, c &&& keyReleased = 0
  shift_of_said : t.keyboard.shiftDown = true → t.keys.Shift
  moved : t.keys.Shift → t.keys.lastShift ≠ none

theorem synced_typeStart : Synced typeStart where
  said := iff_of_false Bool.false_ne_true nofun
  shift_of_said := fun h => absurd h Bool.false_ne_true
  moved := fun h => by rcases h with h | h <;> exact absurd h Bool.false_ne_true

theorem shift_keysStep_of_not_isShift {k : Keys} {scancode : UInt8}
    (h : ¬ IsShift (keyOf scancode)) : (keysStep k scancode).Shift ↔ k.Shift := by
  obtain ⟨hleft, hright⟩ := not_or.mp h
  unfold Keys.Shift keysStep
  dsimp only
  rw [Function.update_of_ne (Ne.symm hleft), Function.update_of_ne (Ne.symm hright)]

theorem shift_keysStep_of_pressed {k : Keys} {scancode : UInt8} (h : IsShift (keyOf scancode))
    (hpressed : scancode &&& keyReleased = 0) : (keysStep k scancode).Shift := by
  have hdown : (keysStep k scancode).down (keyOf scancode) = true := by
    unfold keysStep
    dsimp only
    rw [Function.update_self, beq_iff_eq]
    exact hpressed
  rcases h with hleft | hright
  · rw [hleft] at hdown
    exact .inl hdown
  · rw [hright] at hdown
    exact .inr hdown

theorem Synced.step {t : Typing} (h : Synced t) (scancode : UInt8) :
    Synced (typeStep t scancode) := by
  have hvariable := shiftDown_keyboardInterruptHandler t.keyboard scancode
  by_cases hshift : IsShift (keyOf scancode)
  · have hlast : (keysStep t.keys scancode).lastShift = some scancode := if_pos hshift
    have hset : (typeStep t scancode).keyboard.shiftDown = true ↔ scancode &&& keyReleased = 0 := by
      show (keyboardInterruptHandler t.keyboard scancode).shiftDown = true ↔ _
      rw [hvariable, if_pos hshift, beq_iff_eq]
    refine ⟨?_, fun hdown => shift_keysStep_of_pressed hshift (hset.mp hdown), fun _ => ?_⟩
    · show _ ↔ ∃ c ∈ (keysStep t.keys scancode).lastShift, _
      rw [hset, hlast]
      simp
    · exact hlast ▸ Option.some_ne_none scancode
  · have hlast : (keysStep t.keys scancode).lastShift = t.keys.lastShift := if_neg hshift
    have hsame : (typeStep t scancode).keyboard.shiftDown = t.keyboard.shiftDown := by
      show (keyboardInterruptHandler t.keyboard scancode).shiftDown = _
      rw [hvariable, if_neg hshift]
    have hkept : (typeStep t scancode).keys.Shift ↔ t.keys.Shift :=
      shift_keysStep_of_not_isShift hshift
    refine ⟨?_, fun hdown => ?_, fun hdown => ?_⟩
    · show _ ↔ ∃ c ∈ (keysStep t.keys scancode).lastShift, _
      rw [hsame, hlast]
      exact h.said
    · rw [hsame] at hdown
      exact hkept.mpr (h.shift_of_said hdown)
    · exact hlast ▸ h.moved (hkept.mp hdown)

/-- The variable is right except between the two releases. -/
theorem Synced.shiftDown_iff {t : Typing} (h : Synced t) :
    (t.keyboard.shiftDown = true ↔ t.keys.Shift) ↔ ¬ t.keys.Overlap := by
  constructor
  · rintro hright ⟨hshift, c, hc, hreleased⟩
    obtain ⟨c', hc', hpressed⟩ := h.said.mp (hright.mpr hshift)
    rw [Option.mem_unique hc hc'] at hreleased
    exact hreleased hpressed
  · intro hapart
    refine ⟨h.shift_of_said, fun hshift => ?_⟩
    obtain ⟨c, hc⟩ := Option.ne_none_iff_exists'.mp (h.moved hshift)
    refine h.said.mpr ⟨c, hc, ?_⟩
    by_contra hreleased
    exact hapart ⟨hshift, c, hc, hreleased⟩

theorem Synced.shiftLaw_iff {t : Typing} (h : Synced t) (scancode : UInt8) :
    ShiftLaw t scancode ↔ Separate t scancode := by
  constructor
  · intro hlaw hprintable
    have htable := (hlaw hprintable).2
    rw [translationTable_eq_shift_iff] at htable
    exact h.shiftDown_iff.mp htable
  · intro hapart hprintable
    refine ⟨keyboardInterruptHandler_printable t.keyboard hprintable, ?_⟩
    rw [translationTable_eq_shift_iff]
    exact h.shiftDown_iff.mpr (hapart hprintable)

/-! ## Key sequences -/

/-- For every sequence of scancodes, every printable key is translated as the Shift keys say,
exactly if none is pressed between the release of one Shift key, the other one being down, and
the next scancode of a Shift key. -/
theorem shift_run_iff (scancodes : List UInt8) :
    AllSteps typeStep ShiftLaw typeStart scancodes ↔
      AllSteps typeStep Separate typeStart scancodes :=
  allSteps_congr (fun _ scancode h => h.step scancode) (fun _ scancode h => h.shiftLaw_iff scancode)
    scancodes typeStart synced_typeStart

/-- Left Shift down, right Shift down, right Shift up, and the key of the letter a. -/
theorem not_shift_run :
    ¬ ∀ scancodes : List UInt8,
      AllSteps keysStep Alternates keysUp scancodes →
        AllSteps typeStep ShiftLaw typeStart scancodes := by
  intro hall
  have hlaws := hall [0x2A, 0x36, 0xB6, 0x1E] (by decide)
  have hlast := hlaws.2.2.2.1 (by decide)
  exact absurd (hlast.2.mpr (by decide)) (by decide)

end AcharyaOS.Keyboard
