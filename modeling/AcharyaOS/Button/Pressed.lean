import AcharyaOS.Button.Code
import AcharyaOS.Foundation.Run

/-!
# The pressed button

The id in `pressed_button_id` tells which button is pressed as long as a button is pressed or
released only while no other one is down.
-/

namespace AcharyaOS.Button

open Foundation Foundation.Run

inductive BtnCall
  | create (wmReady fbReady : Bool) (windowId : UInt32) (label : Option CString)
      (x y width height : UInt32)
  | setPressed (id : UInt32) (pressed : Int)

def btnStep (s : BtnState) : BtnCall → BtnState
  | .create wmReady fbReady windowId label x y width height =>
      (btnCreate s wmReady fbReady windowId label x y width height).1
  | .setPressed id pressed => (btnSetPressed s id pressed).1

namespace BtnState

variable (s : BtnState)

/-- The button with this id is there. -/
def Has (id : UInt32) : Prop := ∃ i, (s.buttons i).used = true ∧ (s.buttons i).id = id

def Down (i : Fin btnMaxButtons) : Prop := (s.buttons i).used = true ∧ (s.buttons i).pressed = true

instance (id : UInt32) : Decidable (s.Has id) := inferInstanceAs (Decidable (∃ _, _))

instance (i : Fin btnMaxButtons) : Decidable (s.Down i) := inferInstanceAs (Decidable (_ ∧ _))

end BtnState

/-- At most one button is down, and `pressed_button_id` is its id, or 0 if there is none. -/
structure Booked (s : BtnState) : Prop where
  zero_iff : s.stats.pressedButtonId = 0 ↔ ∀ i, ¬ s.Down i
  named : s.stats.pressedButtonId ≠ 0 → ∃ i, s.Down i ∧ (s.buttons i).id = s.stats.pressedButtonId
  unique : ∀ i j, s.Down i → s.Down j → i = j

/-- A button is pressed or released while no other button is down. -/
def Alone (s : BtnState) : BtnCall → Prop
  | .create .. => True
  | .setPressed id _ => s.Has id → ∀ i, s.Down i → (s.buttons i).id = id

/-! ## One call -/

/-- The ids are given from 1 on. -/
def Ids (s : BtnState) : Prop :=
  ∃ count, Numbered Btn.used Btn.id s.buttons s.stats.nextButtonId count

theorem ids_btnInit : Ids btnInit := ⟨0, .empty (by decide) fun _ => rfl⟩

theorem booked_btnInit : Booked btnInit where
  zero_iff := by simp [BtnState.Down, btnInit, Btn.zero]
  named := fun h => absurd rfl h
  unique := fun i _ hi => absurd hi.1 Bool.false_ne_true

theorem btnCreate_cases (s : BtnState) (wmReady fbReady : Bool) (windowId : UInt32)
    (label : Option CString) (x y width height : UInt32) :
    (btnCreate s wmReady fbReady windowId label x y width height).1 = s ∨
      ∃ slot, (firstSlot fun i => !(s.buttons i).used) = some slot ∧
        (btnCreate s wmReady fbReady windowId label x y width height).1 =
          { buttons := Function.update s.buttons slot
              (newButton s.stats.nextButtonId windowId label x y width height)
            stats :=
              { s.stats with
                buttonCount := s.stats.buttonCount + 1
                nextButtonId := s.stats.nextButtonId + 1 } } := by
  unfold btnCreate
  by_cases hguard : (!wmReady || !fbReady || width < 12 || height < 12 : Bool) = true
  · rw [if_pos hguard]
    exact .inl rfl
  · rw [if_neg hguard]
    cases hfree : firstSlot fun i => !(s.buttons i).used with
    | none => exact .inl rfl
    | some slot => exact .inr ⟨slot, rfl, rfl⟩

theorem Booked.congr {s t : BtnState} (hs : Booked s)
    (hid : t.stats.pressedButtonId = s.stats.pressedButtonId) (hdown : ∀ i, t.Down i ↔ s.Down i)
    (hids : ∀ i, s.Down i → (t.buttons i).id = (s.buttons i).id) : Booked t where
  zero_iff := by simp only [hid, hs.zero_iff, hdown]
  named := by
    intro hne
    rw [hid] at hne ⊢
    obtain ⟨i, hi, hname⟩ := hs.named hne
    exact ⟨i, (hdown i).mpr hi, (hids i hi).trans hname⟩
  unique := fun i j hi hj => hs.unique i j ((hdown i).mp hi) ((hdown j).mp hj)

theorem Booked.create {s : BtnState} (hs : Booked s) (wmReady fbReady : Bool)
    (windowId : UInt32) (label : Option CString) (x y width height : UInt32) :
    Booked (btnCreate s wmReady fbReady windowId label x y width height).1 := by
  rcases btnCreate_cases s wmReady fbReady windowId label x y width height with
    hsame | ⟨slot, hslot, hnew⟩
  · rw [hsame]
    exact hs
  · have hfree : (s.buttons slot).used = false := by simpa using firstSlot_some hslot
    rw [hnew]
    refine hs.congr rfl (fun i => ?_) fun i hi => ?_
    · by_cases hi : i = slot
      · subst hi
        simp [BtnState.Down, newButton, hfree]
      · simp [BtnState.Down, Function.update_of_ne hi]
    · have hne : i ≠ slot := by
        rintro rfl
        exact absurd hi.1 (by simp [hfree])
      exact congrArg Btn.id (Function.update_of_ne hne _ _)

/-- The state that `btn_set_pressed` leaves when the button with the id is in slot `i`. -/
def BtnState.setPressed (s : BtnState) (i : Fin btnMaxButtons) (pressed : Bool) : BtnState where
  buttons := Function.update s.buttons i { s.buttons i with pressed := pressed }
  stats :=
    { s.stats with pressedButtonId := if pressed then (s.buttons i).id else 0 }

theorem BtnState.down_setPressed_of_ne {s : BtnState} {i j : Fin btnMaxButtons} (hj : j ≠ i)
    (pressed : Bool) : (s.setPressed i pressed).Down j ↔ s.Down j := by
  unfold BtnState.Down BtnState.setPressed
  dsimp only
  rw [Function.update_of_ne hj]

theorem BtnState.down_setPressed_self {s : BtnState} {i : Fin btnMaxButtons}
    (hused : (s.buttons i).used = true) (pressed : Bool) :
    (s.setPressed i pressed).Down i ↔ pressed = true := by
  unfold BtnState.Down BtnState.setPressed
  dsimp only
  rw [Function.update_self]
  exact and_iff_right hused

section Table

variable {s : BtnState} (h : Ids s)

include h

theorem Ids.btnFind_eq_some_iff {id : UInt32} {i : Fin btnMaxButtons} :
    btnFind s id = some i ↔ (s.buttons i).used = true ∧ (s.buttons i).id = id := by
  obtain ⟨count, hnumbered⟩ := h
  exact hnumbered.lookup_eq_some_iff

theorem Ids.btnSetPressed_cases (id : UInt32) (pressed : Int) :
    (¬ s.Has id ∧ (btnSetPressed s id pressed).1 = s) ∨
      ∃ i, (s.buttons i).used = true ∧ (s.buttons i).id = id ∧
        (btnSetPressed s id pressed).1 = s.setPressed i (pressed != 0) := by
  unfold btnSetPressed
  cases hfind : btnFind s id with
  | none =>
      refine .inl ⟨?_, rfl⟩
      rintro ⟨i, hi⟩
      rw [h.btnFind_eq_some_iff.mpr hi] at hfind
      cases hfind
  | some i =>
      obtain ⟨hused, rfl⟩ := h.btnFind_eq_some_iff.mp hfind
      exact .inr ⟨i, hused, rfl, rfl⟩

theorem Ids.step (c : BtnCall) : Ids (btnStep s c) := by
  cases c with
  | create wmReady fbReady windowId label x y width height =>
      show Ids (btnCreate s wmReady fbReady windowId label x y width height).1
      rcases btnCreate_cases s wmReady fbReady windowId label x y width height with
        hsame | ⟨slot, hslot, hnew⟩
      · rw [hsame]
        exact h
      · obtain ⟨count, hnumbered⟩ := h
        rw [hnumbered.free] at hslot
        rw [hnew]
        split at hslot
        · cases hslot
          exact ⟨count + 1, hnumbered.push _ rfl rfl⟩
        · cases hslot
  | setPressed id pressed =>
      show Ids (btnSetPressed s id pressed).1
      rcases h.btnSetPressed_cases id pressed with ⟨-, hsame⟩ | ⟨i, -, -, hset⟩
      · rw [hsame]
        exact h
      · obtain ⟨count, hnumbered⟩ := h
        rw [hset]
        exact ⟨count, hnumbered.set i rfl rfl⟩

/-- Pressing or releasing a button keeps the books exactly if no other button is down. -/
theorem Ids.booked_setPressed_iff {i : Fin btnMaxButtons} (hused : (s.buttons i).used = true)
    (pressed : Bool) : Booked (s.setPressed i pressed) ↔ ∀ j, s.Down j → j = i := by
  have hself := BtnState.down_setPressed_self hused pressed
  constructor
  · intro ht j hj
    by_contra hne
    have hjdown := (BtnState.down_setPressed_of_ne hne pressed).mpr hj
    cases pressed with
    | true => exact hne (ht.unique j i hjdown (hself.mpr rfl))
    | false => exact ht.zero_iff.mp rfl j hjdown
  · intro honly
    have hdown : ∀ j, (s.setPressed i pressed).Down j ↔ j = i ∧ pressed = true := by
      intro j
      by_cases hj : j = i
      · subst hj
        rw [hself, and_iff_right rfl]
      · rw [BtnState.down_setPressed_of_ne hj pressed]
        exact iff_of_false (fun hjdown => hj (honly j hjdown)) fun hand => hj hand.1
    have hne : (s.buttons i).id ≠ 0 := by
      obtain ⟨count, hnumbered⟩ := h
      exact hnumbered.number_ne_zero hused
    have hkept : ((s.setPressed i pressed).buttons i).id = (s.buttons i).id := by
      unfold BtnState.setPressed
      dsimp only
      rw [Function.update_self]
    cases pressed with
    | true =>
        refine ⟨?_, fun _ => ⟨i, (hdown i).mpr ⟨rfl, rfl⟩, hkept⟩, ?_⟩
        · exact iff_of_false hne fun hall => hall i ((hdown i).mpr ⟨rfl, rfl⟩)
        · intro a b ha hb
          rw [((hdown a).mp ha).1, ((hdown b).mp hb).1]
    | false =>
        have hup : ∀ j, ¬ (s.setPressed i false).Down j :=
          fun j hj => Bool.false_ne_true ((hdown j).mp hj).2
        exact ⟨iff_of_true rfl hup, fun hbad => absurd rfl hbad, fun a _ ha => absurd ha (hup a)⟩

/-- The step lemma: a call keeps the books in order exactly if it is made alone. -/
theorem Ids.booked_step_iff (hs : Booked s) (c : BtnCall) : Booked (btnStep s c) ↔ Alone s c := by
  cases c with
  | create wmReady fbReady windowId label x y width height =>
      exact iff_of_true (hs.create wmReady fbReady windowId label x y width height) trivial
  | setPressed id pressed =>
      show Booked (btnSetPressed s id pressed).1 ↔ _
      rcases h.btnSetPressed_cases id pressed with ⟨hnone, hsame⟩ | ⟨i, hused, hid, hset⟩
      · rw [hsame]
        exact iff_of_true hs fun hhas => absurd hhas hnone
      · rw [hset, h.booked_setPressed_iff hused]
        obtain ⟨count, hnumbered⟩ := h
        constructor
        · intro honly _ j hj
          rw [honly j hj, hid]
        · intro halone j hj
          have hname := halone ⟨i, hused, hid⟩ j hj
          exact hnumbered.number_inj hj.1 hused (hname.trans hid.symm)

end Table

/-! ## Runs -/

/-- After every prefix of a sequence of calls the books are in order, exactly when no call of
the sequence presses or releases a button while another one is down. -/
theorem pressed_run_iff (calls : List BtnCall) :
    AllStates btnStep Booked btnInit calls ↔ AllSteps btnStep Alone btnInit calls :=
  allStates_iff_allSteps (fun _ c hs => hs.step c) (fun _ c hs hbooked => hs.booked_step_iff hbooked c)
    calls btnInit ids_btnInit booked_btnInit

/-- Button 1 stays down while `pressed_button_id` becomes 0. -/
theorem not_pressed_run :
    ¬ ∀ calls : List BtnCall, AllStates btnStep Booked btnInit calls := by
  intro hall
  have hlast := (hall
    [.create true true 1 none 0 0 12 12, .create true true 1 none 0 0 12 12, .setPressed 1 1,
      .setPressed 2 0]).last
  exact hlast.zero_iff.mp (by decide) 0 (by decide)

end AcharyaOS.Button
