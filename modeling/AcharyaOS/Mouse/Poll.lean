import AcharyaOS.Foundation.Run
import AcharyaOS.Mouse.Code
import Mathlib.Data.Fin.VecNotation
import Mathlib.Data.Fintype.Basic
import Mathlib.Order.Fin.Basic

/-!
# Taking packets from the mouse

`mouse_packet` receives the bytes of the next packet in the very array in which the last
one is handed over: its bytes from `mouse_index` on belong to the last packet completed,
those before to the packet on its way.  A poll that keeps to the first kind, and is not
overtaken by a whole packet, returns what the handler completed last.
-/

namespace AcharyaOS.Mouse

open Foundation.Run

attribute [local instance] packetSize_neZero

/-- Every packet returned is the last one completed when it was taken, and each is taken
after more packets were completed than when the one before was. -/
structure Sound (s : MouseSystem) : Prop where
  latest : ∀ r ∈ s.returned, 0 < r.1 ∧ s.completed[r.1 - 1]? = some r.2
  once : (s.returned.map Prod.fst).Pairwise (· < ·)

/-- A poll has copied a byte and not yet marked the packet as taken. -/
def PollPoint.midway : PollPoint → Bool
  | .idle => false
  | .copying k _ => k != 0
  | .clearing _ => true
  | .returning _ => false

/-- The steps that do not tear: no packet is completed while a poll is midway, and the poll
copies byte `k` before the next packet's byte `k` has come. -/
def Untorn (s : MouseSystem) : MouseEvent → Prop
  | .interrupt _ => s.point.midway = true → s.driver.mouseIndex ≠ 2
  | .call _ => True
  | .access =>
      match s.point with
      | .copying k _ => s.driver.mouseIndex ≤ k
      | _ => True

instance (s : MouseSystem) : ∀ e, Decidable (Untorn s e)
  | .interrupt _ => inferInstanceAs (Decidable (_ → _))
  | .call _ => inferInstanceAs (Decidable True)
  | .access => by
      unfold Untorn
      cases s.point <;> infer_instance

/-- What a poll has in its caller's array, `last` being the last packet completed. -/
def Copied (hasPacket : Bool) (last : Option Packet) : PollPoint → Prop
  | .idle => True
  | .copying k packet => hasPacket = true ∧ ∀ p, last = some p → ∀ j < k, packet j = p j
  | .clearing packet => hasPacket = true ∧ ∀ p, last = some p → packet = p
  | .returning _ => True

/-- The packet of a poll that has been marked as taken and is still to be returned. -/
def Taken (s : MouseSystem) : PollPoint → Prop
  | .returning packet =>
      0 < s.takenAt ∧ s.completed[s.takenAt - 1]? = some packet ∧
        ∀ r ∈ s.returned, r.1 < s.takenAt
  | _ => True

structure MouseInv (s : MouseSystem) : Prop where
  sound : Sound s
  rest : ∀ p, s.completed.getLast? = some p →
    ∀ k, s.driver.mouseIndex ≤ k → s.driver.mousePacket k = p k
  fresh : s.driver.mouseHasPacket = true → s.takenAt < s.completed.length
  takenAt_le : s.takenAt ≤ s.completed.length
  returned_le : ∀ r ∈ s.returned, r.1 ≤ s.takenAt
  copied : Copied s.driver.mouseHasPacket s.completed.getLast? s.point
  taken : Taken s s.point

theorem mouseInv_start (d : MouseDriver) : MouseInv (mouseStart d) where
  sound := ⟨nofun, .nil⟩
  rest := nofun
  fresh := nofun
  takenAt_le := le_rfl
  returned_le := nofun
  copied := trivial
  taken := trivial

section Interrupt

variable {s : MouseSystem} (h : MouseInv s)

include h

/-- A byte that does not end its packet goes where the last packet is given up. -/
theorem MouseInv.receive_byte (data : UInt8) (hnext : s.driver.mouseIndex.val + 1 < 3) :
    MouseInv (s.receive { s.driver with
      mousePacket := Function.update s.driver.mousePacket s.driver.mouseIndex data
      mouseIndex := ⟨s.driver.mouseIndex + 1, hnext⟩ }) := by
  set t := s.receive _
  have hcompleted : t.completed = s.completed := if_pos rfl
  constructor
  · exact ⟨hcompleted ▸ h.sound.latest, h.sound.once⟩
  · intro p hp k hk
    rw [hcompleted] at hp
    have hlt : s.driver.mouseIndex < k := Fin.lt_def.mpr (Nat.lt_of_succ_le hk)
    show Function.update s.driver.mousePacket s.driver.mouseIndex data k = p k
    rw [Function.update_of_ne hlt.ne']
    exact h.rest p hp k hlt.le
  · exact hcompleted ▸ h.fresh
  · exact hcompleted ▸ h.takenAt_le
  · exact h.returned_le
  · exact hcompleted ▸ h.copied
  · have htaken := h.taken
    show Taken t s.point
    cases hp : s.point with
    | returning packet =>
        rw [hp] at htaken
        exact ⟨htaken.1, hcompleted ▸ htaken.2.1, htaken.2.2⟩
    | _ => trivial

theorem MouseInv.receive_packet (m : MouseState) (packet : Packet)
    (hcount : m.packetCount ≠ s.driver.mouseState.packetCount)
    (hmidway : s.point.midway = false) :
    MouseInv (s.receive ⟨m, packet, 0, true⟩) := by
  set t := s.receive _
  have hcompleted : t.completed = s.completed ++ [packet] := if_neg hcount
  have hlen : t.completed.length = s.completed.length + 1 := by
    rw [hcompleted, List.length_append, List.length_singleton]
  have hkeep : ∀ {i : Nat} {p : Packet}, s.completed[i]? = some p → t.completed[i]? = some p := by
    intro i p hi
    obtain ⟨hlt, -⟩ := List.getElem?_eq_some_iff.mp hi
    rw [hcompleted, List.getElem?_append_left hlt]
    exact hi
  constructor
  · refine ⟨?_, h.sound.once⟩
    intro r hr
    exact ⟨(h.sound.latest r hr).1, hkeep (h.sound.latest r hr).2⟩
  · intro p hp k _
    rw [hcompleted, List.getLast?_append, List.getLast?_singleton] at hp
    cases hp
    rfl
  · intro _
    have hle := h.takenAt_le
    show s.takenAt < t.completed.length
    omega
  · have hle := h.takenAt_le
    show s.takenAt ≤ t.completed.length
    omega
  · exact h.returned_le
  · show Copied true t.completed.getLast? s.point
    cases hp : s.point with
    | idle => trivial
    | copying k q =>
        rw [hp] at hmidway
        have hzero : k = 0 := by simpa [PollPoint.midway] using hmidway
        subst hzero
        exact ⟨rfl, fun _ _ j hj => absurd hj (Fin.not_lt_zero j)⟩
    | clearing q =>
        rw [hp] at hmidway
        cases hmidway
    | returning q => trivial
  · have htaken := h.taken
    show Taken t s.point
    cases hp : s.point with
    | returning q =>
        rw [hp] at htaken
        exact ⟨htaken.1, hkeep htaken.2.1, htaken.2.2⟩
    | _ => trivial

theorem MouseInv.interrupt (data : UInt8) (hC : Untorn s (.interrupt data)) :
    MouseInv (mouseStep s (.interrupt data)) := by
  show MouseInv (s.receive (mouseInterruptHandler s.driver data))
  unfold mouseInterruptHandler
  simp only
  split
  · have hsame : s.receive s.driver = s := by
      unfold MouseSystem.receive
      rw [if_pos rfl]
    rw [hsame]
    exact h
  · split
    · next hnext => exact h.receive_byte data hnext
    · next hlast =>
        refine h.receive_packet _ _ ?_ ?_
        · show s.driver.mouseState.packetCount + 1 ≠ s.driver.mouseState.packetCount
          simp
        · have htwo : s.driver.mouseIndex = 2 := by
            apply Fin.ext
            have := s.driver.mouseIndex.isLt
            show s.driver.mouseIndex.val = 2
            omega
          cases hmid : s.point.midway with
          | false => rfl
          | true => exact absurd htwo (hC hmid)

end Interrupt

section Poll

variable {s : MouseSystem} (h : MouseInv s)

include h

theorem MouseInv.advance_copy {p : PollPoint}
    (hcopied : Copied s.driver.mouseHasPacket s.completed.getLast? p) (htaken : Taken s p) :
    MouseInv (s.advance (s.driver, p, none)) := by
  have hsame : s.advance (s.driver, p, none) = { s with point := p } := by
    simp [MouseSystem.advance]
  rw [hsame]
  exact
    { sound := ⟨h.sound.latest, h.sound.once⟩
      rest := h.rest
      fresh := h.fresh
      takenAt_le := h.takenAt_le
      returned_le := h.returned_le
      copied := hcopied
      taken := by cases p <;> exact htaken }

/-- Clearing `mouse_has_packet` takes the packet copied, which is the last one. -/
theorem MouseInv.advance_clear {packet : Packet} (hp : s.point = .clearing packet) :
    MouseInv (s.advance ({ s.driver with mouseHasPacket := false }, .returning packet, none)) := by
  have hcopied := h.copied
  rw [hp] at hcopied
  obtain ⟨hhas, hlast⟩ := hcopied
  have hfresh := h.fresh hhas
  set t := s.advance _
  have htakenAt : t.takenAt = s.completed.length := by
    apply if_neg
    rw [hhas]
    exact Bool.false_ne_true
  have hreturned : t.returned = s.returned := List.append_nil _
  have hbefore : ∀ r ∈ s.returned, r.1 < s.completed.length :=
    fun r hr => (h.returned_le r hr).trans_lt hfresh
  constructor
  · exact ⟨hreturned ▸ h.sound.latest, hreturned ▸ h.sound.once⟩
  · exact h.rest
  · exact nofun
  · exact htakenAt.le
  · rw [hreturned, htakenAt]
    exact fun r hr => (hbefore r hr).le
  · trivial
  · show 0 < t.takenAt ∧ s.completed[t.takenAt - 1]? = some packet ∧
      ∀ r ∈ t.returned, r.1 < t.takenAt
    rw [htakenAt, hreturned]
    refine ⟨by omega, ?_, hbefore⟩
    cases hlast? : s.completed.getLast? with
    | none =>
        rw [List.getLast?_eq_none_iff.mp hlast?] at hfresh
        exact absurd hfresh (Nat.not_lt_zero _)
    | some p => rw [← List.getLast?_eq_getElem?, hlast?, hlast p hlast?]

theorem MouseInv.advance_return {packet : Packet} (hp : s.point = .returning packet)
    (m : MouseState) :
    MouseInv (s.advance ({ s.driver with mouseState := m }, .idle, some packet)) := by
  have htaken := h.taken
  rw [hp] at htaken
  obtain ⟨hpos, hpacket, hbefore⟩ := htaken
  set t := s.advance _
  have htakenAt : t.takenAt = s.takenAt := if_pos rfl
  have hmem : ∀ r ∈ t.returned, r ∈ s.returned ∨ r = (s.takenAt, packet) := by
    intro r hr
    rcases List.mem_append.mp hr with hold | hnew
    · exact .inl hold
    · exact .inr (List.mem_singleton.mp hnew)
  constructor
  · constructor
    · intro r hr
      rcases hmem r hr with hold | rfl
      · exact h.sound.latest r hold
      · exact ⟨hpos, hpacket⟩
    · show ((s.returned ++ [(s.takenAt, packet)]).map Prod.fst).Pairwise (· < ·)
      rw [List.map_append, List.pairwise_append]
      refine ⟨h.sound.once, List.pairwise_singleton _ _, ?_⟩
      intro n hn m hm
      obtain ⟨r, hr, rfl⟩ := List.mem_map.mp hn
      rw [List.map_singleton, List.mem_singleton] at hm
      rw [hm]
      exact hbefore r hr
  · exact h.rest
  · exact htakenAt ▸ h.fresh
  · exact htakenAt ▸ h.takenAt_le
  · rw [htakenAt]
    intro r hr
    rcases hmem r hr with hold | rfl
    · exact h.returned_le r hold
    · exact le_rfl
  · trivial
  · trivial

theorem MouseInv.access (hC : Untorn s .access) : MouseInv (mouseStep s .access) := by
  show MouseInv (s.advance (pollAccess s.driver s.point))
  have hcopied := h.copied
  unfold Untorn at hC
  cases hp : s.point with
  | idle => exact h.advance_copy trivial trivial
  | copying k packet =>
      rw [hp] at hcopied hC
      obtain ⟨hhas, hprefix⟩ := hcopied
      have hcopy : ∀ p, s.completed.getLast? = some p →
          ∀ j ≤ k, Function.update packet k (s.driver.mousePacket k) j = p j := by
        intro p hlast j hj
        by_cases heq : j = k
        · rw [heq, Function.update_self]
          exact h.rest p hlast k hC
        · rw [Function.update_of_ne heq]
          exact hprefix p hlast j (lt_of_le_of_ne hj heq)
      unfold pollAccess
      simp only
      split
      · refine h.advance_copy ⟨hhas, fun p hlast j hj => hcopy p hlast j ?_⟩ trivial
        exact Fin.le_def.mpr (Nat.lt_succ_iff.mp (Fin.lt_def.mp hj))
      · next hlast3 =>
          refine h.advance_copy ⟨hhas, fun p hlast => ?_⟩ trivial
          ext j : 1
          apply hcopy p hlast j
          have := j.isLt
          exact Fin.le_def.mpr (by omega)
  | clearing packet => exact h.advance_clear hp
  | returning packet => exact h.advance_return hp _

theorem MouseInv.call (packet : Option Packet) : MouseInv (mouseStep s (.call packet)) := by
  cases hp : s.point with
  | idle =>
      have hstep : mouseStep s (.call packet) =
          { s with point := mousePollPacket s.driver packet } := by
        simp only [mouseStep, hp]
      have hcopied : Copied s.driver.mouseHasPacket s.completed.getLast?
          (mousePollPacket s.driver packet) := by
        cases packet with
        | none => trivial
        | some packet =>
            unfold mousePollPacket
            simp only
            split
            · next hhas => exact ⟨hhas, fun _ _ j hj => absurd hj (Fin.not_lt_zero j)⟩
            · trivial
      have htaken : Taken s (mousePollPacket s.driver packet) := by
        cases packet with
        | none => trivial
        | some packet =>
            unfold mousePollPacket
            simp only
            split <;> trivial
      rw [hstep]
      have hmoved := h.advance_copy hcopied htaken
      simpa [MouseSystem.advance] using hmoved
  | copying k q => simpa only [mouseStep, hp] using h
  | clearing q => simpa only [mouseStep, hp] using h
  | returning q => simpa only [mouseStep, hp] using h

end Poll

theorem MouseInv.step {s : MouseSystem} (h : MouseInv s) (e : MouseEvent) (hC : Untorn s e) :
    MouseInv (mouseStep s e) := by
  cases e with
  | interrupt data => exact h.interrupt data hC
  | call packet => exact h.call packet
  | access => exact h.access hC

/-- In a run whose steps do not tear, polls return packets as the handler completed them,
each the last one when it is taken and none of them twice. -/
theorem polls_sound_of_untorn (d : MouseDriver) (es : List MouseEvent)
    (h : AllSteps mouseStep Untorn (mouseStart d) es) :
    AllStates mouseStep Sound (mouseStart d) es := by
  exact AllSteps.allStates (I := MouseInv) (fun s e hs hC => hs.step e hC) (fun s hs => hs.sound)
    es (mouseInv_start d) h

/-- One packet followed by a poll. -/
def quietRun : List MouseEvent :=
  [.interrupt 0x09, .interrupt 5, .interrupt 7, .call (some fun _ => 0), .access, .access,
    .access, .access, .access]

theorem polls_sound_of_untorn_quietRun :
    AllStates mouseStep Sound (mouseStart mouseBoot) quietRun :=
  polls_sound_of_untorn mouseBoot quietRun (by decide)

/-- The first byte of the next packet comes before the poll. -/
def tornRun : List MouseEvent :=
  [.interrupt 0x09, .interrupt 5, .interrupt 7, .interrupt 0x0A, .call (some fun _ => 0),
    .access, .access, .access, .access, .access]

/-- The poll mixes the button byte of a packet on its way with the movements of the last
one. -/
theorem tornRun_not_sound :
    ¬ ∀ (d : MouseDriver) (es : List MouseEvent), AllStates mouseStep Sound (mouseStart d) es := by
  intro h
  have hsound := (h mouseBoot tornRun).last
  have hreturned : (1, ![0x0A, 5, 7]) ∈
      (runSteps mouseStep (mouseStart mouseBoot) tornRun).returned := by decide
  have hcompleted : (runSteps mouseStep (mouseStart mouseBoot) tornRun).completed =
      [![0x09, 5, 7]] := by decide
  have hlatest := (hsound.latest _ hreturned).2
  rw [hcompleted] at hlatest
  exact absurd hlatest (by decide)

end AcharyaOS.Mouse
