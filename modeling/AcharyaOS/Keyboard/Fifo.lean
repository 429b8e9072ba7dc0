import AcharyaOS.Foundation.Queue
import AcharyaOS.Foundation.Run
import AcharyaOS.Keyboard.Code

/-!
# The keyboard buffer is a queue

Between the released characters and the accepted ones the buffer holds a queue.  A call of
`keyboard_getchar` that stands between two accesses knows something about the queue that no
push can take away: its front stays where it is until the call itself moves the tail.
-/

namespace AcharyaOS.Keyboard

open Foundation Foundation.Ring Foundation.Run

theorem keybufNext_eq (i : Fin keybufSize) : keybufNext i = next i := rfl

/-- The accepted characters that have not been released. -/
def KeySystem.waiting (s : KeySystem) : List UInt8 := s.accepted.drop s.released

/-- What a half-finished call has learnt about the queue `q`. -/
def Learnt (tail : Fin keybufSize) (q : List UInt8) : GetcharPoint → Prop
  | .idle => True
  | .headRead head => q = [] → head = tail
  | .tailRead t => t = tail
  | .nonEmpty => q ≠ []
  | .indexed t => t = tail ∧ q ≠ []
  | .loaded c => q.head? = some c
  | .advancing c t => t = tail ∧ q.head? = some c
  | .released _ => True

/-- The character a call has taken off the queue and not handed out yet. -/
def GetcharPoint.inHand : GetcharPoint → List UInt8
  | .released c => [c]
  | _ => []

structure KeyInv (s : KeySystem) : Prop where
  released_le : s.released ≤ s.accepted.length
  queued : Queued s.keyboard.keybuf s.keyboard.keybufHead s.keyboard.keybufTail s.waiting
  learnt : Learnt s.keyboard.keybufTail s.waiting s.point
  returned_append : s.returned ++ s.point.inHand = s.accepted.take s.released

theorem head?_append_of_eq_some {q : List UInt8} {d : UInt8} (h : q.head? = some d)
    (c : UInt8) : (q ++ [c]).head? = some d := by
  cases q with
  | nil => cases h
  | cons x q => exact h

theorem Learnt.append {tail : Fin keybufSize} {q : List UInt8} {p : GetcharPoint}
    (h : Learnt tail q p) (c : UInt8) : Learnt tail (q ++ [c]) p := by
  cases p with
  | idle => trivial
  | headRead head => exact fun hnil => absurd hnil (by simp)
  | tailRead t => exact h
  | nonEmpty => simp [Learnt]
  | indexed t => exact ⟨h.1, by simp⟩
  | loaded d => exact head?_append_of_eq_some h c
  | advancing d t => exact ⟨h.1, head?_append_of_eq_some h.2 c⟩
  | released d => trivial

section Push

variable {s : KeyboardState} {q : List UInt8}

theorem push_cases (h : Queued s.keybuf s.keybufHead s.keybufTail q) (c : UInt8) :
    (q.length + 1 = keybufSize ∧ keyboardBufferPush s c = s) ∨
      (q.length + 1 < keybufSize ∧ (keyboardBufferPush s c).keybufTail = s.keybufTail ∧
        (keyboardBufferPush s c).keybufHead ≠ s.keybufHead ∧
        Queued (keyboardBufferPush s c).keybuf (keyboardBufferPush s c).keybufHead
          s.keybufTail (q ++ [c])) := by
  have hlen := h.length_lt
  have hfull := h.next_head_eq_tail_iff
  rw [← keybufNext_eq] at hfull
  unfold keyboardBufferPush
  by_cases heq : keybufNext s.keybufHead = s.keybufTail
  · left
    exact ⟨hfull.mp heq, if_pos heq⟩
  · right
    have hroom : q.length + 1 < keybufSize := by
      have := mt hfull.mpr heq
      omega
    rw [if_neg heq]
    refine ⟨hroom, rfl, ?_, h.push hroom c⟩
    intro hmoved
    have hval := congrArg Fin.val hmoved
    rw [keybufNext_eq, next_val] at hval
    simp only [keybufSize] at hval
    split at hval <;> omega

theorem keyboardInterruptHandler_cases (s : KeyboardState) (scancode : UInt8) :
    (∃ shift, keyboardInterruptHandler s scancode = { s with shiftDown := shift }) ∨
      keyboardInterruptHandler s scancode =
        keyboardBufferPush s (keyChar s.shiftDown (scancode &&& ~~~keyReleased)) := by
  unfold keyboardInterruptHandler
  simp only
  split
  · exact .inl ⟨_, rfl⟩
  · split
    · exact .inl ⟨s.shiftDown, rfl⟩
    · split
      · exact .inl ⟨s.shiftDown, rfl⟩
      · exact .inr rfl

end Push

/-- The characters the handler pushes are positive as a C `char`, so that no result of
`keyboard_getchar` but the one of an empty buffer is -1. -/
theorem keyChar_lt (shift : Bool) (key : UInt8) : keyChar shift key < 128 := by
  have htable : ∀ shift : Bool, ∀ c ∈ if shift then scancodeAsciiShift else scancodeAscii,
      c < 128 := by decide
  unfold keyChar
  rw [List.getD_eq_getElem?_getD]
  cases h : (if shift then scancodeAsciiShift else scancodeAscii)[key.toNat]? with
  | none => decide
  | some c => exact htable shift c (List.mem_of_getElem? h)

theorem keyInv_start : KeyInv keyStart where
  released_le := le_rfl
  queued := .nil _ _
  learnt := trivial
  returned_append := rfl

/-- A producer that leaves the indices and the buffer alone changes nothing. -/
theorem KeyInv.produce_idle {s : KeySystem} (h : KeyInv s) (shift : Bool) (c : UInt8) :
    KeyInv (s.produce { s.keyboard with shiftDown := shift } c) := by
  have haccepted :
      (s.produce { s.keyboard with shiftDown := shift } c).accepted = s.accepted := if_pos rfl
  have hwaiting :
      (s.produce { s.keyboard with shiftDown := shift } c).waiting = s.waiting := by
    unfold KeySystem.waiting
    rw [haccepted]
    rfl
  exact
    { released_le := haccepted ▸ h.released_le
      queued := hwaiting ▸ h.queued
      learnt := hwaiting ▸ h.learnt
      returned_append := haccepted ▸ h.returned_append }

theorem KeyInv.produce_push {s : KeySystem} (h : KeyInv s) (c : UInt8) :
    KeyInv (s.produce (keyboardBufferPush s.keyboard c) c) := by
  obtain ⟨-, hdrop⟩ | ⟨-, htail, hmoved, hqueued⟩ := push_cases h.queued c
  · rw [hdrop]
    exact h.produce_idle s.keyboard.shiftDown c
  · have haccepted : (s.produce (keyboardBufferPush s.keyboard c) c).accepted =
        s.accepted ++ [c] := if_neg hmoved
    have hwaiting : (s.produce (keyboardBufferPush s.keyboard c) c).waiting =
        s.waiting ++ [c] := by
      unfold KeySystem.waiting
      rw [haccepted]
      exact List.drop_append_of_le_length h.released_le
    constructor
    · rw [haccepted, List.length_append]
      exact h.released_le.trans (Nat.le_add_right _ _)
    · rw [hwaiting]
      exact htail.symm ▸ hqueued
    · rw [hwaiting]
      exact htail.symm ▸ h.learnt.append c
    · rw [haccepted]
      exact h.returned_append.trans (List.take_append_of_le_length h.released_le).symm

/-- A step of the consumer that leaves the tail keeps the invariant if it learns something
true and hands out at most what it had in hand. -/
theorem KeyInv.consume_of_tail {s : KeySystem} (h : KeyInv s) {p : GetcharPoint}
    {result : Option (Option UInt8)} (hp : Learnt s.keyboard.keybufTail s.waiting p)
    (hhand : result.toList.filterMap id ++ p.inHand = s.point.inHand) :
    KeyInv (s.consume (s.keyboard, p, result)) := by
  have hreleased : (s.consume (s.keyboard, p, result)).released = s.released := if_pos rfl
  have hwaiting : (s.consume (s.keyboard, p, result)).waiting = s.waiting := by
    unfold KeySystem.waiting
    rw [hreleased]
    rfl
  constructor
  · rw [hreleased]
    exact h.released_le
  · rw [hwaiting]
    exact h.queued
  · rw [hwaiting]
    exact hp
  · have hreturned : (s.consume (s.keyboard, p, result)).returned =
        s.returned ++ result.toList.filterMap id := List.filterMap_append
    rw [hreturned, hreleased, List.append_assoc]
    exact (congrArg (s.returned ++ ·) hhand).trans h.returned_append

theorem KeyInv.consume_advance {s : KeySystem} (h : KeyInv s) {c : UInt8}
    (hpoint : s.point = .advancing c s.keyboard.keybufTail) (hfront : s.waiting.head? = some c) :
    KeyInv (s.consume ({ s.keyboard with keybufTail := keybufNext s.keyboard.keybufTail },
      .released c, none)) := by
  obtain ⟨q, hq⟩ : ∃ q, s.waiting = c :: q := by
    cases hw : s.waiting with
    | nil => rw [hw] at hfront; cases hfront
    | cons d q =>
        rw [hw] at hfront
        cases hfront
        exact ⟨q, rfl⟩
  have hqueued := h.queued
  rw [hq] at hqueued
  have hmoved : keybufNext s.keyboard.keybufTail ≠ s.keyboard.keybufTail := by
    intro heq
    have hval := congrArg Fin.val heq
    rw [keybufNext_eq, next_val] at hval
    simp only [keybufSize] at hval
    split at hval <;> omega
  have hlt : s.released < s.accepted.length := by
    by_contra hge
    have hnil : s.waiting = [] := List.drop_eq_nil_of_le (not_lt.mp hge)
    rw [hnil] at hq
    cases hq
  have hcons := List.drop_eq_getElem_cons hlt
  have hsplit := hcons.symm.trans hq
  rw [List.cons.injEq] at hsplit
  obtain ⟨hget, hdrop⟩ := hsplit
  set t := s.consume ({ s.keyboard with keybufTail := keybufNext s.keyboard.keybufTail },
    .released c, none)
  have hreleased : t.released = s.released + 1 := if_neg hmoved
  have hwaiting : t.waiting = q := by
    unfold KeySystem.waiting
    rw [hreleased]
    exact hdrop
  constructor
  · rw [hreleased]
    exact hlt
  · rw [hwaiting]
    exact hqueued.pop
  · trivial
  · have hreturned : t.returned = s.returned := by
      show (s.results ++ []).filterMap id = s.results.filterMap id
      rw [List.append_nil]
    have hbefore := h.returned_append
    rw [hpoint] at hbefore
    have htake : s.accepted.take (s.released + 1) = s.accepted.take s.released ++ [c] := by
      rw [List.take_add_one, List.getElem?_eq_getElem hlt, hget]
      rfl
    rw [hreturned, hreleased]
    show s.returned ++ [c] = s.accepted.take (s.released + 1)
    rw [htake, ← hbefore]
    simp [GetcharPoint.inHand]

theorem KeyInv.step {s : KeySystem} (h : KeyInv s) (e : KeyEvent) : KeyInv (keyStep s e) := by
  cases e with
  | push c => exact h.produce_push c
  | interrupt scancode =>
      show KeyInv (s.produce (keyboardInterruptHandler s.keyboard scancode) _)
      obtain ⟨shift, hidle⟩ | hpush := keyboardInterruptHandler_cases s.keyboard scancode
      · rw [hidle]
        exact h.produce_idle shift _
      · rw [hpush]
        exact h.produce_push _
  | getchar headFirst =>
      have hlearnt := h.learnt
      unfold keyStep
      cases hp : s.point with
      | idle =>
          cases headFirst with
          | true =>
              exact h.consume_of_tail (p := .headRead _)
                (fun hnil => h.queued.head_eq_tail_iff.mpr hnil) (by simp [hp]; rfl)
          | false => exact h.consume_of_tail (p := .tailRead _) rfl (by simp [hp]; rfl)
      | headRead head =>
          rw [hp] at hlearnt
          unfold getcharStep
          simp only
          split
          · exact h.consume_of_tail (p := .idle) trivial (by simp [hp]; rfl)
          · next hne =>
              exact h.consume_of_tail (p := .nonEmpty) (fun hnil => hne (hlearnt hnil))
                (by simp [hp]; rfl)
      | tailRead tail =>
          rw [hp] at hlearnt
          obtain rfl : tail = s.keyboard.keybufTail := hlearnt
          unfold getcharStep
          simp only
          split
          · exact h.consume_of_tail (p := .idle) trivial (by simp [hp]; rfl)
          · next hne =>
              exact h.consume_of_tail (p := .nonEmpty)
                (fun hnil => hne (h.queued.head_eq_tail_iff.mpr hnil)) (by simp [hp]; rfl)
      | nonEmpty =>
          rw [hp] at hlearnt
          exact h.consume_of_tail (p := .indexed _) ⟨rfl, hlearnt⟩ (by simp [hp]; rfl)
      | indexed tail =>
          rw [hp] at hlearnt
          obtain ⟨rfl, hne⟩ := hlearnt
          refine h.consume_of_tail (p := .loaded _) ?_ (by simp [hp]; rfl)
          have hqueued := h.queued
          cases hq : s.waiting with
          | nil => exact absurd hq hne
          | cons c q =>
              rw [hq] at hqueued
              show some c = some _
              rw [hqueued.front]
      | loaded c =>
          rw [hp] at hlearnt
          exact h.consume_of_tail (p := .advancing _ _) ⟨rfl, hlearnt⟩ (by simp [hp]; rfl)
      | advancing c tail =>
          rw [hp] at hlearnt
          obtain ⟨rfl, hfront⟩ := hlearnt
          exact h.consume_advance hp hfront
      | released c => exact h.consume_of_tail (p := .idle) trivial (by simp [hp]; rfl)

theorem keyInv_run (es : List KeyEvent) : KeyInv (runSteps keyStep keyStart es) := by
  have hreach : Reach (· = keyStart) keyStep (fun _ _ => True)
      (runSteps keyStep keyStart es) :=
    Reach.runSteps es (.start rfl) (allSteps_of_forall (fun _ _ => trivial) es _)
  refine hreach.invariant ?_ fun s e h _ => h.step e
  rintro s rfl
  exact keyInv_start

/-- However interrupts fall between the accesses of `keyboard_getchar`, the characters it
hands out are the first accepted ones in their order, and a character is dropped exactly
when 127 accepted ones have not been released. -/
theorem keyboard_fifo (es : List KeyEvent) :
    (runSteps keyStep keyStart es).returned <+: (runSteps keyStep keyStart es).accepted ∧
      (runSteps keyStep keyStart es).released ≤ (runSteps keyStep keyStart es).accepted.length ∧
      ∀ c, keyboardBufferPush (runSteps keyStep keyStart es).keyboard c =
          (runSteps keyStep keyStart es).keyboard ↔
        (runSteps keyStep keyStart es).accepted.length -
          (runSteps keyStep keyStart es).released = 127 := by
  have h := keyInv_run es
  set s := runSteps keyStep keyStart es
  refine ⟨?_, h.released_le, ?_⟩
  · have htake : s.returned <+: s.accepted.take s.released :=
      ⟨s.point.inHand, h.returned_append⟩
    exact htake.trans (List.take_prefix _ _)
  · intro c
    have hlen : s.waiting.length = s.accepted.length - s.released := List.length_drop
    obtain ⟨hfull, hdrop⟩ | ⟨hroom, -, hmoved, -⟩ := push_cases h.queued c
    · simp only [keybufSize] at hfull
      simp only [hdrop, true_iff]
      omega
    · simp only [keybufSize] at hroom
      constructor
      · intro heq
        exact absurd (congrArg KeyboardState.keybufHead heq) hmoved
      · omega

end AcharyaOS.Keyboard
