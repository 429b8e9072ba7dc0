import AcharyaOS.Udp.Table

/-!
# Ephemeral ports

`udp_auto_bind` tries the ports from its cursor upwards and gives up behind 65535.  The
cursor goes back to 49152 only when port 65535 itself has been bound, so ports below the
cursor are not tried again before that.
-/

namespace AcharyaOS.Udp

open Foundation Foundation.Run

/-- `udp_init` is the call `none`; it leaves the cursor where it is. -/
def udpRestart (s : UdpState) : Option UdpCall → UdpState
  | none => udpInit s
  | some c => udpStep s c

/-- What the caller of `udp_auto_bind` relies on: a failure means that every socket is used,
and a success binds an ephemeral port that no socket had to a socket that was free. -/
def EphemeralLaw (s : UdpState) : Option UdpCall → Prop
  | some (.autoBind cb) =>
      ((udpAutoBind s cb).2 = none → ∀ i, (s.sockets i).used = true) ∧
        ∀ socketId, (udpAutoBind s cb).2 = some socketId →
          (s.sockets socketId).used = false ∧
            ∃ port : UInt16, 49152 ≤ port.toNat ∧ port.toNat ≤ 65535 ∧
              (∀ i, (s.sockets i).port ≠ some port) ∧
              (udpAutoBind s cb).1.sockets =
                Function.update s.sockets socketId ⟨true, port, cb⟩
  | _ => True

/-- If a socket is free, so is a port from the cursor on. -/
def PortLeft (s : UdpState) : Option UdpCall → Prop
  | some (.autoBind _) =>
      (∃ i, (s.sockets i).used = false) →
        ∃ port, s.nextEphemeral ≤ port ∧ ∀ i, (s.sockets i).port ≠ some port
  | _ => True

/-- The module has been initialised and its cursor stands at an ephemeral port. -/
structure CursorInv (s : UdpState) : Prop where
  ready : s.ready = true
  cursor_ge : 49152 ≤ s.nextEphemeral.toNat

/-! ## One call of `udp_auto_bind` -/

theorem udpBind_none_iff {s : UdpState} (hready : s.ready = true) {port : UInt16}
    (hport : port ≠ 0) (cb : UInt64) :
    (udpBind s port cb).2 = none ↔
      (∃ i, (s.sockets i).port = some port) ∨ ∀ i, (s.sockets i).used = true := by
  have hguard : (!s.ready || port == 0) = false := by
    rw [hready, Bool.not_true, Bool.false_or, beq_eq_false_iff_ne]
    exact hport
  unfold udpBind
  rw [hguard, if_neg (by decide)]
  cases hfind : findSocketIndex s port with
  | some i =>
      have hi := firstSlot_some hfind
      rw [Bool.and_eq_true, beq_iff_eq] at hi
      exact iff_of_true rfl (.inl ⟨i, UdpSocket.port_eq_some_iff.mpr hi⟩)
  | none =>
      have hfresh : ¬ ∃ i, (s.sockets i).port = some port := by
        rintro ⟨i, hi⟩
        have hmiss := firstSlot_eq_none_iff.mp hfind i
        rw [UdpSocket.port_eq_some_iff] at hi
        simp [hi] at hmiss
      rw [or_iff_right hfresh]
      cases halloc : allocSocketSlot s with
      | some slot =>
          have hfree := firstSlot_some halloc
          rw [Bool.not_eq_true'] at hfree
          refine iff_of_false (Option.some_ne_none slot) fun hall => ?_
          rw [hall slot] at hfree
          exact Bool.false_ne_true hfree.symm
      | none =>
          refine iff_of_true rfl fun i => ?_
          have hused := firstSlot_eq_none_iff.mp halloc i
          rwa [Bool.not_eq_false'] at hused

theorem cursorAfter_ge {port : UInt16} (hport : 49152 ≤ port.toNat) :
    49152 ≤ (cursorAfter port).toNat := by
  unfold cursorAfter
  split
  · decide
  · next hlast =>
      have hlt := port.toNat_lt
      have hne : port.toNat ≠ 65535 := by
        intro heq
        apply hlast
        rw [beq_iff_eq, ← UInt16.toNat_inj, heq]
        rfl
      rw [UInt16.toNat_add, UInt16.toNat_one, Nat.mod_eq_of_lt (by omega)]
      omega

/-! ## Runs -/

section Steps

variable {s : UdpState}

theorem CursorInv.cursor_ne_zero (h : CursorInv s) : s.nextEphemeral ≠ 0 := by
  intro hzero
  have hge := h.cursor_ge
  rw [hzero] at hge
  exact absurd hge (by decide)

theorem CursorInv.restart (h : CursorInv s) (c : Option UdpCall) :
    CursorInv (udpRestart s c) := by
  match c with
  | none => exact ⟨rfl, h.cursor_ge⟩
  | some (.bind localPort cb) =>
      show CursorInv (udpBind s localPort cb).1
      rcases udpBind_cases s localPort cb with hsame | ⟨slot, -, -, -, hsome⟩
      · rw [hsame]
        exact h
      · rw [hsome]
        exact ⟨h.ready, h.cursor_ge⟩
  | some (.autoBind cb) =>
      show CursorInv (udpAutoBind s cb).1
      unfold udpAutoBind
      rcases udpAutoBindFrom_spec s cb s.nextEphemeral h.cursor_ne_zero with
        ⟨hfail, -⟩ | ⟨p, slot, hp, -, hdone⟩
      · rw [hfail]
        exact h
      · rw [hdone]
        rw [UInt16.le_iff_toNat_le] at hp
        exact ⟨h.ready, cursorAfter_ge (h.cursor_ge.trans hp)⟩
  | some (.unbind socketId) =>
      show CursorInv (udpUnbind s socketId)
      rcases udpUnbind_cases s socketId with ⟨hsame, -⟩ | ⟨slot, -, -, hclear⟩
      · rw [hsame]
        exact h
      · rw [hclear]
        exact ⟨h.ready, h.cursor_ge⟩

/-- A call of `udp_auto_bind` keeps its promises exactly when a free socket finds a port. -/
theorem CursorInv.ephemeralLaw_iff (h : CursorInv s) (c : Option UdpCall) :
    EphemeralLaw s c ↔ PortLeft s c := by
  match c with
  | none => exact Iff.rfl
  | some (.bind _ _) => exact Iff.rfl
  | some (.unbind _) => exact Iff.rfl
  | some (.autoBind cb) =>
      unfold EphemeralLaw PortLeft
      have hnonzero : ∀ p, s.nextEphemeral ≤ p → p ≠ 0 := by
        rintro p hp rfl
        rw [UInt16.le_iff_toNat_le] at hp
        have hge := h.cursor_ge
        exact absurd (hge.trans hp) (by decide)
      rcases udpAutoBindFrom_spec s cb s.nextEphemeral h.cursor_ne_zero with
        ⟨hfail, hrest⟩ | ⟨p, slot, hp, hsome, hdone⟩
      · have hresult : udpAutoBind s cb = (s, none) := hfail
        simp only [hresult]
        constructor
        · intro hlaw hfree
          obtain ⟨i, hi⟩ := hfree
          rw [hlaw.1 trivial i] at hi
          exact absurd hi.symm Bool.false_ne_true
        · intro hleft
          refine ⟨fun _ i => ?_, fun _ hnone => absurd hnone.symm (Option.some_ne_none _)⟩
          by_contra hi
          obtain ⟨p, hp, hfresh⟩ := hleft ⟨i, Bool.not_eq_true _ |>.mp hi⟩
          rcases (udpBind_none_iff h.ready (hnonzero p hp) cb).mp (hrest p hp) with
            ⟨j, hj⟩ | hall
          · exact hfresh j hj
          · exact hi (hall i)
      · have hresult : udpAutoBind s cb =
            ({ s.occupy slot p cb with nextEphemeral := cursorAfter p }, some slot) := hdone
        rcases udpBind_cases s p cb with hsame | ⟨slot', -, hfree, hfresh, hsome'⟩
        · exact absurd (congrArg Prod.snd (hsame.symm.trans hsome)) (by simp)
        · have hslot : slot' = slot := by
            rw [hsome'] at hsome
            exact Option.some.inj (congrArg Prod.snd hsome)
          subst hslot
          refine iff_of_true ⟨fun hnone => ?_, fun socketId hid => ?_⟩ fun _ => ⟨p, hp, hfresh⟩
          · rw [hresult] at hnone
            cases hnone
          · rw [hresult] at hid ⊢
            cases hid
            rw [UInt16.le_iff_toNat_le] at hp
            have hlt := p.toNat_lt
            exact ⟨hfree, p, h.cursor_ge.trans hp, by omega, hfresh, rfl⟩

end Steps

/-- In a run from `udp_init` on, `udp_auto_bind` keeps its promises at every call exactly
when at each of them a free socket finds a port between the cursor and 65535. -/
theorem udpAutoBind_run_iff (calls : List (Option UdpCall)) :
    AllSteps udpRestart EphemeralLaw (udpInit udpBoot) calls ↔
      AllSteps udpRestart PortLeft (udpInit udpBoot) calls :=
  allSteps_congr (fun _ c h => CursorInv.restart h c) (fun _ c h => h.ephemeralLaw_iff c) calls _
    ⟨rfl, by decide⟩

/-! ## A cursor that runs into a bound port -/

/-- All sockets are free and the cursor has moved up by `k` ports. -/
structure Swept (k : Nat) (s : UdpState) : Prop where
  ready : s.ready = true
  free : s.sockets = fun _ => .zero
  cursor_eq : s.nextEphemeral.toNat = 49152 + k

theorem Swept.init : Swept 0 (udpInit udpBoot) := ⟨rfl, rfl, rfl⟩

theorem Swept.bind {k : Nat} {s : UdpState} (h : Swept k s) {port : UInt16} (hport : port ≠ 0)
    (cb : UInt64) : udpBind s port cb = (s.occupy 0 port cb, some 0) := by
  have hguard : (!s.ready || port == 0) = false := by
    rw [h.ready, Bool.not_true, Bool.false_or, beq_eq_false_iff_ne]
    exact hport
  have hfind : findSocketIndex s port = none := by
    apply firstSlot_eq_none_iff.mpr
    intro i
    rw [h.free]
    rfl
  have halloc : allocSocketSlot s = some 0 := by
    unfold allocSocketSlot
    rw [h.free]
    decide
  unfold udpBind
  rw [hguard, hfind, halloc]
  rfl

theorem Swept.autoBind {k : Nat} {s : UdpState} (h : Swept k s) (cb : UInt64) :
    udpAutoBind s cb = ({ s.occupy 0 s.nextEphemeral cb with
      nextEphemeral := cursorAfter s.nextEphemeral }, some 0) := by
  have hport : s.nextEphemeral ≠ 0 := by
    intro hzero
    have hcursor := h.cursor_eq
    rw [hzero] at hcursor
    simp only [UInt16.reduceToNat] at hcursor
    omega
  unfold udpAutoBind
  rw [udpAutoBindFrom, if_neg hport, h.bind hport cb]
  rfl

theorem Swept.next {k : Nat} {s : UdpState} (h : Swept k s) (hk : k < 16383) :
    Swept (k + 1) (udpUnbind (udpAutoBind s 0).1 0) := by
  have hcursor := h.cursor_eq
  rw [h.autoBind 0]
  refine ⟨h.ready, ?_, ?_⟩
  · ext i : 1
    simp [udpUnbind, UdpState.occupy, h.free]
  · show (cursorAfter s.nextEphemeral).toNat = 49152 + (k + 1)
    have hlast : ¬ (s.nextEphemeral == 65535) = true := by
      rw [beq_iff_eq, ← UInt16.toNat_inj, hcursor]
      simp only [UInt16.reduceToNat]
      omega
    unfold cursorAfter
    rw [if_neg hlast, UInt16.toNat_add, UInt16.toNat_one, hcursor, Nat.mod_eq_of_lt (by omega)]
    omega

/-- Binding and unbinding a socket in turn moves the cursor through all ephemeral ports. -/
theorem exists_swept (k : Nat) (hk : k ≤ 16383) :
    ∃ calls, Swept k (runSteps udpRestart (udpInit udpBoot) calls) := by
  induction k with
  | zero => exact ⟨[], .init⟩
  | succ k ih =>
      obtain ⟨calls, hswept⟩ := ih (by omega)
      refine ⟨calls ++ [some (.autoBind 0), some (.unbind 0)], ?_⟩
      unfold runSteps
      rw [List.foldl_append]
      exact hswept.next (by omega)

/-- Once port 65535 has been bound under the cursor, `udp_auto_bind` fails with seven
sockets free. -/
theorem Swept.stuck {s : UdpState} (h : Swept 16383 s) :
    ¬ EphemeralLaw (udpRestart s (some (.bind 65535 0))) (some (.autoBind 0)) := by
  have hcursor : s.nextEphemeral = 65535 := UInt16.toNat_inj.mp h.cursor_eq
  have hbound : udpRestart s (some (.bind 65535 0)) = s.occupy 0 65535 0 :=
    congrArg Prod.fst (h.bind (by decide) 0)
  have hready : (s.occupy 0 65535 0).ready = true := h.ready
  have hfail : (udpBind (s.occupy 0 65535 0) 65535 0).2 = none := by
    rw [udpBind_none_iff hready (by decide)]
    exact .inl ⟨0, by simp [UdpState.occupy, UdpSocket.port]⟩
  have hnone : (udpAutoBind (s.occupy 0 65535 0) 0).2 = none := by
    have hcursor' : (s.occupy 0 65535 0).nextEphemeral = 65535 := hcursor
    unfold udpAutoBind
    rw [hcursor']
    rcases udpAutoBindFrom_spec (s.occupy 0 65535 0) 0 65535 (by decide) with
      ⟨hdone, -⟩ | ⟨p, slot, hp, hsome, -⟩
    · rw [hdone]
    · rw [eq_last_of_le hp] at hsome
      rw [hsome] at hfail
      cases hfail
  intro hlaw
  rw [hbound] at hlaw
  have hused := hlaw.1 hnone 1
  have hfree : ((s.occupy 0 65535 0).sockets 1).used = false := by
    simp only [UdpState.occupy, h.free]
    decide
  rw [hfree] at hused
  exact Bool.false_ne_true hused

theorem not_ephemeralLaw_after_sweep :
    ¬ ∀ calls, AllSteps udpRestart EphemeralLaw (udpInit udpBoot) calls := by
  intro h
  obtain ⟨calls, hswept⟩ := exists_swept 16383 (Nat.le_refl _)
  have hcalls := h (calls ++ [some (.bind 65535 0), some (.autoBind 0)])
  rw [allSteps_append] at hcalls
  exact hswept.stuck hcalls.2.2.1

end AcharyaOS.Udp
