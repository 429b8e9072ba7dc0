import AcharyaOS.Foundation.Run
import AcharyaOS.Udp.Code

/-!
# The socket table and its counter

A bind takes a free socket for a port of its own, and an unbind clears one.  The counter
goes up with every bind and never comes down, so that it counts the used sockets exactly as
long as none is given back.
-/

namespace AcharyaOS.Udp

open Foundation Foundation.Run

/-- The port of a used socket. -/
def UdpSocket.port (e : UdpSocket) : Option UInt16 := if e.used then some e.localPort else none

/-- Used sockets have distinct ports other than zero, and the others are cleared. -/
structure SocketsInv (s : UdpState) : Prop where
  distinct : Distinct fun i => (s.sockets i).port
  port_ne_zero : ∀ i, (s.sockets i).used = true → (s.sockets i).localPort ≠ 0
  cleared : ∀ i, (s.sockets i).used = false → s.sockets i = .zero

/-- The socket table is in order, and the counter reported is the number of used sockets. -/
structure UdpTable (s : UdpState) : Prop extends SocketsInv s where
  bound_eq : (udpGetStats s).boundSockets.toNat = countSlots fun i => (s.sockets i).used

/-- The call does not give back a used socket. -/
def KeepsSockets (s : UdpState) : UdpCall → Prop
  | .unbind socketId => ∀ i : Fin udpMaxSockets, socketId = i.val → (s.sockets i).used = false
  | _ => True

theorem UdpSocket.port_eq_some_iff {e : UdpSocket} {p : UInt16} :
    e.port = some p ↔ e.used = true ∧ e.localPort = p := by
  unfold UdpSocket.port
  split
  · next hused => simp [hused]
  · next hused => simp [hused]

theorem udpTable_init (s : UdpState) : UdpTable (udpInit s) where
  distinct := .free
  port_ne_zero _ h := absurd h Bool.false_ne_true
  cleared _ _ := rfl
  bound_eq := rfl

/-! ## Binding -/

theorem udpBind_cases (s : UdpState) (localPort : UInt16) (cb : UInt64) :
    udpBind s localPort cb = (s, none) ∨
      ∃ slot, localPort ≠ 0 ∧ (s.sockets slot).used = false ∧
        (∀ i, (s.sockets i).port ≠ some localPort) ∧
        udpBind s localPort cb = (s.occupy slot localPort cb, some slot) := by
  unfold udpBind
  split
  · exact .inl rfl
  · next hready =>
      split
      · exact .inl rfl
      · next hfind =>
          cases halloc : allocSocketSlot s with
          | none => exact .inl rfl
          | some slot =>
              right
              have hfree : (s.sockets slot).used = false := by
                have := firstSlot_some halloc
                simpa using this
              refine ⟨slot, ?_, hfree, ?_, rfl⟩
              · rintro rfl
                simp at hready
              · intro i hi
                obtain ⟨hused, hport⟩ := UdpSocket.port_eq_some_iff.mp hi
                have hnone : findSocketIndex s localPort = none := by simpa using hfind
                have hi' := firstSlot_eq_none_iff.mp hnone i
                simp [hused, hport] at hi'

theorem eq_last_of_le {port : UInt16} (h : 65535 ≤ port) : port = 65535 := by
  rw [← UInt16.toNat_inj]
  rw [UInt16.le_iff_toNat_le] at h
  have hlt := port.toNat_lt
  simp only [UInt16.reduceToNat] at h ⊢
  omega

/-- Where the cursor stands behind a port that has been bound. -/
def cursorAfter (port : UInt16) : UInt16 := if port == 65535 then 49152 else port + 1

/-- The loop fails when every bind from `port` on would, and otherwise makes the first one
that succeeds. -/
theorem udpAutoBindFrom_spec (s : UdpState) (cb : UInt64) (port : UInt16) (hport : port ≠ 0) :
    (udpAutoBindFrom s cb port = (s, none) ∧ ∀ p, port ≤ p → (udpBind s p cb).2 = none) ∨
      ∃ p slot, port ≤ p ∧ udpBind s p cb = (s.occupy slot p cb, some slot) ∧
        udpAutoBindFrom s cb port =
          ({ s.occupy slot p cb with nextEphemeral := cursorAfter p }, some slot) := by
  fun_induction udpAutoBindFrom s cb port with
  | case1 => exact absurd rfl hport
  | case2 s port _ s' socketId hbind =>
      right
      rcases udpBind_cases s port cb with hsame | ⟨slot, -, -, -, hsome⟩
      · rw [hsame] at hbind
        cases hbind
      · obtain ⟨hstate, hslot⟩ := Prod.mk.inj (hbind.symm.trans hsome)
        rw [Option.some.inj hslot, hstate]
        exact ⟨port, slot, UInt16.le_refl port, hsome, rfl⟩
  | case3 s _ s' hbind =>
      left
      rcases udpBind_cases s 65535 cb with hsame | ⟨slot, -, -, -, hsome⟩
      · rw [hsame] at hbind
        cases hbind
        refine ⟨rfl, fun p hp => ?_⟩
        rw [eq_last_of_le hp, hsame]
      · rw [hsome] at hbind
        cases hbind
  | case4 s port _ s' hbind hlast ih =>
      obtain ⟨rfl, hnone⟩ : s' = s ∧ (udpBind s port cb).2 = none := by
        rcases udpBind_cases s port cb with hsame | ⟨slot, -, -, -, hsome⟩
        · rw [hsame] at hbind ⊢
          cases hbind
          exact ⟨rfl, rfl⟩
        · rw [hsome] at hbind
          cases hbind
      have hnext : (port + 1).toNat = port.toNat + 1 := by
        have hlt := port.toNat_lt
        have hne : port.toNat ≠ 65535 := fun heq => hlast (UInt16.toNat_inj.mp heq)
        rw [UInt16.toNat_add, UInt16.toNat_one, Nat.mod_eq_of_lt (by omega)]
      have hpos : port + 1 ≠ 0 := by
        intro hzero
        rw [hzero] at hnext
        exact absurd hnext (by simp)
      rcases ih hpos with ⟨hfail, hrest⟩ | ⟨p, slot, hp, hsome, hdone⟩
      · refine .inl ⟨hfail, fun p hp => ?_⟩
        by_cases heq : p = port
        · rw [heq, hnone]
        · apply hrest
          rw [UInt16.le_iff_toNat_le] at hp ⊢
          have hne : p.toNat ≠ port.toNat := fun h => heq (UInt16.toNat_inj.mp h)
          omega
      · refine .inr ⟨p, slot, ?_, hsome, hdone⟩
        rw [UInt16.le_iff_toNat_le] at hp ⊢
        omega

theorem udpAutoBindFrom_cases (s : UdpState) (cb : UInt64) (port : UInt16) :
    (udpAutoBindFrom s cb port).1 = s ∨
      ∃ p next, (udpAutoBindFrom s cb port).1 =
        { (udpBind s p cb).1 with nextEphemeral := next } := by
  by_cases hport : port = 0
  · left
    rw [hport, udpAutoBindFrom]
    rfl
  · rcases udpAutoBindFrom_spec s cb port hport with ⟨hfail, -⟩ | ⟨p, slot, -, hbind, hdone⟩
    · left
      rw [hfail]
    · right
      refine ⟨p, cursorAfter p, ?_⟩
      rw [hdone, hbind]

section Steps

variable {s : UdpState}

theorem SocketsInv.occupy (h : SocketsInv s) {slot : Fin udpMaxSockets} {localPort : UInt16}
    (hport : localPort ≠ 0) (hfresh : ∀ i, (s.sockets i).port ≠ some localPort) (cb : UInt64) :
    SocketsInv (s.occupy slot localPort cb) := by
  have hports : (fun i => ((s.occupy slot localPort cb).sockets i).port) =
      Function.update (fun i => (s.sockets i).port) slot (some localPort) := by
    ext i : 1
    by_cases hi : i = slot
    · subst hi
      simp [UdpState.occupy, UdpSocket.port]
    · simp [UdpState.occupy, hi]
  constructor
  · rw [hports]
    apply h.distinct.update
    rintro x ⟨⟩ j _
    exact hfresh j
  · intro i hi
    by_cases hslot : i = slot
    · subst hslot
      simpa [UdpState.occupy] using hport
    · simp only [UdpState.occupy, Function.update_of_ne hslot] at hi ⊢
      exact h.port_ne_zero i hi
  · intro i hi
    by_cases hslot : i = slot
    · subst hslot
      simp [UdpState.occupy] at hi
    · simp only [UdpState.occupy, Function.update_of_ne hslot] at hi ⊢
      exact h.cleared i hi

theorem UdpTable.occupy (h : UdpTable s) {slot : Fin udpMaxSockets} {localPort : UInt16}
    (hport : localPort ≠ 0) (hfree : (s.sockets slot).used = false)
    (hfresh : ∀ i, (s.sockets i).port ≠ some localPort) (cb : UInt64) :
    UdpTable (s.occupy slot localPort cb) where
  toSocketsInv := h.toSocketsInv.occupy hport hfresh cb
  bound_eq := by
    have hused : (fun i => ((s.occupy slot localPort cb).sockets i).used) =
        Function.update (fun i => (s.sockets i).used) slot true := by
      ext i : 1
      by_cases hi : i = slot
      · subst hi
        simp [UdpState.occupy]
      · simp [UdpState.occupy, hi]
    have hcount := countSlots_update (fun i => (s.sockets i).used) slot true
    have hle := countSlots_le fun i => ((s.occupy slot localPort cb).sockets i).used
    have hbound := h.bound_eq
    rw [hused] at hle ⊢
    rw [hfree] at hcount
    simp only [udpGetStats, Bool.toNat_false, Bool.toNat_true, udpMaxSockets] at *
    show (s.stats.boundSockets + 1).toNat = _
    rw [UInt32.toNat_add, UInt32.toNat_one]
    omega

theorem UdpTable.bind (h : UdpTable s) (localPort : UInt16) (cb : UInt64) :
    UdpTable (udpBind s localPort cb).1 := by
  rcases udpBind_cases s localPort cb with hsame | ⟨slot, hport, hfree, hfresh, hbind⟩
  · rw [hsame]
    exact h
  · rw [hbind]
    exact h.occupy hport hfree hfresh cb

theorem UdpTable.autoBind (h : UdpTable s) (cb : UInt64) : UdpTable (udpAutoBind s cb).1 := by
  unfold udpAutoBind
  rcases udpAutoBindFrom_cases s cb s.nextEphemeral with hsame | ⟨p, next, hbind⟩
  · rw [hsame]
    exact h
  · rw [hbind]
    have hp := h.bind p cb
    exact ⟨⟨hp.distinct, hp.port_ne_zero, hp.cleared⟩, hp.bound_eq⟩

theorem udpUnbind_cases (s : UdpState) (socketId : Int) :
    (udpUnbind s socketId = s ∧ KeepsSockets s (.unbind socketId)) ∨
      ∃ slot : Fin udpMaxSockets, socketId = slot.val ∧ (s.sockets slot).used = true ∧
        udpUnbind s socketId = { s with sockets := Function.update s.sockets slot .zero } := by
  unfold udpUnbind
  split
  · next hrange =>
      simp only
      split
      · next hused => exact .inr ⟨_, (Int.toNat_of_nonneg hrange.1).symm, hused, rfl⟩
      · next hused =>
          refine .inl ⟨rfl, ?_⟩
          rintro i rfl
          simpa using hused
  · next hrange =>
      refine .inl ⟨rfl, ?_⟩
      rintro i rfl
      exact absurd ⟨Int.natCast_nonneg _, by have := i.isLt; omega⟩ hrange

/-- Clearing a used socket leaves the counter one too high. -/
theorem UdpTable.clear_not (h : UdpTable s) {slot : Fin udpMaxSockets}
    (hused : (s.sockets slot).used = true) :
    ¬ UdpTable { s with sockets := Function.update s.sockets slot .zero } := by
  intro hafter
  have hbound := hafter.bound_eq
  have hclear : (fun i => (Function.update s.sockets slot .zero i).used) =
      Function.update (fun i => (s.sockets i).used) slot false := by
    ext i : 1
    by_cases hi : i = slot
    · subst hi
      simp [UdpSocket.zero]
    · simp [hi]
  have hcount := countSlots_update (fun i => (s.sockets i).used) slot false
  have hbefore := h.bound_eq
  simp only [hclear, udpGetStats] at hbound hbefore
  rw [hused] at hcount
  simp only [Bool.toNat_false, Bool.toNat_true] at hcount
  omega

theorem UdpTable.step_iff (h : UdpTable s) (c : UdpCall) :
    UdpTable (udpStep s c) ↔ KeepsSockets s c := by
  cases c with
  | bind localPort cb => exact iff_of_true (h.bind localPort cb) trivial
  | autoBind cb => exact iff_of_true (h.autoBind cb) trivial
  | unbind socketId =>
      show UdpTable (udpUnbind s socketId) ↔ _
      rcases udpUnbind_cases s socketId with ⟨hsame, hkeeps⟩ | ⟨slot, rfl, hused, hclear⟩
      · rw [hsame]
        exact iff_of_true h hkeeps
      · rw [hclear]
        refine iff_of_false (h.clear_not hused) fun hkeeps => ?_
        rw [hkeeps slot rfl] at hused
        exact Bool.false_ne_true hused

end Steps

/-- The table and its counter agree throughout a run exactly when no used socket is given
back in it. -/
theorem udpTable_run_iff (s : UdpState) (calls : List UdpCall) :
    AllStates udpStep UdpTable (udpInit s) calls ↔
      AllSteps udpStep KeepsSockets (udpInit s) calls :=
  allStates_iff_allSteps (I := fun _ => True) (fun _ _ _ => trivial)
    (fun _ c _ h => h.step_iff c) calls _ trivial (udpTable_init s)

theorem not_udpTable_after_unbind :
    ¬ ∀ (s : UdpState) (calls : List UdpCall), AllStates udpStep UdpTable (udpInit s) calls := by
  intro h
  have hbound := (h udpBoot [.bind 53 0, .unbind 0]).last.bound_eq
  exact absurd hbound (by decide)

end AcharyaOS.Udp
