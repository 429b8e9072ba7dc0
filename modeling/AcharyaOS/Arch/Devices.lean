import AcharyaOS.Arch.Interrupts
import AcharyaOS.Foundation.SharedBuffer
import AcharyaOS.Keyboard.Code
import AcharyaOS.Mouse.Code
import AcharyaOS.Pic.Protocol
import AcharyaOS.Process.Code
import AcharyaOS.Scheduler.Fairness

/-!
# Devices and drivers

The kernel from `sti` on.  Devices raise their lines at any time; between two instructions the
processor takes the interrupt the controllers offer, `idt_dispatch` calls the driver, and the
driver ends the interrupt at the controllers.  The gates keep the processor from taking another
one before.  The keyboard and the mouse send their bytes through the one output buffer of the
PS/2 controller.
-/

namespace AcharyaOS.Arch

open Foundation Foundation.Run Foundation.StackMachine Log Pic Keyboard Mouse Process Scheduler

attribute [local instance] eight_neZero

def timerIrq : UInt8 := 0

def keyboardIrq : UInt8 := 1

def timerWire : Wire := .first 0

def keyboardWire : Wire := .first 1

def mouseWire : Wire := .second 4

/-- The devices behind port 0x60. -/
inductive Ps2Port
  | keyboard
  | mouse
  deriving DecidableEq

def Ps2Port.wire : Ps2Port → Wire
  | .keyboard => keyboardWire
  | .mouse => mouseWire

/-- The controllers, the table of the handlers, the static variables of the drivers and of what
they use, and the PS/2 controller with its output buffer.  For the specification only: the bytes
each device has sent, those that the driver of the keyboard has read, and the interrupts taken. -/
structure Drivers where
  pics : Controllers
  idt : IdtState
  log : LogState
  process : ProcState
  keyboard : KeyboardState
  mouse : MouseDriver
  ps2 : SharedBuffer Ps2Port UInt8
  sent : Ps2Port → List UInt8
  read : List UInt8
  taken : List Wire

namespace Drivers

/-! ## The drivers -/

def onTimer (d : Drivers) : Drivers :=
  { d with process := timerInterruptHandler d.process, pics := picSendEoi d.pics timerIrq }

/-- The handler takes what is in the output buffer, whose ever it is. -/
def onKeyboard (d : Drivers) : Drivers :=
  { d with
    keyboard := keyboardInterruptHandler d.keyboard d.ps2.data
    ps2 := d.ps2.clear
    read := d.read ++ [d.ps2.data]
    pics := picSendEoi d.pics keyboardIrq }

def onMouse (d : Drivers) : Drivers :=
  { d with
    mouse := mouseInterruptHandler d.mouse d.ps2.data
    ps2 := d.ps2.clear
    pics := picSendEoi d.pics mouseIrq }

/-- The processor takes an interrupt while code runs with the context `c`.  An interrupt
without a handler is reported and not ended. -/
def interrupt (d : Drivers) (c : Context Reg) : Drivers :=
  match d.pics.acknowledge with
  | none => d
  | some (wire, pics) =>
      let d := { d with pics := pics, taken := d.taken ++ [wire] }
      match idtDispatch d.idt.handlers d.log d.process.ticks
          (.suspend c (picIrqBase + wire.irq) none) with
      | .handler .timerInterruptHandler => d.onTimer
      | .handler .keyboardInterruptHandler => d.onKeyboard
      | .handler .mouseInterruptHandler => d.onMouse
      | _ => d

/-- The PS/2 controller fills its output buffer, and says so on the line of the device. -/
def load (d : Drivers) (port : Ps2Port) : Drivers :=
  match d.ps2.load port with
  | none => d
  | some ps2 => { d with ps2 := ps2, pics := d.pics.raise port.wire }

end Drivers

inductive DeviceEvent
  | tick
  /-- The keyboard or the mouse has a byte for its driver. -/
  | send (port : Ps2Port) (byte : UInt8)
  | load (port : Ps2Port)
  /-- An edge on the line of another device. -/
  | edge (wire : Wire) (hother : wire ∉ [timerWire, keyboardWire, mouseWire, .first cascadeLine])
  | interrupt (c : Context Reg)
  /-- The foreground has taken characters and packets from the drivers. -/
  | poll (keyboard : KeyboardState) (mouse : MouseDriver)
  | createKernel (name : Option CString) (timeSliceTicks : UInt32)

def deviceStep (d : Drivers) : DeviceEvent → Drivers
  | .tick => { d with pics := d.pics.raise timerWire }
  | .send port byte =>
      { d with
        ps2 := d.ps2.send port byte
        sent := Function.update d.sent port (d.sent port ++ [byte]) }
  | .load port => d.load port
  | .edge wire _ => { d with pics := d.pics.raise wire }
  | .interrupt c => d.interrupt c
  | .poll keyboard mouse => { d with keyboard := keyboard, mouse := mouse }
  | .createKernel name slice =>
      { d with process := (processCreateKernel d.process name slice).1 }

/-- What `pic_init` and the drivers' initialisations leave in the mask registers. -/
def bootMasks (s : PicState) : PicState :=
  picUnmaskIrq (mouseInitPic (picUnmaskIrq (picInit s) keyboardIrq)) timerIrq

/-- The drivers as `kmain` has them when it comes to `sti`.  In the PS/2 controller there can be
anything: `mouse_init` does not read the answers to its last two commands.  It has read the
output buffer before that, behind `pic_init`, so that what is in it now is announced. -/
def driversBoot (masks : PicState) (stubs : StubAddress) (idt : IdtState) (log : LogState)
    (process : ProcState) (mouse : MouseDriver) (ps2 : SharedBuffer Ps2Port UInt8) :
    Drivers where
  pics :=
    { masks := bootMasks masks
      pic1 := ⟨Function.update (fun _ => false) 1 (decide (ps2.full = some .keyboard)),
        fun _ => false⟩
      pic2 := ⟨Function.update (fun _ => false) 4 (decide (ps2.full = some .mouse)),
        fun _ => false⟩ }
  idt := runSteps (initStep stubs) (idtInit stubs idt)
    [.keyboardInit, .mouseInit, .timerInit, .syscallInit]
  log := log
  process := processInit { process with ticks := 0 }.withScheduler
  keyboard := keyboardBoot
  mouse := mouseInit mouse
  ps2 := ps2
  sent := ps2.unread
  read := []
  taken := []

/-! ## The controllers -/

/-- Only the lines of the timer and of the keyboard get through, the timer first. -/
theorem acknowledge_of_masks {s : Controllers} (hmask : s.masks.mask .pic1 = 0xFC)
    (hquiet : s.Quiet) :
    s.acknowledge =
      if s.pic1.request 0 then some (timerWire, { s with pic1 := s.pic1.grant 0 })
      else if s.pic1.request 1 then some (keyboardWire, { s with pic1 := s.pic1.grant 1 })
      else none := by
  have hmasked : ∀ i : Fin 8, (0xFC : UInt8).toNat.testBit i.val = decide (2 ≤ i.val) := by
    decide
  have hnext : s.next1 = if s.pic1.request 0 then some 0
      else if s.pic1.request 1 then some 1 else none := by
    have hservice : Controller.Quiet
        { s.pic1 with
          request := Function.update s.pic1.request cascadeLine s.next2.isSome } := hquiet.1
    unfold Controllers.next1
    rw [hservice.next_eq, hmask]
    simp only [hmasked]
    by_cases htimer : s.pic1.request 0 = true
    · rw [if_pos htimer]
      apply firstSlot_of_first
      · show (Function.update s.pic1.request cascadeLine s.next2.isSome 0 && _) = true
        rw [Function.update_of_ne (by decide), htimer]
        rfl
      · exact fun j hj => absurd hj (Nat.not_lt_zero _)
    · rw [if_neg htimer]
      by_cases hkeyboard : s.pic1.request 1 = true
      · rw [if_pos hkeyboard]
        apply firstSlot_of_first
        · show (Function.update s.pic1.request cascadeLine s.next2.isSome 1 && _) = true
          rw [Function.update_of_ne (by decide), hkeyboard]
          rfl
        · intro j hj
          have hzero : j = 0 := Fin.ext (Nat.lt_one_iff.mp hj)
          show (Function.update s.pic1.request cascadeLine s.next2.isSome j && _) = false
          rw [hzero, Function.update_of_ne (by decide), Bool.eq_false_iff.mpr htimer]
          rfl
      · rw [if_neg hkeyboard, firstSlot_eq_none_iff]
        intro i
        by_cases hi : 2 ≤ i.val
        · rw [decide_eq_true hi, Bool.not_true, Bool.and_false]
        · have hne : i ≠ cascadeLine := fun h => hi (h ▸ Nat.le_refl 2)
          have hlow : i = 0 ∨ i = 1 := by
            rcases i with ⟨i, hlt⟩
            have hcases : i = 0 ∨ i = 1 := by
              have hlt' : ¬ 2 ≤ i := hi
              omega
            rcases hcases with rfl | rfl
            · exact .inl rfl
            · exact .inr rfl
          show (Function.update s.pic1.request cascadeLine s.next2.isSome i && _) = false
          rw [Function.update_of_ne hne]
          rcases hlow with rfl | rfl
          · rw [Bool.eq_false_iff.mpr htimer, Bool.false_and]
          · rw [Bool.eq_false_iff.mpr hkeyboard, Bool.false_and]
  unfold Controllers.acknowledge
  by_cases htimer : s.pic1.request 0 = true
  · rw [if_pos htimer] at hnext ⊢
    simp only [hnext]
    rfl
  · rw [if_neg htimer] at hnext ⊢
    by_cases hkeyboard : s.pic1.request 1 = true
    · rw [if_pos hkeyboard] at hnext ⊢
      simp only [hnext]
      rfl
    · rw [if_neg hkeyboard] at hnext ⊢
      simp only [hnext]

/-! ## One event -/

namespace Drivers

/-- What holds between any two events. -/
structure Serving (d : Drivers) : Prop where
  masked : d.pics.masks.mask .pic1 = 0xFC
  quiet : d.pics.Quiet
  timer_handler : d.idt.handlers 32 = some .timerInterruptHandler
  keyboard_handler : d.idt.handlers 33 = some .keyboardInterruptHandler
  /-- A byte of the keyboard in the output buffer is announced, and no other is. -/
  announced : d.pics.pic1.request 1 = decide (d.ps2.full = some .keyboard)
  keyboard_eq : d.read ++ d.ps2.unread .keyboard = d.sent .keyboard
  mouse_eq : d.ps2.unread .mouse = d.sent .mouse
  taken_mem : ∀ w ∈ d.taken, w = timerWire ∨ w = keyboardWire
  read_length : d.read.length = d.taken.count keyboardWire
  ticks_eq : d.process.ticks = UInt64.ofNat (d.taken.count timerWire)
  total_eq : d.process.sched.totalTicks = UInt64.ofNat (d.taken.count timerWire)

/-- The interrupts that are still to come if the keyboard sends nothing more. -/
def pending (d : Drivers) : Nat :=
  (d.pics.pic1.request 0).toNat + (d.ps2.unread .keyboard).length

theorem totalTicks_onTimerTick (s : SchedState) :
    (schedulerOnTimerTick s).totalTicks = s.totalTicks + 1 := by
  obtain ⟨tasks, i, p, heq, -⟩ := schedulerOnTimerTick_frame s
  rw [heq]

variable {d : Drivers}

theorem ofNat_count_succ (n : Nat) : (UInt64.ofNat n) + 1 = UInt64.ofNat (n + 1) := by
  apply UInt64.toNat_inj.mp
  simp

theorem interrupt_timer (h : d.Serving) (hrequest : d.pics.pic1.request 0 = true)
    (c : Context Reg) :
    d.interrupt c =
      { d with
        pics := d.pics.withdraw timerWire
        process := timerInterruptHandler d.process
        taken := d.taken ++ [timerWire] } := by
  have hack := acknowledge_of_masks h.masked h.quiet
  rw [if_pos hrequest] at hack
  have hend := Controllers.picSendEoi_acknowledge hack
  have hdispatch : idtDispatch d.idt.handlers d.log d.process.ticks
      (.suspend c (picIrqBase + timerWire.irq) none) = .handler .timerInterruptHandler :=
    idtDispatch_of_handler d.log d.process.ticks rfl h.timer_handler
  unfold interrupt
  simp only [hack, hdispatch, onTimer]
  rw [← hend]
  rfl

theorem interrupt_keyboard (h : d.Serving) (hrequest : d.pics.pic1.request 0 = false)
    (hfull : d.ps2.full = some .keyboard) (c : Context Reg) :
    d.interrupt c =
      { d with
        pics := d.pics.withdraw keyboardWire
        keyboard := keyboardInterruptHandler d.keyboard d.ps2.data
        ps2 := d.ps2.clear
        read := d.read ++ [d.ps2.data]
        taken := d.taken ++ [keyboardWire] } := by
  have hack := acknowledge_of_masks h.masked h.quiet
  have hone : d.pics.pic1.request 1 = true := by
    rw [h.announced, hfull]
    rfl
  rw [if_neg (Bool.eq_false_iff.mp hrequest), if_pos hone] at hack
  have hend := Controllers.picSendEoi_acknowledge hack
  have hdispatch : idtDispatch d.idt.handlers d.log d.process.ticks
      (.suspend c (picIrqBase + keyboardWire.irq) none) = .handler .keyboardInterruptHandler :=
    idtDispatch_of_handler d.log d.process.ticks rfl h.keyboard_handler
  unfold interrupt
  simp only [hack, hdispatch, onKeyboard]
  rw [← hend]
  rfl

theorem interrupt_none (h : d.Serving) (hrequest : d.pics.pic1.request 0 = false)
    (hfull : d.ps2.full ≠ some .keyboard) (c : Context Reg) : d.interrupt c = d := by
  have hack := acknowledge_of_masks h.masked h.quiet
  have hone : d.pics.pic1.request 1 = false := by
    rw [h.announced]
    exact decide_eq_false hfull
  rw [if_neg (Bool.eq_false_iff.mp hrequest), if_neg (Bool.eq_false_iff.mp hone)] at hack
  unfold interrupt
  rw [hack]

theorem Serving.timer (h : d.Serving) (hrequest : d.pics.pic1.request 0 = true) (c : Context Reg) :
    (d.interrupt c).Serving := by
  have hcount : (d.taken ++ [timerWire]).count timerWire = d.taken.count timerWire + 1 := by
    rw [List.count_append, List.count_singleton_self]
  rw [interrupt_timer h hrequest]
  refine ⟨h.masked, h.quiet, h.timer_handler, h.keyboard_handler, ?_, h.keyboard_eq, h.mouse_eq,
    ?_, ?_, ?_, ?_⟩
  · show Function.update d.pics.pic1.request 0 false 1 = _
    rw [Function.update_of_ne (by decide)]
    exact h.announced
  · intro w hw
    rcases List.mem_append.mp hw with hold | hnew
    · exact h.taken_mem w hold
    · exact .inl (List.mem_singleton.mp hnew)
  · rw [h.read_length, List.count_append]
    rfl
  · rw [hcount, ← ofNat_count_succ, ← h.ticks_eq]
    rfl
  · rw [hcount, ← ofNat_count_succ, ← h.total_eq]
    exact totalTicks_onTimerTick d.process.sched

theorem Serving.keyboard (h : d.Serving) (hrequest : d.pics.pic1.request 0 = false)
    (hfull : d.ps2.full = some .keyboard) (c : Context Reg) : (d.interrupt c).Serving := by
  have hunread := SharedBuffer.unread_clear hfull
  have hmouse := SharedBuffer.unread_clear_of_ne (t := .mouse) hfull (by decide)
  rw [interrupt_keyboard h hrequest hfull]
  refine ⟨h.masked, h.quiet, h.timer_handler, h.keyboard_handler, ?_, ?_, ?_, ?_, ?_, ?_, ?_⟩
  · exact Function.update_self 1 false d.pics.pic1.request
  · rw [← h.keyboard_eq, hunread, List.append_assoc]
    rfl
  · exact hmouse.trans h.mouse_eq
  · intro w hw
    rcases List.mem_append.mp hw with hold | hnew
    · exact h.taken_mem w hold
    · exact .inr (List.mem_singleton.mp hnew)
  · rw [List.length_append, List.count_append, List.count_singleton_self, h.read_length]
    rfl
  · rw [List.count_append]
    exact h.ticks_eq
  · rw [List.count_append]
    exact h.total_eq

theorem Serving.interrupt (h : d.Serving) (c : Context Reg) : (d.interrupt c).Serving := by
  cases hrequest : d.pics.pic1.request 0 with
  | true => exact h.timer hrequest c
  | false =>
    by_cases hfull : d.ps2.full = some .keyboard
    · exact h.keyboard hrequest hfull c
    · rw [interrupt_none h hrequest hfull]
      exact h

theorem Serving.load (h : d.Serving) (port : Ps2Port) : (d.load port).Serving := by
  unfold Drivers.load
  cases hload : d.ps2.load port with
  | none => exact h
  | some ps2 =>
    obtain ⟨-, hfull, hunread⟩ := SharedBuffer.load_eq_some hload
    refine { h with masked := ?_, quiet := ?_, announced := ?_, keyboard_eq := ?_, mouse_eq := ?_ }
    · cases port <;> exact h.masked
    · cases port <;> exact h.quiet
    · show (d.pics.raise port.wire).pic1.request 1 = decide (ps2.full = some .keyboard)
      rw [hfull]
      cases port with
      | keyboard => exact Function.update_self 1 true d.pics.pic1.request
      | mouse =>
        have hempty : d.ps2.full ≠ some .keyboard := by
          rw [(SharedBuffer.load_eq_some hload).1]
          exact nofun
        exact h.announced.trans (decide_eq_false hempty)
    · exact (congrArg (d.read ++ ·) (hunread .keyboard)).trans h.keyboard_eq
    · exact (hunread .mouse).trans h.mouse_eq

theorem processCreateKernel_ticks (s : ProcState) (name : Option CString) (slice : UInt32) :
    (processCreateKernel s name slice).1.ticks = s.ticks ∧
      (processCreateKernel s name slice).1.sched.totalTicks = s.sched.totalTicks := by
  have hregister :
      (schedulerRegisterTask s.sched name slice).1.totalTicks = s.sched.totalTicks := by
    unfold schedulerRegisterTask
    split <;> rfl
  unfold processCreateKernel
  split
  · dsimp only
    split
    · exact ⟨rfl, hregister⟩
    · exact ⟨rfl, hregister⟩
  · exact ⟨rfl, rfl⟩

theorem Serving.step (h : d.Serving) (e : DeviceEvent) : (deviceStep d e).Serving := by
  cases e with
  | tick =>
    refine { h with announced := ?_ }
    show Function.update d.pics.pic1.request 0 true 1 = _
    rw [Function.update_of_ne (by decide)]
    exact h.announced
  | send port byte =>
    have hunread := SharedBuffer.unread_send (b := d.ps2) port byte
    refine { h with keyboard_eq := ?_, mouse_eq := ?_ }
    · show d.read ++ (d.ps2.send port byte).unread .keyboard =
        Function.update d.sent port (d.sent port ++ [byte]) .keyboard
      rw [hunread, ← List.append_assoc, h.keyboard_eq]
      cases port with
      | keyboard => rfl
      | mouse => exact List.append_nil _
    · show (d.ps2.send port byte).unread .mouse =
        Function.update d.sent port (d.sent port ++ [byte]) .mouse
      rw [hunread, h.mouse_eq]
      cases port with
      | keyboard => exact List.append_nil _
      | mouse => rfl
  | load port => exact h.load port
  | edge wire hother =>
    cases wire with
    | first i =>
      have hne : (1 : Fin 8) ≠ i := by
        rintro rfl
        exact hother (by decide)
      refine { h with announced := ?_ }
      show Function.update d.pics.pic1.request i true 1 = _
      rw [Function.update_of_ne hne]
      exact h.announced
    | second j => exact { h with }
  | interrupt c => exact h.interrupt c
  | poll keyboard mouse => exact { h with }
  | createKernel name slice =>
    obtain ⟨hticks, htotal⟩ := processCreateKernel_ticks d.process name slice
    exact { h with ticks_eq := hticks.trans h.ticks_eq, total_eq := htotal.trans h.total_eq }

theorem bootMasks_pic1 (s : PicState) : (bootMasks s).mask .pic1 = 0xFC := by
  have hkeyboard : keyboardIrq < 8 := by decide
  have hmouse : ¬ mouseIrq < 8 := by decide
  have htimer : timerIrq < 8 := by decide
  have hbits : clearMaskBit (clearMaskBit 0xFF keyboardIrq) timerIrq = 0xFC := by decide
  simp only [bootMasks, mouseInitPic, picUnmaskIrq, if_pos hkeyboard, if_neg hmouse,
    if_pos htimer, PicState.outbData, Function.update_self, ne_eq, reduceCtorEq,
    not_false_eq_true, Function.update_of_ne]
  exact hbits

theorem Serving.boot (masks : PicState) (stubs : StubAddress) (idt : IdtState) (log : LogState)
    (process : ProcState) (mouse : MouseDriver) (ps2 : SharedBuffer Ps2Port UInt8) :
    (driversBoot masks stubs idt log process mouse ps2).Serving where
  masked := bootMasks_pic1 masks
  quiet := ⟨fun _ => rfl, fun _ => rfl⟩
  timer_handler := (handlers_runSteps stubs _ idt 32 _).mpr ⟨.timerInit, by decide, rfl⟩
  keyboard_handler := (handlers_runSteps stubs _ idt 33 _).mpr ⟨.keyboardInit, by decide, rfl⟩
  announced := by
    unfold driversBoot
    dsimp only
    rw [Function.update_self]
  keyboard_eq := rfl
  mouse_eq := rfl
  taken_mem := fun _ h => absurd h List.not_mem_nil
  read_length := rfl
  ticks_eq := by
    show (processInit _).ticks = 0
    unfold processInit
    exact (processCreateKernel_ticks _ _ _).1.trans (processCreateKernel_ticks _ _ _).1
  total_eq := by
    show (processInit _).sched.totalTicks = 0
    unfold processInit
    exact (processCreateKernel_ticks _ _ _).2.trans (processCreateKernel_ticks _ _ _).2

/-! ## Runs -/

theorem sent_interrupt (d : Drivers) (c : Context Reg) : (d.interrupt c).sent = d.sent := by
  unfold interrupt
  split
  · rfl
  · dsimp only
    split <;> rfl

theorem sent_load (d : Drivers) (port : Ps2Port) : (d.load port).sent = d.sent := by
  unfold Drivers.load
  split <;> rfl

theorem Serving.run (h : d.Serving) (events : List DeviceEvent) :
    (runSteps deviceStep d events).Serving :=
  runSteps_invariant (I := Serving) (fun _ e h => h.step e) events h

/-- A byte of the mouse in the output buffer stays there, and the driver of the keyboard reads
nothing. -/
theorem Serving.step_of_mouse (h : d.Serving) (hfull : d.ps2.full = some .mouse)
    (e : DeviceEvent) :
    (deviceStep d e).ps2.full = some .mouse ∧ (deviceStep d e).read = d.read := by
  cases e with
  | load port =>
    show (d.load port).ps2.full = some .mouse ∧ (d.load port).read = d.read
    unfold Drivers.load
    cases hload : d.ps2.load port with
    | none => exact ⟨hfull, rfl⟩
    | some ps2 =>
      rw [(SharedBuffer.load_eq_some hload).1] at hfull
      exact absurd hfull nofun
  | interrupt c =>
    show (d.interrupt c).ps2.full = some .mouse ∧ (d.interrupt c).read = d.read
    cases hrequest : d.pics.pic1.request 0 with
    | true =>
      rw [interrupt_timer h hrequest]
      exact ⟨hfull, rfl⟩
    | false =>
      have hother : d.ps2.full ≠ some .keyboard := by
        rw [hfull]
        decide
      rw [interrupt_none h hrequest hother]
      exact ⟨hfull, rfl⟩
  | _ => exact ⟨hfull, rfl⟩

theorem Serving.run_of_mouse (events : List DeviceEvent) : ∀ {d : Drivers}, d.Serving →
    d.ps2.full = some .mouse → (runSteps deviceStep d events).read = d.read := by
  induction events with
  | nil => exact fun _ _ => rfl
  | cons e events ih =>
    intro d h hfull
    obtain ⟨hstays, hread⟩ := h.step_of_mouse hfull e
    exact (ih (h.step e) hstays).trans hread

/-- The PS/2 controller offers a byte of the keyboard, and the processor takes an interrupt. -/
def round (c : Context Reg) : List DeviceEvent := [.load .keyboard, .interrupt c]

theorem load_keyboard (hfull : d.ps2.full ≠ some .mouse) :
    (d.load .keyboard).ps2.full ≠ some .mouse ∧ (d.load .keyboard).pending = d.pending ∧
      ((d.load .keyboard).ps2.full = some .keyboard ∨
        (d.load .keyboard).ps2.unread .keyboard = []) := by
  unfold Drivers.load
  cases hload : d.ps2.load .keyboard with
  | some ps2 =>
    obtain ⟨-, hnew, hunread⟩ := SharedBuffer.load_eq_some hload
    refine ⟨?_, ?_, .inl hnew⟩
    · show ps2.full ≠ some .mouse
      rw [hnew]
      decide
    · show (Function.update d.pics.pic1.request 1 true 0).toNat + (ps2.unread .keyboard).length = _
      rw [Function.update_of_ne (by decide), hunread]
      rfl
  | none =>
    refine ⟨hfull, rfl, ?_⟩
    show d.ps2.full = some .keyboard ∨ d.ps2.unread .keyboard = []
    by_cases hempty : d.ps2.full = none
    · rcases SharedBuffer.load_eq_none hload with hsome | hwaiting
      · exact absurd hempty hsome
      · exact .inr ((SharedBuffer.unread_of_empty hempty).trans hwaiting)
    · obtain ⟨port, hport⟩ := Option.ne_none_iff_exists'.mp hempty
      cases port with
      | keyboard => exact .inl hport
      | mouse => exact absurd hport hfull

theorem Serving.round (h : d.Serving) (hfull : d.ps2.full ≠ some .mouse) (c : Context Reg) :
    (runSteps deviceStep d (round c)).Serving ∧
      (runSteps deviceStep d (round c)).ps2.full ≠ some .mouse ∧
      (runSteps deviceStep d (round c)).pending = d.pending - 1 := by
  obtain ⟨hother, hpending, hnext⟩ := load_keyboard hfull
  have hload := h.load .keyboard
  have hround : runSteps deviceStep d (Drivers.round c) = (d.load .keyboard).interrupt c := rfl
  rw [hround, ← hpending]
  refine ⟨hload.interrupt c, ?_⟩
  cases hrequest : (d.load .keyboard).pics.pic1.request 0 with
  | true =>
    rw [interrupt_timer hload hrequest]
    refine ⟨hother, ?_⟩
    unfold pending
    rw [hrequest, Bool.toNat_true, Nat.add_sub_cancel_left]
    show (Function.update (d.load .keyboard).pics.pic1.request 0 false 0).toNat + _ = _
    rw [Function.update_self, Bool.toNat_false, Nat.zero_add]
  | false =>
    rcases hnext with hkeyboard | hnone
    · have hunread := SharedBuffer.unread_clear hkeyboard
      rw [interrupt_keyboard hload hrequest hkeyboard]
      refine ⟨nofun, ?_⟩
      unfold pending
      rw [hrequest, hunread, List.length_cons]
      show (Function.update (d.load .keyboard).pics.pic1.request 1 false 0).toNat + _ = _
      rw [Function.update_of_ne (by decide), hrequest]
      rfl
    · have hempty : (d.load .keyboard).ps2.full ≠ some .keyboard := by
        intro hkeyboard
        rw [SharedBuffer.unread_clear hkeyboard] at hnone
        exact List.cons_ne_nil _ _ hnone
      rw [interrupt_none hload hrequest hempty]
      refine ⟨hother, ?_⟩
      unfold pending
      rw [hrequest, hnone]
      rfl

theorem Serving.rounds (contexts : List (Context Reg)) : ∀ {d : Drivers}, d.Serving →
    d.ps2.full ≠ some .mouse →
      (runSteps deviceStep d (contexts.flatMap Drivers.round)).pending =
        d.pending - contexts.length := by
  induction contexts with
  | nil => exact fun _ _ => rfl
  | cons c contexts ih =>
    intro d h hfull
    obtain ⟨hnext, hother, hless⟩ := h.round hfull c
    have hrest := ih hnext hother
    rw [List.flatMap_cons, runSteps_append, hrest, hless, List.length_cons, Nat.add_comm,
      ← Nat.sub_sub]

end Drivers

/-- What a device sends in a run. -/
def sentBy (port : Ps2Port) (events : List DeviceEvent) : List UInt8 :=
  events.filterMap fun e =>
    match e with
    | .send p byte => if p = port then some byte else none
    | _ => none

theorem sent_run (port : Ps2Port) (events : List DeviceEvent) : ∀ d : Drivers,
    (runSteps deviceStep d events).sent port = d.sent port ++ sentBy port events := by
  induction events with
  | nil => exact fun d => (List.append_nil (d.sent port)).symm
  | cons e events ih =>
    intro d
    have hrest := ih (deviceStep d e)
    have hcons : runSteps deviceStep d (e :: events) =
        runSteps deviceStep (deviceStep d e) events := rfl
    rw [hcons, hrest]
    cases e with
    | send p byte =>
      have hsent : (deviceStep d (.send p byte)).sent port =
          d.sent port ++ (if p = port then some byte else none).toList := by
        show Function.update d.sent p (d.sent p ++ [byte]) port = _
        by_cases hp : p = port
        · rw [if_pos hp, hp, Function.update_self]
          rfl
        · rw [if_neg hp, Function.update_of_ne (Ne.symm hp), Option.toList_none, List.append_nil]
      rw [hsent, List.append_assoc, sentBy, sentBy, List.filterMap_cons]
      by_cases hp : p = port
      · simp only [hp, if_true, Option.toList_some, List.singleton_append]
      · simp only [hp, if_false, Option.toList_none, List.nil_append]
    | load p => exact congrArg (fun f => f port ++ sentBy port events) (Drivers.sent_load d p)
    | interrupt c =>
      exact congrArg (fun f => f port ++ sentBy port events) (Drivers.sent_interrupt d c)
    | _ => rfl

/-- However devices and interrupts come one after the other: no interrupt stays in service; none
but those of the timer and the keyboard are ever taken, so that nothing the mouse has sent is
ever read; the keyboard's bytes reach its driver in their order, one with each interrupt, and
none is lost; and every interrupt of the timer is a tick.  As long as no byte of the mouse has
come into the output buffer, as many rounds as interrupts are pending bring the driver of the
keyboard up to date; once one has, it reads nothing any more. -/
theorem devices_served (masks : PicState) (stubs : StubAddress) (idt : IdtState)
    (log : LogState) (process : ProcState) (mouse : MouseDriver)
    (ps2 : SharedBuffer Ps2Port UInt8) (events : List DeviceEvent) :
    let d := runSteps deviceStep (driversBoot masks stubs idt log process mouse ps2) events
    d.pics.Quiet ∧ (∀ w ∈ d.taken, w = timerWire ∨ w = keyboardWire) ∧
      d.ps2.unread .mouse = ps2.unread .mouse ++ sentBy .mouse events ∧
      d.read ++ d.ps2.unread .keyboard = ps2.unread .keyboard ++ sentBy .keyboard events ∧
      d.read.length = d.taken.count keyboardWire ∧
      d.process.ticks = UInt64.ofNat (d.taken.count timerWire) ∧
      d.process.sched.totalTicks = UInt64.ofNat (d.taken.count timerWire) ∧
      (d.ps2.full ≠ some .mouse → ∀ contexts : List (Context Reg),
        d.pending ≤ contexts.length →
          let later := runSteps deviceStep d (contexts.flatMap Drivers.round)
          later.read = ps2.unread .keyboard ++ sentBy .keyboard events ∧
            later.pics.pic1.request 0 = false) ∧
      (d.ps2.full = some .mouse → ∀ more, (runSteps deviceStep d more).read = d.read) := by
  intro d
  have hboot := Drivers.Serving.boot masks stubs idt log process mouse ps2
  have hd : d.Serving := hboot.run events
  have hsent : ∀ port, d.sent port = ps2.unread port ++ sentBy port events :=
    fun port => sent_run port events _
  refine ⟨hd.quiet, hd.taken_mem, hd.mouse_eq.trans (hsent .mouse),
    hd.keyboard_eq.trans (hsent .keyboard), hd.read_length, hd.ticks_eq, hd.total_eq,
    fun hfull contexts henough => ?_, fun hfull more => Drivers.Serving.run_of_mouse more hd hfull⟩
  have hlater := hd.run (contexts.flatMap Drivers.round)
  have hnone : (runSteps deviceStep d (contexts.flatMap Drivers.round)).pending = 0 := by
    rw [Drivers.Serving.rounds contexts hd hfull]
    exact Nat.sub_eq_zero_of_le henough
  have hkeys : sentBy .keyboard (contexts.flatMap Drivers.round) = [] := by
    rw [sentBy, List.filterMap_eq_nil_iff]
    intro e he
    obtain ⟨c, -, hc⟩ := List.mem_flatMap.mp he
    rcases List.mem_cons.mp hc with rfl | hc
    · rfl
    · rw [List.mem_singleton.mp hc]
  obtain ⟨hrequest, hunread⟩ := Nat.add_eq_zero_iff.mp hnone
  constructor
  · have hread := hlater.keyboard_eq
    rw [List.length_eq_zero_iff.mp hunread, List.append_nil, sent_run, hkeys,
      List.append_nil, hsent] at hread
    exact hread
  · exact Bool.toNat_eq_zero.mp hrequest

end AcharyaOS.Arch
