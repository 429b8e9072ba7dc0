import AcharyaOS.Log.Refinement
import AcharyaOS.Service.Code

/-!
# The services over whole runs

What the table is for: three services, each with a life of its own.  A call reaches the service
it names and no other, and the log tells of every start and of every stop of a running service.
-/

namespace AcharyaOS.Service

open Foundation Kio Log Foundation.Run

/-- The services the kernel registers. -/
inductive ServiceId
  | logger | clock | shellReady
  deriving DecidableEq

theorem serviceEntryMax_neZero : NeZero serviceEntryMax := ⟨by decide⟩

attribute [local instance] serviceEntryMax_neZero

namespace ServiceId

def all : List ServiceId := [.logger, .clock, .shellReady]

def slot : ServiceId → Fin serviceEntryMax
  | .logger => 0
  | .clock => 1
  | .shellReady => 2

def name : ServiceId → CString
  | .logger => loggerName
  | .clock => clockName
  | .shellReady => shellReadyName

def description : ServiceId → CString
  | .logger => loggerDescription
  | .clock => clockDescription
  | .shellReady => shellReadyDescription

def started : ServiceId → CString
  | .logger => loggerStarted
  | .clock => clockStarted
  | .shellReady => shellReadyStarted

def stopped : ServiceId → CString
  | .logger => loggerStopped
  | .clock => clockStopped
  | .shellReady => shellReadyStopped

theorem mem_all (k : ServiceId) : k ∈ all := by
  cases k <;> decide

theorem name_inj {k k' : ServiceId} (h : k.name = k'.name) : k = k' := by
  revert h
  cases k <;> cases k' <;> decide

theorem slot_inj {k k' : ServiceId} (h : k.slot = k'.slot) : k = k' := by
  revert h
  cases k <;> cases k' <;> decide

theorem slot_lt (k : ServiceId) : k.slot.val < 3 := by
  cases k <;> decide

theorem exists_slot_eq {i : Fin serviceEntryMax} (h : i.val < 3) :
    ∃ k : ServiceId, k.slot = i := by
  obtain h0 | h1 | h2 : i.val = 0 ∨ i.val = 1 ∨ i.val = 2 := by omega
  · exact ⟨.logger, Fin.ext h0.symm⟩
  · exact ⟨.clock, Fin.ext h1.symm⟩
  · exact ⟨.shellReady, Fin.ext h2.symm⟩

theorem finRange_eq : List.finRange serviceEntryMax =
    all.map slot ++ (List.finRange serviceEntryMax).drop 3 := rfl

theorem three_le_of_mem_drop :
    ∀ i ∈ (List.finRange serviceEntryMax).drop 3, 3 ≤ i.val := by
  decide

end ServiceId

/-- The service of a name. -/
def serviceOf (name : CString) : Option ServiceId :=
  ServiceId.all.find? fun k => k.name = name

theorem serviceOf_eq_some_iff {name : CString} {k : ServiceId} :
    serviceOf name = some k ↔ k.name = name := by
  constructor
  · intro h
    simpa using List.find?_some h
  · rintro rfl
    cases k <;> decide

theorem serviceOf_eq_none_iff {name : CString} :
    serviceOf name = none ↔ ∀ k : ServiceId, k.name ≠ name := by
  simp [serviceOf, List.find?_eq_none, ServiceId.mem_all]

/-! ## The lives of the services -/

/-- What a service has gone through; the counts do not wrap. -/
structure Life where
  enabled : Bool
  running : Bool
  lastStarted : UInt64
  lastStopped : UInt64
  starts : Nat
  stops : Nat
  deriving DecidableEq

namespace Life

def boot : Life := ⟨true, false, 0, 0, 0, 0⟩

def start (l : Life) (tick : UInt64) : Life :=
  { l with running := true, lastStarted := tick, starts := l.starts + 1 }

/-- A service that does not run is not stopped again. -/
def stop (l : Life) (tick : UInt64) : Life :=
  if l.running then { l with running := false, lastStopped := tick, stops := l.stops + 1 }
  else l

def apply (l : Life) (ticks : ServiceHook → ServiceTicks) : ServiceOp → Life
  | .start => l.start (ticks .run).marked
  | .stop => l.stop (ticks .stop).marked
  | .restart => (l.stop (ticks .stop).marked).start (ticks .run).marked
  | .enable => { l with enabled := true }
  | .disable => { l with enabled := false }

/-- What a call that names service `k` prints while the log takes messages from a level on. -/
def prints (l : Life) (minimumLevel : LogLevel) (ticks : ServiceHook → ServiceTicks)
    (k : ServiceId) : ServiceOp → List (String × List FormatArg)
  | .start => logWritePrints minimumLevel (ticks .run).printed logInfo k.started
  | .stop =>
      if l.running then logWritePrints minimumLevel (ticks .stop).printed logInfo k.stopped else []
  | .restart =>
      (if l.running then logWritePrints minimumLevel (ticks .stop).printed logInfo k.stopped
        else []) ++ logWritePrints minimumLevel (ticks .run).printed logInfo k.started
  | .enable | .disable => []

/-- A service that runs has been started once more than it was stopped, at least. -/
def Sound (l : Life) : Prop := l.stops + l.running.toNat ≤ l.starts

theorem Sound.start {l : Life} (h : l.Sound) (tick : UInt64) : (l.start tick).Sound := by
  show l.stops + 1 ≤ l.starts + 1
  have hle : l.stops + l.running.toNat ≤ l.starts := h
  omega

theorem Sound.stop {l : Life} (h : l.Sound) (tick : UInt64) : (l.stop tick).Sound := by
  unfold Life.stop
  by_cases hrunning : l.running = true
  · have hle : l.stops + l.running.toNat ≤ l.starts := h
    rw [hrunning, Bool.toNat_true] at hle
    rw [if_pos hrunning]
    exact hle
  · rw [if_neg hrunning]
    exact h

theorem Sound.apply {l : Life} (h : l.Sound) (ticks : ServiceHook → ServiceTicks)
    (op : ServiceOp) : (l.apply ticks op).Sound := by
  cases op with
  | start => exact h.start _
  | stop => exact h.stop _
  | restart => exact (h.stop _).start _
  | enable => exact h
  | disable => exact h

end Life

/-- The life of service `k` as the events go by; those that do not concern it leave it alone. -/
def lifeStep (k : ServiceId) (l : Life) : ServiceEvent → Life
  | .call ticks (.on op name) => if k.name = name then l.apply (ticks k.slot) op else l
  | .call ticks .startupAll => if l.enabled then l.start (ticks k.slot .run).marked else l
  | .log _ => l

theorem sound_run (k : ServiceId) (events : List ServiceEvent) :
    (runSteps (lifeStep k) Life.boot events).Sound := by
  refine runSteps_invariant (I := Life.Sound) ?_ events (Nat.zero_le 0)
  intro l e h
  rcases e with ⟨ticks, c⟩ | c
  · cases c with
    | on op name =>
      rw [lifeStep]
      split
      · exact h.apply _ op
      · exact h
    | startupAll =>
      rw [lifeStep]
      split
      · exact h.start _
      · exact h
  · exact h

/-! ## The services together -/

/-- The lives of the three services, the entries the log has accepted, and what their calls have
printed. -/
structure Services where
  lives : ServiceId → Life
  history : LogHistory
  console : List (String × List FormatArg)

namespace Services

def boot : Services := ⟨fun _ => .boot, .empty, []⟩

def start (a : Services) (ticks : ServiceClock) (k : ServiceId) : Services where
  lives := Function.update a.lives k ((a.lives k).start (ticks k.slot .run).marked)
  history := a.history.step (.write (ticks k.slot .run).logged logInfo k.started)
  console := a.console ++ (a.lives k).prints a.history.minimumLevel (ticks k.slot) k .start

def stop (a : Services) (ticks : ServiceClock) (k : ServiceId) : Services :=
  if (a.lives k).running then
    { lives := Function.update a.lives k ((a.lives k).stop (ticks k.slot .stop).marked)
      history := a.history.step (.write (ticks k.slot .stop).logged logInfo k.stopped)
      console := a.console ++ (a.lives k).prints a.history.minimumLevel (ticks k.slot) k .stop }
  else a

def setEnabled (a : Services) (k : ServiceId) (b : Bool) : Services :=
  { a with lives := Function.update a.lives k { a.lives k with enabled := b } }

def apply (a : Services) (ticks : ServiceClock) (k : ServiceId) : ServiceOp → Services
  | .start => a.start ticks k
  | .stop => a.stop ticks k
  | .restart => (a.stop ticks k).start ticks k
  | .enable => a.setEnabled k true
  | .disable => a.setEnabled k false

def startup (ticks : ServiceClock) (a : Services) (k : ServiceId) : Services :=
  if (a.lives k).enabled then a.start ticks k else a

def step (a : Services) : ServiceEvent → Services
  | .call ticks (.on op name) =>
      match serviceOf name with
      | none => a
      | some k => a.apply ticks k op
  | .call ticks .startupAll => ServiceId.all.foldl (startup ticks) a
  | .log c => { a with history := a.history.step c }

/-! ### Each life on its own -/

theorem lives_stop (a : Services) (ticks : ServiceClock) (k : ServiceId) :
    (a.stop ticks k).lives =
      Function.update a.lives k ((a.lives k).stop (ticks k.slot .stop).marked) := by
  unfold stop Life.stop
  by_cases hrunning : (a.lives k).running = true
  · rw [if_pos hrunning, if_pos hrunning]
  · rw [if_neg hrunning, if_neg hrunning, Function.update_eq_self]

theorem lives_apply (a : Services) (ticks : ServiceClock) (k : ServiceId) (op : ServiceOp) :
    (a.apply ticks k op).lives =
      Function.update a.lives k ((a.lives k).apply (ticks k.slot) op) := by
  cases op with
  | stop => exact lives_stop a ticks k
  | restart =>
    show Function.update (a.stop ticks k).lives k (((a.stop ticks k).lives k).start _) = _
    rw [lives_stop, Function.update_self, Function.update_idem]
    rfl
  | start => rfl
  | enable => rfl
  | disable => rfl

theorem lives_startup (a : Services) (ticks : ServiceClock) (k : ServiceId) :
    (startup ticks a k).lives =
      Function.update a.lives k (lifeStep k (a.lives k) (.call ticks .startupAll)) := by
  rw [startup, lifeStep]
  by_cases henabled : (a.lives k).enabled = true
  · rw [if_pos henabled, if_pos henabled]
    rfl
  · rw [if_neg henabled, if_neg henabled, Function.update_eq_self]

theorem lives_step (a : Services) (e : ServiceEvent) (k : ServiceId) :
    (a.step e).lives k = lifeStep k (a.lives k) e := by
  rcases e with ⟨ticks, c⟩ | c
  · cases c with
    | on op name =>
      rw [step, lifeStep]
      cases hof : serviceOf name with
      | none => rw [if_neg (serviceOf_eq_none_iff.mp hof k)]
      | some k' =>
        have hname := serviceOf_eq_some_iff.mp hof
        show (a.apply ticks k' op).lives k = _
        rw [lives_apply]
        by_cases hk : k = k'
        · rw [hk, Function.update_self, if_pos hname]
        · have hne : k.name ≠ name := fun h => hk (ServiceId.name_inj (h.trans hname.symm))
          rw [Function.update_of_ne hk, if_neg hne]
    | startupAll =>
      show (startup ticks (startup ticks (startup ticks a .logger) .clock) .shellReady).lives k = _
      simp only [lives_startup]
      cases k <;> rfl
  · rfl

/-- The life of a service depends on the events alone, not on the other services. -/
theorem lives_run (k : ServiceId) (events : List ServiceEvent) :
    (runSteps step boot events).lives k = runSteps (lifeStep k) .boot events :=
  sim_runSteps (R := fun a l => Services.lives a k = l)
    (fun a _ e h => h ▸ lives_step a e k) events boot .boot rfl

end Services

/-! ## The table -/

/-- The entry of service `k` tells its life, the counts to 32 bits. -/
structure Records (k : ServiceId) (e : ServiceEntry) (l : Life) : Prop where
  name_eq : e.name.text = k.name.bytes
  description_eq : e.description.text = k.description.bytes
  enabled_eq : e.enabled = if l.enabled then 1 else 0
  state_eq : e.state = if l.running then .running else .stopped
  started_eq : e.lastStartedTick = l.lastStarted
  stopped_eq : e.lastStoppedTick = l.lastStopped
  startCount_eq : e.startCount = .ofNat l.starts
  stopCount_eq : e.stopCount = .ofNat l.stops

/-- The first three entries are those of the services, and the others are free. -/
structure Registered (t : ServiceTable) (lives : ServiceId → Life) : Prop where
  entry : ∀ k, Records k (t k.slot) (lives k)
  free : ∀ i : Fin serviceEntryMax, 3 ≤ i.val → (t i).present = false

theorem ServiceEntry.present_iff (e : ServiceEntry) : e.present = true ↔ e.name.text ≠ [] := by
  have hnil := cText_eq_nil_iff e.name.bytes
  rw [present, bne_iff_ne, ne_eq, ← hnil]
  rfl

theorem Records.present {k : ServiceId} {e : ServiceEntry} {l : Life} (h : Records k e l) :
    e.present = true := by
  rw [e.present_iff, h.name_eq]
  cases k <;> decide

theorem Records.strcmp_iff {k : ServiceId} {e : ServiceEntry} {l : Life} (h : Records k e l)
    (name : CString) : (strcmp e.name.bytes name.bytes == 0) = true ↔ k.name = name := by
  have hname : cText e.name.bytes = k.name.bytes := h.name_eq
  rw [beq_iff_eq, strcmp_eq_zero_iff, hname, cText_bytes]
  exact ⟨CString.ext, congrArg CString.bytes⟩

namespace Registered

variable {t : ServiceTable} {lives : ServiceId → Life}

theorem find (h : Registered t lives) (name : CString) :
    serviceFind t name = (serviceOf name).map ServiceId.slot := by
  unfold serviceFind
  cases hof : serviceOf name with
  | none =>
    rw [Option.map_none, firstSlot_eq_none_iff]
    intro i
    by_cases hi : i.val < 3
    · obtain ⟨k, rfl⟩ := ServiceId.exists_slot_eq hi
      have hne := mt ((h.entry k).strcmp_iff name).mp (serviceOf_eq_none_iff.mp hof k)
      simp [hne]
    · rw [h.free i (Nat.not_lt.mp hi), Bool.false_and]
  | some k =>
    have hname := serviceOf_eq_some_iff.mp hof
    rw [Option.map_some]
    apply firstSlot_of_unique
    · rw [(h.entry k).present, Bool.true_and]
      exact ((h.entry k).strcmp_iff name).mpr hname
    · intro j hj
      rw [Bool.and_eq_true] at hj
      have hlt : j.val < 3 := by
        by_contra hge
        rw [h.free j (Nat.not_lt.mp hge)] at hj
        exact absurd hj.1 Bool.false_ne_true
      obtain ⟨k', rfl⟩ := ServiceId.exists_slot_eq hlt
      have hname' := ((h.entry k').strcmp_iff name).mp hj.2
      rw [ServiceId.name_inj (hname'.trans hname.symm)]

theorem set (h : Registered t lives) {k : ServiceId} {e : ServiceEntry} {l : Life}
    (hrecords : Records k e l) :
    Registered (Function.update t k.slot e) (Function.update lives k l) where
  entry := fun k' => by
    by_cases hk : k' = k
    · rw [hk, Function.update_self, Function.update_self]
      exact hrecords
    · rw [Function.update_of_ne hk, Function.update_of_ne fun heq => hk (ServiceId.slot_inj heq)]
      exact h.entry k'
  free := fun i hi => by
    have hne : i ≠ k.slot := by
      rintro rfl
      exact absurd k.slot_lt (Nat.not_lt.mpr hi)
    rw [Function.update_of_ne hne]
    exact h.free i hi

theorem countSlots_eq (h : Registered t lives) (p : ServiceEntry → Bool) :
    (countSlots fun i => (t i).present && p (t i)) =
      ServiceId.all.countP fun k => p (t k.slot) := by
  have hrest : ((List.finRange serviceEntryMax).drop 3).countP
      (fun i => (t i).present && p (t i)) = 0 := by
    rw [List.countP_eq_zero]
    intro i hi
    simp [h.free i (ServiceId.three_le_of_mem_drop i hi)]
  rw [countSlots, ServiceId.finRange_eq, List.countP_append, hrest, Nat.add_zero, List.countP_map]
  apply List.countP_congr
  intro k _
  simp [(h.entry k).present]

/-! ### The calls -/

section Calls

variable {s : ServiceSystem}

theorem find_self (h : Registered s.services lives) (k : ServiceId) :
    serviceFind s.services k.name = some k.slot := by
  rw [h.find, serviceOf_eq_some_iff.mpr rfl, Option.map_some]

theorem hook (h : Registered s.services lives) (k : ServiceId)
    (logger clock shellReady : CString) (ticks : ServiceTicks) :
    serviceHookWith logger clock shellReady s ticks (s.services k.slot).name.bytes =
      (s.write ticks
        (match k with | .logger => logger | .clock => clock | .shellReady => shellReady), 0) := by
  have hname := (h.entry k).strcmp_iff
  unfold serviceHookWith
  cases k with
  | logger => rw [if_pos ((hname loggerName).mpr rfl)]
  | clock =>
    rw [if_neg (mt (hname loggerName).mp (by decide)), if_pos ((hname clockName).mpr rfl)]
  | shellReady =>
    rw [if_neg (mt (hname loggerName).mp (by decide)), if_neg (mt (hname clockName).mp (by decide)),
      if_pos ((hname shellReadyName).mpr rfl)]

theorem start (h : Registered s.services lives) (ticks : ServiceClock) (k : ServiceId) :
    Registered (serviceStart s ticks k.name).1.services
        (Function.update lives k ((lives k).start (ticks k.slot .run).marked)) ∧
      (serviceStart s ticks k.name).1.log =
        logWrite s.log (ticks k.slot .run).logged logInfo k.started ∧
      (serviceStart s ticks k.name).1.console =
        s.console ++ (lives k).prints s.log.minimumLevel (ticks k.slot) k .start ∧
      (serviceStart s ticks k.name).2 = 0 := by
  have hrun : serviceRunHook s (ticks k.slot .run) (s.services k.slot).name.bytes =
      (s.write (ticks k.slot .run) k.started, 0) := by
    rw [serviceRunHook, h.hook]
    cases k <;> rfl
  have hentry := h.entry k
  unfold serviceStart
  rw [h.find_self]
  simp only [hrun, ne_eq, not_true_eq_false, if_false]
  refine ⟨h.set ?_, rfl, rfl, rfl⟩
  refine { hentry with state_eq := rfl, started_eq := rfl, startCount_eq := ?_ }
  show (s.services k.slot).startCount + 1 = _
  rw [hentry.startCount_eq]
  exact (UInt32.ofNat_add _ 1).symm

theorem stop (h : Registered s.services lives) (ticks : ServiceClock) (k : ServiceId) :
    Registered (serviceStop s ticks k.name).1.services
        (Function.update lives k ((lives k).stop (ticks k.slot .stop).marked)) ∧
      (serviceStop s ticks k.name).1.log =
        (if (lives k).running then logWrite s.log (ticks k.slot .stop).logged logInfo k.stopped
          else s.log) ∧
      (serviceStop s ticks k.name).1.console =
        s.console ++ (lives k).prints s.log.minimumLevel (ticks k.slot) k .stop ∧
      (serviceStop s ticks k.name).2 = 0 := by
  have hstop : serviceStopHook s (ticks k.slot .stop) (s.services k.slot).name.bytes =
      (s.write (ticks k.slot .stop) k.stopped, 0) := by
    rw [serviceStopHook, h.hook]
    cases k <;> rfl
  have hentry := h.entry k
  have hstate := hentry.state_eq
  unfold serviceStop Life.stop Life.prints
  rw [h.find_self]
  by_cases hrunning : (lives k).running = true
  · rw [if_pos hrunning] at hstate ⊢
    simp only [hstate, hrunning, if_true, hstop, ne_eq, not_true_eq_false, if_false]
    refine ⟨h.set ?_, rfl, rfl, rfl⟩
    refine { hentry with state_eq := rfl, stopped_eq := rfl, stopCount_eq := ?_ }
    show (s.services k.slot).stopCount + 1 = _
    rw [hentry.stopCount_eq]
    exact (UInt32.ofNat_add _ 1).symm
  · rw [if_neg hrunning] at hstate ⊢
    simp only [hstate, hrunning, ne_eq, reduceCtorEq, not_false_eq_true, if_true, if_false,
      Bool.false_eq_true, Function.update_eq_self, List.append_nil]
    exact ⟨h, trivial, trivial, trivial⟩

theorem setEnabled (h : Registered s.services lives) (k : ServiceId) (b : Bool) :
    Registered
      (s.setEntry k.slot { s.services k.slot with enabled := if b then 1 else 0 }).services
      (Function.update lives k { lives k with enabled := b }) :=
  h.set { h.entry k with enabled_eq := rfl }

/-- A call that names a service does and prints what is meant and returns 0. -/
theorem apply (h : Registered s.services lives) (ticks : ServiceClock) (k : ServiceId)
    (op : ServiceOp) :
    Registered ((ServiceCall.on op k.name).perform s ticks).1.services
        (Function.update lives k ((lives k).apply (ticks k.slot) op)) ∧
      ((ServiceCall.on op k.name).perform s ticks).1.console =
        s.console ++ (lives k).prints s.log.minimumLevel (ticks k.slot) k op ∧
      ((ServiceCall.on op k.name).perform s ticks).2 = 0 := by
  have hfind := h.find_self k
  cases op with
  | start => exact ⟨(h.start ticks k).1, (h.start ticks k).2.2⟩
  | stop => exact ⟨(h.stop ticks k).1, (h.stop ticks k).2.2⟩
  | restart =>
    obtain ⟨hstop, hlog, hprinted, hcode⟩ := h.stop ticks k
    obtain ⟨hstart, -, hprinted', hcode'⟩ := hstop.start ticks k
    have hlevel : (serviceStop s ticks k.name).1.log.minimumLevel = s.log.minimumLevel := by
      rw [hlog]
      split
      · exact logWrite_minimumLevel _ _ _ _
      · rfl
    rw [Function.update_self, Function.update_idem] at hstart
    rw [hprinted, hlevel, List.append_assoc] at hprinted'
    simp only [ServiceCall.perform, serviceRestart, hcode, ne_eq, not_true_eq_false, if_false]
    exact ⟨hstart, hprinted', hcode'⟩
  | enable =>
    simp only [ServiceCall.perform, serviceEnable, hfind]
    exact ⟨h.setEnabled k true, (List.append_nil _).symm, trivial⟩
  | disable =>
    simp only [ServiceCall.perform, serviceDisable, hfind]
    exact ⟨h.setEnabled k false, (List.append_nil _).symm, trivial⟩

theorem unknown (h : Registered s.services lives) (ticks : ServiceClock) {name : CString}
    (hof : serviceOf name = none) (op : ServiceOp) :
    (ServiceCall.on op name).perform s ticks = (s, -1) := by
  have hfind : serviceFind s.services name = none := by
    rw [h.find, hof, Option.map_none]
  have hstop : serviceStop s ticks name = (s, -1) := by
    rw [serviceStop, hfind]
  cases op with
  | start => rw [ServiceCall.perform, serviceStart, hfind]
  | stop => exact hstop
  | restart =>
    rw [ServiceCall.perform, serviceRestart, hstop]
    rfl
  | enable => rw [ServiceCall.perform, serviceEnable, hfind]
  | disable => rw [ServiceCall.perform, serviceDisable, hfind]

end Calls

/-! ### The answers -/

theorem info (h : Registered t lives) (name : CString) :
    serviceInfo t (some name) = (serviceOf name).map fun k => t k.slot := by
  rw [serviceInfo, Option.bind_some, h.find, Option.map_map]
  rfl

theorem stats (h : Registered t lives) :
    serviceGetStats t =
      ⟨3, ServiceId.all.countP fun k => (lives k).enabled,
        ServiceId.all.countP fun k => (lives k).running⟩ := by
  have htotal := h.countSlots_eq fun _ => true
  have henabled := h.countSlots_eq fun e => e.enabled != 0
  have hrunning := h.countSlots_eq fun e => e.state == .running
  simp only [Bool.and_true] at htotal
  rw [serviceGetStats, htotal, henabled, hrunning]
  congr 1
  · apply List.countP_congr
    intro k _
    rw [(h.entry k).enabled_eq]
    cases (lives k).enabled <;> decide
  · apply List.countP_congr
    intro k _
    rw [(h.entry k).state_eq]
    cases (lives k).running <;> decide

theorem list (h : Registered t lives) :
    serviceList t serviceEntryMax = ServiceId.all.map fun k => t k.slot := by
  have hlen : (((List.finRange serviceEntryMax).map t).filter ServiceEntry.present).length ≤
      serviceEntryMax := by
    refine (List.length_filter_le _ _).trans_eq ?_
    rw [List.length_map, List.length_finRange]
  have hrest : (((List.finRange serviceEntryMax).drop 3).map t).filter ServiceEntry.present =
      [] := by
    rw [List.filter_eq_nil_iff]
    rintro e he
    obtain ⟨i, hi, rfl⟩ := List.mem_map.mp he
    rw [h.free i (ServiceId.three_le_of_mem_drop i hi)]
    exact Bool.false_ne_true
  rw [serviceList, List.take_of_length_le hlen, ServiceId.finRange_eq, List.map_append,
    List.filter_append, hrest, List.append_nil, List.map_map, List.filter_eq_self.mpr]
  · rfl
  · rintro e he
    obtain ⟨k, -, rfl⟩ := List.mem_map.mp he
    exact (h.entry k).present

end Registered

theorem registered_serviceInit : Registered serviceInit fun _ => .boot where
  entry := fun k => by cases k <;> exact ⟨by decide, by decide, rfl, rfl, rfl, rfl, rfl, rfl⟩
  free := by decide

/-- The table and the log stand for the services, and the console shows the same. -/
structure ServiceRefines (s : ServiceSystem) (a : Services) : Prop where
  table : Registered s.services a.lives
  log : LogRefines s.log a.history
  console_eq : s.console = a.console

namespace ServiceRefines

variable {s : ServiceSystem} {a : Services}

theorem boot : ServiceRefines ⟨serviceInit, logBoot, []⟩ .boot :=
  ⟨registered_serviceInit, .boot, rfl⟩

theorem start (h : ServiceRefines s a) (ticks : ServiceClock) (k : ServiceId) :
    ServiceRefines (serviceStart s ticks k.name).1 (a.start ticks k) := by
  obtain ⟨htable, hlog, hprinted, -⟩ := h.table.start ticks k
  rw [h.console_eq, h.log.minimumLevel_eq] at hprinted
  refine ⟨htable, ?_, hprinted⟩
  rw [hlog]
  exact h.log.step (.write _ _ _)

theorem stop (h : ServiceRefines s a) (ticks : ServiceClock) (k : ServiceId) :
    ServiceRefines (serviceStop s ticks k.name).1 (a.stop ticks k) := by
  obtain ⟨htable, hlog, hprinted, -⟩ := h.table.stop ticks k
  rw [← Services.lives_stop] at htable
  rw [h.console_eq, h.log.minimumLevel_eq] at hprinted
  by_cases hrunning : (a.lives k).running = true
  · refine ⟨htable, ?_, ?_⟩
    · rw [hlog, Services.stop, if_pos hrunning, if_pos hrunning]
      exact h.log.step (.write _ _ _)
    · rw [hprinted, Services.stop, if_pos hrunning]
  · refine ⟨htable, ?_, ?_⟩
    · rw [hlog, Services.stop, if_neg hrunning, if_neg hrunning]
      exact h.log
    · rw [hprinted, Services.stop, if_neg hrunning, Life.prints, if_neg hrunning,
        List.append_nil]

theorem apply (h : ServiceRefines s a) (ticks : ServiceClock) (k : ServiceId) (op : ServiceOp) :
    ServiceRefines ((ServiceCall.on op k.name).perform s ticks).1 (a.apply ticks k op) := by
  have hfind := h.table.find_self k
  cases op with
  | start => exact h.start ticks k
  | stop => exact h.stop ticks k
  | restart =>
    have hcode := (h.table.stop ticks k).2.2.2
    simp only [ServiceCall.perform, serviceRestart, hcode, ne_eq, not_true_eq_false, if_false]
    exact (h.stop ticks k).start ticks k
  | enable =>
    simp only [ServiceCall.perform, serviceEnable, hfind]
    exact ⟨h.table.setEnabled k true, h.log, h.console_eq⟩
  | disable =>
    simp only [ServiceCall.perform, serviceDisable, hfind]
    exact ⟨h.table.setEnabled k false, h.log, h.console_eq⟩

theorem startupSlot (h : ServiceRefines s a) (ticks : ServiceClock) (k : ServiceId) :
    ServiceRefines (serviceStartupSlot ticks s k.slot) (Services.startup ticks a k) := by
  have hentry := h.table.entry k
  have henabled := hentry.enabled_eq
  have hread : CString.read (s.services k.slot).name.bytes = k.name := CString.ext hentry.name_eq
  unfold serviceStartupSlot Services.startup
  rw [hentry.present, hread, henabled]
  cases (a.lives k).enabled with
  | false => exact h
  | true => exact h.start ticks k

theorem startupAll (h : ServiceRefines s a) (ticks : ServiceClock) :
    ServiceRefines (serviceStartupAll s ticks)
      (ServiceId.all.foldl (Services.startup ticks) a) := by
  -- the services in the order of the slots
  have hservices : ∀ (l : List ServiceId) {s : ServiceSystem} {a : Services},
      ServiceRefines s a →
        ServiceRefines ((l.map ServiceId.slot).foldl (serviceStartupSlot ticks) s)
          (l.foldl (Services.startup ticks) a) := by
    intro l
    induction l with
    | nil => exact fun h => h
    | cons k l ih => exact fun h => ih (h.startupSlot ticks k)
  -- the free slots behind them
  have hfree : ∀ (l : List (Fin serviceEntryMax)), (∀ i ∈ l, 3 ≤ i.val) →
      ∀ {s : ServiceSystem} {a : Services}, ServiceRefines s a →
        l.foldl (serviceStartupSlot ticks) s = s := by
    intro l
    induction l with
    | nil => exact fun _ _ _ _ => rfl
    | cons i l ih =>
      intro hl s a h
      rw [List.forall_mem_cons] at hl
      have hskip : serviceStartupSlot ticks s i = s := by
        rw [serviceStartupSlot, h.table.free i hl.1]
        rfl
      rw [List.foldl_cons, hskip]
      exact ih hl.2 h
  have hfirst := hservices ServiceId.all h
  rw [serviceStartupAll, ServiceId.finRange_eq, List.foldl_append,
    hfree _ ServiceId.three_le_of_mem_drop hfirst]
  exact hfirst

theorem serviceStep_startupAll (s : ServiceSystem) (ticks : ServiceClock) :
    serviceStep s (.call ticks .startupAll) = serviceStartupAll s ticks := by
  rw [serviceStep, ServiceCall.perform]

theorem step (h : ServiceRefines s a) (e : ServiceEvent) :
    ServiceRefines (serviceStep s e) (a.step e) := by
  rcases e with ⟨ticks, c⟩ | c
  · cases c with
    | on op name =>
      rw [serviceStep, Services.step]
      cases hof : serviceOf name with
      | none =>
        rw [h.table.unknown ticks hof]
        exact h
      | some k =>
        rw [← serviceOf_eq_some_iff.mp hof]
        exact h.apply ticks k op
    | startupAll =>
      rw [serviceStep_startupAll, Services.step]
      exact h.startupAll ticks
  · exact ⟨h.table, h.log.step c, h.console_eq⟩

end ServiceRefines

/-- After any run from the boot of the kernel, with calls on any names and the log in use by
others: every service is found under its own name with the life that the events naming it have
given it, never failed, and it was started more often than stopped if it runs; no other name is
known; the counts agree; the log has accepted the messages of the hooks in their order, and the
console has shown them; and the next call returns 0 if it names a service and is refused
otherwise. -/
theorem service_run (events : List ServiceEvent) :
    let s := runSteps serviceStep ⟨serviceInit, logBoot, []⟩ events
    let life := fun k => runSteps (lifeStep k) .boot events
    (∀ k, ∃ e, serviceInfo s.services (some k.name) = some e ∧ Records k e (life k) ∧
        (life k).Sound) ∧
      (∀ name, (∀ k : ServiceId, k.name ≠ name) →
        serviceInfo s.services (some name) = none) ∧
      serviceGetStats s.services =
        ⟨3, ServiceId.all.countP fun k => (life k).enabled,
          ServiceId.all.countP fun k => (life k).running⟩ ∧
      LogRefines s.log (runSteps Services.step .boot events).history ∧
      s.console = (runSteps Services.step .boot events).console ∧
      (∀ op ticks (k : ServiceId), ((ServiceCall.on op k.name).perform s ticks).2 = 0) ∧
      ∀ op ticks name, (∀ k : ServiceId, k.name ≠ name) →
        (ServiceCall.on op name).perform s ticks = (s, -1) := by
  intro s life
  have h : ServiceRefines s (runSteps Services.step .boot events) :=
    sim_runSteps (R := ServiceRefines) (fun _ _ e h => h.step e) events _ _ .boot
  have hlife : ∀ k, (runSteps Services.step .boot events).lives k = life k :=
    fun k => Services.lives_run k events
  refine ⟨fun k => ?_, fun name hname => ?_, ?_, h.log, h.console_eq,
    fun op ticks k => (h.table.apply ticks k op).2.2,
    fun op ticks name hname => h.table.unknown ticks (serviceOf_eq_none_iff.mpr hname) op⟩
  · refine ⟨s.services k.slot, ?_, ?_, sound_run k events⟩
    · rw [h.table.info, serviceOf_eq_some_iff.mpr rfl, Option.map_some]
    · rw [← hlife]
      exact h.table.entry k
  · rw [h.table.info, serviceOf_eq_none_iff.mpr hname, Option.map_none]
  · rw [h.table.stats]
    simp only [hlife]

end AcharyaOS.Service
