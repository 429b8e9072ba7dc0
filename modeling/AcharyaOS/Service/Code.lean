import AcharyaOS.Foundation.Field
import AcharyaOS.Foundation.Slots
import AcharyaOS.Log.Console

/-!
# The startup services

`kernel/service/service.c`: a table of named services and the calls that start and stop them.
The hooks of a service write to the kernel log.
-/

namespace AcharyaOS.Service

open Foundation Kio Log

abbrev serviceNameMax : Nat := 32

abbrev serviceDescMax : Nat := 64

abbrev serviceEntryMax : Nat := 16

inductive ServiceState
  | stopped | running | failed
  deriving DecidableEq

structure ServiceEntry where
  name : CField serviceNameMax
  description : CField serviceDescMax
  enabled : UInt8
  state : ServiceState
  lastStartedTick : UInt64
  lastStoppedTick : UInt64
  startCount : UInt32
  stopCount : UInt32

def ServiceEntry.zero : ServiceEntry :=
  ⟨.zero _ (by decide), .zero _ (by decide), 0, .stopped, 0, 0, 0, 0⟩

/-- `services[i].name[0] != '\0'` -/
def ServiceEntry.present (e : ServiceEntry) : Bool := e.name.bytes.headD 0 != 0

abbrev ServiceTable := Fin serviceEntryMax → ServiceEntry

/-- The table together with the log its hooks write to, and the calls of `kprintf` that these
have come to. -/
structure ServiceSystem where
  services : ServiceTable
  log : LogState
  console : List (String × List FormatArg)

def ServiceSystem.setEntry (s : ServiceSystem) (idx : Fin serviceEntryMax) (e : ServiceEntry) :
    ServiceSystem :=
  { s with services := Function.update s.services idx e }

inductive ServiceHook
  | run | stop
  deriving DecidableEq

/-- What `timer_get_ticks()` returns when the hook of a service writes to the log, when the log
prints the message, and when the service is marked afterwards. -/
structure ServiceTicks where
  logged : UInt64
  printed : UInt64
  marked : UInt64

/-- The readings of the timer during one call.  A call runs each hook of a service once at
most. -/
abbrev ServiceClock := Fin serviceEntryMax → ServiceHook → ServiceTicks

/-! ## The table -/

/-- `service_find`, `none` standing for -1. -/
def serviceFind (t : ServiceTable) (name : CString) : Option (Fin serviceEntryMax) :=
  firstSlot fun i => (t i).present && strcmp (t i).name.bytes name.bytes == 0

def serviceRegister (t : ServiceTable) (name description : CString) (enabled : UInt8) :
    ServiceTable :=
  match firstSlot fun i => !(t i).present with
  | none => t
  | some i =>
      Function.update t i
        { name := (t i).name.copy name
          description := (t i).description.copy description
          enabled := enabled
          state := .stopped
          lastStartedTick := 0
          lastStoppedTick := 0
          startCount := 0
          stopCount := 0 }

/-- "logger" -/
def loggerName : CString := ⟨[108, 111, 103, 103, 101, 114], by decide⟩

/-- "clock" -/
def clockName : CString := ⟨[99, 108, 111, 99, 107], by decide⟩

/-- "shell-ready" -/
def shellReadyName : CString :=
  ⟨[115, 104, 101, 108, 108, 45, 114, 101, 97, 100, 121], by decide⟩

/-- "kernel logging hook" -/
def loggerDescription : CString :=
  ⟨[107, 101, 114, 110, 101, 108, 32, 108, 111, 103, 103, 105, 110, 103, 32, 104, 111, 111,
    107], by decide⟩

/-- "timer bookkeeping hook" -/
def clockDescription : CString :=
  ⟨[116, 105, 109, 101, 114, 32, 98, 111, 111, 107, 107, 101, 101, 112, 105, 110, 103, 32, 104,
    111, 111, 107], by decide⟩

/-- "shell readiness marker" -/
def shellReadyDescription : CString :=
  ⟨[115, 104, 101, 108, 108, 32, 114, 101, 97, 100, 105, 110, 101, 115, 115, 32, 109, 97, 114,
    107, 101, 114], by decide⟩

/-- `service_init` -/
def serviceInit : ServiceTable :=
  let t := fun _ => ServiceEntry.zero
  let t := serviceRegister t loggerName loggerDescription 1
  let t := serviceRegister t clockName clockDescription 1
  serviceRegister t shellReadyName shellReadyDescription 1

/-! ## The hooks -/

/-- "service logger started" -/
def loggerStarted : CString :=
  ⟨[115, 101, 114, 118, 105, 99, 101, 32, 108, 111, 103, 103, 101, 114, 32, 115, 116, 97, 114,
    116, 101, 100], by decide⟩

/-- "service clock started" -/
def clockStarted : CString :=
  ⟨[115, 101, 114, 118, 105, 99, 101, 32, 99, 108, 111, 99, 107, 32, 115, 116, 97, 114, 116,
    101, 100], by decide⟩

/-- "service shell-ready started" -/
def shellReadyStarted : CString :=
  ⟨[115, 101, 114, 118, 105, 99, 101, 32, 115, 104, 101, 108, 108, 45, 114, 101, 97, 100, 121,
    32, 115, 116, 97, 114, 116, 101, 100], by decide⟩

/-- "service logger stopped" -/
def loggerStopped : CString :=
  ⟨[115, 101, 114, 118, 105, 99, 101, 32, 108, 111, 103, 103, 101, 114, 32, 115, 116, 111, 112,
    112, 101, 100], by decide⟩

/-- "service clock stopped" -/
def clockStopped : CString :=
  ⟨[115, 101, 114, 118, 105, 99, 101, 32, 99, 108, 111, 99, 107, 32, 115, 116, 111, 112, 112,
    101, 100], by decide⟩

/-- "service shell-ready stopped" -/
def shellReadyStopped : CString :=
  ⟨[115, 101, 114, 118, 105, 99, 101, 32, 115, 104, 101, 108, 108, 45, 114, 101, 97, 100, 121,
    32, 115, 116, 111, 112, 112, 101, 100], by decide⟩

/-- `log_write(LOG_INFO, message)` -/
def ServiceSystem.write (s : ServiceSystem) (ticks : ServiceTicks) (message : CString) :
    ServiceSystem :=
  { s with
    log := logWrite s.log ticks.logged logInfo message
    console := s.console ++ logWritePrints s.log.minimumLevel ticks.printed logInfo message }

/-- The chain of comparisons both hooks are. -/
def serviceHookWith (logger clock shellReady : CString) (s : ServiceSystem)
    (ticks : ServiceTicks) (name : List UInt8) : ServiceSystem × Int :=
  if strcmp name loggerName.bytes == 0 then (s.write ticks logger, 0)
  else if strcmp name clockName.bytes == 0 then (s.write ticks clock, 0)
  else if strcmp name shellReadyName.bytes == 0 then (s.write ticks shellReady, 0)
  else (s, 0)

def serviceRunHook : ServiceSystem → ServiceTicks → List UInt8 → ServiceSystem × Int :=
  serviceHookWith loggerStarted clockStarted shellReadyStarted

def serviceStopHook : ServiceSystem → ServiceTicks → List UInt8 → ServiceSystem × Int :=
  serviceHookWith loggerStopped clockStopped shellReadyStopped

/-! ## The calls -/

def serviceMarkRunning (s : ServiceSystem) (tick : UInt64) (idx : Fin serviceEntryMax) :
    ServiceSystem × Int :=
  let e := s.services idx
  (s.setEntry idx
    { e with state := .running, lastStartedTick := tick, startCount := e.startCount + 1 }, 0)

def serviceMarkStopped (s : ServiceSystem) (tick : UInt64) (idx : Fin serviceEntryMax) :
    ServiceSystem × Int :=
  let e := s.services idx
  (s.setEntry idx
    { e with state := .stopped, lastStoppedTick := tick, stopCount := e.stopCount + 1 }, 0)

def serviceStart (s : ServiceSystem) (ticks : ServiceClock) (name : CString) :
    ServiceSystem × Int :=
  match serviceFind s.services name with
  | none => (s, -1)
  | some idx =>
      let r := serviceRunHook s (ticks idx .run) (s.services idx).name.bytes
      let s := r.1
      if r.2 ≠ 0 then (s.setEntry idx { s.services idx with state := .failed }, -1)
      else serviceMarkRunning s (ticks idx .run).marked idx

def serviceStop (s : ServiceSystem) (ticks : ServiceClock) (name : CString) :
    ServiceSystem × Int :=
  match serviceFind s.services name with
  | none => (s, -1)
  | some idx =>
      if (s.services idx).state ≠ .running then (s, 0)
      else
        let r := serviceStopHook s (ticks idx .stop) (s.services idx).name.bytes
        let s := r.1
        if r.2 ≠ 0 then (s.setEntry idx { s.services idx with state := .failed }, -1)
        else serviceMarkStopped s (ticks idx .stop).marked idx

def serviceRestart (s : ServiceSystem) (ticks : ServiceClock) (name : CString) :
    ServiceSystem × Int :=
  let r := serviceStop s ticks name
  if r.2 ≠ 0 then (r.1, -1) else serviceStart r.1 ticks name

def serviceEnable (s : ServiceSystem) (name : CString) : ServiceSystem × Int :=
  match serviceFind s.services name with
  | none => (s, -1)
  | some idx => (s.setEntry idx { s.services idx with enabled := 1 }, 0)

def serviceDisable (s : ServiceSystem) (name : CString) : ServiceSystem × Int :=
  match serviceFind s.services name with
  | none => (s, -1)
  | some idx => (s.setEntry idx { s.services idx with enabled := 0 }, 0)

/-- One round of the loop of `service_startup_all`. -/
def serviceStartupSlot (ticks : ServiceClock) (s : ServiceSystem) (i : Fin serviceEntryMax) :
    ServiceSystem :=
  if !(s.services i).present || (s.services i).enabled == 0 then s
  else (serviceStart s ticks (.read (s.services i).name.bytes)).1

def serviceStartupAll (s : ServiceSystem) (ticks : ServiceClock) : ServiceSystem :=
  (List.finRange serviceEntryMax).foldl (serviceStartupSlot ticks) s

/-! ## Reading the table -/

def serviceStateName : ServiceState → String
  | .stopped => "stopped"
  | .running => "running"
  | .failed => "failed"

/-- `service_list(out_entries, max_entries)` with a non-null array: the entries stored. -/
def serviceList (t : ServiceTable) (maxEntries : Nat) : List ServiceEntry :=
  (((List.finRange serviceEntryMax).map t).filter ServiceEntry.present).take maxEntries

/-- `service_info` with a place for the entry, which is `none` for -1. -/
def serviceInfo (t : ServiceTable) (name : Option CString) : Option ServiceEntry :=
  name.bind fun name => (serviceFind t name).map t

structure ServiceStats where
  totalServices : Nat
  enabledServices : Nat
  runningServices : Nat
  deriving DecidableEq

def serviceGetStats (t : ServiceTable) : ServiceStats where
  totalServices := countSlots fun i => (t i).present
  enabledServices := countSlots fun i => (t i).present && (t i).enabled != 0
  runningServices := countSlots fun i => (t i).present && (t i).state == .running

/-! ## Runs -/

inductive ServiceOp
  | start | stop | restart | enable | disable
  deriving DecidableEq

inductive ServiceCall
  | on (op : ServiceOp) (name : CString)
  | startupAll

/-- The state a call leaves and its result; `service_startup_all` returns nothing. -/
def ServiceCall.perform (s : ServiceSystem) (ticks : ServiceClock) :
    ServiceCall → ServiceSystem × Int
  | .on .start name => serviceStart s ticks name
  | .on .stop name => serviceStop s ticks name
  | .on .restart name => serviceRestart s ticks name
  | .on .enable name => serviceEnable s name
  | .on .disable name => serviceDisable s name
  | .startupAll => (serviceStartupAll s ticks, 0)

/-- What happens to the table and the log: a call, or another part of the kernel that uses the
log. -/
inductive ServiceEvent
  | call (ticks : ServiceClock) (c : ServiceCall)
  | log (c : LogCall)

def serviceStep (s : ServiceSystem) : ServiceEvent → ServiceSystem
  | .call ticks c => (c.perform s ticks).1
  | .log c => { s with log := logStep s.log c }

end AcharyaOS.Service
