import AcharyaOS.Scheduler.Code

/-!
# The process table code

The functions of `process/process.c` that change its static variables, on top of the
scheduler, and the timer interrupt of `drivers/timer/timer.c`.
-/

namespace AcharyaOS.Process

open Foundation Scheduler

abbrev processMax : Nat := 16

/-- `process_state_t`. -/
inductive ProcessStatus
  | unused
  | ready
  | running
  | blocked
  | zombie
  deriving DecidableEq

/-- `process_info_t`; a null `name` is `none`. -/
structure ProcessInfo where
  pid : UInt32
  schedulerTaskId : UInt32
  name : Option CString
  state : ProcessStatus
  createdAtTick : UInt64
  deriving DecidableEq

def ProcessInfo.zero : ProcessInfo := ⟨0, 0, none, .unused, 0⟩

/-- The static variables of `process.c` and of `scheduler.c`, and the ticks of `timer.c`.
`process_count` never exceeds the table. -/
structure ProcState where
  processes : Fin processMax → ProcessInfo
  processCount : Nat
  count_le : processCount ≤ processMax
  nextPid : UInt32
  currentPid : UInt32
  sched : SchedState
  ticks : UInt64

/-- `scheduler_init` changes the scheduler alone. -/
def ProcState.withScheduler (s : ProcState) : ProcState := { s with sched := schedulerInit }

def processCreateKernel (s : ProcState) (name : Option CString) (timeSliceTicks : UInt32) :
    ProcState × Int :=
  if h : s.processCount < processMax then
    let r := schedulerRegisterTask s.sched name timeSliceTicks
    if r.2 < 0 then ({ s with sched := r.1 }, -1)
    else
      let process : ProcessInfo :=
        { pid := s.nextPid
          schedulerTaskId := (Int32.ofInt r.2).toUInt32
          name := name
          state := if s.processCount == 0 then .running else .ready
          createdAtTick := s.ticks }
      ({ s with
          processes := Function.update s.processes ⟨s.processCount, h⟩ process
          processCount := s.processCount + 1
          count_le := h
          nextPid := s.nextPid + 1
          sched := r.1 },
        process.pid.toInt32.toInt)
  else (s, -1)

/-- The assignments of `process_init` before its first process. -/
def processClear (s : ProcState) : ProcState :=
  { s with
    processes := fun _ => .zero
    processCount := 0
    count_le := Nat.zero_le _
    nextPid := 1
    currentPid := 0 }

/-- "kernel-shell" -/
def kernelShellName : CString :=
  ⟨[107, 101, 114, 110, 101, 108, 45, 115, 104, 101, 108, 108], by decide⟩

/-- "idle" -/
def idleName : CString := ⟨[105, 100, 108, 101], by decide⟩

def processInit (s : ProcState) : ProcState :=
  let s := processClear s
  let s := (processCreateKernel s kernelShellName 5).1
  let s := (processCreateKernel s idleName 5).1
  { s with currentPid := 1 }

/-- `timer_interrupt_handler`. -/
def timerInterruptHandler (s : ProcState) : ProcState :=
  { s with ticks := s.ticks + 1, sched := schedulerOnTimerTick s.sched }

/-- What can happen once the process table is empty: a process is created, by `process_init`
or later, `process_init` sets the current process, or the timer ticks. -/
inductive ProcCall
  | createKernel (name : Option CString) (timeSliceTicks : UInt32)
  | setCurrent (pid : UInt32)
  | timerTick

def procStep (s : ProcState) : ProcCall → ProcState
  | .createKernel name timeSliceTicks => (processCreateKernel s name timeSliceTicks).1
  | .setCurrent pid => { s with currentPid := pid }
  | .timerTick => timerInterruptHandler s

/-- The calls of `process_init` behind `processClear`. -/
def processInitCalls : List ProcCall :=
  [.createKernel kernelShellName 5, .createKernel idleName 5, .setCurrent 1]

end AcharyaOS.Process
