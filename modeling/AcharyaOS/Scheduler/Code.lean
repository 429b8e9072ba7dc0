import AcharyaOS.Foundation.CString
import AcharyaOS.Foundation.Slots
import Mathlib.Algebra.GroupWithZero.Nat

/-!
# The scheduler code

The functions of `scheduler/scheduler.c` that change its static variables.
-/

namespace AcharyaOS.Scheduler

open Foundation

abbrev schedMaxTasks : Nat := 8

theorem schedMaxTasks_neZero : NeZero schedMaxTasks := ⟨by decide⟩

attribute [local instance] schedMaxTasks_neZero

/-- `sched_task_state_t`. -/
inductive SchedTaskState
  | unused
  | runnable
  | blocked
  deriving DecidableEq

/-- `sched_task_info_t`; a null `name` is `none`. -/
structure SchedTaskInfo where
  id : UInt32
  name : Option CString
  state : SchedTaskState
  ticksSeen : UInt64
  timeSliceTicks : UInt32
  deriving DecidableEq

def SchedTaskInfo.zero : SchedTaskInfo := ⟨0, none, .unused, 0, 0⟩

/-- The static variables of `scheduler.c`.  `task_count` never exceeds the table and
`current_index` is an index of it. -/
structure SchedState where
  tasks : Fin schedMaxTasks → SchedTaskInfo
  taskCount : Nat
  count_le : taskCount ≤ schedMaxTasks
  currentIndex : Fin schedMaxTasks
  totalTicks : UInt64
  nextTaskId : UInt32
  sliceProgress : UInt32

def runnableCountNow (s : SchedState) : Nat :=
  countSlots fun i => decide (i.val < s.taskCount) && (s.tasks i).state == .runnable

/-- `(current_index + 1) % task_count`, for a positive count. -/
def SchedState.nextIndex (s : SchedState) : Fin schedMaxTasks :=
  if h : 0 < s.taskCount then
    ⟨(s.currentIndex + 1) % s.taskCount, (Nat.mod_lt _ h).trans_le s.count_le⟩
  else s.currentIndex

/-- The loop of `advance_to_next_runnable`, with `n` steps to go. -/
def advanceSteps : Nat → SchedState → SchedState
  | 0, s => s
  | n + 1, s =>
      let s := { s with currentIndex := s.nextIndex }
      if (s.tasks s.currentIndex).state == .runnable then { s with sliceProgress := 0 }
      else advanceSteps n s

def advanceToNextRunnable (s : SchedState) : SchedState :=
  if s.taskCount == 0 then s else advanceSteps s.taskCount s

def schedulerInit : SchedState where
  tasks := fun _ => .zero
  taskCount := 0
  count_le := Nat.zero_le _
  currentIndex := 0
  totalTicks := 0
  nextTaskId := 1
  sliceProgress := 0

def schedulerRegisterTask (s : SchedState) (name : Option CString) (timeSliceTicks : UInt32) :
    SchedState × Int :=
  if h : s.taskCount < schedMaxTasks then
    let timeSliceTicks := if timeSliceTicks == 0 then 1 else timeSliceTicks
    let task : SchedTaskInfo := ⟨s.nextTaskId, name, .runnable, 0, timeSliceTicks⟩
    ({ s with
        tasks := Function.update s.tasks ⟨s.taskCount, h⟩ task
        taskCount := s.taskCount + 1
        count_le := h
        nextTaskId := s.nextTaskId + 1 },
      s.nextTaskId.toInt32.toInt)
  else (s, -1)

/-- The tick charged to a task. -/
def SchedTaskInfo.charge (t : SchedTaskInfo) : SchedTaskInfo :=
  { t with ticksSeen := t.ticksSeen + 1 }

def schedulerOnTimerTick (s : SchedState) : SchedState :=
  let s := { s with totalTicks := s.totalTicks + 1 }
  if s.taskCount == 0 || runnableCountNow s == 0 then s
  else
    let s :=
      if (s.tasks s.currentIndex).state != .runnable then advanceToNextRunnable s else s
    let s := { s with
      tasks := Function.update s.tasks s.currentIndex (s.tasks s.currentIndex).charge
      sliceProgress := s.sliceProgress + 1 }
    if s.sliceProgress ≥ (s.tasks s.currentIndex).timeSliceTicks then advanceToNextRunnable s
    else s

/-- A call into the scheduler after its initialisation. -/
inductive SchedCall
  | registerTask (name : Option CString) (timeSliceTicks : UInt32)
  | onTimerTick

def schedStep (s : SchedState) : SchedCall → SchedState
  | .registerTask name timeSliceTicks => (schedulerRegisterTask s name timeSliceTicks).1
  | .onTimerTick => schedulerOnTimerTick s

end AcharyaOS.Scheduler
