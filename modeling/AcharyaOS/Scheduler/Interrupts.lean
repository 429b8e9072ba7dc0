import AcharyaOS.Scheduler.Fairness
import Mathlib.Algebra.BigOperators.Group.Finset.Piecewise
import Mathlib.Data.UInt

/-!
# Ticks in the middle of a registration

`scheduler_register_task` fills a slot with interrupts enabled, so the timer may tick between
any two of its assignments.  The new slot lies behind `task_count` until the last of them,
and a tick stays in front of it.
-/

namespace AcharyaOS.Scheduler

open Foundation Foundation.Run

attribute [local instance] schedMaxTasks_neZero

/-- The statement of `scheduler_register_task` that comes next. -/
inductive RegisterStatement
  | capacity
  | clampSlice
  | taskPointer
  | id
  | nextTaskId
  | name
  | state
  | ticksSeen
  | timeSliceTicks
  | taskCount
  deriving DecidableEq

/-- The parameters and locals of a call of `scheduler_register_task` that has begun. -/
structure Registration where
  name : Option CString
  timeSliceTicks : UInt32
  task : Fin schedMaxTasks
  next : RegisterStatement

/-- The scheduler, the registration being executed, and the ticks so far that found no
task. -/
structure InterruptState where
  sched : SchedState
  pending : Option Registration
  idleTicks : Nat

def interruptStart : InterruptState := ⟨schedulerInit, none, 0⟩

/-- One statement of `scheduler_register_task`; `none` when the call returns with it. -/
def registerStatement (s : SchedState) (r : Registration) : SchedState × Option Registration :=
  match r.next with
  | .capacity =>
      if s.taskCount ≥ schedMaxTasks then (s, none) else (s, some { r with next := .clampSlice })
  | .clampSlice =>
      (s, some { r with
        timeSliceTicks := if r.timeSliceTicks == 0 then 1 else r.timeSliceTicks
        next := .taskPointer })
  | .taskPointer =>
      -- the count has been checked, and nothing else changes it
      if h : s.taskCount < schedMaxTasks then
        (s, some { r with task := ⟨s.taskCount, h⟩, next := .id })
      else (s, none)
  | .id => (s.setTask r.task { s.tasks r.task with id := s.nextTaskId },
      some { r with next := .nextTaskId })
  | .nextTaskId => ({ s with nextTaskId := s.nextTaskId + 1 }, some { r with next := .name })
  | .name => (s.setTask r.task { s.tasks r.task with name := r.name },
      some { r with next := .state })
  | .state => (s.setTask r.task { s.tasks r.task with state := .runnable },
      some { r with next := .ticksSeen })
  | .ticksSeen => (s.setTask r.task { s.tasks r.task with ticksSeen := 0 },
      some { r with next := .timeSliceTicks })
  | .timeSliceTicks => (s.setTask r.task { s.tasks r.task with timeSliceTicks := r.timeSliceTicks },
      some { r with next := .taskCount })
  | .taskCount =>
      if h : s.taskCount < schedMaxTasks then
        ({ s with taskCount := s.taskCount + 1, count_le := h }, none)
      else (s, none)

/-- What happens next: the kernel calls `scheduler_register_task`, it goes on with the call it
is in, or the timer ticks. -/
inductive InterruptEvent
  | call (name : Option CString) (timeSliceTicks : UInt32)
  | statement
  | tick

/-- A call begins only when the one before it has returned. -/
def interruptStep (σ : InterruptState) : InterruptEvent → InterruptState
  | .call name timeSliceTicks =>
      match σ.pending with
      | none => { σ with pending := some ⟨name, timeSliceTicks, 0, .capacity⟩ }
      | some _ => σ
  | .statement =>
      match σ.pending with
      | none => σ
      | some r =>
          let next := registerStatement σ.sched r
          { σ with sched := next.1, pending := next.2 }
  | .tick =>
      { σ with
        sched := schedulerOnTimerTick σ.sched
        idleTicks := if σ.sched.taskCount = 0 then σ.idleTicks + 1 else σ.idleTicks }

/-- Undisturbed, the statements of a call do what the call does. -/
theorem schedulerRegisterTask_statements (s : SchedState) (k : Nat) (name : Option CString)
    (timeSliceTicks : UInt32) :
    runSteps interruptStep ⟨s, none, k⟩
        (.call name timeSliceTicks :: List.replicate 10 .statement) =
      ⟨(schedulerRegisterTask s name timeSliceTicks).1, none, k⟩ := by
  by_cases hroom : s.taskCount < schedMaxTasks
  · have hcheck : ¬ s.taskCount ≥ schedMaxTasks := Nat.not_le.mpr hroom
    simp [runSteps, List.replicate, interruptStep, registerStatement, SchedState.setTask,
      schedulerRegisterTask, hroom, hcheck]
  · have hcheck : s.taskCount ≥ schedMaxTasks := Nat.not_lt.mp hroom
    simp [runSteps, List.replicate, interruptStep, registerStatement, schedulerRegisterTask,
      hroom, hcheck]

/-- The ticks charged to registered tasks, in the 64-bit arithmetic of their counters. -/
def ticksCharged (s : SchedState) : UInt64 :=
  ∑ i : Fin schedMaxTasks, if i.val < s.taskCount then (s.tasks i).ticksSeen else 0

/-- Every tick is accounted for, whatever is half done. -/
structure TicksAccounted (σ : InterruptState) : Prop where
  conserved : σ.sched.totalTicks = ticksCharged σ.sched + UInt64.ofNat σ.idleTicks
  index_lt : 0 < σ.sched.taskCount → σ.sched.currentIndex.val < σ.sched.taskCount
  uncharged : ∀ i : Fin schedMaxTasks, σ.sched.taskCount ≤ i.val →
    (schedulerOnTimerTick σ.sched).tasks i = σ.sched.tasks i
  progress_lt : 0 < σ.sched.taskCount →
    (schedulerOnTimerTick σ.sched).sliceProgress <
      ((schedulerOnTimerTick σ.sched).tasks
        (schedulerOnTimerTick σ.sched).currentIndex).timeSliceTicks

/-! ## The table behind the count -/

section Steps

variable {s : SchedState}

theorem SchedInv.tick_unregistered (h : SchedInv s) {i : Fin schedMaxTasks}
    (hi : s.taskCount ≤ i.val) : (schedulerOnTimerTick s).tasks i = s.tasks i := by
  by_cases hpos : 0 < s.taskCount
  · have hlt := h.index_lt hpos
    rw [(schedulerOnTimerTick_ticked h hpos).tasks_eq, Function.update_of_ne]
    rintro rfl
    omega
  · rw [schedulerOnTimerTick_of_idle (by omega)]

theorem ticksCharged_setTask {i : Fin schedMaxTasks} (hi : s.taskCount ≤ i.val)
    (t : SchedTaskInfo) : ticksCharged (s.setTask i t) = ticksCharged s := by
  unfold ticksCharged
  apply Finset.sum_congr rfl
  intro j _
  show (if j.val < s.taskCount then ((s.setTask i t).tasks j).ticksSeen else 0) = _
  by_cases hj : j.val < s.taskCount
  · rw [if_pos hj, if_pos hj, setTask_of_lt hi hj]
  · rw [if_neg hj, if_neg hj]

theorem ticksCharged_grow (hroom : s.taskCount < schedMaxTasks)
    (hseen : (s.tasks ⟨s.taskCount, hroom⟩).ticksSeen = 0) :
    ticksCharged (s.grow hroom) = ticksCharged s := by
  unfold ticksCharged
  apply Finset.sum_congr rfl
  intro i _
  show (if i.val < s.taskCount + 1 then (s.tasks i).ticksSeen else 0) = _
  by_cases hlt : i.val < s.taskCount
  · rw [if_pos hlt, if_pos (by omega)]
  · rw [if_neg hlt]
    by_cases hi : i.val < s.taskCount + 1
    · have hlast : i = ⟨s.taskCount, hroom⟩ := Fin.ext (by simp only; omega)
      rw [if_pos hi, hlast, hseen]
    · rw [if_neg hi]

theorem ticksCharged_tick (h : SchedInv s) (hpos : 0 < s.taskCount) :
    ticksCharged (schedulerOnTimerTick s) = ticksCharged s + 1 := by
  have hticked := schedulerOnTimerTick_ticked h hpos
  have hcurrent := h.index_lt hpos
  let seen (i : Fin schedMaxTasks) : UInt64 :=
    if i.val < s.taskCount then (s.tasks i).ticksSeen else 0
  have hafter : (fun i : Fin schedMaxTasks =>
      if i.val < (schedulerOnTimerTick s).taskCount then
        ((schedulerOnTimerTick s).tasks i).ticksSeen else 0) =
      Function.update seen s.currentIndex (seen s.currentIndex + 1) := by
    ext i : 1
    rw [hticked.taskCount_eq, hticked.tasks_eq]
    by_cases hi : i = s.currentIndex
    · rw [hi, Function.update_self, Function.update_self, if_pos hcurrent]
      simp only [seen, if_pos hcurrent]
      rfl
    · rw [Function.update_of_ne hi, Function.update_of_ne hi]
  calc ticksCharged (schedulerOnTimerTick s)
      = ∑ i, Function.update seen s.currentIndex (seen s.currentIndex + 1) i :=
        Finset.sum_congr rfl fun i _ => congrFun hafter i
    _ = seen s.currentIndex + 1 + ∑ i ∈ Finset.univ \ {s.currentIndex}, seen i :=
        Finset.sum_update_of_mem (Finset.mem_univ _) _ _
    _ = seen s.currentIndex + ∑ i ∈ Finset.univ \ {s.currentIndex}, seen i + 1 :=
        add_right_comm _ _ _
    _ = ticksCharged s + 1 := by
        rw [← Finset.sum_eq_add_sum_sdiff_singleton_of_mem (Finset.mem_univ _) seen]
        rfl

end Steps

/-! ## A registration in progress -/

/-- How many statements of the registration are done. -/
def RegisterStatement.done : RegisterStatement → Nat
  | .capacity => 0
  | .clampSlice => 1
  | .taskPointer => 2
  | .id => 3
  | .nextTaskId => 4
  | .name => 5
  | .state => 6
  | .ticksSeen => 7
  | .timeSliceTicks => 8
  | .taskCount => 9

/-- What the first `done` statements of a registration have left behind: the slot being filled
is the one behind the counted ones. -/
structure Registered (s : SchedState) (r : Registration) (done : Nat) : Prop where
  room : 1 ≤ done → s.taskCount < schedMaxTasks
  slice_pos : 2 ≤ done → 0 < r.timeSliceTicks.toNat
  task_eq : 3 ≤ done → r.task.val = s.taskCount
  state_eq : 7 ≤ done → (s.tasks r.task).state = .runnable
  seen_eq : 8 ≤ done → (s.tasks r.task).ticksSeen = 0
  slice_eq : 9 ≤ done → (s.tasks r.task).timeSliceTicks = r.timeSliceTicks

structure InterruptInv (σ : InterruptState) : Prop where
  sched : SchedInv σ.sched
  conserved : σ.sched.totalTicks = ticksCharged σ.sched + UInt64.ofNat σ.idleTicks
  registered : ∀ r, σ.pending = some r → Registered σ.sched r r.next.done

theorem InterruptInv.start : InterruptInv interruptStart where
  sched := .of_init
  conserved := by decide
  registered _ h := absurd h.symm (Option.some_ne_none _)

theorem InterruptInv.tick {σ : InterruptState} (h : InterruptInv σ) :
    InterruptInv (interruptStep σ .tick) := by
  obtain ⟨tasks, i, p, htick, -⟩ := schedulerOnTimerTick_frame σ.sched
  have hcount : (schedulerOnTimerTick σ.sched).taskCount = σ.sched.taskCount := by rw [htick]
  have htotal : (schedulerOnTimerTick σ.sched).totalTicks = σ.sched.totalTicks + 1 := by rw [htick]
  refine ⟨h.sched.onTimerTick, ?_, ?_⟩
  · show (schedulerOnTimerTick σ.sched).totalTicks = ticksCharged (schedulerOnTimerTick σ.sched) +
      UInt64.ofNat (if σ.sched.taskCount = 0 then σ.idleTicks + 1 else σ.idleTicks)
    rw [htotal, h.conserved]
    by_cases hzero : σ.sched.taskCount = 0
    · have hcharged : ticksCharged (schedulerOnTimerTick σ.sched) = ticksCharged σ.sched := by
        rw [schedulerOnTimerTick_of_idle hzero]
        rfl
      rw [if_pos hzero, hcharged, UInt64.ofNat_add, UInt64.add_assoc]
      rfl
    · rw [if_neg hzero, ticksCharged_tick h.sched (by omega)]
      exact add_right_comm _ _ _
  · intro r hr
    have hregistered := h.registered r hr
    have hsame : 3 ≤ r.next.done →
        (schedulerOnTimerTick σ.sched).tasks r.task = σ.sched.tasks r.task :=
      fun hdone => h.sched.tick_unregistered (hregistered.task_eq hdone).ge
    refine ⟨fun hdone => ?_, hregistered.slice_pos, fun hdone => ?_, fun hdone => ?_,
      fun hdone => ?_, fun hdone => ?_⟩
    · show (schedulerOnTimerTick σ.sched).taskCount < schedMaxTasks
      rw [hcount]
      exact hregistered.room hdone
    · show r.task.val = (schedulerOnTimerTick σ.sched).taskCount
      rw [hcount]
      exact hregistered.task_eq hdone
    · show ((schedulerOnTimerTick σ.sched).tasks r.task).state = .runnable
      rw [hsame (by omega)]
      exact hregistered.state_eq hdone
    · show ((schedulerOnTimerTick σ.sched).tasks r.task).ticksSeen = 0
      rw [hsame (by omega)]
      exact hregistered.seen_eq hdone
    · show ((schedulerOnTimerTick σ.sched).tasks r.task).timeSliceTicks = r.timeSliceTicks
      rw [hsame (by omega)]
      exact hregistered.slice_eq hdone

/-- A statement keeps the invariant, charges nothing and leaves its trace. -/
structure StatementKept (s s' : SchedState) (r' : Option Registration) : Prop where
  sched : SchedInv s'
  total_eq : s'.totalTicks = s.totalTicks
  charged_eq : ticksCharged s' = ticksCharged s
  registered : ∀ r, r' = some r → Registered s' r r.next.done

theorem StatementKept.returned {s s' : SchedState} (hs : SchedInv s')
    (htotal : s'.totalTicks = s.totalTicks) (hcharged : ticksCharged s' = ticksCharged s) :
    StatementKept s s' none :=
  ⟨hs, htotal, hcharged, fun _ hnone => absurd hnone.symm (Option.some_ne_none _)⟩

theorem Registered.setTask {s : SchedState} {r : Registration} {done : Nat} (hs : SchedInv s)
    (hr : Registered s r done) (hdone : 3 ≤ done) {t : SchedTaskInfo} {next : RegisterStatement}
    (hstate : 7 ≤ next.done → t.state = .runnable) (hseen : 8 ≤ next.done → t.ticksSeen = 0)
    (hslice : 9 ≤ next.done → t.timeSliceTicks = r.timeSliceTicks) :
    StatementKept s (s.setTask r.task t) (some { r with next := next }) := by
  have hbehind : s.taskCount ≤ r.task.val := (hr.task_eq hdone).ge
  have hself := setTask_self (s := s) r.task t
  refine ⟨hs.setTask hbehind t, rfl, ticksCharged_setTask hbehind t, ?_⟩
  rintro _ ⟨⟩
  refine ⟨fun _ => hr.room (by omega), fun _ => hr.slice_pos (by omega),
    fun _ => hr.task_eq hdone, fun hnext => ?_, fun hnext => ?_, fun hnext => ?_⟩
  · rw [hself]
    exact hstate hnext
  · rw [hself]
    exact hseen hnext
  · rw [hself]
    exact hslice hnext

theorem Registered.of_le {s : SchedState} {r : Registration} {done : Nat} (hdone : done ≤ 6)
    (hroom : 1 ≤ done → s.taskCount < schedMaxTasks)
    (hslice : 2 ≤ done → 0 < r.timeSliceTicks.toNat)
    (htask : 3 ≤ done → r.task.val = s.taskCount) : Registered s r done :=
  ⟨hroom, hslice, htask, fun h => absurd h (by omega), fun h => absurd h (by omega),
    fun h => absurd h (by omega)⟩

theorem registerStatement_kept {s : SchedState} {r : Registration} (hs : SchedInv s)
    (hr : Registered s r r.next.done) :
    StatementKept s (registerStatement s r).1 (registerStatement s r).2 := by
  have hlt : ∀ {m n : Nat} {P : Prop}, n < m → m ≤ n → P := fun hnm hmn => absurd hmn (by omega)
  unfold registerStatement
  cases hnext : r.next with
  | capacity =>
      simp only
      split
      · exact .returned hs rfl rfl
      · next hroom =>
          refine ⟨hs, rfl, rfl, ?_⟩
          rintro _ ⟨⟩
          show Registered s _ 1
          exact .of_le (by decide) (fun _ => Nat.not_le.mp hroom) (hlt (by decide))
            (hlt (by decide))
  | clampSlice =>
      rw [hnext] at hr
      refine ⟨hs, rfl, rfl, ?_⟩
      rintro _ ⟨⟩
      show Registered s _ 2
      exact .of_le (by decide) (fun _ => hr.room (by decide))
        (fun _ => registered_slice_pos r.timeSliceTicks) (hlt (by decide))
  | taskPointer =>
      rw [hnext] at hr
      have hroom := hr.room (by decide)
      simp only [hroom, dite_true]
      refine ⟨hs, rfl, rfl, ?_⟩
      rintro _ ⟨⟩
      show Registered s _ 3
      exact .of_le (by decide) (fun _ => hroom) (fun _ => hr.slice_pos (by decide))
        (fun _ => rfl)
  | id =>
      rw [hnext] at hr
      exact hr.setTask hs (by decide) (hlt (by decide)) (hlt (by decide)) (hlt (by decide))
  | nextTaskId =>
      rw [hnext] at hr
      refine ⟨⟨hs.runnable, hs.slice_pos, hs.index_lt, hs.progress_lt, hs.idle⟩, rfl, rfl, ?_⟩
      rintro _ ⟨⟩
      show Registered { s with nextTaskId := s.nextTaskId + 1 } _ 5
      exact .of_le (by decide) (fun _ => hr.room (by decide)) (fun _ => hr.slice_pos (by decide))
        (fun _ => hr.task_eq (by decide))
  | name =>
      rw [hnext] at hr
      exact hr.setTask hs (by decide) (hlt (by decide)) (hlt (by decide)) (hlt (by decide))
  | state =>
      rw [hnext] at hr
      exact hr.setTask hs (by decide) (fun _ => rfl) (hlt (by decide)) (hlt (by decide))
  | ticksSeen =>
      rw [hnext] at hr
      exact hr.setTask hs (by decide) (fun _ => hr.state_eq (by decide)) (fun _ => rfl)
        (hlt (by decide))
  | timeSliceTicks =>
      rw [hnext] at hr
      exact hr.setTask hs (by decide) (fun _ => hr.state_eq (by decide))
        (fun _ => hr.seen_eq (by decide)) (fun _ => rfl)
  | taskCount =>
      -- the slot is complete when it is counted
      rw [hnext] at hr
      have hroom := hr.room (by decide)
      have htask : r.task = ⟨s.taskCount, hroom⟩ := Fin.ext (hr.task_eq (by decide))
      have hstate := hr.state_eq (by decide)
      have hseen := hr.seen_eq (by decide)
      have hslice := hr.slice_eq (by decide)
      have hpos := hr.slice_pos (by decide)
      rw [htask] at hstate hseen hslice
      simp only [hroom, dite_true]
      exact .returned (hs.grow hroom hstate (by rw [hslice]; exact hpos)) rfl
        (ticksCharged_grow hroom hseen)

theorem InterruptInv.step {σ : InterruptState} (h : InterruptInv σ) (e : InterruptEvent) :
    InterruptInv (interruptStep σ e) := by
  cases e with
  | tick => exact h.tick
  | call name timeSliceTicks =>
      unfold interruptStep
      cases hpending : σ.pending with
      | some r => exact h
      | none =>
          refine ⟨h.sched, h.conserved, ?_⟩
          rintro _ ⟨⟩
          show Registered σ.sched _ 0
          exact .of_le (Nat.zero_le _) (fun hdone => absurd hdone (by decide))
            (fun hdone => absurd hdone (by decide)) (fun hdone => absurd hdone (by decide))
  | statement =>
      unfold interruptStep
      cases hpending : σ.pending with
      | none => exact h
      | some r =>
          have hkept := registerStatement_kept h.sched (h.registered r hpending)
          refine ⟨hkept.sched, ?_, hkept.registered⟩
          simp only
          rw [hkept.total_eq, hkept.charged_eq]
          exact h.conserved

/-! ## Runs -/

theorem InterruptInv.accounted {σ : InterruptState} (h : InterruptInv σ) : TicksAccounted σ where
  conserved := h.conserved
  index_lt := h.sched.index_lt
  uncharged _ hi := h.sched.tick_unregistered hi
  progress_lt hpos := by
    have hinv := h.sched.onTimerTick
    have hcount := (schedulerOnTimerTick_ticked h.sched hpos).taskCount_eq
    rw [UInt32.lt_iff_toNat_lt]
    exact hinv.progress_lt (by omega)

/-- However ticks fall between the statements of registrations, each of them is charged to one
registered task or counted as idle, and the rotation stays within the registered tasks. -/
theorem ticksAccounted_run (events : List InterruptEvent) :
    AllStates interruptStep TicksAccounted interruptStart events := by
  have hsteps : AllSteps interruptStep (fun _ _ => True) interruptStart events :=
    allSteps_of_forall (fun _ _ => trivial) events _
  exact hsteps.allStates (fun _ e h _ => InterruptInv.step h e) (fun _ h => h.accounted) events
    .start

end AcharyaOS.Scheduler
