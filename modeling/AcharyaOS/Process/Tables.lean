import AcharyaOS.Foundation.Words
import AcharyaOS.Process.Code
import AcharyaOS.Scheduler.Fairness

/-!
# Two tables in step

Every process is bound to a task of the scheduler.  The scheduler's table is the smaller of
the two and is asked first, so a process is created with its task or not at all.
-/

namespace AcharyaOS.Process

open Foundation Foundation.Run Scheduler

/-- Process `i` and task `i` belong together, and their numbers name them. -/
structure InStep (s : ProcState) : Prop where
  count_eq : s.processCount = s.sched.taskCount
  pid_eq : ∀ i : Fin processMax, i.val < s.processCount →
    (s.processes i).pid.toNat = i.val + 1
  bound : ∀ (i : Fin processMax) (j : Fin schedMaxTasks), i.val = j.val →
    i.val < s.processCount →
      (s.processes i).schedulerTaskId = (s.sched.tasks j).id ∧
        (s.processes i).name = (s.sched.tasks j).name
  pid_unique : ∀ i j : Fin processMax, i.val < s.processCount → j.val < s.processCount →
    (s.processes i).pid = (s.processes j).pid → i = j
  id_unique : ∀ i j : Fin schedMaxTasks, i.val < s.sched.taskCount →
    j.val < s.sched.taskCount → (s.sched.tasks i).id = (s.sched.tasks j).id → i = j

/-- A failed creation leaves both tables and both counters as they were. -/
def FailsWhole (s : ProcState) : ProcCall → Prop
  | .createKernel name timeSliceTicks =>
      (processCreateKernel s name timeSliceTicks).2 = -1 →
        (processCreateKernel s name timeSliceTicks).1 = s
  | _ => True

/-- Both tables are filled from the front, with numbers counted up from 1. -/
structure ProcInv (s : ProcState) : Prop where
  sched : SchedInv s.sched
  count_eq : s.processCount = s.sched.taskCount
  nextPid_eq : s.nextPid.toNat = s.processCount + 1
  nextTaskId_eq : s.sched.nextTaskId.toNat = s.processCount + 1
  pid_eq : ∀ i : Fin processMax, i.val < s.processCount →
    (s.processes i).pid.toNat = i.val + 1
  id_eq : ∀ i : Fin schedMaxTasks, i.val < s.processCount →
    (s.sched.tasks i).id.toNat = i.val + 1
  bound : ∀ (i : Fin processMax) (j : Fin schedMaxTasks), i.val = j.val →
    i.val < s.processCount →
      (s.processes i).schedulerTaskId = (s.sched.tasks j).id ∧
        (s.processes i).name = (s.sched.tasks j).name

theorem ProcInv.inStep {s : ProcState} (h : ProcInv s) : InStep s where
  count_eq := h.count_eq
  pid_eq := h.pid_eq
  bound := h.bound
  pid_unique i j hi hj heq := by
    have hpid := h.pid_eq i hi
    rw [heq, h.pid_eq j hj] at hpid
    exact Fin.ext (by omega)
  id_unique i j hi hj heq := by
    rw [← h.count_eq] at hi hj
    have hid := h.id_eq i hi
    rw [heq, h.id_eq j hj] at hid
    exact Fin.ext (by omega)

/-! ## Creating a process -/

/-- The assignments that add a process to the table, its task being in `sched` already. -/
def ProcState.push (s : ProcState) (h : s.processCount < processMax) (process : ProcessInfo)
    (sched : SchedState) : ProcState :=
  { s with
    processes := Function.update s.processes ⟨s.processCount, h⟩ process
    processCount := s.processCount + 1
    count_le := h
    nextPid := s.nextPid + 1
    sched := sched }

section Create

variable {s : ProcState}

theorem processCreateKernel_cases (h : ProcInv s) (name : Option CString)
    (timeSliceTicks : UInt32) :
    processCreateKernel s name timeSliceTicks = (s, -1) ∨
      s.sched.taskCount < schedMaxTasks ∧ ∃ (hroom : s.processCount < processMax) (process : _),
        process.pid = s.nextPid ∧ process.schedulerTaskId = s.sched.nextTaskId ∧
          process.name = name ∧
          processCreateKernel s name timeSliceTicks =
            (s.push hroom process (schedulerRegisterTask s.sched name timeSliceTicks).1,
              ((s.processCount + 1 : Nat) : Int)) := by
  have hmax : processMax = 16 := rfl
  have hcount := s.count_le
  have hpid := h.nextPid_eq
  have hid := h.nextTaskId_eq
  unfold processCreateKernel
  by_cases hroom : s.processCount < processMax
  · rw [dif_pos hroom]
    by_cases htask : s.sched.taskCount < schedMaxTasks
    · right
      have hregistered : (schedulerRegisterTask s.sched name timeSliceTicks).2 =
          s.sched.nextTaskId.toInt32.toInt := by
        unfold schedulerRegisterTask
        rw [dif_pos htask]
      have hsmall : s.sched.nextTaskId.toInt32.toInt = s.sched.nextTaskId.toNat :=
        toInt_toInt32 (by omega)
      have hpositive : ¬ s.sched.nextTaskId.toInt32.toInt < 0 := by omega
      have hresult : s.nextPid.toInt32.toInt = (s.processCount + 1 : Nat) := by
        rw [toInt_toInt32 (by omega), hpid]
      have htaskId : (Int32.ofInt s.sched.nextTaskId.toInt32.toInt).toUInt32 =
          s.sched.nextTaskId := by
        rw [Int32.ofInt_toInt, UInt32.toUInt32_toInt32]
      simp only [hregistered, if_neg hpositive, htaskId, hresult]
      exact ⟨htask, hroom, _, rfl, rfl, rfl, rfl⟩
    · left
      have hfull : schedulerRegisterTask s.sched name timeSliceTicks = (s.sched, -1) := by
        unfold schedulerRegisterTask
        rw [dif_neg htask]
      simp only [hfull, Int.reduceNeg, Int.reduceLT, if_true]
  · left
    rw [dif_neg hroom]

theorem ProcInv.push (h : ProcInv s) (hroom : s.processCount < processMax)
    (htask : s.sched.taskCount < schedMaxTasks) {process : ProcessInfo}
    (hpid : process.pid = s.nextPid) (hid : process.schedulerTaskId = s.sched.nextTaskId)
    (timeSliceTicks : UInt32) :
    ProcInv (s.push hroom process
      (schedulerRegisterTask s.sched process.name timeSliceTicks).1) := by
  have hinv := h.sched.registerTask process.name timeSliceTicks
  have hcount := h.count_eq
  have hnextPid := h.nextPid_eq
  have hnextId := h.nextTaskId_eq
  revert hinv
  unfold schedulerRegisterTask
  rw [dif_pos htask]
  intro hinv
  have hsucc : ∀ x : UInt32, x.toNat = s.processCount + 1 →
      (x + 1).toNat = s.processCount + 1 + 1 := by
    intro x hx
    have hsmall : s.processCount < 16 := hroom
    rw [UInt32.toNat_add, UInt32.toNat_one, hx, Nat.mod_eq_of_lt (by omega)]
  refine
    { sched := hinv
      count_eq := congrArg Nat.succ hcount
      nextPid_eq := hsucc _ hnextPid
      nextTaskId_eq := hsucc _ hnextId
      pid_eq := fun i hi => ?_
      id_eq := fun i hi => ?_
      bound := fun i j hij hi => ?_ }
  · by_cases hlt : i.val < s.processCount
    · simp only [ProcState.push, update_mk_of_lt hroom s.processes process hlt]
      exact h.pid_eq i hlt
    · simp only [ProcState.push, update_mk_of_not_lt hroom s.processes process hi hlt, hpid]
      have hlast : i.val = s.processCount := by
        change i.val < s.processCount + 1 at hi
        omega
      rw [hnextPid, hlast]
  · change i.val < s.processCount + 1 at hi
    by_cases hlt : i.val < s.processCount
    · simp only [ProcState.push, update_mk_of_lt htask s.sched.tasks _ (hcount ▸ hlt)]
      exact h.id_eq i hlt
    · have hlast : i.val = s.processCount := by omega
      simp only [ProcState.push,
        update_mk_of_not_lt htask s.sched.tasks _ (hcount ▸ hi) (hcount ▸ hlt)]
      rw [hnextId, hlast]
  · change i.val < s.processCount + 1 at hi
    by_cases hlt : i.val < s.processCount
    · have hlt' : j.val < s.sched.taskCount := by omega
      simp only [ProcState.push, update_mk_of_lt hroom s.processes process hlt,
        update_mk_of_lt htask s.sched.tasks _ hlt']
      exact h.bound i j hij hlt
    · have hj : j.val < s.sched.taskCount + 1 := by omega
      have hlt' : ¬ j.val < s.sched.taskCount := by omega
      simp only [ProcState.push, update_mk_of_not_lt hroom s.processes process hi hlt,
        update_mk_of_not_lt htask s.sched.tasks _ hj hlt']
      exact ⟨hid, trivial⟩

theorem ProcInv.createKernel (h : ProcInv s) (name : Option CString) (timeSliceTicks : UInt32) :
    ProcInv (processCreateKernel s name timeSliceTicks).1 := by
  rcases processCreateKernel_cases h name timeSliceTicks with
    hfailed | ⟨htask, hroom, process, hpid, hid, rfl, hdone⟩
  · rw [hfailed]
    exact h
  · rw [hdone]
    exact h.push hroom htask hpid hid timeSliceTicks

theorem ProcInv.failsWhole (h : ProcInv s) (c : ProcCall) : FailsWhole s c := by
  cases c with
  | createKernel name timeSliceTicks =>
      intro hresult
      rcases processCreateKernel_cases h name timeSliceTicks with
        hfailed | ⟨-, hroom, process, -, -, -, hdone⟩
      · rw [hfailed]
      · rw [hdone] at hresult
        change ((s.processCount + 1 : Nat) : Int) = -1 at hresult
        omega
  | setCurrent pid => exact trivial
  | timerTick => exact trivial

end Create

/-! ## Ticks -/

theorem ProcInv.timerTick {s : ProcState} (h : ProcInv s) :
    ProcInv (timerInterruptHandler s) := by
  obtain ⟨tasks, i, p, htick, htasks⟩ := schedulerOnTimerTick_frame s.sched
  have hinv := h.sched.onTimerTick
  unfold timerInterruptHandler
  rw [htick] at hinv ⊢
  refine
    { sched := hinv
      count_eq := h.count_eq
      nextPid_eq := h.nextPid_eq
      nextTaskId_eq := h.nextTaskId_eq
      pid_eq := h.pid_eq
      id_eq := fun i hi => ?_
      bound := fun i j hij hi => ?_ }
  · show (tasks i).id.toNat = _
    rw [(htasks i).1]
    exact h.id_eq i hi
  · show _ = (tasks j).id ∧ _ = (tasks j).name
    rw [(htasks j).1, (htasks j).2]
    exact h.bound i j hij hi

theorem ProcInv.step {s : ProcState} (h : ProcInv s) (c : ProcCall) : ProcInv (procStep s c) := by
  cases c with
  | createKernel name timeSliceTicks => exact h.createKernel name timeSliceTicks
  | setCurrent pid =>
      exact ⟨h.sched, h.count_eq, h.nextPid_eq, h.nextTaskId_eq, h.pid_eq, h.id_eq, h.bound⟩
  | timerTick => exact h.timerTick

/-! ## Runs -/

/-- The state in which `process_init` has emptied its table, `k` ticks after
`scheduler_init`. -/
def processStart (s : ProcState) (k : Nat) : ProcState :=
  processClear (timerInterruptHandler^[k] s.withScheduler)

theorem ProcInv.start (s : ProcState) (k : Nat) : ProcInv (processStart s k) := by
  have hticks : ∀ n, SchedInv (timerInterruptHandler^[n] s.withScheduler).sched ∧
      (timerInterruptHandler^[n] s.withScheduler).sched.taskCount = 0 ∧
      (timerInterruptHandler^[n] s.withScheduler).sched.nextTaskId = 1 := by
    intro n
    induction n with
    | zero => exact ⟨.of_init, rfl, rfl⟩
    | succ n ih =>
        obtain ⟨hinv, hcount, hnext⟩ := ih
        rw [Function.iterate_succ_apply']
        refine ⟨hinv.onTimerTick, ?_, ?_⟩
        · show (schedulerOnTimerTick _).taskCount = 0
          rw [schedulerOnTimerTick_of_idle hcount]
          exact hcount
        · show (schedulerOnTimerTick _).nextTaskId = 1
          rw [schedulerOnTimerTick_of_idle hcount]
          exact hnext
  obtain ⟨hinv, hcount, hnext⟩ := hticks k
  refine
    { sched := hinv
      count_eq := hcount.symm
      nextPid_eq := rfl
      nextTaskId_eq := ?_
      pid_eq := fun _ hi => absurd hi (Nat.not_lt_zero _)
      id_eq := fun _ hi => absurd hi (Nat.not_lt_zero _)
      bound := fun _ _ _ hi => absurd hi (Nat.not_lt_zero _) }
  show (timerInterruptHandler^[k] s.withScheduler).sched.nextTaskId.toNat = 1
  rw [hnext]
  rfl

/-- From the moment `process_init` has emptied its table, with ticks before it and at any
point after it, the two tables stay in step and a failed creation changes nothing.  The rest
of `process_init` is the first such calls. -/
theorem process_tables_run (s : ProcState) (k : Nat) (calls : List ProcCall) :
    AllStates procStep InStep (processStart s k) calls ∧
      AllSteps procStep FailsWhole (processStart s k) calls ∧
      processInit (timerInterruptHandler^[k] s.withScheduler) =
        runSteps procStep (processStart s k) processInitCalls := by
  have hsteps : AllSteps procStep (fun _ _ => True) (processStart s k) calls :=
    allSteps_of_forall (fun _ _ => trivial) calls _
  have hlaw : AllSteps procStep FailsWhole (processStart s k) calls ↔
      AllSteps procStep (fun _ _ => True) (processStart s k) calls :=
    allSteps_congr (fun _ c h => ProcInv.step h c)
      (fun _ c h => iff_of_true (h.failsWhole c) trivial) calls _ (.start s k)
  exact ⟨hsteps.allStates (fun _ c h _ => ProcInv.step h c) (fun _ h => h.inStep) calls
      (.start s k), hlaw.mpr hsteps, rfl⟩

end AcharyaOS.Process
