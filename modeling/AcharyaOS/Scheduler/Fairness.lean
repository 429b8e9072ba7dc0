import AcharyaOS.Foundation.Rotation
import AcharyaOS.Foundation.Run
import AcharyaOS.Scheduler.Code

/-!
# Round-robin fairness

The timer tick moves the scheduler through the phases of a rotation and charges
the task whose turn it is, so over one full turn every task is charged for its
own slice.
-/

namespace AcharyaOS.Scheduler

open Foundation Foundation.Run

/-- The states after `scheduler_init` and any registrations and ticks. -/
def SchedReachable : SchedState → Prop :=
  Reach (fun s => s = schedulerInit) schedStep fun _ _ => True

structure SchedInv (s : SchedState) : Prop where
  runnable : ∀ i, i.val < s.taskCount → (s.tasks i).state = .runnable
  slice_pos : ∀ i, i.val < s.taskCount → 0 < (s.tasks i).timeSliceTicks.toNat
  index_lt : 0 < s.taskCount → s.currentIndex.val < s.taskCount
  progress_lt : 0 < s.taskCount →
    s.sliceProgress.toNat < (s.tasks s.currentIndex).timeSliceTicks.toNat
  idle : s.taskCount = 0 → s.currentIndex = 0 ∧ s.sliceProgress = 0

/-! ## The rotation behind the scheduler -/

/-- The slice of a task, by its number. -/
def sliceLength (s : SchedState) (i : Nat) : Nat :=
  if h : i < schedMaxTasks then (s.tasks ⟨i, h⟩).timeSliceTicks.toNat else 0

def SchedState.phase (s : SchedState) : Phase := ⟨s.currentIndex, s.sliceProgress.toNat⟩

/-- The ticks of a full turn, the sum of the slices of all tasks. -/
def turnTicks (s : SchedState) : Nat := Phase.turn s.taskCount (sliceLength s)

theorem sliceLength_val (s : SchedState) (i : Fin schedMaxTasks) :
    sliceLength s i = (s.tasks i).timeSliceTicks.toNat := by
  rw [sliceLength, dif_pos i.isLt]

section Advance

variable {s : SchedState}

theorem val_nextIndex (hpos : 0 < s.taskCount) :
    s.nextIndex.val = (s.currentIndex.val + 1) % s.taskCount := by
  rw [SchedState.nextIndex, dif_pos hpos]

theorem advanceToNextRunnable_of_runnable (hpos : 0 < s.taskCount)
    (hrun : ∀ i, i.val < s.taskCount → (s.tasks i).state = .runnable) :
    advanceToNextRunnable s = { s with currentIndex := s.nextIndex, sliceProgress := 0 } := by
  have hnext : (s.tasks s.nextIndex).state = .runnable := by
    apply hrun
    rw [val_nextIndex hpos]
    exact Nat.mod_lt _ hpos
  have hne : (s.taskCount == 0) = false := by
    rw [beq_eq_false_iff_ne]
    exact hpos.ne'
  have hsteps : ∀ n, 0 < n →
      advanceSteps n s = { s with currentIndex := s.nextIndex, sliceProgress := 0 } := by
    intro n hn
    cases n with
    | zero => exact absurd hn (Nat.lt_irrefl 0)
    | succ n => simp only [advanceSteps, hnext, beq_self_eq_true, if_true]
  rw [advanceToNextRunnable, hne, if_neg (by decide), hsteps _ hpos]

theorem runnableCountNow_ne_zero (hinv : SchedInv s) (hpos : 0 < s.taskCount) :
    runnableCountNow s ≠ 0 := by
  rw [runnableCountNow, countSlots, ← Nat.pos_iff_ne_zero, List.countP_pos_iff]
  refine ⟨s.currentIndex, List.mem_finRange _, ?_⟩
  have hlt := hinv.index_lt hpos
  simp [hlt, hinv.runnable _ hlt]

end Advance

/-! ## What a tick leaves alone -/

theorem advanceSteps_frame (n : Nat) : ∀ s : SchedState,
    ∃ i p, advanceSteps n s = { s with currentIndex := i, sliceProgress := p } := by
  induction n with
  | zero => exact fun s => ⟨s.currentIndex, s.sliceProgress, rfl⟩
  | succ n ih =>
      intro s
      unfold advanceSteps
      simp only
      split
      · exact ⟨s.nextIndex, 0, rfl⟩
      · obtain ⟨i, p, hsteps⟩ := ih { s with currentIndex := s.nextIndex }
        exact ⟨i, p, hsteps⟩

theorem advanceToNextRunnable_frame (s : SchedState) :
    ∃ i p, advanceToNextRunnable s = { s with currentIndex := i, sliceProgress := p } := by
  unfold advanceToNextRunnable
  split
  · exact ⟨s.currentIndex, s.sliceProgress, rfl⟩
  · exact advanceSteps_frame s.taskCount s

/-- A tick counts, charges at most one task and moves the rotation. -/
theorem schedulerOnTimerTick_frame (s : SchedState) :
    ∃ tasks i p, schedulerOnTimerTick s =
        { s with
          tasks := tasks, currentIndex := i, totalTicks := s.totalTicks + 1,
          sliceProgress := p } ∧
      ∀ j, (tasks j).id = (s.tasks j).id ∧ (tasks j).name = (s.tasks j).name := by
  have hcharge : ∀ i j : Fin schedMaxTasks,
      (Function.update s.tasks i (s.tasks i).charge j).id = (s.tasks j).id ∧
        (Function.update s.tasks i (s.tasks i).charge j).name = (s.tasks j).name := by
    intro i j
    by_cases hj : j = i
    · rw [hj, Function.update_self]
      exact ⟨rfl, rfl⟩
    · rw [Function.update_of_ne hj]
      exact ⟨rfl, rfl⟩
  unfold schedulerOnTimerTick
  simp only
  split
  · exact ⟨s.tasks, s.currentIndex, s.sliceProgress, rfl, fun _ => ⟨rfl, rfl⟩⟩
  · -- the task that is charged, after the search for a runnable one
    obtain ⟨i, p, hstart⟩ : ∃ i p,
        (if ((s.tasks s.currentIndex).state != .runnable) = true then
          advanceToNextRunnable { s with totalTicks := s.totalTicks + 1 }
        else { s with totalTicks := s.totalTicks + 1 }) =
          { s with currentIndex := i, totalTicks := s.totalTicks + 1, sliceProgress := p } := by
      split
      · exact advanceToNextRunnable_frame _
      · exact ⟨s.currentIndex, s.sliceProgress, rfl⟩
    rw [hstart]
    simp only
    split
    · obtain ⟨i', p', hend⟩ := advanceToNextRunnable_frame
        { s with
          tasks := Function.update s.tasks i (s.tasks i).charge, currentIndex := i,
          totalTicks := s.totalTicks + 1, sliceProgress := p + 1 }
      exact ⟨_, i', p', hend, hcharge i⟩
    · exact ⟨_, i, p + 1, rfl, hcharge i⟩

/-! ## One tick -/

/-- What a tick does to a scheduler with tasks. -/
structure Ticked (s t : SchedState) : Prop where
  taskCount_eq : t.taskCount = s.taskCount
  tasks_eq : t.tasks =
    Function.update s.tasks s.currentIndex (s.tasks s.currentIndex).charge
  phase_eq : t.phase = Phase.tick s.taskCount (sliceLength s) s.phase

theorem schedulerOnTimerTick_ticked {s : SchedState} (hinv : SchedInv s)
    (hpos : 0 < s.taskCount) : Ticked s (schedulerOnTimerTick s) := by
  have hlt := hinv.index_lt hpos
  have hprogress := hinv.progress_lt hpos
  have hbound := (s.tasks s.currentIndex).timeSliceTicks.toNat_lt
  have hnext : (s.sliceProgress + 1).toNat = s.sliceProgress.toNat + 1 := by
    rw [UInt32.toNat_add]
    exact Nat.mod_eq_of_lt (by simp only [UInt32.toNat_one]; omega)
  have hbusy : (s.taskCount == 0 ||
      runnableCountNow { s with totalTicks := s.totalTicks + 1 } == 0) = false := by
    have hcount : runnableCountNow { s with totalTicks := s.totalTicks + 1 } =
        runnableCountNow s := rfl
    rw [hcount, Bool.or_eq_false_iff, beq_eq_false_iff_ne, beq_eq_false_iff_ne]
    exact ⟨hpos.ne', runnableCountNow_ne_zero hinv hpos⟩
  have hstay : ((s.tasks s.currentIndex).state != .runnable) = false := by
    rw [hinv.runnable _ hlt]
    decide
  -- the charge keeps every task runnable
  have hrun : ∀ i, i.val < s.taskCount →
      (Function.update s.tasks s.currentIndex (s.tasks s.currentIndex).charge i).state =
        .runnable := by
    intro i hi
    by_cases hic : i = s.currentIndex
    · rw [hic, Function.update_self]
      exact hinv.runnable _ hlt
    · rw [Function.update_of_ne hic]
      exact hinv.runnable _ hi
  have hslice : sliceLength s s.currentIndex.val =
      (s.tasks s.currentIndex).timeSliceTicks.toNat := sliceLength_val s _
  have hcharge : (s.tasks s.currentIndex).charge.timeSliceTicks =
      (s.tasks s.currentIndex).timeSliceTicks := rfl
  unfold schedulerOnTimerTick
  simp only [hbusy, hstay, Bool.false_eq_true, if_false, Function.update_self]
  by_cases hlast : s.sliceProgress + 1 ≥ (s.tasks s.currentIndex).timeSliceTicks
  · rw [hcharge, if_pos hlast]
    rw [advanceToNextRunnable_of_runnable (by exact hpos) (by exact hrun)]
    refine ⟨rfl, rfl, ?_⟩
    have hle : ¬ s.sliceProgress.toNat + 1 < sliceLength s s.currentIndex.val := by
      rw [ge_iff_le, UInt32.le_iff_toNat_le, hnext] at hlast
      omega
    rw [SchedState.phase, SchedState.phase, Phase.tick, if_neg hle]
    exact congrArg (Phase.mk · 0) (val_nextIndex (s := s) hpos)
  · rw [hcharge, if_neg hlast]
    refine ⟨rfl, rfl, ?_⟩
    have hlt' : s.sliceProgress.toNat + 1 < sliceLength s s.currentIndex.val := by
      rw [ge_iff_le, UInt32.le_iff_toNat_le, hnext] at hlast
      omega
    rw [SchedState.phase, SchedState.phase, Phase.tick, if_pos hlt', hnext]

namespace Ticked

variable {s t : SchedState}

theorem timeSliceTicks_eq (h : Ticked s t) (i : Fin schedMaxTasks) :
    (t.tasks i).timeSliceTicks = (s.tasks i).timeSliceTicks := by
  rw [h.tasks_eq]
  by_cases hi : i = s.currentIndex
  · rw [hi, Function.update_self]
    rfl
  · rw [Function.update_of_ne hi]

theorem sliceLength_eq (h : Ticked s t) : sliceLength t = sliceLength s := by
  ext i : 1
  unfold sliceLength
  split
  · rw [h.timeSliceTicks_eq]
  · rfl

theorem state_eq (h : Ticked s t) (i : Fin schedMaxTasks) :
    (t.tasks i).state = (s.tasks i).state := by
  rw [h.tasks_eq]
  by_cases hi : i = s.currentIndex
  · rw [hi, Function.update_self]
    rfl
  · rw [Function.update_of_ne hi]

theorem ticksSeen_eq (h : Ticked s t) (i : Fin schedMaxTasks) :
    (t.tasks i).ticksSeen =
      (s.tasks i).ticksSeen + UInt64.ofNat (if s.currentIndex.val = i.val then 1 else 0) := by
  rw [h.tasks_eq]
  by_cases hi : i = s.currentIndex
  · rw [hi, Function.update_self, if_pos rfl]
    rfl
  · rw [Function.update_of_ne hi, if_neg (fun heq => hi (Fin.ext heq.symm))]
    simp

theorem inv (h : Ticked s t) (hinv : SchedInv s) (hpos : 0 < s.taskCount) : SchedInv t := by
  have hcurrent : t.currentIndex.val =
      (Phase.tick s.taskCount (sliceLength s) s.phase).slot := congrArg Phase.slot h.phase_eq
  have hnow : t.sliceProgress.toNat =
      (Phase.tick s.taskCount (sliceLength s) s.phase).progress :=
    congrArg Phase.progress h.phase_eq
  have hlt := hinv.index_lt hpos
  have hmod : (s.currentIndex.val + 1) % s.taskCount < s.taskCount := Nat.mod_lt _ hpos
  have hslot : t.currentIndex.val < s.taskCount := by
    rw [hcurrent, Phase.tick]
    split
    · exact hlt
    · exact hmod
  refine
    { runnable := fun i hi => ?_
      slice_pos := fun i hi => ?_
      index_lt := fun _ => by rw [h.taskCount_eq]; exact hslot
      progress_lt := fun _ => ?_
      idle := fun hzero => absurd (h.taskCount_eq.symm.trans hzero) hpos.ne' }
  · rw [h.state_eq]
    rw [h.taskCount_eq] at hi
    exact hinv.runnable i hi
  · rw [h.timeSliceTicks_eq]
    rw [h.taskCount_eq] at hi
    exact hinv.slice_pos i hi
  · rw [h.timeSliceTicks_eq, hnow, ← sliceLength_val, hcurrent, Phase.tick]
    split
    · assumption
    · have hpos' : 0 < sliceLength s s.nextIndex.val := by
        rw [sliceLength_val]
        apply hinv.slice_pos
        rw [val_nextIndex hpos]
        exact hmod
      rw [val_nextIndex hpos] at hpos'
      exact hpos'

end Ticked

/-! ## The invariant -/

theorem SchedInv.of_init : SchedInv schedulerInit where
  runnable _ hi := absurd hi (Nat.not_lt_zero _)
  slice_pos _ hi := absurd hi (Nat.not_lt_zero _)
  index_lt hpos := absurd hpos (Nat.lt_irrefl 0)
  progress_lt hpos := absurd hpos (Nat.lt_irrefl 0)
  idle _ := ⟨rfl, rfl⟩

theorem schedulerOnTimerTick_of_idle {s : SchedState} (hzero : s.taskCount = 0) :
    schedulerOnTimerTick s = { s with totalTicks := s.totalTicks + 1 } := by
  simp [schedulerOnTimerTick, hzero]

/-- A slice of no ticks is registered as one tick. -/
theorem registered_slice_pos (timeSliceTicks : UInt32) :
    0 < (if timeSliceTicks == 0 then 1 else timeSliceTicks).toNat := by
  split
  · decide
  · next hne =>
      rw [Nat.pos_iff_ne_zero]
      intro hzero
      apply hne
      rw [beq_iff_eq, ← UInt32.toNat_inj, hzero]
      rfl

section Register

variable {s : SchedState}

/-- An assignment to `*task`. -/
def SchedState.setTask (s : SchedState) (i : Fin schedMaxTasks) (t : SchedTaskInfo) : SchedState :=
  { s with tasks := Function.update s.tasks i t }

theorem setTask_self (i : Fin schedMaxTasks) (t : SchedTaskInfo) : (s.setTask i t).tasks i = t :=
  Function.update_self ..

theorem setTask_of_lt {i j : Fin schedMaxTasks} (hi : s.taskCount ≤ i.val)
    (hj : j.val < s.taskCount) (t : SchedTaskInfo) : (s.setTask i t).tasks j = s.tasks j := by
  apply Function.update_of_ne
  rintro rfl
  omega

theorem SchedInv.setTask (h : SchedInv s) {i : Fin schedMaxTasks} (hi : s.taskCount ≤ i.val)
    (t : SchedTaskInfo) : SchedInv (s.setTask i t) where
  runnable j hj := by
    rw [setTask_of_lt hi hj]
    exact h.runnable j hj
  slice_pos j hj := by
    rw [setTask_of_lt hi hj]
    exact h.slice_pos j hj
  index_lt := h.index_lt
  progress_lt hpos := by
    show _ < ((s.setTask i t).tasks s.currentIndex).timeSliceTicks.toNat
    rw [setTask_of_lt hi (h.index_lt hpos)]
    exact h.progress_lt hpos
  idle := h.idle

/-- The count includes one more slot. -/
def SchedState.grow (s : SchedState) (h : s.taskCount < schedMaxTasks) : SchedState :=
  { s with taskCount := s.taskCount + 1, count_le := h }

theorem SchedInv.grow (h : SchedInv s) (hroom : s.taskCount < schedMaxTasks)
    (hstate : (s.tasks ⟨s.taskCount, hroom⟩).state = .runnable)
    (hslice : 0 < (s.tasks ⟨s.taskCount, hroom⟩).timeSliceTicks.toNat) :
    SchedInv (s.grow hroom) := by
  have hlast : ∀ i : Fin schedMaxTasks, i.val < s.taskCount + 1 → ¬ i.val < s.taskCount →
      i = ⟨s.taskCount, hroom⟩ := fun i hi hlt => Fin.ext (by simp only; omega)
  refine
    { runnable := fun i hi => ?_
      slice_pos := fun i hi => ?_
      index_lt := fun _ => ?_
      progress_lt := fun _ => ?_
      idle := fun hzero => absurd hzero (Nat.succ_ne_zero _) }
  · by_cases hlt : i.val < s.taskCount
    · exact h.runnable i hlt
    · rw [hlast i hi hlt]
      exact hstate
  · by_cases hlt : i.val < s.taskCount
    · exact h.slice_pos i hlt
    · rw [hlast i hi hlt]
      exact hslice
  · show s.currentIndex.val < s.taskCount + 1
    by_cases hpos : 0 < s.taskCount
    · have hindex := h.index_lt hpos
      omega
    · rw [(h.idle (by omega)).1]
      exact Nat.succ_pos _
  · show s.sliceProgress.toNat < (s.tasks s.currentIndex).timeSliceTicks.toNat
    by_cases hpos : 0 < s.taskCount
    · exact h.progress_lt hpos
    · -- the first task becomes the current one
      obtain ⟨hindex, hprogress⟩ := h.idle (by omega)
      have hfirst : s.currentIndex = ⟨s.taskCount, hroom⟩ := by
        apply Fin.ext
        rw [hindex]
        simp only [Fin.val_zero]
        omega
      rw [hprogress, hfirst]
      exact hslice

theorem SchedInv.register (h : SchedInv s) (hroom : s.taskCount < schedMaxTasks) (t : SchedTaskInfo)
    (hstate : t.state = .runnable) (hslice : 0 < t.timeSliceTicks.toNat) :
    SchedInv ((s.setTask ⟨s.taskCount, hroom⟩ t).grow hroom) := by
  apply (h.setTask (Nat.le_refl s.taskCount) t).grow hroom
  · show ((s.setTask ⟨s.taskCount, hroom⟩ t).tasks ⟨s.taskCount, hroom⟩).state = _
    rw [setTask_self]
    exact hstate
  · show 0 < ((s.setTask ⟨s.taskCount, hroom⟩ t).tasks ⟨s.taskCount, hroom⟩).timeSliceTicks.toNat
    rw [setTask_self]
    exact hslice

theorem SchedInv.registerTask (hinv : SchedInv s) (name : Option CString)
    (timeSliceTicks : UInt32) : SchedInv (schedulerRegisterTask s name timeSliceTicks).1 := by
  unfold schedulerRegisterTask
  split
  · next hroom =>
      have hgrown := hinv.register hroom
        ⟨s.nextTaskId, name, .runnable, 0, if timeSliceTicks == 0 then 1 else timeSliceTicks⟩ rfl
        (registered_slice_pos timeSliceTicks)
      exact ⟨hgrown.runnable, hgrown.slice_pos, hgrown.index_lt, hgrown.progress_lt, hgrown.idle⟩
  · exact hinv

end Register

theorem SchedInv.onTimerTick {s : SchedState} (hinv : SchedInv s) :
    SchedInv (schedulerOnTimerTick s) := by
  by_cases hpos : 0 < s.taskCount
  · exact (schedulerOnTimerTick_ticked hinv hpos).inv hinv hpos
  · rw [schedulerOnTimerTick_of_idle (by omega)]
    exact ⟨hinv.runnable, hinv.slice_pos, hinv.index_lt, hinv.progress_lt, hinv.idle⟩

theorem SchedReachable.inv {s : SchedState} (h : SchedReachable s) : SchedInv s := by
  apply h.invariant
  · rintro _ rfl
    exact .of_init
  · intro s c hinv _
    cases c with
    | registerTask name timeSliceTicks => exact hinv.registerTask name timeSliceTicks
    | onTimerTick => exact hinv.onTimerTick

/-! ## Stretches of ticks -/

/-- After `k` ticks the rotation has moved on by `k`, and every task has been charged as
often as its slot was served. -/
theorem schedulerOnTimerTick_iterate {s : SchedState} (hinv : SchedInv s)
    (hpos : 0 < s.taskCount) (k : Nat) :
    SchedInv (schedulerOnTimerTick^[k] s) ∧
      (schedulerOnTimerTick^[k] s).taskCount = s.taskCount ∧
      sliceLength (schedulerOnTimerTick^[k] s) = sliceLength s ∧
      (schedulerOnTimerTick^[k] s).phase =
        (Phase.tick s.taskCount (sliceLength s))^[k] s.phase ∧
      ∀ i, ((schedulerOnTimerTick^[k] s).tasks i).ticksSeen = (s.tasks i).ticksSeen +
        UInt64.ofNat (Phase.served s.taskCount (sliceLength s) k s.phase i.val) := by
  induction k with
  | zero => exact ⟨hinv, rfl, rfl, rfl, fun i => by simp [Phase.served]⟩
  | succ k ih =>
      obtain ⟨hinv', hcount, hlen, hphase, hseen⟩ := ih
      have hticked := schedulerOnTimerTick_ticked hinv' (by rw [hcount]; exact hpos)
      rw [Function.iterate_succ_apply', Function.iterate_succ_apply']
      refine ⟨hinv'.onTimerTick, hticked.taskCount_eq.trans hcount,
        hticked.sliceLength_eq.trans hlen, ?_, ?_⟩
      · rw [hticked.phase_eq, hcount, hlen, hphase]
      · intro i
        have hslot : (schedulerOnTimerTick^[k] s).currentIndex.val =
            ((Phase.tick s.taskCount (sliceLength s))^[k] s.phase).slot :=
          congrArg Phase.slot hphase
        have hserved : Phase.served s.taskCount (sliceLength s) (k + 1) s.phase i.val =
            Phase.served s.taskCount (sliceLength s) k s.phase i.val +
              if ((Phase.tick s.taskCount (sliceLength s))^[k] s.phase).slot = i.val then 1
              else 0 := visits_succ _ _ _ _
        rw [hticked.ticksSeen_eq, hseen, hslot, hserved, UInt64.ofNat_add, UInt64.add_assoc]

/-- From any reachable state, over as many ticks as all slices together, every task is
charged for exactly its own slice. -/
theorem ticksSeen_of_turn {s : SchedState} (h : SchedReachable s) {i : Fin schedMaxTasks}
    (hi : i.val < s.taskCount) :
    ((schedulerOnTimerTick^[turnTicks s] s).tasks i).ticksSeen =
      (s.tasks i).ticksSeen + (s.tasks i).timeSliceTicks.toUInt64 := by
  have hinv := h.inv
  have hpos : 0 < s.taskCount := by omega
  have hlen : ∀ j < s.taskCount, 0 < sliceLength s j := by
    intro j hj
    have hpos' := hinv.slice_pos ⟨j, hj.trans_le s.count_le⟩ hj
    rwa [← sliceLength_val] at hpos'
  have hprogress : s.phase.progress < sliceLength s s.phase.slot := by
    show s.sliceProgress.toNat < sliceLength s s.currentIndex.val
    rw [sliceLength_val]
    exact hinv.progress_lt hpos
  obtain ⟨-, -, -, -, hseen⟩ := schedulerOnTimerTick_iterate hinv hpos (turnTicks s)
  rw [hseen, turnTicks, Phase.served_turn hlen (hinv.index_lt hpos) hprogress hi,
    sliceLength_val]
  congr 1
  rw [← UInt64.toNat_inj, UInt64.toNat_ofNat', UInt32.toNat_toUInt64]
  have hbound := (s.tasks i).timeSliceTicks.toNat_lt
  exact Nat.mod_eq_of_lt (by omega)

/-- Two tasks with slices of 2 and 3, the stretch beginning in the middle of a slice. -/
def schedTwoTasks : SchedState :=
  runSteps schedStep schedulerInit
    [.registerTask none 2, .onTimerTick, .registerTask none 3]

theorem schedReachable_twoTasks : SchedReachable schedTwoTasks :=
  Reach.runSteps _ (.start rfl) (by decide +kernel)

theorem ticksSeen_of_turn_twoTasks :
    ((schedulerOnTimerTick^[turnTicks schedTwoTasks] schedTwoTasks).tasks 1).ticksSeen =
      (schedTwoTasks.tasks 1).ticksSeen +
        (schedTwoTasks.tasks 1).timeSliceTicks.toUInt64 :=
  ticksSeen_of_turn schedReachable_twoTasks (by decide +kernel)

end AcharyaOS.Scheduler
