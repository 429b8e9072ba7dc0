import AcharyaOS.Foundation.Ring
import AcharyaOS.Foundation.Run
import AcharyaOS.Log.Code

/-!
# The log as a list of accepted entries

What the log is for: remembering, in order, what was accepted since the last
initialisation.  The ring keeps the last 64 of these entries and counts the rest.
-/

namespace AcharyaOS.Log

open Foundation Foundation.Run

/-- An entry as the caller of `log_write` gave it, its message cut to the field. -/
structure LogRecord where
  tick : UInt64
  level : LogLevel
  text : List UInt8

/-- The unbounded log: the minimum level and the entries accepted since `log_init`. -/
structure LogHistory where
  minimumLevel : LogLevel
  accepted : List LogRecord

namespace LogHistory

def empty : LogHistory := ⟨logInfo, []⟩

def step (g : LogHistory) : LogCall → LogHistory
  | .init => empty
  | .setMinimumLevel level => { g with minimumLevel := level }
  | .write tick level message =>
      if level < g.minimumLevel then g
      else { g with
        accepted := g.accepted ++ [⟨tick, level, message.bytes.take (logMessageMax - 1)⟩] }

end LogHistory

/-- What a reader makes of an entry: its message is the text up to the terminator. -/
def LogEntry.record (e : LogEntry) : LogRecord := ⟨e.tick, e.level, cText e.message.toList⟩

theorem record_fill (e : LogEntry) (tick : UInt64) (level : LogLevel) (message : CString) :
    (e.fill tick level message).record =
      ⟨tick, level, message.bytes.take (logMessageMax - 1)⟩ := by
  have htext := cText_boundedCopy e.message.toList message.bytes message.no_nul
  rw [Bytes.length_toList] at htext
  exact congrArg (LogRecord.mk tick level) htext

theorem logStoreEntry_fields (s : LogState) (tick : UInt64) (level : LogLevel)
    (message : CString) :
    (logStoreEntry s tick level message).buffer =
        Function.update s.buffer s.head ((s.buffer s.head).fill tick level message) ∧
      (logStoreEntry s tick level message).head.val = (s.head.val + 1) % logBufferMax ∧
      (logStoreEntry s tick level message).count = min (s.count + 1) logBufferMax ∧
      (logStoreEntry s tick level message).total = s.total + 1 ∧
      (logStoreEntry s tick level message).dropped =
        (if s.count < logBufferMax then s.dropped else s.dropped + 1) ∧
      (logStoreEntry s tick level message).minimumLevel = s.minimumLevel := by
  have hle := s.count_le
  by_cases hroom : s.count < logBufferMax
  · simp only [logStoreEntry, hroom, dite_true, if_true, true_and, and_true]
    omega
  · simp only [logStoreEntry, hroom, dite_false, if_false, true_and, and_true]
    omega

theorem logWrite_minimumLevel (s : LogState) (tick : UInt64) (level : LogLevel)
    (message : CString) : (logWrite s tick level message).minimumLevel = s.minimumLevel := by
  unfold logWrite
  split
  · rfl
  · exact (logStoreEntry_fields s tick level message).2.2.2.2.2

theorem logBufferMax_pos : 0 < logBufferMax := by decide

/-- The ring stands for the history. -/
structure LogRefines (s : LogState) (g : LogHistory) : Prop where
  minimumLevel_eq : s.minimumLevel = g.minimumLevel
  ring : Ring.Holds logBufferMax_pos (fun i => (s.buffer i).record) s.head g.accepted
  count_eq : s.count = min g.accepted.length logBufferMax
  total_eq : s.total = UInt32.ofNat g.accepted.length
  dropped_eq : s.dropped = UInt32.ofNat (g.accepted.length - logBufferMax)

namespace LogRefines

variable {s : LogState} {g : LogHistory}

theorem init (s : LogState) : LogRefines (logInit s) .empty where
  minimumLevel_eq := rfl
  ring := .nil _ _ _
  count_eq := rfl
  total_eq := rfl
  dropped_eq := rfl

theorem boot : LogRefines logBoot .empty where
  minimumLevel_eq := rfl
  ring := .nil _ _ _
  count_eq := rfl
  total_eq := rfl
  dropped_eq := rfl

theorem storeEntry (h : LogRefines s g) (tick : UInt64) (level : LogLevel)
    (message : CString) :
    LogRefines (logStoreEntry s tick level message)
      { g with accepted :=
          g.accepted ++ [⟨tick, level, message.bytes.take (logMessageMax - 1)⟩] } := by
  obtain ⟨hbuffer, hhead, hcount, htotal, hdropped, hlevel⟩ :=
    logStoreEntry_fields s tick level message
  have hlen : ∀ r, (g.accepted ++ [r]).length = g.accepted.length + 1 := by
    intro r
    rw [List.length_append, List.length_singleton]
  have hold := h.count_eq
  refine
    { minimumLevel_eq := hlevel.trans h.minimumLevel_eq
      ring := ?_
      count_eq := ?_
      total_eq := ?_
      dropped_eq := ?_ }
  · have hring := h.ring.push s.head.isLt
      ((s.buffer s.head).fill tick level message).record
    rw [record_fill] at hring
    have hrecords : (fun i => ((logStoreEntry s tick level message).buffer i).record) =
        Function.update (fun i => (s.buffer i).record) s.head
          ⟨tick, level, message.bytes.take (logMessageMax - 1)⟩ := by
      rw [hbuffer, ← record_fill (s.buffer s.head)]
      exact funext fun i => Function.apply_update (fun _ => LogEntry.record) _ _ _ i
    rw [hrecords, hhead]
    exact hring
  · rw [hlen, hcount]
    omega
  · rw [hlen, htotal, h.total_eq, UInt32.ofNat_add]
    rfl
  · rw [hlen, hdropped, h.dropped_eq]
    by_cases hroom : s.count < logBufferMax
    · rw [if_pos hroom]
      congr 1
      omega
    · have hone : g.accepted.length + 1 - logBufferMax =
          g.accepted.length - logBufferMax + 1 := by omega
      rw [if_neg hroom, hone, UInt32.ofNat_add]
      rfl

theorem step (h : LogRefines s g) (c : LogCall) : LogRefines (logStep s c) (g.step c) := by
  cases c with
  | init => exact .init s
  | setMinimumLevel level => exact { h with minimumLevel_eq := rfl }
  | write tick level message =>
      simp only [logStep, logWrite, LogHistory.step, h.minimumLevel_eq]
      split
      · exact h
      · exact h.storeEntry tick level message

/-! ## Reading the log -/

theorem logCopyEntries_eq_recent (s : LogState) (maxEntries : Nat) :
    (logCopyEntries s maxEntries).map LogEntry.record =
      (Ring.recent logBufferMax_pos (fun i => (s.buffer i).record) s.head s.count).take
        maxEntries := by
  have hslot : ∀ j, logSlot ((s.head + logBufferMax - s.count) % logBufferMax + j) =
      Ring.slotAt logBufferMax_pos (s.head + logBufferMax - s.count + j) :=
    fun j => Fin.ext (Nat.mod_add_mod _ _ _)
  simp only [logCopyEntries, Ring.recent, hslot, List.map_map, ← List.map_take,
    List.take_range, Nat.min_comm]
  rfl

theorem copyEntries (h : LogRefines s g) (maxEntries : Nat) :
    (logCopyEntries s maxEntries).map LogEntry.record =
      (g.accepted.rtake logBufferMax).take maxEntries := by
  rw [logCopyEntries_eq_recent, h.count_eq,
    h.ring _ (Nat.min_le_left _ _) (Nat.min_le_right _ _), Ring.rtake_min_length]

theorem stats (h : LogRefines s g) :
    (logGetStats s).storedEntries = UInt32.ofNat (min g.accepted.length logBufferMax) ∧
      (logGetStats s).totalEntries =
        (logGetStats s).storedEntries + (logGetStats s).droppedEntries := by
  have hsum : g.accepted.length =
      min g.accepted.length logBufferMax + (g.accepted.length - logBufferMax) := by
    omega
  simp only [logGetStats, h.total_eq, h.dropped_eq, h.count_eq, true_and]
  rw [← UInt32.ofNat_add, ← hsum]

end LogRefines

/-- After any calls, for any array size, the log returns the first of the last 64 accepted
entries in the order of their acceptance, and its counters add up. -/
theorem logCopyEntries_run (calls : List LogCall) (maxEntries : Nat) :
    (logCopyEntries (runSteps logStep logBoot calls) maxEntries).map LogEntry.record =
        ((runSteps LogHistory.step .empty calls).accepted.rtake logBufferMax).take maxEntries ∧
      (logGetStats (runSteps logStep logBoot calls)).storedEntries =
        UInt32.ofNat
          (min (runSteps LogHistory.step .empty calls).accepted.length logBufferMax) ∧
      (logGetStats (runSteps logStep logBoot calls)).totalEntries =
        (logGetStats (runSteps logStep logBoot calls)).storedEntries +
          (logGetStats (runSteps logStep logBoot calls)).droppedEntries := by
  have h : LogRefines (runSteps logStep logBoot calls)
      (runSteps LogHistory.step .empty calls) :=
    sim_runSteps (R := LogRefines) (fun _ _ c h => h.step c) calls _ _ .boot
  exact ⟨h.copyEntries maxEntries, h.stats⟩

end AcharyaOS.Log
