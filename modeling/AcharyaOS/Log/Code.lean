import AcharyaOS.Foundation.CString
import AcharyaOS.Foundation.Packed
import Mathlib.Logic.Function.Basic

/-!
# The kernel log

The functions of `kernel/debug/log.c` on its ring of entries.  Formatting happens
before `log_write` and printing has no effect on the ring.
-/

namespace AcharyaOS.Log

open Foundation

abbrev logBufferMax : Nat := 64

abbrev logMessageMax : Nat := 128

/-- `log_level_t`, an unsigned integer to the comparison in `log_write`. -/
abbrev LogLevel := UInt32

def logInfo : LogLevel := 2

/-- `log_entry_t`. -/
structure LogEntry where
  tick : UInt64
  level : LogLevel
  message : Bytes logMessageMax
  deriving DecidableEq

/-- The static variables of `log.c`.  The head is always a slot of the ring and the count
at most their number. -/
structure LogState where
  buffer : Fin logBufferMax → LogEntry
  head : Fin logBufferMax
  count : Nat
  count_le : count ≤ logBufferMax
  total : UInt32
  dropped : UInt32
  minimumLevel : LogLevel

/-- The static variables before `log_init`. -/
def logBoot : LogState where
  buffer := fun _ => ⟨0, 0, .zero _⟩
  head := 0
  count := 0
  count_le := Nat.zero_le _
  total := 0
  dropped := 0
  minimumLevel := logInfo

def logInit (s : LogState) : LogState :=
  { s with
    head := 0
    count := 0
    count_le := Nat.zero_le _
    total := 0
    dropped := 0
    minimumLevel := logInfo }

def logSetMinimumLevel (s : LogState) (level : LogLevel) : LogState :=
  { s with minimumLevel := level }

/-- The assignments by which `log_store_entry` fills an entry. -/
def LogEntry.fill (e : LogEntry) (tick : UInt64) (level : LogLevel) (message : CString) :
    LogEntry :=
  ⟨tick, level, ⟨boundedCopy e.message.toList message.bytes, by simp⟩⟩

/-- `log_store_entry`, `tick` being the value of `timer_get_ticks()`. -/
def logStoreEntry (s : LogState) (tick : UInt64) (level : LogLevel) (message : CString) :
    LogState :=
  let entry := (s.buffer s.head).fill tick level message
  let s : LogState :=
    if h : s.count < logBufferMax then { s with count := s.count + 1, count_le := h }
    else { s with dropped := s.dropped + 1 }
  { s with
    buffer := Function.update s.buffer s.head entry
    head := ⟨(s.head + 1) % logBufferMax, Nat.mod_lt _ (by decide)⟩
    total := s.total + 1 }

def logWrite (s : LogState) (tick : UInt64) (level : LogLevel) (message : CString) :
    LogState :=
  if level < s.minimumLevel then s else logStoreEntry s tick level message

/-- Slot `i` of the ring, for any `i`. -/
def logSlot (i : Nat) : Fin logBufferMax := ⟨i % logBufferMax, Nat.mod_lt _ (by decide)⟩

/-- `log_copy_entries(out, max_entries)` with a non-null array: the entries copied. -/
def logCopyEntries (s : LogState) (maxEntries : Nat) : List LogEntry :=
  let start := (s.head + logBufferMax - s.count) % logBufferMax
  (List.range (min s.count maxEntries)).map fun copied => s.buffer (logSlot (start + copied))

/-- `log_stats_t`. -/
structure LogStats where
  totalEntries : UInt32
  storedEntries : UInt32
  droppedEntries : UInt32
  minimumLevel : LogLevel

def logGetStats (s : LogState) : LogStats :=
  ⟨s.total, UInt32.ofNat s.count, s.dropped, s.minimumLevel⟩

/-- A call into the logger; a write comes with the timer's tick. -/
inductive LogCall
  | init
  | setMinimumLevel (level : LogLevel)
  | write (tick : UInt64) (level : LogLevel) (message : CString)

def logStep (s : LogState) : LogCall → LogState
  | .init => logInit s
  | .setMinimumLevel level => logSetMinimumLevel s level
  | .write tick level message => logWrite s tick level message

/-- `log_level_name` -/
def logLevelName (level : LogLevel) : String :=
  if level = 0 then "trace"
  else if level = 1 then "debug"
  else if level = 2 then "info"
  else if level = 3 then "warn"
  else if level = 4 then "error"
  else if level = 5 then "panic"
  else "unknown"

end AcharyaOS.Log
