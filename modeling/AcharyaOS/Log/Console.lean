import AcharyaOS.Kio.Format
import AcharyaOS.Log.Code

/-!
# The log on the console

What `log_write` prints, besides the entry that it stores.
-/

namespace AcharyaOS.Log

open Foundation Kio

def logPanic : LogLevel := 5

def logLevelLetter (level : LogLevel) : UInt8 :=
  if level = 0 then 'T'.toUInt8
  else if level = 1 then 'D'.toUInt8
  else if level = 2 then 'I'.toUInt8
  else if level = 3 then 'W'.toUInt8
  else if level = 4 then 'E'.toUInt8
  else if level = 5 then 'P'.toUInt8
  else '?'.toUInt8

/-- The calls of `kprintf` in `log_write`, which reads the timer a second time for them. -/
def logWritePrints (minimumLevel : LogLevel) (tick : UInt64) (level : LogLevel)
    (message : CString) : List (String × List FormatArg) :=
  if level < minimumLevel then []
  else
    [("[%c][%d] %s\n",
      [.word (logLevelLetter level).toUInt32, .word tick.toUInt32, .str message])]

end AcharyaOS.Log
