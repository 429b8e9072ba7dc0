import AcharyaOS.Foundation.Field

/-!
# Printing

`kprintf` of `kernel/lib/kio.c` and its helpers.  What they print is the list of the
characters passed to `kputchar`.
-/

namespace AcharyaOS.Kio

open Foundation

/-- An argument behind the format: a string, or one of the types that take 32 bits. -/
inductive FormatArg
  | str (s : CString)
  | word (x : UInt32)

/-- `va_arg(args, const char *)`, and the arguments that are left.  Where the next argument
is not of that type the behaviour is undefined. -/
def vaArgStr : List FormatArg → Option (CString × List FormatArg)
  | .str s :: args => some (s, args)
  | _ => none

/-- `va_arg` with `int`, `int32_t` or `uint32_t`. -/
def vaArgWord : List FormatArg → Option (UInt32 × List FormatArg)
  | .word x :: args => some (x, args)
  | _ => none

def kputs (str : CString) : List UInt8 := str.bytes

/-- The character of a digit. -/
def kprintDigit (digit : UInt32) (uppercase : Bool) : UInt8 :=
  if digit < 10 then '0'.toUInt8 + digit.toUInt8
  else (if uppercase then 'A'.toUInt8 else 'a'.toUInt8) + (digit - 10).toUInt8

/-- What the loop of `kprint_uint` puts into `buffer`, of which `room` bytes are left; `none`
where it leaves the array. -/
def kprintDigits (base : UInt32) (uppercase : Bool) : Nat → UInt32 → Option (List UInt8)
  | 0, value => if value > 0 then none else some []
  | room + 1, value =>
    if value > 0 then
      (kprintDigits base uppercase room (value / base)).map
        (kprintDigit (value % base) uppercase :: ·)
    else some []

/-- `kprint_uint`, whose callers pass 10 or 16 as the base. -/
def kprintUint (value base : UInt32) (uppercase : Bool) : Option (List UInt8) :=
  if value = 0 then some ['0'.toUInt8]
  else (kprintDigits base uppercase 32 value).map List.reverse

def kprintInt (value : Int32) : Option (List UInt8) :=
  if value < 0 then
    (kprintUint (-value.toInt64).toUInt64.toUInt32 10 false).map ('-'.toUInt8 :: ·)
  else kprintUint value.toUInt32 10 false

/-- The cases of the `switch` in `kprintf` other than the terminator. -/
def kprintfSwitch (c : UInt8) (args : List FormatArg) :
    Option (List UInt8 × List FormatArg) :=
  if c = 's'.toUInt8 then do
    let (s, args) ← vaArgStr args
    return (kputs s, args)
  else if c = 'd'.toUInt8 then do
    let (v, args) ← vaArgWord args
    let out ← kprintInt v.toInt32
    return (out, args)
  else if c = 'x'.toUInt8 then do
    let (v, args) ← vaArgWord args
    let out ← kprintUint v 16 false
    return (out, args)
  else if c = 'c'.toUInt8 then do
    let (v, args) ← vaArgWord args
    return ([v.toUInt8], args)
  else if c = '%'.toUInt8 then some (['%'.toUInt8], args)
  else some (['%'.toUInt8, c], args)

/-- The loop of `kprintf` from some place of the format on. -/
def kprintfLoop : List UInt8 → List FormatArg → Option (List UInt8)
  | [], _ => some []
  -- the last character, also a percent sign that the terminator follows
  | [c], _ => some [c]
  | c :: d :: fmt, args =>
    if c ≠ '%'.toUInt8 then (kprintfLoop (d :: fmt) args).map (c :: ·)
    else do
      let (out, args) ← kprintfSwitch d args
      let rest ← kprintfLoop fmt args
      return out ++ rest

/-- What `kprintf` prints; `none` is undefined behaviour. -/
def kprintf (fmt : CString) (args : List FormatArg) : Option (List UInt8) :=
  kprintfLoop fmt.bytes args

/-- `kprintf` with a literal for its format. -/
def kprintfLit (fmt : String) (args : List FormatArg) : Option (List UInt8) :=
  kprintf (.read (asciiText fmt)) args

/-- Calls of `kprintf` one after the other. -/
def kprintfAll (calls : List (String × List FormatArg)) : Option (List UInt8) :=
  calls.foldr (fun call rest => (kprintfLit call.1 call.2).bind fun out => rest.map (out ++ ·))
    (some [])

end AcharyaOS.Kio
