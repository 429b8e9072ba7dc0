import AcharyaOS.Foundation.Chain
import AcharyaOS.Kio.Code

/-!
# The calculator

`kernel/calc/calc.c`.  The parser evaluates while it reads; `int64_t` arithmetic wraps, and
a division the processor refuses is an outcome of its own.
-/

namespace AcharyaOS.Calc

open Foundation

/-- How an evaluation ends without a value: with -1, or in the divide error of the `idiv`
instruction.  The fuel of the model never runs out (`calcEvaluate_ne_outOfFuel`). -/
inductive CalcStop
  | invalid | divideError | outOfFuel
  deriving DecidableEq

/-- A value and the text behind it. -/
abbrev CalcResult := Except CalcStop (Int64 × List UInt8)

def calcSkipSpaces (s : List UInt8) : List UInt8 := s.dropWhile (· == ' '.toUInt8)

/-- The `while` loop of `calc_parse_number`: the value, the digit count and the text left. -/
def calcDigits : Int64 → Nat → List UInt8 → Int64 × Nat × List UInt8
  | value, digitCount, c :: p =>
      if c >= '0'.toUInt8 && c <= '9'.toUInt8 then
        calcDigits (value * 10 + Int64.ofNat (c - '0'.toUInt8).toNat) (digitCount + 1) p
      else (value, digitCount, c :: p)
  | value, digitCount, [] => (value, digitCount, [])

def calcParseNumber (s : List UInt8) : CalcResult :=
  match calcSkipSpaces s with
  | [] => .error .invalid
  | c :: p =>
      if c < '0'.toUInt8 || c > '9'.toUInt8 then .error .invalid
      else
        let (value, digitCount, p) := calcDigits 0 0 (c :: p)
        if digitCount == 0 then .error .invalid else .ok (value, p)

/-- The pairs of operands on which `idiv` raises the divide error. -/
def divideFaults (left right : Int64) : Bool :=
  right == 0 || (left == Int64.minValue && right == -1)

def calcApplyOp (left right : Int64) (op : UInt8) : Except CalcStop Int64 :=
  if op == '+'.toUInt8 then .ok (left + right)
  else if op == '-'.toUInt8 then .ok (left - right)
  else if op == '*'.toUInt8 then .ok (left * right)
  else if op == '/'.toUInt8 then
    if right == 0 then .error .invalid
    else if divideFaults left right then .error .divideError
    else .ok (left / right)
  else if op == '%'.toUInt8 then
    if right == 0 then .error .invalid
    else if divideFaults left right then .error .divideError
    else .ok (left % right)
  else .error .invalid

def calcIsMulOp (op : UInt8) : Bool :=
  op == '*'.toUInt8 || op == '/'.toUInt8 || op == '%'.toUInt8

def calcIsAddOp (op : UInt8) : Bool := op == '+'.toUInt8 || op == '-'.toUInt8

/-- The `for` loops of `calc_parse_term` and `calc_parse_expr`, which differ in their
operators and operands. -/
def calcChain (isOp : UInt8 → Bool) (operand : List UInt8 → CalcResult) :
    Chain (Except CalcStop) UInt8 Int64 where
  skip := calcSkipSpaces
  isOp := isOp
  operand := operand
  apply := calcApplyOp
  stop := .error .outOfFuel

def calcParseTerm (parseFactor : List UInt8 → CalcResult) (s : List UInt8) : CalcResult :=
  (calcChain calcIsMulOp parseFactor).parse s

def calcParseExpr (parseFactor : List UInt8 → CalcResult) (s : List UInt8) : CalcResult :=
  (calcChain calcIsAddOp (calcParseTerm parseFactor)).parse s

/-- The recursion goes through `calc_parse_expr`; the fuel bounds its depth. -/
def calcParseFactor : Nat → List UInt8 → CalcResult
  | 0, _ => .error .outOfFuel
  | fuel + 1, s =>
      match calcSkipSpaces s with
      | [] => calcParseNumber []
      | c :: p =>
          if c == '('.toUInt8 then do
            let (inner, p) ← calcParseExpr (calcParseFactor fuel) p
            match calcSkipSpaces p with
            | c :: p => if c == ')'.toUInt8 then .ok (inner, p) else .error .invalid
            | [] => .error .invalid
          else if c == '+'.toUInt8 || c == '-'.toUInt8 then do
            let (value, p) ← calcParseFactor fuel p
            .ok (if c == '-'.toUInt8 then -value else value, p)
          else calcParseNumber (c :: p)

/-- What a call of `calc_evaluate` comes to: its return value with `*out_value`, or a stop
that is none. -/
inductive CalcOutcome
  | returned (status : Int) (outValue : Option Int64)
  | divideError
  | outOfFuel
  deriving DecidableEq

/-- `calc_evaluate`; a null pointer is `none`. -/
def calcEvaluate (expression : Option CString) (outValue : Option Int64) : CalcOutcome :=
  match expression, outValue with
  | some expression, some _ =>
      match calcParseExpr (calcParseFactor (expression.length + 1)) expression.bytes with
      | .error .invalid => .returned (-1) outValue
      | .error .divideError => .divideError
      | .error .outOfFuel => .outOfFuel
      | .ok (value, p) =>
          if calcSkipSpaces p != [] then .returned (-1) outValue
          else .returned 0 (some value)
  | _, _ => .returned (-1) outValue

/-- What `calc_get_help` prints. -/
def calcGetHelp : Option (List UInt8) :=
  Kio.kprintfAll
    [("Calculator usage:\n", []), ("  calc <expression>\n", []),
      ("Supported operators: + - * / %% and parentheses\n", []), ("Examples:\n", []),
      ("  calc 2+2\n", []), ("  calc (10+5)*3\n", [])]

end AcharyaOS.Calc
