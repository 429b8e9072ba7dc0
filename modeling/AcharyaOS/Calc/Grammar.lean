import AcharyaOS.Calc.Code
import Mathlib.Algebra.Group.Int.Defs

/-!
# Expressions and their values

The grammar of the calculator as derivations of syntax trees, the exact value of a tree
over the integers, and its value in the machine's arithmetic.
-/

namespace AcharyaOS.Calc

open Foundation

/-- Parentheses leave no trace in the tree. -/
inductive CalcTree
  | number (digits : List UInt8)
  | sign (c : UInt8) (t : CalcTree)
  | binary (op : UInt8) (l r : CalcTree)
  deriving DecidableEq

/-- The two levels of left-associative operators. -/
inductive CalcLevel
  | mul | add

/-- `factor`, and `term` and `expr` as the chains of the two levels. -/
inductive CalcSort
  | factor
  | chain (k : CalcLevel)

namespace CalcLevel

def isOp : CalcLevel → UInt8 → Bool
  | mul => calcIsMulOp
  | add => calcIsAddOp

def operand : CalcLevel → CalcSort
  | mul => .factor
  | add => .chain .mul

end CalcLevel

abbrev CalcSort.expr : CalcSort := .chain .add

def isDigit (c : UInt8) : Bool := c >= '0'.toUInt8 && c <= '9'.toUInt8

def spaces (n : Nat) : List UInt8 := List.replicate n ' '.toUInt8

/-- `Derives X w t`: the grammar derives the text `w` from `X`, with tree `t`. -/
inductive Derives : CalcSort → List UInt8 → CalcTree → Prop
  | number (n : Nat) {digits : List UInt8} (hne : digits ≠ [])
      (hdigits : ∀ c ∈ digits, isDigit c = true) :
      Derives .factor (spaces n ++ digits) (.number digits)
  | paren (n m : Nat) {w : List UInt8} {t : CalcTree} (h : Derives .expr w t) :
      Derives .factor (spaces n ++ '('.toUInt8 :: (w ++ (spaces m ++ [')'.toUInt8]))) t
  | sign (n : Nat) {c : UInt8} (hc : calcIsAddOp c = true) {w : List UInt8} {t : CalcTree}
      (h : Derives .factor w t) : Derives .factor (spaces n ++ c :: w) (.sign c t)
  | first {k : CalcLevel} {w : List UInt8} {t : CalcTree} (h : Derives k.operand w t) :
      Derives (.chain k) w t
  | next {k : CalcLevel} {w v : List UInt8} {l r : CalcTree} (n : Nat) {op : UInt8}
      (hl : Derives (.chain k) w l) (hop : k.isOp op = true) (hr : Derives k.operand v r) :
      Derives (.chain k) (w ++ (spaces n ++ op :: v)) (.binary op l r)

/-- A whole input: an expression and any spaces behind it. -/
def CalcSentence (s : List UInt8) (t : CalcTree) : Prop :=
  ∃ w n, s = w ++ spaces n ∧ Derives .expr w t

/-! ## Values -/

def digitValue (digits : List UInt8) : Int :=
  digits.foldl (fun v c => v * 10 + (c - '0'.toUInt8).toNat) 0

/-- The value over the integers; division truncates, and by zero there is none. -/
def CalcTree.value : CalcTree → Option Int
  | .number digits => some (digitValue digits)
  | .sign c t => t.value.map fun v => if c = '-'.toUInt8 then -v else v
  | .binary op l r => do
      let a ← l.value
      let b ← r.value
      if op = '+'.toUInt8 then some (a + b)
      else if op = '-'.toUInt8 then some (a - b)
      else if op = '*'.toUInt8 then some (a * b)
      else if b = 0 then none
      else if op = '/'.toUInt8 then some (a.tdiv b)
      else if op = '%'.toUInt8 then some (a.tmod b)
      else none

/-- The value, where there is one, is an `int64_t`. -/
def CalcTree.InRange (t : CalcTree) : Prop := ∀ z ∈ t.value, -2 ^ 63 ≤ z ∧ z < 2 ^ 63

instance (t : CalcTree) : Decidable t.InRange :=
  inferInstanceAs (Decidable (∀ z ∈ t.value, -2 ^ 63 ≤ z ∧ z < 2 ^ 63))

/-- The value in wrapping 64-bit arithmetic, or how the evaluation stops. -/
def CalcTree.eval : CalcTree → Except CalcStop Int64
  | .number digits => .ok (Int64.ofInt (digitValue digits))
  | .sign c t => do
      let v ← t.eval
      .ok (if c == '-'.toUInt8 then -v else v)
  | .binary op l r => do
      let a ← l.eval
      let b ← r.eval
      calcApplyOp a b op

/-- All subtrees, in the order in which a reader from left to right completes them. -/
def CalcTree.postorder : CalcTree → List CalcTree
  | .number digits => [.number digits]
  | .sign c t => t.postorder ++ [.sign c t]
  | .binary op l r => l.postorder ++ (r.postorder ++ [.binary op l r])

/-- `s` denotes `v`: it is derivable, no division in it is by zero, and `v` is its value. -/
def Denotes (s : List UInt8) (v : Int64) : Prop :=
  ∃ t, CalcSentence s t ∧ t.value = some v.toInt

end AcharyaOS.Calc
