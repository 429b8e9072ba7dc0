import AcharyaOS.Calc.Grammar

/-!
# Reading without evaluating

The same parser with trees for values, which also records every tree it completes, malformed
input included.  The calculator is this reader with each recorded tree evaluated at once.
-/

namespace AcharyaOS.Calc

open Foundation

/-- The trees completed, oldest first, and the result. -/
structure Reading (γ : Type) where
  trees : List CalcTree
  result : Except CalcStop γ

namespace Reading

variable {γ δ : Type}

instance : Monad Reading where
  pure a := ⟨[], .ok a⟩
  bind x f := match x.result with
    | .ok a => ⟨x.trees ++ (f a).trees, (f a).result⟩
    | .error e => ⟨x.trees, .error e⟩

def fail (e : CalcStop) : Reading γ := ⟨[], .error e⟩

/-- Complete a tree. -/
def emit (t : CalcTree) : Reading CalcTree := ⟨[t], .ok t⟩

@[simp] theorem result_bind (x : Reading γ) (f : γ → Reading δ) :
    (x >>= f).result = x.result >>= fun a => (f a).result := by
  change (match x.result with
    | .ok a => (⟨x.trees ++ (f a).trees, (f a).result⟩ : Reading δ)
    | .error e => ⟨x.trees, .error e⟩).result = _
  cases x.result <;> rfl

theorem trees_bind_of_ok {x : Reading γ} {a : γ} (h : x.result = .ok a) (f : γ → Reading δ) :
    (x >>= f).trees = x.trees ++ (f a).trees := by
  change (match x.result with
    | .ok a => (⟨x.trees ++ (f a).trees, (f a).result⟩ : Reading δ)
    | .error e => ⟨x.trees, .error e⟩).trees = _
  rw [h]

theorem trees_bind_of_error {x : Reading γ} {e : CalcStop} (h : x.result = .error e)
    (f : γ → Reading δ) : (x >>= f).trees = x.trees := by
  change (match x.result with
    | .ok a => (⟨x.trees ++ (f a).trees, (f a).result⟩ : Reading δ)
    | .error e => ⟨x.trees, .error e⟩).trees = _
  rw [h]

end Reading

abbrev TreeReading := Reading (CalcTree × List UInt8)

def readNumber (s : List UInt8) : TreeReading :=
  match (calcSkipSpaces s).takeWhile isDigit with
  | [] => .fail .invalid
  | c :: digits => do
      let t ← .emit (.number (c :: digits))
      pure (t, (calcSkipSpaces s).dropWhile isDigit)

def readChain (k : CalcLevel) (operand : List UInt8 → TreeReading) :
    Chain Reading UInt8 CalcTree where
  skip := calcSkipSpaces
  isOp := k.isOp
  operand := operand
  apply l r op := .emit (.binary op l r)
  stop := .fail .outOfFuel

def readExpr (readFactor : List UInt8 → TreeReading) : List UInt8 → TreeReading :=
  (readChain .add (readChain .mul readFactor).parse).parse

def readFactor : Nat → List UInt8 → TreeReading
  | 0, _ => .fail .outOfFuel
  | fuel + 1, s =>
      match calcSkipSpaces s with
      | [] => .fail .invalid
      | c :: p =>
          if c == '('.toUInt8 then do
            let (inner, p) ← readExpr (readFactor fuel) p
            match calcSkipSpaces p with
            | c :: p => if c == ')'.toUInt8 then pure (inner, p) else .fail .invalid
            | [] => .fail .invalid
          else if calcIsAddOp c then do
            let (t, p) ← readFactor fuel p
            let t ← .emit (.sign c t)
            pure (t, p)
          else readNumber (c :: p)

/-- The reader of each sort of the grammar. -/
def readSort (fuel : Nat) : CalcSort → List UInt8 → TreeReading
  | .factor => readFactor fuel
  | .chain .mul => (readChain .mul (readFactor fuel)).parse
  | .chain .add => readExpr (readFactor fuel)

theorem readSort_chain (fuel : Nat) (k : CalcLevel) :
    readSort fuel (.chain k) = (readChain k (readSort fuel k.operand)).parse := by
  cases k <;> rfl

/-! ## Spaces and digits -/

theorem calcSkipSpaces_split (s : List UInt8) : ∃ n, s = spaces n ++ calcSkipSpaces s := by
  refine ⟨(s.takeWhile (· == ' '.toUInt8)).length, ?_⟩
  have hspaces : spaces (s.takeWhile (· == ' '.toUInt8)).length =
      s.takeWhile (· == ' '.toUInt8) := by
    refine (List.eq_replicate_iff.mpr ⟨rfl, fun c hc => ?_⟩).symm
    simpa using List.mem_takeWhile_imp hc
  rw [hspaces]
  exact (List.takeWhile_append_dropWhile ..).symm

theorem calcSkipSpaces_append (n : Nat) (s : List UInt8) :
    calcSkipSpaces (spaces n ++ s) = calcSkipSpaces s := by
  induction n with
  | zero => rfl
  | succ n ih => exact ih

theorem calcSkipSpaces_cons {c : UInt8} (hc : c ≠ ' '.toUInt8) (s : List UInt8) :
    calcSkipSpaces (c :: s) = c :: s := by
  simp only [calcSkipSpaces, List.dropWhile_cons, beq_eq_false_iff_ne.mpr hc, Bool.false_eq_true,
    if_false]

theorem calcSkipSpaces_idem (s : List UInt8) :
    calcSkipSpaces (calcSkipSpaces s) = calcSkipSpaces s := by
  obtain ⟨n, hn⟩ := calcSkipSpaces_split s
  conv_rhs => rw [hn, calcSkipSpaces_append]

theorem length_calcSkipSpaces_le (s : List UInt8) : (calcSkipSpaces s).length ≤ s.length := by
  obtain ⟨n, hn⟩ := calcSkipSpaces_split s
  conv_rhs => rw [hn, List.length_append]
  exact Nat.le_add_left _ _

theorem spaces_append_spaces (n m : Nat) (s : List UInt8) :
    spaces n ++ (spaces m ++ s) = spaces (n + m) ++ s := by
  simp [spaces, ← List.append_assoc, List.replicate_append_replicate]

theorem calcSkipSpaces_spaces (n : Nat) : calcSkipSpaces (spaces n) = [] := by
  have h := calcSkipSpaces_append n []
  rwa [List.append_nil] at h

/-! ## The code evaluates what the reader completes -/

def evalAll : List CalcTree → Except CalcStop Unit
  | [] => .ok ()
  | t :: ts => t.eval >>= fun _ => evalAll ts

theorem evalAll_append (ts us : List CalcTree) :
    evalAll (ts ++ us) = evalAll ts >>= fun _ => evalAll us := by
  induction ts with
  | nil => rfl
  | cons t ts ih =>
      simp only [List.cons_append, evalAll, ih]
      cases t.eval <;> rfl

/-- The result once every recorded tree has been evaluated. -/
def Reading.run {γ : Type} (x : Reading γ) : Except CalcStop γ := evalAll x.trees >>= fun _ => x.result

theorem Reading.run_bind {γ δ : Type} (x : Reading γ) (f : γ → Reading δ) :
    (x >>= f).run = x.run >>= fun a => (f a).run := by
  simp only [run, result_bind]
  cases h : x.result with
  | error e =>
      rw [trees_bind_of_error h]
      cases evalAll x.trees <;> rfl
  | ok a =>
      rw [trees_bind_of_ok h, evalAll_append]
      cases evalAll x.trees <;> rfl

theorem Reading.run_emit (t : CalcTree) : (Reading.emit t).run = t.eval >>= fun _ => .ok t := by
  simp only [run, emit, evalAll]
  cases t.eval <;> rfl

/-- Both stop alike or both have a value, in relation. -/
inductive ResultRel {γ δ : Type} (R : γ → δ → Prop) :
    Except CalcStop γ → Except CalcStop δ → Prop
  | error (e : CalcStop) : ResultRel R (.error e) (.error e)
  | ok {a : γ} {b : δ} (h : R a b) : ResultRel R (.ok a) (.ok b)

/-- A computation does what a reading does once its trees are evaluated. -/
def evaluates : Chain.Simulation Reading (Except CalcStop) where
  related R x y := ResultRel R x.run y
  related_pure h := .ok h
  related_bind {_ _ _ _ _ _ x y f g} hxy hfg := by
    rw [Reading.run_bind]
    generalize x.run = r at hxy
    cases hxy with
    | error e => exact .error e
    | ok h => exact hfg _ _ h

def EvaluatesTo (t : CalcTree) (v : Int64) : Prop := t.eval = .ok v

theorem evaluates_fail {γ δ : Type} {R : γ → δ → Prop} (e : CalcStop) :
    evaluates.related R (Reading.fail e) (.error e) := .error e

theorem evaluates_emit {t : CalcTree} {y : Except CalcStop Int64} (h : t.eval = y) :
    evaluates.related EvaluatesTo (.emit t) y := by
  change ResultRel EvaluatesTo (Reading.emit t).run y
  rw [Reading.run_emit, ← h]
  cases ht : t.eval with
  | error e => exact .error e
  | ok v => exact .ok ht

theorem evaluates_emit_pure {t : CalcTree} {v : Int64} (h : t.eval = .ok v) (p : List UInt8) :
    evaluates.related (Chain.SameRest EvaluatesTo) (do
      let t ← Reading.emit t
      pure (t, p)) (.ok (v, p)) := by
  change ResultRel _ (Reading.run _) _
  rw [Reading.run_bind, Reading.run_emit, h]
  exact .ok ⟨h, rfl⟩

theorem calcDigits_eq (s : List UInt8) : ∀ (z : Int) (n : Nat),
    calcDigits (Int64.ofInt z) n s =
      (Int64.ofInt ((s.takeWhile isDigit).foldl (fun v c => v * 10 + (c - '0'.toUInt8).toNat) z),
        n + (s.takeWhile isDigit).length, s.dropWhile isDigit) := by
  induction s with
  | nil => exact fun _ _ => rfl
  | cons c s ih =>
      intro z n
      rw [calcDigits, List.takeWhile_cons, List.dropWhile_cons]
      cases hc : isDigit c with
      | false =>
          rw [if_neg (by simpa [isDigit] using hc)]
          rfl
      | true =>
          rw [if_pos (by simpa [isDigit] using hc)]
          have hstep : Int64.ofInt z * 10 + Int64.ofNat (c - '0'.toUInt8).toNat =
              Int64.ofInt (z * 10 + ((c - '0'.toUInt8).toNat : Int)) := by
            rw [Int64.ofInt_add, Int64.ofInt_mul, Int64.ofInt_eq_ofNat]
            rfl
          rw [hstep, ih]
          simp only [if_true, List.foldl_cons, List.length_cons]
          rw [Nat.add_assoc, Nat.add_comm 1]

theorem readNumber_evaluates (s : List UInt8) :
    evaluates.related (Chain.SameRest EvaluatesTo) (readNumber s) (calcParseNumber s) := by
  rw [readNumber, calcParseNumber]
  cases hs : calcSkipSpaces s with
  | nil => exact evaluates_fail _
  | cons c p =>
      have hcode : (c < '0'.toUInt8 || c > '9'.toUInt8) = !isDigit c := by
        simp only [isDigit, Bool.not_and, ← decide_not, UInt8.not_le, ge_iff_le, gt_iff_lt]
      simp only [hcode, List.takeWhile_cons, List.dropWhile_cons]
      cases hc : isDigit c with
      | false => exact evaluates_fail _
      | true =>
          have hdigits := calcDigits_eq (c :: p) 0 0
          simp only [List.takeWhile_cons, List.dropWhile_cons, hc, if_true] at hdigits
          have hzero : Int64.ofInt 0 = 0 := rfl
          rw [hzero] at hdigits
          simp only [hdigits]
          exact evaluates_emit_pure rfl _

theorem readChain_evaluates (k : CalcLevel) {operand : List UInt8 → TreeReading}
    {operand' : List UInt8 → CalcResult}
    (h : ∀ s, evaluates.related (Chain.SameRest EvaluatesTo) (operand s) (operand' s))
    (s : List UInt8) : evaluates.related (Chain.SameRest EvaluatesTo)
      ((readChain k operand).parse s) ((calcChain k.isOp operand').parse s) := by
  refine Chain.parse_related evaluates rfl rfl (evaluates_fail _) h ?_ s
  intro op l a r b hl hr
  apply evaluates_emit
  have hl' : l.eval = .ok a := hl
  have hr' : r.eval = .ok b := hr
  simp only [CalcTree.eval, hl', hr']
  rfl

theorem readExpr_evaluates {factor : List UInt8 → TreeReading} {factor' : List UInt8 → CalcResult}
    (h : ∀ s, evaluates.related (Chain.SameRest EvaluatesTo) (factor s) (factor' s))
    (s : List UInt8) :
    evaluates.related (Chain.SameRest EvaluatesTo) (readExpr factor s) (calcParseExpr factor' s) :=
  readChain_evaluates .add (readChain_evaluates .mul h) s

theorem readFactor_evaluates (fuel : Nat) : ∀ s, evaluates.related (Chain.SameRest EvaluatesTo)
    (readFactor fuel s) (calcParseFactor fuel s) := by
  induction fuel with
  | zero => exact fun s => evaluates_fail _
  | succ fuel ih =>
      intro s
      rw [readFactor, calcParseFactor]
      cases calcSkipSpaces s with
      | nil => exact evaluates_fail _
      | cons c p =>
          simp only
          split
          · refine evaluates.related_bind (readExpr_evaluates ih p) ?_
            rintro ⟨t, p'⟩ ⟨v, _⟩ ⟨htv, rfl⟩
            simp only
            cases calcSkipSpaces p' with
            | nil => exact evaluates_fail _
            | cons c' p'' =>
                simp only
                split
                · exact evaluates.related_pure ⟨htv, rfl⟩
                · exact evaluates_fail _
          · change evaluates.related _ (if calcIsAddOp c then _ else _) (if calcIsAddOp c then _ else _)
            split
            · refine evaluates.related_bind (ih p) ?_
              rintro ⟨t, p'⟩ ⟨v, _⟩ ⟨htv, rfl⟩
              have hsign : (CalcTree.sign c t).eval =
                  .ok (if c == '-'.toUInt8 then -v else v) := by
                simp only [CalcTree.eval, show t.eval = .ok v from htv]
                rfl
              exact evaluates_emit_pure hsign p'
            · exact readNumber_evaluates _

end AcharyaOS.Calc
