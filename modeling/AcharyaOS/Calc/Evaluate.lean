import AcharyaOS.Calc.Parsing

/-!
# What `calc_evaluate` returns

The calculator evaluates the trees of its input in the order in which it completes them and
ends at the first that stops.  Without overflow it computes the exact value, except where the
processor refuses a remainder; it traps exactly at `INT64_MIN` by -1.
-/

namespace AcharyaOS.Calc

open Foundation

/-! ## Evaluating trees in order -/

/-- The trees up to the first that stops, that one included. -/
def evaluated : List CalcTree → List CalcTree
  | [] => []
  | t :: ts => t :: (match t.eval with
      | .ok _ => evaluated ts
      | .error _ => [])

theorem evalAll_eq_error_iff {ts : List CalcTree} {e : CalcStop} :
    evalAll ts = .error e ↔ ∃ t ∈ evaluated ts, t.eval = .error e := by
  induction ts with
  | nil => simp [evalAll, evaluated]
  | cons t ts ih =>
      rw [evalAll, evaluated]
      cases ht : t.eval with
      | error e' =>
          simp only [List.mem_singleton, exists_eq_left, ht]
          constructor <;>
          · rintro ⟨⟩
            rfl
      | ok v =>
          simp only [List.mem_cons, exists_eq_or_imp, ht, reduceCtorEq, false_or]
          exact ih

theorem mem_evaluated_append {t : CalcTree} {ts us : List CalcTree} :
    t ∈ evaluated (ts ++ us) ↔ t ∈ evaluated ts ∨ evalAll ts = .ok () ∧ t ∈ evaluated us := by
  induction ts with
  | nil => simp [evalAll, evaluated]
  | cons u ts ih =>
      rw [List.cons_append, evaluated, evaluated, evalAll]
      cases hu : u.eval with
      | error e =>
          have hstop : (Except.error e >>= fun _ : Int64 => evalAll ts) ≠ .ok () := by
            rintro ⟨⟩
          simp [hstop]
      | ok v =>
          simp only [List.mem_cons, ih, or_assoc]
          rfl

theorem evalAll_postorder (t : CalcTree) : evalAll t.postorder = t.eval >>= fun _ => .ok () := by
  induction t with
  | number digits => rfl
  | sign c t ih =>
      rw [CalcTree.postorder, evalAll_append, ih, evalAll, CalcTree.eval]
      cases t.eval <;> rfl
  | binary op l r ihl ihr =>
      rw [CalcTree.postorder, evalAll_append, evalAll_append, ihl, ihr, evalAll, CalcTree.eval]
      cases l.eval with
      | error e => rfl
      | ok a =>
          cases r.eval with
          | error e => rfl
          | ok b => cases h : calcApplyOp a b op <;> simp [h, evalAll, Bind.bind, Except.bind]

def CalcTree.operands : CalcTree → List CalcTree
  | .number _ => []
  | .sign _ t => [t]
  | .binary _ l r => [l, r]

/-- The operands of the tree have values. -/
def CalcTree.Grounded (t : CalcTree) : Prop := ∀ u ∈ t.operands, ∃ v, u.eval = .ok v

theorem evalAll_postorder_ok {t : CalcTree} (h : evalAll t.postorder = .ok ()) :
    ∃ v, t.eval = .ok v := by
  rw [evalAll_postorder] at h
  cases ht : t.eval with
  | error e =>
      rw [ht] at h
      exact nomatch h
  | ok v => exact ⟨v, rfl⟩

theorem mem_evaluated_singleton {t u : CalcTree} : u ∈ evaluated [t] ↔ u = t := by
  rw [evaluated]
  cases t.eval <;> simp [evaluated]

theorem grounded_postorder {t u : CalcTree} (h : u ∈ evaluated t.postorder) : u.Grounded := by
  induction t with
  | number digits =>
      rw [CalcTree.postorder, mem_evaluated_singleton] at h
      subst h
      exact fun _ h => nomatch h
  | sign c t ih =>
      rw [CalcTree.postorder, mem_evaluated_append, mem_evaluated_singleton] at h
      rcases h with h | ⟨ht, rfl⟩
      · exact ih h
      · intro v hv
        rw [List.mem_singleton.mp hv]
        exact evalAll_postorder_ok ht
  | binary op l r ihl ihr =>
      rw [CalcTree.postorder, mem_evaluated_append, mem_evaluated_append,
        mem_evaluated_singleton] at h
      rcases h with h | ⟨hl, h | ⟨hr, rfl⟩⟩
      · exact ihl h
      · exact ihr h
      · intro v hv
        rcases List.mem_pair.mp hv with rfl | rfl
        · exact evalAll_postorder_ok hl
        · exact evalAll_postorder_ok hr

/-- A tree comes up for evaluation only once its operands have values. -/
theorem Forest.grounded {ts : List CalcTree} (h : Forest ts) {t : CalcTree}
    (ht : t ∈ evaluated ts) : t.Grounded := by
  obtain ⟨us, rfl⟩ := h
  induction us with
  | nil => exact nomatch ht
  | cons u us ih =>
      rw [List.flatMap_cons, mem_evaluated_append] at ht
      rcases ht with ht | ⟨-, ht⟩
      · exact grounded_postorder ht
      · exact ih ht

/-! ## The divide error -/

def isDivision (op : UInt8) : Prop := op = '/'.toUInt8 ∨ op = '%'.toUInt8

/-- A division or remainder on whose operands `idiv` faults. -/
def CalcTree.UnsafeDivision (t : CalcTree) : Prop :=
  ∃ op l r a b, t = .binary op l r ∧ isDivision op ∧ l.eval = .ok a ∧ r.eval = .ok b ∧
    divideFaults a b = true

/-- A division or remainder of `INT64_MIN` by -1. -/
def CalcTree.MinByMinusOne (t : CalcTree) : Prop :=
  ∃ op l r, t = .binary op l r ∧ isDivision op ∧ l.eval = .ok Int64.minValue ∧
    r.eval = .ok (-1)

theorem calcApplyOp_of_division {op : UInt8} (h : isDivision op) (a b : Int64) :
    calcApplyOp a b op =
      if b == 0 then .error .invalid
      else if divideFaults a b then .error .divideError
      else .ok (if op == '/'.toUInt8 then a / b else a % b) := by
  rcases h with rfl | rfl <;> rfl

theorem calcApplyOp_of_not_division {op : UInt8} (h : ¬ isDivision op) (a b : Int64) :
    calcApplyOp a b op ≠ .error .divideError := by
  rw [isDivision, not_or] at h
  simp only [calcApplyOp, beq_iff_eq, if_neg h.1, if_neg h.2]
  split
  · nofun
  · split
    · nofun
    · split <;> nofun

theorem calcApplyOp_eq_divideError_iff {a b : Int64} {op : UInt8} :
    calcApplyOp a b op = .error .divideError ↔ isDivision op ∧ a = Int64.minValue ∧ b = -1 := by
  by_cases hop : isDivision op
  · rw [calcApplyOp_of_division hop]
    simp only [divideFaults, hop, true_and, beq_iff_eq, Bool.or_eq_true, Bool.and_eq_true]
    constructor
    · intro h
      split at h
      · exact nomatch h
      · next hb =>
        split at h
        · next hfault => exact hfault.resolve_left hb
        · exact nomatch h
    · rintro ⟨rfl, rfl⟩
      rfl
  · exact iff_of_false (calcApplyOp_of_not_division hop a b) fun h => hop h.1

theorem CalcTree.eval_ne_outOfFuel (t : CalcTree) : t.eval ≠ .error .outOfFuel := by
  have happly : ∀ a b op, calcApplyOp a b op ≠ .error .outOfFuel := by
    intro a b op
    simp only [calcApplyOp]
    repeat' split
    all_goals rintro ⟨⟩
  induction t with
  | number digits => rintro ⟨⟩
  | sign c t ih =>
      rw [eval]
      cases h : t.eval with
      | error e =>
          rintro ⟨⟩
          exact ih h
      | ok v => rintro ⟨⟩
  | binary op l r ihl ihr =>
      rw [eval]
      cases hl : l.eval with
      | error e =>
          rintro ⟨⟩
          exact ihl hl
      | ok a =>
          cases hr : r.eval with
          | error e =>
              rintro ⟨⟩
              exact ihr hr
          | ok b => exact happly a b op

theorem CalcTree.eval_binary {op : UInt8} {l r : CalcTree} {a b : Int64} (hl : l.eval = .ok a)
    (hr : r.eval = .ok b) : (CalcTree.binary op l r).eval = calcApplyOp a b op := by
  rw [eval, hl, hr]
  rfl

/-- Once its operands have values, only `INT64_MIN` by -1 makes a tree trap. -/
theorem CalcTree.Grounded.eval_eq_divideError_iff {t : CalcTree} (h : t.Grounded) :
    t.eval = .error .divideError ↔ t.MinByMinusOne := by
  constructor
  · intro htrap
    cases t with
    | number digits => cases htrap
    | sign c t =>
        obtain ⟨v, hv⟩ := h t (List.mem_singleton_self t)
        rw [eval, hv] at htrap
        cases htrap
    | binary op l r =>
        obtain ⟨a, ha⟩ := h l (List.mem_cons_self ..)
        obtain ⟨b, hb⟩ := h r (List.mem_cons_of_mem _ (List.mem_singleton_self r))
        rw [eval_binary ha hb, calcApplyOp_eq_divideError_iff] at htrap
        obtain ⟨hop, rfl, rfl⟩ := htrap
        exact ⟨op, l, r, rfl, hop, ha, hb⟩
  · rintro ⟨op, l, r, rfl, hop, hl, hr⟩
    rw [eval_binary hl hr]
    exact calcApplyOp_eq_divideError_iff.mpr ⟨hop, rfl, rfl⟩

theorem CalcTree.UnsafeDivision.eval {t : CalcTree} (h : t.UnsafeDivision) :
    t.eval = .error .invalid ∨ t.MinByMinusOne := by
  obtain ⟨op, l, r, a, b, rfl, hop, hl, hr, hfault⟩ := h
  by_cases hb : b = 0
  · left
    rw [eval_binary hl hr, calcApplyOp_of_division hop, if_pos (beq_iff_eq.mpr hb)]
  · right
    simp only [divideFaults, Bool.or_eq_true, Bool.and_eq_true, beq_iff_eq, hb, false_or] at hfault
    obtain ⟨rfl, rfl⟩ := hfault
    exact ⟨op, l, r, rfl, hop, hl, hr⟩

/-! ## The calculator -/

/-- The reading of a whole input. -/
def calcReading (s : List UInt8) : TreeReading := readSort (s.length + 1) .expr s

/-- What the calculator evaluates of an input: the sub-expressions in the order in which they
are completed, up to the first without a value. -/
def evaluatedIn (s : List UInt8) : List CalcTree := evaluated (calcReading s).trees

theorem calcReading_ends (s : List UInt8) : ends.holds (ReadFrom .expr s) (calcReading s) :=
  readExpr_sound fun p hp => readFactor_sound _ p (Nat.lt_succ_of_le hp)

theorem calcReading_forest (s : List UInt8) : Forest (calcReading s).trees :=
  (readExpr_planted (readFactor_planted _) s).2

theorem calcReading_of_sentence {s : List UInt8} {t : CalcTree} (h : CalcSentence s t) :
    (calcReading s).result = .ok (t, []) := by
  obtain ⟨w, n, rfl, hw⟩ := h
  have hempty : ∀ c, c ∉ (calcSkipSpaces (spaces n)).head? := by
    rw [calcSkipSpaces_spaces]
    exact fun _ h => nomatch h
  have hclose : Closes .expr (spaces n) := by
    refine ⟨fun c hc => ?_, fun _ c hc => absurd hc (hempty c)⟩
    rw [List.mem_replicate.mp (List.mem_of_mem_head? hc) |>.2]
    decide
  have hread := hw.complete.result_expr (Nat.lt_succ_self _) hclose
    fun c hc => absurd hc (hempty c)
  rwa [calcSkipSpaces_spaces] at hread

theorem calcReading_trees {s : List UInt8} {t : CalcTree} (h : CalcSentence s t) :
    (calcReading s).trees = t.postorder :=
  (readExpr_planted (readFactor_planted _) s).1 (t, []) (calcReading_of_sentence h)

theorem calcSentence_iff {s : List UInt8} {t : CalcTree} :
    CalcSentence s t ↔ ∃ p, (calcReading s).result = .ok (t, p) ∧ calcSkipSpaces p = [] := by
  constructor
  · exact fun h => ⟨[], calcReading_of_sentence h, rfl⟩
  · rintro ⟨p, hread, hp⟩
    have hends := calcReading_ends s
    simp only [ends, hread] at hends
    obtain ⟨w, n, hs, hw⟩ := hends
    obtain ⟨j, hj⟩ := calcSkipSpaces_split p
    rw [hp, List.append_nil] at hj
    refine ⟨w, n + j, ?_, hw⟩
    rw [hs, hj]
    simp [spaces, List.replicate_append_replicate]

/-- What the code returns is decided by the reading and the evaluation of its trees. -/
theorem calcParseExpr_rel (s : CString) :
    ResultRel (Chain.SameRest EvaluatesTo) (calcReading s.bytes).run
      (calcParseExpr (calcParseFactor (s.length + 1)) s.bytes) :=
  readExpr_evaluates (readFactor_evaluates _) s.bytes

theorem calcReading_error {s : List UInt8} {e : CalcStop}
    (h : (calcReading s).result = .error e) : e = .invalid := by
  have hends := calcReading_ends s
  simpa only [ends, h] using hends

section Evaluate

variable (s : CString) (out : Int64)

theorem calcEvaluate_of_stop {e : CalcStop} (h : evalAll (calcReading s.bytes).trees = .error e) :
    calcEvaluate (some s) (some out) =
      if e = .divideError then .divideError else .returned (-1) (some out) := by
  have hrel := calcParseExpr_rel s
  rw [Reading.run, h] at hrel
  obtain ⟨t, -, ht⟩ := evalAll_eq_error_iff.mp h
  simp only [calcEvaluate]
  generalize calcParseExpr _ s.bytes = r at hrel ⊢
  cases hrel
  cases e with
  | invalid => rfl
  | divideError => rfl
  | outOfFuel => exact absurd ht t.eval_ne_outOfFuel

theorem calcEvaluate_of_malformed (h : evalAll (calcReading s.bytes).trees = .ok ())
    (hbad : ∀ t, ¬ CalcSentence s.bytes t) :
    calcEvaluate (some s) (some out) = .returned (-1) (some out) := by
  have hrel := calcParseExpr_rel s
  rw [Reading.run, h] at hrel
  change ResultRel _ (calcReading s.bytes).result _ at hrel
  simp only [calcEvaluate]
  cases hresult : (calcReading s.bytes).result with
  | error e =>
      obtain rfl := calcReading_error hresult
      rw [hresult] at hrel
      generalize calcParseExpr _ s.bytes = r at hrel ⊢
      cases hrel
      rfl
  | ok r =>
      obtain ⟨t, p⟩ := r
      rw [hresult] at hrel
      generalize calcParseExpr _ s.bytes = r at hrel ⊢
      cases hrel with
      | @ok _ b hb =>
          obtain ⟨v, _⟩ := b
          obtain ⟨-, rfl⟩ := hb
          have hne : calcSkipSpaces p ≠ [] := fun hp =>
            hbad t (calcSentence_iff.mpr ⟨p, hresult, hp⟩)
          simp only [bne_iff_ne, ne_eq, hne, not_false_eq_true, if_true]

theorem calcEvaluate_of_value {t : CalcTree} (ht : CalcSentence s.bytes t) {v : Int64}
    (hv : t.eval = .ok v) :
    calcEvaluate (some s) (some out) = .returned 0 (some v) := by
  have hrel := calcParseExpr_rel s
  have hresult := calcReading_of_sentence ht
  rw [Reading.run, calcReading_trees ht, evalAll_postorder, hv, hresult] at hrel
  simp only [calcEvaluate]
  generalize calcParseExpr _ s.bytes = r at hrel ⊢
  cases hrel with
  | @ok _ b hb =>
      obtain ⟨v', _⟩ := b
      obtain ⟨hv', rfl⟩ := hb
      obtain rfl : v = v' := Except.ok.inj (hv.symm.trans hv')
      rfl

theorem calcEvaluate_of_ok (h : evalAll (calcReading s.bytes).trees = .ok ()) :
    (∃ t v, CalcSentence s.bytes t ∧ t.eval = .ok v ∧
      calcEvaluate (some s) (some out) = .returned 0 (some v)) ∨
    (∀ t, ¬ CalcSentence s.bytes t) ∧
      calcEvaluate (some s) (some out) = .returned (-1) (some out) := by
  by_cases hsentence : ∃ t, CalcSentence s.bytes t
  · left
    obtain ⟨t, ht⟩ := hsentence
    obtain ⟨v, hv⟩ := evalAll_postorder_ok (calcReading_trees ht ▸ h)
    exact ⟨t, v, ht, hv, calcEvaluate_of_value s out ht hv⟩
  · right
    have hbad := not_exists.mp hsentence
    exact ⟨hbad, calcEvaluate_of_malformed s out h hbad⟩

theorem calcEvaluate_ne_outOfFuel : calcEvaluate (some s) (some out) ≠ .outOfFuel := by
  cases h : evalAll (calcReading s.bytes).trees with
  | error e =>
      rw [calcEvaluate_of_stop s out h]
      split <;> nofun
  | ok _ =>
      rcases calcEvaluate_of_ok s out h with ⟨t, v, -, -, hout⟩ | ⟨-, hout⟩ <;>
      · rw [hout]
        nofun

theorem calcEvaluate_eq_returned_iff (v : Int64) :
    calcEvaluate (some s) (some out) = .returned 0 (some v) ↔
      ∃ t, CalcSentence s.bytes t ∧ t.eval = .ok v := by
  constructor
  · intro hreturned
    cases h : evalAll (calcReading s.bytes).trees with
    | error e =>
        rw [calcEvaluate_of_stop s out h] at hreturned
        split at hreturned <;> exact nomatch hreturned
    | ok _ =>
        rcases calcEvaluate_of_ok s out h with ⟨t, v', ht, hv', hout⟩ | ⟨-, hout⟩
        · rw [hout] at hreturned
          cases hreturned
          exact ⟨t, ht, hv'⟩
        · rw [hout] at hreturned
          exact nomatch hreturned
  · rintro ⟨t, ht, hv⟩
    exact calcEvaluate_of_value s out ht hv

theorem calcEvaluate_of_no_value (hvalue : ∀ v, calcEvaluate (some s) (some out) ≠
    .returned 0 (some v)) (htrap : calcEvaluate (some s) (some out) ≠ .divideError) :
    calcEvaluate (some s) (some out) = .returned (-1) (some out) := by
  cases h : evalAll (calcReading s.bytes).trees with
  | error e =>
      rw [calcEvaluate_of_stop s out h] at htrap ⊢
      exact if_neg fun he => htrap (if_pos he)
  | ok _ =>
      rcases calcEvaluate_of_ok s out h with ⟨t, v, -, -, hout⟩ | ⟨-, hout⟩
      · exact absurd hout (hvalue v)
      · exact hout

theorem calcEvaluate_eq_divideError_iff :
    calcEvaluate (some s) (some out) = .divideError ↔
      ∃ t ∈ evaluatedIn s.bytes, t.MinByMinusOne := by
  have htrap : evalAll (calcReading s.bytes).trees = .error .divideError ↔
      ∃ t ∈ evaluatedIn s.bytes, t.MinByMinusOne := by
    rw [evalAll_eq_error_iff]
    refine exists_congr fun t => and_congr_right fun ht => ?_
    exact ((calcReading_forest _).grounded ht).eval_eq_divideError_iff
  rw [← htrap]
  cases h : evalAll (calcReading s.bytes).trees with
  | error e =>
      rw [calcEvaluate_of_stop s out h]
      cases e <;> simp
  | ok _ =>
      refine iff_of_false ?_ nofun
      rcases calcEvaluate_of_ok s out h with ⟨t, v, -, -, hout⟩ | ⟨-, hout⟩ <;>
      · rw [hout]
        nofun

/-- No division from the input traps, and every unsafe one makes the call return -1, exactly
if no division or remainder that is evaluated has the wrapped operands `INT64_MIN` and -1. -/
theorem calcEvaluate_no_trap_iff :
    (calcEvaluate (some s) (some out) ≠ .divideError ∧
      ((∃ t ∈ evaluatedIn s.bytes, t.UnsafeDivision) →
        calcEvaluate (some s) (some out) = .returned (-1) (some out))) ↔
      ∀ t ∈ evaluatedIn s.bytes, ¬ t.MinByMinusOne := by
  have hnone : calcEvaluate (some s) (some out) ≠ .divideError ↔
      ∀ t ∈ evaluatedIn s.bytes, ¬ t.MinByMinusOne := by
    rw [ne_eq, calcEvaluate_eq_divideError_iff]
    push Not
    rfl
  rw [hnone]
  refine and_iff_left_of_imp fun hsafe => ?_
  rintro ⟨t, ht, hunsafe⟩
  have hinvalid := hunsafe.eval.resolve_right (hsafe t ht)
  rw [calcEvaluate_of_stop s out (evalAll_eq_error_iff.mpr ⟨t, ht, hinvalid⟩)]
  rfl

end Evaluate

/-! ## Without overflow -/

/-- The value of a tree as the machine would have it, exact or refused. -/
def exactResult : Option Int → Except CalcStop Int64
  | some z => .ok (Int64.ofInt z)
  | none => .error .invalid

theorem CalcTree.mem_postorder_self (t : CalcTree) : t ∈ t.postorder := by
  cases t <;> simp [postorder]

theorem CalcTree.value_binary {op : UInt8} {l r : CalcTree} {a b : Int} (hl : l.value = some a)
    (hr : r.value = some b) :
    (CalcTree.binary op l r).value =
      if op = '+'.toUInt8 then some (a + b)
      else if op = '-'.toUInt8 then some (a - b)
      else if op = '*'.toUInt8 then some (a * b)
      else if b = 0 then none
      else if op = '/'.toUInt8 then some (a.tdiv b)
      else if op = '%'.toUInt8 then some (a.tmod b)
      else none := by
  rw [value, hl, hr]
  rfl

theorem ofInt_inj {a b : Int} (ha : -2 ^ 63 ≤ a ∧ a < 2 ^ 63) (hb : -2 ^ 63 ≤ b ∧ b < 2 ^ 63)
    (h : Int64.ofInt a = Int64.ofInt b) : a = b := by
  rw [← Int64.toInt_ofInt_of_le ha.1 ha.2, ← Int64.toInt_ofInt_of_le hb.1 hb.2, h]

/-- Division in the machine is division over the integers, or it faults. -/
theorem calcApplyOp_division_exact {op : UInt8} (hop : isDivision op) {a b : Int}
    (ha : -2 ^ 63 ≤ a ∧ a < 2 ^ 63) (hb : -2 ^ 63 ≤ b ∧ b < 2 ^ 63) :
    calcApplyOp (Int64.ofInt a) (Int64.ofInt b) op =
        exactResult (if b = 0 then none
          else if op = '/'.toUInt8 then some (a.tdiv b) else some (a.tmod b)) ∨
      calcApplyOp (Int64.ofInt a) (Int64.ofInt b) op = .error .divideError := by
  have hmin : Int64.minValue.toInt = -2 ^ 63 := rfl
  have hmax : Int64.maxValue.toInt = 2 ^ 63 - 1 := rfl
  rw [calcApplyOp_of_division hop]
  by_cases hzero : b = 0
  · left
    rw [hzero]
    rfl
  · have hne : (Int64.ofInt b == 0) = false := by
      rw [beq_eq_false_iff_ne]
      exact fun h => hzero (ofInt_inj hb (by decide) h)
    simp only [hne, Bool.false_eq_true, if_false, if_neg hzero]
    by_cases hfault : divideFaults (Int64.ofInt a) (Int64.ofInt b) = true
    · right
      rw [if_pos hfault]
    · left
      rw [if_neg hfault]
      rcases hop with rfl | rfl
      · exact congrArg Except.ok
          (Int64.ofInt_tdiv (by omega) (by omega) (by omega) (by omega)).symm
      · exact congrArg Except.ok
          (Int64.ofInt_tmod (by omega) (by omega) (by omega) (by omega)).symm

theorem calcApplyOp_exact {op : UInt8} {l r : CalcTree} {a b : Int} (hl : l.value = some a)
    (hr : r.value = some b) (ha : -2 ^ 63 ≤ a ∧ a < 2 ^ 63) (hb : -2 ^ 63 ≤ b ∧ b < 2 ^ 63) :
    calcApplyOp (Int64.ofInt a) (Int64.ofInt b) op =
        exactResult (CalcTree.binary op l r).value ∨
      calcApplyOp (Int64.ofInt a) (Int64.ofInt b) op = .error .divideError := by
  rw [CalcTree.value_binary hl hr]
  by_cases hadd : op = '+'.toUInt8
  · subst hadd
    exact .inl (congrArg Except.ok (Int64.ofInt_add a b).symm)
  by_cases hsub : op = '-'.toUInt8
  · subst hsub
    exact .inl (congrArg Except.ok (Int64.ofInt_sub a b).symm)
  by_cases hmul : op = '*'.toUInt8
  · subst hmul
    exact .inl (congrArg Except.ok (Int64.ofInt_mul a b).symm)
  simp only [if_neg hadd, if_neg hsub, if_neg hmul]
  by_cases hdiv : op = '/'.toUInt8
  · have hexact := calcApplyOp_division_exact (.inl hdiv) ha hb
    simpa only [if_pos hdiv] using hexact
  by_cases hmod : op = '%'.toUInt8
  · have hexact := calcApplyOp_division_exact (.inr hmod) ha hb
    simpa only [if_neg hdiv, if_pos hmod] using hexact
  left
  simp only [calcApplyOp, beq_iff_eq, if_neg hadd, if_neg hsub, if_neg hmul, if_neg hdiv,
    if_neg hmod, ite_self]
  rfl

theorem CalcTree.eval_exact (t : CalcTree) (h : ∀ u ∈ t.postorder, u.InRange) :
    t.eval = exactResult t.value ∨ t.eval = .error .divideError := by
  induction t with
  | number digits => exact .inl rfl
  | sign c t ih =>
      rw [eval, value]
      rcases ih fun u hu => h u (List.mem_append_left _ hu) with ht | ht
      · left
        rw [ht]
        cases t.value with
        | none => rfl
        | some z =>
            simp only [exactResult, Option.map_some, beq_iff_eq]
            change Except.ok _ = Except.ok _
            split
            · rw [Int64.ofInt_neg]
            · rfl
      · right
        rw [ht]
        rfl
  | binary op l r ihl ihr =>
      have hl_mem : ∀ u ∈ l.postorder, u ∈ (CalcTree.binary op l r).postorder := fun u hu =>
        List.mem_append_left _ hu
      have hr_mem : ∀ u ∈ r.postorder, u ∈ (CalcTree.binary op l r).postorder := fun u hu =>
        List.mem_append_right _ (List.mem_append_left _ hu)
      have hl_range := h l (hl_mem l l.mem_postorder_self)
      have hr_range := h r (hr_mem r r.mem_postorder_self)
      rw [eval]
      rcases ihl fun u hu => h u (hl_mem u hu) with hl | hl
      · rcases ihr fun u hu => h u (hr_mem u hu) with hr | hr
        · rw [hl, hr]
          cases hlv : l.value with
          | none =>
              left
              rw [value, hlv]
              rfl
          | some a =>
              cases hrv : r.value with
              | none =>
                  left
                  rw [value, hlv, hrv]
                  rfl
              | some b => exact calcApplyOp_exact hlv hrv (hl_range a hlv) (hr_range b hrv)
        · rw [hl, hr]
          cases hlv : l.value with
          | none =>
              left
              rw [value, hlv]
              rfl
          | some a => exact .inr rfl
      · right
        rw [hl]
        rfl

/-- No literal or intermediate result of the input leaves the `int64_t` range. -/
def NoOverflow (s : List UInt8) : Prop := ∀ t ∈ (calcReading s).trees, t.InRange

instance (s : List UInt8) : Decidable (NoOverflow s) :=
  inferInstanceAs (Decidable (∀ t ∈ (calcReading s).trees, t.InRange))

theorem CalcTree.postorder_subset {t u : CalcTree} (h : u ∈ t.postorder) :
    ∀ v ∈ u.postorder, v ∈ t.postorder := by
  induction t with
  | number digits =>
      rw [List.mem_singleton.mp h]
      exact fun _ hv => hv
  | sign c t ih =>
      intro v hv
      rcases List.mem_append.mp h with h | h
      · exact List.mem_append_left _ (ih h v hv)
      · rwa [List.mem_singleton.mp h] at hv
  | binary op l r ihl ihr =>
      intro v hv
      rcases List.mem_append.mp h with h | h
      · exact List.mem_append_left _ (ihl h v hv)
      · rcases List.mem_append.mp h with h | h
        · exact List.mem_append_right _ (List.mem_append_left _ (ihr h v hv))
        · rwa [List.mem_singleton.mp h] at hv

theorem CalcTree.operands_subset {t u : CalcTree} (h : u ∈ t.operands) : u ∈ t.postorder := by
  cases t with
  | number digits => exact nomatch h
  | sign c t =>
      rw [List.mem_singleton.mp h]
      exact List.mem_append_left _ t.mem_postorder_self
  | binary op l r =>
      rcases List.mem_pair.mp h with rfl | rfl
      · exact List.mem_append_left _ (CalcTree.mem_postorder_self _)
      · exact List.mem_append_right _ (List.mem_append_left _ (CalcTree.mem_postorder_self _))

theorem Forest.postorder_subset {ts : List CalcTree} (h : Forest ts) {t u : CalcTree}
    (ht : t ∈ ts) (hu : u ∈ t.postorder) : u ∈ ts := by
  obtain ⟨us, rfl⟩ := h
  obtain ⟨v, hv, htv⟩ := List.mem_flatMap.mp ht
  exact List.mem_flatMap.mpr ⟨v, hv, CalcTree.postorder_subset htv u hu⟩

/-- The call returns the value of every input that denotes one, and -1 for any other. -/
def CalcCorrect (s : CString) (out : Int64) : Prop :=
  (∀ v, calcEvaluate (some s) (some out) = .returned 0 (some v) ↔ Denotes s.bytes v) ∧
    ((∀ v, ¬ Denotes s.bytes v) →
      calcEvaluate (some s) (some out) = .returned (-1) (some out))

/-- A remainder of the exact operands -2^63 and -1. -/
def CalcTree.MinRemMinusOne (t : CalcTree) : Prop :=
  ∃ l r, t = .binary '%'.toUInt8 l r ∧ l.value = some (-2 ^ 63) ∧ r.value = some (-1)

theorem mem_of_mem_evaluated {t : CalcTree} {ts : List CalcTree} (h : t ∈ evaluated ts) :
    t ∈ ts := by
  induction ts with
  | nil => exact h
  | cons u ts ih =>
      rw [evaluated] at h
      rcases List.mem_cons.mp h with rfl | h
      · exact List.mem_cons_self ..
      · cases hu : u.eval with
        | error e =>
            rw [hu] at h
            exact nomatch h
        | ok v =>
            rw [hu] at h
            exact List.mem_cons_of_mem _ (ih h)

section Exact

variable {s : CString} (h : NoOverflow s.bytes)

include h

theorem NoOverflow.eval_exact {t : CalcTree} (ht : t ∈ (calcReading s.bytes).trees) :
    t.eval = exactResult t.value ∨ t.eval = .error .divideError :=
  t.eval_exact fun u hu => h u ((calcReading_forest _).postorder_subset ht hu)

theorem NoOverflow.value_eq {t : CalcTree} (ht : t ∈ (calcReading s.bytes).trees) {v : Int64}
    (hv : t.eval = .ok v) : t.value = some v.toInt := by
  rcases h.eval_exact ht with hexact | htrap
  · rw [hv] at hexact
    cases hvalue : t.value with
    | none =>
        rw [hvalue] at hexact
        exact nomatch hexact
    | some z =>
        rw [hvalue] at hexact
        obtain rfl := Except.ok.inj hexact
        have hz := h t ht z hvalue
        rw [Int64.toInt_ofInt_of_le hz.1 hz.2]
  · rw [hv] at htrap
    exact nomatch htrap

/-- Without overflow only a remainder can trap: the quotient would be 2^63. -/
theorem NoOverflow.minByMinusOne_iff {t : CalcTree} (ht : t ∈ evaluatedIn s.bytes) :
    t.MinByMinusOne ↔ t.MinRemMinusOne := by
  have hforest := calcReading_forest s.bytes
  have hmem := mem_of_mem_evaluated ht
  have hoperand : ∀ u ∈ t.operands, u ∈ (calcReading s.bytes).trees := fun u hu =>
    hforest.postorder_subset hmem (CalcTree.operands_subset hu)
  constructor
  · rintro ⟨op, l, r, rfl, hop, hl, hr⟩
    have hlv := h.value_eq (hoperand l (List.mem_cons_self ..)) hl
    have hrv := h.value_eq
      (hoperand r (List.mem_cons_of_mem _ (List.mem_singleton_self r))) hr
    rcases hop with rfl | rfl
    · have hquotient := h _ hmem (2 ^ 63) (by
        rw [CalcTree.value_binary hlv hrv]
        rfl)
      exact absurd hquotient.2 (Int.lt_irrefl _)
    · exact ⟨l, r, rfl, hlv, hrv⟩
  · rintro ⟨l, r, rfl, hl, hr⟩
    have hground := hforest.grounded ht
    obtain ⟨a, ha⟩ := hground l (List.mem_cons_self ..)
    obtain ⟨b, hb⟩ := hground r (List.mem_cons_of_mem _ (List.mem_singleton_self r))
    have hlv := h.value_eq (hoperand l (List.mem_cons_self ..)) ha
    have hrv := h.value_eq
      (hoperand r (List.mem_cons_of_mem _ (List.mem_singleton_self r))) hb
    have ha_min : a = Int64.minValue := Int64.toInt_inj.mp (Option.some.inj (hlv.symm.trans hl))
    have hb_neg : b = -1 := Int64.toInt_inj.mp (Option.some.inj (hrv.symm.trans hr))
    exact ⟨_, l, r, rfl, .inr rfl, ha_min ▸ ha, hb_neg ▸ hb⟩

/-- Unless the call traps, an input denotes what its sentence evaluates to. -/
theorem NoOverflow.denotes_iff (out : Int64)
    (hsafe : calcEvaluate (some s) (some out) ≠ .divideError) (v : Int64) :
    Denotes s.bytes v ↔ ∃ t, CalcSentence s.bytes t ∧ t.eval = .ok v := by
  refine exists_congr fun t => and_congr_right fun ht => ?_
  have hmem : t ∈ (calcReading s.bytes).trees := calcReading_trees ht ▸ t.mem_postorder_self
  constructor
  · intro hv
    rcases h.eval_exact hmem with hexact | htrap
    · rw [hexact, hv, exactResult, Int64.ofInt_toInt]
    · refine absurd ?_ hsafe
      have hstop : evalAll (calcReading s.bytes).trees = .error .divideError := by
        rw [calcReading_trees ht, evalAll_postorder, htrap]
        rfl
      rw [calcEvaluate_of_stop s out hstop, if_pos rfl]
  · exact h.value_eq hmem

theorem NoOverflow.correct_iff (out : Int64) :
    CalcCorrect s out ↔ calcEvaluate (some s) (some out) ≠ .divideError := by
  constructor
  · rintro ⟨hvalue, hother⟩ htrap
    by_cases hdenotes : ∃ v, Denotes s.bytes v
    · obtain ⟨v, hv⟩ := hdenotes
      exact absurd (htrap.symm.trans ((hvalue v).mpr hv)) nofun
    · exact absurd (htrap.symm.trans (hother (not_exists.mp hdenotes))) nofun
  · intro hsafe
    have hvalue : ∀ v, calcEvaluate (some s) (some out) = .returned 0 (some v) ↔
        Denotes s.bytes v := fun v =>
      (calcEvaluate_eq_returned_iff s out v).trans (h.denotes_iff out hsafe v).symm
    refine ⟨hvalue, fun hnone => ?_⟩
    exact calcEvaluate_of_no_value s out (fun v hv => hnone v ((hvalue v).mp hv)) hsafe

end Exact

/-- Without overflow the calculator is correct exactly on the inputs in which no remainder of
-2^63 by -1 is evaluated. -/
theorem calcEvaluate_correct_iff (s : CString) (out : Int64) (h : NoOverflow s.bytes) :
    CalcCorrect s out ↔ ∀ t ∈ evaluatedIn s.bytes, ¬ t.MinRemMinusOne := by
  rw [h.correct_iff out, ne_eq, calcEvaluate_eq_divideError_iff, not_exists]
  refine forall_congr' fun t => ?_
  rw [not_and]
  exact forall_congr' fun ht => not_congr (h.minByMinusOne_iff ht)

/-- `1 + 2 * (7 - 3)`. -/
def calcSample : CString := ⟨[49, 32, 43, 32, 50, 42, 40, 55, 45, 51, 41], by decide⟩

theorem calcEvaluate_correct_sample :
    CalcCorrect calcSample 0 ↔ ∀ t ∈ evaluatedIn calcSample.bytes, ¬ t.MinRemMinusOne :=
  calcEvaluate_correct_iff calcSample 0 (by decide +kernel)

/-- `(-9223372036854775807-1)%-1`. -/
def calcMinRem : CString :=
  ⟨[40, 45, 57, 50, 50, 51, 51, 55, 50, 48, 51, 54, 56, 53, 52, 55, 55, 53, 56, 48, 55, 45, 49,
    41, 37, 45, 49], by decide⟩

theorem calcMinRem_not_correct :
    NoOverflow calcMinRem.bytes ∧ calcEvaluate (some calcMinRem) (some 0) = .divideError ∧
      ¬ CalcCorrect calcMinRem 0 := by
  have hrange : NoOverflow calcMinRem.bytes := by decide +kernel
  have htrap : calcEvaluate (some calcMinRem) (some 0) = .divideError := by decide +kernel
  exact ⟨hrange, htrap, fun h => (hrange.correct_iff 0).mp h htrap⟩

/-- The same operands divided. -/
def calcMinDiv : CString :=
  ⟨[40, 45, 57, 50, 50, 51, 51, 55, 50, 48, 51, 54, 56, 53, 52, 55, 55, 53, 56, 48, 55, 45, 49,
    41, 47, 45, 49], by decide⟩

theorem calcMinDiv_traps : calcEvaluate (some calcMinDiv) (some 0) = .divideError := by
  decide +kernel

end AcharyaOS.Calc
