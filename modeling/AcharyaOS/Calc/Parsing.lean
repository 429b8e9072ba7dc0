import AcharyaOS.Calc.Reading

/-!
# The reader accepts the grammar

What the reader returns is derivable, everything derivable is read, and what it
has completed by any point is whole trees, each behind its parts.
-/

namespace AcharyaOS.Calc

open Foundation

/-! ## Soundness -/

/-- The reading ends in a value with `P`, or as malformed. -/
def ends : Chain.Lifting Reading where
  holds P x := match x.result with
    | .ok a => P a
    | .error e => e = .invalid
  holds_mono {_ _ _ x} hx h := by
    cases hx' : x.result with
    | error e => simpa only [hx'] using hx
    | ok a => exact h a (by simpa only [hx'] using hx)
  holds_pure h := h
  holds_bind {_ _ _ _ x f} hx hf := by
    rw [Reading.result_bind]
    cases hx' : x.result with
    | error e =>
        rw [hx'] at hx
        exact hx
    | ok a => exact hf a (by simpa only [hx'] using hx)

theorem ends_fail {γ : Type} {P : γ → Prop} : ends.holds P (.fail .invalid : Reading γ) := rfl

theorem ends_emit {P : CalcTree → Prop} {t : CalcTree} (h : P t) : ends.holds P (.emit t) := h

/-- The text `s` up to the rest of the reading, blanks behind it included, derives its
tree. -/
def ReadFrom (X : CalcSort) (s : List UInt8) (r : CalcTree × List UInt8) : Prop :=
  ∃ w n, s = w ++ (spaces n ++ r.2) ∧ Derives X w r.1

theorem Derives.ne_nil {X : CalcSort} {w : List UInt8} {t : CalcTree} (h : Derives X w t) :
    w ≠ [] := by
  induction h with
  | number n hne => simp [hne]
  | paren => simp
  | sign => simp
  | first _ ih => exact ih
  | next => simp

theorem Derives.length_pos {X : CalcSort} {w : List UInt8} {t : CalcTree} (h : Derives X w t) :
    0 < w.length := List.length_pos_iff.mpr h.ne_nil

theorem ReadFrom.length_lt {X : CalcSort} {s : List UInt8} {r : CalcTree × List UInt8}
    (h : ReadFrom X s r) : r.2.length < s.length := by
  obtain ⟨w, n, hs, hw⟩ := h
  have hpos := hw.length_pos
  rw [hs, List.length_append, List.length_append]
  omega

theorem Derives.skip {X : CalcSort} {w : List UInt8} {t : CalcTree} (h : Derives X w t)
    (n : Nat) : Derives X (spaces n ++ w) t := by
  induction h with
  | number m hne hdigits =>
      rw [spaces_append_spaces]
      exact .number (n + m) hne hdigits
  | paren m j h =>
      rw [spaces_append_spaces]
      exact .paren (n + m) j h
  | sign m hc h =>
      rw [spaces_append_spaces]
      exact .sign (n + m) hc h
  | first _ ih => exact .first ih
  | next m _ hop hr ih =>
      rw [← List.append_assoc]
      exact .next m ih hop hr

theorem readNumber_sound (s : List UInt8) :
    ends.holds (ReadFrom .factor s) (readNumber s) := by
  obtain ⟨n, hn⟩ := calcSkipSpaces_split s
  rw [readNumber]
  cases hdigits : (calcSkipSpaces s).takeWhile isDigit with
  | nil => exact ends_fail
  | cons c digits =>
      refine ends.holds_bind (ends_emit rfl) ?_
      rintro _ rfl
      refine ends.holds_pure ⟨spaces n ++ (c :: digits), 0, ?_, ?_⟩
      · have hsplit := (calcSkipSpaces s).takeWhile_append_dropWhile (p := isDigit)
        rw [hdigits] at hsplit
        conv_lhs => rw [hn, ← hsplit]
        simp [spaces]
      · refine .number n (List.cons_ne_nil c digits) fun d hd => ?_
        rw [← hdigits] at hd
        exact List.mem_takeWhile_imp hd

theorem ReadFrom.skip {X : CalcSort} {s p : List UInt8} {t : CalcTree}
    (h : ReadFrom X s (t, p)) : ReadFrom X s (t, calcSkipSpaces p) := by
  obtain ⟨w, n, hs, hw⟩ := h
  obtain ⟨j, hj⟩ := calcSkipSpaces_split p
  refine ⟨w, n + j, ?_, hw⟩
  rw [hs, ← spaces_append_spaces]
  exact congrArg (fun q => w ++ (spaces n ++ q)) hj

theorem ReadFrom.next {k : CalcLevel} {s p q : List UInt8} {l r : CalcTree} {op : UInt8}
    (hl : ReadFrom (.chain k) s (l, p)) (hskip : calcSkipSpaces p = op :: q)
    (hop : k.isOp op = true) {rest : List UInt8} (hr : ReadFrom k.operand q (r, rest)) :
    ReadFrom (.chain k) s (.binary op l r, rest) := by
  obtain ⟨w, n, hs, hw⟩ := hl.skip
  obtain ⟨v, m, hq, hv⟩ := hr
  refine ⟨w ++ (spaces n ++ op :: v), m, ?_, .next n hw hop hv⟩
  rw [hs]
  simp only at hq ⊢
  rw [hskip, hq]
  simp only [List.append_assoc, List.cons_append]

/-- A chain of sound operands reads sound chains, and its loop does not run out of fuel. -/
theorem readChain_sound (k : CalcLevel) {operand : List UInt8 → TreeReading} {s : List UInt8}
    (h : ∀ p, p.length ≤ s.length → ends.holds (ReadFrom k.operand p) (operand p)) :
    ends.holds (ReadFrom (.chain k) s) ((readChain k operand).parse s) := by
  -- the invariant: the text so far derives `left`, and the fuel exceeds the text left
  have hloop := Chain.loop_holds ends (c := readChain k operand)
    (I := fun n left p => p.length < n ∧ ReadFrom (.chain k) s (left, p))
    (Q := ReadFrom (.chain k) s)
    (fun left p hI => absurd hI.1 (Nat.not_lt_zero _))
    (fun n left p hI _ => hI.2.skip)
    (fun n left p op q hI hnext => by
      obtain ⟨hlen, hread⟩ := hI
      obtain ⟨hskip, hop⟩ := Chain.next_eq_some hnext
      have hq : q.length < p.length := by
        have hle := length_calcSkipSpaces_le p
        rw [show calcSkipSpaces p = op :: q from hskip, List.length_cons] at hle
        exact hle
      have hps : p.length < s.length := hread.length_lt
      refine ends.holds_mono (h q (by omega)) fun r hr => ends_emit ⟨?_, ?_⟩
      · have hrq := hr.length_lt
        omega
      · exact hread.next hskip hop hr)
  refine ends.holds_bind (h s le_rfl) fun r hr => hloop _ _ _ ⟨Nat.lt_succ_self _, ?_⟩
  obtain ⟨w, n, hs, hw⟩ := hr
  exact ⟨w, n, hs, .first hw⟩

theorem readExpr_sound {factor : List UInt8 → TreeReading} {s : List UInt8}
    (h : ∀ p, p.length ≤ s.length → ends.holds (ReadFrom .factor p) (factor p)) :
    ends.holds (ReadFrom .expr s) (readExpr factor s) :=
  readChain_sound .add fun _ hp => readChain_sound .mul fun q hq => h q (hq.trans hp)

/-- With more fuel than text the reader ends in a derivable prefix or as malformed. -/
theorem readFactor_sound (fuel : Nat) : ∀ s, s.length < fuel →
    ends.holds (ReadFrom .factor s) (readFactor fuel s) := by
  induction fuel with
  | zero => exact fun s hs => absurd hs (Nat.not_lt_zero _)
  | succ fuel ih =>
      intro s hs
      obtain ⟨n, hn⟩ := calcSkipSpaces_split s
      rw [readFactor]
      cases hskip : calcSkipSpaces s with
      | nil => exact ends_fail
      | cons c p =>
          rw [hskip] at hn
          have hp : p.length < fuel := by
            rw [hn, List.length_append, List.length_cons] at hs
            omega
          simp only
          split
          · next hc =>
            rw [beq_iff_eq] at hc
            refine ends.holds_bind (readExpr_sound fun q hq => ih q (hq.trans_lt hp)) ?_
            rintro ⟨t, q⟩ ⟨w, m, hpq, hw⟩
            obtain ⟨j, hj⟩ := calcSkipSpaces_split q
            simp only at hpq ⊢
            cases hq : calcSkipSpaces q with
            | nil => exact ends_fail
            | cons c' q' =>
                simp only
                split
                · next hc' =>
                  rw [beq_iff_eq] at hc'
                  refine ends.holds_pure ⟨_, 0, ?_, .paren n (m + j) hw⟩
                  rw [hn, hpq, hj, hq, hc, hc', spaces_append_spaces]
                  simp [spaces]
                · exact ends_fail
          · split
            · next hc =>
              refine ends.holds_bind (ih p hp) ?_
              rintro ⟨t, q⟩ ⟨w, m, hpq, hw⟩
              refine ends.holds_bind (ends_emit rfl) ?_
              rintro _ rfl
              refine ends.holds_pure ⟨_, m, ?_, .sign n hc hw⟩
              rw [hn, hpq]
              simp
            · refine ends.holds_mono (readNumber_sound (c :: p)) ?_
              rintro ⟨t, q⟩ ⟨w, m, hpq, hw⟩
              refine ⟨spaces n ++ w, m, ?_, hw.skip n⟩
              rw [hn, hpq, List.append_assoc]

/-! ## Completeness -/

/-- The text behind a complete `X`: no digit that would lengthen a number and, behind an
expression, no operator that would bind its last term. -/
structure Closes (X : CalcSort) (rest : List UInt8) : Prop where
  digit : ∀ c ∈ rest.head?, isDigit c = false
  mulOp : X = .expr → ∀ c ∈ (calcSkipSpaces rest).head?, calcIsMulOp c = false

theorem Closes.operand {k : CalcLevel} {rest : List UInt8} (h : Closes (.chain k) rest) :
    Closes k.operand rest :=
  ⟨h.digit, fun hk => by cases k <;> exact nomatch hk⟩

/-- What reading a complete `X` in front of `rest` comes to: its tree, or for a chain the
loop with the tree so far. -/
def Continues (fuel : Nat) (t : CalcTree) (rest : List UInt8)
    (result : Except CalcStop (CalcTree × List UInt8)) : CalcSort → Prop
  | .factor => result = .ok (t, rest)
  | .chain k => ∃ n, (calcSkipSpaces rest).length < n ∧
      result = ((readChain k (readSort fuel k.operand)).loop n t rest).result

theorem Continues.operand {fuel : Nat} {k : CalcLevel} {t : CalcTree} {rest : List UInt8}
    {result : Except CalcStop (CalcTree × List UInt8)} (hrest : Closes (.chain k) rest)
    (h : Continues fuel t rest result k.operand) :
    ∃ p, result = .ok (t, p) ∧ calcSkipSpaces p = calcSkipSpaces rest := by
  cases k with
  | mul => exact ⟨rest, h, rfl⟩
  | add =>
      obtain ⟨n, hn, hresult⟩ := h
      refine ⟨calcSkipSpaces rest, ?_, calcSkipSpaces_idem rest⟩
      obtain ⟨n, rfl⟩ := Nat.exists_eq_add_of_lt hn
      rw [hresult, Chain.loop_of_none (Chain.next_eq_none (hrest.mulOp rfl))]
      rfl

theorem loop_congr_skip {k : CalcLevel} {operand : List UInt8 → TreeReading} {n : Nat}
    {t : CalcTree} {p q : List UInt8} (h : calcSkipSpaces p = calcSkipSpaces q) :
    (readChain k operand).loop (n + 1) t p = (readChain k operand).loop (n + 1) t q := by
  have hnext : (readChain k operand).next p = (readChain k operand).next q := by
    simp only [Chain.next, readChain, h]
  rw [Chain.loop, Chain.loop, hnext]
  simp only [readChain, h]

theorem CalcLevel.isOp_spec {k : CalcLevel} {op : UInt8} (h : k.isOp op = true) :
    isDigit op = false ∧ op ≠ ' '.toUInt8 ∧ (k = .add → calcIsMulOp op = false) := by
  cases k with
  | mul =>
      simp only [isOp, calcIsMulOp, Bool.or_eq_true, beq_iff_eq] at h
      rcases h with (rfl | rfl) | rfl <;> exact ⟨by decide, by decide, nofun⟩
  | add =>
      simp only [isOp, calcIsAddOp, Bool.or_eq_true, beq_iff_eq] at h
      rcases h with rfl | rfl <;> exact ⟨by decide, by decide, fun _ => by decide⟩

theorem head?_spaces_append {n : Nat} {c : UInt8} (hc : isDigit c = false) (s : List UInt8) :
    ∀ d ∈ (spaces n ++ c :: s).head?, isDigit d = false := by
  cases n with
  | zero =>
      rintro d ⟨⟩
      exact hc
  | succ n =>
      rintro d ⟨⟩
      decide

theorem takeWhile_digits {digits rest : List UInt8} (hdigits : ∀ c ∈ digits, isDigit c = true)
    (hrest : ∀ c ∈ rest.head?, isDigit c = false) :
    (digits ++ rest).takeWhile isDigit = digits ∧ (digits ++ rest).dropWhile isDigit = rest := by
  have hstop : rest.takeWhile isDigit = [] ∧ rest.dropWhile isDigit = rest := by
    cases rest with
    | nil => exact ⟨rfl, rfl⟩
    | cons c rest =>
        have hc : isDigit c = false := hrest c rfl
        simp [hc]
  rw [List.takeWhile_append_of_pos hdigits, List.dropWhile_append_of_pos hdigits, hstop.1,
    hstop.2, List.append_nil]
  exact ⟨rfl, rfl⟩

theorem isDigit_spec {c : UInt8} (h : isDigit c = true) :
    c ≠ ' '.toUInt8 ∧ c ≠ '('.toUInt8 ∧ calcIsAddOp c = false := by
  refine ⟨?_, ?_, ?_⟩
  · rintro rfl
    exact absurd h (by decide)
  · rintro rfl
    exact absurd h (by decide)
  · cases hop : calcIsAddOp c with
    | false => rfl
    | true => exact absurd h (by simp [(CalcLevel.isOp_spec (k := .add) hop).1])

theorem readNumber_complete {digits rest : List UInt8} (hne : digits ≠ [])
    (hdigits : ∀ c ∈ digits, isDigit c = true) (hrest : ∀ c ∈ rest.head?, isDigit c = false)
    (fuel : Nat) (n : Nat) :
    (readFactor (fuel + 1) (spaces n ++ (digits ++ rest))).result =
      .ok (.number digits, rest) := by
  obtain ⟨hread, hleft⟩ := takeWhile_digits hdigits hrest
  obtain ⟨c, digits, rfl⟩ := List.exists_cons_of_ne_nil hne
  have hc : isDigit c = true := hdigits c (List.mem_cons_self ..)
  obtain ⟨hspace, hparen, hsign⟩ := isDigit_spec hc
  have hskip : calcSkipSpaces (c :: digits ++ rest) = c :: digits ++ rest :=
    calcSkipSpaces_cons hspace _
  rw [readFactor, calcSkipSpaces_append, hskip]
  simp only [List.cons_append, beq_iff_eq, hparen, if_false, hsign, Bool.false_eq_true]
  rw [← List.cons_append, readNumber, hskip, hread, hleft]
  rfl

/-- In front of any text that closes it, `w` is read as a complete `X` with the tree `t`. -/
def ReadsAs (X : CalcSort) (w : List UInt8) (t : CalcTree) : Prop :=
  ∀ fuel rest, (w ++ rest).length < fuel → Closes X rest →
    Continues fuel t rest (readSort fuel X (w ++ rest)).result X

namespace ReadsAs

variable {k : CalcLevel} {v w : List UInt8} {l r t : CalcTree}

theorem number (n : Nat) {digits : List UInt8} (hne : digits ≠ [])
    (hdigits : ∀ c ∈ digits, isDigit c = true) :
    ReadsAs .factor (spaces n ++ digits) (.number digits) := by
  intro fuel rest hfuel hrest
  obtain ⟨fuel, rfl⟩ := Nat.exists_eq_add_of_lt hfuel
  rw [List.append_assoc]
  exact readNumber_complete hne hdigits hrest.digit _ n

theorem result_expr (h : ReadsAs .expr w t) {fuel : Nat} {rest : List UInt8}
    (hfuel : (w ++ rest).length < fuel) (hclose : Closes .expr rest)
    (hend : ∀ c ∈ (calcSkipSpaces rest).head?, calcIsAddOp c = false) :
    (readSort fuel .expr (w ++ rest)).result = .ok (t, calcSkipSpaces rest) := by
  obtain ⟨N, hN, hread⟩ := h _ _ hfuel hclose
  obtain ⟨N, rfl⟩ := Nat.exists_eq_add_of_lt hN
  have hnone : (readChain .add (readSort fuel (CalcLevel.operand .add))).next rest = none :=
    Chain.next_eq_none hend
  rw [hread, Chain.loop_of_none hnone]
  rfl

theorem paren (h : ReadsAs .expr w t) (n m : Nat) :
    ReadsAs .factor (spaces n ++ '('.toUInt8 :: (w ++ (spaces m ++ [')'.toUInt8]))) t := by
  intro fuel rest hfuel _
  have htext : spaces n ++ '('.toUInt8 :: (w ++ (spaces m ++ [')'.toUInt8])) ++ rest =
      spaces n ++ '('.toUInt8 :: (w ++ (spaces m ++ ')'.toUInt8 :: rest)) := by
    simp
  obtain ⟨fuel, rfl⟩ := Nat.exists_eq_add_of_lt hfuel
  have hlen : (w ++ (spaces m ++ ')'.toUInt8 :: rest)).length <
      (spaces n ++ '('.toUInt8 :: (w ++ (spaces m ++ [')'.toUInt8])) ++ rest).length +
        fuel := by
    simp only [List.length_append, List.length_cons, List.length_nil]
    omega
  have hskip : calcSkipSpaces (spaces m ++ ')'.toUInt8 :: rest) = ')'.toUInt8 :: rest := by
    rw [calcSkipSpaces_append, calcSkipSpaces_cons (by decide)]
  have hhead : ∀ c ∈ (calcSkipSpaces (spaces m ++ ')'.toUInt8 :: rest)).head?,
      c = ')'.toUInt8 := by
    rw [hskip]
    rintro c ⟨⟩
    rfl
  have hclose : Closes .expr (spaces m ++ ')'.toUInt8 :: rest) :=
    ⟨head?_spaces_append (by decide) rest, fun _ c hc => hhead c hc ▸ by decide⟩
  have hread := h.result_expr hlen hclose fun c hc => hhead c hc ▸ by decide
  rw [hskip] at hread
  rw [htext] at hread ⊢
  change (readFactor _ _).result = _
  rw [readFactor, calcSkipSpaces_append, calcSkipSpaces_cons (by decide)]
  simp only [beq_self_eq_true, if_true, Reading.result_bind]
  change (readSort _ .expr _).result >>= _ = _
  rw [hread]
  rfl

theorem sign (h : ReadsAs .factor w t) (n : Nat) {c : UInt8} (hc : calcIsAddOp c = true) :
    ReadsAs .factor (spaces n ++ c :: w) (.sign c t) := by
  intro fuel rest hfuel hrest
  obtain ⟨fuel, rfl⟩ := Nat.exists_eq_add_of_lt hfuel
  obtain ⟨-, hspace, -⟩ := CalcLevel.isOp_spec (k := .add) hc
  have hparen : c ≠ '('.toUInt8 := by
    rintro rfl
    exact absurd hc (by decide)
  have hlen : (w ++ rest).length < (spaces n ++ c :: w ++ rest).length + fuel := by
    simp only [List.length_append, List.length_cons]
    omega
  have hread := h _ rest hlen ⟨hrest.digit, nofun⟩
  have htext : spaces n ++ c :: w ++ rest = spaces n ++ c :: (w ++ rest) := by simp
  rw [htext] at hread ⊢
  change (readFactor _ _).result = _
  rw [readFactor, calcSkipSpaces_append, calcSkipSpaces_cons hspace]
  simp only [beq_iff_eq, hparen, if_false, hc, if_true, Reading.result_bind]
  rw [show (readFactor _ (w ++ rest)).result = .ok (t, rest) from hread]
  rfl

theorem first (h : ReadsAs k.operand w t) : ReadsAs (.chain k) w t := by
  intro fuel rest hfuel hrest
  rw [readSort_chain]
  obtain ⟨p, hp, hskip⟩ := (h fuel rest hfuel hrest.operand).operand hrest
  refine ⟨p.length + 1, ?_, ?_⟩
  · rw [← hskip]
    exact Nat.lt_succ_of_le (length_calcSkipSpaces_le p)
  · rw [← loop_congr_skip hskip, Chain.parse, Reading.result_bind]
    change (readSort fuel _ _).result >>= _ = _
    rw [hp]
    rfl

theorem next (hl : ReadsAs (.chain k) w l) (n : Nat) {op : UInt8} (hop : k.isOp op = true)
    (hr : ReadsAs k.operand v r) :
    ReadsAs (.chain k) (w ++ (spaces n ++ op :: v)) (.binary op l r) := by
  intro fuel rest hfuel hrest
  obtain ⟨hdigit, hspace, hmul⟩ := CalcLevel.isOp_spec hop
  have htext : w ++ (spaces n ++ op :: v) ++ rest = w ++ (spaces n ++ op :: (v ++ rest)) := by
    simp
  have hskip : calcSkipSpaces (spaces n ++ op :: (v ++ rest)) = op :: (v ++ rest) := by
    rw [calcSkipSpaces_append, calcSkipSpaces_cons hspace]
  have hclose : Closes (.chain k) (spaces n ++ op :: (v ++ rest)) := by
    refine ⟨head?_spaces_append hdigit _, ?_⟩
    rintro ⟨⟩ c hc
    rw [hskip] at hc
    cases hc
    exact hmul rfl
  rw [htext] at hfuel ⊢
  obtain ⟨N, hN, hread⟩ := hl fuel _ hfuel hclose
  rw [hskip] at hN
  have hright : (v ++ rest).length < fuel := by
    simp only [List.length_append, List.length_cons] at hfuel ⊢
    omega
  obtain ⟨p, hp, hpskip⟩ := (hr fuel rest hright hrest.operand).operand hrest
  have hrest_le := length_calcSkipSpaces_le rest
  simp only [List.length_cons, List.length_append] at hN
  obtain ⟨N, rfl⟩ : ∃ M, N = M + 1 + 1 := ⟨N - 2, by omega⟩
  refine ⟨N + 1, by omega, ?_⟩
  rw [hread, Chain.loop_of_next (Chain.next_of_skip hskip hop), ← loop_congr_skip hpskip,
    Reading.result_bind]
  change (readSort fuel _ _).result >>= _ = _
  rw [hp]
  rfl

end ReadsAs

theorem Derives.complete {X : CalcSort} {w : List UInt8} {t : CalcTree} (h : Derives X w t) :
    ReadsAs X w t := by
  induction h with
  | number n hne hdigits => exact .number n hne hdigits
  | paren n m _ ih => exact ih.paren n m
  | sign n hc _ ih => exact ih.sign n hc
  | first _ ih => exact ih.first
  | next n _ hop _ ihl ihr => exact ihl.next n hop ihr

/-! ## The trees completed -/

/-- Whole trees one behind the other, each behind its parts. -/
def Forest (ts : List CalcTree) : Prop := ∃ us : List CalcTree, ts = us.flatMap CalcTree.postorder

theorem forest_postorder (t : CalcTree) : Forest t.postorder := ⟨[t], by simp⟩

theorem Forest.append {ts us : List CalcTree} (ht : Forest ts) (hu : Forest us) :
    Forest (ts ++ us) := by
  obtain ⟨t, rfl⟩ := ht
  obtain ⟨u, rfl⟩ := hu
  exact ⟨t ++ u, List.flatMap_append.symm⟩

/-- Behind the trees `ts`, the reading completes its tree or leaves whole trees. -/
def Planted (ts : List CalcTree) (x : TreeReading) : Prop :=
  (∀ r, x.result = .ok r → ts ++ x.trees = r.1.postorder) ∧ Forest (ts ++ x.trees)

theorem Planted.of_error {ts : List CalcTree} {x : TreeReading} {e : CalcStop}
    (h : x.result = .error e) (hts : Forest (ts ++ x.trees)) : Planted ts x :=
  ⟨fun _ hr => absurd (h.symm.trans hr) nofun, hts⟩

theorem Planted.of_ok {ts : List CalcTree} {x : TreeReading} {t : CalcTree} {p : List UInt8}
    (h : x.result = .ok (t, p)) (hts : ts ++ x.trees = t.postorder) : Planted ts x := by
  refine ⟨fun r hr => ?_, hts ▸ forest_postorder t⟩
  rw [h] at hr
  cases hr
  exact hts

theorem planted_fail {ts : List CalcTree} (h : Forest ts) (e : CalcStop) :
    Planted ts (.fail e) := .of_error rfl (by simpa [Reading.fail] using h)

/-- What follows a reading is planted behind the tree it completed. -/
theorem Planted.bind {x : TreeReading} (hx : Planted [] x) {ts : List CalcTree} (hts : Forest ts)
    {f : CalcTree × List UInt8 → TreeReading}
    (hf : ∀ t p, x.result = .ok (t, p) → Planted (ts ++ t.postorder) (f (t, p))) :
    Planted ts (x >>= f) := by
  cases h : x.result with
  | error e =>
      refine .of_error ((Reading.result_bind x f).trans (by rw [h]; rfl)) ?_
      rw [Reading.trees_bind_of_error h]
      exact hts.append hx.2
  | ok r =>
      obtain ⟨t, p⟩ := r
      have htrees := hx.1 (t, p) h
      have hp := hf t p h
      rw [List.nil_append] at htrees
      refine ⟨fun r hr => ?_, ?_⟩
      · rw [Reading.result_bind, h] at hr
        rw [Reading.trees_bind_of_ok h, htrees, ← List.append_assoc]
        exact hp.1 r hr
      · rw [Reading.trees_bind_of_ok h, htrees, ← List.append_assoc]
        exact hp.2

theorem planted_emit {ts : List CalcTree} {t : CalcTree} {f : CalcTree → TreeReading}
    (hts : ts ++ [t] = t.postorder) (hf : Planted t.postorder (f t)) :
    Planted ts (.emit t >>= f) := by
  have htrees : ts ++ (Reading.emit t >>= f).trees = t.postorder ++ (f t).trees := by
    rw [Reading.trees_bind_of_ok (a := t) rfl, ← List.append_assoc]
    exact congrArg (· ++ (f t).trees) hts
  refine ⟨fun r hr => htrees.trans (hf.1 r ?_), htrees ▸ hf.2⟩
  rwa [Reading.result_bind] at hr

theorem readNumber_planted (s : List UInt8) : Planted [] (readNumber s) := by
  rw [readNumber]
  split
  · exact planted_fail ⟨[], rfl⟩ _
  · exact .of_ok rfl rfl

theorem loop_planted (k : CalcLevel) {operand : List UInt8 → TreeReading}
    (h : ∀ s, Planted [] (operand s)) (n : Nat) :
    ∀ t s, Planted t.postorder ((readChain k operand).loop n t s) := by
  induction n with
  | zero => exact fun t s => planted_fail (forest_postorder t) _
  | succ n ih =>
      intro l s
      cases hs : (readChain k operand).next s with
      | none =>
          rw [Chain.loop_of_none hs]
          exact .of_ok rfl (List.append_nil _)
      | some next =>
          obtain ⟨op, p⟩ := next
          rw [Chain.loop_of_next hs]
          refine (h p).bind (forest_postorder l) fun r q _ => planted_emit ?_ (ih _ q)
          exact List.append_assoc ..

theorem readChain_planted (k : CalcLevel) {operand : List UInt8 → TreeReading}
    (h : ∀ s, Planted [] (operand s)) (s : List UInt8) :
    Planted [] ((readChain k operand).parse s) :=
  (h s).bind ⟨[], rfl⟩ fun t p _ => loop_planted k h _ t p

theorem readExpr_planted {factor : List UInt8 → TreeReading} (h : ∀ s, Planted [] (factor s))
    (s : List UInt8) : Planted [] (readExpr factor s) :=
  readChain_planted .add (readChain_planted .mul h) s

theorem readFactor_planted (fuel : Nat) : ∀ s, Planted [] (readFactor fuel s) := by
  induction fuel with
  | zero => exact fun s => planted_fail ⟨[], rfl⟩ _
  | succ fuel ih =>
      intro s
      rw [readFactor]
      split
      · exact planted_fail ⟨[], rfl⟩ _
      · split
        · refine (readExpr_planted ih _).bind ⟨[], rfl⟩ fun t p _ => ?_
          simp only
          split
          · split
            · exact .of_ok rfl (List.append_nil _)
            · exact planted_fail (forest_postorder t) _
          · exact planted_fail (forest_postorder t) _
        · split
          · refine (ih _).bind ⟨[], rfl⟩ fun t p _ => ?_
            exact .of_ok rfl rfl
          · exact readNumber_planted _

end AcharyaOS.Calc
