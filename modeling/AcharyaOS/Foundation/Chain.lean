import Mathlib.Data.List.Basic

/-!
# Left-associative chains

A recursive-descent parser reads `operand (op operand)*` in a loop that applies each
operator to what it has so far.  The loop is written once, for any monad of results, with
two rules: one carries an invariant through it, one relates two parsers that read alike.
-/

namespace AcharyaOS.Foundation

/-- A chain of operands: the blanks to skip, the operators, and what is done with them;
`stop` is the result when the loop is out of fuel. -/
structure Chain (m : Type → Type) (τ α : Type) where
  skip : List τ → List τ
  isOp : τ → Bool
  operand : List τ → m (α × List τ)
  apply : α → α → τ → m α
  stop : m (α × List τ)

namespace Chain

section Parse

variable {m : Type → Type} {τ α : Type} (c : Chain m τ α)

/-- The operator the text continues with. -/
def next (s : List τ) : Option (τ × List τ) :=
  match c.skip s with
  | op :: p => if c.isOp op then some (op, p) else none
  | [] => none

variable {c}

theorem next_eq_some {s : List τ} {op : τ} {p : List τ} (h : c.next s = some (op, p)) :
    c.skip s = op :: p ∧ c.isOp op = true := by
  cases hs : c.skip s with
  | nil => simp [next, hs] at h
  | cons op' p' =>
      simp only [next, hs, Option.ite_none_right_eq_some, Option.some.injEq,
        Prod.mk.injEq] at h
      obtain ⟨hop, rfl, rfl⟩ := h
      exact ⟨rfl, hop⟩

theorem next_of_skip {s : List τ} {op : τ} {p : List τ} (hs : c.skip s = op :: p)
    (hop : c.isOp op = true) : c.next s = some (op, p) := by
  simp only [next, hs, hop, if_true]

theorem next_eq_none {s : List τ} (h : ∀ op ∈ (c.skip s).head?, c.isOp op = false) :
    c.next s = none := by
  cases hs : c.skip s with
  | nil => simp only [next, hs]
  | cons op p =>
      have hop : c.isOp op = false := h op (by simp [hs])
      simp [next, hs, hop]

variable [Monad m] (c)

def loop : Nat → α → List τ → m (α × List τ)
  | 0, _, _ => c.stop
  | n + 1, left, s =>
      match c.next s with
      | some (op, p) => do
          let (right, p) ← c.operand p
          let left ← c.apply left right op
          loop n left p
      | none => pure (left, c.skip s)

/-- Every round of the loop consumes an operator, so its length bounds the rounds. -/
def parse (s : List τ) : m (α × List τ) := do
  let (left, p) ← c.operand s
  c.loop (p.length + 1) left p

variable {c}

theorem loop_of_next {n : Nat} {left : α} {s : List τ} {op : τ} {p : List τ}
    (h : c.next s = some (op, p)) :
    c.loop (n + 1) left s = (do
      let (right, p) ← c.operand p
      let left ← c.apply left right op
      c.loop n left p) := by
  rw [loop, h]

theorem loop_of_none {n : Nat} {left : α} {s : List τ} (h : c.next s = none) :
    c.loop (n + 1) left s = pure (left, c.skip s) := by
  rw [loop, h]

end Parse

/-! ## Invariants -/

/-- A predicate on values lifted to results, monotone and closed under `pure` and `bind`. -/
structure Lifting (m : Type → Type) [Monad m] where
  holds : {γ : Type} → (γ → Prop) → m γ → Prop
  holds_mono {γ : Type} {P Q : γ → Prop} {x : m γ} : holds P x → (∀ a, P a → Q a) → holds Q x
  holds_pure {γ : Type} {P : γ → Prop} {a : γ} : P a → holds P (pure a)
  holds_bind {γ δ : Type} {P : γ → Prop} {Q : δ → Prop} {x : m γ} {f : γ → m δ} :
    holds P x → (∀ a, P a → holds Q (f a)) → holds Q (x >>= f)

section Invariant

variable {m : Type → Type} [Monad m] (L : Lifting m) {τ α : Type} {c : Chain m τ α}
  {I : Nat → α → List τ → Prop} {Q : α × List τ → Prop}

/-- The invariant `I` of the loop head, which also sees the fuel left, gives `Q` at the
end. -/
theorem loop_holds (hstop : ∀ left s, I 0 left s → L.holds Q c.stop)
    (hdone : ∀ n left s, I (n + 1) left s → c.next s = none → Q (left, c.skip s))
    (hnext : ∀ n left s op p, I (n + 1) left s → c.next s = some (op, p) →
      L.holds (fun r => L.holds (fun left' => I n left' r.2) (c.apply left r.1 op))
        (c.operand p)) (n : Nat) :
    ∀ left s, I n left s → L.holds Q (c.loop n left s) := by
  induction n with
  | zero => exact hstop
  | succ n ih =>
      intro left s hI
      cases hs : c.next s with
      | none =>
          rw [loop_of_none hs]
          exact L.holds_pure (hdone n left s hI hs)
      | some next =>
          obtain ⟨op, p⟩ := next
          rw [loop_of_next hs]
          refine L.holds_bind (hnext n left s op p hI hs) fun r hr => ?_
          exact L.holds_bind hr fun left' hI' => ih left' r.2 hI'

end Invariant

/-! ## Simulation -/

/-- A relation between values lifted to one between results, closed under `pure` and
`bind`. -/
structure Simulation (m n : Type → Type) [Monad m] [Monad n] where
  related : {γ δ : Type} → (γ → δ → Prop) → m γ → n δ → Prop
  related_pure {γ δ : Type} {R : γ → δ → Prop} {a : γ} {b : δ} :
    R a b → related R (pure a) (pure b)
  related_bind {γ δ γ' δ' : Type} {R : γ → δ → Prop} {R' : γ' → δ' → Prop} {x : m γ} {y : n δ}
    {f : γ → m γ'} {g : δ → n δ'} : related R x y → (∀ a b, R a b → related R' (f a) (g b)) →
    related R' (x >>= f) (y >>= g)

section Simulate

variable {m n : Type → Type} [Monad m] [Monad n] (S : Simulation m n) {τ α β : Type}

/-- Related values with the same text left. -/
def SameRest (R : α → β → Prop) (a : α × List τ) (b : β × List τ) : Prop :=
  R a.1 b.1 ∧ a.2 = b.2

variable {c : Chain m τ α} {d : Chain n τ β} {R : α → β → Prop}

theorem loop_related (hskip : c.skip = d.skip) (hisOp : c.isOp = d.isOp)
    (hstop : S.related (SameRest R) c.stop d.stop)
    (hoperand : ∀ s, S.related (SameRest R) (c.operand s) (d.operand s))
    (happly : ∀ op a b a' b', R a b → R a' b' → S.related R (c.apply a a' op) (d.apply b b' op))
    (k : Nat) : ∀ a b s, R a b → S.related (SameRest R) (c.loop k a s) (d.loop k b s) := by
  have hnext : ∀ s, c.next s = d.next s := fun s => by simp only [next, hskip, hisOp]
  induction k with
  | zero => exact fun _ _ _ _ => hstop
  | succ k ih =>
      intro a b s hab
      cases hs : d.next s with
      | none =>
          rw [loop_of_none hs, loop_of_none ((hnext s).trans hs), hskip]
          exact S.related_pure ⟨hab, rfl⟩
      | some next =>
          obtain ⟨op, p⟩ := next
          rw [loop_of_next hs, loop_of_next ((hnext s).trans hs)]
          refine S.related_bind (hoperand p) ?_
          rintro ⟨a', p'⟩ ⟨b', _⟩ ⟨hab', rfl⟩
          exact S.related_bind (happly op a b a' b' hab hab') fun a'' b'' h => ih a'' b'' p' h

theorem parse_related (hskip : c.skip = d.skip) (hisOp : c.isOp = d.isOp)
    (hstop : S.related (SameRest R) c.stop d.stop)
    (hoperand : ∀ s, S.related (SameRest R) (c.operand s) (d.operand s))
    (happly : ∀ op a b a' b', R a b → R a' b' → S.related R (c.apply a a' op) (d.apply b b' op))
    (s : List τ) : S.related (SameRest R) (c.parse s) (d.parse s) := by
  refine S.related_bind (hoperand s) ?_
  rintro ⟨a, p⟩ ⟨b, _⟩ ⟨hab, rfl⟩
  exact loop_related S hskip hisOp hstop hoperand happly _ a b p hab

end Simulate

end Chain

end AcharyaOS.Foundation
