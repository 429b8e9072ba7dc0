import AcharyaOS.Foundation.Run

/-!
# Acceptors

An observer of a trace: what each event does to its state, and which events it admits there.  A
trace is followed segment by segment, each of which is admitted and leads from one state to
another.
-/

namespace AcharyaOS.Foundation

open Run

universe u v

structure Acceptor (σ : Type u) (ι : Type v) where
  next : σ → ι → σ
  Admits : σ → ι → Prop

namespace Acceptor

variable {σ : Type u} {ι : Type v} {A : Acceptor σ ι} {s t r : σ}

/-- All of the segment is admitted from `s` on, and `t` is the state behind it. -/
structure Leads (A : Acceptor σ ι) (s : σ) (is : List ι) (t : σ) : Prop where
  admitted : AllSteps A.next A.Admits s is
  behind : runSteps A.next s is = t

theorem Leads.nil (s : σ) : A.Leads s [] s := ⟨trivial, rfl⟩

theorem Leads.single {i : ι} (h : A.Admits s i) : A.Leads s [i] (A.next s i) :=
  ⟨⟨h, trivial⟩, rfl⟩

theorem Leads.append {is js : List ι} (h : A.Leads s is t) (h' : A.Leads t js r) :
    A.Leads s (is ++ js) r := by
  have hadmitted : AllSteps A.next A.Admits (runSteps A.next s is) js := by
    rw [h.behind]
    exact h'.admitted
  refine ⟨(allSteps_append is js s).mpr ⟨h.admitted, hadmitted⟩, ?_⟩
  rw [runSteps_append, h.behind, h'.behind]

theorem Leads.cons {i : ι} {is : List ι} (h : A.Admits s i) (h' : A.Leads (A.next s i) is t) :
    A.Leads s (i :: is) t :=
  ⟨⟨h, h'.admitted⟩, h'.behind⟩

/-- The same events, one by one, where the events are the images of others. -/
theorem Leads.map {κ : Type v} {f : κ → ι} (state : List κ → σ)
    (hnext : ∀ ks k, A.next (state ks) (f k) = state (ks ++ [k])) {js : List κ} :
    ∀ {ks}, (∀ ls l ms, js = ls ++ l :: ms → A.Admits (state (ks ++ ls)) (f l)) →
      A.Leads (state ks) (js.map f) (state (ks ++ js)) := by
  induction js with
  | nil =>
      intro ks _
      rw [List.append_nil]
      exact .nil _
  | cons j js ih =>
      intro ks hadmits
      have hhead : A.Admits (state ks) (f j) := by
        have h := hadmits [] j js rfl
        rwa [List.append_nil] at h
      have hrest : A.Leads (state (ks ++ [j])) (js.map f) (state (ks ++ [j] ++ js)) := by
        apply ih
        intro ls l ms hjs
        rw [List.append_assoc]
        exact hadmits (j :: ls) l ms (by rw [hjs]; rfl)
      rw [List.append_assoc] at hrest
      apply Leads.cons hhead
      rw [hnext]
      exact hrest

end Acceptor

end AcharyaOS.Foundation
