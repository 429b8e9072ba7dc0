import AcharyaOS.Foundation.Layer

/-!
# Painting

What a component draws is a layer over what it finds.  Layers drawn one after the other make
one layer, and so does a loop that draws.
-/

namespace AcharyaOS.Foundation

variable {σ ι α β : Type}

namespace Layer

/-- A layer that shows nothing. -/
def clear : Layer ι α := fun _ => none

/-- The second layer under the first one. -/
def above (upper lower : Layer ι α) : Layer ι α := fun i => (upper i).or (lower i)

/-- Layers from the lowest to the uppermost. -/
def stack : List (Layer ι α) → Layer ι α
  | [] => clear
  | l :: ls => (stack ls).above l

@[simp] theorem onto_clear (f : ι → α) : clear.onto f = f := rfl

theorem onto_above (upper lower : Layer ι α) (f : ι → α) :
    (upper.above lower).onto f = upper.onto (lower.onto f) := by
  funext i
  unfold onto above
  cases upper i <;> rfl

@[simp] theorem above_clear (l : Layer ι α) : l.above clear = l := by
  funext i
  exact Option.or_none

theorem above_assoc (l₁ l₂ l₃ : Layer ι α) : (l₁.above l₂).above l₃ = l₁.above (l₂.above l₃) := by
  funext i
  exact Option.or_assoc

theorem above_some (l : Layer ι α) (f : ι → α) :
    l.above (fun i => some (f i)) = fun i => some (l.onto f i) := by
  funext i
  unfold above onto
  cases l i <;> rfl

theorem above_apply_of_some {upper : Layer ι α} {i : ι} {a : α} (h : upper i = some a)
    (lower : Layer ι α) : upper.above lower i = some a := by
  unfold above
  rw [h, Option.some_or]

theorem above_apply_of_none {upper : Layer ι α} {i : ι} (h : upper i = none) (lower : Layer ι α) :
    upper.above lower i = lower i := by
  unfold above
  rw [h, Option.none_or]

theorem stack_eq_none {ls : List (Layer ι α)} {i : ι} (h : ∀ l ∈ ls, l i = none) :
    stack ls i = none := by
  induction ls with
  | nil => rfl
  | cons l ls ih =>
    rw [List.forall_mem_cons] at h
    rw [stack, above_apply_of_none (ih h.2)]
    exact h.1

/-- Where one layer alone shows something, the stack shows it. -/
theorem stack_map_of_unique {f : β → Layer ι α} {bs : List β} {b : β} {i : ι} (hb : b ∈ bs)
    (hunique : ∀ c ∈ bs, f c i ≠ none → c = b) : stack (bs.map f) i = f b i := by
  induction bs with
  | nil => exact absurd hb List.not_mem_nil
  | cons c cs ih =>
    rw [List.forall_mem_cons] at hunique
    rw [List.map_cons, stack]
    by_cases hcs : b ∈ cs
    · have hrest := ih hcs hunique.2
      cases hshown : f b i with
      | some a => exact above_apply_of_some (hrest.trans hshown) _
      | none =>
          rw [above_apply_of_none (hrest.trans hshown)]
          by_contra hne
          rw [← hunique.1 hne] at hshown
          exact hne hshown
    · have hfirst : b = c := (List.mem_cons.mp hb).resolve_right hcs
      subst hfirst
      refine above_apply_of_none (stack_eq_none fun l hl => ?_) _
      obtain ⟨d, hd, rfl⟩ := List.mem_map.mp hl
      by_contra hne
      exact hcs (hunique.2 d hd hne ▸ hd)

theorem region_apply_of_pos {r : ι → Prop} [DecidablePred r] {i : ι} (h : r i) (c : ι → α) :
    region r c i = some (c i) := if_pos h

theorem region_apply_of_neg {r : ι → Prop} [DecidablePred r] {i : ι} (h : ¬ r i) (c : ι → α) :
    region r c i = none := if_neg h

theorem region_above (r : ι → Prop) [DecidablePred r] (c : ι → α) (lower : Layer ι α) (i : ι) :
    (region r c).above lower i = if r i then some (c i) else lower i := by
  by_cases h : r i
  · rw [if_pos h]
    exact above_apply_of_some (region_apply_of_pos h c) lower
  · rw [if_neg h]
    exact above_apply_of_none (region_apply_of_neg h c) lower

/-- A region inside another one of the same colour is not seen. -/
theorem region_above_region {r r' : ι → Prop} [DecidablePred r] [DecidablePred r']
    (h : ∀ i, r i → r' i) (c : ι → α) : (region r c).above (region r' c) = region r' c := by
  funext i
  rw [region_above]
  by_cases hi : r i
  · rw [if_pos hi, region_apply_of_pos (h i hi)]
  · rw [if_neg hi]

end Layer

/-! ## Drawing -/

/-- A drawing on a screen in order keeps it so, and lays one layer over what it shows. -/
def Paints (ok : σ → Prop) (view : σ → ι → α) (l : Layer ι α) (draw : σ → Option σ) : Prop :=
  ∀ s, ok s → ∃ t, draw s = some t ∧ ok t ∧ view t = l.onto (view s)

namespace Paints

variable {ok : σ → Prop} {view : σ → ι → α}

theorem nothing : Paints ok view .clear some := fun s hs => ⟨s, rfl, hs, rfl⟩

theorem bind {lower upper : Layer ι α} {draw draw' : σ → Option σ} (h : Paints ok view lower draw)
    (h' : Paints ok view upper draw') :
    Paints ok view (upper.above lower) fun s => (draw s).bind draw' := by
  intro s hs
  obtain ⟨t, ht, hok, hview⟩ := h s hs
  obtain ⟨u, hu, hok', hview'⟩ := h' t hok
  refine ⟨u, ?_, hok', ?_⟩
  · show (draw s).bind draw' = some u
    rw [ht, Option.bind_some, hu]
  · rw [hview', hview, Layer.onto_above]

theorem congr {l l' : Layer ι α} {draw draw' : σ → Option σ} (h : Paints ok view l draw)
    (hl : l = l') (hdraw : ∀ s, draw s = draw' s) : Paints ok view l' draw' := by
  intro s hs
  rw [← hdraw, ← hl]
  exact h s hs

theorem ite {p : Prop} [Decidable p] {l : Layer ι α} {draw : σ → Option σ}
    (h : Paints ok view l draw) :
    Paints ok view (if p then l else .clear) fun s => if p then draw s else some s := by
  by_cases hp : p
  · simp only [if_pos hp]
    exact h
  · simp only [if_neg hp]
    exact nothing

theorem ite_bind {p : Prop} [Decidable p] {lower upper : Layer ι α} {draw draw' : σ → Option σ}
    (h : Paints ok view lower draw) (h' : Paints ok view upper draw') :
    Paints ok view (upper.above (if p then lower else .clear)) fun s =>
      if p then (draw s).bind draw' else draw' s := by
  by_cases hp : p
  · simp only [if_pos hp]
    exact h.bind h'
  · simp only [if_neg hp]
    exact nothing.bind h'

theorem foldlM {f : β → Layer ι α} {draw : σ → β → Option σ} (bs : List β)
    (h : ∀ b ∈ bs, Paints ok view (f b) fun s => draw s b) :
    Paints ok view (Layer.stack (bs.map f)) fun s => bs.foldlM draw s := by
  induction bs with
  | nil => exact nothing
  | cons b bs ih =>
    rw [List.forall_mem_cons] at h
    exact h.1.bind (ih h.2)

end Paints

end AcharyaOS.Foundation
