import Mathlib.Logic.Basic

/-!
# Runs of a step function

A deterministic component is a function `step : σ → ι → σ` on its states, with
`ι` the type of labelled calls.  `Reach` collects the states of guarded runs,
`AllStates` and `AllSteps` speak about one run given by its list of labels.
Nothing here knows what the component is.
-/

namespace AcharyaOS.Foundation.Run

universe u v

variable {σ : Type u} {ι : Type v}

/-- The states reached from `init` by steps that `allow` admits in the state
they are taken from. -/
inductive Reach (init : σ → Prop) (step : σ → ι → σ) (allow : σ → ι → Prop) :
    σ → Prop
  | start {s : σ} (h : init s) : Reach init step allow s
  | next {s : σ} {i : ι} (h : Reach init step allow s) (hi : allow s i) :
      Reach init step allow (step s i)

namespace Reach

variable {init init' : σ → Prop} {step : σ → ι → σ} {allow allow' : σ → ι → Prop}

/-- The invariant rule: true at the start and kept by every admitted step. -/
theorem invariant {P : σ → Prop} (hinit : ∀ s, init s → P s)
    (hstep : ∀ s i, P s → allow s i → P (step s i)) {s : σ}
    (h : Reach init step allow s) : P s := by
  induction h with
  | start hs => exact hinit _ hs
  | next _ hi ih => exact hstep _ _ ih hi

theorem mono (hallow : ∀ s i, allow s i → allow' s i) {s : σ}
    (h : Reach init step allow s) : Reach init step allow' s := by
  induction h with
  | start hs => exact .start hs
  | next _ hi ih => exact .next ih (hallow _ _ hi)

end Reach

def runSteps (step : σ → ι → σ) (s : σ) (is : List ι) : σ := is.foldl step s

theorem runSteps_append (step : σ → ι → σ) (s : σ) (is js : List ι) :
    runSteps step s (is ++ js) = runSteps step (runSteps step s is) js := List.foldl_append

/-- The run of `is` that ends with its first step that is not `ok`. -/
def runUntil (step : σ → ι → σ) (ok : σ → ι → Bool) : σ → List ι → σ
  | s, [] => s
  | s, i :: is => if ok s i then runUntil step ok (step s i) is else step s i

/-- `P` holds in every state the run of `is` from `s` goes through. -/
def AllStates (step : σ → ι → σ) (P : σ → Prop) : σ → List ι → Prop
  | s, [] => P s
  | s, i :: is => P s ∧ AllStates step P (step s i) is

/-- `C` holds of every step of the run of `is` from `s`, in the state the step
is taken from. -/
def AllSteps (step : σ → ι → σ) (C : σ → ι → Prop) : σ → List ι → Prop
  | _, [] => True
  | s, i :: is => C s i ∧ AllSteps step C (step s i) is

instance decidableAllSteps {step : σ → ι → σ} {C : σ → ι → Prop}
    [∀ s i, Decidable (C s i)] : ∀ s is, Decidable (AllSteps step C s is)
  | _, [] => .isTrue trivial
  | s, i :: is =>
      have : Decidable (AllSteps step C (step s i) is) := decidableAllSteps (step s i) is
      inferInstanceAs (Decidable (_ ∧ _))

theorem Reach.runSteps {init : σ → Prop} {step : σ → ι → σ} {allow : σ → ι → Prop}
    (is : List ι) : ∀ {s}, Reach init step allow s → AllSteps step allow s is →
      Reach init step allow (runSteps step s is) := by
  induction is with
  | nil => exact fun h _ => h
  | cons i is ih => exact fun h hall => ih (.next h hall.1) hall.2

theorem runUntil_invariant {step : σ → ι → σ} {ok : σ → ι → Bool} {P : σ → Prop} {C : ι → Prop}
    (hstep : ∀ s i, P s → C i → P (step s i)) (is : List ι) :
    ∀ {s}, P s → (∀ i ∈ is, C i) → P (runUntil step ok s is) := by
  induction is with
  | nil => exact fun hs _ => hs
  | cons i is ih =>
      intro s hs hall
      rw [List.forall_mem_cons] at hall
      have hnext := hstep s i hs hall.1
      rw [runUntil]
      split
      · exact ih hnext hall.2
      · exact hnext

/-- A run without a step that is not `ok` is the run of the whole list. -/
theorem runUntil_of_allSteps {step : σ → ι → σ} {ok : σ → ι → Bool} {C : σ → ι → Prop}
    (hok : ∀ s i, C s i → ok s i = true) (is : List ι) :
    ∀ {s}, AllSteps step C s is → runUntil step ok s is = runSteps step s is := by
  induction is with
  | nil => exact fun _ => rfl
  | cons i is ih =>
      intro s hall
      rw [runUntil, if_pos (hok s i hall.1)]
      exact ih hall.2

theorem allSteps_iff_forall_mem {step : σ → ι → σ} {C : ι → Prop} (is : List ι) :
    ∀ s, AllSteps step (fun _ i => C i) s is ↔ ∀ i ∈ is, C i := by
  induction is with
  | nil => simp [AllSteps]
  | cons i is ih => simp [AllSteps, ih]

theorem allSteps_of_forall {step : σ → ι → σ} {C : σ → ι → Prop} (h : ∀ s i, C s i)
    (is : List ι) : ∀ s, AllSteps step C s is := by
  induction is with
  | nil => exact fun _ => trivial
  | cons i is ih => exact fun s => ⟨h s i, ih _⟩

/-- What an invariant and a condition imply of a step holds of the steps of a run that all meet
the condition. -/
theorem AllSteps.imp_of_invariant {step : σ → ι → σ} {I : σ → Prop} {C L : σ → ι → Prop}
    (hinv : ∀ s i, I s → I (step s i)) (hlaw : ∀ s i, I s → C s i → L s i) (is : List ι) :
    ∀ {s}, I s → AllSteps step C s is → AllSteps step L s is := by
  induction is with
  | nil => exact fun _ _ => trivial
  | cons i is ih => exact fun hs hall => ⟨hlaw _ i hs hall.1, ih (hinv _ i hs) hall.2⟩

theorem allSteps_of_invariant {step : σ → ι → σ} {I : σ → Prop} {L : σ → ι → Prop}
    (hinv : ∀ s i, I s → I (step s i)) (hlaw : ∀ s i, I s → L s i) (is : List ι) :
    ∀ {s}, I s → AllSteps step L s is := by
  induction is with
  | nil => exact fun _ => trivial
  | cons i is ih => exact fun hs => ⟨hlaw _ i hs, ih (hinv _ i hs)⟩

theorem allStates_of_invariant {step : σ → ι → σ} {I P : σ → Prop}
    (hinv : ∀ s i, I s → I (step s i)) (hP : ∀ s, I s → P s) (is : List ι) :
    ∀ {s}, I s → AllStates step P s is := by
  induction is with
  | nil => exact fun hs => hP _ hs
  | cons i is ih => exact fun hs => ⟨hP _ hs, ih (hinv _ i hs)⟩

theorem allSteps_append {step : σ → ι → σ} {C : σ → ι → Prop} (is js : List ι) : ∀ s,
    AllSteps step C s (is ++ js) ↔
      AllSteps step C s is ∧ AllSteps step C (runSteps step s is) js := by
  induction is with
  | nil => exact fun s => ⟨fun h => ⟨trivial, h⟩, fun h => h.2⟩
  | cons i is ih =>
      intro s
      rw [List.cons_append, AllSteps, AllSteps, ih, and_assoc]
      rfl

theorem allSteps_congr {step : σ → ι → σ} {I : σ → Prop} {C D : σ → ι → Prop}
    (hinv : ∀ s i, I s → I (step s i)) (hiff : ∀ s i, I s → (C s i ↔ D s i)) (is : List ι) :
    ∀ s, I s → (AllSteps step C s is ↔ AllSteps step D s is) := by
  induction is with
  | nil => exact fun _ _ => Iff.rfl
  | cons i is ih =>
      intro s hs
      unfold AllSteps
      rw [hiff s i hs, ih _ (hinv s i hs)]

/-- The refinement rule: an abstraction that commutes with every admitted step under an
invariant commutes with whole runs. -/
theorem abs_runSteps {τ : Type u} {step : σ → ι → σ} {astep : τ → ι → τ} {abs : σ → τ}
    {I : σ → Prop} {allow : σ → ι → Prop} (hinv : ∀ s i, I s → allow s i → I (step s i))
    (habs : ∀ s i, I s → allow s i → abs (step s i) = astep (abs s) i) (is : List ι) :
    ∀ s, I s → AllSteps step allow s is →
      abs (runSteps step s is) = runSteps astep (abs s) is := by
  induction is with
  | nil => exact fun _ _ _ => rfl
  | cons i is ih =>
      intro s hs hall
      have hrest := ih _ (hinv s i hs hall.1) hall.2
      rw [habs s i hs hall.1] at hrest
      exact hrest

/-- The simulation rule: a relation kept by every pair of steps is kept by runs. -/
theorem sim_runSteps {τ : Type u} {step : σ → ι → σ} {astep : τ → ι → τ} {R : σ → τ → Prop}
    (hsim : ∀ s t i, R s t → R (step s i) (astep t i)) (is : List ι) :
    ∀ s t, R s t → R (runSteps step s is) (runSteps astep t is) := by
  induction is with
  | nil => exact fun _ _ h => h
  | cons i is ih => exact fun s t h => ih _ _ (hsim s t i h)

theorem AllStates.head {step : σ → ι → σ} {P : σ → Prop} {s : σ} {is : List ι}
    (h : AllStates step P s is) : P s := by
  cases is with
  | nil => exact h
  | cons i is => exact h.1

theorem AllStates.last {step : σ → ι → σ} {P : σ → Prop} (is : List ι) :
    ∀ {s}, AllStates step P s is → P (runSteps step s is) := by
  induction is with
  | nil => exact fun h => h
  | cons i is ih => exact fun h => ih h.2

/-- The invariant rule for one run: what every admitted step keeps holds throughout. -/
theorem AllSteps.allStates {step : σ → ι → σ} {I P : σ → Prop} {C : σ → ι → Prop}
    (hinv : ∀ s i, I s → C s i → I (step s i)) (hP : ∀ s, I s → P s) (is : List ι) :
    ∀ {s}, I s → AllSteps step C s is → AllStates step P s is := by
  induction is with
  | nil => exact fun hs _ => hP _ hs
  | cons i is ih => exact fun hs hall => ⟨hP _ hs, ih (hinv _ _ hs hall.1) hall.2⟩

/-- A guard that decides, in every state satisfying `P`, whether the step keeps
`P` decides for a whole run whether `P` holds throughout. -/
theorem allStates_iff_allSteps {step : σ → ι → σ} {I P : σ → Prop}
    {C : σ → ι → Prop} (hinv : ∀ s i, I s → I (step s i))
    (hexact : ∀ s i, I s → P s → (P (step s i) ↔ C s i)) (is : List ι) :
    ∀ s, I s → P s → (AllStates step P s is ↔ AllSteps step C s is) := by
  induction is with
  | nil =>
      intro s _ hs
      simp [AllStates, AllSteps, hs]
  | cons i is ih =>
      intro s hI hs
      constructor
      · rintro ⟨_, htail⟩
        have hnext := htail.head
        exact ⟨(hexact s i hI hs).mp hnext, (ih _ (hinv s i hI) hnext).mp htail⟩
      · rintro ⟨hC, htail⟩
        have hnext := (hexact s i hI hs).mpr hC
        exact ⟨hs, (ih _ (hinv s i hI) hnext).mpr htail⟩

/-- A guard that decides, in every state satisfying `I`, whether a step keeps `P` and obeys
`L` decides for a whole run whether `P` holds throughout and every step obeys `L`. -/
theorem allStates_and_allSteps_iff_of_inv {step : σ → ι → σ} {I P : σ → Prop}
    {L C : σ → ι → Prop} (hinv : ∀ s i, I s → I (step s i))
    (hexact : ∀ s i, I s → P s → (P (step s i) ∧ L s i ↔ C s i)) (is : List ι) :
    ∀ s, I s → P s →
      (AllStates step P s is ∧ AllSteps step L s is ↔ AllSteps step C s is) := by
  induction is with
  | nil =>
      intro s _ hs
      simp [AllStates, AllSteps, hs]
  | cons i is ih =>
      intro s hI hs
      have hstep := hexact s i hI hs
      have hI' := hinv s i hI
      constructor
      · intro h
        have hnext := h.1.2.head
        have hlaw := h.2.1
        exact ⟨hstep.mp ⟨hnext, hlaw⟩, (ih _ hI' hnext).mp ⟨h.1.2, h.2.2⟩⟩
      · intro h
        have hnext := hstep.mpr h.1
        have hrest := (ih _ hI' hnext.1).mpr h.2
        exact ⟨⟨hs, hrest.1⟩, hnext.2, hrest.2⟩

theorem allStates_and_allSteps_iff {step : σ → ι → σ} {P : σ → Prop} {L C : σ → ι → Prop}
    (hexact : ∀ s i, P s → (P (step s i) ∧ L s i ↔ C s i)) (is : List ι) (s : σ) (hs : P s) :
    AllStates step P s is ∧ AllSteps step L s is ↔ AllSteps step C s is :=
  allStates_and_allSteps_iff_of_inv (I := fun _ => True) (fun _ _ _ => trivial)
    (fun s i _ hP => hexact s i hP) is s trivial hs

theorem runSteps_invariant {step : σ → ι → σ} {I : σ → Prop}
    (hinv : ∀ s i, I s → I (step s i)) (is : List ι) : ∀ {s}, I s → I (runSteps step s is) := by
  induction is with
  | nil => exact fun hs => hs
  | cons i is ih => exact fun hs => ih (hinv _ i hs)

theorem runSteps_invariant_of_forall {step : σ → ι → σ} {I : σ → Prop} {C : ι → Prop}
    (hinv : ∀ s i, C i → I s → I (step s i)) (is : List ι) :
    (∀ i ∈ is, C i) → ∀ {s}, I s → I (runSteps step s is) := by
  induction is with
  | nil => exact fun _ _ hs => hs
  | cons i is ih =>
    intro hall s hs
    exact ih (fun j hj => hall j (List.mem_cons_of_mem _ hj))
      (hinv s i (hall i List.mem_cons_self) hs)

theorem foldlM_of_invariant {step : σ → ι → Option σ} {I : σ → Prop}
    (hstep : ∀ s i, I s → ∃ t, step s i = some t ∧ I t) (is : List ι) :
    ∀ {s}, I s → ∃ t, is.foldlM step s = some t ∧ I t := by
  induction is with
  | nil => exact fun hs => ⟨_, rfl, hs⟩
  | cons i is ih =>
    intro s hs
    obtain ⟨t, ht, hI⟩ := hstep s i hs
    obtain ⟨u, hu, hI'⟩ := ih hI
    refine ⟨u, ?_, hI'⟩
    rw [List.foldlM_cons, ht]
    exact hu

/-! ## Counted loops -/

/-- `for (i = 0; i < n; i++)` -/
def forRange : Nat → (Nat → σ → σ) → σ → σ
  | 0, _, s => s
  | n + 1, body, s => body n (forRange n body s)

/-- The rule for a counted loop: what holds at the start and is carried from every iteration
to the next holds at the end. -/
theorem forRange_rule {P : Nat → σ → Prop} {body : Nat → σ → σ} {s : σ} (hstart : P 0 s)
    (n : Nat) (hbody : ∀ i s, i < n → P i s → P (i + 1) (body i s)) :
    P n (forRange n body s) := by
  induction n with
  | zero => exact hstart
  | succ n ih =>
      exact hbody n _ (Nat.lt_succ_self n) (ih fun i s hi => hbody i s (Nat.lt_succ_of_lt hi))

end AcharyaOS.Foundation.Run
