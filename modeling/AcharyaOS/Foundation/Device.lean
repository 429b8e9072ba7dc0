import Mathlib.Logic.Function.Basic
import Mathlib.Tactic.SplitIfs

/-!
# Sector devices with faults

A device holds one value per address and serves read and write commands.  A
fault script says which of the coming commands fail; a failing write may still
have stored a prefix of its sectors.  Every sector that reaches the medium is
also logged, so that the image after a power loss is the old content with the
first part of the log applied to it.
-/

namespace AcharyaOS.Foundation

/-- How the device answers one write command. -/
inductive WriteOutcome
  | done
  /-- An error is reported after the first `reached` sectors were stored. -/
  | failed (reached : Nat)
  deriving DecidableEq

/-- The outcomes of the coming commands; an exhausted script means success. -/
structure Faults where
  reads : List Bool := []
  writes : List WriteOutcome := []
  deriving DecidableEq

namespace Faults

def none : Faults := {}

end Faults

structure Device (σ : Type) where
  capacity : Nat
  content : Nat → σ
  log : List (Nat × σ)
  faults : Faults

/-! ## Sequences of sector writes -/

section Writes

variable {σ : Type}

def applyWrites (c : Nat → σ) (ws : List (Nat × σ)) : Nat → σ :=
  ws.foldl (fun c w => Function.update c w.1 w.2) c

@[simp] theorem applyWrites_nil (c : Nat → σ) : applyWrites c [] = c := rfl

@[simp] theorem applyWrites_cons (c : Nat → σ) (w : Nat × σ) (ws : List (Nat × σ)) :
    applyWrites c (w :: ws) = applyWrites (Function.update c w.1 w.2) ws := rfl

theorem applyWrites_append (c : Nat → σ) (ws vs : List (Nat × σ)) :
    applyWrites c (ws ++ vs) = applyWrites (applyWrites c ws) vs :=
  List.foldl_append

theorem applyWrites_of_ne (c : Nat → σ) {ws : List (Nat × σ)} {a : Nat}
    (h : ∀ w ∈ ws, w.1 ≠ a) : applyWrites c ws a = c a := by
  induction ws generalizing c with
  | nil => rfl
  | cons w ws ih =>
      have ha : a ≠ w.1 := (h w List.mem_cons_self).symm
      rw [applyWrites_cons, ih _ (fun v hv => h v (List.mem_cons_of_mem _ hv)),
        Function.update_of_ne ha]

theorem applyWrites_concat (c : Nat → σ) (ws : List (Nat × σ)) (a : Nat) (v : σ) :
    applyWrites c (ws ++ [(a, v)]) a = v := by
  simp [applyWrites_append]

def placed (a : Nat) : List σ → List (Nat × σ)
  | [] => []
  | s :: ss => (a, s) :: placed (a + 1) ss

@[simp] theorem length_placed (a : Nat) (ss : List σ) :
    (placed a ss).length = ss.length := by
  induction ss generalizing a with
  | nil => rfl
  | cons s ss ih => simp [placed, ih]

theorem mem_placed {a : Nat} {ss : List σ} {w : Nat × σ} (hw : w ∈ placed a ss) :
    a ≤ w.1 ∧ w.1 < a + ss.length := by
  induction ss generalizing a with
  | nil => simp [placed] at hw
  | cons s ss ih =>
      rcases List.mem_cons.mp hw with rfl | hw
      · simp
      · have h := ih hw
        simp only [List.length_cons]
        omega

theorem exists_mem_placed (a : Nat) (ss : List σ) {i : Nat} (hi : i < ss.length) :
    ∃ w ∈ placed a ss, w.1 = a + i := by
  induction ss generalizing a i with
  | nil => simp at hi
  | cons s ss ih =>
      cases i with
      | zero => exact ⟨(a, s), List.mem_cons_self, rfl⟩
      | succ i =>
          obtain ⟨w, hw, hwa⟩ := ih (a + 1) (i := i) (by simpa using hi)
          exact ⟨w, List.mem_cons_of_mem _ hw, by omega⟩

theorem forall_mem_placed_lt_iff (a bound : Nat) (ss : List σ) :
    (∀ w ∈ placed a ss, w.1 < bound) ↔ ss.length = 0 ∨ a + ss.length ≤ bound := by
  constructor
  · intro h
    by_cases hzero : ss.length = 0
    · exact Or.inl hzero
    · right
      obtain ⟨w, hw, hlast⟩ := exists_mem_placed a ss (i := ss.length - 1) (by omega)
      have hlt := h w hw
      omega
  · intro h w hw
    obtain ⟨hge, hlt⟩ := mem_placed hw
    omega

theorem applyWrites_placed (c : Nat → σ) (a : Nat) (ss : List σ) (i : Nat)
    (hi : i < ss.length) : applyWrites c (placed a ss) (a + i) = ss[i] := by
  induction ss generalizing c a i with
  | nil => simp at hi
  | cons s ss ih =>
      cases i with
      | zero =>
          rw [placed, applyWrites_cons, applyWrites_of_ne]
          · simp
          · intro w hw
            have h := (mem_placed hw).1
            omega
      | succ i =>
          have hi' : i < ss.length := by simpa using hi
          rw [placed, applyWrites_cons, show a + (i + 1) = a + 1 + i by omega, ih _ _ _ hi']
          rfl

/-- The sectors of a write command that reach a medium of the given capacity. -/
def storedBy (capacity : Nat) (o : WriteOutcome) (a : Nat) (ss : List σ) : List (Nat × σ) :=
  if capacity < a + ss.length then []
  else match o with
    | .done => placed a ss
    | .failed reached => (placed a ss).take reached

theorem storedBy_prefix_placed (capacity : Nat) (o : WriteOutcome) (a : Nat) (ss : List σ) :
    storedBy capacity o a ss <+: placed a ss := by
  unfold storedBy
  split
  · exact List.nil_prefix
  · cases o with
    | done => exact List.prefix_refl _
    | failed reached => exact List.take_prefix _ _

theorem storedBy_done {capacity a : Nat} {ss : List σ} (h : a + ss.length ≤ capacity) :
    storedBy capacity .done a ss = placed a ss :=
  if_neg (Nat.not_lt.mpr h)

/-- Writes to different addresses change nothing exactly when each stores what is
there already. -/
theorem applyWrites_eq_self_iff (c : Nat → σ) {ws : List (Nat × σ)}
    (hws : (ws.map Prod.fst).Nodup) : applyWrites c ws = c ↔ ∀ w ∈ ws, c w.1 = w.2 := by
  induction ws generalizing c with
  | nil => simp
  | cons w ws ih =>
      rw [List.map_cons, List.nodup_cons] at hws
      have hnot : ∀ v ∈ ws, v.1 ≠ w.1 := by
        intro v hv heq
        exact hws.1 (heq ▸ List.mem_map_of_mem hv)
      rw [List.forall_mem_cons, applyWrites_cons]
      by_cases hw : c w.1 = w.2
      · have hsame : Function.update c w.1 w.2 = c := by
          rw [← hw, Function.update_eq_self]
        rw [hsame, ih c hws.2]
        exact (and_iff_right hw).symm
      · have hchanged : applyWrites (Function.update c w.1 w.2) ws w.1 = w.2 := by
          rw [applyWrites_of_ne _ hnot, Function.update_self]
        constructor
        · intro heq
          rw [heq] at hchanged
          exact absurd hchanged hw
        · exact fun h => absurd h.1 hw

end Writes

namespace Device

variable {σ : Type}

def commit (d : Device σ) (ws : List (Nat × σ)) : Device σ :=
  { d with content := applyWrites d.content ws, log := d.log ++ ws }

def write (d : Device σ) (lba : Nat) (ss : List σ) : Device σ × Bool :=
  let e := { d with faults := ⟨d.faults.reads, d.faults.writes.tail⟩ }
  if d.capacity < lba + ss.length then (e, false)
  else match d.faults.writes.headD .done with
    | .done => (e.commit (placed lba ss), true)
    | .failed reached => (e.commit ((placed lba ss).take reached), false)

/-- A read command for consecutive sectors; a failed one returns no data. -/
def read (d : Device σ) (lba count : Nat) : Device σ × Option (List σ) :=
  let e := { d with faults := ⟨d.faults.reads.tail, d.faults.writes⟩ }
  if d.capacity < lba + count || d.faults.reads.headD false then (e, none)
  else (e, some ((List.range count).map fun i => d.content (lba + i)))

/-- Between `d` and `d'` exactly the sector writes `ws` reached the medium. -/
structure Wrote (d d' : Device σ) (ws : List (Nat × σ)) : Prop where
  capacity_eq : d'.capacity = d.capacity
  content_eq : d'.content = applyWrites d.content ws
  log_eq : d'.log = d.log ++ ws

namespace Wrote

variable {d d' d'' : Device σ} {ws vs : List (Nat × σ)}

theorem refl (d : Device σ) : Wrote d d [] := ⟨rfl, rfl, by simp⟩

theorem trans (h : Wrote d d' ws) (h' : Wrote d' d'' vs) : Wrote d d'' (ws ++ vs) where
  capacity_eq := h'.capacity_eq.trans h.capacity_eq
  content_eq := by rw [h'.content_eq, h.content_eq, applyWrites_append]
  log_eq := by rw [h'.log_eq, h.log_eq, List.append_assoc]

end Wrote

theorem write_wrote (d : Device σ) (lba : Nat) (ss : List σ) :
    Wrote d (d.write lba ss).1
      (storedBy d.capacity (d.faults.writes.headD .done) lba ss) := by
  unfold write storedBy
  by_cases hfit : d.capacity < lba + ss.length
  · rw [if_pos hfit, if_pos hfit]
    exact ⟨rfl, rfl, by simp⟩
  · rw [if_neg hfit, if_neg hfit]
    cases d.faults.writes.headD .done <;> exact ⟨rfl, rfl, rfl⟩

theorem write_ok_iff (d : Device σ) (lba : Nat) (ss : List σ) :
    (d.write lba ss).2 = true ↔
      lba + ss.length ≤ d.capacity ∧ d.faults.writes.headD .done = .done := by
  unfold write
  by_cases hfit : d.capacity < lba + ss.length
  · rw [if_pos hfit]
    simp
    omega
  · rw [if_neg hfit]
    cases d.faults.writes.headD .done <;> simp
    omega

theorem write_faults (d : Device σ) (lba : Nat) (ss : List σ) :
    (d.write lba ss).1.faults = ⟨d.faults.reads, d.faults.writes.tail⟩ := by
  unfold write
  by_cases hfit : d.capacity < lba + ss.length
  · rw [if_pos hfit]
  · rw [if_neg hfit]
    cases d.faults.writes.headD .done <;> rfl

/-- What a write command can do: store a prefix of its sectors, and all of them
when it reports success. -/
theorem write_cases (d : Device σ) (lba : Nat) (ss : List σ) :
    ∃ ws, Wrote d (d.write lba ss).1 ws ∧ ws <+: placed lba ss ∧
      (ws ≠ [] → lba + ss.length ≤ d.capacity) ∧
      ((d.write lba ss).2 = true → ws = placed lba ss ∧ lba + ss.length ≤ d.capacity) := by
  refine ⟨_, d.write_wrote lba ss, storedBy_prefix_placed _ _ _ _, ?_, ?_⟩
  · intro hne
    by_contra hfit
    exact hne (if_pos (Nat.lt_of_not_le hfit))
  · rw [write_ok_iff]
    rintro ⟨hfit, hdone⟩
    exact ⟨by rw [hdone, storedBy_done hfit], hfit⟩

theorem write_of_no_faults (d : Device σ) (lba : Nat) (ss : List σ)
    (hd : d.faults = .none) :
    (d.write lba ss).1.faults = .none ∧
      ((d.write lba ss).2 = true ↔ lba + ss.length ≤ d.capacity) := by
  constructor
  · rw [write_faults, hd]
    rfl
  · rw [write_ok_iff, hd]
    exact and_iff_left rfl

theorem read_wrote (d : Device σ) (lba count : Nat) : Wrote d (d.read lba count).1 [] := by
  unfold read
  split <;> exact ⟨rfl, rfl, by simp⟩

theorem read_some {d : Device σ} {lba count : Nat} {ss : List σ}
    (h : (d.read lba count).2 = some ss) :
    ss = (List.range count).map fun i => d.content (lba + i) := by
  unfold read at h
  split at h
  · exact absurd h (by simp)
  · exact (Option.some.inj h).symm

theorem read_snd (d : Device σ) (lba count : Nat) :
    (d.read lba count).2 =
      if d.faults.reads.headD false = false ∧ lba + count ≤ d.capacity then
        some ((List.range count).map fun i => d.content (lba + i)) else none := by
  unfold read
  by_cases hfit : lba + count ≤ d.capacity
  · have hnot : decide (d.capacity < lba + count) = false := decide_eq_false (by omega)
    cases hhead : d.faults.reads.headD false with
    | false => rw [hnot, if_neg (by decide), if_pos ⟨rfl, hfit⟩]
    | true => rw [hnot, if_pos (by decide), if_neg (fun h => absurd h.1 (by decide))]
  · have hlt : decide (d.capacity < lba + count) = true := decide_eq_true (by omega)
    rw [hlt, Bool.true_or, if_pos rfl, if_neg (fun h => hfit h.2)]

theorem read_of_no_faults (d : Device σ) (lba count : Nat) (hd : d.faults = .none) :
    d.read lba count =
      (d, if lba + count ≤ d.capacity then
        some ((List.range count).map fun i => d.content (lba + i)) else none) := by
  have hd' : { d with faults := ⟨d.faults.reads.tail, d.faults.writes⟩ } = d := by
    cases d
    subst hd
    rfl
  have hhead : d.faults.reads.headD false = false := by rw [hd]; rfl
  simp only [read, hd', hhead, Bool.or_false, decide_eq_true_eq]
  split_ifs with hlt hle hle
  · omega
  · rfl
  · rfl
  · omega

end Device

/-! ## Power loss -/

/-- Shadow writes followed by one committing write.  If an observation does not
look at the shadow sectors, then after any number of the writes it shows what
it showed before the first or what it shows after the last. -/
theorem crash_before_or_after {σ ο : Type} (obs : (Nat → σ) → ο) (c : Nat → σ)
    {shadow ws : List (Nat × σ)} {last : Nat × σ}
    (hobs : ∀ c', (∀ a, (∀ w ∈ shadow, w.1 ≠ a) → c' a = c a) → obs c' = obs c)
    (hws : ws <+: shadow ++ [last]) (k : Nat) :
    obs (applyWrites c (ws.take k)) = obs c ∨
      obs (applyWrites c (ws.take k)) = obs (applyWrites c ws) := by
  by_cases hk : ws.length ≤ k
  · right
    rw [List.take_of_length_le hk]
  · left
    apply hobs
    intro a ha
    apply applyWrites_of_ne
    intro w hw
    apply ha
    -- the cut comes before the committing write, which can only be the last one
    have hle := hws.length_le
    have hcut : ws.take k = shadow.take k := by
      rw [List.prefix_iff_eq_take.mp hws, List.take_take, Nat.min_eq_left (by omega)]
      apply List.take_append_of_le_length
      simp only [List.length_append, List.length_singleton] at hle
      omega
    rw [hcut] at hw
    exact List.mem_of_mem_take hw

end AcharyaOS.Foundation
