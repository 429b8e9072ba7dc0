import Mathlib.Logic.Function.Iterate
import Mathlib.Tactic.ByContra

/-!
# Scanning terminated strings in a partial memory

A loop that follows a pointer up to a NUL, in a memory whose addresses may be unmapped.  What
it reads depends on the bytes it visits and on nothing else, and on each of them.
-/

namespace AcharyaOS.Foundation.Scan

/-- How a scan ends: at a NUL, at an address that is not mapped, or not within its steps. -/
inductive End (A : Type)
  | nul
  | fault (a : A)
  | running
  deriving DecidableEq

variable {A : Type} (next : A → A)

/-- The bytes from `a` on, up to a NUL or an unmapped address, in at most `n` steps. -/
def scan (read : A → Option UInt8) : Nat → A → List UInt8 × End A
  | 0, _ => ([], .running)
  | n + 1, a =>
      match read a with
      | none => ([], .fault a)
      | some c =>
          if c = 0 then ([], .nul)
          else (c :: (scan read n (next a)).1, (scan read n (next a)).2)

/-- The scan from `a` visits `b`. -/
inductive Visits (read : A → Option UInt8) : A → A → Prop
  | here (a : A) : Visits read a a
  | step {a b : A} {c : UInt8} (hread : read a = some c) (hc : c ≠ 0)
      (h : Visits read (next a) b) : Visits read a b

section Steps

variable {next} {read read' : A → Option UInt8} {n : Nat} {a : A} {c : UInt8}

theorem scan_of_none (h : read a = none) : scan next read (n + 1) a = ([], .fault a) := by
  rw [scan, h]

theorem scan_of_zero (h : read a = some 0) : scan next read (n + 1) a = ([], .nul) := by
  rw [scan, h]
  rfl

theorem scan_of_some (h : read a = some c) (hc : c ≠ 0) :
    scan next read (n + 1) a =
      (c :: (scan next read n (next a)).1, (scan next read n (next a)).2) := by
  rw [scan, h]
  exact if_neg hc

theorem scan_congr (n : Nat) :
    ∀ a, (∀ b, Visits next read a b → read' b = read b) →
      scan next read' n a = scan next read n a := by
  induction n with
  | zero => exact fun _ _ => rfl
  | succ n ih =>
      intro a hagree
      have ha : read' a = read a := hagree a (.here a)
      cases hread : read a with
      | none => rw [scan_of_none hread, scan_of_none (ha.trans hread)]
      | some c =>
          by_cases hc : c = 0
          · rw [hc] at hread
            rw [scan_of_zero hread, scan_of_zero (ha.trans hread)]
          · rw [scan_of_some hread hc, scan_of_some (ha.trans hread) hc,
              ih (next a) fun b hb => hagree b (.step hread hc hb)]

theorem scan_of_string (bytes : List UInt8) :
    ∀ {n : Nat} {a : A}, bytes.length < n → (∀ c ∈ bytes, c ≠ 0) →
      (∀ i c, bytes[i]? = some c → read (next^[i] a) = some c) →
      read (next^[bytes.length] a) = some 0 → scan next read n a = (bytes, .nul) := by
  induction bytes with
  | nil =>
      intro n a hn _ _ hend
      cases n with
      | zero => exact absurd hn (Nat.not_lt_zero _)
      | succ n => exact scan_of_zero hend
  | cons c bytes ih =>
      intro n a hn hne hread hend
      cases n with
      | zero => exact absurd hn (Nat.not_lt_zero _)
      | succ n =>
          rw [List.forall_mem_cons] at hne
          have hrest : scan next read n (next a) = (bytes, .nul) :=
            ih (Nat.lt_of_succ_lt_succ hn) hne.2 (fun i d hi => hread (i + 1) d hi) hend
          have hfirst : read a = some c := hread 0 c rfl
          rw [scan_of_some hfirst hne.1, hrest]

theorem isSome_of_running (n : Nat) :
    ∀ a, (scan next read n a).2 = .running → ∀ k < n, (read (next^[k] a)).isSome := by
  induction n with
  | zero => exact fun _ _ k hk => absurd hk (Nat.not_lt_zero k)
  | succ n ih =>
      intro a hrunning k hk
      cases hread : read a with
      | none =>
          rw [scan_of_none hread] at hrunning
          cases hrunning
      | some c =>
          by_cases hc : c = 0
          · rw [hc] at hread
            rw [scan_of_zero hread] at hrunning
            cases hrunning
          · rw [scan_of_some hread hc] at hrunning
            cases k with
            | zero =>
                show (read a).isSome
                rw [hread]
                rfl
            | succ k => exact ih (next a) hrunning k (Nat.lt_of_succ_lt_succ hk)

/-- Turning a NUL into another byte, or the other way round, shows at once. -/
theorem scan_ne_here {c' : UInt8} (hread : read a = some c) (hread' : read' a = some c')
    (hflip : c = 0 ↔ c' ≠ 0) :
    (scan next read' (n + 1) a).1 ≠ (scan next read (n + 1) a).1 := by
  by_cases hc : c = 0
  · have hc' := hflip.mp hc
    rw [hc] at hread
    rw [scan_of_zero hread, scan_of_some hread' hc']
    exact List.cons_ne_nil _ _
  · have hc' : c' = 0 := by
      by_contra hne
      exact hc (hflip.mpr hne)
    rw [hc'] at hread'
    rw [scan_of_zero hread', scan_of_some hread hc]
    exact (List.cons_ne_nil _ _).symm

theorem scan_ne_step (hread : read a = some c) (hc : c ≠ 0) (hread' : read' a = some c)
    (h : (scan next read' n (next a)).1 ≠ (scan next read n (next a)).1) :
    (scan next read' (n + 1) a).1 ≠ (scan next read (n + 1) a).1 := by
  rw [scan_of_some hread hc, scan_of_some hread' hc]
  intro heq
  exact h (List.cons.inj heq).2

end Steps

/-! ## Secrets -/

section Secret

variable {next} {P : Type} [DecidableEq P] {translate : A → Option P} {m m' : P → UInt8}

/-- Reading through a translation of addresses. -/
def load (translate : A → Option P) (m : P → UInt8) (a : A) : Option UInt8 :=
  (translate a).map m

/-- A byte with its being NUL or not turned around. -/
def flip (c : UInt8) : UInt8 := if c = 0 then 1 else 0

theorem flip_iff (c : UInt8) : c = 0 ↔ flip c ≠ 0 := by
  unfold flip
  split
  · next hc => simp [hc]
  · next hc => simp [hc]

/-- A scan that visits a secret cell, and ends, reads something else in a memory that
differs in one secret cell. -/
theorem exists_scan_ne (secret : P → Prop) {a b : A} {p : P}
    (hvisits : Visits next (load translate m) a b) (hb : translate b = some p)
    (hp : secret p) :
    ∃ m' : P → UInt8, (∀ q, ¬ secret q → m' q = m q) ∧
      ∀ n, (scan next (load translate m) n a).2 ≠ .running →
        (scan next (load translate m') n a).1 ≠ (scan next (load translate m) n a).1 := by
  have hflip : ∀ {a : A} {p : P}, translate a = some p → secret p →
      ∃ m' : P → UInt8, (∀ q, ¬ secret q → m' q = m q) ∧
        ∀ n, (scan next (load translate m) n a).2 ≠ .running →
          (scan next (load translate m') n a).1 ≠ (scan next (load translate m) n a).1 := by
    intro a p ha hp
    refine ⟨fun q => if q = p then flip (m p) else m q, ?_, ?_⟩
    · intro q hq
      apply if_neg
      rintro rfl
      exact hq hp
    · intro n hn
      cases n with
      | zero => exact absurd rfl hn
      | succ n =>
          have hread : load translate m a = some (m p) := by simp [load, ha]
          have hread' : load translate (fun q => if q = p then flip (m p) else m q) a =
              some (flip (m p)) := by simp [load, ha]
          exact scan_ne_here hread hread' (flip_iff _)
  induction hvisits with
  | here a => exact hflip hb hp
  | @step a b c hread hc _ ih =>
      obtain ⟨q, hq, rfl⟩ := Option.map_eq_some_iff.mp hread
      by_cases hsecret : secret q
      · exact hflip hq hsecret
      · obtain ⟨m', hagree, hdiffer⟩ := ih hb
        refine ⟨m', hagree, fun n hn => ?_⟩
        cases n with
        | zero => exact absurd rfl hn
        | succ n =>
            have hread' : load translate m' a = some (m q) := by
              simp [load, hq, hagree q hsecret]
            rw [scan_of_some hread hc] at hn
            exact scan_ne_step hread hc hread' (hdiffer n hn)

end Secret

end AcharyaOS.Foundation.Scan
