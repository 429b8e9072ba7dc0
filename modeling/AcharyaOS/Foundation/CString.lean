import Mathlib.Data.List.TakeWhile

/-!
# NUL-terminated strings

C text as it stands in memory: a byte array whose text is what precedes its
first NUL, and the three loops every module of a freestanding kernel writes by
hand over it (bounded copy, comparison, comparison with a bound).
-/

namespace AcharyaOS.Foundation

/-- A `const char *` argument: the bytes before the terminator. -/
structure CString where
  bytes : List UInt8
  no_nul : 0 ∉ bytes
  deriving DecidableEq

/-- A string literal, without its terminator. -/
def asciiText (s : String) : List UInt8 := s.toList.map Char.toUInt8

namespace CString

def length (s : CString) : Nat := s.bytes.length

def charAt (s : CString) (i : Nat) : UInt8 := s.bytes.getD i 0

@[ext] theorem ext {s t : CString} (h : s.bytes = t.bytes) : s = t := by
  cases s
  cases t
  simpa using h

end CString

/-- The text of a byte array: everything before its first NUL. -/
def cText (a : List UInt8) : List UInt8 := a.takeWhile (· ≠ 0)

@[simp] theorem cText_nil : cText [] = [] := rfl

theorem cText_cons (c : UInt8) (a : List UInt8) :
    cText (c :: a) = if c = 0 then [] else c :: cText a := by
  by_cases hc : c = 0 <;> simp [cText, hc]

@[simp] theorem cText_cons_zero (a : List UInt8) : cText (0 :: a) = [] := by
  simp [cText_cons]

theorem cText_bytes (s : CString) : cText s.bytes = s.bytes := by
  apply List.takeWhile_eq_self_iff.mpr
  intro c hc
  have hne : c ≠ 0 := fun h => s.no_nul (h ▸ hc)
  simpa using hne

theorem cText_set_zero {a : List UInt8} {k : Nat} (hk : (cText a).length ≤ k) :
    cText (a.set k 0) = cText a := by
  induction a generalizing k with
  | nil => rfl
  | cons c a ih =>
      rw [cText_cons] at hk
      by_cases hc : c = 0
      · cases k with
        | zero => rw [List.set_cons_zero, cText_cons_zero, hc, cText_cons_zero]
        | succ k => rw [List.set_cons_succ, hc, cText_cons_zero, cText_cons_zero]
      · rw [if_neg hc, List.length_cons] at hk
        cases k with
        | zero => omega
        | succ k => rw [List.set_cons_succ, cText_cons, cText_cons, ih (by omega)]

theorem getD_of_le_cText (a : List UInt8) : ∀ {i : Nat}, i ≤ (cText a).length →
    a.getD i 0 = (cText a).getD i 0 := by
  induction a with
  | nil => exact fun _ => rfl
  | cons c a ih =>
      intro i hi
      rw [cText_cons] at hi ⊢
      by_cases hc : c = 0
      · rw [if_pos hc] at hi ⊢
        rw [Nat.le_zero.mp hi, hc]
        rfl
      · rw [if_neg hc] at hi ⊢
        cases i with
        | zero => rfl
        | succ i =>
            rw [List.getD_cons_succ, List.getD_cons_succ]
            exact ih (Nat.le_of_succ_le_succ hi)

/-- `strcmp(a, b)`; both arrays are read up to their terminator. -/
def strcmp : List UInt8 → List UInt8 → Int
  | [], b => 0 - ((b.headD 0).toNat : Int)
  | x :: a, b =>
      if x ≠ 0 ∧ x = b.headD 0 then strcmp a b.tail
      else (x.toNat : Int) - ((b.headD 0).toNat : Int)

private theorem sub_toNat_eq_zero_iff (x y : UInt8) :
    (x.toNat : Int) - (y.toNat : Int) = 0 ↔ x = y := by
  rw [← UInt8.toNat_inj]
  omega

theorem cText_eq_nil_iff (a : List UInt8) : cText a = [] ↔ a.headD 0 = 0 := by
  cases a with
  | nil => simp
  | cons c a => by_cases hc : c = 0 <;> simp [cText_cons, hc]

theorem strcmp_eq_zero_iff (a b : List UInt8) :
    strcmp a b = 0 ↔ cText a = cText b := by
  induction a generalizing b with
  | nil =>
      have hzero := sub_toNat_eq_zero_iff 0 (b.headD 0)
      simp only [UInt8.toNat_zero, Int.natCast_zero] at hzero
      rw [strcmp, hzero, cText_nil, eq_comm, eq_comm (a := []), cText_eq_nil_iff]
  | cons x a ih =>
      by_cases hx : x = 0
      · subst hx
        have hzero := sub_toNat_eq_zero_iff 0 (b.headD 0)
        simp only [strcmp, ne_eq, not_true_eq_false, false_and, if_false]
        rw [hzero, cText_cons_zero, eq_comm, eq_comm (a := []), cText_eq_nil_iff]
      · by_cases hxb : x = b.headD 0
        · -- equal non-NUL characters: both loops move on
          cases b with
          | nil => exact absurd hxb hx
          | cons y b =>
              have hxy : x = y := by simpa using hxb
              subst hxy
              simp [strcmp, cText_cons, hx, ih]
        · rw [strcmp, if_neg (fun h => hxb h.2), sub_toNat_eq_zero_iff]
          constructor
          · exact fun h => absurd h hxb
          · intro h
            exfalso
            rw [cText_cons, if_neg hx] at h
            cases b with
            | nil => simp at h
            | cons y b =>
                rw [cText_cons] at h
                by_cases hy : y = 0
                · simp [hy] at h
                · rw [if_neg hy] at h
                  exact hxb (List.cons.inj h).1

/-- `while (i + 1 < size && src[i] != '\0') dest[i] = src[i];` followed by
`dest[i] = '\0'`.  The cells after the new terminator keep their old bytes. -/
def boundedCopy : List UInt8 → List UInt8 → List UInt8
  | [], _ => []
  | [_], _ => [0]
  | _ :: d :: dest, src =>
      match src with
      | [] => 0 :: d :: dest
      | c :: src => c :: boundedCopy (d :: dest) src

@[simp] theorem length_boundedCopy (dest src : List UInt8) :
    (boundedCopy dest src).length = dest.length := by
  induction dest generalizing src with
  | nil => rfl
  | cons e dest ih =>
      cases dest with
      | nil => rfl
      | cons d dest =>
          cases src with
          | nil => rfl
          | cons c src => simp [boundedCopy, ih]

theorem cText_boundedCopy (dest src : List UInt8) (hsrc : 0 ∉ src) :
    cText (boundedCopy dest src) = src.take (dest.length - 1) := by
  induction dest generalizing src with
  | nil => simp [boundedCopy]
  | cons e dest ih =>
      cases dest with
      | nil => simp [boundedCopy]
      | cons d dest =>
          cases src with
          | nil => simp [boundedCopy]
          | cons c src =>
              have hc : c ≠ 0 := fun h => hsrc (by simp [h])
              have hrest : 0 ∉ src := fun h => hsrc (List.mem_cons_of_mem _ h)
              simp [boundedCopy, cText_cons, hc, ih src hrest]

end AcharyaOS.Foundation
