import Mathlib.Algebra.Ring.Nat

/-!
# Byte memory

A memory gives every address a byte.  `store n m a v` puts the low `n` bytes of
`v` at `a`, lowest byte first, and `load n m a` reads such a number back.
`Outside m m' a n` says that at most the `n` bytes from `a` on differ.
-/

namespace AcharyaOS.Foundation

abbrev Memory := Nat → UInt8

namespace Memory

def store (n : Nat) (m : Memory) (a v : Nat) : Memory := fun b =>
  if a ≤ b ∧ b < a + n then UInt8.ofNat (v / 256 ^ (b - a)) else m b

def load : Nat → Memory → Nat → Nat
  | 0, _, _ => 0
  | n + 1, m, a => (m a).toNat + 256 * load n m (a + 1)

def storeU8 (m : Memory) (a : Nat) (v : UInt8) : Memory := store 1 m a v.toNat

def storeU16 (m : Memory) (a : Nat) (v : UInt16) : Memory := store 2 m a v.toNat

def storeU32 (m : Memory) (a : Nat) (v : UInt32) : Memory := store 4 m a v.toNat

theorem load_lt (n : Nat) (m : Memory) (a : Nat) : load n m a < 256 ^ n := by
  induction n generalizing a with
  | zero => simp [load]
  | succ n ih =>
      have hbyte := (m a).toNat_lt
      have hrest := ih (a + 1)
      rw [load, Nat.pow_succ]
      omega

theorem load_congr {m m' : Memory} {n a : Nat} (h : ∀ b, a ≤ b → b < a + n → m b = m' b) :
    load n m a = load n m' a := by
  induction n generalizing a with
  | zero => rfl
  | succ n ih =>
      have hbyte : m a = m' a := h a (Nat.le_refl a) (by omega)
      have hrest : load n m (a + 1) = load n m' (a + 1) :=
        ih fun b hlow hhigh => h b (by omega) (by omega)
      rw [load, load, hbyte, hrest]

theorem load_add (n k : Nat) (m : Memory) (a : Nat) :
    load (n + k) m a = load n m a + 256 ^ n * load k m (a + n) := by
  induction n generalizing a with
  | zero => simp [load]
  | succ n ih =>
      have hnext : a + 1 + n = a + (n + 1) := by omega
      rw [Nat.succ_add, load, load, ih (a + 1), hnext, Nat.pow_succ', Nat.mul_add,
        Nat.mul_assoc, Nat.add_assoc]

theorem load_store (n : Nat) (m : Memory) (a v : Nat) :
    load n (store n m a v) a = v % 256 ^ n := by
  induction n generalizing m a v with
  | zero => simp [load, Nat.mod_one]
  | succ n ih =>
      have hbyte : store (n + 1) m a v a = UInt8.ofNat v := by simp [store]
      -- what lies behind the first byte is a store of the higher bytes
      have hrest : load n (store (n + 1) m a v) (a + 1) =
          load n (store n m (a + 1) (v / 256)) (a + 1) := by
        apply load_congr
        intro b hlow hhigh
        have hexp : b - a = (b - (a + 1)) + 1 := by omega
        rw [store, store, if_pos (by omega), if_pos (by omega), hexp, Nat.pow_succ',
          Nat.div_div_eq_div_mul]
      have hsplit : v % 256 ^ (n + 1) = v % 256 + 256 * (v / 256 % 256 ^ n) := by
        rw [Nat.pow_succ', Nat.mod_mul]
      rw [load, hbyte, hrest, ih, hsplit, UInt8.toNat_ofNat']

/-- The number whose consecutive fields from `a` on have these widths in bytes. -/
def joined (m : Memory) : List Nat → Nat → Nat
  | [], _ => 0
  | n :: ns, a => load n m a + 256 ^ n * joined m ns (a + n)

theorem load_sum (m : Memory) (ns : List Nat) (a : Nat) : load ns.sum m a = joined m ns a := by
  induction ns generalizing a with
  | nil => rfl
  | cons n ns ih => rw [List.sum_cons, load_add, ih, joined]

/-- Addresses outside the `n` bytes from `a` on hold in `m'` what they hold in `m`. -/
def Outside (m m' : Memory) (a n : Nat) : Prop :=
  ∀ b, b < a ∨ a + n ≤ b → m' b = m b

theorem outside_store (n : Nat) (m : Memory) (a v : Nat) : Outside m (store n m a v) a n := by
  intro b hb
  rw [store, if_neg (by omega)]

theorem Outside.refl (m : Memory) (a n : Nat) : Outside m m a n := fun _ _ => rfl

theorem Outside.store {m m' : Memory} {a n b k : Nat} (v : Nat) (h : Outside m m' a n)
    (hlow : a ≤ b) (hhigh : b + k ≤ a + n) : Outside m (Memory.store k m' b v) a n := by
  intro c hc
  have hstore : Memory.store k m' b v c = m' c := outside_store k m' b v c (by omega)
  rw [hstore, h c hc]

theorem Outside.load {m m' : Memory} {a n b k : Nat} (h : Outside m m' a n)
    (hsep : b + k ≤ a ∨ a + n ≤ b) : load k m' b = load k m b :=
  load_congr fun c hlow hhigh => h c (by omega)

theorem load_store_of_sep (n : Nat) (m : Memory) {a v b k : Nat}
    (hsep : b + k ≤ a ∨ a + n ≤ b) : Memory.load k (store n m a v) b = Memory.load k m b :=
  (outside_store n m a v).load hsep

end Memory

end AcharyaOS.Foundation
