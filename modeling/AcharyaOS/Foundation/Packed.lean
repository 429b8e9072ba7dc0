import Mathlib.Data.List.FinRange
import Mathlib.Logic.Equiv.Defs
import Mathlib.Tactic.Ring

/-!
# Packed memory layouts

Byte arrays of a fixed length and codecs between typed values and the bytes a
packed C record occupies.  A codec is a bijection with the byte strings of its
width, so loading an image and storing it back loses nothing; records and
arrays are built from their fields with `prod`, `ofEquiv` and `array`.
-/

namespace AcharyaOS.Foundation

/-- `uint8_t a[n]`. -/
structure Bytes (n : Nat) where
  toList : List UInt8
  length_eq : toList.length = n

namespace Bytes

variable {n : Nat}

@[ext] theorem ext {a b : Bytes n} (h : a.toList = b.toList) : a = b := by
  cases a
  cases b
  simpa using h

@[simp] theorem length_toList (a : Bytes n) : a.toList.length = n := a.length_eq

instance : DecidableEq (Bytes n) := fun a b =>
  decidable_of_iff (a.toList = b.toList) ⟨ext, congrArg toList⟩

theorem length_zeros (n : Nat) : (List.replicate n (0 : UInt8)).length = n := List.length_replicate

def zero (n : Nat) : Bytes n := ⟨List.replicate n 0, length_zeros n⟩

/-- The first `n` bytes of `l`, zero-filled when `l` is shorter. -/
def ofList (n : Nat) (l : List UInt8) : Bytes n :=
  ⟨(l ++ List.replicate n 0).take n, by simp⟩

theorem ofList_toList (a : Bytes n) : ofList n a.toList = a := by
  apply ext
  simp [ofList]

theorem toList_ofList_of_le {l : List UInt8} (h : n ≤ l.length) :
    (ofList n l).toList = l.take n := by
  simp [ofList, List.take_append_of_le_length h]

theorem toList_ofList_of_length_eq {l : List UInt8} (h : l.length = n) :
    (ofList n l).toList = l := by
  rw [toList_ofList_of_le h.ge, ← h, List.take_length]

theorem toList_ofList_of_length_le {l : List UInt8} (h : l.length ≤ n) :
    (ofList n l).toList = l ++ List.replicate (n - l.length) 0 := by
  simp [ofList, List.take_append, List.take_of_length_le h]

def set (a : Bytes n) (i : Nat) (c : UInt8) : Bytes n :=
  ⟨a.toList.set i c, by simp⟩

end Bytes

/-- A bijection between `α` and the byte strings of length `width`. -/
structure Codec (α : Type) where
  width : Nat
  encode : α → List UInt8
  decode : List UInt8 → α
  length_encode : ∀ a, (encode a).length = width
  decode_encode : ∀ a, decode (encode a) = a
  encode_decode : ∀ l, l.length = width → encode (decode l) = l

namespace Codec

variable {α β : Type}

attribute [simp] length_encode decode_encode

/-! ## Fields -/

def u8 : Codec UInt8 where
  width := 1
  encode c := [c]
  decode l := l.headD 0
  length_encode _ := rfl
  decode_encode _ := rfl
  encode_decode l hl := by
    obtain ⟨c, rfl⟩ := List.length_eq_one_iff.mp hl
    rfl

def bytes (n : Nat) : Codec (Bytes n) where
  width := n
  encode := Bytes.toList
  decode := Bytes.ofList n
  length_encode := Bytes.length_eq
  decode_encode := Bytes.ofList_toList
  encode_decode _ := Bytes.toList_ofList_of_length_eq

def leValue (l : List UInt8) : Nat :=
  (l.getD 0 0).toNat + 256 * (l.getD 1 0).toNat + 65536 * (l.getD 2 0).toNat +
    16777216 * (l.getD 3 0).toNat

/-- A `uint32_t` as the little-endian x86 stores it. -/
def u32 : Codec UInt32 where
  width := 4
  encode x :=
    [UInt8.ofNat x.toNat, UInt8.ofNat (x.toNat / 256),
      UInt8.ofNat (x.toNat / 65536), UInt8.ofNat (x.toNat / 16777216)]
  decode l := UInt32.ofNat (leValue l)
  length_encode _ := rfl
  decode_encode x := by
    have hx := x.toNat_lt
    rw [← UInt32.toNat_inj, UInt32.toNat_ofNat']
    simp only [leValue, List.getD_cons_zero, List.getD_cons_succ, UInt8.toNat_ofNat']
    omega
  encode_decode l hl := by
    obtain ⟨b₀, b₁, b₂, b₃, rfl⟩ : ∃ b₀ b₁ b₂ b₃, l = [b₀, b₁, b₂, b₃] := by
      match l, hl with
      | [b₀, b₁, b₂, b₃], _ => exact ⟨b₀, b₁, b₂, b₃, rfl⟩
    have h₀ := b₀.toNat_lt
    have h₁ := b₁.toNat_lt
    have h₂ := b₂.toNat_lt
    have h₃ := b₃.toNat_lt
    simp only [leValue, List.getD_cons_zero, List.getD_cons_succ, UInt32.toNat_ofNat',
      List.cons.injEq, and_true, ← UInt8.toNat_inj, UInt8.toNat_ofNat']
    omega

/-! ## Records and arrays -/

def prod (a : Codec α) (b : Codec β) : Codec (α × β) where
  width := a.width + b.width
  encode p := a.encode p.1 ++ b.encode p.2
  decode l := (a.decode (l.take a.width), b.decode (l.drop a.width))
  length_encode p := by simp
  decode_encode p := by
    rw [List.take_left' (a.length_encode p.1), List.drop_left' (a.length_encode p.1),
      a.decode_encode, b.decode_encode]
  encode_decode l hl := by
    have ha : (l.take a.width).length = a.width := by simp [hl]
    have hb : (l.drop a.width).length = b.width := by simp [hl]
    rw [a.encode_decode _ ha, b.encode_decode _ hb, List.take_append_drop]

/-- The same bytes read as another type. -/
def ofEquiv (a : Codec α) (e : α ≃ β) : Codec β where
  width := a.width
  encode x := a.encode (e.symm x)
  decode l := e (a.decode l)
  length_encode x := by simp
  decode_encode x := by simp
  encode_decode l hl := by simp [a.encode_decode l hl]

/-- Element `i` of an array of `w`-byte elements. -/
def element (w : Nat) (l : List UInt8) (i : Nat) : List UInt8 := (l.drop (w * i)).take w

theorem length_element {w n : Nat} {l : List UInt8} (hl : l.length = n * w) {i : Nat}
    (hi : i < n) : (element w l i).length = w := by
  have hmul : w * i + w ≤ n * w := by
    calc w * i + w = (i + 1) * w := by ring
      _ ≤ n * w := Nat.mul_le_mul_right w hi
  simp [element, hl]
  omega

theorem element_flatMap {w n : Nat} (f : Fin n → List UInt8)
    (hf : ∀ i, (f i).length = w) (i : Fin n) :
    element w ((List.finRange n).flatMap f) i = f i := by
  induction n with
  | zero => exact i.elim0
  | succ n ih =>
      rw [List.finRange_succ, List.flatMap_cons, List.flatMap_map]
      cases i using Fin.cases with
      | zero => simp [element, List.take_left' (hf 0)]
      | succ i =>
          have hdrop : w * (i.succ : Nat) = (f 0).length + w * i := by
            rw [hf 0, Fin.val_succ]
            ring
          have hrest := ih (fun j => f j.succ) (fun j => hf j.succ) i
          rw [element, hdrop, List.drop_length_add_append]
          exact hrest

theorem flatMap_element {w n : Nat} (l : List UInt8) (hl : l.length = n * w) :
    (List.finRange n).flatMap (fun i : Fin n => element w l i) = l := by
  induction n generalizing l with
  | zero =>
      have : l = [] := List.eq_nil_of_length_eq_zero (by simpa using hl)
      simp [this]
  | succ n ih =>
      have hw : w ≤ l.length := by
        rw [hl]
        exact Nat.le_mul_of_pos_left w (Nat.succ_pos n)
      have hrest : (l.drop w).length = n * w := by
        rw [List.length_drop, hl, Nat.succ_mul, Nat.add_sub_cancel]
      have helem : ∀ i : Fin n, element w l (i.succ : Nat) = element w (l.drop w) i := by
        intro i
        rw [element, element, List.drop_drop, Fin.val_succ]
        congr 2
        ring
      rw [List.finRange_succ, List.flatMap_cons, List.flatMap_map]
      simp only [helem, ih _ hrest]
      simp [element, List.take_append_drop]

/-- `n` consecutive elements. -/
def array (n : Nat) (a : Codec α) : Codec (Fin n → α) where
  width := n * a.width
  encode f := (List.finRange n).flatMap fun i => a.encode (f i)
  decode l i := a.decode (element a.width l i)
  length_encode f := by simp [List.length_flatMap]
  decode_encode f := by
    ext i : 1
    rw [element_flatMap _ (fun j => a.length_encode (f j)), a.decode_encode]
  encode_decode l hl := by
    have hdec : ∀ i : Fin n, a.encode (a.decode (element a.width l i)) =
        element a.width l i :=
      fun i => a.encode_decode _ (length_element hl i.isLt)
    simp only [hdec]
    exact flatMap_element l hl

/-! ## Loading part of an image -/

/-- A memory image after its first bytes were overwritten with `new`. -/
def overlay (new old : List UInt8) : List UInt8 := new ++ old.drop new.length

theorem length_overlay {new old : List UInt8} (h : new.length ≤ old.length) :
    (overlay new old).length = old.length := by
  simp [overlay]
  omega

theorem take_overlay {new old : List UInt8} {k : Nat} (hk : new.length = k) :
    (overlay new old).take k = new :=
  List.take_left' hk

theorem drop_overlay {new old : List UInt8} {k : Nat} (hk : new.length ≤ k) :
    (overlay new old).drop k = old.drop k := by
  obtain ⟨j, rfl⟩ := Nat.exists_eq_add_of_le hk
  rw [overlay, List.drop_length_add_append, List.drop_drop]

/-- An element lying in the loaded part is the element of the loaded image. -/
theorem element_overlay_of_le {w k i : Nat} {image old : List UInt8}
    (hk : k ≤ image.length) (hi : w * i + w ≤ k) :
    element w (overlay (image.take k) old) i = element w image i := by
  have hlen : (image.take k).length = k := by simp [hk]
  rw [element, overlay, List.drop_append_of_le_length (by omega),
    List.take_append_of_le_length (by simp; omega), List.drop_take, List.take_take,
    Nat.min_eq_left (by omega)]
  rfl

theorem drop_element_overlay {w i j : Nat} {new old : List UInt8}
    (hj : new.length ≤ w * i + j) :
    (element w (overlay new old) i).drop j = (element w old i).drop j := by
  rw [element, element, List.drop_take, List.drop_take, List.drop_drop, List.drop_drop,
    drop_overlay hj]

end Codec

end AcharyaOS.Foundation
