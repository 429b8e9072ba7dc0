import AcharyaOS.Foundation.CString
import AcharyaOS.Foundation.Packed
import AcharyaOS.Foundation.Rows

/-!
# Checked accesses

Arrays whose accesses are checked against their size: `none` stands for an access outside the
array, where a C program is undefined.  A loop that is `some` has stayed inside.
-/

namespace AcharyaOS.Foundation.Checked

variable {α : Type} {n : Nat}

def readAt (a : Fin n → α) (i : Nat) : Option α :=
  if h : i < n then some (a ⟨i, h⟩) else none

def writeAt (a : Fin n → α) (i : Nat) (x : α) : Option (Fin n → α) :=
  if h : i < n then some (Function.update a ⟨i, h⟩ x) else none

/-- `a[i] = c` in an array of bytes. -/
def writeByte (a : Bytes n) (i : Nat) (c : UInt8) : Option (Bytes n) :=
  if i < n then some (a.set i c) else none

/-- `a[i] = c` at the end of what is in use of an array of `cap` bytes. -/
def pushByte (cap : Nat) (a : List UInt8) (c : UInt8) : Option (List UInt8) :=
  if a.length < cap then some (a ++ [c]) else none

/-- `while (*s) s++`, over what is left of an array. -/
def readString : List UInt8 → Option (List UInt8)
  | [] => none
  | c :: a => if c = 0 then some [] else (readString a).map (c :: ·)

/-- `while (n + 1 < sizeof(a) && text[n] != '\0') a[n] = text[n++]; a[n] = '\0';` -/
def storeText (a : Bytes n) (i : Nat) : List UInt8 → Option (Bytes n)
  | [] => writeByte a i 0
  | c :: text =>
      if i + 1 < n then (writeByte a i c).bind fun a => storeText a (i + 1) text
      else writeByte a i 0

/-- `for (i = count; i > pos; i--) memcpy(rows[i], rows[i - 1]);` -/
def moveUp (pos : Nat) : Nat → (Fin n → α) → Option (Fin n → α)
  | 0, rows => some rows
  | i + 1, rows =>
      if i + 1 > pos then
        (readAt rows i).bind fun x => (writeAt rows (i + 1) x).bind fun rows => moveUp pos i rows
      else some rows

/-- `for (i = pos; i + 1 < count; i++) memcpy(rows[i], rows[i + 1]);` -/
def moveDown (count i : Nat) (rows : Fin n → α) : Option (Fin n → α) :=
  if _h : i + 1 < count then
    (readAt rows (i + 1)).bind fun x => (writeAt rows i x).bind fun rows =>
      moveDown count (i + 1) rows
  else some rows
termination_by count - i

/-! ## Accesses that stay inside -/

theorem readAt_of_lt (a : Fin n → α) {i : Nat} (h : i < n) : readAt a i = some (a ⟨i, h⟩) :=
  dif_pos h

theorem writeAt_of_lt (a : Fin n → α) {i : Nat} (h : i < n) (x : α) :
    writeAt a i x = some (Function.update a ⟨i, h⟩ x) := dif_pos h

theorem writeByte_of_lt (a : Bytes n) {i : Nat} (h : i < n) (c : UInt8) :
    writeByte a i c = some (a.set i c) := if_pos h

theorem pushByte_of_lt {cap : Nat} {a : List UInt8} (h : a.length < cap) (c : UInt8) :
    pushByte cap a c = some (a ++ [c]) := if_pos h

theorem readString_eq {a : List UInt8} (h : 0 ∈ a) : readString a = some (cText a) := by
  induction a with
  | nil => exact absurd h List.not_mem_nil
  | cons c a ih =>
    rw [readString, cText_cons]
    by_cases hc : c = 0
    · rw [if_pos hc, if_pos hc]
    · have hrest : 0 ∈ a := (List.mem_cons.mp h).resolve_left (Ne.symm hc)
      rw [if_neg hc, if_neg hc, ih hrest, Option.map_some]

theorem toList_set (a : Bytes n) {i : Nat} (hi : i < n) (c : UInt8) :
    (a.set i c).toList = a.toList.take i ++ c :: a.toList.drop (i + 1) :=
  List.set_eq_take_append_cons_drop.trans (if_pos (by rwa [a.length_eq]))

theorem storeText_eq (text : List UInt8) : ∀ (a : Bytes n) {i : Nat}, i < n →
    ∃ b, storeText a i text = some b ∧
      b.toList = a.toList.take i ++ boundedCopy (a.toList.drop i) text := by
  induction text with
  | nil =>
    intro a i hi
    have hlen : i < a.toList.length := by rwa [a.length_eq]
    refine ⟨_, writeByte_of_lt a hi 0, ?_⟩
    rw [toList_set a hi, List.drop_eq_getElem_cons hlen]
    cases a.toList.drop (i + 1) with
    | nil => rfl
    | cons d dest => rfl
  | cons c text ih =>
    intro a i hi
    have hlen : i < a.toList.length := by rwa [a.length_eq]
    rw [storeText]
    by_cases hroom : i + 1 < n
    · obtain ⟨b, hb, htext⟩ := ih (a.set i c) hroom
      have hlen' : i + 1 < a.toList.length := by rwa [a.length_eq]
      have htake : (a.toList.take i).length = i := List.length_take_of_le hlen.le
      have hsplit : a.toList.take i ++ c :: a.toList.drop (i + 1) =
          (a.toList.take i ++ [c]) ++ a.toList.drop (i + 1) := List.append_cons ..
      have hfirst : (a.toList.take i ++ [c]).length = i + 1 := by
        rw [List.length_append, htake, List.length_singleton]
      rw [if_pos hroom, writeByte_of_lt a hi c, Option.bind_some]
      refine ⟨b, hb, ?_⟩
      rw [htext, toList_set a hi, hsplit, ← hfirst, List.take_left, List.drop_left, hfirst,
        List.drop_eq_getElem_cons hlen, List.drop_eq_getElem_cons hlen', boundedCopy,
        List.append_assoc, List.singleton_append]
    · have hlast : a.toList.drop (i + 1) = [] := by
        rw [List.drop_eq_nil_iff, a.length_eq]
        omega
      rw [if_neg hroom]
      refine ⟨_, writeByte_of_lt a hi 0, ?_⟩
      rw [toList_set a hi, List.drop_eq_getElem_cons hlen, hlast]
      rfl

theorem moveUp_eq (pos i : Nat) (hi : i < n) : ∀ rows : Fin n → α,
    moveUp pos i rows = some (shiftUp rows pos i hi) := by
  induction i with
  | zero => exact fun _ => rfl
  | succ i ih =>
    intro rows
    rw [moveUp, shiftUp]
    by_cases hpos : i + 1 > pos
    · rw [if_pos hpos, if_pos hpos, readAt_of_lt rows (by omega), Option.bind_some,
        writeAt_of_lt rows hi, Option.bind_some, ih]
    · rw [if_neg hpos, if_neg hpos]

theorem moveDown_eq {count : Nat} (h : count ≤ n) (i : Nat) (rows : Fin n → α) :
    moveDown count i rows = some (shiftDown rows count h i) := by
  fun_induction shiftDown rows count h i with
  | case1 rows i hi ih =>
    rw [moveDown, dif_pos hi, readAt_of_lt rows (by omega), Option.bind_some,
      writeAt_of_lt rows (by omega), Option.bind_some, ih]
  | case2 rows i hi => rw [moveDown, dif_neg hi]

end AcharyaOS.Foundation.Checked
