import AcharyaOS.Foundation.Ring

/-!
# Queues in a ring

A ring of `n` slots with a head and a tail keeps a queue of fewer than `n` values: they
stand from the tail on, the head is the slot behind the last one, and one slot stays
unused so that equal indices mean an empty queue.
-/

namespace AcharyaOS.Foundation.Ring

variable {α : Type} {n : Nat}

/-- The slot after `i`, counted round. -/
def next (i : Fin n) : Fin n := slotAt i.pos (i + 1)

/-- The ring holds the queue `q`, first value at the tail. -/
structure Queued (slots : Fin n → α) (head tail : Fin n) (q : List α) : Prop where
  length_lt : q.length < n
  head_eq : head = slotAt tail.pos (tail + q.length)
  slot : ∀ j (hj : j < q.length), slots (slotAt tail.pos (tail + j)) = q[j]

theorem slotAt_val (hn : 0 < n) {x : Nat} (h : x < n + n) :
    (slotAt hn x).val = if x < n then x else x - n := mod_of_lt_add h

theorem slotAt_self (i : Fin n) : slotAt i.pos (i + 0) = i := by
  apply Fin.ext
  exact Nat.mod_eq_of_lt i.isLt

theorem next_val (i : Fin n) : (next i).val = if i.val + 1 < n then i.val + 1 else 0 := by
  have hi := i.isLt
  unfold next
  rw [slotAt_val i.pos (by omega)]
  split <;> omega

/-- Fewer than `n` slots apart, counting round is injective. -/
theorem slotAt_add_inj (i : Fin n) {j k : Nat} (hj : j < n) (hk : k < n)
    (h : slotAt i.pos (i + j) = slotAt i.pos (i + k)) : j = k := by
  have hi := i.isLt
  have hval := congrArg Fin.val h
  rw [slotAt_val i.pos (by omega), slotAt_val i.pos (by omega)] at hval
  split at hval <;> split at hval <;> omega

theorem slotAt_next_add (i : Fin n) {j : Nat} (hj : j + 1 < n) :
    slotAt (next i).pos (next i + j) = slotAt i.pos (i + (j + 1)) := by
  have hi := i.isLt
  have hnext := next_val i
  apply Fin.ext
  rw [slotAt_val _ (by split at hnext <;> omega), slotAt_val _ (by omega)]
  split at hnext <;> split <;> split <;> omega

theorem next_slotAt (i : Fin n) {j : Nat} (hj : j < n) :
    next (slotAt i.pos (i + j)) = slotAt i.pos (i + (j + 1)) := by
  have hi := i.isLt
  have hval := slotAt_val i.pos (x := i + j) (by omega)
  apply Fin.ext
  rw [next_val, hval]
  by_cases hlast : i.val + (j + 1) < n + n
  · rw [slotAt_val i.pos hlast]
    split <;> split <;> split <;> omega
  · omega

namespace Queued

variable {slots : Fin n → α} {head tail : Fin n} {q : List α} {x : α}

theorem nil (slots : Fin n → α) (i : Fin n) : Queued slots i i [] where
  length_lt := i.pos
  head_eq := (slotAt_self i).symm
  slot _ hj := absurd hj (Nat.not_lt_zero _)

theorem head_eq_tail_iff (h : Queued slots head tail q) : head = tail ↔ q = [] := by
  constructor
  · intro heq
    rw [h.head_eq] at heq
    have hlen := slotAt_add_inj tail h.length_lt tail.pos (heq.trans (slotAt_self tail).symm)
    exact List.length_eq_zero_iff.mp hlen
  · rintro rfl
    exact h.head_eq.trans (slotAt_self tail)

/-- The head stands right before the tail when all slots but one are taken. -/
theorem next_head_eq_tail_iff (h : Queued slots head tail q) :
    next head = tail ↔ q.length + 1 = n := by
  have hlen := h.length_lt
  rw [h.head_eq, next_slotAt tail hlen]
  constructor
  · intro heq
    by_contra hne
    have hzero := slotAt_add_inj tail (j := q.length + 1) (by omega) tail.pos
      (heq.trans (slotAt_self tail).symm)
    omega
  · intro hfull
    apply Fin.ext
    show (tail + (q.length + 1)) % n = tail
    rw [hfull, Nat.add_mod_right, Nat.mod_eq_of_lt tail.isLt]

theorem push (h : Queued slots head tail q) (hroom : q.length + 1 < n) (x : α) :
    Queued (Function.update slots head x) (next head) tail (q ++ [x]) where
  length_lt := by simpa using hroom
  head_eq := by
    rw [h.head_eq, next_slotAt tail h.length_lt, List.length_append, List.length_singleton]
  slot j hj := by
    rw [List.length_append, List.length_singleton] at hj
    rw [List.getElem_append]
    by_cases hold : j < q.length
    · have hne : slotAt tail.pos (tail + j) ≠ head := by
        intro heq
        rw [h.head_eq] at heq
        have := slotAt_add_inj tail (by omega) h.length_lt heq
        omega
      rw [Function.update_of_ne hne, dif_pos hold, h.slot j hold]
    · obtain rfl : j = q.length := by omega
      rw [dif_neg hold, ← h.head_eq, Function.update_self]
      simp

theorem front (h : Queued slots head tail (x :: q)) : slots tail = x := by
  have hslot := h.slot 0 (Nat.zero_lt_succ _)
  rw [slotAt_self] at hslot
  exact hslot

theorem pop (h : Queued slots head tail (x :: q)) : Queued slots head (next tail) q where
  length_lt := Nat.lt_of_succ_lt h.length_lt
  head_eq := by
    rw [h.head_eq, slotAt_next_add tail h.length_lt, List.length_cons]
  slot j hj := by
    have hlen : q.length + 1 < n := h.length_lt
    rw [slotAt_next_add tail (by omega), h.slot (j + 1) (Nat.succ_lt_succ hj)]
    rfl

end Queued

end AcharyaOS.Foundation.Ring
