import Mathlib.Data.List.Nodup
import Mathlib.Data.List.Basic
import Mathlib.Data.List.Induction
import Mathlib.Logic.Function.Basic

/-!
# Association lists in insertion order

A store of settings overwrites the value of a key it has and appends a key it
has not.  Inserting a list again into the part of it that was there first
rebuilds the list.
-/

namespace AcharyaOS.Foundation.Assoc

variable {α β : Type} [DecidableEq α]

def keys (l : List (α × β)) : List α := l.map Prod.fst

def upsert : List (α × β) → α → β → List (α × β)
  | [], k, v => [(k, v)]
  | p :: l, k, v => if p.1 = k then (k, v) :: l else p :: upsert l k v

/-- Insert the pairs of a list, in its order. -/
def insertAll (d l : List (α × β)) : List (α × β) := l.foldl (fun d p => upsert d p.1 p.2) d

theorem upsert_of_notMem {l : List (α × β)} {k : α} (h : k ∉ keys l) (v : β) :
    upsert l k v = l ++ [(k, v)] := by
  induction l with
  | nil => rfl
  | cons p l ih =>
      rw [keys, List.map_cons, List.mem_cons, not_or] at h
      rw [upsert, if_neg (Ne.symm h.1), ih h.2, List.cons_append]

theorem upsert_append {l m : List (α × β)} {k : α} (h : k ∉ keys l) (v : β) :
    upsert (l ++ m) k v = l ++ upsert m k v := by
  induction l with
  | nil => rfl
  | cons p l ih =>
      rw [keys, List.map_cons, List.mem_cons, not_or] at h
      rw [List.cons_append, upsert, if_neg (Ne.symm h.1), ih h.2, List.cons_append]

theorem upsert_of_getElem {l : List (α × β)} (hl : (keys l).Nodup) {i : Nat} {k : α} {w : β}
    (hi : l[i]? = some (k, w)) (v : β) : upsert l k v = l.set i (k, v) := by
  induction l generalizing i with
  | nil => simp at hi
  | cons p l ih =>
      rw [keys, List.map_cons, List.nodup_cons] at hl
      cases i with
      | zero =>
          rw [List.getElem?_cons_zero, Option.some.injEq] at hi
          subst hi
          rw [upsert, if_pos rfl, List.set_cons_zero]
      | succ i =>
          rw [List.getElem?_cons_succ] at hi
          have hne : p.1 ≠ k := by
            rintro rfl
            exact hl.1 (List.mem_map.mpr ⟨_, List.mem_of_getElem? hi, rfl⟩)
          rw [upsert, if_neg hne, ih hl.2 hi, List.set_cons_succ]

theorem keys_upsert (l : List (α × β)) (k : α) (v : β) :
    keys (upsert l k v) = if k ∈ keys l then keys l else keys l ++ [k] := by
  induction l with
  | nil => rfl
  | cons p l ih =>
      by_cases hp : p.1 = k
      · rw [upsert, if_pos hp, if_pos]
        · simp [keys, hp]
        · simp [keys, hp]
      · rw [upsert, if_neg hp]
        have hmem : k ∈ keys (p :: l) ↔ k ∈ keys l := by
          simp [keys, Ne.symm hp]
        simp only [hmem]
        change p.1 :: keys (upsert l k v) = _
        rw [ih]
        split <;> rfl

theorem nodup_upsert {l : List (α × β)} (h : (keys l).Nodup) (k : α) (v : β) :
    (keys (upsert l k v)).Nodup := by
  rw [keys_upsert]
  split
  · exact h
  · next hk => exact List.Nodup.append h (List.nodup_singleton k) (by simpa using hk)

theorem keys_prefix_upsert (l : List (α × β)) (k : α) (v : β) :
    keys l <+: keys (upsert l k v) := by
  rw [keys_upsert]
  split
  · exact List.prefix_rfl
  · exact List.prefix_append ..

theorem keys_prefix_insertAll (l : List (α × β)) : ∀ d, keys d <+: keys (insertAll d l) := by
  induction l with
  | nil => exact fun _ => List.prefix_rfl
  | cons p l ih => exact fun d => (keys_prefix_upsert d p.1 p.2).trans (ih _)

theorem forall_mem_upsert {P : α × β → Prop} {l : List (α × β)} (h : ∀ p ∈ l, P p) {k : α}
    {v : β} (hkv : P (k, v)) : ∀ p ∈ upsert l k v, P p := by
  induction l with
  | nil => simpa [upsert] using hkv
  | cons q l ih =>
      rw [upsert]
      split
      · exact List.forall_mem_cons.mpr ⟨hkv, fun p hp => h p (List.mem_cons_of_mem _ hp)⟩
      · exact List.forall_mem_cons.mpr ⟨h q (List.mem_cons_self ..),
          ih fun p hp => h p (List.mem_cons_of_mem _ hp)⟩

/-- What has been inserted again, in front of what is left of `d`. -/
theorem insertAll_append {d l m : List (α × β)} (hl : (keys (l ++ m)).Nodup)
    (hd : keys d <+: keys (l ++ m)) :
    insertAll (l ++ d.drop l.length) m = l ++ m ++ d.drop (l ++ m).length := by
  induction m generalizing l with
  | nil => simp [insertAll]
  | cons p m ih =>
      have hstep : upsert (l ++ d.drop l.length) p.1 p.2 =
          (l ++ [p]) ++ d.drop (l ++ [p]).length := by
        have hfresh : p.1 ∉ keys l := by
          simp only [keys, List.map_append, List.map_cons] at hl ⊢
          exact List.disjoint_right.mp (List.disjoint_of_nodup_append hl) (List.mem_cons_self ..)
        rw [upsert_append hfresh, List.length_append, List.length_singleton]
        by_cases hlt : l.length < d.length
        · -- the next key of `d` is the one inserted
          have hkey : (keys (l ++ p :: m))[l.length]? = some d[l.length].1 := by
            have h := List.prefix_iff_getElem?.mp hd l.length (by simpa [keys] using hlt)
            simpa only [keys, List.getElem_map] using h
          have hsame : d[l.length].1 = p.1 := by
            simpa [keys] using hkey.symm
          rw [List.drop_eq_getElem_cons hlt, upsert, if_pos hsame, List.append_assoc]
          rfl
        · rw [List.drop_eq_nil_of_le (Nat.not_lt.mp hlt),
            List.drop_eq_nil_of_le (Nat.le_succ_of_le (Nat.not_lt.mp hlt)), List.append_nil]
          rfl
      have hsplit : l ++ p :: m = (l ++ [p]) ++ m := by simp
      rw [hsplit] at hl hd ⊢
      rw [← ih hl hd, ← hstep]
      rfl

/-- Inserting a list into a store whose keys are its first ones rebuilds the list. -/
theorem insertAll_eq {d l : List (α × β)} (hl : (keys l).Nodup) (hd : keys d <+: keys l) :
    insertAll d l = l := by
  have hlength : d.length ≤ l.length := by
    simpa [keys] using hd.length_le
  have h := insertAll_append (l := []) (m := l) (d := d) hl hd
  rw [List.nil_append, List.nil_append, List.length_nil, List.drop_zero,
    List.drop_eq_nil_of_le hlength, List.append_nil] at h
  exact h

/-! ## Updating a map by a list -/

/-- The value in the last pair for a key. -/
def lastValue (l : List (α × β)) (k : α) : Option β :=
  (l.filter fun p => p.1 = k).getLast?.map Prod.snd

theorem lastValue_cons (p : α × β) (l : List (α × β)) (k : α) :
    lastValue (p :: l) k = (lastValue l k).or (if p.1 = k then some p.2 else none) := by
  unfold lastValue
  by_cases hk : p.1 = k
  · rw [List.filter_cons_of_pos (by simpa using hk), List.getLast?_cons, if_pos hk]
    cases (l.filter fun p => p.1 = k).getLast? with
    | none => rfl
    | some q => rfl
  · rw [List.filter_cons_of_neg (by simpa using hk), if_neg hk, Option.or_none]

theorem foldl_update_apply (l : List (α × β)) (m : α → Option β) (k : α) :
    l.foldl (fun (m : α → Option β) p => Function.update m p.1 (some p.2)) m k =
      (lastValue l k).or (m k) := by
  induction l generalizing m with
  | nil => rfl
  | cons p l ih =>
    rw [List.foldl_cons, ih, lastValue_cons, Option.or_assoc]
    congr 1
    by_cases hk : p.1 = k
    · rw [hk, Function.update_self, if_pos rfl]
      rfl
    · rw [Function.update_of_ne (Ne.symm hk), if_neg hk]
      rfl

/-- A part of the state that each element for which `p` holds sets anew, and that the others
leave alone, is what the last of these has set. -/
theorem foldl_getLast {σ ι γ : Type} {f : σ → ι → σ} (get : σ → γ) (p : ι → Bool)
    (value : ι → γ) (hset : ∀ s i, p i = true → get (f s i) = value i)
    (hkeep : ∀ s i, p i = false → get (f s i) = get s) (s : σ) (l : List ι) :
    get (l.foldl f s) = (l.filter p).getLast?.elim (get s) value := by
  induction l using List.reverseRecOn with
  | nil => rfl
  | append_singleton l i ih =>
    rw [List.foldl_append, List.foldl_cons, List.foldl_nil, List.filter_append]
    cases hi : p i with
    | true =>
      rw [List.filter_cons_of_pos hi, List.filter_nil, List.getLast?_concat, hset _ _ hi]
      rfl
    | false =>
      rw [List.filter_cons_of_neg (by simp [hi]), List.filter_nil, List.append_nil, hkeep _ _ hi,
        ih]

end AcharyaOS.Foundation.Assoc
