import AcharyaOS.Arp.Code
import AcharyaOS.Foundation.Run
import Mathlib.Data.Fintype.Basic

/-!
# Static entries of the ARP cache

The cache is a table keyed by address.  Ageing passes over permanent entries, and all the
entries of this cache are permanent.  An insertion does not: with no slot free it takes slot 0,
whatever stands there.
-/

namespace AcharyaOS.Arp

open Foundation Foundation.Run

/-- The address of a valid entry. -/
def ArpEntry.key (e : ArpEntry) : Option UInt32 := if e.valid then some e.ip else none

def ArpState.key (s : ArpState) (i : Fin arpCacheMax) : Option UInt32 := (s.cache i).key

/-- Every address given to the cache resolves to the latest MAC address for it, and at most
one valid entry exists for an address. -/
structure Resolvable (r : ArpRun) : Prop where
  resolves : ∀ ip mac, r.latest ip = some mac → (arpResolve r.arp ip).2 = some mac
  distinct : Distinct r.arp.key

/-- An address that has no entry is added only while there is a free one. -/
def FindsSlot (r : ArpRun) : ArpCall → Prop
  | .addStatic _ ip (some _) =>
      (∃ i, (r.arp.cache i).valid = true ∧ (r.arp.cache i).ip = ip) ∨
        ∃ i, (r.arp.cache i).valid = false
  | _ => True

theorem ArpEntry.key_eq_some_iff {e : ArpEntry} {ip : UInt32} :
    e.key = some ip ↔ e.valid = true ∧ e.ip = ip := by
  unfold ArpEntry.key
  split
  · next hvalid => simp [hvalid]
  · next hvalid => simp [hvalid]

section Cache

variable (s : ArpState)

theorem firstSlot_entry (ip : UInt32) :
    (firstSlot fun i => (s.cache i).valid && (s.cache i).ip == ip) = slotOf s.key ip := by
  unfold slotOf ArpState.key
  congr 1
  ext i : 1
  rw [Bool.eq_iff_iff, decide_eq_true_iff, ArpEntry.key_eq_some_iff, Bool.and_eq_true, beq_iff_eq]

theorem arpResolve_snd (ip : UInt32) :
    (arpResolve s ip).2 = (slotOf s.key ip).map fun i => (s.cache i).mac := by
  unfold arpResolve
  rw [firstSlot_entry]
  cases slotOf s.key ip <;> rfl

theorem cache_arpResolve (ip : UInt32) : (arpResolve s ip).1.cache = s.cache := by
  unfold arpResolve
  cases firstSlot fun i => (s.cache i).valid && (s.cache i).ip == ip <;> rfl

theorem arpResolve_congr {s t : ArpState} (h : t.cache = s.cache) (ip : UInt32) :
    (arpResolve t ip).2 = (arpResolve s ip).2 := by
  rw [arpResolve_snd, arpResolve_snd]
  unfold ArpState.key
  rw [h]

theorem findSlot_cases (ip : UInt32) :
    (s.key (findSlot s ip) = some ip) ∨
      ((∀ i, s.key i ≠ some ip) ∧ (s.cache (findSlot s ip)).valid = false) ∨
      ((∀ i, s.key i ≠ some ip) ∧ (∀ i, (s.cache i).valid = true) ∧ findSlot s ip = 0) := by
  unfold findSlot
  rw [firstSlot_entry]
  cases hslot : slotOf s.key ip with
  | some i => exact .inl (slotOf_some hslot)
  | none =>
      right
      have hnone := slotOf_eq_none_iff.mp hslot
      cases hfree : firstSlot fun i => !(s.cache i).valid with
      | some i => exact .inl ⟨hnone, by simpa using firstSlot_some hfree⟩
      | none =>
          have hfull := firstSlot_eq_none_iff.mp hfree
          exact .inr ⟨hnone, fun i => by simpa using hfull i, rfl⟩

theorem key_insertEntry (tick : UInt64) (ip : UInt32) (mac : Mac) (permanent : Bool) :
    (insertEntry s tick ip mac permanent).key =
      Function.update s.key (findSlot s ip) (some ip) := by
  ext i : 1
  by_cases hi : i = findSlot s ip
  · subst hi
    simp [ArpState.key, insertEntry, ArpEntry.key]
  · simp [ArpState.key, insertEntry, hi]

variable {s}

/-- An entry that is in the cache already or goes to a free slot leaves the others. -/
theorem distinct_insertEntry (h : Distinct s.key) (tick : UInt64) (ip : UInt32) (mac : Mac)
    (permanent : Bool) : Distinct (insertEntry s tick ip mac permanent).key := by
  rw [key_insertEntry]
  apply h.update
  rintro x ⟨⟩ j hj hkey
  rcases findSlot_cases s ip with hcached | ⟨hnone, -⟩ | ⟨hnone, -⟩
  · exact hj (h j _ ip hkey hcached)
  · exact hnone j hkey
  · exact hnone j hkey

theorem arpResolve_insertEntry_self (h : Distinct s.key) (tick : UInt64) (ip : UInt32)
    (mac : Mac) (permanent : Bool) :
    (arpResolve (insertEntry s tick ip mac permanent) ip).2 = some mac := by
  have hslot : slotOf (insertEntry s tick ip mac permanent).key ip = some (findSlot s ip) := by
    apply (distinct_insertEntry h tick ip mac permanent).slotOf_eq
    rw [key_insertEntry, Function.update_self]
  rw [arpResolve_snd, hslot]
  simp [insertEntry]

theorem arpResolve_insertEntry_of_ne (tick : UInt64) {ip x : UInt32} (mac : Mac)
    (permanent : Bool) (hne : x ≠ ip) (hslot : s.key (findSlot s ip) ≠ some x) :
    (arpResolve (insertEntry s tick ip mac permanent) x).2 = (arpResolve s x).2 := by
  rw [arpResolve_snd, arpResolve_snd, key_insertEntry,
    slotOf_update_of_ne hslot (by simpa using hne.symm)]
  cases hx : slotOf s.key x with
  | none => rfl
  | some i =>
      have hi : i ≠ findSlot s ip := by
        rintro rfl
        exact hslot (slotOf_some hx)
      simp [insertEntry, hi]

end Cache

/-- Every valid entry is permanent and was given to the cache. -/
def Given (r : ArpRun) : Prop :=
  ∀ i ip, r.arp.key i = some ip → (r.arp.cache i).permanent = true ∧ (r.latest ip).isSome

section Steps

variable {r : ArpRun}

theorem Given.poll (h : Given r) (tick : UInt64) : arpRunStep r (.poll tick) = r := by
  have hcache : (fun i => (r.arp.cache i).age tick.toUInt32) = r.arp.cache := by
    ext i : 1
    unfold ArpEntry.age
    apply if_pos
    cases hvalid : (r.arp.cache i).valid with
    | false => rfl
    | true => simp [(h i _ (ArpEntry.key_eq_some_iff.mpr ⟨hvalid, rfl⟩)).1]
  show (⟨{ r.arp with cache := fun i => (r.arp.cache i).age tick.toUInt32 }, r.latest⟩ : ArpRun) = r
  rw [hcache]

theorem Given.insert (h : Given r) (tick : UInt64) (ip : UInt32) (mac : Mac) :
    Given ⟨insertEntry r.arp tick ip mac true, Function.update r.latest ip (some mac)⟩ := by
  intro i x hi
  simp only [key_insertEntry] at hi
  by_cases hslot : i = findSlot r.arp ip
  · rw [hslot, Function.update_self] at hi
    cases hi
    simp [insertEntry, hslot]
  · rw [Function.update_of_ne hslot] at hi
    obtain ⟨hpermanent, hsome⟩ := h i x hi
    refine ⟨by simpa [insertEntry, hslot] using hpermanent, ?_⟩
    by_cases hx : x = ip
    · simp [hx]
    · simpa [hx] using hsome

theorem arpRunStep_init (r : ArpRun) (tick : UInt64) :
    arpRunStep r (.init tick) =
      ⟨insertEntry r.arp.cleared tick localIp broadcastLikeLocal true,
        Function.update (fun _ => none) localIp (some broadcastLikeLocal)⟩ := rfl

theorem key_cleared (s : ArpState) : s.cleared.key = fun _ => none := rfl

theorem given_init (r : ArpRun) (tick : UInt64) : Given (arpRunStep r (.init tick)) := by
  have hempty : Given ⟨r.arp.cleared, fun _ => none⟩ := by
    intro i ip hi
    rw [key_cleared] at hi
    cases hi
  exact hempty.insert tick localIp broadcastLikeLocal

theorem resolvable_init (r : ArpRun) (tick : UInt64) :
    Resolvable (arpRunStep r (.init tick)) := by
  have hdistinct : Distinct r.arp.cleared.key := key_cleared r.arp ▸ Distinct.free
  rw [arpRunStep_init]
  refine ⟨?_, distinct_insertEntry hdistinct _ _ _ _⟩
  intro ip mac hlatest
  by_cases hip : ip = localIp
  · subst hip
    simp only [Function.update_self] at hlatest
    cases hlatest
    exact arpResolve_insertEntry_self hdistinct _ _ _ _
  · simp only [Function.update_of_ne hip] at hlatest
    cases hlatest

theorem Given.step (h : Given r) (c : ArpCall) : Given (arpRunStep r c) := by
  cases c with
  | init tick => exact given_init r tick
  | addStatic tick ip mac =>
      cases mac with
      | none => exact h
      | some mac => exact h.insert tick ip mac
  | poll tick =>
      rw [h.poll]
      exact h
  | resolve ip =>
      intro i x hi
      have hcache := cache_arpResolve r.arp ip
      simp only [arpRunStep, arpStep, ArpState.key, hcache] at hi ⊢
      exact h i x hi

theorem resolvable_addStatic_iff (hgiven : Given r) (h : Resolvable r) (tick : UInt64)
    (ip : UInt32) (mac : Mac) :
    Resolvable (arpRunStep r (.addStatic tick ip (some mac))) ↔
      FindsSlot r (.addStatic tick ip (some mac)) := by
  have hdistinct := distinct_insertEntry h.distinct tick ip mac true
  -- what is left to show when the slot taken was no other address's
  have hkept : (∀ x, x ≠ ip → r.arp.key (findSlot r.arp ip) ≠ some x) →
      Resolvable (arpRunStep r (.addStatic tick ip (some mac))) := by
    intro hslot
    refine ⟨?_, hdistinct⟩
    intro x m hlatest
    by_cases hx : x = ip
    · subst hx
      simp only [arpRunStep, ArpRun.record, Function.update_self] at hlatest
      cases hlatest
      exact arpResolve_insertEntry_self h.distinct _ _ _ _
    · simp only [arpRunStep, ArpRun.record, Function.update_of_ne hx] at hlatest
      exact (arpResolve_insertEntry_of_ne tick mac true hx (hslot x hx)).trans
        (h.resolves x m hlatest)
  rcases findSlot_cases r.arp ip with hcached | ⟨hnone, hfree⟩ | ⟨hnone, hfull, hzero⟩
  · refine iff_of_true (hkept fun x hx hkey => ?_)
      (.inl ⟨_, ArpEntry.key_eq_some_iff.mp hcached⟩)
    exact hx (Option.some.inj (hkey.symm.trans hcached))
  · refine iff_of_true (hkept fun x _ hkey => ?_) (.inr ⟨_, hfree⟩)
    rw [(ArpEntry.key_eq_some_iff.mp hkey).1] at hfree
    cases hfree
  · -- the address in slot 0 is overwritten and no other entry has it
    refine iff_of_false (fun hafter => ?_) ?_
    · set x := (r.arp.cache 0).ip
      have hkey : r.arp.key 0 = some x := ArpEntry.key_eq_some_iff.mpr ⟨hfull 0, rfl⟩
      have hx : x ≠ ip := fun heq => hnone 0 (heq ▸ hkey)
      obtain ⟨m, hm⟩ := Option.isSome_iff_exists.mp (hgiven 0 x hkey).2
      have hresolves := hafter.resolves x m
        (by simpa only [arpRunStep, ArpRun.record, Function.update_of_ne hx] using hm)
      have hgone : slotOf (insertEntry r.arp tick ip mac true).key x = none := by
        rw [slotOf_eq_none_iff, key_insertEntry, hzero]
        intro i hi
        by_cases hi0 : i = 0
        · rw [hi0, Function.update_self] at hi
          exact hx (Option.some.inj hi).symm
        · rw [Function.update_of_ne hi0] at hi
          exact hi0 (h.distinct i 0 x hi hkey)
      simp only [arpRunStep, arpStep, arpAddStatic, arpResolve_snd, hgone] at hresolves
      cases hresolves
    · rintro (⟨i, hvalid, hip⟩ | ⟨i, hinvalid⟩)
      · exact hnone i (ArpEntry.key_eq_some_iff.mpr ⟨hvalid, hip⟩)
      · rw [hfull i] at hinvalid
        cases hinvalid

theorem resolvable_step_iff (hgiven : Given r) (h : Resolvable r) (c : ArpCall) :
    Resolvable (arpRunStep r c) ↔ FindsSlot r c := by
  cases c with
  | init tick => exact iff_of_true (resolvable_init r tick) trivial
  | addStatic tick ip mac =>
      cases mac with
      | none => exact iff_of_true ⟨h.resolves, h.distinct⟩ trivial
      | some mac => exact resolvable_addStatic_iff hgiven h tick ip mac
  | poll tick =>
      refine iff_of_true ?_ trivial
      rw [hgiven.poll]
      exact h
  | resolve ip =>
      have hcache := cache_arpResolve r.arp ip
      refine iff_of_true ⟨fun x m hlatest => ?_, ?_⟩ trivial
      · exact (arpResolve_congr hcache x).trans (h.resolves x m hlatest)
      · have hkey : (arpResolve r.arp ip).1.key = r.arp.key := by
          unfold ArpState.key
          rw [hcache]
        exact hkey ▸ h.distinct

end Steps

/-- The addresses given to the cache stay resolvable throughout a run exactly when each
one that is new to the cache finds a free entry. -/
theorem resolvable_run_iff (s : ArpState) (tick : UInt64) (calls : List ArpCall) :
    AllStates arpRunStep Resolvable (arpStart s tick) calls ↔
      AllSteps arpRunStep FindsSlot (arpStart s tick) calls :=
  allStates_iff_allSteps (I := Given) (fun _ c h => h.step c)
    (fun _ c hgiven h => resolvable_step_iff hgiven h c) calls _
    (given_init _ tick) (resolvable_init _ tick)

/-- After 31 other addresses the cache is full, and one more evicts the local one. -/
def crowd : List ArpCall :=
  (List.range 32).map fun k => .addStatic 0 (UInt32.ofNat k) (some fun _ => 1)

theorem not_resolvable_after_crowd :
    ¬ ∀ (s : ArpState) (tick : UInt64) (calls : List ArpCall),
      AllStates arpRunStep Resolvable (arpStart s tick) calls := by
  intro h
  let s : ArpState := ⟨fun _ => .zero, ⟨0, 0, 0, 0⟩, fun _ => 0, ⟨fun _ => 0, true, 0, 0⟩⟩
  have hresolves := (h s 0 crowd).last.resolves localIp broadcastLikeLocal (by decide +kernel)
  have hnone : (arpResolve (runSteps arpRunStep (arpStart s 0) crowd).arp localIp).2.isNone := by
    decide +kernel
  rw [hresolves] at hnone
  cases hnone

end AcharyaOS.Arp
