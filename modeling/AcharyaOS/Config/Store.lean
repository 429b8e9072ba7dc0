import AcharyaOS.Config.Code
import AcharyaOS.Foundation.Run
import AcharyaOS.Fs.Reach

/-!
# The configuration store as a map

Looking up compares whole keys, and storing cuts a key to 31 bytes.  A longer key is
therefore never found again, so that `config_set` takes a slot for it whenever there is one:
the value is lost, and the key it was cut to may be there already.
-/

namespace AcharyaOS.Config

open Foundation Foundation.Run Disk Fs

/-- The key a slot holds. -/
def configKeys (t : ConfigTable) (i : Fin configEntryMax) : Option (List UInt8) :=
  if (t i).used then some (t i).key.text else none

/-- What looking a key up finds. -/
def configLookup (t : ConfigTable) (key : List UInt8) : Option (List UInt8) :=
  (slotOf (configKeys t) key).map fun idx => (t idx).value.text

/-- No two used slots hold the same key. -/
abbrev UniqueKeys (t : ConfigTable) : Prop := Distinct (configKeys t)

/-- A `config_set` that returns 0 makes its key give its value, cut to 95 bytes, in any
buffer that holds it, and changes no other key that had a value. -/
def SetLaw (t : ConfigTable) (key value : CString) : Prop :=
  (configSet t (some key) (some value)).2 = 0 →
    (∀ out : List UInt8, configValueMax ≤ out.length →
      (configGet (configSet t (some key) (some value)).1 (some key) (some out)).map cText =
        some (value.bytes.take (configValueMax - 1))) ∧
    ∀ other out text, other ≠ key → configGet t (some other) (some out) = some text →
      configGet (configSet t (some key) (some value)).1 (some other) (some out) = some text

/-! ## Looking up -/

section Lookup

variable {t : ConfigTable} {i : Fin configEntryMax} {k : List UInt8}

theorem configKeys_eq_some_iff :
    configKeys t i = some k ↔ (t i).used = true ∧ (t i).key.text = k := by
  unfold configKeys
  split
  · next hused => simp [hused]
  · next hused => simp [hused]

theorem configFindIndex_eq (t : ConfigTable) (key : CString) :
    configFindIndex t key = slotOf (configKeys t) key.bytes := by
  unfold configFindIndex slotOf
  congr 1
  ext i : 1
  rw [Bool.eq_iff_iff, Bool.and_eq_true, beq_iff_eq, strcmp_eq_zero_iff, cText_bytes,
    decide_eq_true_iff, configKeys_eq_some_iff]
  rfl

theorem configFindFreeIndex_some (h : configFindFreeIndex t = some i) :
    configKeys t i = none := by
  have hfree := firstSlot_some h
  unfold configKeys
  apply if_neg
  simpa using hfree

theorem length_of_configKeys (h : configKeys t i = some k) : k.length < configKeyMax := by
  rw [← (configKeys_eq_some_iff.mp h).2]
  exact CField.length_text_lt _

theorem slotOf_long (h : configKeyMax ≤ k.length) : slotOf (configKeys t) k = none := by
  rw [slotOf_eq_none_iff]
  intro i hi
  have hlt := length_of_configKeys hi
  omega

theorem configGet_eq (t : ConfigTable) (key : CString) {out : List UInt8} (hout : out ≠ []) :
    configGet t (some key) (some out) =
      (configLookup t key.bytes).map fun text => boundedCopy out text := by
  unfold configGet configLookup
  simp only [beq_eq_false_iff_ne.mpr hout, Bool.false_eq_true, if_false, configFindIndex_eq,
    Option.map_map]
  rfl

end Lookup

/-! ## Setting -/

section Set

variable {t : ConfigTable} {key value : CString} {i : Fin configEntryMax}

theorem configSet_cases (t : ConfigTable) (hne : key.bytes ≠ []) (value : CString) :
    (∃ i, slotOf (configKeys t) key.bytes = some i ∧ configSet t (some key) (some value) =
        (Function.update t i { t i with value := (t i).value.copy value }, 0)) ∨
      (∃ i, slotOf (configKeys t) key.bytes = none ∧ configFindFreeIndex t = some i ∧
        configSet t (some key) (some value) =
          (Function.update t i ⟨(t i).key.copy key, (t i).value.copy value, true⟩, 0)) ∨
      (slotOf (configKeys t) key.bytes = none ∧ configFindFreeIndex t = none ∧
        configSet t (some key) (some value) = (t, -1)) := by
  unfold configSet
  simp only [beq_eq_false_iff_ne.mpr hne, Bool.false_eq_true, if_false, configFindIndex_eq]
  cases hfind : slotOf (configKeys t) key.bytes with
  | some i => exact .inl ⟨i, rfl, rfl⟩
  | none =>
      right
      cases hfree : configFindFreeIndex t with
      | some i => exact .inl ⟨i, rfl, rfl, rfl⟩
      | none => exact .inr ⟨rfl, rfl, rfl⟩

theorem configKeys_update (e : ConfigEntry) :
    configKeys (Function.update t i e) =
      Function.update (configKeys t) i (if e.used then some e.key.text else none) := by
  ext j : 1
  unfold configKeys
  by_cases hj : j = i
  · rw [hj, Function.update_self, Function.update_self]
  · rw [Function.update_of_ne hj, Function.update_of_ne hj]

theorem configKeys_copy_value :
    configKeys (Function.update t i { t i with value := (t i).value.copy value }) =
      configKeys t := by
  rw [configKeys_update]
  exact Function.update_eq_self i (configKeys t)

theorem configKeys_new :
    configKeys (Function.update t i ⟨(t i).key.copy key, (t i).value.copy value, true⟩) =
      Function.update (configKeys t) i (some (key.bytes.take (configKeyMax - 1))) := by
  rw [configKeys_update, if_pos rfl, CField.text_copy]

/-- A change in one slot is not seen under a key that the slot holds neither before nor
after it. -/
theorem configLookup_update_of_ne {k : List UInt8} {e : ConfigEntry}
    (hold : configKeys t i ≠ some k) (hnew : configKeys (Function.update t i e) i ≠ some k) :
    configLookup (Function.update t i e) k = configLookup t k := by
  rw [configKeys_update, Function.update_self] at hnew
  unfold configLookup
  rw [configKeys_update, slotOf_update_of_ne hold hnew]
  cases hslot : slotOf (configKeys t) k with
  | none => rfl
  | some j =>
      have hj : j ≠ i := by
        rintro rfl
        exact hold (slotOf_some hslot)
      simp only [Option.map_some, Function.update_of_ne hj]

theorem configLookup_self {k : List UInt8}
    (hslot : slotOf (configKeys (Function.update t i
      ⟨(t i).key.copy key, (t i).value.copy value, true⟩)) k = some i) :
    configLookup (Function.update t i ⟨(t i).key.copy key, (t i).value.copy value, true⟩) k =
      some (value.bytes.take (configValueMax - 1)) := by
  unfold configLookup
  rw [hslot, Option.map_some, Function.update_self, CField.text_copy]

theorem take_key_of_lt (h : key.length < configKeyMax) :
    key.bytes.take (configKeyMax - 1) = key.bytes :=
  List.take_of_length_le (Nat.le_sub_one_of_lt h)

theorem configLookup_configSet (hne : key.bytes ≠ []) (hlen : key.length < configKeyMax)
    (hok : (configSet t (some key) (some value)).2 = 0) :
    configLookup (configSet t (some key) (some value)).1 key.bytes =
        some (value.bytes.take (configValueMax - 1)) ∧
      ∀ k, k ≠ key.bytes →
        configLookup (configSet t (some key) (some value)).1 k = configLookup t k := by
  rcases configSet_cases t hne value with ⟨i, hslot, hset⟩ | ⟨i, hslot, hfree, hset⟩ | ⟨-, -, hset⟩
  · rw [hset]
    have hkey := slotOf_some hslot
    constructor
    · unfold configLookup
      simp only [configKeys_copy_value, hslot, Option.map_some, Function.update_self]
      rw [CField.text_copy]
    · intro k hk
      have hother : configKeys t i ≠ some k := by
        rw [hkey]
        simpa using hk.symm
      apply configLookup_update_of_ne hother
      rw [configKeys_copy_value]
      exact hother
  · rw [hset]
    have hnone := slotOf_eq_none_iff.mp hslot
    constructor
    · apply configLookup_self
      rw [configKeys_new, take_key_of_lt hlen]
      apply firstSlot_of_unique
      · rw [Function.update_self]
        exact decide_eq_true rfl
      · intro j hj
        by_contra hji
        rw [Function.update_of_ne hji] at hj
        exact hnone j (of_decide_eq_true hj)
    · intro k hk
      apply configLookup_update_of_ne
      · rw [configFindFreeIndex_some hfree]
        exact Option.some_ne_none k |>.symm
      · rw [configKeys_new, Function.update_self, take_key_of_lt hlen]
        simpa using hk.symm
  · rw [hset] at hok
    cases hok

/-- A long key is not found after it has been set. -/
theorem configLookup_long {k : List UInt8} (h : configKeyMax ≤ k.length) :
    configLookup t k = none := by
  unfold configLookup
  rw [slotOf_long h]
  rfl

/-- The map law fails exactly for the long keys that find a free slot. -/
theorem setLaw_iff (hne : key.bytes ≠ []) :
    SetLaw t key value ↔ key.length < configKeyMax ∨ configFindFreeIndex t = none := by
  constructor
  · intro hlaw
    by_contra hnot
    rw [not_or, not_lt] at hnot
    obtain ⟨hlong, hfree⟩ := hnot
    have hok : (configSet t (some key) (some value)).2 = 0 := by
      rcases configSet_cases t hne value with ⟨i, -, hset⟩ | ⟨i, -, -, hset⟩ | ⟨-, hnone, -⟩
      · rw [hset]
      · rw [hset]
      · exact absurd hnone hfree
    have hget := (hlaw hok).1 (List.replicate configValueMax 0) (by rw [List.length_replicate])
    rw [configGet_eq _ _ (by decide), configLookup_long hlong] at hget
    cases hget
  · intro hcond hok
    have hlen : key.length < configKeyMax := by
      rcases configSet_cases t hne value with ⟨i, hslot, -⟩ | ⟨i, -, hfree, -⟩ | ⟨-, -, hset⟩
      · exact length_of_configKeys (slotOf_some hslot)
      · apply hcond.resolve_right
        rw [hfree]
        exact Option.some_ne_none i
      · rw [hset] at hok
        cases hok
    obtain ⟨hself, hothers⟩ := configLookup_configSet hne hlen hok
    constructor
    · intro out hout
      have hout' : out ≠ [] := by
        rintro rfl
        simp only [List.length_nil, configValueMax] at hout
        omega
      have hzero : 0 ∉ value.bytes.take (configValueMax - 1) :=
        fun h => value.no_nul (List.mem_of_mem_take h)
      rw [configGet_eq _ _ hout', hself, Option.map_some, Option.map_some,
        cText_boundedCopy _ _ hzero, List.take_take, min_eq_right (by omega)]
    · intro other out text hother hget
      have hout : out ≠ [] := by
        rintro rfl
        cases hget
      have hbytes : other.bytes ≠ key.bytes := fun heq => hother (CString.ext heq)
      rw [configGet_eq _ _ hout, hothers _ hbytes, ← configGet_eq _ _ hout]
      exact hget

/-! ## Unique keys -/

/-- A `config_set` does not store a cut key beside the same one. -/
def KeepsUnique (t : ConfigTable) (key : CString) : Prop :=
  key.length < configKeyMax ∨ configFindFreeIndex t = none ∨
    ∀ i, configKeys t i ≠ some (key.bytes.take (configKeyMax - 1))

theorem uniqueKeys_configSet_iff (h : UniqueKeys t) (hne : key.bytes ≠ []) :
    UniqueKeys (configSet t (some key) (some value)).1 ↔ KeepsUnique t key := by
  rcases configSet_cases t hne value with ⟨i, hslot, hset⟩ | ⟨i, hslot, hfree, hset⟩ |
    ⟨-, hfull, hset⟩
  · rw [hset]
    refine iff_of_true ?_ (.inl (length_of_configKeys (slotOf_some hslot)))
    unfold UniqueKeys
    rw [configKeys_copy_value]
    exact h
  · rw [hset]
    unfold UniqueKeys
    rw [configKeys_new]
    have hempty := configFindFreeIndex_some hfree
    constructor
    · intro hafter
      right
      right
      intro j hj
      have hji : j ≠ i := by
        rintro rfl
        rw [hempty] at hj
        cases hj
      apply hji
      apply hafter j i (key.bytes.take (configKeyMax - 1))
      · rw [Function.update_of_ne hji]
        exact hj
      · exact Function.update_self _ _ _
    · intro hkeeps
      apply h.update
      intro x hx j _
      rw [← Option.some.inj hx]
      rcases hkeeps with hlen | hnone | hfresh
      · rw [take_key_of_lt hlen]
        exact slotOf_eq_none_iff.mp hslot j
      · rw [hfree] at hnone
        cases hnone
      · exact hfresh j
  · rw [hset]
    exact iff_of_true h (.inr (.inl hfull))

theorem not_uniqueKeys_configSet (h : ¬ UniqueKeys t) (key value : Option CString) :
    ¬ UniqueKeys (configSet t key value).1 := by
  intro hafter
  apply h
  intro i j k hi hj
  have hkept : ∀ {m : Fin configEntryMax}, configKeys t m = some k →
      configKeys (configSet t key value).1 m = some k := by
    intro m hm
    cases key with
    | none => exact hm
    | some key =>
        cases value with
        | none => exact hm
        | some value =>
            by_cases hne : key.bytes = []
            · simpa [configSet, hne] using hm
            · rcases configSet_cases t hne value with ⟨n, -, hset⟩ | ⟨n, -, hfree, hset⟩ |
                ⟨-, -, hset⟩
              · rw [hset, configKeys_copy_value]
                exact hm
              · have hmn : m ≠ n := by
                  rintro rfl
                  rw [configFindFreeIndex_some hfree] at hm
                  cases hm
                rw [hset, configKeys_new, Function.update_of_ne hmn]
                exact hm
              · rw [hset]
                exact hm
  exact hafter i j k (hkept hi) (hkept hj)

end Set

/-! ## Loading -/

/-- The lines of a file that `config_load` looks at. -/
def configFileLines (text : List UInt8) : List (List UInt8) :=
  if h : text = [] then []
  else
    let r := configNextLine text (configKeyMax + configValueMax + 2)
    if r.1 == [] then configFileLines r.2 else r.1 :: configFileLines r.2
termination_by text.length
decreasing_by all_goals exact configNextLine_length h (by decide)

theorem configLoadLines_eq (t : ConfigTable) (text : List UInt8) :
    configLoadLines t text = runSteps configLoadLine t (configFileLines text) := by
  fun_induction configFileLines text generalizing t with
  | case1 =>
      rw [configLoadLines, dif_pos rfl]
      rfl
  | case2 text htext r hempty ih =>
      rw [configLoadLines, dif_neg htext]
      simp only [← ih, r, hempty, if_true]
  | case3 text htext r hline ih =>
      rw [configLoadLines, dif_neg htext]
      simp only [ih, r] at hline ⊢
      rw [if_neg hline]
      rfl

/-- The `config_set` of one line keeps the keys unique. -/
def LineKeepsUnique (t : ConfigTable) (line : List UInt8) : Prop :=
  match line.dropWhile (· != '='.toUInt8) with
  | [] => True
  | _ :: _ => KeepsUnique t (CString.read (line.takeWhile (· != '='.toUInt8)))

theorem uniqueKeys_configLoadLine_iff {t : ConfigTable} (h : UniqueKeys t) (line : List UInt8) :
    UniqueKeys (configLoadLine t line) ↔ LineKeepsUnique t line := by
  unfold configLoadLine LineKeepsUnique
  cases line.dropWhile (· != '='.toUInt8) with
  | nil => exact iff_of_true h trivial
  | cons c value =>
      simp only
      set key := CString.read (line.takeWhile (· != '='.toUInt8))
      by_cases hne : key.bytes = []
      · have hlen : key.length < configKeyMax := by
          unfold CString.length
          rw [hne]
          decide
        refine iff_of_true ?_ (.inl hlen)
        simpa [configSet, hne] using h
      · exact uniqueKeys_configSet_iff h hne

theorem not_uniqueKeys_configLoadLine {t : ConfigTable} (h : ¬ UniqueKeys t)
    (line : List UInt8) : ¬ UniqueKeys (configLoadLine t line) := by
  unfold configLoadLine
  split
  · exact h
  · exact not_uniqueKeys_configSet h _ _

/-- The keys are unique after the lines exactly when each line has kept them so. -/
theorem uniqueKeys_lines_iff (lines : List (List UInt8)) :
    ∀ {t : ConfigTable}, UniqueKeys t →
      (UniqueKeys (runSteps configLoadLine t lines) ↔
        AllSteps configLoadLine LineKeepsUnique t lines) := by
  have hlost : ∀ (lines : List (List UInt8)) {t : ConfigTable}, ¬ UniqueKeys t →
      ¬ UniqueKeys (runSteps configLoadLine t lines) := by
    intro lines
    induction lines with
    | nil => exact fun h => h
    | cons line lines ih => exact fun h => ih (not_uniqueKeys_configLoadLine h line)
  induction lines with
  | nil => exact fun h => iff_of_true h trivial
  | cons line lines ih =>
      intro t h
      have hline := uniqueKeys_configLoadLine_iff h line
      constructor
      · intro hafter
        have hnext : UniqueKeys (configLoadLine t line) := by
          by_contra hnot
          exact hlost lines hnot hafter
        exact ⟨hline.mp hnext, (ih hnext).mp hafter⟩
      · rintro ⟨hkeeps, hrest⟩
        exact (ih (hline.mpr hkeeps)).mpr hrest

/-- The lines that `config_load` takes from the disk, none when the file cannot be read. -/
def configLoadedLines (fs : FsState) : List (List UInt8) :=
  match (fsReadFile fs (some configFileName) configFileMax).2 with
  | none => []
  | some (size, buffer) =>
      configFileLines
        (cText (buffer.take (if size ≥ configFileMax then configFileMax - 1 else size)))

theorem configLoad_table (fs : FsState) :
    (configLoad fs).2.1 =
      runSteps configLoadLine configResetDefaults (configLoadedLines fs) := by
  unfold configLoad configLoadedLines
  simp only
  cases (fsReadFile fs (some configFileName) configFileMax).2 with
  | none => rfl
  | some r => exact configLoadLines_eq _ _

theorem uniqueKeys_configResetDefaults : UniqueKeys configResetDefaults := by
  decide +kernel

/-- Loading the file keeps the keys unique. -/
def LoadKeepsUnique (fs : FsState) : Prop :=
  AllSteps configLoadLine LineKeepsUnique configResetDefaults (configLoadedLines fs)

theorem uniqueKeys_configLoad_iff (fs : FsState) :
    UniqueKeys (configLoad fs).2.1 ↔ LoadKeepsUnique fs := by
  rw [configLoad_table]
  exact uniqueKeys_lines_iff _ uniqueKeys_configResetDefaults

/-! ## Runs -/

/-- A call into the store; a load comes with the disk it reads. -/
inductive StoreCall
  | set (key value : Option CString)
  | load (fs : FsState)

def storeStep (t : ConfigTable) : StoreCall → ConfigTable
  | .set key value => (configSet t key value).1
  | .load fs => (configLoad fs).2.1

/-- The map law for the call, if it sets a non-empty key. -/
def StoreLaw (t : ConfigTable) : StoreCall → Prop
  | .set (some key) (some value) => key.bytes ≠ [] → SetLaw t key value
  | _ => True

/-- No key of 32 bytes or more finds a free slot, and no line of a file puts one where its
first 31 bytes are a key already. -/
def StoreKeeps (t : ConfigTable) : StoreCall → Prop
  | .set (some key) (some _) => key.length < configKeyMax ∨ configFindFreeIndex t = none
  | .load fs => LoadKeepsUnique fs
  | _ => True

theorem store_step_iff {t : ConfigTable} (h : UniqueKeys t) (c : StoreCall) :
    UniqueKeys (storeStep t c) ∧ StoreLaw t c ↔ StoreKeeps t c := by
  cases c with
  | load fs =>
      show UniqueKeys (configLoad fs).2.1 ∧ True ↔ LoadKeepsUnique fs
      rw [and_true]
      exact uniqueKeys_configLoad_iff fs
  | set key value =>
      cases key with
      | none => exact iff_of_true ⟨h, trivial⟩ trivial
      | some key =>
          cases value with
          | none => exact iff_of_true ⟨h, trivial⟩ trivial
          | some value =>
              show UniqueKeys (configSet t (some key) (some value)).1 ∧
                (key.bytes ≠ [] → SetLaw t key value) ↔ _
              by_cases hne : key.bytes = []
              · have hlen : key.length < configKeyMax := by
                  unfold CString.length
                  rw [hne]
                  decide
                refine iff_of_true ⟨?_, fun hnot => absurd hne hnot⟩ (.inl hlen)
                simpa [configSet, hne] using h
              · rw [uniqueKeys_configSet_iff h hne]
                constructor
                · intro hboth
                  exact (setLaw_iff hne).mp (hboth.2 hne)
                · intro hkeeps
                  refine ⟨?_, fun _ => (setLaw_iff hne).mpr hkeeps⟩
                  exact hkeeps.imp_right Or.inl

/-- The store is a map with unique keys throughout a run exactly when no `config_set` of the
run finds a free slot for a key of 32 bytes or more, and no file loaded cuts a key to one
that is there. -/
theorem store_run_iff (fs : FsState) (calls : List StoreCall) :
    AllStates storeStep UniqueKeys (configInit fs) calls ∧
        AllSteps storeStep StoreLaw (configInit fs) calls ↔
      LoadKeepsUnique fs ∧ AllSteps storeStep StoreKeeps (configInit fs) calls := by
  have hload : UniqueKeys (configInit fs) ↔ LoadKeepsUnique fs := uniqueKeys_configLoad_iff fs
  have hrun := allStates_and_allSteps_iff (fun t c h => store_step_iff (t := t) h c) calls
    (configInit fs)
  constructor
  · intro h
    have hunique := h.1.head
    exact ⟨hload.mp hunique, (hrun hunique).mp h⟩
  · intro h
    exact (hrun (hload.mpr h.1)).mpr h.2

/-- A key of 32 bytes. -/
def longKey : CString := ⟨List.replicate 32 107, by decide⟩

theorem not_store_run :
    ¬ ∀ (fs : FsState) (calls : List StoreCall),
      AllStates storeStep UniqueKeys (configInit fs) calls ∧
        AllSteps storeStep StoreLaw (configInit fs) calls := by
  intro h
  have hlaw := (h (fsBlankDisk 5000) [.set (some longKey) (some ⟨[49], by decide⟩)]).2.1
  have hcond := (setLaw_iff (by decide)).mp (hlaw (by decide))
  rcases hcond with hlen | hfull
  · exact absurd hlen (by decide)
  · exact absurd hfull (by decide +kernel)

end AcharyaOS.Config
