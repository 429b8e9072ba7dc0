import AcharyaOS.Config.Code
import AcharyaOS.Foundation.Assoc
import AcharyaOS.Fs.RoundTrip

/-!
# Saving and loading the configuration

The table is an association list in insertion order, filled from slot 0 on.  The saved text
lists it, and loading inserts the list into the defaults, which are the keys it started with.
-/

namespace AcharyaOS.Config

open Foundation Foundation.Run Foundation.Assoc Disk Fs

/-- The key and the value of a used entry. -/
def ConfigEntry.view (e : ConfigEntry) : Option (List UInt8 × List UInt8) :=
  if e.used then some (e.key.text, e.value.text) else none

def configView (t : ConfigTable) (i : Fin configEntryMax) : Option (List UInt8 × List UInt8) :=
  (t i).view

/-! ## Setting an entry -/

section Set

variable {t : ConfigTable} {l : List (List UInt8 × List UInt8)} {key : CString}

theorem configView_update (t : ConfigTable) (i : Fin configEntryMax) (e : ConfigEntry) :
    configView (Function.update t i e) = Function.update (configView t) i e.view :=
  Function.comp_update ConfigEntry.view t i e

theorem configFindIndex_pred (i : Fin configEntryMax) :
    ((t i).used && strcmp (t i).key.bytes key.bytes == 0) = true ↔
      ∃ v, configView t i = some (key.bytes, v) := by
  rw [Bool.and_eq_true, beq_iff_eq, strcmp_eq_zero_iff, cText_bytes]
  simp only [configView, ConfigEntry.view]
  by_cases hused : (t i).used = true
  · simp [hused, CField.text]
  · simp [hused]

theorem configFindIndex_of_getElem (h : Fills (configView t) l) (hl : (keys l).Nodup)
    {i : Fin configEntryMax} {v : List UInt8} (hi : l[i.val]? = some (key.bytes, v)) :
    configFindIndex t key = some i := by
  apply firstSlot_of_unique
  · rw [configFindIndex_pred]
    exact ⟨v, (h.view_eq i).trans hi⟩
  · intro j hj
    obtain ⟨w, hw⟩ := configFindIndex_pred j |>.mp hj
    rw [h.view_eq] at hw
    apply Fin.ext
    have hkeys : ∀ {a : Nat} {u}, l[a]? = some (key.bytes, u) → (keys l)[a]? = some key.bytes := by
      intro a u ha
      rw [keys, List.getElem?_map, ha]
      rfl
    have hlt : j.val < (keys l).length := (List.getElem?_eq_some_iff.mp (hkeys hw)).1
    exact (List.getElem?_inj hlt hl).mp ((hkeys hw).trans (hkeys hi).symm)

theorem configFindIndex_of_notMem (h : Fills (configView t) l) (hkey : key.bytes ∉ keys l) :
    configFindIndex t key = none := by
  rw [configFindIndex, firstSlot_eq_none_iff]
  intro i
  rw [Bool.eq_false_iff]
  intro hi
  obtain ⟨v, hv⟩ := (configFindIndex_pred i).mp hi
  rw [h.view_eq] at hv
  exact hkey (List.mem_map.mpr ⟨_, List.mem_of_getElem? hv, rfl⟩)

theorem configFindFreeIndex_eq (t : ConfigTable) :
    configFindFreeIndex t = firstSlot fun i => (configView t i).isNone := by
  unfold configFindFreeIndex
  congr 1
  ext i
  simp only [configView, ConfigEntry.view]
  cases (t i).used <;> rfl

theorem ConfigEntry.view_copy_value {e : ConfigEntry} {k v : List UInt8}
    (h : e.view = some (k, v)) (value : CString) :
    ({ e with value := e.value.copy value } : ConfigEntry).view =
      some (k, value.bytes.take (configValueMax - 1)) := by
  simp only [view, Option.ite_none_right_eq_some, Option.some.injEq, Prod.mk.injEq] at h ⊢
  exact ⟨h.1, h.2.1, CField.text_copy ..⟩

theorem ConfigEntry.view_new (e : ConfigEntry) (hlen : key.length < configKeyMax)
    (value : CString) :
    (⟨e.key.copy key, e.value.copy value, true⟩ : ConfigEntry).view =
      some (key.bytes, value.bytes.take (configValueMax - 1)) := by
  simp only [view, if_true, Option.some.injEq, Prod.mk.injEq]
  exact ⟨CField.text_copy_of_lt _ hlen, CField.text_copy ..⟩

/-- `config_set` is insertion into the list, as long as there is room. -/
theorem fills_configSet (h : Fills (configView t) l) (hl : (keys l).Nodup)
    (hne : key.bytes ≠ []) (hlen : key.length < configKeyMax)
    (hroom : key.bytes ∈ keys l ∨ l.length < configEntryMax) (value : CString) :
    Fills (configView (configSet t (some key) (some value)).1)
      (upsert l key.bytes (value.bytes.take (configValueMax - 1))) := by
  have hnonempty : (key.bytes == []) = false := beq_eq_false_iff_ne.mpr hne
  by_cases hmem : key.bytes ∈ keys l
  · obtain ⟨⟨k, v⟩, hkv, rfl⟩ := List.mem_map.mp hmem
    obtain ⟨i, hi, hiv⟩ := List.getElem_of_mem hkv
    have hget : l[i]? = some (key.bytes, v) := by
      rw [List.getElem?_eq_getElem hi, hiv]
    let idx : Fin configEntryMax := ⟨i, hi.trans_le h.length_le⟩
    have hidx : configFindIndex t key = some idx := configFindIndex_of_getElem h hl hget
    have hview : (t idx).view = some (key.bytes, v) := (h.view_eq idx).trans hget
    rw [upsert_of_getElem hl hget]
    simp only [configSet, hnonempty, Bool.false_eq_true, if_false, hidx]
    rw [configView_update, ConfigEntry.view_copy_value hview]
    exact h.set idx hi _
  · have hlt := hroom.resolve_left hmem
    have hidx := configFindIndex_of_notMem h hmem
    have hfree : configFindFreeIndex t = some ⟨l.length, hlt⟩ := by
      rw [configFindFreeIndex_eq, h.firstSlot_free hlt]
    rw [upsert_of_notMem hmem]
    simp only [configSet, hnonempty, Bool.false_eq_true, if_false, hidx, hfree]
    rw [configView_update, ConfigEntry.view_new _ hlen]
    exact h.push hlt _

theorem configSet_of_full (h : Fills (configView t) l) (hkey : key.bytes ∉ keys l)
    (hfull : l.length = configEntryMax) (value : CString) :
    (configSet t (some key) (some value)).1 = t := by
  have hnone : configFindFreeIndex t = none := by
    rw [configFindFreeIndex_eq, firstSlot_eq_none_iff]
    intro i
    rw [h.view_eq, List.getElem?_eq_getElem (i.isLt.trans_eq hfull.symm)]
    rfl
  simp only [configSet, configFindIndex_of_notMem h hkey, hnone]
  split <;> rfl

end Set

/-! ## The defaults -/

/-- The pairs of strings a list of settings inserts. -/
def configPairs (settings : List (CString × CString)) : List (List UInt8 × List UInt8) :=
  settings.map fun p => (p.1.bytes, p.2.bytes.take (configValueMax - 1))

theorem fills_configFillDefaults (settings : List (CString × CString)) :
    ∀ {t : ConfigTable} {l}, Fills (configView t) l →
      (∀ p ∈ settings, p.1.length < configKeyMax) →
      l.length + settings.length ≤ configEntryMax →
      Fills (configView (configFillDefaults t settings)) (l ++ configPairs settings) := by
  induction settings with
  | nil =>
      intro t l h _ _
      simpa [configFillDefaults, configPairs] using h
  | cons p settings ih =>
      intro t l h hlen hroom
      rw [List.length_cons] at hroom
      have hlt : l.length < configEntryMax := by omega
      have hfree : configFindFreeIndex t = some ⟨l.length, hlt⟩ := by
        rw [configFindFreeIndex_eq, h.firstSlot_free hlt]
      have hstep : Fills (configView (Function.update t ⟨l.length, hlt⟩
          ⟨(t ⟨l.length, hlt⟩).key.copy p.1, (t ⟨l.length, hlt⟩).value.copy p.2, true⟩))
          (l ++ [(p.1.bytes, p.2.bytes.take (configValueMax - 1))]) := by
        rw [configView_update, ConfigEntry.view_new _ (hlen p (List.mem_cons_self ..))]
        exact h.push hlt _
      simp only [configFillDefaults, hfree]
      have hrest := ih hstep (fun q hq => hlen q (List.mem_cons_of_mem _ hq)) (by
        rw [List.length_append, List.length_singleton]
        omega)
      rwa [List.append_assoc] at hrest

theorem fills_configResetDefaults :
    Fills (configView configResetDefaults) (configPairs configDefaults) := by
  have hclear : Fills (configView configClear) [] := .nil
  exact fills_configFillDefaults configDefaults hclear (by decide) (by decide)

/-! ## Reachable stores -/

/-- A call of `config_set` with non-null arguments. -/
structure ConfigCall where
  key : CString
  value : CString

def configStep (t : ConfigTable) (c : ConfigCall) : ConfigTable :=
  (configSet t (some c.key) (some c.value)).1

/-- The key fits and can be told from what follows it, and the value stays on its line. -/
structure ConfigCall.Valid (c : ConfigCall) : Prop where
  key_ne : c.key.bytes ≠ []
  key_lt : c.key.length < configKeyMax
  key_free : ∀ x ∈ c.key.bytes, x ≠ '='.toUInt8 ∧ ¬ isLineBreak x
  value_free : ∀ x ∈ c.value.bytes, ¬ isLineBreak x

/-- The stores reached from `config_reset_defaults` by valid calls. -/
def ConfigReachable : ConfigTable → Prop :=
  Reach (· = configResetDefaults) configStep fun _ c => c.Valid

/-- A key and a value as valid calls leave them in the table. -/
structure ValidPair (p : List UInt8 × List UInt8) : Prop where
  key_ne : p.1 ≠ []
  key_lt : p.1.length < configKeyMax
  value_lt : p.2.length < configValueMax
  key_free : ∀ x ∈ p.1, x ≠ 0 ∧ x ≠ '='.toUInt8 ∧ ¬ isLineBreak x
  value_free : ∀ x ∈ p.2, x ≠ 0 ∧ ¬ isLineBreak x

/-- The invariant of the store: an association list of valid pairs with distinct keys, the
first of which are those of the defaults. -/
structure ConfigInv (t : ConfigTable) (l : List (List UInt8 × List UInt8)) : Prop where
  fills : Fills (configView t) l
  nodup : (keys l).Nodup
  defaults : keys (configPairs configDefaults) <+: keys l
  valid : ∀ p ∈ l, ValidPair p

theorem ConfigCall.Valid.pair {c : ConfigCall} (h : c.Valid) :
    ValidPair (c.key.bytes, c.value.bytes.take (configValueMax - 1)) := by
  have hzero : ∀ (s : CString), ∀ x ∈ s.bytes, x ≠ 0 := fun s x hx hzero =>
    s.no_nul (hzero ▸ hx)
  refine ⟨h.key_ne, h.key_lt, ?_, fun x hx => ⟨hzero _ x hx, h.key_free x hx⟩, fun x hx => ?_⟩
  · rw [List.length_take]
    simp only [configValueMax]
    omega
  · have hmem := List.mem_of_mem_take hx
    exact ⟨hzero _ x hmem, h.value_free x hmem⟩

theorem ConfigInv.step {t : ConfigTable} {l} (h : ConfigInv t l) {c : ConfigCall}
    (hc : c.Valid) : ∃ l', ConfigInv (configStep t c) l' := by
  by_cases hroom : c.key.bytes ∈ keys l ∨ l.length < configEntryMax
  · exact ⟨_, {
      fills := fills_configSet h.fills h.nodup hc.key_ne hc.key_lt hroom c.value
      nodup := nodup_upsert h.nodup _ _
      defaults := h.defaults.trans (keys_prefix_upsert l _ _)
      valid := forall_mem_upsert h.valid hc.pair }⟩
  · rw [not_or, Nat.not_lt] at hroom
    have hfull : l.length = configEntryMax := le_antisymm h.fills.length_le hroom.2
    refine ⟨l, ?_⟩
    rw [configStep, configSet_of_full h.fills hroom.1 hfull c.value]
    exact h

theorem configInv_defaults : ConfigInv configResetDefaults (configPairs configDefaults) where
  fills := fills_configResetDefaults
  nodup := by decide
  defaults := List.prefix_rfl
  valid := by
    have hvalid : ∀ p ∈ configDefaults, p.1.bytes ≠ [] ∧ p.1.length < configKeyMax ∧
        (∀ x ∈ p.1.bytes, x ≠ '='.toUInt8 ∧ ¬ isLineBreak x) ∧
        ∀ x ∈ p.2.bytes, ¬ isLineBreak x := by decide
    intro p hp
    obtain ⟨q, hq, rfl⟩ := List.mem_map.mp hp
    obtain ⟨hne, hlt, hkey, hvalue⟩ := hvalid q hq
    exact ConfigCall.Valid.pair (c := ⟨q.1, q.2⟩) ⟨hne, hlt, hkey, hvalue⟩

theorem ConfigReachable.inv {t : ConfigTable} (h : ConfigReachable t) :
    ∃ l, ConfigInv t l := by
  refine Reach.invariant (P := fun t => ∃ l, ConfigInv t l) ?_ ?_ h
  · rintro _ rfl
    exact ⟨_, configInv_defaults⟩
  · rintro t c ⟨l, hl⟩ hc
    exact hl.step hc

/-! ## The text -/

def configLine (p : List UInt8 × List UInt8) : List UInt8 :=
  p.1 ++ '='.toUInt8 :: (p.2 ++ ['\n'.toUInt8])

/-- Key, `=`, value and newline of every used entry. -/
def configText (t : ConfigTable) : List UInt8 := (slotList (configView t)).flatMap configLine

theorem flatMap_configPieces (t : ConfigTable) :
    (((List.finRange configEntryMax).filter fun i => (t i).used).map fun i =>
      configPieces (t i)).flatMap (List.flatMap Piece.render) = configText t := by
  apply flatMap_pieces
  · intro i hfree
    simp [configView, ConfigEntry.view, hfree]
  · intro i hused
    simp [configView, ConfigEntry.view, hused, configPieces, Piece.render, configLine,
      CField.text]

theorem configSaveText_eq {t : ConfigTable} (hlen : (configText t).length ≤ configFileMax - 1)
    (hne : configText t ≠ []) : configSaveText t = configText t := by
  have hlt : (configText t).length < configFileMax := Nat.lt_of_le_pred (by decide) hlen
  rw [← flatMap_configPieces] at hlt hne ⊢
  rw [configSaveText, recordsText_eq hlt, if_neg hne]

/-! ## Loading it -/

section Line

variable {p : List UInt8 × List UInt8} (h : ValidPair p)

include h

theorem ValidPair.nextLine (rest : List UInt8) :
    configNextLine (configLine p ++ rest) (configKeyMax + configValueMax + 2) =
      (p.1 ++ '='.toUInt8 :: p.2, rest) := by
  obtain ⟨k, v⟩ := p
  obtain ⟨c, k, rfl⟩ := List.exists_cons_of_ne_nil h.key_ne
  have hc : ¬ isLineBreak c := (h.key_free c (List.mem_cons_self ..)).2.2
  rw [isLineBreak, not_or] at hc
  have hline : configLine (c :: k, v) ++ rest =
      (c :: k ++ '='.toUInt8 :: v) ++ '\n'.toUInt8 :: rest := by
    simp [configLine]
  have hbreak : ∀ x ∈ c :: k ++ '='.toUInt8 :: v, ¬ isLineBreak x := by
    intro x hx
    rcases List.mem_append.mp hx with hx | hx
    · exact (h.key_free x hx).2.2
    · rcases List.mem_cons.mp hx with rfl | hx
      · decide
      · exact (h.value_free x hx).2
  have hlen : ([] : List UInt8).length + (c :: k ++ '='.toUInt8 :: v).length <
      configKeyMax + configValueMax + 2 := by
    have hk := h.key_lt
    have hv := h.value_lt
    simp only [List.length_append, List.length_cons, List.length_nil] at hk hv ⊢
    omega
  have hhead : (c == '\r'.toUInt8 || c == '\n'.toUInt8) = false := by
    simp [hc.1, hc.2]
  rw [hline, configNextLine, List.cons_append, List.cons_append,
    List.dropWhile_cons_of_neg (by rw [hhead]; decide), ← List.cons_append, ← List.cons_append,
    copyLine_eq _ rest [] hbreak hlen]
  rfl

theorem ValidPair.loadLine (t : ConfigTable) :
    configLoadLine t (p.1 ++ '='.toUInt8 :: p.2) =
      (configSet t (some (CString.read p.1)) (some (CString.read p.2))).1 := by
  have hsep : '='.toUInt8 ∉ p.1 := fun hmem => (h.key_free _ hmem).2.1 rfl
  simp only [configLoadLine, dropWhile_ne_append hsep, takeWhile_ne_append hsep]

theorem ValidPair.zero_notMem : 0 ∉ p.1 ∧ 0 ∉ p.2 :=
  ⟨fun hzero => (h.key_free 0 hzero).1 rfl, fun hzero => (h.value_free 0 hzero).1 rfl⟩

theorem ValidPair.loadLines_cons (t : ConfigTable) (rest : List UInt8) :
    configLoadLines t (configLine p ++ rest) =
      configLoadLines (configSet t (some (CString.read p.1)) (some (CString.read p.2))).1
        rest := by
  have htext : configLine p ++ rest ≠ [] := by simp [configLine]
  have hline : (p.1 ++ '='.toUInt8 :: p.2 == []) = false :=
    beq_eq_false_iff_ne.mpr (by simp)
  rw [configLoadLines, dif_neg htext]
  simp only [h.nextLine, hline, Bool.false_eq_true, if_false, h.loadLine]

end Line

/-- Loading the lines of a list inserts its pairs, when all of them find room. -/
theorem fills_configLoadLines (l : List (List UInt8 × List UInt8)) :
    ∀ {t : ConfigTable} {d}, Fills (configView t) d → (keys d).Nodup →
      (∀ p ∈ l, ValidPair p) → (insertAll d l).length ≤ configEntryMax →
      Fills (configView (configLoadLines t (l.flatMap configLine))) (insertAll d l) := by
  induction l with
  | nil =>
      intro t d hfills _ _ _
      rw [List.flatMap_nil, configLoadLines, dif_pos rfl]
      exact hfills
  | cons p l ih =>
      intro t d hfills hnodup hvalid hroom
      have hp := hvalid p (List.mem_cons_self ..)
      have hkey : (CString.read p.1).bytes = p.1 := CString.read_bytes hp.zero_notMem.1
      have hvalue : (CString.read p.2).bytes.take (configValueMax - 1) = p.2 := by
        rw [CString.read_bytes hp.zero_notMem.2,
          List.take_of_length_le (Nat.le_sub_one_of_lt hp.value_lt)]
      have hfree : p.1 ∈ keys d ∨ d.length < configEntryMax := by
        by_cases hmem : p.1 ∈ keys d
        · exact Or.inl hmem
        · have hgrow := (keys_prefix_insertAll l (upsert d p.1 p.2)).length_le
          rw [upsert_of_notMem hmem, keys, keys, List.length_map, List.length_map,
            List.length_append, List.length_singleton, ← upsert_of_notMem hmem] at hgrow
          exact Or.inr (hgrow.trans hroom)
      have hset : Fills (configView (configSet t (some (CString.read p.1))
          (some (CString.read p.2))).1) (upsert d p.1 p.2) := by
        have hne : (CString.read p.1).bytes ≠ [] := by
          rw [hkey]
          exact hp.key_ne
        have hlen : (CString.read p.1).length < configKeyMax := by
          rw [CString.length, hkey]
          exact hp.key_lt
        have hset := fills_configSet hfills hnodup hne hlen (by rwa [hkey])
          (CString.read p.2)
        rwa [hkey, hvalue] at hset
      rw [List.flatMap_cons, hp.loadLines_cons]
      exact ih hset (nodup_upsert hnodup _ _)
        (fun q hq => hvalid q (List.mem_cons_of_mem _ hq)) hroom

theorem ConfigInv.fills_load {t : ConfigTable} {l} (h : ConfigInv t l) :
    Fills (configView (configLoadLines configResetDefaults (configText t))) l := by
  have hrebuilt := insertAll_eq h.nodup h.defaults
  have hload := fills_configLoadLines l fills_configResetDefaults (by decide) h.valid
    (by rw [hrebuilt]; exact h.fills.length_le)
  rw [hrebuilt] at hload
  rwa [configText, h.fills.slotList_eq]

/-! ## The round trip -/

theorem ConfigInv.text_ne {t : ConfigTable} {l} (h : ConfigInv t l) : configText t ≠ [] := by
  have hlength : (configPairs configDefaults).length ≤ l.length := by
    have hle := h.defaults.length_le
    rwa [keys, keys, List.length_map, List.length_map] at hle
  obtain ⟨p, l', hl⟩ := List.exists_cons_of_length_pos (Nat.lt_of_lt_of_le (by decide) hlength)
  rw [configText, h.fills.slotList_eq, hl, List.flatMap_cons, configLine]
  simp

theorem ConfigInv.zero_notMem_text {t : ConfigTable} {l} (h : ConfigInv t l) :
    0 ∉ configText t := by
  rw [configText, h.fills.slotList_eq, List.mem_flatMap]
  rintro ⟨p, hp, hmem⟩
  have hpair := (h.valid p hp).zero_notMem
  simp only [configLine, List.mem_append, List.mem_cons, List.not_mem_nil, or_false] at hmem
  rcases hmem with hkey | hsep | hvalue | hend
  · exact hpair.1 hkey
  · exact absurd hsep (by decide)
  · exact hpair.2 hvalue
  · exact absurd hend (by decide)

theorem configLoad_of_delivers {fs : FsState} {text : List UInt8}
    (h : FsDelivers fs configFileName configFileMax text)
    (hlen : text.length ≤ configFileMax - 1) (hzero : 0 ∉ text) :
    (configLoad fs).2.1 = configLoadLines configResetDefaults text := by
  obtain ⟨bytes, hread, htake⟩ := h
  have hsize : ¬ configFileMax ≤ text.length := by
    simp only [configFileMax] at hlen ⊢
    omega
  simp only [configLoad, hread, ge_iff_le, if_neg hsize, htake, cText_of_zero_notMem hzero]

/-- A store saved with success is loaded slot for slot. -/
theorem configView_load_save {fs : FsState} (hfs : FsReachable fs) {t : ConfigTable}
    (ht : ConfigReachable t) (hlen : (configText t).length ≤ configFileMax - 1) {f : Faults}
    (hsave : (configSave fs f t).2 = 0) (i : Fin configEntryMax) :
    configView (configLoad (configSave fs f t).1).2.1 i = configView t i := by
  obtain ⟨l, hl⟩ := ht.inv
  have htext := configSaveText_eq hlen hl.text_ne
  have hblocks : fsBlockCount (configText t).length * fsBlockSize ≤ configFileMax := by
    simp only [fsBlockCount, fsBlockSize, configFileMax] at hlen ⊢
    omega
  have hsize : (configText t).length ≤ 255 * fsBlockSize :=
    hlen.trans (by decide)
  rw [configSave, htext] at hsave ⊢
  have hname : configFileName.length < fsNameMax := by decide
  have hdelivers := hfs.delivers_written hname hsave hsize hblocks
  have hload := configLoad_of_delivers hdelivers hlen hl.zero_notMem_text
  rw [fsStep] at hload
  rw [hload]
  exact hl.fills_load.unique hl.fills i

/-- The defaults with a prompt of one's own. -/
def configSample : ConfigTable :=
  configStep configResetDefaults ⟨.read [112, 114, 111, 109, 112, 116], .read [36]⟩

theorem configView_load_save_sample :
    configView (configLoad (configSave (fsBlankDisk 5000) .none configSample).1).2.1 0 =
      configView configSample 0 := by
  have hreach : ConfigReachable configSample :=
    .next (.start rfl) ⟨by decide, by decide, by decide, by decide⟩
  have hlen : (configText configSample).length ≤ configFileMax - 1 := by decide +kernel
  have hsave : (configSave (fsBlankDisk 5000) .none configSample).2 = 0 := by decide +kernel
  exact configView_load_save (.start (fsFresh_blankDisk (by decide))) hreach hlen hsave 0

end AcharyaOS.Config
