import AcharyaOS.Config.RoundTrip
import AcharyaOS.Config.Store
import AcharyaOS.Foundation.FrontTable
import AcharyaOS.Foundation.Keyed

/-!
# The settings as a list

What the table is for: a list of keys and values, at most sixteen, in which the first entry of
a key counts.  The functions of the store do to the table what is said here of the list, for
keys and values of any length.
-/

namespace AcharyaOS.Config

open Foundation Foundation.Run Foundation.Assoc Fs

abbrev Settings := List (List UInt8 × List UInt8)

/-- The key and the value that are stored for those given. -/
def cutPair (key value : List UInt8) : List UInt8 × List UInt8 :=
  (key.take (configKeyMax - 1), value.take (configValueMax - 1))

namespace Settings

def position (l : Settings) (key : List UInt8) : Option Nat := l.findIdx? fun p => p.1 == key

def lookup (l : Settings) (key : List UInt8) : Option (List UInt8) :=
  (l.find? fun p => p.1 == key).map Prod.snd

/-- The list after `set key value`, and whether it is accepted. -/
def set (l : Settings) (key value : List UInt8) : Settings × Bool :=
  if key = [] then (l, false)
  else
    match l.position key with
    | some i => (l.modify i fun p => (p.1, (cutPair key value).2), true)
    | none => if l.length < configEntryMax then (l ++ [cutPair key value], true) else (l, false)

/-- One line of a settings file. -/
def loadLine (l : Settings) (line : List UInt8) : Settings :=
  match line.dropWhile (· != '='.toUInt8) with
  | [] => l
  | _ :: value => (l.set (cText (line.takeWhile (· != '='.toUInt8))) (cText value)).1

end Settings

/-- The settings `config_load` makes of the lines of the file. -/
def Settings.load (lines : List (List UInt8)) : Settings :=
  lines.foldl Settings.loadLine (configPairs configDefaults)

/-! ## The table -/

section Table

variable {t : ConfigTable} {l : Settings}

theorem configFindIndex_eq_position (h : Fills (configView t) l) (key : CString) :
    (configFindIndex t key).map Fin.val = l.position key.bytes := by
  have hfirst := h.firstSlot_any fun p => p.1 == key.bytes
  rw [Settings.position, ← hfirst, configFindIndex]
  congr 2
  ext i : 1
  rw [Bool.eq_iff_iff, configFindIndex_pred, Option.any_eq_true]
  constructor
  · rintro ⟨v, hv⟩
    exact ⟨_, hv, beq_self_eq_true _⟩
  · rintro ⟨⟨k, v⟩, hkv, hk⟩
    have hkey : k = key.bytes := beq_iff_eq.mp hk
    exact ⟨v, by rw [hkv, hkey]⟩

theorem configFindIndex_some (h : Fills (configView t) l) {key : CString}
    {i : Fin configEntryMax} (hi : configFindIndex t key = some i) :
    l.position key.bytes = some i.val ∧ ∃ v, configView t i = some (key.bytes, v) := by
  have hposition := configFindIndex_eq_position h key
  rw [hi, Option.map_some] at hposition
  exact ⟨hposition.symm, (configFindIndex_pred i).mp (firstSlot_some hi)⟩

theorem configFindIndex_none (h : Fills (configView t) l) {key : CString}
    (hi : configFindIndex t key = none) : l.position key.bytes = none := by
  have hposition := configFindIndex_eq_position h key
  rw [hi, Option.map_none] at hposition
  exact hposition.symm

theorem ConfigEntry.view_fill (e : ConfigEntry) (key value : CString) :
    (⟨e.key.copy key, e.value.copy value, true⟩ : ConfigEntry).view =
      some (cutPair key.bytes value.bytes) := by
  rw [view, if_pos rfl, CField.text_copy, CField.text_copy]
  rfl

theorem configSet_settings (h : Fills (configView t) l) (key value : CString) :
    Fills (configView (configSet t (some key) (some value)).1) (l.set key.bytes value.bytes).1 ∧
      (configSet t (some key) (some value)).2 =
        if (l.set key.bytes value.bytes).2 then 0 else -1 := by
  unfold configSet Settings.set
  by_cases hnil : key.bytes = []
  · simp only [hnil, beq_self_eq_true, if_true, Bool.false_eq_true, if_false]
    exact ⟨h, trivial⟩
  · have hbeq : (key.bytes == []) = false := beq_eq_false_iff_ne.mpr hnil
    simp only [hbeq, hnil, Bool.false_eq_true, if_false]
    cases hfind : configFindIndex t key with
    | some i =>
      obtain ⟨hposition, v, hv⟩ := configFindIndex_some h hfind
      simp only [hposition, if_true]
      refine ⟨?_, trivial⟩
      rw [configView_update, ConfigEntry.view_copy_value hv]
      exact h.modify hv fun p => (p.1, (cutPair key.bytes value.bytes).2)
    | none =>
      rw [configFindIndex_none h hfind]
      have hfree := h.firstSlot_isNone
      rw [← configFindFreeIndex_eq] at hfree
      by_cases hlt : l.length < configEntryMax
      · rw [if_pos hlt] at hfree
        obtain ⟨i, hi, hval⟩ := Option.map_eq_some_iff.mp hfree
        have hslot : i = ⟨l.length, hlt⟩ := Fin.ext hval
        simp only [hi, hlt, if_true]
        refine ⟨?_, trivial⟩
        rw [configView_update, ConfigEntry.view_fill, hslot]
        exact h.push hlt _
      · rw [if_neg hlt, Option.map_eq_none_iff] at hfree
        simp only [hfree, hlt, if_false, Bool.false_eq_true]
        exact ⟨h, trivial⟩

theorem configGet_settings (h : Fills (configView t) l) (key : CString) {out : List UInt8}
    (hout : out ≠ []) :
    configGet t (some key) (some out) = (l.lookup key.bytes).map (boundedCopy out) := by
  have hbeq : (out == []) = false := beq_eq_false_iff_ne.mpr hout
  unfold configGet
  simp only [hbeq, Bool.false_eq_true, if_false]
  cases hfind : configFindIndex t key with
  | none =>
    have hnone := configFindIndex_none h hfind
    rw [Settings.position, List.findIdx?_eq_none_iff] at hnone
    rw [Option.map_none, Settings.lookup, List.find?_eq_none.mpr fun p hp => by simp [hnone p hp]]
    rfl
  | some i =>
    obtain ⟨hposition, v, hv⟩ := configFindIndex_some h hfind
    have htext : (t i).value.text = v := by
      have hview : (t i).view = some (key.bytes, v) := hv
      simp only [ConfigEntry.view, Option.ite_none_right_eq_some, Option.some.injEq,
        Prod.mk.injEq] at hview
      exact hview.2.2
    have hlookup : l.find? (fun p => p.1 == key.bytes) = some (key.bytes, v) := by
      rw [List.find?_eq_some_iff_getElem]
      obtain ⟨hlt, hp, hbefore⟩ := List.findIdx?_eq_some_iff_getElem.mp hposition
      refine ⟨beq_self_eq_true _, i.val, hlt, ?_, fun j hj => by simpa using hbefore j hj⟩
      have hget := h.getElem?_of_view hv
      rwa [List.getElem?_eq_getElem hlt, Option.some.injEq] at hget
    rw [Option.map_some, Settings.lookup, hlookup, htext]
    rfl

theorem length_lt_of_fills (h : Fills (configView t) l) {p : List UInt8 × List UInt8}
    (hp : p ∈ l) : p.1.length < configKeyMax ∧ p.2.length < configValueMax := by
  obtain ⟨i, hi⟩ := h.exists_view hp
  rw [configView, ConfigEntry.view, Option.ite_none_right_eq_some, Option.some.injEq] at hi
  rw [← hi.2]
  exact ⟨CField.length_text_lt _, CField.length_text_lt _⟩

theorem cText_configGet (h : Fills (configView t) l) (key : CString) :
    (configGet t (some key) (some (List.replicate configValueMax 0))).map cText =
      l.lookup key.bytes := by
  have hne : List.replicate configValueMax (0 : UInt8) ≠ [] := by simp
  rw [configGet_settings h key hne, Option.map_map]
  cases hlookup : l.lookup key.bytes with
  | none => rfl
  | some v =>
    obtain ⟨p, hp, rfl⟩ := Option.map_eq_some_iff.mp hlookup
    have hmem := List.mem_of_find?_eq_some hp
    obtain ⟨i, hi⟩ := h.exists_view hmem
    have hlt := (length_lt_of_fills h hmem).2
    have hno : 0 ∉ p.2 := by
      rw [configView, ConfigEntry.view, Option.ite_none_right_eq_some, Option.some.injEq] at hi
      rw [← hi.2]
      exact CField.zero_notMem_text _
    rw [Option.map_some, Function.comp_apply, cText_boundedCopy _ _ hno, List.length_replicate,
      List.take_of_length_le (Nat.le_sub_one_of_lt hlt)]

theorem configLoadLine_settings (h : Fills (configView t) l) (line : List UInt8) :
    Fills (configView (configLoadLine t line)) (l.loadLine line) := by
  unfold configLoadLine Settings.loadLine
  cases line.dropWhile (· != '='.toUInt8) with
  | nil => exact h
  | cons c value => exact (configSet_settings h _ _).1

end Table

theorem configLoad_settings (fs : FsState) :
    Fills (configView (configLoad fs).2.1) (Settings.load (configLoadedLines fs)) := by
  rw [configLoad_table]
  exact sim_runSteps (R := fun t l => Fills (configView t) l)
    (fun _ _ line h => configLoadLine_settings h line) _ _ _ fills_configResetDefaults

theorem configList_settings {t : ConfigTable} {l : Settings} (h : Fills (configView t) l) :
    (configList t configEntryMax).map (fun e => (e.key.text, e.value.text)) = l := by
  have hlen : (((List.finRange configEntryMax).map t).filter ConfigEntry.used).length ≤
      configEntryMax := by
    refine (List.length_filter_le _ _).trans_eq ?_
    rw [List.length_map, List.length_finRange]
  rw [configList, List.take_of_length_le hlen]
  exact h.map_filter_finRange

theorem configGetStats_settings {t : ConfigTable} {l : Settings} (h : Fills (configView t) l) :
    (configGetStats t).usedEntries = l.length := by
  have hcount := h.countSlots_any fun _ => true
  rw [List.countP_true] at hcount
  rw [configGetStats, ← hcount]
  show countSlots (fun i => (t i).used) = _
  congr 1
  ext i : 1
  simp only [configView, ConfigEntry.view]
  cases (t i).used <;> rfl

/-! ## The list as a map -/

namespace Settings

theorem lookup_set {l : Settings} {key value : List UInt8} (hlen : key.length < configKeyMax)
    (hok : (l.set key value).2 = true) (k : List UInt8) :
    (l.set key value).1.lookup k =
      if k = key then some (value.take (configValueMax - 1)) else l.lookup k := by
  unfold set at hok ⊢
  by_cases hnil : key = []
  · simp [hnil] at hok
  · rw [if_neg hnil] at hok ⊢
    cases hposition : l.position key with
    | some i =>
      have hfind := Keyed.find?_modify (f := fun p => (p.1, (cutPair key value).2))
        (fun _ => rfl) hposition k
      rw [lookup, hfind]
      by_cases hk : k = key
      · have hlt := (List.findIdx?_eq_some_iff_getElem.mp hposition).1
        have hget := Keyed.getElem?_of_findIdx? hposition
        rw [List.getElem?_eq_getElem hlt] at hget
        rw [if_pos (beq_iff_eq.mpr hk), if_pos hk, ← hget]
        rfl
      · rw [if_neg fun h => hk (beq_iff_eq.mp h), if_neg hk]
        rfl
    | none =>
      simp only [hposition] at hok ⊢
      by_cases hroom : l.length < configEntryMax
      · have hcut : cutPair key value = (key, value.take (configValueMax - 1)) := by
          rw [cutPair, List.take_of_length_le (Nat.le_sub_one_of_lt hlen)]
        rw [if_pos hroom, hcut, lookup, List.find?_append, List.find?_singleton]
        by_cases hk : k = key
        · have habsent : l.find? (fun p => p.1 == k) = none := by
            rw [position, List.findIdx?_eq_none_iff] at hposition
            rw [List.find?_eq_none]
            intro p hp
            simp [hk, hposition p hp]
          rw [habsent, Option.none_or, if_pos (beq_iff_eq.mpr hk.symm), if_pos hk]
          rfl
        · have hne : (key == k) = false := beq_eq_false_iff_ne.mpr (Ne.symm hk)
          simp [hne, hk, lookup]
      · rw [if_neg hroom] at hok
        exact absurd hok Bool.false_ne_true

theorem lookup_set_of_ne {l : Settings} {key k v : List UInt8} (hk : k ≠ key)
    (h : l.lookup k = some v) (value : List UInt8) : (l.set key value).1.lookup k = some v := by
  obtain ⟨p, hp, hv⟩ := Option.map_eq_some_iff.mp h
  unfold set
  by_cases hnil : key = []
  · rw [if_pos hnil]
    exact h
  · rw [if_neg hnil]
    cases hposition : l.position key with
    | some i =>
      have hfind := Keyed.find?_modify (f := fun p => (p.1, (cutPair key value).2))
        (fun _ => rfl) hposition k
      rw [if_neg fun heq => hk (beq_iff_eq.mp heq)] at hfind
      rw [lookup, hfind]
      exact h
    | none =>
      by_cases hroom : l.length < configEntryMax
      · rw [lookup]
        simp only [hroom, if_true, Keyed.find?_append_of_some hp, Option.map_some, hv]
      · simp only [hroom, if_false]
        exact h

end Settings

end AcharyaOS.Config
