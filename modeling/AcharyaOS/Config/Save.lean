import AcharyaOS.Config.RoundTrip
import AcharyaOS.Fs.Store

/-!
# What a saved configuration holds

`config_save` stops where its buffer is full and hands what it has to the filesystem.  Its
result is that of the write, so a store of 1024 bytes or more loses its last lines without a
word.
-/

namespace AcharyaOS.Config

open Foundation Foundation.Run Disk Fs

/-- The parts stand in the text whole, one behind the other. -/
def InOrder : List (List UInt8) → List UInt8 → Prop
  | [], _ => True
  | part :: parts, text => ∃ before rest, text = before ++ part ++ rest ∧ InOrder parts rest

theorem InOrder.length_le {parts : List (List UInt8)} :
    ∀ {text : List UInt8}, InOrder parts text → parts.flatten.length ≤ text.length := by
  induction parts with
  | nil => exact fun _ => Nat.zero_le _
  | cons part parts ih =>
    intro text h
    obtain ⟨before, rest, rfl, hrest⟩ := h
    have hlen := ih hrest
    rw [List.flatten_cons, List.length_append, List.length_append, List.length_append]
    omega

theorem inOrder_flatten (parts : List (List UInt8)) : InOrder parts parts.flatten := by
  induction parts with
  | nil => trivial
  | cons part parts ih => exact ⟨[], parts.flatten, rfl, ih⟩

/-- The line `key=value` of every used slot. -/
def configLines (t : ConfigTable) : List (List UInt8) := (slotList (configView t)).map configLine

theorem flatten_configLines (t : ConfigTable) : (configLines t).flatten = configText t := rfl

/-- A save that returns 0 has put every line into the file. -/
def SavesAll (fs : FsState) (f : Faults) (t : ConfigTable) : Prop :=
  (configSave fs f t).2 = 0 →
    ∃ text, fsContents (configSave fs f t).1 configFileName = some text ∧
      InOrder (configLines t) text

theorem length_configSaveText_lt (t : ConfigTable) : (configSaveText t).length < configFileMax :=
  length_recordsText_lt (by decide) _

/-- The lines of a store are in the text of its buffer exactly when they leave a byte of it
free. -/
theorem inOrder_configSaveText_iff (t : ConfigTable) :
    InOrder (configLines t) (configSaveText t) ↔ (configText t).length < configFileMax := by
  constructor
  · intro h
    have hlen := h.length_le
    rw [flatten_configLines] at hlen
    exact Nat.lt_of_le_of_lt hlen (length_configSaveText_lt t)
  · intro h
    by_cases hnil : configText t = []
    · have hlines : configLines t = [] := by
        rw [← flatten_configLines, List.flatten_eq_nil_iff] at hnil
        rw [List.eq_nil_iff_forall_not_mem]
        intro line hline
        obtain ⟨p, -, hp⟩ := List.mem_map.mp hline
        rw [hnil line hline, configLine] at hp
        exact absurd hp (by simp)
      rw [hlines]
      trivial
    · rw [configSaveText_eq (Nat.le_sub_one_of_lt h) hnil, ← flatten_configLines]
      exact inOrder_flatten _

theorem fsContents_configSave {fs : FsState} (hfs : FsReachable fs) {f : Faults}
    {t : ConfigTable} (hok : (configSave fs f t).2 = 0) :
    fsContents (configSave fs f t).1 configFileName = some (configSaveText t) :=
  fsContents_written hfs.inv (by decide) hok

theorem configSave_blank (t : ConfigTable) : (configSave (fsBlankDisk 5000) .none t).2 = 0 := by
  have hfresh : FsFresh (fsBlankDisk 5000) := fsFresh_blankDisk (by decide)
  have hsynced : FsSynced (fsBlankDisk 5000) := FsSynced.of_fresh hfresh
  have hlen : (configSaveText t).length < 1024 := length_configSaveText_lt t
  have hsize : (configSaveText t).length ≤ fsMaxFileBytes :=
    Nat.le_trans (Nat.le_of_lt hlen) (by decide)
  have hblocks : fsBlockCount (configSaveText t).length ≤ 2 := by
    unfold fsBlockCount
    omega
  obtain ⟨⟨idx, claimed⟩, hclaim⟩ : ∃ c,
      fsClaimEntry (fsBlankDisk 5000).entries configFileName = some c :=
    Option.isSome_iff_exists.mp (by decide +kernel)
  have hnext : (fsNextFreeLba (fsBlankDisk 5000).info.dataStartLba
      (fsBlankDisk 5000).entries).toNat + 2 ≤
        min (fsBlankDisk 5000).ata.device.capacity (2 ^ 28) := by decide +kernel
  rw [← fsNextFreeLba_claimed _ hsynced.table hclaim] at hnext
  apply (fsWriteFile_zero_iff_fits hsynced.toFsInv hsynced.mounted_eq hsize hclaim).mpr
  right
  omega

/-- Every save of a store that returns 0 is complete exactly when the lines take less than 1024
bytes. -/
theorem savesAll_iff (t : ConfigTable) :
    (∀ fs f, FsReachable fs → SavesAll fs f t) ↔ (configText t).length < configFileMax := by
  rw [← inOrder_configSaveText_iff]
  constructor
  · intro h
    have hreach : FsReachable (fsBlankDisk 5000) := .start (fsFresh_blankDisk (by decide))
    obtain ⟨text, htext, horder⟩ := h _ .none hreach (configSave_blank t)
    rw [fsContents_configSave hreach (configSave_blank t), Option.some.injEq] at htext
    rwa [htext]
  · intro h fs f hfs hok
    exact ⟨_, fsContents_configSave hfs hok, h⟩

/-- A value of 95 bytes under each of twelve keys. -/
def longSettings : List ConfigCall :=
  (List.range 12).map fun i => ⟨.read [UInt8.ofNat (97 + i)], .read (List.replicate 95 120)⟩

theorem not_savesAll_longSettings :
    ¬ ∀ (start : FsState) (calls : List ConfigCall) (fs : FsState) (f : Faults), FsReachable fs →
      SavesAll fs f (runSteps configStep (configInit start) calls) := by
  intro h
  have hreach : FsReachable (fsBlankDisk 5000) := .start (fsFresh_blankDisk (by decide))
  obtain ⟨text, htext, horder⟩ :=
    h (fsBlankDisk 5000) longSettings (fsBlankDisk 5000) .none hreach (configSave_blank _)
  rw [fsContents_configSave hreach (configSave_blank _), Option.some.injEq] at htext
  rw [← htext, inOrder_configSaveText_iff] at horder
  exact absurd horder (by decide +kernel)

end AcharyaOS.Config
