import AcharyaOS.Foundation.Field
import AcharyaOS.Fs.Code

/-!
# The configuration store

`kernel/config/config.c`: sixteen named settings, saved to and loaded from a text file.
-/

namespace AcharyaOS.Config

open Foundation Disk Fs

abbrev configKeyMax : Nat := 32

abbrev configValueMax : Nat := 96

abbrev configEntryMax : Nat := 16

abbrev configFileMax : Nat := 1024

structure ConfigEntry where
  key : CField configKeyMax
  value : CField configValueMax
  used : Bool
  deriving DecidableEq

def ConfigEntry.zero : ConfigEntry := ⟨.zero _ (by decide), .zero _ (by decide), false⟩

abbrev ConfigTable := Fin configEntryMax → ConfigEntry

/-- "acharyaos.cfg" -/
def configFileName : CString :=
  ⟨[97, 99, 104, 97, 114, 121, 97, 111, 115, 46, 99, 102, 103], by decide⟩

/-- "prompt", "loglevel", "browser_filter" and "editor_tabwidth" with their values
"acharyaos> ", "info", "" and "4". -/
def configDefaults : List (CString × CString) :=
  [(⟨[112, 114, 111, 109, 112, 116], by decide⟩,
      ⟨[97, 99, 104, 97, 114, 121, 97, 111, 115, 62, 32], by decide⟩),
    (⟨[108, 111, 103, 108, 101, 118, 101, 108], by decide⟩,
      ⟨[105, 110, 102, 111], by decide⟩),
    (⟨[98, 114, 111, 119, 115, 101, 114, 95, 102, 105, 108, 116, 101, 114], by decide⟩,
      ⟨[], by decide⟩),
    (⟨[101, 100, 105, 116, 111, 114, 95, 116, 97, 98, 119, 105, 100, 116, 104], by decide⟩,
      ⟨[52], by decide⟩)]

/-- `config_find_index`, `none` standing for -1. -/
def configFindIndex (t : ConfigTable) (key : CString) : Option (Fin configEntryMax) :=
  firstSlot fun i => (t i).used && strcmp (t i).key.bytes key.bytes == 0

def configFindFreeIndex (t : ConfigTable) : Option (Fin configEntryMax) :=
  firstSlot fun i => !(t i).used

def configClear : ConfigTable := fun _ => .zero

/-- The loop of `config_reset_defaults`. -/
def configFillDefaults : ConfigTable → List (CString × CString) → ConfigTable
  | t, [] => t
  | t, (key, value) :: defaults =>
      match configFindFreeIndex t with
      | none => t
      | some idx =>
          configFillDefaults (Function.update t idx
            ⟨(t idx).key.copy key, (t idx).value.copy value, true⟩) defaults

def configResetDefaults : ConfigTable := configFillDefaults configClear configDefaults

def configSet (t : ConfigTable) (key value : Option CString) : ConfigTable × Int :=
  match key, value with
  | some key, some value =>
      if key.bytes == [] then (t, -1)
      else match configFindIndex t key with
        | some idx =>
            (Function.update t idx { t idx with value := (t idx).value.copy value }, 0)
        | none =>
            match configFindFreeIndex t with
            | none => (t, -1)
            | some idx =>
                (Function.update t idx
                  ⟨(t idx).key.copy key, (t idx).value.copy value, true⟩, 0)
  | _, _ => (t, -1)

/-- `config_get`: the caller's buffer after a call that returns 0, `none` for -1 and for a
null pointer. -/
def configGet (t : ConfigTable) (key : Option CString) (out : Option (List UInt8)) :
    Option (List UInt8) :=
  match key, out with
  | some key, some out =>
      if out == [] then none
      else (configFindIndex t key).map fun idx => boundedCopy out (t idx).value.text
  | _, _ => none

/-! ## Saving -/

def configPieces (e : ConfigEntry) : List Piece :=
  [.text e.key.bytes, .char '='.toUInt8, .text e.value.bytes, .char '\n'.toUInt8]

/-- The text `config_save` builds in its buffer. -/
def configSaveText (t : ConfigTable) : List UInt8 :=
  recordsText configFileMax
    (((List.finRange configEntryMax).filter fun i => (t i).used).map fun i => configPieces (t i))

/-- `config_save` on a disk that answers as the script says. -/
def configSave (fs : FsState) (faults : Faults) (t : ConfigTable) : FsState × Int :=
  fsExec fs (faults, .writeFile (some configFileName) (some (configSaveText t)))

/-! ## Loading -/

/-- `config_next_line`: the line and the text behind it. -/
def configNextLine (text : List UInt8) (lineSize : Nat) : List UInt8 × List UInt8 :=
  let text := text.dropWhile fun c => c == '\r'.toUInt8 || c == '\n'.toUInt8
  let r := copyLine lineSize [] text
  (r.1, (r.2.dropWhile (· != '\n'.toUInt8)).drop 1)

/-- `config_set` for one line of the file; a line without `=` is skipped. -/
def configLoadLine (t : ConfigTable) (line : List UInt8) : ConfigTable :=
  match line.dropWhile (· != '='.toUInt8) with
  | [] => t
  | _ :: value =>
      (configSet t (CString.read (line.takeWhile (· != '='.toUInt8)))
        (CString.read value)).1

theorem configNextLine_length {text : List UInt8} (h : text ≠ []) {lineSize : Nat}
    (hsize : 1 < lineSize) : (configNextLine text lineSize).2.length < text.length := by
  refine Nat.lt_of_le_of_lt ?_ (length_copyLine_lt hsize h)
  exact (List.drop_sublist 1 _).length_le.trans (List.length_dropWhile_le _ _)

/-- The loop of `config_load` over the text in its buffer. -/
def configLoadLines (t : ConfigTable) (text : List UInt8) : ConfigTable :=
  if h : text = [] then t
  else
    let r := configNextLine text (configKeyMax + configValueMax + 2)
    configLoadLines (if r.1 == [] then t else configLoadLine t r.1) r.2
termination_by text.length
decreasing_by exact configNextLine_length h (by decide)

/-- `config_load`; it always returns 0. -/
def configLoad (fs : FsState) : FsState × ConfigTable × Int :=
  let r := fsReadFile fs (some configFileName) configFileMax
  match r.2 with
  | none => (r.1, configResetDefaults, 0)
  | some (size, buffer) =>
      let size := if size ≥ configFileMax then configFileMax - 1 else size
      (r.1, configLoadLines configResetDefaults (cText (buffer.take size)), 0)

/-- `config_init`, which resets the table before `config_load` does so once more. -/
def configInit (fs : FsState) : ConfigTable := (configLoad fs).2.1

/-! ## Reading the table -/

/-- `config_list(out_entries, max_entries)` with a non-null array: the entries stored. -/
def configList (t : ConfigTable) (maxEntries : Nat) : List ConfigEntry :=
  (((List.finRange configEntryMax).map t).filter ConfigEntry.used).take maxEntries

structure ConfigStats where
  totalEntries : Nat
  usedEntries : Nat
  backingFile : List UInt8

/-- `config_get_stats`; of the array for the file name only its text is given. -/
def configGetStats (t : ConfigTable) : ConfigStats where
  totalEntries := configEntryMax
  usedEntries := countSlots fun i => (t i).used
  backingFile := cText (boundedCopy (List.replicate fsNameMax 0) configFileName.bytes)

end AcharyaOS.Config
