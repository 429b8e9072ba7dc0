import AcharyaOS.Package.Code
import AcharyaOS.Foundation.Slots
import AcharyaOS.Fs.RoundTrip

/-!
# Saving and loading the package index

A saved index lists the packages one per line, and loading appends them to an empty table in
the order of the lines.  The loader puts a terminator on the separator in front of the file
count and then parses the count from there, so that every count comes back as 0.
-/

namespace AcharyaOS.Package

open Foundation Disk Fs

/-- What the table says about a package. -/
structure PackageRecord where
  name : List UInt8
  version : List UInt8
  source : List UInt8
  installedFiles : UInt64
  deriving DecidableEq

def PackageEntry.view (e : PackageEntry) : Option PackageRecord :=
  if e.used then some ⟨e.name.text, e.version.text, e.source.text, e.installedFiles⟩ else none

def packageView (t : PackageTable) (i : Fin packageEntryMax) : Option PackageRecord :=
  (t i).view

/-- The packages of the table, in the order of their slots. -/
def packageRecords (t : PackageTable) : List PackageRecord := slotList (packageView t)

/-- A text that cannot be taken for a separator or the end of a line. -/
def PackageClean (a : List UInt8) : Prop := ∀ c ∈ a, c ≠ '|'.toUInt8 ∧ ¬ isLineBreak c

instance (a : List UInt8) : Decidable (PackageClean a) :=
  inferInstanceAs (Decidable (∀ c ∈ a, _))

structure PackageRecord.Valid (r : PackageRecord) : Prop where
  name_ne : r.name ≠ []
  name_clean : PackageClean r.name
  version_clean : PackageClean r.version
  source_clean : PackageClean r.source

/-- Its texts are terminated strings of the fields of an entry. -/
structure PackageRecord.Stored (r : PackageRecord) : Prop where
  name_lt : r.name.length < packageNameMax
  version_lt : r.version.length < packageVersionMax
  source_lt : r.source.length < packageFileMax
  name_zero : 0 ∉ r.name
  version_zero : 0 ∉ r.version
  source_zero : 0 ∉ r.source

theorem PackageRecord.stored_of_mem {t : PackageTable} {r : PackageRecord}
    (h : r ∈ packageRecords t) : r.Stored := by
  obtain ⟨i, -, hi⟩ := List.mem_filterMap.mp h
  simp only [packageView, PackageEntry.view, Option.ite_none_right_eq_some,
    Option.some.injEq] at hi
  obtain ⟨-, rfl⟩ := hi
  exact ⟨CField.length_text_lt _, CField.length_text_lt _, CField.length_text_lt _,
    CField.zero_notMem_text _, CField.zero_notMem_text _, CField.zero_notMem_text _⟩

/-! ## The digits of the count -/

theorem packageDigits_isDigit (room : Nat) : ∀ count : UInt64, ∀ c ∈ packageDigits room count,
    48 ≤ c.toNat ∧ c.toNat ≤ 57 := by
  induction room with
  | zero => intro count c hc; simp [packageDigits] at hc
  | succ room ih =>
      intro count c hc
      rw [packageDigits] at hc
      split at hc
      · rcases List.mem_cons.mp hc with rfl | hc
        · have hdigit : ('0'.toUInt8 + (count % 10).toUInt8).toNat = 48 + count.toNat % 10 := by
            rw [UInt8.toNat_add, UInt64.toNat_toUInt8, UInt64.toNat_mod]
            change (48 + count.toNat % 10 % 256) % 256 = _
            omega
          omega
        · exact ih _ c hc
      · simp at hc

theorem packageCountText_isDigit (count : UInt64) : ∀ c ∈ packageCountText count,
    48 ≤ c.toNat ∧ c.toNat ≤ 57 := by
  intro c hc
  rw [packageCountText] at hc
  split at hc
  · rw [List.mem_singleton] at hc
    subst hc
    decide
  · exact packageDigits_isDigit 16 count c (List.mem_reverse.mp hc)

theorem packageCountText_clean (count : UInt64) :
    ∀ c ∈ packageCountText count, c ≠ 0 ∧ ¬ isLineBreak c := by
  intro c hc
  have hdigit := packageCountText_isDigit count c hc
  refine ⟨?_, ?_⟩
  · rintro rfl
    exact absurd hdigit.1 (by decide)
  · rintro (rfl | rfl)
    · exact absurd hdigit.1 (by decide)
    · exact absurd hdigit.1 (by decide)

theorem length_packageDigits_le (room : Nat) : ∀ count, (packageDigits room count).length ≤ room := by
  induction room with
  | zero => exact fun _ => le_rfl
  | succ room ih =>
      intro count
      rw [packageDigits]
      split
      · exact Nat.succ_le_succ (ih _)
      · exact Nat.zero_le _

theorem length_packageCountText_le (count : UInt64) : (packageCountText count).length ≤ 16 := by
  rw [packageCountText]
  split
  · decide
  · rw [List.length_reverse]
    exact length_packageDigits_le 16 count

/-! ## The text -/

/-- The fields of a record, separated. -/
def packageFields (r : PackageRecord) : List UInt8 :=
  r.name ++ '|'.toUInt8 :: (r.version ++ '|'.toUInt8 ::
    (r.source ++ '|'.toUInt8 :: packageCountText r.installedFiles))

def packageLine (r : PackageRecord) : List UInt8 := packageFields r ++ ['\n'.toUInt8]

def packageText (t : PackageTable) : List UInt8 := (packageRecords t).flatMap packageLine

theorem flatMap_packagePieces (t : PackageTable) :
    (((List.finRange packageEntryMax).filter fun i => (t i).used).map fun i =>
      packagePieces (t i)).flatMap (List.flatMap Piece.render) = packageText t := by
  apply flatMap_pieces
  · intro i hfree
    simp [packageView, PackageEntry.view, hfree]
  · intro i hused
    have hcount : cText (packageCountText (t i).installedFiles) =
        packageCountText (t i).installedFiles :=
      cText_of_zero_notMem fun hzero => (packageCountText_clean _ 0 hzero).1 rfl
    simp [packageView, PackageEntry.view, hused, packagePieces, Piece.render, packageLine,
      packageFields, CField.text, hcount]

theorem PackageRecord.Stored.length_line_le {r : PackageRecord} (h : r.Stored) :
    (packageLine r).length ≤ 129 := by
  have hname := h.name_lt
  have hversion := h.version_lt
  have hsource := h.source_lt
  have hcount := length_packageCountText_le r.installedFiles
  simp only [packageLine, packageFields, List.length_append, List.length_cons,
    List.length_nil, packageNameMax, packageVersionMax, packageFileMax] at hname hversion hsource ⊢
  omega

theorem length_packageText_le (t : PackageTable) : (packageText t).length ≤ 12 * 129 := by
  have hcount : (packageRecords t).length ≤ packageEntryMax := length_slotList_le _
  have hsum : ∀ l : List PackageRecord, (∀ r ∈ l, r.Stored) →
      (l.flatMap packageLine).length ≤ l.length * 129 := by
    intro l hl
    induction l with
    | nil => simp
    | cons r l ih =>
        have hline := (hl r (List.mem_cons_self ..)).length_line_le
        have hrest := ih fun q hq => hl q (List.mem_cons_of_mem _ hq)
        rw [List.flatMap_cons, List.length_append, List.length_cons]
        omega
  exact (hsum _ fun r hr => PackageRecord.stored_of_mem hr).trans (Nat.mul_le_mul_right 129 hcount)

theorem packageIndexText_eq (t : PackageTable) :
    packageIndexText t = if packageText t = [] then ['\n'.toUInt8] else packageText t := by
  have hlen := length_packageText_le t
  rw [← flatMap_packagePieces] at hlen ⊢
  exact recordsText_eq (hlen.trans_lt (by decide))

/-! ## Loading it -/

section Line

variable {r : PackageRecord} (h : r.Valid)

include h

theorem PackageRecord.Valid.fields_lines : ∀ c ∈ packageFields r, ¬ isLineBreak c := by
  intro c hc
  simp only [packageFields, List.mem_append, List.mem_cons] at hc
  rcases hc with hname | rfl | hversion | rfl | hsource | rfl | hcount
  · exact (h.name_clean c hname).2
  · decide
  · exact (h.version_clean c hversion).2
  · decide
  · exact (h.source_clean c hsource).2
  · decide
  · exact (packageCountText_clean _ c hcount).2

theorem PackageRecord.Valid.trim : packageTrimNewline (packageFields r) = packageFields r := by
  rw [packageTrimNewline, List.rdropWhile_eq_self_iff]
  intro hne hlast
  have hfree := h.fields_lines _ (List.getLast_mem hne)
  rw [isLineBreak, or_comm] at hfree
  exact hfree (by simpa using hlast)

theorem PackageRecord.Valid.separators :
    '|'.toUInt8 ∉ r.name ∧ '|'.toUInt8 ∉ r.version ∧ '|'.toUInt8 ∉ r.source :=
  ⟨fun hmem => (h.name_clean _ hmem).1 rfl, fun hmem => (h.version_clean _ hmem).1 rfl,
    fun hmem => (h.source_clean _ hmem).1 rfl⟩

end Line

/-- The record a line comes back as. -/
def PackageRecord.reloaded (r : PackageRecord) : PackageRecord := { r with installedFiles := 0 }

theorem packageView_update (t : PackageTable) (i : Fin packageEntryMax) (e : PackageEntry) :
    packageView (Function.update t i e) = Function.update (packageView t) i e.view :=
  Function.comp_update PackageEntry.view t i e

theorem packageFindFreeIndex_eq (t : PackageTable) :
    packageFindFreeIndex t = firstSlot fun i => (packageView t i).isNone := by
  unfold packageFindFreeIndex
  congr 1
  ext i
  simp only [packageView, PackageEntry.view]
  cases (t i).used <;> rfl

theorem packageLoadLine_fields {t : PackageTable} {l : List PackageRecord}
    (hfills : Fills (packageView t) l) (hroom : l.length < packageEntryMax)
    {r : PackageRecord} (h : r.Valid) (hr : r.Stored) :
    ∃ t', packageLoadLine t (packageFields r) = some t' ∧
      Fills (packageView t') (l ++ [r.reloaded]) := by
  obtain ⟨hname, hversion, hsource⟩ := h.separators
  have hfree : packageFindFreeIndex t = some ⟨l.length, hroom⟩ := by
    rw [packageFindFreeIndex_eq, hfills.firstSlot_free hroom]
  simp only [packageLoadLine, packageFields, scanTo_append hname, scanTo_append hversion,
    scanTo_append hsource, hfree]
  refine ⟨_, rfl, ?_⟩
  have hpush := hfills.push hroom r.reloaded
  have hcopy : ∀ {n : Nat} (d : CField n) {a : List UInt8}, a.length < n → 0 ∉ a →
      (d.copy (.read a)).text = a := by
    intro n d a hlen hzero
    have hread := CString.read_bytes hzero
    rw [CField.text_copy_of_lt d (by rwa [CString.length, hread]), hread]
  rw [packageView_update]
  convert hpush using 2
  simp only [PackageEntry.view, if_true, hcopy _ hr.name_lt hr.name_zero,
    hcopy _ hr.version_lt hr.version_zero, hcopy _ hr.source_lt hr.source_zero]
  -- the scan for digits starts at the terminator
  rfl

theorem fills_packageLoadLines (l : List PackageRecord) :
    ∀ {t : PackageTable} {d}, Fills (packageView t) d → (∀ r ∈ l, r.Valid ∧ r.Stored) →
      d.length + l.length ≤ packageEntryMax →
      Fills (packageView (packageLoadLines t (textLines (l.flatMap packageLine))))
        (d ++ l.map PackageRecord.reloaded) := by
  induction l with
  | nil =>
      intro t d hfills _ _
      rw [List.flatMap_nil, textLines, dif_pos rfl, packageLoadLines, List.map_nil,
        List.append_nil]
      exact hfills
  | cons r l ih =>
      intro t d hfills hvalid hroom
      obtain ⟨hr, hstored⟩ := hvalid r (List.mem_cons_self ..)
      rw [List.length_cons] at hroom
      obtain ⟨t', hload, hfills'⟩ := packageLoadLine_fields hfills (by omega) hr hstored
      have hline : '\n'.toUInt8 ∉ packageFields r := fun hmem =>
        hr.fields_lines _ hmem (Or.inr rfl)
      have hnonempty : (packageFields r == []) = false :=
        beq_eq_false_iff_ne.mpr (by simp [packageFields])
      have hrest := ih hfills' (fun q hq => hvalid q (List.mem_cons_of_mem _ hq)) (by
        rw [List.length_append, List.length_singleton]
        omega)
      rw [List.append_assoc] at hrest
      rw [List.flatMap_cons, packageLine, List.append_assoc, List.singleton_append,
        textLines_append hline, packageLoadLines]
      simp only [hr.trim, hnonempty, Bool.false_eq_true, if_false, hload]
      exact hrest

theorem zero_notMem_packageText (t : PackageTable) : 0 ∉ packageText t := by
  rw [packageText, List.mem_flatMap]
  rintro ⟨r, hr, hmem⟩
  have hstored := PackageRecord.stored_of_mem hr
  simp only [packageLine, packageFields, List.mem_append, List.mem_cons, List.not_mem_nil,
    or_false] at hmem
  rcases hmem with (hname | hbar | hversion | hbar | hsource | hbar | hcount) | hend
  · exact hstored.name_zero hname
  · exact absurd hbar (by decide)
  · exact hstored.version_zero hversion
  · exact absurd hbar (by decide)
  · exact hstored.source_zero hsource
  · exact absurd hbar (by decide)
  · exact (packageCountText_clean _ 0 hcount).1 rfl
  · exact absurd hend (by decide)

theorem zero_notMem_packageIndexText (t : PackageTable) : 0 ∉ packageIndexText t := by
  rw [packageIndexText_eq]
  split
  · decide
  · exact zero_notMem_packageText t

theorem packageLoadLines_newline (t : PackageTable) :
    packageLoadLines t (textLines ['\n'.toUInt8]) = t := by
  have hlines : textLines ([] ++ ['\n'.toUInt8]) = [] :: textLines [] :=
    textLines_append List.not_mem_nil []
  rw [List.nil_append] at hlines
  rw [hlines, textLines, dif_pos rfl]
  rfl

theorem packageRecords_load {t : PackageTable} (h : ∀ r ∈ packageRecords t, r.Valid) :
    packageRecords (packageLoadLines packageClearEntries (textLines (packageIndexText t))) =
      (packageRecords t).map PackageRecord.reloaded := by
  have hclear : Fills (packageView packageClearEntries) [] := .nil
  have hcount : (packageRecords t).length ≤ packageEntryMax := length_slotList_le _
  have hload := fills_packageLoadLines (packageRecords t) hclear
    (fun r hr => ⟨h r hr, PackageRecord.stored_of_mem hr⟩) (by rwa [List.length_nil, Nat.zero_add])
  rw [List.nil_append] at hload
  rw [packageIndexText_eq]
  split
  · next hnil =>
      change (packageRecords t).flatMap packageLine = [] at hnil
      rw [hnil, textLines, dif_pos rfl] at hload
      rw [packageLoadLines_newline]
      exact hload.slotList_eq
  · exact hload.slotList_eq

/-! ## The round trip -/

theorem packageLoadIndex_of_delivers {fs : FsState} (hfaults : fs.withFaults .none = fs)
    {text : List UInt8} (h : FsDelivers fs packageIndexFile packageManifestMax text)
    (hlen : text.length < packageManifestMax) (hzero : 0 ∉ text) :
    (packageLoadIndex fs .none).2 = packageLoadLines packageClearEntries (textLines text) := by
  obtain ⟨bytes, hread, htake⟩ := h
  have hsize : ¬ packageManifestMax ≤ text.length := Nat.not_le.mpr hlen
  have htext : (packageReadText fs .none packageIndexFile).2 = some text := by
    simp only [packageReadText, hfaults, hread, Option.map_some, ge_iff_le, if_neg hsize, htake,
      cText_of_zero_notMem hzero]
  simp only [packageLoadIndex, htext]

theorem packageInit_saveIndex {fs : FsState} (hfs : FsReachable fs) {f : Faults}
    {t : PackageTable} (hsave : (packageSaveIndex fs f t).2 = 0) :
    (packageInit (packageSaveIndex fs f t).1 .none).2 =
      packageLoadLines packageClearEntries (textLines (packageIndexText t)) := by
  have hlen : (packageIndexText t).length ≤ 12 * 129 := by
    rw [packageIndexText_eq]
    split
    · decide
    · exact length_packageText_le t
  have hzero := zero_notMem_packageIndexText t
  have hname : packageIndexFile.length < fsNameMax := by decide
  have hblocks : fsBlockCount (packageIndexText t).length * fsBlockSize ≤ packageManifestMax := by
    simp only [fsBlockCount, fsBlockSize, packageManifestMax]
    omega
  have hdelivers := hfs.delivers_written hname hsave (hlen.trans (by decide)) hblocks
  exact packageLoadIndex_of_delivers rfl hdelivers (hlen.trans_lt (by decide)) hzero

/-- Saving and loading keeps everything but the file counts. -/
theorem packageRecords_init_saveIndex {fs : FsState} (hfs : FsReachable fs) {f : Faults}
    {t : PackageTable} (h : ∀ r ∈ packageRecords t, r.Valid)
    (hsave : (packageSaveIndex fs f t).2 = 0) :
    packageRecords (packageInit (packageSaveIndex fs f t).1 .none).2 =
      (packageRecords t).map PackageRecord.reloaded := by
  rw [packageInit_saveIndex hfs hsave, packageRecords_load h]

/-- The packages come back as they were saved exactly when none of them has installed a
file. -/
theorem packageRecords_init_saveIndex_iff {fs : FsState} (hfs : FsReachable fs) {f : Faults}
    {t : PackageTable} (h : ∀ r ∈ packageRecords t, r.Valid)
    (hsave : (packageSaveIndex fs f t).2 = 0) :
    packageRecords (packageInit (packageSaveIndex fs f t).1 .none).2 = packageRecords t ↔
      ∀ r ∈ packageRecords t, r.installedFiles = 0 := by
  have hself : ∀ r : PackageRecord, r.reloaded = id r ↔ r.installedFiles = 0 := by
    intro r
    obtain ⟨name, version, source, installedFiles⟩ := r
    simp [PackageRecord.reloaded, eq_comm]
  rw [packageRecords_init_saveIndex hfs h hsave]
  calc (packageRecords t).map PackageRecord.reloaded = packageRecords t
      ↔ (packageRecords t).map PackageRecord.reloaded = (packageRecords t).map id := by
        rw [List.map_id]
    _ ↔ ∀ r ∈ packageRecords t, r.reloaded = id r := List.map_inj_left
    _ ↔ ∀ r ∈ packageRecords t, r.installedFiles = 0 :=
        forall₂_congr fun r _ => hself r

/-- The table after installing a package "a" of one file from a manifest "m". -/
def packageSample : PackageTable :=
  Function.update packageClearEntries 0 {
    name := PackageEntry.zero.name.copy (.read [97])
    version := PackageEntry.zero.version
    source := PackageEntry.zero.source.copy (.read [109])
    installedFiles := 1
    used := true }

theorem packageSample_valid : ∀ r ∈ packageRecords packageSample, r.Valid := by
  have hrecords : packageRecords packageSample = [⟨[97], [], [109], 1⟩] := by decide +kernel
  intro r hr
  rw [hrecords, List.mem_singleton] at hr
  subst hr
  exact ⟨by decide, by decide, by decide, by decide⟩

theorem packageRecords_init_saveIndex_sample :
    packageRecords (packageInit (packageSaveIndex (fsBlankDisk 5000) .none packageSample).1
        .none).2 = packageRecords packageSample ↔
      ∀ r ∈ packageRecords packageSample, r.installedFiles = 0 :=
  packageRecords_init_saveIndex_iff (.start (fsFresh_blankDisk (by decide))) packageSample_valid
    (by decide +kernel)

theorem packageSample_loses_count :
    FsReachable (fsBlankDisk 5000) ∧
      (∀ r ∈ packageRecords packageSample, r.Valid) ∧
      (packageSaveIndex (fsBlankDisk 5000) .none packageSample).2 = 0 ∧
      packageRecords packageSample = [⟨[97], [], [109], 1⟩] ∧
      packageRecords (packageInit (packageSaveIndex (fsBlankDisk 5000) .none packageSample).1
        .none).2 = [⟨[97], [], [109], 0⟩] :=
  ⟨.start (fsFresh_blankDisk (by decide)), packageSample_valid, by decide +kernel,
    by decide +kernel, by decide +kernel⟩

end AcharyaOS.Package
