import AcharyaOS.Fs.Accept
import AcharyaOS.Package.Effect
import AcharyaOS.Package.Index
import AcharyaOS.Package.Metadata

/-!
# Whether a package call that returns 0 has been saved

`package_install` and `package_remove` end by writing the index and return 0 whatever comes of
it.  What they report is true when the index can be written and no package name has a separator
in it.
-/

namespace AcharyaOS.Package

open Foundation Foundation.Run Disk Fs

/-- A call that changes the table of packages. -/
inductive PackageCall
  | install (manifestName : Option CString)
  | remove (packageName : CString)

def packageExec (fs : FsState) (f : PackageFaults) (t : PackageTable) :
    PackageCall → FsState × PackageTable × Int
  | .install manifestName => packageInstall fs f t manifestName
  | .remove packageName => packageRemove fs f.index t packageName

/-! ## Tables that calls leave behind -/

/-- No newline in any of the texts. -/
structure PackageRecord.OneLine (r : PackageRecord) : Prop where
  name : '\n'.toUInt8 ∉ r.name
  version : '\n'.toUInt8 ∉ r.version
  source : '\n'.toUInt8 ∉ r.source

/-- The shell hands on names from the command line, which has no newline in it. -/
def PackageCall.OneLine : PackageCall → Prop
  | .install (some manifestName) => '\n'.toUInt8 ∉ manifestName.bytes
  | _ => True

/-- The tables that any package calls on any filesystems lead to, from one that `package_init`
has read. -/
def PackageReachable : PackageTable → Prop :=
  Reach (fun t => ∃ fs f, t = (packageInit fs f).2)
    (fun t (c : FsState × PackageFaults × PackageCall) => (packageExec c.1 c.2.1 t c.2.2).2.1)
    fun _ c => c.2.2.OneLine

def PackageLines (t : PackageTable) : Prop := ∀ r ∈ packageRecords t, r.OneLine

theorem PackageEntry.view_of_used {e : PackageEntry} (h : e.used = true) :
    e.view = some ⟨e.name.text, e.version.text, e.source.text, e.installedFiles⟩ := if_pos h

theorem mem_packageRecords {t : PackageTable} {r : PackageRecord} :
    r ∈ packageRecords t ↔ ∃ i, packageView t i = some r := by
  unfold packageRecords slotList
  rw [List.mem_filterMap]
  exact exists_congr fun i => and_iff_right (List.mem_finRange i)

theorem packageRecords_update {t : PackageTable} {i : Fin packageEntryMax} {e : PackageEntry}
    {r : PackageRecord} (h : r ∈ packageRecords (Function.update t i e)) :
    e.view = some r ∨ r ∈ packageRecords t := by
  obtain ⟨j, hj⟩ := mem_packageRecords.mp h
  rw [packageView_update] at hj
  by_cases hij : j = i
  · rw [hij, Function.update_self] at hj
    exact .inl hj
  · rw [Function.update_of_ne hij] at hj
    exact .inr (mem_packageRecords.mpr ⟨j, hj⟩)

theorem oneLine_of_subset {r : PackageRecord} {line : List UInt8} (hline : '\n'.toUInt8 ∉ line)
    (hname : r.name ⊆ line) (hversion : r.version ⊆ line) (hsource : r.source ⊆ line) :
    r.OneLine :=
  ⟨fun h => hline (hname h), fun h => hline (hversion h), fun h => hline (hsource h)⟩

theorem read_bytes_subset (a : List UInt8) : (CString.read a).bytes ⊆ a :=
  (List.takeWhile_prefix _).subset

theorem copy_text_subset {n : Nat} (d : CField n) {src : CString} {line : List UInt8}
    (h : src.bytes ⊆ line) : (d.copy src).text ⊆ line := by
  intro c hc
  rw [CField.text_copy] at hc
  exact h (List.mem_of_mem_take hc)

/-- A line adds a record of its own texts, whose name ends at the first separator, or
nothing. -/
theorem packageLoadLine_cases {t t' : PackageTable} {line : List UInt8}
    (h : packageLoadLine t line = some t') :
    t' = t ∨ ∃ i e r, t' = Function.update t i e ∧ e.view = some r ∧ '|'.toUInt8 ∉ r.name ∧
      r.name ⊆ line ∧ r.version ⊆ line ∧ r.source ⊆ line := by
  unfold packageLoadLine at h
  have hname : (scanTo '|'.toUInt8 line).1 ⊆ line := (List.takeWhile_prefix _).subset
  have hbehind : (scanTo '|'.toUInt8 line).2 ⊆ line := (List.dropWhile_suffix _).subset
  cases hfirst : (scanTo '|'.toUInt8 line).2 with
  | nil =>
    simp only [hfirst, Option.some.injEq] at h
    exact .inl h.symm
  | cons b version =>
    rw [hfirst] at hbehind
    have hversion : (scanTo '|'.toUInt8 version).1 ⊆ line := fun c hc =>
      hbehind (List.mem_cons_of_mem _ ((List.takeWhile_prefix _).subset hc))
    have hrest : (scanTo '|'.toUInt8 version).2 ⊆ line := fun c hc =>
      hbehind (List.mem_cons_of_mem _ ((List.dropWhile_suffix _).subset hc))
    cases hsecond : (scanTo '|'.toUInt8 version).2 with
    | nil =>
      simp only [hfirst, hsecond, Option.some.injEq] at h
      exact .inl h.symm
    | cons b' source =>
      rw [hsecond] at hrest
      have hsource : (scanTo '|'.toUInt8 source).1 ⊆ line := fun c hc =>
        hrest (List.mem_cons_of_mem _ ((List.takeWhile_prefix _).subset hc))
      cases hfree : packageFindFreeIndex t with
      | none =>
        simp only [hfirst, hsecond, hfree] at h
        exact absurd h (by simp)
      | some i =>
        simp only [hfirst, hsecond, hfree, Option.some.injEq] at h
        refine .inr ⟨i, _, _, h.symm, PackageEntry.view_of_used rfl, ?_,
          copy_text_subset _ (List.Subset.trans (read_bytes_subset _) hname),
          copy_text_subset _ (List.Subset.trans (read_bytes_subset _) hversion),
          copy_text_subset _ (List.Subset.trans (read_bytes_subset _) hsource)⟩
        intro hbar
        have hne := List.mem_takeWhile_imp (copy_text_subset _ (read_bytes_subset _) hbar)
        simp at hne

/-- Records as a line of an index gives them. -/
def PackageLoaded (t : PackageTable) : Prop :=
  ∀ r ∈ packageRecords t, '|'.toUInt8 ∉ r.name ∧ r.OneLine

theorem packageLoaded_clear : PackageLoaded packageClearEntries := by
  intro r hr
  obtain ⟨i, hi⟩ := mem_packageRecords.mp hr
  cases hi

theorem packageLoaded_lines (lines : List (List UInt8)) : ∀ {t : PackageTable},
    PackageLoaded t → (∀ line ∈ lines, '\n'.toUInt8 ∉ line) →
      PackageLoaded (packageLoadLines t lines) := by
  induction lines with
  | nil => exact fun h _ => h
  | cons line lines ih =>
    intro t ht hlines
    rw [List.forall_mem_cons] at hlines
    have htrim : '\n'.toUInt8 ∉ packageTrimNewline line := fun h =>
      hlines.1 ((List.rdropWhile_prefix _ _).subset h)
    rw [packageLoadLines]
    by_cases hnil : packageTrimNewline line = []
    · rw [if_pos (beq_iff_eq.mpr hnil)]
      exact ih ht hlines.2
    · rw [if_neg (mt beq_iff_eq.mp hnil)]
      cases hload : packageLoadLine t (packageTrimNewline line) with
      | none => exact ht
      | some t' =>
        refine ih ?_ hlines.2
        rcases packageLoadLine_cases hload with rfl | ⟨i, e, r, rfl, he, hbar, hsub⟩
        · exact ht
        · intro q hq
          rcases packageRecords_update hq with hnew | hold
          · rw [he, Option.some.injEq] at hnew
            subst hnew
            exact ⟨hbar, oneLine_of_subset htrim hsub.1 hsub.2.1 hsub.2.2⟩
          · exact ht q hold

theorem packageLoaded_init (fs : FsState) (f : Faults) : PackageLoaded (packageInit fs f).2 := by
  cases htext : (packageReadText fs f packageIndexFile).2 with
  | none =>
    simp only [packageInit, packageLoadIndex, htext]
    exact packageLoaded_clear
  | some text =>
    simp only [packageInit, packageLoadIndex, htext]
    exact packageLoaded_lines _ packageLoaded_clear (newline_notMem_textLines text)

/-! ## Installing and removing -/

/-- The manifest can be read, is accepted, all its file lines have separators and are written,
and a slot of the table takes the record. -/
structure PackageInstalls (fs : FsState) (f : PackageFaults) (t : PackageTable)
    (manifestName : CString) (text : List UInt8) (m : PackageManifest) (t' : PackageTable) :
    Prop where
  named : manifestName.bytes ≠ []
  read : (packageReadText fs f.manifest manifestName).2 = some text
  parsed : packageParseManifest text = some m
  separated : Separated (manifestLines text)
  written : AllWritten (packageReadText fs f.manifest manifestName).1
    (linesWrites f.file (manifestLines text) 0)
  recorded : packageRecord t m manifestName (manifestFiles text).length = some t'

section Install

variable {fs : FsState} {f : PackageFaults} {t t' : PackageTable} {name : CString}
  {text : List UInt8} {m : PackageManifest}

theorem PackageInstalls.eq (h : PackageInstalls fs f t name text m t') :
    packageInstall fs f t (some name) =
      ((packageSaveIndex (packageUnpacked fs f (some name)) f.index t').1, t', 0) := by
  obtain ⟨hzero, -⟩ := packageReadText_text h.read
  have hlines : (packageInstallLines f.file (packageReadText fs f.manifest name).1
      (textLines text) 0).2 = some (manifestFiles text).length := by
    rw [packageInstallLines_snd_iff (isLine_of_textLines hzero), map_packageTrimNewline hzero,
      Nat.zero_add]
    exact ⟨h.separated, h.written, List.length_map _⟩
  rw [packageInstall_of_text h.named h.read,
    packageUnpacked_eq (beq_eq_false_iff_ne.mpr h.named) h.read h.parsed]
  simp only [packageInstallText, h.parsed, packageFinish, hlines, h.recorded]

theorem packageInstalls_of_zero (h : (packageInstall fs f t (some name)).2.2 = 0) :
    ∃ text m t', PackageInstalls fs f t name text m t' := by
  obtain ⟨hname, text, hread⟩ := packageReadText_of_installed h
  obtain ⟨hzero, -⟩ := packageReadText_text hread
  rw [packageInstall_of_text hname hread] at h
  obtain ⟨m, n, t', hparse, hlines, hrecord, -⟩ := packageInstallText_zero h
  rw [packageInstallLines_snd_iff (isLine_of_textLines hzero), map_packageTrimNewline hzero,
    Nat.zero_add] at hlines
  obtain ⟨hseps, hwritten, hcount⟩ := hlines
  have hfiles : n = (manifestFiles text).length := by
    rw [hcount, manifestFiles, List.length_map]
  exact ⟨text, m, t', hname, hread, hparse, hseps, hwritten, hfiles ▸ hrecord⟩

theorem packageValue_subset (line : List UInt8) : (packageValue line).bytes ⊆ line := by
  have hskip : packageSkipSpaces (line.drop 7) ⊆ line := fun c hc =>
    (List.drop_suffix _ _).subset ((List.dropWhile_suffix _).subset hc)
  intro c hc
  unfold packageValue at hc
  cases hvalue : packageSkipSpaces (line.drop 7) with
  | nil =>
    rw [hvalue] at hc
    exact absurd hc List.not_mem_nil
  | cons d value =>
    rw [hvalue] at hskip hc
    simp only at hc
    split at hc
    · exact hskip (List.mem_cons_of_mem _ (read_bytes_subset _ hc))
    · exact hskip (read_bytes_subset _ hc)

theorem newline_notMem_manifestField (word : List UInt8) (size : Nat) (text : List UInt8) :
    '\n'.toUInt8 ∉ manifestField word size text := by
  unfold manifestField
  cases hlast : ((plainLines text).filter (packageStartsWithWord · word)).getLast? with
  | none => exact List.not_mem_nil
  | some line =>
    obtain ⟨a, ha, rfl⟩ := List.mem_map.mp (List.mem_filter.mp (List.mem_of_getLast? hlast)).1
    intro hmem
    have hvalue := packageValue_subset _ (List.mem_of_mem_take hmem)
    exact newline_notMem_textLines text a ha (List.mem_of_mem_filter hvalue)

/-- The record of an installation has the texts of the manifest, which have no newlines. -/
theorem packageLines_record (ht : PackageLines t) (hlen : text.length < packageManifestMax)
    (hparse : packageParseManifest text = some m) (hname : '\n'.toUInt8 ∉ name.bytes) {n : Nat}
    (h : packageRecord t m name n = some t') : PackageLines t' := by
  obtain ⟨hn, hv⟩ := packageParseManifest_fields hlen hparse
  have hentry : ∃ i, t' = Function.update t i {
      name := (t i).name.copy (.read m.packageName.bytes)
      version := (t i).version.copy (.read m.packageVersion.bytes)
      source := (t i).source.copy name
      installedFiles := UInt64.ofNat n
      used := true } := by
    unfold packageRecord at h
    obtain ⟨i, -, hi⟩ := Option.map_eq_some_iff.mp h
    exact ⟨i, hi.symm⟩
  obtain ⟨i, rfl⟩ := hentry
  intro r hr
  rcases packageRecords_update hr with hnew | hold
  · rw [PackageEntry.view_of_used rfl, Option.some.injEq] at hnew
    subst hnew
    have hname' : ((t i).name.copy (.read m.packageName.bytes)).text ⊆ manifestName text :=
      hn ▸ copy_text_subset _ (List.Subset.refl _)
    have hversion' : ((t i).version.copy (.read m.packageVersion.bytes)).text ⊆
        manifestVersion text := hv ▸ copy_text_subset _ (List.Subset.refl _)
    exact ⟨fun hmem => newline_notMem_manifestField _ _ text (hname' hmem),
      fun hmem => newline_notMem_manifestField _ _ text (hversion' hmem),
      fun hmem => hname (copy_text_subset (t i).source (List.Subset.refl _) hmem)⟩
  · exact ht r hold

end Install

theorem packageLines_clear (t : PackageTable) (i : Fin packageEntryMax) (ht : PackageLines t) :
    PackageLines (Function.update t i .zero) := by
  intro r hr
  rcases packageRecords_update hr with hnew | hold
  · cases hnew
  · exact ht r hold

/-- The table with which a call comes to save the index, and the filesystem it finds then. -/
def PackageSaves (fs : FsState) (f : PackageFaults) (t : PackageTable) :
    PackageCall → FsState → PackageTable → Prop
  | .install none, _, _ => False
  | .install (some name), fs', t' =>
      fs' = packageUnpacked fs f (some name) ∧ ∃ text m, PackageInstalls fs f t name text m t'
  | .remove name, fs', t' =>
      fs' = fs ∧ ∃ i, packageFindIndex t name.bytes = some i ∧ t' = Function.update t i .zero

section Calls

variable {fs : FsState} {f : PackageFaults} {t : PackageTable} {c : PackageCall}

theorem PackageSaves.eq {fs' : FsState} {t' : PackageTable} (h : PackageSaves fs f t c fs' t') :
    packageExec fs f t c = ((packageSaveIndex fs' f.index t').1, t', 0) := by
  cases c with
  | install name =>
    cases name with
    | none => exact h.elim
    | some name =>
      obtain ⟨rfl, text, m, hinstalls⟩ := h
      exact hinstalls.eq
  | remove name =>
    obtain ⟨rfl, i, hfind, rfl⟩ := h
    simp only [packageExec, packageRemove, hfind]

/-- A call saves the index and returns 0, or leaves the table alone and returns -1. -/
theorem packageExec_cases (fs : FsState) (f : PackageFaults) (t : PackageTable)
    (c : PackageCall) :
    (∃ fs' t', PackageSaves fs f t c fs' t') ∨
      (packageExec fs f t c).2 = (t, -1) := by
  cases c with
  | install name =>
    rcases packageInstall_cases fs f t name with hfailed | ⟨m, source, n, t', -, hdone⟩
    · exact .inr (congrArg Prod.snd hfailed)
    · left
      cases name with
      | none =>
        have hresult : (-1 : Int) = 0 := congrArg (fun r => r.2.2) hdone
        exact absurd hresult (by decide)
      | some name =>
        have hzero : (packageInstall fs f t (some name)).2.2 = 0 := by rw [hdone]
        obtain ⟨text, m, t', hinstalls⟩ := packageInstalls_of_zero hzero
        exact ⟨_, t', rfl, text, m, hinstalls⟩
  | remove name =>
    cases hfind : packageFindIndex t name.bytes with
    | none => exact .inr (by simp only [packageExec, packageRemove, hfind])
    | some i => exact .inl ⟨fs, _, rfl, i, hfind, rfl⟩

theorem packageLines_saves (ht : PackageLines t) (hc : c.OneLine) {fs' : FsState}
    {t' : PackageTable} (h : PackageSaves fs f t c fs' t') : PackageLines t' := by
  cases c with
  | install name =>
    cases name with
    | none => exact h.elim
    | some name =>
      obtain ⟨-, text, m, hinstalls⟩ := h
      obtain ⟨-, hlen⟩ := packageReadText_text hinstalls.read
      exact packageLines_record ht hlen hinstalls.parsed hc hinstalls.recorded
  | remove name =>
    obtain ⟨-, i, -, rfl⟩ := h
    exact packageLines_clear t i ht

end Calls

theorem PackageReachable.lines {t : PackageTable} (h : PackageReachable t) : PackageLines t := by
  refine h.invariant ?_ ?_
  · rintro _ ⟨fs, f, rfl⟩ r hr
    exact (packageLoaded_init fs f r hr).2
  · intro t c ht hc
    rcases packageExec_cases c.1 c.2.1 t c.2.2 with ⟨fs', t', hsaves⟩ | hsame
    · rw [hsaves.eq]
      exact packageLines_saves ht hc hsaves
    · rw [hsame]
      exact ht

/-! ## The names on the lines of an index -/

/-- What a line with two separators has in front of the first one, as the field of a name holds
it. -/
def packageLineName (line : List UInt8) : Option (List UInt8) :=
  if 2 ≤ line.count '|'.toUInt8 then
    some ((line.takeWhile (· != '|'.toUInt8)).take (packageNameMax - 1))
  else none

/-- The names on the lines of the index of a table, as many as a table has slots. -/
def packageIndexNames (t : PackageTable) : List (List UInt8) :=
  ((textLines (packageIndexText t)).filterMap packageLineName).take packageEntryMax

theorem packageLineName_append {a : List UInt8} (ha : '|'.toUInt8 ∉ a) (b c : List UInt8) :
    packageLineName (a ++ '|'.toUInt8 :: (b ++ '|'.toUInt8 :: c)) =
      some (a.take (packageNameMax - 1)) := by
  have hcount : 2 ≤ (a ++ '|'.toUInt8 :: (b ++ '|'.toUInt8 :: c)).count '|'.toUInt8 := by
    rw [List.count_append, List.count_cons_self, List.count_append, List.count_cons_self]
    omega
  rw [packageLineName, if_pos hcount, takeWhile_ne_append ha]

theorem packageLineName_cases (line : List UInt8) :
    (packageLineName line = none ∧ ∀ t, packageLoadLine t line = some t) ∨
      ∃ a b c, line = a ++ '|'.toUInt8 :: (b ++ '|'.toUInt8 :: c) ∧
        '|'.toUInt8 ∉ a ∧ '|'.toUInt8 ∉ b := by
  by_cases hfirst : '|'.toUInt8 ∈ line
  · obtain ⟨a, rest, rfl, ha⟩ := List.eq_append_cons_of_mem hfirst
    by_cases hsecond : '|'.toUInt8 ∈ rest
    · obtain ⟨b, c, rfl, hb⟩ := List.eq_append_cons_of_mem hsecond
      exact .inr ⟨a, b, c, rfl, ha, hb⟩
    · have hcount : ¬ 2 ≤ (a ++ '|'.toUInt8 :: rest).count '|'.toUInt8 := by
        rw [List.count_append, List.count_cons_self, List.count_eq_zero_of_not_mem ha,
          List.count_eq_zero_of_not_mem hsecond]
        decide
      have hend : (scanTo '|'.toUInt8 rest).2 = [] :=
        List.dropWhile_eq_nil_iff.mpr (forall_ne_of_notMem hsecond)
      refine .inl ⟨if_neg hcount, fun t => ?_⟩
      simp only [packageLoadLine, scanTo_append ha, hend]
  · have hcount : ¬ 2 ≤ line.count '|'.toUInt8 := by
      rw [List.count_eq_zero_of_not_mem hfirst]
      decide
    have hend : (scanTo '|'.toUInt8 line).2 = [] :=
      List.dropWhile_eq_nil_iff.mpr (forall_ne_of_notMem hfirst)
    refine .inl ⟨if_neg hcount, fun t => ?_⟩
    simp only [packageLoadLine, hend]

theorem packageLineName_trim (line : List UInt8) :
    packageLineName (packageTrimNewline line) = packageLineName line := by
  have hsplit : packageTrimNewline line ++
      line.rtakeWhile (fun c => c == '\n'.toUInt8 || c == '\r'.toUInt8) = line :=
    List.rdropWhile_append_rtakeWhile
  have hbreaks : '|'.toUInt8 ∉
      line.rtakeWhile (fun c => c == '\n'.toUInt8 || c == '\r'.toUInt8) := fun h =>
    absurd (List.mem_rtakeWhile_imp h) (by decide)
  rcases packageLineName_cases (packageTrimNewline line) with ⟨hnone, -⟩ | ⟨a, b, c, habc, ha, -⟩
  · have hcount : ¬ 2 ≤ (packageTrimNewline line).count '|'.toUInt8 := by
      intro h
      rw [packageLineName, if_pos h] at hnone
      cases hnone
    have hsame : line.count '|'.toUInt8 = (packageTrimNewline line).count '|'.toUInt8 := by
      rw [← congrArg (List.count '|'.toUInt8) hsplit, List.count_append,
        List.count_eq_zero_of_not_mem hbreaks, Nat.add_zero]
    rw [hnone, packageLineName, hsame, if_neg hcount]
  · rw [← congrArg packageLineName hsplit, habc, packageLineName_append ha]
    simp only [List.append_assoc, List.cons_append, packageLineName_append ha]

theorem packageLoadLine_named {t : PackageTable} {d : List PackageRecord}
    (hfills : Fills (packageView t) d) {a b c : List UInt8} (ha : '|'.toUInt8 ∉ a)
    (hb : '|'.toUInt8 ∉ b) (hzero : 0 ∉ a) :
    (d.length < packageEntryMax → ∃ t' r,
        packageLoadLine t (a ++ '|'.toUInt8 :: (b ++ '|'.toUInt8 :: c)) = some t' ∧
          r.name = a.take (packageNameMax - 1) ∧ Fills (packageView t') (d ++ [r])) ∧
      (¬ d.length < packageEntryMax →
        packageLoadLine t (a ++ '|'.toUInt8 :: (b ++ '|'.toUInt8 :: c)) = none) := by
  constructor
  · intro hroom
    have hfree : packageFindFreeIndex t = some ⟨d.length, hroom⟩ := by
      rw [packageFindFreeIndex_eq, hfills.firstSlot_free hroom]
    have hload : ∃ e : PackageEntry, e.used = true ∧ e.name.text = a.take (packageNameMax - 1) ∧
        packageLoadLine t (a ++ '|'.toUInt8 :: (b ++ '|'.toUInt8 :: c)) =
          some (Function.update t ⟨d.length, hroom⟩ e) := by
      simp only [packageLoadLine, scanTo_append ha, scanTo_append hb, hfree]
      refine ⟨_, rfl, ?_, rfl⟩
      rw [CField.text_copy, CString.read_bytes hzero]
    obtain ⟨e, hused, hname, hload⟩ := hload
    refine ⟨_, ⟨e.name.text, e.version.text, e.source.text, e.installedFiles⟩, hload, hname, ?_⟩
    rw [packageView_update, PackageEntry.view_of_used hused]
    exact hfills.push hroom _
  · intro hfull
    have hnone : packageFindFreeIndex t = none := by
      rw [packageFindFreeIndex_eq, firstSlot_eq_none_iff]
      intro i
      have hi : i.val < d.length := by omega
      rw [hfills.view_eq, List.getElem?_eq_getElem hi]
      rfl
    simp only [packageLoadLine, scanTo_append ha, scanTo_append hb, hnone]

theorem packageLoadLines_cons_of_none {line : List UInt8} (h : packageLineName line = none)
    (t : PackageTable) (lines : List (List UInt8)) :
    packageLoadLines t (line :: lines) = packageLoadLines t lines := by
  rw [← packageLineName_trim] at h
  rw [packageLoadLines]
  rcases packageLineName_cases (packageTrimNewline line) with ⟨-, hload⟩ | ⟨a, b, c, habc, ha, -⟩
  · simp only [hload, ite_self]
  · rw [habc, packageLineName_append ha] at h
    cases h

/-- A line with a name appends a record of it, or ends the loading of a full table. -/
theorem packageLoadLines_cons_of_some {line name : List UInt8}
    (h : packageLineName line = some name) (hzero : 0 ∉ line) {t : PackageTable}
    {d : List PackageRecord} (hfills : Fills (packageView t) d) (lines : List (List UInt8)) :
    (d.length < packageEntryMax → ∃ t' r,
        packageLoadLines t (line :: lines) = packageLoadLines t' lines ∧ r.name = name ∧
          Fills (packageView t') (d ++ [r])) ∧
      (¬ d.length < packageEntryMax → packageLoadLines t (line :: lines) = t) := by
  rw [← packageLineName_trim] at h
  have hzeroline : 0 ∉ packageTrimNewline line := fun hmem =>
    hzero ((List.rdropWhile_prefix _ _).subset hmem)
  rw [packageLoadLines]
  rcases packageLineName_cases (packageTrimNewline line) with
    ⟨hnone, -⟩ | ⟨a, b, c, habc, ha, hb⟩
  · rw [hnone] at h
    cases h
  · rw [habc, packageLineName_append ha, Option.some.injEq] at h
    rw [habc] at hzeroline ⊢
    have hzeroname : 0 ∉ a := fun hmem => hzeroline (List.mem_append_left _ hmem)
    have hne : ¬ (a ++ '|'.toUInt8 :: (b ++ '|'.toUInt8 :: c) == []) = true := by
      rw [beq_iff_eq]
      exact List.append_ne_nil_of_right_ne_nil _ (List.cons_ne_nil _ _)
    obtain ⟨hnext, hfull⟩ := packageLoadLine_named (c := c) hfills ha hb hzeroname
    simp only [if_neg hne]
    constructor
    · intro hroom
      obtain ⟨t', r, hload, hname, hfills'⟩ := hnext hroom
      refine ⟨t', r, ?_, hname.trans h, hfills'⟩
      simp only [hload]
    · intro hroom
      simp only [hfull hroom]

/-- Loading lines appends records of the names on them, as many as there is room for. -/
theorem names_packageLoadLines_take (lines : List (List UInt8)) :
    ∀ {t : PackageTable} {d : List PackageRecord}, (∀ line ∈ lines, 0 ∉ line) →
      Fills (packageView t) d →
      ∃ d' : List PackageRecord, Fills (packageView (packageLoadLines t lines)) (d ++ d') ∧
        d'.map PackageRecord.name =
          (lines.filterMap packageLineName).take (packageEntryMax - d.length) := by
  induction lines with
  | nil =>
    intro t d _ hfills
    refine ⟨[], ?_, by simp⟩
    rw [List.append_nil]
    exact hfills
  | cons line lines ih =>
    intro t d hzero hfills
    rw [List.forall_mem_cons] at hzero
    cases hline : packageLineName line with
    | none =>
      rw [packageLoadLines_cons_of_none hline, List.filterMap_cons_none hline]
      exact ih hzero.2 hfills
    | some name =>
      obtain ⟨hnext, hfull⟩ := packageLoadLines_cons_of_some hline hzero.1 hfills lines
      rw [List.filterMap_cons_some hline]
      by_cases hroom : d.length < packageEntryMax
      · obtain ⟨t', r, hload, hname, hfills'⟩ := hnext hroom
        obtain ⟨d', hdone, hnames⟩ := ih hzero.2 hfills'
        have hleft : packageEntryMax - d.length = packageEntryMax - (d ++ [r]).length + 1 := by
          rw [List.length_append, List.length_singleton]
          omega
        refine ⟨r :: d', ?_, ?_⟩
        · rw [hload, List.append_cons]
          exact hdone
        · rw [hleft, List.take_succ_cons, List.map_cons, hname, hnames]
      · have hnone : packageEntryMax - d.length = 0 := by omega
        refine ⟨[], ?_, ?_⟩
        · rw [hfull hroom, List.append_nil]
          exact hfills
        · rw [hnone, List.take_zero]
          rfl

/-! ## What is reported and what is stored -/

/-- The names of the packages in a table. -/
def packageNameSet (t : PackageTable) : Set (List UInt8) :=
  {k | ∃ r ∈ packageRecords t, r.name = k}

theorem packageNameSet_load (t : PackageTable) :
    packageNameSet (packageLoadLines packageClearEntries (textLines (packageIndexText t))) =
      {k | k ∈ packageIndexNames t} := by
  have hzero : ∀ line ∈ textLines (packageIndexText t), 0 ∉ line := fun line hline h =>
    zero_notMem_packageIndexText t ((isInfix_of_mem_textLines _ line hline).subset h)
  have hclear : Fills (packageView packageClearEntries) [] := .nil
  obtain ⟨l, hfills, hnames⟩ := names_packageLoadLines_take _ hzero hclear
  rw [List.nil_append] at hfills
  ext k
  rw [packageNameSet, packageRecords, hfills.slotList_eq, Set.mem_ofPred_eq, ← List.mem_map, hnames]
  rfl

theorem lineNames_records (l : List PackageRecord) :
    (∀ r ∈ l, '|'.toUInt8 ∉ r.name ∧ r.OneLine ∧ r.Stored) →
      (textLines (l.flatMap packageLine)).filterMap packageLineName =
        l.map PackageRecord.name := by
  induction l with
  | nil =>
    intro _
    rw [List.flatMap_nil, textLines_nil]
    rfl
  | cons r l ih =>
    intro hl
    rw [List.forall_mem_cons] at hl
    obtain ⟨⟨hbar, hone, hstored⟩, hrest⟩ := hl
    have hline : '\n'.toUInt8 ∉ packageFields r := by
      simp only [packageFields, List.mem_append, List.mem_cons, not_or]
      have hcount : '\n'.toUInt8 ∉ packageCountText r.installedFiles := fun h =>
        (packageCountText_clean _ _ h).2 (.inr rfl)
      exact ⟨hone.name, by decide, hone.version, by decide, hone.source, by decide, hcount⟩
    have hname : packageLineName (packageFields r) = some r.name := by
      rw [packageFields, packageLineName_append hbar,
        List.take_of_length_le (Nat.le_sub_one_of_lt hstored.name_lt)]
    rw [List.flatMap_cons, packageLine, List.append_assoc, List.singleton_append,
      textLines_append hline, List.filterMap_cons, hname, List.map_cons, ih hrest]

theorem lineNames_newline : (textLines ['\n'.toUInt8]).filterMap packageLineName = [] := by
  have hlines : textLines ([] ++ ['\n'.toUInt8]) = [] :: textLines [] :=
    textLines_append List.not_mem_nil []
  rw [List.nil_append, textLines_nil] at hlines
  rw [hlines]
  rfl

theorem packageIndexNames_of_lines {t : PackageTable} (ht : PackageLines t)
    (hbar : ∀ k ∈ packageNameSet t, '|'.toUInt8 ∉ k) :
    packageIndexNames t = (packageRecords t).map PackageRecord.name := by
  have hcount : (packageRecords t).length ≤ packageEntryMax := length_slotList_le _
  have hnames := lineNames_records (packageRecords t)
    fun r hr => ⟨hbar _ ⟨r, hr, rfl⟩, ht r hr, PackageRecord.stored_of_mem hr⟩
  rw [packageIndexNames, packageIndexText_eq]
  split
  · next hnil =>
    change (packageRecords t).flatMap packageLine = [] at hnil
    rw [hnil, textLines_nil, List.filterMap_nil] at hnames
    rw [lineNames_newline, ← hnames, List.take_nil]
  · rw [packageText, hnames, List.take_of_length_le (by rwa [List.length_map])]

/-- A table is loaded from its index with the same names exactly when none of them has a
separator in it. -/
theorem packageNameSet_load_iff {t : PackageTable} (ht : PackageLines t) :
    packageNameSet (packageLoadLines packageClearEntries (textLines (packageIndexText t))) =
        packageNameSet t ↔ ∀ k ∈ packageNameSet t, '|'.toUInt8 ∉ k := by
  constructor
  · intro h k hk
    rw [← h] at hk
    obtain ⟨r, hr, rfl⟩ := hk
    exact (packageLoaded_lines _ packageLoaded_clear (newline_notMem_textLines _) r hr).1
  · intro h
    rw [packageNameSet_load, packageIndexNames_of_lines ht h]
    ext k
    exact List.mem_map

/-- The index can be written, and its lines name the packages of the table: with no newline in
any text, if no name has a separator in it. -/
structure PackageIndexOk (fs : FsState) (f : Faults) (t : PackageTable) : Prop where
  accepts : FsAccepts fs f packageIndexFile (packageIndexText t).length
  names : PackageLines t → ∀ k ∈ packageNameSet t, '|'.toUInt8 ∉ k
  lines : ¬ PackageLines t → ∀ k, k ∈ packageIndexNames t ↔ k ∈ packageNameSet t

theorem packageIndexOk_iff {fs : FsState} {f : Faults} {t : PackageTable} :
    PackageIndexOk fs f t ↔ FsAccepts fs f packageIndexFile (packageIndexText t).length ∧
      packageNameSet (packageLoadLines packageClearEntries (textLines (packageIndexText t))) =
        packageNameSet t := by
  by_cases ht : PackageLines t
  · rw [packageNameSet_load_iff ht]
    exact ⟨fun h => ⟨h.accepts, h.names ht⟩, fun h => ⟨h.1, fun _ => h.2, absurd ht⟩⟩
  · rw [packageNameSet_load]
    exact ⟨fun h => ⟨h.accepts, Set.ext (h.lines ht)⟩,
      fun h => ⟨h.1, fun hlines => absurd hlines ht, fun _ k => Set.ext_iff.mp h.2 k⟩⟩

/-- A call that returns 0 leaves an index that `package_init` reads back as the same packages,
and a call that cannot write the index does not return 0. -/
structure PackageReports (fs : FsState) (f : PackageFaults) (t : PackageTable)
    (c : PackageCall) : Prop where
  persisted : (packageExec fs f t c).2.2 = 0 →
    packageNameSet (packageInit (packageExec fs f t c).1 .none).2 =
      packageNameSet (packageExec fs f t c).2.1
  failure : ∀ fs' t', PackageSaves fs f t c fs' t' →
    (packageSaveIndex fs' f.index t').2 ≠ 0 → (packageExec fs f t c).2.2 ≠ 0

theorem fsReachable_unpacked {fs : FsState} (hfs : FsReachable fs) (f : PackageFaults)
    (name : Option CString) : FsReachable (packageUnpacked fs f name) := by
  have hstart : (packageManifestText fs f name).1 = fs := by
    cases name with
    | none => rfl
    | some name =>
      simp only [packageManifestText]
      split
      · rfl
      · exact (fsReadFile_fst fs f.manifest _ _).trans
          (FsState.withFaults_self hfs.inv.faults_eq)
  rw [packageUnpacked, hstart]
  exact runUntil_invariant (P := FsReachable) (C := fun _ => True)
    (fun _ _ hs _ => .next hs trivial) _ hfs fun _ _ => trivial

theorem PackageSaves.reachable {fs fs' : FsState} {f : PackageFaults} {t t' : PackageTable}
    {c : PackageCall} (hfs : FsReachable fs) (h : PackageSaves fs f t c fs' t') :
    FsReachable fs' := by
  cases c with
  | install name =>
    cases name with
    | none => exact h.elim
    | some name =>
      obtain ⟨rfl, -⟩ := h
      exact fsReachable_unpacked hfs f _
  | remove name =>
    obtain ⟨rfl, -⟩ := h
    exact hfs

/-- Behind the calls of the shell the names are all that counts. -/
theorem PackageSaves.indexOk_iff {fs fs' : FsState} {f : PackageFaults} {t t' : PackageTable}
    {c : PackageCall} (ht : PackageReachable t) (hc : c.OneLine)
    (h : PackageSaves fs f t c fs' t') :
    PackageIndexOk fs' f.index t' ↔
      FsAccepts fs' f.index packageIndexFile (packageIndexText t').length ∧
        ∀ k ∈ packageNameSet t', '|'.toUInt8 ∉ k := by
  rw [packageIndexOk_iff, packageNameSet_load_iff (packageLines_saves ht.lines hc h)]

/-- A package call is as good as its report exactly if it is turned down before it comes to the
index, or the index can be written then and its lines name the packages of the table. -/
theorem packageReports_iff {fs : FsState} (hfs : FsReachable fs) (f : PackageFaults)
    (t : PackageTable) (c : PackageCall) :
    PackageReports fs f t c ↔
      ∀ fs' t', PackageSaves fs f t c fs' t' → PackageIndexOk fs' f.index t' := by
  constructor
  · intro h fs' t' hsaves
    have hzero : (packageExec fs f t c).2.2 = 0 := by rw [hsaves.eq]
    have hsave : (packageSaveIndex fs' f.index t').2 = 0 := by
      by_contra hfailed
      exact h.failure fs' t' hsaves hfailed hzero
    have hreach := hsaves.reachable hfs
    have hnames := h.persisted hzero
    rw [hsaves.eq, packageInit_saveIndex hreach hsave] at hnames
    exact packageIndexOk_iff.mpr ⟨(fsWriteFile_zero_iff_accepts hreach.inv).mp hsave, hnames⟩
  · intro h
    rcases packageExec_cases fs f t c with ⟨fs', t', hsaves⟩ | hsame
    · have hok := h fs' t' hsaves
      have hreach := hsaves.reachable hfs
      have hsave : (packageSaveIndex fs' f.index t').2 = 0 :=
        (fsWriteFile_zero_iff_accepts hreach.inv).mpr hok.accepts
      refine ⟨fun _ => ?_, fun fs'' t'' hsaves' hfailed => ?_⟩
      · rw [hsaves.eq, packageInit_saveIndex hreach hsave]
        exact (packageIndexOk_iff.mp hok).2
      · have hok' := h fs'' t'' hsaves'
        exact absurd ((fsWriteFile_zero_iff_accepts (hsaves'.reachable hfs).inv).mpr
          hok'.accepts) hfailed
    · have hne : ¬ (packageExec fs f t c).2.2 = 0 := by
        rw [hsame]
        exact failed_ne_zero
      exact ⟨fun h => absurd h hne, fun _ _ _ _ => hne⟩

theorem packageReports_twice :
    PackageReports packageTwiceDisk packageNoFaults (packageInit packageTwiceDisk .none).2
        (.install (some packageManifestName)) ↔
      ∀ fs' t', PackageSaves packageTwiceDisk packageNoFaults
        (packageInit packageTwiceDisk .none).2 (.install (some packageManifestName)) fs' t' →
          PackageIndexOk fs' packageNoFaults.index t' :=
  packageReports_iff (.next (.start (fsFresh_blankDisk (by decide))) trivial) _ _ _

/-- The manifest "PKG1", "package=p" and the one with "package=p|q". -/
def packageShortManifest : List UInt8 :=
  [80, 75, 71, 49, 10, 112, 97, 99, 107, 97, 103, 101, 61, 112, 10]

def packageBarManifest : List UInt8 :=
  [80, 75, 71, 49, 10, 112, 97, 99, 107, 97, 103, 101, 61, 112, 124, 113, 10]

/-- The first one takes up the only data sector of its disk. -/
def packageFullDisk : FsState :=
  fsStep (fsBlankDisk 4099) (.none, .writeFile (some packageManifestName) (some packageShortManifest))

def packageBarDisk : FsState :=
  fsStep (fsBlankDisk 5000) (.none, .writeFile (some packageManifestName) (some packageBarManifest))

/-- A package is installed on a full disk without an index, and one whose name has a separator
comes back under another name. -/
theorem not_packageReports :
    (FsReachable packageFullDisk ∧ PackageReachable (packageInit packageFullDisk .none).2 ∧
      ¬ PackageReports packageFullDisk packageNoFaults (packageInit packageFullDisk .none).2
        (.install (some packageManifestName))) ∧
    (FsReachable packageBarDisk ∧ PackageReachable (packageInit packageBarDisk .none).2 ∧
      ¬ PackageReports packageBarDisk packageNoFaults (packageInit packageBarDisk .none).2
        (.install (some packageManifestName))) := by
  have hfull : FsReachable packageFullDisk :=
    .next (.start (fsFresh_blankDisk (by decide))) trivial
  have hbar : FsReachable packageBarDisk :=
    .next (.start (fsFresh_blankDisk (by decide))) trivial
  refine ⟨⟨hfull, .start ⟨_, _, rfl⟩, fun h => ?_⟩, ⟨hbar, .start ⟨_, _, rfl⟩, fun h => ?_⟩⟩
  · have hzero : (packageInstall packageFullDisk packageNoFaults
        (packageInit packageFullDisk .none).2 (some packageManifestName)).2.2 = 0 := by
      decide +kernel
    have hfailed : (packageSaveIndex
        (packageUnpacked packageFullDisk packageNoFaults (some packageManifestName)) .none
        (packageInstall packageFullDisk packageNoFaults (packageInit packageFullDisk .none).2
          (some packageManifestName)).2.1).2 ≠ 0 := by decide +kernel
    obtain ⟨text, m, t', hinstalls⟩ := packageInstalls_of_zero hzero
    rw [hinstalls.eq] at hfailed
    exact h.failure _ t' ⟨rfl, text, m, hinstalls⟩ hfailed hzero
  · have hzero : (packageInstall packageBarDisk packageNoFaults
        (packageInit packageBarDisk .none).2 (some packageManifestName)).2.2 = 0 := by
      decide +kernel
    have hname : [112, 124, 113] ∈ packageNameSet (packageInstall packageBarDisk packageNoFaults
        (packageInit packageBarDisk .none).2 (some packageManifestName)).2.1 :=
      ⟨⟨[112, 124, 113], [], [109], 0⟩, by decide +kernel, rfl⟩
    have hnames := h.persisted hzero
    simp only [packageExec] at hnames
    rw [← hnames] at hname
    obtain ⟨r, hr, hrname⟩ := hname
    exact (packageLoaded_init _ _ r hr).1 (hrname ▸ (by decide))

end AcharyaOS.Package
