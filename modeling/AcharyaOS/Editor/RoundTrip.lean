import AcharyaOS.Editor.Loading
import AcharyaOS.Editor.Unsaved
import AcharyaOS.Fs.Store

/-!
# Opening and saving

What `s` and `wq` write over a file that was opened and not edited.  A file that cannot be
read is taken for a new one and overwritten by a newline; of one that can be read, the lines
behind the 32nd and the characters behind the 63rd of a line are gone.
-/

namespace AcharyaOS.Editor

open Foundation Foundation.Run Disk Fs

/-- The content under `path` is `text`, up to one final newline. -/
def SavedAs (fs : FsState) (path : CString) (text : List UInt8) : Prop :=
  ∃ content, fsContents fs path = some content ∧ SameText content text

/-- The commands that edit the buffer. -/
def EditorCommand.isEdit : EditorCommand → Bool
  | .insert _ => true
  | .append _ => true
  | .delete => true
  | _ => false

/-! ## Saving -/

theorem editorSaveRows_eq (rows : List (CField editorLineMax)) : ∀ buffer : List UInt8,
    buffer.length < editorFileMax →
      editorSaveRows buffer rows =
        (buffer ++ joinLines (rows.map CField.text)).take (editorFileMax - 1) := by
  induction rows with
  | nil =>
      intro buffer h
      rw [editorSaveRows, List.map_nil, joinLines_nil, List.append_nil,
        List.take_of_length_le (Nat.le_sub_one_of_lt h)]
  | cons row rows ih =>
      intro buffer h
      rw [editorSaveRows, appendText_take _ _ h, List.map_cons, joinLines_cons]
      set line := buffer ++ cText row.bytes with hline
      have hshape : buffer ++ (row.text ++ '\n'.toUInt8 :: joinLines (rows.map CField.text)) =
          line ++ '\n'.toUInt8 :: joinLines (rows.map CField.text) := by
        rw [hline, List.append_assoc]
        rfl
      rw [hshape]
      by_cases hroom : (line.take (editorFileMax - 1)).length + 1 < editorFileMax
      · rw [List.length_take] at hroom
        have htake : line.take (editorFileMax - 1) = line := List.take_of_length_le (by omega)
        rw [htake, if_pos (by omega), ih, List.append_assoc, List.singleton_append]
        rw [List.length_append, List.length_singleton]
        omega
      · have hfull : (line.take (editorFileMax - 1)).length = editorFileMax - 1 := by
          rw [List.length_take] at hroom ⊢
          omega
        have hle : editorFileMax - 1 ≤ line.length := by
          rw [List.length_take] at hfull
          omega
        rw [if_neg hroom, ih, List.take_append_of_le_length hfull.ge,
          List.take_append_of_le_length hle, List.take_take, Nat.min_self]
        rw [hfull]
        decide

theorem editorSaveText_eq (ed : EditorState) :
    editorSaveText ed =
      if ed.texts = [] then ['\n'.toUInt8]
      else (joinLines ed.texts).take (editorFileMax - 1) := by
  have hrows : editorSaveRows [] ed.rows = (joinLines ed.texts).take (editorFileMax - 1) := by
    have h := editorSaveRows_eq ed.rows [] (by decide)
    rw [List.nil_append] at h
    exact h
  show (if (editorSaveRows [] ed.rows).length == 0 then
      editorSaveRows [] ed.rows ++ ['\n'.toUInt8] else editorSaveRows [] ed.rows) = _
  rw [hrows]
  by_cases hnil : ed.texts = []
  · rw [if_pos hnil, hnil, joinLines_nil, List.take_nil]
    rfl
  · obtain ⟨a, ha⟩ := joinLines_eq_concat hnil
    have hne : (joinLines ed.texts).take (editorFileMax - 1) ≠ [] := by
      rw [ne_eq, List.take_eq_nil_iff, ha]
      exact fun h => h.elim (by decide) (by simp)
    rw [if_neg hnil, if_neg]
    simpa using hne

/-- What was opened and is saved is the text exactly when the rows have room for it. -/
theorem sameText_save_iff {text : List UInt8} (htext : text.length ≤ editorFileMax) :
    SameText ((joinLines (openedLines text)).take (editorFileMax - 1)) text ↔
      FitsLines (editorLineMax - 1) editorMaxLines text := by
  obtain ⟨hcount, hlines⟩ := openedLines_bounds text
  constructor
  · intro hsame
    have hpre : (joinLines (openedLines text)).take (editorFileMax - 1) <+:
        joinLines (openedLines text) := List.take_prefix _ _
    have hboth := fitsLines_of_cut hlines hcount hpre
    rcases hsame with heq | heq | heq
    · rw [← heq]
      exact hboth.1
    · have hshort : text <+: joinLines (openedLines text) := by
        apply List.IsPrefix.trans _ hpre
        rw [heq]
        exact List.prefix_append _ _
      exact (fitsLines_of_cut hlines hcount hshort).1
    · rw [heq]
      exact hboth.2
  · intro hfits
    have hsame := sameText_openedLines hfits
    obtain ⟨b, hb⟩ := joinLines_eq_concat (openedLines_ne_nil text)
    have hlen := length_joinLines_le fun line hline => (hlines line hline).2
    have hmul : (openedLines text).length * (editorLineMax - 1 + 1) ≤ editorFileMax :=
      Nat.mul_le_mul_right _ hcount
    rw [hb, List.length_append, List.length_singleton] at hlen
    rw [hb] at hsame ⊢
    exact hsame.take_of_le (by omega) htext

/-! ## Opening -/

/-- The file is read, and the rows have room for all of its lines. -/
def OpensWhole (fs : FsState) (f : Faults) (path : CString) (data : List UInt8) : Prop :=
  data.length ≤ editorFileMax ∧ FsAnswers fs f path ∧
    FitsLines (editorLineMax - 1) editorMaxLines (withoutCr data)

/-- What an opened session keeps until it edits. -/
structure Opened (lines : List (List UInt8)) (path : CString) (s : EditorSession) : Prop where
  texts_eq : s.ed.texts = lines
  name_eq : CString.read s.ed.path.bytes = path
  inv : FsInv s.fs

section Opening

variable {fs : FsState} {f : Faults} {path : CString} {data : List UInt8}

theorem path_editorFill (ed : EditorState) (bytes : List UInt8) :
    (editorFill ed bytes).path = ed.path := by
  unfold editorFill EditorPoint.finish
  split
  · split <;> rfl
  · rfl

theorem name_editorReset (h : path.length < fsNameMax) :
    CString.read (editorReset path).path.bytes = path := by
  apply CString.ext
  show ((CField.zero fsNameMax (by decide)).copy path).text = path.bytes
  exact CField.text_copy_of_lt _ h

theorem length_of_stored (hinv : FsInv fs) (hdata : fsContents fs path = some data) :
    path.length < fsNameMax := by
  obtain ⟨i, hfind, -⟩ := length_of_fsContents hinv hdata
  by_contra hlong
  rw [fsFindEntry_of_long _ (Nat.le_of_not_lt hlong)] at hfind
  cases hfind

theorem editorOpen_eq (h : path.bytes ≠ []) :
    editorOpen fs f (some path) =
      ⟨(editorLoad fs f (editorReset path)).1, (editorLoad fs f (editorReset path)).2, true⟩ := by
  have hfalse : ¬ (path.bytes == []) = true := by simpa using h
  exact if_neg hfalse

theorem opened_editorOpen (hinv : FsInv fs) (hne : path.bytes ≠ [])
    (hdata : fsContents fs path = some data) (hnul : 0 ∉ data) :
    (data.length ≤ editorFileMax ∧ FsAnswers fs f path →
      Opened (openedLines (withoutCr data)) path (editorOpen fs f (some path))) ∧
    (¬ (data.length ≤ editorFileMax ∧ FsAnswers fs f path) →
      Opened [] path (editorOpen fs f (some path))) := by
  have hname := name_editorReset (length_of_stored hinv hdata)
  have hfst := fsReadFile_fst fs f (some path) editorFileMax
  rw [FsState.withFaults_self hinv.faults_eq] at hfst
  have hsize : editorFileMax ≤ 255 * fsBlockSize := by decide
  rw [editorOpen_eq hne]
  unfold editorLoad
  rw [hname]
  constructor
  · intro hread
    obtain ⟨bytes, hbytes, htake⟩ := fsReadFile_of_answers hinv hdata hread.1
      (hread.1.trans hsize) hread.2
    simp only [hbytes, htake, hfst]
    exact ⟨texts_editorFill _ hnul, by rw [path_editorFill, hname], hinv⟩
  · intro hread
    simp only [fsReadFile_of_no_answer hinv hdata hsize hread, hfst]
    exact ⟨rfl, hname, hinv⟩

end Opening

/-! ## Sessions -/

section Sessions

variable {s : EditorSession} {lines : List (List UInt8)} {path : CString}

theorem path_editorExec (s : EditorSession) (f : Faults) (c : EditorCommand) :
    (editorExec s f c).ed.path = s.ed.path := by
  have hinsert : ∀ ed text, (editorInsertLine ed text).path = ed.path := by
    intro ed text
    unfold editorInsertLine
    split <;> rfl
  rw [editorExec_ed]
  cases c with
  | insert text => exact hinsert _ _
  | append text =>
      simp only [editorAppendLine]
      split
      · exact hinsert _ _
      · rfl
  | delete =>
      simp only [editorDeleteLine]
      split <;> rfl
  | lineDown =>
      simp only [editorLineDown]
      split <;> rfl
  | lineUp =>
      simp only [editorLineUp]
      split <;> rfl
  | _ => rfl

theorem fsInv_editorExec (h : FsInv s.fs) (f : Faults) (c : EditorCommand) :
    FsInv (editorExec s f c).fs := by
  have hsave : FsInv (editorSave s.fs f s.ed).1 := h.step (f, _)
  cases c with
  | save => exact hsave
  | saveQuit =>
      simp only [editorExec]
      split <;> exact hsave
  | quit =>
      simp only [editorExec]
      split <;> exact h
  | _ => exact h

theorem Opened.step (h : Opened lines path s) {e : Faults × CString}
    (hview : (editorParse e.2).isEdit = false) : Opened lines path (editorStep s e) := by
  unfold editorStep
  by_cases hrun : s.running = true
  · have hedits : editorEdits s.ed (editorParse e.2) = false := by
      cases hparse : editorParse e.2 with
      | insert text =>
          rw [hparse] at hview
          cases hview
      | append text =>
          rw [hparse] at hview
          cases hview
      | delete =>
          rw [hparse] at hview
          cases hview
      | _ => rfl
    rw [if_pos hrun]
    exact
      { texts_eq := (texts_of_not_editorEdits hedits).1.trans h.texts_eq
        name_eq := by rw [path_editorExec, h.name_eq]
        inv := fsInv_editorExec h.inv _ _ }
  · rw [if_neg hrun]
    exact h

theorem Opened.run (h : Opened lines path s) {events : List (Faults × CString)}
    (hviews : ∀ e ∈ events, (editorParse e.2).isEdit = false) :
    Opened lines path (runSteps editorStep s events) := by
  apply AllStates.last
  apply AllSteps.allStates (I := Opened lines path)
  · exact fun s e hs hview => hs.step hview
  · exact fun _ hs => hs
  · exact h
  · exact (allSteps_iff_forall_mem events s).mpr hviews

theorem Opened.save (h : Opened lines path s) (hlen : path.length < fsNameMax) {g : Faults}
    (hok : (editorSave s.fs g s.ed).2 = 0) :
    fsContents (editorSave s.fs g s.ed).1 path = some (editorSaveText s.ed) := by
  unfold editorSave at hok ⊢
  rw [h.name_eq] at hok ⊢
  obtain ⟨i, hholds, -, hfind⟩ := fsHolds_of_written h.inv hok
  have hcontents := fsContents_of_find (hfind hlen)
  rw [hholds.data_eq] at hcontents
  exact hcontents

theorem editorStep_fs {g : Faults} {line : CString} (hrun : s.running = true)
    (hsave : editorParse line = .save ∨ editorParse line = .saveQuit) :
    (editorStep s (g, line)).fs = (editorSave s.fs g s.ed).1 := by
  unfold editorStep
  rw [if_pos hrun]
  rcases hsave with hsave | hsave
  · rw [hsave]
    rfl
  · rw [hsave]
    simp only [editorExec]
    split <;> rfl

end Sessions

/-- The files that a save of an empty buffer leaves as they were. -/
def blankTexts : List (List UInt8) :=
  [[], ['\n'.toUInt8], ['\n'.toUInt8, '\n'.toUInt8]]

theorem sameText_newline_iff (text : List UInt8) :
    SameText ['\n'.toUInt8] text ↔ text ∈ blankTexts := by
  unfold SameText blankTexts
  rw [List.mem_cons, List.mem_cons, List.mem_singleton]
  constructor
  · intro h
    rcases h with heq | heq | heq
    · exact .inr (.inl heq.symm)
    · left
      exact List.append_cancel_right heq.symm
    · exact .inr (.inr heq)
  · intro h
    rcases h with heq | heq | heq
    · right
      left
      rw [heq, List.nil_append]
    · exact .inl heq.symm
    · exact .inr (.inr heq)

theorem fitsLines_of_blank {text : List UInt8} (h : text ∈ blankTexts) :
    FitsLines (editorLineMax - 1) editorMaxLines text := by
  have hlines : ∀ line ∈ [([] : List UInt8)], '\n'.toUInt8 ∉ line ∧
      line.length ≤ editorLineMax - 1 := by
    rw [List.forall_mem_singleton]
    exact ⟨List.not_mem_nil, Nat.zero_le _⟩
  have hcount : [([] : List UInt8)].length ≤ editorMaxLines := by decide
  have hnone := fitsLines_of_cut hlines hcount List.nil_prefix
  have hone := fitsLines_of_cut hlines hcount (List.prefix_refl _)
  unfold blankTexts at h
  rw [List.mem_cons, List.mem_cons, List.mem_singleton] at h
  rcases h with rfl | rfl | rfl
  · exact hnone.1
  · exact hone.1
  · exact hone.2

theorem savedAs_iff {fs : FsState} {path : CString} {content text : List UInt8}
    (h : fsContents fs path = some content) : SavedAs fs path text ↔ SameText content text := by
  unfold SavedAs
  rw [h]
  simp

theorem runSteps_of_over {s : EditorSession} (h : s.running = false)
    (events : List (Faults × CString)) : runSteps editorStep s events = s := by
  induction events with
  | nil => rfl
  | cons e events ih =>
      have hstep : editorStep s e = s := by
        unfold editorStep
        rw [h, if_neg (by decide)]
      show runSteps editorStep (editorStep s e) events = s
      rw [hstep, ih]

/-- In every reachable state of the filesystem, a file without NUL that is opened and saved
without being edited keeps its text exactly when it is read, has at most 32 lines of at most
63 characters, or is blank. -/
theorem opened_saved_iff {fs : FsState} (hfs : FsReachable fs) {path : CString}
    {data : List UInt8} (hdata : fsContents fs path = some data) (hnul : 0 ∉ data) (f : Faults)
    {events : List (Faults × CString)}
    (hviews : ∀ e ∈ events, (editorParse e.2).isEdit = false) {g : Faults} {line : CString}
    (hsave : editorParse line = .save ∨ editorParse line = .saveQuit)
    (hrun : (runSteps editorStep (editorOpen fs f (some path)) events).running = true)
    (hok : (editorSave (runSteps editorStep (editorOpen fs f (some path)) events).fs g
      (runSteps editorStep (editorOpen fs f (some path)) events).ed).2 = 0) :
    SavedAs (editorStep (runSteps editorStep (editorOpen fs f (some path)) events) (g, line)).fs
        path (withoutCr data) ↔
      OpensWhole fs f path data ∨ withoutCr data ∈ blankTexts := by
  have hlen := length_of_stored hfs.inv hdata
  have hne : path.bytes ≠ [] := by
    intro hnil
    have hover : (editorOpen fs f (some path)).running = false := by
      simp [editorOpen, hnil]
    rw [runSteps_of_over hover, hover] at hrun
    cases hrun
  obtain ⟨hwhole, hblank⟩ := opened_editorOpen (f := f) hfs.inv hne hdata hnul
  rw [editorStep_fs hrun hsave]
  unfold OpensWhole
  by_cases hread : data.length ≤ editorFileMax ∧ FsAnswers fs f path
  · have hopened := (hwhole hread).run hviews
    have hshort : (withoutCr data).length ≤ editorFileMax :=
      (List.length_filter_le _ _).trans hread.1
    rw [savedAs_iff (hopened.save hlen hok), editorSaveText_eq, hopened.texts_eq,
      if_neg (openedLines_ne_nil _), sameText_save_iff hshort]
    constructor
    · exact fun hfits => .inl ⟨hread.1, hread.2, hfits⟩
    · exact fun hcond => hcond.elim (fun h => h.2.2) fitsLines_of_blank
  · have hopened := (hblank hread).run hviews
    rw [savedAs_iff (hopened.save hlen hok), editorSaveText_eq, hopened.texts_eq, if_pos rfl,
      sameText_newline_iff]
    constructor
    · exact .inr
    · exact fun hcond => hcond.resolve_left fun h => hread ⟨h.1, h.2.1⟩

/-! ### A short file and a long line -/

/-- A disk on which "a" holds `data`. -/
def diskWith (data : List UInt8) : FsState :=
  fsStep (fsBlankDisk 5000) (.none, .writeFile (some fsNameA) (some data))

theorem fsReachable_diskWith (data : List UInt8) : FsReachable (diskWith data) :=
  .next (.start (fsFresh_blankDisk (by decide))) trivial

/-- "hi" -/
def shortText : List UInt8 := ['h'.toUInt8, 'i'.toUInt8]

theorem savedAs_shortText :
    SavedAs (editorStep (runSteps editorStep (editorOpen (diskWith shortText) .none
      (some fsNameA)) [(.none, lineUpWord)]) (.none, lineSaveWord)).fs fsNameA shortText := by
  have hsucceeds : FsSucceeds (fsBlankDisk 5000)
      (.none, .writeFile (some fsNameA) (some shortText)) :=
    ⟨by decide +kernel, by decide +kernel⟩
  have hsynced : FsSynced (diskWith shortText) :=
    (FsSynced.of_fresh (fsFresh_blankDisk (by decide))).step hsucceeds
  have hdata : fsContents (diskWith shortText) fsNameA = some shortText := by decide +kernel
  have hviews : ∀ e ∈ [(Faults.none, lineUpWord)], (editorParse e.2).isEdit = false := by
    rw [List.forall_mem_singleton]
    decide +kernel
  have hsave : editorParse lineSaveWord = .save := by decide +kernel
  have hrun : (runSteps editorStep (editorOpen (diskWith shortText) .none (some fsNameA))
      [(Faults.none, lineUpWord)]).running = true := by decide +kernel
  have hok : (editorSave (runSteps editorStep (editorOpen (diskWith shortText) .none
      (some fsNameA)) [(Faults.none, lineUpWord)]).fs .none
      (runSteps editorStep (editorOpen (diskWith shortText) .none (some fsNameA))
        [(Faults.none, lineUpWord)]).ed).2 = 0 := by decide +kernel
  have hfits : FitsLines (editorLineMax - 1) editorMaxLines (withoutCr shortText) :=
    fitsLines_of_line (by decide) (by decide)
  have hiff := opened_saved_iff (fsReachable_diskWith shortText) hdata (by decide) .none hviews
    (.inl hsave) hrun hok
  exact hiff.mpr (.inl ⟨by decide, hsynced.answers rfl fsNameA, hfits⟩)

/-- A line of 64 characters. -/
def longLine : List UInt8 := List.replicate editorLineMax 'x'.toUInt8

/-- The last character of the line is lost. -/
theorem not_savedAs_longLine :
    ¬ ∀ (fs : FsState) (path : CString) (data : List UInt8) (f g : Faults) (line : CString),
      FsReachable fs → fsContents fs path = some data → 0 ∉ data →
      (editorParse line = .save ∨ editorParse line = .saveQuit) →
      (editorOpen fs f (some path)).running = true →
      (editorSave (editorOpen fs f (some path)).fs g (editorOpen fs f (some path)).ed).2 = 0 →
      SavedAs (editorStep (editorOpen fs f (some path)) (g, line)).fs path (withoutCr data) := by
  intro h
  have hsaved := h (diskWith longLine) fsNameA longLine .none .none lineSaveWord
    (fsReachable_diskWith longLine) (by decide +kernel) (by decide) (.inl (by decide +kernel))
    (by decide +kernel) (by decide +kernel)
  have hcontent : fsContents (editorStep (editorOpen (diskWith longLine) .none (some fsNameA))
      (.none, lineSaveWord)).fs fsNameA =
        some (List.replicate (editorLineMax - 1) 'x'.toUInt8 ++ ['\n'.toUInt8]) := by
    decide +kernel
  rw [savedAs_iff hcontent] at hsaved
  revert hsaved
  decide +kernel

end AcharyaOS.Editor
