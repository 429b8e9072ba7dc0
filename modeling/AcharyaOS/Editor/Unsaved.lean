import AcharyaOS.Editor.Buffer

/-!
# Unsaved work

`q` looks at the dirty flag alone.  The flag is set by everything that edits the buffer, and
`s` clears it without looking at the result of `editor_save`: work is lost where an `s` fails
after an edit, and nowhere else.
-/

namespace AcharyaOS.Editor

open Foundation Foundation.Run Disk Fs

/-- A session with what is known of its past: the lines last loaded or last saved, and
whether an edit happened since. -/
structure EditorHistory where
  session : EditorSession
  kept : List (List UInt8)
  edited : Bool

/-- The command edits the buffer. -/
def editorEdits (ed : EditorState) : EditorCommand → Bool
  | .insert _ => ed.lineCount < editorMaxLines
  | .append _ => ed.lineCount < editorMaxLines
  | .delete => ed.lineCount ≠ 0
  | _ => false

/-- The command saves, and `fs_write_file` succeeds. -/
def editorSaves (s : EditorSession) (f : Faults) : EditorCommand → Bool
  | .save => (editorSave s.fs f s.ed).2 == 0
  | .saveQuit => (editorSave s.fs f s.ed).2 == 0
  | _ => false

/-- What is known once the command has run. -/
def EditorHistory.exec (h : EditorHistory) (f : Faults) (c : EditorCommand) : EditorHistory :=
  if editorSaves h.session f c then ⟨editorExec h.session f c, h.session.ed.texts, false⟩
  else ⟨editorExec h.session f c, h.kept, h.edited || editorEdits h.session.ed c⟩

def EditorHistory.step (h : EditorHistory) (e : Faults × CString) : EditorHistory :=
  if h.session.running then h.exec e.1 (editorParse e.2) else h

/-- A session just opened. -/
def historyOpen (fs : FsState) (f : Faults) (path : Option CString) : EditorHistory :=
  ⟨editorOpen fs f path, (editorOpen fs f path).ed.texts, false⟩

/-- A buffer that is not dirty holds what is in the file. -/
def CleanIsKept (h : EditorHistory) : Prop :=
  h.session.ed.dirty = false → h.session.ed.texts = h.kept

/-- A buffer that is not dirty has not been edited. -/
def CleanIsUnedited (h : EditorHistory) : Prop :=
  h.session.ed.dirty = false → h.edited = false

/-- A `q` that ends the session loses nothing. -/
def QuitKeeps (h : EditorHistory) (e : Faults × CString) : Prop :=
  h.session.running = true → editorParse e.2 = .quit →
    (h.step e).session.running = false → (h.step e).session.ed.texts = (h.step e).kept

instance (h : EditorHistory) (e : Faults × CString) : Decidable (QuitKeeps h e) :=
  inferInstanceAs (Decidable (_ → _ → _ → _))

/-- The line typed is an `s` and its write fails. -/
def FailedSave (h : EditorHistory) (e : Faults × CString) : Prop :=
  h.session.running = true ∧ editorParse e.2 = .save ∧
    (editorSave h.session.fs e.1 h.session.ed).2 ≠ 0

/-! ## One command -/

section Commands

variable {s : EditorSession} {f : Faults} {c : EditorCommand}

theorem dirty_of_editorEdits (h : editorEdits s.ed c = true) :
    (editorExec s f c).ed.dirty = true := by
  rw [editorExec_ed]
  unfold editorEdits at h
  cases c with
  | insert text =>
      have hroom : s.ed.lineCount < editorMaxLines := of_decide_eq_true h
      simp only [editorInsertLine]
      rw [dif_pos hroom]
  | append text =>
      have hroom : s.ed.lineCount < editorMaxLines := of_decide_eq_true h
      simp only [editorAppendLine, editorInsertLine]
      rw [if_pos hroom, dif_pos hroom]
  | delete =>
      have hne : s.ed.lineCount ≠ 0 := of_decide_eq_true h
      simp only [editorDeleteLine]
      rw [dif_neg hne]
  | _ => cases h

/-- Commands that do not edit leave the lines alone, and all of them but `s` the flag. -/
theorem texts_of_not_editorEdits (h : editorEdits s.ed c = false) :
    (editorExec s f c).ed.texts = s.ed.texts ∧
      (c ≠ .save → (editorExec s f c).ed.dirty = s.ed.dirty) := by
  rw [editorExec_ed]
  unfold editorEdits at h
  cases c with
  | insert text =>
      have hfull : ¬ s.ed.lineCount < editorMaxLines := of_decide_eq_false h
      simp only [editorInsertLine]
      rw [dif_neg hfull]
      exact ⟨rfl, fun _ => rfl⟩
  | append text =>
      have hfull : ¬ s.ed.lineCount < editorMaxLines := of_decide_eq_false h
      simp only [editorAppendLine]
      rw [if_neg hfull]
      exact ⟨rfl, fun _ => rfl⟩
  | delete =>
      have hzero : s.ed.lineCount = 0 := not_not.mp (of_decide_eq_false h)
      simp only [editorDeleteLine]
      rw [dif_pos hzero]
      exact ⟨rfl, fun _ => rfl⟩
  | lineDown =>
      simp only [editorLineDown]
      split <;> exact ⟨rfl, fun _ => rfl⟩
  | lineUp =>
      simp only [editorLineUp]
      split <;> exact ⟨rfl, fun _ => rfl⟩
  | save => exact ⟨rfl, fun h => absurd rfl h⟩
  | _ => exact ⟨rfl, fun _ => rfl⟩

theorem editorEdits_of_saves (h : editorSaves s f c = true) : editorEdits s.ed c = false := by
  cases c with
  | save => rfl
  | saveQuit => rfl
  | _ => cases h

end Commands

/-! ## One line -/

section Lines

variable {h : EditorHistory} {e : Faults × CString}

theorem session_step (h : EditorHistory) (e : Faults × CString) :
    (h.step e).session = editorStep h.session e := by
  unfold EditorHistory.step EditorHistory.exec editorStep
  split
  · split <;> rfl
  · rfl

theorem failedSave_iff (hrun : h.session.running = true) :
    FailedSave h e ↔
      editorParse e.2 = .save ∧ editorSaves h.session e.1 (editorParse e.2) = false := by
  unfold FailedSave
  constructor
  · intro hfail
    refine ⟨hfail.2.1, ?_⟩
    rw [hfail.2.1]
    exact beq_eq_false_iff_ne.mpr hfail.2.2
  · intro hfail
    refine ⟨hrun, hfail.1, ?_⟩
    rw [hfail.1] at hfail
    exact beq_eq_false_iff_ne.mp hfail.2

/-- A property of a clean buffer that the last save or load establishes and that lines
without edits keep stays true exactly where no failing `s` clears the flag without it. -/
theorem clean_step_iff {P : EditorHistory → Prop}
    (hsaved : ∀ t : EditorHistory, t.session.ed.texts = t.kept → t.edited = false → P t)
    (hsame : ∀ t t' : EditorHistory, t'.session.ed.texts = t.session.ed.texts →
      t'.kept = t.kept → t'.edited = t.edited → (P t' ↔ P t))
    (hclean : h.session.ed.dirty = false → P h) :
    ((h.step e).session.ed.dirty = false → P (h.step e)) ↔ (FailedSave h e → P h) := by
  unfold EditorHistory.step
  by_cases hrun : h.session.running = true
  · rw [if_pos hrun, failedSave_iff hrun]
    unfold EditorHistory.exec
    cases hsaves : editorSaves h.session e.1 (editorParse e.2) with
    | true =>
        rw [if_pos rfl]
        refine iff_of_true (fun _ => hsaved _ ?_ rfl) ?_
        · exact (texts_of_not_editorEdits (editorEdits_of_saves hsaves)).1
        · exact fun hfail => absurd hfail.2 (by decide)
    | false =>
        rw [if_neg (by decide)]
        cases hedits : editorEdits h.session.ed (editorParse e.2) with
        | true =>
            refine iff_of_true (fun hdirty => ?_) (fun hfail => ?_)
            · rw [dirty_of_editorEdits hedits] at hdirty
              cases hdirty
            · rw [hfail.1] at hedits
              cases hedits
        | false =>
            obtain ⟨htexts, hdirty⟩ := texts_of_not_editorEdits (f := e.1) hedits
            have hP := hsame h ⟨editorExec h.session e.1 (editorParse e.2), h.kept,
              h.edited || false⟩ htexts rfl (Bool.or_false _)
            rw [hP]
            by_cases hsave : editorParse e.2 = .save
            · have hcleared : (editorExec h.session e.1 (editorParse e.2)).ed.dirty = false := by
                rw [hsave, editorExec_ed]
              exact ⟨fun hP _ => hP hcleared, fun hP _ => hP ⟨hsave, rfl⟩⟩
            · rw [hdirty hsave]
              exact iff_of_true hclean fun hfail => absurd hfail.1 hsave
  · rw [if_neg hrun]
    exact iff_of_true hclean fun hfail => absurd hfail.1 hrun

theorem cleanIsKept_step_iff (hclean : CleanIsKept h) :
    CleanIsKept (h.step e) ↔ (FailedSave h e → h.session.ed.texts = h.kept) := by
  apply clean_step_iff (P := fun t => t.session.ed.texts = t.kept)
  · exact fun _ htexts _ => htexts
  · intro t t' htexts hkept _
    rw [htexts, hkept]
  · exact hclean

theorem cleanIsUnedited_step_iff (hclean : CleanIsUnedited h) :
    CleanIsUnedited (h.step e) ↔ (FailedSave h e → h.edited = false) := by
  apply clean_step_iff (P := fun t => t.edited = false)
  · exact fun _ _ hedited => hedited
  · intro t t' _ _ hedited
    rw [hedited]
  · exact hclean

theorem quitKeeps_of_cleanIsKept (hclean : CleanIsKept h) : QuitKeeps h e := by
  intro hrun hquit hover
  rw [session_step, editorStep, if_pos hrun, hquit] at hover
  cases hdirty : h.session.ed.dirty with
  | true =>
      simp only [editorExec, hdirty, if_true, hrun] at hover
      cases hover
  | false =>
      unfold EditorHistory.step EditorHistory.exec
      rw [if_pos hrun, hquit, if_neg (by simp [editorSaves])]
      simp only [editorExec_ed]
      exact hclean hdirty

end Lines

/-! ## Sessions -/

/-- In every session, a clean buffer holds what was last loaded or saved, so that `q` loses
nothing, exactly when no `s` fails while the lines differ from that; and a clean buffer has
not been edited since exactly when no `s` fails after an edit. -/
theorem unsaved_run_iff (fs : FsState) (f : Faults) (path : Option CString)
    (events : List (Faults × CString)) :
    (AllStates EditorHistory.step CleanIsKept (historyOpen fs f path) events ∧
        AllSteps EditorHistory.step QuitKeeps (historyOpen fs f path) events ↔
      AllSteps EditorHistory.step (fun h e => FailedSave h e → h.session.ed.texts = h.kept)
        (historyOpen fs f path) events) ∧
    (AllStates EditorHistory.step CleanIsUnedited (historyOpen fs f path) events ↔
      AllSteps EditorHistory.step (fun h e => FailedSave h e → h.edited = false)
        (historyOpen fs f path) events) := by
  constructor
  · apply allStates_and_allSteps_iff
    · intro h e hclean
      rw [and_iff_left (quitKeeps_of_cleanIsKept hclean)]
      exact cleanIsKept_step_iff hclean
    · exact fun _ => rfl
  · apply allStates_iff_allSteps (I := fun _ => True)
    · exact fun _ _ _ => trivial
    · exact fun h e _ hclean => cleanIsUnedited_step_iff hclean
    · trivial
    · exact fun _ => rfl

/-- "s" -/
def lineSaveWord : CString := .read ['s'.toUInt8]

/-- "q" -/
def lineQuitWord : CString := .read ['q'.toUInt8]

/-- A line is added, saving it fails, and `q` leaves the editor all the same. -/
theorem not_quitKeeps_run :
    ¬ ∀ (fs : FsState) (f : Faults) (path : Option CString) (events : List (Faults × CString)),
      AllSteps EditorHistory.step QuitKeeps (historyOpen fs f path) events := by
  intro h
  have hrun := h (fsBlankDisk 5000) .none (some fsNameA)
    [(.none, lineAppendX), (⟨[], [.failed 0]⟩, lineSaveWord), (.none, lineQuitWord)]
  revert hrun
  decide +kernel

end AcharyaOS.Editor
