import AcharyaOS.Editor.RoundTrip

/-!
# Saving and loading again

What `editor_save` writes is what `editor_load` gives back, line for line.  In the one case in
which the newline of the last line finds no room, all rows are full, and a line that is not
empty is loaded without its newline.
-/

namespace AcharyaOS.Editor

open Foundation Foundation.Run Disk Fs

theorem textLines_take_joinLines {lines : List (List UInt8)} (hcount : lines.length ≤ editorMaxLines)
    (h : ∀ line ∈ lines, '\n'.toUInt8 ∉ line ∧ line.length ≤ editorLineMax - 1) :
    textLines ((joinLines lines).take (editorFileMax - 1)) = lines := by
  have hsplit : ∀ line ∈ lines, '\n'.toUInt8 ∉ line := fun line hline => (h line hline).1
  by_cases hroom : (joinLines lines).length ≤ editorFileMax - 1
  · rw [List.take_of_length_le hroom, textLines_joinLines hsplit]
  · -- only 32 lines of 63 characters take up more than 2047 bytes
    have hne : lines ≠ [] := by
      rintro rfl
      exact hroom (Nat.zero_le _)
    obtain ⟨init, last, rfl⟩ := (List.eq_nil_or_concat lines).resolve_left hne
    rw [List.concat_eq_append] at hroom hcount h hsplit ⊢
    rw [List.length_append, List.length_singleton] at hcount
    have hinit := length_joinLines_le fun line hline => (h line (List.mem_append_left _ hline)).2
    have hmul : init.length * (editorLineMax - 1 + 1) ≤ (editorMaxLines - 1) * 64 :=
      Nat.mul_le_mul_right _ (by omega)
    have hlast := h last (List.mem_append_right _ (List.mem_singleton_self last))
    have hjoin : joinLines (init ++ [last]) = (joinLines init ++ last) ++ ['\n'.toUInt8] := by
      rw [joinLines_append, joinLines_cons, joinLines_nil, List.append_assoc]
    have hmax : editorFileMax = 2048 := rfl
    have hlines : editorMaxLines = 32 := rfl
    have hwidth : editorLineMax = 64 := rfl
    rw [hjoin] at hroom ⊢
    rw [List.length_append, List.length_append, List.length_singleton] at hroom
    have hfull : (joinLines init ++ last).length = editorFileMax - 1 := by
      rw [List.length_append]
      omega
    have hlastne : last ≠ [] := by
      rintro rfl
      rw [List.length_nil] at hroom
      omega
    rw [← hfull, List.take_left]
    exact textLines_joinLines_concat (fun line hline => hsplit line (List.mem_append_left _ hline))
      hlast.1 hlastne

theorem texts_bounds (ed : EditorState) :
    ed.texts.length ≤ editorMaxLines ∧
      ∀ line ∈ ed.texts, 0 ∉ line ∧ line.length ≤ editorLineMax - 1 := by
  refine ⟨by rw [EditorState.length_texts]; exact ed.count_le, ?_⟩
  intro line hline
  obtain ⟨row, -, rfl⟩ := List.mem_map.mp hline
  exact ⟨row.zero_notMem_text, Nat.le_sub_one_of_lt row.length_text_lt⟩

/-- What is loaded from the text of a buffer is the buffer. -/
theorem openedLines_saveText {ed : EditorState} (hne : ed.texts ≠ [])
    (h : ∀ line ∈ ed.texts, '\r'.toUInt8 ∉ line ∧ '\n'.toUInt8 ∉ line) :
    0 ∉ editorSaveText ed ∧ openedLines (withoutCr (editorSaveText ed)) = ed.texts := by
  obtain ⟨hcount, hrows⟩ := texts_bounds ed
  have hplain : ∀ c ∈ joinLines ed.texts, c ≠ 0 ∧ c ≠ '\r'.toUInt8 := by
    intro c hc
    obtain ⟨line, hline, hmem⟩ := List.mem_flatMap.mp hc
    rcases List.mem_append.mp hmem with hmem | hmem
    · exact ⟨fun hzero => (hrows line hline).1 (hzero ▸ hmem),
        fun hcr => (h line hline).1 (hcr ▸ hmem)⟩
    · rw [List.mem_singleton] at hmem
      subst hmem
      exact ⟨by decide, by decide⟩
  have htext : editorSaveText ed = (joinLines ed.texts).take (editorFileMax - 1) := by
    rw [editorSaveText_eq, if_neg hne]
  have hcr : withoutCr (editorSaveText ed) = editorSaveText ed := by
    rw [withoutCr, List.filter_eq_self, htext]
    exact fun c hc => decide_eq_true (hplain c (List.mem_of_mem_take hc)).2
  refine ⟨?_, ?_⟩
  · rw [htext]
    exact fun hzero => (hplain 0 (List.mem_of_mem_take hzero)).1 rfl
  · have hlines := textLines_take_joinLines hcount fun line hline =>
      ⟨(h line hline).2, (hrows line hline).2⟩
    have hcut : ed.texts.map (List.take (editorLineMax - 1)) = ed.texts := by
      rw [List.map_congr_left fun line hline => List.take_of_length_le (hrows line hline).2,
        List.map_id']
    rw [hcr, htext, openedLines, rowLines, hlines, List.take_of_length_le hcount, hcut,
      if_neg hne]

/-! ## Sessions -/

section Sessions

variable {fs : FsState} {f : Faults} {path : CString} {s : EditorSession}

theorem fsReachable_editorExec (h : FsReachable s.fs) (f : Faults) (c : EditorCommand) :
    FsReachable (editorExec s f c).fs := by
  have hsave : FsReachable (editorSave s.fs f s.ed).1 := by
    show FsReachable (fsStep s.fs (f, _))
    exact .next h trivial
  cases c with
  | save => exact hsave
  | saveQuit =>
    simp only [editorExec]
    split <;> exact hsave
  | quit =>
    simp only [editorExec]
    split <;> exact h
  | _ => exact h

/-- The session keeps its path, and the filesystem stays reachable. -/
structure OpenedOn (path : CString) (s : EditorSession) : Prop where
  path_eq : s.ed.path = (editorReset path).path
  reachable : FsReachable s.fs

theorem openedOn_editorOpen (hfs : FsReachable fs) :
    OpenedOn path (editorOpen fs f (some path)) := by
  unfold editorOpen
  simp only
  split
  · exact ⟨rfl, hfs⟩
  · have hfst := fsReadFile_fst fs f (some (CString.read (editorReset path).path.bytes))
      editorFileMax
    rw [FsState.withFaults_self hfs.inv.faults_eq] at hfst
    have hread : FsReachable ((fsReadFile (fs.withFaults f)
        (some (CString.read (editorReset path).path.bytes)) editorFileMax).1.withFaults .none) := by
      rw [hfst]
      exact hfs
    unfold editorLoad
    simp only
    split
    · exact ⟨rfl, hread⟩
    · exact ⟨path_editorFill _ _, hread⟩

theorem OpenedOn.run (h : OpenedOn path s) (events : List (Faults × CString)) :
    OpenedOn path (runSteps editorStep s events) := by
  induction events generalizing s with
  | nil => exact h
  | cons e events ih =>
    apply ih
    unfold editorStep
    split
    · exact ⟨(path_editorExec s e.1 _).trans h.path_eq, fsReachable_editorExec h.reachable _ _⟩
    · exact h

end Sessions

/-- In every session, a buffer with at least one line and without carriage returns and newlines
in its lines that is saved is loaded again as it was. -/
theorem editorLoad_saved {fs : FsState} (hfs : FsReachable fs) (f : Faults) (path : CString)
    (events : List (Faults × CString)) (g : Faults) {s : EditorSession}
    (hs : s = runSteps editorStep (editorOpen fs f (some path)) events)
    (hcount : 1 ≤ s.ed.lineCount)
    (hlines : ∀ line ∈ s.ed.texts, '\r'.toUInt8 ∉ line ∧ '\n'.toUInt8 ∉ line)
    (hok : (editorSave s.fs g s.ed).2 = 0) :
    (editorLoad (editorSave s.fs g s.ed).1 .none (editorReset path)).2.lineCount =
        s.ed.lineCount ∧
      (editorLoad (editorSave s.fs g s.ed).1 .none (editorReset path)).2.texts = s.ed.texts := by
  have hopened : OpenedOn path s := hs ▸ (openedOn_editorOpen hfs).run events
  have hne : s.ed.texts ≠ [] := by
    rw [ne_eq, EditorState.texts_eq_nil_iff]
    omega
  obtain ⟨hzero, hload⟩ := openedLines_saveText hne hlines
  have hmax : editorFileMax = 2048 := rfl
  have hlen : (editorSaveText s.ed).length ≤ editorFileMax - 1 := by
    rw [editorSaveText_eq, if_neg hne, List.length_take]
    exact Nat.min_le_left _ _
  have hname : (CString.read s.ed.path.bytes).length < fsNameMax := s.ed.path.length_text_lt
  have hblocks : fsBlockCount (editorSaveText s.ed).length * fsBlockSize ≤ editorFileMax := by
    simp only [fsBlockCount, fsBlockSize]
    omega
  have hsize : (editorSaveText s.ed).length ≤ 255 * fsBlockSize := by
    simp only [fsBlockSize]
    omega
  obtain ⟨bytes, hread, htake⟩ :=
    hopened.reachable.delivers_written hname hok hsize hblocks
  have htexts : (editorLoad (editorSave s.fs g s.ed).1 .none (editorReset path)).2.texts =
      s.ed.texts := by
    have hread' : (fsReadFile ((editorSave s.fs g s.ed).1.withFaults .none)
        (some (CString.read (editorReset path).path.bytes)) editorFileMax).2 =
          some ((editorSaveText s.ed).length, bytes) := by
      rw [← hopened.path_eq]
      exact hread
    simp only [editorLoad, hread', htake]
    rw [texts_editorFill _ hzero, hload]
  refine ⟨?_, htexts⟩
  rw [← EditorState.length_texts, htexts, EditorState.length_texts]

/-- "x" is appended to a new file, and saved. -/
theorem editorLoad_saved_x :
    (editorLoad (editorSave (runSteps editorStep (editorOpen (fsBlankDisk 5000) .none
        (some fsNameA)) [(.none, lineAppendX)]).fs .none (runSteps editorStep
          (editorOpen (fsBlankDisk 5000) .none (some fsNameA)) [(.none, lineAppendX)]).ed).1 .none
        (editorReset fsNameA)).2.lineCount = 1 := by
  have hlines : ∀ line ∈ (runSteps editorStep (editorOpen (fsBlankDisk 5000) .none
      (some fsNameA)) [(.none, lineAppendX)]).ed.texts,
        '\r'.toUInt8 ∉ line ∧ '\n'.toUInt8 ∉ line := by decide +kernel
  have hreload := editorLoad_saved (.start (fsFresh_blankDisk (by decide))) .none fsNameA
    [(.none, lineAppendX)] .none rfl (by decide +kernel) hlines (by decide +kernel)
  rw [hreload.1]
  decide +kernel

end AcharyaOS.Editor
