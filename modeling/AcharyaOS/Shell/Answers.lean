import AcharyaOS.Shell.Requests

/-!
# The commands answer the requests

Every branch of `shell_execute` leaves the tables standing for what the request of its line
makes of the session, and prints the report.
-/

namespace AcharyaOS.Shell

open Foundation Kio Disk Fs Config User Service Log

variable {Other : Type} {w w' : ShellWorld Other} {a a' : Session}

/-- The tables stand for the session. -/
structure Represents (w : ShellWorld Other) (a : Session) : Prop where
  settings : Fills (configView w.config) a.settings
  directory : Describes w.users a.directory
  services : Registered w.services a.lives

/-- A command leaves the session it should, and comes back with the report if there is one. -/
structure Meets (e : CommandEffect (ShellWorld Other)) (r : Session × Option Report) : Prop where
  represents : Represents e.world r.1
  answers : ∀ report, r.2 = some report → e.output = kprintfAll report ∧ e.returns = true

theorem Represents.say (h : Represents w a) (report : Report) :
    Meets (say w report) (a, some report) where
  represents := h
  answers := fun _ hreport => by
    rw [Option.some.inj hreport]
    exact ⟨rfl, rfl⟩

theorem Represents.congr (h : Represents w a) (hconfig : w'.config = w.config)
    (husers : w'.users = w.users) (hservices : w'.services = w.services) : Represents w' a where
  settings := hconfig ▸ h.settings
  directory := husers ▸ h.directory
  services := hservices ▸ h.services

theorem Represents.other (h : Represents w a) {e : CommandEffect (ShellWorld Other)}
    (hconfig : e.world.config = w.config) (husers : e.world.users = w.users)
    (hservices : e.world.services = w.services) : Meets e (a, none) where
  represents := h.congr hconfig husers hservices
  answers := fun _ hreport => absurd hreport.symm (Option.some_ne_none _)

/-- The settings that the file holds when a line is executed. -/
def fileSettings (m : ShellMoment) (fs : FsState) : Settings :=
  .load (configLoadedLines (fs.withFaults m.faults))

theorem Meets.ite {e e' : CommandEffect (ShellWorld Other)} {r : Session × Option Report}
    {p : Prop} [Decidable p] (h : Meets e r) (h' : Meets e' r) :
    Meets (if p then e else e') r := by
  split
  · exact h
  · exact h'

theorem textArg_cText (text : List UInt8) : textArg (cText text) = textArg text := by
  have hidem : cText (cText text) = cText text := cText_of_zero_notMem (zero_notMem_cText text)
  exact congrArg FormatArg.str (CString.ext hidem)

theorem textArg_bytes (s : CString) : textArg s.bytes = .str s :=
  congrArg FormatArg.str (CString.ext (cText_bytes s))

namespace Represents

/-! ## Settings -/

theorem config (h : Represents w a) : Meets (shellConfig w) (a, some a.configReport) := by
  have hlist := configList_settings h.settings
  have hname : cText (boundedCopy (List.replicate fsNameMax 0) configFileName.bytes) =
      configFileName.bytes := by decide
  have hreport : a.configReport =
      [("configuration file: %s\n", [textArg (configGetStats w.config).backingFile]),
          ("entries: %d/%d\n",
            [.word (.ofNat (configGetStats w.config).usedEntries),
              .word (.ofNat (configGetStats w.config).totalEntries)])] ++
        (configList w.config configEntryMax).map fun e =>
          ("  %s = %s\n", [textArg e.key.bytes, textArg e.value.bytes]) := by
    rw [Session.configReport, configGetStats_settings h.settings, ← textArg_bytes configFileName]
    nth_rewrite 2 [← hlist]
    rw [List.map_map]
    simp only [configGetStats, hname, Function.comp_def, CField.text, textArg_cText]
  rw [hreport]
  exact h.say _

section Calls

variable {file : Settings} {m : ShellMoment} {line text : List UInt8}

theorem getKey (h : Represents w a) :
    Meets (shellGet w line)
      (a.perform file w.log.minimumLevel m.ticks
        (restArg (line.drop 3) "usage: get <key>\n" .get)) := by
  unfold shellGet restArg
  by_cases hnone : ((skipSpaces (line.drop 3)).headD 0 == 0) = true
  · simp only [hnone, if_true]
    exact h.say _
  · simp only [hnone, if_false, Bool.false_eq_true]
    have hget : (configGet w.config (some (.read (skipSpaces (line.drop 3))))
        (some valueArray)).map cText = _ :=
      cText_configGet h.settings _
    rw [Session.perform, ← hget]
    cases configGet w.config (some (.read (skipSpaces (line.drop 3)))) (some valueArray) with
    | none => exact h.say _
    | some value =>
      simp only [Option.map_some, textArg_cText]
      exact h.say _

theorem setConfig (h : Represents w a) {t : ConfigTable} {l : Settings}
    (hfills : Fills (configView t) l) :
    Represents { w with config := t } { a with settings := l } :=
  ⟨hfills, h.directory, h.services⟩

theorem setKey (h : Represents w a) :
    Meets (shellSet w line)
      (a.perform file w.log.minimumLevel m.ticks
        (wordArgs configKeyMax (line.drop 3) "usage: set <key> <value>\n" fun key value =>
          .set key (.read value))) := by
  unfold shellSet wordArgs
  by_cases hnone : lacksSecond (skipSpaces (line.drop 3)) = true
  · simp only [hnone, if_true]
    exact h.say _
  · simp only [hnone, if_false, Bool.false_eq_true]
    obtain ⟨key, value⟩ := splitAt configKeyMax (skipSpaces (line.drop 3))
    obtain ⟨hfills, hcode⟩ := configSet_settings h.settings (.read key) (.read value)
    have hnext := h.setConfig hfills
    simp only [Session.perform, hcode]
    cases (a.settings.set (CString.read key).bytes (CString.read value).bytes).2 with
    | false => exact hnext.say _
    | true => exact hnext.say _

theorem loadcfg (h : Represents w a) :
    Meets (shellLoadcfg m w)
      (a.perform (fileSettings m w.fs) w.log.minimumLevel m.ticks .loadcfg) := by
  have hcode : (configLoad (w.fs.withFaults m.faults)).2.2 = 0 := by
    simp only [configLoad]
    split <;> rfl
  have hnext := h.setConfig (configLoad_settings (w.fs.withFaults m.faults))
  unfold shellLoadcfg
  simp only [hcode, ne_eq, not_true_eq_false, if_false]
  rw [Session.perform]
  refine Represents.say ?_ _
  exact hnext.congr rfl rfl rfl

theorem logLevelName_of_mem : ∀ p ∈ shellLevels, logLevelName p.2 = p.1 := by
  decide

theorem loglevel (h : Represents w a) :
    Meets (shellLoglevel w line)
      (a.perform file w.log.minimumLevel m.ticks (loglevelArg (line.drop 8))) := by
  unfold shellLoglevel loglevelArg
  by_cases hnone : ((skipSpaces (line.drop 8)).headD 0 == 0) = true
  · simp only [hnone, if_true]
    exact h.other rfl rfl rfl
  · simp only [hnone, if_false, Bool.false_eq_true]
    cases hlevel : shellLevel (skipSpaces (line.drop 8)) with
    | none => exact h.say _
    | some p =>
      have hmem : p ∈ shellLevels := List.mem_of_find?_eq_some hlevel
      have hno : ∀ p ∈ shellLevels, 0 ∉ asciiText p.1 := by decide
      have hbytes : (CString.read (asciiText p.1)).bytes = asciiText p.1 :=
        CString.read_bytes (hno p hmem)
      have hfills := (configSet_settings h.settings loglevelKey (.read (asciiText p.1))).1
      have hnext := h.setConfig hfills
      rw [hbytes] at hnext
      have hname : litArg (logLevelName (logSetMinimumLevel w.log p.2).minimumLevel) =
          litArg p.1 :=
        congrArg litArg (logLevelName_of_mem p hmem)
      simp only [hname]
      rw [Session.perform]
      refine Represents.say ?_ _
      exact hnext.congr rfl rfl rfl

/-! ## Services -/

theorem service (h : Represents w a) (usage : String) (op : ServiceOp) :
    Meets
      (shellService m w (skipSpaces text) usage (serviceTexts op).1 (serviceTexts op).2 op)
      (a.perform file w.log.minimumLevel m.ticks (restArg text usage (.service op))) := by
  have htable : Registered (ServiceSystem.mk w.services w.log []).services a.lives := h.services
  unfold shellService restArg
  by_cases hnone : ((skipSpaces text).headD 0 == 0) = true
  · simp only [hnone, if_true]
    exact h.say _
  · simp only [hnone, if_false, Bool.false_eq_true]
    rw [Session.perform, Session.onService]
    cases hof : serviceOf (.read (skipSpaces text)) with
    | none =>
      rw [htable.unknown m.ticks hof]
      exact h.say _
    | some k =>
      have hname := serviceOf_eq_some_iff.mp hof
      obtain ⟨hnext, hprinted, hcode⟩ := htable.apply m.ticks k op
      rw [hname] at hnext hprinted hcode
      have hworld : Represents
          { w with
            services := ((ServiceCall.on op (.read (skipSpaces text))).perform
              ⟨w.services, w.log, []⟩ m.ticks).1.services
            log := ((ServiceCall.on op (.read (skipSpaces text))).perform
              ⟨w.services, w.log, []⟩ m.ticks).1.log }
          { a with lives := Function.update a.lives k ((a.lives k).apply (m.ticks k.slot) op) } :=
        ⟨h.settings, h.directory, hnext⟩
      simp only [hcode, ne_eq, not_true_eq_false, if_false, hprinted, List.nil_append]
      exact hworld.say _

theorem stateName (h : Represents w a) (k : ServiceId) :
    litArg (serviceStateName (w.services k.slot).state) = stateText (a.lives k) := by
  rw [(h.services.entry k).state_eq, stateText]
  cases (a.lives k).running <;> rfl

theorem enabledWord (h : Represents w a) (k : ServiceId) :
    (w.services k.slot).enabled.toUInt32 = .ofNat (a.lives k).enabled.toNat := by
  rw [(h.services.entry k).enabled_eq]
  cases (a.lives k).enabled <;> rfl

theorem nameArg (h : Represents w a) (k : ServiceId) :
    textArg (w.services k.slot).name.bytes = .str k.name := by
  have hname : cText (w.services k.slot).name.bytes = k.name.bytes := (h.services.entry k).name_eq
  rw [← textArg_cText, hname, textArg_bytes]

theorem svc (h : Represents w a) : Meets (shellSvc w) (a, some a.svcReport) := by
  have hreport : a.svcReport =
      ("services: %d total, %d enabled, %d running\n",
          [.word (.ofNat (serviceGetStats w.services).totalServices),
            .word (.ofNat (serviceGetStats w.services).enabledServices),
            .word (.ofNat (serviceGetStats w.services).runningServices)]) ::
        (serviceList w.services serviceEntryMax).map fun e =>
          ("  %s [%s] enabled=%d started=%d stopped=%d\n",
            [textArg e.name.bytes, litArg (serviceStateName e.state), .word e.enabled.toUInt32,
              .word e.startCount, .word e.stopCount]) := by
    rw [h.services.list, h.services.stats, List.map_map, Session.svcReport]
    congr 1
    apply List.map_congr_left
    intro k _
    rw [Function.comp_apply, h.nameArg, h.stateName, h.enabledWord,
      (h.services.entry k).startCount_eq, (h.services.entry k).stopCount_eq]
  rw [hreport]
  exact h.say _

theorem svcinfo (h : Represents w a) :
    Meets (shellSvcinfo w line)
      (a.perform file w.log.minimumLevel m.ticks
        (restArg (line.drop 7) "usage: svcinfo <service-name>\n" .svcinfo)) := by
  unfold shellSvcinfo restArg
  by_cases hnone : ((skipSpaces (line.drop 7)).headD 0 == 0) = true
  · simp only [hnone, if_true]
    exact h.say _
  · simp only [hnone, if_false, Bool.false_eq_true]
    rw [h.services.info, Session.perform]
    cases serviceOf (.read (skipSpaces (line.drop 7))) with
    | none => exact h.say _
    | some k =>
      have hdescription : textArg (w.services k.slot).description.bytes = .str k.description := by
        have htext : cText (w.services k.slot).description.bytes = k.description.bytes :=
          (h.services.entry k).description_eq
        rw [← textArg_cText, htext, textArg_bytes]
      have hentry := h.services.entry k
      rw [Option.map_some]
      simp only [h.nameArg, h.stateName, h.enabledWord, hdescription, hentry.started_eq,
        hentry.stopped_eq, hentry.startCount_eq, hentry.stopCount_eq]
      exact h.say _

/-! ## Accounts -/

theorem setUsers (h : Represents w a) {s : UserState} {d : Directory} (hd : Describes s d) :
    Represents { w with users := s } { a with directory := d } :=
  ⟨h.settings, hd, h.services⟩

theorem onUsers (h : Represents w a) {r : UserState × Int} {d : Directory × Bool}
    (hr : Answers r d) (failed done : String × List FormatArg) :
    Meets
      (if (Shell.onUsers w r).2 ≠ 0 then Shell.say (Shell.onUsers w r).1 [failed]
        else Shell.say (Shell.onUsers w r).1 [done])
      (a.onDirectory d failed done) := by
  have hnext := h.setUsers hr.describes
  have hcode := hr.code_eq
  unfold Shell.onUsers Session.onDirectory
  simp only [hcode]
  cases d.2 with
  | false => exact hnext.say _
  | true => exact hnext.say _

theorem users (h : Represents w a) : Meets (shellUsers w) (a, some a.usersReport) := by
  have hreport : a.usersReport =
      ("users: %d total, %d enabled, active=%s\n",
          [.word (.ofNat (userGetStats w.users).totalUsers),
            .word (.ofNat (userGetStats w.users).enabledUsers),
            textArg (userGetStats w.users).activeUsername]) ::
        (userList w.users userEntryMax).map fun e =>
          ("  %s [%s] uid=%d enabled=%d name=%s\n",
            [textArg e.username.toList, litArg (userRoleName e.role), .word e.uid,
              .word e.enabled.toNat.toUInt32, textArg e.fullName.toList]) := by
    have hlist := congrArg (List.map fun p : Account × UInt32 =>
      ("  %s [%s] uid=%d enabled=%d name=%s\n",
        [textArg p.1.name, litArg (userRoleName p.1.role), .word p.2,
          .word p.1.enabled.toNat.toUInt32, textArg p.1.fullName])) h.directory.list_uid
    rw [List.map_map, List.map_map] at hlist
    rw [Session.usersReport, h.directory.stats]
    congr 1
    refine Eq.trans ?_ (hlist.symm.trans ?_)
    · rfl
    · simp only [Function.comp_def, UserEntry.account, textArg_cText]
  rw [hreport]
  exact h.say _

theorem whoami (h : Represents w a) : Meets (shellWhoami w) (a, some a.whoamiReport) := by
  have hactive := h.directory.getActive
  unfold shellWhoami Session.whoamiReport
  rw [← hactive]
  cases userGetActive w.users with
  | none => exact h.say _
  | some e =>
    rw [Option.map_some]
    simp only [UserEntry.account, textArg_cText]
    exact h.say _

theorem auth (h : Represents w a) : Meets (shellAuth w) (a, some a.authReport) := by
  unfold shellAuth Session.authReport
  rw [h.directory.stats]
  exact h.say _

theorem logout (h : Represents w a) :
    Meets (shellLogout w) (a.perform file w.log.minimumLevel m.ticks .logout) :=
  (h.setUsers h.directory.logout).say _

theorem account (h : Represents w a) (usage failed done : String)
    {request : CString → Request} {call : CString → UserState × Int}
    {meant : CString → Directory × Bool} (hcall : ∀ name, Answers (call name) (meant name))
    (hperform : ∀ name, a.perform file w.log.minimumLevel m.ticks (request name) =
      a.onDirectory (meant name) (failed, [.str name]) (done, [.str name])) :
    Meets
      (shellNamed w (skipSpaces text) usage failed done fun name => Shell.onUsers w (call name))
      (a.perform file w.log.minimumLevel m.ticks (restArg text usage request)) := by
  unfold shellNamed restArg
  by_cases hnone : ((skipSpaces text).headD 0 == 0) = true
  · simp only [hnone, if_true]
    exact h.say _
  · simp only [hnone, if_false, Bool.false_eq_true]
    rw [hperform]
    exact h.onUsers (hcall _) _ _

theorem credentials (h : Represents w a) (usage failed done : String)
    {request : CString → CString → Request} {call : CString → CString → UserState × Int}
    {meant : CString → CString → Directory × Bool}
    (hcall : ∀ name password, Answers (call name password) (meant name password))
    (hperform : ∀ name password, a.perform file w.log.minimumLevel m.ticks (request name password) =
      a.onDirectory (meant name password) (failed, []) (done, [.str name])) :
    Meets
      (shellCredentials w (skipSpaces text) usage failed done fun name password =>
        Shell.onUsers w (call name password))
      (a.perform file w.log.minimumLevel m.ticks (credentialArgs text usage request)) := by
  unfold shellCredentials credentialArgs wordArgs
  by_cases hnone : lacksSecond (skipSpaces text) = true
  · simp only [hnone, if_true]
    exact h.say _
  · simp only [hnone, if_false, Bool.false_eq_true]
    obtain ⟨username, password⟩ := splitAt userNameMax (skipSpaces text)
    by_cases hempty : (password.headD 0 == 0) = true
    · simp only [hempty, if_true]
      exact h.say _
    · simp only [hempty, if_false, Bool.false_eq_true]
      rw [hperform]
      exact h.onUsers (hcall _ _) _ _

theorem adduser (h : Represents w a) :
    Meets (shellAdduser w line)
      (a.perform file w.log.minimumLevel m.ticks
        (wordArgs userNameMax (line.drop 7) adduserUsage adduserArgs)) := by
  unfold shellAdduser wordArgs
  by_cases hnone : lacksSecond (skipSpaces (line.drop 7)) = true
  · simp only [hnone, if_true]
    exact h.say _
  · simp only [hnone, if_false, Bool.false_eq_true]
    obtain ⟨username, rest⟩ := splitAt userNameMax (skipSpaces (line.drop 7))
    unfold adduserArgs
    by_cases hempty : (wordLength rest == 0) = true
    · simp only [hempty, if_true]
      exact h.say _
    · simp only [hempty, if_false, Bool.false_eq_true]
      cases adduserRole (skipSpaces (rest.drop (wordLength rest))) with
      | none => exact h.say _
      | some role => exact h.onUsers (h.directory.add _ _ role) _ _

end Calls

end Represents

end AcharyaOS.Shell
