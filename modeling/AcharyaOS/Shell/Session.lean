import AcharyaOS.Package.Code
import AcharyaOS.Shell.Answers

/-!
# Sessions at the shell

From the boot of the kernel on, whatever is typed and whatever the rest of the kernel does in
between, the tables stand for the session that the executed lines ask for, and the next line is
answered from it.
-/

namespace AcharyaOS.Shell

open Foundation Foundation.Run Kio Disk Fs Config User Service Log Package

variable {Other : Type}

/-! ## One line -/

theorem shellCalc_world (w : ShellWorld Other) (line : List UInt8) :
    (shellCalc w line).world = w := by
  simp only [shellCalc]
  split
  · rfl
  · split
    · split <;> rfl
    · rfl
    · rfl

section Files

variable {w : ShellWorld Other} {a : Session} (h : Represents w a) (m : ShellMoment)
  (line : List UInt8)

include h

/-! The commands on files and on the log keep out of the session. -/

theorem Represents.fs : Meets (shellFs w) (a, none) :=
  .ite (h.other rfl rfl rfl) (h.other rfl rfl rfl)

theorem Represents.cat : Meets (shellCat m w line) (a, none) := by
  refine .ite (h.other rfl rfl rfl) ?_
  dsimp only
  split <;> exact h.other rfl rfl rfl

theorem Represents.writefs : Meets (shellWritefs m w line) (a, none) :=
  .ite (h.other rfl rfl rfl) (.ite (h.other rfl rfl rfl) (h.other rfl rfl rfl))

theorem Represents.rmfs : Meets (shellRmfs m w line) (a, none) :=
  .ite (h.other rfl rfl rfl) (.ite (h.other rfl rfl rfl) (h.other rfl rfl rfl))

theorem Represents.savecfg : Meets (shellSavecfg m w) (a, none) :=
  .ite (h.other rfl rfl rfl) (h.other rfl rfl rfl)

end Files

theorem Represents.branch {w : ShellWorld Other} {a : Session} (h : Represents w a)
    (others : SystemCommands (ShellRest Other)) (s : ShellHistory) (m : ShellMoment)
    (line : List UInt8) :
    Meets (shellBranch (shellSystem others m) s w line)
      (a.perform (fileSettings m w.fs) w.log.minimumLevel m.ticks (shellRequest line)) := by
  have hcalc := shellCalc_world w line
  unfold shellBranch shellRequest
  cases shellCommand line with
  | none => exact h.other rfl rfl rfl
  | some command =>
    cases command with
    | config => exact h.config
    | get => exact h.getKey
    | set => exact h.setKey
    | loadcfg => exact h.loadcfg
    | loglevel => exact h.loglevel
    | svc => exact h.svc
    | svcinfo => exact h.svcinfo
    | start => exact h.service _ .start
    | stop => exact h.service _ .stop
    | restart => exact h.service _ .restart
    | enable => exact h.service _ .enable
    | disable => exact h.service _ .disable
    | users => exact h.users
    | whoami => exact h.whoami
    | auth => exact h.auth
    | logout => exact h.logout
    | login =>
      exact h.credentials _ _ _ (fun name password => h.directory.login name password)
        fun _ _ => rfl
    | passwd =>
      exact h.credentials _ _ _ (fun name password => h.directory.setPassword name password)
        fun _ _ => rfl
    | su => exact h.account _ _ _ (fun name => h.directory.setActive name) fun _ => rfl
    | deluser => exact h.account _ _ _ (fun name => h.directory.disable name) fun _ => rfl
    | adduser => exact h.adduser
    | calculate => exact h.other (by rw [hcalc]) (by rw [hcalc]) (by rw [hcalc])
    | fs => exact h.fs
    | cat => exact h.cat m line
    | writefs => exact h.writefs m line
    | rmfs => exact h.rmfs m line
    | savecfg => exact h.savecfg m
    | _ => exact h.other rfl rfl rfl

/-! ## The executed lines -/

/-- A line that was executed, the settings the file held then, the minimum level of the log, and
the readings of the timer. -/
structure Executed where
  line : List UInt8
  file : Settings
  level : LogLevel
  ticks : ServiceClock

def Session.step (a : Session) (e : Executed) : Session :=
  (a.perform e.file e.level e.ticks (shellRequest e.line)).1

/-- The line that `shell_execute` settles on. -/
def executedLine (s : ShellHistory) (origin : CString) : Option (List UInt8) :=
  if skipSpaces origin.bytes == [] then none
  else
    match shellExpand s origin.bytes with
    | .failed => none
    | .run execLine copied =>
        some (if copied then (execLine.text s).take (shellLineMax - 1)
          else skipSpaces origin.bytes)

/-- A shell and, for the specification only, what it has executed. -/
structure ShellSession (Other : Type) where
  history : ShellHistory
  world : ShellWorld Other
  running : Bool
  executed : List Executed

/-- A line is typed, or the rest of the kernel does something in between. -/
inductive ShellEvent (Other : Type)
  | line (text : CString) (moment : ShellMoment)
  | outside (rest : ShellRest Other)

def sessionStep (others : SystemCommands (ShellRest Other)) (s : ShellSession Other) :
    ShellEvent Other → ShellSession Other
  | .outside rest => { s with world := { s.world with toShellRest := rest } }
  | .line text moment =>
      if !s.running then s
      else
        let r := shellExecuteWith (shellSystem others moment) s.history s.world text
        { history := r.history
          world := r.effect.world
          running := r.effect.returns
          executed := s.executed ++ (executedLine s.history text).toList.map fun line =>
            ⟨line, fileSettings moment s.world.fs, s.world.log.minimumLevel, moment.ticks⟩ }

theorem shellExecuteWith_world (sys : SystemCommands (ShellWorld Other)) (s : ShellHistory)
    (w : ShellWorld Other) (origin : CString) :
    (shellExecuteWith sys s w origin).effect.world =
      (executedLine s origin).elim w fun line => (shellBranch sys s w line).world := by
  unfold shellExecuteWith executedLine
  by_cases hnil : (skipSpaces origin.bytes == []) = true
  · rw [if_pos hnil, if_pos hnil]
    rfl
  · rw [if_neg hnil, if_neg hnil]
    cases shellExpand s origin.bytes <;> rfl

/-- The tables stand for the session of the executed lines. -/
def Follows (boot : Session) (s : ShellSession Other) : Prop :=
  Represents s.world (runSteps Session.step boot s.executed)

theorem Follows.step {boot : Session} {s : ShellSession Other} (h : Follows boot s)
    (others : SystemCommands (ShellRest Other)) (e : ShellEvent Other) :
    Follows boot (sessionStep others s e) := by
  cases e with
  | outside rest => exact Represents.congr h rfl rfl rfl
  | line text moment =>
    unfold sessionStep
    cases hrunning : !s.running with
    | true => exact h
    | false =>
      have hworld := shellExecuteWith_world (shellSystem others moment) s.history s.world text
      unfold Follows
      simp only [Bool.false_eq_true, if_false, hworld]
      cases executedLine s.history text with
      | none =>
        rw [Option.toList_none, List.map_nil, List.append_nil]
        exact h
      | some line =>
        rw [runSteps_append]
        exact (h.branch others s.history moment line).represents

theorem Follows.run {boot : Session} {s : ShellSession Other} (h : Follows boot s)
    (others : SystemCommands (ShellRest Other)) (events : List (ShellEvent Other)) :
    Follows boot (runSteps (sessionStep others) s events) :=
  runSteps_invariant (I := Follows boot) (fun _ e h => h.step others e) events h

/-! ## The boot -/

/-- What the hardware does while `kmain` comes to its end: the timer at its calls of the logger
and in the services, and the faults of the disk while the packages are read. -/
structure KmainMoment where
  services : UInt64
  users : UInt64
  userspace : UInt64
  complete : UInt64
  hooks : ServiceClock
  faults : Faults

def kmainLog (log : LogState) (tick : UInt64) (message : String) : LogState :=
  logWrite log tick logInfo (.read (asciiText message))

/-- The end of `kmain`, from `config_init` to `shell_run`, with the calls of the logger until
then. -/
def shellBoot (fs : FsState) (logged : List LogCall) (k : KmainMoment) (other : Other) :
    ShellSession Other :=
  let config := configLoad fs
  let log := applyLoglevel config.2.1 (runSteps logStep logBoot logged)
  let log := kmainLog log k.services "Initializing startup services"
  let services := serviceStartupAll ⟨serviceInit, log, []⟩ k.hooks
  let log := kmainLog services.log k.users "Initializing user accounts"
  let users := userCreateDefaultPasswords userInit
  let log := kmainLog log k.userspace "Preparing user-space demo"
  let packages := packageInit config.1 k.faults
  -- `boot_prompt_login`
  let users := userLogout (userSetActive users guestName).1
  let log := kmainLog log k.complete "Kernel initialization complete"
  { history := shellHistoryClear
    world :=
      { fs := packages.1
        log := log
        other := other
        config := config.2.1
        users := users
        services := services.services }
    running := true
    executed := [] }

def Session.boot (file : Settings) (ticks : ServiceClock) : Session where
  settings := file
  directory := { Directory.boot with active := 2 }
  lives := fun k => Life.boot.start (ticks k.slot .run).marked

/-- The calls of the logger until the services start. -/
theorem logRefines_kmain (t : ConfigTable) (logged : List LogCall) (tick : UInt64)
    (message : String) :
    ∃ g, LogRefines
      (kmainLog (applyLoglevel t (runSteps logStep logBoot logged)) tick message) g := by
  have hlogged : LogRefines (runSteps logStep logBoot logged)
      (runSteps LogHistory.step .empty logged) :=
    sim_runSteps (R := LogRefines) (fun _ _ c h => h.step c) logged _ _ .boot
  have hlevel : ∃ g, LogRefines (applyLoglevel t (runSteps logStep logBoot logged)) g := by
    unfold applyLoglevel
    cases (configGet t (some loglevelKey) (some levelArray)).bind shellLevel with
    | none => exact ⟨_, hlogged⟩
    | some p => exact ⟨_, hlogged.step (.setMinimumLevel p.2)⟩
  obtain ⟨g, hg⟩ := hlevel
  exact ⟨_, hg.step (.write tick logInfo (.read (asciiText message)))⟩

theorem follows_boot (fs : FsState) (logged : List LogCall) (k : KmainMoment) (other : Other) :
    Follows (.boot (.load (configLoadedLines fs)) k.hooks) (shellBoot fs logged k other) where
  settings := configLoad_settings fs
  directory := by
    have hguest := (describes_boot.setActive guestName).describes.logout
    have hactive : (Directory.boot.setActive guestName.bytes).1.logout =
        { Directory.boot with active := 2 } := by decide +kernel
    rw [hactive] at hguest
    exact hguest
  services := by
    obtain ⟨g, hlog⟩ := logRefines_kmain (configLoad fs).2.1 logged k.services
      "Initializing startup services"
    have hinit : ServiceRefines ⟨serviceInit, _, []⟩ ⟨fun _ => .boot, g, []⟩ :=
      ⟨registered_serviceInit, hlog, rfl⟩
    have hstarted := (hinit.step (.call k.hooks .startupAll)).table
    have hlives := funext (Services.lives_step ⟨fun _ => .boot, g, []⟩ (.call k.hooks .startupAll))
    rw [hlives, ServiceRefines.serviceStep_startupAll] at hstarted
    simp only [shellBoot]
    exact hstarted

/-! ## What every session keeps -/

theorem length_read_splitAt {size : Nat} (hsize : 0 < size) (rest : List UInt8) :
    (CString.read (splitAt size rest).1).bytes.length < size := by
  have htext : (CString.read (splitAt size rest).1).bytes.length ≤ (splitAt size rest).1.length :=
    (List.takeWhile_prefix _).length_le
  have htake : (splitAt size rest).1.length ≤ size - 1 := by
    simp only [splitAt, List.length_take]
    split <;> omega
  omega

/-- The shell adds no account and sets no key whose name does not fit. -/
def Request.Fits : Request → Prop
  | .adduser username _ _ => username.bytes.length < userNameMax
  | .set key _ => key.bytes.length < configKeyMax
  | _ => True

theorem restArg_fits (text : List UInt8) (usage : String) {request : CString → Request}
    (h : ∀ arg, (request arg).Fits) : (restArg text usage request).Fits := by
  simp only [restArg]
  split
  · trivial
  · exact h _

theorem wordArgs_fits {size : Nat} (hsize : 0 < size) (text : List UInt8) (usage : String)
    {request : CString → List UInt8 → Request}
    (h : ∀ word rest, word.bytes.length < size → (request word rest).Fits) :
    (wordArgs size text usage request).Fits := by
  simp only [wordArgs]
  split
  · trivial
  · exact h _ _ (length_read_splitAt hsize _)

theorem credentialArgs_fits (text : List UInt8) (usage : String)
    {request : CString → CString → Request} (h : ∀ name password, (request name password).Fits) :
    (credentialArgs text usage request).Fits := by
  apply wordArgs_fits (by decide)
  intro word rest _
  split
  · trivial
  · exact h _ _

theorem adduserArgs_fits {username : CString} (h : username.bytes.length < userNameMax)
    (rest : List UInt8) : (adduserArgs username rest).Fits := by
  simp only [adduserArgs]
  split
  · trivial
  · split
    · trivial
    · exact h

theorem loglevelArg_fits (text : List UInt8) : (loglevelArg text).Fits := by
  simp only [loglevelArg]
  split
  · trivial
  · split <;> trivial

theorem shellRequest_fits (line : List UInt8) : (shellRequest line).Fits := by
  unfold shellRequest
  cases shellCommand line with
  | none => trivial
  | some command =>
    cases command with
    | adduser => exact wordArgs_fits (by decide) _ _ fun _ rest hlt => adduserArgs_fits hlt rest
    | set => exact wordArgs_fits (by decide) _ _ fun _ _ hlt => hlt
    | login => exact credentialArgs_fits _ _ fun _ _ => trivial
    | passwd => exact credentialArgs_fits _ _ fun _ _ => trivial
    | loglevel => exact loglevelArg_fits _
    | get => exact restArg_fits _ _ fun _ => trivial
    | svcinfo => exact restArg_fits _ _ fun _ => trivial
    | start => exact restArg_fits _ _ fun _ => trivial
    | stop => exact restArg_fits _ _ fun _ => trivial
    | restart => exact restArg_fits _ _ fun _ => trivial
    | enable => exact restArg_fits _ _ fun _ => trivial
    | disable => exact restArg_fits _ _ fun _ => trivial
    | su => exact restArg_fits _ _ fun _ => trivial
    | deluser => exact restArg_fits _ _ fun _ => trivial
    | _ => trivial

theorem Session.sound_step {a : Session} (h : a.directory.Sound) (e : Executed) :
    (a.step e).directory.Sound := by
  have hfits := shellRequest_fits e.line
  unfold Session.step
  cases hrequest : shellRequest e.line with
  | adduser username fullName role =>
    rw [hrequest] at hfits
    exact h.add hfits _ role
  | service op name =>
    show (a.onService e.level e.ticks op name).1.directory.Sound
    unfold Session.onService
    split <;> exact h
  | logout => exact h.logout
  | login username password => exact h.login _ password
  | passwd username password => exact h.setPassword _ password
  | su username => exact h.setActive _
  | deluser username => exact h.disable _
  | _ => exact h

theorem Session.sound_run (file : Settings) (ticks : ServiceClock) (executed : List Executed) :
    (runSteps Session.step (.boot file ticks) executed).directory.Sound :=
  runSteps_invariant (I := fun a : Session => a.directory.Sound)
    (fun _ e h => Session.sound_step h e) executed
    ⟨by
      show (Directory.boot.accounts.map Account.name).Nodup
      decide, _, rfl, rfl⟩

/-! ## The prompt -/

def Session.promptReport (a : Session) : Report :=
  [("%s@", [textArg a.directory.activeName]),
    match a.settings.lookup promptKey.bytes with
    | none => ("acharyaos> ", [])
    | some [] => ("acharyaos> ", [])
    | some prompt => ("%s", [textArg prompt])]

theorem Represents.prompt {w : ShellWorld Other} {a : Session} (h : Represents w a) :
    shellPrintPrompt w = kprintfAll a.promptReport := by
  obtain ⟨hname, htext⟩ := h.directory.activeName
  have hget : (configGet w.config (some promptKey) (some valueArray)).map cText =
      a.settings.lookup promptKey.bytes := cText_configGet h.settings _
  have hcall : promptCall w =
      match a.settings.lookup promptKey.bytes with
      | none => ("acharyaos> ", [])
      | some [] => ("acharyaos> ", [])
      | some prompt => ("%s", [textArg prompt]) := by
    rw [← hget, promptCall]
    cases configGet w.config (some promptKey) (some valueArray) with
    | none => rfl
    | some prompt =>
      have hhead := cText_eq_nil_iff prompt
      rw [Option.map_some]
      cases hprompt : cText prompt with
      | nil =>
        rw [hprompt] at hhead
        have hzero : (prompt.headD 0 != 0) = false := bne_eq_false_iff_eq.mpr (hhead.mp rfl)
        simp only [hzero, Bool.false_eq_true, if_false]
      | cons c rest =>
        rw [hprompt] at hhead
        have hne : (prompt.headD 0 != 0) = true :=
          bne_iff_ne.mpr fun hzero => List.cons_ne_nil c rest (hhead.mpr hzero)
        simp only [hne, if_true]
        rw [← hprompt, textArg_cText]
  have hactive :
      (boundedCopy (List.replicate userNameMax 0) a.directory.activeName).headD 0 ≠ 0 := by
    rw [ne_eq, ← cText_eq_nil_iff, htext]
    exact h.directory.activeName_ne_nil
  unfold shellPrintPrompt
  simp only [hname, Bool.true_and, bne_iff_ne, ne_eq, hactive, not_false_eq_true, if_true, hcall]
  rw [← textArg_cText, htext]
  rfl

end AcharyaOS.Shell
