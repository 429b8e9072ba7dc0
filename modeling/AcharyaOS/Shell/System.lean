import AcharyaOS.Config.Code
import AcharyaOS.Service.Code
import AcharyaOS.Shell.Commands
import AcharyaOS.User.Code

/-!
# The commands on the subsystems

The branches of `shell_execute` that work on the settings, the accounts, the services, the log
and the files.  The branches that are left, of the editor, the browser, the packages, the
network and the screen, are a parameter; they do not reach the settings, the accounts and the
services.
-/

namespace AcharyaOS.Shell

open Foundation Kio Disk Fs Config User Service Log

/-- What the commands left to the parameter work on. -/
structure ShellRest (Other : Type) where
  fs : FsState
  log : LogState
  other : Other

structure ShellWorld (Other : Type) extends ShellRest Other where
  config : ConfigTable
  users : UserState
  services : ServiceTable

/-- What the hardware does while one line is executed: the readings of the timer and the faults
of the disk. -/
structure ShellMoment where
  ticks : ServiceClock
  faults : Faults

variable {Other : Type}

/-- A command that prints and comes back. -/
def say (w : ShellWorld Other) (calls : List (String × List FormatArg)) :
    CommandEffect (ShellWorld Other) :=
  ⟨kprintfAll calls, w, true⟩

/-! ## Words of a line -/

/-- `while (s[n] != '\0' && s[n] != ' ') n++;` -/
def wordLength (s : List UInt8) : Nat := (s.takeWhile fun c => c != 0 && c != ' '.toUInt8).length

/-- Where the second word starts.  The cut of a long first word moves the place. -/
def splitAt (size : Nat) (rest : List UInt8) : List UInt8 × List UInt8 :=
  let n := wordLength rest
  let n := if n ≥ size then size - 1 else n
  (rest.take n, skipSpaces (rest.drop n))

/-- The first word is missing, or nothing is behind it. -/
def lacksSecond (rest : List UInt8) : Bool :=
  wordLength rest == 0 || rest.getD (wordLength rest) 0 == 0

/-! ## Files -/

def shellFs (w : ShellWorld Other) : CommandEffect (ShellWorld Other) :=
  let info := w.fs.info
  if !info.mounted then say w [("filesystem not mounted\n", [])]
  else
    say w
      [("filesystem mounted\n", []), ("label: %s\n", [textArg info.volumeLabel.toList]),
        ("files: %d used: %d\n", [.word info.totalFiles, .word info.usedFiles]),
        ("data start lba: %d\n", [.word info.dataStartLba])]

def shellLs (w : ShellWorld Other) : CommandEffect (ShellWorld Other) :=
  let files := fsListFiles w.fs fsFilesMax
  say w
    ((if files.length == 0 then [("(empty)\n", [])] else []) ++
      files.map fun e =>
        ("%s %d bytes @ lba %d\n", [textArg e.name.toList, .word e.sizeBytes, .word e.startLba]))

/-- `sizeof(buffer)` in the `cat` command. -/
abbrev catBufferSize : Nat := fsBlockSize * 4

def shellCat (m : ShellMoment) (w : ShellWorld Other) (line : List UInt8) :
    CommandEffect (ShellWorld Other) :=
  let name := skipSpaces (line.drop 3)
  if name.headD 0 == 0 then say w [("usage: cat <name>\n", [])]
  else
    let r := fsReadFile (w.fs.withFaults m.faults) (some (.read name)) catBufferSize
    let w := { w with fs := r.1.withFaults .none }
    match r.2 with
    | none => say w [("cat failed\n", [])]
    | some (size, buffer) =>
        let stop := if size < catBufferSize then size else catBufferSize - 1
        say w [("%s\n", [textArg (buffer.take stop)])]

def shellWritefs (m : ShellMoment) (w : ShellWorld Other) (line : List UInt8) :
    CommandEffect (ShellWorld Other) :=
  let name := skipSpaces (line.drop 7)
  if lacksSecond name then say w [("usage: writefs <name> <text>\n", [])]
  else
    let n := wordLength name
    let fileName := name.take (if n ≥ fsNameMax then fsNameMax - 1 else n)
    -- here the text is looked for behind the whole word
    let text := skipSpaces (name.drop n)
    let r := fsExec w.fs (m.faults, .writeFile (some (.read fileName)) (some text))
    let w := { w with fs := r.1 }
    if r.2 ≠ 0 then say w [("writefs failed\n", [])]
    else say w [("wrote %s\n", [textArg fileName])]

def shellRmfs (m : ShellMoment) (w : ShellWorld Other) (line : List UInt8) :
    CommandEffect (ShellWorld Other) :=
  let name := skipSpaces (line.drop 4)
  if name.headD 0 == 0 then say w [("usage: rmfs <name>\n", [])]
  else
    let r := fsExec w.fs (m.faults, .deleteFile (.read name))
    let w := { w with fs := r.1 }
    if r.2 ≠ 0 then say w [("rmfs failed\n", [])] else say w [("deleted %s\n", [textArg name])]

/-! ## Settings -/

def shellConfig (w : ShellWorld Other) : CommandEffect (ShellWorld Other) :=
  let stats := configGetStats w.config
  say w
    ([("configuration file: %s\n", [textArg stats.backingFile]),
        ("entries: %d/%d\n",
          [.word (.ofNat stats.usedEntries), .word (.ofNat stats.totalEntries)])] ++
      (configList w.config configEntryMax).map fun e =>
        ("  %s = %s\n", [textArg e.key.bytes, textArg e.value.bytes]))

/-- The array for a value; `config_get` overwrites what it held before up to a terminator. -/
def valueArray : List UInt8 := List.replicate configValueMax 0

def shellGet (w : ShellWorld Other) (line : List UInt8) : CommandEffect (ShellWorld Other) :=
  let key := skipSpaces (line.drop 3)
  if key.headD 0 == 0 then say w [("usage: get <key>\n", [])]
  else
    match configGet w.config (some (.read key)) (some valueArray) with
    | none => say w [("config key not found: %s\n", [textArg key])]
    | some value => say w [("%s\n", [textArg value])]

def shellSet (w : ShellWorld Other) (line : List UInt8) : CommandEffect (ShellWorld Other) :=
  let rest := skipSpaces (line.drop 3)
  if lacksSecond rest then say w [("usage: set <key> <value>\n", [])]
  else
    let (key, value) := splitAt configKeyMax rest
    let r := configSet w.config (some (.read key)) (some (.read value))
    let w := { w with config := r.1 }
    if r.2 ≠ 0 then say w [("config set failed\n", [])]
    else say w [("set %s = %s\n", [textArg key, textArg value])]

def shellSavecfg (m : ShellMoment) (w : ShellWorld Other) : CommandEffect (ShellWorld Other) :=
  let r := configSave w.fs m.faults w.config
  let w := { w with fs := r.1 }
  if r.2 ≠ 0 then say w [("config save failed\n", [])]
  else say w [("configuration saved\n", [])]

theorem loglevelKey_noNul : (0 : UInt8) ∉ [108, 111, 103, 108, 101, 118, 101, 108] := by decide

/-- "loglevel" -/
def loglevelKey : CString := ⟨[108, 111, 103, 108, 101, 118, 101, 108], loglevelKey_noNul⟩

/-- The names the shell knows, in the order of its comparisons. -/
def shellLevels : List (String × LogLevel) :=
  [("trace", 0), ("debug", 1), ("info", 2), ("warn", 3), ("error", 4), ("panic", 5)]

def shellLevel (arg : List UInt8) : Option (String × LogLevel) :=
  shellLevels.find? fun p => strcmp arg (asciiText p.1) == 0

/-- `char level[16]` in the `loadcfg` command. -/
def levelArray : List UInt8 := List.replicate 16 0

/-- The level the settings name, which is also taken over when the kernel starts. -/
def applyLoglevel (t : ConfigTable) (log : LogState) : LogState :=
  ((configGet t (some loglevelKey) (some levelArray)).bind shellLevel).elim log fun p =>
    logSetMinimumLevel log p.2

def shellLoadcfg (m : ShellMoment) (w : ShellWorld Other) : CommandEffect (ShellWorld Other) :=
  let r := configLoad (w.fs.withFaults m.faults)
  let w := { w with fs := r.1.withFaults .none, config := r.2.1 }
  if r.2.2 ≠ 0 then say w [("config load failed\n", [])]
  else say { w with log := applyLoglevel w.config w.log } [("configuration loaded\n", [])]

/-! ## Services -/

/-- A command that passes its argument to a call of the services.  What their hooks print comes
before its own text. -/
def shellService (m : ShellMoment) (w : ShellWorld Other) (arg : List UInt8)
    (usage failed done : String) (op : ServiceOp) : CommandEffect (ShellWorld Other) :=
  if arg.headD 0 == 0 then say w [(usage, [])]
  else
    let r := (ServiceCall.on op (.read arg)).perform ⟨w.services, w.log, []⟩ m.ticks
    let w := { w with services := r.1.services, log := r.1.log }
    if r.2 ≠ 0 then say w (r.1.console ++ [(failed, [textArg arg])])
    else say w (r.1.console ++ [(done, [textArg arg])])

def shellStart (m : ShellMoment) (w : ShellWorld Other) (line : List UInt8) :
    CommandEffect (ShellWorld Other) :=
  shellService m w (skipSpaces (line.drop 5)) "usage: start <service-name>\n"
    "service start failed: %s\n" "service started: %s\n" .start

def shellStop (m : ShellMoment) (w : ShellWorld Other) (line : List UInt8) :
    CommandEffect (ShellWorld Other) :=
  shellService m w (skipSpaces (line.drop 4)) "usage: stop <service-name>\n"
    "service stop failed: %s\n" "service stopped: %s\n" .stop

def shellRestart (m : ShellMoment) (w : ShellWorld Other) (line : List UInt8) :
    CommandEffect (ShellWorld Other) :=
  shellService m w (skipSpaces (line.drop 7)) "usage: restart <service-name>\n"
    "service restart failed: %s\n" "service restarted: %s\n" .restart

def shellEnable (m : ShellMoment) (w : ShellWorld Other) (line : List UInt8) :
    CommandEffect (ShellWorld Other) :=
  shellService m w (skipSpaces (line.drop 6)) "usage: enable <service-name>\n"
    "service enable failed: %s\n" "service enabled: %s\n" .enable

def shellDisable (m : ShellMoment) (w : ShellWorld Other) (line : List UInt8) :
    CommandEffect (ShellWorld Other) :=
  shellService m w (skipSpaces (line.drop 7)) "usage: disable <service-name>\n"
    "service disable failed: %s\n" "service disabled: %s\n" .disable

/-- A string literal as an argument. -/
def litArg (text : String) : FormatArg := textArg (asciiText text)

def shellSvc (w : ShellWorld Other) : CommandEffect (ShellWorld Other) :=
  let stats := serviceGetStats w.services
  say w
    (("services: %d total, %d enabled, %d running\n",
        [.word (.ofNat stats.totalServices), .word (.ofNat stats.enabledServices),
          .word (.ofNat stats.runningServices)]) ::
      (serviceList w.services serviceEntryMax).map fun e =>
        ("  %s [%s] enabled=%d started=%d stopped=%d\n",
          [textArg e.name.bytes, litArg (serviceStateName e.state), .word e.enabled.toUInt32,
            .word e.startCount, .word e.stopCount]))

def shellSvcinfo (w : ShellWorld Other) (line : List UInt8) : CommandEffect (ShellWorld Other) :=
  let name := skipSpaces (line.drop 7)
  if name.headD 0 == 0 then say w [("usage: svcinfo <service-name>\n", [])]
  else
    match serviceInfo w.services (some (.read name)) with
    | none => say w [("service not found: %s\n", [textArg name])]
    | some e =>
        say w
          [("name: %s\n", [textArg e.name.bytes]),
            ("description: %s\n", [textArg e.description.bytes]),
            ("state: %s\n", [litArg (serviceStateName e.state)]),
            ("enabled: %d\n", [.word e.enabled.toUInt32]),
            ("last started: %d\n", [.word e.lastStartedTick.toUInt32]),
            ("last stopped: %d\n", [.word e.lastStoppedTick.toUInt32]),
            ("start count: %d\n", [.word e.startCount]),
            ("stop count: %d\n", [.word e.stopCount])]

/-! ## Accounts -/

def shellUsers (w : ShellWorld Other) : CommandEffect (ShellWorld Other) :=
  let stats := userGetStats w.users
  say w
    (("users: %d total, %d enabled, active=%s\n",
        [.word (.ofNat stats.totalUsers), .word (.ofNat stats.enabledUsers),
          textArg stats.activeUsername]) ::
      (userList w.users userEntryMax).map fun e =>
        ("  %s [%s] uid=%d enabled=%d name=%s\n",
          [textArg e.username.toList, litArg (userRoleName e.role), .word e.uid,
            .word e.enabled.toNat.toUInt32, textArg e.fullName.toList]))

def shellWhoami (w : ShellWorld Other) : CommandEffect (ShellWorld Other) :=
  match userGetActive w.users with
  | none => say w [("no active user\n", [])]
  | some active =>
      say w [("%s (%s)\n", [textArg active.username.toList, litArg (userRoleName active.role)])]

def shellAuth (w : ShellWorld Other) : CommandEffect (ShellWorld Other) :=
  let stats := userGetStats w.users
  say w
    [("authenticated: %d active=%s uid=%d\n",
      [.word stats.authenticated.toNat.toUInt32, textArg stats.activeUsername,
        .word stats.activeUid])]

/-- A call of the registry. -/
def onUsers (w : ShellWorld Other) (r : UserState × Int) : ShellWorld Other × Int :=
  ({ w with users := r.1 }, r.2)

/-- The two commands that take the name of an account. -/
def shellNamed (w : ShellWorld Other) (arg : List UInt8) (usage failed done : String)
    (call : CString → ShellWorld Other × Int) : CommandEffect (ShellWorld Other) :=
  if arg.headD 0 == 0 then say w [(usage, [])]
  else
    let r := call (.read arg)
    if r.2 ≠ 0 then say r.1 [(failed, [textArg arg])] else say r.1 [(done, [textArg arg])]

/-- The two commands that take a name and a password. -/
def shellCredentials (w : ShellWorld Other) (rest : List UInt8) (usage failed done : String)
    (call : CString → CString → ShellWorld Other × Int) : CommandEffect (ShellWorld Other) :=
  if lacksSecond rest then say w [(usage, [])]
  else
    let (username, password) := splitAt userNameMax rest
    if password.headD 0 == 0 then say w [(usage, [])]
    else
      let r := call (.read username) (.read password)
      if r.2 ≠ 0 then say r.1 [(failed, [])] else say r.1 [(done, [textArg username])]

def shellLogin (w : ShellWorld Other) (line : List UInt8) : CommandEffect (ShellWorld Other) :=
  shellCredentials w (skipSpaces (line.drop 5)) "usage: login <username> <password>\n"
    "login failed\n" "logged in as %s\n"
    fun username password => onUsers w (userLogin w.users username (some password))

def shellPasswd (w : ShellWorld Other) (line : List UInt8) : CommandEffect (ShellWorld Other) :=
  shellCredentials w (skipSpaces (line.drop 6)) "usage: passwd <username> <password>\n"
    "passwd failed\n" "password updated for %s\n"
    fun username password => onUsers w (userSetPassword w.users username (some password))

def shellLogout (w : ShellWorld Other) : CommandEffect (ShellWorld Other) :=
  say { w with users := userLogout w.users } [("logged out\n", [])]

def shellSu (w : ShellWorld Other) (line : List UInt8) : CommandEffect (ShellWorld Other) :=
  shellNamed w (skipSpaces (line.drop 2)) "usage: su <username>\n" "switch user failed: %s\n"
    "active user is now %s\n" fun name => onUsers w (userSetActive w.users name)

def shellDeluser (w : ShellWorld Other) (line : List UInt8) : CommandEffect (ShellWorld Other) :=
  shellNamed w (skipSpaces (line.drop 7)) "usage: deluser <username>\n" "deluser failed: %s\n"
    "user disabled: %s\n" fun name => onUsers w (userDisable w.users name)

def adduserUsage : String := "usage: adduser <username> <full name> [guest|user|admin]\n"

/-- The role a text names; no text is that of a user. -/
def adduserRole (roleText : List UInt8) : Option UserRole :=
  if roleText.headD 0 == 0 || strcmp roleText (asciiText "user") == 0 then some .user
  else if strcmp roleText (asciiText "guest") == 0 then some .guest
  else if strcmp roleText (asciiText "admin") == 0 then some .admin
  else none

def shellAdduser (w : ShellWorld Other) (line : List UInt8) : CommandEffect (ShellWorld Other) :=
  let rest := skipSpaces (line.drop 7)
  if lacksSecond rest then say w [(adduserUsage, [])]
  else
    let (username, rest) := splitAt userNameMax rest
    let n := wordLength rest
    if n == 0 then say w [(adduserUsage, [])]
    else
      let fullName := rest.take (if n ≥ userFullMax then userFullMax - 1 else n)
      match adduserRole (skipSpaces (rest.drop n)) with
      | none => say w [(adduserUsage, [])]
      | some role =>
          let r := userAdd w.users (some (.read username)) (some (.read fullName)) role
          let w := { w with users := r.1 }
          if r.2 ≠ 0 then say w [("adduser failed\n", [])]
          else say w [("user added: %s\n", [textArg username])]

/-! ## The log -/

def shellLog (w : ShellWorld Other) : CommandEffect (ShellWorld Other) :=
  let entries := logCopyEntries w.log logBufferMax
  say w
    ((if entries.length == 0 then [("(log buffer empty)\n", [])] else []) ++
      entries.map fun e =>
        ("[%s][%d] %s\n",
          [litArg (logLevelName e.level), .word e.tick.toUInt32, textArg e.message.toList]))

def shellLoglevel (w : ShellWorld Other) (line : List UInt8) : CommandEffect (ShellWorld Other) :=
  let arg := skipSpaces (line.drop 8)
  if arg.headD 0 == 0 then
    say w
      [("minimum log level: %s\n", [litArg (logLevelName w.log.minimumLevel)]),
        ("levels: trace debug info warn error panic\n", [])]
  else
    match shellLevel arg with
    | none => say w [("usage: loglevel [trace|debug|info|warn|error|panic]\n", [])]
    | some (name, level) =>
        let log := logSetMinimumLevel w.log level
        let r := configSet w.config (some loglevelKey) (some (.read (asciiText name)))
        say { w with log := log, config := r.1 }
          [("minimum log level set to %s\n", [litArg (logLevelName log.minimumLevel)])]

/-! ## All of them -/

/-- The commands that are left, on their part of the world. -/
def onRest (others : SystemCommands (ShellRest Other)) (command : ShellCommand)
    (line : List UInt8) (w : ShellWorld Other) : CommandEffect (ShellWorld Other) :=
  let e := others command line w.toShellRest
  ⟨e.output, { w with toShellRest := e.world }, e.returns⟩

def shellSystem (others : SystemCommands (ShellRest Other)) (m : ShellMoment) :
    SystemCommands (ShellWorld Other) := fun command line w =>
  match command with
  | .fs => shellFs w
  | .ls => shellLs w
  | .cat => shellCat m w line
  | .writefs => shellWritefs m w line
  | .rmfs => shellRmfs m w line
  | .config => shellConfig w
  | .get => shellGet w line
  | .set => shellSet w line
  | .savecfg => shellSavecfg m w
  | .loadcfg => shellLoadcfg m w
  | .svc => shellSvc w
  | .svcinfo => shellSvcinfo w line
  | .start => shellStart m w line
  | .stop => shellStop m w line
  | .restart => shellRestart m w line
  | .enable => shellEnable m w line
  | .disable => shellDisable m w line
  | .users => shellUsers w
  | .whoami => shellWhoami w
  | .auth => shellAuth w
  | .login => shellLogin w line
  | .logout => shellLogout w
  | .passwd => shellPasswd w line
  | .su => shellSu w line
  | .adduser => shellAdduser w line
  | .deluser => shellDeluser w line
  | .log => shellLog w
  | .loglevel => shellLoglevel w line
  | command => onRest others command line w

theorem promptKey_noNul : (0 : UInt8) ∉ [112, 114, 111, 109, 112, 116] := by decide

/-- "prompt" -/
def promptKey : CString := ⟨[112, 114, 111, 109, 112, 116], promptKey_noNul⟩

/-- The setting `shell_print_prompt` shows, or the text it has for none. -/
def promptCall (w : ShellWorld Other) : String × List FormatArg :=
  match configGet w.config (some promptKey) (some valueArray) with
  | none => ("acharyaos> ", [])
  | some prompt => if prompt.headD 0 != 0 then ("%s", [textArg prompt]) else ("acharyaos> ", [])

/-- `shell_print_prompt`, without the colours. -/
def shellPrintPrompt (w : ShellWorld Other) : Option (List UInt8) :=
  let active := userGetActiveName w.users (List.replicate userNameMax 0)
  kprintfAll
    ((if active.2 && active.1.headD 0 != 0 then [("%s@", [textArg active.1])] else []) ++
      [promptCall w])

end AcharyaOS.Shell
