import AcharyaOS.Config.Settings
import AcharyaOS.Service.Runs
import AcharyaOS.Shell.System
import AcharyaOS.User.Directory

/-!
# What the command lines mean

The command language of the shell for the settings, the accounts and the services: what a line
asks for, and what the request does to lists of settings and accounts and to the lives of the
services.  The branches of `shell_execute` answer every line with what is said here.
-/

namespace AcharyaOS.Shell

open Foundation Kio Disk Fs Config User Service Log

/-- The part of the system the requests are about. -/
structure Session where
  settings : Settings
  directory : Directory
  lives : ServiceId → Life

/-- Formats with their arguments, printed one after the other. -/
abbrev Report := List (String × List FormatArg)

inductive Request
  | config
  | get (key : CString)
  | set (key value : CString)
  | loadcfg
  | loglevel (name : String)
  | svc
  | svcinfo (name : CString)
  | service (op : ServiceOp) (name : CString)
  | users | whoami | auth | logout
  | login (username password : CString)
  | passwd (username password : CString)
  | su (username : CString)
  | adduser (username fullName : CString) (role : UserRole)
  | deluser (username : CString)
  /-- A line that is refused with a hint. -/
  | usage (text : String)
  /-- A line that is not about the session. -/
  | other
  deriving DecidableEq

/-! ## Reading a line -/

/-- The rest of the line is the argument. -/
def restArg (text : List UInt8) (usage : String) (request : CString → Request) : Request :=
  let arg := skipSpaces text
  if arg.headD 0 == 0 then .usage usage else request (.read arg)

/-- A first word and the rest of the line. -/
def wordArgs (size : Nat) (text : List UInt8) (usage : String)
    (request : CString → List UInt8 → Request) : Request :=
  let rest := skipSpaces text
  if lacksSecond rest then .usage usage
  else request (.read (splitAt size rest).1) (splitAt size rest).2

def credentialArgs (text : List UInt8) (usage : String)
    (request : CString → CString → Request) : Request :=
  wordArgs userNameMax text usage fun username password =>
    if password.headD 0 == 0 then .usage usage else request username (.read password)

def adduserArgs (username : CString) (rest : List UInt8) : Request :=
  let n := wordLength rest
  if n == 0 then .usage adduserUsage
  else
    let fullName := rest.take (if n ≥ userFullMax then userFullMax - 1 else n)
    match adduserRole (skipSpaces (rest.drop n)) with
    | none => .usage adduserUsage
    | some role => .adduser username (.read fullName) role

def loglevelArg (text : List UInt8) : Request :=
  let arg := skipSpaces text
  if arg.headD 0 == 0 then .other
  else
    match shellLevel arg with
    | none => .usage "usage: loglevel [trace|debug|info|warn|error|panic]\n"
    | some (name, _) => .loglevel name

/-- What a line asks for. -/
def shellRequest (line : List UInt8) : Request :=
  match shellCommand line with
  | some .config => .config
  | some .get => restArg (line.drop 3) "usage: get <key>\n" .get
  | some .set =>
      wordArgs configKeyMax (line.drop 3) "usage: set <key> <value>\n" fun key value =>
        .set key (.read value)
  | some .loadcfg => .loadcfg
  | some .loglevel => loglevelArg (line.drop 8)
  | some .svc => .svc
  | some .svcinfo => restArg (line.drop 7) "usage: svcinfo <service-name>\n" .svcinfo
  | some .start => restArg (line.drop 5) "usage: start <service-name>\n" (.service .start)
  | some .stop => restArg (line.drop 4) "usage: stop <service-name>\n" (.service .stop)
  | some .restart => restArg (line.drop 7) "usage: restart <service-name>\n" (.service .restart)
  | some .enable => restArg (line.drop 6) "usage: enable <service-name>\n" (.service .enable)
  | some .disable => restArg (line.drop 7) "usage: disable <service-name>\n" (.service .disable)
  | some .users => .users
  | some .whoami => .whoami
  | some .auth => .auth
  | some .logout => .logout
  | some .login => credentialArgs (line.drop 5) "usage: login <username> <password>\n" .login
  | some .passwd => credentialArgs (line.drop 6) "usage: passwd <username> <password>\n" .passwd
  | some .su => restArg (line.drop 2) "usage: su <username>\n" .su
  | some .adduser => wordArgs userNameMax (line.drop 7) adduserUsage adduserArgs
  | some .deluser => restArg (line.drop 7) "usage: deluser <username>\n" .deluser
  | _ => .other

/-! ## Answering it -/

/-- The texts for a call that failed and for one that did not. -/
def serviceTexts : ServiceOp → String × String
  | .start => ("service start failed: %s\n", "service started: %s\n")
  | .stop => ("service stop failed: %s\n", "service stopped: %s\n")
  | .restart => ("service restart failed: %s\n", "service restarted: %s\n")
  | .enable => ("service enable failed: %s\n", "service enabled: %s\n")
  | .disable => ("service disable failed: %s\n", "service disabled: %s\n")

def stateText (l : Life) : FormatArg := litArg (if l.running then "running" else "stopped")

namespace Session

variable (a : Session)

def configReport : Report :=
  [("configuration file: %s\n", [.str configFileName]),
      ("entries: %d/%d\n", [.word (.ofNat a.settings.length), .word (.ofNat configEntryMax)])] ++
    a.settings.map fun p => ("  %s = %s\n", [textArg p.1, textArg p.2])

def svcReport : Report :=
  ("services: %d total, %d enabled, %d running\n",
      [.word 3, .word (.ofNat (ServiceId.all.countP fun k => (a.lives k).enabled)),
        .word (.ofNat (ServiceId.all.countP fun k => (a.lives k).running))]) ::
    ServiceId.all.map fun k =>
      ("  %s [%s] enabled=%d started=%d stopped=%d\n",
        [.str k.name, stateText (a.lives k), .word (.ofNat (a.lives k).enabled.toNat),
          .word (.ofNat (a.lives k).starts), .word (.ofNat (a.lives k).stops)])

def svcinfoReport (k : ServiceId) : Report :=
  [("name: %s\n", [.str k.name]), ("description: %s\n", [.str k.description]),
    ("state: %s\n", [stateText (a.lives k)]),
    ("enabled: %d\n", [.word (.ofNat (a.lives k).enabled.toNat)]),
    ("last started: %d\n", [.word (a.lives k).lastStarted.toUInt32]),
    ("last stopped: %d\n", [.word (a.lives k).lastStopped.toUInt32]),
    ("start count: %d\n", [.word (.ofNat (a.lives k).starts)]),
    ("stop count: %d\n", [.word (.ofNat (a.lives k).stops)])]

def usersReport : Report :=
  ("users: %d total, %d enabled, active=%s\n",
      [.word (.ofNat a.directory.accounts.length),
        .word (.ofNat (a.directory.accounts.countP Account.enabled)),
        textArg a.directory.activeName]) ::
    a.directory.accounts.zipIdx.map fun p =>
      ("  %s [%s] uid=%d enabled=%d name=%s\n",
        [textArg p.1.name, litArg (userRoleName p.1.role), .word (.ofNat (p.2 + 1)),
          .word p.1.enabled.toNat.toUInt32, textArg p.1.fullName])

def whoamiReport : Report :=
  match a.directory.accounts[a.directory.active]? with
  | none => [("no active user\n", [])]
  | some u => [("%s (%s)\n", [textArg u.name, litArg (userRoleName u.role)])]

def authReport : Report :=
  [("authenticated: %d active=%s uid=%d\n",
    [.word a.directory.authenticated.toNat.toUInt32, textArg a.directory.activeName,
      .word (.ofNat (a.directory.active + 1))])]

/-- A change of the directory, with the reports for a refusal and for success. -/
def onDirectory (r : Directory × Bool) (failed done : String × List FormatArg) :
    Session × Option Report :=
  ({ a with directory := r.1 }, some [if r.2 then done else failed])

/-- A call of the services while the log takes messages from a level on. -/
def onService (level : LogLevel) (ticks : ServiceClock) (op : ServiceOp) (name : CString) :
    Session × Option Report :=
  match serviceOf name with
  | none => (a, some [((serviceTexts op).1, [.str name])])
  | some k =>
      ({ a with lives := Function.update a.lives k ((a.lives k).apply (ticks k.slot) op) },
        some ((a.lives k).prints level (ticks k.slot) k op ++
          [((serviceTexts op).2, [.str name])]))

/-- What a request does, and what is printed if the request settles it.  `loadcfg` takes over
the settings of the file. -/
def perform (file : Settings) (level : LogLevel) (ticks : ServiceClock) :
    Request → Session × Option Report
  | .config => (a, some a.configReport)
  | .get key =>
      (a, some [match a.settings.lookup key.bytes with
        | none => ("config key not found: %s\n", [.str key])
        | some value => ("%s\n", [textArg value])])
  | .set key value =>
      let r := a.settings.set key.bytes value.bytes
      ({ a with settings := r.1 },
        some [if r.2 then ("set %s = %s\n", [.str key, .str value])
          else ("config set failed\n", [])])
  | .loadcfg => ({ a with settings := file }, some [("configuration loaded\n", [])])
  | .loglevel name =>
      ({ a with settings := (a.settings.set loglevelKey.bytes (asciiText name)).1 },
        some [("minimum log level set to %s\n", [litArg name])])
  | .svc => (a, some a.svcReport)
  | .svcinfo name =>
      (a, some (match serviceOf name with
        | none => [("service not found: %s\n", [.str name])]
        | some k => a.svcinfoReport k))
  | .service op name => a.onService level ticks op name
  | .users => (a, some a.usersReport)
  | .whoami => (a, some a.whoamiReport)
  | .auth => (a, some a.authReport)
  | .logout => ({ a with directory := a.directory.logout }, some [("logged out\n", [])])
  | .login username password =>
      a.onDirectory (a.directory.login username.bytes password) ("login failed\n", [])
        ("logged in as %s\n", [.str username])
  | .passwd username password =>
      a.onDirectory (a.directory.setPassword username.bytes password) ("passwd failed\n", [])
        ("password updated for %s\n", [.str username])
  | .su username =>
      a.onDirectory (a.directory.setActive username.bytes)
        ("switch user failed: %s\n", [.str username])
        ("active user is now %s\n", [.str username])
  | .adduser username fullName role =>
      a.onDirectory (a.directory.add username.bytes fullName.bytes role) ("adduser failed\n", [])
        ("user added: %s\n", [.str username])
  | .deluser username =>
      a.onDirectory (a.directory.disable username.bytes) ("deluser failed: %s\n", [.str username])
        ("user disabled: %s\n", [.str username])
  | .usage text => (a, some [(text, [])])
  | .other => (a, none)

end Session

end AcharyaOS.Shell
