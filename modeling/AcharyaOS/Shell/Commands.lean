import AcharyaOS.Calc.Code
import AcharyaOS.Shell.Code

/-!
# The commands of the shell

The chain of comparisons in `shell_execute`, and the whole of a call: the line is expanded,
a command is picked for it, and the line is stored.  The commands that belong to the other
subsystems are a parameter; each is given the line and the state of those subsystems.
-/

namespace AcharyaOS.Shell

open Foundation Kio

/-- The branches of the chain. -/
inductive ShellCommand
  | help | clear | version | mem | vmem | ticks | sched | ps | taskmgr
  | gfxinfo | gfxdemo | wminfo | wmdemo | meninfo | mendemo | dskinfo | dskdemo
  | iconinfo | icondemo | settings | settinfo | settdemo | files | fileinfo | filedemo
  | ethinfo | arp | route | ping | udpinfo | mouse | btninfo | btndemo
  | spawn | syscall | disk | disktest | fs | ls | cat | writefs | rmfs | edit
  | calculate | browse | config | get | set | savecfg | loadcfg
  | pkg | pkginfo | install | remove
  | svc | svcinfo | start | stop | restart | enable | disable
  | users | whoami | auth | history | clearhist | login | logout | passwd | su
  | adduser | deluser | userdemo | log | loglevel | echo | halt
  deriving DecidableEq

/-- How a branch compares the line with its word: with `strcmp` or with `starts_with_word`. -/
inductive WordTest
  | whole | first
  deriving DecidableEq

/-- The chain, in its order. -/
def shellChain : List (ShellCommand × WordTest × String) :=
  [(.help, .whole, "help"), (.clear, .whole, "clear"), (.version, .whole, "version"),
    (.mem, .whole, "mem"), (.vmem, .whole, "vmem"), (.ticks, .whole, "ticks"),
    (.sched, .whole, "sched"), (.ps, .whole, "ps"), (.taskmgr, .whole, "taskmgr"),
    (.gfxinfo, .whole, "gfxinfo"), (.gfxdemo, .whole, "gfxdemo"), (.wminfo, .whole, "wminfo"),
    (.wmdemo, .whole, "wmdemo"), (.meninfo, .whole, "meninfo"), (.mendemo, .whole, "mendemo"),
    (.dskinfo, .whole, "dskinfo"), (.dskdemo, .whole, "dskdemo"),
    (.iconinfo, .whole, "iconinfo"), (.icondemo, .whole, "icondemo"),
    (.settings, .whole, "settings"), (.settinfo, .whole, "settinfo"),
    (.settdemo, .whole, "settdemo"), (.files, .whole, "files"),
    (.fileinfo, .whole, "fileinfo"), (.filedemo, .whole, "filedemo"),
    (.ethinfo, .whole, "ethinfo"), (.arp, .whole, "arp"), (.route, .whole, "route"),
    (.ping, .first, "ping"), (.udpinfo, .whole, "udpinfo"), (.mouse, .whole, "mouse"),
    (.btninfo, .whole, "btninfo"), (.btndemo, .whole, "btndemo"), (.spawn, .whole, "spawn"),
    (.syscall, .whole, "syscall"), (.disk, .whole, "disk"), (.disktest, .whole, "disktest"),
    (.fs, .whole, "fs"), (.ls, .whole, "ls"), (.cat, .first, "cat"),
    (.writefs, .first, "writefs"), (.rmfs, .first, "rmfs"), (.edit, .first, "edit"),
    (.calculate, .first, "calc"), (.browse, .first, "browse"), (.config, .whole, "config"),
    (.get, .first, "get"), (.set, .first, "set"), (.savecfg, .whole, "savecfg"),
    (.loadcfg, .whole, "loadcfg"), (.pkg, .whole, "pkg"), (.pkginfo, .first, "pkginfo"),
    (.install, .first, "install"), (.remove, .first, "remove"), (.svc, .whole, "svc"),
    (.svcinfo, .first, "svcinfo"), (.start, .first, "start"), (.stop, .first, "stop"),
    (.restart, .first, "restart"), (.enable, .first, "enable"), (.disable, .first, "disable"),
    (.users, .whole, "users"), (.whoami, .whole, "whoami"), (.auth, .whole, "auth"),
    (.history, .whole, "history"), (.clearhist, .whole, "clearhist"),
    (.login, .first, "login"), (.logout, .whole, "logout"), (.passwd, .first, "passwd"),
    (.su, .first, "su"), (.adduser, .first, "adduser"), (.deluser, .first, "deluser"),
    (.userdemo, .whole, "userdemo"), (.log, .whole, "log"), (.loglevel, .first, "loglevel"),
    (.echo, .first, "echo"), (.halt, .whole, "halt")]

/-- `starts_with_word`; a terminator in the line ends the comparison of `memcmp`. -/
def startsWithWord (line word : List UInt8) : Bool :=
  line.take word.length == word &&
    (line.getD word.length 0 == 0 || line.getD word.length 0 == ' '.toUInt8)

def WordTest.matches (t : WordTest) (line word : List UInt8) : Bool :=
  match t with
  | .whole => strcmp line word == 0
  | .first => startsWithWord line word

/-- The branch that is taken; the last, for an unknown command, is `none`. -/
def shellCommand (line : List UInt8) : Option ShellCommand :=
  (shellChain.find? fun e => e.2.1.matches line (asciiText e.2.2)).map Prod.fst

/-! ## What a command does -/

/-- What a command prints, what it leaves of the other subsystems, and whether it comes
back.  The text is `none` where `kprintf` is called with the wrong arguments. -/
structure CommandEffect (World : Type) where
  output : Option (List UInt8)
  world : World
  returns : Bool

/-- The bodies of the branches in the other subsystems. -/
abbrev SystemCommands (World : Type) := ShellCommand → List UInt8 → World → CommandEffect World

/-- Other subsystems without a state, whose commands do nothing. -/
def idleSystem : SystemCommands Unit := fun _ _ w => ⟨some [], w, true⟩

def textArg (text : List UInt8) : FormatArg := .str (.read text)

section Commands

variable {World : Type}

/-- The `calc` command.  After a divide error the processor is not back in the shell. -/
def shellCalc (w : World) (line : List UInt8) : CommandEffect World :=
  let expr := skipSpaces (line.drop 4)
  if expr.headD 0 == 0 then ⟨Calc.calcGetHelp, w, true⟩
  else
    match Calc.calcEvaluate (some (.read expr)) (some 0) with
    | .returned status value =>
        if status ≠ 0 then ⟨kprintfLit "calc error: invalid expression\n" [], w, true⟩
        else ⟨kprintfLit "%d\n" [.word (value.getD 0).toInt32.toUInt32], w, true⟩
    | .divideError => ⟨some [], w, false⟩
    | .outOfFuel => ⟨none, w, false⟩

/-- What the `history` command prints. -/
def shellHistoryList (s : ShellHistory) : Option (List UInt8) :=
  kprintfAll
    ((if s.count == 0 then [("(empty)\n", [])] else []) ++
      (List.range s.count).map fun i =>
        ("%d %s\n", [.word (UInt32.ofNat (i + 1)),
          textArg ((shellHistoryGet s i).elim [] (LinePointer.text s))]))

/-- The branch of the chain that the line takes. -/
def shellBranch (sys : SystemCommands World) (s : ShellHistory) (w : World)
    (line : List UInt8) : CommandEffect World :=
  match shellCommand line with
  | some .version => ⟨kprintfLit "AcharyaOS Phase 3, Feature 28 - Mouse Driver\n" [], w, true⟩
  | some .calculate => shellCalc w line
  | some .history => ⟨shellHistoryList s, w, true⟩
  | some .clearhist => ⟨kprintfLit "history cleared\n" [], w, true⟩
  | some .echo => ⟨kprintfLit "%s\n" [textArg (skipSpaces (line.drop 4))], w, true⟩
  | some .halt => ⟨kprintfLit "System halted.\n" [], w, false⟩
  | some command => sys command line w
  | none =>
      ⟨kprintfAll [("Unknown command: %s\n", [textArg line]),
        ("Type 'help' for available commands.\n", [])], w, true⟩

/-- What a call of `shell_execute` comes to: the history, the command executed, and what the
call did outside the history. -/
structure ShellOutcome (World : Type) where
  history : ShellHistory
  command : Option ShellCommand
  effect : CommandEffect World

/-- The report of a recall without an entry. -/
def recallFailure (line : List UInt8) : Option (List UInt8) :=
  if strcmp line repeatText == 0 then kprintfLit "history empty\n" []
  else kprintfLit "history entry not found\n" []

/-- What is printed in front of the command: a recall shows the entry. -/
def recallEcho (s : ShellHistory) : LinePointer → Option (List UInt8)
  | .line _ => some []
  | .slot i => kprintfLit "%s\n" [textArg ((LinePointer.slot i).text s)]

/-- Executing the line that was decided on. -/
def shellRunLine (sys : SystemCommands World) (s : ShellHistory) (w : World)
    (execLine : LinePointer) (line : List UInt8) : ShellOutcome World :=
  let effect := shellBranch sys s w line
  { history := shellRun s execLine line effect.returns
    command := shellCommand line
    effect := { effect with
      output := (recallEcho s execLine).bind fun echoed => effect.output.map (echoed ++ ·) } }

/-- `shell_execute`. -/
def shellExecuteWith (sys : SystemCommands World) (s : ShellHistory) (w : World)
    (origin : CString) : ShellOutcome World :=
  if skipSpaces origin.bytes == [] then ⟨s, none, ⟨some [], w, true⟩⟩
  else
    match shellExpand s origin.bytes with
    | .failed => ⟨s, none, ⟨recallFailure (skipSpaces origin.bytes), w, true⟩⟩
    | .run execLine copied =>
        shellRunLine sys s w execLine
          (if copied then (execLine.text s).take (shellLineMax - 1) else skipSpaces origin.bytes)

end Commands

end AcharyaOS.Shell
