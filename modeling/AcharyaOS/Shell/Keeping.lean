import AcharyaOS.Shell.Session
import AcharyaOS.User.Credentials

/-!
# What a command leaves for later ones

A password and a setting stay as they were given, whatever lines are executed in between, until
a line is about them again.
-/

namespace AcharyaOS.Shell

open Foundation Foundation.Run Kio Disk Fs Config User Service Log

variable {Other : Type}

/-! A machine on which nothing else happens, for the examples. -/

def idleMoment : ShellMoment := ⟨fun _ _ => ⟨0, 0, 0⟩, .none⟩

def idleKmain : KmainMoment := ⟨0, 0, 0, 0, idleMoment.ticks, .none⟩

def idleRest : SystemCommands (ShellRest Unit) := fun _ _ w => ⟨some [], w, true⟩

/-- The shell of that machine after some lines. -/
def idleShell (lines : List String) : ShellSession Unit :=
  runSteps (sessionStep idleRest) (shellBoot (fsBlankDisk 5000) [] idleKmain ())
    (lines.map fun line => .line (.read (asciiText line)) idleMoment)

/-! ## Passwords -/

/-- The requests that change what a login of the account is decided by. -/
def Request.Recredentials (name : List UInt8) : Request → Prop
  | .passwd username _ => username.bytes = name
  | .deluser username => username.bytes = name
  | _ => False

theorem Session.credential_step {a : Session} {name : List UInt8} {c : Bool × UInt64}
    (h : a.directory.credential name = some c) {e : Executed}
    (hother : ¬ (shellRequest e.line).Recredentials name) :
    (a.step e).directory.credential name = some c := by
  unfold Session.step
  cases hrequest : shellRequest e.line with
  | adduser username fullName role => exact Directory.credential_add h _ role
  | deluser username =>
    rw [hrequest] at hother
    exact (Directory.credential_disable hother).trans h
  | passwd username password =>
    rw [hrequest] at hother
    exact (Directory.credential_setPassword_of_ne hother password).trans h
  | login username password => exact (Directory.credential_login password).trans h
  | su username => exact Directory.credential_setActive.trans h
  | service op name' =>
    show (a.onService e.level e.ticks op name').1.directory.credential name = some c
    unfold Session.onService
    split <;> exact h
  | _ => exact h

theorem Session.credential_run {a : Session} {name : List UInt8} {c : Bool × UInt64}
    (h : a.directory.credential name = some c) {executed : List Executed}
    (hother : ∀ e ∈ executed, ¬ (shellRequest e.line).Recredentials name) :
    (runSteps Session.step a executed).directory.credential name = some c :=
  runSteps_invariant_of_forall (I := fun a : Session => a.directory.credential name = some c)
    (C := fun e => ¬ (shellRequest e.line).Recredentials name)
    (fun _ _ hother h => Session.credential_step h hother) executed hother h

/-- After a `passwd` for an account in use, and until the next `passwd` or `deluser` for it, a
`login` is answered by comparing with that password, however many logins have failed. -/
theorem login_after_passwd (others : SystemCommands (ShellRest Other)) (fs : FsState)
    (logged : List LogCall) (k : KmainMoment) (other : Other)
    (events : List (ShellEvent Other)) {before after : List Executed} {e : Executed}
    {username password : CString} {account : Account}
    (hexecuted : (runSteps (sessionStep others) (shellBoot fs logged k other) events).executed =
      before ++ e :: after)
    (hpasswd : shellRequest e.line = .passwd username password)
    (haccount : (runSteps Session.step (.boot (.load (configLoadedLines fs)) k.hooks)
      before).directory.account username.bytes = some account)
    (henabled : account.enabled = true)
    (hother : ∀ l ∈ after, ¬ (shellRequest l.line).Recredentials username.bytes)
    (m : ShellMoment) {line : List UInt8} {attempt : CString}
    (hlogin : shellRequest line = .login username attempt) :
    let s := runSteps (sessionStep others) (shellBoot fs logged k other) events
    (shellBranch (shellSystem others m) s.history s.world line).output =
      kprintfAll
        [if userHashPassword password ≠ 0 ∧ userHashPassword password = userHashPassword attempt
          then ("logged in as %s\n", [.str username])
          else ("login failed\n", [])] := by
  intro s
  have hcredential : (runSteps Session.step (.boot (.load (configLoadedLines fs)) k.hooks)
      before).directory.credential username.bytes = some (true, account.hash) := by
    rw [Directory.credential, haccount, Option.map_some, Account.credential, henabled]
  have hset : ((runSteps Session.step (.boot (.load (configLoadedLines fs)) k.hooks)
      before).step e).directory.credential username.bytes =
        some (true, userHashPassword password) := by
    unfold Session.step
    rw [hpasswd]
    exact Directory.credential_setPassword hcredential password
  have hnow : (runSteps Session.step (.boot (.load (configLoadedLines fs)) k.hooks)
      s.executed).directory.credential username.bytes =
        some (true, userHashPassword password) := by
    rw [hexecuted, runSteps_append]
    exact Session.credential_run hset hother
  have hfollows := (follows_boot fs logged k other).run others events
  have hmeets := Represents.branch hfollows others s.history m line
  rw [hlogin] at hmeets
  have hanswer := (hmeets.answers _ rfl).1
  rw [hanswer, Directory.login_accepts hnow]
  congr 2
  by_cases hzero : userHashPassword password = 0
  · simp [hzero]
  · by_cases hsame : userHashPassword password = userHashPassword attempt
    · simp [hsame]
    · simp [hsame]

theorem login_after_passwd_guest :
    (shellBranch (shellSystem idleRest idleMoment) (idleShell ["passwd guest k"]).history
      (idleShell ["passwd guest k"]).world (asciiText "login guest k")).output =
        kprintfAll [("logged in as %s\n", [.str guestName])] := by
  have hexecuted : (idleShell ["passwd guest k"]).executed =
      [] ++ ⟨asciiText "passwd guest k",
        fileSettings idleMoment (idleShell []).world.fs, (idleShell []).world.log.minimumLevel,
        idleMoment.ticks⟩ :: [] := by
    rfl
  have hpasswd : shellRequest (asciiText "passwd guest k") =
      .passwd guestName (.read (asciiText "k")) := by
    decide +kernel
  have hlogin : shellRequest (asciiText "login guest k") =
      .login guestName (.read (asciiText "k")) := by
    decide +kernel
  have hanswer := login_after_passwd idleRest (fsBlankDisk 5000) [] idleKmain () _
    hexecuted hpasswd rfl rfl (fun _ h => absurd h List.not_mem_nil) idleMoment hlogin
  have hhash : userHashPassword (.read (asciiText "k")) ≠ 0 := by
    decide +kernel
  exact hanswer.trans (by rw [if_pos ⟨hhash, rfl⟩])

/-! ## Settings -/

/-- The requests that change a setting; the others that load them all. -/
def Request.Resets (key : List UInt8) : Request → Prop
  | .set changed _ => changed.bytes = key
  | .loglevel _ => loglevelKey.bytes = key
  | .loadcfg => True
  | _ => False

theorem Session.lookup_step {a : Session} {key value : List UInt8}
    (h : a.settings.lookup key = some value) {e : Executed}
    (hother : ¬ (shellRequest e.line).Resets key) :
    (a.step e).settings.lookup key = some value := by
  unfold Session.step
  cases hrequest : shellRequest e.line with
  | set other newValue =>
    rw [hrequest] at hother
    exact Settings.lookup_set_of_ne (Ne.symm hother) h _
  | loglevel name =>
    rw [hrequest] at hother
    exact Settings.lookup_set_of_ne (Ne.symm hother) h _
  | loadcfg =>
    rw [hrequest] at hother
    exact absurd trivial hother
  | service op name =>
    show (a.onService e.level e.ticks op name).1.settings.lookup key = some value
    unfold Session.onService
    split <;> exact h
  | _ => exact h

theorem Session.lookup_run {a : Session} {key value : List UInt8}
    (h : a.settings.lookup key = some value) {executed : List Executed}
    (hother : ∀ e ∈ executed, ¬ (shellRequest e.line).Resets key) :
    (runSteps Session.step a executed).settings.lookup key = some value :=
  runSteps_invariant_of_forall (I := fun a : Session => a.settings.lookup key = some value)
    (C := fun e => ¬ (shellRequest e.line).Resets key)
    (fun _ _ hother h => Session.lookup_step h hother) executed hother h

/-- After a `set` that was accepted, and until the key is set again or the file is loaded,
`get` shows as much of the value as is stored. -/
theorem get_after_set (others : SystemCommands (ShellRest Other)) (fs : FsState)
    (logged : List LogCall) (k : KmainMoment) (other : Other)
    (events : List (ShellEvent Other)) {before after : List Executed} {e : Executed}
    {key value : CString}
    (hexecuted : (runSteps (sessionStep others) (shellBoot fs logged k other) events).executed =
      before ++ e :: after)
    (hset : shellRequest e.line = .set key value)
    (haccepted : ((runSteps Session.step (.boot (.load (configLoadedLines fs)) k.hooks)
      before).settings.set key.bytes value.bytes).2 = true)
    (hother : ∀ l ∈ after, ¬ (shellRequest l.line).Resets key.bytes)
    (m : ShellMoment) {line : List UInt8} (hget : shellRequest line = .get key) :
    let s := runSteps (sessionStep others) (shellBoot fs logged k other) events
    (shellBranch (shellSystem others m) s.history s.world line).output =
      kprintfAll [("%s\n", [textArg (value.bytes.take (configValueMax - 1))])] := by
  intro s
  have hfits : key.bytes.length < configKeyMax := by
    have hrequest := shellRequest_fits e.line
    rw [hset] at hrequest
    exact hrequest
  have hstored : ((runSteps Session.step (.boot (.load (configLoadedLines fs)) k.hooks)
      before).step e).settings.lookup key.bytes =
        some (value.bytes.take (configValueMax - 1)) := by
    unfold Session.step
    rw [hset]
    exact (Settings.lookup_set hfits haccepted _).trans (if_pos rfl)
  have hnow : (runSteps Session.step (.boot (.load (configLoadedLines fs)) k.hooks)
      s.executed).settings.lookup key.bytes = some (value.bytes.take (configValueMax - 1)) := by
    rw [hexecuted, runSteps_append]
    exact Session.lookup_run hstored hother
  have hfollows := (follows_boot fs logged k other).run others events
  have hmeets := Represents.branch hfollows others s.history m line
  rw [hget] at hmeets
  rw [(hmeets.answers _ rfl).1, hnow]

theorem get_after_set_editor :
    (shellBranch (shellSystem idleRest idleMoment) (idleShell ["set editor a b"]).history
      (idleShell ["set editor a b"]).world (asciiText "get editor")).output =
        kprintfAll [("%s\n", [textArg (asciiText "a b")])] := by
  have hexecuted : (idleShell ["set editor a b"]).executed =
      [] ++ ⟨asciiText "set editor a b",
        fileSettings idleMoment (idleShell []).world.fs, (idleShell []).world.log.minimumLevel,
        idleMoment.ticks⟩ :: [] := by
    rfl
  have hset : shellRequest (asciiText "set editor a b") =
      .set (.read (asciiText "editor")) (.read (asciiText "a b")) := by
    decide +kernel
  have hget : shellRequest (asciiText "get editor") = .get (.read (asciiText "editor")) := by
    decide +kernel
  have haccepted : ((Settings.load (configLoadedLines (fsBlankDisk 5000))).set
      (CString.read (asciiText "editor")).bytes (CString.read (asciiText "a b")).bytes).2 =
        true := by
    decide +kernel
  have hanswer := get_after_set idleRest (fsBlankDisk 5000) [] idleKmain () _
    hexecuted hset haccepted (fun _ h => absurd h List.not_mem_nil) idleMoment hget
  exact hanswer

end AcharyaOS.Shell
