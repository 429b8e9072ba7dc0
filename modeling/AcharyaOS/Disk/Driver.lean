import AcharyaOS.Disk.Handshake
import AcharyaOS.Foundation.Acceptor
import AcharyaOS.Foundation.Words

/-!
# The driver and the drive

The boot of `drivers/disk/ata.c` on its ports, and what the drive at the other end makes of all
the accesses: its registers, and the commands it was told with the words moved for each.  Over
every sequence of calls the drive is told one command after the other, data moves only for a
command whose drive has asked for it, and the commands are those of the calls.
-/

namespace AcharyaOS.Disk.Ports

open Foundation Foundation.Run

/-! ## The identification of the drive -/

def ataControlPort : UInt16 := 0x3F6

def ataCmdIdentify : UInt8 := 0xEC

/-- `ata_device_info_t`; the string `model` up to its end. -/
structure AtaDeviceInfo where
  present : Bool
  lba48Supported : Bool
  totalSectors : UInt32
  model : List UInt8

def AtaDeviceInfo.zero : AtaDeviceInfo := ⟨false, false, 0, []⟩

def putUnlessSpace (destLen : Nat) (out : List UInt8) (c : UInt8) : List UInt8 :=
  if c ≠ 32 ∧ out.length + 1 < destLen then out ++ [c] else out

/-- `ata_decode_string`: the characters stored in front of the terminating zero. -/
def ataDecodeString (destLen : Nat) : List UInt16 → List UInt8 → List UInt8
  | [], out => out
  | word :: src, out =>
      if out.length + 1 < destLen then
        let out := putUnlessSpace destLen out (word >>> 8).toUInt8
        ataDecodeString destLen src (putUnlessSpace destLen out (word &&& 0xFF).toUInt8)
      else out

/-- `"ATA device"`. -/
def ataFallback : List UInt8 := [65, 84, 65, 32, 100, 101, 118, 105, 99, 101]

/-- `ata_info` after the words of the drive. -/
def AtaDeviceInfo.ofWords (identifyData : List UInt16) : AtaDeviceInfo :=
  let word (i : Nat) : UInt16 := identifyData.getD i 0
  let model := (ataDecodeString 41 ((identifyData.drop 27).take 20) []).takeWhile (· != 0)
  { present := true
    lba48Supported := word 83 &&& ((1 : UInt16) <<< 10) != 0
    totalSectors := (word 60).toUInt32 ||| ((word 61).toUInt32 <<< 16)
    model := if model = [] then ataFallback else model }

/-- `ata_info` and the accesses so far. -/
structure AtaDriver where
  info : AtaDeviceInfo
  io : AtaIo

def ataIdentify (d : AtaDriver) : AtaDriver :=
  let io := outb d.io ataDriveHead 0xE0
  let io := outb io ataSectorCount 0
  let io := outb io ataLbaLow 0
  let io := outb io ataLbaMid 0
  let io := outb io ataLbaHigh 0
  let io := ataIoWait (outb io ataCommandPort ataCmdIdentify)
  let first := inbStatus io
  if first.2 == 0 then { d with io := first.1 }
  else
    let free := ataWaitNotBusy ataTimeout first.1
    if free.2 != 0 then { d with io := free.1 }
    else
      let drq := ataWaitDrq ataTimeout free.1
      if drq.2 != 0 then { d with io := drq.1 }
      else
        let read := ataInsw drq.1 256
        { info := .ofWords read.2, io := read.1 }

def ataInit (d : AtaDriver) : AtaDriver :=
  ataIdentify { info := .zero, io := outb d.io ataControlPort 0x02 }

/-! ## The calls -/

inductive AtaCall
  | init
  | read (lba : UInt32) (count : UInt8)
  | write (lba : UInt32) (count : UInt8) (buffer : Nat → UInt16)

inductive AtaAnswer
  | device (info : AtaDeviceInfo)
  /-- The words in the buffer, or -1. -/
  | words (words : Option (List UInt16))
  | result (r : Int)

def AtaDriver.perform (d : AtaDriver) : AtaCall → AtaDriver × AtaAnswer
  | .init => let d := ataInit d; (d, .device d.info)
  | .read lba count =>
      let r := ataReadSectors d.info.present d.io lba count
      ({ d with io := r.1 }, .words r.2)
  | .write lba count buffer =>
      let r := ataWriteSectors d.info.present d.io lba count buffer
      ({ d with io := r.1 }, .result r.2)

/-- The driver and the calls behind it, each with its answer. -/
structure AtaRun where
  driver : AtaDriver
  done : List (AtaCall × AtaAnswer)

def AtaRun.boot (statuses : Nat → UInt8) (words : Nat → UInt16) : AtaRun :=
  ⟨⟨.zero, .start statuses words⟩, []⟩

def ataRunStep (r : AtaRun) (c : AtaCall) : AtaRun :=
  let next := r.driver.perform c
  ⟨next.1, r.done ++ [(c, next.2)]⟩

/-! ## The drive -/

/-- A command as the registers gave it, and the words moved for it. -/
structure DriveCommand where
  code : UInt8
  /-- The upper half of the head register: 14 for the master drive and block addresses. -/
  select : Nat
  lba : Nat
  count : UInt8
  words : List UInt16

/-- How many words the command moves. -/
def DriveCommand.size (c : DriveCommand) : Nat :=
  if c.code = ataCmdIdentify then blockWords
  else if c.code = ataCmdReadPio ∨ c.code = ataCmdWritePio then c.count.toNat * blockWords
  else 0

structure Drive where
  driveHead : UInt8
  sectorCount : UInt8
  lbaLow : UInt8
  lbaMid : UInt8
  lbaHigh : UInt8
  /-- A status with DRQ and without an error since the last command. -/
  asked : Bool
  finished : List DriveCommand
  current : Option DriveCommand

namespace Drive

def boot : Drive := ⟨0, 0, 0, 0, 0, false, [], none⟩

def log (d : Drive) : List DriveCommand := d.finished ++ d.current.toList

def address (d : Drive) : Nat :=
  d.lbaLow.toNat + 2 ^ 8 * d.lbaMid.toNat + 2 ^ 16 * d.lbaHigh.toNat +
    2 ^ 24 * (d.driveHead.toNat % 16)

/-- The command that the registers describe. -/
def told (d : Drive) (code : UInt8) : DriveCommand :=
  ⟨code, d.driveHead.toNat / 16, d.address, d.sectorCount, []⟩

def next (d : Drive) : PortEvent → Drive
  | .status s => { d with asked := d.asked || (wantsData s && !faulty s) }
  | .out port v =>
      if port = ataCommandPort then
        { d with asked := false, finished := d.log, current := some (d.told v) }
      else if port = ataDriveHead then { d with driveHead := v }
      else if port = ataSectorCount then { d with sectorCount := v }
      else if port = ataLbaLow then { d with lbaLow := v }
      else if port = ataLbaMid then { d with lbaMid := v }
      else if port = ataLbaHigh then { d with lbaHigh := v }
      else d
  | .data w => { d with current := d.current.map fun c => { c with words := c.words ++ [w] } }

/-- No command is in the middle of its words. -/
def Idle (d : Drive) : Prop := ∀ c ∈ d.current, c.words = [] ∨ c.words.length = c.size

/-- The registers are written between commands, and a word moves for a command that has asked
for its words and has not had them all. -/
def Admits (d : Drive) : PortEvent → Prop
  | .status _ => True
  | .out _ _ => d.Idle
  | .data _ => d.asked = true ∧ ∃ c ∈ d.current, c.words.length < c.size

def acceptor : Acceptor Drive PortEvent := ⟨next, Admits⟩

end Drive

/-- The commands behind an answer. -/
inductive Tells (info : AtaDeviceInfo) : AtaCall → AtaAnswer → List DriveCommand → Prop
  | identified {words : List UInt16} (hwords : words.length = blockWords) :
      Tells info .init (.device (.ofWords words)) [⟨ataCmdIdentify, 14, 0, 0, words⟩]
  | absent : Tells info .init (.device .zero) [⟨ataCmdIdentify, 14, 0, 0, []⟩]
  | read {lba : UInt32} {count : UInt8} {words : List UInt16}
      (haccepted : Accepted info.present lba count)
      (hwords : words.length = count.toNat * blockWords) :
      Tells info (.read lba count) (.words (some words))
        [⟨ataCmdReadPio, 14, lba.toNat, count, words⟩]
  | readFailed {lba : UInt32} {count : UInt8} (haccepted : Accepted info.present lba count) :
      Tells info (.read lba count) (.words none) [⟨ataCmdReadPio, 14, lba.toNat, count, []⟩]
  | readRefused {lba : UInt32} {count : UInt8} :
      Tells info (.read lba count) (.words none) []
  | written {lba : UInt32} {count : UInt8} {buffer : Nat → UInt16} {r : Int}
      (haccepted : Accepted info.present lba count) (hr : r = 0 ∨ r = -1) :
      Tells info (.write lba count buffer) (.result r)
        [⟨ataCmdWritePio, 14, lba.toNat, count,
            (List.range (count.toNat * blockWords)).map buffer⟩,
          ⟨0xE7, 14, lba.toNat, count, []⟩]
  | writeFailed {lba : UInt32} {count : UInt8} {buffer : Nat → UInt16}
      (haccepted : Accepted info.present lba count) :
      Tells info (.write lba count buffer) (.result (-1))
        [⟨ataCmdWritePio, 14, lba.toNat, count, []⟩]
  | writeRefused {lba : UInt32} {count : UInt8} {buffer : Nat → UInt16} :
      Tells info (.write lba count buffer) (.result (-1)) []

/-- The device record that the last `ata_init` left. -/
def identified (done : List (AtaCall × AtaAnswer)) : AtaDeviceInfo :=
  done.foldl (fun info e => match e.2 with | .device info => info | _ => info) .zero

/-- The commands of a run: those of its calls, one call after the other. -/
inductive Told : List (AtaCall × AtaAnswer) → List DriveCommand → Prop
  | start : Told [] []
  | call {done : List (AtaCall × AtaAnswer)} {log commands : List DriveCommand} {c : AtaCall}
      {a : AtaAnswer} (hdone : Told done log) (hcall : Tells (identified done) c a commands) :
      Told (done ++ [(c, a)]) (log ++ commands)

/-! ## Segments of a trace -/

namespace Drive

def heard (d : Drive) (a : Bool) : Drive := { d with asked := d.asked || a }

theorem heard_heard (d : Drive) (a b : Bool) : (d.heard a).heard b = d.heard (a || b) := by
  unfold heard
  rw [Bool.or_assoc]

theorem heard_false (d : Drive) : d.heard false = d := by
  unfold heard
  rw [Bool.or_false]

theorem Idle.heard {d : Drive} (h : d.Idle) (a : Bool) : (d.heard a).Idle := h

theorem leads_status (d : Drive) (s : UInt8) :
    acceptor.Leads d [.status s] (d.heard (wantsData s && !faulty s)) :=
  Acceptor.Leads.single (A := acceptor) trivial

theorem leads_ioWait {d : Drive} (h : d.Idle) : acceptor.Leads d [.out 0x80 0] d :=
  Acceptor.Leads.single (A := acceptor) (i := .out 0x80 0) h

theorem leads_control {d : Drive} (h : d.Idle) : acceptor.Leads d [.out ataControlPort 2] d :=
  Acceptor.Leads.single (A := acceptor) (i := .out ataControlPort 2) h

/-- The accesses of a waiting loop: the drive goes on as it is, and a good end says which status
ended it. -/
theorem poll_leads (stop : UInt8 → Bool) (timeout : Nat) (io : AtaIo) :
    ∃ k evs a, (poll stop timeout io).1 = io.after k evs ∧
      (∀ d : Drive, d.Idle → acceptor.Leads d evs (d.heard a)) ∧
      ((poll stop timeout io).2 = 0 →
        ∃ s, stop s = true ∧ faulty s = false ∧ (wantsData s = true → a = true)) := by
  induction timeout generalizing io with
  | zero =>
      have hend : ¬ (poll stop 0 io).2 = 0 := fun h => absurd h (Int.negSucc_ne_zero 0)
      refine ⟨0, [], false, ?_, fun d _ => ?_, fun h => absurd h hend⟩
      · simp [poll, AtaIo.after]
      · rw [heard_false]
        exact .nil d
  | succ timeout ih =>
      rw [poll_succ]
      by_cases hstop : stop (io.statuses 0) = true
      · rw [if_pos hstop]
        refine ⟨1, [.status (io.statuses 0)], wantsData (io.statuses 0) && !faulty (io.statuses 0),
          rfl, fun d _ => leads_status d _, fun h => ⟨io.statuses 0, hstop, ?_⟩⟩
        have hsound : faulty (io.statuses 0) = false := by
          by_contra hfaulty
          rw [Bool.not_eq_false] at hfaulty
          simp [hfaulty] at h
        exact ⟨hsound, fun hwants => by rw [hwants, hsound]; rfl⟩
      · rw [if_neg hstop]
        obtain ⟨k, evs, a, hio, hleads, hend⟩ :=
          ih (io.after 1 [.status (io.statuses 0), .out 0x80 0])
        refine ⟨k + 1, [.status (io.statuses 0), .out 0x80 0] ++ evs,
          (wantsData (io.statuses 0) && !faulty (io.statuses 0)) || a, ?_, fun d hd => ?_, fun h => ?_⟩
        · rw [hio, AtaIo.after_after]
        · have hround := (leads_status d (io.statuses 0)).append (leads_ioWait hd)
          have hrest := hround.append (hleads _ (hd.heard _))
          rw [heard_heard] at hrest
          exact hrest
        · obtain ⟨s, hs, hsound, ha⟩ := hend h
          refine ⟨s, hs, hsound, fun hwants => ?_⟩
          rw [ha hwants, Bool.or_true]

/-- A command with the registers as they are. -/
def instructed (d : Drive) (code : UInt8) : Drive :=
  { d with asked := false, finished := d.log, current := some (d.told code) }

theorem command_leads {d : Drive} (h : d.Idle) (code : UInt8) :
    acceptor.Leads d [.out ataCommandPort code] (d.instructed code) :=
  Acceptor.Leads.single (A := acceptor) (i := .out ataCommandPort code) h

theorem instructed_idle (d : Drive) (code : UInt8) : (d.instructed code).Idle := by
  rintro c ⟨⟩
  exact Or.inl rfl

/-- The registers written one after the other, and then the command. -/
def commanding (head count low mid high code : UInt8) : List PortEvent :=
  [.out ataDriveHead head, .out ataSectorCount count, .out ataLbaLow low, .out ataLbaMid mid,
    .out ataLbaHigh high, .out ataCommandPort code]

/-- The drive after them. -/
def commanded (d : Drive) (head count low mid high code : UInt8) : Drive :=
  { d with
    driveHead := head
    sectorCount := count
    lbaLow := low
    lbaMid := mid
    lbaHigh := high }.instructed code

theorem commanding_leads {d : Drive} (h : d.Idle) (head count low mid high code : UInt8) :
    acceptor.Leads d (commanding head count low mid high code)
      (d.commanded head count low mid high code) :=
  ⟨⟨h, h, h, h, h, h, trivial⟩, rfl⟩

theorem words_leads {d : Drive} {c : DriveCommand} (hasked : d.asked = true)
    (hcurrent : d.current = some c) (hempty : c.words = []) {words : List UInt16}
    (hwords : words.length = c.size) :
    acceptor.Leads d (words.map .data) { d with current := some { c with words := words } } := by
  have hd : d = { d with current := some { c with words := [] } } := by
    rw [← hempty, ← hcurrent]
  have hleads : acceptor.Leads { d with current := some { c with words := [] } }
      (words.map .data) { d with current := some { c with words := [] ++ words } } := by
    apply Acceptor.Leads.map (A := acceptor)
      fun ws => { d with current := some { c with words := ws } }
    · exact fun ks k => rfl
    · intro ls l ms hsplit
      have hlength := congrArg List.length hsplit
      rw [List.length_append, List.length_cons] at hlength
      have hroom : ls.length < c.size := by omega
      exact ⟨hasked, _, rfl, hroom⟩
  rw [← hd] at hleads
  exact hleads

end Drive

/-! ## The address in the registers -/

theorem toNat_lbaByte (lba k : UInt32) (hk : k.toNat < 32) :
    ((lba >>> k) &&& 0xFF).toUInt8.toNat = lba.toNat / 2 ^ k.toNat % 2 ^ 8 := by
  have hbyte : ((lba >>> k) &&& 0xFF).toNat = lba.toNat / 2 ^ k.toNat % 2 ^ 8 :=
    toNat_shiftRight_and_u32 lba hk rfl
  rw [UInt32.toNat_toUInt8, hbyte, Nat.mod_mod]

theorem toNat_lbaHead (lba : UInt32) :
    ((0xE0 : UInt32) ||| ataDeviceMaster ||| ((lba >>> 24) &&& 0x0F)).toUInt8.toNat =
      224 + lba.toNat / 2 ^ 24 % 16 := by
  have hnibble : ((lba >>> 24) &&& 0x0F).toNat = lba.toNat / 2 ^ 24 % 2 ^ 4 :=
    toNat_shiftRight_and_u32 lba (k := 24) (m := 4) (by decide) rfl
  have hlt : lba.toNat / 2 ^ 24 % 2 ^ 4 < 2 ^ 5 := by omega
  have hhead : ((0xE0 : UInt32) ||| ataDeviceMaster).toNat = 224 := rfl
  have hdvd : 2 ^ 5 ∣ 224 := Dvd.intro 7 rfl
  rw [UInt32.toNat_toUInt8, UInt32.toNat_or, hnibble, hhead, or_eq_add_of_dvd hdvd hlt]
  omega

/-- `ata_select_lba` gives the drive the command with the address the caller means. -/
theorem commanded_selection {d : Drive} {lba : UInt32} (hlba : lba ≤ ataLba28Mask)
    (hd : d.Idle) (count code : UInt8) :
    ∃ d', Drive.acceptor.Leads d (selection lba count code) d' ∧ d'.asked = false ∧
      d'.finished = d.log ∧ d'.current = some (d'.told code) ∧
      ∀ code', d'.told code' = ⟨code', 14, lba.toNat, count, []⟩ := by
  refine ⟨_, Drive.commanding_leads hd _ count _ _ _ code, rfl, rfl, rfl, fun code' => ?_⟩
  have hmask : lba.toNat < 2 ^ 28 := by
    have h := UInt32.le_iff_toNat_le.mp hlba
    have : ataLba28Mask.toNat = 2 ^ 28 - 1 := rfl
    omega
  have hlow : (lba &&& 0xFF).toUInt8.toNat = lba.toNat % 2 ^ 8 := by
    have hbyte : (lba &&& 0xFF).toNat = lba.toNat % 2 ^ 8 := toNat_lowMask_u32 lba rfl
    rw [UInt32.toNat_toUInt8, hbyte, Nat.mod_mod]
  have hmid : ((lba >>> 8) &&& 0xFF).toUInt8.toNat = lba.toNat / 2 ^ 8 % 2 ^ 8 :=
    toNat_lbaByte lba 8 (by decide)
  have hhigh : ((lba >>> 16) &&& 0xFF).toUInt8.toNat = lba.toNat / 2 ^ 16 % 2 ^ 8 :=
    toNat_lbaByte lba 16 (by decide)
  have hhead := toNat_lbaHead lba
  unfold Drive.commanded Drive.instructed Drive.told Drive.address
  simp only [hlow, hmid, hhigh, hhead]
  congr 1
  · omega
  · omega

/-! ## The start of a transfer -/

theorem wantsData_of_stop {s : UInt8} (hs : faultyOrWantsData s = true)
    (hsound : faulty s = false) : wantsData s = true := by
  unfold faultyOrWantsData at hs
  rwa [hsound, Bool.false_or] at hs

theorem startTransfer_leads (io : AtaIo) {d : Drive} (hd : d.Idle) {lba : UInt32}
    (hlba : lba ≤ ataLba28Mask) (count code : UInt8) :
    ∃ k evs d', (startTransfer ataTimeout io lba count code).1 = io.after k evs ∧
      Drive.acceptor.Leads d evs d' ∧ d'.Idle ∧
      (d'.log = d.log ∨ d'.log = d.log ++ [⟨code, 14, lba.toNat, count, []⟩]) ∧
      ((startTransfer ataTimeout io lba count code).2 = 0 →
        d'.asked = true ∧ d'.finished = d.log ∧ d'.current = some (d'.told code) ∧
          ∀ code', d'.told code' = ⟨code', 14, lba.toNat, count, []⟩) := by
  obtain ⟨k, evs, a, hfree, hleads, -⟩ := Drive.poll_leads notBusy ataTimeout io
  unfold startTransfer
  rw [ataWaitNotBusy_eq_poll]
  by_cases hfailed : ((poll notBusy ataTimeout io).2 != 0) = true
  · simp only [if_pos hfailed]
    refine ⟨k, evs, d.heard a, hfree, hleads d hd, hd.heard a, Or.inl rfl, fun h => ?_⟩
    exact absurd h (Int.negSucc_ne_zero 0)
  · simp only [if_neg hfailed, ataWaitDrq_eq_poll, ataSelectLba_eq, hfree, AtaIo.after_after]
    obtain ⟨d₁, hselected, hasked, hfinished, hcurrent, htold⟩ :=
      commanded_selection hlba (hd.heard a) count code
    have hidle : d₁.Idle := by
      intro c hc
      rw [hcurrent] at hc
      cases hc
      exact Or.inl rfl
    obtain ⟨k', evs', a', hdrq, hleads', hend⟩ := Drive.poll_leads faultyOrWantsData ataTimeout
      (io.after (0 + k) (evs ++ selection lba count code))
    have hlog : d₁.log = d.log ++ [⟨code, 14, lba.toNat, count, []⟩] := by
      rw [Drive.log, hfinished, hcurrent, htold]
      rfl
    refine ⟨k' + (0 + k), _, d₁.heard a', ?_, ((hleads d hd).append hselected).append (hleads' d₁ hidle),
      hidle.heard a', Or.inr hlog, fun h => ⟨?_, hfinished, hcurrent, htold⟩⟩
    · rw [hdrq, AtaIo.after_after]
    · obtain ⟨s, hs, hsound, ha⟩ := hend h
      show (d₁.asked || a') = true
      rw [ha (wantsData_of_stop hs hsound), Bool.or_true]

/-! ## The calls and the drive -/

/-- The accesses of the call lead from one idle drive to another, which was told the commands
behind the answer. -/
def Served (info : AtaDeviceInfo) (d : Drive) (io io' : AtaIo) (c : AtaCall) (a : AtaAnswer) :
    Prop :=
  ∃ evs d' commands, io'.trace = io.trace ++ evs ∧ Drive.acceptor.Leads d evs d' ∧ d'.Idle ∧
    d'.log = d.log ++ commands ∧ Tells info c a commands

theorem served_silent {info : AtaDeviceInfo} {d : Drive} (hd : d.Idle) (io : AtaIo) {c : AtaCall}
    {a : AtaAnswer} (h : Tells info c a []) : Served info d io io c a :=
  ⟨[], d, [], (List.append_nil _).symm, .nil d, hd, (List.append_nil _).symm, h⟩

theorem served_unstarted {info : AtaDeviceInfo} {d d' : Drive} {io : AtaIo} {k : Nat}
    {evs : List PortEvent} {c : AtaCall} {a : AtaAnswer} {command : DriveCommand}
    (hleads : Drive.acceptor.Leads d evs d') (hidle : d'.Idle)
    (hlog : d'.log = d.log ∨ d'.log = d.log ++ [command]) (hrefused : Tells info c a [])
    (hfailed : Tells info c a [command]) : Served info d io (io.after k evs) c a := by
  rcases hlog with hlog | hlog
  · exact ⟨evs, d', [], rfl, hleads, hidle, by rw [hlog, List.append_nil], hrefused⟩
  · exact ⟨evs, d', [command], rfl, hleads, hidle, hlog, hfailed⟩

theorem DriveCommand.size_of_transfer {c : DriveCommand}
    (h : c.code = ataCmdReadPio ∨ c.code = ataCmdWritePio) :
    c.size = c.count.toNat * blockWords := by
  have hcode : c.code ≠ ataCmdIdentify := by
    rcases h with h | h
    · rw [h]
      decide
    · rw [h]
      decide
  rw [size, if_neg hcode, if_pos h]

theorem transfer_leads {d : Drive} (hasked : d.asked = true) {code : UInt8} {lba : UInt32}
    {count : UInt8} (hcode : code = ataCmdReadPio ∨ code = ataCmdWritePio)
    (hcurrent : d.current = some (d.told code))
    (htold : ∀ code', d.told code' = ⟨code', 14, lba.toNat, count, []⟩)
    {words : List UInt16} (hwords : words.length = count.toNat * blockWords) :
    ∃ d', Drive.acceptor.Leads d (words.map .data) d' ∧ d'.Idle ∧
      d'.log = d.finished ++ [⟨code, 14, lba.toNat, count, words⟩] ∧
      ∀ code', d'.told code' = ⟨code', 14, lba.toNat, count, []⟩ := by
  rw [htold] at hcurrent
  have hsize : ∀ ws, (DriveCommand.mk code 14 lba.toNat count ws).size = words.length :=
    fun ws => (DriveCommand.size_of_transfer hcode).trans hwords.symm
  refine ⟨_, Drive.words_leads hasked hcurrent rfl (hsize []).symm, ?_, rfl, htold⟩
  rintro c ⟨⟩
  exact Or.inr (hsize words).symm

theorem ataReadSectors_served (info : AtaDeviceInfo) {d : Drive} (hd : d.Idle) (io : AtaIo)
    (lba : UInt32) (count : UInt8) :
    Served info d io (ataReadSectors info.present io lba count).1 (.read lba count)
      (.words (ataReadSectors info.present io lba count).2) := by
  by_cases haccepted : Accepted info.present lba count
  · obtain ⟨k, evs, d₁, hstart, hleads, hidle, htold, hended⟩ :=
      startTransfer_leads io hd haccepted.2.2 count ataCmdReadPio
    rw [ataReadSectors_of_accepted haccepted]
    by_cases hfailed :
        ((startTransfer ataTimeout io lba count ataCmdReadPio).2 != 0) = true
    · simp only [if_pos hfailed, hstart]
      exact served_unstarted hleads hidle htold .readRefused (.readFailed haccepted)
    · simp only [if_neg hfailed, hstart]
      have hend : (startTransfer ataTimeout io lba count ataCmdReadPio).2 = 0 := by
        simpa using hfailed
      obtain ⟨hasked, hfinished, hcurrent, htold⟩ := hended hend
      have hlength : ((List.range (count.toNat * blockWords)).map io.words).length =
          count.toNat * blockWords := by
        rw [List.length_map, List.length_range]
      obtain ⟨d₂, hwords, hidle, hlog, -⟩ :=
        transfer_leads hasked (Or.inl rfl) hcurrent htold hlength
      rw [hfinished] at hlog
      exact ⟨_, d₂, _, List.append_assoc _ _ _, hleads.append hwords, hidle, hlog,
        .read haccepted hlength⟩
  · rw [ataReadSectors_of_not_accepted haccepted]
    exact served_silent hd io .readRefused

theorem ataWriteSectors_served (info : AtaDeviceInfo) {d : Drive} (hd : d.Idle) (io : AtaIo)
    (lba : UInt32) (count : UInt8) (buffer : Nat → UInt16) :
    Served info d io (ataWriteSectors info.present io lba count buffer).1
      (.write lba count buffer)
      (.result (ataWriteSectors info.present io lba count buffer).2) := by
  by_cases haccepted : Accepted info.present lba count
  · obtain ⟨k, evs, d₁, hstart, hleads, hidle, htold, hended⟩ :=
      startTransfer_leads io hd haccepted.2.2 count ataCmdWritePio
    rw [ataWriteSectors_of_accepted haccepted]
    by_cases hfailed :
        ((startTransfer ataTimeout io lba count ataCmdWritePio).2 != 0) = true
    · simp only [if_pos hfailed, hstart]
      exact served_unstarted hleads hidle htold .writeRefused (.writeFailed haccepted)
    · simp only [if_neg hfailed, hstart, ataWaitNotBusy_eq_poll]
      have hend : (startTransfer ataTimeout io lba count ataCmdWritePio).2 = 0 := by
        simpa using hfailed
      obtain ⟨hasked, hfinished, hcurrent, htold⟩ := hended hend
      have hlength : ((List.range (count.toNat * blockWords)).map buffer).length =
          count.toNat * blockWords := by
        rw [List.length_map, List.length_range]
      obtain ⟨d₂, hwords, hidle, hlog, htold⟩ :=
        transfer_leads hasked (Or.inr rfl) hcurrent htold hlength
      rw [hfinished] at hlog
      -- the flush finds the registers as the transfer left them
      have hflush := Drive.command_leads hidle 0xE7
      obtain ⟨k', evs', a, hwait, hleads', -⟩ := Drive.poll_leads notBusy ataTimeout
        (outb (ataOutsw (io.after k evs) buffer (count.toNat * blockWords)) ataCommandPort 0xE7)
      have hall := ((hleads.append hwords).append hflush).append
        (hleads' _ (Drive.instructed_idle d₂ 0xE7))
      have htrace : ((outb (ataOutsw (io.after k evs) buffer (count.toNat * blockWords))
          ataCommandPort 0xE7).after k' evs').trace = io.trace ++ (evs ++
            ((List.range (count.toNat * blockWords)).map buffer).map .data ++
              [.out ataCommandPort 0xE7] ++ evs') := by
        simp [AtaIo.after, outb, ataOutsw]
      have hfinal : ((d₂.instructed 0xE7).heard a).log = d.log ++
          [⟨ataCmdWritePio, 14, lba.toNat, count,
            (List.range (count.toNat * blockWords)).map buffer⟩,
            ⟨0xE7, 14, lba.toNat, count, []⟩] := by
        show d₂.log ++ [d₂.told 0xE7] = _
        rw [hlog, htold, List.append_assoc]
        rfl
      by_cases hlast : ((poll notBusy ataTimeout (outb (ataOutsw (io.after k evs) buffer
          (count.toNat * blockWords)) ataCommandPort 0xE7)).2 != 0) = true
      · rw [if_pos hlast, hwait]
        exact ⟨_, _, _, htrace, hall, Drive.instructed_idle d₂ 0xE7, hfinal,
          .written haccepted (Or.inr rfl)⟩
      · rw [if_neg hlast, hwait]
        exact ⟨_, _, _, htrace, hall, Drive.instructed_idle d₂ 0xE7, hfinal,
          .written haccepted (Or.inl rfl)⟩
  · rw [ataWriteSectors_of_not_accepted haccepted]
    exact served_silent hd io .writeRefused

/-- What `ata_identify` writes before it looks at the drive. -/
def identification : List PortEvent :=
  Drive.commanding 0xE0 0 0 0 0 ataCmdIdentify ++ [.out 0x80 0]

def Drive.identifying (d : Drive) : Drive := d.commanded 0xE0 0 0 0 0 ataCmdIdentify

theorem Drive.identification_leads {d : Drive} (hd : d.Idle) :
    acceptor.Leads d identification d.identifying :=
  (commanding_leads hd 0xE0 0 0 0 0 ataCmdIdentify).append (leads_ioWait (instructed_idle _ _))

theorem Drive.identifying_told (d : Drive) :
    d.identifying.current = some ⟨ataCmdIdentify, 14, 0, 0, []⟩ := by
  have hselect : (0xE0 : UInt8).toNat / 16 = 14 := rfl
  have haddress : (0 : UInt8).toNat + 2 ^ 8 * (0 : UInt8).toNat + 2 ^ 16 * (0 : UInt8).toNat +
      2 ^ 24 * ((0xE0 : UInt8).toNat % 16) = 0 := rfl
  unfold identifying commanded instructed told address
  rw [hselect, haddress]

theorem Drive.identifying_log (d : Drive) :
    d.identifying.log = d.log ++ [⟨ataCmdIdentify, 14, 0, 0, []⟩] := by
  rw [log, identifying_told]
  rfl

/-- The ways out of `ata_identify`: without words and with the old record, or with a block of
words and the record read from them. -/
theorem ataIdentify_leads (r : AtaDriver) {d : Drive} (hd : d.Idle) :
    ∃ evs d', (ataIdentify r).io.trace = r.io.trace ++ evs ∧ Drive.acceptor.Leads d evs d' ∧
      d'.Idle ∧
      (d'.log = d.log ++ [⟨ataCmdIdentify, 14, 0, 0, []⟩] ∧ (ataIdentify r).info = r.info ∨
        ∃ words, words.length = blockWords ∧
          d'.log = d.log ++ [⟨ataCmdIdentify, 14, 0, 0, words⟩] ∧
          (ataIdentify r).info = .ofWords words) := by
  have hidle : d.identifying.Idle := Drive.instructed_idle _ _
  have hwritten : inbStatus (ataIoWait (outb (outb (outb (outb (outb (outb r.io ataDriveHead 0xE0)
      ataSectorCount 0) ataLbaLow 0) ataLbaMid 0) ataLbaHigh 0) ataCommandPort ataCmdIdentify)) =
      (r.io.after 1 (identification ++ [.status (r.io.statuses 0)]), r.io.statuses 0) := by
    simp [outb_eq, ataIoWait, inbStatus_eq, AtaIo.after_after, identification, Drive.commanding]
  have hasked := (Drive.identification_leads hd).append
    (Drive.leads_status d.identifying (r.io.statuses 0))
  have hlog := d.identifying_log
  unfold ataIdentify
  simp only [hwritten, ataWaitNotBusy_eq_poll, ataWaitDrq_eq_poll]
  by_cases habsent : (r.io.statuses 0 == 0) = true
  · rw [if_pos habsent]
    exact ⟨_, _, rfl, hasked, hidle.heard _, Or.inl ⟨hlog, rfl⟩⟩
  · rw [if_neg habsent]
    obtain ⟨k, evs, a, hfree, hleads, -⟩ := Drive.poll_leads notBusy ataTimeout
      (r.io.after 1 (identification ++ [.status (r.io.statuses 0)]))
    have hwaited := hasked.append (hleads _ (hidle.heard _))
    by_cases hbusy : ((poll notBusy ataTimeout
        (r.io.after 1 (identification ++ [.status (r.io.statuses 0)]))).2 != 0) = true
    · rw [if_pos hbusy, hfree, AtaIo.after_after]
      exact ⟨_, _, rfl, hwaited, hidle.heard _, Or.inl ⟨hlog, rfl⟩⟩
    · rw [if_neg hbusy, hfree, AtaIo.after_after]
      obtain ⟨k', evs', a', hdrq, hleads', hend⟩ := Drive.poll_leads faultyOrWantsData ataTimeout
        (r.io.after (k + 1) (identification ++ [.status (r.io.statuses 0)] ++ evs))
      have hdone := hwaited.append (hleads' _ (hidle.heard _))
      by_cases hfailed : ((poll faultyOrWantsData ataTimeout (r.io.after (k + 1)
          (identification ++ [.status (r.io.statuses 0)] ++ evs))).2 != 0) = true
      · rw [if_pos hfailed, hdrq, AtaIo.after_after]
        exact ⟨_, _, rfl, hdone, hidle.heard _, Or.inl ⟨hlog, rfl⟩⟩
      · rw [if_neg hfailed, hdrq, AtaIo.after_after]
        obtain ⟨s, hs, hsound, ha⟩ := hend (by simpa using hfailed)
        have hlength : ((List.range 256).map r.io.words).length = blockWords := by
          rw [List.length_map, List.length_range]
          rfl
        have hheard : ((((d.identifying.heard
            (wantsData (r.io.statuses 0) && !faulty (r.io.statuses 0))).heard a).heard
              a').asked) = true := by
          unfold Drive.heard
          rw [ha (wantsData_of_stop hs hsound), Bool.or_true]
        have hwords := Drive.words_leads hheard d.identifying_told rfl hlength
        refine ⟨_, _, ?_, hdone.append hwords, ?_, Or.inr ⟨_, hlength, rfl, rfl⟩⟩
        · exact List.append_assoc _ _ _
        · rintro c ⟨⟩
          exact Or.inr hlength

theorem ataInit_served (info : AtaDeviceInfo) {d : Drive} (hd : d.Idle) (r : AtaDriver) :
    Served info d r.io (ataInit r).io .init (.device (ataInit r).info) := by
  obtain ⟨evs, d', htrace, hleads, hidle, hends⟩ :=
    ataIdentify_leads { info := .zero, io := outb r.io ataControlPort 0x02 } hd
  have hall := (Drive.leads_control hd).append hleads
  have htrace' : (ataInit r).io.trace = r.io.trace ++ ([.out ataControlPort 2] ++ evs) :=
    htrace.trans (List.append_assoc _ _ _)
  rcases hends with ⟨hlog, hinfo⟩ | ⟨words, hwords, hlog, hinfo⟩
  · refine ⟨_, d', _, htrace', hall, hidle, hlog, ?_⟩
    unfold ataInit
    rw [hinfo]
    exact .absent
  · refine ⟨_, d', _, htrace', hall, hidle, hlog, ?_⟩
    unfold ataInit
    rw [hinfo]
    exact .identified hwords

theorem perform_served (r : AtaDriver) {d : Drive} (hd : d.Idle) (c : AtaCall) :
    Served r.info d r.io (r.perform c).1.io c (r.perform c).2 := by
  cases c with
  | init => exact ataInit_served r.info hd r
  | read lba count => exact ataReadSectors_served r.info hd r.io lba count
  | write lba count buffer => exact ataWriteSectors_served r.info hd r.io lba count buffer

/-! ## Runs -/

/-- What the drive knows of a run of the driver. -/
structure DriveKnows (r : AtaRun) (d : Drive) : Prop where
  leads : Drive.acceptor.Leads .boot r.driver.io.trace d
  idle : d.Idle
  told : Told r.done d.log
  info : r.driver.info = identified r.done

theorem driveKnows_boot (statuses : Nat → UInt8) (words : Nat → UInt16) :
    DriveKnows (.boot statuses words) .boot where
  leads := .nil _
  idle := nofun
  told := .start
  info := rfl

theorem info_perform (r : AtaDriver) (c : AtaCall) (done : List (AtaCall × AtaAnswer))
    (h : r.info = identified done) :
    (r.perform c).1.info = identified (done ++ [(c, (r.perform c).2)]) := by
  unfold identified at h ⊢
  rw [List.foldl_append, ← h]
  cases c with
  | init => rfl
  | read lba count => rfl
  | write lba count buffer => rfl

theorem DriveKnows.step {r : AtaRun} {d : Drive} (h : DriveKnows r d) (c : AtaCall) :
    ∃ d', DriveKnows (ataRunStep r c) d' := by
  obtain ⟨evs, d', commands, htrace, hleads, hidle, hlog, htells⟩ :=
    perform_served r.driver h.idle c
  have htold : Told (ataRunStep r c).done d'.log := by
    rw [hlog]
    rw [h.info] at htells
    exact .call h.told htells
  have hall : Drive.acceptor.Leads .boot (ataRunStep r c).driver.io.trace d' := by
    have htrace' : (ataRunStep r c).driver.io.trace = r.driver.io.trace ++ evs := htrace
    rw [htrace']
    exact h.leads.append hleads
  exact ⟨d', hall, hidle, htold, info_perform r.driver c r.done h.info⟩

/-- Whatever the drive answers, every sequence of calls keeps to its protocol, and the commands
it gets are those behind the answers of the driver. -/
theorem drive_told (statuses : Nat → UInt8) (words : Nat → UInt16) (calls : List AtaCall) :
    AllSteps Drive.next Drive.Admits .boot
        (runSteps ataRunStep (.boot statuses words) calls).driver.io.trace ∧
      Told (runSteps ataRunStep (.boot statuses words) calls).done
        (runSteps Drive.next .boot
          (runSteps ataRunStep (.boot statuses words) calls).driver.io.trace).log := by
  have hinv : ∃ d, DriveKnows (runSteps ataRunStep (.boot statuses words) calls) d := by
    apply runSteps_invariant (I := fun r => ∃ d, DriveKnows r d)
    · rintro r c ⟨d, hd⟩
      exact hd.step c
    · exact ⟨.boot, driveKnows_boot statuses words⟩
  obtain ⟨d, hd⟩ := hinv
  refine ⟨hd.leads.admitted, ?_⟩
  rw [show runSteps Drive.next .boot _ = d from hd.leads.behind]
  exact hd.told

end AcharyaOS.Disk.Ports
