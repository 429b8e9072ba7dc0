import AcharyaOS.Disk.Driver

/-!
# The driver on a drive with sectors

A drive behind the ports that keeps sectors.  It knows of the calls only the accesses they make:
it delivers the words of the sectors that its registers name, if it is asked for every block of
them, and stores the words of its write commands, of a write that does not come to a good end
perhaps only the first sectors.  What the driver answers on such a drive is what the disk of
sectors answers on which the filesystem stands.
-/

namespace AcharyaOS.Disk.Ports

open Foundation Foundation.Run

/-! ## Words and bytes -/

/-- The word that `outsw` takes from the memory. -/
def wordOf (bytes : Nat → UInt8) (i : Nat) : UInt16 :=
  (bytes (2 * i)).toUInt16 ||| ((bytes (2 * i + 1)).toUInt16 <<< 8)

/-- What `insw` stores of a word. -/
def wordBytes (w : UInt16) : List UInt8 := [w.toUInt8, (w >>> 8).toUInt8]

theorem wordBytes_wordOf (bytes : Nat → UInt8) (i : Nat) :
    wordBytes (wordOf bytes i) = [bytes (2 * i), bytes (2 * i + 1)] := by
  have hlow := (bytes (2 * i)).toNat_lt
  have hhigh := (bytes (2 * i + 1)).toNat_lt
  have hshift : ((bytes (2 * i + 1)).toUInt16 <<< 8).toNat = 2 ^ 8 * (bytes (2 * i + 1)).toNat := by
    have hmod : (8 : UInt16).toNat % 16 = 8 := rfl
    rw [UInt16.toNat_shiftLeft, hmod, Nat.shiftLeft_eq, UInt8.toNat_toUInt16]
    omega
  have hword : (wordOf bytes i).toNat =
      (bytes (2 * i)).toNat + 2 ^ 8 * (bytes (2 * i + 1)).toNat := by
    rw [wordOf, UInt16.toNat_or, hshift, UInt8.toNat_toUInt16, Nat.or_comm,
      or_eq_add_of_dvd (Dvd.intro _ rfl) hlow, Nat.add_comm]
  have hfirst : (wordOf bytes i).toUInt8 = bytes (2 * i) := by
    apply UInt8.toNat_inj.mp
    rw [UInt16.toNat_toUInt8, hword]
    omega
  have hsecond : (wordOf bytes i >>> 8).toUInt8 = bytes (2 * i + 1) := by
    have hmod : (8 : UInt16).toNat % 16 = 8 := rfl
    apply UInt8.toNat_inj.mp
    rw [UInt16.toNat_toUInt8, UInt16.toNat_shiftRight, hmod, hword, Nat.shiftRight_eq_div_pow]
    omega
  rw [wordBytes, hfirst, hsecond]

theorem flatMap_wordBytes (bytes : Nat → UInt8) (n : Nat) :
    ((List.range n).map (wordOf bytes)).flatMap wordBytes = (List.range (2 * n)).map bytes := by
  induction n with
  | zero => rfl
  | succ n ih =>
      rw [List.range_succ, List.map_append, List.flatMap_append, ih, Nat.mul_succ,
        List.range_succ, List.range_succ]
      simp [wordBytes_wordOf]

/-! ## Sectors -/

/-- The bytes of the sectors from `lba` on, one after the other. -/
def mediumByte (content : Nat → Sector) (lba k : Nat) : UInt8 :=
  (content (lba + k / ataSectorSize)).toList.getD (k % ataSectorSize) 0

theorem map_getD_range {l : List UInt8} {n : Nat} (hl : l.length = n) :
    (List.range n).map (fun k => l.getD k 0) = l := by
  apply List.ext_getElem
  · rw [List.length_map, List.length_range, hl]
  · intro k hk hk'
    rw [List.getElem_map, List.getElem_range, List.getD_eq_getElem l 0 hk']

theorem map_mediumByte (content : Nat → Sector) (lba count : Nat) :
    (List.range (count * ataSectorSize)).map (mediumByte content lba) =
      (List.range count).flatMap fun i => (content (lba + i)).toList := by
  induction count with
  | zero => simp
  | succ count ih =>
      have hlast : (List.range ataSectorSize).map
          (fun j => mediumByte content lba (count * ataSectorSize + j)) =
            (content (lba + count)).toList := by
        rw [← map_getD_range (content (lba + count)).length_eq]
        apply List.map_congr_left
        intro j hj
        have hlt : j < 512 := List.mem_range.mp hj
        have hdiv : (count * 512 + j) / 512 = count := by omega
        have hmod : (count * 512 + j) % 512 = j := by omega
        show (content (lba + (count * 512 + j) / 512)).toList.getD ((count * 512 + j) % 512) 0 = _
        rw [hdiv, hmod]
      rw [Nat.succ_mul, List.range_add, List.map_append, ih, List.map_map, List.range_succ,
        List.flatMap_append, List.flatMap_singleton, ← hlast]
      rfl

theorem toList_ofList_eq_map (n : Nat) (l : List UInt8) :
    (Bytes.ofList n l).toList = (List.range n).map fun k => l.getD k 0 := by
  apply List.ext_getElem
  · simp
  · intro k hk hk'
    have hlt : k < n := by simpa using hk
    simp only [Bytes.ofList, List.getElem_take, List.getElem_map, List.getElem_range]
    by_cases hl : k < l.length
    · rw [List.getElem_append_left hl, List.getD_eq_getElem l 0 hl]
    · rw [List.getElem_append_right (by omega), List.getElem_replicate,
        List.getD_eq_default l 0 (by omega)]

theorem bufferSectors_map_getD (buffer : List UInt8) (count : Nat) :
    bufferSectors ((List.range (count * ataSectorSize)).map fun k => buffer.getD k 0) count =
      bufferSectors buffer count := by
  unfold bufferSectors
  apply List.map_congr_left
  intro i hi
  have hlt : i < count := List.mem_range.mp hi
  apply Bytes.ext
  rw [toList_ofList_eq_map, toList_ofList_eq_map]
  apply List.map_congr_left
  intro k hk
  have hk' : k < 512 := List.mem_range.mp hk
  have hinside : i * 512 + k < count * 512 := by omega
  simp [List.getD_eq_getElem?_getD, List.getElem?_drop, ataSectorSize, hinside]

/-! ## The two disks -/

inductive DiskCall
  | read (lba : UInt32) (count : UInt8)
  | write (lba : UInt32) (count : UInt8) (buffer : List UInt8)

inductive DiskAnswer
  /-- The bytes in the buffer, or -1. -/
  | bytes (bytes : Option (List UInt8))
  | result (r : Int)

/-- The call on the disk of sectors. -/
def diskPerform (ata : Ata) : DiskCall → Ata × DiskAnswer
  | .read lba count =>
      let r := Disk.ataReadSectors ata lba count
      (r.1, .bytes r.2)
  | .write lba count buffer =>
      let r := Disk.ataWriteSectors ata lba count buffer
      (r.1, .result r.2)

def DiskCall.lba : DiskCall → UInt32
  | .read lba _ => lba
  | .write lba _ _ => lba

def DiskCall.count : DiskCall → UInt8
  | .read _ count => count
  | .write _ count _ => count

/-- A call, the statuses the drive answers with and the words on its data port, and how many
sectors it stores of a write that does not come to a good end. -/
structure DriveAct where
  call : DiskCall
  statuses : Nat → UInt8
  words : Nat → UInt16
  reached : Nat

/-- The driver and a drive with sectors. -/
structure DriveDisk where
  info : AtaDeviceInfo
  drive : Drive
  content : Nat → Sector

/-- The sectors that a command gives the drive. -/
def DriveCommand.sectors (c : DriveCommand) : List (Nat × Sector) :=
  if c.code = ataCmdWritePio ∧ c.words ≠ [] then
    placed c.lba (bufferSectors (c.words.flatMap wordBytes) c.count.toNat)
  else []

/-- The drive after the accesses of a call. -/
def DriveDisk.behind (d : DriveDisk) (trace : List PortEvent) (done : Bool) (reached : Nat) :
    DriveDisk :=
  let drive := runSteps Drive.next d.drive trace
  let sectors := (drive.log.drop d.drive.log.length).flatMap DriveCommand.sectors
  { d with
    drive := drive
    content := applyWrites d.content (if done then sectors else sectors.take reached) }

/-- The call on the ports. -/
def DriveDisk.perform (d : DriveDisk) (act : DriveAct) : DriveDisk × DiskAnswer :=
  match act.call with
  | .read lba count =>
      let r := ataReadSectors d.info.present (.start act.statuses act.words) lba count
      (d.behind r.1.trace true 0, .bytes (r.2.map fun ws => ws.flatMap wordBytes))
  | .write lba count buffer =>
      let r := ataWriteSectors d.info.present (.start act.statuses act.words) lba count
        (wordOf fun k => buffer.getD k 0)
      (d.behind r.1.trace (r.2 == 0) act.reached, .result r.2)

/-- The accesses of the call. -/
def DriveDisk.accesses (d : DriveDisk) (act : DriveAct) : List PortEvent :=
  match act.call with
  | .read lba count =>
      (ataReadSectors d.info.present (.start act.statuses act.words) lba count).1.trace
  | .write lba count buffer =>
      (ataWriteSectors d.info.present (.start act.statuses act.words) lba count
        (wordOf fun k => buffer.getD k 0)).1.trace

/-! ## The words of the drive -/

/-- A word on the data port during a read command is the next one of the sectors that the
registers named. -/
def Drive.Delivers (content : Nat → Sector) (d : Drive) : PortEvent → Prop
  | .data w => ∀ c ∈ d.current, c.code = ataCmdReadPio → c.words.length < c.size →
      w = wordOf (mediumByte content c.lba) c.words.length
  | _ => True

/-- If every block comes after a ready status of its own, the words are the drive's; otherwise
they may be any. -/
def Delivered (content : Nat → Sector) (d : Drive) (trace : List PortEvent) : Prop :=
  Handshaken trace → AllSteps Drive.next (Drive.Delivers content) d trace

/-- The statuses let the driver keep to the handshake, and the words are the drive's. -/
structure DriveDisk.Serves (d : DriveDisk) (act : DriveAct) : Prop where
  handshake : SingleReadyBlock d.info.present act.call.lba act.call.count act.statuses
  delivered : Delivered d.content d.drive (d.accesses act)

/-- The states and the answers of a sequence of calls. -/
def runAnswers {σ ι α : Type} (perform : σ → ι → σ × α) : σ → List ι → σ × List α
  | s, [] => (s, [])
  | s, i :: is =>
      let r := perform s i
      let rest := runAnswers perform r.1 is
      (rest.1, r.2 :: rest.2)

/-- The sectors that commands can name; a drive with fewer answers an error for the others. -/
def driveSectors : Nat := 2 ^ 28 + 255

theorem NoData.delivers {content : Nat → Sector} {evs : List PortEvent} (hevs : NoData evs) :
    ∀ d : Drive, AllSteps Drive.next (Drive.Delivers content) d evs := by
  induction evs with
  | nil => exact fun _ => trivial
  | cons e evs ih =>
      intro d
      have hrest : NoData evs := fun w hw => hevs w (List.mem_cons_of_mem _ hw)
      refine ⟨?_, ih hrest _⟩
      cases e with
      | status s => trivial
      | out port v => trivial
      | data w => exact absurd List.mem_cons_self (hevs w)

/-- The words of a read command follow one another from where the command stands. -/
theorem allSteps_delivers {content : Nat → Sector} (ws : List UInt16) :
    ∀ {d : Drive} {c : DriveCommand}, d.current = some c → c.code = ataCmdReadPio →
      c.words.length + ws.length ≤ c.size →
      (AllSteps Drive.next (Drive.Delivers content) d (ws.map .data) ↔
        ws = (List.range ws.length).map fun k =>
          wordOf (mediumByte content c.lba) (c.words.length + k)) := by
  induction ws with
  | nil => exact fun _ _ _ => ⟨fun _ => rfl, fun _ => trivial⟩
  | cons w ws ih =>
      intro d c hcurrent hcode hroom
      rw [List.length_cons] at hroom
      have hnext : (d.next (.data w)).current = some { c with words := c.words ++ [w] } := by
        rw [Drive.next, hcurrent]
        rfl
      have hlength : (c.words ++ [w]).length = c.words.length + 1 := List.length_append
      have hsize : ({ c with words := c.words ++ [w] } : DriveCommand).size = c.size := rfl
      have hleft : (c.words ++ [w]).length + ws.length ≤
          ({ c with words := c.words ++ [w] } : DriveCommand).size := by
        rw [hsize, hlength]
        omega
      have hrest := ih hnext hcode hleft
      have hhead : Drive.Delivers content d (.data w) ↔
          w = wordOf (mediumByte content c.lba) c.words.length := by
        rw [Drive.Delivers, hcurrent]
        constructor
        · exact fun h => h c rfl hcode (by omega)
        · rintro h _ ⟨⟩ - -
          exact h
      rw [List.map_cons, AllSteps, hhead, hrest, List.length_cons, List.range_succ_eq_map,
        List.map_cons, List.map_map, List.cons.injEq, Nat.add_zero, hlength]
      have hshift : (fun k => wordOf (mediumByte content c.lba) (c.words.length + k)) ∘ Nat.succ =
          fun k => wordOf (mediumByte content c.lba) (c.words.length + 1 + k) := by
        funext k
        rw [Function.comp_apply, Nat.succ_eq_add_one, Nat.add_assoc, Nat.add_comm 1 k]
      rw [hshift]

/-! ## One call -/

theorem behind_of_served {d : DriveDisk} {statuses : Nat → UInt8} {words : Nat → UInt16}
    {io : AtaIo} {c : AtaCall} {a : AtaAnswer}
    (h : Served d.info d.drive (.start statuses words) io c a) (done : Bool) (reached : Nat) :
    ∃ commands, Tells d.info c a commands ∧ (d.behind io.trace done reached).drive.Idle ∧
      (d.behind io.trace done reached).content = applyWrites d.content
        (if done then commands.flatMap DriveCommand.sectors
          else (commands.flatMap DriveCommand.sectors).take reached) := by
  obtain ⟨evs, d', commands, htrace, hleads, hidle, hlog, htells⟩ := h
  have hevs : io.trace = evs := htrace
  have hbehind : runSteps Drive.next d.drive io.trace = d' := by
    rw [hevs]
    exact hleads.behind
  have hcommands : d'.log.drop d.drive.log.length = commands := by
    rw [hlog, List.drop_left]
  refine ⟨commands, htells, ?_, ?_⟩
  · unfold DriveDisk.behind
    rw [hbehind]
    exact hidle
  · unfold DriveDisk.behind
    rw [hbehind]
    dsimp only
    rw [hcommands]

theorem Accepted.fits {present : Bool} {lba : UInt32} {count : UInt8}
    (h : Accepted present lba count) : lba.toNat + count.toNat ≤ driveSectors := by
  have hlba := UInt32.le_iff_toNat_le.mp h.2.2
  have hmask : ataLba28Mask.toNat = 2 ^ 28 - 1 := rfl
  have hcount := count.toNat_lt
  unfold driveSectors
  omega

theorem disk_ataReadSectors_of_accepted {present : Bool} {lba : UInt32} {count : UInt8}
    (h : Accepted present lba count) (device : Device Sector) :
    Disk.ataReadSectors ⟨present, device⟩ lba count =
      let r := device.read lba.toNat count.toNat
      (⟨present, r.1⟩, r.2.map fun ss => ss.flatMap Bytes.toList) := by
  obtain ⟨hcheck, hlba⟩ := h.checks
  unfold Disk.ataReadSectors
  rw [hcheck, if_neg Bool.false_ne_true, if_neg hlba]

theorem disk_ataWriteSectors_of_accepted {present : Bool} {lba : UInt32} {count : UInt8}
    (h : Accepted present lba count) (device : Device Sector) (buffer : List UInt8) :
    Disk.ataWriteSectors ⟨present, device⟩ lba count buffer =
      let w := device.write lba.toNat (bufferSectors buffer count.toNat)
      (⟨present, w.1⟩, if w.2 then 0 else -1) := by
  obtain ⟨hcheck, hlba⟩ := h.checks
  unfold Disk.ataWriteSectors
  rw [hcheck, if_neg Bool.false_ne_true, if_neg hlba]

theorem disk_ataReadSectors_of_not_accepted {present : Bool} {lba : UInt32} {count : UInt8}
    (h : ¬ Accepted present lba count) (device : Device Sector) :
    Disk.ataReadSectors ⟨present, device⟩ lba count = (⟨present, device⟩, none) := by
  unfold Disk.ataReadSectors
  rcases checks_of_not_accepted h with hcheck | hlba
  · rw [if_pos hcheck]
  · rw [if_pos hlba, ite_self]

theorem disk_ataWriteSectors_of_not_accepted {present : Bool} {lba : UInt32} {count : UInt8}
    (h : ¬ Accepted present lba count) (device : Device Sector) (buffer : List UInt8) :
    Disk.ataWriteSectors ⟨present, device⟩ lba count buffer = (⟨present, device⟩, -1) := by
  unfold Disk.ataWriteSectors
  rcases checks_of_not_accepted h with hcheck | hlba
  · rw [if_pos hcheck]
  · rw [if_pos hlba, ite_self]

theorem ataReadSectors_some {present : Bool} {io : AtaIo} {lba : UInt32} {count : UInt8}
    {words : List UInt16} (h : (ataReadSectors present io lba count).2 = some words) :
    Accepted present lba count ∧ words = (List.range (count.toNat * blockWords)).map io.words := by
  have hsome : (ataReadSectors present io lba count).2.isSome = true := by
    rw [h]
    rfl
  obtain ⟨haccepted, i, m, hrequested⟩ := (ataReadSectors_isSome_iff _ _ _ _).mp hsome
  obtain ⟨k, evs, hstart, -, -⟩ := startTransfer_of_requested io hrequested lba count ataCmdReadPio
  rw [ataReadSectors_of_accepted haccepted, hstart] at h
  exact ⟨haccepted, (Option.some.inj h).symm⟩

theorem two_mul_blockWords (count : Nat) : 2 * (count * blockWords) = count * ataSectorSize := by
  unfold blockWords ataSectorSize
  omega

theorem flatMap_mediumWords (content : Nat → Sector) (lba count : Nat) :
    ((List.range (count * blockWords)).map (wordOf (mediumByte content lba))).flatMap wordBytes =
      ((List.range count).map fun i => content (lba + i)).flatMap Bytes.toList := by
  rw [flatMap_wordBytes, two_mul_blockWords, map_mediumByte, List.flatMap_map]

theorem Tells.sectors_read {info : AtaDeviceInfo} {lba : UInt32} {count : UInt8} {a : AtaAnswer}
    {commands : List DriveCommand} (h : Tells info (.read lba count) a commands) :
    commands.flatMap DriveCommand.sectors = [] := by
  have hcode : ¬ (ataCmdReadPio = ataCmdWritePio) := by decide
  cases h with
  | read _ _ => simp [DriveCommand.sectors, hcode]
  | readFailed _ => simp [DriveCommand.sectors]
  | readRefused => rfl

theorem Tells.sectors_write {info : AtaDeviceInfo} {lba : UInt32} {count : UInt8}
    {buffer : List UInt8} {r : Int} {commands : List DriveCommand}
    (h : Tells info (.write lba count (wordOf fun k => buffer.getD k 0)) (.result r) commands) :
    r = -1 ∧ commands.flatMap DriveCommand.sectors = [] ∨
      Accepted info.present lba count ∧ (r = 0 ∨ r = -1) ∧
        commands.flatMap DriveCommand.sectors =
          placed lba.toNat (bufferSectors buffer count.toNat) := by
  cases h with
  | written haccepted hr =>
      right
      refine ⟨haccepted, hr, ?_⟩
      have hpos : count.toNat * blockWords ≠ 0 := by
        have hcount := toNat_ne_zero haccepted.2.1
        unfold blockWords ataSectorSize
        omega
      have hwords : (List.range (count.toNat * blockWords)).map
          (wordOf fun k => buffer.getD k 0) ≠ [] := by
        intro hnil
        have hlength := congrArg List.length hnil
        rw [List.length_map, List.length_range] at hlength
        exact hpos hlength
      have hflush : (DriveCommand.mk 0xE7 14 lba.toNat count []).sectors = [] :=
        if_neg fun hcode => hcode.2 rfl
      rw [List.flatMap_cons, List.flatMap_singleton, hflush, List.append_nil,
        DriveCommand.sectors, if_pos ⟨rfl, hwords⟩, flatMap_wordBytes, two_mul_blockWords,
        bufferSectors_map_getD]
  | writeFailed _ => exact Or.inl ⟨rfl, by simp [DriveCommand.sectors]⟩
  | writeRefused => exact Or.inl ⟨rfl, rfl⟩

/-- The disk of sectors behind a drive, with the faults to come. -/
def DriveDisk.disk (d : DriveDisk) (log : List (Nat × Sector)) (faults : Faults) : Ata :=
  ⟨d.info.present, ⟨driveSectors, d.content, log, faults⟩⟩

theorem DriveDisk.disk_congr {d d' : DriveDisk} (hinfo : d'.info = d.info)
    (hcontent : d'.content = d.content) (log : List (Nat × Sector)) (faults : Faults) :
    d'.disk log faults = d.disk log faults := by
  unfold DriveDisk.disk
  rw [hinfo, hcontent]

theorem disk_read {d : DriveDisk} {lba : UInt32} {count : UInt8}
    (h : Accepted d.info.present lba count) (log : List (Nat × Sector)) (later : Faults)
    (failed : Bool) :
    Disk.ataReadSectors (d.disk log ⟨failed :: later.reads, later.writes⟩) lba count =
      (d.disk log later, if failed then none else
        some (((List.range count.toNat).map fun i => d.content (lba.toNat + i)).flatMap
          Bytes.toList)) := by
  have hfits : ¬ driveSectors < lba.toNat + count.toNat := Nat.not_lt.mpr h.fits
  unfold DriveDisk.disk
  rw [disk_ataReadSectors_of_accepted h]
  cases failed with
  | false => simp [Device.read, hfits]
  | true => simp [Device.read]

theorem disk_write {d : DriveDisk} {lba : UInt32} {count : UInt8}
    (h : Accepted d.info.present lba count) (buffer : List UInt8) (log : List (Nat × Sector))
    (later : Faults) (o : WriteOutcome) :
    Disk.ataWriteSectors (d.disk log ⟨later.reads, o :: later.writes⟩) lba count buffer =
      (⟨d.info.present, ⟨driveSectors,
          applyWrites d.content
            (storedBy driveSectors o lba.toNat (bufferSectors buffer count.toNat)),
          log ++ storedBy driveSectors o lba.toNat (bufferSectors buffer count.toNat), later⟩⟩,
        if o = .done then 0 else -1) := by
  have hfits : ¬ driveSectors < lba.toNat + count.toNat := Nat.not_lt.mpr h.fits
  unfold DriveDisk.disk
  rw [disk_ataWriteSectors_of_accepted h]
  cases o with
  | done => simp [Device.write, Device.commit, storedBy, hfits]
  | failed reached => simp [Device.write, Device.commit, storedBy, hfits]

/-- With the right fault in front of the later ones the disk of sectors does the call as the
driver does it on the drive. -/
def Refined (d : DriveDisk) (act : DriveAct) : Prop :=
  ∀ log : List (Nat × Sector), ∃ log', ∀ later : Faults, ∃ faults,
    diskPerform (d.disk log faults) act.call =
      ((d.perform act).1.disk log' later, (d.perform act).2)

/-- A transfer that was asked for begins with the command of the call in the drive. -/
theorem startTransfer_current (io : AtaIo) {d : Drive} (hd : d.Idle) {lba : UInt32}
    (hlba : lba ≤ ataLba28Mask) (count code : UInt8) {i m : Nat}
    (hrequested : Requested ataTimeout io.statuses i m) :
    ∃ k evs, startTransfer ataTimeout io lba count code = (io.after k evs, 0) ∧ NoData evs ∧
      (runSteps Drive.next d evs).current = some ⟨code, 14, lba.toNat, count, []⟩ := by
  obtain ⟨k, evs, hstart, hevs, -⟩ := startTransfer_of_requested io hrequested lba count code
  obtain ⟨k', evs', d', hstart', hleads, -, -, hended⟩ :=
    startTransfer_leads io hd hlba count code
  have hend : (startTransfer ataTimeout io lba count code).2 = 0 := by rw [hstart]
  obtain ⟨-, -, hcurrent, htold⟩ := hended hend
  have hsame : evs = evs' := by
    rw [hstart] at hstart'
    exact List.append_cancel_left (congrArg AtaIo.trace hstart')
  have hbehind : runSteps Drive.next d evs' = d' := hleads.behind
  refine ⟨k, evs, hstart, hevs, ?_⟩
  rw [hsame, hbehind, hcurrent, htold]

/-- Behind a read call that gives words back, those are the drive's words if and only if they are
the words of the sectors the caller asked for. -/
theorem allSteps_delivers_read {content : Nat → Sector} {d : Drive} (hd : d.Idle) {present : Bool}
    {statuses : Nat → UInt8} {stream : Nat → UInt16} {lba : UInt32} {count : UInt8}
    {words : List UInt16}
    (h : (ataReadSectors present (.start statuses stream) lba count).2 = some words) :
    AllSteps Drive.next (Drive.Delivers content) d
        (ataReadSectors present (.start statuses stream) lba count).1.trace ↔
      words = (List.range (count.toNat * blockWords)).map
        (wordOf (mediumByte content lba.toNat)) := by
  have hsome : (ataReadSectors present (.start statuses stream) lba count).2.isSome = true := by
    rw [h]
    rfl
  obtain ⟨haccepted, i, m, hrequested⟩ := (ataReadSectors_isSome_iff _ _ _ _).mp hsome
  obtain ⟨k, evs, hstart, hevs, hcurrent⟩ :=
    startTransfer_current (.start statuses stream) hd haccepted.2.2 count ataCmdReadPio hrequested
  have hwords := (ataReadSectors_some h).2
  have hlength : words.length = count.toNat * blockWords := by
    rw [hwords, List.length_map, List.length_range]
  have htrace : (ataReadSectors present (.start statuses stream) lba count).1.trace =
      evs ++ words.map .data := by
    rw [ataReadSectors_of_accepted haccepted, hstart, hwords]
    rfl
  have hroom : ([] : List UInt16).length + words.length ≤
      (DriveCommand.mk ataCmdReadPio 14 lba.toNat count []).size := by
    rw [DriveCommand.size_of_transfer (Or.inl rfl), hlength, List.length_nil, Nat.zero_add]
  rw [htrace, allSteps_append, and_iff_right (hevs.delivers d),
    allSteps_delivers words hcurrent rfl hroom, hlength]
  simp only [List.length_nil, Nat.zero_add]

theorem allSteps_delivers_of_code_ne {content : Nat → Sector} (ws : List UInt16) :
    ∀ {d : Drive} {c : DriveCommand}, d.current = some c → c.code ≠ ataCmdReadPio →
      AllSteps Drive.next (Drive.Delivers content) d (ws.map .data) := by
  induction ws with
  | nil => exact fun _ _ => trivial
  | cons w ws ih =>
      intro d c hcurrent hcode
      have hnext : (d.next (.data w)).current = some { c with words := c.words ++ [w] } := by
        rw [Drive.next, hcurrent]
        rfl
      refine ⟨?_, ih hnext hcode⟩
      rw [Drive.Delivers, hcurrent]
      rintro _ ⟨⟩ hread
      exact absurd hread hcode

theorem allSteps_delivers_write {content : Nat → Sector} {d : Drive} (hd : d.Idle)
    {present : Bool} {statuses : Nat → UInt8} {stream buffer : Nat → UInt16} {lba : UInt32}
    {count : UInt8} :
    AllSteps Drive.next (Drive.Delivers content) d
      (ataWriteSectors present (.start statuses stream) lba count buffer).1.trace := by
  by_cases haccepted : Accepted present lba count
  · by_cases hrequested : ∃ i m, Requested ataTimeout statuses i m
    · obtain ⟨i, m, hrequested⟩ := hrequested
      obtain ⟨k, evs, hstart, hevs, hcurrent⟩ := startTransfer_current
        (.start statuses stream) hd haccepted.2.2 count ataCmdWritePio hrequested
      obtain ⟨tail, htail, htrace⟩ := ataOutsw_trace ataTimeout
        ((AtaIo.start statuses stream).after k evs) buffer (count.toNat * blockWords)
      have hfst : ∀ r : AtaIo × Int,
          (if r.2 != 0 then (r.1, (-1 : Int)) else (r.1, 0)).1 = r.1 := by
        intro r
        split <;> rfl
      have hcode : ataCmdWritePio ≠ ataCmdReadPio := by decide
      have hall : AllSteps Drive.next (Drive.Delivers content) d
          (evs ++ ((List.range (count.toNat * blockWords)).map buffer).map .data ++ tail) := by
        rw [allSteps_append, allSteps_append]
        exact ⟨⟨hevs.delivers d, allSteps_delivers_of_code_ne _ hcurrent hcode⟩, htail.delivers _⟩
      rw [ataWriteSectors_of_accepted haccepted, hstart]
      simp only [bne_self_eq_false, Bool.false_eq_true, if_false, hfst, htrace]
      exact hall
    · have hnone : ∀ i m, ¬ Requested ataTimeout statuses i m :=
        fun i m h => hrequested ⟨i, m, h⟩
      exact ((callTrace_write _ _ _ _ stream buffer).waiting haccepted hnone).delivers d
  · exact ((callTrace_write _ _ _ _ stream buffer).refused haccepted).delivers d

/-- Whatever the call and the statuses are, the drive has the words for them. -/
theorem DriveDisk.exists_serves {d : DriveDisk} (hd : d.drive.Idle) (call : DiskCall)
    {statuses : Nat → UInt8}
    (h : SingleReadyBlock d.info.present call.lba call.count statuses) :
    ∃ stream, ∀ reached, d.Serves ⟨call, statuses, stream, reached⟩ := by
  refine ⟨wordOf (mediumByte d.content call.lba.toNat), fun reached => ⟨h, fun _ => ?_⟩⟩
  cases call with
  | write lba count buffer => exact allSteps_delivers_write hd
  | read lba count =>
      show AllSteps Drive.next (Drive.Delivers d.content) d.drive (ataReadSectors d.info.present
        (.start statuses (wordOf (mediumByte d.content lba.toNat))) lba count).1.trace
      cases hr : (ataReadSectors d.info.present
          (.start statuses (wordOf (mediumByte d.content lba.toNat))) lba count).2 with
      | some words => exact (allSteps_delivers_read hd hr).mpr (ataReadSectors_some hr).2
      | none =>
          have hnone : ¬ (ataReadSectors d.info.present
              (.start statuses (wordOf (mediumByte d.content lba.toNat))) lba count).2.isSome =
                true := by
            rw [hr]
            exact Bool.false_ne_true
          rw [ataReadSectors_isSome_iff] at hnone
          have htrace := callTrace_read d.info.present lba count statuses
            (wordOf (mediumByte d.content lba.toNat))
          by_cases haccepted : Accepted d.info.present lba count
          · exact (htrace.waiting haccepted
              fun i m h => hnone ⟨haccepted, i, m, h⟩).delivers d.drive
          · exact (htrace.refused haccepted).delivers d.drive

theorem read_refined {d : DriveDisk} (hd : d.drive.Idle) {lba : UInt32} {count : UInt8}
    {statuses : Nat → UInt8} {stream : Nat → UInt16} {reached : Nat}
    (hserved : d.Serves ⟨.read lba count, statuses, stream, reached⟩) :
    Refined d ⟨.read lba count, statuses, stream, reached⟩ ∧
      (d.perform ⟨.read lba count, statuses, stream, reached⟩).1.drive.Idle := by
  obtain ⟨commands, htells, hidle, hcontent⟩ := behind_of_served
    (ataReadSectors_served d.info hd (.start statuses stream) lba count) true 0
  refine ⟨fun log => ⟨log, fun later => ?_⟩, hidle⟩
  rw [if_pos rfl, htells.sectors_read, applyWrites_nil] at hcontent
  have hinfo : (d.perform ⟨.read lba count, statuses, stream, reached⟩).1.info = d.info := rfl
  have hsame := DriveDisk.disk_congr hinfo hcontent log later
  have hanswer : (d.perform ⟨.read lba count, statuses, stream, reached⟩).2 =
      .bytes ((ataReadSectors d.info.present (.start statuses stream) lba count).2.map
        fun ws => ws.flatMap wordBytes) := rfl
  by_cases haccepted : Accepted d.info.present lba count
  · cases hr : (ataReadSectors d.info.present (.start statuses stream) lba count).2 with
    | none =>
        refine ⟨⟨true :: later.reads, later.writes⟩, ?_⟩
        rw [diskPerform, disk_read haccepted, hanswer, hr, hsame]
        rfl
    | some words =>
        have hhandshaken := (callTrace_read _ _ _ _ stream).handshaken_iff.mpr hserved.handshake
        have hwords := (allSteps_delivers_read hd hr).mp (hserved.delivered hhandshaken)
        have hbytes : words.flatMap wordBytes = _ :=
          (congrArg _ hwords).trans (flatMap_mediumWords d.content lba.toNat count.toNat)
        refine ⟨⟨false :: later.reads, later.writes⟩, ?_⟩
        rw [diskPerform, disk_read haccepted, hanswer, hr, hsame, Option.map_some, hbytes]
        rfl
  · have hnone : (ataReadSectors d.info.present (.start statuses stream) lba count).2 = none := by
      rw [ataReadSectors_of_not_accepted haccepted]
    refine ⟨later, ?_⟩
    rw [diskPerform, DriveDisk.disk, disk_ataReadSectors_of_not_accepted haccepted, hanswer, hnone,
      hsame]
    rfl

theorem write_refined {d : DriveDisk} (hd : d.drive.Idle) (lba : UInt32) (count : UInt8)
    (buffer : List UInt8) (statuses : Nat → UInt8) (stream : Nat → UInt16) (reached : Nat) :
    Refined d ⟨.write lba count buffer, statuses, stream, reached⟩ ∧
      (d.perform ⟨.write lba count buffer, statuses, stream, reached⟩).1.drive.Idle := by
  have hserved := ataWriteSectors_served d.info hd (.start statuses stream) lba count
    (wordOf fun k => buffer.getD k 0)
  have hanswer : (d.perform ⟨.write lba count buffer, statuses, stream, reached⟩).2 =
      .result (ataWriteSectors d.info.present (.start statuses stream) lba count
        (wordOf fun k => buffer.getD k 0)).2 := rfl
  obtain ⟨commands, htells, hidle, hcontent⟩ := behind_of_served hserved
    ((ataWriteSectors d.info.present (.start statuses stream) lba count
      (wordOf fun k => buffer.getD k 0)).2 == 0) reached
  refine ⟨fun log => ?_, hidle⟩
  have hdisk : ∀ log' later,
      (d.perform ⟨.write lba count buffer, statuses, stream, reached⟩).1.disk log' later =
        ⟨d.info.present, ⟨driveSectors,
          (d.perform ⟨.write lba count buffer, statuses, stream, reached⟩).1.content, log',
            later⟩⟩ :=
    fun log' later => rfl
  have hperformed :
      (d.perform ⟨.write lba count buffer, statuses, stream, reached⟩).1.content = _ := hcontent
  rw [hanswer]
  simp only [hdisk]
  rw [hperformed]
  rcases htells.sectors_write with ⟨hr, hnone⟩ | ⟨haccepted, hr, hsectors⟩
  · rw [hr, hnone, List.take_nil, ite_self, applyWrites_nil]
    by_cases haccepted : Accepted d.info.present lba count
    · refine ⟨log, fun later => ⟨⟨later.reads, .failed 0 :: later.writes⟩, ?_⟩⟩
      rw [diskPerform, disk_write haccepted]
      simp [storedBy]
    · refine ⟨log, fun later => ⟨later, ?_⟩⟩
      rw [diskPerform, DriveDisk.disk, disk_ataWriteSectors_of_not_accepted haccepted]
  · have hfits : lba.toNat + (bufferSectors buffer count.toNat).length ≤ driveSectors := by
      rw [length_bufferSectors]
      exact haccepted.fits
    rw [hsectors]
    rcases hr with hr | hr
    · refine ⟨log ++ placed lba.toNat (bufferSectors buffer count.toNat),
        fun later => ⟨⟨later.reads, .done :: later.writes⟩, ?_⟩⟩
      rw [diskPerform, disk_write haccepted, hr, storedBy_done hfits]
      rfl
    · refine ⟨log ++ (placed lba.toNat (bufferSectors buffer count.toNat)).take reached,
        fun later => ⟨⟨later.reads, .failed reached :: later.writes⟩, ?_⟩⟩
      rw [diskPerform, disk_write haccepted, hr, storedBy, if_neg (Nat.not_lt.mpr hfits)]
      rfl

theorem perform_refined {d : DriveDisk} (hd : d.drive.Idle) {act : DriveAct}
    (hserved : d.Serves act) : Refined d act ∧ (d.perform act).1.drive.Idle := by
  obtain ⟨call, statuses, stream, reached⟩ := act
  cases call with
  | read lba count => exact read_refined hd hserved
  | write lba count buffer => exact write_refined hd lba count buffer statuses stream reached

/-! ## Runs -/

theorem runAnswers_refined (acts : List DriveAct) : ∀ {d : DriveDisk}, d.drive.Idle →
    AllSteps (fun d act => (d.perform act).1) DriveDisk.Serves d acts →
    ∀ log, ∃ log' faults,
      runAnswers diskPerform (d.disk log faults) (acts.map DriveAct.call) =
        ((runAnswers DriveDisk.perform d acts).1.disk log' .none,
          (runAnswers DriveDisk.perform d acts).2) := by
  induction acts with
  | nil => exact fun _ _ log => ⟨log, .none, rfl⟩
  | cons act acts ih =>
      intro d hd hserved log
      obtain ⟨hrefined, hidle⟩ := perform_refined hd hserved.1
      -- the writes go forward through the run, the faults come back from its end
      obtain ⟨log₁, hstep⟩ := hrefined log
      obtain ⟨log₂, later, hrest⟩ := ih hidle hserved.2 log₁
      obtain ⟨faults, hcall⟩ := hstep later
      refine ⟨log₂, faults, ?_⟩
      rw [List.map_cons, runAnswers, hcall]
      dsimp only
      rw [hrest]
      rfl

/-- Over every sequence of calls that keep to the handshake the driver on a drive that was just
started answers as the disk of sectors does under some faults, and the sectors of the two are the
same in the end. -/
theorem disk_refined (info : AtaDeviceInfo) (content : Nat → Sector) (acts : List DriveAct)
    (hserved : AllSteps (fun d act => (d.perform act).1) DriveDisk.Serves ⟨info, .boot, content⟩
      acts) :
    ∃ log faults,
      runAnswers diskPerform (DriveDisk.disk ⟨info, .boot, content⟩ [] faults)
          (acts.map DriveAct.call) =
        ((runAnswers DriveDisk.perform ⟨info, .boot, content⟩ acts).1.disk log .none,
          (runAnswers DriveDisk.perform ⟨info, .boot, content⟩ acts).2) := by
  have hidle : Drive.boot.Idle := nofun
  exact runAnswers_refined acts hidle hserved []

/-- A prompt drive full of zeros, on which sector 7 is written and read back. -/
theorem disk_refined_prompt :
    ∃ stream stream' log faults,
      let info : AtaDeviceInfo := ⟨true, false, 0, []⟩
      let content : Nat → Sector := fun _ => Bytes.ofList ataSectorSize []
      let acts : List DriveAct :=
        [⟨.write 7 1 [65, 66, 67], promptStatuses, stream, 0⟩,
          ⟨.read 7 1, promptStatuses, stream', 0⟩]
      runAnswers diskPerform (DriveDisk.disk ⟨info, .boot, content⟩ [] faults)
          (acts.map DriveAct.call) =
        ((runAnswers DriveDisk.perform ⟨info, .boot, content⟩ acts).1.disk log .none,
          (runAnswers DriveDisk.perform ⟨info, .boot, content⟩ acts).2) := by
  have haccepted : Accepted true 7 1 := ⟨rfl, by decide, by decide⟩
  have hready : SingleReadyBlock true 7 1 promptStatuses :=
    (singleReadyBlock_of_requested haccepted requested_prompt).mpr ⟨rfl, rfl⟩
  let d : DriveDisk := ⟨⟨true, false, 0, []⟩, .boot, fun _ => Bytes.ofList ataSectorSize []⟩
  have hidle : d.drive.Idle := nofun
  obtain ⟨stream, hwrite⟩ := d.exists_serves hidle (.write 7 1 [65, 66, 67]) hready
  obtain ⟨stream', hread⟩ := DriveDisk.exists_serves (perform_refined hidle (hwrite 0)).2
    (.read 7 1) hready
  exact ⟨stream, stream', disk_refined _ _ _ ⟨hwrite 0, hread 0, trivial⟩⟩

end AcharyaOS.Disk.Ports
