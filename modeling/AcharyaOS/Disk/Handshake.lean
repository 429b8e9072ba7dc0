import AcharyaOS.Disk.Ports
import AcharyaOS.Foundation.Run

/-!
# The handshake before each sector

A disk that moves several sectors in one command has to be asked before each of
them whether it is ready.  The port accesses of a read or a write call are followed
word by word, and the calls whose every block of 256 words comes after a status that
says so are told from the statuses the disk answers with.
-/

namespace AcharyaOS.Disk.Ports

open Foundation.Run

/-! ## What a status says -/

def busy (s : UInt8) : Bool := s &&& ataStatusBsy != 0

def faulty (s : UInt8) : Bool := s &&& (ataStatusErr ||| ataStatusDf) != 0

def wantsData (s : UInt8) : Bool := s &&& ataStatusDrq != 0

/-- BSY clear, ERR and DF clear, DRQ set. -/
def ready (s : UInt8) : Bool := !busy s && !faulty s && wantsData s

/-! ## Traces -/

def blockWords : Nat := ataSectorSize / 2

/-- Whether a ready status was read since the last command and the last word, and how
many words were moved. -/
structure Handshake where
  ready : Bool
  moved : Nat

def Handshake.next (h : Handshake) : PortEvent → Handshake
  | .status s => { h with ready := h.ready || Ports.ready s }
  | .out port _ => if port = ataCommandPort then { h with ready := false } else h
  | .data _ => { ready := false, moved := h.moved + 1 }

/-- The first word of a block needs a ready status. -/
def Handshake.Admits (h : Handshake) : PortEvent → Prop
  | .data _ => blockWords ∣ h.moved → h.ready = true
  | _ => True

/-- Every block of the trace comes after a ready status of its own. -/
def Handshaken (trace : List PortEvent) : Prop :=
  AllSteps Handshake.next Handshake.Admits ⟨false, 0⟩ trace

def NoData (evs : List PortEvent) : Prop := ∀ w, PortEvent.data w ∉ evs

theorem noData_nil : NoData [] := by simp [NoData]

theorem noData_status (s : UInt8) : NoData [.status s] := by simp [NoData]

theorem NoData.append {evs evs' : List PortEvent} (h : NoData evs) (h' : NoData evs') :
    NoData (evs ++ evs') := by
  intro w hw
  rcases List.mem_append.mp hw with hw | hw
  · exact h w hw
  · exact h' w hw

theorem NoData.allSteps {evs : List PortEvent} (hevs : NoData evs) :
    ∀ h : Handshake, AllSteps Handshake.next Handshake.Admits h evs := by
  induction evs with
  | nil => exact fun _ => trivial
  | cons e evs ih =>
      intro h
      have hrest : NoData evs := fun w hw => hevs w (List.mem_cons_of_mem _ hw)
      refine ⟨?_, ih hrest _⟩
      cases e with
      | status s => trivial
      | out port v => trivial
      | data w => exact absurd List.mem_cons_self (hevs w)

theorem NoData.moved_runSteps {evs : List PortEvent} (hevs : NoData evs) :
    ∀ h : Handshake, (runSteps Handshake.next h evs).moved = h.moved := by
  induction evs with
  | nil => exact fun _ => rfl
  | cons e evs ih =>
      intro h
      have hrest : NoData evs := fun w hw => hevs w (List.mem_cons_of_mem _ hw)
      have hhead : (h.next e).moved = h.moved := by
        cases e with
        | status s => rfl
        | out port v => rw [Handshake.next]; split <;> rfl
        | data w => exact absurd List.mem_cons_self (hevs w)
      exact (ih hrest (h.next e)).trans hhead

/-- Without a ready status the words may only go on with a block. -/
theorem allSteps_data_of_not_ready (ws : List UInt16) (n : Nat) :
    AllSteps Handshake.next Handshake.Admits ⟨false, n⟩ (ws.map .data) ↔
      ∀ k < ws.length, ¬ blockWords ∣ n + k := by
  induction ws generalizing n with
  | nil => simp [AllSteps]
  | cons w ws ih =>
      have hhead : Handshake.Admits ⟨false, n⟩ (.data w) ↔ ¬ blockWords ∣ n := by
        simp [Handshake.Admits]
      rw [List.map_cons, AllSteps, hhead, Handshake.next, ih]
      constructor
      · rintro ⟨hn, hrest⟩ k hk
        cases k with
        | zero => exact hn
        | succ k =>
            rw [← Nat.add_assoc, Nat.add_right_comm]
            exact hrest k (by simpa using hk)
      · intro h
        refine ⟨h 0 (by simp), fun k hk => ?_⟩
        have hk' := h (k + 1) (by simpa using hk)
        rwa [← Nat.add_assoc, Nat.add_right_comm] at hk'

/-- A transfer of whole blocks is handshaken if it is one block after a ready status. -/
theorem allSteps_blocks {ws : List UInt16} {count : Nat} (hws : ws.length = count * blockWords)
    (hcount : count ≠ 0) (r : Bool) :
    AllSteps Handshake.next Handshake.Admits ⟨r, 0⟩ (ws.map .data) ↔ r = true ∧ count = 1 := by
  cases ws with
  | nil =>
      have : count * 256 = 0 := hws.symm
      omega
  | cons w ws =>
      have hlen : ws.length + 1 = count * 256 := hws
      have hhead : Handshake.Admits ⟨r, 0⟩ (.data w) ↔ r = true := by
        simp [Handshake.Admits]
      rw [List.map_cons, AllSteps, hhead, Handshake.next, allSteps_data_of_not_ready]
      apply and_congr_right
      intro _
      constructor
      · intro h
        by_contra hne
        -- the second block starts right after the first one
        have hsecond := h 255 (by omega)
        exact hsecond (Dvd.intro 1 rfl)
      · rintro rfl k hk ⟨c, hc⟩
        have : 0 + 1 + k = 256 * c := hc
        omega

/-! ## Polling -/

/-- `io` after `k` status reads and the accesses `evs`. -/
def AtaIo.after (io : AtaIo) (k : Nat) (evs : List PortEvent) : AtaIo :=
  { io with
    statuses := fun n => io.statuses (n + k)
    trace := io.trace ++ evs }

theorem AtaIo.after_after (io : AtaIo) (k k' : Nat) (evs evs' : List PortEvent) :
    (io.after k evs).after k' evs' = io.after (k' + k) (evs ++ evs') := by
  simp [after, Nat.add_assoc]

@[simp] theorem AtaIo.after_statuses (io : AtaIo) (k : Nat) (evs : List PortEvent) (n : Nat) :
    (io.after k evs).statuses n = io.statuses (n + k) := rfl

theorem outb_eq (io : AtaIo) (port : UInt16) (v : UInt8) :
    outb io port v = io.after 0 [.out port v] := rfl

theorem inbStatus_eq (io : AtaIo) :
    inbStatus io = (io.after 1 [.status (io.statuses 0)], io.statuses 0) := rfl

/-- Both waiting loops: read the status until `stop`, then look at its error bits. -/
def poll (stop : UInt8 → Bool) : Nat → AtaIo → AtaIo × Int
  | 0, io => (io, -1)
  | timeout + 1, io =>
      let (io, status) := inbStatus io
      if stop status then (io, if faulty status then -1 else 0)
      else poll stop timeout (ataIoWait io)

theorem poll_succ (stop : UInt8 → Bool) (timeout : Nat) (io : AtaIo) :
    poll stop (timeout + 1) io =
      if stop (io.statuses 0) then
        (io.after 1 [.status (io.statuses 0)], if faulty (io.statuses 0) then -1 else 0)
      else poll stop timeout (io.after 1 [.status (io.statuses 0), .out 0x80 0]) := by
  have hround : ataIoWait (io.after 1 [.status (io.statuses 0)]) =
      io.after 1 [.status (io.statuses 0), .out 0x80 0] := by
    rw [ataIoWait, outb_eq, AtaIo.after_after]
    rfl
  rw [← hround]
  rfl

def notBusy (s : UInt8) : Bool := !busy s

def faultyOrWantsData (s : UInt8) : Bool := faulty s || wantsData s

theorem ataWaitNotBusy_eq_poll (timeout : Nat) (io : AtaIo) :
    ataWaitNotBusy timeout io = poll notBusy timeout io := by
  induction timeout generalizing io with
  | zero => rfl
  | succ timeout ih =>
      have hstop : (io.statuses 0 &&& ataStatusBsy == 0) = notBusy (io.statuses 0) := by
        simp [notBusy, busy, bne]
      have hfaulty : (io.statuses 0 &&& (ataStatusErr ||| ataStatusDf) != 0) =
          faulty (io.statuses 0) := rfl
      rw [ataWaitNotBusy, poll, inbStatus_eq]
      dsimp only
      rw [hstop, hfaulty, ih]
      by_cases hstop : notBusy (io.statuses 0) = true
      · by_cases hfaulty : faulty (io.statuses 0) = true
        · rw [if_pos hstop, if_pos hstop, if_pos hfaulty, if_pos hfaulty]
        · rw [if_pos hstop, if_pos hstop, if_neg hfaulty, if_neg hfaulty]
      · rw [if_neg hstop, if_neg hstop]

theorem ataWaitDrq_eq_poll (timeout : Nat) (io : AtaIo) :
    ataWaitDrq timeout io = poll faultyOrWantsData timeout io := by
  induction timeout generalizing io with
  | zero => rfl
  | succ timeout ih =>
      have hfaulty : (io.statuses 0 &&& (ataStatusErr ||| ataStatusDf) != 0) =
          faulty (io.statuses 0) := rfl
      have hdrq : (io.statuses 0 &&& ataStatusDrq != 0) = wantsData (io.statuses 0) := rfl
      have hstop : faultyOrWantsData (io.statuses 0) =
          (faulty (io.statuses 0) || wantsData (io.statuses 0)) := rfl
      rw [ataWaitDrq, poll, inbStatus_eq]
      dsimp only
      rw [hfaulty, hdrq, hstop, ih]
      by_cases hfaulty : faulty (io.statuses 0) = true
      · rw [hfaulty]
        rfl
      · rw [if_neg hfaulty, if_neg hfaulty, Bool.not_eq_true _ |>.mp hfaulty, Bool.false_or]

/-- The answer `k`, within the time, is the first to meet `stop`. -/
structure StopsAt (stop : UInt8 → Bool) (statuses : Nat → UInt8) (timeout k : Nat) : Prop where
  lt : k < timeout
  stops : stop (statuses k) = true
  go : ∀ i < k, stop (statuses i) = false

/-- `k` rounds of a waiting loop. -/
def rounds (statuses : Nat → UInt8) : Nat → List PortEvent
  | 0 => []
  | k + 1 => .status (statuses 0) :: .out 0x80 0 :: rounds (fun n => statuses (n + 1)) k

theorem noData_rounds (statuses : Nat → UInt8) (k : Nat) : NoData (rounds statuses k) := by
  induction k generalizing statuses with
  | zero => simp [NoData, rounds]
  | succ k ih =>
      intro w
      simpa [rounds] using ih (fun n => statuses (n + 1)) w

theorem runSteps_rounds (statuses : Nat → UInt8) {k : Nat}
    (hk : ∀ i < k, ready (statuses i) = false) (h : Handshake) :
    runSteps Handshake.next h (rounds statuses k) = h := by
  induction k generalizing statuses with
  | zero => rfl
  | succ k ih =>
      have hrest := ih (fun n => statuses (n + 1)) fun i hi => hk (i + 1) (by omega)
      have hport : (0x80 : UInt16) ≠ ataCommandPort := by decide
      have hzero : Handshake.next h (.status (statuses 0)) = h := by
        rw [Handshake.next, hk 0 (by omega), Bool.or_false]
      have hround : rounds statuses (k + 1) =
          .status (statuses 0) :: .out 0x80 0 :: rounds (fun n => statuses (n + 1)) k := rfl
      rw [hround, runSteps, List.foldl_cons, List.foldl_cons, hzero, Handshake.next,
        if_neg hport]
      exact hrest

theorem poll_of_stopsAt (io : AtaIo) {stop : UInt8 → Bool} {timeout k : Nat}
    (hk : StopsAt stop io.statuses timeout k) :
    poll stop timeout io =
      (io.after (k + 1) (rounds io.statuses k ++ [.status (io.statuses k)]),
        if faulty (io.statuses k) then -1 else 0) := by
  induction timeout generalizing io k with
  | zero => exact absurd hk.lt (Nat.not_lt_zero k)
  | succ timeout ih =>
      rw [poll_succ]
      cases k with
      | zero =>
          rw [if_pos hk.stops]
          rfl
      | succ k =>
          have hlt := hk.lt
          have hzero : ¬ stop (io.statuses 0) = true := by
            rw [hk.go 0 (by omega)]
            exact Bool.false_ne_true
          have hrest : StopsAt stop (io.after 1 [.status (io.statuses 0), .out 0x80 0]).statuses
              timeout k :=
            ⟨by omega, hk.stops, fun i hi => hk.go (i + 1) (by omega)⟩
          rw [if_neg hzero, ih _ hrest, AtaIo.after_after]
          rfl

theorem poll_of_not_stopsAt {stop : UInt8 → Bool} {timeout : Nat} {io : AtaIo}
    (h : ∀ k, ¬ StopsAt stop io.statuses timeout k) :
    ∃ k, poll stop timeout io = (io.after k (rounds io.statuses k), -1) := by
  induction timeout generalizing io with
  | zero => exact ⟨0, by simp [poll, AtaIo.after, rounds]⟩
  | succ timeout ih =>
      have hzero : ¬ stop (io.statuses 0) = true := by
        intro hstop
        exact h 0 ⟨by omega, hstop, by simp⟩
      have hrest : ∀ k, ¬ StopsAt stop
          (io.after 1 [.status (io.statuses 0), .out 0x80 0]).statuses timeout k := by
        intro k hk
        have hlt := hk.lt
        refine h (k + 1) ⟨by omega, hk.stops, fun i hi => ?_⟩
        cases i with
        | zero => simpa using hzero
        | succ i => exact hk.go i (by omega)
      obtain ⟨k, hk⟩ := ih hrest
      refine ⟨k + 1, ?_⟩
      rw [poll_succ, if_neg hzero, hk, AtaIo.after_after]
      rfl

theorem poll_after (stop : UInt8 → Bool) (timeout : Nat) (io : AtaIo) :
    ∃ k evs, (poll stop timeout io).1 = io.after k evs ∧ NoData evs := by
  by_cases hstop : ∃ k, StopsAt stop io.statuses timeout k
  · obtain ⟨k, hk⟩ := hstop
    rw [poll_of_stopsAt io hk]
    exact ⟨k + 1, _, rfl, (noData_rounds _ _).append (noData_status _)⟩
  · obtain ⟨k, hk⟩ := poll_of_not_stopsAt (not_exists.mp hstop)
    rw [hk]
    exact ⟨k, _, rfl, noData_rounds _ _⟩

theorem StopsAt.unique {stop : UInt8 → Bool} {statuses : Nat → UInt8} {timeout k k' : Nat}
    (h : StopsAt stop statuses timeout k) (h' : StopsAt stop statuses timeout k') : k = k' := by
  rcases Nat.lt_trichotomy k k' with hlt | heq | hgt
  · exact absurd ((h'.go k hlt).symm.trans h.stops) Bool.false_ne_true
  · exact heq
  · exact absurd ((h.go k' hgt).symm.trans h'.stops) Bool.false_ne_true

/-! ## The start of a transfer -/

/-- The accesses of `ata_select_lba`. -/
def selection (lba : UInt32) (count command : UInt8) : List PortEvent :=
  [.out ataDriveHead ((0xE0 : UInt32) ||| ataDeviceMaster ||| ((lba >>> 24) &&& 0x0F)).toUInt8,
    .out ataSectorCount count, .out ataLbaLow (lba &&& 0xFF).toUInt8,
    .out ataLbaMid ((lba >>> 8) &&& 0xFF).toUInt8, .out ataLbaHigh ((lba >>> 16) &&& 0xFF).toUInt8,
    .out ataCommandPort command]

theorem ataSelectLba_eq (io : AtaIo) (lba : UInt32) (count command : UInt8) :
    ataSelectLba io lba count command = io.after 0 (selection lba count command) := by
  simp [ataSelectLba, outb_eq, AtaIo.after_after, selection]

theorem noData_selection (lba : UInt32) (count command : UInt8) :
    NoData (selection lba count command) := by
  simp [NoData, selection]

/-- The command makes the statuses before it worthless. -/
theorem runSteps_selection (lba : UInt32) (count command : UInt8) (h : Handshake) :
    runSteps Handshake.next h (selection lba count command) = ⟨false, h.moved⟩ := by
  have hhead : ataDriveHead ≠ ataCommandPort := by decide
  have hcount : ataSectorCount ≠ ataCommandPort := by decide
  have hlow : ataLbaLow ≠ ataCommandPort := by decide
  have hmid : ataLbaMid ≠ ataCommandPort := by decide
  have hhigh : ataLbaHigh ≠ ataCommandPort := by decide
  simp [runSteps, selection, Handshake.next, hhead, hcount, hlow, hmid, hhigh]

/-- What both calls do before they move data. -/
def startTransfer (timeout : Nat) (io : AtaIo) (lba : UInt32) (count command : UInt8) :
    AtaIo × Int :=
  let free := ataWaitNotBusy timeout io
  if free.2 != 0 then (free.1, -1)
  else ataWaitDrq timeout (ataSelectLba free.1 lba count command)

/-- The first wait ends with status `i`, the second one with the `m`th status after it,
and neither of the two reports an error. -/
structure Requested (timeout : Nat) (statuses : Nat → UInt8) (i m : Nat) : Prop where
  free : StopsAt notBusy statuses timeout i
  freeSound : faulty (statuses i) = false
  asked : StopsAt faultyOrWantsData (fun n => statuses (n + (i + 1))) timeout m
  askedSound : faulty (statuses (m + (i + 1))) = false

namespace Requested

variable {timeout : Nat} {statuses : Nat → UInt8} {i m : Nat}

theorem unique (h : Requested timeout statuses i m) {i' m' : Nat}
    (h' : Requested timeout statuses i' m') : i = i' ∧ m = m' := by
  obtain rfl := h.free.unique h'.free
  exact ⟨rfl, h.asked.unique h'.asked⟩

theorem not_ready (h : Requested timeout statuses i m) :
    ∀ k < m, ready (statuses (k + (i + 1))) = false := by
  intro k hk
  have hgo := h.asked.go k hk
  simp only [faultyOrWantsData, Bool.or_eq_false_iff] at hgo
  rw [ready, hgo.2, Bool.and_false]

theorem ready_eq (h : Requested timeout statuses i m) :
    ready (statuses (m + (i + 1))) = !busy (statuses (m + (i + 1))) := by
  have hstops := h.asked.stops
  simp only [faultyOrWantsData, h.askedSound, Bool.false_or] at hstops
  rw [ready, h.askedSound, hstops, Bool.not_false, Bool.and_true, Bool.and_true]

end Requested

/-- The accesses up to the command. -/
def sent (statuses : Nat → UInt8) (i : Nat) (lba : UInt32) (count command : UInt8) :
    List PortEvent :=
  rounds statuses i ++ [.status (statuses i)] ++ selection lba count command

theorem noData_sent (statuses : Nat → UInt8) (i : Nat) (lba : UInt32) (count command : UInt8) :
    NoData (sent statuses i lba count command) :=
  ((noData_rounds _ _).append (noData_status _)).append (noData_selection _ _ _)

theorem runSteps_sent (statuses : Nat → UInt8) (i : Nat) (lba : UInt32) (count command : UInt8)
    (h : Handshake) :
    runSteps Handshake.next h (sent statuses i lba count command) = ⟨false, h.moved⟩ := by
  have hbefore := ((noData_rounds statuses i).append (noData_status (statuses i))).moved_runSteps h
  rw [sent, runSteps_append, runSteps_selection, hbefore]

theorem startTransfer_of_free {timeout : Nat} {io : AtaIo} {i : Nat}
    (hi : StopsAt notBusy io.statuses timeout i) (hsound : faulty (io.statuses i) = false)
    (lba : UInt32) (count command : UInt8) :
    startTransfer timeout io lba count command =
      ataWaitDrq timeout (io.after (i + 1) (sent io.statuses i lba count command)) := by
  have hfree : ataWaitNotBusy timeout io =
      (io.after (i + 1) (rounds io.statuses i ++ [.status (io.statuses i)]), 0) := by
    rw [ataWaitNotBusy_eq_poll, poll_of_stopsAt io hi, hsound]
    rfl
  simp only [startTransfer, hfree, ataSelectLba_eq, AtaIo.after_after, Nat.zero_add]
  rfl

theorem startTransfer_of_requested (io : AtaIo) {timeout i m : Nat}
    (h : Requested timeout io.statuses i m) (lba : UInt32) (count command : UInt8) :
    ∃ k evs, startTransfer timeout io lba count command = (io.after k evs, 0) ∧ NoData evs ∧
      ∀ s, runSteps Handshake.next s evs =
        ⟨!busy (io.statuses (m + (i + 1))), s.moved⟩ := by
  refine ⟨m + 1 + (i + 1), sent io.statuses i lba count command ++
    (rounds (fun n => io.statuses (n + (i + 1))) m ++ [.status (io.statuses (m + (i + 1)))]),
    ?_, ?_, fun s => ?_⟩
  · rw [startTransfer_of_free h.free h.freeSound, ataWaitDrq_eq_poll,
      poll_of_stopsAt (io.after (i + 1) _) h.asked, AtaIo.after_statuses, h.askedSound,
      AtaIo.after_after]
    rfl
  · exact (noData_sent _ _ _ _ _).append ((noData_rounds _ _).append (noData_status _))
  · have hrounds := runSteps_rounds (fun n => io.statuses (n + (i + 1))) h.not_ready
      ⟨false, s.moved⟩
    rw [runSteps_append, runSteps_sent, runSteps_append, hrounds]
    simp [runSteps, Handshake.next, h.ready_eq]

theorem startTransfer_of_not_requested (io : AtaIo) {timeout : Nat}
    (h : ∀ i m, ¬ Requested timeout io.statuses i m) (lba : UInt32) (count command : UInt8) :
    ∃ k evs, startTransfer timeout io lba count command = (io.after k evs, -1) ∧ NoData evs := by
  by_cases hfree : ∃ i, StopsAt notBusy io.statuses timeout i
  · obtain ⟨i, hi⟩ := hfree
    cases hsound : faulty (io.statuses i) with
    | true =>
        refine ⟨i + 1, _, ?_, (noData_rounds io.statuses i).append (noData_status (io.statuses i))⟩
        simp only [startTransfer, ataWaitNotBusy_eq_poll, poll_of_stopsAt io hi, hsound]
        rfl
    | false =>
        rw [startTransfer_of_free hi hsound, ataWaitDrq_eq_poll]
        by_cases hasked : ∃ m, StopsAt faultyOrWantsData
            (io.after (i + 1) (sent io.statuses i lba count command)).statuses timeout m
        · obtain ⟨m, hm⟩ := hasked
          have hfault : faulty (io.statuses (m + (i + 1))) = true := by
            by_contra hno
            exact h i m ⟨hi, hsound, hm, by simpa using hno⟩
          refine ⟨m + 1 + (i + 1), _, ?_, (noData_sent io.statuses i lba count command).append
            ((noData_rounds (fun n => io.statuses (n + (i + 1))) m).append
              (noData_status (io.statuses (m + (i + 1)))))⟩
          rw [poll_of_stopsAt _ hm, AtaIo.after_statuses, hfault, AtaIo.after_after]
          rfl
        · obtain ⟨k, hk⟩ := poll_of_not_stopsAt (not_exists.mp hasked)
          refine ⟨k + (i + 1), _, ?_, (noData_sent io.statuses i lba count command).append
            (noData_rounds (fun n => io.statuses (n + (i + 1))) k)⟩
          rw [hk, AtaIo.after_after]
          rfl
  · obtain ⟨k, hk⟩ := poll_of_not_stopsAt (not_exists.mp hfree)
    rw [← ataWaitNotBusy_eq_poll] at hk
    refine ⟨k, _, ?_, noData_rounds io.statuses k⟩
    simp only [startTransfer, hk]
    rfl

/-! ## The calls -/

/-- The call gets as far as the waits. -/
def Accepted (present : Bool) (lba : UInt32) (count : UInt8) : Prop :=
  present = true ∧ count ≠ 0 ∧ lba ≤ ataLba28Mask

theorem Accepted.checks {present : Bool} {lba : UInt32} {count : UInt8}
    (h : Accepted present lba count) :
    (!present || count == 0) = false ∧ ¬ lba > ataLba28Mask := by
  obtain ⟨rfl, hcount, hlba⟩ := h
  exact ⟨by simpa using hcount, UInt32.not_lt.mpr hlba⟩

theorem ataReadSectors_of_accepted {present : Bool} {lba : UInt32} {count : UInt8}
    (h : Accepted present lba count) (io : AtaIo) :
    ataReadSectors present io lba count =
      let r := startTransfer ataTimeout io lba count ataCmdReadPio
      if r.2 != 0 then (r.1, none)
      else
        let d := ataInsw r.1 (count.toNat * blockWords)
        (d.1, some d.2) := by
  obtain ⟨hcheck, hlba⟩ := h.checks
  have hfailed : ((-1 : Int) != 0) = true := rfl
  simp only [ataReadSectors, startTransfer, blockWords]
  rw [hcheck, if_neg Bool.false_ne_true, if_neg hlba]
  by_cases hfree : ((ataWaitNotBusy ataTimeout io).2 != 0) = true
  · simp only [if_pos hfree]
    exact (if_pos hfailed).symm
  · simp only [if_neg hfree]

theorem ataWriteSectors_of_accepted {present : Bool} {lba : UInt32} {count : UInt8}
    (h : Accepted present lba count) (io : AtaIo) (buffer : Nat → UInt16) :
    ataWriteSectors present io lba count buffer =
      let r := startTransfer ataTimeout io lba count ataCmdWritePio
      if r.2 != 0 then (r.1, -1)
      else
        let io := ataOutsw r.1 buffer (count.toNat * blockWords)
        let done := ataWaitNotBusy ataTimeout (outb io ataCommandPort 0xE7)
        if done.2 != 0 then (done.1, -1) else (done.1, 0) := by
  obtain ⟨hcheck, hlba⟩ := h.checks
  have hfailed : ((-1 : Int) != 0) = true := rfl
  simp only [ataWriteSectors, startTransfer, blockWords]
  rw [hcheck, if_neg Bool.false_ne_true, if_neg hlba]
  by_cases hfree : ((ataWaitNotBusy ataTimeout io).2 != 0) = true
  · simp only [if_pos hfree]
    exact (if_pos hfailed).symm
  · simp only [if_neg hfree]

theorem checks_of_not_accepted {present : Bool} {lba : UInt32} {count : UInt8}
    (h : ¬ Accepted present lba count) :
    (!present || count == 0) = true ∨ lba > ataLba28Mask := by
  by_contra hpass
  rw [not_or, Bool.not_eq_true, Bool.or_eq_false_iff] at hpass
  exact h ⟨by simpa using hpass.1.1, by simpa using hpass.1.2, UInt32.not_lt.mp hpass.2⟩

theorem ataReadSectors_of_not_accepted {present : Bool} {lba : UInt32} {count : UInt8}
    (h : ¬ Accepted present lba count) (io : AtaIo) :
    ataReadSectors present io lba count = (io, none) := by
  rcases checks_of_not_accepted h with hcheck | hlba
  · rw [ataReadSectors, if_pos hcheck]
  · rw [ataReadSectors, if_pos hlba, ite_self]

theorem ataWriteSectors_of_not_accepted {present : Bool} {lba : UInt32} {count : UInt8}
    (h : ¬ Accepted present lba count) (io : AtaIo) (buffer : Nat → UInt16) :
    ataWriteSectors present io lba count buffer = (io, -1) := by
  rcases checks_of_not_accepted h with hcheck | hlba
  · rw [ataWriteSectors, if_pos hcheck]
  · rw [ataWriteSectors, if_pos hlba, ite_self]

/-- When the call moves data at all, it moves one block, and the status on which it
starts has BSY clear. -/
def SingleReadyBlock (present : Bool) (lba : UInt32) (count : UInt8) (statuses : Nat → UInt8) :
    Prop :=
  Accepted present lba count → ∀ i m, Requested ataTimeout statuses i m →
    count = 1 ∧ busy (statuses (m + (i + 1))) = false

theorem toNat_eq_one_iff (count : UInt8) : count.toNat = 1 ↔ count = 1 := by
  rw [← UInt8.toNat_inj]
  rfl

theorem toNat_ne_zero {count : UInt8} (h : count ≠ 0) : count.toNat ≠ 0 := by
  intro hzero
  exact h (UInt8.toNat_inj.mp hzero)

/-- A call at the start of its trace. -/
def AtaIo.start (statuses : Nat → UInt8) (words : Nat → UInt16) : AtaIo := ⟨statuses, words, []⟩

theorem singleReadyBlock_of_requested {present : Bool} {lba : UInt32} {count : UInt8}
    {statuses : Nat → UInt8} {i m : Nat} (haccepted : Accepted present lba count)
    (h : Requested ataTimeout statuses i m) :
    SingleReadyBlock present lba count statuses ↔
      count.toNat = 1 ∧ busy (statuses (m + (i + 1))) = false := by
  rw [toNat_eq_one_iff]
  constructor
  · exact fun hsingle => hsingle haccepted i m h
  · intro hready _ i' m' h'
    obtain ⟨rfl, rfl⟩ := h.unique h'
    exact hready

/-- The accesses `before`, which end with the status `s`, the words of `count` sectors
and the accesses `behind`. -/
def Transfer (s : UInt8) (count : Nat) (trace : List PortEvent) : Prop :=
  ∃ (before behind : List PortEvent) (words : List UInt16),
    trace = before ++ words.map .data ++ behind ∧ words.length = count * blockWords ∧
      NoData before ∧ NoData behind ∧
      ∀ h, runSteps Handshake.next h before = ⟨!busy s, h.moved⟩

theorem Transfer.handshaken_iff {s : UInt8} {count : Nat} {trace : List PortEvent}
    (h : Transfer s count trace) (hcount : count ≠ 0) :
    Handshaken trace ↔ count = 1 ∧ busy s = false := by
  obtain ⟨before, behind, words, rfl, hwords, hbefore, hbehind, hrun⟩ := h
  rw [Handshaken, allSteps_append, allSteps_append, hrun,
    and_iff_left (hbehind.allSteps _), and_iff_right (hbefore.allSteps _),
    allSteps_blocks hwords hcount, Bool.not_eq_true', and_comm]

/-- The trace of a call whose waits get these statuses: no data without a request, and
all the words at once after it. -/
structure CallTrace (present : Bool) (lba : UInt32) (count : UInt8) (statuses : Nat → UInt8)
    (trace : List PortEvent) : Prop where
  refused : ¬ Accepted present lba count → NoData trace
  waiting : Accepted present lba count → (∀ i m, ¬ Requested ataTimeout statuses i m) →
    NoData trace
  served : Accepted present lba count → ∀ i m, Requested ataTimeout statuses i m →
    Transfer (statuses (m + (i + 1))) count.toNat trace

theorem CallTrace.handshaken_iff {present : Bool} {lba : UInt32} {count : UInt8}
    {statuses : Nat → UInt8} {trace : List PortEvent}
    (h : CallTrace present lba count statuses trace) :
    Handshaken trace ↔ SingleReadyBlock present lba count statuses := by
  by_cases haccepted : Accepted present lba count
  · by_cases hreq : ∃ i m, Requested ataTimeout statuses i m
    · obtain ⟨i, m, hrequested⟩ := hreq
      rw [singleReadyBlock_of_requested haccepted hrequested]
      exact (h.served haccepted i m hrequested).handshaken_iff (toNat_ne_zero haccepted.2.1)
    · simp only [not_exists] at hreq
      exact iff_of_true ((h.waiting haccepted hreq).allSteps _)
        fun _ i m hrequested => absurd hrequested (hreq i m)
  · exact iff_of_true ((h.refused haccepted).allSteps _) fun h' => absurd h' haccepted

theorem callTrace_read (present : Bool) (lba : UInt32) (count : UInt8) (statuses : Nat → UInt8)
    (words : Nat → UInt16) :
    CallTrace present lba count statuses
      (ataReadSectors present (.start statuses words) lba count).1.trace where
  refused h := by
    rw [ataReadSectors_of_not_accepted h]
    exact noData_nil
  waiting h hreq := by
    obtain ⟨k, evs, hstart, hevs⟩ := startTransfer_of_not_requested
      (.start statuses words) hreq lba count ataCmdReadPio
    rw [ataReadSectors_of_accepted h, hstart]
    exact hevs
  served h i m hreq := by
    obtain ⟨k, evs, hstart, hevs, hrun⟩ := startTransfer_of_requested
      (.start statuses words) hreq lba count ataCmdReadPio
    rw [ataReadSectors_of_accepted h, hstart]
    exact ⟨evs, [], (List.range (count.toNat * blockWords)).map words,
      (List.append_nil _).symm, by simp, hevs, noData_nil, hrun⟩

theorem ataOutsw_trace (timeout : Nat) (io : AtaIo) (buffer : Nat → UInt16) (n : Nat) :
    ∃ tail, NoData tail ∧
      (ataWaitNotBusy timeout (outb (ataOutsw io buffer n) ataCommandPort 0xE7)).1.trace =
        io.trace ++ ((List.range n).map buffer).map .data ++ tail := by
  obtain ⟨k, evs, hpoll, hevs⟩ :=
    poll_after notBusy timeout (outb (ataOutsw io buffer n) ataCommandPort 0xE7)
  have hflush : NoData [.out ataCommandPort 0xE7] := by simp [NoData]
  refine ⟨[.out ataCommandPort 0xE7] ++ evs, hflush.append hevs, ?_⟩
  rw [ataWaitNotBusy_eq_poll, hpoll]
  simp [AtaIo.after, outb, ataOutsw]

theorem callTrace_write (present : Bool) (lba : UInt32) (count : UInt8) (statuses : Nat → UInt8)
    (words buffer : Nat → UInt16) :
    CallTrace present lba count statuses
      (ataWriteSectors present (.start statuses words) lba count buffer).1.trace where
  refused h := by
    rw [ataWriteSectors_of_not_accepted h]
    exact noData_nil
  waiting h hreq := by
    obtain ⟨k, evs, hstart, hevs⟩ := startTransfer_of_not_requested
      (.start statuses words) hreq lba count ataCmdWritePio
    rw [ataWriteSectors_of_accepted h, hstart]
    exact hevs
  served h i m hreq := by
    obtain ⟨k, evs, hstart, hevs, hrun⟩ := startTransfer_of_requested
      (.start statuses words) hreq lba count ataCmdWritePio
    obtain ⟨tail, htail, htrace⟩ := ataOutsw_trace ataTimeout
      ((AtaIo.start statuses words).after k evs) buffer (count.toNat * blockWords)
    have hfst : ∀ d : AtaIo × Int, (if d.2 != 0 then (d.1, (-1 : Int)) else (d.1, 0)).1 = d.1 := by
      intro d
      split <;> rfl
    rw [ataWriteSectors_of_accepted h, hstart]
    simp only [bne_self_eq_false, Bool.false_eq_true, if_false, hfst, htrace]
    exact ⟨evs, tail, (List.range (count.toNat * blockWords)).map buffer, rfl, by simp, hevs,
      htail, hrun⟩

theorem ataReadSectors_isSome_iff (present : Bool) (io : AtaIo) (lba : UInt32) (count : UInt8) :
    (ataReadSectors present io lba count).2.isSome = true ↔
      Accepted present lba count ∧ ∃ i m, Requested ataTimeout io.statuses i m := by
  by_cases haccepted : Accepted present lba count
  · rw [ataReadSectors_of_accepted haccepted, and_iff_right haccepted]
    by_cases hreq : ∃ i m, Requested ataTimeout io.statuses i m
    · obtain ⟨i, m, h⟩ := hreq
      obtain ⟨k, evs, hstart, -⟩ := startTransfer_of_requested io h lba count ataCmdReadPio
      rw [hstart]
      exact iff_of_true rfl ⟨i, m, h⟩
    · simp only [not_exists] at hreq
      obtain ⟨k, evs, hstart, -⟩ := startTransfer_of_not_requested io hreq lba count ataCmdReadPio
      rw [hstart]
      exact iff_of_false Bool.false_ne_true fun ⟨i, m, h⟩ => hreq i m h
  · rw [ataReadSectors_of_not_accepted haccepted]
    exact iff_of_false Bool.false_ne_true fun h => haccepted h.1

/-- The two calls keep the handshake exactly when they move at most one sector, on a
status that does not say busy. -/
theorem sector_handshake_iff (present : Bool) (lba : UInt32) (count : UInt8)
    (statuses : Nat → UInt8) (words buffer : Nat → UInt16) :
    (Handshaken (ataReadSectors present (.start statuses words) lba count).1.trace ↔
      SingleReadyBlock present lba count statuses) ∧
    (Handshaken (ataWriteSectors present (.start statuses words) lba count buffer).1.trace ↔
      SingleReadyBlock present lba count statuses) :=
  ⟨(callTrace_read present lba count statuses words).handshaken_iff,
    (callTrace_write present lba count statuses words buffer).handshaken_iff⟩

/-- A disk that is never busy and asks for data as soon as it has the command. -/
def promptStatuses (n : Nat) : UInt8 := if n = 0 then 0x50 else 0x58

theorem requested_prompt : Requested ataTimeout promptStatuses 0 0 where
  free := ⟨by decide, by decide, by simp⟩
  freeSound := by decide
  asked := ⟨by decide, by decide, by simp⟩
  askedSound := by decide

theorem not_sector_handshake :
    ¬ ∀ (present : Bool) (lba : UInt32) (count : UInt8) (statuses : Nat → UInt8)
        (words buffer : Nat → UInt16), 1 ≤ count →
      Handshaken (ataReadSectors present (.start statuses words) lba count).1.trace ∧
        Handshaken (ataWriteSectors present (.start statuses words) lba count buffer).1.trace := by
  intro h
  have hread := (h true 0 2 promptStatuses (fun _ => 0) (fun _ => 0) (by decide)).1
  have hsingle := (callTrace_read true 0 2 promptStatuses fun _ => 0).handshaken_iff.mp hread
  have haccepted : Accepted true 0 2 := ⟨rfl, by decide, by decide⟩
  exact absurd (hsingle haccepted 0 0 requested_prompt).1 (by decide)

end AcharyaOS.Disk.Ports
