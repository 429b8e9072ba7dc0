import AcharyaOS.Icmp.Code
import AcharyaOS.Ipv4.Sending
import AcharyaOS.Udp.Send
import AcharyaOS.Udp.Table

/-!
# The accounts of the network

Five modules count what passes through them.  All their counters are those of one ledger:
the datagrams, the echo requests and the ARP requests sent.
-/

namespace AcharyaOS.Udp

open Foundation Foundation.Run Arp Ipv4 Icmp

/-- The static variables of the network modules. -/
structure NetSystem where
  udp : UdpState
  icmp : IcmpStats
  ip : IpState

def icmpInit : IcmpStats := ⟨0, 0, 0, 0⟩

/-- `eth_init`, `arp_init`, `ipv4_init`, `icmp_init` and `udp_init` in any state. -/
def netStart (s : NetSystem) (tick : UInt64) : NetSystem where
  udp := udpInit s.udp
  icmp := icmpInit
  ip :=
    { ipv4 := ipv4Init s.ip.ipv4
      arp := arpInit { s.ip.arp with eth := ethInit } tick
      frames := s.ip.frames }

inductive NetCall
  | udpSend (socketId : Int) (dstIp : UInt32) (dstPort : UInt16) (data : Option (List UInt8))
  | icmpPing (dstIp : UInt32)
  | udp (c : UdpCall)
  | arpAddStatic (tick : UInt64) (ip : UInt32) (mac : Option Mac)
  | arpPoll (tick : UInt64)

def netStep (s : NetSystem) : NetCall → NetSystem
  | .udpSend socketId dstIp dstPort data =>
      let t := (udpSend ⟨s.udp, s.ip⟩ socketId dstIp dstPort data).1
      { s with
        udp := t.udp
        ip := t.ip }
  | .icmpPing dstIp =>
      let t := (icmpPing ⟨s.icmp, s.ip⟩ dstIp).1
      { s with
        icmp := t.stats
        ip := t.ip }
  | .udp c => { s with udp := udpStep s.udp c }
  | .arpAddStatic tick ip mac =>
      { s with ip := { s.ip with arp := arpAddStatic s.ip.arp tick ip mac } }
  | .arpPoll tick => { s with ip := { s.ip with arp := arpPoll s.ip.arp tick } }

/-- The counters agree with each other modulo 2^32, and the driver has dropped nothing. -/
structure Conserved (s : NetSystem) : Prop where
  frames : s.ip.arp.eth.txFrames.toUInt32 =
    s.ip.ipv4.stats.sendCount + s.ip.arp.stats.requests
  sent : s.ip.ipv4.stats.sendCount = s.udp.stats.txPackets + s.icmp.sent
  misses : s.ip.arp.stats.misses = s.ip.arp.stats.requests
  dropped : s.ip.arp.eth.droppedFrames = 0

/-- One of the counters is one higher, the other is as before. -/
def OneMore (sent dropped sent' dropped' : UInt32) : Prop :=
  sent' = sent + 1 ∧ dropped' = dropped ∨ sent' = sent ∧ dropped' = dropped + 1

def CountsOnce (s : NetSystem) (c : NetCall) : Prop :=
  let t := netStep s c
  match c with
  | .udpSend .. => OneMore s.udp.stats.txPackets s.udp.stats.droppedPackets
      t.udp.stats.txPackets t.udp.stats.droppedPackets
  | .icmpPing _ => OneMore s.icmp.sent s.icmp.dropped t.icmp.sent t.icmp.dropped
  | _ => True

/-! ## The ledger -/

/-- What has been sent. -/
structure Ledger where
  datagrams : Nat
  echoes : Nat
  requests : Nat

/-- The counters of the state are those of the ledger, each as far as it is wide. -/
structure Accounted (l : Ledger) (s : NetSystem) : Prop where
  txPackets : s.udp.stats.txPackets = .ofNat l.datagrams
  sent : s.icmp.sent = .ofNat l.echoes
  sendCount : s.ip.ipv4.stats.sendCount = .ofNat (l.datagrams + l.echoes)
  requests : s.ip.arp.stats.requests = .ofNat l.requests
  misses : s.ip.arp.stats.misses = .ofNat l.requests
  txFrames : s.ip.arp.eth.txFrames = .ofNat (l.datagrams + l.echoes + l.requests)
  droppedFrames : s.ip.arp.eth.droppedFrames = 0
  ready : s.ip.arp.eth.ready = true

theorem Accounted.conserved {l : Ledger} {s : NetSystem} (h : Accounted l s) : Conserved s where
  frames := by
    rw [h.txFrames, h.sendCount, h.requests, ← UInt32.ofNat_add]
    apply UInt32.toNat_inj.mp
    rw [UInt64.toNat_toUInt32, UInt64.toNat_ofNat', UInt32.toNat_ofNat']
    omega
  sent := by rw [h.sendCount, h.txPackets, h.sent, ← UInt32.ofNat_add]
  misses := h.misses.trans h.requests.symm
  dropped := h.droppedFrames

theorem accounted_netStart (s : NetSystem) (tick : UInt64) :
    Accounted ⟨0, 0, 0⟩ (netStart s tick) :=
  ⟨rfl, rfl, rfl, rfl, rfl, rfl, rfl, rfl⟩

section Steps

variable {l : Ledger} {s : NetSystem}

/-- The lower layers have sent something for one of the two protocols, or nothing but ARP
requests. -/
theorem Accounted.of_counts (h : Accounted l s) {t : NetSystem} {datagrams echoes asked : Nat}
    (hcounts : Counts (datagrams + echoes) asked s.ip t.ip)
    (htx : t.udp.stats.txPackets = s.udp.stats.txPackets + .ofNat datagrams)
    (hsent : t.icmp.sent = s.icmp.sent + .ofNat echoes) :
    Accounted ⟨l.datagrams + datagrams, l.echoes + echoes, l.requests + asked⟩ t where
  txPackets := by rw [htx, h.txPackets, ← UInt32.ofNat_add]
  sent := by rw [hsent, h.sent, ← UInt32.ofNat_add]
  sendCount := by
    rw [hcounts.sendCount, h.sendCount, ← UInt32.ofNat_add, Nat.add_add_add_comm]
  requests := by rw [hcounts.requests, h.requests, ← UInt32.ofNat_add]
  misses := by rw [hcounts.misses, h.misses, ← UInt32.ofNat_add]
  txFrames := by
    rw [hcounts.txFrames, h.txFrames, ← UInt64.ofNat_add, Nat.add_add_add_comm,
      Nat.add_add_add_comm l.datagrams]
  droppedFrames := hcounts.droppedFrames.trans h.droppedFrames
  ready := hcounts.ready.trans h.ready

theorem Accounted.of_eq (h : Accounted l s) {t : NetSystem}
    (htx : t.udp.stats.txPackets = s.udp.stats.txPackets) (hicmp : t.icmp = s.icmp)
    (hipv4 : t.ip.ipv4 = s.ip.ipv4) (hstats : t.ip.arp.stats = s.ip.arp.stats)
    (heth : t.ip.arp.eth = s.ip.arp.eth) : Accounted l t where
  txPackets := htx.trans h.txPackets
  sent := hicmp ▸ h.sent
  sendCount := hipv4 ▸ h.sendCount
  requests := hstats ▸ h.requests
  misses := hstats ▸ h.misses
  txFrames := heth ▸ h.txFrames
  droppedFrames := heth ▸ h.droppedFrames
  ready := heth ▸ h.ready

theorem txPackets_udpStep (s : UdpState) (c : UdpCall) :
    (udpStep s c).stats.txPackets = s.stats.txPackets := by
  have hbind : ∀ localPort cb, (udpBind s localPort cb).1.stats.txPackets = s.stats.txPackets := by
    intro localPort cb
    rcases udpBind_cases s localPort cb with hsame | ⟨slot, -, -, -, hbind⟩
    · rw [hsame]
    · rw [hbind]
      rfl
  cases c with
  | bind localPort cb => exact hbind localPort cb
  | autoBind cb =>
      rcases udpAutoBindFrom_cases s cb s.nextEphemeral with hsame | ⟨p, next, hdone⟩
      · exact congrArg (fun t => t.stats.txPackets) hsame
      · exact (congrArg (fun t => t.stats.txPackets) hdone).trans (hbind p cb)
  | unbind socketId =>
      rcases udpUnbind_cases s socketId with ⟨hsame, -⟩ | ⟨slot, -, -, hclear⟩
      · exact congrArg (fun t => t.stats.txPackets) hsame
      · exact congrArg (fun t => t.stats.txPackets) hclear

theorem Counts.refl (s : IpState) : Counts 0 0 s s :=
  ⟨(UInt32.add_zero _).symm, (UInt32.add_zero _).symm, (UInt32.add_zero _).symm,
    (UInt64.add_zero _).symm, rfl, rfl⟩

theorem udpSend_counts (s : NetState) (hready : s.ip.arp.eth.ready = true) (socketId : Int)
    (dstIp : UInt32) (dstPort : UInt16) (data : Option (List UInt8)) :
    ∃ datagrams asked, Counts datagrams asked s.ip (udpSend s socketId dstIp dstPort data).1.ip ∧
      (udpSend s socketId dstIp dstPort data).1.udp.stats.txPackets =
        s.udp.stats.txPackets + .ofNat datagrams ∧
      OneMore s.udp.stats.txPackets s.udp.stats.droppedPackets
        (udpSend s socketId dstIp dstPort data).1.udp.stats.txPackets
        (udpSend s socketId dstIp dstPort data).1.udp.stats.droppedPackets := by
  have hone : OneMore s.udp.stats.txPackets s.udp.stats.droppedPackets s.udp.stats.txPackets
      (s.udp.stats.droppedPackets + 1) := .inr ⟨rfl, rfl⟩
  rcases udpSend_cases s socketId dstIp dstPort data with hdrop | ⟨localPort, payload, -, h⟩
  · rw [hdrop]
    exact ⟨0, 0, Counts.refl s.ip, (UInt32.add_zero _).symm, hone⟩
  · have hcounts := ipv4Send_counts (s := s.ip) dstIp ipProtoUdp
      (udpDatagram localPort dstPort payload) hready
    rcases h with ⟨hfailed, hsend⟩ | ⟨hzero, hsend⟩
    · rw [if_neg hfailed] at hcounts
      rw [hsend]
      exact ⟨0, _, hcounts, (UInt32.add_zero _).symm, hone⟩
    · rw [if_pos hzero] at hcounts
      rw [hsend]
      exact ⟨1, _, hcounts, rfl, .inl ⟨rfl, rfl⟩⟩

theorem icmpPing_counts (s : IcmpState) (hready : s.ip.arp.eth.ready = true) (dstIp : UInt32) :
    ∃ echoes asked, Counts echoes asked s.ip (icmpPing s dstIp).1.ip ∧
      (icmpPing s dstIp).1.stats.sent = s.stats.sent + .ofNat echoes ∧
      OneMore s.stats.sent s.stats.dropped (icmpPing s dstIp).1.stats.sent
        (icmpPing s dstIp).1.stats.dropped := by
  have hcounts := ipv4Send_counts (s := s.ip) dstIp 1 icmpEchoRequest hready
  unfold icmpPing
  dsimp only
  split
  · next hfailed =>
      rw [if_neg hfailed] at hcounts
      exact ⟨0, _, hcounts, (UInt32.add_zero _).symm, .inr ⟨rfl, rfl⟩⟩
  · next hzero =>
      rw [if_pos (not_not.mp hzero)] at hcounts
      exact ⟨1, _, hcounts, rfl, .inl ⟨rfl, rfl⟩⟩

/-- The step lemma: some ledger goes on accounting for the state. -/
theorem Accounted.step (h : Accounted l s) (c : NetCall) :
    (∃ l', Accounted l' (netStep s c)) ∧ CountsOnce s c := by
  cases c with
  | udpSend socketId dstIp dstPort data =>
      obtain ⟨datagrams, asked, hcounts, htx, hone⟩ :=
        udpSend_counts ⟨s.udp, s.ip⟩ h.ready socketId dstIp dstPort data
      have hcounts' : Counts (datagrams + 0) asked s.ip
          (netStep s (.udpSend socketId dstIp dstPort data)).ip := hcounts
      exact ⟨⟨_, h.of_counts hcounts' htx (UInt32.add_zero _).symm⟩, hone⟩
  | icmpPing dstIp =>
      obtain ⟨echoes, asked, hcounts, hsent, hone⟩ :=
        icmpPing_counts ⟨s.icmp, s.ip⟩ h.ready dstIp
      have hcounts' : Counts (0 + echoes) asked s.ip (netStep s (.icmpPing dstIp)).ip :=
        (Nat.zero_add echoes).symm ▸ hcounts
      exact ⟨⟨_, h.of_counts hcounts' (UInt32.add_zero _).symm hsent⟩, hone⟩
  | udp c => exact ⟨⟨l, h.of_eq (txPackets_udpStep s.udp c) rfl rfl rfl rfl⟩, trivial⟩
  | arpAddStatic tick ip mac =>
      cases mac with
      | none => exact ⟨⟨l, h⟩, trivial⟩
      | some mac => exact ⟨⟨l, h.of_eq rfl rfl rfl rfl rfl⟩, trivial⟩
  | arpPoll tick => exact ⟨⟨l, h.of_eq rfl rfl rfl rfl rfl⟩, trivial⟩

end Steps

/-- In every run the accounts of the five modules agree after every call, and every call
that sends counts once. -/
theorem accounts_run (s : NetSystem) (tick : UInt64) (calls : List NetCall) :
    AllStates netStep Conserved (netStart s tick) calls ∧
      AllSteps netStep CountsOnce (netStart s tick) calls := by
  have hstart : ∃ l, Accounted l (netStart s tick) := ⟨_, accounted_netStart s tick⟩
  have hstep : ∀ t c, (∃ l, Accounted l t) → ∃ l, Accounted l (netStep t c) :=
    fun t c ⟨l, h⟩ => (h.step c).1
  constructor
  · exact allStates_of_invariant hstep (fun t ⟨l, h⟩ => h.conserved) calls hstart
  · exact allSteps_of_invariant hstep (fun t c ⟨l, h⟩ => (h.step c).2) calls hstart

end AcharyaOS.Udp
