import AcharyaOS.Arp.Static
import AcharyaOS.Ipv4.Code

/-!
# The outcomes of `ipv4_send`

A payload is refused, dropped because its next hop is not in the ARP cache, or handed to the
Ethernet driver.
-/

namespace AcharyaOS.Ipv4

open Foundation Arp

/-- `ipv4_send` refuses a payload that is absent, empty or too long. -/
def Takes : Option (List UInt8) → Prop
  | none => False
  | some payload => payload.length ≠ 0 ∧ payload.length ≤ 1400

instance : ∀ payload, Decidable (Takes payload)
  | none => inferInstanceAs (Decidable False)
  | some payload => inferInstanceAs (Decidable (payload.length ≠ 0 ∧ payload.length ≤ 1400))

/-- The next hop has an entry in the ARP cache. -/
def Knows (s : IpState) (dstIp : UInt32) : Prop := ∃ i, s.arp.key i = some (routeLookup s.ipv4 dstIp)

/-- What a miss of `arp_resolve` leaves. -/
def ask (s : ArpState) : ArpState :=
  arpSendRequest { s with stats := { s.stats with misses := s.stats.misses + 1 } }

theorem ask_eq_of_ready {s : ArpState} (h : s.eth.ready = true) :
    ask s =
      { s with
        stats := { s.stats with
          misses := s.stats.misses + 1
          requests := s.stats.requests + 1 }
        eth := { s.eth with txFrames := s.eth.txFrames + 1 } } := by
  unfold ask arpSendRequest EthState.sendRequest
  rw [if_pos h]

variable (s : IpState) (dstIp : UInt32) (protocol : UInt8)

theorem guard_eq_true_iff {payload : List UInt8} :
    (payload.length == 0 || decide (payload.length > 1400)) = true ↔ ¬ Takes (some payload) := by
  unfold Takes
  rw [Bool.or_eq_true, beq_iff_eq, decide_eq_true_iff]
  omega

theorem ipv4Send_of_not_takes {payload : Option (List UInt8)} (h : ¬ Takes payload) :
    ipv4Send s dstIp protocol payload = (s.drop, -1) ∧
      ipv4SendRequests s dstIp payload = [] := by
  cases payload with
  | none => exact ⟨rfl, rfl⟩
  | some payload => exact ⟨if_pos (guard_eq_true_iff.mpr h), if_pos (guard_eq_true_iff.mpr h)⟩

variable {s dstIp}

theorem slotOf_of_not_knows (h : ¬ Knows s dstIp) :
    slotOf s.arp.key (routeLookup s.ipv4 dstIp) = none :=
  slotOf_eq_none_iff.mpr fun i hi => h ⟨i, hi⟩

theorem exists_slotOf_of_knows (h : Knows s dstIp) :
    ∃ i, slotOf s.arp.key (routeLookup s.ipv4 dstIp) = some i := by
  obtain ⟨i, hi⟩ := h
  apply Option.ne_none_iff_exists'.mp
  exact fun hnone => slotOf_eq_none_iff.mp hnone i hi

theorem knows_of_resolved {mac : Mac}
    (h : (arpResolve s.arp (routeLookup s.ipv4 dstIp)).2 = some mac) : Knows s dstIp := by
  rw [arpResolve_snd] at h
  obtain ⟨i, hslot, -⟩ := Option.map_eq_some_iff.mp h
  exact ⟨i, slotOf_some hslot⟩

theorem ipv4Send_of_not_knows {payload : Option (List UInt8)} (htakes : Takes payload)
    (h : ¬ Knows s dstIp) :
    ipv4Send s dstIp protocol payload = ({ s with arp := ask s.arp }.drop, -1) ∧
      ipv4SendRequests s dstIp payload =
        [⟨broadcastMac, ethTypeArp, arpRequest s.arp (routeLookup s.ipv4 dstIp)⟩] := by
  have hslot := slotOf_of_not_knows h
  cases payload with
  | none => exact htakes.elim
  | some payload =>
      have hguard := not_not.mpr htakes
      rw [← guard_eq_true_iff] at hguard
      unfold ipv4Send ipv4SendRequests arpResolveRequests arpResolve
      simp only [firstSlot_entry, hslot, if_neg hguard]
      exact ⟨rfl, trivial⟩

theorem ipv4Send_of_knows {payload : Option (List UInt8)} (htakes : Takes payload)
    (h : Knows s dstIp) (hready : s.arp.eth.ready = true) :
    ∃ mac data, payload = some data ∧
      (arpResolve s.arp (routeLookup s.ipv4 dstIp)).2 = some mac ∧
      ipv4Send s dstIp protocol payload =
        ({ ipv4 := { s.ipv4 with
             stats := { s.ipv4.stats with sendCount := s.ipv4.stats.sendCount + 1 } }
           arp := { s.arp with
             stats := { s.arp.stats with hits := s.arp.stats.hits + 1 }
             eth := { s.arp.eth with txFrames := s.arp.eth.txFrames + 1 } }
           frames := s.frames ++ [⟨mac, ethTypeIpv4, data⟩] }, 0) ∧
      ipv4SendRequests s dstIp payload = [] := by
  obtain ⟨i, hslot⟩ := exists_slotOf_of_knows h
  cases payload with
  | none => exact htakes.elim
  | some payload =>
      have hguard := not_not.mpr htakes
      rw [← guard_eq_true_iff] at hguard
      have hroom : ¬ payload.length > ethPayloadMax := by
        have hle : payload.length ≤ 1400 := htakes.2
        unfold ethPayloadMax
        omega
      have hdriver : (!s.arp.eth.ready || decide (payload.length > ethPayloadMax)) = false := by
        rw [hready, decide_eq_false hroom]
        rfl
      refine ⟨(s.arp.cache i).mac, payload, rfl, ?_, ?_, ?_⟩
      · rw [arpResolve_snd, hslot]
        rfl
      · unfold ipv4Send arpResolve ethSend
        simp only [firstSlot_entry, hslot, if_neg hguard, hdriver, Bool.false_eq_true, if_false,
          ne_eq, not_true_eq_false]
      · unfold ipv4SendRequests arpResolveRequests
        simp only [firstSlot_entry, hslot, if_neg hguard]

/-- What the call adds to the counters: `sent` payloads and `asked` ARP requests. -/
structure Counts (sent asked : Nat) (s t : IpState) : Prop where
  sendCount : t.ipv4.stats.sendCount = s.ipv4.stats.sendCount + .ofNat sent
  requests : t.arp.stats.requests = s.arp.stats.requests + .ofNat asked
  misses : t.arp.stats.misses = s.arp.stats.misses + .ofNat asked
  txFrames : t.arp.eth.txFrames = s.arp.eth.txFrames + .ofNat (sent + asked)
  droppedFrames : t.arp.eth.droppedFrames = s.arp.eth.droppedFrames
  ready : t.arp.eth.ready = s.arp.eth.ready

/-- A payload sent counts as one, and so does a request; a refused payload counts nowhere
here. -/
theorem ipv4Send_counts (dstIp : UInt32) (protocol : UInt8) (payload : Option (List UInt8))
    (hready : s.arp.eth.ready = true) :
    Counts (if (ipv4Send s dstIp protocol payload).2 = 0 then 1 else 0)
      (ipv4SendRequests s dstIp payload).length s (ipv4Send s dstIp protocol payload).1 := by
  by_cases htakes : Takes payload
  · by_cases hknows : Knows s dstIp
    · obtain ⟨mac, data, -, -, hsend, hnone⟩ := ipv4Send_of_knows protocol htakes hknows hready
      rw [hsend, hnone]
      refine ⟨rfl, ?_, ?_, rfl, rfl, rfl⟩
      · exact (UInt32.add_zero _).symm
      · exact (UInt32.add_zero _).symm
    · obtain ⟨hsend, hone⟩ := ipv4Send_of_not_knows protocol htakes hknows
      rw [hsend, hone, ask_eq_of_ready hready]
      refine ⟨?_, rfl, rfl, rfl, rfl, rfl⟩
      exact (UInt32.add_zero _).symm
  · obtain ⟨hsend, hnone⟩ := ipv4Send_of_not_takes s dstIp protocol htakes
    rw [hsend, hnone]
    refine ⟨?_, ?_, ?_, ?_, rfl, rfl⟩
    · exact (UInt32.add_zero _).symm
    · exact (UInt32.add_zero _).symm
    · exact (UInt32.add_zero _).symm
    · exact (UInt64.add_zero _).symm

end AcharyaOS.Ipv4
