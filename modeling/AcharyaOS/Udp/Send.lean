import AcharyaOS.Ipv4.Sending
import AcharyaOS.Udp.Code

/-!
# Sending a datagram

`udp_send` puts a header of eight bytes in front of its data and hands both to IPv4, and
IPv4 hands them to the Ethernet driver.  Each of the three has a limit of its own.
-/

namespace AcharyaOS.Udp

open Foundation Arp Ipv4

def ipProtoUdp : UInt8 := 17

abbrev udpMaxPayload : Nat := 1472

/-- The static variables of `udp.c` and of the layers below it. -/
structure NetState where
  udp : UdpState
  ip : IpState

def udpChecksum (data : List UInt8) : UInt16 := ipv4Checksum data

/-- The high and the low byte of a 16-bit field. -/
def fieldBytes (field : UInt16) : List UInt8 := [(field >>> 8).toUInt8, (field &&& 0xff).toUInt8]

/-- The header and the data of a packet with the checksum given. -/
def udpPacket (srcPort dstPort udpLen checksum : UInt16) (data : List UInt8) : List UInt8 :=
  fieldBytes srcPort ++ fieldBytes dstPort ++ fieldBytes udpLen ++ fieldBytes checksum ++ data

/-- The packet `udp_send` builds; its checksum is taken while the checksum field is zero. -/
def udpDatagram (srcPort dstPort : UInt16) (data : List UInt8) : List UInt8 :=
  let udpLen := UInt16.ofNat (8 + data.length)
  let checksum := udpChecksum ((udpPacket srcPort dstPort udpLen 0 data).take udpLen.toNat)
  (udpPacket srcPort dstPort udpLen checksum data).take udpLen.toNat

def NetState.drop (s : NetState) : NetState :=
  { s with udp := { s.udp with
      stats := { s.udp.stats with droppedPackets := s.udp.stats.droppedPackets + 1 } } }

/-- `udp_send`; null data is `none`. -/
def udpSend (s : NetState) (socketId : Int) (dstIp : UInt32) (dstPort : UInt16)
    (data : Option (List UInt8)) : NetState × Int :=
  if h : 0 ≤ socketId ∧ socketId < udpMaxSockets then
    let socket := s.udp.sockets ⟨socketId.toNat, toNat_lt_udpMaxSockets h⟩
    if !socket.used then (s.drop, -1)
    else
      match data with
      | none => (s.drop, -1)
      | some data =>
          if data.length > udpMaxPayload then (s.drop, -1)
          else
            let w := ipv4Send s.ip dstIp ipProtoUdp (udpDatagram socket.localPort dstPort data)
            let s := { s with ip := w.1 }
            if w.2 ≠ 0 then (s.drop, -1)
            else
              ({ s with udp := { s.udp with
                  stats := { s.udp.stats with txPackets := s.udp.stats.txPackets + 1 } } }, 0)
  else (s.drop, -1)

/-- The socket is bound, the next hop is in the ARP cache and the Ethernet driver is
ready. -/
structure SendReady (s : NetState) (socket : Fin udpMaxSockets) (dstIp : UInt32) (mac : Mac) :
    Prop where
  bound : (s.udp.sockets socket).used = true
  cached : (arpResolve s.ip.arp (routeLookup s.ip.ipv4 dstIp)).2 = some mac
  ready : s.ip.arp.eth.ready = true

/-- The call returns 0 and its datagram reaches `eth_send`. -/
structure Delivered (s : NetState) (socket : Fin udpMaxSockets) (dstIp : UInt32)
    (dstPort : UInt16) (mac : Mac) (data : List UInt8) : Prop where
  result : (udpSend s socket.val dstIp dstPort data).2 = 0
  frames : (udpSend s socket.val dstIp dstPort data).1.ip.frames =
    s.ip.frames ++
      [⟨mac, ethTypeIpv4, udpDatagram (s.udp.sockets socket).localPort dstPort data⟩]

/-! ## The layers below -/

theorem ipv4Send_cases {s : IpState} {dstIp : UInt32} {mac : Mac}
    (hcached : (arpResolve s.arp (routeLookup s.ipv4 dstIp)).2 = some mac)
    (hready : s.arp.eth.ready = true) (protocol : UInt8) (payload : List UInt8) :
    ((ipv4Send s dstIp protocol payload).2 = 0 ∧
        (ipv4Send s dstIp protocol payload).1.frames =
          s.frames ++ [⟨mac, ethTypeIpv4, payload⟩] ∧
        0 < payload.length ∧ payload.length ≤ 1400) ∨
      ((ipv4Send s dstIp protocol payload).2 = -1 ∧
        (payload.length = 0 ∨ 1400 < payload.length)) := by
  by_cases htakes : Takes (some payload)
  · left
    obtain ⟨mac', data, hdata, hmac, hsend, -⟩ :=
      ipv4Send_of_knows protocol htakes (knows_of_resolved hcached) hready
    cases hdata
    rw [hcached] at hmac
    cases hmac
    rw [hsend]
    exact ⟨rfl, rfl, Nat.pos_of_ne_zero htakes.1, htakes.2⟩
  · right
    rw [(ipv4Send_of_not_takes s dstIp protocol htakes).1]
    unfold Takes at htakes
    exact ⟨rfl, by omega⟩

theorem length_udpPacket (srcPort dstPort udpLen checksum : UInt16) (data : List UInt8) :
    (udpPacket srcPort dstPort udpLen checksum data).length = 8 + data.length := by
  simp [udpPacket, fieldBytes]
  omega

/-- The length field holds the length of the packet, so that nothing is cut off. -/
theorem udpDatagram_eq (srcPort dstPort : UInt16) {data : List UInt8}
    (h : data.length ≤ udpMaxPayload) :
    udpDatagram srcPort dstPort data =
      udpPacket srcPort dstPort (UInt16.ofNat (8 + data.length))
        (udpChecksum (udpPacket srcPort dstPort (UInt16.ofNat (8 + data.length)) 0 data)) data := by
  have hlen : (UInt16.ofNat (8 + data.length)).toNat = 8 + data.length := by
    rw [UInt16.toNat_ofNat']
    apply Nat.mod_eq_of_lt
    unfold udpMaxPayload at h
    omega
  have hwhole : ∀ checksum, (udpPacket srcPort dstPort (UInt16.ofNat (8 + data.length)) checksum
      data).take (8 + data.length) =
        udpPacket srcPort dstPort (UInt16.ofNat (8 + data.length)) checksum data := fun checksum =>
    List.take_of_length_le (Nat.le_of_eq (length_udpPacket _ _ _ _ _))
  unfold udpDatagram
  simp only [hlen, hwhole]

theorem length_udpDatagram {srcPort dstPort : UInt16} {data : List UInt8}
    (h : data.length ≤ udpMaxPayload) :
    (udpDatagram srcPort dstPort data).length = 8 + data.length := by
  rw [udpDatagram_eq srcPort dstPort h, length_udpPacket]

theorem udpSend_cases (s : NetState) (socketId : Int) (dstIp : UInt32) (dstPort : UInt16)
    (data : Option (List UInt8)) :
    udpSend s socketId dstIp dstPort data = (s.drop, -1) ∨
      ∃ localPort payload, payload.length ≤ udpMaxPayload ∧
        let w := ipv4Send s.ip dstIp ipProtoUdp (udpDatagram localPort dstPort payload)
        (w.2 ≠ 0 ∧ udpSend s socketId dstIp dstPort data = ({ s with ip := w.1 }.drop, -1)) ∨
          (w.2 = 0 ∧ udpSend s socketId dstIp dstPort data =
            ({ udp := { s.udp with
                stats := { s.udp.stats with txPackets := s.udp.stats.txPackets + 1 } }
               ip := w.1 }, 0)) := by
  unfold udpSend
  split
  · next hid =>
      dsimp only
      split
      · exact .inl rfl
      · cases data with
        | none => exact .inl rfl
        | some data =>
            dsimp only
            split
            · exact .inl rfl
            · next hlong =>
                refine .inr ⟨(s.udp.sockets ⟨socketId.toNat, toNat_lt_udpMaxSockets hid⟩).localPort,
                  data, Nat.not_lt.mp hlong, ?_⟩
                split
                · next hfailed => exact .inl ⟨hfailed, rfl⟩
                · next hzero => exact .inr ⟨not_not.mp hzero, rfl⟩
  · exact .inl rfl

/-! ## The limits together -/

/-- `udp_send` delivers data of up to `UDP_MAX_PAYLOAD` bytes and refuses longer data. -/
def SendsToLimit (s : NetState) (socket : Fin udpMaxSockets) (dstIp : UInt32)
    (dstPort : UInt16) (mac : Mac) (data : List UInt8) : Prop :=
  (data.length ≤ udpMaxPayload → Delivered s socket dstIp dstPort mac data) ∧
    (udpMaxPayload < data.length → (udpSend s socket.val dstIp dstPort data).2 = -1)

section Limits

variable {s : NetState} {socket : Fin udpMaxSockets} {dstIp : UInt32} {mac : Mac}

theorem udpSend_of_bound (hbound : (s.udp.sockets socket).used = true) (dstPort : UInt16)
    (data : List UInt8) :
    udpSend s socket.val dstIp dstPort data =
      if udpMaxPayload < data.length then (s.drop, -1)
      else
        let w := ipv4Send s.ip dstIp ipProtoUdp
          (udpDatagram (s.udp.sockets socket).localPort dstPort data)
        if w.2 ≠ 0 then ({ s with ip := w.1 }.drop, -1)
        else
          ({ udp := { s.udp with
              stats := { s.udp.stats with txPackets := s.udp.stats.txPackets + 1 } }
             ip := w.1 }, 0) := by
  have hrange : (0 : Int) ≤ (socket.val : Int) ∧ (socket.val : Int) < udpMaxSockets := by
    have hlt := socket.isLt
    omega
  have hsocket : (⟨(socket.val : Int).toNat, by omega⟩ : Fin udpMaxSockets) = socket := by
    apply Fin.ext
    exact Int.toNat_natCast socket.val
  unfold udpSend
  rw [dif_pos hrange]
  simp only [hsocket, hbound, Bool.not_true, Bool.false_eq_true, if_false]

/-- `udp_send` delivers short data exactly when there is room for it behind the header. -/
theorem delivered_iff (h : SendReady s socket dstIp mac) (dstPort : UInt16) {data : List UInt8}
    (hlen : data.length ≤ udpMaxPayload) :
    Delivered s socket dstIp dstPort mac data ↔ data.length ≤ 1392 := by
  have hsend : udpSend s socket.val dstIp dstPort data = _ :=
    udpSend_of_bound h.bound dstPort data
  rw [if_neg (by omega)] at hsend
  have hpacket : (udpDatagram (s.udp.sockets socket).localPort dstPort data).length =
      8 + data.length := length_udpDatagram hlen
  rcases ipv4Send_cases h.cached h.ready ipProtoUdp
      (udpDatagram (s.udp.sockets socket).localPort dstPort data) with
    ⟨hresult, hframes, -, hshort⟩ | ⟨hresult, hlong⟩
  · refine iff_of_true ⟨?_, ?_⟩ (by omega)
    · rw [hsend]
      simp [hresult]
    · rw [hsend]
      simp [hresult, hframes]
  · refine iff_of_false (fun hdelivered => ?_) (by omega)
    have hzero := hdelivered.result
    rw [hsend] at hzero
    simp [hresult] at hzero

end Limits

/-- With the way to the destination open, `udp_send` keeps to its limit exactly on data that
leaves room for the header within the 1400 bytes IPv4 takes, and on data beyond the limit. -/
theorem sendsToLimit_iff {s : NetState} {socket : Fin udpMaxSockets} {dstIp : UInt32} {mac : Mac}
    (h : SendReady s socket dstIp mac) (dstPort : UInt16) (data : List UInt8) :
    SendsToLimit s socket dstIp dstPort mac data ↔
      data.length ≤ 1392 ∨ udpMaxPayload < data.length := by
  unfold SendsToLimit
  by_cases hlen : data.length ≤ udpMaxPayload
  · have hshort := delivered_iff h dstPort hlen
    constructor
    · intro hsends
      exact .inl (hshort.mp (hsends.1 hlen))
    · rintro (hroom | hlong)
      · exact ⟨fun _ => hshort.mpr hroom, fun hlong => absurd hlen (by omega)⟩
      · exact absurd hlen (by omega)
  · have hlong : udpMaxPayload < data.length := by omega
    refine iff_of_true ⟨fun hshort => absurd hshort hlen, fun _ => ?_⟩ (.inr hlong)
    rw [udpSend_of_bound h.bound, if_pos hlong]

/-- The modules initialised one after the other, and socket 0 bound to port 53. -/
def netUp : NetState where
  udp := (udpBind (udpInit udpBoot) 53 0).1
  ip :=
    { ipv4 := ipv4Init ipv4Boot
      arp := arpInit ⟨fun _ => .zero, ⟨0, 0, 0, 0⟩, fun _ => 0,
        ⟨fun _ => 0, true, 0, 0⟩⟩ 0
      frames := [] }

theorem sendReady_netUp : SendReady netUp 0 localIp broadcastLikeLocal where
  bound := by decide
  cached := rfl
  ready := by decide

theorem sendsToLimit_netUp :
    SendsToLimit netUp 0 localIp 7 broadcastLikeLocal [1, 2, 3] ↔
      [(1 : UInt8), 2, 3].length ≤ 1392 ∨ udpMaxPayload < [(1 : UInt8), 2, 3].length :=
  sendsToLimit_iff sendReady_netUp 7 [1, 2, 3]

/-- Data of 1393 bytes is within the limit and never sent. -/
theorem not_sendsToLimit_band :
    ¬ ∀ (s : NetState) (socket : Fin udpMaxSockets) (dstIp : UInt32) (mac : Mac)
      (dstPort : UInt16) (data : List UInt8), SendReady s socket dstIp mac →
        SendsToLimit s socket dstIp dstPort mac data := by
  intro h
  have hlen : (List.replicate 1393 (0 : UInt8)).length = 1393 := List.length_replicate
  have hsends := h netUp 0 localIp broadcastLikeLocal 7 (List.replicate 1393 0) sendReady_netUp
  have hshort := (delivered_iff sendReady_netUp 7 (by rw [hlen]; decide)).mp
    (hsends.1 (by rw [hlen]; decide))
  omega

end AcharyaOS.Udp
