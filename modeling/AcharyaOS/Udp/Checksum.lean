import AcharyaOS.Icmp.Code
import AcharyaOS.Ipv4.Checksum
import AcharyaOS.Udp.Send

/-!
# The checksums of what is sent

Datagrams and echo requests carry the checksum of themselves with a zero in its place.
-/

namespace AcharyaOS.Udp

open Foundation Arp Ipv4 Icmp

theorem udpPacket_eq (srcPort dstPort udpLen checksum : UInt16) (data : List UInt8) :
    udpPacket srcPort dstPort udpLen checksum data =
      fieldBytes srcPort ++ fieldBytes dstPort ++ fieldBytes udpLen ++ checksumBytes checksum ++
        data := rfl

theorem udpDatagram_verifies (srcPort dstPort : UInt16) {data : List UInt8}
    (h : data.length ≤ udpMaxPayload) :
    ChecksumVerifies (udpDatagram srcPort dstPort data) := by
  have hmax : udpMaxPayload = 1472 := rfl
  rw [udpDatagram_eq srcPort dstPort h, udpPacket_eq, udpPacket_eq]
  apply checksumVerifies_of_field
  · have hsix : (fieldBytes srcPort ++ fieldBytes dstPort ++
        fieldBytes (UInt16.ofNat (8 + data.length))).length = 6 := rfl
    rw [hsix]
  · rw [← udpPacket_eq, length_udpPacket]
    omega
  · rfl

theorem icmpEchoRequest_verifies : ChecksumVerifies icmpEchoRequest := by
  have hverifies : ChecksumVerifies ([icmpTypeEchoRequest, 0] ++
      checksumBytes (ipv4Checksum (icmpPacket 0 0)) ++ [0x12, 0x34, 0x00, 0x01]) :=
    checksumVerifies_of_field rfl (by decide) rfl
  exact hverifies

/-- Every datagram and every echo request verifies, and none does after an error in a single
bit. -/
theorem checksumVerifies_sent :
    (∀ (srcPort dstPort : UInt16) (data : List UInt8), data.length ≤ udpMaxPayload →
      ChecksumVerifies (udpDatagram srcPort dstPort data)) ∧
    ChecksumVerifies icmpEchoRequest :=
  ⟨fun srcPort dstPort _ h => udpDatagram_verifies srcPort dstPort h, icmpEchoRequest_verifies⟩

/-- Three bytes from port 49152 to port 7. -/
theorem checksumVerifies_sent_three : ChecksumVerifies (udpDatagram 49152 7 [1, 2, 3]) :=
  checksumVerifies_sent.1 49152 7 [1, 2, 3] (by decide)

/-! ## On the wire -/

/-- What was handed to the Ethernet driver verifies. -/
def FramesVerify (s : IpState) : Prop := ∀ frame ∈ s.frames, ChecksumVerifies frame.payload

theorem ipv4Send_frames (s : IpState) (dstIp : UInt32) (protocol : UInt8)
    (payload : List UInt8) :
    (ipv4Send s dstIp protocol (some payload)).1.frames = s.frames ∨
      ∃ mac, (ipv4Send s dstIp protocol (some payload)).1.frames =
        s.frames ++ [⟨mac, ethTypeIpv4, payload⟩] := by
  unfold ipv4Send
  dsimp only
  split
  · exact .inl rfl
  · cases (arpResolve s.arp (routeLookup s.ipv4 dstIp)).2 with
    | none => exact .inl rfl
    | some mac =>
        dsimp only
        split
        · exact .inl rfl
        · exact .inr ⟨mac, rfl⟩

theorem framesVerify_ipv4Send {s : IpState} (h : FramesVerify s) (dstIp : UInt32)
    (protocol : UInt8) {payload : List UInt8} (hpayload : ChecksumVerifies payload) :
    FramesVerify (ipv4Send s dstIp protocol (some payload)).1 := by
  intro frame hframe
  rcases ipv4Send_frames s dstIp protocol payload with hsame | ⟨mac, hsent⟩
  · rw [hsame] at hframe
    exact h frame hframe
  · rw [hsent] at hframe
    rcases List.mem_append.mp hframe with hold | hnew
    · exact h frame hold
    · rw [List.mem_singleton.mp hnew]
      exact hpayload

theorem framesVerify_udpSend {s : NetState} (h : FramesVerify s.ip) (socketId : Int)
    (dstIp : UInt32) (dstPort : UInt16) (data : Option (List UInt8)) :
    FramesVerify (udpSend s socketId dstIp dstPort data).1.ip := by
  rcases udpSend_cases s socketId dstIp dstPort data with hdrop | ⟨localPort, payload, hlen, h'⟩
  · rw [hdrop]
    exact h
  · have hsent := framesVerify_ipv4Send h dstIp ipProtoUdp
      (udpDatagram_verifies localPort dstPort hlen)
    rcases h' with ⟨-, hsend⟩ | ⟨-, hsend⟩
    · rw [hsend]
      exact hsent
    · rw [hsend]
      exact hsent

theorem framesVerify_icmpPing {s : IcmpState} (h : FramesVerify s.ip) (dstIp : UInt32) :
    FramesVerify (icmpPing s dstIp).1.ip := by
  have hsent := framesVerify_ipv4Send h dstIp 1 icmpEchoRequest_verifies
  unfold icmpPing
  dsimp only
  split
  · exact hsent
  · exact hsent

end AcharyaOS.Udp
