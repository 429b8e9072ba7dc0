import AcharyaOS.Ipv4.Code

/-!
# The ICMP code

`icmp_ping` of `kernel/net/icmp.c`.
-/

namespace AcharyaOS.Icmp

open Ipv4

def icmpTypeEchoRequest : UInt8 := 8

/-- `icmp_stats_t`. -/
structure IcmpStats where
  sent : UInt32
  received : UInt32
  replied : UInt32
  dropped : UInt32

/-- The static variables of `icmp.c` and of the layers below it. -/
structure IcmpState where
  stats : IcmpStats
  ip : IpState

/-- The array `packet` with its two checksum bytes. -/
def icmpPacket (high low : UInt8) : List UInt8 :=
  [icmpTypeEchoRequest, 0, high, low, 0x12, 0x34, 0x00, 0x01]

/-- The packet `icmp_ping` builds. -/
def icmpEchoRequest : List UInt8 :=
  let checksum := ipv4Checksum (icmpPacket 0 0)
  icmpPacket (checksum >>> 8).toUInt8 (checksum &&& 0xFF).toUInt8

def icmpPing (s : IcmpState) (dstIp : UInt32) : IcmpState × Int :=
  let w := ipv4Send s.ip dstIp 1 icmpEchoRequest
  let s := { s with ip := w.1 }
  if w.2 ≠ 0 then ({ s with stats := { s.stats with dropped := s.stats.dropped + 1 } }, -1)
  else ({ s with stats := { s.stats with sent := s.stats.sent + 1 } }, 0)

end AcharyaOS.Icmp
