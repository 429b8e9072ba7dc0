import AcharyaOS.Arp.Code
import AcharyaOS.Foundation.Numeral

/-!
# The IPv4 code

The sending side of `kernel/net/ipv4.c` and the function of `kernel/net/eth.c` it ends in.
-/

namespace AcharyaOS.Ipv4

open Foundation Arp

abbrev ipv4MaxRoutes : Nat := 8

abbrev ethPayloadMax : Nat := 1500

def ethTypeIpv4 : UInt16 := 0x0800

/-- `ipv4_route_t`. -/
structure Ipv4Route where
  valid : Bool
  dest : UInt32
  mask : UInt32
  gateway : UInt32

def Ipv4Route.zero : Ipv4Route := ⟨false, 0, 0, 0⟩

/-- `ipv4_stats_t`. -/
structure Ipv4Stats where
  ip : UInt32
  gateway : UInt32
  subnet : UInt32
  routeCount : UInt32
  sendCount : UInt32
  dropCount : UInt32

/-- The static variables of `ipv4.c`. -/
structure Ipv4State where
  routes : Fin ipv4MaxRoutes → Ipv4Route
  stats : Ipv4Stats
  ip : UInt32
  gateway : UInt32
  subnet : UInt32

/-- The static variables before `ipv4_init`. -/
def ipv4Boot : Ipv4State :=
  ⟨fun _ => .zero, ⟨0, 0, 0, 0, 0, 0⟩, 0xC0A80164, 0xC0A80101, 0xFFFFFF00⟩

/-- A call of `eth_send` that returns 0. -/
structure EthFrame where
  destMac : Mac
  ethertype : UInt16
  payload : List UInt8

/-- The static variables of `ipv4.c`, `arp.c` and `eth.c`, and the frames IPv4 has had sent. -/
structure IpState where
  ipv4 : Ipv4State
  arp : ArpState
  frames : List EthFrame

/-- `eth_send`; a null payload is `none`. -/
def ethSend (e : EthState) (_destMac : Mac) (_ethertype : UInt16)
    (payload : Option (List UInt8)) : EthState × Int :=
  match payload with
  | none => ({ e with droppedFrames := e.droppedFrames + 1 }, -1)
  | some payload =>
      if !e.ready || payload.length > ethPayloadMax then
        ({ e with droppedFrames := e.droppedFrames + 1 }, -1)
      else ({ e with txFrames := e.txFrames + 1 }, 0)

def routeInitDefaults (s : Ipv4State) : Ipv4State :=
  { s with
    routes := fun i =>
      if i = 0 then ⟨true, s.ip, s.subnet, 0⟩
      else if i = 1 then ⟨true, 0, 0, s.gateway⟩
      else .zero
    stats := { s.stats with routeCount := 2 } }

def ipv4Init (s : Ipv4State) : Ipv4State :=
  let s := routeInitDefaults { s with stats := ⟨0, 0, 0, 0, 0, 0⟩ }
  { s with stats := { s.stats with ip := s.ip, gateway := s.gateway, subnet := s.subnet } }

/-! ## The configuration -/

def ipv4SetIp (s : Ipv4State) (ip : UInt32) : Ipv4State :=
  let s := routeInitDefaults { s with ip := ip }
  { s with stats := { s.stats with ip := s.ip } }

def ipv4SetGateway (s : Ipv4State) (gw : UInt32) : Ipv4State :=
  let s := routeInitDefaults { s with gateway := gw }
  { s with stats := { s.stats with gateway := s.gateway } }

def ipv4SetSubnet (s : Ipv4State) (subnet : UInt32) : Ipv4State :=
  let s := routeInitDefaults { s with subnet := subnet }
  { s with stats := { s.stats with subnet := s.subnet } }

def ipv4GetIp (s : Ipv4State) : UInt32 := s.ip

def ipv4IsLocal (s : Ipv4State) (ip : UInt32) : Bool := ip &&& s.subnet == s.ip &&& s.subnet

/-! ## The checksum -/

/-- The 16-bit words of the data, added up; a last byte alone is the high one. -/
def checksumWords : UInt32 → List UInt8 → UInt32
  | sum, b0 :: b1 :: bytes => checksumWords (sum + (b0.toUInt32 <<< 8 ||| b1.toUInt32)) bytes
  | sum, [b0] => sum + (b0.toUInt32 <<< 8)
  | sum, [] => sum

/-- `while (sum >> 16) sum = (sum & 0xFFFFu) + (sum >> 16);` -/
def checksumFold (sum : UInt32) : UInt32 :=
  if sum >>> 16 = 0 then sum else checksumFold ((sum &&& (0xFFFF : UInt32)) + (sum >>> 16))
termination_by sum.toNat
decreasing_by
  rename_i hhigh
  have hlt := sum.toNat_lt
  have hshift : (sum >>> 16).toNat = sum.toNat / 65536 := by
    rw [UInt32.toNat_shiftRight, Nat.shiftRight_eq_div_pow]
    rfl
  have hmask : (sum &&& (0xFFFF : UInt32)).toNat = sum.toNat % 65536 := by
    rw [UInt32.toNat_and]
    exact Nat.and_two_pow_sub_one_eq_mod sum.toNat 16
  have hpos : sum.toNat / 65536 ≠ 0 := by
    rw [← hshift]
    exact fun hzero => hhigh (UInt32.toNat_inj.mp hzero)
  rw [UInt32.toNat_add, hshift, hmask, Nat.mod_eq_of_lt (by omega)]
  omega

def ipv4Checksum (data : List UInt8) : UInt16 := ~~~(checksumFold (checksumWords 0 data)).toUInt16

/-! ## Sending -/

def routeLookup (s : Ipv4State) (dstIp : UInt32) : UInt32 :=
  match firstSlot fun i => (s.routes i).valid &&
      dstIp &&& (s.routes i).mask == (s.routes i).dest &&& (s.routes i).mask with
  | some i => if (s.routes i).gateway != 0 then (s.routes i).gateway else dstIp
  | none => if s.gateway != 0 then s.gateway else dstIp

def IpState.drop (s : IpState) : IpState :=
  { s with
    ipv4 := { s.ipv4 with
      stats := { s.ipv4.stats with dropCount := s.ipv4.stats.dropCount + 1 } } }

/-- `ipv4_send`; a null payload is `none`. -/
def ipv4Send (s : IpState) (dstIp : UInt32) (_protocol : UInt8)
    (payload : Option (List UInt8)) : IpState × Int :=
  match payload with
  | none => (s.drop, -1)
  | some payload =>
      if payload.length == 0 || payload.length > 1400 then (s.drop, -1)
      else
        let r := arpResolve s.arp (routeLookup s.ipv4 dstIp)
        let s := { s with arp := r.1 }
        match r.2 with
        | none => (s.drop, -1)
        | some nextHopMac =>
            let e := ethSend s.arp.eth nextHopMac ethTypeIpv4 payload
            let s := { s with arp := { s.arp with eth := e.1 } }
            if e.2 ≠ 0 then (s.drop, -1)
            else
              ({ s with
                  ipv4 := { s.ipv4 with
                    stats := { s.ipv4.stats with sendCount := s.ipv4.stats.sendCount + 1 } }
                  frames := s.frames ++ [⟨nextHopMac, ethTypeIpv4, payload⟩] }, 0)

def ethTypeArp : UInt16 := 0x0806

def broadcastMac : Mac := fun _ => 0xff

/-- What `arp_resolve(ip)` hands to `eth_send`. -/
def arpResolveRequests (s : ArpState) (ip : UInt32) : List EthFrame :=
  match firstSlot fun i => (s.cache i).valid && (s.cache i).ip == ip with
  | some _ => []
  | none => [⟨broadcastMac, ethTypeArp, arpRequest s ip⟩]

/-- The ARP requests that `ipv4_send` hands to `eth_send`. -/
def ipv4SendRequests (s : IpState) (dstIp : UInt32) (payload : Option (List UInt8)) :
    List EthFrame :=
  match payload with
  | none => []
  | some payload =>
      if payload.length == 0 || payload.length > 1400 then []
      else arpResolveRequests s.arp (routeLookup s.ipv4 dstIp)

/-! ## Addresses as text -/

/-- `value = value * 10u + (uint32_t)(**s - '0')`; `none` where it would not fit. -/
def octetStep (value : UInt32) (c : UInt8) : Option UInt32 :=
  if value.toNat * 10 + (c - '0'.toUInt8).toNat < 2 ^ 32 then
    some (value * 10 + (c - '0'.toUInt8).toUInt32)
  else none

/-- The loop of `parse_octet` over the memory from `*s` on, and what comes after it: the
octet, if the function returns 1, and the memory from where `*s` then is.  A read outside
the memory is `none`. -/
def parseOctetLoop : UInt32 → Nat → List UInt8 → Option (Option UInt32 × List UInt8)
  | _, _, [] => none
  | value, digits, c :: memory =>
      if isDecimal c then do
        let value ← octetStep value c
        if value > 255 then some (none, memory) else parseOctetLoop value (digits + 1) memory
      else if digits = 0 then some (none, c :: memory)
      else some (some value, c :: memory)

def parseOctet (memory : List UInt8) : Option (Option UInt32 × List UInt8) :=
  parseOctetLoop 0 0 memory

/-- `parse_octet(&s, &octet) && *s++ == '.'`, with the octet and the memory behind the dot
where it holds. -/
def parseOctetDot (memory : List UInt8) : Option (Option (UInt32 × List UInt8)) := do
  let (octet, memory) ← parseOctet memory
  match octet, memory with
  | none, _ => some none
  | some _, [] => none
  | some octet, c :: memory => if c = '.'.toUInt8 then some (some (octet, memory)) else some none

/-- `ipv4_from_str` on the memory from `s` on; a null pointer is `none`. -/
def ipv4FromStr (s : Option (List UInt8)) : Option UInt32 :=
  match s with
  | none => some 0
  | some memory => do
      let some (a, memory) ← parseOctetDot memory | some 0
      let some (b, memory) ← parseOctetDot memory | some 0
      let some (c, memory) ← parseOctetDot memory | some 0
      let (octet, memory) ← parseOctet memory
      match octet, memory with
      | none, _ => some 0
      | some _, [] => none
      | some d, last :: _ =>
          if last ≠ 0 then some 0 else some (a <<< 24 ||| b <<< 16 ||| c <<< 8 ||| d)

end AcharyaOS.Ipv4
