import AcharyaOS.Foundation.Slots

/-!
# The ARP code

The functions of `kernel/net/arp.c` on its static variables, with what they change in
`kernel/net/eth.c`.
-/

namespace AcharyaOS.Arp

open Foundation

abbrev arpCacheMax : Nat := 32

def arpTimeoutTicks : UInt32 := 300

/-- The `ETH_ADDR_LEN` bytes of a MAC address. -/
abbrev Mac := Fin 6 → UInt8

/-- `arp_entry_t`. -/
structure ArpEntry where
  ip : UInt32
  mac : Mac
  lastSeen : UInt32
  valid : Bool
  permanent : Bool

def ArpEntry.zero : ArpEntry := ⟨0, fun _ => 0, 0, false, false⟩

/-- `arp_stats_t`, without the members that `arp_get_stats` computes. -/
structure ArpStats where
  hits : UInt32
  misses : UInt32
  requests : UInt32
  replies : UInt32

/-- What ARP changes in `eth.c`: a frame sent counts in one of two counters. -/
structure EthState where
  mac : Mac
  ready : Bool
  txFrames : UInt64
  droppedFrames : UInt64

/-- The address that `eth_init` sets. -/
def defaultMac : Mac := fun i => [0x52, 0x54, 0x00, 0x12, 0x34, 0x56].getD i.val 0

def ethInit : EthState := ⟨defaultMac, true, 0, 0⟩

/-- `eth_set_mac`; a null `mac` is `none`. -/
def ethSetMac (e : EthState) (mac : Option Mac) : EthState := { e with mac := mac.getD fun _ => 0 }

/-- The static variables of `arp.c`, and of `eth.c` below it. -/
structure ArpState where
  cache : Fin arpCacheMax → ArpEntry
  stats : ArpStats
  localMac : Mac
  eth : EthState

/-- `g_local_ip`, 192.168.1.100. -/
def localIp : UInt32 := 0xC0A80164

/-- The address that `arp_init` sets. -/
def broadcastLikeLocal : Mac := fun i => [0x52, 0x54, 0x00, 0x12, 0x34, 0x56].getD i.val 0

def findSlot (s : ArpState) (ip : UInt32) : Fin arpCacheMax :=
  ((firstSlot fun i => (s.cache i).valid && (s.cache i).ip == ip) <|>
    firstSlot fun i => !(s.cache i).valid).getD 0

/-- `insert_entry`, `tick` being the value of `timer_get_ticks()`. -/
def insertEntry (s : ArpState) (tick : UInt64) (ip : UInt32) (mac : Mac) (permanent : Bool) :
    ArpState :=
  { s with
    cache := Function.update s.cache (findSlot s ip) ⟨ip, mac, tick.toUInt32, true, permanent⟩ }

/-- The assignments of `arp_init` before its insertion. -/
def ArpState.cleared (s : ArpState) : ArpState where
  cache := fun _ => .zero
  stats := ⟨0, 0, 0, 0⟩
  localMac := broadcastLikeLocal
  eth := { s.eth with mac := broadcastLikeLocal }

def arpInit (s : ArpState) (tick : UInt64) : ArpState :=
  insertEntry s.cleared tick localIp s.cleared.localMac true

/-- What the loop of `arp_poll` does to one entry. -/
def ArpEntry.age (e : ArpEntry) (now : UInt32) : ArpEntry :=
  if !e.valid || e.permanent then e
  else if now - e.lastSeen > arpTimeoutTicks then { e with valid := false }
  else e

def arpPoll (s : ArpState) (tick : UInt64) : ArpState :=
  { s with cache := fun i => (s.cache i).age tick.toUInt32 }

/-- `eth_send` of a request, whose payload is present and short enough. -/
def EthState.sendRequest (e : EthState) : EthState :=
  if e.ready then { e with txFrames := e.txFrames + 1 }
  else { e with droppedFrames := e.droppedFrames + 1 }

def arpSendRequest (s : ArpState) : ArpState :=
  { s with
    eth := s.eth.sendRequest
    stats := { s.stats with requests := s.stats.requests + 1 } }

/-- The four bytes of an address in network order. -/
def ipBytes (ip : UInt32) : List UInt8 :=
  [(ip >>> 24).toUInt8, (ip >>> 16).toUInt8, (ip >>> 8).toUInt8, ip.toUInt8]

/-- The array `request` that `arp_send_request` hands to `eth_send`. -/
def arpRequest (s : ArpState) (targetIp : UInt32) : List UInt8 :=
  [0x00, 0x01, 0x08, 0x00, 0x06, 0x04, 0x00, 0x01] ++ List.ofFn s.localMac ++ ipBytes localIp ++
    [0, 0, 0, 0, 0, 0] ++ ipBytes targetIp

/-- `arp_resolve(ip, out_mac)`: the address copied to `out_mac` when it returns 1, `none`
when it returns 0. -/
def arpResolve (s : ArpState) (ip : UInt32) : ArpState × Option Mac :=
  match firstSlot fun i => (s.cache i).valid && (s.cache i).ip == ip with
  | some i =>
      ({ s with stats := { s.stats with hits := s.stats.hits + 1 } }, some (s.cache i).mac)
  | none => (arpSendRequest { s with stats := { s.stats with misses := s.stats.misses + 1 } }, none)

/-- `arp_add_static`; a null `mac` is `none`. -/
def arpAddStatic (s : ArpState) (tick : UInt64) (ip : UInt32) (mac : Option Mac) : ArpState :=
  match mac with
  | none => s
  | some mac => insertEntry s tick ip mac true

/-- A call into the cache, with the timer's tick where it is read. -/
inductive ArpCall
  | init (tick : UInt64)
  | addStatic (tick : UInt64) (ip : UInt32) (mac : Option Mac)
  | poll (tick : UInt64)
  | resolve (ip : UInt32)

def arpStep (s : ArpState) : ArpCall → ArpState
  | .init tick => arpInit s tick
  | .addStatic tick ip mac => arpAddStatic s tick ip mac
  | .poll tick => arpPoll s tick
  | .resolve ip => (arpResolve s ip).1

/-- The state with the addresses the cache has been given since the last `arp_init`, each
with the latest MAC address for it. -/
structure ArpRun where
  arp : ArpState
  latest : UInt32 → Option Mac

def ArpRun.record (latest : UInt32 → Option Mac) : ArpCall → UInt32 → Option Mac
  | .init _ => Function.update (fun _ => none) localIp (some broadcastLikeLocal)
  | .addStatic _ ip (some mac) => Function.update latest ip (some mac)
  | _ => latest

def arpRunStep (r : ArpRun) (c : ArpCall) : ArpRun := ⟨arpStep r.arp c, ArpRun.record r.latest c⟩

/-- The run right after `arp_init` in any state. -/
def arpStart (s : ArpState) (tick : UInt64) : ArpRun := arpRunStep ⟨s, fun _ => none⟩ (.init tick)

end AcharyaOS.Arp
