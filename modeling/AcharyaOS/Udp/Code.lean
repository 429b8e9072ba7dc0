import AcharyaOS.Foundation.Slots

/-!
# The UDP socket code

The functions of `kernel/net/udp.c` that bind and unbind sockets.
-/

namespace AcharyaOS.Udp

open Foundation

abbrev udpMaxSockets : Nat := 8

/-- `udp_socket_t`; the callback is the address of a function. -/
structure UdpSocket where
  used : Bool
  localPort : UInt16
  callback : UInt64
  deriving DecidableEq

def UdpSocket.zero : UdpSocket := ⟨false, 0, 0⟩

/-- `udp_stats_t`. -/
structure UdpStats where
  boundSockets : UInt32
  txPackets : UInt32
  rxPackets : UInt32
  droppedPackets : UInt32

/-- The static variables of `udp.c`. -/
structure UdpState where
  sockets : Fin udpMaxSockets → UdpSocket
  stats : UdpStats
  ready : Bool
  nextEphemeral : UInt16

/-- The static variables before `udp_init`. -/
def udpBoot : UdpState := ⟨fun _ => .zero, ⟨0, 0, 0, 0⟩, false, 49152⟩

def findSocketIndex (s : UdpState) (localPort : UInt16) : Option (Fin udpMaxSockets) :=
  firstSlot fun i => (s.sockets i).used && (s.sockets i).localPort == localPort

def allocSocketSlot (s : UdpState) : Option (Fin udpMaxSockets) :=
  firstSlot fun i => !(s.sockets i).used

def udpInit (s : UdpState) : UdpState :=
  { s with
    sockets := fun _ => .zero
    stats := ⟨0, 0, 0, 0⟩
    ready := true }

/-- The assignments of a successful `udp_bind`. -/
def UdpState.occupy (s : UdpState) (slot : Fin udpMaxSockets) (localPort : UInt16)
    (cb : UInt64) : UdpState :=
  { s with
    sockets := Function.update s.sockets slot ⟨true, localPort, cb⟩
    stats := { s.stats with boundSockets := s.stats.boundSockets + 1 } }

/-- `udp_bind`, `none` standing for `UDP_NO_SOCKET`. -/
def udpBind (s : UdpState) (localPort : UInt16) (cb : UInt64) :
    UdpState × Option (Fin udpMaxSockets) :=
  if !s.ready || localPort == 0 then (s, none)
  else if (findSocketIndex s localPort).isSome then (s, none)
  else
    match allocSocketSlot s with
    | none => (s, none)
    | some slot => (s.occupy slot localPort cb, some slot)

/-- The loop of `udp_auto_bind` from `port` on. -/
def udpAutoBindFrom (s : UdpState) (cb : UInt64) (port : UInt16) :
    UdpState × Option (Fin udpMaxSockets) :=
  if port = 0 then (s, none)
  else
    match udpBind s port cb with
    | (s, some socketId) =>
        ({ s with nextEphemeral := if port == 65535 then 49152 else port + 1 }, some socketId)
    | (s, none) => if port = 65535 then (s, none) else udpAutoBindFrom s cb (port + 1)
termination_by 65536 - port.toNat
decreasing_by
  have hlt := port.toNat_lt
  have hlast : port.toNat ≠ 65535 := fun heq => by
    rename_i hne
    exact hne (UInt16.toNat_inj.mp heq)
  rw [UInt16.toNat_add]
  simp only [UInt16.toNat_one, Nat.reducePow] at hlt ⊢
  omega

def udpAutoBind (s : UdpState) (cb : UInt64) : UdpState × Option (Fin udpMaxSockets) :=
  udpAutoBindFrom s cb s.nextEphemeral

theorem toNat_lt_udpMaxSockets {socketId : Int} (h : 0 ≤ socketId ∧ socketId < udpMaxSockets) :
    socketId.toNat < udpMaxSockets := by omega

def udpUnbind (s : UdpState) (socketId : Int) : UdpState :=
  if h : 0 ≤ socketId ∧ socketId < udpMaxSockets then
    let slot : Fin udpMaxSockets := ⟨socketId.toNat, toNat_lt_udpMaxSockets h⟩
    if (s.sockets slot).used then
      { s with sockets := Function.update s.sockets slot .zero }
    else s
  else s

def udpGetStats (s : UdpState) : UdpStats := s.stats

/-- A call into the socket table. -/
inductive UdpCall
  | bind (localPort : UInt16) (cb : UInt64)
  | autoBind (cb : UInt64)
  | unbind (socketId : Int)

def udpStep (s : UdpState) : UdpCall → UdpState
  | .bind localPort cb => (udpBind s localPort cb).1
  | .autoBind cb => (udpAutoBind s cb).1
  | .unbind socketId => udpUnbind s socketId

end AcharyaOS.Udp
