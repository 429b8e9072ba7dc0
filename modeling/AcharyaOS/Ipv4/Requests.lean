import AcharyaOS.Ipv4.Routing
import AcharyaOS.Ipv4.Sending

/-!
# The requests ARP sends for IPv4

The local address is kept in `arp.c` and in `ipv4.c`, the local MAC address in `arp.c` and in
`eth.c`.  A request carries the copies of `arp.c`, which no setter changes.
-/

namespace AcharyaOS.Ipv4

open Foundation Foundation.Run Arp

/-! ## The fields of a request -/

/-- The address in the four bytes from `i` on, the high one first. -/
def ipAt (packet : List UInt8) (i : Nat) : UInt32 :=
  .ofNat (((((packet.getD i 0).toNat * 256 + (packet.getD (i + 1) 0).toNat) * 256 +
    (packet.getD (i + 2) 0).toNat) * 256) + (packet.getD (i + 3) 0).toNat)

def macAt (packet : List UInt8) (i : Nat) : Mac := fun k => packet.getD (i + k) 0

theorem toNat_byte (ip : UInt32) {n : Nat} (hn : n < 32) :
    (ip >>> UInt32.ofNat n).toUInt8.toNat = ip.toNat / 2 ^ n % 256 := by
  have hshift : (UInt32.ofNat n).toNat % 32 = n := by
    rw [UInt32.toNat_ofNat']
    omega
  rw [UInt32.toNat_toUInt8, UInt32.toNat_shiftRight, hshift, Nat.shiftRight_eq_div_pow]

theorem ipAt_ipBytes (ip : UInt32) (packet : List UInt8) {i : Nat}
    (h : (packet.drop i).take 4 = ipBytes ip) : ipAt packet i = ip := by
  have hget : ∀ k < 4, packet.getD (i + k) 0 = (ipBytes ip).getD k 0 := by
    intro k hk
    rw [← h, List.getD_eq_getElem?_getD, List.getD_eq_getElem?_getD, List.getElem?_take_of_lt hk,
      List.getElem?_drop]
  have h0 : (packet.getD i 0).toNat = ip.toNat / 2 ^ 24 % 256 := by
    rw [← toNat_byte ip (by decide)]
    exact congrArg UInt8.toNat (hget 0 (by decide))
  have h1 : (packet.getD (i + 1) 0).toNat = ip.toNat / 2 ^ 16 % 256 := by
    rw [← toNat_byte ip (by decide)]
    exact congrArg UInt8.toNat (hget 1 (by decide))
  have h2 : (packet.getD (i + 2) 0).toNat = ip.toNat / 2 ^ 8 % 256 := by
    rw [← toNat_byte ip (by decide)]
    exact congrArg UInt8.toNat (hget 2 (by decide))
  have h3 : (packet.getD (i + 3) 0).toNat = ip.toNat % 256 := by
    rw [← UInt32.toNat_toUInt8]
    exact congrArg UInt8.toNat (hget 3 (by decide))
  have hlt := ip.toNat_lt
  apply UInt32.toNat_inj.mp
  unfold ipAt
  rw [UInt32.toNat_ofNat', h0, h1, h2, h3]
  omega

theorem arpRequest_fields (s : ArpState) (targetIp : UInt32) :
    ipAt (arpRequest s targetIp) 14 = localIp ∧
      macAt (arpRequest s targetIp) 8 = s.localMac ∧
      ipAt (arpRequest s targetIp) 24 = targetIp := by
  refine ⟨ipAt_ipBytes _ _ rfl, ?_, ipAt_ipBytes _ _ rfl⟩
  funext k
  match k with
  | 0 | 1 | 2 | 3 | 4 | 5 => rfl

/-! ## Runs -/

/-- A call that changes the configuration, or one that sends. -/
inductive WireCall
  | config (c : ConfigCall)
  | setMac (mac : Option Mac)
  | send (dstIp : UInt32) (protocol : UInt8) (payload : Option (List UInt8))

def wireStep (s : IpState) : WireCall → IpState
  | .config c => { s with ipv4 := configStep s.ipv4 c }
  | .setMac mac => { s with arp := { s.arp with eth := ethSetMac s.arp.eth mac } }
  | .send dstIp protocol payload => (ipv4Send s dstIp protocol payload).1

/-- `eth_init`, `arp_init` and `ipv4_init` after the machine has started. -/
def wireStart (s : ArpState) (tick : UInt64) : IpState where
  ipv4 := ipv4Init ipv4Boot
  arp := arpInit { s with eth := ethInit } tick
  frames := []

/-- The address of the host resolves. -/
def OwnAddress (s : IpState) : Prop := (arpResolve s.arp (ipv4GetIp s.ipv4)).2.isSome = true

/-- A request carries the address of the host, the MAC address that `eth_get_stats` reports
and the next hop. -/
structure SpeaksFor (s : IpState) (dstIp : UInt32) (request : List UInt8) : Prop where
  sender : ipAt request 14 = ipv4GetIp s.ipv4
  hardware : macAt request 8 = s.arp.eth.mac
  target : ipAt request 24 = routeLookup s.ipv4 dstIp

def RequestLaw (s : IpState) : WireCall → Prop
  | .send dstIp _ payload =>
      ∀ frame ∈ ipv4SendRequests s dstIp payload, SpeaksFor s dstIp frame.payload
  | _ => True

/-- The address is only ever set to what it is already, and the MAC address is the first one
whenever the next hop of a payload is unknown. -/
def KeepsCopies (s : IpState) : WireCall → Prop
  | .config (.setIp ip) => ip = localIp
  | .send dstIp _ payload => Takes payload → ¬ Knows s dstIp → s.arp.eth.mac = broadcastLikeLocal
  | _ => True

/-- The cache holds the local address of `arp.c` and no other, and the driver is ready. -/
structure Alone (s : IpState) : Prop where
  held : ∃ i, s.arp.key i = some localIp
  only : ∀ i ip, s.arp.key i = some ip → ip = localIp
  mac : s.arp.localMac = broadcastLikeLocal
  ready : s.arp.eth.ready = true

theorem alone_wireStart (s : ArpState) (tick : UInt64) : Alone (wireStart s tick) := by
  have hkey : (wireStart s tick).arp.key = Function.update (fun _ => none)
      (findSlot (ArpState.cleared { s with eth := ethInit }) localIp) (some localIp) :=
    key_insertEntry _ tick localIp broadcastLikeLocal true
  refine ⟨⟨findSlot (ArpState.cleared { s with eth := ethInit }) localIp, ?_⟩, ?_, rfl, rfl⟩
  · rw [hkey, Function.update_self]
  · intro i ip hi
    rw [hkey] at hi
    by_cases hslot : i = findSlot (ArpState.cleared { s with eth := ethInit }) localIp
    · rw [hslot, Function.update_self] at hi
      exact (Option.some.inj hi).symm
    · rw [Function.update_of_ne hslot] at hi
      cases hi

section Alone

variable {s : IpState}

theorem Alone.of_eq (h : Alone s) {t : IpState} (hcache : t.arp.cache = s.arp.cache)
    (hmac : t.arp.localMac = s.arp.localMac) (hready : t.arp.eth.ready = s.arp.eth.ready) :
    Alone t := by
  have hkey : t.arp.key = s.arp.key := by
    unfold ArpState.key
    rw [hcache]
  exact ⟨hkey ▸ h.held, hkey ▸ h.only, hmac.trans h.mac, hready.trans h.ready⟩

theorem Alone.ipv4Send (h : Alone s) (dstIp : UInt32) (protocol : UInt8)
    (payload : Option (List UInt8)) :
    Alone (ipv4Send s dstIp protocol payload).1 ∧
      (Ipv4.ipv4Send s dstIp protocol payload).1.ipv4.ip = s.ipv4.ip := by
  by_cases htakes : Takes payload
  · by_cases hknows : Knows s dstIp
    · obtain ⟨mac, data, -, -, hsend, -⟩ := ipv4Send_of_knows protocol htakes hknows h.ready
      rw [hsend]
      exact ⟨h.of_eq rfl rfl rfl, rfl⟩
    · rw [(ipv4Send_of_not_knows protocol htakes hknows).1, ask_eq_of_ready h.ready]
      exact ⟨h.of_eq rfl rfl rfl, rfl⟩
  · rw [(ipv4Send_of_not_takes s dstIp protocol htakes).1]
    exact ⟨h.of_eq rfl rfl rfl, rfl⟩

theorem Alone.step (h : Alone s) (c : WireCall) : Alone (wireStep s c) := by
  cases c with
  | config c => exact h.of_eq rfl rfl rfl
  | setMac mac => exact h.of_eq rfl rfl rfl
  | send dstIp protocol payload => exact (h.ipv4Send dstIp protocol payload).1

theorem Alone.ownAddress_iff (h : Alone s) : OwnAddress s ↔ s.ipv4.ip = localIp := by
  unfold OwnAddress ipv4GetIp
  rw [arpResolve_snd, Option.isSome_map]
  constructor
  · intro hsome
    obtain ⟨i, hi⟩ := Option.isSome_iff_exists.mp hsome
    exact h.only i _ (slotOf_some hi)
  · intro hip
    obtain ⟨i, hi⟩ := h.held
    cases hslot : slotOf s.arp.key s.ipv4.ip with
    | some j => rfl
    | none => exact absurd hi (hip ▸ slotOf_eq_none_iff.mp hslot i)

/-- With the address in agreement, requests speak for the host exactly when the MAC address
is in agreement too. -/
theorem requestLaw_send_iff (h : Alone s) (hip : s.ipv4.ip = localIp) (dstIp : UInt32)
    (protocol : UInt8) (payload : Option (List UInt8)) :
    RequestLaw s (.send dstIp protocol payload) ↔
      KeepsCopies s (.send dstIp protocol payload) := by
  unfold RequestLaw KeepsCopies
  dsimp only
  by_cases htakes : Takes payload
  · by_cases hknows : Knows s dstIp
    · obtain ⟨mac, data, -, -, -, hnone⟩ := ipv4Send_of_knows protocol htakes hknows h.ready
      rw [hnone]
      exact iff_of_true (fun _ hmem => absurd hmem List.not_mem_nil) fun _ hno => absurd hknows hno
    · obtain ⟨hsender, hhardware, htarget⟩ := arpRequest_fields s.arp (routeLookup s.ipv4 dstIp)
      rw [(ipv4Send_of_not_knows protocol htakes hknows).2, List.forall_mem_singleton]
      constructor
      · intro hspeaks _ _
        rw [← hspeaks.hardware, hhardware, h.mac]
      · intro hmac
        exact ⟨hsender.trans hip.symm, (hhardware.trans h.mac).trans (hmac htakes hknows).symm,
          htarget⟩
  · rw [(ipv4Send_of_not_takes s dstIp protocol htakes).2]
    exact iff_of_true (fun _ hmem => absurd hmem List.not_mem_nil) fun hno => absurd hno htakes

/-- The step lemma: the host keeps its address and speaks for itself exactly where the copies
are kept. -/
theorem wireStep_iff (h : Alone s) (hown : OwnAddress s) (c : WireCall) :
    OwnAddress (wireStep s c) ∧ RequestLaw s c ↔ KeepsCopies s c := by
  have hip := h.ownAddress_iff.mp hown
  rw [(h.step c).ownAddress_iff]
  cases c with
  | config c =>
      cases c with
      | setIp ip => exact and_iff_left trivial
      | setGateway gw => exact iff_of_true ⟨hip, trivial⟩ trivial
      | setSubnet subnet => exact iff_of_true ⟨hip, trivial⟩ trivial
  | setMac mac => exact iff_of_true ⟨hip, trivial⟩ trivial
  | send dstIp protocol payload =>
      have hkept := (h.ipv4Send dstIp protocol payload).2.trans hip
      rw [← requestLaw_send_iff h hip dstIp protocol payload]
      exact and_iff_right hkept

end Alone

/-- ARP speaks for the configured address throughout a run exactly when `ipv4_set_ip` is only
given the address it has already, and no request goes out under another MAC address than the
first. -/
theorem requests_run_iff (s : ArpState) (tick : UInt64) (calls : List WireCall) :
    AllStates wireStep OwnAddress (wireStart s tick) calls ∧
      AllSteps wireStep RequestLaw (wireStart s tick) calls ↔
      AllSteps wireStep KeepsCopies (wireStart s tick) calls := by
  have hstart := alone_wireStart s tick
  apply allStates_and_allSteps_iff_of_inv (I := Alone)
  · exact fun t c h => h.step c
  · exact fun t c h hown => wireStep_iff h hown c
  · exact hstart
  · exact hstart.ownAddress_iff.mpr rfl

/-- After `ipv4_set_ip` to 10.0.0.2 the host does not know its own address. -/
theorem not_requests_run :
    ¬ ∀ (s : ArpState) (tick : UInt64) (calls : List WireCall),
      AllStates wireStep OwnAddress (wireStart s tick) calls ∧
        AllSteps wireStep RequestLaw (wireStart s tick) calls := by
  intro h
  let s : ArpState := ⟨fun _ => .zero, ⟨0, 0, 0, 0⟩, fun _ => 0, ethInit⟩
  have hstates := (h s 0 [.config (.setIp 0x0A000002)]).1.last
  have hstart := alone_wireStart s 0
  exact absurd ((hstart.step (.config (.setIp 0x0A000002))).ownAddress_iff.mp hstates) (by decide)

end AcharyaOS.Ipv4
