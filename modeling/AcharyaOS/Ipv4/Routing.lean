import AcharyaOS.Foundation.Run
import AcharyaOS.Ipv4.Code

/-!
# Routes and the configuration

The configuration is kept twice, in three variables and in the routes made from them.
-/

namespace AcharyaOS.Ipv4

open Foundation Foundation.Run

/-- A call of a setter. -/
inductive ConfigCall
  | setIp (ip : UInt32)
  | setGateway (gw : UInt32)
  | setSubnet (subnet : UInt32)

def configStep (s : Ipv4State) : ConfigCall → Ipv4State
  | .setIp ip => ipv4SetIp s ip
  | .setGateway gw => ipv4SetGateway s gw
  | .setSubnet subnet => ipv4SetSubnet s subnet

/-! ## The values last set -/

def ConfigCall.ip : ConfigCall → Option UInt32
  | .setIp ip => some ip
  | _ => none

def ConfigCall.gateway : ConfigCall → Option UInt32
  | .setGateway gw => some gw
  | _ => none

def ConfigCall.subnet : ConfigCall → Option UInt32
  | .setSubnet subnet => some subnet
  | _ => none

/-- The last value that calls set, or the one from before them. -/
def lastSet (value : ConfigCall → Option UInt32) (before : UInt32) (cs : List ConfigCall) :
    UInt32 :=
  (cs.filterMap value).getLast?.getD before

theorem lastSet_cons (value : ConfigCall → Option UInt32) (before : UInt32) (c : ConfigCall)
    (cs : List ConfigCall) :
    lastSet value before (c :: cs) = lastSet value ((value c).getD before) cs := by
  unfold lastSet
  rw [List.filterMap_cons]
  cases value c with
  | none => rfl
  | some v =>
      dsimp only
      rw [List.getLast?_cons]
      rfl

/-- A variable that each call sets to its value, if it has one, ends as the last of them. -/
theorem runSteps_lastSet (read : Ipv4State → UInt32) {value : ConfigCall → Option UInt32}
    (hstep : ∀ s c, read (configStep s c) = (value c).getD (read s)) (cs : List ConfigCall) :
    ∀ s, read (runSteps configStep s cs) = lastSet value (read s) cs := by
  induction cs with
  | nil => exact fun _ => rfl
  | cons c cs ih =>
      intro s
      rw [lastSet_cons, ← hstep]
      exact ih (configStep s c)

/-- Every variable of the configuration has the value last set. -/
structure LastSet (s : Ipv4State) (cs : List ConfigCall) (s' : Ipv4State) : Prop where
  ip : s'.ip = lastSet ConfigCall.ip s.ip cs
  gateway : s'.gateway = lastSet ConfigCall.gateway s.gateway cs
  subnet : s'.subnet = lastSet ConfigCall.subnet s.subnet cs

theorem lastSet_runSteps (s : Ipv4State) (cs : List ConfigCall) :
    LastSet s cs (runSteps configStep s cs) where
  ip := by
    apply runSteps_lastSet Ipv4State.ip
    intro s c
    cases c <;> rfl
  gateway := by
    apply runSteps_lastSet Ipv4State.gateway
    intro s c
    cases c <;> rfl
  subnet := by
    apply runSteps_lastSet Ipv4State.subnet
    intro s c
    cases c <;> rfl

/-! ## The routes -/

/-- A host sends to its own network directly and to others through its gateway, if it has
one. -/
def nextHop (s : Ipv4State) (dst : UInt32) : UInt32 :=
  if ipv4IsLocal s dst = true ∨ s.gateway = 0 then dst else s.gateway

/-- The routes are those of the configuration. -/
def Configured (s : Ipv4State) : Prop := s.routes = (routeInitDefaults s).routes

theorem configured_ipv4Init (s : Ipv4State) : Configured (ipv4Init s) := rfl

theorem configured_configStep (s : Ipv4State) (c : ConfigCall) : Configured (configStep s c) := by
  cases c with
  | setIp ip => rfl
  | setGateway gw => rfl
  | setSubnet subnet => rfl

/-- The second default route takes every destination that the first one leaves. -/
theorem Configured.routeLookup_eq {s : Ipv4State} (h : Configured s) (dst : UInt32) :
    routeLookup s dst = nextHop s dst := by
  have hown : s.routes 0 = ⟨true, s.ip, s.subnet, 0⟩ := congrFun h 0
  have hrest : s.routes 1 = ⟨true, 0, 0, s.gateway⟩ := congrFun h 1
  by_cases hlocal : ipv4IsLocal s dst = true
  · have hfirst : firstSlot (fun i => (s.routes i).valid &&
        dst &&& (s.routes i).mask == (s.routes i).dest &&& (s.routes i).mask) = some 0 := by
      apply firstSlot_of_first
      · rw [hown]
        exact hlocal
      · intro j hj
        exact absurd hj (Nat.not_lt_zero j.val)
    have hhop : nextHop s dst = dst := if_pos (.inl hlocal)
    unfold routeLookup
    rw [hfirst, hhop]
    dsimp only
    rw [hown]
    rfl
  · have hsecond : firstSlot (fun i => (s.routes i).valid &&
        dst &&& (s.routes i).mask == (s.routes i).dest &&& (s.routes i).mask) = some 1 := by
      apply firstSlot_of_first
      · rw [hrest]
        simp
      · intro j hj
        have hzero : j = 0 := Fin.ext (Nat.lt_one_iff.mp hj)
        rw [hzero, hown]
        exact Bool.not_eq_true _ ▸ hlocal
    unfold routeLookup
    rw [hsecond]
    dsimp only
    rw [hrest]
    by_cases hgateway : s.gateway = 0
    · have hhop : nextHop s dst = dst := if_pos (.inr hgateway)
      rw [hhop, hgateway]
      rfl
    · have hhop : nextHop s dst = s.gateway := if_neg (not_or.mpr ⟨hlocal, hgateway⟩)
      rw [hhop]
      exact if_pos (bne_iff_ne.mpr hgateway)

/-- After any sequence of setters the configuration is what was last set, and the routes lead
where it says. -/
theorem routeLookup_configured (s : Ipv4State) (cs : List ConfigCall) (dst : UInt32) :
    LastSet s cs (runSteps configStep (ipv4Init s) cs) ∧
      routeLookup (runSteps configStep (ipv4Init s) cs) dst =
        nextHop (runSteps configStep (ipv4Init s) cs) dst := by
  have hrun : Configured (runSteps configStep (ipv4Init s) cs) :=
    runSteps_invariant (fun t c _ => configured_configStep t c) cs (configured_ipv4Init s)
  obtain ⟨hip, hgateway, hsubnet⟩ := lastSet_runSteps (ipv4Init s) cs
  exact ⟨⟨hip, hgateway, hsubnet⟩, hrun.routeLookup_eq dst⟩

end AcharyaOS.Ipv4
