import AcharyaOS.Arp.Print
import AcharyaOS.Ipv4.Code

/-!
# Printing the routes

The format of `ipv4_route_print` consists of conversions that `kprintf` does not know.
-/

namespace AcharyaOS.Ipv4

open Foundation Kio Arp

def routeFormat : String := "  %u.%u.%u.%u/%u.%u.%u.%u via %u.%u.%u.%u\n"

def routeArgs (r : Ipv4Route) : List FormatArg :=
  octetArgs r.dest ++ octetArgs r.mask ++ octetArgs r.gateway

/-- The calls of `kprintf` in `ipv4_route_print`. -/
def routePrintCalls (s : Ipv4State) : List (String × List FormatArg) :=
  ("IPv4 routes:\n", []) ::
    ((List.finRange ipv4MaxRoutes).filter fun i => (s.routes i).valid).map fun i =>
      (routeFormat, routeArgs (s.routes i))

def ipv4RoutePrint (s : Ipv4State) : Option (List UInt8) := kprintfAll (routePrintCalls s)

/-- A route as text: its three addresses in dotted decimal. -/
def routeText (r : Ipv4Route) : List UInt8 :=
  asciiText "  " ++ (dottedText r.dest ++ (asciiText "/" ++ dottedText r.mask ++ asciiText " via " ++
    dottedText r.gateway ++ asciiText "\n"))

def routeTableText (s : Ipv4State) : List UInt8 :=
  asciiText "IPv4 routes:\n" ++
    ((List.finRange ipv4MaxRoutes).filter fun i => (s.routes i).valid).flatMap fun i =>
      routeText (s.routes i)

/-- The format is printed as it stands, whatever the addresses are. -/
theorem kprintfLit_route (r : Ipv4Route) :
    kprintfLit routeFormat (routeArgs r) = some (asciiText routeFormat) := by
  have hargs : Matches (pieces (CString.read (asciiText routeFormat)).bytes) (routeArgs r) :=
    trivial
  rw [kprintfLit_eq rfl hargs]
  rfl

theorem ipv4RoutePrint_eq (s : Ipv4State) :
    ipv4RoutePrint s = some (asciiText "IPv4 routes:\n" ++
      ((List.finRange ipv4MaxRoutes).filter fun i => (s.routes i).valid).flatMap fun _ =>
        asciiText routeFormat) := by
  have hall : kprintfAll (routePrintCalls s) =
      some ((routePrintCalls s).flatMap fun call => asciiText call.1) := by
    apply kprintfAll_eq
    intro call hcall
    rcases List.mem_cons.mp hcall with rfl | hroute
    · decide +kernel
    · obtain ⟨i, -, rfl⟩ := List.mem_map.mp hroute
      exact kprintfLit_route (s.routes i)
  unfold ipv4RoutePrint
  rw [hall]
  unfold routePrintCalls
  rw [List.flatMap_cons, List.flatMap_map]

/-- An address begins with a digit and the format with a percent sign. -/
theorem routeText_ne (r : Ipv4Route) (text rest : List UInt8) :
    routeText r ++ text ≠ asciiText routeFormat ++ rest := by
  intro h
  obtain ⟨c, digits, hdigits, hdecimal⟩ := exists_numeral_eq_cons (r.dest.toNat / 2 ^ 24)
  have hthird := congrArg (fun l => l[2]?) h
  have hleft : (routeText r ++ text)[2]? = some c := by
    unfold routeText dottedText
    rw [hdigits]
    rfl
  have hright : (asciiText routeFormat ++ rest)[2]? = some '%'.toUInt8 := rfl
  have hpercent : c = '%'.toUInt8 := Option.some.inj (hleft.symm.trans (hthird.trans hright))
  rw [hpercent] at hdecimal
  exact absurd hdecimal (by decide)

theorem ipv4RoutePrint_eq_iff (s : Ipv4State) :
    ipv4RoutePrint s = some (routeTableText s) ↔ ∀ i, (s.routes i).valid = false := by
  rw [← filter_valid_eq_nil_iff, ipv4RoutePrint_eq]
  unfold routeTableText
  cases h : (List.finRange ipv4MaxRoutes).filter fun i => (s.routes i).valid with
  | nil => exact iff_of_true rfl rfl
  | cons i rest =>
    refine iff_of_false (fun hprint => ?_) (List.cons_ne_nil i rest)
    have htext := List.append_cancel_left (Option.some.inj hprint)
    rw [List.flatMap_cons, List.flatMap_cons] at htext
    exact routeText_ne (s.routes i) _ _ htext.symm

/-! ## Both tables -/

/-- Both tables are printed as they are, and no conversion takes an argument meant for
another. -/
def TablesPrint (arp : ArpState) (ipv4 : Ipv4State) : Prop :=
  arpPrintTable arp = some (arpTableText arp) ∧ ipv4RoutePrint ipv4 = some (routeTableText ipv4)

/-- The tables are printed exactly when both are empty. -/
theorem tablesPrint_iff (arp : ArpState) (ipv4 : Ipv4State) :
    TablesPrint arp ipv4 ↔
      (∀ i, (arp.cache i).valid = false) ∧ ∀ i, (ipv4.routes i).valid = false :=
  and_congr (arpPrintTable_eq_iff arp) (ipv4RoutePrint_eq_iff ipv4)

theorem not_tablesPrint : ¬ ∀ arp ipv4, TablesPrint arp ipv4 := by
  intro h
  let s : ArpState := ⟨fun _ => .zero, ⟨0, 0, 0, 0⟩, fun _ => 0, ethInit⟩
  have hempty := (arpPrintTable_eq_iff _).mp (h (arpInit s 0) ipv4Boot).1
  exact absurd (hempty 0) (by decide)

end AcharyaOS.Ipv4
