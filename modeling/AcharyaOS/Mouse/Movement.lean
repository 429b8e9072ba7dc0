import AcharyaOS.Foundation.Run
import AcharyaOS.Foundation.Words
import AcharyaOS.Mouse.Code
import Mathlib.Data.Fin.VecNotation
import Mathlib.Data.List.Infix

/-!
# Where the mouse has moved to

A report of the mouse carries two deltas of nine bits, whose sign bits stand in its first
byte.  The handler reads eight of the nine bits.
-/

namespace AcharyaOS.Mouse

open Foundation Foundation.Run

attribute [local instance] packetSize_neZero

/-- The value of nine bits in two's complement. -/
def delta (negative : Bool) (low : UInt8) : Int :=
  if negative then low.toNat - 256 else low.toNat

/-- A packet as the mouse sends it: bit 3 of its first byte is set, and nothing has
overflowed. -/
structure Report where
  packet : Packet
  framed : packet 0 &&& 0x08 ≠ 0
  inRange : packet 0 &&& 0xC0 = 0

namespace Report

variable (r : Report)

def dx : Int := delta (r.packet 0 &&& 0x10 != 0) (r.packet 1)

def dy : Int := delta (r.packet 0 &&& 0x20 != 0) (r.packet 2)

def bytes : List UInt8 := [r.packet 0, r.packet 1, r.packet 2]

/-- Both deltas fit into eight bits. -/
def Short : Prop := (-128 ≤ r.dx ∧ r.dx < 128) ∧ (-128 ≤ r.dy ∧ r.dy < 128)

instance : Decidable r.Short := inferInstanceAs (Decidable (_ ∧ _))

end Report

/-- The driver when the bytes of all the reports have come. -/
def delivered (d : MouseDriver) (reports : List Report) : MouseDriver :=
  runSteps mouseInterruptHandler (mouseInit d) (reports.flatMap Report.bytes)

def sumX (reports : List Report) : Int := (reports.map Report.dx).sum

def sumY (reports : List Report) : Int := (reports.map Report.dy).sum

/-- The position fits into 32 bits. -/
def Fits (reports : List Report) : Prop :=
  (-2 ^ 31 ≤ sumX reports ∧ sumX reports < 2 ^ 31) ∧
    (-2 ^ 31 ≤ -sumY reports ∧ -sumY reports < 2 ^ 31)

instance : DecidablePred Fits := fun _ => inferInstanceAs (Decidable (_ ∧ _))

/-- The state tells the number of reports, where they have led to and the buttons of the last
one. -/
structure Decoded (reports : List Report) (m : MouseState) : Prop where
  count : m.packetCount.toNat = reports.length
  x_eq : m.x.toInt = sumX reports
  y_eq : m.y.toInt = -sumY reports
  buttons : ∀ r, reports.getLast? = some r → m.buttons = r.packet 0 &&& 0x07

/-! ## One report -/

theorem runSteps_report {s : MouseDriver} (hindex : s.mouseIndex = 0) (r : Report) :
    runSteps mouseInterruptHandler s r.bytes =
      ⟨s.mouseState.decode r.packet, r.packet, 0, true⟩ := by
  have hstart : ¬ (s.mouseIndex = 0 ∧ r.packet 0 &&& 0x08 = 0) := fun h => r.framed h.2
  have hpacket : Function.update (Function.update (Function.update s.mousePacket 0 (r.packet 0)) 1
      (r.packet 1)) 2 (r.packet 2) = r.packet := by
    funext k
    match k with
    | 0 => rfl
    | 1 => rfl
    | 2 => rfl
  unfold Report.bytes runSteps
  rw [List.foldl_cons, List.foldl_cons, List.foldl_cons, List.foldl_nil]
  unfold mouseInterruptHandler
  rw [if_neg hstart, hindex]
  simp [hpacket]

theorem delivered_concat (d : MouseDriver) (reports : List Report) (r : Report) :
    delivered d (reports ++ [r]) = runSteps mouseInterruptHandler (delivered d reports) r.bytes := by
  unfold delivered runSteps
  rw [List.flatMap_append, List.flatMap_singleton, List.foldl_append]

theorem mouseIndex_delivered (d : MouseDriver) (reports : List Report) :
    (delivered d reports).mouseIndex = 0 := by
  induction reports using List.reverseRecOn with
  | nil => rfl
  | append_singleton reports r ih => rw [delivered_concat, runSteps_report ih]

/-- Eight bits are read as the nine bits mean them if the ninth repeats the eighth. -/
theorem toInt_toInt8_eq_iff (negative : Bool) (low : UInt8) :
    low.toInt8.toInt = delta negative low ↔
      -128 ≤ delta negative low ∧ delta negative low < 128 := by
  have hlow := low.toNat_lt
  rw [toInt_toInt8]
  unfold delta
  cases negative with
  | false =>
      rw [if_neg Bool.false_ne_true]
      split <;> omega
  | true =>
      rw [if_pos rfl]
      split <;> omega

theorem toInt_toInt8_near (negative : Bool) (low : UInt8) :
    low.toInt8.toInt - delta negative low ≤ 256 ∧ delta negative low - low.toInt8.toInt ≤ 256 := by
  have hlow := low.toNat_lt
  rw [toInt_toInt8]
  unfold delta
  split <;> split <;> omega

theorem sumX_concat (reports : List Report) (r : Report) :
    sumX (reports ++ [r]) = sumX reports + r.dx := by
  unfold sumX
  rw [List.map_append, List.sum_append, List.map_singleton, List.sum_singleton]

theorem sumY_concat (reports : List Report) (r : Report) :
    sumY (reports ++ [r]) = sumY reports + r.dy := by
  unfold sumY
  rw [List.map_append, List.sum_append, List.map_singleton, List.sum_singleton]

/-- One more report is decoded exactly if its deltas are short and the counter does not wrap. -/
theorem decoded_concat_iff {reports : List Report} {m : MouseState} (h : Decoded reports m)
    (r : Report) (hfits : Fits (reports ++ [r])) :
    Decoded (reports ++ [r]) (m.decode r.packet) ↔ r.Short ∧ reports.length + 1 < 2 ^ 32 := by
  obtain ⟨⟨hxlow, hxhigh⟩, hylow, hyhigh⟩ := hfits
  rw [sumX_concat] at hxlow hxhigh
  rw [sumY_concat] at hylow hyhigh
  have hnearX := toInt_toInt8_near (r.packet 0 &&& 0x10 != 0) (r.packet 1)
  have hnearY := toInt_toInt8_near (r.packet 0 &&& 0x20 != 0) (r.packet 2)
  have hx : (m.decode r.packet).x.toInt = sumX (reports ++ [r]) ↔ -128 ≤ r.dx ∧ r.dx < 128 := by
    show (m.x + (r.packet 1).toInt8.toInt32).toInt = _ ↔ _
    rw [Int32.toInt_add, Int8.toInt_toInt32, h.x_eq, sumX_concat,
      bmod_add_eq_iff hxlow hxhigh hnearX]
    exact toInt_toInt8_eq_iff _ _
  have hy : (m.decode r.packet).y.toInt = -sumY (reports ++ [r]) ↔ -128 ≤ r.dy ∧ r.dy < 128 := by
    have hsub : -(sumY reports + r.dy) = -sumY reports + -r.dy := by omega
    rw [hsub] at hylow hyhigh
    show (m.y - (r.packet 2).toInt8.toInt32).toInt = _ ↔ _
    rw [Int32.toInt_sub, Int8.toInt_toInt32, h.y_eq, sumY_concat, hsub, Int.sub_eq_add_neg,
      bmod_add_eq_iff hylow hyhigh (by unfold Report.dy; omega), Int.neg_inj]
    exact toInt_toInt8_eq_iff _ _
  have hcount : (m.decode r.packet).packetCount.toNat = (reports ++ [r]).length ↔
      reports.length + 1 < 2 ^ 32 := by
    show (m.packetCount + 1).toNat = _ ↔ _
    rw [UInt32.toNat_add, h.count, List.length_append, List.length_singleton]
    show (reports.length + 1) % 2 ^ 32 = _ ↔ _
    omega
  have hbuttons : ∀ r', (reports ++ [r]).getLast? = some r' →
      (m.decode r.packet).buttons = r'.packet 0 &&& 0x07 := by
    intro r' hr'
    rw [List.getLast?_concat] at hr'
    cases hr'
    rfl
  constructor
  · intro hdecoded
    exact ⟨⟨hx.mp hdecoded.x_eq, hy.mp hdecoded.y_eq⟩, hcount.mp hdecoded.count⟩
  · rintro ⟨⟨hshortX, hshortY⟩, hlength⟩
    exact ⟨hcount.mpr hlength, hx.mpr hshortX, hy.mpr hshortY, hbuttons⟩

/-! ## Streams -/

/-- For every stream of reports whose position fits throughout, the state is right after every
report, exactly if no delta of the stream needs its ninth bit and the reports are fewer than
`2^32`. -/
theorem decoded_iff (d : MouseDriver) (reports : List Report)
    (hfits : ∀ front, front <+: reports → Fits front) :
    (∀ front, front <+: reports → Decoded front (delivered d front).mouseState) ↔
      (∀ r ∈ reports, r.Short) ∧ reports.length < 2 ^ 32 := by
  induction reports using List.reverseRecOn with
  | nil =>
      refine iff_of_true (fun front hfront => ?_) ⟨nofun, by decide⟩
      rw [List.prefix_nil.mp hfront]
      exact ⟨rfl, rfl, rfl, nofun⟩
  | append_singleton reports r ih =>
      have hsplit : ∀ front, front <+: reports ++ [r] ↔
          front <+: reports ∨ front = reports ++ [r] := by
        intro front
        rw [List.prefix_concat_iff, or_comm]
      have hall := ih fun front hfront => hfits front ((hsplit front).mpr (.inl hfront))
      have hlast : Decoded reports (delivered d reports).mouseState →
          (Decoded (reports ++ [r]) (delivered d (reports ++ [r])).mouseState ↔
            r.Short ∧ reports.length + 1 < 2 ^ 32) := by
        intro hreports
        rw [delivered_concat, runSteps_report (mouseIndex_delivered d reports)]
        exact decoded_concat_iff hreports r (hfits _ (List.prefix_refl _))
      rw [List.length_append, List.length_singleton, List.forall_mem_append,
        List.forall_mem_singleton]
      constructor
      · intro hdecoded
        have hfront : ∀ front, front <+: reports → Decoded front (delivered d front).mouseState :=
          fun front hfront => hdecoded front ((hsplit front).mpr (.inl hfront))
        obtain ⟨hshort, hlength⟩ := (hlast (hfront _ (List.prefix_refl _))).mp
          (hdecoded _ (List.prefix_refl _))
        exact ⟨⟨(hall.mp hfront).1, hshort⟩, hlength⟩
      · rintro ⟨⟨hshort, hshort'⟩, hlength⟩ front hfront
        have hfronts := hall.mpr ⟨hshort, Nat.lt_of_succ_lt hlength⟩
        rcases (hsplit front).mp hfront with hfront' | rfl
        · exact hfronts front hfront'
        · exact (hlast (hfronts _ (List.prefix_refl _))).mpr ⟨hshort', hlength⟩

theorem fits_single {r : Report} (h : Fits [r]) {front : List Report} (hfront : front <+: [r]) :
    Fits front := by
  cases front with
  | nil => decide
  | cons a rest =>
      obtain ⟨rfl, hrest⟩ := List.cons_prefix_cons.mp hfront
      rw [List.prefix_nil.mp hrest]
      exact h

/-- Five to the right and two down, with the left button held. -/
def shortReport : Report := ⟨![0x29, 5, 254], by decide, by decide⟩

theorem decoded_shortReport :
    (∀ front, front <+: [shortReport] →
      Decoded front (delivered mouseBoot front).mouseState) ↔
      (∀ r ∈ [shortReport], r.Short) ∧ [shortReport].length < 2 ^ 32 :=
  decoded_iff mouseBoot [shortReport] fun _ hfront => fits_single (by decide) hfront

/-- Two hundred to the right. -/
def wideReport : Report := ⟨![0x08, 200, 0], by decide, by decide⟩

/-- It is read as 56 to the left. -/
theorem not_decoded_wideReport :
    ¬ ∀ (d : MouseDriver) (reports : List Report), (∀ front, front <+: reports → Fits front) →
      ∀ front, front <+: reports → Decoded front (delivered d front).mouseState := by
  intro hall
  have hfits : ∀ front, front <+: [wideReport] → Fits front :=
    fun _ hfront => fits_single (by decide) hfront
  have hx := (hall mouseBoot [wideReport] hfits _ (List.prefix_refl _)).x_eq
  exact absurd hx (by decide)

end AcharyaOS.Mouse
