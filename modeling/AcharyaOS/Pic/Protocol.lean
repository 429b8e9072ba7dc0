import AcharyaOS.Foundation.Priority
import AcharyaOS.Pic.Lines

/-!
# Interrupts in service

What the two chips do with the edges on their lines, with the acknowledgement of the processor
and with the end-of-interrupt command, and `pic_send_eoi`.
-/

namespace AcharyaOS.Pic

open Foundation

theorem eight_neZero : NeZero 8 := ⟨by decide⟩

attribute [local instance] eight_neZero

/-- A line of the first chip or of the second. -/
inductive Wire
  | first (i : Fin 8)
  | second (j : Fin 8)
  deriving DecidableEq

/-- The number that the functions of the kernel use. -/
def Wire.irq : Wire → UInt8
  | .first i => UInt8.ofNat i
  | .second j => UInt8.ofNat (8 + j)

/-- The line of the first chip on which the second hangs. -/
def cascadeLine : Fin 8 := 2

structure Controllers where
  masks : PicState
  pic1 : Controller 8
  pic2 : Controller 8

def picEoiCommand : UInt8 := 0x20

namespace Controllers

def raise (s : Controllers) : Wire → Controllers
  | .first i => { s with pic1 := s.pic1.raise i }
  | .second j => { s with pic2 := s.pic2.raise j }

/-- The request that the second chip passes on. -/
def next2 (s : Controllers) : Option (Fin 8) :=
  s.pic2.next fun j => (s.masks.mask .pic2).toNat.testBit j

/-- The request that the first chip passes on, which has the output of the second on line 2. -/
def next1 (s : Controllers) : Option (Fin 8) :=
  Controller.next
    { s.pic1 with request := Function.update s.pic1.request cascadeLine s.next2.isSome }
    fun i => (s.masks.mask .pic1).toNat.testBit i

/-- The processor takes an interrupt, if there is one. -/
def acknowledge (s : Controllers) : Option (Wire × Controllers) :=
  match s.next1 with
  | none => none
  | some i =>
      if i = cascadeLine then
        s.next2.map fun j => (.second j, { s with pic1 := s.pic1.grant i, pic2 := s.pic2.grant j })
      else some (.first i, { s with pic1 := s.pic1.grant i })

/-- A write to the command port of a chip. -/
def outbCommand (s : Controllers) (chip : PicChip) (v : UInt8) : Controllers :=
  if v = picEoiCommand then
    match chip with
    | .pic1 => { s with pic1 := s.pic1.finish }
    | .pic2 => { s with pic2 := s.pic2.finish }
  else s

end Controllers

def picSendEoi (s : Controllers) (irq : UInt8) : Controllers :=
  let s := if irq ≥ 8 then s.outbCommand .pic2 picEoiCommand else s
  s.outbCommand .pic1 picEoiCommand

namespace Controllers

variable {s s' : Controllers}

/-- No interrupt is in service. -/
def Quiet (s : Controllers) : Prop := s.pic1.Quiet ∧ s.pic2.Quiet

/-- The request of a line that has been served. -/
def withdraw (s : Controllers) : Wire → Controllers
  | .first i => { s with pic1 := s.pic1.withdraw i }
  | .second j => { s with pic1 := s.pic1.withdraw cascadeLine, pic2 := s.pic2.withdraw j }

theorem Wire.first_lt (i : Fin 8) : ¬ (Wire.first i).irq ≥ 8 := by
  revert i
  decide

theorem Wire.second_ge (j : Fin 8) : (Wire.second j).irq ≥ 8 := by
  revert j
  decide

/-- The command for the line that was acknowledged ends its service at every chip it came
through, and no other. -/
theorem picSendEoi_acknowledge {wire : Wire} (h : s.acknowledge = some (wire, s')) :
    picSendEoi s' wire.irq = s.withdraw wire := by
  unfold acknowledge at h
  cases hnext : s.next1 with
  | none =>
    rw [hnext] at h
    exact absurd h.symm (Option.some_ne_none _)
  | some i =>
    have hfirst := Controller.finish_grant (c := s.pic1) (Controller.next_some hnext).2.2
    simp only [hnext] at h
    by_cases hi : i = cascadeLine
    · rw [if_pos hi, Option.map_eq_some_iff] at h
      obtain ⟨j, hj, hpair⟩ := h
      have hsecond := Controller.finish_grant (Controller.next_some hj).2.2
      obtain ⟨rfl, rfl⟩ := Prod.mk.inj hpair
      unfold picSendEoi
      rw [if_pos (Wire.second_ge j)]
      simp only [outbCommand, if_true, hfirst, hsecond]
      rw [hi]
      rfl
    · rw [if_neg hi, Option.some.injEq] at h
      obtain ⟨rfl, rfl⟩ := Prod.mk.inj h
      unfold picSendEoi
      rw [if_neg (Wire.first_lt i)]
      simp only [outbCommand, if_true, hfirst]
      rfl

end Controllers

end AcharyaOS.Pic
