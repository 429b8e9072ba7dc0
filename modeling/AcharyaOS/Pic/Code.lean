import Mathlib.Logic.Function.Basic

/-!
# The interrupt controllers

The functions of `drivers/pic/pic.c` on the mask registers of the two chips.  The
data port of a chip reads back what was last written to it; the command port does
not touch the mask.
-/

namespace AcharyaOS.Pic

inductive PicChip
  | pic1 | pic2
  deriving DecidableEq

/-- What the data ports read back. -/
structure PicState where
  mask : PicChip → UInt8

def PicState.outbData (s : PicState) (chip : PicChip) (v : UInt8) : PicState :=
  { s with mask := Function.update s.mask chip v }

def PicState.outbCommand (s : PicState) (_chip : PicChip) (_v : UInt8) : PicState := s

def picIrqBase : UInt8 := 32

/-- `pic_init`; what it reads from the data ports first is dropped. -/
def picInit (s : PicState) : PicState :=
  let s := s.outbCommand .pic1 0x11
  let s := s.outbCommand .pic2 0x11
  let s := s.outbData .pic1 picIrqBase
  let s := s.outbData .pic2 (picIrqBase + 8)
  let s := s.outbData .pic1 0x04
  let s := s.outbData .pic2 0x02
  let s := s.outbData .pic1 0x01
  let s := s.outbData .pic2 0x01
  let s := s.outbData .pic1 0xFF
  s.outbData .pic2 0xFF

/-- `mask & ~(1u << irq)`, stored back as a byte. -/
def clearMaskBit (mask irq : UInt8) : UInt8 :=
  (mask.toUInt32 &&& ~~~((1 : UInt32) <<< irq.toUInt32)).toUInt8

def picUnmaskIrq (s : PicState) (irq : UInt8) : PicState :=
  if irq < 8 then s.outbData .pic1 (clearMaskBit (s.mask .pic1) irq)
  else s.outbData .pic2 (clearMaskBit (s.mask .pic2) (irq - 8))

def mouseIrq : UInt8 := 12

/-- The part of `mouse_init` that reaches these chips; its other accesses go to the
keyboard controller. -/
def mouseInitPic (s : PicState) : PicState := picUnmaskIrq s mouseIrq

end AcharyaOS.Pic
