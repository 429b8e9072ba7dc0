import AcharyaOS.Foundation.Checked
import AcharyaOS.Foundation.CountUp

/-!
# The framebuffer code

The functions of `gui/framebuffer.c` on its static variables.  `none` stands for a write
outside `fb_backing`.
-/

namespace AcharyaOS.Framebuffer

open Foundation Foundation.Checked

abbrev fbWidth : Nat := 320

abbrev fbHeight : Nat := 200

def fbBytesPerPixel : UInt32 := 4

/-- `fb_info_t`. -/
structure FbInfo where
  width : UInt32
  height : UInt32
  pitch : UInt32
  bytesPerPixel : UInt32
  pixelCount : UInt32
  ready : Bool
  background : UInt32
  foreground : UInt32

/-- The static variables of `framebuffer.c`: `fb_backing` and `fb_state`. -/
structure FbState where
  backing : Fin (fbWidth * fbHeight) → UInt32
  info : FbInfo

def fbSyncState (s : FbState) : FbState :=
  { s with info := { s.info with
      width := .ofNat fbWidth
      height := .ofNat fbHeight
      pitch := .ofNat fbWidth * fbBytesPerPixel
      bytesPerPixel := fbBytesPerPixel
      pixelCount := .ofNat (fbWidth * fbHeight)
      ready := true } }

/-- `fb_backing[i] = color;` -/
def fbStore (color : UInt32) (i : UInt32) (s : FbState) : Option FbState :=
  (writeAt s.backing i.toNat color).map fun backing => { s with backing := backing }

def fbClear (s : FbState) (color : UInt32) : Option FbState :=
  (countUp s.info.pixelCount (fbStore color) 0 s).map fun s =>
    { s with info := { s.info with background := color } }

def fbInit (s : FbState) : Option FbState :=
  let s := fbSyncState { s with info := { s.info with
    ready := false
    background := 0xFF000000
    foreground := 0xFFFFFFFF } }
  fbClear s s.info.background

def fbReady (s : FbState) : Bool := s.info.ready

/-- `fb_fill_rect`; the ends of the rectangle are computed in 32 bits. -/
def fbFillRect (s : FbState) (x y width height color : UInt32) : Option (FbState × Int) :=
  if !s.info.ready || width == 0 || height == 0 then some (s, -1)
  else
    let xEnd := x + width
    let yEnd := y + height
    if x ≥ s.info.width || y ≥ s.info.height then some (s, -1)
    else if xEnd > s.info.width || yEnd > s.info.height then some (s, -1)
    else
      (countUp yEnd (fun row =>
        countUp xEnd (fun col => fbStore color (row * s.info.width + col)) x) y s).map fun s => (s, 0)

end AcharyaOS.Framebuffer
