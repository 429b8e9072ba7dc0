import AcharyaOS.Foundation.Device
import AcharyaOS.Foundation.Packed

/-!
# The ATA disk driver as its callers see it

`ata_read_sectors` and `ata_write_sectors` of `drivers/disk/ata.c`.  The port
handshake is summed up by the device's answer to the command: a command the
polling loops give up on is a failed one.
-/

namespace AcharyaOS.Disk

open Foundation

def ataSectorSize : Nat := 512

def ataLba28Mask : UInt32 := 0x0FFFFFFF

abbrev Sector := Bytes ataSectorSize

/-- The attached device and `ata_info.present`, set by `ata_init`. -/
structure Ata where
  present : Bool
  device : Device Sector

def bufferSectors (buffer : List UInt8) (count : Nat) : List Sector :=
  (List.range count).map fun i => Bytes.ofList ataSectorSize (buffer.drop (i * ataSectorSize))

@[simp] theorem length_bufferSectors (buffer : List UInt8) (count : Nat) :
    (bufferSectors buffer count).length = count := by
  simp [bufferSectors]

/-- `ata_read_sectors(lba, count, buffer)` with a non-null buffer; the bytes
stored into it, or nothing for the result -1. -/
def ataReadSectors (ata : Ata) (lba : UInt32) (count : UInt8) : Ata × Option (List UInt8) :=
  if !ata.present || count == 0 then (ata, none)
  else if lba > ataLba28Mask then (ata, none)
  else
    let r := ata.device.read lba.toNat count.toNat
    ({ ata with device := r.1 }, r.2.map fun ss => ss.flatMap Bytes.toList)

/-- `ata_write_sectors(lba, count, buffer)` with a non-null buffer. -/
def ataWriteSectors (ata : Ata) (lba : UInt32) (count : UInt8) (buffer : List UInt8) :
    Ata × Int :=
  if !ata.present || count == 0 then (ata, -1)
  else if lba > ataLba28Mask then (ata, -1)
  else
    let w := ata.device.write lba.toNat (bufferSectors buffer count.toNat)
    ({ ata with device := w.1 }, if w.2 then 0 else -1)

/-! ## Effects on the medium -/

/-- Between `a` and `a'` exactly the sector writes `ws` reached the medium. -/
structure Ata.Wrote (a a' : Ata) (ws : List (Nat × Sector)) : Prop where
  present_eq : a'.present = a.present
  device : a.device.Wrote a'.device ws

namespace Ata.Wrote

variable {a a' a'' : Ata} {ws vs : List (Nat × Sector)}

theorem refl (a : Ata) : a.Wrote a [] := ⟨rfl, .refl _⟩

theorem trans (h : a.Wrote a' ws) (h' : a'.Wrote a'' vs) : a.Wrote a'' (ws ++ vs) :=
  ⟨h'.present_eq.trans h.present_eq, h.device.trans h'.device⟩

end Ata.Wrote

theorem ataReadSectors_wrote (ata : Ata) (lba : UInt32) (count : UInt8) :
    ata.Wrote (ataReadSectors ata lba count).1 [] := by
  unfold ataReadSectors
  split
  · exact .refl _
  · split
    · exact .refl _
    · exact ⟨rfl, Device.read_wrote _ _ _⟩

theorem ataReadSectors_faults_writes (ata : Ata) (lba : UInt32) (count : UInt8) :
    (ataReadSectors ata lba count).1.device.faults.writes = ata.device.faults.writes := by
  unfold ataReadSectors Device.read
  split_ifs <;> rfl

theorem ataReadSectors_one {ata : Ata} {lba : UInt32} {bytes : List UInt8}
    (h : (ataReadSectors ata lba 1).2 = some bytes) :
    ata.present = true ∧ bytes = (ata.device.content lba.toNat).toList := by
  by_cases hpresent : ata.present = true
  · by_cases hlba : lba > ataLba28Mask
    · simp [ataReadSectors, hlba] at h
    · simp only [ataReadSectors, hpresent, hlba, Bool.not_true, Bool.false_or,
        show ((1 : UInt8) == 0) = false from rfl, Bool.false_eq_true, if_false,
        Option.map_eq_some_iff] at h
      obtain ⟨ss, hss, rfl⟩ := h
      refine ⟨hpresent, ?_⟩
      rw [Device.read_some hss]
      simp
  · simp [ataReadSectors, hpresent] at h

theorem ataWriteSectors_accepted (ata : Ata) {lba : UInt32} (buffer : List UInt8)
    (hpresent : ata.present = true) (hlba : ¬ lba > ataLba28Mask) :
    ataWriteSectors ata lba 1 buffer =
      ({ ata with device := (ata.device.write lba.toNat (bufferSectors buffer 1)).1 },
        if (ata.device.write lba.toNat (bufferSectors buffer 1)).2 then 0 else -1) := by
  simp [ataWriteSectors, hpresent, hlba]

theorem ataWriteSectors_one_content (ata : Ata) {lba : UInt32} (buffer : List UInt8)
    (hpresent : ata.present = true) (hlba : ¬ lba > ataLba28Mask) :
    (ataWriteSectors ata lba 1 buffer).1.device.content =
      applyWrites ata.device.content
        (storedBy ata.device.capacity (ata.device.faults.writes.headD .done) lba.toNat
          (bufferSectors buffer 1)) := by
  rw [ataWriteSectors_accepted ata buffer hpresent hlba]
  exact (ata.device.write_wrote lba.toNat (bufferSectors buffer 1)).content_eq

theorem ataWriteSectors_one_zero_iff (ata : Ata) {lba : UInt32} (buffer : List UInt8)
    (hpresent : ata.present = true) (hlba : ¬ lba > ataLba28Mask) :
    (ataWriteSectors ata lba 1 buffer).2 = 0 ↔
      lba.toNat + 1 ≤ ata.device.capacity ∧ ata.device.faults.writes.headD .done = .done := by
  have hok := ata.device.write_ok_iff lba.toNat (bufferSectors buffer 1)
  rw [length_bufferSectors] at hok
  rw [ataWriteSectors_accepted ata buffer hpresent hlba, ← hok]
  cases (ata.device.write lba.toNat (bufferSectors buffer 1)).2 <;> simp

theorem ataWriteSectors_one (ata : Ata) (lba : UInt32) (buffer : List UInt8) :
    ∃ ws, ata.Wrote (ataWriteSectors ata lba 1 buffer).1 ws ∧
      ws <+: [(lba.toNat, Bytes.ofList ataSectorSize buffer)] ∧
      (ws ≠ [] → lba ≤ ataLba28Mask) ∧
      ((ataWriteSectors ata lba 1 buffer).2 = 0 ∧
          ws = [(lba.toNat, Bytes.ofList ataSectorSize buffer)] ∧
          ata.present = true ∧ lba.toNat < ata.device.capacity ∨
        (ataWriteSectors ata lba 1 buffer).2 = -1) := by
  have hplaced : placed lba.toNat (bufferSectors buffer 1) =
      [(lba.toNat, Bytes.ofList ataSectorSize buffer)] := by
    simp [placed, bufferSectors]
  by_cases hpresent : ata.present = true
  · by_cases hlba : lba > ataLba28Mask
    · exact ⟨[], by simpa [ataWriteSectors, hlba] using .refl ata, List.nil_prefix, by simp,
        Or.inr (by simp [ataWriteSectors, hlba])⟩
    · have hle : lba ≤ ataLba28Mask := UInt32.not_lt.mp hlba
      obtain ⟨ws, hwrote, hpre, -, hdone⟩ :=
        ata.device.write_cases lba.toNat (bufferSectors buffer 1)
      rw [hplaced] at hpre hdone
      rw [ataWriteSectors_accepted ata buffer hpresent hlba]
      refine ⟨ws, ⟨rfl, hwrote⟩, hpre, fun _ => hle, ?_⟩
      · by_cases hok : (ata.device.write lba.toNat (bufferSectors buffer 1)).2 = true
        · have h := hdone hok
          rw [length_bufferSectors] at h
          exact Or.inl ⟨by simp [hok], h.1, hpresent, h.2⟩
        · exact Or.inr (by simp [hok])
  · exact ⟨[], by simpa [ataWriteSectors, hpresent] using .refl ata, List.nil_prefix, by simp,
      Or.inr (by simp [ataWriteSectors, hpresent])⟩

/-! ## A working disk -/

theorem ataWriteSectors_one_of_no_faults (ata : Ata) (lba : UInt32) (buffer : List UInt8)
    (hpresent : ata.present = true) (hfaults : ata.device.faults = .none) :
    (ataWriteSectors ata lba 1 buffer).1.device.faults = .none ∧
      ((ataWriteSectors ata lba 1 buffer).2 = 0 ↔
        lba ≤ ataLba28Mask ∧ lba.toNat < ata.device.capacity) := by
  by_cases hlba : lba > ataLba28Mask
  · have hnot : ¬ lba ≤ ataLba28Mask := UInt32.not_le.mpr hlba
    simp [ataWriteSectors, hpresent, hlba, hfaults, hnot]
  · have hle : lba ≤ ataLba28Mask := UInt32.not_lt.mp hlba
    have hwrite := ata.device.write_of_no_faults lba.toNat (bufferSectors buffer 1) hfaults
    rw [length_bufferSectors] at hwrite
    rw [ataWriteSectors_accepted ata buffer hpresent hlba]
    refine ⟨hwrite.1, ?_⟩
    by_cases hok : (ata.device.write lba.toNat (bufferSectors buffer 1)).2 = true
    · have hlt := hwrite.2.mp hok
      simp [hok, hle]
      omega
    · have hge := mt hwrite.2.mpr hok
      simp [hok]
      omega

theorem ataReadSectors_snd (ata : Ata) (lba : UInt32) (count : UInt8) :
    (ataReadSectors ata lba count).2 =
      if ata.present = true ∧ count ≠ 0 ∧ lba ≤ ataLba28Mask ∧
          ata.device.faults.reads.headD false = false ∧
          lba.toNat + count.toNat ≤ ata.device.capacity then
        some ((List.range count.toNat).flatMap fun i =>
          (ata.device.content (lba.toNat + i)).toList) else none := by
  unfold ataReadSectors
  by_cases hpresent : ata.present = true
  · by_cases hcount : count = 0
    · simp [hcount]
    · by_cases hlba : lba > ataLba28Mask
      · have hnot : ¬ lba ≤ ataLba28Mask := UInt32.not_le.mpr hlba
        simp [hlba, hnot]
      · have hle : lba ≤ ataLba28Mask := UInt32.not_lt.mp hlba
        simp only [hpresent, hcount, hlba, hle, Device.read_snd, Bool.not_true, Bool.false_or,
          beq_iff_eq, if_false, true_and, ne_eq, not_false_eq_true]
        split
        · rw [Option.map_some, List.flatMap_map]
        · rfl
  · simp [hpresent]

theorem ataReadSectors_of_no_faults (ata : Ata) (lba : UInt32) (count : UInt8)
    (hfaults : ata.device.faults = .none) :
    ataReadSectors ata lba count =
      (ata, if ata.present = true ∧ count ≠ 0 ∧ lba ≤ ataLba28Mask ∧
          lba.toNat + count.toNat ≤ ata.device.capacity then
        some ((List.range count.toNat).flatMap fun i =>
          (ata.device.content (lba.toNat + i)).toList) else none) := by
  have hhead : ata.device.faults.reads.headD false = false := by rw [hfaults]; rfl
  apply Prod.ext
  · unfold ataReadSectors
    rw [Device.read_of_no_faults _ _ _ hfaults]
    split_ifs <;> rfl
  · rw [ataReadSectors_snd]
    simp only [hhead, true_and]

end AcharyaOS.Disk
