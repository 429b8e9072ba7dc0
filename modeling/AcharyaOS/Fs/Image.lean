import AcharyaOS.Fs.Code

/-!
# What the table sector holds

`fs_disk_entries` takes 1152 bytes and one sector of 512 is stored and loaded:
14 entries and the first eight bytes of the next one's name.
-/

namespace AcharyaOS.Fs

open Foundation Disk

/-- The entries lying wholly in the stored sector. -/
abbrev fsStoredSlots : Nat := 14

/-- The sector `fs_store_table` writes. -/
def fsTableSector (entries : FsTable) : Sector :=
  Bytes.ofList ataSectorSize (fsTableCodec.encode entries)

def fsSuperblockSector (sb : FsSuperblock) : Sector :=
  Bytes.ofList ataSectorSize (fsSuperblockImage sb)

def fsDecodeSuperblock (sector : Sector) : FsSuperblock :=
  fsSuperblockCodec.decode (sector.toList.take fsSuperblockCodec.width)

@[simp] theorem fsDecodeSuperblock_sector (sb : FsSuperblock) :
    fsDecodeSuperblock (fsSuperblockSector sb) = sb := by
  have hlen : (fsSuperblockCodec.encode sb).length = fsSuperblockCodec.width :=
    fsSuperblockCodec.length_encode sb
  have hwidth : fsSuperblockCodec.width = 33 := rfl
  have htake : (fsSuperblockSector sb).toList = (fsSuperblockImage sb).take ataSectorSize := by
    apply Bytes.toList_ofList_of_le
    rw [fsSuperblockImage, List.length_append, hlen, List.length_replicate, hwidth]
    decide
  rw [fsDecodeSuperblock, htake, List.take_take, Nat.min_eq_left (by rw [hwidth]; decide),
    fsSuperblockImage, List.take_left' hlen, fsSuperblockCodec.decode_encode]

theorem length_encode_fsTable (entries : FsTable) :
    (fsTableCodec.encode entries).length = 1152 :=
  fsTableCodec.length_encode entries

theorem toList_fsTableSector (entries : FsTable) :
    (fsTableSector entries).toList = (fsTableCodec.encode entries).take ataSectorSize := by
  apply Bytes.toList_ofList_of_le
  rw [length_encode_fsTable]
  decide

theorem fsTableSector_overlay (old : FsTable) (sector : Sector) :
    fsTableSector (fsOverlayTable old sector.toList) = sector := by
  have hlen : sector.toList.length = ataSectorSize := sector.length_toList
  apply Bytes.ext
  rw [toList_fsTableSector, fsOverlayTable, fsTableCodec.encode_decode]
  · exact Codec.take_overlay hlen
  · rw [Codec.length_overlay, length_encode_fsTable, width_fsTableCodec]
    rw [hlen, length_encode_fsTable]
    decide

theorem fsOverlayTable_of_lt (old entries : FsTable) {i : Fin fsFilesMax}
    (hi : i.val < fsStoredSlots) :
    fsOverlayTable old (fsTableSector entries).toList i = entries i := by
  have helem : Codec.element 36
      (Codec.overlay (fsTableSector entries).toList (fsTableCodec.encode old)) i =
        Codec.element 36 (fsTableCodec.encode entries) i := by
    rw [toList_fsTableSector]
    apply Codec.element_overlay_of_le
    · rw [length_encode_fsTable]
      decide
    · simp only [fsStoredSlots, ataSectorSize] at hi ⊢
      omega
  calc fsOverlayTable old (fsTableSector entries).toList i
      = fsDiskEntryCodec.decode (Codec.element 36
          (Codec.overlay (fsTableSector entries).toList (fsTableCodec.encode old)) i) := rfl
    _ = fsTableCodec.decode (fsTableCodec.encode entries) i := by rw [helem]; rfl
    _ = entries i := by rw [fsTableCodec.decode_encode]

/-- Behind the stored part an entry keeps everything but perhaps its name. -/
theorem fsOverlayTable_of_ge (old : FsTable) (sector : Sector) {i : Fin fsFilesMax}
    (hi : fsStoredSlots ≤ i.val) :
    (fsOverlayTable old sector.toList i).startLba = (old i).startLba ∧
      (fsOverlayTable old sector.toList i).sizeBytes = (old i).sizeBytes ∧
      (fsOverlayTable old sector.toList i).used = (old i).used := by
  -- the fields after the name start at byte 16 of the entry, behind the sector
  have hdrop : (Codec.element 36
      (Codec.overlay sector.toList (fsTableCodec.encode old)) i).drop 16 =
        (Codec.element 36 (fsTableCodec.encode old) i).drop 16 := by
    apply Codec.drop_element_overlay
    rw [sector.length_toList, ataSectorSize]
    simp only [fsStoredSlots] at hi
    omega
  have hfields : ∀ l l' : List UInt8, l.drop 16 = l'.drop 16 →
      (fsDiskEntryCodec.decode l).startLba = (fsDiskEntryCodec.decode l').startLba ∧
        (fsDiskEntryCodec.decode l).sizeBytes = (fsDiskEntryCodec.decode l').sizeBytes ∧
        (fsDiskEntryCodec.decode l).used = (fsDiskEntryCodec.decode l').used := by
    intro l l' h
    simp only [fsDiskEntryCodec, Codec.ofEquiv, Codec.prod, Codec.bytes, Equiv.coe_fn_mk, h,
      and_self]
  have hold : fsDiskEntryCodec.decode (Codec.element 36 (fsTableCodec.encode old) i) = old i :=
    congrFun (fsTableCodec.decode_encode old) i
  have h := hfields _ _ hdrop
  rw [hold] at h
  exact h

end AcharyaOS.Fs
