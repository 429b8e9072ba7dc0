import AcharyaOS.Disk.Ata
import AcharyaOS.Foundation.CString
import AcharyaOS.Foundation.Slots

/-!
# On-disk and in-memory layout of the filesystem

The constants, packed records and static variables of `fs/fs.c` and
`fs/include/fs.h`.
-/

namespace AcharyaOS.Fs

open Foundation Disk

/-! ## Constants -/

abbrev fsNameMax : Nat := 16

abbrev fsFilesMax : Nat := 32

abbrev fsBlockSize : Nat := 512

def fsMagicValue : UInt32 := 0x53485341

def fsVersion : UInt32 := 1

def fsSuperblockLba : UInt32 := 4096

def fsTableLba : UInt32 := 4097

def fsDataLba : UInt32 := 4098

def fsMaxFileBytes : Nat := 256 * 512

/-! ## Packed records -/

/-- `fs_superblock_t` without its 122 reserved words, which are written as
zeros and never read. -/
structure FsSuperblock where
  magic : UInt32
  version : UInt32
  volumeLabel : Bytes 17
  totalFiles : UInt32
  dataStartLba : UInt32
  deriving DecidableEq

/-- The 33 bytes in front of the reserved words. -/
def fsSuperblockCodec : Codec FsSuperblock :=
  (Codec.u32.prod (Codec.u32.prod ((Codec.bytes 17).prod (Codec.u32.prod Codec.u32)))).ofEquiv
    ⟨fun p => ⟨p.1, p.2.1, p.2.2.1, p.2.2.2.1, p.2.2.2.2⟩,
      fun s => (s.magic, s.version, s.volumeLabel, s.totalFiles, s.dataStartLba),
      fun _ => rfl, fun _ => rfl⟩

/-- The 521 bytes of `fs_superblock_t` in memory. -/
def fsSuperblockImage (sb : FsSuperblock) : List UInt8 :=
  fsSuperblockCodec.encode sb ++ List.replicate (122 * 4) 0

/-- `fs_disk_entry_t`. -/
structure FsDiskEntry where
  name : Bytes fsNameMax
  startLba : UInt32
  sizeBytes : UInt32
  used : UInt8
  reserved : Bytes 11
  deriving DecidableEq

def FsDiskEntry.zero : FsDiskEntry := ⟨.zero _, 0, 0, 0, .zero _⟩

/-- The test of `entry.used` as a C condition. -/
def FsDiskEntry.isUsed (e : FsDiskEntry) : Bool := e.used != 0

/-- The 36 bytes of a packed table entry. -/
def fsDiskEntryCodec : Codec FsDiskEntry :=
  ((Codec.bytes fsNameMax).prod
    (Codec.u32.prod (Codec.u32.prod (Codec.u8.prod (Codec.bytes 11))))).ofEquiv
    ⟨fun p => ⟨p.1, p.2.1, p.2.2.1, p.2.2.2.1, p.2.2.2.2⟩,
      fun e => (e.name, e.startLba, e.sizeBytes, e.used, e.reserved),
      fun _ => rfl, fun _ => rfl⟩

abbrev FsTable := Fin fsFilesMax → FsDiskEntry

def FsTable.zero : FsTable := fun _ => .zero

def fsTableCodec : Codec FsTable := Codec.array fsFilesMax fsDiskEntryCodec

theorem width_fsTableCodec : fsTableCodec.width = 1152 := rfl

/-! ## Static variables -/

/-- `fs_info_t`. -/
structure FsInfo where
  present : Bool
  mounted : Bool
  totalFiles : UInt32
  usedFiles : UInt32
  dataStartLba : UInt32
  volumeLabel : Bytes 17
  deriving DecidableEq

def FsInfo.zero : FsInfo := ⟨false, false, 0, 0, 0, .zero _⟩

/-- `fs_file_entry_t`. -/
structure FsFileEntry where
  name : Bytes fsNameMax
  startLba : UInt32
  sizeBytes : UInt32
  used : UInt8
  deriving DecidableEq

def FsFileEntry.zero : FsFileEntry := ⟨.zero _, 0, 0, 0⟩

/-- The disk and the three static variables of `fs.c`. -/
structure FsState where
  ata : Ata
  info : FsInfo
  cache : Fin fsFilesMax → FsFileEntry
  entries : FsTable

end AcharyaOS.Fs
