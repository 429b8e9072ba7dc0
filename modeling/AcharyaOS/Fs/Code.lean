import AcharyaOS.Fs.Layout

/-!
# The filesystem code

The functions of `fs/fs.c`, in source order.  A function that may fail returns
its result code next to the state it leaves behind.
-/

namespace AcharyaOS.Fs

open Foundation Disk

/-! ## Names and records -/

def fsClearCache (s : FsState) : FsState :=
  { s with info := .zero, cache := fun _ => .zero, entries := .zero }

def fsCopyName (dest : Bytes fsNameMax) (src : CString) : Bytes fsNameMax :=
  ⟨boundedCopy dest.toList src.bytes, by simp⟩

/-- The loop of `fs_name_equals`, over the bytes of both names still to compare. -/
def fsNameEqualsFrom (b : CString) : List UInt8 → List UInt8 → Bool
  | [], _ => b.charAt (fsNameMax - 1) == 0
  | x :: xs, ys =>
      if x ≠ ys.headD 0 then false
      else if x = 0 then true
      else fsNameEqualsFrom b xs ys.tail

def fsNameEquals (a : Bytes fsNameMax) (b : CString) : Bool :=
  fsNameEqualsFrom b a.toList b.bytes

/-! ## Superblock and table transfers -/

/-- `fs_load_superblock`; only the fields read by its callers are decoded. -/
def fsLoadSuperblock (ata : Ata) : Ata × Option FsSuperblock :=
  let r := ataReadSectors ata fsSuperblockLba 1
  (r.1, r.2.map fun bytes => fsSuperblockCodec.decode (bytes.take fsSuperblockCodec.width))

/-- The table after its first sector was read over it. -/
def fsOverlayTable (old : FsTable) (bytes : List UInt8) : FsTable :=
  fsTableCodec.decode (Codec.overlay bytes (fsTableCodec.encode old))

def fsLoadTable (s : FsState) : FsState × Int :=
  let r := ataReadSectors s.ata fsTableLba 1
  match r.2 with
  | none => ({ s with ata := r.1 }, -1)
  | some bytes => ({ s with ata := r.1, entries := fsOverlayTable s.entries bytes }, 0)

def fsStoreSuperblock (ata : Ata) (sb : FsSuperblock) : Ata × Int :=
  ataWriteSectors ata fsSuperblockLba 1 (fsSuperblockImage sb)

/-- `fs_store_table` writes one sector, whatever the size of the table. -/
def fsStoreTable (s : FsState) : FsState × Int :=
  let w := ataWriteSectors s.ata fsTableLba 1 (fsTableCodec.encode s.entries)
  ({ s with ata := w.1 }, w.2)

def fsSyncEntry (e : FsDiskEntry) : FsFileEntry :=
  ⟨e.name.set (fsNameMax - 1) 0, e.startLba, e.sizeBytes, e.used⟩

def fsSyncCache (s : FsState) : FsState :=
  { s with cache := fun i => fsSyncEntry (s.entries i) }

def fsBlocksForBytes (sizeBytes : UInt32) : UInt32 := (sizeBytes + 512 - 1) / 512

/-- The text "ACHARYAOS_FS". -/
def fsLabelText : List UInt8 := [65, 67, 72, 65, 82, 89, 65, 79, 83, 95, 70, 83]

def fsWriteLabel (dest : Bytes 17) : Bytes 17 :=
  ⟨boundedCopy dest.toList fsLabelText, by simp⟩

/-! ## Formatting and mounting -/

def fsFormatSuperblock : FsSuperblock where
  magic := fsMagicValue
  version := fsVersion
  volumeLabel := fsWriteLabel (.zero 17)
  totalFiles := 32
  dataStartLba := fsDataLba

/-- `fs_info` once formatting has succeeded. -/
def fsFormatInfo : FsInfo where
  present := true
  mounted := true
  totalFiles := 32
  usedFiles := 0
  dataStartLba := fsDataLba
  volumeLabel := fsFormatSuperblock.volumeLabel.set 16 0

def fsFormat (s : FsState) : FsState × Int :=
  let s := { s with entries := FsTable.zero }
  let w := fsStoreSuperblock s.ata fsFormatSuperblock
  let s := { s with ata := w.1 }
  if w.2 ≠ 0 then (s, -1)
  else
    let t := fsStoreTable s
    if t.2 ≠ 0 then (t.1, -1)
    else (fsSyncCache { t.1 with info := fsFormatInfo }, 0)

def fsCountUsed (entries : FsTable) : UInt32 :=
  UInt32.ofNat (countSlots fun i => (entries i).isUsed)

def fsMountInfo (sb : FsSuperblock) (entries : FsTable) : FsInfo where
  present := true
  mounted := true
  totalFiles := sb.totalFiles
  usedFiles := fsCountUsed entries
  dataStartLba := sb.dataStartLba
  volumeLabel := sb.volumeLabel.set 16 0

def fsInit (s : FsState) : FsState :=
  let s := fsClearCache s
  if !s.ata.present then s
  else
    let r := fsLoadSuperblock s.ata
    let s := { s with ata := r.1 }
    match r.2 with
    | none => (fsFormat s).1
    | some sb =>
        if sb.magic ≠ fsMagicValue ∨ sb.version ≠ fsVersion then (fsFormat s).1
        else
          let t := fsLoadTable s
          if t.2 ≠ 0 then t.1
          else fsSyncCache { t.1 with info := fsMountInfo sb t.1.entries }

def fsMounted (s : FsState) : Bool := s.info.mounted

/-! ## Listing and lookup -/

/-- `fs_list_files(out, max_files)` with a non-null array: the entries stored. -/
def fsListFiles (s : FsState) (maxFiles : Nat) : List FsFileEntry :=
  (((List.finRange fsFilesMax).filter fun i => (s.entries i).isUsed).map s.cache).take
    maxFiles

/-- `fs_find_entry`, `none` standing for -1. -/
def fsFindEntry (entries : FsTable) (name : CString) : Option (Fin fsFilesMax) :=
  firstSlot fun i => (entries i).isUsed && fsNameEquals (entries i).name name

/-- `fs_find_free_entry`, `none` standing for -1. -/
def fsFindFreeEntry (entries : FsTable) : Option (Fin fsFilesMax) :=
  firstSlot fun i => !(entries i).isUsed

/-- The sector after an entry's last one, in 32-bit arithmetic. -/
def fsEntryEnd (e : FsDiskEntry) : UInt32 := e.startLba + fsBlocksForBytes e.sizeBytes

def fsNextFreeLba (dataStartLba : UInt32) (entries : FsTable) : UInt32 :=
  (List.finRange fsFilesMax).foldl
    (fun next i =>
      if !(entries i).isUsed then next
      else if fsEntryEnd (entries i) > next then fsEntryEnd (entries i) else next)
    dataStartLba

/-! ## Reading -/

/-- The checks of `fs_read_file`: the entry it goes on with. -/
def fsReadCheck (s : FsState) (name : Option CString) (bufferLen : Nat) :
    Option FsDiskEntry :=
  match name with
  | none => none
  | some name =>
      if !s.info.mounted then none
      else match fsFindEntry s.entries name with
        | none => none
        | some idx =>
            if bufferLen < (s.entries idx).sizeBytes.toNat then none
            else some (s.entries idx)

/-- `(uint8_t) blocks`, the sector count `fs_read_file` passes to the disk. -/
def fsReadCount (e : FsDiskEntry) : UInt8 := (fsBlocksForBytes e.sizeBytes).toUInt8

/-- `fs_read_file(name, buffer, buffer_len, &size)` with non-null `buffer`: the
reported size and the bytes stored at the start of the buffer, or `none` for -1. -/
def fsReadFile (s : FsState) (name : Option CString) (bufferLen : Nat) :
    FsState × Option (Nat × List UInt8) :=
  match fsReadCheck s name bufferLen with
  | none => (s, none)
  | some e =>
      if fsBlocksForBytes e.sizeBytes == 0 then (s, some (0, []))
      else
        let r := ataReadSectors s.ata e.startLba (fsReadCount e)
        ({ s with ata := r.1 }, r.2.map fun bytes => (e.sizeBytes.toNat, bytes))

/-! ## Writing and deleting -/

/-- The bytes of block `i` of a file: the rest of the data when the block is
the last one, a full block otherwise. -/
def fsChunk (data : List UInt8) (i : Nat) : List UInt8 :=
  (data.drop (i * fsBlockSize)).take
    (if (i + 1) * fsBlockSize > data.length then data.length - i * fsBlockSize
      else fsBlockSize)

/-- The block-writing loop of `fs_write_file`, from block `i` with `n` to go. -/
def fsWriteBlocks (startLba : UInt32) (data : List UInt8) : Nat → Nat → Ata → Ata × Int
  | _, 0, ata => (ata, 0)
  | i, n + 1, ata =>
      let w := ataWriteSectors ata (startLba + UInt32.ofNat i) 1
        (Bytes.ofList fsBlockSize (fsChunk data i)).toList
      if w.2 ≠ 0 then (w.1, -1) else fsWriteBlocks startLba data (i + 1) n w.1

/-- The slot `fs_write_file` uses, and the table once a new entry has been
named there. -/
def fsClaimEntry (entries : FsTable) (name : CString) :
    Option (Fin fsFilesMax × FsTable) :=
  match fsFindEntry entries name with
  | some idx => some (idx, entries)
  | none =>
      match fsFindFreeEntry entries with
      | none => none
      | some idx =>
          some (idx, Function.update entries idx
            { entries idx with name := fsCopyName (entries idx).name name, used := 1 })

def fsPlaceEntry (entries : FsTable) (idx : Fin fsFilesMax) (startLba : UInt32)
    (size : Nat) : FsTable :=
  Function.update entries idx
    { entries idx with startLba := startLba, sizeBytes := UInt32.ofNat size }

def fsWriteFile (s : FsState) (name : Option CString) (data : Option (List UInt8)) :
    FsState × Int :=
  match name, data with
  | some name, some data =>
      if !s.info.mounted then (s, -1)
      else if data.length > fsMaxFileBytes then (s, -1)
      else match fsClaimEntry s.entries name with
        | none => (s, -1)
        | some (idx, entries) =>
            let blocks := fsBlocksForBytes (UInt32.ofNat data.length)
            let startLba := fsNextFreeLba s.info.dataStartLba entries
            let s := { s with entries := fsPlaceEntry entries idx startLba data.length }
            let w := fsWriteBlocks startLba data 0 blocks.toNat s.ata
            let s := { s with ata := w.1 }
            if w.2 ≠ 0 then (s, -1)
            else
              let t := fsStoreTable s
              if t.2 ≠ 0 then (t.1, -1)
              else
                let info := { t.1.info with usedFiles := fsCountUsed t.1.entries }
                (fsSyncCache { t.1 with info := info }, 0)
  | _, _ => (s, -1)

def fsDeleteFile (s : FsState) (name : CString) : FsState × Int :=
  match fsFindEntry s.entries name with
  | none => (s, -1)
  | some idx =>
      let s := { s with entries := Function.update s.entries idx .zero }
      let t := fsStoreTable s
      if t.2 ≠ 0 then (t.1, -1)
      else
        let usedFiles :=
          if t.1.info.usedFiles > 0 then t.1.info.usedFiles - 1 else t.1.info.usedFiles
        let info := { t.1.info with usedFiles := usedFiles }
        (fsSyncCache { t.1 with info := info }, 0)

/-! ## Calls -/

/-- A call into the filesystem; null pointers are `none`. -/
inductive FsCall
  | init
  | writeFile (name : Option CString) (data : Option (List UInt8))
  | deleteFile (name : CString)

/-- The state a call leaves and its result; `fs_init` returns nothing. -/
def FsCall.perform (s : FsState) : FsCall → FsState × Int
  | .init => (fsInit s, 0)
  | .writeFile name data => fsWriteFile s name data
  | .deleteFile name => fsDeleteFile s name

def FsState.withFaults (s : FsState) (f : Faults) : FsState :=
  { s with ata := { s.ata with device := { s.ata.device with faults := f } } }

/-- One call during which the disk answers as the script says. -/
def fsExec (s : FsState) (c : Faults × FsCall) : FsState × Int :=
  let r := c.2.perform (s.withFaults c.1)
  (r.1.withFaults .none, r.2)

def fsStep (s : FsState) (c : Faults × FsCall) : FsState := (fsExec s c).1

end AcharyaOS.Fs
