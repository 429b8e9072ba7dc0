import AcharyaOS.Disk.Ata

/-!
# The ports of the ATA disk

`drivers/disk/ata.c` on the level of its port accesses.  The disk is the sequence of
statuses it will answer with and of words it will deliver; a call leaves a trace of
its accesses.
-/

namespace AcharyaOS.Disk.Ports

inductive PortEvent
  /-- `inb(ATA_STATUS_PORT)` and its answer. -/
  | status (s : UInt8)
  | out (port : UInt16) (v : UInt8)
  /-- One word through `ATA_DATA_PORT`, in either direction. -/
  | data (w : UInt16)
  deriving DecidableEq

structure AtaIo where
  statuses : Nat → UInt8
  words : Nat → UInt16
  trace : List PortEvent

def ataSectorCount : UInt16 := 0x1F2

def ataLbaLow : UInt16 := 0x1F3

def ataLbaMid : UInt16 := 0x1F4

def ataLbaHigh : UInt16 := 0x1F5

def ataDriveHead : UInt16 := 0x1F6

def ataCommandPort : UInt16 := 0x1F7

def ataCmdReadPio : UInt8 := 0x20

def ataCmdWritePio : UInt8 := 0x30

def ataStatusErr : UInt8 := 0x01

def ataStatusDrq : UInt8 := 0x08

def ataStatusDf : UInt8 := 0x20

def ataStatusBsy : UInt8 := 0x80

def ataDeviceMaster : UInt32 := 0

def outb (io : AtaIo) (port : UInt16) (v : UInt8) : AtaIo :=
  { io with trace := io.trace ++ [.out port v] }

/-- `inb(ATA_STATUS_PORT)`. -/
def inbStatus (io : AtaIo) : AtaIo × UInt8 :=
  ({ io with
      statuses := fun n => io.statuses (n + 1)
      trace := io.trace ++ [.status (io.statuses 0)] }, io.statuses 0)

def ataIoWait (io : AtaIo) : AtaIo := outb io 0x80 0

/-- `ata_insw`, with the words it stores. -/
def ataInsw (io : AtaIo) (wordCount : Nat) : AtaIo × List UInt16 :=
  let ws := (List.range wordCount).map io.words
  ({ io with
      words := fun n => io.words (n + wordCount)
      trace := io.trace ++ ws.map .data }, ws)

def ataOutsw (io : AtaIo) (buffer : Nat → UInt16) (wordCount : Nat) : AtaIo :=
  { io with trace := io.trace ++ ((List.range wordCount).map buffer).map .data }

def ataWaitNotBusy : Nat → AtaIo → AtaIo × Int
  | 0, io => (io, -1)
  | timeout + 1, io =>
      let (io, status) := inbStatus io
      if status &&& ataStatusBsy == 0 then
        if status &&& (ataStatusErr ||| ataStatusDf) != 0 then (io, -1) else (io, 0)
      else ataWaitNotBusy timeout (ataIoWait io)

def ataWaitDrq : Nat → AtaIo → AtaIo × Int
  | 0, io => (io, -1)
  | timeout + 1, io =>
      let (io, status) := inbStatus io
      if status &&& (ataStatusErr ||| ataStatusDf) != 0 then (io, -1)
      else if status &&& ataStatusDrq != 0 then (io, 0)
      else ataWaitDrq timeout (ataIoWait io)

def ataSelectLba (io : AtaIo) (lba : UInt32) (count command : UInt8) : AtaIo :=
  let io := outb io ataDriveHead
    ((0xE0 : UInt32) ||| ataDeviceMaster ||| ((lba >>> 24) &&& 0x0F)).toUInt8
  let io := outb io ataSectorCount count
  let io := outb io ataLbaLow (lba &&& 0xFF).toUInt8
  let io := outb io ataLbaMid ((lba >>> 8) &&& 0xFF).toUInt8
  let io := outb io ataLbaHigh ((lba >>> 16) &&& 0xFF).toUInt8
  outb io ataCommandPort command

def ataTimeout : Nat := 100000

/-- `ata_read_sectors` with a non-null buffer; the words stored into it, or nothing
for the result -1. -/
def ataReadSectors (present : Bool) (io : AtaIo) (lba : UInt32) (count : UInt8) :
    AtaIo × Option (List UInt16) :=
  if !present || count == 0 then (io, none)
  else if lba > ataLba28Mask then (io, none)
  else
    let free := ataWaitNotBusy ataTimeout io
    if free.2 != 0 then (free.1, none)
    else
      let drq := ataWaitDrq ataTimeout (ataSelectLba free.1 lba count ataCmdReadPio)
      if drq.2 != 0 then (drq.1, none)
      else
        let read := ataInsw drq.1 (count.toNat * (ataSectorSize / 2))
        (read.1, some read.2)

/-- `ata_write_sectors` with a non-null buffer. -/
def ataWriteSectors (present : Bool) (io : AtaIo) (lba : UInt32) (count : UInt8)
    (buffer : Nat → UInt16) : AtaIo × Int :=
  if !present || count == 0 then (io, -1)
  else if lba > ataLba28Mask then (io, -1)
  else
    let free := ataWaitNotBusy ataTimeout io
    if free.2 != 0 then (free.1, -1)
    else
      let drq := ataWaitDrq ataTimeout (ataSelectLba free.1 lba count ataCmdWritePio)
      if drq.2 != 0 then (drq.1, -1)
      else
        let io := ataOutsw drq.1 buffer (count.toNat * (ataSectorSize / 2))
        let done := ataWaitNotBusy ataTimeout (outb io ataCommandPort 0xE7)
        if done.2 != 0 then (done.1, -1) else (done.1, 0)

end AcharyaOS.Disk.Ports
