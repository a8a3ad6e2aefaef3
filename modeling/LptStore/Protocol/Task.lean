import LptStore.Lib.Prog
import LptStore.Lib.Link
import LptStore.Codec.RunLength

/-!
# The request handler, `pico/lptprotocol.c`

`lptprotocol_task` reads one request from the link and answers it. Its operations are the
calls into `lptcomms.c` and into the disk layer (`disk.h`), and the stores of received
bytes into the two static buffers, whose contents it carries along. `Device` is core 1 in
the loop of `lptcomms_core` (`lptstore.c:84-86`), as a server of the link.
-/

namespace LptStore.Protocol

open LptStore.Lib

/-- The static buffers of `lptprotocol.c:8-9`. -/
inductive BufId where
  | buff
  | compressBuff
  deriving DecidableEq, Repr

/-- The operations of `lptprotocol_task`. A sector number is the pattern of a C `int`. -/
inductive DevOp where
  | hasbyte
  /-- `lptcomms_readbyte`; no byte is its -1. -/
  | readbyte
  /-- `lptcomms_writebyte`; false is its -1. -/
  | writebyte (b : UInt8)
  /-- The store `buff[i] = r` of `lptcomms_readbytes`. -/
  | store (buf : BufId) (i : Nat)
  | getDrives
  | getBlocks (disk : UInt8)
  | readSector (disk : UInt8) (lbn : UInt32) (buff : Sector)
  | writeSector (disk : UInt8) (lbn : UInt32) (buff : Sector)

/-- What each operation answers; `disk_read_sector` also fills the buffer it is given. -/
@[reducible] def DevResp : DevOp → Type
  | .hasbyte => Bool
  | .readbyte => Option UInt8
  | .writebyte _ => Bool
  | .store _ _ => Unit
  | .getDrives => UInt32
  | .getBlocks _ => UInt32
  | .readSector _ _ _ => Int × Sector
  | .writeSector _ _ _ => Int

abbrev DevProg := Prog DevOp DevResp

def lptcommsHasbyte : DevProg Bool := .op .hasbyte .ret

def lptcommsReadbyte : DevProg (Option UInt8) := .op .readbyte .ret

def lptcommsWritebyte (b : UInt8) : DevProg Bool := .op (.writebyte b) .ret

def storeByte (buf : BufId) (i : Nat) : DevProg Unit := .op (.store buf i) .ret

def diskGetDrives : DevProg UInt32 := .op .getDrives .ret

def diskGetBlocks (disk : UInt8) : DevProg UInt32 := .op (.getBlocks disk) .ret

def diskReadSector (disk : UInt8) (lbn : UInt32) (buff : Sector) : DevProg (Int × Sector) :=
  .op (.readSector disk lbn buff) .ret

def diskWriteSector (disk : UInt8) (lbn : UInt32) (buff : Sector) : DevProg Int :=
  .op (.writeSector disk lbn buff) .ret

/-- The loop of `lptcomms_readbytes` from index `i`, with `n` bytes to go. -/
def readbytesFrom (buf : BufId) : Nat → Nat → Sector → DevProg (Bool × Sector)
  | 0, _, buff => return (true, buff)
  | n + 1, i, buff => do
      match ← lptcommsReadbyte with
      | none => return (false, buff)
      | some r => do
          storeByte buf i
          readbytesFrom buf n (i + 1) (buff.set i r)

/-- `lptcomms_readbytes` (`lptcomms.c:110-118`): whether all bytes came, and the buffer. -/
def lptcommsReadbytes (buf : BufId) (buff : Sector) (len : Nat) : DevProg (Bool × Sector) :=
  readbytesFrom buf len 0 buff

/-- `lptcomms_writebytes` (`lptcomms.c:150-158`). -/
def lptcommsWritebytes : List UInt8 → DevProg Bool
  | [] => return true
  | b :: bs => do
      if ← lptcommsWritebyte b then lptcommsWritebytes bs else return false

/-- The contents of the two static buffers. -/
structure Bufs where
  buff : Sector
  compressBuff : Sector
  deriving DecidableEq

/-- `LPTS_HELLO` to `LPTS_WRITE_BLOCK` and the version (`lptprotocol.h:4-11`). -/
def lptsHello : UInt8 := 0x00
def lptsQueryDisks : UInt8 := 0x01
def lptsQueryDiskCaps : UInt8 := 0x02
def lptsReadBlock : UInt8 := 0x03
def lptsWriteBlock : UInt8 := 0x04
def lptsVersionMajor : UInt8 := 0
def lptsVersionMinor : UInt8 := 1

/-- `buff[0] = w >> 24; ... buff[3] = w & 0xff;` -/
def putWord (buff : Sector) (w : UInt32) : Sector :=
  (((buff.set 0 (w >>> 24).toUInt8).set 1 ((w >>> 16) &&& 0xff).toUInt8).set 2
    ((w >>> 8) &&& 0xff).toUInt8).set 3 (w &&& 0xff).toUInt8

/-- `case LPTS_HELLO`. -/
def hello (b : Bufs) : DevProg Bufs := do
  let buff := (b.buff.set 0 lptsVersionMajor).set 1 lptsVersionMinor
  let _ ← lptcommsWritebytes (buff.bytes.take 2)
  return { b with buff := buff }

/-- `case LPTS_QUERY_DISKS`. -/
def queryDisks (b : Bufs) : DevProg Bufs := do
  let w ← diskGetDrives
  let buff := putWord b.buff w
  let _ ← lptcommsWritebytes (buff.bytes.take 4)
  return { b with buff := buff }

/-- `case LPTS_QUERY_DISK_CAPS`. -/
def queryDiskCaps (b : Bufs) : DevProg Bufs := do
  let (ok, buff) ← lptcommsReadbytes .buff b.buff 1
  if ok then do
    let w ← diskGetBlocks (buff.get 0)
    let buff := putWord buff w
    let _ ← lptcommsWritebytes (buff.bytes.take 4)
    return { b with buff := buff }
  else return { b with buff := buff }

/-- The answer to a block that was read: compressed where that helps. -/
def sendBlock (b : Bufs) : DevProg Bufs := do
  let (c, out) := Pico.lptCompress b.buff
  let b := { b with compressBuff := b.compressBuff.overwrite out }
  if c ≠ 0 then do
    if ← lptcommsWritebyte 0x02 then do
      if ← lptcommsWritebyte (UInt8.ofNat (c >>> 8)) then do
        if ← lptcommsWritebyte (UInt8.ofNat (c &&& 0xff)) then do
          let _ ← lptcommsWritebytes (b.compressBuff.bytes.take c)
          return b
        else return b
      else return b
    else return b
  else do
    if ← lptcommsWritebyte 0x00 then do
      let _ ← lptcommsWritebytes b.buff.bytes
      return b
    else return b

/-- The answer to a read request. The status is truncated to a `uint8_t`. -/
def answerRead (r : Int) (b : Bufs) : DevProg Bufs :=
  if UInt8.ofInt r = 0 then sendBlock b
  else do
    let _ ← lptcommsWritebyte 0x01
    return b

/-- The end of `case LPTS_READ_BLOCK`: the block is read and the answer sent. -/
def fetchBlock (drv : UInt8) (lba : UInt32) (b : Bufs) : DevProg Bufs := do
  let (r, buff) ← diskReadSector drv lba b.buff
  answerRead r { b with buff := buff }

/-- `case LPTS_READ_BLOCK`. -/
def readBlock (b : Bufs) : DevProg Bufs := do
  let (ok, buff) ← lptcommsReadbytes .buff b.buff 5
  if ok then
    let lba := ((buff.get 1).toUInt32 <<< 24) ||| ((buff.get 2).toUInt32 <<< 16) |||
      ((buff.get 3).toUInt32 <<< 8) ||| (buff.get 4).toUInt32
    fetchBlock (buff.get 0) lba { b with buff := buff }
  else return { b with buff := buff }

/-- The end of `case LPTS_WRITE_BLOCK`: the block is written and its status sent. -/
def storeBlock (drv : UInt8) (lba : UInt32) (b : Bufs) : DevProg Bufs := do
  let r ← diskWriteSector drv lba b.buff
  let _ ← lptcommsWritebyte (UInt8.ofInt r)
  return b

/-- The block of a write request. Its length comes from the wire; `LPTDecompress` is given
the bytes of `compress_buff` up to it. -/
def receiveBlock (drv : UInt8) (lba : UInt32) (compressed : UInt16) (b : Bufs) : DevProg Bufs :=
  if compressed = 0 then do
    let (ok, buff) ← lptcommsReadbytes .buff b.buff 512
    if ok then storeBlock drv lba { b with buff := buff }
    else return { b with buff := buff }
  else do
    let (ok, cbuff) ← lptcommsReadbytes .compressBuff b.compressBuff compressed.toNat
    if ok then
      let out := (Pico.lptDecompress (cbuff.bytes.take compressed.toNat)).2
      storeBlock drv lba { buff := b.buff.overwrite out, compressBuff := cbuff }
    else return { b with compressBuff := cbuff }

/-- `case LPTS_WRITE_BLOCK`. -/
def writeBlock (b : Bufs) : DevProg Bufs := do
  let (ok, buff) ← lptcommsReadbytes .buff b.buff 5
  if ok then
    let lba := ((buff.get 3).toUInt32 <<< 8) ||| (buff.get 4).toUInt32
    let compressed := ((buff.get 1).toUInt16 <<< 8) ||| (buff.get 2).toUInt16
    receiveBlock (buff.get 0) lba compressed { b with buff := buff }
  else return { b with buff := buff }

/-- `lptprotocol_task` once it has a command byte: -1 reads as 0xff and is ignored. -/
def dispatch (cmd : UInt8) (b : Bufs) : DevProg Bufs :=
  if cmd = lptsHello then hello b
  else if cmd = lptsQueryDisks then queryDisks b
  else if cmd = lptsQueryDiskCaps then queryDiskCaps b
  else if cmd = lptsReadBlock then readBlock b
  else if cmd = lptsWriteBlock then writeBlock b
  else return b

/-- `lptprotocol_task` (`lptprotocol.c:57-138`). -/
def lptprotocolTask (b : Bufs) : DevProg Bufs := do
  if ← lptcommsHasbyte then do
    let r ← lptcommsReadbyte
    dispatch (r.getD 0xff) b
  else return b

/-- The disk layer behind `disk.h`, on a state `ω`. -/
structure Disk (ω : Type) where
  getDrives : ω → UInt32
  getBlocks : ω → UInt8 → UInt32
  readSector : ω → UInt8 → UInt32 → Sector → (Int × Sector) × ω
  writeSector : ω → UInt8 → UInt32 → Sector → Int × ω

/-- Core 1: what is left of the present `lptprotocol_task`, and the disks. -/
structure Device (ω : Type) where
  prog : DevProg Bufs
  world : ω

variable {ω : Type}

/-- The loop of `lptcomms_core`: when the task returns, it is called again. -/
def Device.resume (prog : DevProg Bufs) (world : ω) : Device ω :=
  match prog with
  | .ret b => ⟨lptprotocolTask b, world⟩
  | p => ⟨p, world⟩

/-- Core 1 between two requests. -/
def Device.idle (b : Bufs) (world : ω) : Device ω := ⟨lptprotocolTask b, world⟩

/-- Core 1 as a server of the link. -/
def Device.act (disk : Disk ω) (d : Device ω) : ServerAct UInt8 (Device ω) :=
  match d.prog with
  | .ret b => .tau (Device.idle b d.world)
  | .op .hasbyte k => .poll (Device.resume (k true) d.world)
  | .op .readbyte k =>
      .recv (fun b => Device.resume (k (some b)) d.world) (Device.resume (k none) d.world)
  | .op (.writebyte b) k =>
      .send b (Device.resume (k true) d.world) (Device.resume (k false) d.world)
  | .op (.store _ _) k => .tau (Device.resume (k ()) d.world)
  | .op .getDrives k => .tau (Device.resume (k (disk.getDrives d.world)) d.world)
  | .op (.getBlocks n) k => .tau (Device.resume (k (disk.getBlocks d.world n)) d.world)
  | .op (.readSector n lbn buff) k =>
      .tau (Device.resume (k (disk.readSector d.world n lbn buff).1)
        (disk.readSector d.world n lbn buff).2)
  | .op (.writeSector n lbn buff) k =>
      .tau (Device.resume (k (disk.writeSector d.world n lbn buff).1)
        (disk.writeSector d.world n lbn buff).2)

end LptStore.Protocol
