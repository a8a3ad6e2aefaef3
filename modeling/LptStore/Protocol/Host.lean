import LptStore.Lib.Prog
import LptStore.Lib.Link
import LptStore.Lib.Segment
import LptStore.Codec.RunLength

/-!
# The DOS side of the link, `dos/SDPP10/LPTSTORE.C`

`LPTRead` and `LPTWrite` talk to the device through `write_byte` and `read_byte`, which wait
without limit. `WORD` is 16 bits and so is the compiler's `int`. The caller's buffer is addressed through a
far pointer, whose offset is all that `buffer++` and `buffer += 512` move: a buffer that passes the end of
its segment goes on at the beginning of it.
-/

namespace LptStore

/-- The 512 bytes from `p` on. -/
def Lib.Cells.sector (mem : Lib.Cells UInt8) (p : Lib.FarPtr) : Sector := .ofFn fun i => mem (p.addr i)

end LptStore

namespace LptStore.Protocol

open LptStore.Lib

/-- `DRESULT` (`LPTSTORE.H:14-20`). -/
inductive DResult where
  | RES_OK
  | RES_ERROR
  | RES_WRPRT
  | RES_NOTRDY
  | RES_PARERR
  deriving DecidableEq, Repr

/-- The operations of `LPTRead` and `LPTWrite`. -/
inductive HostOp where
  | writeByte (b : UInt8)
  | readByte

@[reducible] def HostResp : HostOp → Type
  | .writeByte _ => Unit
  | .readByte => UInt8

abbrev HostProg := Prog HostOp HostResp

def writeByte (b : UInt8) : HostProg Unit := .op (.writeByte b) .ret

def readByte : HostProg UInt8 := .op .readByte .ret

/-- `for (i=0; i<n; i++) write_byte(w[i]);` -/
def writeBytes : List UInt8 → HostProg Unit
  | [] => return ()
  | b :: bs => do
      writeByte b
      writeBytes bs

/-- `n` bytes read in order. -/
def readBytes : Nat → HostProg (List UInt8)
  | 0 => return []
  | n + 1 => do
      let b ← readByte
      let bs ← readBytes n
      return b :: bs

/-- `c = read_byte() << 8; c |= read_byte();` as the bound of a loop: a negative 16-bit
`int` runs it no times. -/
def lengthField (hi lo : UInt8) : Nat :=
  let c := (hi.toUInt16 <<< 8) ||| lo.toUInt16
  if c < 0x8000 then c.toNat else 0

/-- What `LPTRead` reads after the status byte `result`. -/
def lptReadReply (result : UInt8) : HostProg (Option (List UInt8)) :=
  if result = 0x00 then do
    let bytes ← readBytes 512
    return some bytes
  else if result = 0x02 then do
    let hi ← readByte
    let lo ← readByte
    let bytes ← readBytes (lengthField hi lo)
    return some (Dos.lptDecompress bytes).2
  else return none

/-- One pass of `LPTRead`'s loop (`LPTSTORE.C:436-461`): the bytes stored from the buffer
pointer on, or no block. -/
def lptReadBlock (unit lbn : UInt16) : HostProg (Option (List UInt8)) := do
  writeByte 0x03
  writeByte unit.toUInt8
  writeByte 0x00
  writeByte 0x00
  writeByte (lbn >>> 8).toUInt8
  writeByte (lbn &&& 0xff).toUInt8
  let result ← readByte
  lptReadReply result

/-- The loop of `LPTRead` with `n` blocks to go. -/
def lptReadLoop (unit : UInt16) : Nat → UInt16 → FarPtr → Mem → HostProg (DResult × Mem)
  | 0, _, _, mem => return (.RES_OK, mem)
  | n + 1, lbn, buffer, mem => do
      match ← lptReadBlock unit lbn with
      | some bytes => lptReadLoop unit n (lbn + 1) (buffer.add 512) (mem.write buffer bytes)
      | none => return (.RES_ERROR, mem)

/-- `LPTRead` (`LPTSTORE.C:429-464`). -/
def lptRead (unit lbn : UInt16) (buffer : FarPtr) (count : UInt16) (mem : Mem) :
    HostProg (DResult × Mem) :=
  lptReadLoop unit count.toNat lbn buffer mem

/-- One pass of `LPTWrite`'s loop (`LPTSTORE.C:509-538`): the status byte. -/
def lptWriteBlock (unit lbn : UInt16) (data : Sector) : HostProg UInt8 := do
  writeByte 0x04
  writeByte unit.toUInt8
  let (c, out) := Dos.lptCompress data
  if c ≠ 0 then do
    writeByte (UInt8.ofNat (c >>> 8))
    writeByte (UInt8.ofNat (c &&& 0xff))
    writeByte (lbn >>> 8).toUInt8
    writeByte (lbn &&& 0xff).toUInt8
    writeBytes (out.take c)
    readByte
  else do
    writeByte 0x00
    writeByte 0x00
    writeByte (lbn >>> 8).toUInt8
    writeByte (lbn &&& 0xff).toUInt8
    writeBytes data.bytes
    readByte

/-- The loop of `LPTWrite` with `n` blocks to go. -/
def lptWriteLoop (unit : UInt16) : Nat → UInt16 → FarPtr → Mem → HostProg (DResult × Mem)
  | 0, _, _, mem => return (.RES_OK, mem)
  | n + 1, lbn, buffer, mem => do
      let result ← lptWriteBlock unit lbn (mem.sector buffer)
      if result = 0 then lptWriteLoop unit n (lbn + 1) (buffer.add 512) mem
      else return (.RES_ERROR, mem)

/-- `LPTWrite` (`LPTSTORE.C:503-541`); it does not change the caller's memory. -/
def lptWrite (unit lbn : UInt16) (buffer : FarPtr) (count : UInt16) (mem : Mem) :
    HostProg (DResult × Mem) :=
  lptWriteLoop unit count.toNat lbn buffer mem

/-- Which of the two functions is called. -/
inductive Direction where
  | read
  | write
  deriving DecidableEq, Repr

/-- A call of `LPTRead` or `LPTWrite`: its arguments and the memory it finds. -/
structure Call where
  direction : Direction
  unit : UInt16
  start : UInt16
  buffer : FarPtr
  count : UInt16
  mem : Mem

/-- The function called. -/
def Call.prog (c : Call) : HostProg (DResult × Mem) :=
  match c.direction with
  | .read => lptRead c.unit c.start c.buffer c.count c.mem
  | .write => lptWrite c.unit c.start c.buffer c.count c.mem

/-- The DOS side as a client of the link. -/
def hostAct {α : Type} (p : HostProg α) : ClientAct UInt8 (HostProg α) :=
  match p with
  | .ret _ => .done
  | .op (.writeByte b) k => .send b (k ())
  | .op .readByte k => .recv k

end LptStore.Protocol
