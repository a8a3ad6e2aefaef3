import LptStore.Lib.Prog
import LptStore.Sector

/-!
# The USB sector layer, `pico/msc_app.c`

`read_sector` and `write_sector` run on core 1 and start USB transfers; TinyUSB runs
`msc_fat_complete_cb` on core 0 when a transfer completes. What the two share are the
static variables of `msc_app.c:36-42`. The functions are programs whose operations are the
accesses to those variables and the TinyUSB calls, one operation for each access of the C
text, so that a semantics can decide when a completion falls between them.

A sector number is the 32-bit pattern of the C `int`: the code only compares it for
equality, adds one to it and passes it to TinyUSB as the `uint32_t` LBA.
-/

namespace LptStore.Msc

open LptStore.Lib

/-- The static variables of `msc_app.c` that hold a truth value. -/
inductive Flag where
  | complete
  | result
  | usbDiskInserted
  | usbDiskInsertEvent
  | prefetchingComplete
  deriving DecidableEq, Repr

/-- Where a read transfer puts its data: the caller's buffer or `prefetching_buff`. -/
inductive Dst where
  | buff
  | prefetchingBuff
  deriving DecidableEq, Repr

/-- The operations of `read_sector` and `write_sector`. -/
inductive MscOp where
  | load (f : Flag)
  | store (f : Flag) (v : Bool)
  /-- `while (!f) tight_loop_contents();` -/
  | spin (f : Flag)
  | loadLba
  | storeLba (sector : UInt32)
  /-- `memcpy(buff, prefetching_buff, 512)` -/
  | copyPrefetch
  /-- `tuh_msc_read10`; the answer says whether TinyUSB accepted the transfer. -/
  | read10 (dst : Dst) (sector : UInt32)
  | write10 (sector : UInt32) (data : Sector)

/-- What each operation answers. -/
@[reducible] def MscResp : MscOp → Type
  | .load _ => Bool
  | .loadLba => UInt32
  | .read10 _ _ => Bool
  | .write10 _ _ => Bool
  | _ => Unit

/-- A program of core 1. -/
abbrev MscProg := Prog MscOp MscResp

def load (f : Flag) : MscProg Bool := .op (MscOp.load f) .ret

def store (f : Flag) (v : Bool) : MscProg Unit := .op (MscOp.store f v) .ret

def spin (f : Flag) : MscProg Unit := .op (MscOp.spin f) .ret

def loadLba : MscProg UInt32 := .op MscOp.loadLba .ret

def storeLba (sector : UInt32) : MscProg Unit := .op (MscOp.storeLba sector) .ret

def copyPrefetch : MscProg Unit := .op MscOp.copyPrefetch .ret

def tuhMscRead10 (dst : Dst) (sector : UInt32) : MscProg Bool := .op (MscOp.read10 dst sector) .ret

def tuhMscWrite10 (sector : UInt32) (data : Sector) : MscProg Bool :=
  .op (MscOp.write10 sector data) .ret

/-- `return result`: the C variable is 0 or 1. -/
def returnResult : MscProg Int := do
  let failed ← load .result
  return if failed then 1 else 0

/-- The end of `read_sector` (`msc_app.c:75-80`): start the prefetch of the next sector. -/
def startPrefetch (sector : UInt32) : MscProg Int := do
  storeLba (sector + 1)
  store .prefetchingComplete false
  let accepted ← tuhMscRead10 .prefetchingBuff (sector + 1)
  if accepted then returnResult else return 1

/-- The direct transfer of `read_sector` (`msc_app.c:65-72`), then the prefetch. -/
def readDirect (sector : UInt32) : MscProg Int := do
  store .complete false
  let accepted ← tuhMscRead10 .buff sector
  if accepted then do
    spin .complete
    startPrefetch sector
  else return 1

/-- `read_sector` (`msc_app.c:55-81`). -/
def readSector (sector : UInt32) : MscProg Int := do
  let inserted ← load .usbDiskInserted
  if inserted then do
    spin .prefetchingComplete
    let lba ← loadLba
    if lba = sector then do
      -- the second operand of `&&` is only read when the tag matches
      let failed ← load .result
      if failed then readDirect sector
      else do
        copyPrefetch
        startPrefetch sector
    else readDirect sector
  else return 1

/-- `write_sector` (`msc_app.c:83-92`). -/
def writeSector (sector : UInt32) (data : Sector) : MscProg Int := do
  let inserted ← load .usbDiskInserted
  if inserted then do
    store .complete false
    let accepted ← tuhMscWrite10 sector data
    if accepted then do
      spin .complete
      returnResult
    else return 1
  else return 1

/-- `msc_fat_complete_cb` (`msc_app.c:44-51`), for a transfer that passed or failed. -/
def mscFatCompleteCb (passed : Bool) (flags : Flag → Bool) : Flag → Bool
  | .complete => true
  | .prefetchingComplete => true
  | .result => !passed
  | f => flags f

/-- `inquiry_complete_cb` (`msc_app.c:126-147`), for an inquiry that passed or failed. -/
def inquiryCompleteCb (passed : Bool) (flags : Flag → Bool) : Flag → Bool
  | .usbDiskInsertEvent => passed || flags .usbDiskInsertEvent
  | f => flags f

/-- `tuh_msc_mount_cb` (`msc_app.c:168-174`), which also starts the inquiry. -/
def tuhMscMountCb (flags : Flag → Bool) : Flag → Bool
  | .usbDiskInserted => true
  | f => flags f

/-- `tuh_msc_umount_cb` (`msc_app.c:176-181`). -/
def tuhMscUmountCb (flags : Flag → Bool) : Flag → Bool
  | .usbDiskInserted => false
  | f => flags f

/-- The initial values of the flags (`msc_app.c:36-42`). -/
def initialFlags : Flag → Bool
  | .complete => true
  | .prefetchingComplete => true
  | _ => false

end LptStore.Msc
