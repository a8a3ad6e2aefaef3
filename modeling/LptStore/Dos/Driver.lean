import LptStore.Lib.Run
import LptStore.Dos.Volume

/-!
# The requests of DOS, `dos/SDPP10/DRIVER.C`

`LPTDriver` answers a request header at a time. A unit's parameter block is filled by `drive_init`
before the first read or write of the unit, and handed out by `BuildBPB` as it stands.
-/

namespace LptStore.Dos

open LptStore.Lib LptStore.Protocol Function

/-- `NR_DRIVES` (`DRIVER.C:36`). -/
def NR_DRIVES : UInt8 := 16

section Commands

/-! The command codes (`DRIVER.H:25-45`). -/

def INITIALIZATION : UInt8 := 0
def MEDIA_CHECK : UInt8 := 1
def GET_BPB : UInt8 := 2
def INPUT : UInt8 := 4
def OUTPUT : UInt8 := 8
def OUTPUT_VERIFY : UInt8 := 9
def GENERIC_IOCTL : UInt8 := 19
def GET_LOGICAL : UInt8 := 23
def SET_LOGICAL : UInt8 := 24
def IOCTL_QUERY : UInt8 := 25

/-! The category of the IOCTL functions, and those that are known (`DRIVER.H:72-83`). -/

def DISK_DEVICE : UInt8 := 0x08
def SET_PARAMETERS : UInt8 := 0x40
def FORMAT_TRACK : UInt8 := 0x42
def SET_MEDIA_ID : UInt8 := 0x46
def GET_ACCESS : UInt8 := 0x47
def GET_PARAMETERS : UInt8 := 0x60
def SET_ACCESS : UInt8 := 0x67

/-! The bits and error codes of the status word (`DRIVER.H:48-65`). -/

def ERROR : UInt16 := 0x8000
def DONE : UInt16 := 0x0100
def WRITE_PROTECT : UInt16 := 0x00
def NOT_READY : UInt16 := 0x02
def UNKNOWN_COMMAND : UInt16 := 0x03
def CRC_ERROR : UInt16 := 0x04
def BAD_SECTOR : UInt16 := 0x08
def GENERAL_FAILURE : UInt16 := 0x0c

end Commands

/-- The fields of a request that the driver reads: `rh_t` and those behind it of the transfers and of the
generic IOCTL. -/
structure Request where
  unit : UInt8
  command : UInt8
  start : UInt16
  count : UInt16
  major : UInt8
  minor : UInt8

/-- `device_params_t` (`DRIVER.H:208-217`) without its `special` and `layout`, which stay as they are. -/
structure DeviceParams where
  formFactor : UInt8
  attributes : UInt16
  cylinders : UInt16
  mediaType : UInt8
  bpb : Bpb
  deriving DecidableEq, Repr

/-- What the driver stores for DOS beside the status. A parameter block is handed out by a pointer, here
its index. -/
inductive Result where
  | none
  | units (nunits : UInt8)
  | media (mediaStatus : UInt8)
  | bpb (i : Nat)
  | params (p : DeviceParams)
  | access (allowed : UInt8)
  deriving DecidableEq, Repr

/-- The status word and what else is stored. -/
structure Reply where
  status : UInt16
  result : Result
  deriving DecidableEq, Repr

/-- `force_init` (`DRIVER.C:65-70`). -/
def forceInit (d : Driver) : Driver :=
  { d with initNeeded := fun i => if i < NR_DRIVES.toNat then true else d.initNeeded i }

/-- `MediaCheck` (`DRIVER.C:110-115`); `LPTMediaCheck` always answers FALSE. -/
def mediaCheck : Reply := ⟨DONE, .media 0⟩

/-- `BuildBPB` (`DRIVER.C:123-129`). -/
def buildBpb (rh : Request) : Reply := ⟨DONE, .bpb rh.unit.toNat⟩

/-- `GetParameters` (`DRIVER.C:138-145`). The product is one of 16-bit words. -/
def getParameters (d : Driver) : DosProg DeviceParams :=
  let p := d.bpb 0
  if p.trackSize * p.headCount = 0 then .op .divideError fun e => e.elim
  else return {
    formFactor := 8
    attributes := 0
    mediaType := 0
    cylinders := p.totalSectors / (p.trackSize * p.headCount)
    bpb := p }

/-- `dos_error` (`DRIVER.C:158-170`). -/
def dosError (status : DResult) (d : Driver) : UInt16 × Driver :=
  match status with
  | .RES_OK => (0, d)
  | .RES_WRPRT => (WRITE_PROTECT, d)
  | .RES_NOTRDY => (NOT_READY, forceInit d)
  | .RES_ERROR => (BAD_SECTOR, forceInit d)
  | .RES_PARERR => (CRC_ERROR, d)

/-- `drive_init` (`DRIVER.C:180-190`): the status it sets where it returns FALSE. -/
def driveInit (rh : Request) (d : Driver) : DosProg (Option UInt16 × Driver) := do
  if d.initNeeded rh.unit.toNat then do
    let (found, d) ← lptInitialize rh.unit d.partitionNumber rh.unit.toNat d
    if found then
      return (none, { d with initNeeded := update d.initNeeded rh.unit.toNat false })
    else return (some (DONE ||| ERROR ||| GENERAL_FAILURE), d)
  else return (none, d)

/-- The status of a transfer (`DRIVER.C:207-214`). -/
def transferReply (status : DResult) (d : Driver) : Reply × Driver :=
  if status ≠ .RES_OK then
    let (code, d) := dosError status d
    (⟨DONE ||| ERROR ||| code, .none⟩, d)
  else (⟨DONE, .none⟩, d)

/-- `ReadBlock` and `WriteBlock` (`DRIVER.C:195-234`), which differ in the call they make. -/
def transfer (call : DosProg DResult) (rh : Request) (d : Driver) : DosProg (Reply × Driver) := do
  match ← driveInit rh d with
  | (some status, d) => return (⟨status, .none⟩, d)
  | (none, d) => do
      let status ← call
      return transferReply status d

def readBlock (rh : Request) (d : Driver) : DosProg (Reply × Driver) :=
  transfer (.op (.lptRead rh.unit.toUInt16 rh.start rh.count) .ret) rh d

def writeBlock (rh : Request) (d : Driver) : DosProg (Reply × Driver) :=
  transfer (.op (.lptWrite rh.unit.toUInt16 rh.start rh.count) .ret) rh d

/-- `GenericIOCTL` (`DRIVER.C:243-270`). -/
def genericIoctl (rh : Request) (d : Driver) : DosProg Reply := do
  if rh.major = DISK_DEVICE then
    if rh.minor = GET_PARAMETERS then do
      let p ← getParameters d
      return ⟨DONE, .params p⟩
    else if rh.minor = GET_ACCESS then return ⟨DONE, .access 1⟩
    else if rh.minor = SET_MEDIA_ID ∨ rh.minor = SET_ACCESS ∨ rh.minor = SET_PARAMETERS ∨
        rh.minor = FORMAT_TRACK then
      return ⟨DONE, .none⟩
    else return ⟨DONE ||| ERROR ||| UNKNOWN_COMMAND, .none⟩
  else return ⟨DONE ||| ERROR ||| UNKNOWN_COMMAND, .none⟩

/-- `IOCTLQuery` (`DRIVER.C:277-296`). -/
def ioctlQuery (rh : Request) : Reply :=
  if rh.major = DISK_DEVICE ∧ (rh.minor = GET_ACCESS ∨ rh.minor = SET_ACCESS ∨
      rh.minor = SET_MEDIA_ID ∨ rh.minor = GET_PARAMETERS ∨ rh.minor = SET_PARAMETERS ∨
      rh.minor = FORMAT_TRACK) then
    ⟨DONE, .none⟩
  else ⟨DONE ||| ERROR ||| UNKNOWN_COMMAND, .none⟩

/-- `Initialize` (`DRIVER.C:370-433`). The break address is left out. -/
def driverInitialize (rh : Request) (d : Driver) : DosProg (Reply × Driver) := do
  let d := forceInit d
  let parsed ← .op .parseOptions .ret
  if parsed then do
    .op .lptInit .ret
    let (found, d) ← lptInitialize rh.unit d.partitionNumber rh.unit.toNat d
    if found then return (⟨DONE, .units NR_DRIVES⟩, d) else return (⟨ERROR, .units 0⟩, d)
  else return (⟨ERROR, .units 0⟩, d)

/-- `LPTDriver` (`DRIVER.C:304-329`). -/
def lptDriver (rh : Request) (d : Driver) : DosProg (Reply × Driver) := do
  if rh.command = INITIALIZATION then driverInitialize rh d
  else if rh.command = MEDIA_CHECK then return (mediaCheck, d)
  else if rh.command = GET_BPB then return (buildBpb rh, d)
  else if rh.command = INPUT then readBlock rh d
  else if rh.command = OUTPUT ∨ rh.command = OUTPUT_VERIFY then writeBlock rh d
  else if rh.command = GENERIC_IOCTL then do
    let reply ← genericIoctl rh d
    return (reply, d)
  else if rh.command = IOCTL_QUERY then return (ioctlQuery rh, d)
  else if rh.command = GET_LOGICAL ∨ rh.command = SET_LOGICAL then return (⟨DONE, .none⟩, d)
  else return (⟨DONE ||| ERROR ||| UNKNOWN_COMMAND, .none⟩, d)

end LptStore.Dos
