import Mathlib.Logic.Function.Basic
import LptStore.Lib.Prog
import LptStore.Sector

/-!
# The FAT32 reader and the drive tables, `fs/fat32.c`

`init_disk` reads the boot sector, scans the root directory for `DISKA.DAT` .. `DISKP.DAT` and
`CONFIG.BIN`, and keeps those whose clusters lie one after the other; `read_disk_sector` and
`write_disk_sector` then serve sector `s` of a drive at a base address plus `s`. The functions are
programs over `read_sector` and `write_sector`, whatever answers them. The `printf` calls and the
counters only they use are left out.

The `while` loops over a chain of clusters take a bound on their rounds; a program whose loop
has used it up stops at `outOfFuel`, which has no answer.
-/

namespace LptStore.Fs

open LptStore.Lib Function

/-- The buffer a `read_sector` call fills: `fat.rec`, or a buffer of 512 data bytes. -/
inductive Into where
  | fat
  | buff
  deriving DecidableEq, Repr

/-- The calls of `fat32.c` to the sector layer. `read_sector` is handed a buffer with its content and
leaves another in it. -/
inductive SectorOp where
  | read (into : Into) (sector : UInt32) (old : Sector)
  | write (sector : UInt32) (data : Sector)
  | outOfFuel

/-- What each call answers: the C return value, and the buffer after it. -/
@[reducible] def SectorResp : SectorOp → Type
  | .read _ _ _ => Int × Sector
  | .write _ _ => Int
  | .outOfFuel => Empty

/-- A program over the sector layer. -/
abbrev SectorProg := Prog SectorOp SectorResp

def readSector (into : Into) (sector : UInt32) (old : Sector) : SectorProg (Int × Sector) :=
  .op (.read into sector old) .ret

def writeSector (sector : UInt32) (data : Sector) : SectorProg Int := .op (.write sector data) .ret

def outOfFuel {α : Type} : SectorProg α := .op .outOfFuel fun e => e.elim

/-- `fat_t` (`fat32.h:4-7`): the cached FAT sector holds the entries of the 128 clusters from
`offset` on. -/
structure Fat where
  offset : UInt32
  record : Sector
  deriving DecidableEq

/-- `pfat32->fat.rec[i]`, a little-endian word. -/
def Fat.entry (fat : Fat) (i : UInt32) : UInt32 := fat.record.le32 (4 * i.toNat)

/-- What `read_fs_id` takes from the boot sector. -/
structure Geometry where
  sectorsPerCluster : UInt8
  reservedSectorCount : UInt16
  sectorsPerFAT : UInt32
  rootDirectoryFirstCluster : UInt32
  deriving DecidableEq, Repr

/-- `fat32_t` (`fat32.h:9-15`). -/
structure Fat32 extends Geometry where
  fat : Fat
  deriving DecidableEq

/-- `get_next_cluster` (`fat32.c:52-66`). The comparisons with `offset` are unsigned, the division is
that of a C `int`. -/
def getNextCluster (pfat32 : Fat32) (cluster : UInt32) : SectorProg (UInt32 × Fat32) :=
  if pfat32.fat.offset = 0xffffffff ∨ cluster < pfat32.fat.offset ∨
      cluster > pfat32.fat.offset + 127 then do
    let (_, record) ← readSector .fat
      ((cluster.toInt32 / 128).toUInt32 + pfat32.reservedSectorCount.toUInt32) pfat32.fat.record
    let fat : Fat := ⟨cluster &&& 0xffffff80, record⟩
    return (fat.entry (cluster &&& 0x7f), { pfat32 with fat })
  else return (pfat32.fat.entry (cluster &&& 0x7f), pfat32)

/-- `NR_DISKS` (`fat32.c:68`). -/
def NR_DISKS : Nat := 16

/-- `CFG_DISK` (`fat32.h:27`). -/
def CFG_DISK : UInt8 := 0xff

/-- `CONFIG_BLOCK` (`fat32.h:25`). -/
def CONFIG_BLOCK : UInt32 := 0x80000000

/-- The static variables of `fat32.c:70-78`. An index outside 0 .. 15 is a word before or behind its array,
of whichever variable the linker has placed there. Here each such word stands for itself: it is taken to
be none of the variables that `fat32.c` uses, which nothing in the source says. A directory with `DISKx`
names from A to P alone stores in none of them. -/
structure DriveTables where
  diskBitmap : UInt32
  diskCluster : Int → UInt32
  diskLba : Int → UInt32
  diskBlocks : Int → UInt32
  cfgLba : UInt32
  cfgBlocks : UInt32
  cfgCluster : UInt32

/-- The tables as the program starts. -/
def DriveTables.zero : DriveTables := ⟨0, fun _ => 0, fun _ => 0, fun _ => 0, 0, 0, 0⟩

/-- `get_lba` (`fat32.c:80-84`), modulo 2^32. -/
def getLba (g : Geometry) (cluster : UInt32) : UInt32 :=
  g.reservedSectorCount.toUInt32 + g.sectorsPerFAT * 2 +
    g.sectorsPerCluster.toUInt32 * (cluster - 2)

/-- The start cluster of the directory entry at byte `i`. -/
def entryCluster (buff : Sector) (i : Nat) : UInt32 :=
  (buff.le16 (i + 20)).toUInt32 <<< 16 ||| (buff.le16 (i + 26)).toUInt32

/-- `!memcmp(&buff[i], "DISK", 4) && !memcmp(&buff[i+5], "   DAT", 6) && (buff[i+11] & 0x20) == 0x20` -/
def isDiskEntry (buff : Sector) (i : Nat) : Bool :=
  buff.slice i 4 == [0x44, 0x49, 0x53, 0x4b] &&
    buff.slice (i + 5) 6 == [0x20, 0x20, 0x20, 0x44, 0x41, 0x54] &&
      buff.get (i + 11) &&& 0x20 == 0x20

/-- `!memcmp(&buff[i], "CONFIG  BIN", 11) && (buff[i+11] & 0x20) == 0x20` -/
def isConfigEntry (buff : Sector) (i : Nat) : Bool :=
  buff.slice i 11 == [0x43, 0x4f, 0x4e, 0x46, 0x49, 0x47, 0x20, 0x20, 0x42, 0x49, 0x4e] &&
    buff.get (i + 11) &&& 0x20 == 0x20

/-- The slot of a `DISKx.DAT` entry, `buff[i+4] - 'A'`. -/
def diskIndex (buff : Sector) (i : Nat) : Int := (buff.get (i + 4)).toNat - 65

/-- One entry of a directory sector that is neither free nor the end (`fat32.c:92-117`). -/
def processDirEntry (g : Geometry) (buff : Sector) (i : Nat) (t : DriveTables) : DriveTables :=
  if buff.get (i + 11) ≠ 0x0f then
    let cluster := entryCluster buff i
    let fileSize := buff.le32 (i + 28)
    let t :=
      if isDiskEntry buff i then
        let n := diskIndex buff i
        { t with
          diskLba := update t.diskLba n (getLba g cluster)
          diskBlocks := update t.diskBlocks n (fileSize >>> 9)
          diskCluster := update t.diskCluster n cluster }
      else t
    if isConfigEntry buff i then
      { t with cfgLba := getLba g cluster, cfgBlocks := fileSize >>> 9, cfgCluster := cluster }
    else t
  else t

/-- The loop of `process_dir_sector` over the entries at the given bytes. -/
def processDirEntries (g : Geometry) (buff : Sector) : List Nat → DriveTables → DriveTables
  | [], t => t
  | i :: is, t =>
      if buff.get i = 0x00 then t
      else if buff.get i = 0xe5 then processDirEntries g buff is t
      else processDirEntries g buff is (processDirEntry g buff i t)

/-- Where the entries of a directory sector start. -/
def dirOffsets : List Nat := (List.range 16).map (32 * ·)

/-- `process_dir_sector` (`fat32.c:87-119`). -/
def processDirSector (pfat32 : Fat32) (buff : Sector) (t : DriveTables) : DriveTables :=
  processDirEntries pfat32.toGeometry buff dirOffsets t

/-- The boot sector carries the signature (`fat32.c:124`). -/
def isSigned (buff : Sector) : Bool := buff.get 0x1fe == 0x55 && buff.get 0x1ff == 0xaa

/-- The fields of the boot sector (`fat32.c:125-128`). -/
def bootGeometry (buff : Sector) : Geometry where
  sectorsPerCluster := buff.get 0x0d
  reservedSectorCount := buff.le16 0x0e
  sectorsPerFAT := buff.le32 0x24
  rootDirectoryFirstCluster := buff.le32 0x2c

/-- `read_fs_id` (`fat32.c:121-133`); `buff` is the local array as it lies on the stack. -/
def readFsId (pfat32 : Fat32) (buff : Sector) : SectorProg (Int × Fat32) := do
  let (_, buff) ← readSector .buff 0 buff
  if isSigned buff then return (0, { pfat32 with toGeometry := bootGeometry buff })
  else return (1, pfat32)

/-- The loop condition of a walk along a chain. -/
def inChain (cluster : UInt32) : Prop := cluster < 0x0ffffff0 ∧ cluster > 0

instance (cluster : UInt32) : Decidable (inChain cluster) := inferInstanceAs (Decidable (_ ∧ _))

/-- The inner loop of `file_has_gaps` (`fat32.c:140-149`) over `k` sectors from `lba` on: `none` where
it returns 1, otherwise the new `last_lba`. -/
def gapInCluster : Nat → UInt32 → UInt32 → Option UInt32
  | 0, _, lastLba => some lastLba
  | k + 1, lba, lastLba =>
      if lastLba ≠ 0 ∧ lastLba + 1 ≠ lba then none else gapInCluster k (lba + 1) lba

/-- `file_has_gaps` (`fat32.c:135-153`). Its `buff` is never used. -/
def fileHasGaps : Nat → Fat32 → UInt32 → UInt32 → SectorProg (Int × Fat32)
  | 0, _, _, _ => outOfFuel
  | fuel + 1, pfat32, cluster, lastLba =>
      if inChain cluster then
        match gapInCluster pfat32.sectorsPerCluster.toNat (getLba pfat32.toGeometry cluster)
          lastLba with
        | none => return (1, pfat32)
        | some lastLba => do
            let (cluster, pfat32) ← getNextCluster pfat32 cluster
            fileHasGaps fuel pfat32 cluster lastLba
      else return (0, pfat32)

section ReadFile

variable {τ : Type} (callback : Fat32 → Sector → τ → τ)

/-- The inner loop of `read_file` (`fat32.c:159-164`) over `k` sectors from `lba` on. -/
def readCluster (pfat32 : Fat32) : Nat → UInt32 → Sector → τ → SectorProg (Sector × τ)
  | 0, _, buff, t => return (buff, t)
  | k + 1, lba, buff, t => do
      let (_, buff) ← readSector .buff lba buff
      readCluster pfat32 k (lba + 1) buff (callback pfat32 buff t)

/-- `read_file` (`fat32.c:155-167`); `t` are the static variables the callback works on. -/
def readFile : Nat → Fat32 → UInt32 → Sector → τ → SectorProg (Fat32 × τ)
  | 0, _, _, _, _ => outOfFuel
  | fuel + 1, pfat32, cluster, buff, t =>
      if inChain cluster then do
        let (buff, t) ← readCluster callback pfat32 pfat32.sectorsPerCluster.toNat
          (getLba pfat32.toGeometry cluster) buff t
        let (cluster, pfat32) ← getNextCluster pfat32 cluster
        readFile fuel pfat32 cluster buff t
      else return (pfat32, t)

end ReadFile

/-- `get_disks` (`fat32.c:173-175`). -/
def getDisks (t : DriveTables) : UInt32 := t.diskBitmap

/-- `get_disk_blocks` (`fat32.c:177-180`). -/
def getDiskBlocks (t : DriveTables) (disk : UInt8) : UInt32 :=
  if disk = CFG_DISK then t.cfgBlocks
  else if disk.toNat ≤ NR_DISKS ∧ t.diskLba disk.toNat ≠ 0 then t.diskBlocks disk.toNat else 0

/-- `read_disk_sector` (`fat32.c:182-193`); `sector < cfg_blocks` compares unsigned numbers. -/
def readDiskSector (t : DriveTables) (disk : UInt8) (sector : UInt32) (buff : Sector) :
    SectorProg (Int × Sector) :=
  if disk = CFG_DISK ∧ t.cfgLba > 0 ∧ sector < t.cfgBlocks then
    readSector .buff (t.cfgLba + sector) buff
  else if disk.toNat ≤ NR_DISKS ∧ t.diskLba disk.toNat > 0 ∧ sector < t.diskBlocks disk.toNat then
    readSector .buff (t.diskLba disk.toNat + sector) buff
  else return (-1, buff)

/-- `write_disk_sector` (`fat32.c:195-206`). -/
def writeDiskSector (t : DriveTables) (disk : UInt8) (sector : UInt32) (buff : Sector) :
    SectorProg Int :=
  if disk = CFG_DISK ∧ t.cfgLba > 0 ∧ sector < t.cfgBlocks then
    writeSector (t.cfgLba + sector) buff
  else if disk.toNat ≤ NR_DISKS ∧ t.diskLba disk.toNat > 0 ∧ sector < t.diskBlocks disk.toNat then
    writeSector (t.diskLba disk.toNat + sector) buff
  else return -1

/-- The local variables of `init_disk`, `read_fs_id` and `read_file` before they are written. -/
structure Stack where
  fat32 : Fat32
  fsIdBuff : Sector
  fileBuff : Sector

/-- One round of the loop over the drives (`fat32.c:230-241`). -/
def checkDisk (fuel : Nat) (i : Nat) (pfat32 : Fat32) (t : DriveTables) :
    SectorProg (Fat32 × DriveTables) :=
  if t.diskLba i ≠ 0 then do
    let (gaps, pfat32) ← fileHasGaps fuel pfat32 (t.diskCluster i) 0
    if gaps ≠ 0 then
      return (pfat32, { t with
        diskLba := update t.diskLba i 0
        diskCluster := update t.diskCluster i 0 })
    else return (pfat32, { t with diskBitmap := t.diskBitmap ||| 1 <<< UInt32.ofNat i })
  else return (pfat32, t)

/-- The loop over the drives (`fat32.c:229-242`). -/
def checkDisks (fuel : Nat) : List Nat → Fat32 → DriveTables → SectorProg (Fat32 × DriveTables)
  | [], pfat32, t => return (pfat32, t)
  | i :: is, pfat32, t => do
      let (pfat32, t) ← checkDisk fuel i pfat32 t
      checkDisks fuel is pfat32 t

/-- The check of the configuration file (`fat32.c:244-254`). -/
def checkConfig (fuel : Nat) (pfat32 : Fat32) (t : DriveTables) : SectorProg DriveTables :=
  if t.cfgCluster ≠ 0 then do
    let (gaps, _) ← fileHasGaps fuel pfat32 t.cfgCluster 0
    if gaps ≠ 0 then return { t with cfgCluster := 0 }
    else return { t with diskBitmap := t.diskBitmap ||| CONFIG_BLOCK }
  else return t

/-- `init_disk` (`fat32.c:209-271`). -/
def initDisk (fuel : Nat) (stack : Stack) (t : DriveTables) : SectorProg (Int × DriveTables) := do
  let t := { t with diskBitmap := 0 }
  let (bad, pfat32) ← readFsId stack.fat32 stack.fsIdBuff
  if bad ≠ 0 then return (1, t)
  else do
    let (pfat32, t) ← readFile processDirSector fuel pfat32 pfat32.rootDirectoryFirstCluster
      stack.fileBuff t
    let (pfat32, t) ← checkDisks fuel (List.range NR_DISKS) pfat32 t
    let t ← checkConfig fuel pfat32 t
    return (0, t)

end LptStore.Fs
