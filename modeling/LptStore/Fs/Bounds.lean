import LptStore.Lib.Trace
import LptStore.Fs.Fat32

/-!
# The indices into the drive tables

`process_dir_sector` computes an index from the fifth byte of a name, and the functions of the
external API take one from the wire. An index is written where some content does not survive; for
the reads, the three functions are written out with each access to a table an operation of its own.
-/

namespace LptStore.Fs

open LptStore.Lib Function

section Scan

/-- The three tables agree at an index. -/
def DriveTables.SameAt (t t' : DriveTables) (n : Int) : Prop :=
  t.diskLba n = t'.diskLba n ∧ t.diskBlocks n = t'.diskBlocks n ∧
    t.diskCluster n = t'.diskCluster n

theorem DriveTables.SameAt.trans {t t' t'' : DriveTables} {n : Int} (h : t.SameAt t' n)
    (h' : t'.SameAt t'' n) : t.SameAt t'' n :=
  ⟨h.1.trans h'.1, h.2.1.trans h'.2.1, h.2.2.trans h'.2.2⟩

/-- The index is written: some content of the tables there does not survive. -/
def WritesAt (f : DriveTables → DriveTables) (n : Int) : Prop := ∃ t, ¬ (f t).SameAt t n

/-- The entries that the loop of `process_dir_sector` comes to and that are not free. -/
def liveOffsets (buff : Sector) : List Nat → List Nat
  | [] => []
  | i :: is =>
      if buff.get i = 0x00 then []
      else if buff.get i = 0xe5 then liveOffsets buff is
      else i :: liveOffsets buff is

/-- The entry at byte `i` is taken for a drive. -/
def IsDrive (buff : Sector) (i : Nat) : Prop :=
  buff.get (i + 11) ≠ 0x0f ∧ isDiskEntry buff i = true

/-- The fifth byte of the name is one of 'A' to 'P'. -/
def DriveLetter (buff : Sector) (i : Nat) : Prop :=
  65 ≤ (buff.get (i + 4)).toNat ∧ (buff.get (i + 4)).toNat ≤ 80

theorem diskIndex_inRange {buff : Sector} {i : Nat} (h : DriveLetter buff i) :
    0 ≤ diskIndex buff i ∧ diskIndex buff i < 16 := by
  have hlo := h.1
  have hhi := h.2
  unfold diskIndex
  omega

theorem processDirEntries_live (g : Geometry) (buff : Sector) (is : List Nat) (t : DriveTables) :
    processDirEntries g buff is t =
      (liveOffsets buff is).foldl (fun t i => processDirEntry g buff i t) t := by
  induction is generalizing t with
  | nil => rfl
  | cons i is ih =>
    unfold processDirEntries liveOffsets
    split_ifs
    · rfl
    · exact ih t
    · rw [List.foldl_cons, ih]

/-- An entry writes no index but its own, and that only if it is a drive's. -/
theorem processDirEntry_sameAt (g : Geometry) {buff : Sector} {i : Nat} (t : DriveTables) {n : Int}
    (h : ¬ (IsDrive buff i ∧ diskIndex buff i = n)) : (processDirEntry g buff i t).SameAt t n := by
  unfold processDirEntry
  by_cases hlfn : buff.get (i + 11) ≠ 0x0f
  · rw [if_pos hlfn]
    by_cases hdisk : isDiskEntry buff i = true
    · have hne : n ≠ diskIndex buff i := fun heq => h ⟨⟨hlfn, hdisk⟩, heq.symm⟩
      simp only [hdisk, if_true]
      split_ifs <;> simp [DriveTables.SameAt, hne]
    · simp only [hdisk, Bool.false_eq_true, if_false]
      split_ifs
      · exact ⟨rfl, rfl, rfl⟩
      · exact ⟨rfl, rfl, rfl⟩
  · rw [if_neg hlfn]
    exact ⟨rfl, rfl, rfl⟩

/-- The entry of a drive writes its index. -/
theorem processDirEntry_writes (g : Geometry) {buff : Sector} {i : Nat} (h : IsDrive buff i) :
    WritesAt (processDirEntry g buff i) (diskIndex buff i) := by
  have hother : ∃ y : UInt32, getLba g (entryCluster buff i) ≠ y := by
    rcases Decidable.em (getLba g (entryCluster buff i) = 0) with hzero | hne
    · exact ⟨1, by rw [hzero]; decide⟩
    · exact ⟨0, hne⟩
  rcases hother with ⟨y, hy⟩
  refine ⟨{ DriveTables.zero with diskLba := fun _ => y }, fun hsame => hy ?_⟩
  have hlba := hsame.1
  unfold processDirEntry at hlba
  simp only [if_pos h.1, h.2, if_true] at hlba
  split_ifs at hlba
  · simpa using hlba
  · simpa using hlba

/-- `process_dir_sector` on the sectors of a directory, one after the other. -/
def scanSector (pfat32 : Fat32) (buffs : List Sector) (t : DriveTables) : DriveTables :=
  buffs.foldl (fun t buff => processDirSector pfat32 buff t) t

theorem foldl_sameAt {ι : Type} {f : DriveTables → ι → DriveTables} {is : List ι} {n : Int}
    (h : ∀ i ∈ is, ∀ t, (f t i).SameAt t n) (t : DriveTables) : (is.foldl f t).SameAt t n := by
  induction is generalizing t with
  | nil => exact ⟨rfl, rfl, rfl⟩
  | cons i is ih =>
    rcases List.forall_mem_cons.mp h with ⟨hi, his⟩
    exact (ih his (f t i)).trans (hi t)

/-- What the scan writes is the index of one of the drives it comes to. -/
theorem exists_drive_of_writes {pfat32 : Fat32} {buffs : List Sector} {n : Int}
    (h : WritesAt (scanSector pfat32 buffs) n) :
    ∃ buff ∈ buffs, ∃ i ∈ liveOffsets buff dirOffsets, IsDrive buff i ∧ diskIndex buff i = n := by
  by_contra hnone
  rcases h with ⟨t, ht⟩
  apply ht
  refine foldl_sameAt (fun buff hbuff t => ?_) t
  show (processDirEntries pfat32.toGeometry buff dirOffsets t).SameAt t n
  rw [processDirEntries_live]
  refine foldl_sameAt (fun i hi t => ?_) t
  exact processDirEntry_sameAt _ t fun hdrive => hnone ⟨buff, hbuff, i, hi, hdrive⟩

/-- Whatever the root directory holds, the scan writes no index outside 0 .. 15, and an entry whose
fifth byte is no drive letter writes none, exactly if every `DISKx.DAT` it comes to has one of the
letters A to P. -/
theorem scan_inBounds_iff (pfat32 : Fat32) (buffs : List Sector) :
    ((∀ n, WritesAt (scanSector pfat32 buffs) n → 0 ≤ n ∧ n ≤ 15) ∧
      ∀ buff ∈ buffs, ∀ i ∈ liveOffsets buff dirOffsets, ¬ DriveLetter buff i →
        ∀ t n, (processDirEntry pfat32.toGeometry buff i t).SameAt t n) ↔
    ∀ buff ∈ buffs, ∀ i ∈ liveOffsets buff dirOffsets, IsDrive buff i → DriveLetter buff i := by
  constructor
  · rintro ⟨-, hleaves⟩ buff hbuff i hi hdrive
    by_contra hletter
    rcases processDirEntry_writes pfat32.toGeometry hdrive with ⟨t, ht⟩
    exact ht (hleaves buff hbuff i hi hletter t _)
  · intro hnamed
    constructor
    · intro n hn
      rcases exists_drive_of_writes hn with ⟨buff, hbuff, i, hi, hdrive, rfl⟩
      have hrange := diskIndex_inRange (hnamed buff hbuff i hi hdrive)
      omega
    · intro buff hbuff i hi hletter t n
      exact processDirEntry_sameAt _ t fun hdrive => hletter (hnamed buff hbuff i hi hdrive.1)

/-- A root directory with the single file `DISK1.DAT`. -/
def digitDir : Sector :=
  Sector.zero.setFrom 0 [0x44, 0x49, 0x53, 0x4b, 0x31, 0x20, 0x20, 0x20, 0x44, 0x41, 0x54, 0x20]

/-- `DISK1.DAT` is entered at index -16. -/
theorem scan_outOfBounds :
    ¬ ∀ (pfat32 : Fat32) (buffs : List Sector),
      (∀ n, WritesAt (scanSector pfat32 buffs) n → 0 ≤ n ∧ n ≤ 15) ∧
      ∀ buff ∈ buffs, ∀ i ∈ liveOffsets buff dirOffsets, ¬ DriveLetter buff i →
        ∀ t n, (processDirEntry pfat32.toGeometry buff i t).SameAt t n := by
  intro h
  have hlive : 0 ∈ liveOffsets digitDir dirOffsets := by decide +kernel
  have hdrive : IsDrive digitDir 0 := by
    constructor
    · decide +kernel
    · decide +kernel
  have hdigit : ¬ DriveLetter digitDir 0 := by
    intro hletter
    exact absurd hletter.1 (by decide +kernel)
  rcases processDirEntry_writes ⟨0, 0, 0, 0⟩ hdrive with ⟨t, ht⟩
  exact ht ((h ⟨⟨0, 0, 0, 0⟩, ⟨0, .zero⟩⟩ [digitDir]).2 digitDir (List.mem_singleton.mpr rfl) 0
    hlive hdigit t _)

end Scan

section Lookup

/-- The accesses of the external API to the drive tables, and its calls to the sector layer. -/
inductive TableOp where
  | lba (n : Nat)
  | blocks (n : Nat)
  | read (sector : UInt32) (buff : Sector)
  | write (sector : UInt32) (buff : Sector)

@[reducible] def TableResp : TableOp → Type
  | .lba _ => UInt32
  | .blocks _ => UInt32
  | .read _ _ => Int × Sector
  | .write _ _ => Int

abbrev TableProg := Prog TableOp TableResp

def diskLba (n : Nat) : TableProg UInt32 := .op (.lba n) .ret

def diskBlocks (n : Nat) : TableProg UInt32 := .op (.blocks n) .ret

/-- The second condition of `read_disk_sector` and `write_disk_sector`, its operands read from left
to right until one is false; where it holds, the base address as the call reads it again. -/
def driveBase (disk : UInt8) (sector : UInt32) : TableProg (Option UInt32) := do
  if disk.toNat ≤ NR_DISKS then do
    if (← diskLba disk.toNat) > 0 then do
      if sector < (← diskBlocks disk.toNat) then do
        let lba ← diskLba disk.toNat
        return some lba
      else return none
    else return none
  else return none

/-- `get_disk_blocks` (`fat32.c:177-180`) with its accesses. -/
def getDiskBlocksOps (t : DriveTables) (disk : UInt8) : TableProg UInt32 := do
  if disk = CFG_DISK then return t.cfgBlocks
  else if disk.toNat ≤ NR_DISKS then do
    if (← diskLba disk.toNat) ≠ 0 then diskBlocks disk.toNat else return 0
  else return 0

/-- `read_disk_sector` (`fat32.c:182-193`) with its accesses. -/
def readDiskSectorOps (t : DriveTables) (disk : UInt8) (sector : UInt32) (buff : Sector) :
    TableProg (Int × Sector) := do
  if disk = CFG_DISK ∧ t.cfgLba > 0 ∧ sector < t.cfgBlocks then
    .op (.read (t.cfgLba + sector) buff) .ret
  else
    match ← driveBase disk sector with
    | some lba => .op (.read (lba + sector) buff) .ret
    | none => return (-1, buff)

/-- `write_disk_sector` (`fat32.c:195-206`) with its accesses. -/
def writeDiskSectorOps (t : DriveTables) (disk : UInt8) (sector : UInt32) (buff : Sector) :
    TableProg Int := do
  if disk = CFG_DISK ∧ t.cfgLba > 0 ∧ sector < t.cfgBlocks then
    .op (.write (t.cfgLba + sector) buff) .ret
  else
    match ← driveBase disk sector with
    | some lba => .op (.write (lba + sector) buff) .ret
    | none => return -1

/-- The accesses answered from the tables. -/
def fromTables (t : DriveTables) : ∀ o : TableOp, SectorProg (TableResp o)
  | .lba n => .ret (t.diskLba n)
  | .blocks n => .ret (t.diskBlocks n)
  | .read sector buff => readSector .buff sector buff
  | .write sector buff => writeSector sector buff

theorem driveBase_fromTables (t : DriveTables) (disk : UInt8) (sector : UInt32) :
    (driveBase disk sector).interp (fromTables t) =
      .ret (if disk.toNat ≤ NR_DISKS ∧ t.diskLba disk.toNat > 0 ∧
        sector < t.diskBlocks disk.toNat then some (t.diskLba disk.toNat) else none) := by
  unfold driveBase
  by_cases hdisk : disk.toNat ≤ NR_DISKS
  · by_cases hlba : t.diskLba disk.toNat > 0
    · by_cases hsector : sector < t.diskBlocks disk.toNat <;>
        simp [diskLba, diskBlocks, fromTables, hdisk, hlba, hsector]
    · simp [diskLba, fromTables, hdisk, hlba]
  · simp [hdisk]

/-- With its accesses answered from the tables, each function is the one of `fat32.c`. -/
theorem ops_fromTables (t : DriveTables) (disk : UInt8) (sector : UInt32) (buff : Sector) :
    (getDiskBlocksOps t disk).interp (fromTables t) = .ret (getDiskBlocks t disk) ∧
      (readDiskSectorOps t disk sector buff).interp (fromTables t) =
        readDiskSector t disk sector buff ∧
      (writeDiskSectorOps t disk sector buff).interp (fromTables t) =
        writeDiskSector t disk sector buff := by
  refine ⟨?_, ?_, ?_⟩
  · unfold getDiskBlocksOps getDiskBlocks
    by_cases hcfg : disk = CFG_DISK
    · simp [hcfg]
    · by_cases hdisk : disk.toNat ≤ NR_DISKS
      · by_cases hlba : t.diskLba disk.toNat = 0 <;>
          simp [diskLba, diskBlocks, fromTables, hcfg, hdisk, hlba]
      · simp [hcfg, hdisk]
  · unfold readDiskSectorOps readDiskSector
    split_ifs with hcfg hdisk
    · rfl
    · rw [Prog.bind_eq, Prog.interp_bind, driveBase_fromTables, if_pos hdisk]
      rfl
    · rw [Prog.bind_eq, Prog.interp_bind, driveBase_fromTables, if_neg hdisk]
      rfl
  · unfold writeDiskSectorOps writeDiskSector
    split_ifs with hcfg hdisk
    · rfl
    · rw [Prog.bind_eq, Prog.interp_bind, driveBase_fromTables, if_pos hdisk]
      rfl
    · rw [Prog.bind_eq, Prog.interp_bind, driveBase_fromTables, if_neg hdisk]
      rfl

/-- An access inside the drive tables. -/
def TableOp.Inside : TableOp → Prop
  | .lba n => n < 16
  | .blocks n => n < 16
  | .read _ _ => False
  | .write _ _ => False

section Refused

variable (t : DriveTables) (rd : UInt32 → Sector → Int × Sector) (wr : UInt32 → Sector → Int)

/-- The tables, and a sector layer that answers with `rd` and `wr`. -/
def tablesAnswer : ∀ o : TableOp, Unit → TableResp o × Unit
  | .lba n, u => (t.diskLba n, u)
  | .blocks n, u => (t.diskBlocks n, u)
  | .read sector buff, u => (rd sector buff, u)
  | .write sector buff, u => (wr sector buff, u)

/-- The program returns `r` with accesses inside the tables only. -/
def RefusesWith {α : Type} (p : TableProg α) (r : α) : Prop :=
  (p.record (tablesAnswer t rd wr) ()).2 = r ∧
    ∀ e ∈ (p.record (tablesAnswer t rd wr) ()).1, e.1.Inside

/-- A request for a drive is refused: no blocks, -1 for a transfer, and no access but to the tables. -/
def Refused (disk : UInt8) (sector : UInt32) (buff : Sector) : Prop :=
  RefusesWith t rd wr (getDiskBlocksOps t disk) 0 ∧
    RefusesWith t rd wr (readDiskSectorOps t disk sector buff) (-1, buff) ∧
    RefusesWith t rd wr (writeDiskSectorOps t disk sector buff) (-1)

theorem refusesWith_ret {α : Type} (r : α) : RefusesWith t rd wr (.ret r) r :=
  ⟨rfl, fun _ he => absurd he List.not_mem_nil⟩

/-- Requests for a drive that does not exist are refused, whatever the tables hold and whatever lies
behind them, exactly for the drive bytes other than 16. -/
theorem refused_iff {disk : UInt8} (hlo : 16 ≤ disk.toNat) (hhi : disk.toNat ≤ 254)
    (sector : UInt32) (buff : Sector) : Refused t rd wr disk sector buff ↔ disk ≠ 16 := by
  have hcfg : disk ≠ CFG_DISK := by
    rintro rfl
    exact absurd hhi (by decide)
  constructor
  · rintro ⟨⟨-, hinside⟩, -⟩ rfl
    -- the first access of `get_disk_blocks` is to `disk_lba[16]`
    have hfirst : (⟨.lba 16, t.diskLba 16⟩ : Issued TableOp TableResp) ∈
        ((getDiskBlocksOps t 16).record (tablesAnswer t rd wr) ()).1 := List.mem_cons_self
    exact absurd (hinside _ hfirst) (Nat.lt_irrefl 16)
  · intro hne
    have hdisk : ¬ disk.toNat ≤ NR_DISKS := by
      intro hle
      have heq : disk.toNat = 16 := Nat.le_antisymm hle hlo
      exact hne (UInt8.toNat_inj.mp heq)
    have hbase : driveBase disk sector = .ret none := if_neg hdisk
    refine ⟨?_, ?_, ?_⟩
    · unfold getDiskBlocksOps
      rw [if_neg hcfg, if_neg hdisk]
      exact refusesWith_ret t rd wr 0
    · unfold readDiskSectorOps
      rw [if_neg (fun h => hcfg h.1), hbase]
      exact refusesWith_ret t rd wr (-1, buff)
    · unfold writeDiskSectorOps
      rw [if_neg (fun h => hcfg h.1), hbase]
      exact refusesWith_ret t rd wr (-1)

end Refused

/-- Drive byte 17. -/
theorem refused_seventeen :
    Refused .zero (fun _ buff => (0, buff)) (fun _ _ => 0) 17 0 .zero :=
  (refused_iff .zero (fun _ buff => (0, buff)) (fun _ _ => 0) (by decide) (by decide) 0 .zero).mpr
    (by decide)

/-- Drive byte 16: what lies behind `disk_lba` is taken for a base address, and the sector is
written. -/
theorem drive_sixteen_written :
    ¬ ∀ (t : DriveTables) (rd : UInt32 → Sector → Int × Sector) (wr : UInt32 → Sector → Int)
      (disk : UInt8) (sector : UInt32) (buff : Sector), 16 ≤ disk.toNat → disk.toNat ≤ 254 →
      Refused t rd wr disk sector buff := by
  intro h
  have hrefused := h { DriveTables.zero with diskLba := fun _ => 1, diskBlocks := fun _ => 1 }
    (fun _ buff => (0, buff)) (fun _ _ => 0) 16 0 .zero (by decide) (by decide)
  exact absurd hrefused.2.2.1 (by decide +kernel)

end Lookup

end LptStore.Fs
