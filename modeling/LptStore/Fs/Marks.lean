import LptStore.Lib.History
import LptStore.Fs.Directory

/-!
# `init_disk` with its lookups marked

Between the calls of the sector layer the program shows what it does with the FAT: `scan` where
`file_has_gaps` is called for a slot, and `found` where `get_next_cluster` returns. A mark does
nothing, and without the marks the program is `init_disk`.
-/

namespace LptStore.Fs

open LptStore.Lib

/-- A call of the sector layer or a mark. -/
inductive MountOp where
  | sector (o : SectorOp)
  | scan (s : Slot)
  | found (pfat32 : Fat32) (cluster entry : UInt32)

@[reducible] def MountResp : MountOp → Type
  | .sector o => SectorResp o
  | .scan _ => Unit
  | .found _ _ _ => Unit

abbrev MountProg := Prog MountOp MountResp

/-- A program without marks. -/
def unmarked {α : Type} (p : SectorProg α) : MountProg α := p.interp fun o => .op (.sector o) .ret

/-- Leave out the marks. -/
def MountOp.erase : ∀ o : MountOp, SectorProg (MountResp o)
  | .sector o => .op o .ret
  | .scan _ => .ret ()
  | .found _ _ _ => .ret ()

/-- `get_next_cluster`, and what it returns. -/
def getNextClusterMarked (pfat32 : Fat32) (cluster : UInt32) : MountProg (UInt32 × Fat32) := do
  let (entry, pfat32') ← unmarked (getNextCluster pfat32 cluster)
  .op (.found pfat32 cluster entry) fun _ => .ret (entry, pfat32')

/-- `file_has_gaps` (`fat32.c:135-153`). -/
def fileHasGapsMarked : Nat → Fat32 → UInt32 → UInt32 → MountProg (Int × Fat32)
  | 0, _, _, _ => unmarked outOfFuel
  | fuel + 1, pfat32, cluster, lastLba =>
      if inChain cluster then
        match gapInCluster pfat32.sectorsPerCluster.toNat (getLba pfat32.toGeometry cluster)
          lastLba with
        | none => return (1, pfat32)
        | some lastLba => do
            let (cluster, pfat32) ← getNextClusterMarked pfat32 cluster
            fileHasGapsMarked fuel pfat32 cluster lastLba
      else return (0, pfat32)

/-- `read_file` (`fat32.c:155-167`) on the root directory. -/
def readFileMarked : Nat → Fat32 → UInt32 → Sector → DriveTables → MountProg (Fat32 × DriveTables)
  | 0, _, _, _, _ => unmarked outOfFuel
  | fuel + 1, pfat32, cluster, buff, t =>
      if inChain cluster then do
        let (buff, t) ← unmarked (readCluster processDirSector pfat32 pfat32.sectorsPerCluster.toNat
          (getLba pfat32.toGeometry cluster) buff t)
        let (cluster, pfat32) ← getNextClusterMarked pfat32 cluster
        readFileMarked fuel pfat32 cluster buff t
      else return (pfat32, t)

/-- One round of the loop over the drives (`fat32.c:230-241`). -/
def checkDiskMarked (fuel : Nat) (i : Nat) (pfat32 : Fat32) (t : DriveTables) :
    MountProg (Fat32 × DriveTables) :=
  if t.diskLba i ≠ 0 then
    .op (.scan (.disk i)) fun _ => do
      let (gaps, pfat32) ← fileHasGapsMarked fuel pfat32 (t.diskCluster i) 0
      if gaps ≠ 0 then
        return (pfat32, { t with
          diskLba := Function.update t.diskLba i 0
          diskCluster := Function.update t.diskCluster i 0 })
      else return (pfat32, { t with diskBitmap := t.diskBitmap ||| 1 <<< UInt32.ofNat i })
  else return (pfat32, t)

/-- The loop over the drives (`fat32.c:229-242`). -/
def checkDisksMarked (fuel : Nat) : List Nat → Fat32 → DriveTables → MountProg (Fat32 × DriveTables)
  | [], pfat32, t => return (pfat32, t)
  | i :: is, pfat32, t => do
      let (pfat32, t) ← checkDiskMarked fuel i pfat32 t
      checkDisksMarked fuel is pfat32 t

/-- The check of the configuration file (`fat32.c:244-254`). -/
def checkConfigMarked (fuel : Nat) (pfat32 : Fat32) (t : DriveTables) : MountProg DriveTables :=
  if t.cfgCluster ≠ 0 then
    .op (.scan .config) fun _ => do
      let (gaps, _) ← fileHasGapsMarked fuel pfat32 t.cfgCluster 0
      if gaps ≠ 0 then return { t with cfgCluster := 0 }
      else return { t with diskBitmap := t.diskBitmap ||| CONFIG_BLOCK }
  else return t

/-- `init_disk` (`fat32.c:209-271`). -/
def initDiskMarked (fuel : Nat) (stack : Stack) (t : DriveTables) : MountProg (Int × DriveTables) := do
  let t := { t with diskBitmap := 0 }
  let (bad, pfat32) ← unmarked (readFsId stack.fat32 stack.fsIdBuff)
  if bad ≠ 0 then return (1, t)
  else do
    let (pfat32, t) ← readFileMarked fuel pfat32 pfat32.rootDirectoryFirstCluster stack.fileBuff t
    let (pfat32, t) ← checkDisksMarked fuel (List.range NR_DISKS) pfat32 t
    let t ← checkConfigMarked fuel pfat32 t
    return (0, t)

section Erase

theorem unmarked_erase {α : Type} (p : SectorProg α) : (unmarked p).interp MountOp.erase = p := by
  induction p with
  | ret a => rfl
  | op o k ih =>
    show Prog.op o (fun r => (unmarked (k r)).interp MountOp.erase) = _
    simp only [ih]

theorem getNextClusterMarked_erase (pfat32 : Fat32) (cluster : UInt32) :
    (getNextClusterMarked pfat32 cluster).interp MountOp.erase = getNextCluster pfat32 cluster := by
  unfold getNextClusterMarked
  rw [Prog.bind_eq, Prog.interp_bind, unmarked_erase]
  exact Prog.bind_ret _

theorem fileHasGapsMarked_erase (fuel : Nat) (pfat32 : Fat32) (cluster last : UInt32) :
    (fileHasGapsMarked fuel pfat32 cluster last).interp MountOp.erase =
      fileHasGaps fuel pfat32 cluster last := by
  induction fuel generalizing pfat32 cluster last with
  | zero => exact unmarked_erase _
  | succ fuel ih =>
    unfold fileHasGapsMarked fileHasGaps
    by_cases hc : inChain cluster
    · rw [if_pos hc, if_pos hc]
      cases gapInCluster pfat32.sectorsPerCluster.toNat (getLba pfat32.toGeometry cluster) last with
      | none => rfl
      | some last' =>
        simp only [Prog.bind_eq, Prog.interp_bind, getNextClusterMarked_erase, ih]
    · rw [if_neg hc, if_neg hc]
      rfl

theorem readFileMarked_erase (fuel : Nat) (pfat32 : Fat32) (cluster : UInt32) (buff : Sector)
    (t : DriveTables) : (readFileMarked fuel pfat32 cluster buff t).interp MountOp.erase =
      readFile processDirSector fuel pfat32 cluster buff t := by
  induction fuel generalizing pfat32 cluster buff t with
  | zero => exact unmarked_erase _
  | succ fuel ih =>
    unfold readFileMarked readFile
    by_cases hc : inChain cluster
    · rw [if_pos hc, if_pos hc]
      simp only [Prog.bind_eq, Prog.interp_bind, unmarked_erase, getNextClusterMarked_erase, ih]
    · rw [if_neg hc, if_neg hc]
      rfl

theorem checkDiskMarked_erase (fuel i : Nat) (pfat32 : Fat32) (t : DriveTables) :
    (checkDiskMarked fuel i pfat32 t).interp MountOp.erase = checkDisk fuel i pfat32 t := by
  unfold checkDiskMarked checkDisk
  by_cases hlba : t.diskLba i ≠ 0
  · rw [if_pos hlba, if_pos hlba]
    simp only [Prog.bind_eq, Prog.interp_op, MountOp.erase, Prog.ret_bind, Prog.interp_bind,
      fileHasGapsMarked_erase]
    refine congrArg _ (funext fun x => ?_)
    by_cases hgaps : x.1 ≠ 0
    · simp only [if_pos hgaps]
      rfl
    · simp only [if_neg hgaps]
      rfl
  · rw [if_neg hlba, if_neg hlba]
    rfl

theorem checkDisksMarked_erase (fuel : Nat) (is : List Nat) (pfat32 : Fat32) (t : DriveTables) :
    (checkDisksMarked fuel is pfat32 t).interp MountOp.erase = checkDisks fuel is pfat32 t := by
  induction is generalizing pfat32 t with
  | nil => rfl
  | cons i is ih =>
    unfold checkDisksMarked checkDisks
    simp only [Prog.bind_eq, Prog.interp_bind, checkDiskMarked_erase, ih]

theorem checkConfigMarked_erase (fuel : Nat) (pfat32 : Fat32) (t : DriveTables) :
    (checkConfigMarked fuel pfat32 t).interp MountOp.erase = checkConfig fuel pfat32 t := by
  unfold checkConfigMarked checkConfig
  by_cases hcluster : t.cfgCluster ≠ 0
  · rw [if_pos hcluster, if_pos hcluster]
    simp only [Prog.bind_eq, Prog.interp_op, MountOp.erase, Prog.ret_bind, Prog.interp_bind,
      fileHasGapsMarked_erase]
    refine congrArg _ (funext fun x => ?_)
    by_cases hgaps : x.1 ≠ 0
    · simp only [if_pos hgaps]
      rfl
    · simp only [if_neg hgaps]
      rfl
  · rw [if_neg hcluster, if_neg hcluster]
    rfl

/-- Without the marks the program is `init_disk`. -/
theorem initDiskMarked_erase (fuel : Nat) (stack : Stack) (t : DriveTables) :
    (initDiskMarked fuel stack t).interp MountOp.erase = initDisk fuel stack t := by
  unfold initDiskMarked initDisk
  simp only [Prog.bind_eq, Prog.interp_bind, unmarked_erase]
  refine congrArg _ (funext fun x => ?_)
  by_cases hbad : x.1 ≠ 0
  · simp only [if_pos hbad]
    rfl
  · simp only [if_neg hbad, Prog.interp_bind, readFileMarked_erase, checkDisksMarked_erase,
      checkConfigMarked_erase]
    rfl

end Erase

end LptStore.Fs
