import Mathlib.Data.List.Induction
import LptStore.Fs.Walk

/-!
# What the directory scan puts into the drive tables

A slot is a drive or the configuration file, and a directory entry that names one carries a start
cluster and a size. `process_dir_sector` enters those of a sector one after the other, so a slot holds
after the scan what the last entry naming it says, and what it held before if there is none.
-/

namespace LptStore.Fs

/-- What a directory entry can name: `DISKx.DAT` with `x` the `n`-th letter, or `CONFIG.BIN`. -/
inductive Slot where
  | disk (n : Int)
  | config
  deriving DecidableEq, Repr

/-- A directory entry that names a slot. -/
structure DriveEntry where
  slot : Slot
  cluster : UInt32
  size : UInt32
  deriving DecidableEq, Repr

/-- What the tables hold of a slot. -/
structure SlotRecord where
  lba : UInt32
  blocks : UInt32
  cluster : UInt32
  deriving DecidableEq, Repr

/-- What the scan records of an entry. -/
def DriveEntry.toRecord (g : Geometry) (e : DriveEntry) : SlotRecord :=
  ⟨getLba g e.cluster, e.size >>> 9, e.cluster⟩

/-- The entry at byte `i`, if it names a slot. -/
def driveEntry (buff : Sector) (i : Nat) : Option DriveEntry :=
  if buff.get (i + 11) ≠ 0x0f then
    if isDiskEntry buff i then
      some ⟨.disk (diskIndex buff i), entryCluster buff i, buff.le32 (i + 28)⟩
    else if isConfigEntry buff i then some ⟨.config, entryCluster buff i, buff.le32 (i + 28)⟩
    else none
  else none

/-- The entries of a directory sector that the scan enters. -/
def entriesAt (buff : Sector) : List Nat → List DriveEntry
  | [] => []
  | i :: is =>
      if buff.get i = 0x00 then []
      else if buff.get i = 0xe5 then entriesAt buff is
      else (driveEntry buff i).toList ++ entriesAt buff is

/-- The entries that the scan of a list of sectors enters. -/
def listed (m : Medium) (sectors : List UInt32) : List DriveEntry :=
  sectors.flatMap fun sector => entriesAt (m sector) dirOffsets

namespace DriveTables

/-- What the tables hold of a slot. -/
def slot (t : DriveTables) : Slot → SlotRecord
  | .disk n => ⟨t.diskLba n, t.diskBlocks n, t.diskCluster n⟩
  | .config => ⟨t.cfgLba, t.cfgBlocks, t.cfgCluster⟩

/-- Store a record in a slot. -/
def setSlot (t : DriveTables) : Slot → SlotRecord → DriveTables
  | .disk n, r =>
      { t with
        diskLba := Function.update t.diskLba n r.lba
        diskBlocks := Function.update t.diskBlocks n r.blocks
        diskCluster := Function.update t.diskCluster n r.cluster }
  | .config, r => { t with cfgLba := r.lba, cfgBlocks := r.blocks, cfgCluster := r.cluster }

@[simp] theorem setSlot_bitmap (t : DriveTables) (s : Slot) (r : SlotRecord) :
    (t.setSlot s r).diskBitmap = t.diskBitmap := by
  cases s <;> rfl

@[simp] theorem slot_setSlot (t : DriveTables) (s : Slot) (r : SlotRecord) :
    (t.setSlot s r).slot s = r := by
  cases s <;> simp [slot, setSlot]

theorem slot_setSlot_of_ne (t : DriveTables) {s s' : Slot} (r : SlotRecord) (h : s' ≠ s) :
    (t.setSlot s r).slot s' = t.slot s' := by
  cases s with
  | disk n =>
    cases s' with
    | disk k =>
      have hne : k ≠ n := fun heq => h (heq ▸ rfl)
      simp [slot, setSlot, hne]
    | config => rfl
  | config =>
    cases s' with
    | disk k => rfl
    | config => exact absurd rfl h

/-- Enter a directory entry. -/
def enter (g : Geometry) (t : DriveTables) (e : DriveEntry) : DriveTables :=
  t.setSlot e.slot (e.toRecord g)

end DriveTables

/-- A name cannot be both a drive's and the configuration file's. -/
theorem isConfigEntry_of_isDiskEntry {buff : Sector} {i : Nat} (h : isDiskEntry buff i = true) :
    isConfigEntry buff i = false := by
  unfold isDiskEntry at h
  unfold isConfigEntry
  simp only [Bool.and_eq_true, beq_iff_eq] at h
  have htake : buff.slice i 4 = (buff.slice i 11).take 4 := by
    unfold Sector.slice
    rw [List.take_take]
    rfl
  rw [Bool.and_eq_false_iff]
  left
  rw [beq_eq_false_iff_ne]
  intro hconfig
  rw [hconfig, h.1.1] at htake
  exact absurd htake (by decide)

theorem processDirEntry_eq (g : Geometry) (buff : Sector) (i : Nat) (t : DriveTables) :
    processDirEntry g buff i t = (driveEntry buff i).toList.foldl (DriveTables.enter g) t := by
  unfold processDirEntry driveEntry
  by_cases hlfn : buff.get (i + 11) ≠ 0x0f
  · rw [if_pos hlfn, if_pos hlfn]
    by_cases hdisk : isDiskEntry buff i = true
    · simp only [hdisk, isConfigEntry_of_isDiskEntry hdisk]
      rfl
    · by_cases hconfig : isConfigEntry buff i = true
      · simp only [hdisk, hconfig]
        rfl
      · simp only [hdisk, hconfig]
        rfl
  · rw [if_neg hlfn, if_neg hlfn]
    rfl

theorem processDirEntries_eq (g : Geometry) (buff : Sector) (is : List Nat) (t : DriveTables) :
    processDirEntries g buff is t = (entriesAt buff is).foldl (DriveTables.enter g) t := by
  induction is generalizing t with
  | nil => rfl
  | cons i is ih =>
    unfold processDirEntries entriesAt
    by_cases hend : buff.get i = 0x00
    · rw [if_pos hend, if_pos hend]
      rfl
    · rw [if_neg hend, if_neg hend]
      by_cases hfree : buff.get i = 0xe5
      · rw [if_pos hfree, if_pos hfree, ih]
      · rw [if_neg hfree, if_neg hfree, ih, processDirEntry_eq, List.foldl_append]

/-- The scan of a list of sectors enters what it lists. -/
theorem scan_eq (m : Medium) (g : Geometry) (sectors : List UInt32) (t : DriveTables) :
    sectors.foldl (fun t s => processDirEntries g (m s) dirOffsets t) t =
      (listed m sectors).foldl (DriveTables.enter g) t := by
  induction sectors generalizing t with
  | nil => rfl
  | cons s ss ih =>
    unfold listed
    rw [List.foldl_cons, ih, processDirEntries_eq, List.flatMap_cons, List.foldl_append]
    rfl

/-- The last entry that names a slot. -/
def lastEntry (s : Slot) (es : List DriveEntry) : Option DriveEntry :=
  es.reverse.find? fun e => e.slot == s

theorem lastEntry_mem {s : Slot} {es : List DriveEntry} {e : DriveEntry}
    (h : lastEntry s es = some e) : e ∈ es ∧ e.slot = s := by
  have hmem : e ∈ es.reverse := List.mem_of_find?_eq_some h
  have hslot : (e.slot == s) = true :=
    List.find?_some (p := fun e : DriveEntry => e.slot == s) h
  exact ⟨List.mem_reverse.mp hmem, beq_iff_eq.mp hslot⟩

theorem lastEntry_eq_none {s : Slot} {es : List DriveEntry} :
    lastEntry s es = none ↔ ∀ e ∈ es, e.slot ≠ s := by
  unfold lastEntry
  rw [List.find?_eq_none]
  simp

/-- A slot after the scan. -/
theorem slot_foldl_enter (g : Geometry) (es : List DriveEntry) (t : DriveTables) (s : Slot) :
    (es.foldl (DriveTables.enter g) t).slot s =
      ((lastEntry s es).map (DriveEntry.toRecord g)).getD (t.slot s) := by
  induction es using List.reverseRecOn with
  | nil => rfl
  | append_singleton es e ih =>
    unfold lastEntry at ih ⊢
    rw [List.foldl_append, List.reverse_append, List.reverse_singleton, List.singleton_append]
    by_cases hs : e.slot = s
    · subst hs
      rw [List.find?_cons_of_pos (by simp)]
      exact DriveTables.slot_setSlot _ _ _
    · rw [List.find?_cons_of_neg (by simpa using hs), ← ih]
      exact DriveTables.slot_setSlot_of_ne _ _ (Ne.symm hs)

theorem bitmap_foldl_enter (g : Geometry) (es : List DriveEntry) (t : DriveTables) :
    (es.foldl (DriveTables.enter g) t).diskBitmap = t.diskBitmap := by
  induction es generalizing t with
  | nil => rfl
  | cons e es ih =>
    rw [List.foldl_cons, ih]
    exact DriveTables.setSlot_bitmap _ _ _

end LptStore.Fs
