import Mathlib.Data.List.TakeWhile
import LptStore.Fs.Volume
import LptStore.Fs.Termination
import LptStore.Fs.Forget

/-!
# Entries behind the end of the directory

A zero byte ends the directory, but only the scan of its own sector: `process_dir_sector` sees one
sector at a time and `read_file` goes on to the next. What the sectors behind still hold of older
files is entered after the directory, and replaces what that says.
-/

namespace LptStore.Fs

open LptStore.Lib

/-- Some entry of the sector is the end of the directory. -/
def hasEnd (buff : Sector) : Bool := dirOffsets.any fun i => buff.get i == 0x00

/-- The sectors behind the one with the end of the directory. -/
def staleSectors (m : Medium) : List UInt32 → List UInt32
  | [] => []
  | sector :: sectors => if hasEnd (m sector) then sectors else staleSectors m sectors

/-- The files that the scan finds in them. -/
def stale (m : Medium) (sectors : List UInt32) : List DriveEntry :=
  listed m (staleSectors m sectors)

/-- The record of a slot after some entries, from a record of zeros. -/
def recordOf (g : Geometry) (s : Slot) (es : List DriveEntry) : SlotRecord :=
  ((lastEntry s es).map (DriveEntry.toRecord g)).getD ⟨0, 0, 0⟩

/-- What lies behind the end of the directory says nothing about the slot, or what the directory
says. -/
def StaleAgrees (m : Medium) (g : Geometry) (sectors : List UInt32) (s : Slot) : Prop :=
  ∀ e, lastEntry s (stale m sectors) = some e →
    e.toRecord g = recordOf g s (directory m sectors)

section Directory

variable {m : Medium} {g : Geometry} {sectors : List UInt32} {s : Slot}

theorem takeWhile_beforeEnd (buff : Sector) (h : hasEnd buff = false) :
    (dirOffsets.map fun i => (buff, i)).takeWhile beforeEnd = dirOffsets.map fun i => (buff, i) := by
  rw [List.takeWhile_eq_self_iff]
  intro x hx
  rcases List.mem_map.mp hx with ⟨i, hi, rfl⟩
  have hne := List.any_eq_false.mp h i hi
  unfold beforeEnd
  simpa using hne

theorem takeWhile_hasEnd (buff : Sector) (h : hasEnd buff = true) :
    ((dirOffsets.map fun i => (buff, i)).takeWhile beforeEnd).length ≠ dirOffsets.length := by
  intro hlen
  have hall : (dirOffsets.map fun i => (buff, i)).takeWhile beforeEnd =
      dirOffsets.map fun i => (buff, i) := by
    apply List.IsPrefix.eq_of_length (List.takeWhile_prefix _)
    rw [hlen, List.length_map]
  rcases List.any_eq_true.mp h with ⟨i, hi, hzero⟩
  have hbefore := List.takeWhile_eq_self_iff.mp hall (buff, i) (List.mem_map.mpr ⟨i, hi, rfl⟩)
  unfold beforeEnd at hbefore
  simp only [beq_iff_eq] at hzero
  simp [hzero] at hbefore

/-- The scan enters the directory, and then what lies behind its end. -/
theorem listed_eq_append (m : Medium) (sectors : List UInt32) :
    listed m sectors = directory m sectors ++ stale m sectors := by
  induction sectors with
  | nil => rfl
  | cons sector sectors ih =>
    have hlisted : listed m (sector :: sectors) =
        entriesAt (m sector) dirOffsets ++ listed m sectors := List.flatMap_cons
    have hraw : rawEntries m (sector :: sectors) =
        (dirOffsets.map fun i => (m sector, i)) ++ rawEntries m sectors := List.flatMap_cons
    unfold directory stale staleSectors
    rw [hlisted, hraw, List.takeWhile_append, entriesAt_eq]
    by_cases hend : hasEnd (m sector) = true
    · have hlen := takeWhile_hasEnd (m sector) hend
      rw [if_pos hend, if_neg (by rw [List.length_map]; exact hlen)]
    · have hall := takeWhile_beforeEnd (m sector) (Bool.eq_false_iff.mpr hend)
      rw [if_neg hend, hall, if_pos rfl, List.filterMap_append, List.append_assoc, ih]
      rfl

theorem lastEntry_append (s : Slot) (es es' : List DriveEntry) :
    lastEntry s (es ++ es') = (lastEntry s es').or (lastEntry s es) := by
  unfold lastEntry
  rw [List.reverse_append, List.find?_append]

/-- A slot holds what the directory says exactly if what lies behind its end agrees. -/
theorem recordOf_listed_iff :
    recordOf g s (listed m sectors) = recordOf g s (directory m sectors) ↔
      StaleAgrees m g sectors s := by
  unfold StaleAgrees
  rw [listed_eq_append]
  conv_lhs => lhs; unfold recordOf
  rw [lastEntry_append]
  cases hlast : lastEntry s (stale m sectors) with
  | none => exact ⟨fun _ _ he => (nomatch he), fun _ => rfl⟩
  | some e =>
    constructor
    · intro heq e' he'
      cases he'
      exact heq
    · intro hagree
      exact hagree e rfl

/-- From zeroed tables and any stack, the scan of a root directory that ends leaves in every slot what
the directory says exactly if behind the end of the directory nothing else is said of a slot. The
directory lies in the sectors of the clusters followed, which are those of the medium's chain unless
the stack holds another FAT sector. -/
theorem scan_directory_iff (m : Medium) (stack : Stack) (k : Nat)
    (hend : EndsAt m (geometry m) (rootCursor m stack) k) :
    ∃ p u, Returns m (fun n => readFile processDirSector n ⟨geometry m, stack.fat32.fat⟩
        (geometry m).rootDirectoryFirstCluster stack.fileBuff .zero) (p, u) ∧
      ((∀ s, s.Checked → u.slot s = recordOf (geometry m) s (directory m
          (fileSectors (geometry m) (clustersBefore m (geometry m) (rootCursor m stack) k)))) ↔
        ∀ s, s.Checked → StaleAgrees m (geometry m)
          (fileSectors (geometry m) (clustersBefore m (geometry m) (rootCursor m stack) k)) s) ∧
      (stack.Coherent m → Chain (fatStep m (geometry m)) (geometry m).rootDirectoryFirstCluster
        (clustersBefore m (geometry m) (rootCursor m stack) k)) := by
  refine ⟨_, _, readRoot_returns (t := .zero) hend, ?_, clustersBefore_chain hend⟩
  refine forall_congr' fun s => imp_congr_right fun _ => ?_
  rw [← recordOf_listed_iff]
  unfold rootTables
  rw [slot_scanned]
  cases s <;> rfl

/-- A FAT in which cluster 3 follows cluster 2. -/
def twoFat : Sector := Sector.zero.setFrom 8 [0x03, 0x00, 0x00, 0x00, 0xff, 0xff, 0xff, 0x0f]

/-- A stick whose root directory is the clusters 2 and 3, with the given sectors. -/
def twoClusters (first second : Sector) : Medium := fun sector =>
  if sector = 0 then stickBoot
  else if sector = 1 ∨ sector = 2 then twoFat
  else if sector = 3 then first
  else if sector = 4 then second else .zero

theorem geometry_twoClusters (first second : Sector) :
    geometry (twoClusters first second) = ⟨1, 1, 1, 2⟩ := by
  show bootGeometry stickBoot = _
  decide +kernel

theorem twoClusters_root (first second : Sector) :
    EndsAt (twoClusters first second) (geometry (twoClusters first second))
        (rootCursor (twoClusters first second) invalidStack) 2 ∧
      clustersBefore (twoClusters first second) (geometry (twoClusters first second))
        (rootCursor (twoClusters first second) invalidStack) 2 = [2, 3] := by
  have hchain : Chain (fatStep (twoClusters first second) (geometry (twoClusters first second)))
      (rootCursor (twoClusters first second) invalidStack).cluster [2, 3] := by
    unfold rootCursor
    rw [geometry_twoClusters]
    have htwo : fatEntry (twoClusters first second) ⟨1, 1, 1, 2⟩ 2 = 3 := by
      show twoFat.le32 8 = 3
      decide +kernel
    have hthree : fatEntry (twoClusters first second) ⟨1, 1, 1, 2⟩ 3 = 0x0fffffff := by
      show twoFat.le32 12 = 0x0fffffff
      decide +kernel
    refine .step (b := 3) ?_ (.step (b := 0x0fffffff) ?_ (.stop (fatStep_end (by decide))))
    · rw [fatStep_inChain (by decide), htwo]
    · rw [fatStep_inChain (by decide), hthree]
  have hend : EndsAt (twoClusters first second) (geometry (twoClusters first second))
      (rootCursor (twoClusters first second) invalidStack) [(2 : UInt32), 3].length :=
    endsAt_of_chain (.inl rfl) hchain
  exact ⟨hend, (clustersBefore_chain hend (.inl rfl)).unique hchain⟩

/-- Its directory ends in the second sector: drive A is in the first. -/
theorem scan_directory_iff_ended : ∃ p u,
    Returns (twoClusters stickDir .zero)
      (fun n => readFile processDirSector n
        ⟨geometry (twoClusters stickDir .zero), invalidStack.fat32.fat⟩
        (geometry (twoClusters stickDir .zero)).rootDirectoryFirstCluster .zero .zero) (p, u) ∧
      u.slot (.disk 0) = ⟨4, 1, 3⟩ := by
  rcases twoClusters_root stickDir .zero with ⟨hend, hclusters⟩
  rcases scan_directory_iff (twoClusters stickDir .zero) invalidStack 2 hend with
    ⟨p, u, hreturns, hiff, -⟩
  rw [hclusters] at hiff
  have hnone : stale (twoClusters stickDir .zero)
      (fileSectors (geometry (twoClusters stickDir .zero)) [2, 3]) = [] := by
    decide +kernel
  refine ⟨p, u, hreturns, ?_⟩
  rw [hiff.mpr (fun s _ e he => by rw [hnone] at he; cases he) (.disk 0) ⟨by decide, by decide⟩]
  decide +kernel

/-- The directory is empty, and drive A is entered from the sector behind its end. -/
theorem stale_drive_entered : ¬ ∀ (m : Medium) (stack : Stack) (k : Nat),
    EndsAt m (geometry m) (rootCursor m stack) k → ∀ p u,
      Returns m (fun n => readFile processDirSector n ⟨geometry m, stack.fat32.fat⟩
        (geometry m).rootDirectoryFirstCluster stack.fileBuff .zero) (p, u) →
      ∀ s, s.Checked → u.slot s = recordOf (geometry m) s (directory m
        (fileSectors (geometry m) (clustersBefore m (geometry m) (rootCursor m stack) k))) := by
  intro h
  rcases twoClusters_root .zero stickDir with ⟨hend, hclusters⟩
  have hslot := h _ invalidStack 2 hend _ _ (readRoot_returns (t := .zero) hend) (.disk 0)
    ⟨by decide, by decide⟩
  unfold rootTables at hslot
  rw [slot_scanned, hclusters] at hslot
  revert hslot
  decide +kernel

end Directory

end LptStore.Fs
