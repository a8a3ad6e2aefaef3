import LptStore.Lib.Trace
import LptStore.Fs.Length

/-!
# The layout of the volume

The boot sector gives the size of a sector and the number of FATs. `read_fs_id` parses neither, and
`get_lba` counts sectors of 512 bytes and two FATs. So the addresses it computes are those of the
volume for two FATs and 512 bytes, and otherwise only by coincidence.
-/

namespace LptStore.Fs

open LptStore.Lib

/-- The bytes per sector of the volume. -/
def bytesPerSector (m : Medium) : Nat := ((m 0).le16 0x0b).toNat

/-- The number of FATs of the volume. -/
def numberOfFats (m : Medium) : Nat := ((m 0).get 0x10).toNat

/-- The sector of the volume that a cluster starts at. -/
def volumeSector (m : Medium) (cluster : UInt32) : Nat :=
  (geometry m).reservedSectorCount.toNat + numberOfFats m * (geometry m).sectorsPerFAT.toNat +
    (geometry m).sectorsPerCluster.toNat * (cluster.toNat - 2)

/-- A cluster of the volume whose address in sectors of 512 bytes has 32 bits. -/
def Addressable (m : Medium) (cluster : UInt32) : Prop :=
  2 ≤ cluster.toNat ∧ bytesPerSector m * volumeSector m cluster < 512 * 2 ^ 32

/-- The LBA, in sectors of 512 bytes, is the place of the cluster on the volume. -/
def InPlace (m : Medium) (cluster lba : UInt32) : Prop :=
  512 * lba.toNat = bytesPerSector m * volumeSector m cluster

/-- With sectors of 512 bytes: the volume has two FATs, or none with any sector. Otherwise the place
of the cluster comes to the same by two FATs and 512 bytes. -/
def LayoutAgrees (m : Medium) (cluster : UInt32) : Prop :=
  if bytesPerSector m = 512 then numberOfFats m = 2 ∨ (geometry m).sectorsPerFAT.toNat = 0
  else bytesPerSector m * volumeSector m cluster =
    512 * (clusterBase (geometry m) cluster % 2 ^ 32)

section Addresses

variable {m : Medium} {cluster : UInt32}

theorem toNat_getLba_mod (g : Geometry) (h : 2 ≤ cluster.toNat) :
    (getLba g cluster).toNat = clusterBase g cluster % 2 ^ 32 := by
  have hsub : (cluster - 2).toNat = cluster.toNat - 2 := by
    rw [UInt32.toNat_sub_of_le]
    · rfl
    · exact h
  unfold getLba clusterBase
  simp only [UInt32.toNat_add, UInt32.toNat_mul, hsub, UInt16.toNat_toUInt32, UInt8.toNat_toUInt32,
    UInt32.reduceToNat]
  omega

/-- The address computed is the cluster's place exactly if the layout agrees. -/
theorem inPlace_iff (hfats : 1 ≤ numberOfFats m) (h : Addressable m cluster) :
    InPlace m cluster (getLba (geometry m) cluster) ↔ LayoutAgrees m cluster := by
  rcases h with ⟨htwo, hfits⟩
  unfold InPlace LayoutAgrees
  rw [toNat_getLba_mod _ htwo]
  by_cases hbytes : bytesPerSector m = 512
  · rw [if_pos hbytes]
    rw [hbytes] at hfits ⊢
    unfold volumeSector at hfits ⊢
    unfold clusterBase
    generalize (geometry m).sectorsPerCluster.toNat * (cluster.toNat - 2) = offset at hfits ⊢
    generalize (geometry m).reservedSectorCount.toNat = reserved at hfits ⊢
    have hlt := (geometry m).sectorsPerFAT.toNat_lt
    generalize (geometry m).sectorsPerFAT.toNat = spf at hfits hlt ⊢
    generalize numberOfFats m = fats at hfats hfits ⊢
    rcases Nat.lt_trichotomy fats 2 with hone | htwo | hmore
    · have hone : fats = 1 := by omega
      subst hone
      omega
    · subst htwo
      omega
    · rcases Nat.exists_eq_add_of_lt hmore with ⟨k, rfl⟩
      rw [Nat.add_assoc 2, Nat.add_mul] at hfits ⊢
      have hzero : (k + 1) * spf = 0 ↔ spf = 0 := by
        rw [Nat.mul_eq_zero]
        omega
      have hle : spf = 0 ∨ 0 < (k + 1) * spf := by
        rcases Nat.eq_zero_or_pos spf with hspf | hspf
        · exact .inl hspf
        · exact .inr (Nat.mul_pos (Nat.succ_pos k) hspf)
      omega
  · rw [if_neg hbytes, eq_comm]

end Addresses

section Reads

variable {m : Medium} {g : Geometry}

/-- The calls to the sector layer that a lookup in the FAT makes. -/
def SectorOp.FatOnly : SectorOp → Prop
  | .read .fat _ _ => True
  | .outOfFuel => True
  | _ => False

theorem dataReads_of_fatOnly {α : Type} {p : SectorProg α} {a : α} {l : List Touch}
    (h : Reads m p a l) (hp : p.Only SectorOp.FatOnly) : dataReads l = [] := by
  induction p generalizing l with
  | ret b =>
    have hrun := h []
    simp only [Prog.exec, List.nil_append, Option.some.injEq, Prod.mk.injEq, Bench.mk.injEq] at hrun
    rw [← hrun.2.2]
    rfl
  | op o k ih =>
    cases o with
    | write _ _ => exact hp.1.elim
    | outOfFuel => cases h []
    | read into sector old =>
      cases into with
      | buff => exact hp.1.elim
      | fat =>
        have hop : Reads m ((readSector .fat sector old).bind k) a l := h
        rcases hop.of_bind (.readSector _ _ _) with ⟨l₂, hrest, rfl⟩
        rw [dataReads_append, ih _ hrest (hp.2 _)]
        rfl

theorem getNextCluster_fatOnly (pfat32 : Fat32) (cluster : UInt32) :
    (getNextCluster pfat32 cluster).Only SectorOp.FatOnly := by
  unfold getNextCluster
  split_ifs
  · exact ⟨trivial, fun _ => trivial⟩
  · trivial

theorem fileHasGaps_fatOnly (fuel : Nat) (pfat32 : Fat32) (cluster last : UInt32) :
    (fileHasGaps fuel pfat32 cluster last).Only SectorOp.FatOnly := by
  induction fuel generalizing pfat32 cluster last with
  | zero => exact ⟨trivial, fun e => e.elim⟩
  | succ fuel ih =>
    unfold fileHasGaps
    split_ifs
    · split
      · trivial
      · exact (getNextCluster_fatOnly _ _).bind fun _ => ih _ _ _
    · trivial

theorem checkDisks_fatOnly (fuel : Nat) (is : List Nat) (pfat32 : Fat32) (t : DriveTables) :
    (checkDisks fuel is pfat32 t).Only SectorOp.FatOnly := by
  induction is generalizing pfat32 t with
  | nil => trivial
  | cons i is ih =>
    refine Prog.Only.bind ?_ fun _ => ih _ _
    unfold checkDisk
    split_ifs
    · refine (fileHasGaps_fatOnly _ _ _ _).bind fun ⟨gaps, pfat32⟩ => ?_
      by_cases hgaps : gaps ≠ 0
      · simp only [if_pos hgaps]
        trivial
      · simp only [if_neg hgaps]
        trivial
    · trivial

theorem checkConfig_fatOnly (fuel : Nat) (pfat32 : Fat32) (t : DriveTables) :
    (checkConfig fuel pfat32 t).Only SectorOp.FatOnly := by
  unfold checkConfig
  split_ifs
  · refine (fileHasGaps_fatOnly _ _ _ _).bind fun ⟨gaps, pfat32⟩ => ?_
    by_cases hgaps : gaps ≠ 0
    · simp only [if_pos hgaps]
      trivial
    · simp only [if_neg hgaps]
      trivial
  · trivial

/-- The walk over a directory reads the sectors of the clusters it comes to. -/
theorem dataReads_readFile {n k : Nat} {s : Cursor} {buff : Sector} {t : DriveTables}
    {a : Fat32 × DriveTables} {l : List Touch} (hend : EndsAt m g s k)
    (h : Reads m (readFile processDirSector n ⟨g, s.fat⟩ s.cluster buff t) a l) :
    dataReads l = fileSectors g (clustersBefore m g s k) := by
  induction n generalizing s k buff t l with
  | zero => cases h []
  | succ n ih =>
    unfold readFile at h
    cases k with
    | zero =>
      have hc : ¬ inChain s.cluster := hend.1
      rw [if_neg hc] at h
      rw [((Reads.ret _).unique h).2.symm]
      rfl
    | succ k =>
      have hc : inChain s.cluster := hend.2 0 (Nat.succ_pos k)
      rw [if_pos hc] at h
      rcases readCluster_reads (fun g buff t => processDirEntries g buff dirOffsets t) ⟨g, s.fat⟩
        g.sectorsPerCluster.toNat (getLba g s.cluster) buff t (m := m) with ⟨buff', l₁, hread, hl₁⟩
      rcases s.getNextCluster_reads m g with ⟨l₂, hnext⟩
      rcases h.of_bind hread with ⟨l', hafter, rfl⟩
      rcases hafter.of_bind hnext with ⟨l₃, htail, rfl⟩
      have hl₂ := dataReads_of_fatOnly hnext (getNextCluster_fatOnly _ _)
      have hl₃ := ih (s := s.next m g)
        ⟨hend.1, fun j hj => hend.2 (j + 1) (Nat.succ_lt_succ hj)⟩ htail
      rw [dataReads_append, dataReads_append, hl₁, hl₂, hl₃, clustersBefore_succ]
      rfl

/-- The data sectors that `init_disk` reads are the boot sector and the root directory. -/
theorem dataReads_initDisk {fuel k : Nat} {stack : Stack} {t : DriveTables} {r : Int × DriveTables}
    {l : List Touch} (hsigned : isSigned (m 0) = true)
    (hend : EndsAt m (geometry m) (rootCursor m stack) k) (h : Reads m (initDisk fuel stack t) r l) :
    dataReads l = 0 :: fileSectors (geometry m)
      (clustersBefore m (geometry m) (rootCursor m stack) k) := by
  have hid := readFsId_reads (m := m) stack.fat32 stack.fsIdBuff
  rw [if_pos hsigned] at hid
  rcases Reads.of_bind h hid with ⟨l₁, hafter, rfl⟩
  rcases (readRoot_returns (t := t) hend).stuckOr fuel with hstuck | ⟨l₂, hroot⟩
  · have hnone := hstuck.bind (fun x =>
      (checkDisks fuel (List.range NR_DISKS) x.1 x.2).bind fun y =>
        (checkConfig fuel y.1 y.2).bind fun t => .ret ((0 : Int), t)) []
    rw [← Option.not_isSome_iff_eq_none] at hnone
    exact absurd (Option.isSome_iff_exists.mpr ⟨_, hafter []⟩) hnone
  · rcases Reads.of_bind hafter hroot with ⟨l₃, hchecks, rfl⟩
    have hrest : dataReads l₃ = [] := by
      refine dataReads_of_fatOnly hchecks ((checkDisks_fatOnly _ _ _ _).bind fun y => ?_)
      exact (checkConfig_fatOnly _ y.1 y.2).bind fun _ => trivial
    rw [dataReads_append, dataReads_append, dataReads_readFile hend hroot, hrest, List.append_nil]
    rfl

end Reads

/-- Every LBA that the walk over `clusters` reads first, and every base recorded of the files that it
finds there, is in place. -/
def UsesLayout (m : Medium) (clusters : List UInt32) (u : DriveTables) : Prop :=
  (∀ c ∈ clusters, Addressable m c → InPlace m c (getLba (geometry m) c)) ∧
    ∀ e ∈ listed m (fileSectors (geometry m) clusters), e.slot.Checked →
      Addressable m (u.slot e.slot).cluster →
        InPlace m (u.slot e.slot).cluster (u.slot e.slot).lba

section Mount

variable {m : Medium} {fuel : Nat} {stack : Stack} {t t' : DriveTables} {r : Int} {w : Bench}

/-- The base recorded of a file that was found is that of its start cluster. -/
theorem lba_rootTables {k : Nat} {s : Slot} {e : DriveEntry}
    (he : e ∈ listed m (fileSectors (geometry m)
      (clustersBefore m (geometry m) (rootCursor m stack) k))) (hs : e.slot = s) :
    ((rootTables m stack t k).slot s).lba =
      getLba (geometry m) ((rootTables m stack t k).slot s).cluster := by
  unfold rootTables
  rw [slot_scanned]
  cases hlast : lastEntry s (listed m (fileSectors (geometry m)
      (clustersBefore m (geometry m) (rootCursor m stack) k))) with
  | some e => rfl
  | none => exact absurd hs (lastEntry_eq_none.mp hlast e he)

/-- From a signed boot sector with at least one FAT, `init_disk` returns something other than 0 or
uses the layout recorded there, exactly if that agrees with two FATs and 512 bytes at every cluster
of the root directory and every start cluster of a file that the tables hold after the walk. The
root directory is what it reads besides the boot sector. `DISKx` names beyond A .. P are taken to store in
no variable used here. -/
theorem usesLayout_iff (hsigned : isSigned (m 0) = true) (hfats : 1 ≤ numberOfFats m)
    (h : (initDisk fuel stack t).exec Bench.answer ⟨m, []⟩ = some ((r, t'), w)) :
    ∃ k, EndsAt m (geometry m) (rootCursor m stack) k ∧
      dataReads w.log = 0 :: fileSectors (geometry m)
        (clustersBefore m (geometry m) (rootCursor m stack) k) ∧
      (r ≠ 0 ∨ UsesLayout m (clustersBefore m (geometry m) (rootCursor m stack) k)
          (rootTables m stack t k) ↔
        (∀ c ∈ clustersBefore m (geometry m) (rootCursor m stack) k,
          Addressable m c → LayoutAgrees m c) ∧
        ∀ e ∈ listed m (fileSectors (geometry m)
          (clustersBefore m (geometry m) (rootCursor m stack) k)), e.slot.Checked →
            Addressable m ((rootTables m stack t k).slot e.slot).cluster →
              LayoutAgrees m ((rootTables m stack t k).slot e.slot).cluster) := by
  rcases inserted_of_exec h with ⟨hinserted, hreads⟩
  generalize hr : (r, t') = rt at hinserted
  cases hinserted with
  | unsigned hno => exact absurd hsigned hno
  | @signed k fat u _ _ hend hdisks hconfig =>
    cases hr
    refine ⟨k, hend, dataReads_initDisk hsigned hend hreads, ?_⟩
    have hzero : ¬ ((0 : Int) ≠ 0) := fun hne => hne rfl
    rw [or_iff_right hzero]
    unfold UsesLayout
    refine and_congr ?_ ?_
    · refine forall_congr' fun c => imp_congr_right fun _ => forall_congr' fun haddr => ?_
      exact inPlace_iff hfats haddr
    · refine forall_congr' fun e => forall_congr' fun he => imp_congr_right fun _ =>
        forall_congr' fun haddr => ?_
      rw [lba_rootTables he rfl]
      exact inPlace_iff hfats haddr

/-- A boot sector with a single FAT. -/
def oneFatBoot : Sector := stickBoot.set 0x10 1

/-- A volume with a single FAT of one sector, and so with its root directory at sector 2. -/
def oneFatStick : Medium := fun sector =>
  if sector = 0 then oneFatBoot else if sector = 1 then stickFat else .zero

/-- The stick with two FATs and two drives: the directory is read at its place, and so are the bases of
both files. -/
theorem usesLayout_iff_twin : ∃ k t' w,
    (initDisk 4 invalidStack .zero).exec Bench.answer ⟨twinStick, []⟩ = some ((0, t'), w) ∧
      dataReads w.log = [0, 3] ∧
      UsesLayout twinStick
        (clustersBefore twinStick (geometry twinStick) (rootCursor twinStick invalidStack) k)
        (rootTables twinStick invalidStack .zero k) ∧
      (rootTables twinStick invalidStack .zero k).slot (.disk 0) = ⟨4, 2, 3⟩ ∧
      (rootTables twinStick invalidStack .zero k).slot (.disk 1) = ⟨6, 3, 5⟩ := by
  rcases twinStick_mounted with ⟨t', l, hl, -⟩
  have hlayout (c : UInt32) : LayoutAgrees twinStick c := by
    have hbytes : bytesPerSector twinStick = 512 := by decide +kernel
    have hfats : numberOfFats twinStick = 2 := by decide +kernel
    unfold LayoutAgrees
    rw [if_pos hbytes]
    exact .inl hfats
  rcases usesLayout_iff (by decide +kernel) (by decide +kernel) (hl []) with ⟨k, hend, hreads, hiff⟩
  have hroot := chain_of_trail (show trail (fatStep twinStick (geometry twinStick)) 2 2 =
    some [2] by decide +kernel)
  have hclusters := (clustersBefore_chain hend (invalidStack_coherent _)).unique hroot
  have hslots : (rootTables twinStick invalidStack .zero k).slot (.disk 0) = ⟨4, 2, 3⟩ ∧
      (rootTables twinStick invalidStack .zero k).slot (.disk 1) = ⟨6, 3, 5⟩ := by
    unfold rootTables
    simp only [slot_scanned, hclusters]
    decide +kernel
  have hsectors : 0 :: fileSectors (geometry twinStick) [2] = [0, 3] := by decide +kernel
  rw [hclusters, hsectors] at hreads
  refine ⟨k, t', _, hl [], hreads, ?_, hslots⟩
  exact (hiff.mpr ⟨fun c _ _ => hlayout c, fun e _ _ _ => hlayout _⟩).resolve_left fun hne => hne rfl

/-- The root directory is sought behind a second FAT that the volume does not have. -/
theorem layout_ignored : ¬ ∀ (m : Medium) (fuel : Nat) (stack : Stack) (t t' : DriveTables) (r : Int)
    (w : Bench) (k : Nat), isSigned (m 0) = true → 1 ≤ numberOfFats m →
      (initDisk fuel stack t).exec Bench.answer ⟨m, []⟩ = some ((r, t'), w) →
      EndsAt m (geometry m) (rootCursor m stack) k →
      r ≠ 0 ∨ UsesLayout m (clustersBefore m (geometry m) (rootCursor m stack) k)
        (rootTables m stack t k) := by
  intro h
  have hinit : (initOn oneFatStick 2 .zero).map Prod.fst = some 0 := by decide +kernel
  rcases Option.map_eq_some_iff.mp hinit with ⟨⟨r, t'⟩, hinit, rfl⟩
  rcases initDisk_reads (invalidStack_coherent _) hinit with ⟨l, hl⟩
  have hroot := chain_of_trail (show trail (fatStep oneFatStick (geometry oneFatStick)) 2 2 =
    some [2] by decide +kernel)
  have hend : EndsAt oneFatStick (geometry oneFatStick) (rootCursor oneFatStick invalidStack)
      [(2 : UInt32)].length := endsAt_of_chain (invalidStack_coherent _) hroot
  have hclusters := (clustersBefore_chain hend (invalidStack_coherent _)).unique hroot
  rcases h _ _ _ _ _ _ _ _ (by decide +kernel) (by decide +kernel) (hl []) hend with hne | ⟨huses, -⟩
  · exact hne rfl
  · have hplace := huses 2 (by rw [hclusters]; exact List.mem_singleton.mpr rfl)
    unfold Addressable InPlace at hplace
    revert hplace
    decide +kernel

end Mount

end LptStore.Fs
