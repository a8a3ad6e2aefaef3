import LptStore.Fs.Contiguous

/-!
# Well-formed FAT32 volumes

A volume is a medium with the chains of its files and what makes it well formed: one signed boot
sector for 512-byte sectors and two FATs, directory entries that stop at the first zero byte, every
drive file and the configuration file listed once, and finite chains that share no cluster.
-/

namespace LptStore.Fs

open LptStore.Lib

/-- The walk along the FAT by the 28 bits of an entry that count. -/
def fat32Step (m : Medium) (cluster : UInt32) : Option UInt32 :=
  if inChain cluster then some (fatEntry m (geometry m) cluster &&& 0x0fffffff) else none

/-- The first sector of a cluster, as a number. -/
def clusterBase (g : Geometry) (cluster : UInt32) : Nat :=
  g.reservedSectorCount.toNat + 2 * g.sectorsPerFAT.toNat +
    g.sectorsPerCluster.toNat * (cluster.toNat - 2)

/-- The clusters of a file: a finite chain, its entries without the reserved bits, its sectors
numbered within 32 bits. -/
structure FileChain (m : Medium) (start : UInt32) (clusters : List UInt32) : Prop where
  chain : Chain (fat32Step m) start clusters
  topNibble : ∀ c ∈ clusters, (fatEntry m (geometry m) c).toNat < 2 ^ 28
  fits : ∀ c ∈ clusters, 2 ≤ c.toNat ∧
    clusterBase (geometry m) c + (geometry m).sectorsPerCluster.toNat ≤ 2 ^ 32

/-- The 32-byte entries of a directory, each with the sector it lies in. -/
def rawEntries (m : Medium) (sectors : List UInt32) : List (Sector × Nat) :=
  sectors.flatMap fun sector => dirOffsets.map fun i => (m sector, i)

/-- The entry is not the end of the directory. -/
def beforeEnd (x : Sector × Nat) : Bool := x.1.get x.2 != 0x00

/-- The file an entry names, if it is not free. -/
def fileOf (x : Sector × Nat) : Option DriveEntry :=
  if x.1.get x.2 = 0xe5 then none else driveEntry x.1 x.2

/-- The drive files and configuration files of a directory: those of its entries before the end. -/
def directory (m : Medium) (sectors : List UInt32) : List DriveEntry :=
  ((rawEntries m sectors).takeWhile beforeEnd).filterMap fileOf

/-- A well-formed FAT32 medium. -/
structure Volume where
  medium : Medium
  /-- The clusters of the root directory. -/
  rootChain : List UInt32
  /-- The clusters of the file of a slot. -/
  chainOf : Slot → List UInt32
  signed : isSigned (medium 0) = true
  bytesPerSector : (medium 0).le16 0x0b = 512
  numberOfFats : (medium 0).get 0x10 = 2
  reserved : 0 < (geometry medium).reservedSectorCount.toNat
  perCluster : 1 ≤ (geometry medium).sectorsPerCluster.toNat
  root : FileChain medium (geometry medium).rootDirectoryFirstCluster rootChain
  /-- After the end of the directory all entries are zero. -/
  ended : (rawEntries medium (fileSectors (geometry medium) rootChain)).Pairwise
    fun x y => beforeEnd x = false → beforeEnd y = false
  named : ∀ e ∈ directory medium (fileSectors (geometry medium) rootChain), e.slot.Checked
  once : (directory medium (fileSectors (geometry medium) rootChain)).Pairwise
    fun e e' => e.slot ≠ e'.slot
  files : ∀ e ∈ directory medium (fileSectors (geometry medium) rootChain),
    FileChain medium e.cluster (chainOf e.slot)
  nonEmpty : ∀ e ∈ directory medium (fileSectors (geometry medium) rootChain),
    e.size ≠ 0 → 2 ≤ e.cluster.toNat
  longEnough : ∀ e ∈ directory medium (fileSectors (geometry medium) rootChain),
    e.size.toNat ≤ 512 * ((geometry medium).sectorsPerCluster.toNat * (chainOf e.slot).length)
  disjoint : ∀ e ∈ directory medium (fileSectors (geometry medium) rootChain),
    ∀ e' ∈ directory medium (fileSectors (geometry medium) rootChain),
      e.slot ≠ e'.slot → (chainOf e.slot).Disjoint (chainOf e'.slot)
  rootDisjoint : ∀ e ∈ directory medium (fileSectors (geometry medium) rootChain),
    rootChain.Disjoint (chainOf e.slot)

section Chains

variable {m : Medium} {start : UInt32} {clusters : List UInt32}

/-- Without the reserved bits the two walks are one. -/
theorem FileChain.raw (h : FileChain m start clusters) :
    Chain (fatStep m (geometry m)) start clusters := by
  rcases h with ⟨hchain, htop, hfits⟩
  induction hchain with
  | @stop c hstop =>
    apply Chain.stop
    unfold fat32Step at hstop
    by_cases hc : inChain c
    · rw [if_pos hc] at hstop
      cases hstop
    · exact fatStep_end hc
  | @step c next cs hstep hrest ih =>
    unfold fat32Step at hstep
    by_cases hc : inChain c
    · rw [if_pos hc] at hstep
      have hmask : fatEntry m (geometry m) c &&& 0x0fffffff = fatEntry m (geometry m) c := by
        apply UInt32.toNat_inj.mp
        rw [UInt32.toNat_and]
        have hlt := htop c List.mem_cons_self
        exact (Nat.and_two_pow_sub_one_eq_mod _ 28).trans (Nat.mod_eq_of_lt hlt)
      rw [hmask] at hstep
      cases hstep
      refine .step (fatStep_inChain hc) (ih ?_ ?_)
      · exact fun x hx => htop x (List.mem_cons_of_mem _ hx)
      · exact fun x hx => hfits x (List.mem_cons_of_mem _ hx)
    · rw [if_neg hc] at hstep
      cases hstep

/-- The LBA of a cluster does not wrap. -/
theorem FileChain.toNat_getLba (h : FileChain m start clusters) {c : UInt32} (hc : c ∈ clusters)
    (hspc : 1 ≤ (geometry m).sectorsPerCluster.toNat) :
    (getLba (geometry m) c).toNat = clusterBase (geometry m) c := by
  rcases h.fits c hc with ⟨htwo, hfits⟩
  have hsub : (c - 2).toNat = c.toNat - 2 := by
    rw [UInt32.toNat_sub_of_le]
    · rfl
    · exact htwo
  unfold clusterBase at hfits ⊢
  unfold getLba
  simp only [UInt32.toNat_add, UInt32.toNat_mul, hsub, UInt16.toNat_toUInt32, UInt8.toNat_toUInt32]
  have htwo' : (2 : UInt32).toNat = 2 := rfl
  rw [htwo']
  omega

/-- The sectors of a chain are the clusters' bases plus an offset. -/
theorem FileChain.toNat_of_mem (h : FileChain m start clusters)
    (hspc : 1 ≤ (geometry m).sectorsPerCluster.toNat) {x : UInt32}
    (hx : x ∈ fileSectors (geometry m) clusters) :
    ∃ c ∈ clusters, ∃ i < (geometry m).sectorsPerCluster.toNat,
      x.toNat = clusterBase (geometry m) c + i := by
  rcases List.mem_flatMap.mp hx with ⟨c, hc, hx⟩
  have hlba := h.toNat_getLba hc hspc
  have hfits := (h.fits c hc).2
  rcases toNat_of_mem_sectorsFrom (by rw [hlba]; exact hfits) hx with ⟨i, hi, hxi⟩
  exact ⟨c, hc, i, hi, by rw [hxi, hlba]⟩

theorem length_fileSectors (g : Geometry) (clusters : List UInt32) :
    (fileSectors g clusters).length = g.sectorsPerCluster.toNat * clusters.length := by
  induction clusters with
  | nil => rfl
  | cons c cs ih =>
    unfold fileSectors at ih ⊢
    rw [List.flatMap_cons, List.length_append, ih, List.length_cons, Nat.mul_succ, Nat.add_comm]
    unfold clusterSectors
    rw [length_sectorsFrom]

/-- A sector lies in one cluster only. -/
theorem cluster_unique {g : Geometry} {c c' : UInt32} {i i' : Nat} (hc : 2 ≤ c.toNat)
    (hc' : 2 ≤ c'.toNat) (hi : i < g.sectorsPerCluster.toNat) (hi' : i' < g.sectorsPerCluster.toNat)
    (h : clusterBase g c + i = clusterBase g c' + i') : c = c' := by
  unfold clusterBase at h
  have hsum : g.sectorsPerCluster.toNat * (c.toNat - 2) + i =
      g.sectorsPerCluster.toNat * (c'.toNat - 2) + i' := by
    omega
  have hpos : 0 < g.sectorsPerCluster.toNat := Nat.lt_of_le_of_lt (Nat.zero_le _) hi
  have hdiv : ∀ (a : Nat) {j : Nat}, j < g.sectorsPerCluster.toNat →
      (g.sectorsPerCluster.toNat * a + j) / g.sectorsPerCluster.toNat = a := by
    intro a j hj
    rw [Nat.mul_add_div hpos, Nat.div_eq_of_lt hj, Nat.add_zero]
  have hquot : c.toNat - 2 = c'.toNat - 2 := by
    rw [← hdiv (c.toNat - 2) hi, hsum, hdiv _ hi']
  apply UInt32.toNat_inj.mp
  omega

/-- Chains that share no cluster share no sector. -/
theorem FileChain.sectors_disjoint {start' : UInt32} {clusters' : List UInt32}
    (h : FileChain m start clusters) (h' : FileChain m start' clusters')
    (hspc : 1 ≤ (geometry m).sectorsPerCluster.toNat) (hdisj : clusters.Disjoint clusters') :
    (fileSectors (geometry m) clusters).Disjoint (fileSectors (geometry m) clusters') := by
  intro x hx hx'
  rcases h.toNat_of_mem hspc hx with ⟨c, hc, i, hi, heq⟩
  rcases h'.toNat_of_mem hspc hx' with ⟨c', hc', i', hi', heq'⟩
  have hcc := cluster_unique (h.fits c hc).1 (h'.fits c' hc').1 hi hi' (heq.symm.trans heq')
  exact hdisj hc (hcc ▸ hc')

end Chains

section Directory

theorem takeWhile_eq_filter {α : Type} {p : α → Bool} {l : List α}
    (h : l.Pairwise fun x y => p x = false → p y = false) : l.takeWhile p = l.filter p := by
  induction l with
  | nil => rfl
  | cons a l ih =>
    rcases List.pairwise_cons.mp h with ⟨hfirst, hrest⟩
    by_cases ha : p a = true
    · rw [List.takeWhile_cons_of_pos ha, List.filter_cons_of_pos ha, ih hrest]
    · rw [List.takeWhile_cons_of_neg ha, List.filter_cons_of_neg ha]
      symm
      apply List.filter_eq_nil_iff.mpr
      intro x hx
      rw [hfirst x hx (Bool.eq_false_iff.mpr ha)]
      exact Bool.false_ne_true

/-- The scan of a sector stops at the end of the directory. -/
theorem entriesAt_eq (buff : Sector) (is : List Nat) :
    entriesAt buff is = ((is.map fun i => (buff, i)).takeWhile beforeEnd).filterMap fileOf := by
  induction is with
  | nil => rfl
  | cons i is ih =>
    unfold entriesAt
    rw [List.map_cons]
    by_cases hend : buff.get i = 0x00
    · have hnot : ¬ beforeEnd (buff, i) = true := by
        unfold beforeEnd
        simp [hend]
      rw [if_pos hend, List.takeWhile_cons_of_neg hnot]
      rfl
    · have hbefore : beforeEnd (buff, i) = true := by
        unfold beforeEnd
        simp [hend]
      rw [if_neg hend, List.takeWhile_cons_of_pos hbefore, List.filterMap_cons, ← ih]
      unfold fileOf
      by_cases hfree : buff.get i = 0xe5
      · simp only [if_pos hfree]
      · simp only [if_neg hfree]
        cases driveEntry buff i <;> rfl

/-- With nothing after the end, the scan of all sectors enters the directory. -/
theorem listed_eq_directory {m : Medium} {sectors : List UInt32}
    (h : (rawEntries m sectors).Pairwise fun x y => beforeEnd x = false → beforeEnd y = false) :
    listed m sectors = directory m sectors := by
  unfold directory
  rw [takeWhile_eq_filter h]
  unfold rawEntries at h ⊢
  rw [List.filter_flatMap, List.filterMap_flatMap]
  unfold listed
  rw [List.flatMap_def, List.flatMap_def]
  refine congrArg List.flatten (List.map_congr_left fun sector hsector => ?_)
  have hsub : (dirOffsets.map fun i => (m sector, i)).Sublist
      (sectors.flatMap fun sector => dirOffsets.map fun i => (m sector, i)) :=
    List.sublist_flatten_of_mem (List.mem_map.mpr ⟨sector, hsector, rfl⟩)
  rw [entriesAt_eq, takeWhile_eq_filter (h.sublist hsub)]

end Directory

end LptStore.Fs
