import LptStore.Fs.Volume
import LptStore.Fs.Serve
import LptStore.Fs.Termination
import LptStore.Fs.Forget

/-!
# Drives and the length of their chains

The number of blocks of a drive is what its directory entry says, and whether it is kept is what the
FAT says: `init_disk` compares neither with the other. A drive is kept within its own clusters
exactly if its entry does not claim more sectors than the chain has, and then only because those of a
chain without gaps follow one another.
-/

namespace LptStore.Fs

open LptStore.Lib

/-- A step of `init_disk` leaves a slot and its bit alone. -/
structure Untouched (s : Slot) (t t' : DriveTables) : Prop where
  slot : t'.slot s = t.slot s
  bit : t'.advertised s = t.advertised s

namespace Untouched

variable {s : Slot} {t t₁ t' : DriveTables}

theorem refl (s : Slot) (t : DriveTables) : Untouched s t t := ⟨rfl, rfl⟩

theorem trans (h : Untouched s t t₁) (h' : Untouched s t₁ t') : Untouched s t t' :=
  ⟨h'.slot.trans h.slot, h'.bit.trans h.bit⟩

end Untouched

/-- Drive `n` is found, and its scan for gaps, from the cache that the scans of the drives before it
leave, comes to the end of the chain. -/
def Kept (m : Medium) (g : Geometry) (t : DriveTables) (fat : Fat) (n : Nat) : Prop :=
  t.diskLba n ≠ 0 ∧ ∃ fat' k, ScansEnd m g (diskStarts t (List.range n)) fat fat' ∧
    ScanEndsAt m g ⟨t.diskCluster n, fat'⟩ k ∧
      ¬ inChain (Cursor.after m g k ⟨t.diskCluster n, fat'⟩).cluster

section Scans

variable {m : Medium} {g : Geometry}

theorem ScanEndsAt.unique {s : Cursor} {k k' : Nat} (h : ScanEndsAt m g s k)
    (h' : ScanEndsAt m g s k') : k = k' := by
  rcases Nat.lt_trichotomy k k' with hlt | heq | hlt
  · exact absurd h.1 (h'.2 k hlt)
  · exact heq
  · exact absurd h'.1 (h.2 k' hlt)

theorem ScansEnd.unique {cs : List UInt32} {fat fat₁ fat₂ : Fat} (h : ScansEnd m g cs fat fat₁)
    (h' : ScansEnd m g cs fat fat₂) : fat₁ = fat₂ := by
  induction h with
  | nil => cases h'; rfl
  | cons hend _ ih =>
    cases h' with
    | cons hend' hrest' =>
      cases hend.unique hend'
      exact ih hrest'

/-- A scan that goes on has come to a cluster of the chain. -/
theorem ScanEndsAt.inChain {s : Cursor} {k : Nat} (h : ScanEndsAt m g s k) (j : Nat) (hj : j < k) :
    inChain (s.after m g j).cluster := by
  by_contra hc
  apply h.2 j hj
  cases j with
  | zero => exact hc
  | succ j => exact .inl hc

theorem Cursor.after_coherent {s : Cursor} {k : Nat}
    (h : ∀ j, j < k → Fs.inChain (s.after m g j).cluster) (hcache : Coherent m ⟨g, s.fat⟩) :
    Coherent m ⟨g, (s.after m g k).fat⟩ := by
  induction k generalizing s with
  | zero => exact hcache
  | succ k ih =>
    have hnext := Cursor.next_of_coherent (h 0 (Nat.succ_pos k)) hcache
    exact ih (s := s.next m g) (fun j hj => h (j + 1) (Nat.succ_lt_succ hj)) hnext.2

theorem ScansEnd.coherent {cs : List UInt32} {fat fat' : Fat} (h : ScansEnd m g cs fat fat')
    (hcache : Coherent m ⟨g, fat⟩) : Coherent m ⟨g, fat'⟩ := by
  induction h with
  | nil => exact hcache
  | cons hend _ ih => exact ih (Cursor.after_coherent hend.inChain hcache)

/-- A scan that comes to the end of the chain has found no gap. -/
theorem ScanEndsAt.gaps_false {s : Cursor} {k : Nat} {clusters : List UInt32}
    (h : ScanEndsAt m (geometry m) s k) (hcache : Coherent m ⟨geometry m, s.fat⟩)
    (hchain : Chain (fatStep m (geometry m)) s.cluster clusters)
    (hout : ¬ Fs.inChain (s.after m (geometry m) k).cluster) : Gaps m s.cluster false := by
  rcases exists_gaps 0 hchain with ⟨gaps, n, hrun⟩
  rcases (fileHasGaps_returns h).bound with ⟨n₀, hn₀⟩
  rcases hn₀ (max n n₀) (Nat.le_max_right _ _) with ⟨l, hl⟩
  rcases fileHasGaps_reads hcache (iterate_mono hrun (Nat.le_max_left n n₀)) with ⟨fat, l', hl', -⟩
  have heq := (hl.unique hl').1
  rw [if_neg hout] at heq
  cases gaps with
  | true => exact absurd (show (0 : Int) = 1 from congrArg Prod.fst heq) (by decide)
  | false => exact ⟨n, hrun⟩

end Scans

section Checks

variable {m : Medium} {g : Geometry} {fat : Fat} {t t' : DriveTables}

theorem judgeDisk_untouched {s : Slot} {i : Nat} (gaps : Bool) (hi : i < 16) (hs : s.Checked)
    (hne : s ≠ .disk i) : Untouched s t (t.judgeDisk i gaps) := by
  have hslot : (t.judgeDisk i gaps).slot s = t.slot s := by
    cases s with
    | config => cases gaps <;> rfl
    | disk n =>
      have hni : n ≠ (i : Int) := fun heq => hne (congrArg Slot.disk heq)
      cases gaps with
      | true => simp [DriveTables.judgeDisk, DriveTables.slot, hni]
      | false => rfl
  refine ⟨hslot, ?_⟩
  cases gaps with
  | true => rfl
  | false =>
    have hbit : i ≠ s.bit := by
      rintro rfl
      cases s with
      | config => exact absurd hi (by decide)
      | disk n =>
        rcases Int.eq_ofNat_of_zero_le hs.1 with ⟨j, rfl⟩
        exact hne rfl
    show (t.diskBitmap ||| 1 <<< UInt32.ofNat i).toNat.testBit s.bit = _
    rw [testBit_or_shift _ (by omega), decide_eq_false hbit, Bool.or_false]
    rfl

theorem DiskChecked.untouched {s : Slot} {i : Nat} (h : DiskChecked m g i fat t t') (hi : i < 16)
    (hs : s.Checked) (hne : s ≠ .disk i) : Untouched s t t' := by
  cases h with
  | absent _ => exact .refl s t
  | scanned _ _ => exact judgeDisk_untouched _ hi hs hne

theorem DisksChecked.untouched {s : Slot} {is : List Nat} (h : DisksChecked m g is fat t t')
    (his : ∀ i ∈ is, i < 16) (hs : s.Checked) (hne : ∀ i ∈ is, s ≠ .disk i) : Untouched s t t' := by
  induction h with
  | nil => exact .refl s _
  | cons hfirst _ _ ih =>
    rcases List.forall_mem_cons.mp his with ⟨hi, his⟩
    rcases List.forall_mem_cons.mp hne with ⟨hnei, hne⟩
    exact (hfirst.untouched hi hs hnei).trans (ih his hne)

theorem DisksChecked.of_append {is is' : List Nat} (h : DisksChecked m g (is ++ is') fat t t')
    (hnodup : (is ++ is').Nodup) :
    ∃ fat₁ t₁, DisksChecked m g is fat t t₁ ∧ ScansEnd m g (diskStarts t is) fat fat₁ ∧
      DisksChecked m g is' fat₁ t₁ t' := by
  induction is generalizing fat t with
  | nil => exact ⟨fat, t, .nil _ _, .nil _, h⟩
  | cons i is ih =>
    rw [List.cons_append] at h hnodup
    rcases List.nodup_cons.mp hnodup with ⟨hi, hnodup⟩
    cases h with
    | cons hfirst hscan hrest =>
      rcases ih hrest hnodup with ⟨fat₁, t₁, hbefore, hscans, hbehind⟩
      have hi' : i ∉ is := fun hmem => hi (List.mem_append_left _ hmem)
      refine ⟨fat₁, t₁, .cons hfirst hscan hbefore, ?_, hbehind⟩
      rw [diskStarts_cons]
      rw [hfirst.diskStarts_eq hi'] at hscans
      exact hscan.append hscans

theorem judgeConfig_untouched {s : Slot} (gaps : Bool) (hs : s.Checked) (hne : s ≠ .config) :
    Untouched s t (t.judgeConfig gaps) := by
  cases s with
  | config => exact absurd rfl hne
  | disk n =>
    cases gaps with
    | true => exact ⟨rfl, rfl⟩
    | false =>
      refine ⟨rfl, ?_⟩
      show (t.diskBitmap ||| CONFIG_BLOCK).toNat.testBit (Slot.disk n).bit = _
      have hbit : 31 ≠ (Slot.disk n).bit := by
        rcases hs with ⟨hlo, hhi⟩
        show 31 ≠ n.toNat
        omega
      rw [configBlock_eq, testBit_or_shift _ (by decide), decide_eq_false hbit, Bool.or_false]
      rfl

theorem ConfigChecked.untouched {s : Slot} (h : ConfigChecked m g fat t t') (hs : s.Checked)
    (hne : s ≠ .config) : Untouched s t t' := by
  cases h with
  | absent _ => exact .refl s t
  | scanned _ _ => exact judgeConfig_untouched _ hs hne

/-- Without gaps the check of a drive sets its bit. -/
theorem advertised_judgeDisk {i : Nat} (gaps : Bool) (hi : i < 16)
    (hclear : t.advertised (.disk i) = false) :
    (t.judgeDisk i gaps).advertised (.disk i) = !gaps := by
  cases gaps with
  | true => exact hclear
  | false =>
    show (t.diskBitmap ||| 1 <<< UInt32.ofNat i).toNat.testBit (Slot.disk i).bit = true
    rw [testBit_or_shift _ (by omega), decide_eq_true (show i = (Slot.disk i).bit from
      (Int.toNat_natCast i).symm), Bool.or_true]

theorem advertised_judgeConfig (gaps : Bool) (hclear : t.advertised .config = false) :
    (t.judgeConfig gaps).advertised .config = !gaps := by
  cases gaps with
  | true => exact hclear
  | false =>
    show (t.diskBitmap ||| CONFIG_BLOCK).toNat.testBit 31 = true
    rw [configBlock_eq, testBit_or_shift _ (by decide), decide_eq_true rfl, Bool.or_true]

theorem range_split {n : Nat} (hn : n < 16) : ∃ is, List.range 16 = List.range n ++ n :: is := by
  rcases Nat.exists_eq_add_of_lt hn with ⟨k, hk⟩
  refine ⟨(List.range k).map (n + 1 + ·), ?_⟩
  rw [hk, Nat.add_assoc, List.range_add, List.range_succ_eq_map, List.map_cons, List.map_map]
  refine congrArg (List.range n ++ n :: ·) (List.map_congr_left fun i _ => ?_)
  simp only [Function.comp, Nat.succ_eq_add_one]
  omega

/-- After the loop over the drives those kept have their bit, and their record as it was. -/
theorem DisksChecked.kept_iff {n : Nat} (h : DisksChecked m g (List.range NR_DISKS) fat t t')
    (hn : n < 16) (hclear : t.advertised (.disk n) = false) :
    (t'.advertised (.disk n) = true ↔ Kept m g t fat n) ∧
      (Kept m g t fat n → t'.slot (.disk n) = t.slot (.disk n)) := by
  rcases range_split hn with ⟨is, hsplit⟩
  have hnodup : (List.range n ++ n :: is).Nodup := hsplit ▸ List.nodup_range
  have hlt : ∀ i ∈ List.range n ++ n :: is, i < 16 := by
    intro i hi
    rw [← hsplit] at hi
    exact List.mem_range.mp hi
  have hchecked : (Slot.disk n).Checked := ⟨Int.natCast_nonneg n, by omega⟩
  rw [show List.range NR_DISKS = List.range n ++ n :: is from hsplit] at h
  rcases h.of_append hnodup with ⟨fat₁, t₁, hbefore, hscans, hrest⟩
  have hne : ∀ {is : List Nat}, n ∉ is → ∀ i ∈ is, Slot.disk n ≠ .disk i := by
    intro is hnot i hi heq
    have hni : n = i := Int.ofNat.inj (Slot.disk.inj heq)
    exact hnot (hni ▸ hi)
  have hpre := hbefore.untouched (fun i hi => hlt i (List.mem_append_left _ hi)) hchecked
    (hne fun hmem => Nat.lt_irrefl n (List.mem_range.mp hmem))
  cases hrest with
  | @cons _ _ _ fat₂ _ t₂ _ hfirst _ hbehind =>
    have hnot : n ∉ is := (List.nodup_cons.mp (List.nodup_append.mp hnodup).2.1).1
    have hpost := hbehind.untouched
      (fun i hi => hlt i (List.mem_append_right _ (List.mem_cons_of_mem _ hi))) hchecked (hne hnot)
    have hlba : t₁.diskLba n = t.diskLba n := congrArg SlotRecord.lba hpre.slot
    have hcluster : t₁.diskCluster n = t.diskCluster n := congrArg SlotRecord.cluster hpre.slot
    have hbit₁ : t₁.advertised (.disk n) = false := hpre.bit.trans hclear
    rw [hpost.bit, hpost.slot]
    cases hfirst with
    | absent hlba₁ =>
      rw [hbit₁]
      rw [hlba] at hlba₁
      exact ⟨⟨fun h => absurd h (by decide), fun h => absurd h.1 hlba₁⟩, fun h => absurd h.1 hlba₁⟩
    | @scanned k hlba₁ hend =>
      rw [advertised_judgeDisk _ hn hbit₁]
      rw [hlba] at hlba₁
      rw [hcluster] at hend ⊢
      by_cases hc : inChain (Cursor.after m g k ⟨t.diskCluster n, fat₁⟩).cluster
      · have hnot : ¬ Kept m g t fat n := by
          rintro ⟨-, fat', k', hscans', hend', hout⟩
          cases hscans.unique hscans'
          cases hend.unique hend'
          exact hout hc
        rw [decide_eq_true hc]
        exact ⟨⟨fun h => absurd h (by decide), fun h => absurd h hnot⟩, fun h => absurd h hnot⟩
      · rw [decide_eq_false hc]
        exact ⟨⟨fun _ => ⟨hlba₁, fat₁, k, hscans, hend, hc⟩, fun _ => rfl⟩, fun _ => hpre.slot⟩

end Checks

/-- The sectors of the clusters are those from `lba` on. -/
def Straight (g : Geometry) (lba : UInt32) (clusters : List UInt32) : Prop :=
  fileSectors g clusters = sectorsFrom (g.sectorsPerCluster.toNat * clusters.length) lba

/-- The record claims no more sectors than its chain has. Where these do not follow one another, the
sectors from its LBA on are still among them. -/
def Covers (m : Medium) (g : Geometry) (r : SlotRecord) : Prop :=
  ∃ clusters, Chain (fatStep m g) r.cluster clusters ∧
    r.blocks.toNat ≤ g.sectorsPerCluster.toNat * clusters.length ∧
      (Straight g r.lba clusters ∨
        ∀ i, i < r.blocks.toNat → r.lba + UInt32.ofNat i ∈ fileSectors g clusters)

/-- The drive is no longer than its chain, and what is written to it lies in its clusters. -/
def WithinChain (m : Medium) (g : Geometry) (t : DriveTables) (disk : UInt8) : Prop :=
  ∃ clusters, Chain (fatStep m g) (t.diskCluster disk.toNat) clusters ∧
    (getDiskBlocks t disk).toNat ≤ g.sectorsPerCluster.toNat * clusters.length ∧
      ∀ sector buff x data k, writeDiskSector t disk sector buff = .op (.write x data) k →
        x ∈ fileSectors g clusters

section Within

variable {m : Medium} {g : Geometry} {t : DriveTables} {disk : UInt8}

theorem mem_sectorsFrom {k i : Nat} (lba : UInt32) (h : i < k) :
    lba + UInt32.ofNat i ∈ sectorsFrom k lba :=
  List.mem_of_getElem? (getElem?_sectorsFrom lba h)

theorem writeDiskSector_of_lt {sector : UInt32} (buff : Sector) (hdisk : disk.toNat < 16)
    (hlba : t.diskLba disk.toNat ≠ 0) (h : sector < t.diskBlocks disk.toNat) :
    writeDiskSector t disk sector buff =
      .op (.write (t.diskLba disk.toNat + sector) buff) .ret := by
  rw [writeDiskSector_eq (.inl hdisk), slotOf_disk hdisk]
  exact SlotRecord.write_of_lt buff hlba h

theorem writeDiskSector_of_not {sector : UInt32} (buff : Sector) (hdisk : disk.toNat < 16)
    (h : ¬ sector < t.diskBlocks disk.toNat) : writeDiskSector t disk sector buff = .ret (-1) := by
  rw [writeDiskSector_eq (.inl hdisk), slotOf_disk hdisk]
  exact SlotRecord.write_of_not buff fun hlt => h hlt.2

/-- For a drive with an LBA this is a matter of its record. -/
theorem withinChain_iff (hdisk : disk.toNat < 16) (hlba : t.diskLba disk.toNat ≠ 0) :
    WithinChain m g t disk ↔ Covers m g (t.slot (.disk disk.toNat)) := by
  have hblocks : getDiskBlocks t disk = t.diskBlocks disk.toNat := by
    rw [getDiskBlocks_eq (.inl hdisk), slotOf_disk hdisk]
    exact if_pos hlba
  unfold WithinChain Covers
  rw [hblocks]
  refine exists_congr fun clusters => and_congr_right fun _ => and_congr_right fun hle => ?_
  show _ ↔ _ ∨ ∀ i, i < (t.diskBlocks disk.toNat).toNat →
    t.diskLba disk.toNat + UInt32.ofNat i ∈ fileSectors g clusters
  constructor
  · intro hwrites
    right
    intro i hi
    have hsector : UInt32.ofNat i < t.diskBlocks disk.toNat := by
      have hlt := (t.diskBlocks disk.toNat).toNat_lt
      rw [UInt32.lt_iff_toNat_lt, UInt32.toNat_ofNat']
      omega
    exact hwrites _ .zero _ _ _ (writeDiskSector_of_lt .zero hdisk hlba hsector)
  · intro hin sector buff x data k hop
    by_cases hsector : sector < t.diskBlocks disk.toNat
    · rw [writeDiskSector_of_lt buff hdisk hlba hsector] at hop
      cases hop
      have hofNat : UInt32.ofNat sector.toNat = sector := UInt32.ofNat_toNat
      rcases hin with hstraight | hin
      · rw [hstraight, ← hofNat]
        exact mem_sectorsFrom _ (Nat.lt_of_lt_of_le hsector hle)
      · rw [← hofNat]
        exact hin _ hsector
    · rw [writeDiskSector_of_not buff hdisk hsector] at hop
      cases hop

end Within

section Mount

variable {m : Medium} {fuel : Nat} {stack : Stack} {t' : DriveTables} {w : Bench}

/-- The cache that the walk over the root directory leaves. -/
def rootFat (m : Medium) (stack : Stack) (k : Nat) : Fat :=
  ((rootCursor m stack).after m (geometry m) k).fat

/-- The drives that are left with their bit are those kept, with the record of the scan. -/
theorem Inserted.kept_iff {t : DriveTables} (h : Inserted m stack t (0, t')) :
    ∃ k, EndsAt m (geometry m) (rootCursor m stack) k ∧ ∀ n : Nat, n < 16 →
      (t'.advertised (.disk n) = true ↔
        Kept m (geometry m) (rootTables m stack t k) (rootFat m stack k) n) ∧
      (Kept m (geometry m) (rootTables m stack t k) (rootFat m stack k) n →
        t'.slot (.disk n) = (rootTables m stack t k).slot (.disk n)) := by
  cases h with
  | @signed k fat u _ _ hend hdisks hconfig =>
    refine ⟨k, hend, fun n hn => ?_⟩
    have hrest := hconfig.untouched (s := .disk n) ⟨Int.natCast_nonneg n, by omega⟩ fun heq =>
      by cases heq
    rcases hdisks.kept_iff hn (advertised_scanned _ _) with ⟨hbit, hslot⟩
    rw [hrest.bit, hrest.slot]
    exact ⟨hbit, hslot⟩

/-- A drive kept has a chain without gaps if the cache was the medium's from the start; its sectors
then follow one another, unless one of them has the number 0. -/
theorem Kept.straight {t : DriveTables} {k n : Nat} (hcache : stack.Coherent m)
    (hend : EndsAt m (geometry m) (rootCursor m stack) k)
    (h : Kept m (geometry m) t (rootFat m stack k) n) :
    ∃ clusters, Chain (fatStep m (geometry m)) (t.diskCluster n) clusters ∧
      ((∀ x ∈ fileSectors (geometry m) clusters, x ≠ 0) →
        Straight (geometry m) (getLba (geometry m) (t.diskCluster n)) clusters) := by
  rcases h with ⟨-, fat, j, hscans, hscan, hout⟩
  have hroot : Coherent m ⟨geometry m, rootFat m stack k⟩ :=
    Cursor.after_coherent hend.2 hcache
  have hfat : Coherent m ⟨geometry m, fat⟩ := hscans.coherent hroot
  have hchain := clustersBefore_chain (s := ⟨t.diskCluster n, fat⟩) ⟨hout, hscan.inChain⟩ hfat
  refine ⟨_, hchain, fun hne => ?_⟩
  by_cases hspc : (geometry m).sectorsPerCluster.toNat = 0
  · unfold Straight
    rw [hspc, Nat.zero_mul]
    apply List.eq_nil_of_length_eq_zero
    rw [length_fileSectors, hspc, Nat.zero_mul]
  · have hlinear := fileSectors_linear (Nat.pos_of_ne_zero hspc) hchain
      (hscan.gaps_false hfat hchain hout) hne
    rw [length_fileSectors] at hlinear
    exact hlinear

theorem slot_rootTables_zero (m : Medium) (stack : Stack) (k : Nat) (s : Slot)
    (h : s.present ((rootTables m stack .zero k).slot s)) :
    ((rootTables m stack .zero k).slot s).lba =
      getLba (geometry m) ((rootTables m stack .zero k).slot s).cluster := by
  unfold rootTables at h ⊢
  rw [slot_scanned] at h ⊢
  cases hlast : lastEntry s (listed m (fileSectors (geometry m)
      (clustersBefore m (geometry m) (rootCursor m stack) k))) with
  | some e => rfl
  | none =>
    rw [hlast] at h
    cases s with
    | disk n => exact absurd rfl h
    | config => exact absurd rfl h

/-- From zeroed tables, every drive advertised is within its chain exactly if the directory entry of
every drive that the scan for gaps keeps claims no more sectors than its chain has. The last part says
that the sectors of such a chain do follow one another, with none numbered 0 and the FAT cache invalid
or the medium's. `DISKx` names beyond A .. P are taken to store in no variable used here. -/
theorem withinChains_iff
    (h : (initDisk fuel stack .zero).exec Bench.answer ⟨m, []⟩ = some ((0, t'), w)) :
    ∃ k, EndsAt m (geometry m) (rootCursor m stack) k ∧
      ((∀ disk : UInt8, disk.toNat < 16 → (getDisks t').toNat.testBit disk.toNat = true →
          WithinChain m (geometry m) t' disk) ↔
        ∀ n : Nat, n < 16 →
          Kept m (geometry m) (rootTables m stack .zero k) (rootFat m stack k) n →
            Covers m (geometry m) ((rootTables m stack .zero k).slot (.disk n))) ∧
      (stack.Coherent m → ∀ n : Nat, n < 16 →
        Kept m (geometry m) (rootTables m stack .zero k) (rootFat m stack k) n →
          ∃ clusters, Chain (fatStep m (geometry m))
              ((rootTables m stack .zero k).slot (.disk n)).cluster clusters ∧
            ((∀ x ∈ fileSectors (geometry m) clusters, x ≠ 0) → Straight (geometry m)
              ((rootTables m stack .zero k).slot (.disk n)).lba clusters)) := by
  rcases (inserted_of_exec h).1.kept_iff with ⟨k, hend, hkept⟩
  have hwithin : ∀ (disk : UInt8) (hdisk : disk.toNat < 16),
      Kept m (geometry m) (rootTables m stack .zero k) (rootFat m stack k) disk.toNat →
        (WithinChain m (geometry m) t' disk ↔
          Covers m (geometry m) ((rootTables m stack .zero k).slot (.disk disk.toNat))) := by
    intro disk hdisk hk
    have hslot := (hkept disk.toNat hdisk).2 hk
    have hlba : t'.diskLba disk.toNat ≠ 0 := by
      rw [show t'.diskLba disk.toNat = _ from congrArg SlotRecord.lba hslot]
      exact hk.1
    rw [withinChain_iff hdisk hlba, hslot]
  refine ⟨k, hend, ⟨fun hall n hn hk => ?_, fun hall disk hdisk hbit => ?_⟩, ?_⟩
  · have hlt : n < UInt8.size := Nat.lt_trans hn (by decide)
    have hdisk : (UInt8.ofNat n).toNat = n := UInt8.toNat_ofNat_of_lt hlt
    have hbit : (getDisks t').toNat.testBit (UInt8.ofNat n).toNat = true := by
      rw [hdisk]
      exact (hkept n hn).1.mpr hk
    have hcovers := (hwithin (UInt8.ofNat n) (by rw [hdisk]; exact hn) (by rw [hdisk]; exact hk)).mp
      (hall _ (by rw [hdisk]; exact hn) hbit)
    rw [hdisk] at hcovers
    exact hcovers
  · have hk := (hkept disk.toNat hdisk).1.mp hbit
    exact (hwithin disk hdisk hk).mpr (hall disk.toNat hdisk hk)
  · intro hcache n hn hk
    rw [slot_rootTables_zero m stack k (.disk n) hk.1]
    exact hk.straight hcache hend

/-- The files of the stick with two drives lie on their chains. -/
theorem covers_twin : Covers twinStick (geometry twinStick) ⟨4, 2, 3⟩ ∧
    Covers twinStick (geometry twinStick) ⟨6, 3, 5⟩ := by
  have hchainA := chain_of_trail (show trail (fatStep twinStick (geometry twinStick)) 3 3 =
    some [3, 4] by decide +kernel)
  have hchainB := chain_of_trail (show trail (fatStep twinStick (geometry twinStick)) 4 5 =
    some [5, 6, 7] by decide +kernel)
  have hstraight : Straight (geometry twinStick) 4 [3, 4] ∧ Straight (geometry twinStick) 6 [5, 6, 7] := by
    unfold Straight
    decide +kernel
  exact ⟨⟨_, hchainA, by decide +kernel, .inl hstraight.1⟩,
    ⟨_, hchainB, by decide +kernel, .inl hstraight.2⟩⟩

/-- Drive A with two sectors on a chain of two clusters, and drive B with three on one of three. -/
theorem withinChains_iff_twin : ∃ t' w,
    (initDisk 4 invalidStack .zero).exec Bench.answer ⟨twinStick, []⟩ = some ((0, t'), w) ∧
      t'.diskBitmap = 3 ∧
      ∀ disk : UInt8, disk.toNat < 16 → (getDisks t').toNat.testBit disk.toNat = true →
        WithinChain twinStick (geometry twinStick) t' disk := by
  rcases twinStick_mounted with ⟨t', l, hl, hbits⟩
  rcases withinChains_iff (hl []) with ⟨k, hend, hiff, -⟩
  refine ⟨t', _, hl [], hbits, hiff.mpr fun n hn hk => ?_⟩
  have hroot := chain_of_trail (show trail (fatStep twinStick (geometry twinStick)) 2 2 =
    some [2] by decide +kernel)
  have hclusters := (clustersBefore_chain hend (invalidStack_coherent _)).unique hroot
  have hslots : ∀ i < 16, (rootTables twinStick invalidStack .zero k).slot (.disk (i : Nat)) =
      if i = 0 then ⟨4, 2, 3⟩ else if i = 1 then ⟨6, 3, 5⟩ else ⟨0, 0, 0⟩ := by
    unfold rootTables
    simp only [slot_scanned, hclusters]
    decide +kernel
  rw [hslots n hn]
  have hlba := hk.1
  rw [show (rootTables twinStick invalidStack .zero k).diskLba n = _ from
    congrArg SlotRecord.lba (hslots n hn)] at hlba
  by_cases hzero : n = 0
  · rw [if_pos hzero]
    exact covers_twin.1
  · by_cases hone : n = 1
    · rw [if_neg hzero, if_pos hone]
      exact covers_twin.2
    · rw [if_neg hzero, if_neg hone] at hlba
      exact absurd rfl hlba

/-- A directory whose `DISKA.DAT` claims two sectors. -/
def longDir : Sector := stickDir.set 29 4

/-- Drive A is advertised with two blocks on a chain of one sector. -/
theorem drive_longer_than_chain : ¬ ∀ (m : Medium) (fuel : Nat) (stack : Stack) (t' : DriveTables)
    (w : Bench), (initDisk fuel stack .zero).exec Bench.answer ⟨m, []⟩ = some ((0, t'), w) →
      ∀ disk : UInt8, disk.toNat < 16 → (getDisks t').toNat.testBit disk.toNat = true →
        WithinChain m (geometry m) t' disk := by
  intro h
  have hinit : (initOn (stick longDir) 2 .zero).map (fun x =>
      (x.1, (getDisks x.2).toNat.testBit 0, getDiskBlocks x.2 0, x.2.diskCluster 0)) =
        some (0, true, 2, 3) := by
    decide +kernel
  rcases Option.map_eq_some_iff.mp hinit with ⟨⟨r, t'⟩, hinit, hout⟩
  simp only [Prod.mk.injEq] at hout
  rcases hout with ⟨rfl, hbit, hblocks, hcluster⟩
  rcases initDisk_reads (invalidStack_coherent _) hinit with ⟨l, hl⟩
  rcases h _ _ _ _ _ (hl []) 0 (by decide) hbit with ⟨clusters, hchain, hle, -⟩
  have hthree := chain_of_trail (show trail (fatStep (stick longDir) (geometry (stick longDir))) 2 3 =
    some [3] by decide +kernel)
  rw [show t'.diskCluster ((0 : UInt8).toNat : Int) = 3 from hcluster] at hchain
  rw [hchain.unique hthree, hblocks] at hle
  revert hle
  decide +kernel

end Mount

end LptStore.Fs
