import LptStore.Fs.Init

/-!
# Where `init_disk` ends

The walk over the root directory and the scans for gaps follow links read from the medium through the
FAT sector that `get_next_cluster` has cached, at first whatever lies on the stack. The walk ends
where its chain does; a scan ends there or at two clusters that do not adjoin. Nothing else stops
them: on a cycle `init_disk` runs for ever.
-/

namespace LptStore.Fs

open LptStore.Lib

section Families

variable {α β σ : Type} {m : Medium}

/-- A program with a bound on its rounds returns `a`: never anything else, and always with a bound
that is large enough. -/
structure Returns (m : Medium) (p : Nat → SectorProg α) (a : α) : Prop where
  stuckOr : ∀ n, Stuck m (p n) ∨ ∃ l, Reads m (p n) a l
  bound : ∃ n₀, ∀ n, n₀ ≤ n → ∃ l, Reads m (p n) a l

/-- The program returns with no bound. -/
def Diverges (m : Medium) (p : Nat → SectorProg α) : Prop := ∀ n, Stuck m (p n)

theorem Returns.of_reads {p : SectorProg α} {a : α} {l : List Touch} (h : Reads m p a l) :
    Returns m (fun _ => p) a := ⟨fun _ => .inr ⟨l, h⟩, 0, fun _ _ => ⟨l, h⟩⟩

theorem Returns.ret (a : α) : Returns m (fun _ => .ret a) a := .of_reads (.ret a)

theorem Returns.bind {p : Nat → SectorProg α} {f : Nat → α → SectorProg β} {a : α} {b : β}
    (hp : Returns m p a) (hf : Returns m (fun n => f n a) b) :
    Returns m (fun n => (p n).bind (f n)) b := by
  constructor
  · intro n
    rcases hp.stuckOr n with hstuck | ⟨l, hl⟩
    · exact .inl (hstuck.bind _)
    · rcases hf.stuckOr n with hstuck | ⟨l', hl'⟩
      · exact .inl (hl.bind_stuck hstuck)
      · exact .inr ⟨l ++ l', hl.bind hl'⟩
  · rcases hp.bound with ⟨n₁, h₁⟩
    rcases hf.bound with ⟨n₂, h₂⟩
    refine ⟨max n₁ n₂, fun n hn => ?_⟩
    rcases h₁ n (Nat.le_trans (Nat.le_max_left n₁ n₂) hn) with ⟨l, hl⟩
    rcases h₂ n (Nat.le_trans (Nat.le_max_right n₁ n₂) hn) with ⟨l', hl'⟩
    exact ⟨l ++ l', hl.bind hl'⟩

theorem Diverges.bind {p : Nat → SectorProg α} (f : Nat → α → SectorProg β) (hp : Diverges m p) :
    Diverges m fun n => (p n).bind (f n) := fun n => (hp n).bind _

/-- With one more round to its bound, the loop `p` goes from the state `x` as from `y`. -/
structure Round (m : Medium) (p : Nat → σ → SectorProg α) (x y : σ) : Prop where
  reads : ∃ l, ∀ n a l', Reads m (p n y) a l' → Reads m (p (n + 1) x) a (l ++ l')
  stuck : ∀ n, Stuck m (p n y) → Stuck m (p (n + 1) x)

/-- Some rounds of the loop `p`. -/
inductive Rounds (m : Medium) (p : Nat → σ → SectorProg α) : Nat → σ → σ → Prop
  | refl (x : σ) : Rounds m p 0 x x
  | step {k : Nat} {x y z : σ} : Round m p x y → Rounds m p k y z → Rounds m p (k + 1) x z

theorem Rounds.stuck {p : Nat → σ → SectorProg α} {x y : σ} {k n : Nat} (h : Rounds m p k x y)
    (hzero : ∀ x, Stuck m (p 0 x)) (hn : n ≤ k) : Stuck m (p n x) := by
  induction h generalizing n with
  | refl x =>
    rw [Nat.le_zero.mp hn]
    exact hzero x
  | step hround _ ih =>
    cases n with
    | zero => exact hzero _
    | succ n => exact hround.stuck n (ih (Nat.le_of_succ_le_succ hn))

theorem Rounds.reads {p : Nat → σ → SectorProg α} {x y : σ} {a : α} {k n : Nat}
    (h : Rounds m p k x y) (hlast : ∀ n, Reads m (p (n + 1) y) a []) (hn : k < n) :
    ∃ l, Reads m (p n x) a l := by
  induction h generalizing n with
  | refl x =>
    rcases Nat.exists_eq_succ_of_ne_zero (Nat.ne_of_gt hn) with ⟨n, rfl⟩
    exact ⟨[], hlast n⟩
  | step hround _ ih =>
    rcases Nat.exists_eq_succ_of_ne_zero (Nat.ne_of_gt (Nat.zero_lt_of_lt hn)) with ⟨n, rfl⟩
    rcases ih hlast (Nat.lt_of_succ_lt_succ hn) with ⟨l', hl'⟩
    rcases hround.reads with ⟨l, hl⟩
    exact ⟨l ++ l', hl n a l' hl'⟩

/-- A loop that comes to its last round returns. -/
theorem Rounds.returns {p : Nat → σ → SectorProg α} {x y : σ} {a : α} {k : Nat}
    (h : Rounds m p k x y) (hzero : ∀ x, Stuck m (p 0 x))
    (hlast : ∀ n, Reads m (p (n + 1) y) a []) : Returns m (fun n => p n x) a := by
  constructor
  · intro n
    rcases Nat.lt_or_ge k n with hlt | hge
    · exact .inr (h.reads hlast hlt)
    · exact .inl (h.stuck hzero hge)
  · exact ⟨k + 1, fun n hn => h.reads hlast hn⟩

/-- A loop that never comes to a last round does not. -/
theorem Diverges.of_rounds {p : Nat → σ → SectorProg α} {x : σ} (hzero : ∀ x, Stuck m (p 0 x))
    (h : ∀ k, ∃ y, Rounds m p k x y) : Diverges m fun n => p n x := by
  intro n
  rcases h n with ⟨y, hy⟩
  exact hy.stuck hzero (Nat.le_refl n)

theorem Returns.bind_diverges {p : Nat → SectorProg α} {f : Nat → α → SectorProg β} {a : α}
    (hp : Returns m p a) (hf : Diverges m fun n => f n a) :
    Diverges m fun n => (p n).bind (f n) := by
  intro n
  rcases hp.stuckOr n with hstuck | ⟨l, hl⟩
  · exact hstuck.bind _
  · exact hl.bind_stuck (hf n)

end Families

/-- A cluster and the FAT sector cached when its link is looked up. -/
structure Cursor where
  cluster : UInt32
  fat : Fat
  deriving DecidableEq

namespace Cursor

/-- The next cluster, as `get_next_cluster` finds it on a medium. -/
def next (m : Medium) (g : Geometry) (s : Cursor) : Cursor :=
  if s.fat.offset = 0xffffffff ∨ s.cluster < s.fat.offset ∨ s.cluster > s.fat.offset + 127 then
    let fat : Fat := ⟨s.cluster &&& 0xffffff80,
      m ((s.cluster.toInt32 / 128).toUInt32 + g.reservedSectorCount.toUInt32)⟩
    ⟨fat.entry (s.cluster &&& 0x7f), fat⟩
  else ⟨s.fat.entry (s.cluster &&& 0x7f), s.fat⟩

/-- The cursor `k` links further. -/
def after (m : Medium) (g : Geometry) : Nat → Cursor → Cursor
  | 0, s => s
  | k + 1, s => after m g k (s.next m g)

theorem getNextCluster_reads (m : Medium) (g : Geometry) (s : Cursor) :
    ∃ l, Reads m (getNextCluster ⟨g, s.fat⟩ s.cluster)
      ((s.next m g).cluster, ⟨g, (s.next m g).fat⟩) l := by
  unfold getNextCluster next
  dsimp only
  split_ifs
  · exact ⟨_, (Reads.readSector _ _ _).bind (Reads.ret _)⟩
  · exact ⟨_, Reads.ret _⟩

end Cursor

section Root

variable {m : Medium} {g : Geometry}

/-- The chain has its end at the `k`-th cluster. -/
def EndsAt (m : Medium) (g : Geometry) (s : Cursor) (k : Nat) : Prop :=
  ¬ inChain (s.after m g k).cluster ∧ ∀ j, j < k → inChain (s.after m g j).cluster

/-- The clusters before the `k`-th. -/
def clustersBefore (m : Medium) (g : Geometry) (s : Cursor) (k : Nat) : List UInt32 :=
  (List.range k).map fun j => (s.after m g j).cluster

theorem clustersBefore_succ (s : Cursor) (k : Nat) :
    clustersBefore m g s (k + 1) = s.cluster :: clustersBefore m g (s.next m g) k := by
  unfold clustersBefore
  rw [List.range_succ_eq_map, List.map_cons, List.map_map]
  rfl

/-- The tables after `process_dir_sector` has seen some sectors. -/
def scanSectorsOf (m : Medium) (g : Geometry) (sectors : List UInt32) (t : DriveTables) :
    DriveTables := sectors.foldl (fun t s => processDirEntries g (m s) dirOffsets t) t

/-- `read_file` on a directory from a cursor on. -/
def walk (g : Geometry) (n : Nat) (x : Cursor × Sector × DriveTables) :
    SectorProg (Fat32 × DriveTables) :=
  readFile processDirSector n ⟨g, x.1.fat⟩ x.1.cluster x.2.1 x.2.2

/-- A round of `read_file`: the sectors of the cluster, and its link. -/
theorem walk_round {s : Cursor} (buff : Sector) (t : DriveTables) (hc : inChain s.cluster) :
    ∃ buff', Round m (walk g) (s, buff, t)
      (s.next m g, buff', scanSectorsOf m g (clusterSectors g s.cluster) t) := by
  rcases readCluster_reads (fun g buff t => processDirEntries g buff dirOffsets t) ⟨g, s.fat⟩
    g.sectorsPerCluster.toNat (getLba g s.cluster) buff t (m := m) with ⟨buff', l₁, hread, -⟩
  rcases s.getNextCluster_reads m g with ⟨l₂, hnext⟩
  refine ⟨buff', ⟨l₁ ++ l₂, fun n r l' hrest => ?_⟩, fun n hrest => ?_⟩
  · unfold walk readFile
    rw [if_pos hc, List.append_assoc]
    exact hread.bind (hnext.bind hrest)
  · unfold walk readFile
    rw [if_pos hc]
    exact hread.bind_stuck (hnext.bind_stuck hrest)

theorem walk_rounds {k : Nat} {s : Cursor} (buff : Sector) (t : DriveTables)
    (h : ∀ j, j < k → inChain (s.after m g j).cluster) :
    ∃ buff', Rounds m (walk g) k (s, buff, t)
      (s.after m g k, buff', scanSectorsOf m g (fileSectors g (clustersBefore m g s k)) t) := by
  induction k generalizing s buff t with
  | zero => exact ⟨buff, .refl _⟩
  | succ k ih =>
    rcases walk_round buff t (h 0 (Nat.succ_pos k)) with ⟨buff₁, hround⟩
    rcases ih buff₁ (scanSectorsOf m g (clusterSectors g s.cluster) t)
      (fun j hj => h (j + 1) (Nat.succ_lt_succ hj)) with ⟨buff', hrest⟩
    refine ⟨buff', ?_⟩
    rw [clustersBefore_succ]
    unfold fileSectors scanSectorsOf
    rw [List.flatMap_cons, List.foldl_append]
    exact .step hround hrest

/-- The walk over a directory returns if its chain ends. -/
theorem readFile_returns {k : Nat} {s : Cursor} (buff : Sector) (t : DriveTables)
    (h : EndsAt m g s k) :
    Returns m (fun n => readFile processDirSector n ⟨g, s.fat⟩ s.cluster buff t)
      (⟨g, (s.after m g k).fat⟩, scanSectorsOf m g (fileSectors g (clustersBefore m g s k)) t) := by
  rcases walk_rounds buff t h.2 with ⟨buff', hrounds⟩
  refine hrounds.returns (fun _ _ => rfl) fun n => ?_
  unfold walk readFile
  rw [if_neg h.1]
  exact Reads.ret _

/-- A chain that reaches its end has a first one. -/
theorem exists_endsAt {s : Cursor} (h : ∃ k, ¬ inChain (s.after m g k).cluster) :
    ∃ k, EndsAt m g s k :=
  ⟨Nat.find h, Nat.find_spec h, fun _ hj => not_not.mp (Nat.find_min h hj)⟩

theorem readFile_diverges {s : Cursor} (buff : Sector) (t : DriveTables)
    (h : ¬ ∃ k, EndsAt m g s k) :
    Diverges m fun n => readFile processDirSector n ⟨g, s.fat⟩ s.cluster buff t := by
  have hnever (j : Nat) : inChain (s.after m g j).cluster := by
    by_contra hend
    exact h (exists_endsAt ⟨j, hend⟩)
  show Diverges m fun n => walk g n (s, buff, t)
  refine .of_rounds (fun _ _ => rfl) fun k => ?_
  rcases walk_rounds (k := k) buff t fun j _ => hnever j with ⟨buff', hrounds⟩
  exact ⟨_, hrounds⟩

end Root

section Coherent

variable {m : Medium} {g : Geometry}

/-- From a cache that is invalid or the medium's the cursor moves along the medium's FAT. -/
theorem Cursor.next_of_coherent {s : Cursor} (hc : inChain s.cluster)
    (hcache : Coherent m ⟨g, s.fat⟩) :
    (s.next m g).cluster = fatEntry m g s.cluster ∧ Coherent m ⟨g, (s.next m g).fat⟩ := by
  rcases Fs.getNextCluster_reads hc hcache with ⟨fat, l, hreads, hcache', -⟩
  rcases s.getNextCluster_reads m g with ⟨l', hcursor⟩
  have heq := (hreads.unique hcursor).1
  simp only [Prod.mk.injEq, Fat32.mk.injEq, true_and] at heq
  rcases heq with ⟨hcluster, hfat⟩
  refine ⟨hcluster.symm, ?_⟩
  rw [← hfat]
  exact hcache'

theorem clustersBefore_chain {s : Cursor} {k : Nat} (h : EndsAt m g s k)
    (hcache : Coherent m ⟨g, s.fat⟩) :
    Chain (fatStep m g) s.cluster (clustersBefore m g s k) := by
  induction k generalizing s with
  | zero => exact .stop (fatStep_end h.1)
  | succ k ih =>
    have hc : inChain s.cluster := h.2 0 (Nat.succ_pos k)
    rcases Cursor.next_of_coherent hc hcache with ⟨hcluster, hcache'⟩
    have hrest := ih (s := s.next m g)
      ⟨h.1, fun j hj => h.2 (j + 1) (Nat.succ_lt_succ hj)⟩ hcache'
    rw [hcluster] at hrest
    rw [clustersBefore_succ]
    exact .step (fatStep_inChain hc) hrest

theorem endsAt_of_chain {s : Cursor} {clusters : List UInt32} (hcache : Coherent m ⟨g, s.fat⟩)
    (h : Chain (fatStep m g) s.cluster clusters) : EndsAt m g s clusters.length := by
  generalize hstart : s.cluster = start at h
  induction h generalizing s with
  | @stop c hstop =>
    subst hstart
    refine ⟨fun hc => ?_, fun j hj => absurd hj (Nat.not_lt_zero j)⟩
    have hc : inChain s.cluster := hc
    rw [fatStep_inChain hc] at hstop
    cases hstop
  | @step c next cs hstep _ ih =>
    subst hstart
    have hc : inChain s.cluster := by
      by_contra hc
      rw [fatStep_end hc] at hstep
      cases hstep
    rw [fatStep_inChain hc] at hstep
    cases hstep
    rcases Cursor.next_of_coherent hc hcache with ⟨hcluster, hcache'⟩
    rcases ih hcache' hcluster with ⟨hend, hbefore⟩
    refine ⟨hend, fun j hj => ?_⟩
    cases j with
    | zero => exact hc
    | succ j => exact hbefore j (Nat.lt_of_succ_lt_succ hj)

end Coherent

section Gaps

variable {m : Medium} {g : Geometry}

/-- Inside a cluster the sectors follow each other: only the first is compared with anything else. -/
theorem gapInCluster_eq (k : Nat) (lba last : UInt32) :
    gapInCluster k lba last =
      if k = 0 then some last
      else if last ≠ 0 ∧ last + 1 ≠ lba then none
      else some (lba + UInt32.ofNat (k - 1)) := by
  induction k generalizing lba last with
  | zero => rfl
  | succ k ih =>
    unfold gapInCluster
    rw [if_neg (Nat.succ_ne_zero k), ih]
    cases k with
    | zero =>
      have hfirst : lba + UInt32.ofNat 0 = lba := UInt32.add_zero lba
      simp only [if_true, Nat.zero_add, Nat.sub_self, hfirst]
    | succ k =>
      have hsum : lba + 1 + UInt32.ofNat k = lba + UInt32.ofNat (k + 1) := by
        rw [UInt32.add_assoc, UInt32.ofNat_add, UInt32.add_comm 1]
        rfl
      simp [hsum]

/-- The last sector of a cluster that has any. -/
def lastSector (g : Geometry) (cluster : UInt32) : UInt32 :=
  getLba g cluster + UInt32.ofNat (g.sectorsPerCluster.toNat - 1)

/-- The clusters do not adjoin. Clusters without sectors and a last sector 0 always do. -/
def Breaks (g : Geometry) (cluster next : UInt32) : Prop :=
  g.sectorsPerCluster ≠ 0 ∧ lastSector g cluster ≠ 0 ∧ lastSector g cluster + 1 ≠ getLba g next

/-- A scan for gaps stops at the `k`-th cluster: there the chain has its end, or the cluster does not
adjoin the one before. -/
def HaltsAt (m : Medium) (g : Geometry) (s : Cursor) : Nat → Prop
  | 0 => ¬ inChain s.cluster
  | k + 1 => ¬ inChain (s.after m g (k + 1)).cluster ∨
      Breaks g (s.after m g k).cluster (s.after m g (k + 1)).cluster

/-- The first cluster where a scan for gaps stops. -/
def ScanEndsAt (m : Medium) (g : Geometry) (s : Cursor) (k : Nat) : Prop :=
  HaltsAt m g s k ∧ ∀ j, j < k → ¬ HaltsAt m g s j

/-- The scan stops at the `k`-th cluster from here if the last sector seen is `last`. -/
def haltsFrom (m : Medium) (g : Geometry) (last : UInt32) (s : Cursor) : Nat → Prop
  | 0 => ¬ inChain s.cluster ∨
      g.sectorsPerCluster ≠ 0 ∧ last ≠ 0 ∧ last + 1 ≠ getLba g s.cluster
  | k + 1 => haltsFrom m g (if g.sectorsPerCluster = 0 then last else lastSector g s.cluster)
      (s.next m g) k

theorem haltsFrom_succ (last : UInt32) (s : Cursor) (k : Nat) :
    haltsFrom m g last s (k + 1) ↔ HaltsAt m g s (k + 1) := by
  induction k generalizing last s with
  | zero =>
    refine or_congr Iff.rfl (and_congr_right fun hspc => ?_)
    rw [if_neg hspc]
    exact Iff.rfl
  | succ k ih => exact ih _ (s.next m g)

theorem haltsFrom_start (s : Cursor) (k : Nat) : haltsFrom m g 0 s k ↔ HaltsAt m g s k := by
  cases k with
  | zero => exact or_iff_left fun h => h.2.1 rfl
  | succ k => exact haltsFrom_succ 0 s k

/-- The last sector that a scan has seen after a cluster. -/
def lastAfter (g : Geometry) (last : UInt32) (cluster : UInt32) : UInt32 :=
  if g.sectorsPerCluster = 0 then last else lastSector g cluster

theorem sectors_ne_zero {g : Geometry} (h : g.sectorsPerCluster ≠ 0) :
    g.sectorsPerCluster.toNat ≠ 0 := fun hzero => h (UInt8.toNat_inj.mp hzero)

/-- `file_has_gaps` from a cursor and the last sector seen on. -/
def scan (g : Geometry) (n : Nat) (x : Cursor × UInt32) : SectorProg (Int × Fat32) :=
  fileHasGaps n ⟨g, x.1.fat⟩ x.1.cluster x.2

/-- A round of `file_has_gaps`. -/
theorem scan_round {s : Cursor} {last : UInt32} (h : ¬ haltsFrom m g last s 0) :
    Round m (scan g) (s, last) (s.next m g, lastAfter g last s.cluster) := by
  rcases not_or.mp h with ⟨hc, hgap⟩
  have hsectors : gapInCluster g.sectorsPerCluster.toNat (getLba g s.cluster) last =
      some (lastAfter g last s.cluster) := by
    rw [gapInCluster_eq]
    unfold lastAfter
    by_cases hspc : g.sectorsPerCluster = 0
    · rw [hspc]
      rfl
    · rw [if_neg (sectors_ne_zero hspc), if_neg fun hbreak => hgap ⟨hspc, hbreak⟩, if_neg hspc]
      rfl
  rcases s.getNextCluster_reads m g with ⟨l, hnext⟩
  refine ⟨⟨l, fun n r l' hrest => ?_⟩, fun n hrest => ?_⟩
  · unfold scan fileHasGaps
    rw [if_pos (not_not.mp hc), hsectors]
    exact hnext.bind hrest
  · unfold scan fileHasGaps
    rw [if_pos (not_not.mp hc), hsectors]
    exact hnext.bind_stuck hrest

theorem scan_rounds {k : Nat} {s : Cursor} {last : UInt32}
    (h : ∀ j, j < k → ¬ haltsFrom m g last s j) :
    ∃ last', Rounds m (scan g) k (s, last) (s.after m g k, last') ∧
      (haltsFrom m g last s k → haltsFrom m g last' (s.after m g k) 0) := by
  induction k generalizing s last with
  | zero => exact ⟨last, .refl _, fun hhalt => hhalt⟩
  | succ k ih =>
    rcases ih fun j hj => h (j + 1) (Nat.succ_lt_succ hj) with ⟨last', hrest, hhalt⟩
    exact ⟨last', .step (scan_round (h 0 (Nat.succ_pos k))) hrest, hhalt⟩

/-- The last round: the end of the chain, or a gap. -/
theorem scan_halts {n : Nat} {s : Cursor} {last : UInt32} (h : haltsFrom m g last s 0) :
    Reads m (scan g (n + 1) (s, last)) (if inChain s.cluster then 1 else 0, ⟨g, s.fat⟩) [] := by
  unfold scan fileHasGaps
  by_cases hc : inChain s.cluster
  · have hgap := Or.resolve_left h (not_not.mpr hc)
    have hsectors : gapInCluster g.sectorsPerCluster.toNat (getLba g s.cluster) last = none := by
      rw [gapInCluster_eq, if_neg (sectors_ne_zero hgap.1), if_pos hgap.2]
    rw [if_pos hc, if_pos hc, hsectors]
    exact Reads.ret _
  · rw [if_neg hc, if_neg hc]
    exact Reads.ret _

/-- A scan for gaps returns if it has somewhere to stop. -/
theorem fileHasGaps_returns {s : Cursor} {k : Nat} (h : ScanEndsAt m g s k) :
    Returns m (fun n => fileHasGaps n ⟨g, s.fat⟩ s.cluster 0)
      (if inChain (s.after m g k).cluster then 1 else 0, ⟨g, (s.after m g k).fat⟩) := by
  have hbefore (j : Nat) (hj : j < k) : ¬ haltsFrom m g 0 s j := fun hhalt =>
    h.2 j hj ((haltsFrom_start s j).mp hhalt)
  rcases scan_rounds hbefore with ⟨last, hrounds, hhalt⟩
  exact hrounds.returns (fun _ _ => rfl) fun _ =>
    scan_halts (hhalt ((haltsFrom_start s k).mpr h.1))

theorem fileHasGaps_diverges {s : Cursor} (h : ¬ ∃ k, ScanEndsAt m g s k) :
    Diverges m fun n => fileHasGaps n ⟨g, s.fat⟩ s.cluster 0 := by
  classical
  have hnever (j : Nat) : ¬ haltsFrom m g 0 s j := by
    intro hhalt
    have hex : ∃ k, HaltsAt m g s k := ⟨j, (haltsFrom_start s j).mp hhalt⟩
    exact h ⟨Nat.find hex, Nat.find_spec hex, fun _ hlt => Nat.find_min hex hlt⟩
  show Diverges m fun n => scan g n (s, 0)
  refine .of_rounds (fun _ _ => rfl) fun k => ?_
  rcases scan_rounds (k := k) fun j _ => hnever j with ⟨last, hrounds, -⟩
  exact ⟨_, hrounds⟩

end Gaps

section Checks

variable {m : Medium} {g : Geometry}

/-- The scans for gaps from some start clusters, each with the cache that the one before it leaves,
all stop. -/
inductive ScansEnd (m : Medium) (g : Geometry) : List UInt32 → Fat → Fat → Prop
  | nil (fat : Fat) : ScansEnd m g [] fat fat
  | cons {cluster : UInt32} {clusters : List UInt32} {fat fat' : Fat} {k : Nat} :
      ScanEndsAt m g ⟨cluster, fat⟩ k →
      ScansEnd m g clusters (Cursor.after m g k ⟨cluster, fat⟩).fat fat' →
      ScansEnd m g (cluster :: clusters) fat fat'

theorem ScansEnd.append {cs cs' : List UInt32} {fat fat₁ fat' : Fat} (h : ScansEnd m g cs fat fat₁)
    (h' : ScansEnd m g cs' fat₁ fat') : ScansEnd m g (cs ++ cs') fat fat' := by
  induction h with
  | nil => exact h'
  | cons hend _ ih => exact .cons hend (ih h')

theorem ScansEnd.of_append {cs cs' : List UInt32} {fat fat' : Fat}
    (h : ScansEnd m g (cs ++ cs') fat fat') :
    ∃ fat₁, ScansEnd m g cs fat fat₁ ∧ ScansEnd m g cs' fat₁ fat' := by
  induction cs generalizing fat with
  | nil => exact ⟨fat, .nil fat, h⟩
  | cons c cs ih =>
    cases h with
    | cons hend hrest =>
      rcases ih hrest with ⟨fat₁, hcs, hcs'⟩
      exact ⟨fat₁, .cons hend hcs, hcs'⟩

theorem scansEnd_singleton {c : UInt32} {fat : Fat} :
    (∃ fat', ScansEnd m g [c] fat fat') ↔ ∃ k, ScanEndsAt m g ⟨c, fat⟩ k := by
  constructor
  · rintro ⟨fat', h⟩
    cases h with
    | cons hend _ => exact ⟨_, hend⟩
  · rintro ⟨k, hend⟩
    exact ⟨_, .cons hend (.nil _)⟩

/-- Where the scans for gaps of the drives found start. -/
def diskStarts (t : DriveTables) (is : List Nat) : List UInt32 :=
  (is.filter fun i : Nat => t.diskLba i ≠ 0).map fun i : Nat => t.diskCluster i

/-- Where the scan for gaps of the configuration file starts, if it was found. -/
def configStarts (t : DriveTables) : List UInt32 := if t.cfgCluster ≠ 0 then [t.cfgCluster] else []

theorem diskStarts_cons (t : DriveTables) (i : Nat) (is : List Nat) :
    diskStarts t (i :: is) = diskStarts t [i] ++ diskStarts t is := by
  unfold diskStarts
  rw [← List.map_append, ← List.filter_append, List.singleton_append]

theorem diskStarts_present {t : DriveTables} {i : Nat} (h : t.diskLba i ≠ 0) :
    diskStarts t [i] = [t.diskCluster i] := by
  simp [diskStarts, h]

theorem diskStarts_absent {t : DriveTables} {i : Nat} (h : ¬ t.diskLba i ≠ 0) :
    diskStarts t [i] = [] := by
  simp [diskStarts, not_not.mp h]

theorem diskStarts_judgeDisk {t : DriveTables} {i : Nat} {is : List Nat} (gaps : Bool)
    (h : i ∉ is) : diskStarts (t.judgeDisk i gaps) is = diskStarts t is := by
  have hslot : ∀ j ∈ is, (t.judgeDisk i gaps).diskLba j = t.diskLba j ∧
      (t.judgeDisk i gaps).diskCluster j = t.diskCluster j := by
    intro j hj
    have hne : (j : Int) ≠ i := by
      rintro heq
      exact h (Int.ofNat.inj heq ▸ hj)
    cases gaps with
    | true => exact ⟨Function.update_of_ne hne _ _, Function.update_of_ne hne _ _⟩
    | false => exact ⟨rfl, rfl⟩
  unfold diskStarts
  rw [List.filter_congr fun j hj => by rw [(hslot j hj).1]]
  exact List.map_congr_left fun j hj => (hslot j (List.mem_of_mem_filter hj)).2

/-- Drive `i` before and after its check. -/
inductive DiskChecked (m : Medium) (g : Geometry) (i : Nat) (fat : Fat) (t : DriveTables) :
    DriveTables → Prop
  | absent : ¬ t.diskLba i ≠ 0 → DiskChecked m g i fat t t
  | scanned {k : Nat} : t.diskLba i ≠ 0 → ScanEndsAt m g ⟨t.diskCluster i, fat⟩ k →
      DiskChecked m g i fat t
        (t.judgeDisk i (decide (inChain (Cursor.after m g k ⟨t.diskCluster i, fat⟩).cluster)))

/-- The drives behind it are not touched. -/
theorem DiskChecked.diskStarts_eq {i : Nat} {fat : Fat} {t t' : DriveTables}
    (h : DiskChecked m g i fat t t') {is : List Nat} (hi : i ∉ is) :
    diskStarts t' is = diskStarts t is := by
  cases h with
  | absent _ => rfl
  | scanned _ _ => exact diskStarts_judgeDisk _ hi

theorem DiskChecked.cfgCluster_eq {i : Nat} {fat : Fat} {t t' : DriveTables}
    (h : DiskChecked m g i fat t t') : t'.cfgCluster = t.cfgCluster := by
  cases h with
  | absent _ => rfl
  | scanned _ _ =>
    unfold DriveTables.judgeDisk
    split_ifs <;> rfl

theorem checkDisk_returns {i : Nat} {t : DriveTables} {fat fat' : Fat}
    (h : ScansEnd m g (diskStarts t [i]) fat fat') :
    ∃ t', Returns m (fun n => checkDisk n i ⟨g, fat⟩ t) (⟨g, fat'⟩, t') ∧
      DiskChecked m g i fat t t' := by
  unfold checkDisk
  by_cases hlba : t.diskLba i ≠ 0
  · rw [diskStarts_present hlba] at h
    cases h with
    | @cons _ _ _ _ k hend hrest =>
      cases hrest
      have hscan := fileHasGaps_returns hend
      have hchecked := DiskChecked.scanned hlba hend
      simp only [if_pos hlba]
      by_cases hc : inChain (Cursor.after m g k ⟨t.diskCluster i, fat⟩).cluster
      · rw [if_pos hc] at hscan
        rw [decide_eq_true hc] at hchecked
        exact ⟨t.judgeDisk i true, hscan.bind (Returns.ret _), hchecked⟩
      · rw [if_neg hc] at hscan
        rw [decide_eq_false hc] at hchecked
        exact ⟨t.judgeDisk i false, hscan.bind (Returns.ret _), hchecked⟩
  · rw [diskStarts_absent hlba] at h
    cases h
    simp only [if_neg hlba]
    exact ⟨t, Returns.ret _, .absent hlba⟩

theorem checkDisk_diverges {i : Nat} {t : DriveTables} {fat : Fat}
    (h : ¬ ∃ fat', ScansEnd m g (diskStarts t [i]) fat fat') :
    Diverges m fun n => checkDisk n i ⟨g, fat⟩ t := by
  unfold checkDisk
  by_cases hlba : t.diskLba i ≠ 0
  · rw [diskStarts_present hlba, scansEnd_singleton] at h
    simp only [if_pos hlba]
    exact (fileHasGaps_diverges h).bind _
  · rw [diskStarts_absent hlba] at h
    exact absurd ⟨fat, .nil fat⟩ h

/-- The drives before and after their checks, each from the cache that the one before it leaves. -/
inductive DisksChecked (m : Medium) (g : Geometry) : List Nat → Fat → DriveTables → DriveTables → Prop
  | nil (fat : Fat) (t : DriveTables) : DisksChecked m g [] fat t t
  | cons {i : Nat} {is : List Nat} {fat fat₁ : Fat} {t t₁ t' : DriveTables} :
      DiskChecked m g i fat t t₁ → ScansEnd m g (diskStarts t [i]) fat fat₁ →
      DisksChecked m g is fat₁ t₁ t' → DisksChecked m g (i :: is) fat t t'

theorem DisksChecked.cfgCluster_eq {is : List Nat} {fat : Fat} {t t' : DriveTables}
    (h : DisksChecked m g is fat t t') : t'.cfgCluster = t.cfgCluster := by
  induction h with
  | nil => rfl
  | cons hfirst _ _ ih => exact ih.trans hfirst.cfgCluster_eq

theorem checkDisks_returns {is : List Nat} {t : DriveTables} {fat fat' : Fat} (hnodup : is.Nodup)
    (h : ScansEnd m g (diskStarts t is) fat fat') :
    ∃ t', Returns m (fun n => checkDisks n is ⟨g, fat⟩ t) (⟨g, fat'⟩, t') ∧
      DisksChecked m g is fat t t' := by
  induction is generalizing t fat with
  | nil =>
    cases h
    exact ⟨t, Returns.ret _, .nil _ _⟩
  | cons i is ih =>
    rcases List.nodup_cons.mp hnodup with ⟨hi, his⟩
    rw [diskStarts_cons] at h
    rcases h.of_append with ⟨fat₁, hfirst, hrest⟩
    rcases checkDisk_returns hfirst with ⟨t₁, hcheck, hchecked⟩
    rw [← hchecked.diskStarts_eq hi] at hrest
    rcases ih his hrest with ⟨t', hchecks, hall⟩
    exact ⟨t', hcheck.bind hchecks, .cons hchecked hfirst hall⟩

theorem checkDisks_diverges {is : List Nat} {t : DriveTables} {fat : Fat} (hnodup : is.Nodup)
    (h : ¬ ∃ fat', ScansEnd m g (diskStarts t is) fat fat') :
    Diverges m fun n => checkDisks n is ⟨g, fat⟩ t := by
  induction is generalizing t fat with
  | nil => exact absurd ⟨fat, .nil fat⟩ h
  | cons i is ih =>
    rcases List.nodup_cons.mp hnodup with ⟨hi, his⟩
    rw [diskStarts_cons] at h
    by_cases hfirst : ∃ fat', ScansEnd m g (diskStarts t [i]) fat fat'
    · rcases hfirst with ⟨fat₁, hfirst⟩
      rcases checkDisk_returns hfirst with ⟨t₁, hcheck, hchecked⟩
      refine hcheck.bind_diverges (ih his ?_)
      rintro ⟨fat', hrest⟩
      rw [hchecked.diskStarts_eq hi] at hrest
      exact h ⟨fat', hfirst.append hrest⟩
    · exact (checkDisk_diverges hfirst).bind _

/-- The configuration file before and after its check. -/
inductive ConfigChecked (m : Medium) (g : Geometry) (fat : Fat) (t : DriveTables) :
    DriveTables → Prop
  | absent : ¬ t.cfgCluster ≠ 0 → ConfigChecked m g fat t t
  | scanned {k : Nat} : t.cfgCluster ≠ 0 → ScanEndsAt m g ⟨t.cfgCluster, fat⟩ k →
      ConfigChecked m g fat t
        (t.judgeConfig (decide (inChain (Cursor.after m g k ⟨t.cfgCluster, fat⟩).cluster)))

theorem checkConfig_returns {t : DriveTables} {fat fat' : Fat}
    (h : ScansEnd m g (configStarts t) fat fat') :
    ∃ t', Returns m (fun n => checkConfig n ⟨g, fat⟩ t) t' ∧ ConfigChecked m g fat t t' := by
  unfold configStarts at h
  unfold checkConfig
  by_cases hcluster : t.cfgCluster ≠ 0
  · rw [if_pos hcluster] at h
    simp only [if_pos hcluster]
    cases h with
    | @cons _ _ _ _ k hend _ =>
      have hscan := fileHasGaps_returns hend
      have hchecked := ConfigChecked.scanned hcluster hend
      by_cases hc : inChain (Cursor.after m g k ⟨t.cfgCluster, fat⟩).cluster
      · rw [if_pos hc] at hscan
        rw [decide_eq_true hc] at hchecked
        exact ⟨t.judgeConfig true, hscan.bind (Returns.ret _), hchecked⟩
      · rw [if_neg hc] at hscan
        rw [decide_eq_false hc] at hchecked
        exact ⟨t.judgeConfig false, hscan.bind (Returns.ret _), hchecked⟩
  · simp only [if_neg hcluster]
    exact ⟨t, Returns.ret _, .absent hcluster⟩

theorem checkConfig_diverges {t : DriveTables} {fat : Fat}
    (h : ¬ ∃ fat', ScansEnd m g (configStarts t) fat fat') :
    Diverges m fun n => checkConfig n ⟨g, fat⟩ t := by
  unfold configStarts at h
  unfold checkConfig
  by_cases hcluster : t.cfgCluster ≠ 0
  · rw [if_pos hcluster, scansEnd_singleton] at h
    simp only [if_pos hcluster]
    exact (fileHasGaps_diverges h).bind _
  · rw [if_neg hcluster] at h
    exact absurd ⟨fat, .nil fat⟩ h

end Checks

section Insert

variable {m : Medium} {stack : Stack} {t : DriveTables}

/-- Where the walk over the root directory starts. -/
def rootCursor (m : Medium) (stack : Stack) : Cursor :=
  ⟨(geometry m).rootDirectoryFirstCluster, stack.fat32.fat⟩

/-- The tables after a root directory that ends at the `k`-th cluster. -/
def rootTables (m : Medium) (stack : Stack) (t : DriveTables) (k : Nat) : DriveTables :=
  t.scanned m (listed m (fileSectors (geometry m)
    (clustersBefore m (geometry m) (rootCursor m stack) k)))

/-- The chain of the root directory has an end, and each scan for gaps somewhere to stop. -/
def InitEnds (m : Medium) (stack : Stack) (t : DriveTables) : Prop :=
  isSigned (m 0) = true → ∃ k, EndsAt m (geometry m) (rootCursor m stack) k ∧
    ∃ fat, ScansEnd m (geometry m)
      (diskStarts (rootTables m stack t k) (List.range NR_DISKS) ++
        configStarts (rootTables m stack t k))
      ((rootCursor m stack).after m (geometry m) k).fat fat

theorem readRoot_returns {k : Nat} (h : EndsAt m (geometry m) (rootCursor m stack) k) :
    Returns m (fun n => readFile processDirSector n ⟨geometry m, stack.fat32.fat⟩
        (geometry m).rootDirectoryFirstCluster stack.fileBuff { t with diskBitmap := 0 })
      (⟨geometry m, ((rootCursor m stack).after m (geometry m) k).fat⟩, rootTables m stack t k) := by
  have hread := readFile_returns stack.fileBuff { t with diskBitmap := 0 } h
  unfold scanSectorsOf at hread
  rw [scan_eq] at hread
  exact hread

/-- What `init_disk` returns, and the tables before and after. -/
inductive Inserted (m : Medium) (stack : Stack) (t : DriveTables) : Int × DriveTables → Prop
  | unsigned : isSigned (m 0) ≠ true → Inserted m stack t (1, { t with diskBitmap := 0 })
  | signed {k : Nat} {fat : Fat} {u t' : DriveTables} :
      isSigned (m 0) = true → EndsAt m (geometry m) (rootCursor m stack) k →
      DisksChecked m (geometry m) (List.range NR_DISKS)
        ((rootCursor m stack).after m (geometry m) k).fat (rootTables m stack t k) u →
      ConfigChecked m (geometry m) fat u t' → Inserted m stack t (0, t')

theorem initDisk_returns (h : InitEnds m stack t) :
    ∃ r, Returns m (fun n => initDisk n stack t) r ∧ Inserted m stack t r := by
  have hid := readFsId_reads (m := m) stack.fat32 stack.fsIdBuff
  by_cases hsigned : isSigned (m 0) = true
  · rw [if_pos hsigned] at hid
    rcases h hsigned with ⟨k, hend, fat, hscans⟩
    rcases hscans.of_append with ⟨fat₁, hdisks, hconfig⟩
    rcases checkDisks_returns (List.nodup_range) hdisks with ⟨u, hchecks, hchecked⟩
    have hsame : configStarts u = configStarts (rootTables m stack t k) := by
      unfold configStarts
      rw [hchecked.cfgCluster_eq]
    rw [← hsame] at hconfig
    rcases checkConfig_returns hconfig with ⟨u', hcheck, hconfigChecked⟩
    exact ⟨(0, u'), (Returns.of_reads hid).bind ((readRoot_returns hend).bind
      (hchecks.bind (hcheck.bind (Returns.ret _)))), .signed hsigned hend hchecked hconfigChecked⟩
  · rw [if_neg hsigned] at hid
    exact ⟨(1, { t with diskBitmap := 0 }), (Returns.of_reads hid).bind (Returns.ret _),
      .unsigned hsigned⟩

theorem initDisk_diverges (h : ¬ InitEnds m stack t) :
    Diverges m fun n => initDisk n stack t := by
  have hid := readFsId_reads (m := m) stack.fat32 stack.fsIdBuff
  unfold InitEnds at h
  rcases Classical.not_imp.mp h with ⟨hsigned, hends⟩
  rw [if_pos hsigned] at hid
  refine (Returns.of_reads hid).bind_diverges ?_
  by_cases hroot : ∃ k, EndsAt m (geometry m) (rootCursor m stack) k
  · rcases hroot with ⟨k, hend⟩
    refine (readRoot_returns hend).bind_diverges ?_
    by_cases hdisks : ∃ fat, ScansEnd m (geometry m)
        (diskStarts (rootTables m stack t k) (List.range NR_DISKS))
        ((rootCursor m stack).after m (geometry m) k).fat fat
    · rcases hdisks with ⟨fat₁, hdisks⟩
      rcases checkDisks_returns (List.nodup_range) hdisks with ⟨u, hchecks, hchecked⟩
      have hsame : configStarts u = configStarts (rootTables m stack t k) := by
        unfold configStarts
        rw [hchecked.cfgCluster_eq]
      refine hchecks.bind_diverges ((checkConfig_diverges ?_).bind _)
      rintro ⟨fat, hconfig⟩
      rw [hsame] at hconfig
      exact hends ⟨k, hend, fat, hdisks.append hconfig⟩
    · exact (checkDisks_diverges (List.nodup_range) hdisks).bind _
  · exact (readFile_diverges stack.fileBuff { t with diskBitmap := 0 } hroot).bind _

/-- A run of `init_disk` that has returned. -/
theorem inserted_of_exec {fuel : Nat} {r : Int × DriveTables} {w : Bench}
    (h : (initDisk fuel stack t).exec Bench.answer ⟨m, []⟩ = some (r, w)) :
    Inserted m stack t r ∧ Reads m (initDisk fuel stack t) r w.log := by
  by_cases hends : InitEnds m stack t
  · rcases initDisk_returns hends with ⟨r', hreturns, hinserted⟩
    rcases hreturns.stuckOr fuel with hstuck | ⟨l, hl⟩
    · rw [hstuck []] at h
      cases h
    · have hrun := hl []
      rw [h] at hrun
      cases hrun
      exact ⟨hinserted, hl⟩
  · rw [initDisk_diverges hends fuel []] at h
    cases h

/-- On a stick, `init_disk` returns exactly when its walks have somewhere to stop. `DISKx` names beyond A .. P
are taken to store in no variable used here. -/
theorem initDisk_terminates_iff (m : Medium) (stack : Stack) (t : DriveTables) :
    (∃ fuel r w, (initDisk fuel stack t).exec Bench.answer ⟨m, []⟩ = some (r, w)) ↔
      InitEnds m stack t := by
  constructor
  · rintro ⟨fuel, r, w, hrun⟩
    by_contra hends
    rw [initDisk_diverges hends fuel []] at hrun
    cases hrun
  · intro hends
    rcases initDisk_returns hends with ⟨r, hreturns, -⟩
    rcases hreturns.bound with ⟨fuel, hfuel⟩
    rcases hfuel fuel (Nat.le_refl fuel) with ⟨l, hl⟩
    exact ⟨fuel, r, _, hl []⟩

/-- A stick whose root directory is its own successor in the FAT. -/
def loopStick : Medium := fun sector =>
  if sector = 0 then
    ((((Sector.zero.set 0x0d 1).set 0x0e 1).set 0x24 1).set 0x2c 2).setFrom 0x1fe [0x55, 0xaa]
  else Sector.zero.set 8 2

theorem loopStick_next : ∀ fat ∈ [⟨0xffffffff, .zero⟩, ⟨0, loopStick 1⟩],
    Cursor.next loopStick (geometry loopStick) ⟨2, fat⟩ = ⟨2, ⟨0, loopStick 1⟩⟩ := by
  decide +kernel

theorem loopStick_after (k : Nat) (fat : Fat) (h : fat ∈ [⟨0xffffffff, .zero⟩, ⟨0, loopStick 1⟩]) :
    (Cursor.after loopStick (geometry loopStick) k ⟨2, fat⟩).cluster = 2 := by
  induction k generalizing fat with
  | zero => rfl
  | succ k ih =>
    unfold Cursor.after
    rw [loopStick_next fat h]
    exact ih ⟨0, loopStick 1⟩ (List.mem_cons_of_mem _ (List.mem_singleton.mpr rfl))

/-- The root directory of that stick is walked for ever. -/
theorem initDisk_loops : ¬ ∀ (m : Medium) (stack : Stack) (t : DriveTables),
    ∃ fuel r w, (initDisk fuel stack t).exec Bench.answer ⟨m, []⟩ = some (r, w) := by
  intro h
  have hends : ¬ InitEnds loopStick
      ⟨⟨⟨0, 0, 0, 0⟩, ⟨0xffffffff, .zero⟩⟩, .zero, .zero⟩ .zero := by
    intro hends
    rcases hends (by decide +kernel) with ⟨k, hend, -⟩
    have hout : ¬ inChain (Cursor.after loopStick (geometry loopStick) k
      ⟨2, ⟨0xffffffff, .zero⟩⟩).cluster := hend.1
    rw [loopStick_after k _ List.mem_cons_self] at hout
    exact hout (by decide)
  rcases h loopStick _ .zero with ⟨fuel, r, w, hrun⟩
  rw [initDisk_diverges hends fuel []] at hrun
  cases hrun

end Insert

end LptStore.Fs
