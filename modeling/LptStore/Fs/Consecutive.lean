import Mathlib.Logic.Relation
import LptStore.Fs.Contiguous
import LptStore.Fs.Termination

/-!
# What `file_has_gaps` decides

As long as the sectors of the chain's clusters have numbers from 1 to 2^32 - 1, two clusters adjoin
exactly when their numbers follow each other. So a scan that goes on counts its cluster up, which it
can only do below 0x0ffffff0: it ends on every FAT, cycles included, and finds no gap exactly on the
chains `c, c + 1, .., c + k`.
-/

namespace LptStore.Fs

open LptStore.Lib

/-- The number of a cluster's first sector before it is cut to 32 bits. -/
def clusterStart (g : Geometry) (cluster : UInt32) : Int :=
  g.reservedSectorCount.toNat + 2 * g.sectorsPerFAT.toNat +
    g.sectorsPerCluster.toNat * (cluster.toNat - 2)

/-- The numbers of the cluster's sectors are not zero and do not wrap. -/
def Numbered (g : Geometry) (cluster : UInt32) : Prop :=
  0 < clusterStart g cluster ∧ clusterStart g cluster + g.sectorsPerCluster.toNat ≤ 2 ^ 32

instance (g : Geometry) (cluster : UInt32) : Decidable (Numbered g cluster) :=
  inferInstanceAs (Decidable (_ ∧ _))

/-- `cluster` lies on the chain from `start`, which need not end. -/
def OnChain (m : Medium) (g : Geometry) (start cluster : UInt32) : Prop :=
  Relation.ReflTransGen (fun c next => fatStep m g c = some next) start cluster ∧ inChain cluster

/-- The chain from `start` ends, and its clusters are `start`, `start + 1` and so on. -/
def Consecutive (m : Medium) (g : Geometry) (start : UInt32) : Prop :=
  ∃ clusters, Chain (fatStep m g) start clusters ∧
    clusters.map UInt32.toNat = List.range' start.toNat clusters.length

section Numbers

variable {g : Geometry} {cluster next : UInt32}

/-- Modulo 2^32 the subtraction of 2 cannot be told from the integers'. -/
theorem getLba_eq_mod (g : Geometry) (cluster : UInt32) :
    ((getLba g cluster).toNat : Int) = clusterStart g cluster % 2 ^ 32 := by
  have hsub : ((cluster - 2).toNat : Int) = ((cluster.toNat : Int) - 2) % 2 ^ 32 := by
    rw [UInt32.toNat_sub]
    have hlt := cluster.toNat_lt
    have htwo : (2 : UInt32).toNat = 2 := rfl
    omega
  have hmul : (g.sectorsPerCluster.toNat * (cluster - 2).toNat : Int) % 2 ^ 32 =
      g.sectorsPerCluster.toNat * (cluster.toNat - 2) % 2 ^ 32 := by
    rw [hsub, Int.mul_emod, Int.emod_emod, ← Int.mul_emod]
  unfold getLba clusterStart
  simp only [UInt32.toNat_add, UInt32.toNat_mul, UInt16.toNat_toUInt32, UInt8.toNat_toUInt32,
    UInt32.reduceToNat]
  push_cast
  omega

theorem Numbered.toNat_getLba (h : Numbered g cluster) (hspc : 1 ≤ g.sectorsPerCluster.toNat) :
    ((getLba g cluster).toNat : Int) = clusterStart g cluster := by
  rw [getLba_eq_mod]
  rcases h with ⟨hpos, hfits⟩
  exact Int.emod_eq_of_lt (by omega) (by omega)

theorem Numbered.toNat_lastSector (h : Numbered g cluster) (hspc : 1 ≤ g.sectorsPerCluster.toNat) :
    ((lastSector g cluster).toNat : Int) = clusterStart g cluster + g.sectorsPerCluster.toNat - 1 := by
  have hfirst := h.toNat_getLba hspc
  rcases h with ⟨hpos, hfits⟩
  unfold lastSector
  rw [UInt32.toNat_add, UInt32.toNat_ofNat']
  omega

theorem Numbered.lastSector_ne_zero (h : Numbered g cluster)
    (hspc : 1 ≤ g.sectorsPerCluster.toNat) : lastSector g cluster ≠ 0 := by
  intro hzero
  have hlast := h.toNat_lastSector hspc
  rw [hzero, UInt32.toNat_zero] at hlast
  have hpos := h.1
  omega

/-- Two clusters adjoin exactly when their numbers follow each other. -/
theorem Numbered.adjoins_iff (h : Numbered g cluster) (hnext : Numbered g next)
    (hspc : 1 ≤ g.sectorsPerCluster.toNat) :
    lastSector g cluster + 1 = getLba g next ↔ next.toNat = cluster.toNat + 1 := by
  have hlast := h.toNat_lastSector hspc
  have hfirst := hnext.toNat_getLba hspc
  have hstarts : clusterStart g next - clusterStart g cluster =
      g.sectorsPerCluster.toNat * (next.toNat - cluster.toNat) := by
    unfold clusterStart
    rw [Int.mul_sub, Int.mul_sub, Int.mul_sub]
    omega
  have hfits := h.2
  have hpos := hnext.1
  have hsum : lastSector g cluster + 1 = getLba g next ↔
      clusterStart g cluster + g.sectorsPerCluster.toNat = clusterStart g next := by
    rw [← UInt32.toNat_inj, UInt32.toNat_add]
    simp only [UInt32.reduceToNat]
    have hlt := (getLba g next).toNat_lt
    omega
  rw [hsum]
  constructor
  · intro heq
    have hone : (g.sectorsPerCluster.toNat : Int) * (next.toNat - cluster.toNat) =
        g.sectorsPerCluster.toNat * 1 := by
      omega
    have hdiff := Int.eq_of_mul_eq_mul_left (by omega) hone
    omega
  · intro heq
    have hdiff : (next.toNat : Int) - cluster.toNat = 1 := by omega
    rw [hdiff] at hstarts
    omega

end Numbers

section Scan

variable {m : Medium} {g : Geometry} {start cluster last : UInt32}

theorem OnChain.next (hc : inChain start) (h : OnChain m g (fatEntry m g start) cluster) :
    OnChain m g start cluster :=
  ⟨.head (fatStep_inChain hc) h.1, h.2⟩

/-- A chain of at least one cluster is its first and the chain from the next. -/
theorem consecutive_iff_of_inChain (hc : inChain start) :
    Consecutive m g start ↔ ¬ inChain (fatEntry m g start) ∨
      (fatEntry m g start).toNat = start.toNat + 1 ∧ Consecutive m g (fatEntry m g start) := by
  constructor
  · rintro ⟨clusters, hchain, hnums⟩
    cases hchain with
    | stop hstop =>
      rw [fatStep_inChain hc] at hstop
      cases hstop
    | @step _ next rest hstep hrest =>
      rw [fatStep_inChain hc] at hstep
      cases hstep
      by_cases hnext : inChain (fatEntry m g start)
      · right
        rw [List.map_cons, List.length_cons, List.range'_succ] at hnums
        have htail := (List.cons.inj hnums).2
        cases hrest with
        | stop hstop =>
          rw [fatStep_inChain hnext] at hstop
          cases hstop
        | @step _ _ rest hstep hrest =>
          have hfirst : (fatEntry m g start).toNat = start.toNat + 1 := by
            rw [List.map_cons, List.length_cons, List.range'_succ] at htail
            exact (List.cons.inj htail).1
          exact ⟨hfirst, _, .step hstep hrest, by rw [hfirst]; exact htail⟩
      · exact .inl hnext
  · rintro (hend | ⟨hfirst, clusters, hchain, hnums⟩)
    · exact ⟨[start], .step (fatStep_inChain hc) (.stop (fatStep_end hend)), rfl⟩
    · refine ⟨start :: clusters, .step (fatStep_inChain hc) hchain, ?_⟩
      rw [List.map_cons, List.length_cons, List.range'_succ, hnums, hfirst]

theorem consecutive_of_end (h : ¬ inChain start) : Consecutive m g start :=
  ⟨[], .stop (fatStep_end h), rfl⟩

/-- The scan goes on to a cluster only if that adjoins, so it counts up and ends. -/
theorem runs_gapStep (hspc : 1 ≤ g.sectorsPerCluster.toNat)
    (hnum : ∀ c, OnChain m g start c → Numbered g c)
    (hlast : last = 0 ∨ last + 1 = getLba g start) :
    ∃ gaps, Runs (gapStep m g) (start, last) gaps ∧ (gaps = false ↔ Consecutive m g start) := by
  induction hleft : 0x0ffffff0 - start.toNat using Nat.strongRecOn generalizing start last with
  | ind left ih =>
    by_cases hc : inChain start
    · have hhere : Numbered g start := hnum start ⟨.refl, hc⟩
      have hgap : gapInCluster g.sectorsPerCluster.toNat (getLba g start) last =
          some (lastSector g start) := by
        rw [gapInCluster_eq, if_neg (by omega), if_neg]
        · rfl
        · rintro ⟨hne, hgap⟩
          exact hgap (hlast.resolve_left hne)
      have hstep := gapStep_next (m := m) hc hgap
      rw [consecutive_iff_of_inChain hc]
      by_cases hend : inChain (fatEntry m g start)
      · have hnext : Numbered g (fatEntry m g start) := hnum _ (OnChain.next hc ⟨.refl, hend⟩)
        by_cases hadj : (fatEntry m g start).toNat = start.toNat + 1
        · have hlt : (fatEntry m g start).toNat < 0x0ffffff0 := hend.1
          rcases ih _ (by omega) (fun c hon => hnum c (OnChain.next hc hon))
            (.inr ((hhere.adjoins_iff hnext hspc).mpr hadj)) rfl with ⟨gaps, hrun, hiff⟩
          refine ⟨gaps, .round hstep hrun, ?_⟩
          rw [hiff]
          exact ⟨fun h => .inr ⟨hadj, h⟩, fun h => (h.resolve_left (not_not.mpr hend)).2⟩
        · -- the comparison with the last sector fails
          have hbreak : gapInCluster g.sectorsPerCluster.toNat (getLba g (fatEntry m g start))
              (lastSector g start) = none := by
            rw [gapInCluster_eq, if_neg (by omega), if_pos]
            exact ⟨hhere.lastSector_ne_zero hspc,
              fun heq => hadj ((hhere.adjoins_iff hnext hspc).mp heq)⟩
          refine ⟨true, .round hstep (.done (gapStep_gap hend hbreak)), ?_⟩
          refine ⟨fun h => absurd h (by decide), ?_⟩
          rintro (hout | ⟨hfollows, -⟩)
          · exact absurd hend hout
          · exact absurd hfollows hadj
      · exact ⟨false, .round hstep (.done (gapStep_end hend)), fun _ => .inl hend, fun _ => rfl⟩
    · exact ⟨false, .done (gapStep_end hc), fun _ => consecutive_of_end hc, fun _ => rfl⟩

/-- On every FAT, and from a cache that is invalid or the medium's, `file_has_gaps` returns 0 on the
chains `c, c + 1, .., c + k` and the empty one, and 1 on all others. -/
theorem fileHasGaps_decides (m : Medium) (pfat32 : Fat32) (start : UInt32)
    (hcache : Coherent m pfat32) (hspc : 1 ≤ pfat32.sectorsPerCluster.toNat)
    (hnum : ∀ c, OnChain m pfat32.toGeometry start c → Numbered pfat32.toGeometry c) :
    ∃ r : Int, (∃ n₀, ∀ n, n₀ ≤ n → ∃ p l, Reads m (fileHasGaps n pfat32 start 0) (r, p) l) ∧
      (r = 0 ↔ Consecutive m pfat32.toGeometry start) ∧
      (¬ Consecutive m pfat32.toGeometry start → r = 1) := by
  rcases runs_gapStep hspc hnum (.inl rfl) with ⟨gaps, ⟨n₀, hrun⟩, hiff⟩
  refine ⟨if gaps then 1 else 0, ⟨n₀, fun n hn => ?_⟩, ?_, fun hcons => ?_⟩
  · rcases fileHasGaps_reads hcache (iterate_mono hrun hn) with ⟨fat, l, hreads, -⟩
    exact ⟨_, l, hreads⟩
  · rw [← hiff]
    cases gaps <;> decide
  · rw [Bool.eq_true_of_not_eq_false fun hno => hcons (hiff.mp hno)]
    rfl

/-- On a cluster that is its own successor it finds a gap. -/
theorem fileHasGaps_decides_loop :
    ¬ Consecutive loopStick (geometry loopStick) 2 ∧
      ∃ n₀, ∀ n, n₀ ≤ n → ∃ p l, Reads loopStick
        (fileHasGaps n ⟨geometry loopStick, ⟨0xffffffff, .zero⟩⟩ 2 0) (1, p) l := by
  have hself : fatEntry loopStick (geometry loopStick) 2 = 2 := by decide +kernel
  have hon : ∀ c, OnChain loopStick (geometry loopStick) 2 c → c = 2 := by
    rintro c ⟨hreach, -⟩
    induction hreach with
    | refl => rfl
    | tail _ hstep ih =>
      rw [ih, fatStep_inChain (by decide), hself] at hstep
      exact (Option.some.inj hstep).symm
  have hnum : ∀ c, OnChain loopStick (geometry loopStick) 2 c → Numbered (geometry loopStick) c := by
    intro c hc
    rw [hon c hc]
    decide +kernel
  have hcons : ¬ Consecutive loopStick (geometry loopStick) 2 := by
    rw [consecutive_iff_of_inChain (by decide), hself]
    rintro (hend | ⟨hfollows, -⟩)
    · exact hend (by decide)
    · exact absurd hfollows (by decide)
  rcases fileHasGaps_decides loopStick ⟨geometry loopStick, ⟨0xffffffff, .zero⟩⟩ 2 (.inl rfl)
    (by decide +kernel) hnum with ⟨r, hruns, -, hone⟩
  rw [hone hcons] at hruns
  exact ⟨hcons, hruns⟩

end Scan

end LptStore.Fs
