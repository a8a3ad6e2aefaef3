import Mathlib.Tactic.IntervalCases
import LptStore.Lib.While
import LptStore.Fs.Fat32

/-!
# The walks of `fat32.c` on a medium whose reads succeed

`get_next_cluster` answers with the entry of the first FAT as long as the cached sector is the one on
the medium. The two loops over a chain of clusters then depend on the medium alone: `read_file`
hands the callback the sectors of the chain's clusters in order, and `file_has_gaps` is a loop over
the FAT with the last sector seen as its state.
-/

namespace LptStore.Fs

open LptStore.Lib Function

/-- An access to the medium. -/
inductive Touch where
  | read (into : Into) (sector : UInt32)
  | write (sector : UInt32)
  deriving DecidableEq, Repr

/-- The data sectors read, as opposed to those of the FAT. -/
def dataReads (l : List Touch) : List UInt32 :=
  l.filterMap fun
    | .read .buff sector => some sector
    | _ => none

@[simp] theorem dataReads_nil : dataReads [] = [] := rfl

@[simp] theorem dataReads_append (l l' : List Touch) :
    dataReads (l ++ l') = dataReads l ++ dataReads l' := List.filterMap_append

/-- A medium and the accesses to it so far. -/
structure Bench where
  medium : Medium
  log : List Touch

/-- Every call of the sector layer succeeds. -/
def Bench.answer : (o : SectorOp) → Bench → Option (SectorResp o × Bench)
  | .read into sector _, w =>
      some ((0, w.medium sector), { w with log := w.log ++ [.read into sector] })
  | .write sector data, w =>
      some (0, ⟨update w.medium sector data, w.log ++ [.write sector]⟩)
  | .outOfFuel, _ => none

section Reads

variable {α β : Type} {m : Medium}

/-- The program returns `a` and leaves the medium alone; `l` are its accesses. -/
def Reads (m : Medium) (p : SectorProg α) (a : α) (l : List Touch) : Prop :=
  ∀ log, p.exec Bench.answer ⟨m, log⟩ = some (a, ⟨m, log ++ l⟩)

/-- The program never returns. -/
def Stuck (m : Medium) (p : SectorProg α) : Prop :=
  ∀ log, p.exec Bench.answer ⟨m, log⟩ = none

theorem Reads.ret (a : α) : Reads m (.ret a) a [] := by
  intro log
  rw [List.append_nil]
  rfl

theorem Reads.bind {p : SectorProg α} {f : α → SectorProg β} {a : α} {b : β} {l l' : List Touch}
    (hp : Reads m p a l) (hf : Reads m (f a) b l') : Reads m (p.bind f) b (l ++ l') := by
  intro log
  rw [Prog.exec_bind, hp log, Option.bind_some, hf (log ++ l), List.append_assoc]

theorem Reads.unique {p : SectorProg α} {a a' : α} {l l' : List Touch} (h : Reads m p a l)
    (h' : Reads m p a' l') : a = a' ∧ l = l' := by
  have heq := (h []).symm.trans (h' [])
  simpa using heq

theorem Reads.readSector (into : Into) (sector : UInt32) (old : Sector) :
    Reads m (readSector into sector old) (0, m sector) [.read into sector] := fun _ => rfl

/-- What a program does has nothing to do with the log it adds to. -/
theorem exec_log (p : SectorProg α) (m : Medium) (log : List Touch) :
    p.exec Bench.answer ⟨m, log⟩ =
      (p.exec Bench.answer ⟨m, []⟩).map fun x => (x.1, ⟨x.2.medium, log ++ x.2.log⟩) := by
  induction p generalizing m log with
  | ret a => simp [Prog.exec]
  | op o k ih =>
    cases o with
    | read into sector old =>
      show (k (0, m sector)).exec Bench.answer ⟨m, log ++ [.read into sector]⟩ =
        ((k (0, m sector)).exec Bench.answer ⟨m, [.read into sector]⟩).map _
      rw [ih, ih (0, m sector) m [.read into sector], Option.map_map]
      simp only [List.append_assoc, Function.comp_def]
    | write sector data =>
      show (k 0).exec Bench.answer ⟨update m sector data, log ++ [.write sector]⟩ =
        ((k 0).exec Bench.answer ⟨update m sector data, [.write sector]⟩).map _
      rw [ih, ih 0 (update m sector data) [.write sector], Option.map_map]
      simp only [List.append_assoc, Function.comp_def]
    | outOfFuel => rfl

theorem Reads.of_exec {p : SectorProg α} {a : α} {l : List Touch}
    (h : p.exec Bench.answer ⟨m, []⟩ = some (a, ⟨m, l⟩)) : Reads m p a l := by
  intro log
  rw [exec_log, h]
  rfl

/-- The second part of a run whose first part is known. -/
theorem Reads.of_bind {p : SectorProg α} {f : α → SectorProg β} {a : α} {b : β} {l l₁ : List Touch}
    (h : Reads m (p.bind f) b l) (hp : Reads m p a l₁) :
    ∃ l₂, Reads m (f a) b l₂ ∧ l = l₁ ++ l₂ := by
  have hrun := h []
  rw [Prog.exec_bind, hp [], Option.bind_some, exec_log] at hrun
  rcases Option.map_eq_some_iff.mp hrun with ⟨⟨b', m', l₂⟩, hrest, hlog⟩
  simp only [List.nil_append, Prod.mk.injEq, Bench.mk.injEq] at hlog
  rcases hlog with ⟨rfl, rfl, rfl⟩
  exact ⟨l₂, .of_exec hrest, rfl⟩

theorem Stuck.bind {p : SectorProg α} (f : α → SectorProg β) (hp : Stuck m p) :
    Stuck m (p.bind f) := by
  intro log
  rw [Prog.exec_bind, hp log]
  rfl

theorem Reads.bind_stuck {p : SectorProg α} {f : α → SectorProg β} {a : α} {l : List Touch}
    (hp : Reads m p a l) (hf : Stuck m (f a)) : Stuck m (p.bind f) := by
  intro log
  rw [Prog.exec_bind, hp log]
  exact hf (log ++ l)

end Reads

section Masks

theorem toNat_and_7f (c : UInt32) : (c &&& 0x7f).toNat = c.toNat % 128 := by
  rw [UInt32.toNat_and]
  exact Nat.and_two_pow_sub_one_eq_mod c.toNat 7

theorem toNat_and_ffffff80 (c : UInt32) : (c &&& 0xffffff80).toNat = c.toNat / 128 * 128 := by
  have hshift : c &&& (0xffffff80 : UInt32) = (c >>> 7) <<< 7 := by
    apply UInt32.toBitVec_inj.mp
    ext i hi
    simp only [UInt32.toBitVec_and, UInt32.toBitVec_shiftLeft, UInt32.toBitVec_shiftRight]
    interval_cases i <;> simp
  rw [hshift]
  simp only [UInt32.toNat_shiftLeft, UInt32.toNat_shiftRight, Nat.shiftRight_eq_div_pow,
    Nat.shiftLeft_eq]
  have hlt := c.toNat_lt
  simp
  omega

/-- The clusters of a chain are positive as C `int`s. -/
theorem toInt32_div {c : UInt32} (h : c < 0x0ffffff0) : (c.toInt32 / 128).toUInt32 = c / 128 := by
  apply UInt32.toBitVec_inj.mp
  have hc : c.toBitVec.msb = false := by
    rw [BitVec.msb_eq_false_iff_two_mul_lt]
    have hlt : c.toNat < 0x0ffffff0 := h
    simp only [UInt32.toNat_toBitVec]
    omega
  simp only [Int32.toBitVec_toUInt32, Int32.toBitVec_div, UInt32.toBitVec_toInt32, BitVec.sdiv_eq, hc]
  rfl

end Masks

/-- The entry of a cluster in the first FAT. -/
def fatEntry (m : Medium) (g : Geometry) (cluster : UInt32) : UInt32 :=
  (m (cluster / 128 + g.reservedSectorCount.toUInt32)).le32 (4 * (cluster.toNat % 128))

/-- The cached FAT sector is invalid, or the one on the medium. -/
def Coherent (m : Medium) (pfat32 : Fat32) : Prop :=
  pfat32.fat.offset = 0xffffffff ∨
    pfat32.fat.offset.toNat % 128 = 0 ∧ pfat32.fat.offset < 0x0ffffff0 ∧
      pfat32.fat.record =
        m (pfat32.fat.offset / 128 + pfat32.reservedSectorCount.toUInt32)

section Walks

variable {m : Medium}

/-- The FAT sector that holds the entry of a cluster, as it is cached. -/
def cachedFat (m : Medium) (g : Geometry) (cluster : UInt32) : Fat :=
  ⟨cluster &&& 0xffffff80, m (cluster / 128 + g.reservedSectorCount.toUInt32)⟩

theorem cachedFat_entry (g : Geometry) (cluster : UInt32) :
    (cachedFat m g cluster).entry (cluster &&& 0x7f) = fatEntry m g cluster := by
  unfold Fat.entry fatEntry
  rw [toNat_and_7f]
  rfl

theorem cachedFat_coherent {g : Geometry} {cluster : UInt32} (hc : inChain cluster) :
    Coherent m ⟨g, cachedFat m g cluster⟩ := by
  have hlt : cluster.toNat < 0x0ffffff0 := hc.1
  have hoff : (cluster &&& 0xffffff80).toNat = cluster.toNat / 128 * 128 :=
    toNat_and_ffffff80 cluster
  right
  refine ⟨?_, ?_, ?_⟩
  · show (cluster &&& 0xffffff80).toNat % 128 = 0
    rw [hoff]
    exact Nat.mul_mod_left _ _
  · have hle : (cluster &&& 0xffffff80).toNat < 0x0ffffff0 := by omega
    exact hle
  · have hdiv : (cluster &&& 0xffffff80) / 128 = cluster / 128 := by
      apply UInt32.toNat_inj.mp
      simp only [UInt32.toNat_div, hoff]
      simp
    show m (cluster / 128 + _) = m ((cluster &&& 0xffffff80) / 128 + _)
    rw [hdiv]

/-- A cluster is one of the 128 cached: its entry is the medium's. -/
theorem entry_of_hit {pfat32 : Fat32} {cluster : UInt32} (hcache : Coherent m pfat32)
    (hhit : ¬ (pfat32.fat.offset = 0xffffffff ∨ cluster < pfat32.fat.offset ∨
      cluster > pfat32.fat.offset + 127)) :
    pfat32.fat.entry (cluster &&& 0x7f) = fatEntry m pfat32.toGeometry cluster := by
  rcases not_or.mp hhit with ⟨hvalid, hhit⟩
  rcases not_or.mp hhit with ⟨hlo, hhi⟩
  rcases hcache with hinv | ⟨halign, hsmall, hrec⟩
  · exact absurd hinv hvalid
  have hdiv : pfat32.fat.offset / 128 = cluster / 128 := by
    apply UInt32.toNat_inj.mp
    have hsmall' : pfat32.fat.offset.toNat < 0x0ffffff0 := hsmall
    have hlo' : pfat32.fat.offset.toNat ≤ cluster.toNat := UInt32.not_lt.mp hlo
    have hhi' : cluster.toNat ≤ (pfat32.fat.offset + 127).toNat := UInt32.not_lt.mp hhi
    have hsum : (pfat32.fat.offset + 127).toNat = pfat32.fat.offset.toNat + 127 := by
      rw [UInt32.toNat_add]
      exact Nat.mod_eq_of_lt (by simp; omega)
    simp only [UInt32.toNat_div]
    simp
    omega
  unfold Fat.entry fatEntry
  rw [toNat_and_7f, hrec, hdiv]

/-- `get_next_cluster` looks the entry up on the medium. -/
theorem getNextCluster_reads {pfat32 : Fat32} {cluster : UInt32} (hc : inChain cluster)
    (hcache : Coherent m pfat32) :
    ∃ fat l, Reads m (getNextCluster pfat32 cluster)
        (fatEntry m pfat32.toGeometry cluster, { pfat32 with fat }) l ∧
      Coherent m { pfat32 with fat } ∧ dataReads l = [] := by
  unfold getNextCluster
  split
  · -- the sector is read
    refine ⟨cachedFat m pfat32.toGeometry cluster,
      [.read .fat (cluster / 128 + pfat32.reservedSectorCount.toUInt32)], ?_,
      cachedFat_coherent hc, rfl⟩
    rw [toInt32_div hc.1, ← cachedFat_entry]
    exact (Reads.readSector _ _ _).bind (Reads.ret _)
  · next hhit =>
    refine ⟨pfat32.fat, [], ?_, hcache, rfl⟩
    rw [← entry_of_hit hcache hhit]
    exact Reads.ret _

/-- The walk along the FAT. -/
def fatStep (m : Medium) (g : Geometry) (cluster : UInt32) : Option UInt32 :=
  if inChain cluster then some (fatEntry m g cluster) else none

theorem fatStep_inChain {g : Geometry} {cluster : UInt32} (h : inChain cluster) :
    fatStep m g cluster = some (fatEntry m g cluster) := if_pos h

theorem fatStep_end {g : Geometry} {cluster : UInt32} (h : ¬ inChain cluster) :
    fatStep m g cluster = none := if_neg h

/-- `k` sectors from `lba` on. -/
def sectorsFrom : Nat → UInt32 → List UInt32
  | 0, _ => []
  | k + 1, lba => lba :: sectorsFrom k (lba + 1)

/-- The sectors of a cluster. -/
def clusterSectors (g : Geometry) (cluster : UInt32) : List UInt32 :=
  sectorsFrom g.sectorsPerCluster.toNat (getLba g cluster)

/-- The sectors of a list of clusters. -/
def fileSectors (g : Geometry) (clusters : List UInt32) : List UInt32 :=
  clusters.flatMap (clusterSectors g)

section ReadFile

variable {τ : Type} (callback : Geometry → Sector → τ → τ)

theorem readCluster_reads (pfat32 : Fat32) (k : Nat) (lba : UInt32) (buff : Sector) (t : τ) :
    ∃ buff' l, Reads m (readCluster (fun p => callback p.toGeometry) pfat32 k lba buff t)
        (buff', (sectorsFrom k lba).foldl (fun t s => callback pfat32.toGeometry (m s) t) t) l ∧
      dataReads l = sectorsFrom k lba := by
  induction k generalizing lba buff t with
  | zero => exact ⟨buff, [], Reads.ret _, rfl⟩
  | succ k ih =>
    rcases ih (lba + 1) (m lba) (callback pfat32.toGeometry (m lba) t) with ⟨buff', l, hrest, hl⟩
    refine ⟨buff', .read .buff lba :: l, (Reads.readSector _ _ _).bind hrest, ?_⟩
    rw [← List.singleton_append, dataReads_append, hl]
    rfl

/-- `read_file` hands the callback the sectors of the clusters on the chain. -/
theorem readFile_reads {fuel : Nat} {pfat32 : Fat32} {cluster : UInt32} {clusters : List UInt32}
    (buff : Sector) (t : τ) (hcache : Coherent m pfat32)
    (h : trail (fatStep m pfat32.toGeometry) fuel cluster = some clusters) :
    ∃ fat l, Reads m (readFile (fun p => callback p.toGeometry) fuel pfat32 cluster buff t)
        ({ pfat32 with fat }, (fileSectors pfat32.toGeometry clusters).foldl
          (fun t s => callback pfat32.toGeometry (m s) t) t) l ∧
      Coherent m { pfat32 with fat } ∧ dataReads l = fileSectors pfat32.toGeometry clusters := by
  induction fuel generalizing pfat32 cluster clusters buff t with
  | zero => cases h
  | succ fuel ih =>
    unfold readFile
    by_cases hc : inChain cluster
    · rw [trail_step (fatStep_inChain hc)] at h
      rcases Option.map_eq_some_iff.mp h with ⟨rest, hrest, rfl⟩
      rw [if_pos hc]
      rcases readCluster_reads callback pfat32 pfat32.sectorsPerCluster.toNat
        (getLba pfat32.toGeometry cluster) buff t with ⟨buff', l₁, hread, hl₁⟩
      rcases getNextCluster_reads hc hcache with ⟨fat₁, l₂, hnext, hcache₁, hl₂⟩
      rcases ih buff' _ hcache₁ hrest with
        ⟨fat, l₃, htail, hcache', hl₃⟩
      refine ⟨fat, l₁ ++ (l₂ ++ l₃), ?_, hcache', ?_⟩
      · unfold fileSectors
        rw [List.flatMap_cons, List.foldl_append]
        exact hread.bind (hnext.bind htail)
      · rw [dataReads_append, dataReads_append, hl₁, hl₂, hl₃]
        rfl
    · rw [trail_stop (fatStep_end hc)] at h
      cases h
      rw [if_neg hc]
      exact ⟨pfat32.fat, [], Reads.ret _, hcache, rfl⟩

theorem readFile_stuck {fuel : Nat} {pfat32 : Fat32} {cluster : UInt32} (buff : Sector) (t : τ)
    (hcache : Coherent m pfat32) (h : trail (fatStep m pfat32.toGeometry) fuel cluster = none) :
    Stuck m (readFile (fun p => callback p.toGeometry) fuel pfat32 cluster buff t) := by
  induction fuel generalizing pfat32 cluster buff t with
  | zero => exact fun _ => rfl
  | succ fuel ih =>
    unfold readFile
    by_cases hc : inChain cluster
    · rw [trail_step (fatStep_inChain hc)] at h
      have hrest := Option.map_eq_none_iff.mp h
      rw [if_pos hc]
      rcases readCluster_reads callback pfat32 pfat32.sectorsPerCluster.toNat
        (getLba pfat32.toGeometry cluster) buff t with ⟨buff', l₁, hread, -⟩
      rcases getNextCluster_reads hc hcache with ⟨fat₁, l₂, hnext, hcache₁, -⟩
      exact hread.bind_stuck (hnext.bind_stuck
        (ih buff' _ hcache₁ hrest))
    · rw [trail_stop (fatStep_end hc)] at h
      cases h

end ReadFile

/-- A round of `file_has_gaps`: the state is the cluster and `last_lba`, the result whether it found a
gap. -/
def gapStep (m : Medium) (g : Geometry) (s : UInt32 × UInt32) : (UInt32 × UInt32) ⊕ Bool :=
  if inChain s.1 then
    match gapInCluster g.sectorsPerCluster.toNat (getLba g s.1) s.2 with
    | none => .inr true
    | some lastLba => .inl (fatEntry m g s.1, lastLba)
  else .inr false

theorem gapStep_end {g : Geometry} {c last : UInt32} (h : ¬ inChain c) :
    gapStep m g (c, last) = .inr false := if_neg h

theorem gapStep_gap {g : Geometry} {c last : UInt32} (h : inChain c)
    (hgap : gapInCluster g.sectorsPerCluster.toNat (getLba g c) last = none) :
    gapStep m g (c, last) = .inr true := by
  simp only [gapStep, if_pos h, hgap]

theorem gapStep_next {g : Geometry} {c last last' : UInt32} (h : inChain c)
    (hgap : gapInCluster g.sectorsPerCluster.toNat (getLba g c) last = some last') :
    gapStep m g (c, last) = .inl (fatEntry m g c, last') := by
  simp only [gapStep, if_pos h, hgap]

/-- `file_has_gaps` finds what the loop over the medium's FAT finds. -/
theorem fileHasGaps_reads {fuel : Nat} {pfat32 : Fat32} {cluster lastLba : UInt32} {gaps : Bool}
    (hcache : Coherent m pfat32)
    (h : iterate (gapStep m pfat32.toGeometry) fuel (cluster, lastLba) = some gaps) :
    ∃ fat l, Reads m (fileHasGaps fuel pfat32 cluster lastLba)
        (if gaps then 1 else 0, { pfat32 with fat }) l ∧
      Coherent m { pfat32 with fat } ∧ dataReads l = [] := by
  induction fuel generalizing pfat32 cluster lastLba with
  | zero => cases h
  | succ fuel ih =>
    unfold fileHasGaps
    by_cases hc : inChain cluster
    · rw [if_pos hc]
      cases hgap : gapInCluster pfat32.sectorsPerCluster.toNat
          (getLba pfat32.toGeometry cluster) lastLba with
      | none =>
        rw [iterate_inr (gapStep_gap hc hgap)] at h
        cases h
        exact ⟨pfat32.fat, [], Reads.ret _, hcache, rfl⟩
      | some lastLba' =>
        rw [iterate_inl (gapStep_next hc hgap)] at h
        rcases getNextCluster_reads hc hcache with ⟨fat₁, l₁, hnext, hcache₁, hl₁⟩
        rcases ih hcache₁ h with
          ⟨fat, l₂, htail, hcache', hl₂⟩
        refine ⟨fat, l₁ ++ l₂, hnext.bind htail, hcache', ?_⟩
        rw [dataReads_append, hl₁, hl₂]
        rfl
    · rw [iterate_inr (gapStep_end hc)] at h
      cases h
      rw [if_neg hc]
      exact ⟨pfat32.fat, [], Reads.ret _, hcache, rfl⟩

theorem fileHasGaps_stuck {fuel : Nat} {pfat32 : Fat32} {cluster lastLba : UInt32}
    (hcache : Coherent m pfat32)
    (h : iterate (gapStep m pfat32.toGeometry) fuel (cluster, lastLba) = none) :
    Stuck m (fileHasGaps fuel pfat32 cluster lastLba) := by
  induction fuel generalizing pfat32 cluster lastLba with
  | zero => exact fun _ => rfl
  | succ fuel ih =>
    unfold fileHasGaps
    by_cases hc : inChain cluster
    · rw [if_pos hc]
      cases hgap : gapInCluster pfat32.sectorsPerCluster.toNat
          (getLba pfat32.toGeometry cluster) lastLba with
      | none =>
        rw [iterate_inr (gapStep_gap hc hgap)] at h
        cases h
      | some lastLba' =>
        rw [iterate_inl (gapStep_next hc hgap)] at h
        rcases getNextCluster_reads hc hcache with ⟨fat₁, l₁, hnext, hcache₁, -⟩
        exact hnext.bind_stuck (ih hcache₁ h)
    · rw [iterate_inr (gapStep_end hc)] at h
      cases h

end Walks

end LptStore.Fs
