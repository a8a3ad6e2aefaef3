import LptStore.Fs.Judge

/-!
# Files without gaps

`file_has_gaps` compares each sector of the chain with the one before it. On a finite chain whose
sectors are not zero it finds no gap exactly when they are the sectors from the first one on, so that
the `i`-th of them is the base plus `i`.
-/

namespace LptStore.Fs

open LptStore.Lib

@[simp] theorem length_sectorsFrom (k : Nat) (lba : UInt32) : (sectorsFrom k lba).length = k := by
  induction k generalizing lba with
  | zero => rfl
  | succ k ih => simp [sectorsFrom, ih]

theorem getElem?_sectorsFrom {k i : Nat} (lba : UInt32) (h : i < k) :
    (sectorsFrom k lba)[i]? = some (lba + UInt32.ofNat i) := by
  induction k generalizing lba i with
  | zero => cases h
  | succ k ih =>
    cases i with
    | zero =>
      have hzero : lba + UInt32.ofNat 0 = lba := UInt32.add_zero lba
      rw [hzero]
      rfl
    | succ i =>
      have hstep : lba + 1 + UInt32.ofNat i = lba + UInt32.ofNat (i + 1) := by
        rw [UInt32.add_assoc, UInt32.ofNat_add, UInt32.add_comm 1]
        rfl
      rw [← hstep]
      exact ih (lba + 1) (Nat.lt_of_succ_lt_succ h)

/-- A sector of a run that does not wrap lies between its ends. -/
theorem toNat_of_mem_sectorsFrom {k : Nat} {lba x : UInt32} (hfit : lba.toNat + k ≤ 2 ^ 32)
    (h : x ∈ sectorsFrom k lba) : ∃ i, i < k ∧ x.toNat = lba.toNat + i := by
  rcases List.getElem?_of_mem h with ⟨i, hi⟩
  have hlt : i < k := by
    have hlen := (List.getElem?_eq_some_iff.mp hi).1
    rwa [length_sectorsFrom] at hlen
  rw [getElem?_sectorsFrom lba hlt] at hi
  cases hi
  refine ⟨i, hlt, ?_⟩
  rw [UInt32.toNat_add, UInt32.toNat_ofNat']
  omega

/-- Each sector follows the one before it; `last` is the one before the first, or 0. -/
def gapFree : UInt32 → List UInt32 → Prop
  | _, [] => True
  | last, x :: xs => (last ≠ 0 → last + 1 = x) ∧ gapFree x xs

/-- The last sector seen. -/
def lastOf (last : UInt32) (xs : List UInt32) : UInt32 := xs.getLast?.getD last

theorem lastOf_cons (last x : UInt32) (xs : List UInt32) : lastOf last (x :: xs) = lastOf x xs := by
  unfold lastOf
  rw [List.getLast?_cons]
  rfl

theorem gapFree_append (last : UInt32) (xs ys : List UInt32) :
    gapFree last (xs ++ ys) ↔ gapFree last xs ∧ gapFree (lastOf last xs) ys := by
  induction xs generalizing last with
  | nil => exact ⟨fun h => ⟨trivial, h⟩, fun h => h.2⟩
  | cons x xs ih =>
    rw [lastOf_cons]
    show (_ ∧ gapFree x (xs ++ ys)) ↔ (_ ∧ gapFree x xs) ∧ _
    rw [ih, and_assoc]

/-- The inner loop of `file_has_gaps` compares the sectors of the cluster. -/
theorem gapInCluster_eq_some {k : Nat} {lba last last' : UInt32} :
    gapInCluster k lba last = some last' ↔
      gapFree last (sectorsFrom k lba) ∧ lastOf last (sectorsFrom k lba) = last' := by
  induction k generalizing lba last with
  | zero => exact ⟨fun h => ⟨trivial, Option.some.inj h⟩, fun h => congrArg some h.2⟩
  | succ k ih =>
    unfold gapInCluster sectorsFrom
    rw [lastOf_cons]
    by_cases hgap : last ≠ 0 ∧ last + 1 ≠ lba
    · rw [if_pos hgap]
      refine ⟨fun h => (nomatch h), ?_⟩
      intro h
      exact absurd (h.1.1 hgap.1) hgap.2
    · rw [if_neg hgap, ih]
      have hfirst : last ≠ 0 → last + 1 = lba := fun hne =>
        Classical.byContradiction fun hadj => hgap ⟨hne, hadj⟩
      exact ⟨fun h => ⟨⟨hfirst, h.1⟩, h.2⟩, fun h => ⟨h.1.2, h.2⟩⟩

section Chains

variable {m : Medium}

/-- On a finite chain the check ends. -/
theorem exists_gaps {cluster : UInt32} {clusters : List UInt32} (last : UInt32)
    (h : Chain (fatStep m (geometry m)) cluster clusters) :
    ∃ gaps, Runs (gapStep m (geometry m)) (cluster, last) gaps := by
  induction h generalizing last with
  | @stop c hstop =>
    by_cases hc : inChain c
    · rw [fatStep_inChain hc] at hstop
      cases hstop
    · exact ⟨false, .done (gapStep_end hc)⟩
  | @step c next cs hstep _ ih =>
    by_cases hc : inChain c
    · rw [fatStep_inChain hc] at hstep
      cases hstep
      cases hgap : gapInCluster (geometry m).sectorsPerCluster.toNat (getLba (geometry m) c) last with
      | none => exact ⟨true, .done (gapStep_gap hc hgap)⟩
      | some last' =>
        rcases ih last' with ⟨gaps, hgaps⟩
        exact ⟨gaps, .round (gapStep_next hc hgap) hgaps⟩
    · exact ⟨false, .done (gapStep_end hc)⟩

/-- A check that finds no gap has compared all sectors of the chain. -/
theorem gapFree_of_runs {cluster last : UInt32} {clusters : List UInt32}
    (h : Chain (fatStep m (geometry m)) cluster clusters)
    (hrun : Runs (gapStep m (geometry m)) (cluster, last) false) :
    gapFree last (fileSectors (geometry m) clusters) := by
  induction h generalizing last with
  | stop _ => trivial
  | @step c next cs hstep _ ih =>
    have hc : inChain c := by
      by_contra hc
      rw [fatStep_end hc] at hstep
      cases hstep
    rw [fatStep_inChain hc] at hstep
    cases hstep
    cases hgap : gapInCluster (geometry m).sectorsPerCluster.toNat (getLba (geometry m) c) last with
    | none => exact absurd (hrun.of_done (gapStep_gap hc hgap)) (by decide)
    | some last' =>
      rcases gapInCluster_eq_some.mp hgap with ⟨hfree, rfl⟩
      have hrest := ih (hrun.of_round (gapStep_next hc hgap))
      unfold fileSectors
      rw [List.flatMap_cons, gapFree_append]
      exact ⟨hfree, hrest⟩

/-- Sectors that follow one another, none of them zero, are a run. -/
theorem eq_sectorsFrom_of_gapFree {x : UInt32} {xs : List UInt32} (h : gapFree x xs)
    (hx : x ≠ 0) (hne : ∀ y ∈ xs, y ≠ 0) : xs = sectorsFrom xs.length (x + 1) := by
  induction xs generalizing x with
  | nil => rfl
  | cons y ys ih =>
    rcases List.forall_mem_cons.mp hne with ⟨hy, hne⟩
    have hxy : x + 1 = y := h.1 hx
    rw [List.length_cons]
    unfold sectorsFrom
    rw [hxy, ← ih h.2 hy hne]

/-- The sectors of a file without gaps are those from its first on. -/
theorem fileSectors_linear {cluster : UInt32} {clusters : List UInt32}
    (hspc : 0 < (geometry m).sectorsPerCluster.toNat)
    (h : Chain (fatStep m (geometry m)) cluster clusters) (hgaps : Gaps m cluster false)
    (hne : ∀ x ∈ fileSectors (geometry m) clusters, x ≠ 0) :
    fileSectors (geometry m) clusters =
      sectorsFrom (fileSectors (geometry m) clusters).length (getLba (geometry m) cluster) := by
  have hfree := gapFree_of_runs h hgaps
  cases h with
  | stop _ => rfl
  | @step _ next cs _ _ =>
    rcases Nat.exists_eq_succ_of_ne_zero (Nat.ne_of_gt hspc) with ⟨k, hk⟩
    have hcons : fileSectors (geometry m) (cluster :: cs) = getLba (geometry m) cluster ::
        (sectorsFrom k (getLba (geometry m) cluster + 1) ++ fileSectors (geometry m) cs) := by
      unfold fileSectors clusterSectors
      rw [List.flatMap_cons, hk]
      rfl
    rw [hcons] at hfree hne ⊢
    rcases List.forall_mem_cons.mp hne with ⟨hfirst, hrest⟩
    have hrun := eq_sectorsFrom_of_gapFree hfree.2 hfirst hrest
    rw [List.length_cons]
    exact congrArg (getLba (geometry m) cluster :: ·) hrun

end Chains

end LptStore.Fs
