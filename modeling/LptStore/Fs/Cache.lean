import LptStore.Fs.Marks
import LptStore.Fs.Forget

/-!
# The cached FAT sector

`get_next_cluster` tells an empty cache by an offset of `(uint32_t)-1`, which nothing stores: up to the
first miss the cache is what lies on the stack. From then on it holds a FAT sector of the medium, and
every lookup returns the medium's entry. So the cache goes unnoticed exactly if none of the lookups
before the first miss finds another entry on the stack than there is on the medium.
-/

namespace LptStore.Fs

open LptStore.Lib

/-- The cached sector is taken to hold the cluster's entry. -/
def Fat.Hits (fat : Fat) (cluster : UInt32) : Prop :=
  ¬ (fat.offset = 0xffffffff ∨ cluster < fat.offset ∨ cluster > fat.offset + 127)

/-- Every read succeeds. -/
def Served (m : Medium) : Issued MountOp MountResp → Prop
  | ⟨.sector (.read _ sector _), answer⟩ => answer = (0, m sector)
  | _ => True

/-- A lookup returns the entry in the first FAT of the medium. -/
def LooksUp (m : Medium) : Issued MountOp MountResp → Prop
  | ⟨.found _ cluster entry, _⟩ =>
      cluster < 0x0ffffff0 → entry = fatEntry m (geometry m) cluster
  | _ => True

/-- A lookup in the cache as it lies on the stack misses, or finds the entry of the medium there. -/
def StackAgrees (m : Medium) (stack : Stack) : Issued MountOp MountResp → Prop
  | ⟨.found pfat32 cluster _, _⟩ =>
      pfat32.fat = stack.fat32.fat → pfat32.fat.Hits cluster →
        pfat32.fat.entry (cluster &&& 0x7f) = fatEntry m (geometry m) cluster
  | _ => True

section Lookups

variable {m : Medium} {stack : Stack}

/-- Before the first miss the cache is the stack's, from then on the medium's. -/
def Known (m : Medium) (stack : Stack) (pfat32 : Fat32) : Prop :=
  pfat32.toGeometry = geometry m ∧ (pfat32.fat = stack.fat32.fat ∨ Coherent m pfat32)

/-- What a lookup returns: on a hit what is cached, and otherwise, or with another cache than the
stack's, the entry of the medium. -/
def Answered (m : Medium) (stack : Stack) : Issued MountOp MountResp → Unit → Prop
  | ⟨.found pfat32 cluster entry, _⟩, _ => cluster < 0x0ffffff0 ∧
      (pfat32.fat.Hits cluster → entry = pfat32.fat.entry (cluster &&& 0x7f)) ∧
        (¬ pfat32.fat.Hits cluster ∨ pfat32.fat ≠ stack.fat32.fat →
          entry = fatEntry m (geometry m) cluster)
  | _, _ => True

/-- The lookups of a program are answered as `Answered` says, and it returns as `Q` says. -/
abbrev Looks {α : Type} (m : Medium) (stack : Stack) (Q : α → Prop) (p : MountProg α) : Prop :=
  Prog.wlp (Served m) (fun u _ => u) (Answered m stack) (fun a _ => Q a) p ()

theorem getNextClusterMarked_looks {pfat32 : Fat32} {cluster : UInt32} (hc : inChain cluster)
    (hp : Known m stack pfat32) :
    Looks m stack (fun x => Known m stack x.2) (getNextClusterMarked pfat32 cluster) := by
  rcases hp with ⟨hg, hcache⟩
  unfold getNextClusterMarked getNextCluster
  by_cases hmiss : pfat32.fat.offset = 0xffffffff ∨ cluster < pfat32.fat.offset ∨
      cluster > pfat32.fat.offset + 127
  · rw [if_pos hmiss]
    rintro ⟨status, record⟩ hanswer
    have hrecord : record =
        m ((cluster.toInt32 / 128).toUInt32 + pfat32.reservedSectorCount.toUInt32) :=
      congrArg Prod.snd hanswer
    refine ⟨trivial, fun _ _ => ⟨⟨hc.1, fun hhit => absurd hmiss hhit, fun _ => ?_⟩, hg, .inr ?_⟩⟩
    · rw [← cachedFat_entry, ← hg, hrecord, toInt32_div hc.1]
      rfl
    · rw [hrecord, toInt32_div hc.1]
      exact cachedFat_coherent (g := pfat32.toGeometry) hc
  · rw [if_neg hmiss]
    refine fun _ _ => ⟨⟨hc.1, fun _ => rfl, fun hother => ?_⟩, hg, hcache⟩
    have hcoherent := hcache.resolve_left (hother.resolve_left (not_not.mpr hmiss))
    rw [← hg]
    exact entry_of_hit hcoherent hmiss

theorem fileHasGapsMarked_looks {fuel : Nat} {pfat32 : Fat32} {cluster last : UInt32}
    (hp : Known m stack pfat32) :
    Looks m stack (fun x => Known m stack x.2) (fileHasGapsMarked fuel pfat32 cluster last) := by
  induction fuel generalizing pfat32 cluster last with
  | zero => exact fun r => r.elim
  | succ fuel ih =>
    unfold fileHasGapsMarked
    by_cases hc : inChain cluster
    · rw [if_pos hc]
      cases gapInCluster pfat32.sectorsPerCluster.toNat (getLba pfat32.toGeometry cluster) last with
      | none => exact hp
      | some last' =>
        exact Prog.wlp_seq (getNextClusterMarked_looks hc hp) fun x _ hx => ih hx
    · rw [if_neg hc]
      exact hp

/-- The sectors of a directory are none of the FAT's. -/
theorem readCluster_looks (pfat32 : Fat32) (k : Nat) (lba : UInt32) (buff : Sector)
    (t : DriveTables) : Looks m stack (fun _ => True)
      (unmarked (readCluster processDirSector pfat32 k lba buff t)) := by
  induction k generalizing lba buff t with
  | zero => trivial
  | succ k ih => exact fun r _ => ⟨trivial, ih _ _ _⟩

theorem readFileMarked_looks {fuel : Nat} {pfat32 : Fat32} {cluster : UInt32} {buff : Sector}
    {t : DriveTables} (hp : Known m stack pfat32) :
    Looks m stack (fun x => Known m stack x.1) (readFileMarked fuel pfat32 cluster buff t) := by
  induction fuel generalizing pfat32 cluster buff t with
  | zero => exact fun r => r.elim
  | succ fuel ih =>
    unfold readFileMarked
    by_cases hc : inChain cluster
    · rw [if_pos hc]
      refine Prog.wlp_seq (readCluster_looks _ _ _ _ _) fun x _ _ => ?_
      exact Prog.wlp_seq (getNextClusterMarked_looks hc hp) fun y _ hy => ih hy
    · rw [if_neg hc]
      exact hp

theorem checkDisksMarked_looks {fuel : Nat} {is : List Nat} {pfat32 : Fat32} {t : DriveTables}
    (hp : Known m stack pfat32) :
    Looks m stack (fun x => Known m stack x.1) (checkDisksMarked fuel is pfat32 t) := by
  induction is generalizing pfat32 t with
  | nil => exact hp
  | cons i is ih =>
    refine Prog.wlp_seq (Q := fun x _ => Known m stack x.1) ?_ fun x _ hx => ih hx
    unfold checkDiskMarked
    by_cases hlba : t.diskLba i ≠ 0
    · rw [if_pos hlba]
      refine fun _ _ => ⟨trivial, Prog.wlp_seq (fileHasGapsMarked_looks hp) fun x _ hx => ?_⟩
      by_cases hgaps : x.1 ≠ 0
      · simp only [if_pos hgaps]
        exact hx
      · simp only [if_neg hgaps]
        exact hx
    · rw [if_neg hlba]
      exact hp

theorem checkConfigMarked_looks {fuel : Nat} {pfat32 : Fat32} {t : DriveTables}
    (hp : Known m stack pfat32) :
    Looks m stack (fun _ => True) (checkConfigMarked fuel pfat32 t) := by
  unfold checkConfigMarked
  by_cases hcluster : t.cfgCluster ≠ 0
  · rw [if_pos hcluster]
    refine fun _ _ => ⟨trivial, Prog.wlp_seq (fileHasGapsMarked_looks hp) fun x _ _ => ?_⟩
    by_cases hgaps : x.1 ≠ 0
    · simp only [if_pos hgaps]
      trivial
    · simp only [if_neg hgaps]
      trivial
  · rw [if_neg hcluster]
    trivial

theorem readFsId_looks : Looks m stack (fun x => x.1 = 0 → Known m stack x.2)
    (unmarked (readFsId stack.fat32 stack.fsIdBuff)) := by
  rintro ⟨status, boot⟩ hanswer
  have hboot : boot = m 0 := congrArg Prod.snd hanswer
  subst hboot
  refine ⟨trivial, ?_⟩
  simp only [Prog.ret_bind]
  by_cases hsigned : isSigned (m 0) = true
  · rw [if_pos hsigned]
    exact fun _ => ⟨rfl, .inl rfl⟩
  · rw [if_neg hsigned]
    exact fun hone => absurd (show (1 : Int) = 0 from hone) (by decide)

theorem initDiskMarked_looks (m : Medium) (fuel : Nat) (stack : Stack) (t : DriveTables) :
    Looks m stack (fun _ => True) (initDiskMarked fuel stack t) := by
  refine Prog.wlp_seq readFsId_looks fun x _ hx => ?_
  by_cases hbad : x.1 ≠ 0
  · simp only [if_pos hbad]
    trivial
  · simp only [if_neg hbad]
    refine Prog.wlp_seq (readFileMarked_looks (hx (not_not.mp hbad))) fun y _ hy => ?_
    refine Prog.wlp_seq (checkDisksMarked_looks hy) fun z _ hz => ?_
    exact Prog.wlp_seq (checkConfigMarked_looks hz) fun _ _ _ => trivial

/-- In every run of `init_disk` on a medium whose reads succeed, as far as it has got, all lookups
return the medium's entries exactly if each that was made in the stack's cache missed or found the
medium's entry there. -/
theorem lookups_iff (m : Medium) (fuel : Nat) (stack : Stack) (t : DriveTables)
    (es : List (Issued MountOp MountResp)) (hrun : (initDiskMarked fuel stack t).Begins es)
    (hserved : ∀ e ∈ es, Served m e) :
    (∀ e ∈ es, LooksUp m e) ↔ ∀ e ∈ es, StackAgrees m stack e := by
  have hanswered : ∀ e ∈ es, Answered m stack e () := by
    intro e he
    rcases List.append_of_mem he with ⟨before, after, rfl⟩
    exact hrun.each (initDiskMarked_looks m fuel stack t) hserved
  refine forall_congr' fun e => forall_congr' fun he => ?_
  have hans := hanswered e he
  rcases e with ⟨o, r⟩
  cases o with
  | sector o => exact Iff.rfl
  | scan s => exact Iff.rfl
  | found pfat32 cluster entry =>
    rcases hans with ⟨hlt, hhit, hother⟩
    constructor
    · intro hlooks _ hhits
      rw [← hhit hhits]
      exact hlooks hlt
    · intro hagrees _
      by_cases hstack : pfat32.fat.Hits cluster ∧ pfat32.fat = stack.fat32.fat
      · rw [hhit hstack.1]
        exact hagrees hstack.2 hstack.1
      · exact hother (not_and_or.mp hstack)

/-- The clusters looked up, each with the entry returned. -/
def noteFound (found : List (UInt32 × UInt32)) :
    Issued MountOp MountResp → List (UInt32 × UInt32)
  | ⟨.found _ cluster entry, _⟩ => found ++ [(cluster, entry)]
  | _ => found

/-- A medium whose reads succeed. -/
def serve (m : Medium) :
    ∀ o : MountOp, List (UInt32 × UInt32) → Option (MountResp o × List (UInt32 × UInt32))
  | .sector (.read _ sector _), found => some ((0, m sector), found)
  | .sector (.write _ _), found => some (0, found)
  | .sector .outOfFuel, _ => none
  | .scan _, found => some ((), found)
  | .found _ cluster entry, found => some ((), found ++ [(cluster, entry)])

theorem serve_served (m : Medium) (o : MountOp) (found : List (UInt32 × UInt32)) (r : MountResp o)
    (found' : List (UInt32 × UInt32)) (h : serve m o found = some (r, found')) :
    Served m ⟨o, r⟩ ∧ found' = noteFound found ⟨o, r⟩ := by
  cases o with
  | sector o =>
    cases o with
    | read into sector old =>
      cases h
      exact ⟨rfl, rfl⟩
    | write sector data =>
      cases h
      exact ⟨trivial, rfl⟩
    | outOfFuel => cases h
  | scan s =>
    cases h
    exact ⟨trivial, rfl⟩
  | found pfat32 cluster entry =>
    cases h
    exact ⟨trivial, rfl⟩

theorem exists_found {es : List (Issued MountOp MountResp)} {x : UInt32 × UInt32}
    (h : x ∈ es.foldl noteFound []) : ∃ pfat32, ⟨.found pfat32 x.1 x.2, ()⟩ ∈ es := by
  induction es using List.reverseRecOn with
  | nil => exact absurd h List.not_mem_nil
  | append_singleton es e ih =>
    rw [List.foldl_append, List.foldl_cons, List.foldl_nil] at h
    rcases e with ⟨o, r⟩
    cases o with
    | sector o =>
      rcases ih h with ⟨p, hp⟩
      exact ⟨p, List.mem_append_left _ hp⟩
    | scan s =>
      rcases ih h with ⟨p, hp⟩
      exact ⟨p, List.mem_append_left _ hp⟩
    | found pfat32 cluster entry =>
      rcases List.mem_append.mp h with h | h
      · rcases ih h with ⟨p, hp⟩
        exact ⟨p, List.mem_append_left _ hp⟩
      · cases List.mem_singleton.mp h
        exact ⟨pfat32, List.mem_append_right _ (List.mem_singleton.mpr rfl)⟩

/-- An empty cache, on a stick with one drive. -/
theorem lookups_iff_invalid : ∃ es r, (initDiskMarked 2 invalidStack .zero).Trace es r ∧
    (∀ e ∈ es, Served (stick stickDir) e) ∧ ∀ e ∈ es, LooksUp (stick stickDir) e := by
  have hsome : ((initDiskMarked 2 invalidStack .zero).exec (serve (stick stickDir)) []).isSome = true := by
    decide +kernel
  rcases Option.isSome_iff_exists.mp hsome with ⟨⟨r, found⟩, hexec⟩
  rcases Prog.trace_of_exec (serve_served (stick stickDir)) hexec with ⟨es, htrace, hserved, -⟩
  refine ⟨es, r, htrace, hserved,
    (lookups_iff (stick stickDir) 2 invalidStack .zero es htrace.begins hserved).mpr fun e _ => ?_⟩
  rcases e with ⟨o, a⟩
  cases o with
  | sector o => trivial
  | scan s => trivial
  | found pfat32 cluster entry =>
    intro hfat hhits
    rw [hfat] at hhits
    exact absurd (.inl rfl) hhits

/-- A stack on which the bytes of the cache are all zero: a FAT sector from cluster 0 on. -/
def zeroStack : Stack := ⟨⟨⟨0, 0, 0, 0⟩, ⟨0, .zero⟩⟩, .zero, .zero⟩

/-- From that stack the entry of the root cluster is 0. -/
theorem stack_cache_hit : ¬ ∀ (m : Medium) (fuel : Nat) (stack : Stack) (t : DriveTables)
    (es : List (Issued MountOp MountResp)), (initDiskMarked fuel stack t).Begins es →
      (∀ e ∈ es, Served m e) → ∀ e ∈ es, LooksUp m e := by
  intro h
  have hrun : ((initDiskMarked 2 zeroStack .zero).exec (serve (stick .zero)) []).map Prod.snd =
      some [(2, 0)] := by
    decide +kernel
  rcases Option.map_eq_some_iff.mp hrun with ⟨⟨r, found⟩, hexec, rfl⟩
  rcases Prog.trace_of_exec (serve_served (stick .zero)) hexec with ⟨es, htrace, hserved, hfound⟩
  have hmem : ((2 : UInt32), (0 : UInt32)) ∈ es.foldl noteFound [] := by
    rw [← hfound]
    exact List.mem_singleton.mpr rfl
  rcases exists_found hmem with ⟨p, hp⟩
  have hentry : (0 : UInt32) = fatEntry (stick .zero) (geometry (stick .zero)) 2 :=
    h (stick .zero) 2 zeroStack .zero es htrace.begins hserved _ hp (by decide)
  revert hentry
  decide +kernel

end Lookups

end LptStore.Fs
