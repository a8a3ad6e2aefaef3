import LptStore.Dos.Mount

/-!
# The geometry that DOS is told

`find_volume` fills the parameter block of a unit the first time it is asked for it, and nothing else
does. A request to build the parameter block does not ask: before that time it is answered with the
block the driver was assembled with.
-/

namespace LptStore.Dos

open LptStore.Lib LptStore.Protocol Function

section Bits

theorem and_or_distrib (x p q : UInt16) : (x ||| p) &&& q = x &&& q ||| p &&& q := by
  apply UInt16.toBitVec_inj.mp
  ext i
  simp only [UInt16.toBitVec_and, UInt16.toBitVec_or, BitVec.getElem_and, BitVec.getElem_or,
    Bool.and_or_distrib_right]

theorem unitBit_and_ofNat : ∀ i j : Fin 16,
    unitBit (UInt8.ofNat i) &&& unitBit (UInt8.ofNat j) =
      if i = j then unitBit (UInt8.ofNat i) else 0 := by
  decide +kernel

theorem unitBit_ofNat_ne : ∀ i : Fin 16, unitBit (UInt8.ofNat i) ≠ 0 := by
  decide +kernel

theorem ofNat_toNat_of_lt {unit : UInt8} (h : unit < 16) :
    ∃ i : Fin 16, UInt8.ofNat i = unit ∧ i.val = unit.toNat :=
  ⟨⟨unit.toNat, h⟩, UInt8.ofNat_toNat, rfl⟩

/-- Each unit has a bit of its own. -/
theorem mounted_or {d d' : Driver} {unit unit' : UInt8} (h : unit < 16) (h' : unit' < 16)
    (hbits : d'.diskInitialized = d.diskInitialized ||| unitBit unit) :
    d'.Mounted unit' ↔ d.Mounted unit' ∨ unit = unit' := by
  rcases ofNat_toNat_of_lt h with ⟨i, rfl, hi⟩
  rcases ofNat_toNat_of_lt h' with ⟨j, rfl, hj⟩
  unfold Driver.Mounted
  rw [hbits, and_or_distrib, unitBit_and_ofNat]
  by_cases hij : i = j
  · subst hij
    rw [if_pos rfl]
    have hset : d.diskInitialized &&& unitBit (UInt8.ofNat i) ||| unitBit (UInt8.ofNat i) ≠ 0 :=
      fun hzero => unitBit_ofNat_ne i (UInt16.or_eq_zero_iff.mp hzero).2
    exact iff_of_true hset (.inr rfl)
  · rw [if_neg hij, UInt16.or_zero]
    have hne : UInt8.ofNat i ≠ UInt8.ofNat j := by
      intro heq
      rw [heq] at hi
      exact hij (Fin.ext (hi.trans hj.symm))
    exact (or_iff_left hne).symm

theorem mounted_congr {d d' : Driver} (hbits : d'.diskInitialized = d.diskInitialized)
    (unit : UInt8) : d'.Mounted unit ↔ d.Mounted unit := by
  unfold Driver.Mounted
  rw [hbits]

end Bits

section Requests

variable {images : Nat → Sector} {rh : Request} {d d₁ d' : Driver} {reply : Reply}
  {es : List (Issued DosOp DosResp)}

namespace Driver

theorem SameVolumes.refl (d : Driver) : d.SameVolumes d := ⟨rfl, rfl, rfl⟩

theorem SameVolumes.trans (h : d.SameVolumes d₁) (h' : d₁.SameVolumes d') : d.SameVolumes d' :=
  ⟨h'.bpb.trans h.bpb, h'.diskInitialized.trans h.diskInitialized,
    h'.partitionNumber.trans h.partitionNumber⟩

theorem SameVolumes.mounts {unit : UInt8} (h : d.SameVolumes d₁) (h' : d₁.Mounts images unit d') :
    d.Mounts images unit d' where
  unmounted := mt (mounted_congr h.diskInitialized unit).mpr h'.unmounted
  bpb := by rw [h'.bpb, h.bpb]
  diskInitialized := by rw [h'.diskInitialized, h.diskInitialized]
  partitionNumber := h'.partitionNumber.trans h.partitionNumber

theorem Mounts.sameVolumes {unit : UInt8} (h : d.Mounts images unit d₁) (h' : d₁.SameVolumes d') :
    d.Mounts images unit d' :=
  ⟨h.unmounted, h'.bpb.trans h.bpb, h'.diskInitialized.trans h.diskInitialized,
    h'.partitionNumber.trans h.partitionNumber⟩

/-- At most the volume of one unit is found. -/
def MayMount (images : Nat → Sector) (unit : UInt8) (d d' : Driver) : Prop :=
  d.SameVolumes d' ∨ d.Mounts images unit d'

theorem MayMount.after {unit : UInt8} (h : d.SameVolumes d₁) (h' : d₁.MayMount images unit d') :
    d.MayMount images unit d' :=
  h'.imp h.trans h.mounts

theorem MayMount.then {unit : UInt8} (h : d.MayMount images unit d₁) (h' : d₁.SameVolumes d') :
    d.MayMount images unit d' :=
  h.imp (fun hsame => hsame.trans h') fun hmounts => hmounts.sameVolumes h'

end Driver

theorem forceInit_same (d : Driver) : d.SameVolumes (forceInit d) := ⟨rfl, rfl, rfl⟩

theorem transferReply_same (status : DResult) (d : Driver) :
    d.SameVolumes (transferReply status d).2 := by
  cases status <;> exact ⟨rfl, rfl, rfl⟩

theorem lptInitialize_mayMount {unit : UInt8} {found : Bool}
    (haccepted : Accepted (images unit.toNat)) (htrue : ∀ e ∈ es, Truthful images e)
    (h : (lptInitialize unit 0 unit.toNat d).Trace es (found, d')) : d.MayMount images unit d' := by
  rcases lptInitialize_accepted haccepted htrue h with ⟨-, ⟨-, rfl⟩ | hmounts⟩ | ⟨-, hsame⟩
  · exact .inl (.refl _)
  · exact .inr hmounts
  · exact .inl hsame

theorem readied_mayMount (haccepted : Accepted (images rh.unit.toNat)) (hpart : d.partitionNumber = 0)
    (htrue : ∀ e ∈ es, Truthful images e) (h : Readied rh d es d') :
    d.MayMount images rh.unit d' := by
  cases h with
  | idle => exact .inl (.refl _)
  | initialised _ hinit =>
    rw [hpart] at hinit
    exact (lptInitialize_mayMount haccepted htrue hinit).then ⟨rfl, rfl, rfl⟩

theorem transfer_mayMount {call : DosProg DResult} (haccepted : Accepted (images rh.unit.toNat))
    (hpart : d.partitionNumber = 0) (htrue : ∀ e ∈ es, Truthful images e)
    (h : (transfer call rh d).Trace es (reply, d')) : d.MayMount images rh.unit d' := by
  rcases transfer_cases h with ⟨es₁, es₂, d₁, status, rfl, hready, -, hreply⟩ | ⟨-, -, hfails⟩
  · have hmay : d.MayMount images rh.unit d₁ := readied_mayMount haccepted hpart
      (fun e he => htrue e (List.mem_append_left _ he)) hready
    have hsame := transferReply_same status d₁
    rw [← hreply] at hsame
    exact hmay.then hsame
  · rw [hpart] at hfails
    exact lptInitialize_mayMount haccepted htrue hfails

theorem driverInitialize_mayMount (haccepted : Accepted (images rh.unit.toNat))
    (hpart : d.partitionNumber = 0) (htrue : ∀ e ∈ es, Truthful images e)
    (h : (driverInitialize rh d).Trace es (reply, d')) : d.MayMount images rh.unit d' := by
  rcases driverInitialize_cases h with ⟨-, rfl⟩ | ⟨es₁, found, rfl, hinit⟩
  · exact .inl (forceInit_same d)
  · rw [hpart] at hinit
    have htrue₁ : ∀ e ∈ es₁, Truthful images e := fun e he =>
      htrue e (List.mem_cons_of_mem _ (List.mem_cons_of_mem _ he))
    exact (lptInitialize_mayMount haccepted htrue₁ hinit).after (forceInit_same d)

/-- A request finds at most the volume of its own unit, and changes no other parameter block. -/
theorem lptDriver_mayMount (haccepted : Accepted (images rh.unit.toNat))
    (hpart : d.partitionNumber = 0) (htrue : ∀ e ∈ es, Truthful images e)
    (h : (lptDriver rh d).Trace es (reply, d')) : d.MayMount images rh.unit d' := by
  rcases lptDriver_cases h with ⟨-, hinit⟩ | ⟨-, htransfer⟩ | ⟨-, -, rfl⟩
  · exact driverInitialize_mayMount haccepted hpart htrue hinit
  · exact transfer_mayMount haccepted hpart htrue htransfer
  · exact .inl (.refl _)

end Requests

section Runs

variable {images : Nat → Sector} {d d' : Driver}

/-- The request is answered, the images being what they are. -/
def Handled (images : Nat → Sector) (x : Request × Reply) (d d' : Driver) : Prop :=
  ∃ es, (lptDriver x.1 d).Trace es (x.2, d') ∧ ∀ e ∈ es, Truthful images e

/-- DOS numbers the units it was told of. -/
def Numbered (x : Request × Reply) (_ : Driver) : Prop := x.1.unit < NR_DRIVES

/-- A state after some requests, of which the first is an INITIALIZATION that succeeds. -/
def Reached (images : Nat → Sector) (d : Driver) : Prop :=
  ∃ x d₀, x.1.command = INITIALIZATION ∧ x.2.status = DONE ∧ Numbered x .loaded ∧
    Handled images x .loaded d₀ ∧ Run (Handled images) Numbered d₀ d

/-- Each unit's block is the one of its boot sector once its volume has been found, and the assembled one
before. -/
structure Filled (images : Nat → Sector) (d : Driver) : Prop where
  partitionNumber : d.partitionNumber = 0
  found : ∀ unit, unit < NR_DRIVES → d.Mounted unit → d.bpb unit.toNat = decoded (images unit.toNat)
  assembled : ∀ unit, unit < NR_DRIVES → ¬ d.Mounted unit → d.bpb unit.toNat = mkbpb

theorem filled_loaded : Filled images .loaded where
  partitionNumber := rfl
  found _ _ hmounted := absurd UInt16.zero_and hmounted
  assembled _ _ _ := rfl

theorem Filled.mayMount {unit : UInt8} (h : Filled images d) (hunit : unit < NR_DRIVES)
    (hmay : d.MayMount images unit d') : Filled images d' := by
  rcases hmay with hsame | hmounts
  · have hmounted := mounted_congr hsame.diskInitialized
    refine ⟨hsame.partitionNumber.trans h.partitionNumber, ?_, ?_⟩
    · intro unit' hunit' hm
      rw [hsame.bpb]
      exact h.found unit' hunit' ((hmounted unit').mp hm)
    · intro unit' hunit' hm
      rw [hsame.bpb]
      exact h.assembled unit' hunit' fun hold => hm ((hmounted unit').mpr hold)
  · refine ⟨hmounts.partitionNumber.trans h.partitionNumber, ?_, ?_⟩
    · intro unit' hunit' hm
      rw [hmounts.bpb]
      rcases (mounted_or hunit hunit' hmounts.diskInitialized).mp hm with hold | rfl
      · have hne : unit'.toNat ≠ unit.toNat := fun heq =>
          hmounts.unmounted (UInt8.toNat_inj.mp heq ▸ hold)
        rw [update_of_ne hne]
        exact h.found unit' hunit' hold
      · exact update_self _ _ _
    · intro unit' hunit' hm
      rcases not_or.mp fun hor => hm ((mounted_or hunit hunit' hmounts.diskInitialized).mpr hor)
        with ⟨hold, hne⟩
      rw [hmounts.bpb, update_of_ne fun heq => hne (UInt8.toNat_inj.mp heq).symm]
      exact h.assembled unit' hunit' hold

theorem Filled.handled {x : Request × Reply}
    (haccepted : ∀ unit, unit < NR_DRIVES.toNat → Accepted (images unit)) (h : Filled images d)
    (hnumbered : Numbered x d) (hstep : Handled images x d d') : Filled images d' := by
  rcases hstep with ⟨es, htrace, htrue⟩
  exact h.mayMount hnumbered
    (lptDriver_mayMount (haccepted _ hnumbered) h.partitionNumber htrue htrace)

theorem Reached.filled (haccepted : ∀ unit, unit < NR_DRIVES.toNat → Accepted (images unit))
    (h : Reached images d) : Filled images d := by
  rcases h with ⟨x, d₀, -, -, hnumbered, hfirst, hrun⟩
  exact hrun.invariant (fun _ _ _ hfilled hok hstep => hfilled.handled haccepted hok hstep)
    (filled_loaded.handled haccepted hnumbered hfirst)

/-- A request to build the parameter block of a unit is answered by its boot sector's exactly when its volume
has been found before. -/
theorem bpb_reported_iff (haccepted : ∀ unit, unit < NR_DRIVES.toNat → Accepted (images unit))
    (hreached : Reached images d) {rh : Request} {reply : Reply} (hcommand : rh.command = GET_BPB)
    (hunit : rh.unit < NR_DRIVES) (hstep : Handled images (rh, reply) d d') :
    (reply.status = DONE ∧ ∃ i, reply.result = .bpb i ∧ d'.bpb i = decoded (images rh.unit.toNat)) ↔
      d.Mounted rh.unit := by
  have hfilled := hreached.filled haccepted
  rcases hstep with ⟨es, htrace, -⟩
  unfold lptDriver at htrace
  rw [hcommand, if_neg (by decide), if_neg (by decide), if_pos rfl] at htrace
  have hret : (reply, d') = (buildBpb rh, d) := (Prog.trace_ret.mp htrace).2
  cases hret
  constructor
  · rintro ⟨-, i, hi, hbpb⟩
    cases hi
    by_contra hmounted
    rw [hfilled.assembled _ hunit hmounted] at hbpb
    cases congrArg Bpb.hiddenSectors hbpb
  · intro hmounted
    exact ⟨rfl, _, rfl, hfilled.found _ hunit hmounted⟩

/-- A boot sector of a volume with 1000 sectors. -/
def smallBoot : Sector :=
  (((((Sector.zero.setFrom 11 [0, 2, 4, 1]).set 16 2).setFrom 19 [0xe8, 3, 0xf8]).setFrom 54
    [0x46, 0x41, 0x54]).setFrom 510 [0x55, 0xaa])

theorem smallBoot_accepted : Accepted smallBoot where
  signed := by decide +kernel
  fat := .inl (by decide +kernel)
  sectorSize := by decide +kernel
  reserved := by decide +kernel

/-- The state after it, all reads having succeeded. -/
def firstMounted : Driver := (forceInit .loaded).mount 0 smallBoot

theorem firstMounted_reached : Reached (fun _ => smallBoot) firstMounted := by
  have hunit : (0 : UInt8) < NR_DRIVES := by decide
  refine ⟨(firstRequest, ⟨DONE, .units NR_DRIVES⟩), firstMounted, rfl, rfl, hunit, ?_, .refl _⟩
  exact ⟨_, initialization_trace smallBoot_accepted, by simp [bootRead, Truthful]⟩

/-- The parameter block of unit 0 is asked for after that. -/
theorem bpb_reported_first : ∃ reply : Reply, reply.status = DONE ∧ ∃ i, reply.result = .bpb i ∧
    firstMounted.bpb i = decoded smallBoot := by
  have hstep : Handled (fun _ => smallBoot) (⟨0, GET_BPB, 0, 0, 0, 0⟩, ⟨DONE, .bpb 0⟩) firstMounted
      firstMounted := ⟨[], .ret _, nofun⟩
  exact ⟨_, (bpb_reported_iff (fun _ _ => smallBoot_accepted) firstMounted_reached rfl (by decide)
    hstep).mpr (by decide)⟩

/-- Unit 1 has not been read when its parameter block is asked for: DOS is given the assembled one. -/
theorem bpb_assembled_reported :
    ¬ ∀ (images : Nat → Sector), (∀ unit, unit < NR_DRIVES.toNat → Accepted (images unit)) →
      ∀ d, Reached images d → ∀ rh reply d', rh.command = GET_BPB → rh.unit < NR_DRIVES →
        Handled images (rh, reply) d d' → reply.status = DONE →
        ∃ i, reply.result = .bpb i ∧ d'.bpb i = decoded (images rh.unit.toNat) := by
  intro h
  have hstep : Handled (fun _ => smallBoot) (⟨1, GET_BPB, 0, 0, 0, 0⟩, ⟨DONE, .bpb 1⟩) firstMounted
      firstMounted := ⟨[], .ret _, nofun⟩
  rcases h _ (fun _ _ => smallBoot_accepted) _ firstMounted_reached _ _ _ rfl (by decide) hstep rfl
    with ⟨i, hi, hbpb⟩
  cases hi
  cases congrArg Bpb.hiddenSectors hbpb

end Runs

end LptStore.Dos
