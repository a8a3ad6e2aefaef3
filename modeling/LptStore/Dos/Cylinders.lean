import LptStore.Dos.Mount
import LptStore.Dos.Geometry

/-!
# What `GetParameters` computes

The request for the device parameters is not passed on with its unit: it is answered from the parameter
block of unit 0. The number of cylinders is a quotient of 16-bit words, whose divisor is a product that
may wrap and whose dividend is the 16-bit sector count, which is 0 on a large volume.
-/

namespace LptStore.Dos

open LptStore.Lib LptStore.Protocol Function

/-- The sectors of a cylinder. -/
def Bpb.cylinderSize (p : Bpb) : Nat := p.trackSize.toNat * p.headCount.toNat

theorem cylinderSize_eq_zero (p : Bpb) :
    p.trackSize * p.headCount = 0 ↔ p.cylinderSize % 65536 = 0 := by
  rw [← UInt16.toNat_inj, UInt16.toNat_mul]
  rfl

/-- The parameters that `GetParameters` fills in from the parameter block `p`. -/
def parameters (p : Bpb) : DeviceParams where
  formFactor := 8
  attributes := 0
  cylinders := p.totalSectors / (p.trackSize * p.headCount)
  mediaType := 0
  bpb := p

section Parameters

variable {d d' : Driver} {es : List (Issued DosOp DosResp)} {dp : DeviceParams}

/-- `GetParameters` returns if it does not divide by zero. -/
theorem getParameters_trace : (getParameters d).Trace es dp ↔
    (d.bpb 0).cylinderSize % 65536 ≠ 0 ∧ es = [] ∧ dp = parameters (d.bpb 0) := by
  rw [ne_eq, ← cylinderSize_eq_zero]
  unfold getParameters
  by_cases hzero : (d.bpb 0).trackSize * (d.bpb 0).headCount = 0
  · simp only [hzero, not_true_eq_false, false_and, iff_false]
    intro h
    rcases Prog.trace_op.mp h with ⟨e, -⟩
    exact e.elim
  · simp only [hzero, not_false_eq_true, true_and]
    exact Prog.trace_ret

section Units

variable {rh : Request} {reply : Reply}

/-- The request GET_PARAMETERS. -/
structure Request.AsksParameters (rh : Request) : Prop where
  command : rh.command = GENERIC_IOCTL
  major : rh.major = DISK_DEVICE
  minor : rh.minor = GET_PARAMETERS

/-- A GET_PARAMETERS request is answered from the parameter block of unit 0. -/
theorem parameters_trace (hrh : rh.AsksParameters) : (lptDriver rh d).Trace es (reply, d') ↔
    (d.bpb 0).cylinderSize % 65536 ≠ 0 ∧ es = [] ∧ d' = d ∧
      reply = ⟨DONE, .params (parameters (d.bpb 0))⟩ := by
  have hdriver : lptDriver rh d =
      (getParameters d).bind fun dp => .ret (⟨DONE, .params dp⟩, d) := by
    unfold lptDriver genericIoctl
    rw [hrh.command, hrh.major, hrh.minor]
    simp only [show GENERIC_IOCTL ≠ INITIALIZATION by decide, show GENERIC_IOCTL ≠ MEDIA_CHECK by decide,
      show GENERIC_IOCTL ≠ GET_BPB by decide, show GENERIC_IOCTL ≠ INPUT by decide,
      show ¬ (GENERIC_IOCTL = OUTPUT ∨ GENERIC_IOCTL = OUTPUT_VERIFY) by decide, if_true, if_false,
      Prog.bind_eq, Prog.pure_eq, Prog.bind_assoc, Prog.ret_bind]
  rw [hdriver, Prog.trace_bind]
  constructor
  · rintro ⟨es₁, es₂, dp, rfl, hget, hret⟩
    rcases getParameters_trace.mp hget with ⟨hsize, rfl, rfl⟩
    rcases Prog.trace_ret.mp hret with ⟨rfl, heq⟩
    cases heq
    exact ⟨hsize, rfl, rfl, rfl⟩
  · rintro ⟨hsize, rfl, rfl, rfl⟩
    exact ⟨[], [], _, rfl, getParameters_trace.mpr ⟨hsize, rfl, rfl⟩, .ret _⟩

/-- A GET_BPB request is answered by the parameter block of its unit. -/
theorem bpb_trace (hcommand : rh.command = GET_BPB) : (lptDriver rh d).Trace es (reply, d') ↔
    es = [] ∧ d' = d ∧ reply = ⟨DONE, .bpb rh.unit.toNat⟩ := by
  unfold lptDriver
  rw [hcommand, if_neg (by decide), if_neg (by decide), if_pos rfl]
  refine Prog.trace_ret.trans (and_congr_right fun _ => ?_)
  rw [Prod.mk.injEq, and_comm]
  rfl

/-- The request is answered with the parameter block that a GET_BPB request for the same unit points to,
and with the number of cylinders computed from it. -/
def Request.Agrees (rh : Request) (d : Driver) : Prop :=
  ∃ es d' dp, (lptDriver rh d).Trace es (⟨DONE, .params dp⟩, d') ∧
    ∀ rh' : Request, rh'.command = GET_BPB → rh'.unit = rh.unit →
      ∃ i, (lptDriver rh' d).Trace [] (⟨DONE, .bpb i⟩, d) ∧ dp.bpb = d.bpb i ∧
        dp.cylinders = (parameters (d.bpb i)).cylinders

/-- The two requests for the geometry of a unit agree exactly if the unit's parameter block is the same as
that of unit 0, from which the driver can compute the cylinders. -/
theorem parameters_agree_iff (d : Driver) (rh : Request) (hrh : rh.AsksParameters) :
    rh.Agrees d ↔
      d.bpb rh.unit.toNat = d.bpb 0 ∧ (d.bpb 0).cylinderSize % 65536 ≠ 0 := by
  constructor
  · rintro ⟨es, d', dp, hparams, hagree⟩
    rcases (parameters_trace hrh).mp hparams with ⟨hsize, rfl, rfl, hreply⟩
    cases hreply
    rcases hagree { rh with command := GET_BPB } rfl rfl with ⟨i, hbpb, hsame, -⟩
    rcases (bpb_trace rfl).mp hbpb with ⟨-, -, hi⟩
    cases hi
    exact ⟨hsame.symm, hsize⟩
  · rintro ⟨hsame, hsize⟩
    refine ⟨[], d, _, (parameters_trace hrh).mpr ⟨hsize, rfl, rfl, rfl⟩, ?_⟩
    intro rh' hcommand hunit
    refine ⟨rh.unit.toNat, (bpb_trace hcommand).mpr ⟨rfl, rfl, by rw [hunit]⟩, hsame.symm, ?_⟩
    rw [hsame]

end Units

/-- `GetParameters` does not divide by zero, and gives the number of cylinders that the device has,
where 16 bits hold it. -/
def CylindersRight (d : Driver) : Prop :=
  ∃ dp, (getParameters d).Trace [] dp ∧
    ((d.bpb 0).sectorCount.toNat / (d.bpb 0).cylinderSize < 65536 →
      dp.cylinders.toNat = (d.bpb 0).sectorCount.toNat / (d.bpb 0).cylinderSize)

/-- The fields of the boot sector are such that the 16-bit quotient is the true one: the product of
sectors and heads does not vanish modulo 65536; a volume with a 16-bit sector count has cylinders whose
size fits 16 bits, or the count is below what is left of it; and one without is smaller than a cylinder,
or too large for the result. -/
def Divides (boot : Sector) : Prop :=
  let size := (boot.le16 24).toNat * (boot.le16 26).toNat
  size % 65536 ≠ 0 ∧
    (boot.le16 19 ≠ 0 → size < 65536 ∨ (boot.le16 19).toNat < size % 65536) ∧
    (boot.le16 19 = 0 → (boot.le32 32).toNat < size ∨ 65536 ≤ (boot.le32 32).toNat / size)

instance (boot : Sector) : Decidable (Divides boot) := inferInstanceAs (Decidable (_ ∧ _))

/-- The cylinders computed from the parameter block of a boot sector. -/
theorem parameters_cylinders (boot : Sector) :
    (parameters (decoded boot)).cylinders.toNat = (boot.le16 19).toNat /
      ((boot.le16 24).toNat * (boot.le16 26).toNat % 65536) := by
  show (boot.le16 19 / (boot.le16 24 * boot.le16 26)).toNat = _
  rw [UInt16.toNat_div, UInt16.toNat_mul]

theorem cylindersRight_decoded {boot : Sector} (hbpb : d.bpb 0 = decoded boot) :
    CylindersRight d ↔ Divides boot := by
  have hdp : CylindersRight d ↔ (boot.le16 24).toNat * (boot.le16 26).toNat % 65536 ≠ 0 ∧
      ((decoded boot).sectorCount.toNat / ((boot.le16 24).toNat * (boot.le16 26).toNat) < 65536 →
        (boot.le16 19).toNat / ((boot.le16 24).toNat * (boot.le16 26).toNat % 65536) =
          (decoded boot).sectorCount.toNat / ((boot.le16 24).toNat * (boot.le16 26).toNat)) := by
    rw [← parameters_cylinders]
    unfold CylindersRight
    simp only [getParameters_trace, hbpb, true_and]
    constructor
    · rintro ⟨dp, ⟨hsize, rfl⟩, hcylinders⟩
      exact ⟨hsize, hcylinders⟩
    · rintro ⟨hsize, hcylinders⟩
      exact ⟨_, ⟨hsize, rfl⟩, hcylinders⟩
  rw [hdp]
  unfold Divides
  dsimp only
  refine and_congr_right fun hsize => ?_
  generalize hs : (boot.le16 24).toNat * (boot.le16 26).toNat = size at hsize ⊢
  have htotal : (boot.le16 19).toNat < 65536 := (boot.le16 19).toNat_lt
  have hpos : 0 < size := Nat.pos_of_ne_zero fun h => hsize (by rw [h])
  by_cases hsmall : boot.le16 19 = 0
  · have hcount : (decoded boot).sectorCount = boot.le32 32 := if_pos hsmall
    have hzero : (boot.le16 19).toNat / (size % 65536) = 0 := by
      rw [hsmall]
      exact Nat.zero_div _
    rw [hcount, hzero]
    simp only [hsmall, ne_eq, not_true_eq_false, false_implies, true_and, true_implies]
    rw [← Nat.div_eq_zero_iff_lt hpos]
    omega
  · have hcount : (decoded boot).sectorCount = (boot.le16 19).toUInt32 := if_neg hsmall
    have hfits : (boot.le16 19).toNat / size < 65536 :=
      Nat.lt_of_le_of_lt (Nat.div_le_self _ _) htotal
    rw [hcount, UInt16.toNat_toUInt32]
    simp only [hsmall, hfits, ne_eq, not_false_eq_true, true_implies, false_implies, and_true]
    by_cases hwrap : size < 65536
    · rw [Nat.mod_eq_of_lt hwrap]
      exact iff_of_true rfl (.inl hwrap)
    · have htrue : (boot.le16 19).toNat / size = 0 := Nat.div_eq_of_lt (by omega)
      rw [htrue, Nat.div_eq_zero_iff_lt (Nat.pos_of_ne_zero hsize)]
      exact (or_iff_right hwrap).symm

end Parameters

/-- After `find_volume` has accepted a boot sector for unit 0, `GetParameters` is safe and right exactly
if the four fields of that sector are such. -/
theorem cylinders_iff {partno : UInt8} {d d' : Driver} {es : List (Issued DosOp DosResp)}
    {lbn : UInt16} {boot : Sector} (h : (lptInitialize 0 partno 0 d).Trace es (true, d'))
    (hfound : FoundBoot 0 partno es lbn boot) : CylindersRight d' ↔ Divides boot := by
  rcases lptInitialize_cases h with ⟨r, hfind, hr⟩
  rcases findVolume_cases hfind with ⟨-, rfl, -⟩ | ⟨-, bsect, fmt, data, hlocate, hchecked⟩
  · exact absurd hfound.1 readLast_nil
  · rcases (locateVolume_found hlocate _ _).mp hfound with ⟨hfmt, rfl, -⟩
    cases hchecked with
    | refused hneg => cases hr.mpr hneg
    | rejected => cases hr.mpr (by decide)
    | filled =>
      have hbpb : update d.bpb 0 (decoded data) 0 = decoded data := update_self _ _ _
      exact cylindersRight_decoded hbpb

section Sticks

/-- The boot sector of a volume with 1000 sectors and the given sectors for each track and heads. -/
def trackedBoot (track heads : UInt8 × UInt8) : Sector :=
  smallBoot.setFrom 24 [track.1, track.2, heads.1, heads.2]

/-- A GET_PARAMETERS request. -/
def parametersRequest (unit : UInt8) : Request := ⟨unit, GENERIC_IOCTL, 0, 0, DISK_DEVICE, GET_PARAMETERS⟩

theorem parametersRequest_asks (unit : UInt8) : (parametersRequest unit).AsksParameters :=
  ⟨rfl, rfl, rfl⟩

/-- A volume with 16 sectors a track and 4 heads in unit 0, and with 32 and 8 in the others. -/
def twoSticks (unit : Nat) : Sector :=
  if unit = 0 then trackedBoot (16, 0) (4, 0) else trackedBoot (32, 0) (8, 0)

theorem twoSticks_accepted (unit : Nat) : Accepted (twoSticks unit) := by
  unfold twoSticks
  split
  · decide +kernel
  · decide +kernel

/-- The variables after the volumes of units 0 and 1 have been found. -/
def bothMounted (images : Nat → Sector) : Driver :=
  (((forceInit .loaded).mount 0 (images 0)).mount 1 (images 1)).ready 1

theorem bothMounted_reached {images : Nat → Sector} (h : ∀ unit, Accepted (images unit)) :
    Reached images (bothMounted images) := by
  have hunit : Numbered (firstRequest, ⟨DONE, .units NR_DRIVES⟩) .loaded := by
    show (0 : UInt8) < NR_DRIVES
    decide
  have hunit' : Numbered (readRequest 1 0, ⟨DONE, .none⟩)
      ((forceInit .loaded).mount 0 (images 0)) := by
    show (1 : UInt8) < NR_DRIVES
    decide
  have hfirst : Handled images (firstRequest, ⟨DONE, .units NR_DRIVES⟩) .loaded
      ((forceInit .loaded).mount 0 (images 0)) :=
    ⟨_, initialization_trace (h 0), by simp [bootRead, Truthful]⟩
  have hunmounted : ¬ ((forceInit .loaded).mount 0 (images 0)).Mounted 1 := by
    have hbits : ((forceInit .loaded).mount 0 (images 0)).diskInitialized = 1 := rfl
    unfold Driver.Mounted
    rw [hbits]
    decide
  have hmount := lptInitialize_reads (h 1) hunmounted
  have hread : Handled images (readRequest 1 0, ⟨DONE, .none⟩)
      ((forceInit .loaded).mount 0 (images 0)) (bothMounted images) :=
    ⟨_, readRequest_trace rfl hmount .RES_OK, by simp [bootRead, Truthful]⟩
  exact ⟨_, _, rfl, rfl, hunit, hfirst, .step (.refl _) hunit' hread⟩

/-- With the volume of unit 0 in unit 1 too, DOS is told the geometry of both. -/
theorem parameters_agree_alike : ∃ d, Reached (fun _ => twoSticks 0) d ∧ (d.bpb 1).trackSize = 16 ∧
    (parametersRequest 1).Agrees d := by
  refine ⟨bothMounted fun _ => twoSticks 0, bothMounted_reached fun _ => twoSticks_accepted 0,
    by decide +kernel, ?_⟩
  exact (parameters_agree_iff _ (parametersRequest 1) (parametersRequest_asks 1)).mpr
    ⟨by decide +kernel, by decide +kernel⟩

/-- Unit 1 has a geometry of its own, and DOS is told that of unit 0. -/
theorem parameters_of_unit_zero :
    ¬ ∀ images : Nat → Sector, (∀ unit, unit < NR_DRIVES.toNat → Accepted (images unit)) →
      ∀ d, Reached images d → ∀ rh : Request, rh.AsksParameters → rh.unit < NR_DRIVES →
        rh.Agrees d := by
  intro h
  have hagrees := h twoSticks (fun unit _ => twoSticks_accepted unit) _
    (bothMounted_reached twoSticks_accepted) (parametersRequest 1) (parametersRequest_asks 1) (by decide)
  have hsame := ((parameters_agree_iff _ _ (parametersRequest_asks 1)).mp hagrees).1
  have htracks : (twoSticks 1).le16 24 = (twoSticks 0).le16 24 := congrArg Bpb.trackSize hsame
  exact absurd htracks (by decide +kernel)

/-- The first INITIALIZATION finds a volume. -/
theorem found_first {boot : Sector} (h : Accepted boot) :
    (lptInitialize 0 0 0 .loaded).Trace (bootRead 0 .zero boot) (true, Driver.loaded.mount 0 boot) ∧
      FoundBoot 0 0 (bootRead 0 .zero boot) 0 boot :=
  ⟨lptInitialize_reads h (by decide),
    ⟨fatKind_accepted h, .zero, rfl⟩, fun hpart => absurd rfl hpart⟩

/-- The geometry of the volume in unit 0 is told right. -/
theorem cylinders_iff_sixteen : CylindersRight (Driver.loaded.mount 0 (twoSticks 0)) := by
  rcases found_first (twoSticks_accepted 0) with ⟨htrace, hfound⟩
  exact (cylinders_iff htrace hfound).mpr (by decide +kernel)

/-- With 256 sectors a track and 256 heads the driver divides by zero. -/
theorem cylinders_divide_error :
    ¬ ∀ (d d' : Driver) (es : List (Issued DosOp DosResp)) (lbn : UInt16) (boot : Sector),
      (lptInitialize 0 d.partitionNumber 0 d).Trace es (true, d') → FoundBoot 0 0 es lbn boot →
        CylindersRight d' := by
  intro h
  have haccepted : Accepted (trackedBoot (0, 1) (0, 1)) := by decide +kernel
  rcases found_first haccepted with ⟨htrace, hfound⟩
  rcases h _ _ _ _ _ htrace hfound with ⟨dp, hdp, -⟩
  have hsize : (decoded (trackedBoot (0, 1) (0, 1))).cylinderSize % 65536 ≠ 0 :=
    (getParameters_trace.mp hdp).1
  exact absurd hsize (by decide +kernel)

end Sticks

end LptStore.Dos
