import LptStore.Fs.Forget

/-!
# Drives are served as they are advertised

The bitmap says which drives there are, the tables say what a request is answered from, and `init_disk`
updates the two on different branches. They come apart in two ways. A boot sector without its
signature clears the bitmap and nothing else, and a gap in the configuration file clears its
start cluster and leaves its LBA and its block count.
-/

namespace LptStore.Fs

open LptStore.Lib

/-- A call of `init_disk`: the tables before, the medium, the tables after. -/
structure InitCall where
  before : DriveTables
  medium : Medium
  after : DriveTables

/-- Calls of `init_disk` one after the other, from the tables as the program starts. Each finds
whatever FAT cache lies on its stack, as long as it is invalid or the medium's. -/
inductive InitRun : List InitCall → DriveTables → Prop
  | start : InitRun [] .zero
  | call {cs : List InitCall} {t t' : DriveTables} {m : Medium} {fuel : Nat} {stack : Stack} {r : Int}
      {l : List Touch} : InitRun cs t → stack.Coherent m →
      Reads m (initDisk fuel stack t) (r, t') l → InitRun (cs ++ [⟨t, m, t'⟩]) t'

/-- The tables in every state of a run, with the medium of the call that left them. -/
def reached (cs : List InitCall) : List (Option Medium × DriveTables) :=
  (none, .zero) :: cs.map fun c => (some c.medium, c.after)

/-- What is served is advertised, what is advertised has been found without gaps, and what is not
advertised has no blocks. -/
structure ServedAsAdvertised (m : Option Medium) (t : DriveTables) : Prop where
  advertised : ∀ disk, DriveId disk → ∀ sector buff,
    PassesOn (readDiskSector t disk sector buff) ∨ PassesOn (writeDiskSector t disk sector buff) →
      t.advertised (slotOf disk) = true
  contiguous : ∀ disk, DriveId disk → t.advertised (slotOf disk) = true →
    ∃ m', m = some m' ∧ Gaps m' (t.slot (slotOf disk)).cluster false
  empty : ∀ disk, DriveId disk → t.advertised (slotOf disk) = false → getDiskBlocks t disk = 0

/-- The record of the configuration file after the scan of a directory that lists `es`. -/
def configRecord (m : Medium) (es : List DriveEntry) (t : DriveTables) : SlotRecord :=
  ((lastEntry .config es).map (DriveEntry.toRecord (geometry m))).getD (t.slot .config)

/-- The call leaves nothing behind that it does not advertise: without the signature there was nothing
before it, and otherwise the configuration file in force is empty or passes its check. -/
def InitCall.Settles (c : InitCall) : Prop :=
  if isSigned (c.medium 0) then
    ∀ fuel es, rootListed c.medium fuel = some es →
      (configRecord c.medium es c.before).blocks = 0 ∨
        Slot.Live c.medium .config (configRecord c.medium es c.before)
  else ∀ disk, DriveId disk → getDiskBlocks c.before disk = 0

theorem servable_of_passesOn {t : DriveTables} {disk : UInt8} {sector : UInt32} {buff : Sector}
    (hid : DriveId disk)
    (h : PassesOn (readDiskSector t disk sector buff) ∨ PassesOn (writeDiskSector t disk sector buff)) :
    (t.slot (slotOf disk)).Servable := by
  rw [readDiskSector_eq hid, writeDiskSector_eq hid] at h
  rcases h with h | h
  · exact SlotRecord.servable_of_lt (SlotRecord.lt_of_read h)
  · exact SlotRecord.servable_of_lt (SlotRecord.lt_of_write h)

/-- A slot with no blocks answers nothing. -/
theorem not_servable_of_blocks {s : Slot} {r : SlotRecord} (h : s.blocks r = 0) : ¬ r.Servable := by
  rintro ⟨hlba, hblocks⟩
  cases s with
  | disk n =>
    have heq : (Slot.disk n).blocks r = r.blocks := if_pos hlba
    exact hblocks (heq ▸ h)
  | config => exact hblocks h

section Call

variable {m : Medium} {t t' : DriveTables}

/-- After a call that returns 1. -/
theorem served_unsigned :
    ServedAsAdvertised (some m) { t with diskBitmap := 0 } ↔
      ∀ disk, DriveId disk → getDiskBlocks t disk = 0 := by
  have hclear : ∀ s, DriveTables.advertised { t with diskBitmap := 0 } s = false :=
    fun s => Nat.zero_testBit _
  refine ⟨fun h disk hid => h.empty disk hid (hclear _), fun h => ⟨?_, ?_, ?_⟩⟩
  · intro disk hid sector buff hpass
    have hblocks := h disk hid
    rw [getDiskBlocks_eq hid] at hblocks
    have hserved : (t.slot (slotOf disk)).Servable := servable_of_passesOn hid hpass
    exact absurd hserved (not_servable_of_blocks hblocks)
  · intro disk hid hset
    rw [hclear] at hset
    cases hset
  · intro disk hid _
    exact h disk hid

/-- After a call that returns 0. -/
theorem served_signed {es : List DriveEntry}
    (hjudged : ∀ s, s.Checked →
      Judged m s ((t.scanned m es).slot s) (t'.slot s) (t'.advertised s)) :
    ServedAsAdvertised (some m) t' ↔
      (configRecord m es t).blocks = 0 ∨ Slot.Live m .config (configRecord m es t) := by
  have hconfig : (t.scanned m es).slot .config = configRecord m es t := slot_scanned es .config
  have hcfg := hjudged .config trivial
  rw [hconfig] at hcfg
  constructor
  · intro h
    cases hbit : t'.advertised .config with
    | true => exact .inr (hcfg.bit_iff.mp hbit)
    | false =>
      left
      rw [← hcfg.config_kept.2]
      exact h.empty CFG_DISK (.inr rfl) hbit
  · intro h
    refine ⟨?_, ?_, ?_⟩
    · intro disk hid sector buff hpass
      have hserved : (t'.slot (slotOf disk)).Servable := servable_of_passesOn hid hpass
      rcases hid with hid | rfl
      · have hj := hjudged _ (slotOf_checked (.inl hid))
        rw [slotOf_disk hid] at hj hserved ⊢
        refine hj.bit_iff.mpr (Classical.byContradiction fun hdead => ?_)
        exact hserved.1 (hj.lba_of_not_live hdead)
      · refine hcfg.bit_iff.mpr (h.resolve_left fun hzero => ?_)
        exact hserved.2 (hcfg.config_kept.2.trans hzero)
    · intro disk hid hset
      have hj := hjudged _ (slotOf_checked hid)
      have hlive := hj.bit_iff.mp hset
      exact ⟨m, rfl, (hj.of_live hlive).symm ▸ hlive.2⟩
    · intro disk hid hclear
      rw [getDiskBlocks_eq hid]
      rcases hid with hid | rfl
      · have hj := hjudged _ (slotOf_checked (.inl hid))
        rw [slotOf_disk hid] at hj hclear ⊢
        have hdead := fun hlive => Bool.false_ne_true (hclear.symm.trans (hj.bit_iff.mpr hlive))
        exact if_neg fun hne => hne (hj.lba_of_not_live hdead)
      · have hdead := fun hlive => Bool.false_ne_true (hclear.symm.trans (hcfg.bit_iff.mpr hlive))
        exact hcfg.config_kept.2.trans (h.resolve_right hdead)

theorem served_call {fuel : Nat} {stack : Stack} {r : Int} {l : List Touch} (hcache : stack.Coherent m)
    (h : Reads m (initDisk fuel stack t) (r, t') l) :
    ServedAsAdvertised (some m) t' ↔ InitCall.Settles ⟨t, m, t'⟩ := by
  have hon := initOn_of_reads hcache h
  unfold InitCall.Settles
  by_cases hsigned : isSigned (m 0) = true
  · have hzero := initOn_signed hsigned hon
    rw [hzero] at hon
    rcases initOn_judges hon with ⟨-, es, hes, hjudged, -⟩
    rw [if_pos hsigned, served_signed hjudged]
    refine ⟨fun hsettled fuel' es' hes' => ?_, fun hsettled => hsettled fuel es hes⟩
    cases rootListed_unique hes hes'
    exact hsettled
  · rw [initOn_unsigned (Bool.eq_false_iff.mpr hsigned)] at hon
    cases hon
    rw [if_neg hsigned]
    exact served_unsigned

end Call

/-- As the program starts nothing is served and nothing advertised. -/
theorem served_zero : ServedAsAdvertised none .zero := by
  have hclear : ∀ s, DriveTables.zero.advertised s = false := fun s => Nat.zero_testBit _
  refine ⟨?_, ?_, ?_⟩
  · intro disk hid sector buff hpass
    have hserved : (DriveTables.zero.slot (slotOf disk)).Servable := servable_of_passesOn hid hpass
    cases hs : slotOf disk with
    | disk n => exact absurd rfl (hs ▸ hserved).1
    | config => exact absurd rfl (hs ▸ hserved).1
  · intro disk hid hset
    rw [hclear] at hset
    cases hset
  · intro disk hid _
    rw [getDiskBlocks_eq hid]
    cases slotOf disk with
    | disk n => rfl
    | config => rfl

/-- In every state of a run drives are served as advertised exactly when every call settles what it
does not advertise. -/
theorem served_iff_settles {cs : List InitCall} {t : DriveTables} (h : InitRun cs t) :
    (∀ x ∈ reached cs, ServedAsAdvertised x.1 x.2) ↔ ∀ c ∈ cs, c.Settles := by
  have hcalls : ∀ c ∈ cs, ServedAsAdvertised (some c.medium) c.after ↔ c.Settles := by
    induction h with
    | start => exact fun c hc => absurd hc List.not_mem_nil
    | call _ hcache hreads ih =>
      intro c hc
      rcases List.mem_append.mp hc with hc | hc
      · exact ih c hc
      · rw [List.mem_singleton.mp hc]
        exact served_call hcache hreads
  unfold reached
  rw [List.forall_mem_cons, List.forall_mem_map]
  refine ⟨fun hall c hc => (hcalls c hc).mp (hall.2 c hc), fun hall => ⟨served_zero, ?_⟩⟩
  exact fun c hc => (hcalls c hc).mpr (hall c hc)

/-- One stick with a drive and no configuration file. -/
theorem served_iff_settles_stick : ∃ t : DriveTables,
    InitRun [⟨.zero, stick stickDir, t⟩] t ∧
      (∀ x ∈ reached [⟨.zero, stick stickDir, t⟩], ServedAsAdvertised x.1 x.2) ∧
      t.advertised (.disk 0) = true := by
  rcases stick_mounted with ⟨t, l, hl, hbits⟩
  have hinits : InitRun [⟨.zero, stick stickDir, t⟩] t :=
    .call .start (invalidStack_coherent _) hl
  refine ⟨t, hinits, (served_iff_settles hinits).mpr ?_, ?_⟩
  · intro c hc
    rw [List.mem_singleton.mp hc]
    have hsigned : isSigned (stick stickDir 0) = true := by decide +kernel
    have hlisted : rootListed (stick stickDir) 2 = some [⟨.disk 0, 3, 512⟩] := by decide +kernel
    unfold InitCall.Settles
    rw [if_pos hsigned]
    intro fuel es hes
    cases rootListed_unique hes hlisted
    exact .inl rfl
  · unfold DriveTables.advertised
    rw [hbits]
    decide

/-- After a stick whose boot sector has lost its signature the drive of the stick before it can still
be read, with its bit clear. -/
theorem unadvertised_drive_served : ∃ cs t, InitRun cs t ∧ t.advertised (slotOf 0) = false ∧
    PassesOn (readDiskSector t 0 0 .zero) := by
  have hrun : ((initOn (stick stickDir) 2 .zero).bind fun x =>
      (initOn (fun _ => .zero) 2 x.2).map fun y =>
        (y.2.diskBitmap, y.2.diskLba 0, y.2.diskBlocks 0)) = some (0, 4, 1) := by
    decide +kernel
  rcases Option.bind_eq_some_iff.mp hrun with ⟨⟨r₁, t₁⟩, ht₁, hsecond⟩
  rcases Option.map_eq_some_iff.mp hsecond with ⟨⟨r₂, t₂⟩, ht₂, htables⟩
  simp only [Prod.mk.injEq] at htables
  rcases htables with ⟨hbits, hlba, hblocks⟩
  rcases initDisk_reads (invalidStack_coherent _) ht₁ with ⟨l₁, hl₁⟩
  rcases initDisk_reads (invalidStack_coherent _) ht₂ with ⟨l₂, hl₂⟩
  have hinits : InitRun [⟨.zero, stick stickDir, t₁⟩, ⟨t₁, fun _ => .zero, t₂⟩] t₂ :=
    .call (.call .start (invalidStack_coherent _) hl₁) (invalidStack_coherent _) hl₂
  refine ⟨_, t₂, hinits, ?_, ?_⟩
  · unfold DriveTables.advertised
    rw [hbits]
    decide
  · rw [readDiskSector_eq (.inl (by decide)), SlotRecord.read_of_lt]
    · exact ⟨_, _, rfl⟩
    · show t₂.diskLba 0 ≠ 0
      rw [hlba]
      decide
    · show 0 < t₂.diskBlocks 0
      rw [hblocks]
      decide

end LptStore.Fs
