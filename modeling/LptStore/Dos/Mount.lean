import LptStore.Dos.Driver

/-!
# What `find_volume` finds, and what it leaves behind

The search ends at a FAT boot sector exactly where that is the last sector it reads, whatever `LPTRead`
answers. `find_volume` then checks the sector twice, and between the two checks it has begun to fill the
parameter block.
-/

namespace LptStore.Dos

open LptStore.Lib LptStore.Protocol Function

section Search

variable {unit partno : UInt8} {es es₁ : List (Issued DosOp DosResp)} {lbn : UInt16} {boot : Sector}

/-- The last sector read is a FAT boot sector. -/
def ReadLast (unit : UInt8) (es : List (Issued DosOp DosResp)) (lbn : UInt16) (boot : Sector) : Prop :=
  fatKind boot = 0 ∧
    ∃ old, es.getLast? = some ⟨.readLocal unit.toUInt16 lbn old, (.RES_OK, boot)⟩

/-- The last sector that the search reads is a FAT boot sector, and not sector 0 where a partition is
asked for. -/
def FoundBoot (unit partno : UInt8) (es : List (Issued DosOp DosResp)) (lbn : UInt16)
    (boot : Sector) : Prop :=
  ReadLast unit es lbn boot ∧ (partno ≠ 0 → 1 < es.length)

theorem readLast_nil : ¬ ReadLast unit [] lbn boot := fun h => nomatch h.2

theorem readLast_append (hne : es ≠ []) : ReadLast unit (es₁ ++ es) lbn boot ↔ ReadLast unit es lbn boot := by
  unfold ReadLast
  rw [List.getLast?_append_of_ne_nil _ hne]

/-- `check_fs` finds a FAT boot sector if its read gives one. -/
theorem checkFs_found {sect : UInt32} {old data : Sector} {fmt : UInt8}
    (h : (checkFs unit sect old).Trace es (fmt, data)) :
    es.length = 1 ∧ ∀ lbn boot,
      (ReadLast unit es lbn boot ↔ fmt = 0 ∧ data = boot ∧ sect.toUInt16 = lbn) := by
  rcases Prog.trace_op.mp h with ⟨⟨status, data'⟩, es', rfl, hrest⟩
  have hrest' : (if status ≠ .RES_OK then .ret (3, data') else .ret (fatKind data', data') :
      DosProg (UInt8 × Sector)).Trace es' (fmt, data) := hrest
  unfold ReadLast
  by_cases hstatus : status = .RES_OK
  · subst hstatus
    rw [if_neg (not_not.mpr rfl)] at hrest'
    rcases Prog.trace_ret.mp hrest' with ⟨rfl, hret⟩
    cases hret
    refine ⟨rfl, fun lbn boot => ?_⟩
    constructor
    · rintro ⟨hfat, old', hlast⟩
      cases hlast
      exact ⟨hfat, rfl, rfl⟩
    · rintro ⟨hfat, rfl, rfl⟩
      exact ⟨hfat, old, rfl⟩
  · rw [if_pos hstatus] at hrest'
    rcases Prog.trace_ret.mp hrest' with ⟨rfl, hret⟩
    cases hret
    refine ⟨rfl, fun lbn boot => ?_⟩
    constructor
    · rintro ⟨-, old', hlast⟩
      cases hlast
      exact absurd rfl hstatus
    · rintro ⟨hfmt, -⟩
      cases hfmt

/-- One entry of the partition table is tried. -/
def tryPartition (unit : UInt8) (bsect : UInt32) (localBuffer : Sector) : DosProg (UInt8 × Sector) :=
  if bsect ≠ 0 then checkFs unit bsect localBuffer else .ret (2, localBuffer)

theorem tryPartition_found {bsect : UInt32} {old data : Sector} {fmt : UInt8}
    (h : (tryPartition unit bsect old).Trace es (fmt, data)) (lbn : UInt16) (boot : Sector) :
    ReadLast unit es lbn boot ↔ fmt = 0 ∧ data = boot ∧ bsect.toUInt16 = lbn := by
  unfold tryPartition at h
  by_cases hsect : bsect = 0
  · rw [if_neg (not_not.mpr hsect)] at h
    rcases Prog.trace_ret.mp h with ⟨rfl, hret⟩
    cases hret
    exact iff_of_false readLast_nil fun hfmt => absurd hfmt.1 (by decide)
  · rw [if_pos hsect] at h
    exact (checkFs_found h).2 lbn boot

theorem findPartition_cons (bsect : UInt32) (br : List UInt32) (old : Sector) :
    findPartition unit partno (bsect :: br) old = (tryPartition unit bsect old).bind fun x =>
      if partno = 0 ∧ x.1 ≠ 0 ∧ br ≠ [] then findPartition unit partno br x.2
      else .ret (bsect, x.1, x.2) := by
  rw [findPartition, tryPartition]
  split <;> rfl

theorem findPartition_found {br : List UInt32} {old data : Sector} {bsect : UInt32} {fmt : UInt8}
    (h : (findPartition unit partno br old).Trace es (bsect, fmt, data)) (lbn : UInt16)
    (boot : Sector) :
    ReadLast unit es lbn boot ↔ fmt = 0 ∧ data = boot ∧ bsect.toUInt16 = lbn := by
  induction br generalizing old es with
  | nil =>
    rcases Prog.trace_ret.mp h with ⟨rfl, hret⟩
    cases hret
    exact iff_of_false readLast_nil fun hfmt => absurd hfmt.1 (by decide)
  | cons bsect₁ br ih =>
    rw [findPartition_cons] at h
    rcases Prog.trace_bind.mp h with ⟨es₁, es₂, ⟨fmt₁, data₁⟩, rfl, htry, hrest⟩
    have hfound := tryPartition_found htry lbn boot
    by_cases hnext : partno = 0 ∧ fmt₁ ≠ 0 ∧ br ≠ []
    · -- the entry is no FAT volume, and the loop goes on
      simp only [if_pos hnext] at hrest
      have htail := ih hrest
      by_cases hne : es₂ = []
      · subst hne
        rw [List.append_nil, hfound]
        have hnot : ¬ (fmt = 0 ∧ data = boot ∧ bsect.toUInt16 = lbn) :=
          fun hfmt => readLast_nil (htail.mpr hfmt)
        exact iff_of_false (fun hfmt => hnext.2.1 hfmt.1) hnot
      · rw [readLast_append hne, htail]
    · simp only [if_neg hnext] at hrest
      rcases Prog.trace_ret.mp hrest with ⟨rfl, hret⟩
      cases hret
      rw [List.append_nil, hfound]

/-- The search, whatever `LPTRead` answers. -/
theorem locateVolume_found {old data : Sector} {bsect : UInt32} {fmt : UInt8}
    (h : (locateVolume unit partno old).Trace es (bsect, fmt, data)) (lbn : UInt16)
    (boot : Sector) :
    FoundBoot unit partno es lbn boot ↔ fmt = 0 ∧ data = boot ∧ bsect.toUInt16 = lbn := by
  have hbind : ((checkFs unit 0 old).bind fun x =>
      if x.1 = 1 ∨ x.1 = 0 ∧ partno ≠ 0 then
        findPartition unit partno
          ((partitions x.2).drop (if partno ≠ 0 then (partno - 1).toNat else 0)) x.2
      else .ret (0, x.1, x.2)).Trace es (bsect, fmt, data) := h
  rcases Prog.trace_bind.mp hbind with ⟨es₁, es₂, ⟨fmt₁, data₁⟩, rfl, hcheck, hrest⟩
  rcases checkFs_found hcheck with ⟨hone, hread⟩
  have hfound := hread lbn boot
  unfold FoundBoot
  by_cases hpart : fmt₁ = 1 ∨ fmt₁ = 0 ∧ partno ≠ 0
  · simp only [if_pos hpart] at hrest
    have htail := findPartition_found hrest lbn boot
    by_cases hne : es₂ = []
    · subst hne
      rw [List.append_nil, hfound, hone]
      have hnot : ¬ (fmt = 0 ∧ data = boot ∧ bsect.toUInt16 = lbn) :=
        fun hfmt => readLast_nil (htail.mpr hfmt)
      refine iff_of_false ?_ hnot
      rintro ⟨⟨hzero, -⟩, hbeyond⟩
      rcases hpart with hone' | ⟨-, hpartno⟩
      · rw [hzero] at hone'
        cases hone'
      · exact absurd (hbeyond hpartno) (Nat.lt_irrefl 1)
    · have hlen : 1 < (es₁ ++ es₂).length := by
        rw [List.length_append, hone]
        exact Nat.lt_add_of_pos_right (List.length_pos_iff.mpr hne)
      rw [readLast_append hne, htail]
      exact and_iff_left fun _ => hlen
  · simp only [if_neg hpart] at hrest
    rcases Prog.trace_ret.mp hrest with ⟨rfl, hret⟩
    cases hret
    rw [List.append_nil, hfound, hone]
    refine and_iff_left_of_imp ?_
    rintro ⟨hzero, -⟩ hpartno
    exact absurd (.inr ⟨hzero, hpartno⟩) hpart

end Search

section Mount

variable {unit partno : UInt8} {i : Nat} {d d' : Driver} {es : List (Issued DosOp DosResp)} {r : Int}

/-- The sector that the search found begins to fill the parameter block, and is rejected then. -/
def Rejected (boot : Sector) : Prop := boot.le16 11 = 512 ∧ boot.le16 14 = 0

instance (boot : Sector) : Decidable (Rejected boot) := inferInstanceAs (Decidable (_ ∧ _))

/-- What `find_volume` does with the sector `data` at which its search ended. -/
inductive Checked (unit : UInt8) (i : Nat) (bsect : UInt32) (fmt : UInt8) (data : Sector) (d : Driver) :
    Int × Driver → Prop
  | refused {r : Int} : r < 0 → ¬ (fmt = 0 ∧ data.le16 11 = 512) →
      Checked unit i bsect fmt data d (r, { d with localBuffer := data })
  | rejected : fmt = 0 → Rejected data →
      Checked unit i bsect fmt data d (-3, { d with
        bpb := update d.bpb i ((d.bpb i).begin data)
        localBuffer := data })
  | filled : fmt = 0 → data.le16 11 = 512 → data.le16 14 ≠ 0 →
      Checked unit i bsect fmt data d (0, { d with
        bpb := update d.bpb i (decoded data)
        diskInitialized := d.diskInitialized ||| unitBit unit
        partitionOffset := bsect
        localBuffer := data })

theorem initVolume_checked (bsect : UInt32) (fmt : UInt8) (data : Sector) (d : Driver) :
    Checked unit i bsect fmt data d
      (initVolume unit i bsect fmt { d with localBuffer := data }) := by
  unfold initVolume
  by_cases herror : fmt = 3
  · rw [if_pos herror]
    exact .refused (by decide) fun h => absurd (h.1.symm.trans herror) (by decide)
  rw [if_neg herror]
  by_cases hfmt : fmt = 0
  swap
  · rw [if_pos hfmt]
    exact .refused (by decide) fun h => hfmt h.1
  rw [if_neg (not_not.mpr hfmt)]
  by_cases hsize : data.le16 11 = 512
  swap
  · rw [if_pos hsize]
    exact .refused (by decide) fun h => hsize h.2
  rw [if_neg (not_not.mpr hsize)]
  by_cases hreserved : data.le16 14 = 0
  · have hbegun : ((d.bpb i).begin data).reservedSectors = 0 := hreserved
    simp only [if_pos hbegun]
    exact .rejected hfmt ⟨hsize, hreserved⟩
  · have hbegun : ¬ ((d.bpb i).begin data).reservedSectors = 0 := hreserved
    simp only [if_neg hbegun, complete_begin hsize]
    exact .filled hfmt hsize hreserved

/-- `find_volume` returns at once for a unit whose bit is set, or searches and checks what it finds. -/
theorem findVolume_cases (h : (findVolume unit partno i d).Trace es (r, d')) :
    d.Mounted unit ∧ es = [] ∧ r = 0 ∧ d' = d ∨
      ¬ d.Mounted unit ∧ ∃ bsect fmt data,
        (locateVolume unit partno d.localBuffer).Trace es (bsect, fmt, data) ∧
        Checked unit i bsect fmt data d (r, d') := by
  unfold findVolume at h
  by_cases hmounted : d.diskInitialized &&& unitBit unit ≠ 0
  · left
    rw [if_pos hmounted] at h
    rcases Prog.trace_ret.mp h with ⟨rfl, hret⟩
    cases hret
    exact ⟨hmounted, rfl, rfl, rfl⟩
  · right
    rw [if_neg hmounted] at h
    rcases Prog.trace_bind.mp h with ⟨es₁, es₂, ⟨bsect, fmt, data⟩, rfl, hlocate, hrest⟩
    rcases Prog.trace_ret.mp hrest with ⟨rfl, hret⟩
    rw [List.append_nil, hret]
    exact ⟨hmounted, bsect, fmt, data, hlocate, initVolume_checked bsect fmt data d⟩

/-- `LPTInitialize` says whether `find_volume` returned an error. -/
theorem lptInitialize_cases {found : Bool}
    (h : (lptInitialize unit partno i d).Trace es (found, d')) :
    ∃ r, (findVolume unit partno i d).Trace es (r, d') ∧ (found = false ↔ r < 0) := by
  rcases Prog.trace_bind.mp h with ⟨es₁, es₂, ⟨r, d₁⟩, rfl, hfind, hret⟩
  have hret' : (if r < 0 then .ret (false, d₁) else .ret (true, d₁) :
      DosProg (Bool × Driver)).Trace es₂ (found, d') := hret
  by_cases hr : r < 0
  · rw [if_pos hr] at hret'
    rcases Prog.trace_ret.mp hret' with ⟨rfl, heq⟩
    cases heq
    rw [List.append_nil]
    exact ⟨r, hfind, iff_of_true rfl hr⟩
  · rw [if_neg hr] at hret'
    rcases Prog.trace_ret.mp hret' with ⟨rfl, heq⟩
    cases heq
    rw [List.append_nil]
    exact ⟨r, hfind, iff_of_false (by decide) hr⟩

/-- The parameter block, the partition offset and the bits of the units are as before. -/
structure Driver.Untouched (d d' : Driver) : Prop where
  bpb : d'.bpb = d.bpb
  partitionOffset : d'.partitionOffset = d.partitionOffset
  diskInitialized : d'.diskInitialized = d.diskInitialized

/-- A call of `LPTInitialize` that fails leaves everything as it was exactly if it did not find a boot
sector with no reserved sectors, or one whose first fields the parameter block had already. -/
theorem failed_mount_iff (h : (lptInitialize unit partno i d).Trace es (false, d')) :
    d.Untouched d' ↔ ∀ lbn boot, FoundBoot unit partno es lbn boot → Rejected boot →
      (d.bpb i).begin boot = d.bpb i := by
  rcases lptInitialize_cases h with ⟨r, hfind, hfound⟩
  have hr := hfound.mp rfl
  rcases findVolume_cases hfind with ⟨-, -, rfl, -⟩ | ⟨-, bsect, fmt, data, hlocate, hchecked⟩
  · exact absurd hr (by decide)
  cases hchecked with
  | refused _ hnot =>
    refine iff_of_true ⟨rfl, rfl, rfl⟩ ?_
    intro lbn boot hboot hrejected
    rcases (locateVolume_found hlocate _ _).mp hboot with ⟨hfmt, rfl, -⟩
    exact absurd ⟨hfmt, hrejected.1⟩ hnot
  | rejected hfmt hrejected =>
    constructor
    · intro huntouched lbn boot hboot _
      rcases (locateVolume_found hlocate _ _).mp hboot with ⟨-, rfl, -⟩
      have hbpb := congrFun huntouched.bpb i
      simpa using hbpb
    · intro hsame
      have hboot := (locateVolume_found hlocate _ _).mpr ⟨hfmt, rfl, rfl⟩
      refine ⟨?_, rfl, rfl⟩
      show update d.bpb i ((d.bpb i).begin data) = d.bpb
      rw [hsame _ _ hboot hrejected, update_eq_self]
  | filled => exact absurd hr (by decide)

/-- A FAT boot sector without reserved sectors. -/
def unreserved : Sector :=
  ((Sector.zero.setFrom 11 [0, 2, 8]).setFrom 54 [0x46, 0x41, 0x54]).setFrom 510 [0x55, 0xaa]

/-- A boot sector at block 0 that is rejected so. -/
theorem lptInitialize_rejects {boot : Sector} (hkind : fatKind boot = 0) (hrejected : Rejected boot)
    (hd : ¬ d.Mounted unit) :
    (lptInitialize unit 0 i d).Trace (bootRead unit d.localBuffer boot)
      (false, { d with bpb := update d.bpb i ((d.bpb i).begin boot), localBuffer := boot }) := by
  have hbit : ¬ d.diskInitialized &&& unitBit unit ≠ 0 := hd
  have hreserved : ((d.bpb i).begin boot).reservedSectors = 0 := hrejected.2
  have hinit : initVolume unit i 0 0 { d with localBuffer := boot } =
      (-3, { d with bpb := update d.bpb i ((d.bpb i).begin boot), localBuffer := boot }) := by
    unfold initVolume
    rw [if_neg (by decide), if_neg (by decide), if_neg (not_not.mpr hrejected.1)]
    simp only [if_pos hreserved]
  have hfind : (findVolume unit 0 i d).Trace (bootRead unit d.localBuffer boot)
      (-3, { d with bpb := update d.bpb i ((d.bpb i).begin boot), localBuffer := boot }) := by
    unfold findVolume
    rw [if_neg hbit]
    refine Prog.trace_bind.mpr ⟨_, [], _, (List.append_nil _).symm,
      locateVolume_reads hkind d.localBuffer, ?_⟩
    rw [← hinit]
    exact .ret _
  exact Prog.trace_bind.mpr ⟨_, [], _, (List.append_nil _).symm, hfind, .ret _⟩

/-- The variables after a mount of it has failed once. -/
def rejectedOnce : Driver :=
  { Driver.loaded with bpb := update Driver.loaded.bpb 0 (mkbpb.begin unreserved), localBuffer := unreserved }

/-- It is read again, and the parameter block has its first fields already: nothing is touched. -/
theorem failed_mount_again : ∃ es d', (lptInitialize 0 0 0 rejectedOnce).Trace es (false, d') ∧
    FoundBoot 0 0 es 0 unreserved ∧ Rejected unreserved ∧ rejectedOnce.bpb 0 ≠ mkbpb ∧
    rejectedOnce.Untouched d' := by
  have hkind : fatKind unreserved = 0 := by decide +kernel
  have hrejected : Rejected unreserved := by decide +kernel
  have hunmounted : ¬ rejectedOnce.Mounted 0 := by decide
  have hsame : (rejectedOnce.bpb 0).begin unreserved = rejectedOnce.bpb 0 := by decide +kernel
  have hfails := lptInitialize_rejects (i := 0) hkind hrejected hunmounted
  refine ⟨_, _, hfails, ⟨⟨hkind, _, rfl⟩, fun hpart => absurd rfl hpart⟩, hrejected, by decide +kernel,
    (failed_mount_iff hfails).mpr ?_⟩
  rintro lbn boot ⟨⟨-, old, hlast⟩, -⟩ -
  cases hlast
  exact hsame

/-- The mount of a volume without reserved sectors fails, and changes the parameter block. -/
theorem failed_mount_fills :
    ¬ ∀ (unit : UInt8) (d d' : Driver) (es : List (Issued DosOp DosResp)),
      (lptInitialize unit d.partitionNumber unit.toNat d).Trace es (false, d') → d.Untouched d' := by
  intro h
  have hkind : fatKind unreserved = 0 := by decide +kernel
  have hrejected : Rejected unreserved := by decide +kernel
  have hunmounted : ¬ Driver.loaded.Mounted 0 := by decide
  have hfails := lptInitialize_rejects (i := 0) hkind hrejected hunmounted
  have hbpb : update Driver.loaded.bpb 0 (mkbpb.begin unreserved) 0 = mkbpb :=
    congrFun (h 0 .loaded _ _ hfails).bpb 0
  have hzero : (mkbpb.begin unreserved).reservedSectors = 0 := hrejected.2
  rw [update_self] at hbpb
  rw [hbpb] at hzero
  cases hzero

end Mount

section Requests

variable {unit : UInt8} {d : Driver} {boot : Sector}

/-- The first INITIALIZATION, of unit 0. -/
def firstRequest : Request := ⟨0, INITIALIZATION, 0, 0, 0, 0⟩

/-- It finds the volume of unit 0. -/
theorem initialization_trace (h : Accepted boot) :
    (lptDriver firstRequest .loaded).Trace
      (⟨.parseOptions, true⟩ :: ⟨.lptInit, ()⟩ :: bootRead 0 .zero boot)
      (⟨DONE, .units NR_DRIVES⟩, (forceInit .loaded).mount 0 boot) := by
  refine Prog.trace_op.mpr ⟨_, _, rfl, Prog.trace_op.mpr ⟨_, _, rfl, ?_⟩⟩
  have hmount : (lptInitialize 0 0 (0 : UInt8).toNat (forceInit .loaded)).Trace
      (bootRead 0 .zero boot) (true, (forceInit .loaded).mount 0 boot) :=
    lptInitialize_reads h (by decide)
  show ((lptInitialize 0 0 (0 : UInt8).toNat (forceInit .loaded)).bind _).Trace _ _
  exact Prog.trace_bind.mpr ⟨_, [], _, (List.append_nil _).symm, hmount, .ret _⟩

/-- The variables once `drive_init` has succeeded for a unit. -/
def Driver.ready (d : Driver) (unit : UInt8) : Driver :=
  { d with initNeeded := update d.initNeeded unit.toNat false }

/-- A request to read one block. -/
def readRequest (unit : UInt8) (start : UInt16) : Request := ⟨unit, INPUT, start, 1, 0, 0⟩

/-- A read that has to initialise its unit first. -/
theorem readRequest_trace {start : UInt16} {d₁ : Driver} {es : List (Issued DosOp DosResp)}
    (hneeded : d.initNeeded unit.toNat = true)
    (hinit : (lptInitialize unit d.partitionNumber unit.toNat d).Trace es (true, d₁))
    (status : DResult) :
    (lptDriver (readRequest unit start) d).Trace
      (es ++ [⟨.lptRead unit.toUInt16 start 1, status⟩]) (transferReply status (d₁.ready unit)) := by
  have hdrive : (driveInit (readRequest unit start) d).Trace es (none, d₁.ready unit) := by
    unfold driveInit
    have hpos : d.initNeeded (readRequest unit start).unit.toNat = true := hneeded
    rw [if_pos hpos]
    exact Prog.trace_bind.mpr ⟨_, [], _, (List.append_nil _).symm, hinit, .ret _⟩
  show ((driveInit (readRequest unit start) d).bind _).Trace _ _
  have hcall : (.op (.lptRead unit.toUInt16 start 1) fun status =>
      .ret (transferReply status (d₁.ready unit)) : DosProg (Reply × Driver)).Trace
        [⟨.lptRead unit.toUInt16 start 1, status⟩] (transferReply status (d₁.ready unit)) :=
    Prog.trace_op.mpr ⟨status, [], rfl, .ret _⟩
  exact Prog.trace_bind.mpr ⟨_, _, _, rfl, hdrive, hcall⟩

theorem lptInitialize_mounted {partno : UInt8} {i : Nat} (hd : d.Mounted unit) :
    (lptInitialize unit partno i d).Trace [] (true, d) := by
  have hbit : d.diskInitialized &&& unitBit unit ≠ 0 := hd
  have hfind : (findVolume unit partno i d).Trace [] (0, d) := by
    unfold findVolume
    rw [if_pos hbit]
    exact .ret _
  exact Prog.trace_bind.mpr ⟨_, [], _, rfl, hfind, .ret _⟩

end Requests

section Inversion

variable {rh : Request} {d d' : Driver} {reply : Reply} {es : List (Issued DosOp DosResp)}

/-- `drive_init` has succeeded: it had nothing to do, or has called `LPTInitialize`. -/
inductive Readied (rh : Request) (d : Driver) : List (Issued DosOp DosResp) → Driver → Prop
  | idle : d.initNeeded rh.unit.toNat = false → Readied rh d [] d
  | initialised {es : List (Issued DosOp DosResp)} {d₁ : Driver} :
      d.initNeeded rh.unit.toNat = true →
      (lptInitialize rh.unit d.partitionNumber rh.unit.toNat d).Trace es (true, d₁) →
      Readied rh d es (d₁.ready rh.unit)

theorem driveInit_cases {failed : Option UInt16} (h : (driveInit rh d).Trace es (failed, d')) :
    failed = none ∧ Readied rh d es d' ∨
      failed = some (DONE ||| ERROR ||| GENERAL_FAILURE) ∧ d.initNeeded rh.unit.toNat = true ∧
        (lptInitialize rh.unit d.partitionNumber rh.unit.toNat d).Trace es (false, d') := by
  unfold driveInit at h
  cases hneeded : d.initNeeded rh.unit.toNat with
  | false =>
    rw [hneeded] at h
    rcases Prog.trace_ret.mp h with ⟨rfl, hret⟩
    cases hret
    exact .inl ⟨rfl, .idle hneeded⟩
  | true =>
    rw [hneeded] at h
    rcases Prog.trace_bind.mp h with ⟨es₁, es₂, ⟨found, d₁⟩, rfl, hinit, hrest⟩
    cases found with
    | true =>
      rcases Prog.trace_ret.mp hrest with ⟨rfl, hret⟩
      cases hret
      rw [List.append_nil]
      exact .inl ⟨rfl, .initialised hneeded hinit⟩
    | false =>
      rcases Prog.trace_ret.mp hrest with ⟨rfl, hret⟩
      cases hret
      rw [List.append_nil]
      exact .inr ⟨rfl, rfl, hinit⟩

/-- A transfer is made once `drive_init` has succeeded. -/
theorem transfer_cases {call : DosProg DResult} (h : (transfer call rh d).Trace es (reply, d')) :
    (∃ es₁ es₂ d₁ status, es = es₁ ++ es₂ ∧ Readied rh d es₁ d₁ ∧ call.Trace es₂ status ∧
        (reply, d') = transferReply status d₁) ∨
      reply = ⟨DONE ||| ERROR ||| GENERAL_FAILURE, .none⟩ ∧ d.initNeeded rh.unit.toNat = true ∧
        (lptInitialize rh.unit d.partitionNumber rh.unit.toNat d).Trace es (false, d') := by
  rcases Prog.trace_bind.mp h with ⟨es₁, es₂, ⟨failed, d₁⟩, rfl, hinit, hrest⟩
  rcases driveInit_cases hinit with ⟨rfl, hready⟩ | ⟨rfl, hneeded, hfails⟩
  · left
    rcases Prog.trace_bind.mp hrest with ⟨es₃, es₄, status, rfl, hcall, hret⟩
    rcases Prog.trace_ret.mp hret with ⟨rfl, hreply⟩
    rw [List.append_nil]
    exact ⟨es₁, es₃, d₁, status, rfl, hready, hcall, hreply⟩
  · right
    rcases Prog.trace_ret.mp hrest with ⟨rfl, hret⟩
    cases hret
    rw [List.append_nil]
    exact ⟨rfl, hneeded, hfails⟩

theorem driverInitialize_cases (h : (driverInitialize rh d).Trace es (reply, d')) :
    es = [⟨.parseOptions, false⟩] ∧ d' = forceInit d ∨
      ∃ es₁ found, es = ⟨.parseOptions, true⟩ :: ⟨.lptInit, ()⟩ :: es₁ ∧
        (lptInitialize rh.unit d.partitionNumber rh.unit.toNat (forceInit d)).Trace es₁ (found, d') := by
  rcases Prog.trace_op.mp h with ⟨parsed, es₁, rfl, hrest⟩
  cases parsed with
  | false =>
    rcases Prog.trace_ret.mp hrest with ⟨rfl, hret⟩
    cases hret
    exact .inl ⟨rfl, rfl⟩
  | true =>
    rcases Prog.trace_op.mp hrest with ⟨_, es₂, rfl, hmount⟩
    have hbind : ((lptInitialize rh.unit d.partitionNumber rh.unit.toNat (forceInit d)).bind
        _).Trace es₂ (reply, d') := hmount
    rcases Prog.trace_bind.mp hbind with ⟨es₃, es₄, ⟨found, d₁⟩, rfl, hinit, hret⟩
    cases found with
    | true =>
      rcases Prog.trace_ret.mp hret with ⟨rfl, heq⟩
      cases heq
      rw [List.append_nil]
      exact .inr ⟨es₃, true, rfl, hinit⟩
    | false =>
      rcases Prog.trace_ret.mp hret with ⟨rfl, heq⟩
      cases heq
      rw [List.append_nil]
      exact .inr ⟨es₃, false, rfl, hinit⟩

/-- A request to read or write. -/
def Request.Transfers (rh : Request) : Prop :=
  rh.command = INPUT ∨ rh.command = OUTPUT ∨ rh.command = OUTPUT_VERIFY

/-- The call that it makes. -/
def Request.call (rh : Request) : DosProg DResult :=
  if rh.command = INPUT then .op (.lptRead rh.unit.toUInt16 rh.start rh.count) .ret
  else .op (.lptWrite rh.unit.toUInt16 rh.start rh.count) .ret

theorem genericIoctl_trace (h : (genericIoctl rh d).Trace es reply) : es = [] := by
  unfold genericIoctl at h
  split at h
  swap
  · exact (Prog.trace_ret.mp h).1
  split at h
  · rcases Prog.trace_bind.mp h with ⟨es₁, es₂, p, rfl, hparams, hret⟩
    have hparams' : (if (d.bpb 0).trackSize * (d.bpb 0).headCount = 0 then
        .op .divideError fun e => e.elim else .ret _ : DosProg DeviceParams).Trace es₁ p := hparams
    split at hparams'
    · rcases Prog.trace_op.mp hparams' with ⟨r, -⟩
      exact r.elim
    · rw [(Prog.trace_ret.mp hparams').1, (Prog.trace_ret.mp hret).1]
      rfl
  split at h
  · exact (Prog.trace_ret.mp h).1
  split at h
  · exact (Prog.trace_ret.mp h).1
  · exact (Prog.trace_ret.mp h).1

/-- An INITIALIZATION, a transfer, or a request that changes nothing. -/
theorem lptDriver_cases (h : (lptDriver rh d).Trace es (reply, d')) :
    rh.command = INITIALIZATION ∧ (driverInitialize rh d).Trace es (reply, d') ∨
      rh.Transfers ∧ (transfer rh.call rh d).Trace es (reply, d') ∨
      ¬ rh.Transfers ∧ es = [] ∧ d' = d := by
  have hplain {r : Reply} (hnot : ¬ rh.Transfers)
      (hret : (.ret (r, d) : DosProg (Reply × Driver)).Trace es (reply, d')) :
      ¬ rh.Transfers ∧ es = [] ∧ d' = d := by
    rcases Prog.trace_ret.mp hret with ⟨rfl, heq⟩
    cases heq
    exact ⟨hnot, rfl, rfl⟩
  unfold lptDriver at h
  by_cases hinit : rh.command = INITIALIZATION
  · rw [if_pos hinit] at h
    exact .inl ⟨hinit, h⟩
  right
  rw [if_neg hinit] at h
  by_cases htransfers : rh.Transfers
  · left
    refine ⟨htransfers, ?_⟩
    unfold Request.call
    rcases htransfers with hin | hout | hverify
    · rw [hin, if_neg (by decide), if_neg (by decide), if_pos rfl] at h
      rw [if_pos hin]
      exact h
    · rw [hout, if_neg (by decide), if_neg (by decide), if_neg (by decide), if_pos (by decide)] at h
      rw [hout, if_neg (by decide)]
      exact h
    · rw [hverify, if_neg (by decide), if_neg (by decide), if_neg (by decide), if_pos (by decide)] at h
      rw [hverify, if_neg (by decide)]
      exact h
  right
  rcases not_or.mp htransfers with ⟨hin, hout⟩
  rw [if_neg hin, if_neg hout] at h
  split at h
  · exact hplain htransfers h
  split at h
  · exact hplain htransfers h
  split at h
  · rcases Prog.trace_bind.mp h with ⟨es₁, es₂, r, rfl, hioctl, hret⟩
    cases genericIoctl_trace hioctl
    exact hplain htransfers hret
  split at h
  · exact hplain htransfers h
  split at h
  · exact hplain htransfers h
  · exact hplain htransfers h

end Inversion

end LptStore.Dos
