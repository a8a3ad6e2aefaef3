import LptStore.Dos.Partition

/-!
# Mounting again after an error

After a transfer has failed, `drive_init` initialises every unit again before its next transfer. But
`find_volume` keeps a bit of its own for each unit whose volume it has found, and looks for none of
these a second time: the parameter block of a unit stays that of the medium it was first found on.
-/

namespace LptStore.Dos

open LptStore.Lib LptStore.Protocol Function

section Images

/-- The blocks of a medium that can be read. -/
abbrev Image := UInt16 → Option Sector

/-- The boot sector of the partition that starts there, if it is a FAT volume. -/
def Image.partitionSector (image : Image) (sect : UInt32) : Option Sector :=
  if sect ≠ 0 then (image sect.toUInt16).filter fun s => fatKind s = 0 else none

/-- The FAT boot sector of a medium: its first block, or that of the first FAT partition. -/
def Image.fatSector (image : Image) : Option Sector :=
  (image 0).bind fun s =>
    if fatKind s = 0 then some s
    else if fatKind s = 1 then (partitions s).findSome? image.partitionSector
    else none

/-- The boot sector of the volume on a medium, with sectors of 512 bytes of which some are reserved. -/
def Image.boot (image : Image) : Option Sector :=
  image.fatSector.filter fun s => s.le16 11 = 512 ∧ s.le16 14 ≠ 0

/-- The blocks read into `local_buffer` are those of the media in the units. -/
def FromImages (images : UInt8 → Image) : Issued DosOp DosResp → Prop
  | ⟨.readLocal unit lbn _, answer⟩ =>
      match images unit.toUInt8 lbn with
      | some s => answer = (.RES_OK, s)
      | none => answer.1 ≠ .RES_OK
  | _ => True

/-- The sector read, if `check_fs` says that it is a FAT boot sector. -/
def seen (fmt : UInt8) (data : Sector) : Option Sector := if fmt = 0 then some data else none

variable {images : UInt8 → Image} {unit : UInt8} {es : List (Issued DosOp DosResp)}
  {old data : Sector} {fmt : UInt8} {bsect : UInt32}

theorem checkFs_image {sect : UInt32} (h : (checkFs unit sect old).Trace es (fmt, data))
    (hes : ∀ e ∈ es, FromImages images e) :
    match images unit sect.toUInt16 with
    | some s => fmt = fatKind s ∧ data = s
    | none => fmt = 3 := by
  rcases Prog.trace_op.mp h with ⟨⟨status, data'⟩, es', rfl, hrest⟩
  have hrest' : (if status ≠ .RES_OK then .ret (3, data') else .ret (fatKind data', data') :
      DosProg (UInt8 × Sector)).Trace es' (fmt, data) := hrest
  have hread := hes _ List.mem_cons_self
  simp only [FromImages, UInt8.toUInt8_toUInt16] at hread
  cases himage : images unit sect.toUInt16 with
  | some s =>
    rw [himage] at hread
    cases hread
    rw [if_neg (not_not.mpr rfl)] at hrest'
    cases (Prog.trace_ret.mp hrest').2
    exact ⟨rfl, rfl⟩
  | none =>
    rw [himage] at hread
    rw [if_pos hread] at hrest'
    cases (Prog.trace_ret.mp hrest').2
    rfl

theorem seen_fatKind (s : Sector) : seen (fatKind s) s = (some s).filter fun s => fatKind s = 0 := by
  unfold seen
  rw [Option.filter_some]
  simp

theorem tryPartition_image (h : (tryPartition unit bsect old).Trace es (fmt, data))
    (hes : ∀ e ∈ es, FromImages images e) :
    seen fmt data = (images unit).partitionSector bsect := by
  unfold tryPartition at h
  unfold Image.partitionSector
  by_cases hsect : bsect = 0
  · rw [if_neg (not_not.mpr hsect)] at h ⊢
    cases (Prog.trace_ret.mp h).2
    rfl
  · rw [if_pos hsect] at h ⊢
    have hread := checkFs_image h hes
    cases himage : images unit bsect.toUInt16 with
    | some s =>
      rw [himage] at hread
      rcases hread with ⟨rfl, rfl⟩
      exact seen_fatKind data
    | none =>
      rw [himage] at hread
      subst hread
      rfl

theorem findPartition_image {br : List UInt32}
    (h : (findPartition unit 0 br old).Trace es (bsect, fmt, data))
    (hes : ∀ e ∈ es, FromImages images e) :
    seen fmt data = br.findSome? (images unit).partitionSector := by
  induction br generalizing old es with
  | nil =>
    cases (Prog.trace_ret.mp h).2
    rfl
  | cons bsect₁ br ih =>
    rw [findPartition_cons] at h
    rcases Prog.trace_bind.mp h with ⟨es₁, es₂, ⟨fmt₁, data₁⟩, rfl, htry, hrest⟩
    have hseen := tryPartition_image htry fun e he => hes e (List.mem_append_left _ he)
    have hnext : (if (0 : UInt8) = 0 ∧ fmt₁ ≠ 0 ∧ br ≠ [] then findPartition unit 0 br data₁
        else .ret (bsect₁, fmt₁, data₁)).Trace es₂ (bsect, fmt, data) := hrest
    rw [List.findSome?_cons, ← hseen]
    by_cases hfmt : fmt₁ = 0
    · -- the entry is a FAT volume, and the loop ends
      rw [if_neg fun hgo => hgo.2.1 hfmt] at hnext
      cases (Prog.trace_ret.mp hnext).2
      rw [hfmt]
      rfl
    · have hnone : seen fmt₁ data₁ = none := if_neg hfmt
      rw [hnone]
      by_cases hne : br = []
      · subst hne
        rw [if_neg fun hgo => hgo.2.2 rfl] at hnext
        cases (Prog.trace_ret.mp hnext).2
        exact hnone
      · rw [if_pos ⟨rfl, hfmt, hne⟩] at hnext
        exact ih hnext fun e he => hes e (List.mem_append_right _ he)

/-- The search finds the FAT boot sector of the medium. -/
theorem locateVolume_image (h : (locateVolume unit 0 old).Trace es (bsect, fmt, data))
    (hes : ∀ e ∈ es, FromImages images e) : seen fmt data = (images unit).fatSector := by
  have hbind : ((checkFs unit 0 old).bind fun x =>
      if x.1 = 1 ∨ x.1 = 0 ∧ (0 : UInt8) ≠ 0 then findPartition unit 0 ((partitions x.2).drop 0) x.2
      else .ret (0, x.1, x.2)).Trace es (bsect, fmt, data) := h
  rcases Prog.trace_bind.mp hbind with ⟨es₁, es₂, ⟨fmt₁, data₁⟩, rfl, hcheck, hrest⟩
  have hread := checkFs_image hcheck fun e he => hes e (List.mem_append_left _ he)
  unfold Image.fatSector
  have hzero : (0 : UInt32).toUInt16 = 0 := rfl
  rw [hzero] at hread
  cases himage : images unit 0 with
  | none =>
    rw [himage] at hread
    subst hread
    cases (Prog.trace_ret.mp hrest).2
    rfl
  | some s =>
    rw [himage] at hread
    rcases hread with ⟨rfl, rfl⟩
    rw [Option.bind_some]
    have hnext : (if fatKind data₁ = 1 ∨ fatKind data₁ = 0 ∧ (0 : UInt8) ≠ 0 then
        findPartition unit 0 (partitions data₁) data₁
        else .ret (0, fatKind data₁, data₁)).Trace es₂ (bsect, fmt, data) := hrest
    by_cases hone : fatKind data₁ = 1
    · have hnot : ¬ fatKind data₁ = 0 := by
        rw [hone]
        decide
      rw [if_pos (.inl hone)] at hnext
      rw [if_neg hnot, if_pos hone]
      exact findPartition_image hnext fun e he => hes e (List.mem_append_right _ he)
    · have hnot : ¬ (fatKind data₁ = 1 ∨ fatKind data₁ = 0 ∧ (0 : UInt8) ≠ 0) := by
        rintro (hkind | ⟨-, hpart⟩)
        · exact hone hkind
        · exact hpart rfl
      rw [if_neg hnot] at hnext
      cases (Prog.trace_ret.mp hnext).2
      rw [if_neg hone]
      rfl

end Images

section Search

/-- The operation looks for a volume. -/
def DosOp.looks : DosOp → Bool
  | .readLocal _ _ _ => true
  | _ => false

namespace Driver

/-- The unit's volume is not found; the parameter block of the unit may have changed. -/
structure Misses (unit : UInt8) (d d' : Driver) : Prop where
  unmounted : ¬ d.Mounted unit
  bpb : ∀ j ≠ unit.toNat, d'.bpb j = d.bpb j
  diskInitialized : d'.diskInitialized = d.diskInitialized
  partitionNumber : d'.partitionNumber = d.partitionNumber

/-- The unit's volume is looked for on a medium with this boot sector. -/
def Searches (boot : Option Sector) (unit : UInt8) (d d' : Driver) : Prop :=
  match boot with
  | some boot => d.Mounts (fun _ => boot) unit d'
  | none => d.Misses unit d'

/-- The volumes are as before, or one has been looked for. -/
def Looked (boot : Option Sector) (unit : UInt8) (searched : Bool) (d d' : Driver) : Prop :=
  searched = false ∧ d.SameVolumes d' ∨ searched = true ∧ d.Searches boot unit d'

variable {boot : Option Sector} {unit : UInt8} {searched : Bool} {d d₁ d' : Driver}

theorem SameVolumes.misses (h : d.SameVolumes d₁) (h' : d₁.Misses unit d') : d.Misses unit d' where
  unmounted := mt (mounted_congr h.diskInitialized unit).mpr h'.unmounted
  bpb j hj := (h'.bpb j hj).trans (congrFun h.bpb j)
  diskInitialized := h'.diskInitialized.trans h.diskInitialized
  partitionNumber := h'.partitionNumber.trans h.partitionNumber

theorem Misses.sameVolumes (h : d.Misses unit d₁) (h' : d₁.SameVolumes d') : d.Misses unit d' :=
  ⟨h.unmounted, fun j hj => (congrFun h'.bpb j).trans (h.bpb j hj),
    h'.diskInitialized.trans h.diskInitialized, h'.partitionNumber.trans h.partitionNumber⟩

theorem Looked.after (h : d.SameVolumes d₁) (h' : d₁.Looked boot unit searched d') :
    d.Looked boot unit searched d' := by
  refine h'.imp (fun ⟨hs, hsame⟩ => ⟨hs, h.trans hsame⟩) fun ⟨hs, hsearch⟩ => ⟨hs, ?_⟩
  cases boot with
  | some boot => exact h.mounts hsearch
  | none => exact h.misses hsearch

theorem Looked.then (h : d.Looked boot unit searched d₁) (h' : d₁.SameVolumes d') :
    d.Looked boot unit searched d' := by
  refine h.imp (fun ⟨hs, hsame⟩ => ⟨hs, hsame.trans h'⟩) fun ⟨hs, hsearch⟩ => ⟨hs, ?_⟩
  cases boot with
  | some boot => exact hsearch.sameVolumes h'
  | none => exact hsearch.sameVolumes h'

theorem Searches.unmounted (h : d.Searches boot unit d') : ¬ d.Mounted unit := by
  cases boot with
  | some boot => exact h.unmounted
  | none => exact h.unmounted

end Driver

variable {images : UInt8 → Image} {unit : UInt8} {es : List (Issued DosOp DosResp)} {d d' : Driver}

theorem boot_of_seen {image : Image} {fmt : UInt8} {data : Sector}
    (h : seen fmt data = image.fatSector) :
    image.boot = if fmt = 0 ∧ data.le16 11 = 512 ∧ data.le16 14 ≠ 0 then some data else none := by
  unfold Image.boot
  rw [← h, seen]
  by_cases hfmt : fmt = 0
  · rw [if_pos hfmt, Option.filter_some]
    simp [hfmt]
  · rw [if_neg hfmt, if_neg fun hall => hfmt hall.1]
    rfl

theorem locateVolume_looks {partno : UInt8} {old : Sector} {r : UInt32 × UInt8 × Sector}
    (h : (locateVolume unit partno old).Trace es r) : es.any (·.1.looks) = true := by
  rcases Prog.trace_op.mp h with ⟨answer, es', rfl, -⟩
  rfl

/-- What `LPTInitialize` comes to for a unit with a given medium. -/
theorem lptInitialize_image {found : Bool}
    (h : (lptInitialize unit 0 unit.toNat d).Trace es (found, d'))
    (hes : ∀ e ∈ es, FromImages images e) :
    d.Looked (images unit).boot unit (es.any (·.1.looks)) d' ∧ d'.initNeeded = d.initNeeded ∧
      (¬ d.Mounted unit → es.any (·.1.looks) = true ∧ found = (images unit).boot.isSome) := by
  rcases lptInitialize_cases h with ⟨r, hfind, hfound⟩
  rcases findVolume_cases hfind
    with ⟨hmounted, rfl, rfl, rfl⟩ | ⟨hunmounted, bsect, fmt, data, hlocate, hchecked⟩
  · exact ⟨.inl ⟨rfl, .refl _⟩, rfl, fun hnot => absurd hmounted hnot⟩
  have hboot := boot_of_seen (locateVolume_image hlocate hes)
  have hlooks := locateVolume_looks hlocate
  cases hchecked with
  | refused hneg hnot =>
    have hnone : (images unit).boot = none := by
      rw [hboot, if_neg fun hall => hnot ⟨hall.1, hall.2.1⟩]
    rw [hnone]
    exact ⟨.inr ⟨hlooks, hunmounted, fun _ _ => rfl, rfl, rfl⟩, rfl, fun _ => ⟨hlooks, hfound.mpr hneg⟩⟩
  | rejected hfmt hrejected =>
    have hnone : (images unit).boot = none := by
      rw [hboot, if_neg fun hall => hall.2.2 hrejected.2]
    rw [hnone]
    exact ⟨.inr ⟨hlooks, hunmounted, fun _ hj => update_of_ne hj _ _, rfl, rfl⟩, rfl,
      fun _ => ⟨hlooks, hfound.mpr (by decide)⟩⟩
  | filled hfmt hsize hreserved =>
    have hsome : (images unit).boot = some data := by
      rw [hboot, if_pos ⟨hfmt, hsize, hreserved⟩]
    rw [hsome]
    have htrue : found = true := by
      cases found with
      | false => exact absurd (hfound.mp rfl) (by decide)
      | true => rfl
    exact ⟨.inr ⟨hlooks, hunmounted, rfl, rfl, rfl⟩, rfl, fun _ => ⟨hlooks, htrue⟩⟩

end Search

section Events

/-- The operation transfers blocks for DOS. -/
def DosOp.transfers : DosOp → Bool
  | .lptRead _ _ _ => true
  | .lptWrite _ _ _ => true
  | _ => false

/-- A transfer that fails with `RES_ERROR` or `RES_NOTRDY`. -/
def failing : Issued DosOp DosResp → Bool
  | ⟨.lptRead _ _ _, status⟩ => status = .RES_ERROR ∨ status = .RES_NOTRDY
  | ⟨.lptWrite _ _ _, status⟩ => status = .RES_ERROR ∨ status = .RES_NOTRDY
  | _ => false

/-- A request answered with these media in the units. -/
structure Event extends Answered where
  images : UInt8 → Image

namespace Event

/-- A volume has been looked for. -/
def searched (e : Event) : Bool := e.operations.any (·.1.looks)

/-- The transfer has been made, so that `drive_init` has succeeded for its unit. -/
def initialised (e : Event) : Bool := e.operations.any (·.1.transfers)

/-- The transfer has failed. -/
def failed (e : Event) : Bool := e.operations.any failing

/-- The event takes the driver from one state to the next. -/
structure Happens (e : Event) (d d' : Driver) : Prop where
  numbered : e.request.unit < NR_DRIVES
  trace : (lptDriver e.request d).Trace e.operations (e.reply, d')
  images : ∀ x ∈ e.operations, FromImages e.images x

variable {e : Event} {d d₁ d' : Driver} {status : DResult} {es : List (Issued DosOp DosResp)}
  {rh : Request}

theorem call_trace (h : rh.call.Trace es status) : es.any (·.1.looks) = false ∧
    es.any (·.1.transfers) = true ∧
      (es.any failing = true ↔ status = .RES_ERROR ∨ status = .RES_NOTRDY) := by
  unfold Request.call at h
  split at h
  · rcases Prog.trace_op.mp h with ⟨status', es', rfl, hret⟩
    rcases Prog.trace_ret.mp hret with ⟨rfl, rfl⟩
    exact ⟨rfl, rfl, by simp [failing]⟩
  · rcases Prog.trace_op.mp h with ⟨status', es', rfl, hret⟩
    rcases Prog.trace_ret.mp hret with ⟨rfl, rfl⟩
    exact ⟨rfl, rfl, by simp [failing]⟩

theorem readied_looked {images : UInt8 → Image} (hpart : d.partitionNumber = 0)
    (h : Readied rh d es d') (hes : ∀ e ∈ es, FromImages images e) :
    d.Looked (images rh.unit).boot rh.unit (es.any (·.1.looks)) d' := by
  cases h with
  | idle => exact .inl ⟨rfl, .refl _⟩
  | initialised _ hinit =>
    rw [hpart] at hinit
    exact (lptInitialize_image hinit hes).1.then ⟨rfl, rfl, rfl⟩

/-- What a request does to the volumes. -/
theorem Happens.looked (h : e.Happens d d') (hpart : d.partitionNumber = 0) :
    d.Looked (e.images e.request.unit).boot e.request.unit e.searched d' := by
  have himages := h.images
  unfold searched
  rcases lptDriver_cases h.trace with ⟨-, hinit⟩ | ⟨-, htransfer⟩ | ⟨-, hnil, rfl⟩
  · rcases driverInitialize_cases hinit with ⟨hops, rfl⟩ | ⟨es₁, found, hops, hmount⟩
    · rw [hops]
      exact .inl ⟨rfl, forceInit_same d⟩
    · rw [hpart] at hmount
      rw [hops] at himages ⊢
      have hes (x) (hx : x ∈ es₁) : FromImages e.images x :=
        himages x (List.mem_cons_of_mem _ (List.mem_cons_of_mem _ hx))
      exact (lptInitialize_image hmount hes).1.after (forceInit_same d)
  · rcases transfer_cases htransfer
      with ⟨es₁, es₂, d₁, status, hops, hready, hcall, hreply⟩ | ⟨-, -, hfails⟩
    · rw [hops] at himages ⊢
      have hlooked := readied_looked hpart hready fun x hx => himages x (List.mem_append_left _ hx)
      have hsame := transferReply_same status d₁
      rw [← hreply] at hsame
      rw [List.any_append, (call_trace hcall).1, Bool.or_false]
      exact hlooked.then hsame
    · rw [hpart] at hfails
      exact (lptInitialize_image hfails himages).1
  · rw [hnil]
    exact .inl ⟨rfl, .refl _⟩

theorem transfers_of_inner {o : DosOp} (h : o.Inner) : o.transfers = false := by
  cases o with
  | lptRead unit lbn count => cases h ⟨0, 0⟩ fun _ => 0
  | lptWrite unit lbn count => cases h ⟨0, 0⟩ fun _ => 0
  | _ => rfl

/-- `LPTInitialize` transfers nothing for DOS, and leaves what has to be initialised to its caller. -/
theorem lptInitialize_inner {unit partno : UInt8} {i : Nat} {found : Bool}
    (h : (lptInitialize unit partno i d).Trace es (found, d')) :
    es.any (·.1.transfers) = false ∧ es.any failing = false ∧ d'.initNeeded = d.initNeeded := by
  have hinner := h.only (only_lptInitialize i d)
  have htransfers : es.any (·.1.transfers) = false :=
    List.any_eq_false.mpr fun x hx => by simp [transfers_of_inner (hinner x hx)]
  have hfailing : es.any failing = false := by
    refine List.any_eq_false.mpr fun x hx => ?_
    rcases x with ⟨o, r⟩
    cases o with
    | lptRead unit lbn count => cases hinner _ hx ⟨0, 0⟩ fun _ => 0
    | lptWrite unit lbn count => cases hinner _ hx ⟨0, 0⟩ fun _ => 0
    | _ => simp [failing]
  refine ⟨htransfers, hfailing, ?_⟩
  rcases lptInitialize_cases h with ⟨r, hfind, -⟩
  rcases findVolume_cases hfind with ⟨-, -, -, rfl⟩ | ⟨-, bsect, fmt, data, -, hchecked⟩
  · rfl
  · cases hchecked <;> rfl

theorem forceInit_needed (d : Driver) {u : UInt8} (hu : u < NR_DRIVES) :
    (forceInit d).initNeeded u.toNat = true := if_pos hu

theorem transferReply_driver (status : DResult) (d : Driver) : (transferReply status d).2 =
    if status = .RES_ERROR ∨ status = .RES_NOTRDY then forceInit d else d := by
  cases status <;> rfl

theorem readied_inner (h : Readied rh d es d') :
    es.any (·.1.transfers) = false ∧ es.any failing = false ∧
      ∀ i ≠ rh.unit.toNat, d'.initNeeded i = d.initNeeded i := by
  cases h with
  | idle => exact ⟨rfl, rfl, fun _ _ => rfl⟩
  | initialised _ hinit =>
    rcases lptInitialize_inner hinit with ⟨htransfers, hfailing, hneeded⟩
    refine ⟨htransfers, hfailing, fun i hi => ?_⟩
    rw [← hneeded]
    exact update_of_ne hi _ _

/-- After INITIALIZATION every unit has to be initialised. -/
theorem needed_of_initialize {reply : Reply}
    (h : (driverInitialize rh d).Trace es (reply, d')) {u : UInt8} (hu : u < NR_DRIVES) :
    d'.initNeeded u.toNat = true := by
  rcases driverInitialize_cases h with ⟨-, rfl⟩ | ⟨es₁, found, -, hmount⟩
  · exact forceInit_needed d hu
  · rw [(lptInitialize_inner hmount).2.2]
    exact forceInit_needed d hu

/-- A transfer that fails makes every unit be initialised again. -/
theorem Happens.needed_of_failed (h : e.Happens d d') (hfailed : e.failed = true) {u : UInt8}
    (hu : u < NR_DRIVES) : d'.initNeeded u.toNat = true := by
  unfold failed at hfailed
  rcases lptDriver_cases h.trace with ⟨-, hinit⟩ | ⟨-, htransfer⟩ | ⟨-, hnil, rfl⟩
  · exact needed_of_initialize hinit hu
  · rcases transfer_cases htransfer
      with ⟨es₁, es₂, d₁, status, hops, hready, hcall, hreply⟩ | ⟨-, -, hfails⟩
    · rw [hops, List.any_append, (readied_inner hready).2.1, Bool.false_or, (call_trace hcall).2.2]
        at hfailed
      have hd' : d' = (transferReply status d₁).2 := congrArg Prod.snd hreply
      rw [hd', transferReply_driver, if_pos hfailed]
      exact forceInit_needed d₁ hu
    · rw [(lptInitialize_inner hfails).2.1] at hfailed
      cases hfailed
  · rw [hnil] at hfailed
    cases hfailed

/-- It has to be until a transfer of the unit gets past `drive_init`. -/
theorem Happens.needed_kept (h : e.Happens d d') {u : UInt8} (hu : u < NR_DRIVES)
    (hnot : ¬ (e.request.unit = u ∧ e.initialised = true)) (hneeded : d.initNeeded u.toNat = true) :
    d'.initNeeded u.toNat = true := by
  unfold initialised at hnot
  rcases lptDriver_cases h.trace with ⟨-, hinit⟩ | ⟨-, htransfer⟩ | ⟨-, -, rfl⟩
  · exact needed_of_initialize hinit hu
  · rcases transfer_cases htransfer
      with ⟨es₁, es₂, d₁, status, hops, hready, hcall, hreply⟩ | ⟨-, -, hfails⟩
    · rw [hops, List.any_append, (call_trace hcall).2.1, Bool.or_true] at hnot
      have hne : u.toNat ≠ e.request.unit.toNat :=
        fun heq => hnot ⟨(UInt8.toNat_inj.mp heq).symm, rfl⟩
      have hkept := (readied_inner hready).2.2 _ hne
      rw [← hkept] at hneeded
      have hd' : d' = (transferReply status d₁).2 := congrArg Prod.snd hreply
      rw [hd', transferReply_driver]
      split
      · exact forceInit_needed d₁ hu
      · exact hneeded
    · rw [(lptInitialize_inner hfails).2.2]
      exact hneeded
  · exact hneeded

/-- A transfer that succeeds has got past `drive_init`. -/
theorem Happens.readied (h : e.Happens d d') (htransfers : e.request.Transfers)
    (hdone : e.reply.status = DONE) :
    ∃ es₁ d₁, Readied e.request d es₁ d₁ ∧ d₁.SameVolumes d' ∧ ∀ x ∈ es₁, FromImages e.images x := by
  have himages := h.images
  rcases lptDriver_cases h.trace with ⟨hinit, -⟩ | ⟨-, htransfer⟩ | ⟨hnot, -⟩
  · unfold Request.Transfers at htransfers
    rw [hinit] at htransfers
    exact absurd htransfers (by decide)
  · rcases transfer_cases htransfer with ⟨es₁, es₂, d₁, status, hops, hready, -, hreply⟩ | ⟨hreply, -⟩
    · rw [hops] at himages
      have hsame := transferReply_same status d₁
      rw [← hreply] at hsame
      exact ⟨es₁, d₁, hready, hsame, fun x hx => himages x (List.mem_append_left _ hx)⟩
    · rw [hreply] at hdone
      exact absurd hdone (by decide)
  · exact absurd htransfers hnot

end Event

end Events

section History

/-- The requests since the driver was loaded, the newest first. -/
inductive History : List Event → Driver → Prop
  | loaded : History [] .loaded
  | step {e : Event} {es : List Event} {d d' : Driver} :
      History es d → e.Happens d d' → History (e :: es) d'

/-- The boot sector of the medium on which the unit's volume was first found. -/
def foundOn (u : UInt8) : List Event → Option Sector
  | [] => none
  | e :: es =>
      (foundOn u es).or
        (if e.request.unit = u ∧ e.searched = true then (e.images u).boot else none)

/-- A transfer of some unit has failed, and since then none of this unit has got past `drive_init`. -/
def FailedSince (u : UInt8) : List Event → Prop
  | [] => False
  | e :: es => e.failed = true ∨
      ¬ (e.request.unit = u ∧ e.initialised = true) ∧ FailedSince u es

/-- The volumes that are counted as found, and their parameter blocks, are those first found. -/
structure Remembers (es : List Event) (d : Driver) : Prop where
  partitionNumber : d.partitionNumber = 0
  found : ∀ u < NR_DRIVES, ∀ boot, foundOn u es = some boot →
    d.Mounted u ∧ d.bpb u.toNat = decoded boot
  unfound : ∀ u < NR_DRIVES, foundOn u es = none → ¬ d.Mounted u

variable {e : Event} {es : List Event} {d d' : Driver} {u : UInt8}

theorem Remembers.same (h : Remembers es d) (hsame : d.SameVolumes d')
    (hfound : ∀ u, foundOn u (e :: es) = foundOn u es) : Remembers (e :: es) d' := by
  have hmounted := mounted_congr hsame.diskInitialized
  refine ⟨hsame.partitionNumber.trans h.partitionNumber, ?_, ?_⟩
  · intro u hu boot hboot
    rw [hfound] at hboot
    rw [hmounted, hsame.bpb]
    exact h.found u hu boot hboot
  · intro u hu hnone
    rw [hfound] at hnone
    rw [hmounted]
    exact h.unfound u hu hnone

theorem foundOn_other (hu : e.request.unit ≠ u) : foundOn u (e :: es) = foundOn u es := by
  rw [foundOn, if_neg fun hall => hu hall.1]
  exact Option.or_none

/-- The medium has no volume. -/
theorem Remembers.misses (h : Remembers es d) (hmisses : d.Misses e.request.unit d')
    (hown : foundOn e.request.unit (e :: es) = none) : Remembers (e :: es) d' := by
  have hmounted := mounted_congr hmisses.diskInitialized
  refine ⟨hmisses.partitionNumber.trans h.partitionNumber, ?_, ?_⟩
  · intro u hu boot hfound
    by_cases heq : e.request.unit = u
    · subst heq
      rw [hown] at hfound
      cases hfound
    · rw [foundOn_other heq] at hfound
      rw [hmounted, hmisses.bpb _ fun hnat => heq (UInt8.toNat_inj.mp hnat).symm]
      exact h.found u hu boot hfound
  · intro u hu hunfound
    rw [hmounted]
    by_cases heq : e.request.unit = u
    · subst heq
      exact hmisses.unmounted
    · rw [foundOn_other heq] at hunfound
      exact h.unfound u hu hunfound

/-- The medium has a volume. -/
theorem Remembers.mounts {boot : Sector} (h : Remembers es d) (hnumbered : e.request.unit < NR_DRIVES)
    (hmounts : d.Mounts (fun _ => boot) e.request.unit d')
    (hown : foundOn e.request.unit (e :: es) = some boot) : Remembers (e :: es) d' := by
  have hmounted (u : UInt8) (hu : u < NR_DRIVES) :=
    mounted_or hnumbered hu hmounts.diskInitialized
  refine ⟨hmounts.partitionNumber.trans h.partitionNumber, ?_, ?_⟩
  · intro u hu boot' hfound
    rw [hmounted u hu, hmounts.bpb]
    by_cases heq : e.request.unit = u
    · subst heq
      rw [hown] at hfound
      cases hfound
      exact ⟨.inr rfl, update_self _ _ _⟩
    · rw [foundOn_other heq] at hfound
      rcases h.found u hu boot' hfound with ⟨hold, hbpb⟩
      rw [update_of_ne fun hnat => heq (UInt8.toNat_inj.mp hnat).symm]
      exact ⟨.inl hold, hbpb⟩
  · intro u hu hunfound
    rw [hmounted u hu]
    by_cases heq : e.request.unit = u
    · subst heq
      rw [hown] at hunfound
      cases hunfound
    · rw [foundOn_other heq] at hunfound
      rintro (hold | hnew)
      · exact h.unfound u hu hunfound hold
      · exact heq hnew

theorem Remembers.step (h : Remembers es d) (hstep : e.Happens d d') : Remembers (e :: es) d' := by
  have hnumbered := hstep.numbered
  rcases hstep.looked h.partitionNumber with ⟨hnot, hsame⟩ | ⟨hsearched, hsearch⟩
  · refine h.same hsame fun u => ?_
    rw [foundOn, hnot, if_neg fun hall => absurd hall.2 (by decide)]
    exact Option.or_none
  -- the unit's volume has not been found before
  have hnone : foundOn e.request.unit es = none := by
    cases hfound : foundOn e.request.unit es with
    | none => rfl
    | some boot => exact absurd (h.found _ hnumbered _ hfound).1 hsearch.unmounted
  have hown : foundOn e.request.unit (e :: es) = (e.images e.request.unit).boot := by
    rw [foundOn, hnone, if_pos ⟨rfl, hsearched⟩]
    rfl
  cases hboot : (e.images e.request.unit).boot with
  | none =>
    rw [hboot] at hsearch hown
    exact h.misses hsearch hown
  | some boot =>
    rw [hboot] at hsearch hown
    exact h.mounts hnumbered hsearch hown

theorem History.remembers (h : History es d) : Remembers es d := by
  induction h with
  | loaded => exact ⟨rfl, nofun, fun _ _ _ => not_not.mpr UInt16.zero_and⟩
  | step _ hstep ih => exact ih.step hstep

theorem History.needed (h : History es d) (hu : u < NR_DRIVES) (hfailed : FailedSince u es) :
    d.initNeeded u.toNat = true := by
  induction h with
  | loaded => exact hfailed.elim
  | step _ hstep ih =>
    rcases hfailed with hnow | ⟨hnot, hbefore⟩
    · exact hstep.needed_of_failed hnow hu
    · exact hstep.needed_kept hu hnot (ih hbefore)

/-- A transfer that succeeds after a failure leaves the parameter block of the medium now in the unit
exactly if the medium on which the unit's volume was first found, if it has been, gives the same one. -/
theorem remount_iff (h : History es d) (hstep : e.Happens d d') (htransfers : e.request.Transfers)
    (hdone : e.reply.status = DONE) (hfailed : FailedSince e.request.unit es) :
    (∃ boot, (e.images e.request.unit).boot = some boot ∧
        d'.bpb e.request.unit.toNat = decoded boot) ↔
      ∀ old, foundOn e.request.unit es = some old →
        ∃ boot, (e.images e.request.unit).boot = some boot ∧ decoded boot = decoded old := by
  have hremembers := h.remembers
  have hnumbered := hstep.numbered
  rcases hstep.readied htransfers hdone with ⟨es₁, d₁, hready, hsame, himages⟩
  rw [congrFun hsame.bpb]
  cases hready with
  | idle hidle => exact absurd ((h.needed hnumbered hfailed).symm.trans hidle) (by decide)
  | initialised _ hinit =>
    rw [hremembers.partitionNumber] at hinit
    rcases lptInitialize_image hinit himages with ⟨hlooked, -, hfound⟩
    cases hold : foundOn e.request.unit es with
    | some old =>
      rcases hremembers.found _ hnumbered _ hold with ⟨hmounted, hbpb⟩
      rcases hlooked with ⟨-, hkept⟩ | ⟨-, hsearch⟩
      swap
      · exact absurd hmounted hsearch.unmounted
      have hstill : (Driver.ready _ e.request.unit).bpb e.request.unit.toNat = decoded old :=
        (congrFun hkept.bpb _).trans hbpb
      rw [hstill]
      constructor
      · rintro ⟨boot, hboot, hsame⟩ old' hold'
        cases hold'
        exact ⟨boot, hboot, hsame.symm⟩
      · intro hall
        rcases hall old rfl with ⟨boot, hboot, hsame⟩
        exact ⟨boot, hboot, hsame.symm⟩
    | none =>
      refine iff_of_true ?_ nofun
      rcases hfound (hremembers.unfound _ hnumbered hold) with ⟨hlooks, hsome⟩
      rcases Option.isSome_iff_exists.mp hsome.symm with ⟨boot, hboot⟩
      rcases hlooked with ⟨hnot, -⟩ | ⟨-, hsearch⟩
      · exact absurd (hlooks.symm.trans hnot) (by decide)
      · rw [hboot] at hsearch
        have hmounts : d.Mounts (fun _ => boot) e.request.unit _ := hsearch
        refine ⟨boot, hboot, (congrFun hmounts.bpb _).trans ?_⟩
        exact update_self _ _ _

/-- A medium of which only block 0 can be read. -/
def medium (boot : Sector) : Image := fun lbn => if lbn = 0 then some boot else none

theorem medium_boot {boot : Sector} (h : Accepted boot) : (medium boot).boot = some boot := by
  have hsector : (medium boot).fatSector = some boot := by
    show (if fatKind boot = 0 then some boot else _) = _
    exact if_pos (fatKind_accepted h)
  unfold Image.boot
  rw [hsector, Option.filter_some]
  simp [h.sectorSize, h.reserved]

/-- INITIALIZATION with a medium in unit 0. -/
def firstEvent (boot : Sector) : Event :=
  ⟨⟨firstRequest, ⟨.parseOptions, true⟩ :: ⟨.lptInit, ()⟩ :: bootRead 0 .zero boot,
    ⟨DONE, .units NR_DRIVES⟩⟩, fun _ => medium boot⟩

/-- A read of block 0 of unit 0 that does not look for the volume. -/
def readEvent (boot : Sector) (status : DResult) : Event :=
  ⟨⟨readRequest 0 0, [⟨.lptRead 0 0 1, status⟩], (transferReply status .loaded).1⟩,
    fun _ => medium boot⟩

theorem firstEvent_happens {boot : Sector} (h : Accepted boot) :
    (firstEvent boot).Happens .loaded ((forceInit .loaded).mount 0 boot) where
  numbered := by
    show (0 : UInt8) < NR_DRIVES
    decide
  trace := initialization_trace h
  images := by simp [firstEvent, bootRead, FromImages, medium]

theorem readEvent_happens {boot : Sector} (hneeded : d.initNeeded 0 = true) (hd : d.Mounted 0)
    (status : DResult) :
    (readEvent boot status).Happens d (transferReply status (d.ready 0)).2 where
  numbered := by
    show (0 : UInt8) < NR_DRIVES
    decide
  trace := by
    have hreply : ((transferReply status .loaded).1, (transferReply status (d.ready 0)).2) =
        transferReply status (d.ready 0) := by
      cases status <;> rfl
    show (lptDriver (readRequest 0 0) d).Trace [⟨.lptRead 0 0 1, status⟩]
      ((transferReply status .loaded).1, (transferReply status (d.ready 0)).2)
    rw [hreply]
    exact readRequest_trace hneeded (lptInitialize_mounted hd) status
  images := by simp [readEvent, FromImages]

/-- A medium is mounted in unit 0, a read fails, and the next succeeds, with the second medium in the
unit. -/
theorem remount_run {boot : Sector} (h : Accepted boot) (boot' : Sector) :
    ∃ d d', History [readEvent boot .RES_ERROR, firstEvent boot] d ∧
      (readEvent boot' .RES_OK).Happens d d' ∧ d'.bpb 0 = decoded boot := by
  have hfirst : History [firstEvent boot] _ := .step .loaded (firstEvent_happens h)
  have hmounted : ((forceInit .loaded).mount 0 boot).Mounted 0 := by
    show ((0 : UInt16) ||| unitBit 0) &&& unitBit 0 ≠ 0
    decide
  have hfails : (readEvent boot .RES_ERROR).Happens _ _ := readEvent_happens rfl hmounted .RES_ERROR
  have hneeded : (transferReply .RES_ERROR (((forceInit .loaded).mount 0 boot).ready 0)).2.initNeeded 0 =
      true := rfl
  have hnext : (readEvent boot' .RES_OK).Happens _ _ := readEvent_happens hneeded hmounted .RES_OK
  exact ⟨_, _, .step hfirst hfails, hnext, rfl⟩

/-- With the same medium in the unit the parameter block is right. -/
theorem remount_iff_same : ∃ d d', History [readEvent smallBoot .RES_ERROR, firstEvent smallBoot] d ∧
    (readEvent smallBoot .RES_OK).Happens d d' ∧
      ∃ boot, (medium smallBoot).boot = some boot ∧ d'.bpb 0 = decoded boot := by
  rcases remount_run smallBoot_accepted smallBoot with ⟨d, d', hhistory, hnext, -⟩
  refine ⟨d, d', hhistory, hnext, ?_⟩
  refine (remount_iff hhistory hnext (.inl rfl) rfl (.inl rfl)).mpr fun old hold => ?_
  have hfirst : foundOn 0 [readEvent smallBoot .RES_ERROR, firstEvent smallBoot] =
      (medium smallBoot).boot := by
    simp [foundOn, Event.searched, readEvent, firstEvent, firstRequest, bootRead, DosOp.looks]
  rw [medium_boot smallBoot_accepted] at hfirst
  cases hfirst.symm.trans hold
  exact ⟨smallBoot, medium_boot smallBoot_accepted, rfl⟩

/-- A volume with eight sectors per cluster. -/
def otherBoot : Sector := smallBoot.set 13 8

/-- With another medium the parameter block stays that of the first. -/
theorem remount_keeps_old : ¬ ∀ (es : List Event) (e : Event) (d d' : Driver), History es d →
    e.Happens d d' → e.request.Transfers → e.reply.status = DONE →
    FailedSince e.request.unit es → ∃ boot, (e.images e.request.unit).boot = some boot ∧
      d'.bpb e.request.unit.toNat = decoded boot := by
  intro h
  have hother : Accepted otherBoot := by decide +kernel
  rcases remount_run smallBoot_accepted otherBoot with ⟨d, d', hhistory, hnext, hbpb⟩
  rcases h _ _ _ _ hhistory hnext (.inl rfl) rfl (.inl rfl) with ⟨boot, hboot, hsame⟩
  cases (medium_boot hother).symm.trans hboot
  have hold : decoded smallBoot = decoded otherBoot := hbpb.symm.trans hsame
  exact absurd hold (by decide +kernel)

end History

end LptStore.Dos
