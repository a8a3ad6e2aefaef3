import LptStore.Dos.Geometry
import LptStore.Protocol.Blocks

/-!
# The place of the volume on the medium

`find_volume` records the block at which it found the volume, in one variable for all units, and nothing
reads it: a request of DOS is passed on with the block number that it comes with.
-/

namespace LptStore.Dos

open LptStore.Lib LptStore.Protocol Function

/-- The call of `LPTRead` or `LPTWrite` for DOS that an operation stands for. -/
def DosOp.call (buffer : FarPtr) (mem : Mem) : DosOp → Option Call
  | .lptRead unit lbn count => some ⟨.read, unit, lbn, buffer, count, mem⟩
  | .lptWrite unit lbn count => some ⟨.write, unit, lbn, buffer, count, mem⟩
  | _ => none

section Calls

/-- The operation transfers nothing for DOS. -/
def DosOp.Inner (o : DosOp) : Prop := ∀ buffer mem, o.call buffer mem = none

/-- What the operation transfers is what the request asks for. -/
def DosOp.Passes (rh : Request) (o : DosOp) : Prop := ∀ buffer mem c, o.call buffer mem = some c →
  c.unit = rh.unit.toUInt16 ∧ c.start = rh.start ∧ c.count = rh.count

theorem DosOp.Inner.passes {o : DosOp} (h : o.Inner) (rh : Request) : o.Passes rh := by
  intro buffer mem c hcall
  rw [h buffer mem] at hcall
  cases hcall

variable {unit partno : UInt8}

theorem only_checkFs (sect : UInt32) (localBuffer : Sector) :
    Prog.Only DosOp.Inner (checkFs unit sect localBuffer) := by
  refine ⟨fun _ _ => rfl, fun r => ?_⟩
  show Prog.Only DosOp.Inner (if r.1 ≠ .RES_OK then .ret (3, r.2) else .ret (fatKind r.2, r.2))
  split <;> trivial

theorem only_findPartition (br : List UInt32) (localBuffer : Sector) :
    Prog.Only DosOp.Inner (findPartition unit partno br localBuffer) := by
  induction br generalizing localBuffer with
  | nil => trivial
  | cons bsect br ih =>
    rw [findPartition_cons]
    refine Prog.Only.bind ?_ fun x => ?_
    · unfold tryPartition
      split
      · exact only_checkFs _ _
      · trivial
    · split
      · exact ih x.2
      · trivial

theorem only_lptInitialize (i : Nat) (d : Driver) :
    Prog.Only DosOp.Inner (lptInitialize unit partno i d) := by
  have hlocate : Prog.Only DosOp.Inner (locateVolume unit partno d.localBuffer) := by
    refine (only_checkFs _ _).bind fun x => ?_
    show Prog.Only DosOp.Inner (if x.1 = 1 ∨ x.1 = 0 ∧ partno ≠ 0 then _ else _)
    split
    · exact only_findPartition _ _
    · trivial
  have hfind : Prog.Only DosOp.Inner (findVolume unit partno i d) := by
    unfold findVolume
    split
    · trivial
    · exact hlocate.bind fun _ => trivial
  refine hfind.bind fun x => ?_
  show Prog.Only DosOp.Inner (if x.1 < 0 then _ else _)
  split <;> trivial

theorem only_passes {α : Type} {p : DosProg α} (h : Prog.Only DosOp.Inner p) (rh : Request) :
    Prog.Only (DosOp.Passes rh) p := by
  induction p with
  | ret => trivial
  | op o k ih => exact ⟨h.1.passes rh, fun r => ih r (h.2 r)⟩

/-- `ReadBlock` and `WriteBlock` pass the block number of the request on. -/
theorem only_transfer {call : DosProg DResult} {rh : Request} (hcall : Prog.Only (DosOp.Passes rh) call)
    (d : Driver) : Prog.Only (DosOp.Passes rh) (transfer call rh d) := by
  have hinit : Prog.Only (DosOp.Passes rh) (driveInit rh d) := by
    unfold driveInit
    split
    · refine (only_passes (only_lptInitialize _ _) rh).bind fun x => ?_
      show Prog.Only (DosOp.Passes rh) (if x.1 = true then _ else _)
      split <;> trivial
    · trivial
  refine hinit.bind fun x => ?_
  rcases x with ⟨status | status, d'⟩
  · exact hcall.bind fun _ => trivial
  · trivial

theorem only_genericIoctl (rh : Request) (d : Driver) :
    Prog.Only DosOp.Inner (genericIoctl rh d) := by
  have hparameters : Prog.Only DosOp.Inner (getParameters d) := by
    show Prog.Only DosOp.Inner (if (d.bpb 0).trackSize * (d.bpb 0).headCount = 0 then _ else _)
    split
    · exact ⟨fun _ _ => rfl, nofun⟩
    · trivial
  unfold genericIoctl
  split
  swap
  · trivial
  split
  · exact hparameters.bind fun _ => trivial
  split
  · trivial
  split
  · trivial
  · trivial

theorem only_driverInitialize (rh : Request) (d : Driver) :
    Prog.Only DosOp.Inner (driverInitialize rh d) := by
  refine ⟨fun _ _ => rfl, fun parsed => ?_⟩
  cases parsed with
  | false => trivial
  | true =>
    refine ⟨fun _ _ => rfl, fun _ => ?_⟩
    refine (only_lptInitialize _ _).bind fun x => ?_
    show Prog.Only DosOp.Inner (if x.1 = true then _ else _)
    split <;> trivial

theorem only_lptDriver (rh : Request) (d : Driver) :
    Prog.Only (DosOp.Passes rh) (lptDriver rh d) := by
  have hread : Prog.Only (DosOp.Passes rh)
      (.op (.lptRead rh.unit.toUInt16 rh.start rh.count) .ret : DosProg DResult) := by
    refine ⟨fun buffer mem c hcall => ?_, fun _ => trivial⟩
    cases hcall
    exact ⟨rfl, rfl, rfl⟩
  have hwrite : Prog.Only (DosOp.Passes rh)
      (.op (.lptWrite rh.unit.toUInt16 rh.start rh.count) .ret : DosProg DResult) := by
    refine ⟨fun buffer mem c hcall => ?_, fun _ => trivial⟩
    cases hcall
    exact ⟨rfl, rfl, rfl⟩
  unfold lptDriver
  split
  · exact only_passes (only_driverInitialize rh d) rh
  split
  · trivial
  split
  · trivial
  split
  · exact only_transfer hread d
  split
  · exact only_transfer hwrite d
  split
  · exact (only_passes (only_genericIoctl rh d) rh).bind fun _ => trivial
  split
  · trivial
  split
  · trivial
  · trivial

end Calls

section Mounted

variable {rh : Request} {unit u partno : UInt8} {i : Nat} {d d' : Driver} {reply : Reply} {found : Bool}
  {es : List (Issued DosOp DosResp)}

/-- The bits of the units are only ever set. -/
theorem mounted_of_or {m : UInt16} (hbits : d'.diskInitialized = d.diskInitialized ||| m)
    (hd : d.Mounted u) : d'.Mounted u := by
  unfold Driver.Mounted at hd ⊢
  rw [hbits, and_or_distrib]
  exact fun hzero => hd (UInt16.or_eq_zero_iff.mp hzero).1

theorem lptInitialize_kept (h : (lptInitialize unit partno i d).Trace es (found, d'))
    (hd : d.Mounted u) : d'.Mounted u := by
  rcases lptInitialize_cases h with ⟨r, hfind, -⟩
  rcases findVolume_cases hfind with ⟨-, -, -, rfl⟩ | ⟨-, bsect, fmt, data, -, hchecked⟩
  · exact hd
  · cases hchecked with
    | refused => exact hd
    | rejected => exact hd
    | filled => exact mounted_of_or rfl hd

theorem readied_kept (h : Readied rh d es d') (hd : d.Mounted u) : d'.Mounted u := by
  cases h with
  | idle => exact hd
  | initialised _ hinit =>
    have hkept := lptInitialize_kept hinit hd
    exact hkept

theorem lptDriver_kept (h : (lptDriver rh d).Trace es (reply, d')) (hd : d.Mounted u) :
    d'.Mounted u := by
  rcases lptDriver_cases h with ⟨-, hinit⟩ | ⟨-, htransfer⟩ | ⟨-, -, rfl⟩
  · rcases driverInitialize_cases hinit with ⟨-, rfl⟩ | ⟨es₁, found, -, hmount⟩
    · exact hd
    · exact lptInitialize_kept hmount hd
  · rcases transfer_cases htransfer with ⟨es₁, es₂, d₁, status, -, hready, -, hreply⟩ | ⟨-, -, hfails⟩
    · have hsame := (transferReply_same status d₁).diskInitialized
      rw [← hreply] at hsame
      exact (mounted_congr hsame u).mpr (readied_kept hready hd)
    · exact lptInitialize_kept hfails hd
  · exact hd

/-- A mounted unit needs no search. -/
theorem lptInitialize_skips (h : (lptInitialize unit partno i d).Trace es (found, d'))
    (hd : d.Mounted unit) : es = [] ∧ found = true := by
  rcases lptInitialize_cases h with ⟨r, hfind, hfound⟩
  rcases findVolume_cases hfind with ⟨-, rfl, rfl, -⟩ | ⟨hnot, -⟩
  · refine ⟨rfl, ?_⟩
    cases found with
    | true => rfl
    | false => exact absurd (hfound.mp rfl) (by decide)
  · exact absurd hd hnot

/-- A transfer for it is the one call. -/
theorem lptDriver_once (h : (lptDriver rh d).Trace es (reply, d')) (hd : d.Mounted rh.unit)
    (htransfers : rh.Transfers) : ∃ status, rh.call.Trace es status := by
  rcases lptDriver_cases h with ⟨hcommand, -⟩ | ⟨-, htransfer⟩ | ⟨hnot, -⟩
  · unfold Request.Transfers at htransfers
    rw [hcommand] at htransfers
    exact absurd htransfers (by decide)
  · rcases transfer_cases htransfer with ⟨es₁, es₂, d₁, status, rfl, hready, hcall, -⟩ | ⟨-, -, hfails⟩
    · have hnil : es₁ = [] := by
        cases hready with
        | idle => rfl
        | initialised _ hinit => exact (lptInitialize_skips hinit hd).1
      rw [hnil]
      exact ⟨status, hcall⟩
    · cases (lptInitialize_skips hfails hd).2
  · exact absurd htransfers hnot

end Mounted

section Requests

/-- A request with the operations it took and its answer. -/
structure Answered where
  request : Request
  operations : List (Issued DosOp DosResp)
  reply : Reply

/-- Requests, one after the other, whatever the link answers. -/
inductive Requests : Driver → List Answered → Driver → Prop
  | nil (d : Driver) : Requests d [] d
  | cons {a : Answered} {as : List Answered} {d d₁ d' : Driver} :
      (lptDriver a.request d).Trace a.operations (a.reply, d₁) → Requests d₁ as d' →
      Requests d (a :: as) d'

/-- What a request transfers is what it asks for. -/
theorem Requests.passes {d d' : Driver} {as : List Answered} (h : Requests d as d') :
    ∀ a ∈ as, ∀ e ∈ a.operations, e.1.Passes a.request := by
  induction h with
  | nil => nofun
  | cons htrace _ ih => exact List.forall_mem_cons.mpr ⟨htrace.only (only_lptDriver _ _), ih⟩

/-- The request is answered with one operation, a transfer for DOS. -/
def Answered.Once (a : Answered) : Prop :=
  ∃ o status, a.operations = [⟨o, status⟩] ∧ ∀ buffer mem, ∃ c, o.call buffer mem = some c

/-- Once a unit is mounted, each transfer for it is so. -/
theorem Requests.once {d d' : Driver} {as : List Answered} {unit : UInt8} (h : Requests d as d')
    (hd : d.Mounted unit) : ∀ a ∈ as, a.request.unit = unit → a.request.Transfers → a.Once := by
  induction h with
  | nil => exact fun a ha => absurd ha List.not_mem_nil
  | @cons a as d d₁ d' htrace _ ih =>
    refine List.forall_mem_cons.mpr ⟨fun hunit htransfers => ?_, ih (lptDriver_kept htrace hd)⟩
    rcases lptDriver_once htrace (hunit ▸ hd) htransfers with ⟨status, hcall⟩
    unfold Request.call at hcall
    split at hcall
    · rcases Prog.trace_op.mp hcall with ⟨status', es', hes, hret⟩
      cases (Prog.trace_ret.mp hret).1
      exact ⟨_, status', hes, fun buffer mem => ⟨_, rfl⟩⟩
    · rcases Prog.trace_op.mp hcall with ⟨status', es', hes, hret⟩
      cases (Prog.trace_ret.mp hret).1
      exact ⟨_, status', hes, fun buffer mem => ⟨_, rfl⟩⟩

/-- A block read into `local_buffer` is a block of the drives. -/
def FromDrives (ds : Drives) : Issued DosOp DosResp → Prop
  | ⟨.readLocal unit lbn _, answer⟩ =>
      answer.1 = .RES_OK → (ds unit.toUInt8)[lbn.toNat]? = some answer.2
  | _ => True

variable {ω : Type} {disk : ArrayDisk ω} {unit partno : UInt8} {i : Nat} {d d₁ d₂ : Driver}
  {es : List (Issued DosOp DosResp)} {as : List Answered} {ds : Drives}

theorem ReadLast.onDrive {lbn : UInt16} {boot : Sector} (h : ReadLast unit es lbn boot)
    (hds : ∀ e ∈ es, FromDrives ds e) : (ds unit)[lbn.toNat]? = some boot := by
  rcases h with ⟨-, old, hlast⟩
  have hread := hds _ (List.mem_of_getLast? hlast) rfl
  rwa [UInt8.toUInt8_toUInt16] at hread

theorem accepted_of_found {boot : Sector} (hfat : fatKind boot = 0) (hsize : boot.le16 11 = 512)
    (hreserved : boot.le16 14 ≠ 0) : Accepted boot := by
  unfold fatKind at hfat
  have hsigned : boot.le16 510 = 0xaa55 := by
    by_contra hnot
    rw [if_pos hnot] at hfat
    cases hfat
  rw [if_neg (not_not.mpr hsigned)] at hfat
  refine ⟨hsigned, ?_, hsize, hreserved⟩
  by_contra hnot
  rcases not_or.mp hnot with ⟨h₁, h₂⟩
  rw [if_neg h₁, if_neg h₂] at hfat
  cases hfat

/-- A search that finds a volume has accepted the block at `partition_offset`. -/
theorem lptInitialize_accepts (hmount : (lptInitialize unit partno i d).Trace es (true, d₁))
    (hunmounted : ¬ d.Mounted unit) (hds : ∀ e ∈ es, FromDrives ds e) :
    ∃ boot, Accepted boot ∧ (ds unit)[d₁.partitionOffset.toUInt16.toNat]? = some boot ∧
      d₁.bpb i = decoded boot := by
  rcases lptInitialize_cases hmount with ⟨r, hfind, hfound⟩
  have hr : ¬ r < 0 := fun hneg => absurd (hfound.mpr hneg) (by decide)
  rcases findVolume_cases hfind with ⟨hmounted, -⟩ | ⟨-, bsect, fmt, data, hlocate, hchecked⟩
  · exact absurd hmounted hunmounted
  cases hchecked with
  | refused hneg => exact absurd hneg hr
  | rejected => exact absurd (by decide) hr
  | filled hfmt hsize hreserved =>
    have hfoundBoot := (locateVolume_found hlocate bsect.toUInt16 data).mpr ⟨hfmt, rfl, rfl⟩
    exact ⟨data, accepted_of_found hfoundBoot.1.1 hsize hreserved, hfoundBoot.1.onDrive hds,
      update_self _ _ _⟩

/-- It mounts the unit. -/
theorem lptInitialize_mounts (hmount : (lptInitialize unit partno i d).Trace es (true, d₁))
    (hunit : unit < NR_DRIVES) : d₁.Mounted unit := by
  rcases lptInitialize_cases hmount with ⟨r, hfind, hfound⟩
  have hr : ¬ r < 0 := fun hneg => absurd (hfound.mpr hneg) (by decide)
  rcases findVolume_cases hfind with ⟨hmounted, -, -, rfl⟩ | ⟨-, bsect, fmt, data, -, hchecked⟩
  · exact hmounted
  cases hchecked with
  | refused hneg => exact absurd hneg hr
  | rejected => exact absurd (by decide) hr
  | filled => exact (mounted_or hunit hunit rfl).mpr (.inr rfl)

/-- After a volume has been found at a block of its drive, each transfer for the unit is one call of
`LPTRead` or `LPTWrite`, and those of whichever requests follow have their blocks counted from there
exactly if that is block 0, or if they have no blocks. -/
theorem relative_iff (hmount : (lptInitialize unit partno i d).Trace es (true, d₁))
    (hunmounted : ¬ d.Mounted unit) (hds : ∀ e ∈ es, FromDrives ds e)
    (hrequests : Requests d₁ as d₂) :
    ∃ boot, Accepted boot ∧ (ds unit)[d₁.partitionOffset.toUInt16.toNat]? = some boot ∧
      d₁.bpb i = decoded boot ∧
      ∀ a ∈ as, a.request.unit = unit →
        (unit < NR_DRIVES → a.request.Transfers → a.Once) ∧
        (d₁.partitionOffset.toNat + a.request.start.toNat + a.request.count.toNat ≤ 65536 →
          ∀ e ∈ a.operations, ∀ buffer mem c, e.1.call buffer mem = some c → ∀ b (w : ω),
            (c.unit.toUInt8 = unit ∧
                c.Moves disk b w (d₁.partitionOffset.toNat + a.request.start.toNat) ↔
              d₁.partitionOffset = 0 ∨ a.request.count = 0)) := by
  rcases lptInitialize_accepts hmount hunmounted hds with ⟨boot, haccepted, hboot, hbpb⟩
  refine ⟨boot, haccepted, hboot, hbpb, ?_⟩
  intro a ha hunit
  refine ⟨fun hnumbered => hrequests.once (lptInitialize_mounts hmount hnumbered) a ha hunit, ?_⟩
  intro hspan e he buffer mem c hcall b w
  rcases hrequests.passes a ha e he buffer mem c hcall with ⟨hcunit, hstart, hcount⟩
  have hdrive : c.unit.toUInt8 = unit := by
    rw [hcunit, hunit, UInt8.toUInt8_toUInt16]
  rw [← hstart, ← hcount] at hspan ⊢
  rw [call_moves_iff hspan, ← UInt32.toNat_inj, ← UInt16.toNat_inj]
  exact and_iff_right hdrive

/-- A partition table of which the first entry starts at block 1. -/
def partitionTable : Sector :=
  ((Sector.zero.set 450 6).set 454 1).setFrom 510 [0x55, 0xaa]

/-- The drives, each with a partition table and behind it a volume. -/
def partitioned : Drives := fun _ => [partitionTable, smallBoot]

/-- The trace of a search that finds a volume in the first partition. -/
def partitionRead (unit : UInt8) (old table boot : Sector) : List (Issued DosOp DosResp) :=
  [⟨.readLocal unit.toUInt16 0 old, (.RES_OK, table)⟩,
    ⟨.readLocal unit.toUInt16 1 table, (.RES_OK, boot)⟩]

theorem checkFs_reads (unit : UInt8) (sect : UInt32) (old data : Sector) :
    (checkFs unit sect old).Trace [⟨.readLocal unit.toUInt16 sect.toUInt16 old, (.RES_OK, data)⟩]
      (fatKind data, data) :=
  Prog.trace_op.mpr ⟨(.RES_OK, data), [], rfl, .ret _⟩

/-- The first entry of the partition table is tried first. -/
theorem locateVolume_partition {table boot : Sector} {br : List UInt32} (htable : fatKind table = 1)
    (hentries : partitions table = 1 :: br) (hboot : fatKind boot = 0) (old : Sector) :
    (locateVolume unit 0 old).Trace (partitionRead unit old table boot) (1, 0, boot) := by
  have hcheck := checkFs_reads unit 0 old table
  have htry : (tryPartition unit 1 table).Trace
      [⟨.readLocal unit.toUInt16 1 table, (.RES_OK, boot)⟩] (fatKind boot, boot) :=
    checkFs_reads unit 1 table boot
  rw [hboot] at htry
  have hentry : (findPartition unit 0 (1 :: br) table).Trace
      [⟨.readLocal unit.toUInt16 1 table, (.RES_OK, boot)⟩] (1, 0, boot) := by
    rw [findPartition_cons]
    exact Prog.trace_bind.mpr ⟨_, [], _, (List.append_nil _).symm, htry, .ret _⟩
  have hrest : (if fatKind table = 1 ∨ fatKind table = 0 ∧ (0 : UInt8) ≠ 0 then
        findPartition unit 0 ((partitions table).drop 0) table
      else .ret (0, fatKind table, table)).Trace
        [⟨.readLocal unit.toUInt16 1 table, (.RES_OK, boot)⟩] ((1 : UInt32), (0 : UInt8), boot) := by
    rw [if_pos (.inl htable), hentries]
    exact hentry
  exact Prog.trace_bind.mpr ⟨_, _, _, rfl, hcheck, hrest⟩

/-- The volume of the first partition is found. -/
theorem lptInitialize_partition {table boot : Sector} {br : List UInt32} (htable : fatKind table = 1)
    (hentries : partitions table = 1 :: br) (h : Accepted boot) (hd : ¬ d.Mounted unit) :
    (lptInitialize unit 0 unit.toNat d).Trace (partitionRead unit d.localBuffer table boot)
      (true, { d.mount unit boot with partitionOffset := 1 }) := by
  have hbit : ¬ d.diskInitialized &&& unitBit unit ≠ 0 := hd
  have hreserved : ¬ ((d.bpb unit.toNat).begin boot).reservedSectors = 0 := h.reserved
  have hinit : initVolume unit unit.toNat 1 0 { d with localBuffer := boot } =
      (0, { d.mount unit boot with partitionOffset := 1 }) := by
    unfold initVolume
    rw [if_neg (by decide), if_neg (by decide), if_neg (not_not.mpr h.sectorSize)]
    simp only [if_neg hreserved, complete_begin h.sectorSize]
    rfl
  have hfind : (findVolume unit 0 unit.toNat d).Trace (partitionRead unit d.localBuffer table boot)
      (0, { d.mount unit boot with partitionOffset := 1 }) := by
    unfold findVolume
    rw [if_neg hbit]
    refine Prog.trace_bind.mpr ⟨_, [], _, (List.append_nil _).symm,
      locateVolume_partition htable hentries (fatKind_accepted h) d.localBuffer, ?_⟩
    rw [← hinit]
    exact .ret _
  exact Prog.trace_bind.mpr ⟨_, [], _, (List.append_nil _).symm, hfind, .ret _⟩

/-- A read of block 0, once the volume has been found. -/
def firstRead : Answered :=
  ⟨readRequest 0 0, [⟨.lptRead 0 0 1, .RES_OK⟩], ⟨DONE, .none⟩⟩

theorem firstRead_requests (hneeded : d.initNeeded 0 = true) (hd : d.Mounted 0) :
    Requests d [firstRead] (d.ready 0) :=
  .cons (readRequest_trace hneeded (lptInitialize_mounted hd) .RES_OK) (.nil _)

/-- The call that it makes. -/
def firstCall : Call := ⟨.read, 0, 0, ⟨0, 0⟩, 1, fun _ => 0⟩

/-- The volume of a drive without partitions is read from block 0 on. -/
theorem relative_iff_first : firstCall.Moves arrayDisk ⟨.zero, .zero⟩ (fun _ => [smallBoot]) 0 := by
  have hunmounted : ¬ (forceInit .loaded).Mounted 0 := by decide
  have hmount := lptInitialize_reads smallBoot_accepted hunmounted
  have hds : ∀ e ∈ bootRead 0 .zero smallBoot, FromDrives (fun _ => [smallBoot]) e := by
    simp [bootRead, FromDrives]
  rcases relative_iff hmount hunmounted hds (firstRead_requests rfl (by decide))
    with ⟨boot, -, -, -, hmoves⟩
  exact (((hmoves firstRead List.mem_cons_self rfl).2 (by decide) _ List.mem_cons_self ⟨0, 0⟩ (fun _ => 0)
    firstCall rfl _ _).mpr (.inl rfl)).2

/-- The first block of the partition is asked for, and block 0 of the medium is read. -/
theorem relative_not_partitioned :
    ¬ ∀ (unit partno : UInt8) (d d₁ d₂ : Driver) (es : List (Issued DosOp DosResp))
      (as : List Answered) (ds : Drives) (b : Bufs),
      (lptInitialize unit partno unit.toNat d).Trace es (true, d₁) → ¬ d.Mounted unit →
      (∀ e ∈ es, FromDrives ds e) → Requests d₁ as d₂ → ∀ a ∈ as, a.request.unit = unit →
        d₁.partitionOffset.toNat + a.request.start.toNat + a.request.count.toNat ≤ 65536 →
        ∀ e ∈ a.operations, ∀ buffer mem c, e.1.call buffer mem = some c →
          c.Moves arrayDisk b ds (d₁.partitionOffset.toNat + a.request.start.toNat) := by
  intro h
  have htable : fatKind partitionTable = 1 := by decide +kernel
  have hentries : partitions partitionTable = [1, 0, 0, 0] := by decide +kernel
  have hunmounted : ¬ (forceInit .loaded).Mounted 0 := by decide
  have hmount := lptInitialize_partition htable hentries smallBoot_accepted hunmounted
  have hds : ∀ e ∈ partitionRead 0 .zero partitionTable smallBoot, FromDrives partitioned e := by
    simp [partitionRead, FromDrives, partitioned]
  have hmoves := h 0 0 _ _ _ _ _ _ ⟨.zero, .zero⟩ hmount hunmounted hds
    (firstRead_requests rfl (by decide)) firstRead List.mem_cons_self rfl (by decide) _
    List.mem_cons_self ⟨0, 0⟩ (fun _ => 0) firstCall rfl
  have hzero : (1 : Nat) = 0 ∨ firstCall.count.toNat = 0 :=
    (call_moves_iff (by decide)).mp hmoves
  exact absurd hzero (by decide)

end Requests

end LptStore.Dos
