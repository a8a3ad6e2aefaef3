import Mathlib.Logic.Function.Basic
import LptStore.Lib.Trace
import LptStore.Protocol.Host

/-!
# Mounting a volume, `dos/SDPP10/LPTSTORE.C`

`find_volume` reads the boot sector of a unit, or that of the first FAT partition, and fills the BIOS
parameter block from it, once for each unit. The functions are programs over the calls to the link and
to what prepares it; the prints are left out. `WORD` and `int` are 16 bits.
-/

namespace LptStore.Dos

open LptStore.Lib LptStore.Protocol Function

/-- `bpb_t` (`DRIVER.H:94-110`). -/
structure Bpb where
  sectorSize : UInt16
  allocationUnit : UInt8
  reservedSectors : UInt16
  fatCount : UInt8
  directorySize : UInt16
  totalSectors : UInt16
  mediaDescriptor : UInt8
  fatSectors : UInt16
  trackSize : UInt16
  headCount : UInt16
  hiddenSectors : UInt32
  sectorCount : UInt32
  deriving DecidableEq, Repr

/-- `mkbpb` (`HEADER.ASM:143-156`). -/
def mkbpb : Bpb := ⟨512, 1, 1, 2, 48, 65535, 0xf0, 2, 64, 32, 0, 0⟩

/-- The static variables of the driver that its functions read. An index from 16 on is a word behind the
array, of whichever variable the linker has placed there; it is taken to be none of these. -/
structure Driver where
  bpb : Nat → Bpb
  initNeeded : Nat → Bool
  partitionNumber : UInt8
  diskInitialized : UInt16
  partitionOffset : UInt32
  localBuffer : Sector

/-- The variables as the driver is loaded. -/
def Driver.loaded : Driver where
  bpb _ := mkbpb
  initNeeded _ := false
  partitionNumber := 0
  diskInitialized := 0
  partitionOffset := 0
  localBuffer := .zero

/-- The calls of the driver: `parse_options` on the line of `CONFIG.SYS`, `LPTInit`, `LPTRead` of one
block into `local_buffer`, and `LPTRead` and `LPTWrite` with DOS's transfer address. `divideError` is the
trap of a division by zero; it has no answer. -/
inductive DosOp where
  | parseOptions
  | lptInit
  | readLocal (unit lbn : UInt16) (old : Sector)
  | lptRead (unit lbn count : UInt16)
  | lptWrite (unit lbn count : UInt16)
  | divideError

/-- What each call answers: `LPTRead` into `local_buffer` also what it leaves there. -/
@[reducible] def DosResp : DosOp → Type
  | .parseOptions => Bool
  | .lptInit => Unit
  | .readLocal _ _ _ => DResult × Sector
  | .lptRead _ _ _ => DResult
  | .lptWrite _ _ _ => DResult
  | .divideError => Empty

abbrev DosProg := Prog DosOp DosResp

/-- What `check_fs` says of a sector it has read (`LPTSTORE.C:123-129`). -/
def fatKind (b : Sector) : UInt8 :=
  if b.le16 510 ≠ 0xaa55 then 2
  else if b.le32 54 &&& 0xffffff = 0x544146 then 0
  else if b.le32 82 &&& 0xffffff = 0x544146 then 0
  else 1

/-- `check_fs` (`LPTSTORE.C:114-130`). The sector number is cut to the `WORD` that `LPTRead` takes. -/
def checkFs (unit : UInt8) (sect : UInt32) (localBuffer : Sector) : DosProg (UInt8 × Sector) := do
  let (status, localBuffer) ← .op (.readLocal unit.toUInt16 sect.toUInt16 localBuffer) .ret
  if status ≠ .RES_OK then return (3, localBuffer) else return (fatKind localBuffer, localBuffer)

/-- `1 << unit` as a 16-bit `int`. -/
def unitBit (unit : UInt8) : UInt16 := if unit < 16 then 1 <<< unit.toUInt16 else 0

/-- `br`, the start sectors in the partition table (`LPTSTORE.C:165-168`). -/
def partitions (localBuffer : Sector) : List UInt32 :=
  [446, 462, 478, 494].map fun pt =>
    if localBuffer.get (pt + 4) ≠ 0 then localBuffer.le32 (pt + 8) else 0

/-- The loop over the partition table (`LPTSTORE.C:171-174`) from an entry on: the last sector tried,
what `check_fs` said of it, and `local_buffer`. -/
def findPartition (unit partno : UInt8) : List UInt32 → Sector → DosProg (UInt32 × UInt8 × Sector)
  | [], localBuffer => return (0, 2, localBuffer)
  | bsect :: br, localBuffer => do
      let (fmt, localBuffer) ←
        if bsect ≠ 0 then checkFs unit bsect localBuffer else pure (2, localBuffer)
      if partno = 0 ∧ fmt ≠ 0 ∧ br ≠ [] then findPartition unit partno br localBuffer
      else return (bsect, fmt, localBuffer)

/-- What `find_volume` has stored when it checks the reserved sectors (`LPTSTORE.C:185-187`). -/
def Bpb.begin (p : Bpb) (localBuffer : Sector) : Bpb :=
  { p with
    sectorSize := 512
    allocationUnit := localBuffer.get 13
    reservedSectors := localBuffer.le16 14 }

/-- What `find_volume` stores after that (`LPTSTORE.C:189-202`). -/
def Bpb.complete (p : Bpb) (localBuffer : Sector) : Bpb :=
  { p with
    fatCount := if localBuffer.get 16 = 0 then 2 else localBuffer.get 16
    directorySize := localBuffer.le16 17
    totalSectors := localBuffer.le16 19
    sectorCount :=
      if localBuffer.le16 19 = 0 then localBuffer.le32 32 else (localBuffer.le16 19).toUInt32
    mediaDescriptor := localBuffer.get 21
    fatSectors := localBuffer.le16 22
    trackSize := localBuffer.le16 24
    headCount := localBuffer.le16 26
    hiddenSectors := 1 }

/-- The search for a boot sector (`LPTSTORE.C:157-175`): where it ended, what `check_fs` said of that
sector, and `local_buffer`. -/
def locateVolume (unit partno : UInt8) (localBuffer : Sector) :
    DosProg (UInt32 × UInt8 × Sector) := do
  let (fmt, localBuffer) ← checkFs unit 0 localBuffer
  if fmt = 1 ∨ fmt = 0 ∧ partno ≠ 0 then
    findPartition unit partno
      ((partitions localBuffer).drop (if partno ≠ 0 then (partno - 1).toNat else 0)) localBuffer
  else return (0, fmt, localBuffer)

/-- The end of `find_volume` (`LPTSTORE.C:176-228`), with the sector found in `local_buffer`; `i` is the
index of the block to fill. -/
def initVolume (unit : UInt8) (i : Nat) (bsect : UInt32) (fmt : UInt8) (d : Driver) : Int × Driver :=
  if fmt = 3 then (-2, d)
  else if fmt ≠ 0 then (-3, d)
  else if d.localBuffer.le16 11 ≠ 512 then (-3, d)
  else
    let p := (d.bpb i).begin d.localBuffer
    if p.reservedSectors = 0 then (-3, { d with bpb := update d.bpb i p })
    else
      (0, { d with
        bpb := update d.bpb i (p.complete d.localBuffer)
        partitionOffset := bsect
        diskInitialized := d.diskInitialized ||| unitBit unit })

/-- `find_volume` (`LPTSTORE.C:139-229`). -/
def findVolume (unit partno : UInt8) (i : Nat) (d : Driver) : DosProg (Int × Driver) := do
  if d.diskInitialized &&& unitBit unit ≠ 0 then return (0, d)
  else do
    let (bsect, fmt, localBuffer) ← locateVolume unit partno d.localBuffer
    return initVolume unit i bsect fmt { d with localBuffer }

/-- `LPTInitialize` (`LPTSTORE.C:231-236`). -/
def lptInitialize (unit partno : UInt8) (i : Nat) (d : Driver) : DosProg (Bool × Driver) := do
  let (r, d) ← findVolume unit partno i d
  if r < 0 then return (false, d) else return (true, d)

/-- The boot sector of a FAT volume without partitions, as `find_volume` accepts it. -/
structure Accepted (boot : Sector) : Prop where
  signed : boot.le16 510 = 0xaa55
  fat : boot.le32 54 &&& 0xffffff = 0x544146 ∨ boot.le32 82 &&& 0xffffff = 0x544146
  sectorSize : boot.le16 11 = 512
  reserved : boot.le16 14 ≠ 0

instance (boot : Sector) : Decidable (Accepted boot) :=
  decidable_of_iff (boot.le16 510 = 0xaa55 ∧
      (boot.le32 54 &&& 0xffffff = 0x544146 ∨ boot.le32 82 &&& 0xffffff = 0x544146) ∧
      boot.le16 11 = 512 ∧ boot.le16 14 ≠ 0)
    ⟨fun ⟨h₁, h₂, h₃, h₄⟩ => ⟨h₁, h₂, h₃, h₄⟩, fun ⟨h₁, h₂, h₃, h₄⟩ => ⟨h₁, h₂, h₃, h₄⟩⟩

/-- The parameter block of a boot sector. A sector count beyond 16 bits is taken from the 32-bit field, a
FAT count of 0 stands for 2, and one sector, the boot sector, counts as hidden. -/
def decoded (boot : Sector) : Bpb where
  sectorSize := boot.le16 11
  allocationUnit := boot.get 13
  reservedSectors := boot.le16 14
  fatCount := if boot.get 16 = 0 then 2 else boot.get 16
  directorySize := boot.le16 17
  totalSectors := boot.le16 19
  mediaDescriptor := boot.get 21
  fatSectors := boot.le16 22
  trackSize := boot.le16 24
  headCount := boot.le16 26
  hiddenSectors := 1
  sectorCount := if boot.le16 19 = 0 then boot.le32 32 else (boot.le16 19).toUInt32

/-- A read of block 0 into `local_buffer` that succeeds has the boot sector of the unit's image. Reads may
fail, and those of other blocks and for DOS may answer anything. -/
def Truthful (images : Nat → Sector) : Issued DosOp DosResp → Prop
  | ⟨.readLocal unit lbn _, answer⟩ =>
      answer.1 = .RES_OK → lbn = 0 → answer.2 = images unit.toNat
  | _ => True

namespace Driver

/-- The unit's volume has been found. -/
def Mounted (d : Driver) (unit : UInt8) : Prop := d.diskInitialized &&& unitBit unit ≠ 0

instance (d : Driver) (unit : UInt8) : Decidable (d.Mounted unit) :=
  inferInstanceAs (Decidable (_ ≠ _))

/-- The parameter blocks and what says that they are filled are the same. -/
structure SameVolumes (d d' : Driver) : Prop where
  bpb : d'.bpb = d.bpb
  diskInitialized : d'.diskInitialized = d.diskInitialized
  partitionNumber : d'.partitionNumber = d.partitionNumber

/-- The unit's volume is found now. -/
structure Mounts (images : Nat → Sector) (unit : UInt8) (d d' : Driver) : Prop where
  unmounted : ¬ d.Mounted unit
  bpb : d'.bpb = update d.bpb unit.toNat (decoded (images unit.toNat))
  diskInitialized : d'.diskInitialized = d.diskInitialized ||| unitBit unit
  partitionNumber : d'.partitionNumber = d.partitionNumber

end Driver

/-- The variables after a volume has been found by its boot sector at block 0. -/
def Driver.mount (d : Driver) (unit : UInt8) (boot : Sector) : Driver :=
  { d with
    bpb := update d.bpb unit.toNat (decoded boot)
    diskInitialized := d.diskInitialized ||| unitBit unit
    partitionOffset := 0
    localBuffer := boot }

section Mount

variable {images : Nat → Sector} {unit : UInt8} {d d' : Driver} {es : List (Issued DosOp DosResp)}

theorem complete_begin {boot : Sector} (h : boot.le16 11 = 512) (p : Bpb) :
    (p.begin boot).complete boot = decoded boot := by
  unfold decoded
  rw [h]
  rfl

theorem initVolume_accepted {boot : Sector} (h : Accepted boot) (d : Driver) :
    initVolume unit unit.toNat 0 0 { d with localBuffer := boot } = (0, d.mount unit boot) := by
  have hreserved : ¬ ((d.bpb unit.toNat).begin boot).reservedSectors = 0 := h.reserved
  unfold initVolume
  rw [if_neg (by decide), if_neg (by decide), if_neg (not_not.mpr h.sectorSize)]
  simp only [if_neg hreserved, complete_begin h.sectorSize]
  rfl

theorem fatKind_accepted {boot : Sector} (h : Accepted boot) : fatKind boot = 0 := by
  unfold fatKind
  rw [if_neg (not_not.mpr h.signed)]
  rcases h.fat with hfat | hfat
  · rw [if_pos hfat]
  · rw [if_pos hfat, ite_self]

/-- Block 0 of an accepted image is a FAT boot sector, or cannot be read. -/
theorem checkFs_accepted {localBuffer : Sector} {r : UInt8 × Sector}
    (haccepted : Accepted (images unit.toNat)) (htrue : ∀ e ∈ es, Truthful images e)
    (h : (checkFs unit 0 localBuffer).Trace es r) : r = (0, images unit.toNat) ∨ r.1 = 3 := by
  rcases Prog.trace_op.mp h with ⟨⟨status, data⟩, es', rfl, hrest⟩
  have hread : status = .RES_OK → (0 : UInt16) = 0 → data = images unit.toUInt16.toNat :=
    htrue _ List.mem_cons_self
  rw [UInt8.toNat_toUInt16] at hread
  have hrest' : (if status ≠ .RES_OK then .ret (3, data) else .ret (fatKind data, data) :
      DosProg (UInt8 × Sector)).Trace es' r := hrest
  by_cases hstatus : status = .RES_OK
  · left
    rw [if_neg (not_not.mpr hstatus)] at hrest'
    rw [(Prog.trace_ret.mp hrest').2, hread hstatus rfl, fatKind_accepted haccepted]
  · right
    rw [if_pos hstatus] at hrest'
    rw [(Prog.trace_ret.mp hrest').2]

theorem locateVolume_accepted {localBuffer : Sector} {r : UInt32 × UInt8 × Sector}
    (haccepted : Accepted (images unit.toNat)) (htrue : ∀ e ∈ es, Truthful images e)
    (h : (locateVolume unit 0 localBuffer).Trace es r) :
    r = (0, 0, images unit.toNat) ∨ r.2.1 = 3 := by
  rcases Prog.trace_bind.mp h with ⟨es₁, es₂, ⟨fmt, data⟩, rfl, hcheck, hrest⟩
  have htrue₁ : ∀ e ∈ es₁, Truthful images e := fun e he => htrue e (List.mem_append_left _ he)
  rcases checkFs_accepted haccepted htrue₁ hcheck with heq | hfmt
  · left
    cases heq
    exact (Prog.trace_ret.mp hrest).2
  · right
    have hfmt' : fmt = 3 := hfmt
    subst hfmt'
    rw [(Prog.trace_ret.mp hrest).2]

/-- What `LPTInitialize` does to a unit whose image is accepted. -/
theorem lptInitialize_accepted {found : Bool} (haccepted : Accepted (images unit.toNat))
    (htrue : ∀ e ∈ es, Truthful images e)
    (h : (lptInitialize unit 0 unit.toNat d).Trace es (found, d')) :
    found = true ∧ (d.Mounted unit ∧ d' = d ∨ d.Mounts images unit d') ∨
      found = false ∧ d.SameVolumes d' := by
  rcases Prog.trace_bind.mp h with ⟨es₁, es₂, ⟨r, d₁⟩, rfl, hfind, hret⟩
  unfold findVolume at hfind
  by_cases hmounted : d.diskInitialized &&& unitBit unit ≠ 0
  · left
    rw [if_pos hmounted] at hfind
    cases (Prog.trace_ret.mp hfind).2
    cases (Prog.trace_ret.mp hret).2
    exact ⟨rfl, .inl ⟨hmounted, rfl⟩⟩
  · rw [if_neg hmounted] at hfind
    rcases Prog.trace_bind.mp hfind with ⟨es₃, es₄, ⟨bsect, fmt, data⟩, rfl, hlocate, hrest⟩
    have htrue₃ : ∀ e ∈ es₃, Truthful images e := fun e he =>
      htrue e (List.mem_append_left _ (List.mem_append_left _ he))
    have hinit := (Prog.trace_ret.mp hrest).2
    rcases locateVolume_accepted haccepted htrue₃ hlocate with heq | hfmt
    · left
      cases heq
      rw [initVolume_accepted haccepted] at hinit
      cases hinit
      cases (Prog.trace_ret.mp hret).2
      exact ⟨rfl, .inr ⟨hmounted, rfl, rfl, rfl⟩⟩
    · right
      have hfmt' : fmt = 3 := hfmt
      subst hfmt'
      cases hinit
      cases (Prog.trace_ret.mp hret).2
      exact ⟨rfl, rfl, rfl, rfl⟩

/-- The trace of a search that finds a FAT boot sector at block 0. -/
def bootRead (unit : UInt8) (old boot : Sector) : List (Issued DosOp DosResp) :=
  [⟨.readLocal unit.toUInt16 0 old, (.RES_OK, boot)⟩]

theorem locateVolume_reads {boot : Sector} (h : fatKind boot = 0) (old : Sector) :
    (locateVolume unit 0 old).Trace (bootRead unit old boot) (0, 0, boot) := by
  refine Prog.trace_op.mpr ⟨_, [], rfl, ?_⟩
  have hrest : (if fatKind boot = 1 ∨ fatKind boot = 0 ∧ (0 : UInt8) ≠ 0 then
        findPartition unit 0 ((partitions boot).drop 0) boot
      else .ret (0, fatKind boot, boot)).Trace [] ((0 : UInt32), (0 : UInt8), boot) := by
    rw [h, if_neg (by decide)]
    exact .ret _
  exact hrest

/-- A unit's volume is found where the read succeeds. -/
theorem lptInitialize_reads {boot : Sector} (h : Accepted boot) (hd : ¬ d.Mounted unit) :
    (lptInitialize unit 0 unit.toNat d).Trace (bootRead unit d.localBuffer boot)
      (true, d.mount unit boot) := by
  have hfind : (findVolume unit 0 unit.toNat d).Trace (bootRead unit d.localBuffer boot)
      (0, d.mount unit boot) := by
    unfold findVolume
    have hbit : ¬ d.diskInitialized &&& unitBit unit ≠ 0 := hd
    rw [if_neg hbit]
    refine Prog.trace_bind.mpr ⟨_, [], _, (List.append_nil _).symm,
      locateVolume_reads (fatKind_accepted h) d.localBuffer, ?_⟩
    rw [← initVolume_accepted h]
    exact .ret _
  exact Prog.trace_bind.mpr ⟨_, [], _, (List.append_nil _).symm, hfind, .ret _⟩

end Mount

end LptStore.Dos
