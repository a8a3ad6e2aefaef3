import LptStore.Dos.Attached
import LptStore.Dos.Partition

/-!
# Units as block devices

What the driver offers DOS is a block device for each unit. A request that transfers reads or writes
its blocks, one after the other, up to the first that the drive does not have, and what is read of a
block is what was last written to it. Everything else leaves the drives alone, and of the memory
changes no more than `local_buffer`.
-/

namespace LptStore.Dos

open LptStore.Lib LptStore.Protocol

section Operations

variable {α ω : Type} {disk : BlindArray ω} {localAt : FarPtr} {x : Posted}

/-- The memory is the same but for `local_buffer`. -/
def KeepsMemory (localAt : FarPtr) (mem mem' : Mem) : Prop :=
  ∀ a, ¬ localAt.Covers 512 a → mem' a = mem a

theorem KeepsMemory.refl (mem : Mem) : KeepsMemory localAt mem mem := fun _ _ => rfl

theorem KeepsMemory.trans {mem₁ mem₂ mem₃ : Mem} (h : KeepsMemory localAt mem₁ mem₂)
    (h' : KeepsMemory localAt mem₂ mem₃) : KeepsMemory localAt mem₁ mem₃ :=
  fun a ha => (h' a ha).trans (h a ha)

/-- One operation with the disk layer at hand. -/
inductive Performs (disk : Disk ω) (localAt : FarPtr) (x : Posted) :
    Issued DosOp DosResp → Mem × ω → Mem × ω → Prop
  | parseOptions (s : Mem × ω) : Performs disk localAt x ⟨.parseOptions, x.options⟩ s s
  | lptInit (s : Mem × ω) : Performs disk localAt x ⟨.lptInit, ()⟩ s s
  | readLocal (unit lbn : UInt16) (old : Sector) (s : Mem × ω) :
      Performs disk localAt x
        ⟨.readLocal unit lbn old, ((disk.call ⟨.read, unit, lbn, localAt, 1, s.1⟩ s.2).1.1,
          (disk.call ⟨.read, unit, lbn, localAt, 1, s.1⟩ s.2).1.2.sector localAt)⟩ s
        ((disk.call ⟨.read, unit, lbn, localAt, 1, s.1⟩ s.2).1.2,
          (disk.call ⟨.read, unit, lbn, localAt, 1, s.1⟩ s.2).2)
  | lptRead (unit lbn count : UInt16) (s : Mem × ω) :
      Performs disk localAt x
        ⟨.lptRead unit lbn count, (disk.call ⟨.read, unit, lbn, x.buffer, count, s.1⟩ s.2).1.1⟩ s
        ((disk.call ⟨.read, unit, lbn, x.buffer, count, s.1⟩ s.2).1.2,
          (disk.call ⟨.read, unit, lbn, x.buffer, count, s.1⟩ s.2).2)
  | lptWrite (unit lbn count : UInt16) (s : Mem × ω) :
      Performs disk localAt x
        ⟨.lptWrite unit lbn count, (disk.call ⟨.write, unit, lbn, x.buffer, count, s.1⟩ s.2).1.1⟩ s
        ((disk.call ⟨.write, unit, lbn, x.buffer, count, s.1⟩ s.2).1.2,
          (disk.call ⟨.write, unit, lbn, x.buffer, count, s.1⟩ s.2).2)

/-- The operations of a trace, one after the other. -/
inductive PerformsAll (disk : Disk ω) (localAt : FarPtr) (x : Posted) :
    List (Issued DosOp DosResp) → Mem × ω → Mem × ω → Prop
  | nil (s : Mem × ω) : PerformsAll disk localAt x [] s s
  | cons {e : Issued DosOp DosResp} {es : List (Issued DosOp DosResp)} {s t u : Mem × ω} :
      Performs disk localAt x e s t → PerformsAll disk localAt x es t u →
      PerformsAll disk localAt x (e :: es) s u

theorem performsAll_append {es es' : List (Issued DosOp DosResp)} {s u : Mem × ω}
    (h : PerformsAll disk.toDisk localAt x (es ++ es') s u) :
    ∃ t, PerformsAll disk.toDisk localAt x es s t ∧ PerformsAll disk.toDisk localAt x es' t u := by
  induction es generalizing s with
  | nil => exact ⟨s, .nil s, h⟩
  | cons e es ih =>
    cases h with
    | cons hfirst hrest =>
      obtain ⟨t, hleft, hright⟩ := ih hrest
      exact ⟨t, .cons hfirst hleft, hright⟩

/-- A program that ends has a trace of operations performed. -/
theorem performs_of_direct {p : DosProg α} {mem mem' : Mem} {w w' : ω} {a : α}
    (h : direct disk.toDisk.call localAt x p mem w = ((some a, mem'), w')) :
    ∃ es, p.Trace es a ∧ PerformsAll disk.toDisk localAt x es (mem, w) (mem', w') := by
  induction p generalizing mem w with
  | ret b =>
    cases h
    exact ⟨[], .ret _, .nil _⟩
  | op o k ih =>
    cases o with
    | parseOptions =>
      obtain ⟨es, htrace, hall⟩ := ih x.options h
      exact ⟨_, .op _ htrace, .cons (.parseOptions _) hall⟩
    | lptInit =>
      obtain ⟨es, htrace, hall⟩ := ih () h
      exact ⟨_, .op _ htrace, .cons (.lptInit _) hall⟩
    | readLocal unit lbn old =>
      obtain ⟨es, htrace, hall⟩ := ih _ h
      exact ⟨_, .op _ htrace, .cons (.readLocal unit lbn old (mem, w)) hall⟩
    | lptRead unit lbn count =>
      obtain ⟨es, htrace, hall⟩ := ih _ h
      exact ⟨_, .op _ htrace, .cons (.lptRead unit lbn count (mem, w)) hall⟩
    | lptWrite unit lbn count =>
      obtain ⟨es, htrace, hall⟩ := ih _ h
      exact ⟨_, .op _ htrace, .cons (.lptWrite unit lbn count (mem, w)) hall⟩
    | divideError => cases h

/-- What the driver does for itself changes no drive, and of the memory only `local_buffer`. -/
theorem Performs.inner {e : Issued DosOp DosResp} {s t : Mem × ω} (hinner : e.1.Inner)
    (h : Performs disk.toDisk localAt x e s t) :
    disk.drives t.2 = disk.drives s.2 ∧ KeepsMemory localAt s.1 t.1 := by
  cases h with
  | parseOptions => exact ⟨rfl, .refl _⟩
  | lptInit => exact ⟨rfl, .refl _⟩
  | readLocal unit lbn old =>
    have hone : lbn.toNat + (1 : UInt16).toNat ≤ 65536 := lbn.toNat_lt
    let c : Call := ⟨.read, unit, lbn, localAt, 1, s.1⟩
    obtain ⟨-, -, t, hacc, hsame, hloaded⟩ := direct_served disk (c := c) s.2 (.inl hone)
    refine ⟨hsame, ?_⟩
    intro a ha
    have hle : 512 * t ≤ 512 * 1 := Nat.mul_le_mul_left 512 hacc.le
    exact hloaded.2 a fun hcovers => ha (hcovers.mono hle)
  | lptRead unit lbn count => exact absurd (hinner ⟨0, 0⟩ fun _ => 0) nofun
  | lptWrite unit lbn count => exact absurd (hinner ⟨0, 0⟩ fun _ => 0) nofun

theorem PerformsAll.inner {es : List (Issued DosOp DosResp)} {s t : Mem × ω}
    (hinner : ∀ e ∈ es, e.1.Inner) (h : PerformsAll disk.toDisk localAt x es s t) :
    disk.drives t.2 = disk.drives s.2 ∧ KeepsMemory localAt s.1 t.1 := by
  induction h with
  | nil => exact ⟨rfl, .refl _⟩
  | cons hfirst _ ih =>
    obtain ⟨he, hes⟩ := List.forall_mem_cons.mp hinner
    obtain ⟨hdrives, hmem⟩ := hfirst.inner he
    obtain ⟨hdrives', hmem'⟩ := ih hes
    exact ⟨hdrives'.trans hdrives, hmem.trans hmem'⟩

end Operations

section Requests

variable {ω : Type} {disk : BlindArray ω} {localAt : FarPtr} {x : Posted}

/-- The call of `LPTRead` or `LPTWrite` that a transfer makes. -/
def Posted.call (x : Posted) (mem : Mem) : Call where
  direction := if x.request.command = INPUT then .read else .write
  unit := x.request.unit.toUInt16
  start := x.request.start
  buffer := x.buffer
  count := x.request.count
  mem := mem

/-- The blocks of a transfer are numbered within 16 bits. Its buffer and `local_buffer` end within their
segments, and lie apart. -/
structure Posted.Fits (localAt : FarPtr) (x : Posted) : Prop where
  span : x.request.start.toNat + x.request.count.toNat ≤ 65536
  segment : x.buffer.Spans (512 * x.request.count.toNat)
  inner : localAt.Spans 512
  apart : x.buffer.addr 0 + 512 * x.request.count.toNat ≤ localAt.addr 0 ∨
    localAt.addr 0 + 512 ≤ x.buffer.addr 0

instance (localAt : FarPtr) (x : Posted) : Decidable (x.Fits localAt) :=
  decidable_of_iff (x.request.start.toNat + x.request.count.toNat ≤ 65536 ∧
      x.buffer.Spans (512 * x.request.count.toNat) ∧ localAt.Spans 512 ∧
      (x.buffer.addr 0 + 512 * x.request.count.toNat ≤ localAt.addr 0 ∨
        localAt.addr 0 + 512 ≤ x.buffer.addr 0))
    ⟨fun ⟨hspan, hsegment, hinner, hapart⟩ => ⟨hspan, hsegment, hinner, hapart⟩,
      fun ⟨hspan, hsegment, hinner, hapart⟩ => ⟨hspan, hsegment, hinner, hapart⟩⟩

/-- The buffer of a transfer has no byte of `local_buffer`. -/
theorem Posted.Fits.not_local (h : x.Fits localAt) {n a : Nat} (hn : n ≤ 512 * x.request.count.toNat)
    (ha : x.buffer.Covers n a) : ¬ localAt.Covers 512 a := by
  intro hlocal
  have hbuffer := h.segment.covers_iff.mp (ha.mono hn)
  have hinner := h.inner.covers_iff.mp hlocal
  have hapart := h.apart
  omega

/-- The status of a transfer that `drive_init` lets pass. -/
def transferStatus (r : DResult) : UInt16 :=
  if r = .RES_OK then DONE else DONE ||| ERROR ||| BAD_SECTOR

/-- What a request does: it is no transfer, or `drive_init` fails, or the transfer is made. -/
inductive Effect (localAt : FarPtr) (x : Posted) (mem mem' : Mem) (ds ds' : Drives) (status : UInt16) :
    Prop
  | aside : ¬ x.request.Transfers → ds' = ds → KeepsMemory localAt mem mem' →
      Effect localAt x mem mem' ds ds' status
  | unready : x.request.Transfers → status = DONE ||| ERROR ||| GENERAL_FAILURE → ds' = ds →
      KeepsMemory localAt mem mem' → Effect localAt x mem mem' ds ds' status
  | made {mem₁ : Mem} {r : DResult} : x.request.Transfers → KeepsMemory localAt mem mem₁ →
      (x.call mem₁).Served ds ds' r mem' → status = transferStatus r →
      Effect localAt x mem mem' ds ds' status

theorem readied_performed {rh : Request} {d d' : Driver} {es : List (Issued DosOp DosResp)}
    (h : Readied rh d es d') : ∀ e ∈ es, e.1.Inner := by
  cases h with
  | idle _ => nofun
  | initialised _ hinit => exact hinit.only (only_lptInitialize _ _)

theorem call_performed {es : List (Issued DosOp DosResp)} {status : DResult} {s t : Mem × ω}
    (hcall : x.request.call.Trace es status) (h : PerformsAll disk.toDisk localAt x es s t) :
    (disk.call (x.call s.1) s.2).1 = (status, t.1) ∧ (disk.call (x.call s.1) s.2).2 = t.2 := by
  unfold Request.call at hcall
  unfold Posted.call
  by_cases hin : x.request.command = INPUT
  · simp only [hin, if_true] at hcall ⊢
    obtain ⟨r, es', rfl, hret⟩ := Prog.trace_op.mp hcall
    obtain ⟨rfl, rfl⟩ := Prog.trace_ret.mp hret
    cases h with
    | cons hfirst hrest =>
      cases hrest
      cases hfirst
      exact ⟨rfl, rfl⟩
  · simp only [hin, if_false] at hcall ⊢
    obtain ⟨r, es', rfl, hret⟩ := Prog.trace_op.mp hcall
    obtain ⟨rfl, rfl⟩ := Prog.trace_ret.mp hret
    cases h with
    | cons hfirst hrest =>
      cases hrest
      cases hfirst
      exact ⟨rfl, rfl⟩

theorem transferReply_status {r : DResult} (h : r ≠ .RES_OK → r = .RES_ERROR) (d : Driver) :
    (transferReply r d).1.status = transferStatus r := by
  by_cases hr : r = .RES_OK
  · simp [hr, transferReply, transferStatus]
  · simp [h hr, transferReply, transferStatus, dosError]

/-- One request. -/
theorem request_effect {m m' : Machine} {w w' : ω} {reply : Reply} (hfits : x.Fits localAt)
    (h : x.onDisk disk.toDisk localAt m w = (some (reply, m'), w')) :
    Effect localAt x (x.setup m.mem) m'.mem (disk.drives w) (disk.drives w') reply.status := by
  unfold Posted.onDisk Posted.servedBy at h
  cases hrun : direct disk.toDisk.call localAt x (lptDriver x.request m.driver) (x.setup m.mem) w with
  | mk result w₁ =>
    obtain ⟨answer, mem⟩ := result
    cases answer with
    | none =>
      rw [hrun] at h
      cases h
    | some answer =>
      obtain ⟨reply₁, driver⟩ := answer
      rw [hrun] at h
      cases h
      obtain ⟨es, htrace, hall⟩ := performs_of_direct hrun
      rcases lptDriver_cases htrace with ⟨hinit, htrace⟩ | ⟨htransfers, htrace⟩ |
        ⟨hnot, rfl, -⟩
      · have hnot : ¬ x.request.Transfers := by
          unfold Request.Transfers
          rw [hinit]
          decide
        obtain ⟨hdrives, hmem⟩ := hall.inner (htrace.only (only_driverInitialize _ _))
        exact .aside hnot hdrives hmem
      · rcases transfer_cases htrace with ⟨es₁, es₂, d₁, status, rfl, hready, hcall, hreply⟩ |
          ⟨rfl, -, hfails⟩
        · obtain ⟨s, hleft, hright⟩ := performsAll_append hall
          obtain ⟨hdrives, hmem⟩ := hleft.inner (readied_performed hready)
          obtain ⟨hresult, hworld⟩ := call_performed hcall hright
          have hserved := direct_served disk (c := x.call s.1) s.2 (.inl hfits.span)
          rw [hresult, hworld, hdrives] at hserved
          have hstatus : reply.status = transferStatus status := by
            rw [← transferReply_status hserved.error d₁, ← hreply]
          exact .made htransfers hmem hserved hstatus
        · obtain ⟨hdrives, hmem⟩ := hall.inner (hfails.only (only_lptInitialize _ _))
          exact .unready htransfers rfl hdrives hmem
      · cases hall
        exact .aside hnot rfl (.refl _)

theorem Effect.status {mem mem' : Mem} {ds ds' : Drives} {status : UInt16}
    (h : Effect localAt x mem mem' ds ds' status) (htransfers : x.request.Transfers) :
    status = DONE ||| ERROR ||| GENERAL_FAILURE ∨
      status = if ∀ i < x.request.count.toNat, x.request.start.toNat + i <
        (ds x.request.unit).length then DONE else DONE ||| ERROR ||| BAD_SECTOR := by
  cases h with
  | aside hnot _ _ => exact absurd htransfers hnot
  | unready _ hstatus _ _ => exact .inl hstatus
  | made _ _ hserved hstatus =>
    have hok := hserved.ok_iff
    simp only [Posted.call, UInt8.toUInt8_toUInt16] at hok
    right
    rw [hstatus, transferStatus]
    simp only [hok]

/-- What a request that reads has brought of a block that the drive has. -/
theorem Effect.delivered {mem mem' : Mem} {ds ds' : Drives} {status : UInt16} {i : Nat} {s : Sector}
    (h : Effect localAt x mem mem' ds ds' status) (hfits : x.Fits localAt)
    (hin : x.request.command = INPUT) (hstatus : status ≠ DONE ||| ERROR ||| GENERAL_FAILURE)
    (hi : i < x.request.count.toNat) (hs : (ds x.request.unit)[x.request.start.toNat + i]? = some s) :
    mem'.sector (x.buffer.add (512 * i)) = s := by
  cases h with
  | aside hnot _ _ => exact absurd (.inl hin) hnot
  | unready _ hfailed _ _ => exact absurd hfailed hstatus
  | made _ _ hserved _ =>
    obtain ⟨-, -, n, hacc, hmoved⟩ := hserved
    simp only [Posted.call, hin, if_true, UInt8.toUInt8_toUInt16] at hacc hmoved
    obtain ⟨-, hloaded, -⟩ := hmoved
    have hhas := (List.getElem?_eq_some_iff.mp hs).1
    -- The transfer has stopped before the block only if the drive ends before it.
    have hreached : i < n := by
      by_contra hge
      have hn := hacc.le
      have hstop := hacc.stops (by omega)
      omega
    have hn := hfits.segment.le
    have hle : n ≤ i + 128 := by
      have hcount := hacc.le
      omega
    have hblock := hloaded i hreached hle
    rw [hs] at hblock
    exact (Option.some.inj hblock).symm

end Requests

section Runs

variable {ω : Type} {disk : BlindArray ω} {localAt : FarPtr} {u : UInt8} {l : Nat}

/-- A request that has been answered: the memory it was posted with and the memory it left. -/
structure Exchanged where
  posted : Posted
  mem : Mem
  status : UInt16
  after : Mem

/-- Requests answered one after the other. -/
inductive Exchanges (disk : Disk ω) (localAt : FarPtr) :
    Machine × ω → List Exchanged → Machine × ω → Prop
  | nil (s : Machine × ω) : Exchanges disk localAt s [] s
  | cons {x : Posted} {m m₁ : Machine} {w w₁ : ω} {reply : Reply} {hs : List Exchanged}
      {t : Machine × ω} : x.onDisk disk localAt m w = (some (reply, m₁), w₁) →
      Exchanges disk localAt (m₁, w₁) hs t →
      Exchanges disk localAt (m, w) (⟨x, x.setup m.mem, reply.status, m₁.mem⟩ :: hs) t

/-- What the request stores in a block, if the drive has it. -/
def Exchanged.stores (h : Exchanged) (u : UInt8) (l : Nat) : Option Sector :=
  let rh := h.posted.request
  if (rh.command = OUTPUT ∨ rh.command = OUTPUT_VERIFY) ∧
      h.status ≠ DONE ||| ERROR ||| GENERAL_FAILURE ∧ rh.unit = u ∧
      rh.start.toNat ≤ l ∧ l < rh.start.toNat + rh.count.toNat then
    some (h.mem.sector (h.posted.buffer.add (512 * (l - rh.start.toNat))))
  else none

/-- What a block that held `old` holds after some requests: what was stored there last. -/
def latest (hs : List Exchanged) (u : UInt8) (l : Nat) (old : Sector) : Sector :=
  (hs.filterMap fun h => h.stores u l).getLast?.getD old

theorem latest_cons (h : Exchanged) (hs : List Exchanged) (old : Sector) :
    latest (h :: hs) u l old = latest hs u l ((h.stores u l).getD old) := by
  unfold latest
  cases hstore : h.stores u l with
  | none => simp [hstore]
  | some s => simp [hstore, List.getLast?_cons]

theorem stores_input {h : Exchanged} (hin : h.posted.request.command = INPUT) :
    h.stores u l = none := by
  simp [Exchanged.stores, hin, INPUT, OUTPUT, OUTPUT_VERIFY]

theorem stores_span {h : Exchanged}
    (hout : h.posted.request.command = OUTPUT ∨ h.posted.request.command = OUTPUT_VERIFY)
    (hpassed : h.status ≠ DONE ||| ERROR ||| GENERAL_FAILURE) (hle : h.posted.request.start.toNat ≤ l)
    (hlt : l < h.posted.request.start.toNat + h.posted.request.count.toNat) :
    h.stores h.posted.request.unit l =
      some (h.mem.sector (h.posted.buffer.add (512 * (l - h.posted.request.start.toNat)))) :=
  if_pos ⟨hout, hpassed, rfl, hle, hlt⟩

theorem stores_outside {h : Exchanged} (hspan : ¬ (h.posted.request.unit = u ∧
    h.posted.request.start.toNat ≤ l ∧
    l < h.posted.request.start.toNat + h.posted.request.count.toNat)) : h.stores u l = none :=
  if_neg fun hall => hspan hall.2.2

theorem transferStatus_passed (r : DResult) : transferStatus r ≠ DONE ||| ERROR ||| GENERAL_FAILURE := by
  unfold transferStatus
  split <;> decide

/-- What a write that has been made leaves in a block. -/
theorem written_stores {h : Exchanged} {mem₁ : Mem} {ds ds' : Drives} {r : DResult}
    (hout : h.posted.request.command = OUTPUT ∨ h.posted.request.command = OUTPUT_VERIFY)
    (hin : h.posted.request.command ≠ INPUT) (hfits : h.posted.Fits localAt)
    (hmem : KeepsMemory localAt h.mem mem₁) (hserved : (h.posted.call mem₁).Served ds ds' r h.after)
    (hpassed : h.status ≠ DONE ||| ERROR ||| GENERAL_FAILURE) :
    (ds' u)[l]? = (ds u)[l]?.map fun old => (h.stores u l).getD old := by
  obtain ⟨-, -, t, hacc, hmoved⟩ := hserved
  simp only [Posted.call, UInt8.toUInt8_toUInt16, hin, if_false] at hacc hmoved
  obtain ⟨-, hwritten, hkept⟩ := hmoved
  by_cases hspan : h.posted.request.unit = u ∧ h.posted.request.start.toNat ≤ l ∧
      l < h.posted.request.start.toNat + h.posted.request.count.toNat
  · obtain ⟨rfl, hle, hlt⟩ := hspan
    rw [stores_span hout hpassed hle hlt]
    by_cases hmade : l < h.posted.request.start.toNat + t
    · have hblock := hwritten (l - h.posted.request.start.toNat) (by omega)
      have hold := hacc.inRange (l - h.posted.request.start.toNat) (by omega)
      rw [Nat.add_sub_cancel' hle] at hblock hold
      rw [hblock, List.getElem?_eq_getElem hold]
      simp only [Option.map_some, Option.getD_some, Option.some.injEq]
      apply sector_congr
      intro a hcovers
      have hblocks : h.posted.buffer.Covers (512 * h.posted.request.count.toNat) a := by
        obtain ⟨i, hi, rfl⟩ := FarPtr.covers_iff.mp hcovers
        rw [FarPtr.addr_add]
        exact FarPtr.covers_iff.mpr ⟨_, by omega, rfl⟩
      exact hmem a (hfits.not_local (Nat.le_refl _) hblocks)
    · have hstop := hacc.stops (by omega)
      have hnone : (ds h.posted.request.unit)[l]? = none :=
        List.getElem?_eq_none_iff.mpr (by omega)
      rw [hkept _ _ (by omega), hnone]
      rfl
  · have hother : ¬ (u = h.posted.request.unit ∧ h.posted.request.start.toNat ≤ l ∧
        l < h.posted.request.start.toNat + t) := by
      rintro ⟨heq, hle, hlt⟩
      have ht := hacc.le
      exact hspan ⟨heq.symm, hle, by omega⟩
    rw [hkept _ _ hother, stores_outside hspan]
    simp

/-- What a drive holds after one request. -/
theorem effect_stores {h : Exchanged} {ds ds' : Drives} (hfits : h.posted.Fits localAt)
    (heffect : Effect localAt h.posted h.mem h.after ds ds' h.status) :
    (ds' u)[l]? = (ds u)[l]?.map fun old => (h.stores u l).getD old := by
  have hsame : h.stores u l = none → ds' = ds →
      (ds' u)[l]? = (ds u)[l]?.map fun old => (h.stores u l).getD old := by
    intro hnone heq
    simp [hnone, heq]
  cases heffect with
  | aside hnot heq _ =>
    apply hsame _ heq
    apply if_neg
    rintro ⟨hout, -⟩
    exact hnot (.inr hout)
  | unready _ hstatus heq _ =>
    apply hsame _ heq
    apply if_neg
    rintro ⟨-, hne, -⟩
    exact hne hstatus
  | made htransfers hmem hserved hstatus =>
    have hpassed : h.status ≠ DONE ||| ERROR ||| GENERAL_FAILURE := hstatus ▸ transferStatus_passed _
    by_cases hin : h.posted.request.command = INPUT
    · obtain ⟨-, -, t, -, hmoved⟩ := hserved
      simp only [Posted.call, hin, if_true] at hmoved
      exact hsame (stores_input hin) hmoved.1
    · exact written_stores (htransfers.resolve_left hin) hin hfits hmem hserved hpassed

/-- What the drives hold after some requests. -/
theorem exchanges_latest {s t : Machine × ω} {hs : List Exchanged}
    (hrun : Exchanges disk.toDisk localAt s hs t) (hfits : ∀ h ∈ hs, h.posted.Fits localAt) :
    (disk.drives t.2 u)[l]? = (disk.drives s.2 u)[l]?.map (latest hs u l) := by
  induction hrun with
  | nil s =>
    have hnone : latest [] u l = id := rfl
    rw [hnone, Option.map_id, id]
  | cons hone _ ih =>
    obtain ⟨hfirst, hrest⟩ := List.forall_mem_cons.mp hfits
    rw [ih hrest, effect_stores hfirst (request_effect hfirst hone), Option.map_map]
    congr 1
    funext old
    exact (latest_cons _ _ _).symm

theorem exchanges_append {s u : Machine × ω} {hs hs' : List Exchanged}
    (hrun : Exchanges disk.toDisk localAt s (hs ++ hs') u) :
    ∃ t, Exchanges disk.toDisk localAt s hs t ∧ Exchanges disk.toDisk localAt t hs' u := by
  induction hs generalizing s with
  | nil => exact ⟨s, .nil s, hrun⟩
  | cons h hs ih =>
    cases hrun with
    | cons hone hrest =>
      obtain ⟨t, hleft, hright⟩ := ih hrest
      exact ⟨t, .cons hone hleft, hright⟩

theorem exchanges_head {x : Exchanged} {s t : Machine × ω} {hs : List Exchanged}
    (hrun : Exchanges disk.toDisk localAt s (x :: hs) t) (hfits : x.posted.Fits localAt) :
    ∃ w, Effect localAt x.posted x.mem x.after (disk.drives s.2) (disk.drives w) x.status := by
  cases hrun with
  | cons hone _ => exact ⟨_, request_effect hfits hone⟩

/-- Requests served with the disk layer at hand are answered one after the other. -/
theorem exchanges_serve {xs : List Posted} {m m' : Machine} {w w' : ω} {replies : List Reply}
    (h : serveOnDisk disk.toDisk localAt xs m w = ((replies, some m'), w')) :
    ∃ hs, Exchanges disk.toDisk localAt (m, w) hs (m', w') ∧ hs.map Exchanged.posted = xs ∧
      hs.map Exchanged.status = replies.map Reply.status := by
  induction xs generalizing m w replies with
  | nil =>
    cases h
    exact ⟨[], .nil _, rfl, rfl⟩
  | cons x xs ih =>
    cases hone : x.onDisk disk.toDisk localAt m w with
    | mk answer w₁ =>
      cases answer with
      | none => simp [serveBy, hone] at h
      | some answer =>
        obtain ⟨reply, m₁⟩ := answer
        cases hrest : serveOnDisk disk.toDisk localAt xs m₁ w₁ with
        | mk rest w₂ =>
          obtain ⟨replies₁, m₂⟩ := rest
          simp only [serveBy, hone, hrest, Prod.mk.injEq] at h
          obtain ⟨⟨rfl, rfl⟩, rfl⟩ := h
          obtain ⟨hs, hexch, hposted, hstatus⟩ := ih hrest
          exact ⟨_ :: hs, .cons hone hexch, by simp [hposted], by simp [hstatus]⟩

end Runs

section ReadBack

/-- A write of block 1 from the offset 1024. -/
def writePosted : Posted := ⟨⟨0, OUTPUT, 1, 1, 0, 0⟩, ⟨0, 1024⟩, true, id⟩

/-- A read of three blocks, from the first on, to the offset 4096. -/
def readPosted : Posted := ⟨⟨0, INPUT, 0, 3, 0, 0⟩, ⟨0, 4096⟩, true, id⟩

end ReadBack

end LptStore.Dos
