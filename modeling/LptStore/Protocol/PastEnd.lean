import LptStore.Protocol.EndToEnd

/-!
# Transfers past the end of a drive

`LPTRead` and `LPTWrite` keep the block number in a 16-bit word, which they increment with every block
and send as two bytes. A smaller drive has a number to reject, and the transfer ends there. A drive of
65536 blocks has none: the number wraps, and the transfer goes on at the start of the drive.
-/

namespace LptStore.Protocol

open LptStore.Lib

/-- The call runs past the end of a drive of `size` blocks, which has no more than the block number can
tell apart. -/
structure Call.PastEnd (c : Call) (size : Nat) : Prop where
  size_le : size ≤ 65536
  past : size < c.start.toNat + c.count.toNat

section Calls

variable {ω : Type} (disk : ArrayDisk ω)

/-- From a message boundary the call runs to its end over the queues, however they interleave; there it
returns `RES_ERROR`, and no block with a number below its first is written. -/
structure Call.Refused (c : Call) (b : Bufs) (w : ω) : Prop where
  ends : ∃ n, ∀ m f,
    FifoRun hostAct (Device.act disk.toDisk) m ⟨c.prog, Device.idle b w, [], []⟩ f →
      m ≤ n ∧ (m = n → ∃ r, f.client = .ret r) ∧
        (m < n → ∃ f', FifoStep hostAct (Device.act disk.toDisk) f f')
  error : ∀ m r mem device down up,
    FifoRun hostAct (Device.act disk.toDisk) m ⟨c.prog, Device.idle b w, [], []⟩
      ⟨.ret (r, mem), device, down, up⟩ →
    r = .RES_ERROR ∧ ∃ b' w', device = Device.idle b' w' ∧ ∀ l < c.start.toNat,
      (disk.drives w' c.unit.toUInt8)[l]? = (disk.drives w c.unit.toUInt8)[l]?

/-- The drives after `n` blocks from `start` on, whose numbers wrap, are written from the memory. -/
def Drives.putAll (d : UInt8) (mem : Mem) : Nat → Nat → FarPtr → Drives → Drives
  | 0, _, _, ds => ds
  | n + 1, start, p, ds =>
      putAll d mem n (start + 1) (p.add 512) (ds.put d (start % 65536) (mem.sector p))

variable {disk} {c : Call} {b b' : Bufs} {w w' : ω} {mem : Mem}

/-- What a hand-in-hand run to an error comes to over the queues. -/
theorem refused_of_leads (hleads : Leads hostAct (Device.act disk.toDisk)
      (.ret (.RES_ERROR, mem), Device.idle b' w') (c.prog, Device.idle b w))
    (hkept : ∀ l < c.start.toNat,
      (disk.drives w' c.unit.toUInt8)[l]? = (disk.drives w c.unit.toUInt8)[l]?) :
    c.Refused disk b w := by
  rcases hleads with ⟨n, hpath⟩
  refine ⟨⟨n, fun m f hrun => ?_⟩, fun m r mem' device down up hrun => ?_⟩
  · rcases fifoRun_end (quiet_rest _ _ _ _) hpath hrun with ⟨hle, hend, hstep⟩
    exact ⟨hle, fun hm => ⟨_, congrArg Fifo.client (hend hm)⟩, hstep⟩
  · have hdone := fifoRun_done (quiet_rest _ _ _ _) hpath hrun rfl
    simp only [Fifo.mk.injEq, Prog.ret.injEq, Prod.mk.injEq] at hdone
    exact ⟨hdone.1.1, b', w', hdone.2.1, hkept⟩

theorem not_refused_of_leads (hleads : Leads hostAct (Device.act disk.toDisk)
    (.ret (.RES_OK, mem), Device.idle b' w') (c.prog, Device.idle b w)) : ¬ c.Refused disk b w := by
  rcases hleads with ⟨n, hpath⟩
  intro hrefused
  have hrun := fifoRun_exists (quiet_rest disk.toDisk (DResult.RES_OK, mem) b' w') hpath
  cases (hrefused.error _ _ _ _ _ _ hrun).1

/-- A call with blocks to transfer on a drive of fewer than 65536 blocks. -/
theorem refused_of_lt (hpast : c.PastEnd (disk.drives w c.unit.toUInt8).length)
    (hlt : (disk.drives w c.unit.toUInt8).length < 65536) (hcount : 0 < c.count.toNat) :
    c.Refused disk b w := by
  rcases call_leads disk (c := c) b w (.inr hlt) with ⟨r, mem, b', w', hserved, hleads⟩
  have hnot : r ≠ .RES_OK := by
    intro hok
    have hlast := hserved.ok_iff.mp hok (c.count.toNat - 1) (by omega)
    have hend := hpast.past
    omega
  rw [hserved.error hnot] at hleads
  refine refused_of_leads hleads fun l hl => ?_
  rcases hserved.transferred with ⟨t, -, htransferred⟩
  split at htransferred
  · rw [htransferred.1]
  · exact htransferred.2.2 _ _ fun ⟨_, hle, _⟩ => absurd hl (Nat.not_lt.mpr hle)

section Full

variable {unit lbn : UInt16} {n start : Nat}

/-- On a drive of 65536 blocks the loop of `LPTWrite` is never stopped. -/
theorem leads_writeLoop_full (mem : Mem) (buffer : FarPtr) (b : Bufs) (w : ω)
    (hfull : (disk.drives w unit.toUInt8).length = 65536) (hlbn : lbn.toNat = start % 65536) :
    ∃ b' w', disk.drives w' = (disk.drives w).putAll unit.toUInt8 mem n start buffer ∧
      Leads hostAct (Device.act disk.toDisk) (.ret (.RES_OK, mem), Device.idle b' w')
        (lptWriteLoop unit n lbn buffer mem, Device.idle b w) := by
  induction n generalizing start lbn buffer b w with
  | zero => exact ⟨b, w, rfl, Leads.refl _⟩
  | succ n ih =>
    have hl : lbn.toUInt32.toNat = start % 65536 := by rw [UInt16.toNat_toUInt32, hlbn]
    rcases leads_writeLoop_succ disk.toDisk unit n lbn buffer mem b w with ⟨b₁, hblock⟩
    have hin : lbn.toUInt32.toNat < (disk.drives w unit.toUInt8).length := by
      rw [hl, hfull]
      exact Nat.mod_lt _ (by decide)
    rcases disk.write_inRange (mem.sector buffer) hin with ⟨hstatus, hput⟩
    rcases ih (buffer.add 512) b₁
      (disk.writeSector w unit.toUInt8 lbn.toUInt32 (mem.sector buffer)).2
      (by rw [hput, put_length, hfull]) (toNat_lbn_succ hlbn) with ⟨b', w', hdrives, hleads⟩
    refine ⟨b', w', ?_, hblock _ ?_⟩
    · rw [hdrives, hput, hl]
      rfl
    · rw [hstatus]
      exact hleads

/-- Nor is that of `LPTRead`. -/
theorem leads_readLoop_full (buffer : FarPtr) (mem : Mem) (b : Bufs) (w : ω)
    (hfull : (disk.drives w unit.toUInt8).length = 65536) (hlbn : lbn.toNat = start % 65536) :
    ∃ mem' b' w', Leads hostAct (Device.act disk.toDisk) (.ret (.RES_OK, mem'), Device.idle b' w')
      (lptReadLoop unit n lbn buffer mem, Device.idle b w) := by
  induction n generalizing start lbn buffer mem b w with
  | zero => exact ⟨mem, b, w, Leads.refl _⟩
  | succ n ih =>
    have hl : lbn.toUInt32.toNat = start % 65536 := by rw [UInt16.toNat_toUInt32, hlbn]
    rcases leads_readLoop_succ disk.toDisk unit n lbn buffer mem b w with ⟨buff, b₁, hblock⟩
    have hin : lbn.toUInt32.toNat < (disk.drives w unit.toUInt8).length := by
      rw [hl, hfull]
      exact Nat.mod_lt _ (by decide)
    have hanswer := disk.read_inRange buff (List.getElem?_eq_getElem hin)
    rcases ih (buffer.add 512) _ b₁ (disk.readSector w unit.toUInt8 lbn.toUInt32 buff).2
      (by rw [disk.drives_read, hfull]) (toNat_lbn_succ hlbn) with ⟨mem', b', w', hleads⟩
    refine ⟨mem', b', w', hblock _ ?_⟩
    rw [hanswer]
    exact hleads

theorem leads_full (c : Call) (b : Bufs) (w : ω)
    (hfull : (disk.drives w c.unit.toUInt8).length = 65536) :
    ∃ mem b' w', Leads hostAct (Device.act disk.toDisk) (.ret (.RES_OK, mem), Device.idle b' w')
      (c.prog, Device.idle b w) := by
  have hlbn : c.start.toNat = c.start.toNat % 65536 :=
    (Nat.mod_eq_of_lt c.start.toNat_lt).symm
  unfold Call.prog
  cases c.direction with
  | read => exact leads_readLoop_full c.buffer c.mem b w hfull hlbn
  | write =>
    rcases leads_writeLoop_full c.mem c.buffer b w hfull hlbn with ⟨b', w', -, hleads⟩
    exact ⟨c.mem, b', w', hleads⟩

end Full

theorem leads_empty (b : Bufs) (w : ω) (hcount : c.count.toNat = 0) :
    Leads hostAct (Device.act disk.toDisk) (.ret (.RES_OK, c.mem), Device.idle b w)
      (c.prog, Device.idle b w) := by
  unfold Call.prog lptRead lptWrite
  rw [hcount]
  cases c.direction with
  | read => exact Leads.refl _
  | write => exact Leads.refl _

/-- A call past the end of a drive is refused exactly if it has blocks to transfer and the drive has
fewer than 65536. -/
theorem pastEnd_refused_iff (disk : ArrayDisk ω) (c : Call) (b : Bufs) (w : ω)
    (hpast : c.PastEnd (disk.drives w c.unit.toUInt8).length) :
    c.Refused disk b w ↔
      (disk.drives w c.unit.toUInt8).length < 65536 ∧ 0 < c.count.toNat := by
  constructor
  · intro hrefused
    constructor
    · apply Nat.lt_of_le_of_ne hpast.size_le
      intro hfull
      rcases leads_full c b w hfull with ⟨mem, b', w', hleads⟩
      exact not_refused_of_leads hleads hrefused
    · apply Nat.pos_of_ne_zero
      intro hcount
      exact not_refused_of_leads (leads_empty b w hcount) hrefused
  · exact fun ⟨hlt, hcount⟩ => refused_of_lt hpast hlt hcount

end Calls

/-- Two blocks from the last of two on. -/
theorem pastEnd_refused_iff_pair : Call.Refused arrayDisk ⟨.write, 0, 1, ⟨0, 0⟩, 2, fun _ => 0xff⟩
    ⟨.zero, .zero⟩ fun _ => [.zero, .zero] :=
  (pastEnd_refused_iff arrayDisk ⟨.write, 0, 1, ⟨0, 0⟩, 2, fun _ => 0xff⟩ ⟨.zero, .zero⟩ _
    ⟨by decide, by decide⟩).mpr ⟨by decide, by decide⟩

/-- A drive of 65536 blocks, and a call that writes two blocks from its last on. -/
def fullDrive : Drives := fun _ => .replicate 65536 .zero

def lastTwo : Call := ⟨.write, 0, 0xffff, ⟨0, 0⟩, 2, fun _ => 0xff⟩

theorem fullDrive_length (d : UInt8) : (fullDrive d).length = 65536 := List.length_replicate

/-- The call returns `RES_OK`, and the second block is in the place of block 0. -/
theorem boot_sector_overwritten :
    lastTwo.PastEnd (fullDrive 0).length ∧
    (∃ m b' ds', FifoRun hostAct (Device.act arrayDisk.toDisk) m
        ⟨lastTwo.prog, Device.idle ⟨.zero, .zero⟩ fullDrive, [], []⟩
        ⟨.ret (.RES_OK, lastTwo.mem), Device.idle b' ds', [], []⟩ ∧
      (ds' 0)[0]? = some (lastTwo.mem.sector ⟨0, 512⟩)) ∧
    ¬ lastTwo.Refused arrayDisk ⟨.zero, .zero⟩ fullDrive := by
  have hlength := fullDrive_length 0
  have hfull : (arrayDisk.drives fullDrive (0 : UInt16).toUInt8).length = 65536 := hlength
  rcases leads_writeLoop_full (n := 2) lastTwo.mem ⟨0, 0⟩ ⟨.zero, .zero⟩ fullDrive hfull
    (show (0xffff : UInt16).toNat = 65535 % 65536 from rfl) with ⟨b', ds', hds, hleads⟩
  refine ⟨⟨Nat.le_of_eq hlength, ?_⟩, ?_, not_refused_of_leads hleads⟩
  · rw [hlength]
    decide
  · rcases hleads with ⟨n, hpath⟩
    refine ⟨n, b', ds', fifoRun_exists (quiet_rest _ _ _ _) hpath, ?_⟩
    have hput : ds' = (fullDrive.put 0 65535 (lastTwo.mem.sector ⟨0, 0⟩)).put 0 0
        (lastTwo.mem.sector ⟨0, 512⟩) := hds
    rw [hput]
    apply put_get
    rw [put_length, hlength]
    decide

end LptStore.Protocol
