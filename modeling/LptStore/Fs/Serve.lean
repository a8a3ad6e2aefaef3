import LptStore.Fs.Judge

/-!
# What a request is answered from

A request names a drive by a byte, 0 .. 15 or `CFG_DISK`, and everything the four functions of the
external API answer to it follows from the record of one slot and its bit.
-/

namespace LptStore.Fs

open LptStore.Lib

/-- The drive bytes of the sixteen drives and of the configuration file. -/
def DriveId (disk : UInt8) : Prop := disk.toNat < 16 ∨ disk = CFG_DISK

/-- The slot a drive byte stands for. -/
def slotOf (disk : UInt8) : Slot := if disk = CFG_DISK then .config else .disk disk.toNat

theorem slotOf_disk {disk : UInt8} (h : disk.toNat < 16) : slotOf disk = .disk disk.toNat := by
  unfold slotOf
  rw [if_neg]
  intro heq
  subst heq
  exact absurd h (by decide)

theorem slotOf_checked {disk : UInt8} (h : DriveId disk) : (slotOf disk).Checked := by
  rcases h with h | rfl
  · rw [slotOf_disk h]
    exact ⟨Int.natCast_nonneg _, by omega⟩
  · exact trivial

/-- Some sector of the slot's file can be read and written. -/
def SlotRecord.Servable (r : SlotRecord) : Prop := r.lba ≠ 0 ∧ r.blocks ≠ 0

/-- Read a sector of the slot's file. -/
def SlotRecord.read (r : SlotRecord) (sector : UInt32) (buff : Sector) : SectorProg (Int × Sector) :=
  if r.lba > 0 ∧ sector < r.blocks then readSector .buff (r.lba + sector) buff
  else .ret (-1, buff)

/-- Write a sector of the slot's file. -/
def SlotRecord.write (r : SlotRecord) (sector : UInt32) (buff : Sector) : SectorProg Int :=
  if r.lba > 0 ∧ sector < r.blocks then writeSector (r.lba + sector) buff else .ret (-1)

/-- The block count of the slot: that of a drive counts only with an LBA. -/
def Slot.blocks : Slot → SlotRecord → UInt32
  | .disk _, r => if r.lba ≠ 0 then r.blocks else 0
  | .config, r => r.blocks

section Requests

variable {t : DriveTables} {disk : UInt8}

theorem ne_config (h : disk.toNat < 16) : disk ≠ CFG_DISK := by
  intro heq
  subst heq
  exact absurd h (by decide)

theorem getDiskBlocks_eq (h : DriveId disk) :
    getDiskBlocks t disk = (slotOf disk).blocks (t.slot (slotOf disk)) := by
  unfold getDiskBlocks
  rcases h with h | rfl
  · rw [if_neg (ne_config h), slotOf_disk h]
    have hle : disk.toNat ≤ NR_DISKS := Nat.le_of_lt h
    simp only [hle, true_and]
    rfl
  · rfl

theorem readDiskSector_eq (h : DriveId disk) (sector : UInt32) (buff : Sector) :
    readDiskSector t disk sector buff = (t.slot (slotOf disk)).read sector buff := by
  unfold readDiskSector SlotRecord.read
  rcases h with h | rfl
  · have hle : disk.toNat ≤ NR_DISKS := Nat.le_of_lt h
    rw [if_neg (fun hc => ne_config h hc.1), slotOf_disk h]
    simp only [hle, true_and]
    rfl
  · have hgt : ¬ CFG_DISK.toNat ≤ NR_DISKS := by decide
    simp only [hgt, false_and, true_and]
    rfl

theorem writeDiskSector_eq (h : DriveId disk) (sector : UInt32) (buff : Sector) :
    writeDiskSector t disk sector buff = (t.slot (slotOf disk)).write sector buff := by
  unfold writeDiskSector SlotRecord.write
  rcases h with h | rfl
  · have hle : disk.toNat ≤ NR_DISKS := Nat.le_of_lt h
    rw [if_neg (fun hc => ne_config h hc.1), slotOf_disk h]
    simp only [hle, true_and]
    rfl
  · have hgt : ¬ CFG_DISK.toNat ≤ NR_DISKS := by decide
    simp only [hgt, false_and, true_and]
    rfl

end Requests

/-- The program passes a request on to the sector layer. -/
def PassesOn {α : Type} (p : SectorProg α) : Prop := ∃ o k, p = .op o k

section Records

variable {r r' : SlotRecord}

theorem SlotRecord.read_of_lt {sector : UInt32} (buff : Sector) (hlba : r.lba ≠ 0)
    (h : sector < r.blocks) : r.read sector buff = readSector .buff (r.lba + sector) buff :=
  if_pos ⟨UInt32.pos_iff_ne_zero.mpr hlba, h⟩

theorem SlotRecord.write_of_lt {sector : UInt32} (buff : Sector) (hlba : r.lba ≠ 0)
    (h : sector < r.blocks) : r.write sector buff = writeSector (r.lba + sector) buff :=
  if_pos ⟨UInt32.pos_iff_ne_zero.mpr hlba, h⟩

theorem SlotRecord.read_of_not {sector : UInt32} (buff : Sector)
    (h : ¬ (r.lba ≠ 0 ∧ sector < r.blocks)) : r.read sector buff = .ret (-1, buff) := by
  refine if_neg fun hc => h ⟨UInt32.pos_iff_ne_zero.mp hc.1, hc.2⟩

theorem SlotRecord.write_of_not {sector : UInt32} (buff : Sector)
    (h : ¬ (r.lba ≠ 0 ∧ sector < r.blocks)) : r.write sector buff = .ret (-1) := by
  refine if_neg fun hc => h ⟨UInt32.pos_iff_ne_zero.mp hc.1, hc.2⟩

theorem SlotRecord.lt_of_read {sector : UInt32} {buff : Sector} (h : PassesOn (r.read sector buff)) :
    r.lba ≠ 0 ∧ sector < r.blocks := by
  by_cases hlt : r.lba ≠ 0 ∧ sector < r.blocks
  · exact hlt
  · rw [SlotRecord.read_of_not buff hlt] at h
    rcases h with ⟨o, k, heq⟩
    cases heq

theorem SlotRecord.lt_of_write {sector : UInt32} {buff : Sector}
    (h : PassesOn (r.write sector buff)) : r.lba ≠ 0 ∧ sector < r.blocks := by
  by_cases hlt : r.lba ≠ 0 ∧ sector < r.blocks
  · exact hlt
  · rw [SlotRecord.write_of_not buff hlt] at h
    rcases h with ⟨o, k, heq⟩
    cases heq

theorem SlotRecord.servable_of_lt {sector : UInt32} (h : r.lba ≠ 0 ∧ sector < r.blocks) :
    r.Servable := by
  refine ⟨h.1, ?_⟩
  intro hzero
  have hlt : sector.toNat < r.blocks.toNat := h.2
  rw [hzero] at hlt
  exact absurd hlt (Nat.not_lt_zero _)

theorem SlotRecord.Servable.zero_lt (h : r.Servable) : 0 < r.blocks :=
  UInt32.pos_iff_ne_zero.mpr h.2

/-- Two records that are both dead, or the same, serve the same sectors. -/
theorem SlotRecord.lt_of_same {sector : UInt32} (hiff : r.Servable ↔ r'.Servable)
    (hsame : r.Servable → r.lba = r'.lba ∧ r.blocks = r'.blocks)
    (hlt' : r'.lba ≠ 0 ∧ sector < r'.blocks) : r.lba ≠ 0 ∧ sector < r.blocks := by
  rcases hsame (hiff.mpr (servable_of_lt hlt')) with ⟨hlba, hblocks⟩
  rw [hlba, hblocks]
  exact hlt'

/-- Two records that read alike are both dead, or have the same base and length. -/
theorem SlotRecord.read_eq_iff :
    (∀ sector buff, r.read sector buff = r'.read sector buff) ↔
      (r.Servable ↔ r'.Servable) ∧ (r.Servable → r.lba = r'.lba ∧ r.blocks = r'.blocks) := by
  have hkeeps : ∀ {r r' : SlotRecord}, (∀ sector buff, r.read sector buff = r'.read sector buff) →
      ∀ sector, r.lba ≠ 0 ∧ sector < r.blocks → r'.lba ≠ 0 ∧ sector < r'.blocks := by
    intro r r' heq sector hlt
    have hpass : PassesOn (r'.read sector .zero) := by
      rw [← heq sector .zero, SlotRecord.read_of_lt .zero hlt.1 hlt.2]
      exact ⟨_, _, rfl⟩
    exact SlotRecord.lt_of_read hpass
  constructor
  · intro heq
    have hsym : ∀ sector buff, r'.read sector buff = r.read sector buff := fun s b => (heq s b).symm
    refine ⟨⟨fun hs => ?_, fun hs => ?_⟩, fun hs => ?_⟩
    · exact servable_of_lt (hkeeps heq 0 ⟨hs.1, hs.zero_lt⟩)
    · exact servable_of_lt (hkeeps hsym 0 ⟨hs.1, hs.zero_lt⟩)
    · rcases hkeeps heq 0 ⟨hs.1, hs.zero_lt⟩ with ⟨hlba', hlt'⟩
      have hread := heq 0 .zero
      rw [read_of_lt .zero hs.1 hs.zero_lt, read_of_lt .zero hlba' hlt'] at hread
      have hop := (Prog.op.inj hread).1
      have hlba : r.lba = r'.lba := by simpa using hop
      refine ⟨hlba, ?_⟩
      -- the first sector past the shorter file would be read from one and not from the other
      apply UInt32.toNat_inj.mp
      rcases Nat.lt_trichotomy r.blocks.toNat r'.blocks.toNat with hlt | heq' | hlt
      · exact absurd (hkeeps hsym r.blocks ⟨hlba', hlt⟩).2 (UInt32.lt_irrefl _)
      · exact heq'
      · exact absurd (hkeeps heq r'.blocks ⟨hs.1, hlt⟩).2 (UInt32.lt_irrefl _)
  · rintro ⟨hiff, hsame⟩ sector buff
    by_cases hlt : r.lba ≠ 0 ∧ sector < r.blocks
    · rcases hsame (servable_of_lt hlt) with ⟨hlba, hblocks⟩
      unfold SlotRecord.read
      rw [hlba, hblocks]
    · have hlt' : ¬ (r'.lba ≠ 0 ∧ sector < r'.blocks) := mt (lt_of_same hiff hsame) hlt
      rw [read_of_not buff hlt, read_of_not buff hlt']

/-- Then they write alike too. -/
theorem SlotRecord.write_eq {sector : UInt32} {buff : Sector}
    (h : ∀ sector buff, r.read sector buff = r'.read sector buff) :
    r.write sector buff = r'.write sector buff := by
  rcases SlotRecord.read_eq_iff.mp h with ⟨hiff, hsame⟩
  by_cases hlt : r.lba ≠ 0 ∧ sector < r.blocks
  · rcases hsame (servable_of_lt hlt) with ⟨hlba, hblocks⟩
    unfold SlotRecord.write
    rw [hlba, hblocks]
  · have hlt' : ¬ (r'.lba ≠ 0 ∧ sector < r'.blocks) := mt (lt_of_same hiff hsame) hlt
    rw [write_of_not buff hlt, write_of_not buff hlt']

end Records

end LptStore.Fs
