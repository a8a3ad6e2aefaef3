import LptStore.Fs.Serve

/-!
# What `init_disk` remembers of the medium before

The tables are not cleared before the scan. A slot that the inserted medium's root directory does not
list keeps its old record, and its old start cluster is followed through the new FAT: it can come out
contiguous, as does every chain of one cluster. So the answers depend on the inserted medium alone
exactly when the two old records of each slot left out make no difference.
-/

namespace LptStore.Fs

open LptStore.Lib

/-- The four functions of the external API answer alike. -/
def SameAnswers (t t' : DriveTables) : Prop :=
  getDisks t = getDisks t' ∧ ∀ disk, DriveId disk →
    getDiskBlocks t disk = getDiskBlocks t' disk ∧
      ∀ sector buff, readDiskSector t disk sector buff = readDiskSector t' disk sector buff ∧
        writeDiskSector t disk sector buff = writeDiskSector t' disk sector buff

/-- The root directory ends and has no entry that names the slot. -/
def Unlisted (m : Medium) (s : Slot) : Prop :=
  ∃ fuel es, rootListed m fuel = some es ∧ ∀ e ∈ es, e.slot ≠ s

/-- The record passes the check on the medium. -/
def Slot.Live (m : Medium) (s : Slot) (r : SlotRecord) : Prop :=
  s.present r ∧ Gaps m r.cluster false

/-- The record still answers after the check: a drive that fails it loses its LBA, the configuration
file only its start cluster. -/
def Slot.Answers (m : Medium) : Slot → SlotRecord → Prop
  | .disk n, r => Slot.Live m (.disk n) r
  | .config, _ => True

/-- Two old records of a slot come to the same on the medium. -/
def Slot.Agree (m : Medium) (s : Slot) (r r' : SlotRecord) : Prop :=
  (s.Live m r ↔ s.Live m r') ∧
    (s.Answers m r → r.blocks = r'.blocks ∧ (r.blocks ≠ 0 → r.lba = r'.lba))

theorem rootListed_unique {m : Medium} {fuel fuel' : Nat} {es es' : List DriveEntry}
    (h : rootListed m fuel = some es) (h' : rootListed m fuel' = some es') : es = es' := by
  rcases Option.map_eq_some_iff.mp h with ⟨clusters, htrail, rfl⟩
  rcases Option.map_eq_some_iff.mp h' with ⟨clusters', htrail', rfl⟩
  rw [(chain_of_trail htrail).unique (chain_of_trail htrail')]

section Records

variable {m : Medium} {s : Slot} {p p' r r' : SlotRecord} {b b' : Bool}

theorem Judged.bit_iff (h : Judged m s p r b) : b = true ↔ s.Live m p := by
  cases h with
  | absent hp => exact ⟨fun h => absurd h (by decide), fun h => absurd h.1 hp⟩
  | gaps _ hg =>
    refine ⟨fun h => absurd h (by decide), ?_⟩
    intro h
    exact absurd (Runs.unique hg h.2) (by decide)
  | good hp hg => exact ⟨fun _ => ⟨hp, hg⟩, fun _ => rfl⟩

theorem Judged.of_live (h : Judged m s p r b) (hlive : s.Live m p) : r = p := by
  cases h with
  | absent _ => rfl
  | gaps _ hg => exact absurd (Runs.unique hg hlive.2) (by decide)
  | good _ _ => rfl

theorem Judged.lba_of_not_live {n : Int} (h : Judged m (.disk n) p r b)
    (hdead : ¬ Slot.Live m (.disk n) p) : r.lba = 0 := by
  cases h with
  | absent hp => exact Decidable.not_not.mp hp
  | gaps _ _ => rfl
  | good hp hg => exact absurd ⟨hp, hg⟩ hdead

/-- The check of the configuration file leaves what the requests are answered from. -/
theorem Judged.config_kept (h : Judged m .config p r b) : r.lba = p.lba ∧ r.blocks = p.blocks := by
  cases h with
  | absent _ => exact ⟨rfl, rfl⟩
  | gaps _ _ => exact ⟨rfl, rfl⟩
  | good _ _ => exact ⟨rfl, rfl⟩

/-- Files of the same length read alike if they are empty or start at the same place. -/
theorem SlotRecord.read_eq_iff_lba (hblocks : r.blocks = r'.blocks) :
    (∀ sector buff, r.read sector buff = r'.read sector buff) ↔
      (r.blocks ≠ 0 → r.lba = r'.lba) := by
  rw [SlotRecord.read_eq_iff]
  unfold SlotRecord.Servable
  rw [← hblocks]
  constructor
  · rintro ⟨hiff, hsame⟩ hne
    by_cases hlba : r.lba = 0
    · by_cases hlba' : r'.lba = 0
      · rw [hlba, hlba']
      · exact absurd hlba (hiff.mpr ⟨hlba', hne⟩).1
    · exact (hsame ⟨hlba, hne⟩).1
  · intro hlba
    refine ⟨⟨fun h => ⟨hlba h.2 ▸ h.1, h.2⟩, fun h => ⟨hlba h.2 ▸ h.1, h.2⟩⟩, ?_⟩
    intro h
    exact ⟨hlba h.2, rfl⟩

/-- What a slot answers is the same from two old records exactly when they agree. -/
theorem Judged.same_iff (h : Judged m s p r b) (h' : Judged m s p' r' b') :
    (b = b' ∧ s.blocks r = s.blocks r' ∧
      ∀ sector buff, r.read sector buff = r'.read sector buff) ↔ s.Agree m p p' := by
  have hbits : b = b' ↔ (s.Live m p ↔ s.Live m p') := by
    rw [← h.bit_iff, ← h'.bit_iff, Bool.eq_iff_iff]
  rw [hbits]
  unfold Slot.Agree
  refine and_congr_right ?_
  intro hlive
  cases s with
  | config =>
    rcases h.config_kept with ⟨hlba, hblocks⟩
    rcases h'.config_kept with ⟨hlba', hblocks'⟩
    show (r.blocks = r'.blocks ∧ _) ↔ (True → _)
    rw [hblocks, hblocks', true_imp_iff]
    refine and_congr_right ?_
    intro heq
    rw [SlotRecord.read_eq_iff_lba (by rw [hblocks, hblocks', heq]), hblocks, hlba, hlba']
  | disk n =>
    by_cases hp : Slot.Live m (.disk n) p
    · rw [h.of_live hp, h'.of_live (hlive.mp hp)]
      have hblocks : (Slot.disk n).blocks p = p.blocks := if_pos hp.1
      have hblocks' : (Slot.disk n).blocks p' = p'.blocks := if_pos (hlive.mp hp).1
      rw [hblocks, hblocks']
      constructor
      · rintro ⟨heq, hread⟩ -
        exact ⟨heq, (SlotRecord.read_eq_iff_lba heq).mp hread⟩
      · intro hagree
        rcases hagree hp with ⟨heq, hlba⟩
        exact ⟨heq, (SlotRecord.read_eq_iff_lba heq).mpr hlba⟩
    · have hlba := h.lba_of_not_live hp
      have hlba' := h'.lba_of_not_live fun h => hp (hlive.mpr h)
      refine ⟨fun _ h => absurd h hp, fun _ => ⟨?_, ?_⟩⟩
      · have hblocks : (Slot.disk n).blocks r = 0 := if_neg (fun hne => hne hlba)
        have hblocks' : (Slot.disk n).blocks r' = 0 := if_neg (fun hne => hne hlba')
        rw [hblocks, hblocks']
      · intro sector buff
        rw [SlotRecord.read_of_not buff (fun hlt => hlt.1 hlba),
          SlotRecord.read_of_not buff (fun hlt => hlt.1 hlba')]

end Records

section Tables

variable {u u' : DriveTables}

/-- Bitmaps with no bit but those of the slots are the same if those are. -/
theorem bitmap_eq_iff (h : ∀ j, 16 ≤ j → j ≠ 31 → u.diskBitmap.toNat.testBit j = false)
    (h' : ∀ j, 16 ≤ j → j ≠ 31 → u'.diskBitmap.toNat.testBit j = false) :
    u.diskBitmap = u'.diskBitmap ↔
      ∀ disk, DriveId disk → u.advertised (slotOf disk) = u'.advertised (slotOf disk) := by
  refine ⟨fun heq disk _ => by unfold DriveTables.advertised; rw [heq], ?_⟩
  intro heq
  apply UInt32.toNat_inj.mp
  apply Nat.eq_of_testBit_eq
  intro j
  by_cases hj : j < 16
  · have hlt : j < UInt8.size := Nat.lt_trans hj (by decide)
    have hdisk : (UInt8.ofNat j).toNat = j := UInt8.toNat_ofNat_of_lt hlt
    have hid : (UInt8.ofNat j).toNat < 16 := by rw [hdisk]; exact hj
    have hbit := heq (UInt8.ofNat j) (.inl hid)
    rw [slotOf_disk hid, hdisk] at hbit
    exact hbit
  · by_cases hcfg : j = 31
    · rw [hcfg]
      exact heq CFG_DISK (.inr rfl)
    · rw [h j (Nat.not_lt.mp hj) hcfg, h' j (Nat.not_lt.mp hj) hcfg]

theorem sameAnswers_iff (h : ∀ j, 16 ≤ j → j ≠ 31 → u.diskBitmap.toNat.testBit j = false)
    (h' : ∀ j, 16 ≤ j → j ≠ 31 → u'.diskBitmap.toNat.testBit j = false) :
    SameAnswers u u' ↔ ∀ disk, DriveId disk →
      u.advertised (slotOf disk) = u'.advertised (slotOf disk) ∧
        (slotOf disk).blocks (u.slot (slotOf disk)) = (slotOf disk).blocks (u'.slot (slotOf disk)) ∧
          ∀ sector buff,
            (u.slot (slotOf disk)).read sector buff = (u'.slot (slotOf disk)).read sector buff := by
  constructor
  · rintro ⟨hbits, hsame⟩ disk hid
    rcases hsame disk hid with ⟨hblocks, hrw⟩
    refine ⟨(bitmap_eq_iff h h').mp hbits disk hid, ?_, fun sector buff => ?_⟩
    · rw [← getDiskBlocks_eq hid, ← getDiskBlocks_eq hid, hblocks]
    · rw [← readDiskSector_eq hid, ← readDiskSector_eq hid, (hrw sector buff).1]
  · intro hsame
    refine ⟨(bitmap_eq_iff h h').mpr fun disk hid => (hsame disk hid).1, ?_⟩
    intro disk hid
    rcases hsame disk hid with ⟨-, hblocks, hread⟩
    refine ⟨?_, fun sector buff => ⟨?_, ?_⟩⟩
    · rw [getDiskBlocks_eq hid, getDiskBlocks_eq hid, hblocks]
    · rw [readDiskSector_eq hid, readDiskSector_eq hid, hread sector buff]
    · rw [writeDiskSector_eq hid, writeDiskSector_eq hid, SlotRecord.write_eq hread]

end Tables

/-- From two prior states of the tables `init_disk` leads to the same answers exactly when the two
records of every slot that the medium does not list agree on it. `DISKx` names beyond A .. P are taken to
store in no variable used here. -/
theorem sameAnswers_iff_agree {m : Medium} {fuel fuel' : Nat} {stack stack' : Stack}
    {t t' u u' : DriveTables} {l l' : List Touch}
    (hcache : stack.fat32.fat.offset = 0xffffffff) (hcache' : stack'.fat32.fat.offset = 0xffffffff)
    (h : Reads m (initDisk fuel stack t) (0, u) l)
    (h' : Reads m (initDisk fuel' stack' t') (0, u') l') :
    SameAnswers u u' ↔ ∀ disk, DriveId disk → Unlisted m (slotOf disk) →
      (slotOf disk).Agree m (t.slot (slotOf disk)) (t'.slot (slotOf disk)) := by
  have hon := initOn_of_reads (stack.coherent_of_invalid m hcache) h
  have hon' := initOn_of_reads (stack'.coherent_of_invalid m hcache') h'
  rcases initOn_judges hon with ⟨-, es, hes, hjudged, hbits⟩
  rcases initOn_judges hon' with ⟨-, es', hes', hjudged', hbits'⟩
  cases rootListed_unique hes hes'
  rw [sameAnswers_iff hbits hbits']
  refine forall_congr' fun disk => imp_congr_right ?_
  intro hid
  have hj := hjudged _ (slotOf_checked hid)
  have hj' := hjudged' _ (slotOf_checked hid)
  rw [slot_scanned] at hj hj'
  cases hlast : lastEntry (slotOf disk) es with
  | none =>
    -- the slot keeps its record
    rw [hlast] at hj hj'
    have hunlisted : Unlisted m (slotOf disk) := ⟨fuel, es, hes, lastEntry_eq_none.mp hlast⟩
    rw [forall_prop_of_true hunlisted]
    exact hj.same_iff hj'
  | some e =>
    rw [hlast] at hj hj'
    rcases hj.unique hj' with ⟨hrecord, hbit⟩
    rw [hrecord, hbit]
    refine ⟨fun _ hunlisted => ?_, fun _ => ⟨rfl, rfl, fun _ _ => rfl⟩⟩
    rcases hunlisted with ⟨fuel₁, es₁, hes₁, hnone⟩
    cases rootListed_unique hes hes₁
    rcases lastEntry_mem hlast with ⟨hmem, hslot⟩
    exact absurd hslot (hnone e hmem)

section Sticks

/-- A boot sector: one sector a cluster, one reserved sector, two FATs of one sector, the root directory
at cluster 2. -/
def stickBoot : Sector :=
  ((((((Sector.zero.set 0x0c 2).set 0x0d 1).set 0x0e 1).set 0x10 2).set 0x24 1).set 0x2c 2).setFrom
    0x1fe [0x55, 0xaa]

/-- A FAT in which clusters 2 and 3 are chains of one cluster. -/
def stickFat : Sector := Sector.zero.setFrom 8 [0xff, 0xff, 0xff, 0x0f, 0xff, 0xff, 0xff, 0x0f]

/-- A directory with `DISKA.DAT`, one sector long at cluster 3. -/
def stickDir : Sector :=
  ((Sector.zero.setFrom 0 [0x44, 0x49, 0x53, 0x4b, 0x41, 0x20, 0x20, 0x20, 0x44, 0x41, 0x54, 0x20]).set
    26 3).set 29 2

/-- A stick with the given root directory. -/
def stick (dir : Sector) : Medium := fun sector =>
  if sector = 0 then stickBoot
  else if sector = 1 ∨ sector = 2 then stickFat
  else if sector = 3 then dir else .zero

/-- A FAT in which cluster 2 is a chain of one cluster, 3 and 4 are one of two, and 5 to 7 one of three. -/
def twinFat : Sector :=
  Sector.zero.setFrom 8 [0xff, 0xff, 0xff, 0x0f, 0x04, 0x00, 0x00, 0x00, 0xff, 0xff, 0xff, 0x0f,
    0x06, 0x00, 0x00, 0x00, 0x07, 0x00, 0x00, 0x00, 0xff, 0xff, 0xff, 0x0f]

/-- A directory with `DISKA.DAT`, two sectors long at cluster 3, and `DISKB.DAT`, three at cluster 5. -/
def twinDir : Sector :=
  (((stickDir.set 29 4).setFrom 32
    [0x44, 0x49, 0x53, 0x4b, 0x42, 0x20, 0x20, 0x20, 0x44, 0x41, 0x54, 0x20]).set 58 5).set 61 6

/-- A stick with two drives of several clusters. -/
def twinStick : Medium := fun sector =>
  if sector = 0 then stickBoot
  else if sector = 1 ∨ sector = 2 then twinFat
  else if sector = 3 then twinDir else .zero

/-- A stack whose FAT cache is invalid. -/
def invalidStack : Stack := ⟨⟨⟨0, 0, 0, 0⟩, ⟨0xffffffff, .zero⟩⟩, .zero, .zero⟩

theorem invalidStack_coherent (m : Medium) : invalidStack.Coherent m :=
  Stack.coherent_of_invalid m rfl

/-- The stick has drive A. -/
theorem stick_mounted : ∃ t l,
    Reads (stick stickDir) (initDisk 2 invalidStack .zero) (0, t) l ∧ t.diskBitmap = 1 := by
  have hrun : (initOn (stick stickDir) 2 .zero).map (fun x => (x.1, x.2.diskBitmap)) =
      some (0, 1) := by
    decide +kernel
  rcases Option.map_eq_some_iff.mp hrun with ⟨⟨r, t⟩, ht, hbits⟩
  simp only [Prod.mk.injEq] at hbits
  rcases hbits with ⟨rfl, hbits⟩
  rcases initDisk_reads (invalidStack_coherent _) ht with ⟨l, hl⟩
  exact ⟨t, l, hl, hbits⟩

/-- The stick with two drives has both. -/
theorem twinStick_mounted : ∃ t l,
    Reads twinStick (initDisk 4 invalidStack .zero) (0, t) l ∧ t.diskBitmap = 3 := by
  have hrun : (initOn twinStick 4 .zero).map (fun x => (x.1, x.2.diskBitmap)) = some (0, 3) := by
    decide +kernel
  rcases Option.map_eq_some_iff.mp hrun with ⟨⟨r, t⟩, ht, hbits⟩
  simp only [Prod.mk.injEq] at hbits
  rcases hbits with ⟨rfl, hbits⟩
  rcases initDisk_reads (invalidStack_coherent _) ht with ⟨l, hl⟩
  exact ⟨t, l, hl, hbits⟩

/-- The drive that an earlier stick left is listed again: the answers are the same. -/
theorem sameAnswers_iff_agree_listed : ∃ u u' : DriveTables,
    (∃ l, Reads (stick stickDir) (initDisk 2 invalidStack .zero) (0, u) l) ∧
      (∃ l, Reads (stick stickDir)
        (initDisk 2 invalidStack (DriveTables.zero.setSlot (.disk 0) ⟨7, 9, 6⟩)) (0, u') l) ∧
      SameAnswers u u' := by
  have hu' : ∃ u, initOn (stick stickDir) 2 (DriveTables.zero.setSlot (.disk 0) ⟨7, 9, 6⟩) =
      some (0, u) := by
    have hrun : (initOn (stick stickDir) 2
        (DriveTables.zero.setSlot (.disk 0) ⟨7, 9, 6⟩)).map Prod.fst = some 0 := by
      decide +kernel
    rcases Option.map_eq_some_iff.mp hrun with ⟨⟨r, u⟩, hinit, rfl⟩
    exact ⟨u, hinit⟩
  rcases stick_mounted with ⟨u, l, hl, -⟩
  rcases hu' with ⟨u', hu'⟩
  rcases initDisk_reads (invalidStack_coherent _) hu' with ⟨l', hl'⟩
  refine ⟨u, u', ⟨l, hl⟩, ⟨l', hl'⟩, (sameAnswers_iff_agree rfl rfl hl hl').mpr ?_⟩
  intro disk hid hunlisted
  have hlisted : rootListed (stick stickDir) 2 = some [⟨.disk 0, 3, 512⟩] := by decide +kernel
  have hne : slotOf disk ≠ .disk 0 := by
    rcases hunlisted with ⟨fuel, es, hes, hnone⟩
    cases rootListed_unique hes hlisted
    exact (hnone _ (List.mem_singleton.mpr rfl)).symm
  rw [DriveTables.slot_setSlot_of_ne _ _ hne]
  exact ⟨Iff.rfl, fun _ => ⟨rfl, fun _ => rfl⟩⟩

/-- A stick without drives serves drive A of the stick before it. -/
theorem earlier_drive_answers : ∃ t u u' : DriveTables,
    (∃ l, Reads (stick stickDir) (initDisk 2 invalidStack .zero) (0, t) l) ∧
      (∃ l, Reads (stick .zero) (initDisk 2 invalidStack .zero) (0, u) l) ∧
      (∃ l, Reads (stick .zero) (initDisk 2 invalidStack t) (0, u') l) ∧ ¬ SameAnswers u u' := by
  have hempty : (initOn (stick .zero) 2 .zero).map (fun x => (x.1, x.2.diskBitmap)) =
      some (0, 0) := by
    decide +kernel
  have hboth : ((initOn (stick stickDir) 2 .zero).bind fun x =>
      (initOn (stick .zero) 2 x.2).map fun y => (x.1, y.1, y.2.diskBitmap)) =
        some (0, 0, 1) := by
    decide +kernel
  rcases Option.map_eq_some_iff.mp hempty with ⟨⟨r, u⟩, hu, hu₀⟩
  rcases Option.bind_eq_some_iff.mp hboth with ⟨⟨r₁, t⟩, ht, hsecond⟩
  rcases Option.map_eq_some_iff.mp hsecond with ⟨⟨r₂, u'⟩, hu', hu₁⟩
  simp only [Prod.mk.injEq] at hu₀ hu₁
  rcases hu₀ with ⟨rfl, hbits₀⟩
  rcases hu₁ with ⟨rfl, rfl, hbits₁⟩
  refine ⟨t, u, u', initDisk_reads (invalidStack_coherent _) ht,
    initDisk_reads (invalidStack_coherent _) hu, initDisk_reads (invalidStack_coherent _) hu', ?_⟩
  intro hsame
  have hbits : u.diskBitmap = u'.diskBitmap := hsame.1
  rw [hbits₀, hbits₁] at hbits
  exact absurd hbits (by decide)

end Sticks

end LptStore.Fs
