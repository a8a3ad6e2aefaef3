import Mathlib.Data.List.Nodup
import LptStore.Fs.Reserved
import LptStore.Fs.Retain
import LptStore.Handshake.FreePort
import LptStore.Handshake.Turnaround
import LptStore.Protocol.Direct

/-!
# The drives of a stick as disks of the firmware

With a stick in, `disk_read_sector` and `disk_write_sector` go to the sectors of the drive files. When
the volume is well formed the drives share no sector, and so they are arrays of blocks. Whatever the PC
does to its port, the stick stays a well-formed volume with the same files, which mounts as before.
-/

namespace LptStore.Firmware

open LptStore.Lib LptStore.Protocol LptStore.Handshake LptStore.Fs Function

section Extents

variable (t : DriveTables) (d : UInt8)

/-- The record that requests for a drive are answered from, all zero for a number of no drive. -/
def served : SlotRecord :=
  if d = CFG_DISK ∨ d.toNat ≤ NR_DISKS then t.slot (slotOf d) else ⟨0, 0, 0⟩

/-- The sectors that a drive is served from. -/
def extent : List UInt32 :=
  if (served t d).lba = 0 then [] else sectorsFrom (served t d).blocks.toNat (served t d).lba

variable {t d}

theorem served_disk (h : d.toNat ≤ NR_DISKS) : served t d = t.slot (.disk d.toNat) := by
  have hne : d ≠ CFG_DISK := by
    intro heq
    subst heq
    exact absurd h (by decide)
  unfold served slotOf
  rw [if_pos (.inr h), if_neg hne]

theorem readDiskSector_served (l : UInt32) (buff : Sector) :
    readDiskSector t d l buff = (served t d).read l buff := by
  unfold readDiskSector SlotRecord.read
  by_cases hcfg : d = CFG_DISK
  · subst hcfg
    have hgt : ¬ CFG_DISK.toNat ≤ NR_DISKS := by decide
    simp only [hgt, false_and, true_and]
    rfl
  · rw [if_neg (fun hc => hcfg hc.1)]
    by_cases hle : d.toNat ≤ NR_DISKS
    · simp only [hle, true_and, served_disk hle]
      rfl
    · simp only [hle, false_and, served, hcfg, or_self]
      rfl

theorem writeDiskSector_served (l : UInt32) (buff : Sector) :
    writeDiskSector t d l buff = (served t d).write l buff := by
  unfold writeDiskSector SlotRecord.write
  by_cases hcfg : d = CFG_DISK
  · subst hcfg
    have hgt : ¬ CFG_DISK.toNat ≤ NR_DISKS := by decide
    simp only [hgt, false_and, true_and]
    rfl
  · rw [if_neg (fun hc => hcfg hc.1)]
    by_cases hle : d.toNat ≤ NR_DISKS
    · simp only [hle, true_and, served_disk hle]
      rfl
    · simp only [hle, false_and, served, hcfg, or_self]
      rfl

theorem extent_get_of_lt {l : UInt32} (hlba : (served t d).lba ≠ 0) (hl : l < (served t d).blocks) :
    (extent t d)[l.toNat]? = some ((served t d).lba + l) := by
  have hlt : l.toNat < (served t d).blocks.toNat := hl
  unfold extent
  rw [if_neg hlba, getElem?_sectorsFrom _ hlt, UInt32.ofNat_toNat]

/-- A sector number lies in the extent exactly if the request is passed on. -/
theorem lt_extent_iff {l : UInt32} :
    l.toNat < (extent t d).length ↔ (served t d).lba ≠ 0 ∧ l < (served t d).blocks := by
  unfold extent
  by_cases hlba : (served t d).lba = 0
  · simp [hlba]
  · rw [if_neg hlba, length_sectorsFrom]
    exact ⟨fun h => ⟨hlba, h⟩, fun h => h.2⟩

theorem nodup_sectorsFrom {k : Nat} (lba : UInt32) (hk : k ≤ 2 ^ 32) : (sectorsFrom k lba).Nodup := by
  rw [List.nodup_iff_injective_getElem]
  rintro ⟨i, hi⟩ ⟨j, hj⟩ heq
  rw [length_sectorsFrom] at hi hj
  have hget : (sectorsFrom k lba)[i]? = (sectorsFrom k lba)[j]? := by
    rw [List.getElem?_eq_getElem (by simpa using hi), List.getElem?_eq_getElem (by simpa using hj)]
    exact congrArg some heq
  rw [getElem?_sectorsFrom lba hi, getElem?_sectorsFrom lba hj] at hget
  have hsum := congrArg UInt32.toNat (Option.some.inj hget)
  simp only [UInt32.toNat_add, UInt32.toNat_ofNat'] at hsum
  have hlba := lba.toNat_lt
  ext
  show i = j
  omega

theorem nodup_extent : (extent t d).Nodup := by
  unfold extent
  by_cases hlba : (served t d).lba = 0
  · rw [if_pos hlba]
    exact List.nodup_nil
  · rw [if_neg hlba]
    exact nodup_sectorsFrom _ (Nat.le_of_lt (served t d).blocks.toNat_lt)

end Extents

section Disks

variable (t : DriveTables)

/-- The disk layer of `msc_app.c:94-110` with a stick in whose reads and writes succeed. -/
def stickDisk : Disk Bench where
  getDrives _ := getDisks t
  getBlocks _ d := getDiskBlocks t d
  readSector w d l buff := ((readDiskSector t d l buff).exec Bench.answer w).getD ((-1, buff), w)
  writeSector w d l data := ((writeDiskSector t d l data).exec Bench.answer w).getD (-1, w)

/-- No two drives are served from one sector. -/
def Apart : Prop := ∀ d d', d ≠ d' → (extent t d).Disjoint (extent t d')

variable {t} {w : Bench} {d : UInt8} {l : UInt32}

theorem stick_read {x : UInt32} (buff : Sector) (h : (extent t d)[l.toNat]? = some x) :
    (stickDisk t).readSector w d l buff =
      ((0, w.medium x), { w with log := w.log ++ [.read .buff x] }) := by
  obtain ⟨hlba, hl⟩ := lt_extent_iff.mp (List.getElem?_eq_some_iff.mp h).1
  rw [extent_get_of_lt hlba hl] at h
  cases h
  show ((readDiskSector t d l buff).exec Bench.answer w).getD _ = _
  rw [readDiskSector_served, SlotRecord.read_of_lt buff hlba hl]
  rfl

theorem stick_read_out (buff : Sector) (h : (extent t d).length ≤ l.toNat) :
    (stickDisk t).readSector w d l buff = ((-1, buff), w) := by
  have hout := mt lt_extent_iff.mpr (Nat.not_lt.mpr h)
  show ((readDiskSector t d l buff).exec Bench.answer w).getD _ = _
  rw [readDiskSector_served, SlotRecord.read_of_not buff hout]
  rfl

theorem stick_write {x : UInt32} (data : Sector) (h : (extent t d)[l.toNat]? = some x) :
    (stickDisk t).writeSector w d l data =
      (0, ⟨update w.medium x data, w.log ++ [.write x]⟩) := by
  obtain ⟨hlba, hl⟩ := lt_extent_iff.mp (List.getElem?_eq_some_iff.mp h).1
  rw [extent_get_of_lt hlba hl] at h
  cases h
  show ((writeDiskSector t d l data).exec Bench.answer w).getD _ = _
  rw [writeDiskSector_served, SlotRecord.write_of_lt data hlba hl]
  rfl

theorem stick_write_out (data : Sector) (h : (extent t d).length ≤ l.toNat) :
    (stickDisk t).writeSector w d l data = (-1, w) := by
  have hout := mt lt_extent_iff.mpr (Nat.not_lt.mpr h)
  show ((writeDiskSector t d l data).exec Bench.answer w).getD _ = _
  rw [writeDiskSector_served, SlotRecord.write_of_not data hout]
  rfl

/-- A write to a sector of a drive changes that block of that drive. -/
theorem drives_update (h : Apart t) {m : Medium} {i : Nat} {x : UInt32} (data : Sector)
    (hx : (extent t d)[i]? = some x) :
    (fun d' => (extent t d').map (update m x data)) =
      Drives.put (fun d' => (extent t d').map m) d i data := by
  funext d'
  unfold Drives.put
  by_cases hd : d' = d
  · subst hd
    obtain ⟨hi, heq⟩ := List.getElem?_eq_some_iff.mp hx
    rw [if_pos rfl, nodup_extent.map_update, if_pos (List.mem_of_getElem? hx), ← heq,
      nodup_extent.idxOf_getElem]
  · rw [if_neg hd]
    apply List.map_congr_left
    intro y hy
    have hne : y ≠ x := fun heq => h d' d hd hy (heq ▸ List.mem_of_getElem? hx)
    exact update_of_ne hne _ _

/-- The status -1 does not read as success. -/
theorem minus_one_not_dvd : ¬ (256 : Int) ∣ -1 := by decide

/-- The drives of a stick as arrays of blocks. -/
def stickArray (t : DriveTables) (h : Apart t) : BlindArray Bench where
  toDisk := stickDisk t
  drives w d := (extent t d).map w.medium
  read_inRange {w d l s} buff hs := by
    rw [List.getElem?_map] at hs
    obtain ⟨x, hx, rfl⟩ := Option.map_eq_some_iff.mp hs
    rw [stick_read buff hx]
  read_outOfRange {w d l} buff hout := by
    rw [List.length_map] at hout
    rw [stick_read_out buff hout]
    exact minus_one_not_dvd
  drives_read w d l buff := by
    cases hx : (extent t d)[l.toNat]? with
    | some x => rw [stick_read buff hx]
    | none => rw [stick_read_out buff (List.getElem?_eq_none_iff.mp hx)]
  write_inRange {w d l} data hin := by
    rw [List.length_map] at hin
    have hx := List.getElem?_eq_getElem hin
    rw [stick_write data hx]
    exact ⟨rfl, drives_update h data hx⟩
  write_outOfRange {w d l} data hout := by
    rw [List.length_map] at hout
    rw [stick_write_out data hout]
    exact ⟨minus_one_not_dvd, rfl⟩
  blind w d l buff buff' := by
    unfold Disk.fetch
    cases hx : (extent t d)[l.toNat]? with
    | some x => rw [stick_read buff hx, stick_read buff' hx]
    | none =>
      have hout := List.getElem?_eq_none_iff.mp hx
      rw [stick_read_out buff hout, stick_read_out buff' hout]
      rfl

/-- Outside the extents of the drives the medium stays as it was. -/
theorem keeps_outside (m : Medium) :
    (stickDisk t).Keeps fun w => ∀ x, (∀ d, x ∉ extent t d) → w.medium x = m x := by
  refine ⟨?_, ?_⟩
  · intro w d l buff hw
    cases hx : (extent t d)[l.toNat]? with
    | some x => rwa [stick_read buff hx]
    | none => rwa [stick_read_out buff (List.getElem?_eq_none_iff.mp hx)]
  · intro w d l data hw
    cases hx : (extent t d)[l.toNat]? with
    | some x =>
      rw [stick_write data hx]
      intro y hy
      have hne : y ≠ x := fun heq => hy d (heq ▸ List.mem_of_getElem? hx)
      exact (update_of_ne hne _ _).trans (hw y hy)
    | none => rwa [stick_write_out data (List.getElem?_eq_none_iff.mp hx)]

end Disks

section Mounted

theorem take_sectorsFrom {n k : Nat} (lba : UInt32) (h : n ≤ k) :
    (sectorsFrom k lba).take n = sectorsFrom n lba := by
  induction k generalizing n lba with
  | zero =>
    obtain rfl := Nat.le_zero.mp h
    rfl
  | succ k ih =>
    cases n with
    | zero => rfl
    | succ n =>
      unfold sectorsFrom
      rw [List.take_succ_cons, ih _ (Nat.le_of_succ_le_succ h)]

variable {v : Volume} {t : DriveTables} {fuel : Nat} {d : UInt8}

/-- The configuration file, if there is one, has no gap. -/
def ConfigWhole (v : Volume) : Prop :=
  ∀ e ∈ v.entries, e.slot = .config → Gaps v.medium e.cluster false

theorem extent_of_lba (h : (served t d).lba = 0) : extent t d = [] := if_pos h

theorem extent_of_blocks (h : (served t d).blocks = 0) : extent t d = [] := by
  unfold extent
  rw [h]
  exact ite_self _

theorem served_of_id (hid : DriveId d) : served t d = t.slot (slotOf d) := by
  unfold served
  rw [if_pos]
  rcases hid with hlt | hcfg
  · exact .inr (Nat.le_of_lt hlt)
  · exact .inl hcfg

/-- A record that passed its check: the drive is served from its file. -/
theorem extent_of_record {e : DriveEntry} {x : UInt32} (he : e ∈ v.entries)
    (hrecord : served t d = e.toRecord (geometry v.medium)) (hgaps : Gaps v.medium e.cluster false)
    (hx : x ∈ fileSectors (geometry v.medium) (v.chainOf e.slot)) : extent t d =
      (fileSectors (geometry v.medium) (v.chainOf e.slot)).take (e.size.toNat / 512) := by
  have hne := Volume.sectors_ne_zero he
  have hlinear := fileSectors_linear (Nat.lt_of_lt_of_le Nat.zero_lt_one v.perCluster)
    (v.files e he).raw hgaps hne
  have hpos := List.length_pos_of_mem hx
  -- The first sector of the file is the base of the drive.
  have hlba : getLba (geometry v.medium) e.cluster ≠ 0 := by
    apply hne
    rw [hlinear]
    obtain ⟨k, hk⟩ := Nat.exists_eq_succ_of_ne_zero (Nat.ne_of_gt hpos)
    rw [hk]
    exact List.mem_cons_self
  have hblocks : (e.size >>> 9).toNat = e.size.toNat / 512 := by
    rw [UInt32.toNat_shiftRight]
    exact Nat.shiftRight_eq_div_pow _ _
  rw [hlinear, take_sectorsFrom _ (Volume.blocks_le he), ← hblocks]
  unfold extent
  rw [hrecord]
  exact if_neg hlba

/-- A drive that is not advertised is not served, or it is a configuration file with a gap. -/
theorem extent_of_unadvertised (h : initOn v.medium fuel .zero = some (0, t))
    (hconfig : ConfigWhole v) (hid : DriveId d) (hserved : served t d = t.slot (slotOf d))
    (hbit : t.advertised (slotOf d) = false) : extent t d = [] := by
  have hj := Volume.judged_listed h (slotOf_checked hid)
  cases hlast : lastEntry (slotOf d) v.entries with
  | none =>
    obtain ⟨hslot, -, -⟩ := Volume.slot_unlisted h (slotOf_checked hid) hlast
    apply extent_of_lba
    rw [hserved, hslot]
    cases slotOf d <;> rfl
  | some e =>
    obtain ⟨he, hslot⟩ := lastEntry_mem hlast
    rw [hlast, Option.map_some, Option.getD_some, hbit] at hj
    have hsize := v.nonEmpty e he
    generalize hrecord : t.slot (slotOf d) = r at hj
    rw [hrecord] at hserved
    cases hs : slotOf d with
    | disk n =>
      rw [hs] at hj
      apply extent_of_lba
      rw [hserved]
      cases hj with
      | absent hp => exact Decidable.not_not.mp hp
      | gaps _ _ => rfl
    | config =>
      rw [hs] at hj hslot
      cases hj with
      | absent hp =>
        have hcluster : e.cluster = 0 := Decidable.not_not.mp hp
        have hempty : e.size = 0 := by
          by_contra hne
          have htwo := hsize hne
          rw [hcluster] at htwo
          exact absurd htwo (by decide)
        apply extent_of_blocks
        rw [hserved]
        show e.size >>> 9 = 0
        rw [hempty]
        rfl
      | gaps _ hg => exact absurd (Runs.unique hg (hconfig e he hslot)) (by decide)

/-- After a mount from zeroed tables a drive is served from the blocks of its file, or not at all. -/
theorem extent_mounted (h : initOn v.medium fuel .zero = some (0, t)) (hconfig : ConfigWhole v)
    (d : UInt8) : extent t d = [] ∨ ∃ e ∈ v.entries, DriveId d ∧ e.slot = slotOf d ∧
      extent t d = (fileSectors (geometry v.medium) (v.chainOf e.slot)).take (e.size.toNat / 512) := by
  by_cases hid : DriveId d
  · have hserved : served t d = t.slot (slotOf d) := served_of_id hid
    cases hbit : t.advertised (slotOf d) with
    | false => exact .inl (extent_of_unadvertised h hconfig hid hserved hbit)
    | true =>
      obtain ⟨e, he, hslot, hgaps, -, hrecord⟩ := v.advertised_serves hid h hbit
      by_cases hblocks : e.size.toNat / 512 = 0
      · left
        apply extent_of_blocks
        rw [hserved, hrecord]
        apply UInt32.toNat_inj.mp
        show (e.size >>> 9).toNat = 0
        rw [UInt32.toNat_shiftRight]
        exact (Nat.shiftRight_eq_div_pow _ _).trans hblocks
      · right
        have hlen := Volume.blocks_le he
        obtain ⟨x, hx⟩ := List.exists_mem_of_length_pos (Nat.lt_of_lt_of_le
          (Nat.pos_of_ne_zero hblocks) hlen)
        exact ⟨e, he, hid, hslot, extent_of_record he (hserved.trans hrecord) hgaps hx⟩
  · left
    apply extent_of_lba
    by_cases hle : d.toNat ≤ NR_DISKS
    · have hunchecked : ¬ (Slot.disk d.toNat).Checked := by
        rintro ⟨-, hlt⟩
        exact hid (.inl (by omega))
      obtain ⟨-, es, hes, -⟩ := initOn_judges h
      have hslot := initOn_unchecked h hes hunchecked
      cases Volume.rootListed_eq hes
      have hlast : lastEntry (.disk d.toNat) v.entries = none := by
        apply lastEntry_eq_none.mpr
        intro e he hslot
        exact hunchecked (hslot ▸ v.named e he)
      rw [served_disk hle, hslot, slot_scanned, hlast]
      rfl
    · unfold served
      rw [if_neg]
      rintro (hcfg | hle')
      · exact hid (.inr hcfg)
      · exact hle hle'

theorem slotOf_injective {d d' : UInt8} (hid : DriveId d) (hid' : DriveId d')
    (h : slotOf d = slotOf d') : d = d' := by
  rcases hid with hlt | rfl
  · rcases hid' with hlt' | rfl
    · rw [slotOf_disk hlt, slotOf_disk hlt'] at h
      exact UInt8.toNat_inj.mp (Int.ofNat.inj (Slot.disk.inj h))
    · rw [slotOf_disk hlt] at h
      cases h
  · rcases hid' with hlt' | rfl
    · rw [slotOf_disk hlt'] at h
      cases h
    · rfl

/-- The drives of a well-formed volume share no sector. -/
theorem apart_mounted (h : initOn v.medium fuel .zero = some (0, t)) (hconfig : ConfigWhole v) :
    Apart t := by
  intro d d' hne x hx hx'
  rcases extent_mounted h hconfig d with hnil | ⟨e, he, hid, hslot, hextent⟩
  · rw [hnil] at hx
    cases hx
  · rcases extent_mounted h hconfig d' with hnil | ⟨e', he', hid', hslot', hextent'⟩
    · rw [hnil] at hx'
      cases hx'
    · rw [hextent] at hx
      rw [hextent'] at hx'
      have hslots : e.slot ≠ e'.slot := by
        intro heq
        exact hne (slotOf_injective hid hid' (hslot.symm.trans (heq.trans hslot')))
      exact (v.files e he).sectors_disjoint (v.files e' he') v.perCluster
        (v.disjoint e he e' he' hslots) (List.mem_of_mem_take hx) (List.mem_of_mem_take hx')

/-- A mount depends on no sector that a drive is served from. -/
theorem metadata_outside (h : initOn v.medium fuel .zero = some (0, t)) (hconfig : ConfigWhole v)
    (hfat : v.InFat) {x : UInt32} (hx : v.Metadata x) : ∀ d, x ∉ extent t d := by
  intro d hmem
  rcases extent_mounted h hconfig d with hnil | ⟨e, he, -, -, hextent⟩
  · rw [hnil] at hmem
    cases hmem
  · rw [hextent] at hmem
    exact Volume.not_metadata hfat he (List.mem_of_mem_take hmem) hx

/-- The medium may be mounted again: it is a well-formed volume with the same files, and the tables come
to the same answers. -/
structure Remountable (v : Volume) (t : DriveTables) (m : Medium) : Prop where
  wellFormed : ∃ v' : Volume, v'.medium = m ∧ v'.entries = v.entries ∧ v'.chainOf = v.chainOf
  returns : ∀ stack : Stack, stack.Coherent m → ∃ fuel₀, ∀ fuel, fuel₀ ≤ fuel →
    ∃ u l, Reads m (initDisk fuel stack t) (0, u) l
  same : ∀ {fuel stack u l}, Stack.Coherent m stack → Reads m (initDisk fuel stack t) (0, u) l →
    SameAnswers t u

theorem remountable_of_outside {m : Medium} (h : initOn v.medium fuel .zero = some (0, t))
    (hconfig : ConfigWhole v) (hfat : v.InFat)
    (hm : ∀ x, (∀ d, x ∉ extent t d) → m x = v.medium x) : Remountable v t m := by
  have hsame : ∀ x, v.Metadata x → m x = v.medium x := fun x hx =>
    hm x (metadata_outside h hconfig hfat hx)
  refine ⟨⟨v.onMedium m hsame, rfl, Volume.onMedium_entries hsame, rfl⟩, ?_, ?_⟩
  · intro stack hcache
    obtain ⟨fuel₀, hfuel₀⟩ := Volume.remount_returns hsame h
    refine ⟨fuel₀, ?_⟩
    intro fuel' hfuel
    obtain ⟨u, hu⟩ := hfuel₀ fuel' hfuel
    obtain ⟨l, hl⟩ := initDisk_reads hcache hu
    exact ⟨u, l, hl⟩
  · intro fuel' stack u l hcache hreads
    exact Volume.remount_same hsame h (initOn_of_reads hcache hreads)

/-- Core 1 is about to ask for drive 16, whose words are those of other variables behind the tables. -/
def AsksBehind {ω : Type} (s : Pico (Device ω)) : Prop :=
  match s.dev with
  | .idle d => asksNext d.prog = some 16
  | _ => False

instance {ω : Type} (s : Pico (Device ω)) : Decidable (AsksBehind s) :=
  match s with
  | ⟨.idle d, _, _⟩ => inferInstanceAs (Decidable (asksNext d.prog = some 16))
  | ⟨.polling _ _ _, _, _⟩ | ⟨.writing _ _ _, _, _⟩ | ⟨.reading _ _ _, _, _⟩ => .isFalse not_false

/-- A stick with a well-formed volume, clusters numbered within the FAT and a configuration file without
gaps is mounted from zeroed tables. Then whatever the PC does to its port and whichever waits of core 1
expire, as long as no request overruns the static buffers or is for drive 16, the medium changes only in
the sectors the drives are served from, it stays a well-formed volume with the same files, and mounting
it again gives the same answers. -/
theorem stick_stays_well_formed (v : Volume) {stack : Stack} {log : List Touch} {b : Bufs}
    {lines : Lines} {lg : Log} {s : Pico (Device Bench)} {l : List Touch} (hfat : v.InFat)
    (hconfig : ConfigWhole v) (hcache : stack.Coherent v.medium)
    (hmount : Reads v.medium (initDisk fuel stack .zero) (0, t) l)
    (hrun : Run (FreeStep (Device.act (stickDisk t)))
      (fun mover s => mover = .device → ¬ Overruns s ∧ ¬ AsksBehind s)
      ⟨.idle (Device.idle b ⟨v.medium, log⟩), lines, lg⟩ s) :
    s.dev.All fun d => (∀ x, (∀ disk, x ∉ extent t disk) → d.world.medium x = v.medium x) ∧
      Remountable v t d.world.medium := by
  have hon := initOn_of_reads hcache hmount
  have hkeeps : ∀ d : Device Bench, _ → (Device.act (stickDisk t) d).All _ := fun d hd =>
    act_keepsWorld (keeps_outside v.medium) hd
  have hfree : FreeRun (Device.act (stickDisk t)) _ s := hrun.mono fun _ _ _ => trivial
  have hall := freeRun_keeps hkeeps hfree fun x _ => rfl
  exact hall.imp fun d hd => ⟨hd, remountable_of_outside hon hconfig hfat hd⟩

/-- The clusters of the stick with drive A are within its FAT. -/
theorem stickVolume_inFat : stickVolume.InFat := by
  have hentries : stickVolume.entries = [⟨.disk 0, 3, 512⟩] := stick_directory
  rintro c (hc | ⟨e, he, hc⟩)
  · rw [List.mem_singleton.mp hc]
    decide +kernel
  · rw [hentries, List.mem_singleton] at he
    subst he
    rw [List.mem_singleton.mp hc]
    decide +kernel

/-- It has no configuration file. -/
theorem stickVolume_configWhole : ConfigWhole stickVolume := by
  have hentries : stickVolume.entries = [⟨.disk 0, 3, 512⟩] := stick_directory
  intro e he hslot
  rw [hentries, List.mem_singleton] at he
  subst he
  cases hslot

/-- What `init_disk` makes of it. -/
def stickTables : DriveTables := ((initOn (stick stickDir) 2 .zero).map Prod.snd).getD .zero

theorem stickTables_mounted :
    ∃ l, Reads stickVolume.medium (initDisk 2 invalidStack .zero) (0, stickTables) l := by
  have hreturns : (initOn (stick stickDir) 2 .zero).map Prod.fst = some 0 := by decide +kernel
  obtain ⟨⟨r, t⟩, ht, rfl⟩ := Option.map_eq_some_iff.mp hreturns
  have htables : stickTables = t := by
    unfold stickTables
    rw [ht]
    rfl
  rw [htables]
  exact initDisk_reads (invalidStack_coherent _) ht

/-- The PC is about to write the one block of drive A, a one and then zeros. -/
def writeStart : Pins (HostProg (DResult × Mem)) (Device Bench) :=
  ⟨.idle (lptWrite 0 0 ⟨0, 0⟩ 1 fun a => if a = 0 then 1 else 0),
    .idle (Device.idle ⟨.zero, .zero⟩ ⟨stickVolume.medium, []⟩),
    ⟨0, false, false, false, false, false⟩, ⟨[], []⟩, ⟨[], []⟩⟩

/-- What has been read and written when core 1 goes on from the byte it sends. -/
def touched : DevState (Device Bench) → List Touch
  | .writing _ sent _ => sent.world.log
  | _ => []

/-- The PC has sent its request, and core 1 has written the block. -/
theorem stick_stays_well_formed_written : ∃ s : Pico (Device Bench),
    (∃ l, Reads stickVolume.medium (initDisk 2 invalidStack .zero) (0, stickTables) l) ∧
      Run (FreeStep (Device.act (stickDisk stickTables)))
        (fun mover s => mover = .device → ¬ Overruns s ∧ ¬ AsksBehind s) (pico writeStart) s ∧
      s.log.returned = [0x04, 0, 0, 5, 0, 0, 0x01, 0x00, 0xff, 0x00, 0xfe] ∧
      touched s.dev = [.write 4] ∧ s.dev.All fun d => Remountable stickVolume stickTables d.world.medium := by
  obtain ⟨l, hl⟩ := stickTables_mounted
  have hend : (play (pinNext hostAct (Device.act (stickDisk stickTables)))
      (fun _ x => ¬ Overruns (pico x) ∧ ¬ AsksBehind (pico x))
      (turns ([(2, 7), (2, 3), (4, 5)] ++ (List.replicate 9 [(2, 3), (4, 6)]).flatten ++
        [(2, 3), (3, 9)])) writeStart).map (fun t => (t.devLog.returned, touched t.dev)) =
      some ([0x04, 0, 0, 5, 0, 0, 0x01, 0x00, 0xff, 0x00, 0xfe], [.write 4]) := by
    decide +kernel
  obtain ⟨t, hsched, heq⟩ := Option.map_eq_some_iff.mp hend
  obtain ⟨hreturned, htouched⟩ := Prod.mk.inj heq
  have hpins : PinRun hostAct (Device.act (stickDisk stickTables))
      (fun _ x => ¬ Overruns (pico x) ∧ ¬ AsksBehind (pico x)) writeStart t :=
    play_run pinNext_step (fun _ _ => of_decide_eq_true) hsched
  have hrun : Run (FreeStep (Device.act (stickDisk stickTables)))
      (fun mover s => mover = .device → ¬ Overruns s ∧ ¬ AsksBehind s) (pico writeStart) (pico t) :=
    freeSteps_of_pinRun (fun _ _ hbounds _ => hbounds) hpins
  have hall := stick_stays_well_formed stickVolume stickVolume_inFat stickVolume_configWhole
    (invalidStack_coherent _) hl hrun
  exact ⟨_, ⟨l, hl⟩, hrun, hreturned, htouched, hall.imp fun _ hd => hd.2⟩

end Mounted

end LptStore.Firmware
