import LptStore.Fs.Volume
import LptStore.Fs.Forget

/-!
# The linear fast path agrees with the FAT chain

A request for sector `s` of a drive goes to the base address of the drive plus `s`. On a well-formed
volume that is the `s`-th sector `read_file` would visit on the chain of the drive's file, and so
the files of two drives stay apart.
-/

namespace LptStore.Fs

open LptStore.Lib Function

/-- The data sectors that `read_file` visits from a cluster on, in order: it reads them, and hands their
content to its callback. -/
def Visits (m : Medium) (cluster : UInt32) (sectors : List UInt32) : Prop :=
  ∃ fuel₀, ∀ fuel, fuel₀ ≤ fuel → ∀ (τ : Type) (callback : Geometry → Sector → τ → τ)
    (pfat32 : Fat32) (buff : Sector) (t : τ), pfat32.toGeometry = geometry m → Coherent m pfat32 →
      ∃ p l, Reads m (readFile (fun p => callback p.toGeometry) fuel pfat32 cluster buff t)
          (p, sectors.foldl (fun t s => callback (geometry m) (m s) t) t) l ∧
        dataReads l = sectors

theorem visits_of_chain {m : Medium} {cluster : UInt32} {clusters : List UInt32}
    (h : Chain (fatStep m (geometry m)) cluster clusters) :
    Visits m cluster (fileSectors (geometry m) clusters) := by
  refine ⟨clusters.length + 1, ?_⟩
  intro fuel hfuel τ callback pfat32 buff t hg hcache
  have htrail := h.trail (Nat.lt_of_succ_le hfuel)
  rw [← hg] at htrail ⊢
  rcases readFile_reads callback buff t hcache htrail with ⟨fat, l, hreads, -, hl⟩
  exact ⟨_, l, hreads, hl⟩

theorem Visits.unique {m : Medium} {cluster : UInt32} {sectors sectors' : List UInt32}
    (h : Visits m cluster sectors) (h' : Visits m cluster sectors') : sectors = sectors' := by
  rcases h with ⟨n, hn⟩
  rcases h' with ⟨k, hk⟩
  let pfat32 : Fat32 := ⟨geometry m, ⟨0xffffffff, .zero⟩⟩
  rcases hn (max n k) (Nat.le_max_left n k) Unit (fun _ _ t => t) pfat32 .zero () rfl (.inl rfl) with
    ⟨p, l, hreads, hl⟩
  rcases hk (max n k) (Nat.le_max_right n k) Unit (fun _ _ t => t) pfat32 .zero () rfl (.inl rfl) with
    ⟨p', l', hreads', hl'⟩
  rw [← hl, ← hl', (hreads.unique hreads').2]

/-- Requests for a drive reach exactly the sectors of its file, each at its place in `visited`. -/
structure ServesFile (t : DriveTables) (disk : UInt8) (blocks : Nat) (visited : List UInt32) :
    Prop where
  inside : ∀ sector : Int32, 0 ≤ sector.toInt → sector.toInt < blocks →
    ∃ lba, visited[sector.toInt.toNat]? = some lba ∧ ∀ w : Bench,
      (∀ buff, (readDiskSector t disk sector.toUInt32 buff).exec Bench.answer w =
        some ((0, w.medium lba), { w with log := w.log ++ [.read .buff lba] })) ∧
      ∀ data, (writeDiskSector t disk sector.toUInt32 data).exec Bench.answer w =
        some (0, ⟨update w.medium lba data, w.log ++ [.write lba]⟩)
  outside : ∀ sector : Int32, ¬ (0 ≤ sector.toInt ∧ sector.toInt < blocks) → ∀ w : Bench,
    (∀ buff, (readDiskSector t disk sector.toUInt32 buff).exec Bench.answer w =
      some ((-1, buff), w)) ∧
    ∀ data, (writeDiskSector t disk sector.toUInt32 data).exec Bench.answer w = some (-1, w)

section Bounds

/-- A C `int` below a file's length, as an unsigned number. -/
theorem toNat_of_nonneg {sector : Int32} (h : 0 ≤ sector.toInt) :
    sector.toUInt32.toNat = sector.toInt.toNat := by
  have hcast : (sector.toUInt32.toNat : Int) = sector.toInt := by
    have hb : sector.toInt = sector.toBitVec.toInt := rfl
    have hn : sector.toUInt32.toNat = sector.toBitVec.toNat := rfl
    rw [hb] at h ⊢
    rw [hn, BitVec.toInt_eq_toNat_of_msb]
    rw [BitVec.msb_eq_toInt]
    exact decide_eq_false (Int.not_lt.mpr h)
  rw [← hcast]
  rfl

theorem toNat_of_neg {sector : Int32} (h : sector.toInt < 0) :
    2 ^ 31 ≤ sector.toUInt32.toNat := by
  have hb : sector.toInt = sector.toBitVec.toInt := rfl
  have hn : sector.toUInt32.toNat = sector.toBitVec.toNat := rfl
  rw [hb] at h
  rw [hn]
  have hmsb : sector.toBitVec.msb = true := by
    rw [BitVec.msb_eq_toInt]
    exact decide_eq_true h
  have htwo := BitVec.msb_eq_true_iff_two_mul_ge.mp hmsb
  omega

/-- The bound of the code, `sector < disk_blocks[disk]` on unsigned numbers, is that of the claim on
signed ones: a file has fewer than 2^31 blocks. -/
theorem lt_blocks_iff (sector : Int32) (size : UInt32) :
    sector.toUInt32 < size >>> 9 ↔
      0 ≤ sector.toInt ∧ sector.toInt < ((size.toNat / 512 : Nat) : Int) := by
  have hblocks : (size >>> 9).toNat = size.toNat / 512 := by
    rw [UInt32.toNat_shiftRight]
    exact Nat.shiftRight_eq_div_pow _ _
  have hsize := size.toNat_lt
  have hlt : sector.toUInt32 < size >>> 9 ↔ sector.toUInt32.toNat < size.toNat / 512 := by
    rw [← hblocks]
    rfl
  rw [hlt]
  by_cases hneg : sector.toInt < 0
  · have hbig := toNat_of_neg hneg
    omega
  · have hnonneg : 0 ≤ sector.toInt := Int.not_lt.mp hneg
    rw [toNat_of_nonneg hnonneg]
    omega

end Bounds

namespace Volume

variable (v : Volume)

/-- The drive files and configuration files in the root directory. -/
def entries : List DriveEntry :=
  directory v.medium (fileSectors (geometry v.medium) v.rootChain)

variable {v}

theorem rootListed_eq {fuel : Nat} {es : List DriveEntry} (h : rootListed v.medium fuel = some es) :
    es = v.entries := by
  rcases Option.map_eq_some_iff.mp h with ⟨clusters, htrail, rfl⟩
  rw [(chain_of_trail htrail).unique v.root.raw]
  exact listed_eq_directory v.ended

/-- A slot of zeroed tables after the scan. -/
theorem slot_scanned_zero (s : Slot)
    (h : s.present ((DriveTables.zero.scanned v.medium v.entries).slot s)) :
    ∃ e ∈ v.entries, e.slot = s ∧
      (DriveTables.zero.scanned v.medium v.entries).slot s = e.toRecord (geometry v.medium) := by
  rw [slot_scanned] at h ⊢
  cases hlast : lastEntry s v.entries with
  | none =>
    rw [hlast] at h
    cases s with
    | disk n => exact absurd rfl h
    | config => exact absurd rfl h
  | some e =>
    rcases lastEntry_mem hlast with ⟨hmem, hslot⟩
    exact ⟨e, hmem, hslot, rfl⟩

/-- `init_disk` returns 0 on a well-formed volume. -/
theorem initOn_returns_zero :
    ∃ fuel₀, ∀ fuel, fuel₀ ≤ fuel → ∃ t, initOn v.medium fuel .zero = some (0, t) := by
  refine initOn_returns v.signed v.root.raw rfl ?_
  intro s _ hp
  rw [listed_eq_directory v.ended] at hp ⊢
  rcases slot_scanned_zero s hp with ⟨e, he, rfl, hrecord⟩
  rw [show directory v.medium (fileSectors (geometry v.medium) v.rootChain) = v.entries from rfl,
    hrecord]
  exact exists_gaps 0 (v.files e he).raw

/-- The sectors of a file are not zero. -/
theorem sectors_ne_zero {e : DriveEntry} (he : e ∈ v.entries) :
    ∀ x ∈ fileSectors (geometry v.medium) (v.chainOf e.slot), x ≠ 0 := by
  intro x hx hzero
  rcases (v.files e he).toNat_of_mem v.perCluster hx with ⟨c, -, i, -, heq⟩
  have hreserved := v.reserved
  have hbase : x.toNat = 0 := congrArg UInt32.toNat hzero
  unfold clusterBase at heq
  omega

/-- The blocks of a file lie in its chain. -/
theorem blocks_le {e : DriveEntry} (he : e ∈ v.entries) :
    e.size.toNat / 512 ≤ (fileSectors (geometry v.medium) (v.chainOf e.slot)).length := by
  rw [length_fileSectors]
  have hlong := v.longEnough e he
  omega

/-- A record that passes its check serves the chain of its file. -/
theorem servesFile {t : DriveTables} {disk : UInt8} {e : DriveEntry} (hid : DriveId disk)
    (he : e ∈ v.entries) (hrecord : t.slot (slotOf disk) = e.toRecord (geometry v.medium))
    (hlba : getLba (geometry v.medium) e.cluster ≠ 0) (hgaps : Gaps v.medium e.cluster false) :
    ServesFile t disk (e.size.toNat / 512)
      (fileSectors (geometry v.medium) (v.chainOf e.slot)) := by
  have hlinear := fileSectors_linear (Nat.lt_of_lt_of_le Nat.zero_lt_one v.perCluster)
    (v.files e he).raw hgaps (sectors_ne_zero he)
  refine ⟨fun sector hnonneg hlt => ?_, fun sector hout w => ?_⟩
  · have hbound := (lt_blocks_iff sector e.size).mpr ⟨hnonneg, hlt⟩
    have hindex : sector.toInt.toNat <
        (fileSectors (geometry v.medium) (v.chainOf e.slot)).length :=
      Nat.lt_of_lt_of_le (by omega) (blocks_le he)
    refine ⟨getLba (geometry v.medium) e.cluster + sector.toUInt32, ?_, fun w => ⟨?_, ?_⟩⟩
    · rw [hlinear, getElem?_sectorsFrom _ hindex, ← toNat_of_nonneg hnonneg, UInt32.ofNat_toNat]
    · intro buff
      rw [readDiskSector_eq hid, hrecord, SlotRecord.read_of_lt buff hlba hbound]
      rfl
    · intro data
      rw [writeDiskSector_eq hid, hrecord, SlotRecord.write_of_lt data hlba hbound]
      rfl
  · have hout' : ¬ ((e.toRecord (geometry v.medium)).lba ≠ 0 ∧
        sector.toUInt32 < (e.toRecord (geometry v.medium)).blocks) := by
      intro hin
      exact hout ((lt_blocks_iff sector e.size).mp hin.2)
    refine ⟨fun buff => ?_, fun data => ?_⟩
    · rw [readDiskSector_eq hid, hrecord, SlotRecord.read_of_not buff hout']
      rfl
    · rw [writeDiskSector_eq hid, hrecord, SlotRecord.write_of_not data hout']
      rfl

/-- An advertised drive serves the chain of the file of its name. -/
theorem advertised_serves {fuel : Nat} {t : DriveTables} {disk : UInt8} (hid : DriveId disk)
    (h : initOn v.medium fuel .zero = some (0, t)) (hset : t.advertised (slotOf disk) = true) :
    ∃ e ∈ v.entries, e.slot = slotOf disk ∧ Gaps v.medium e.cluster false ∧
      (slotOf disk).present (e.toRecord (geometry v.medium)) ∧
      t.slot (slotOf disk) = e.toRecord (geometry v.medium) := by
  rcases initOn_judges h with ⟨-, es, hes, hjudged, -⟩
  cases rootListed_eq hes
  have hj := hjudged _ (slotOf_checked hid)
  rw [hset] at hj
  have hbit : ∀ {r r' b}, Judged v.medium (slotOf disk) r r' b → b = true →
      (slotOf disk).present r ∧ Gaps v.medium r.cluster false ∧ r' = r := by
    intro r r' b hj hb
    cases hj with
    | absent _ => cases hb
    | gaps _ _ => cases hb
    | good hp hg => exact ⟨hp, hg, rfl⟩
  rcases hbit hj rfl with ⟨hp, hgaps, hsame⟩
  rcases slot_scanned_zero _ hp with ⟨e, he, hslot, hrecord⟩
  rw [hrecord] at hp hgaps hsame
  exact ⟨e, he, hslot, hgaps, hp, hsame⟩

end Volume

/-- On a well-formed volume, from zeroed tables and an invalid FAT cache, `init_disk` returns 0, and
afterwards sector `s` of an advertised drive is the `s`-th sector that `read_file` visits on the chain
of its file. A write through a drive changes no sector of another file. -/
theorem drives_linear (v : Volume) {stack : Stack} (hcache : stack.fat32.fat.offset = 0xffffffff) :
    (∃ fuel₀, ∀ fuel, fuel₀ ≤ fuel →
      ∃ t l, Reads v.medium (initDisk fuel stack .zero) (0, t) l) ∧
    ∀ {fuel r t l}, Reads v.medium (initDisk fuel stack .zero) (r, t) l → r = 0 ∧
      ∀ disk : UInt8, disk.toNat < 16 → (getDisks t).toNat.testBit disk.toNat = true →
        ∃ e ∈ v.entries, e.slot = .disk disk.toNat ∧
          (∃ visited, Visits v.medium e.cluster visited ∧
            ServesFile t disk (e.size.toNat / 512) visited) ∧
          ∀ e' ∈ v.entries, e'.slot ≠ e.slot → ∀ visited', Visits v.medium e'.cluster visited' →
            ∀ (sector : Int32) (data : Sector) (w w' : Bench) (r : Int),
              (writeDiskSector t disk sector.toUInt32 data).exec Bench.answer w = some (r, w') →
                ∀ x ∈ visited', w'.medium x = w.medium x := by
  have hcoherent := stack.coherent_of_invalid v.medium hcache
  refine ⟨?_, ?_⟩
  · rcases v.initOn_returns_zero with ⟨fuel₀, hfuel₀⟩
    refine ⟨fuel₀, ?_⟩
    intro fuel hfuel
    rcases hfuel₀ fuel hfuel with ⟨t, ht⟩
    exact ⟨t, initDisk_reads hcoherent ht⟩
  · intro fuel r t l hreads
    have hon := initOn_of_reads hcoherent hreads
    cases initOn_signed v.signed hon
    refine ⟨rfl, ?_⟩
    intro disk hdisk hset
    have hid : DriveId disk := .inl hdisk
    have hslotOf := slotOf_disk hdisk
    have hadv : t.advertised (slotOf disk) = true := by
      rw [hslotOf]
      exact hset
    rcases v.advertised_serves hid hon hadv with ⟨e, he, hslot, hgaps, hp, hrecord⟩
    have hlba : getLba (geometry v.medium) e.cluster ≠ 0 := by
      rw [hslotOf] at hp
      exact hp
    have hserves := v.servesFile hid he hrecord hlba hgaps
    refine ⟨e, he, hslot.trans hslotOf, ⟨_, visits_of_chain (v.files e he).raw, hserves⟩, ?_⟩
    intro e' he' hne visited' hvisits sector data w w' r' hwrite x hx
    rw [hvisits.unique (visits_of_chain (v.files e' he').raw)] at hx
    by_cases hin : 0 ≤ sector.toInt ∧ sector.toInt < ((e.size.toNat / 512 : Nat) : Int)
    · rcases hserves.inside sector hin.1 hin.2 with ⟨lba, hlba, hexec⟩
      rw [(hexec w).2 data] at hwrite
      cases hwrite
      have hdisj := (v.files e he).sectors_disjoint (v.files e' he') v.perCluster
        (v.disjoint e he e' he' hne.symm)
      have hxne : x ≠ lba := fun heq => hdisj (List.mem_of_getElem? hlba) (heq ▸ hx)
      exact update_of_ne hxne _ _
    · rw [(hserves.outside sector hin w).2 data] at hwrite
      cases hwrite
      rfl

section Sticks

/-- The clusters of a chain are looked at one by one. -/
theorem FileChain.of_all {m : Medium} {start : UInt32} {clusters : List UInt32}
    (hchain : Chain (fat32Step m) start clusters)
    (hall : (clusters.all fun c => decide ((fatEntry m (geometry m) c).toNat < 2 ^ 28 ∧ 2 ≤ c.toNat ∧
      clusterBase (geometry m) c + (geometry m).sectorsPerCluster.toNat ≤ 2 ^ 32)) = true) :
    FileChain m start clusters := by
  have hone := fun c hc => of_decide_eq_true (List.all_eq_true.mp hall c hc)
  exact ⟨hchain, fun c hc => (hone c hc).1, fun c hc => (hone c hc).2⟩

theorem disjoint_of_all {l l' : List UInt32} (h : (l.all fun x => decide (x ∉ l')) = true) :
    l.Disjoint l' := by
  intro x hx hx'
  have hout : x ∉ l' := of_decide_eq_true (List.all_eq_true.mp h x hx)
  exact hout hx'

/-- What the root directory of the stick lists. -/
theorem stick_directory : directory (stick stickDir)
    (fileSectors (geometry (stick stickDir)) [2]) = [⟨.disk 0, 3, 512⟩] := by
  decide +kernel

/-- The stick with `DISKA.DAT` is a well-formed volume. -/
def stickVolume : Volume where
  medium := stick stickDir
  rootChain := [2]
  chainOf s := if s = .disk 0 then [3] else []
  signed := by decide +kernel
  bytesPerSector := by decide +kernel
  numberOfFats := by decide +kernel
  reserved := by decide +kernel
  perCluster := by decide +kernel
  root := .of_all (.step (b := 0x0fffffff) (by decide +kernel) (.stop (by decide))) (by decide +kernel)
  ended := by decide +kernel
  named := by
    rw [stick_directory]
    intro e he
    rw [List.mem_singleton.mp he]
    exact ⟨by decide, by decide⟩
  once := by
    rw [stick_directory]
    exact List.pairwise_singleton _ _
  files := by
    rw [stick_directory]
    intro e he
    rw [List.mem_singleton.mp he]
    exact .of_all (.step (b := 0x0fffffff) (by decide +kernel) (.stop (by decide))) (by decide +kernel)
  nonEmpty := by
    rw [stick_directory]
    decide
  longEnough := by
    rw [stick_directory]
    decide +kernel
  disjoint := by
    rw [stick_directory]
    intro e he e' he' hne
    rw [List.mem_singleton.mp he, List.mem_singleton.mp he'] at hne
    exact absurd rfl hne
  rootDisjoint := by
    rw [stick_directory]
    intro e he
    rw [List.mem_singleton.mp he]
    exact disjoint_of_all (by decide)

/-- The directory of the stick with two drives. -/
theorem twin_directory : directory twinStick (fileSectors (geometry twinStick) [2]) =
    [⟨.disk 0, 3, 1024⟩, ⟨.disk 1, 5, 1536⟩] := by
  decide +kernel

/-- It is a well-formed volume too. -/
def twinVolume : Volume where
  medium := twinStick
  rootChain := [2]
  chainOf s := if s = .disk 0 then [3, 4] else [5, 6, 7]
  signed := by decide +kernel
  bytesPerSector := by decide +kernel
  numberOfFats := by decide +kernel
  reserved := by decide +kernel
  perCluster := by decide +kernel
  root := .of_all (.step (b := 0x0fffffff) (by decide +kernel) (.stop (by decide))) (by decide +kernel)
  ended := by decide +kernel
  named := by
    rw [twin_directory]
    exact List.forall_mem_cons.mpr
      ⟨⟨by decide, by decide⟩, List.forall_mem_singleton.mpr ⟨by decide, by decide⟩⟩
  once := by
    rw [twin_directory]
    decide
  files := by
    rw [twin_directory]
    refine List.forall_mem_cons.mpr ⟨?_, List.forall_mem_singleton.mpr ?_⟩
    · refine .of_all ?_ (by decide +kernel)
      exact .step (b := 4) (by decide +kernel) (.step (b := 0x0fffffff) (by decide +kernel)
        (.stop (by decide)))
    · refine .of_all ?_ (by decide +kernel)
      exact .step (b := 6) (by decide +kernel) (.step (b := 7) (by decide +kernel)
        (.step (b := 0x0fffffff) (by decide +kernel) (.stop (by decide))))
  nonEmpty := by
    rw [twin_directory]
    decide
  longEnough := by
    rw [twin_directory]
    decide +kernel
  disjoint := by
    rw [twin_directory]
    intro e he e' he' hne
    rcases List.mem_pair.mp he with rfl | rfl <;> rcases List.mem_pair.mp he' with rfl | rfl
    · exact absurd rfl hne
    · exact disjoint_of_all (by decide)
    · exact disjoint_of_all (by decide)
    · exact absurd rfl hne
  rootDisjoint := by
    rw [twin_directory]
    exact List.forall_mem_cons.mpr ⟨disjoint_of_all (by decide),
      List.forall_mem_singleton.mpr (disjoint_of_all (by decide))⟩

theorem twin_visits_a : Visits twinStick 3 [4, 5] := by
  have hchain := chain_of_trail (show trail (fatStep twinStick (geometry twinStick)) 3 3 =
    some [3, 4] by decide +kernel)
  have hsectors : fileSectors (geometry twinStick) [3, 4] = [4, 5] := by decide +kernel
  rw [← hsectors]
  exact visits_of_chain hchain

theorem twin_visits_b : Visits twinStick 5 [6, 7, 8] := by
  have hchain := chain_of_trail (show trail (fatStep twinStick (geometry twinStick)) 4 5 =
    some [5, 6, 7] by decide +kernel)
  have hsectors : fileSectors (geometry twinStick) [5, 6, 7] = [6, 7, 8] := by decide +kernel
  rw [← hsectors]
  exact visits_of_chain hchain

/-- Drive A of two clusters and drive B of three: each serves the sectors of its file, and a write through
A leaves those of B alone. -/
theorem drives_linear_twin : ∃ t : DriveTables,
    (∃ l, Reads twinVolume.medium (initDisk 4 invalidStack .zero) (0, t) l) ∧
      ServesFile t 0 2 [4, 5] ∧ ServesFile t 1 3 [6, 7, 8] ∧
      ∀ (sector : Int32) (data : Sector) (w w' : Bench) (r : Int),
        (writeDiskSector t 0 sector.toUInt32 data).exec Bench.answer w = some (r, w') →
          ∀ x ∈ [6, 7, 8], w'.medium x = w.medium x := by
  rcases twinStick_mounted with ⟨t, l, hl, hbits⟩
  have hinvalid : invalidStack.fat32.fat.offset = 0xffffffff := rfl
  have hentries : twinVolume.entries = [⟨.disk 0, 3, 1024⟩, ⟨.disk 1, 5, 1536⟩] := twin_directory
  have hdrives := ((drives_linear twinVolume hinvalid).2 hl).2
  rw [hentries] at hdrives
  have hbitA : (getDisks t).toNat.testBit (0 : UInt8).toNat = true := by
    unfold getDisks
    rw [hbits]
    decide
  have hbitB : (getDisks t).toNat.testBit (1 : UInt8).toNat = true := by
    unfold getDisks
    rw [hbits]
    decide
  rcases hdrives 0 (by decide) hbitA with ⟨e, he, hslot, ⟨visited, hvisits, hserves⟩, hapart⟩
  rcases hdrives 1 (by decide) hbitB with ⟨e', he', hslot', ⟨visited', hvisits', hserves'⟩, -⟩
  have hnames : ∀ e ∈ ([⟨.disk 0, 3, 1024⟩, ⟨.disk 1, 5, 1536⟩] : List DriveEntry),
      (e.slot = .disk 0 → e = ⟨.disk 0, 3, 1024⟩) ∧ (e.slot = .disk 1 → e = ⟨.disk 1, 5, 1536⟩) := by
    decide
  obtain rfl := (hnames e he).1 hslot
  obtain rfl := (hnames e' he').2 hslot'
  rw [hvisits.unique twin_visits_a] at hserves
  rw [hvisits'.unique twin_visits_b] at hserves'
  refine ⟨t, ⟨l, hl⟩, hserves, hserves', ?_⟩
  exact hapart _ he' (by decide) _ twin_visits_b

end Sticks

end LptStore.Fs
