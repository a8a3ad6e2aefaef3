import LptStore.Fs.Linear

/-!
# What a mount depends on

`init_disk` reads the boot sector, the root directory and the FAT sectors that hold the entries of the
chains. A medium that agrees with a well-formed volume there is a well-formed volume with the same files,
and mounting it again gives the same answers. The sectors of the drive files are none of these as long as
the clusters are numbered within the FAT.
-/

namespace LptStore.Fs

open LptStore.Lib Function

section Walks

variable {m m' : Medium} {start : UInt32} {clusters : List UInt32}

theorem FileChain.inChain (h : FileChain m start clusters) {c : UInt32} (hc : c ∈ clusters) :
    inChain c := by
  have hchain := h.chain
  clear h
  induction hchain with
  | stop _ => cases hc
  | step hstep _ ih =>
    rcases List.mem_cons.mp hc with rfl | hc
    · by_contra hend
      unfold fat32Step at hstep
      rw [if_neg hend] at hstep
      cases hstep
    · exact ih hc

/-- The clusters of a chain that keep their entries. -/
theorem FileChain.congr (h : FileChain m start clusters) (hg : geometry m' = geometry m)
    (hsame : ∀ c ∈ clusters, fatEntry m' (geometry m) c = fatEntry m (geometry m) c) :
    FileChain m' start clusters := by
  refine ⟨h.chain.congr ?_ ?_, ?_, ?_⟩
  · intro c hc
    unfold fat32Step
    rw [hg, hsame c hc]
  · intro c hend
    unfold fat32Step at hend ⊢
    by_cases hc : Fs.inChain c
    · rw [if_pos hc] at hend
      cases hend
    · exact if_neg hc
  · intro c hc
    rw [hg, hsame c hc]
    exact h.topNibble c hc
  · rw [hg]
    exact h.fits

/-- The check for gaps goes the same way along such a chain. -/
theorem gaps_congr {last : UInt32} {gaps : Bool}
    (h : Chain (fatStep m (geometry m)) start clusters) (hg : geometry m' = geometry m)
    (hsame : ∀ c ∈ clusters, fatEntry m' (geometry m) c = fatEntry m (geometry m) c)
    (hrun : Runs (gapStep m (geometry m)) (start, last) gaps) :
    Runs (gapStep m' (geometry m')) (start, last) gaps := by
  rw [hg]
  induction h generalizing last with
  | @stop c hstop =>
    have hc : ¬ Fs.inChain c := by
      intro hc
      rw [fatStep_inChain hc] at hstop
      cases hstop
    rw [hrun.of_done (gapStep_end hc)]
    exact .done (gapStep_end hc)
  | @step c next cs hstep _ ih =>
    by_cases hc : Fs.inChain c
    · rw [fatStep_inChain hc] at hstep
      obtain ⟨hfirst, hrest⟩ := List.forall_mem_cons.mp hsame
      cases hstep
      cases hgap : gapInCluster (geometry m).sectorsPerCluster.toNat (getLba (geometry m) c) last with
      | none =>
        rw [hrun.of_done (gapStep_gap hc hgap)]
        exact .done (gapStep_gap hc hgap)
      | some last' =>
        have hnext := ih hrest (hrun.of_round (gapStep_next hc hgap))
        rw [← hfirst] at hnext
        exact .round (gapStep_next hc hgap) hnext
    · rw [fatStep_end hc] at hstep
      cases hstep

end Walks

namespace Volume

variable (v : Volume)

/-- A cluster of the root directory or of a file. -/
def Chained (c : UInt32) : Prop := c ∈ v.rootChain ∨ ∃ e ∈ v.entries, c ∈ v.chainOf e.slot

/-- The FAT sector that holds the entry of a cluster. -/
def fatSector (c : UInt32) : UInt32 := c / 128 + (geometry v.medium).reservedSectorCount.toUInt32

/-- A sector that a mount depends on. -/
inductive Metadata : UInt32 → Prop
  | boot : Metadata 0
  | root {x : UInt32} : x ∈ fileSectors (geometry v.medium) v.rootChain → Metadata x
  | fat {c : UInt32} : v.Chained c → Metadata (v.fatSector c)

variable {v} {m' : Medium}

theorem geometry_of_metadata (h : ∀ x, v.Metadata x → m' x = v.medium x) :
    geometry m' = geometry v.medium := by
  unfold geometry
  rw [h 0 .boot]

theorem entry_of_metadata (h : ∀ x, v.Metadata x → m' x = v.medium x) {c : UInt32}
    (hc : v.Chained c) :
    fatEntry m' (geometry v.medium) c = fatEntry v.medium (geometry v.medium) c := by
  have hsector := h _ (.fat hc)
  unfold fatSector at hsector
  unfold fatEntry
  rw [hsector]

theorem rawEntries_of_metadata (h : ∀ x, v.Metadata x → m' x = v.medium x) :
    rawEntries m' (fileSectors (geometry m') v.rootChain) =
      rawEntries v.medium (fileSectors (geometry v.medium) v.rootChain) := by
  unfold rawEntries
  rw [geometry_of_metadata h, List.flatMap_def, List.flatMap_def]
  refine congrArg List.flatten (List.map_congr_left fun x hx => ?_)
  rw [h x (.root hx)]

theorem directory_of_metadata (h : ∀ x, v.Metadata x → m' x = v.medium x) :
    directory m' (fileSectors (geometry m') v.rootChain) = v.entries := by
  unfold directory
  rw [rawEntries_of_metadata h]
  rfl

/-- The volume on a medium that agrees on what a mount depends on. -/
def onMedium (v : Volume) (m' : Medium) (h : ∀ x, v.Metadata x → m' x = v.medium x) : Volume where
  medium := m'
  rootChain := v.rootChain
  chainOf := v.chainOf
  signed := by rw [h 0 .boot]; exact v.signed
  bytesPerSector := by rw [h 0 .boot]; exact v.bytesPerSector
  numberOfFats := by rw [h 0 .boot]; exact v.numberOfFats
  reserved := by rw [geometry_of_metadata h]; exact v.reserved
  perCluster := by rw [geometry_of_metadata h]; exact v.perCluster
  root := by
    have hroot := v.root.congr (geometry_of_metadata h) fun c hc => entry_of_metadata h (.inl hc)
    rw [geometry_of_metadata h]
    exact hroot
  ended := by rw [rawEntries_of_metadata h]; exact v.ended
  named := by rw [directory_of_metadata h]; exact v.named
  once := by rw [directory_of_metadata h]; exact v.once
  files := by
    rw [directory_of_metadata h]
    intro e he
    exact (v.files e he).congr (geometry_of_metadata h) fun c hc =>
      entry_of_metadata h (.inr ⟨e, he, hc⟩)
  nonEmpty := by rw [directory_of_metadata h]; exact v.nonEmpty
  longEnough := by rw [directory_of_metadata h, geometry_of_metadata h]; exact v.longEnough
  disjoint := by rw [directory_of_metadata h]; exact v.disjoint
  rootDisjoint := by rw [directory_of_metadata h]; exact v.rootDisjoint

theorem onMedium_entries (h : ∀ x, v.Metadata x → m' x = v.medium x) :
    (v.onMedium m' h).entries = v.entries := directory_of_metadata h

section Outside

/-- The clusters of the volume are numbered within its FAT. -/
def InFat (v : Volume) : Prop :=
  ∀ c, v.Chained c → c.toNat / 128 < (geometry v.medium).sectorsPerFAT.toNat

theorem Chained.inChain {c : UInt32} (hc : v.Chained c) : Fs.inChain c := by
  rcases hc with hc | ⟨e, he, hc⟩
  · exact v.root.inChain hc
  · exact (v.files e he).inChain hc

theorem toNat_fatSector {c : UInt32} (hc : v.Chained c) :
    (v.fatSector c).toNat = c.toNat / 128 + (geometry v.medium).reservedSectorCount.toNat := by
  have hlt : c.toNat < 0x0ffffff0 := hc.inChain.1
  have hres := (geometry v.medium).reservedSectorCount.toNat_lt
  unfold fatSector
  rw [UInt32.toNat_add, UInt32.toNat_div, UInt16.toNat_toUInt32]
  exact Nat.mod_eq_of_lt (by simp; omega)

/-- The sectors of a file lie behind the FATs. -/
theorem base_le {e : DriveEntry} (he : e ∈ v.entries) {x : UInt32}
    (hx : x ∈ fileSectors (geometry v.medium) (v.chainOf e.slot)) :
    (geometry v.medium).reservedSectorCount.toNat +
      2 * (geometry v.medium).sectorsPerFAT.toNat ≤ x.toNat := by
  obtain ⟨c, -, i, -, heq⟩ := (v.files e he).toNat_of_mem v.perCluster hx
  unfold clusterBase at heq
  omega

/-- A mount does not depend on the sectors of the files. -/
theorem not_metadata (hfat : v.InFat) {e : DriveEntry} (he : e ∈ v.entries) {x : UInt32}
    (hx : x ∈ fileSectors (geometry v.medium) (v.chainOf e.slot)) : ¬ v.Metadata x := by
  have hbase := base_le he hx
  have hreserved := v.reserved
  intro hmeta
  cases hmeta with
  | boot =>
    have hzero : (0 : UInt32).toNat = 0 := rfl
    omega
  | root hroot =>
    exact v.root.sectors_disjoint (v.files e he) v.perCluster (v.rootDisjoint e he) hroot hx
  | fat hc =>
    have hsector := toNat_fatSector hc
    have hin := hfat _ hc
    omega

end Outside

section Remount

variable {t u : DriveTables} {fuel fuel' : Nat}

/-- After the first mount the tables hold nothing of a slot without a file. -/
theorem slot_unlisted (h : initOn v.medium fuel .zero = some (0, t)) {s : Slot} (hs : s.Checked)
    (hlast : lastEntry s v.entries = none) :
    t.slot s = DriveTables.zero.slot s ∧ t.advertised s = false ∧
      ¬ s.present (DriveTables.zero.slot s) := by
  have habsent : ¬ s.present (DriveTables.zero.slot s) := by
    cases s with
    | disk n => exact fun hp => hp rfl
    | config => exact fun hp => hp rfl
  obtain ⟨-, es, hes, hjudged, -⟩ := initOn_judges h
  cases rootListed_eq hes
  have hj := hjudged s hs
  rw [slot_scanned, hlast, Option.map_none, Option.getD_none] at hj
  obtain ⟨hslot, hbit⟩ := hj.unique (.absent habsent)
  exact ⟨hslot, hbit, habsent⟩

/-- A slot after a mount of the volume, whatever it was mounted from: judged from its entry. -/
theorem judged_listed {t₀ : DriveTables} (h : initOn v.medium fuel t₀ = some (0, t)) {s : Slot}
    (hs : s.Checked) :
    Judged v.medium s (((lastEntry s v.entries).map (DriveEntry.toRecord (geometry v.medium))).getD
      (t₀.slot s)) (t.slot s) (t.advertised s) := by
  obtain ⟨-, es, hes, hjudged, -⟩ := initOn_judges h
  cases rootListed_eq hes
  have hj := hjudged s hs
  rwa [slot_scanned] at hj

theorem Judged.congr {s : Slot} {r r' : SlotRecord} {b : Bool} (h : Judged v.medium s r r' b)
    (hgaps : ∀ gaps, Gaps v.medium r.cluster gaps → Gaps m' r.cluster gaps) :
    Judged m' s r r' b := by
  cases h with
  | absent hp => exact .absent hp
  | gaps hp hg => exact .gaps hp (hgaps _ hg)
  | good hp hg => exact .good hp (hgaps _ hg)

/-- Mounted again on a medium that agrees on what a mount depends on, the volume answers as before. -/
theorem remount_same (hsame : ∀ x, v.Metadata x → m' x = v.medium x)
    (h : initOn v.medium fuel .zero = some (0, t)) (h' : initOn m' fuel' t = some (0, u)) :
    SameAnswers t u := by
  obtain ⟨-, -, -, -, hbits⟩ := initOn_judges h
  obtain ⟨-, -, -, -, hbits'⟩ := initOn_judges h'
  have hu : initOn (v.onMedium m' hsame).medium fuel' t = some (0, u) := h'
  have hg := geometry_of_metadata hsame
  rw [sameAnswers_iff hbits hbits']
  intro disk hid
  have hs := slotOf_checked hid
  have hj := judged_listed h hs
  have hj' := judged_listed hu hs
  rw [onMedium_entries hsame] at hj'
  have hkept : t.advertised (slotOf disk) = u.advertised (slotOf disk) ∧
      t.slot (slotOf disk) = u.slot (slotOf disk) := by
    cases hlast : lastEntry (slotOf disk) v.entries with
    | none =>
      obtain ⟨hslot, hbit, habsent⟩ := slot_unlisted h hs hlast
      rw [hlast, Option.map_none, Option.getD_none, hslot] at hj'
      obtain ⟨hslot', hbit'⟩ := hj'.unique (.absent habsent)
      exact ⟨hbit.trans hbit'.symm, hslot.trans hslot'.symm⟩
    | some e =>
      obtain ⟨he, -⟩ := lastEntry_mem hlast
      rw [hlast, Option.map_some, Option.getD_some] at hj hj'
      have hgaps : ∀ gaps, Gaps v.medium e.cluster gaps → Gaps m' e.cluster gaps := fun gaps hrun =>
        gaps_congr (v.files e he).raw hg (fun c hc => entry_of_metadata hsame (.inr ⟨e, he, hc⟩)) hrun
      have hmoved : Judged m' (slotOf disk) (e.toRecord (geometry v.medium)) _ _ :=
        Judged.congr hj hgaps
      have hgeometry : geometry (v.onMedium m' hsame).medium = geometry v.medium := hg
      rw [hgeometry] at hj'
      obtain ⟨hslot, hbit⟩ := hmoved.unique hj'
      exact ⟨hbit, hslot⟩
  obtain ⟨hbit, hslot⟩ := hkept
  rw [hbit, hslot]
  exact ⟨rfl, rfl, fun _ _ => rfl⟩

/-- It can be mounted again. -/
theorem remount_returns (hsame : ∀ x, v.Metadata x → m' x = v.medium x)
    (h : initOn v.medium fuel .zero = some (0, t)) :
    ∃ fuel₀, ∀ fuel', fuel₀ ≤ fuel' → ∃ u, initOn m' fuel' t = some (0, u) := by
  let v' := v.onMedium m' hsame
  refine initOn_returns v'.signed v'.root.raw rfl ?_
  intro s hs hp
  have hlisted : listed m' (fileSectors (geometry m') v'.rootChain) = v.entries :=
    (listed_eq_directory v'.ended).trans (directory_of_metadata hsame)
  rw [hlisted, slot_scanned] at hp ⊢
  cases hlast : lastEntry s v.entries with
  | none =>
    rw [hlast] at hp
    obtain ⟨hslot, -, habsent⟩ := slot_unlisted h hs hlast
    rw [Option.map_none, Option.getD_none, hslot] at hp
    exact absurd hp habsent
  | some e =>
    obtain ⟨he, hslot⟩ := lastEntry_mem hlast
    have he' : e ∈ v'.entries := by
      rw [onMedium_entries hsame]
      exact he
    rw [Option.map_some, Option.getD_some]
    exact exists_gaps 0 (v'.files e he').raw

end Remount

end Volume

section Earlier

variable {m : Medium} {t t' : DriveTables} {es es' : List DriveEntry} {v : Volume} {fuel : Nat}

/-- Of a slot that is not listed the tables hold nothing. -/
def DriveTables.Within (t : DriveTables) (es : List DriveEntry) : Prop :=
  ∀ s, (∀ e ∈ es, e.slot ≠ s) → t.slot s = DriveTables.zero.slot s

/-- Every slot that `es` lists is listed in `es'` too. -/
def Relisted (es es' : List DriveEntry) : Prop := ∀ e ∈ es, ∃ e' ∈ es', e'.slot = e.slot

theorem DriveTables.within_zero (es : List DriveEntry) : DriveTables.zero.Within es := fun _ _ => rfl

theorem DriveTables.Within.mono (h : t.Within es) (hlists : Relisted es es') : t.Within es' := by
  intro s hs
  apply h s
  intro e he heq
  obtain ⟨e', he', hslot⟩ := hlists e he
  exact hs e' he' (hslot.trans heq)

/-- The records and the bitmap are all there is to the tables. -/
theorem DriveTables.ext_slot (hslot : ∀ s, t.slot s = t'.slot s) (hbits : t.diskBitmap = t'.diskBitmap) :
    t = t' := by
  obtain ⟨bits, cluster, lba, blocks, cfgLba, cfgBlocks, cfgCluster⟩ := t
  obtain ⟨bits', cluster', lba', blocks', cfgLba', cfgBlocks', cfgCluster'⟩ := t'
  have hdisk : ∀ n, lba n = lba' n ∧ blocks n = blocks' n ∧ cluster n = cluster' n := fun n =>
    SlotRecord.mk.inj (hslot (.disk n))
  have hlba : lba = lba' := funext fun n => (hdisk n).1
  have hblocks : blocks = blocks' := funext fun n => (hdisk n).2.1
  have hcluster : cluster = cluster' := funext fun n => (hdisk n).2.2
  obtain ⟨rfl, rfl, rfl⟩ := SlotRecord.mk.inj (hslot .config)
  subst hlba hblocks hcluster
  cases hbits
  rfl

/-- The scan leaves nothing of the tables before it but the records of the slots that are not listed. -/
theorem scanned_within (h : t.Within es) : t.scanned m es = DriveTables.zero.scanned m es := by
  apply DriveTables.ext_slot
  · intro s
    rw [slot_scanned, slot_scanned]
    cases hlast : lastEntry s es with
    | none => exact h s (lastEntry_eq_none.mp hlast)
    | some e => rfl
  · unfold DriveTables.scanned
    rw [bitmap_foldl_enter, bitmap_foldl_enter]

/-- Over such tables a volume is mounted as over zeroed ones. -/
theorem Volume.mount_within (h : t.Within v.entries) :
    initOn v.medium fuel t = initOn v.medium fuel .zero := by
  unfold initOn
  rw [if_pos v.signed, if_pos v.signed]
  cases hes : rootListed v.medium fuel with
  | none => rfl
  | some es =>
    cases Volume.rootListed_eq hes
    simp only [Option.bind_eq_bind, Option.bind_some, scanned_within h]

end Earlier

end LptStore.Fs
