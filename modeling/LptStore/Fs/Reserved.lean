import LptStore.Fs.Forget
import LptStore.Fs.Layout
import LptStore.Fs.Consecutive

/-!
# The reserved bits of FAT entries

The walks compare whole FAT entries with 0x0ffffff0, so that a link with one of its reserved bits set
ends the chain. Two media that differ in reserved bits alone come to the same exactly if for every slot
what is found and what its check says come to the same; they do if no link is taken for the end of
its chain on one of them only.
-/

namespace LptStore.Fs

open LptStore.Lib

/-- The sector belongs to one of the FATs. -/
def InFats (m : Medium) (sector : UInt32) : Prop :=
  (geometry m).reservedSectorCount.toNat ≤ sector.toNat ∧
    sector.toNat < (geometry m).reservedSectorCount.toNat +
      numberOfFats m * (geometry m).sectorsPerFAT.toNat

/-- The media are the same but for the bits 28 to 31 of FAT entries. -/
structure SameButReserved (m m' : Medium) : Prop where
  boot : m 0 = m' 0
  outside : ∀ sector, ¬ InFats m sector → m sector = m' sector
  inside : ∀ sector, InFats m sector → ∀ i, i < 128 →
    (m sector).le32 (4 * i) &&& 0x0fffffff = (m' sector).le32 (4 * i) &&& 0x0fffffff

/-- The root directory ends and lists these files. -/
def Lists (m : Medium) (es : List DriveEntry) : Prop := ∃ fuel, rootListed m fuel = some es

/-- The root directory ends, and so does the check of every slot found. -/
def MountEnds (m : Medium) (t : DriveTables) : Prop :=
  ∃ es, Lists m es ∧ ∀ s, s.Checked → s.present ((t.scanned m es).slot s) →
    ∃ gaps, Gaps m ((t.scanned m es).slot s).cluster gaps

/-- The slot with the record `p` on one medium and `p'` on the other: its checks leave the same record
and the same bit. A slot that is not checked has the same record from the start. -/
def Alike (m m' : Medium) (s : Slot) (p p' : SlotRecord) : Prop :=
  (s.Checked → ∃ r b, Judged m s p r b ∧ Judged m' s p' r b) ∧ (¬ s.Checked → p = p')

/-- The same outcome of the walks on both media: neither of them ends, or the slots come out alike. -/
def SameOutcome (m m' : Medium) (t : DriveTables) : Prop :=
  (MountEnds m t ↔ MountEnds m' t) ∧ ∀ es es', Lists m es → Lists m' es' → MountEnds m t →
    ∀ s, Alike m m' s ((t.scanned m es).slot s) ((t.scanned m' es').slot s)

/-- `init_disk` returns this on the medium. -/
def Leaves (m : Medium) (stack : Stack) (t : DriveTables) (r : Int × DriveTables) : Prop :=
  ∃ fuel l, Reads m (initDisk fuel stack t) r l

/-- A cluster of the root directory, or of the file of a slot found there. -/
def Visited (m : Medium) (t : DriveTables) (cluster : UInt32) : Prop :=
  OnChain m (geometry m) (geometry m).rootDirectoryFirstCluster cluster ∨
    ∃ es s, Lists m es ∧ s.Checked ∧ s.present ((t.scanned m es).slot s) ∧
      OnChain m (geometry m) ((t.scanned m es).slot s).cluster cluster

/-- No link that the mount meets is taken for the end of the chain on one of the media only, and no
sector of the root directory lies in a FAT and differs. -/
structure SameLinks (m m' : Medium) (t : DriveTables) : Prop where
  links : ∀ c, Visited m t c →
    (inChain (fatEntry m (geometry m) c) ↔ inChain (fatEntry m' (geometry m) c))
  root : ∀ clusters, Chain (fatStep m (geometry m)) (geometry m).rootDirectoryFirstCluster clusters →
    ∀ x ∈ fileSectors (geometry m) clusters, m x = m' x

section Tables

variable {m : Medium} {fuel : Nat} {stack : Stack} {t t' u u' : DriveTables}

theorem DriveTables.ext_slots (hbits : u.diskBitmap = u'.diskBitmap)
    (hslots : ∀ s, u.slot s = u'.slot s) : u = u' := by
  have hdisk (n : Int) := hslots (.disk n)
  have hconfig := hslots .config
  simp only [DriveTables.slot, SlotRecord.mk.injEq] at hdisk hconfig
  cases u
  cases u'
  simp only [DriveTables.mk.injEq]
  exact ⟨hbits, funext fun n => (hdisk n).2.2, funext fun n => (hdisk n).1,
    funext fun n => (hdisk n).2.1, hconfig.1, hconfig.2.1, hconfig.2.2⟩

theorem initOn_unchecked {es : List DriveEntry} {s : Slot} (h : initOn m fuel t = some (0, t'))
    (hes : rootListed m fuel = some es) (hs : ¬ s.Checked) :
    t'.slot s = (t.scanned m es).slot s := by
  unfold initOn at h
  by_cases hsigned : isSigned (m 0) = true
  · rw [if_pos hsigned, hes] at h
    rcases Option.bind_eq_some_iff.mp h with ⟨es', hes', h⟩
    cases hes'
    rcases Option.bind_eq_some_iff.mp h with ⟨v, hdisks, h⟩
    rcases Option.bind_eq_some_iff.mp h with ⟨v', hconfig, h⟩
    cases h
    rw [(checkedConfig_judges hconfig).slot_of_ne s fun heq => hs (heq ▸ trivial)]
    refine (checkedDisks_judges List.nodup_range (fun i hi => List.mem_range.mp hi) hdisks).2.1 s ?_
    rintro i hi rfl
    have hlt : i < 16 := List.mem_range.mp hi
    exact hs ⟨Int.natCast_nonneg i, by omega⟩
  · rw [if_neg hsigned] at h
    cases h

theorem leaves_iff (hcache : stack.fat32.fat.offset = 0xffffffff) (r : Int × DriveTables) :
    Leaves m stack t r ↔ ∃ fuel, initOn m fuel t = some r := by
  constructor
  · rintro ⟨fuel, l, hl⟩
    exact ⟨fuel, initOn_of_reads (stack.coherent_of_invalid m hcache) hl⟩
  · rintro ⟨fuel, h⟩
    rcases initDisk_reads (stack.coherent_of_invalid m hcache) h with ⟨l, hl⟩
    exact ⟨fuel, l, hl⟩

theorem Lists.unique {es es' : List DriveEntry} (h : Lists m es) (h' : Lists m es') : es = es' := by
  rcases h with ⟨fuel, hes⟩
  rcases h' with ⟨fuel', hes'⟩
  exact rootListed_unique hes hes'

theorem Judged.exists_gaps {s : Slot} {p r : SlotRecord} {b : Bool} (h : Judged m s p r b)
    (hp : s.present p) : ∃ gaps, Gaps m p.cluster gaps := by
  cases h with
  | absent hnot => exact absurd hp hnot
  | gaps _ hgaps => exact ⟨true, hgaps⟩
  | good _ hgaps => exact ⟨false, hgaps⟩

/-- With a signed boot sector, what `initOn` leaves of each slot. -/
theorem initOn_leaves {r : Int} (hsigned : isSigned (m 0) = true) (h : initOn m fuel t = some (r, u)) :
    r = 0 ∧ (∀ j, 16 ≤ j → j ≠ 31 → u.diskBitmap.toNat.testBit j = false) ∧
      MountEnds m t ∧ ∀ es, Lists m es →
        (∀ s, s.Checked → Judged m s ((t.scanned m es).slot s) (u.slot s) (u.advertised s)) ∧
          ∀ s, ¬ s.Checked → u.slot s = (t.scanned m es).slot s := by
  have hr := initOn_signed hsigned h
  subst hr
  rcases initOn_judges h with ⟨-, es, hes, hjudged, hbits⟩
  refine ⟨rfl, hbits, ⟨es, ⟨fuel, hes⟩, fun s hs hp => ?_⟩, fun es' hes' => ?_⟩
  · exact (hjudged s hs).exists_gaps hp
  · cases hes'.unique ⟨fuel, hes⟩
    exact ⟨hjudged, fun s hs => initOn_unchecked h hes hs⟩

theorem MountEnds.returns (hsigned : isSigned (m 0) = true) (h : MountEnds m t) :
    ∃ fuel u, initOn m fuel t = some (0, u) := by
  rcases h with ⟨es, ⟨fuel, hes⟩, hgaps⟩
  rcases Option.map_eq_some_iff.mp hes with ⟨clusters, htrail, rfl⟩
  rcases initOn_returns hsigned (chain_of_trail htrail) rfl hgaps with ⟨fuel₀, hreturns⟩
  rcases hreturns fuel₀ (Nat.le_refl fuel₀) with ⟨u, hu⟩
  exact ⟨fuel₀, u, hu⟩

end Tables

section Media

variable {m m' : Medium} {t u u' : DriveTables}

theorem SameButReserved.geometry_eq (h : SameButReserved m m') : geometry m' = geometry m := by
  unfold geometry
  rw [h.boot]

/-- Slots that come out alike leave equal tables. -/
theorem eq_of_alike {es es' : List DriveEntry}
    (hbits : ∀ j, 16 ≤ j → j ≠ 31 → u.diskBitmap.toNat.testBit j = false)
    (hbits' : ∀ j, 16 ≤ j → j ≠ 31 → u'.diskBitmap.toNat.testBit j = false)
    (h : (∀ s, s.Checked → Judged m s ((t.scanned m es).slot s) (u.slot s) (u.advertised s)) ∧
      ∀ s, ¬ s.Checked → u.slot s = (t.scanned m es).slot s)
    (h' : (∀ s, s.Checked → Judged m' s ((t.scanned m' es').slot s) (u'.slot s) (u'.advertised s)) ∧
      ∀ s, ¬ s.Checked → u'.slot s = (t.scanned m' es').slot s)
    (halike : ∀ s, Alike m m' s ((t.scanned m es).slot s) ((t.scanned m' es').slot s)) :
    u = u' := by
  have hchecked : ∀ s, s.Checked → u.slot s = u'.slot s ∧ u.advertised s = u'.advertised s := by
    intro s hs
    rcases (halike s).1 hs with ⟨r, b, hj, hj'⟩
    rcases (h.1 s hs).unique hj with ⟨hr, hb⟩
    rcases (h'.1 s hs).unique hj' with ⟨hr', hb'⟩
    exact ⟨hr.trans hr'.symm, hb.trans hb'.symm⟩
  refine DriveTables.ext_slots ?_ fun s => ?_
  · exact (bitmap_eq_iff hbits hbits').mpr fun disk hid => (hchecked _ (slotOf_checked hid)).2
  · by_cases hs : s.Checked
    · exact (hchecked s hs).1
    · rw [h.2 s hs, h'.2 s hs, (halike s).2 hs]

/-- Media whose walks have the same outcome leave the same, in one direction. -/
theorem SameOutcome.initOn (hsigned : isSigned (m 0) = true) (hsigned' : isSigned (m' 0) = true)
    (h : SameOutcome m m' t) {fuel : Nat} {r : Int × DriveTables}
    (hleaves : Fs.initOn m fuel t = some r) : ∃ fuel, Fs.initOn m' fuel t = some r := by
  rcases r with ⟨r, u⟩
  rcases initOn_leaves hsigned hleaves with ⟨rfl, hbits, hends, hslots⟩
  rcases (h.1.mp hends).returns hsigned' with ⟨fuel', u', hu'⟩
  rcases initOn_leaves hsigned' hu' with ⟨-, hbits', hends', hslots'⟩
  rcases hends with ⟨es, hes, hgaps⟩
  rcases hends' with ⟨es', hes', -⟩
  have heq := eq_of_alike hbits hbits' (hslots es hes) (hslots' es' hes')
    (h.2 es es' hes hes' ⟨es, hes, hgaps⟩)
  exact ⟨fuel', heq ▸ hu'⟩

theorem Alike.symm {s : Slot} {p p' : SlotRecord} (h : Alike m m' s p p') : Alike m' m s p' p :=
  ⟨fun hs => by
    rcases h.1 hs with ⟨r, b, hj, hj'⟩
    exact ⟨r, b, hj', hj⟩, fun hs => (h.2 hs).symm⟩

theorem SameOutcome.symm (h : SameOutcome m m' t) : SameOutcome m' m t :=
  ⟨h.1.symm, fun es es' hes hes' hends s => (h.2 es' es hes' hes (h.1.mpr hends) s).symm⟩

/-- Media that leave the same have the same outcome. -/
theorem sameOutcome_of_initOn (hsigned : isSigned (m 0) = true) (hsigned' : isSigned (m' 0) = true)
    (h : ∀ r, (∃ fuel, initOn m fuel t = some r) ↔ ∃ fuel, initOn m' fuel t = some r) :
    SameOutcome m m' t := by
  refine ⟨⟨fun hends => ?_, fun hends => ?_⟩, fun es es' hes hes' hends s => ?_⟩
  · rcases hends.returns hsigned with ⟨fuel, u, hu⟩
    rcases (h _).mp ⟨fuel, hu⟩ with ⟨fuel', hu'⟩
    exact (initOn_leaves hsigned' hu').2.2.1
  · rcases hends.returns hsigned' with ⟨fuel, u, hu⟩
    rcases (h _).mpr ⟨fuel, hu⟩ with ⟨fuel', hu'⟩
    exact (initOn_leaves hsigned hu').2.2.1
  · rcases hends.returns hsigned with ⟨fuel, u, hu⟩
    rcases (h _).mp ⟨fuel, hu⟩ with ⟨fuel', hu'⟩
    have hslots := (initOn_leaves hsigned hu).2.2.2 es hes
    have hslots' := (initOn_leaves hsigned' hu').2.2.2 es' hes'
    refine ⟨fun hs => ⟨_, _, hslots.1 s hs, hslots'.1 s hs⟩, fun hs => ?_⟩
    rw [← hslots.2 s hs, ← hslots'.2 s hs]

section Links

/-- Two links alike but for their reserved bits are equal: a link has none set. -/
theorem inChain.eq_of_and_eq {e e' : UInt32} (he : inChain e) (he' : inChain e')
    (h : e &&& 0x0fffffff = e' &&& 0x0fffffff) : e = e' := by
  have hmask : (0x0fffffff : UInt32).toNat = 2 ^ 28 - 1 := rfl
  have hkept : ∀ {e : UInt32}, inChain e → (e &&& 0x0fffffff).toNat = e.toNat := by
    intro e he
    have hlt : e.toNat < 0x0ffffff0 := he.1
    rw [UInt32.toNat_and, hmask, Nat.and_two_pow_sub_one_eq_mod]
    exact Nat.mod_eq_of_lt (by omega)
  rw [← UInt32.toNat_inj, ← hkept he, ← hkept he', h]

variable {c : UInt32}

theorem SameButReserved.fatEntry_eq (hsame : SameButReserved m m')
    (he : inChain (fatEntry m (geometry m) c)) (he' : inChain (fatEntry m' (geometry m) c)) :
    fatEntry m (geometry m) c = fatEntry m' (geometry m) c := by
  refine he.eq_of_and_eq he' ?_
  unfold fatEntry
  by_cases hfat : InFats m (c / 128 + (geometry m).reservedSectorCount.toUInt32)
  · exact hsame.inside _ hfat _ (Nat.mod_lt _ (by decide))
  · rw [hsame.outside _ hfat]

section Chains

variable (hsame : SameButReserved m m')
  (hlinks : ∀ c', OnChain m (geometry m) c c' →
    (inChain (fatEntry m (geometry m) c') ↔ inChain (fatEntry m' (geometry m) c')))

include hsame hlinks

theorem trail_eq_of_links (fuel : Nat) :
    trail (fatStep m (geometry m)) fuel c = trail (fatStep m' (geometry m)) fuel c := by
  induction fuel generalizing c with
  | zero => rw [trail, trail]
  | succ fuel ih =>
    by_cases hc : inChain c
    · rw [trail_step (fatStep_inChain hc), trail_step (fatStep_inChain hc)]
      have hiff := hlinks c ⟨.refl, hc⟩
      by_cases hnext : inChain (fatEntry m (geometry m) c)
      · rw [ih fun c' hon => hlinks c' (OnChain.next hc hon), hsame.fatEntry_eq hnext (hiff.mp hnext)]
      · -- both chains end here
        cases fuel with
        | zero => rw [trail, trail]
        | succ fuel =>
          rw [trail_stop (fatStep_end hnext), trail_stop (fatStep_end fun h => hnext (hiff.mpr h))]
    · rw [trail_stop (fatStep_end hc), trail_stop (fatStep_end hc)]

theorem iterate_eq_of_links (fuel : Nat) (last : UInt32) :
    iterate (gapStep m (geometry m)) fuel (c, last) =
      iterate (gapStep m' (geometry m)) fuel (c, last) := by
  induction fuel generalizing c last with
  | zero => rw [iterate, iterate]
  | succ fuel ih =>
    by_cases hc : inChain c
    · cases hgap : gapInCluster (geometry m).sectorsPerCluster.toNat (getLba (geometry m) c) last with
      | none => rw [iterate_inr (gapStep_gap hc hgap), iterate_inr (gapStep_gap hc hgap)]
      | some last' =>
        rw [iterate_inl (gapStep_next hc hgap), iterate_inl (gapStep_next hc hgap)]
        have hiff := hlinks c ⟨.refl, hc⟩
        by_cases hnext : inChain (fatEntry m (geometry m) c)
        · rw [ih fun c' hon => hlinks c' (OnChain.next hc hon),
            hsame.fatEntry_eq hnext (hiff.mp hnext)]
        · -- both chains end here
          cases fuel with
          | zero => rw [iterate, iterate]
          | succ fuel =>
            rw [iterate_inr (gapStep_end hnext), iterate_inr (gapStep_end fun h => hnext (hiff.mpr h))]
    · rw [iterate_inr (gapStep_end hc), iterate_inr (gapStep_end hc)]

theorem gaps_iff_of_links (gaps : Bool) : Gaps m c gaps ↔ Gaps m' c gaps := by
  unfold Gaps Runs
  rw [hsame.geometry_eq]
  exact exists_congr fun fuel => by rw [iterate_eq_of_links hsame hlinks]

end Chains

variable (hsame : SameButReserved m m') (hlinks : SameLinks m m' t)

include hsame hlinks

theorem SameLinks.rootListed_eq (fuel : Nat) : rootListed m fuel = rootListed m' fuel := by
  unfold rootListed
  rw [hsame.geometry_eq, ← trail_eq_of_links hsame fun c hon => hlinks.links c (.inl hon)]
  cases htrail : trail (fatStep m (geometry m)) fuel (geometry m).rootDirectoryFirstCluster with
  | none => rw [Option.map_none, Option.map_none]
  | some clusters =>
    have hsectors := hlinks.root clusters (chain_of_trail htrail)
    have hlisted : listed m (fileSectors (geometry m) clusters) =
        listed m' (fileSectors (geometry m) clusters) := by
      unfold listed
      rw [List.flatMap_def, List.flatMap_def]
      exact congrArg List.flatten (List.map_congr_left fun x hx => by rw [hsectors x hx])
    rw [Option.map_some, Option.map_some, hlisted]

theorem SameLinks.lists_iff (es : List DriveEntry) : Lists m es ↔ Lists m' es :=
  exists_congr fun fuel => by rw [hlinks.rootListed_eq hsame]

theorem SameLinks.gaps_iff {es : List DriveEntry} (hes : Lists m es) {s : Slot} (hs : s.Checked)
    (hp : s.present ((t.scanned m es).slot s)) (gaps : Bool) :
    Gaps m ((t.scanned m es).slot s).cluster gaps ↔ Gaps m' ((t.scanned m es).slot s).cluster gaps :=
  gaps_iff_of_links hsame (fun c hon => hlinks.links c (.inr ⟨es, s, hes, hs, hp, hon⟩)) gaps

theorem SameLinks.mountEnds_iff : MountEnds m t ↔ MountEnds m' t := by
  have hscanned (es : List DriveEntry) : t.scanned m' es = t.scanned m es := by
    unfold DriveTables.scanned
    rw [hsame.geometry_eq]
  constructor
  · rintro ⟨es, hes, hends⟩
    refine ⟨es, (hlinks.lists_iff hsame es).mp hes, fun s hs hp => ?_⟩
    rw [hscanned] at hp ⊢
    rcases hends s hs hp with ⟨gaps, hgaps⟩
    exact ⟨gaps, (hlinks.gaps_iff hsame hes hs hp gaps).mp hgaps⟩
  · rintro ⟨es, hes', hends⟩
    have hes := (hlinks.lists_iff hsame es).mpr hes'
    refine ⟨es, hes, fun s hs hp => ?_⟩
    rcases hends s hs (hscanned es ▸ hp) with ⟨gaps, hgaps⟩
    rw [hscanned] at hgaps
    exact ⟨gaps, (hlinks.gaps_iff hsame hes hs hp gaps).mpr hgaps⟩

/-- If no link is taken for an end on one medium only, the walks have the same outcome. -/
theorem SameLinks.sameOutcome : SameOutcome m m' t := by
  refine ⟨hlinks.mountEnds_iff hsame, fun es es' hes hes' hends s => ?_⟩
  have heq : es = es' := hes.unique ((hlinks.lists_iff hsame es').mpr hes')
  subst heq
  have hscanned : t.scanned m' es = t.scanned m es := by
    unfold DriveTables.scanned
    rw [hsame.geometry_eq]
  rw [hscanned]
  refine ⟨fun hs => ?_, fun _ => rfl⟩
  rcases hends with ⟨es₁, hes₁, hgaps⟩
  have heq := hes₁.unique hes
  subst heq
  by_cases hp : s.present ((t.scanned m es₁).slot s)
  · rcases hgaps s hs hp with ⟨gaps, hg⟩
    have hg' := (hlinks.gaps_iff hsame hes₁ hs hp gaps).mp hg
    cases gaps with
    | true => exact ⟨_, _, .gaps hp hg, .gaps hp hg'⟩
    | false => exact ⟨_, _, .good hp hg, .good hp hg'⟩
  · exact ⟨_, _, .absent hp, .absent hp⟩

end Links

/-- From equal tables and with an invalid cache, `init_disk` leaves the same on two media that differ
in reserved bits alone exactly if the boot sector is unsigned or the walks have the same outcome; and
they have if no link that the mount meets is taken for the end of its chain on one of them only. `DISKx`
names beyond A .. P are taken to store in no variable used here. -/
theorem leaves_same_iff (hsame : SameButReserved m m') {stack stack' : Stack}
    (hcache : stack.fat32.fat.offset = 0xffffffff) (hcache' : stack'.fat32.fat.offset = 0xffffffff)
    (t : DriveTables) :
    ((∀ r, Leaves m stack t r ↔ Leaves m' stack' t r) ↔
        (isSigned (m 0) = true → SameOutcome m m' t)) ∧
      (SameLinks m m' t → SameOutcome m m' t) := by
  refine ⟨?_, fun hlinks => hlinks.sameOutcome hsame⟩
  have hinit : (∀ r, Leaves m stack t r ↔ Leaves m' stack' t r) ↔
      ∀ r, (∃ fuel, initOn m fuel t = some r) ↔ ∃ fuel, initOn m' fuel t = some r := by
    refine forall_congr' fun r => ?_
    rw [leaves_iff hcache, leaves_iff hcache']
  rw [hinit]
  constructor
  · intro h hsigned
    exact sameOutcome_of_initOn hsigned (hsame.boot ▸ hsigned) h
  · intro h r
    by_cases hsigned : isSigned (m 0) = true
    · have hsigned' : isSigned (m' 0) = true := hsame.boot ▸ hsigned
      have houtcome := h hsigned
      exact ⟨fun ⟨_, hr⟩ => houtcome.initOn hsigned hsigned' hr,
        fun ⟨_, hr⟩ => houtcome.symm.initOn hsigned' hsigned hr⟩
    · have hno : isSigned (m 0) = false := Bool.eq_false_iff.mpr hsigned
      have hno' : isSigned (m' 0) = false := hsame.boot ▸ hno
      simp only [initOn_unsigned hno, initOn_unsigned hno']

/-- A stick with drive A at cluster 3 and the given FAT. -/
def fatStick (fat : Sector) : Medium := fun sector =>
  if sector = 0 then stickBoot
  else if sector = 1 ∨ sector = 2 then fat
  else if sector = 3 then stickDir else .zero

theorem fatStick_geometry (fat : Sector) : geometry (fatStick fat) = ⟨1, 1, 1, 2⟩ ∧
    numberOfFats (fatStick fat) = 2 := by
  constructor
  · show bootGeometry stickBoot = _
    decide +kernel
  · show (stickBoot.get 0x10).toNat = 2
    decide +kernel

theorem fatStick_of_ne {fat fat' : Sector} {sector : UInt32} (h : ¬ (sector = 1 ∨ sector = 2)) :
    fatStick fat sector = fatStick fat' sector := by
  unfold fatStick
  rw [if_neg h, if_neg h]

theorem fatStick_fat {fat : Sector} {sector : UInt32} (h : sector = 1 ∨ sector = 2) :
    fatStick fat sector = fat := by
  rcases h with rfl | rfl <;> rfl

theorem inFats_fatStick {fat : Sector} {sector : UInt32} :
    InFats (fatStick fat) sector ↔ sector = 1 ∨ sector = 2 := by
  unfold InFats
  rw [(fatStick_geometry fat).1, (fatStick_geometry fat).2, ← UInt32.toNat_inj, ← UInt32.toNat_inj]
  simp only [UInt16.reduceToNat, UInt32.reduceToNat]
  omega

theorem get_set_of_ne {s : Sector} {p a : Nat} (v : UInt8) (h : p ≠ a) :
    (s.set p v).get a = s.get a := by
  unfold Sector.get Sector.set
  rw [List.getD_eq_getElem?_getD, List.getD_eq_getElem?_getD, List.getElem?_set_ne h]

/-- The top byte of entry `k` is no part of another entry. -/
theorem le32_set_of_ne {s : Sector} {k i : Nat} (v : UInt8) (h : i ≠ k) :
    (s.set (4 * k + 3) v).le32 (4 * i) = s.le32 (4 * i) := by
  unfold Sector.le32
  rw [get_set_of_ne v (by omega), get_set_of_ne v (by omega), get_set_of_ne v (by omega),
    get_set_of_ne v (by omega)]

/-- FATs that differ in the reserved bits of entry `k`. -/
theorem sameButReserved_set {fat : Sector} {k : Nat} {v v' : UInt8}
    (h : (fat.set (4 * k + 3) v).le32 (4 * k) &&& 0x0fffffff =
      (fat.set (4 * k + 3) v').le32 (4 * k) &&& 0x0fffffff) :
    SameButReserved (fatStick (fat.set (4 * k + 3) v)) (fatStick (fat.set (4 * k + 3) v')) where
  boot := rfl
  outside _ hout := fatStick_of_ne fun hin => hout (inFats_fatStick.mpr hin)
  inside _ hin i _ := by
    rw [fatStick_fat (inFats_fatStick.mp hin), fatStick_fat (inFats_fatStick.mp hin)]
    by_cases hi : i = k
    · rw [hi, h]
    · rw [le32_set_of_ne v hi, le32_set_of_ne v' hi]

/-- A FAT in which cluster 4 is free, with the given reserved bits. -/
def freeFat (top : UInt8) : Sector := stickFat.set 19 top

/-- The media differ in the reserved bits of a free cluster, and leave the same. -/
theorem leaves_same_iff_free :
    SameButReserved (fatStick (freeFat 0xf0)) (fatStick (freeFat 0)) ∧
      ∀ r, Leaves (fatStick (freeFat 0xf0)) invalidStack .zero r ↔
        Leaves (fatStick (freeFat 0)) invalidStack .zero r := by
  have hsame : SameButReserved (fatStick (freeFat 0xf0)) (fatStick (freeFat 0)) :=
    sameButReserved_set (k := 4) (by decide +kernel)
  have hfree : ¬ inChain ((freeFat 0xf0).le32 16) ∧ ¬ inChain ((freeFat 0).le32 16) := by
    decide +kernel
  have hwords (i : Nat) :
      inChain ((freeFat 0xf0).le32 (4 * i)) ↔ inChain ((freeFat 0).le32 (4 * i)) := by
    by_cases hi : i = 4
    · rw [hi]
      exact iff_of_false hfree.1 hfree.2
    · unfold freeFat
      rw [le32_set_of_ne (k := 4) 0xf0 hi, le32_set_of_ne (k := 4) 0 hi]
  have hlinks : SameLinks (fatStick (freeFat 0xf0)) (fatStick (freeFat 0)) .zero := by
    refine ⟨fun c _ => ?_, fun clusters hchain x hx => ?_⟩
    · unfold fatEntry
      rw [(fatStick_geometry _).1]
      show inChain ((fatStick _ (c / 128 + 1)).le32 _) ↔ inChain ((fatStick _ (c / 128 + 1)).le32 _)
      by_cases hfat : c / 128 + 1 = 1 ∨ c / 128 + 1 = 2
      · rw [fatStick_fat hfat, fatStick_fat hfat]
        exact hwords _
      · rw [fatStick_of_ne hfat]
    · have hroot := chain_of_trail (show trail (fatStep (fatStick (freeFat 0xf0))
        (geometry (fatStick (freeFat 0xf0)))) 2 2 = some [2] by decide +kernel)
      have hsectors : fileSectors (geometry (fatStick (freeFat 0xf0))) [2] = [3] := by
        decide +kernel
      rw [hchain.unique hroot, hsectors, List.mem_singleton] at hx
      rw [hx]
      exact fatStick_of_ne (by decide)
  have hcache : invalidStack.fat32.fat.offset = 0xffffffff := rfl
  rcases leaves_same_iff hsame hcache hcache .zero with ⟨hiff, hsuffices⟩
  exact ⟨hsame, hiff.mpr fun _ => hsuffices hlinks⟩

/-- A FAT in which cluster 5 follows cluster 3, with the given reserved bits. -/
def gapFat (top : UInt8) : Sector :=
  (Sector.zero.setFrom 8 [0xff, 0xff, 0xff, 0x0f, 0x05, 0x00, 0x00, 0x00, 0x00, 0x00, 0x00, 0x00,
    0xff, 0xff, 0xff, 0x0f]).set 15 top

/-- The reserved bits hide the gap in drive A. -/
theorem reserved_bits_hide_gap : ¬ ∀ (m m' : Medium) (stack stack' : Stack) (t : DriveTables),
    SameButReserved m m' → stack.fat32.fat.offset = 0xffffffff →
      stack'.fat32.fat.offset = 0xffffffff → ∀ r, Leaves m stack t r ↔ Leaves m' stack' t r := by
  intro h
  have hsame : SameButReserved (fatStick (gapFat 0xf0)) (fatStick (gapFat 0)) :=
    sameButReserved_set (k := 3) (by decide +kernel)
  have hkept : (initOn (fatStick (gapFat 0xf0)) 2 .zero).map (fun x => (x.1, x.2.diskBitmap)) =
      some (0, 1) := by
    decide +kernel
  have hgap : (initOn (fatStick (gapFat 0)) 3 .zero).map (fun x => (x.1, x.2.diskBitmap)) =
      some (0, 0) := by
    decide +kernel
  rcases Option.map_eq_some_iff.mp hkept with ⟨⟨r, u⟩, hu, hout⟩
  rcases Option.map_eq_some_iff.mp hgap with ⟨⟨r', u'⟩, hu', hout'⟩
  simp only [Prod.mk.injEq] at hout hout'
  have hleaves := (h _ _ invalidStack invalidStack .zero hsame rfl rfl (r, u)).mp
    ((leaves_iff rfl _).mpr ⟨2, hu⟩)
  rcases (leaves_iff rfl _).mp hleaves with ⟨fuel, hfuel⟩
  have hsigned : isSigned (fatStick (gapFat 0) 0) = true := by decide +kernel
  rcases (initOn_leaves hsigned hu').2.2.1 with ⟨es, hes, -⟩
  have hjudged := ((initOn_leaves hsigned hu').2.2.2 es hes).1 (.disk 0) ⟨by decide, by decide⟩
  have hjudged' := ((initOn_leaves hsigned hfuel).2.2.2 es hes).1 (.disk 0) ⟨by decide, by decide⟩
  have hbit := (hjudged.unique hjudged').2
  unfold DriveTables.advertised at hbit
  rw [hout.2, hout'.2] at hbit
  exact absurd hbit (by decide)

end Media

end LptStore.Fs
