import LptStore.Fs.Init

/-!
# The judgement of a slot

Each slot that `init_disk` looks at is absent, has a gap and is taken out, or is kept with its bit set.
Which of the three depends on its record after the scan and on the medium only, and the checks of
the other slots leave it alone.
-/

namespace LptStore.Fs

open LptStore.Lib Function

/-- The slots that `init_disk` checks. -/
def Slot.Checked : Slot → Prop
  | .disk n => 0 ≤ n ∧ n < 16
  | .config => True

/-- The bit of a slot in `disk_bitmap`; `CONFIG_BLOCK` is bit 31. -/
def Slot.bit : Slot → Nat
  | .disk n => n.toNat
  | .config => 31

/-- The slot's bit is set. -/
def DriveTables.advertised (t : DriveTables) (s : Slot) : Bool := t.diskBitmap.toNat.testBit s.bit

/-- Whether `init_disk` looks at the file's chain: it goes by the LBA of a drive and by the cluster of
the configuration file. -/
def Slot.present : Slot → SlotRecord → Prop
  | .disk _, r => r.lba ≠ 0
  | .config, r => r.cluster ≠ 0

instance (s : Slot) (r : SlotRecord) : Decidable (s.present r) := by
  cases s <;> exact inferInstanceAs (Decidable (_ ≠ _))

/-- What is left of a file with a gap. -/
def Slot.clear : Slot → SlotRecord → SlotRecord
  | .disk _, r => { r with lba := 0, cluster := 0 }
  | .config, r => { r with cluster := 0 }

/-- The record of a slot, what the check makes of it, and whether it sets the bit. -/
inductive Judged (m : Medium) (s : Slot) (r : SlotRecord) : SlotRecord → Bool → Prop
  | absent : ¬ s.present r → Judged m s r r false
  | gaps : s.present r → Gaps m r.cluster true → Judged m s r (s.clear r) false
  | good : s.present r → Gaps m r.cluster false → Judged m s r r true

theorem Judged.unique {m : Medium} {s : Slot} {r r₁ r₂ : SlotRecord} {b₁ b₂ : Bool}
    (h₁ : Judged m s r r₁ b₁) (h₂ : Judged m s r r₂ b₂) : r₁ = r₂ ∧ b₁ = b₂ := by
  cases h₁ with
  | absent hp =>
    cases h₂ with
    | absent _ => exact ⟨rfl, rfl⟩
    | gaps hp' _ => exact absurd hp' hp
    | good hp' _ => exact absurd hp' hp
  | gaps hp hg =>
    cases h₂ with
    | absent hp' => exact absurd hp hp'
    | gaps _ _ => exact ⟨rfl, rfl⟩
    | good _ hg' => exact absurd (Runs.unique hg hg') (by decide)
  | good hp hg =>
    cases h₂ with
    | absent hp' => exact absurd hp hp'
    | gaps _ hg' => exact absurd (Runs.unique hg hg') (by decide)
    | good _ _ => exact ⟨rfl, rfl⟩

section Bits

theorem testBit_or_shift (b : UInt32) {i : Nat} (hi : i < 32) (j : Nat) :
    (b ||| 1 <<< UInt32.ofNat i).toNat.testBit j = (b.toNat.testBit j || decide (i = j)) := by
  have hpow : (1 <<< UInt32.ofNat i : UInt32).toNat = 2 ^ i := by
    have hlt : 2 ^ i < 2 ^ 32 := Nat.pow_lt_pow_right (by decide) hi
    have hmod : i % 32 = i := Nat.mod_eq_of_lt hi
    simp only [UInt32.toNat_shiftLeft, UInt32.toNat_ofNat', UInt32.reduceToNat, Nat.shiftLeft_eq,
      Nat.one_mul]
    simp only [Nat.reducePow, Nat.reduceDvd, Nat.mod_mod_of_dvd] at hlt ⊢
    rw [hmod, Nat.mod_eq_of_lt hlt]
  rw [UInt32.toNat_or, Nat.testBit_or, hpow, Nat.testBit_two_pow]

theorem configBlock_eq : CONFIG_BLOCK = 1 <<< UInt32.ofNat 31 := by decide

end Bits

section Checks

variable {m : Medium} {fuel : Nat} {t t' : DriveTables}

/-- A check leaves the other slots alone. -/
structure OnlyJudges (m : Medium) (s : Slot) (t t' : DriveTables) : Prop where
  judged : t.advertised s = false → Judged m s (t.slot s) (t'.slot s) (t'.advertised s)
  slot_of_ne : ∀ s', s' ≠ s → t'.slot s' = t.slot s'
  bit_of_ne : ∀ j, j ≠ s.bit → t'.diskBitmap.toNat.testBit j = t.diskBitmap.toNat.testBit j

theorem OnlyJudges.absent {s : Slot} (h : ¬ s.present (t.slot s)) : OnlyJudges m s t t where
  judged hclear := hclear ▸ .absent h
  slot_of_ne _ _ := rfl
  bit_of_ne _ _ := rfl

theorem OnlyJudges.gaps {s : Slot} (hbits : t'.diskBitmap = t.diskBitmap)
    (hset : t' = { t.setSlot s (s.clear (t.slot s)) with diskBitmap := t'.diskBitmap })
    (hp : s.present (t.slot s)) (hg : Gaps m (t.slot s).cluster true) : OnlyJudges m s t t' := by
  have hadv : t'.advertised s = t.advertised s := by
    unfold DriveTables.advertised
    rw [hbits]
  have hslot : ∀ s', t'.slot s' = (t.setSlot s (s.clear (t.slot s))).slot s' := by
    intro s'
    rw [hset]
    cases s' <;> rfl
  refine ⟨fun hclear => ?_, fun s' hne => ?_, fun j _ => by rw [hbits]⟩
  · rw [hadv, hclear, hslot, DriveTables.slot_setSlot]
    exact .gaps hp hg
  · rw [hslot, DriveTables.slot_setSlot_of_ne _ _ hne]

theorem OnlyJudges.good {s : Slot} {i : Nat} (hi : i = s.bit) (hi' : i < 32)
    (hset : t' = { t with diskBitmap := t.diskBitmap ||| 1 <<< UInt32.ofNat i })
    (hp : s.present (t.slot s)) (hg : Gaps m (t.slot s).cluster false) : OnlyJudges m s t t' := by
  have hbit : ∀ j, t'.diskBitmap.toNat.testBit j =
      (t.diskBitmap.toNat.testBit j || decide (i = j)) := by
    intro j
    rw [hset]
    exact testBit_or_shift _ hi' _
  have hslot : ∀ s', t'.slot s' = t.slot s' := by
    intro s'
    rw [hset]
    cases s' <;> rfl
  refine ⟨fun _ => ?_, fun s' _ => hslot s', fun j hne => ?_⟩
  · unfold DriveTables.advertised
    rw [hbit, hslot, decide_eq_true hi, Bool.or_true]
    exact .good hp hg
  · have hij : i ≠ j := fun heq => hne (heq.symm.trans hi)
    rw [hbit, decide_eq_false hij, Bool.or_false]

theorem checkedDisk_judges {i : Nat} (hi : i < 16) (h : checkedDisk m fuel t i = some t') :
    OnlyJudges m (.disk i) t t' := by
  unfold checkedDisk at h
  by_cases hp : t.diskLba i ≠ 0
  · rw [if_pos hp] at h
    rcases Option.map_eq_some_iff.mp h with ⟨gaps, hgaps, rfl⟩
    cases gaps with
    | true =>
      refine .gaps rfl ?_ hp ⟨fuel, hgaps⟩
      simp [DriveTables.judgeDisk, DriveTables.setSlot, Slot.clear, DriveTables.slot]
    | false => exact .good (Int.toNat_natCast i).symm (by omega) rfl hp ⟨fuel, hgaps⟩
  · rw [if_neg hp] at h
    cases h
    exact .absent hp

theorem checkedConfig_judges (h : checkedConfig m fuel t = some t') :
    OnlyJudges m .config t t' := by
  unfold checkedConfig at h
  by_cases hp : t.cfgCluster ≠ 0
  · rw [if_pos hp] at h
    rcases Option.map_eq_some_iff.mp h with ⟨gaps, hgaps, rfl⟩
    cases gaps with
    | true => exact .gaps rfl rfl hp ⟨fuel, hgaps⟩
    | false =>
      have hset : t.judgeConfig false =
          { t with diskBitmap := t.diskBitmap ||| 1 <<< UInt32.ofNat 31 } := by
        rw [← configBlock_eq]
        rfl
      exact .good rfl (by decide) hset hp ⟨fuel, hgaps⟩
  · rw [if_neg hp] at h
    cases h
    exact .absent hp

/-- After the loop over the drives those it went over are judged, and the others as they were. -/
theorem checkedDisks_judges {is : List Nat} (hnodup : is.Nodup) (hlt : ∀ i ∈ is, i < 16)
    (h : is.foldlM (checkedDisk m fuel) t = some t') :
    (∀ i ∈ is, t.advertised (.disk i) = false →
      Judged m (.disk i) (t.slot (.disk i)) (t'.slot (.disk i)) (t'.advertised (.disk i))) ∧
    (∀ s, (∀ i ∈ is, s ≠ .disk i) → t'.slot s = t.slot s) ∧
    ∀ j, j ∉ is → t'.diskBitmap.toNat.testBit j = t.diskBitmap.toNat.testBit j := by
  induction is generalizing t with
  | nil =>
    cases h
    exact ⟨fun i hi => absurd hi (List.not_mem_nil), fun _ _ => rfl, fun _ _ => rfl⟩
  | cons i is ih =>
    rw [List.foldlM_cons] at h
    rcases Option.bind_eq_some_iff.mp h with ⟨u, hu, hrest⟩
    rcases List.nodup_cons.mp hnodup with ⟨hnot, hnodup⟩
    rcases List.forall_mem_cons.mp hlt with ⟨hi, hlt⟩
    have hfirst := checkedDisk_judges hi hu
    rcases ih hnodup hlt hrest with ⟨hjudged, hslot, hbit⟩
    have hlater : ∀ k ∈ is, Slot.disk i ≠ .disk k := by
      intro k hk heq
      have hik : i = k := Int.ofNat.inj (Slot.disk.inj heq)
      exact hnot (hik ▸ hk)
    have hclears : ∀ k, Slot.bit (.disk (k : Nat)) = k := Int.toNat_natCast
    refine ⟨?_, ?_, ?_⟩
    · intro k hk hclear
      rcases List.mem_cons.mp hk with rfl | hk
      · have hadv : t'.advertised (.disk k) = u.advertised (.disk k) :=
          hbit _ (by rw [hclears]; exact hnot)
        rw [hslot _ hlater, hadv]
        exact hfirst.judged hclear
      · have hne : k ≠ i := fun heq => hnot (heq ▸ hk)
        have hadv : u.advertised (.disk k) = t.advertised (.disk k) :=
          hfirst.bit_of_ne _ (by rw [hclears, hclears]; exact hne)
        rw [← hfirst.slot_of_ne _ (hlater k hk).symm]
        exact hjudged k hk (by rw [hadv, hclear])
    · intro s hs
      rcases List.forall_mem_cons.mp hs with ⟨hsi, hs⟩
      rw [hslot s hs, hfirst.slot_of_ne s hsi]
    · intro j hj
      have hji : j ≠ i := fun heq => hj (heq ▸ List.mem_cons_self)
      have hj : j ∉ is := fun hmem => hj (List.mem_cons_of_mem _ hmem)
      rw [hbit j hj, hfirst.bit_of_ne j (by rw [hclears]; exact hji)]

end Checks

section Init

variable {m : Medium} {fuel : Nat} {t t' : DriveTables}

theorem advertised_scanned (es : List DriveEntry) (s : Slot) :
    (t.scanned m es).advertised s = false := by
  unfold DriveTables.advertised DriveTables.scanned
  rw [bitmap_foldl_enter]
  exact Nat.zero_testBit _

/-- A slot after the scan: what the last entry naming it says, or what it held before. -/
theorem slot_scanned (es : List DriveEntry) (s : Slot) :
    (t.scanned m es).slot s =
      ((lastEntry s es).map (DriveEntry.toRecord (geometry m))).getD (t.slot s) := by
  unfold DriveTables.scanned
  rw [slot_foldl_enter]
  cases s <;> rfl

/-- `init_disk` returns 0 when the boot sector is signed, with every slot judged and no other bit
set. -/
theorem initOn_judges (h : initOn m fuel t = some (0, t')) :
    isSigned (m 0) = true ∧ ∃ es, rootListed m fuel = some es ∧
      (∀ s, s.Checked →
        Judged m s ((t.scanned m es).slot s) (t'.slot s) (t'.advertised s)) ∧
      ∀ j, 16 ≤ j → j ≠ 31 → t'.diskBitmap.toNat.testBit j = false := by
  unfold initOn at h
  by_cases hsigned : isSigned (m 0) = true
  · rw [if_pos hsigned] at h
    rcases Option.bind_eq_some_iff.mp h with ⟨es, hes, h⟩
    rcases Option.bind_eq_some_iff.mp h with ⟨u, hdisks, h⟩
    rcases Option.bind_eq_some_iff.mp h with ⟨u', hconfig, h⟩
    cases h
    rcases checkedDisks_judges List.nodup_range (fun i hi => List.mem_range.mp hi) hdisks with
      ⟨hjudged, hslot, hbit⟩
    have hcfg := checkedConfig_judges hconfig
    have hnot : ∀ j, 16 ≤ j → j ∉ List.range NR_DISKS := by
      intro j hj hmem
      exact absurd (List.mem_range.mp hmem) (Nat.not_lt.mpr hj)
    refine ⟨hsigned, es, hes, fun s hs => ?_, fun j hj hne => ?_⟩
    · cases s with
      | disk n =>
        rcases hs with ⟨hlo, hhi⟩
        rcases Int.eq_ofNat_of_zero_le hlo with ⟨i, rfl⟩
        have hi : i < 16 := by omega
        have hadv : t'.advertised (.disk i) = u.advertised (.disk i) := by
          refine hcfg.bit_of_ne _ ?_
          show (i : Int).toNat ≠ 31
          omega
        have hne : Slot.disk i ≠ .config := fun heq => by cases heq
        rw [hcfg.slot_of_ne _ hne, hadv]
        exact hjudged i (List.mem_range.mpr hi) (advertised_scanned es _)
      | config =>
        have hne : ∀ i ∈ List.range NR_DISKS, Slot.config ≠ .disk i := fun _ _ h => by cases h
        have hadv : u.advertised .config = (t.scanned m es).advertised .config :=
          hbit _ (hnot 31 (by decide))
        rw [← hslot _ hne]
        refine hcfg.judged ?_
        rw [hadv]
        exact advertised_scanned es _
    · rw [hcfg.bit_of_ne j hne, hbit j (hnot j hj)]
      unfold DriveTables.scanned
      rw [bitmap_foldl_enter]
      exact Nat.zero_testBit _
  · rw [if_neg hsigned] at h
    cases h

/-- The loop over the drives ends if the loop over each present drive's chain does. -/
theorem checkedDisks_returns {is : List Nat} (hnodup : is.Nodup) (hlt : ∀ i ∈ is, i < 16)
    (h : ∀ i ∈ is, (Slot.disk i).present (t.slot (.disk i)) →
      (iterate (gapStep m (geometry m)) fuel ((t.slot (.disk i)).cluster, 0)).isSome) :
    ∃ t', is.foldlM (checkedDisk m fuel) t = some t' := by
  induction is generalizing t with
  | nil => exact ⟨t, rfl⟩
  | cons i is ih =>
    rcases List.nodup_cons.mp hnodup with ⟨hnot, hnodup⟩
    rcases List.forall_mem_cons.mp hlt with ⟨hi, hlt⟩
    rcases List.forall_mem_cons.mp h with ⟨hfirst, h⟩
    have hround : ∃ u, checkedDisk m fuel t i = some u := by
      unfold checkedDisk
      by_cases hp : t.diskLba i ≠ 0
      · rcases Option.isSome_iff_exists.mp (hfirst hp) with ⟨gaps, hgaps⟩
        rw [if_pos hp]
        exact ⟨t.judgeDisk i gaps, Option.map_eq_some_iff.mpr ⟨gaps, hgaps, rfl⟩⟩
      · exact ⟨t, if_neg hp⟩
    rcases hround with ⟨u, hu⟩
    have honly := checkedDisk_judges hi hu
    have hrest : ∀ k ∈ is, (Slot.disk k).present (u.slot (.disk k)) →
        (iterate (gapStep m (geometry m)) fuel ((u.slot (.disk k)).cluster, 0)).isSome := by
      intro k hk
      have hne : Slot.disk k ≠ .disk i := by
        intro heq
        have hki : k = i := Int.ofNat.inj (Slot.disk.inj heq)
        exact hnot (hki ▸ hk)
      rw [honly.slot_of_ne _ hne]
      exact h k hk
    rcases ih hnodup hlt hrest with ⟨t', ht'⟩
    exact ⟨t', by rw [List.foldlM_cons, hu]; exact ht'⟩

theorem checkedConfig_returns (h : Slot.config.present (t.slot .config) →
      (iterate (gapStep m (geometry m)) fuel ((t.slot .config).cluster, 0)).isSome) :
    ∃ t', checkedConfig m fuel t = some t' := by
  unfold checkedConfig
  by_cases hp : t.cfgCluster ≠ 0
  · rcases Option.isSome_iff_exists.mp (h hp) with ⟨gaps, hgaps⟩
    rw [if_pos hp]
    exact ⟨t.judgeConfig gaps, Option.map_eq_some_iff.mpr ⟨gaps, hgaps, rfl⟩⟩
  · exact ⟨t, if_neg hp⟩

/-- The slots that `init_disk` checks, in its order. -/
def checkedSlots : List Slot := (List.range NR_DISKS).map (fun i : Nat => Slot.disk i) ++ [.config]

theorem disk_mem_checkedSlots {i : Nat} (h : i ∈ List.range NR_DISKS) :
    Slot.disk i ∈ checkedSlots :=
  List.mem_append_left _ (List.mem_map.mpr ⟨i, h, rfl⟩)

theorem config_mem_checkedSlots : Slot.config ∈ checkedSlots :=
  List.mem_append_right _ (List.mem_singleton.mpr rfl)

theorem checked_of_mem {s : Slot} (h : s ∈ checkedSlots) : s.Checked := by
  rcases List.mem_append.mp h with h | h
  · rcases List.mem_map.mp h with ⟨i, hi, rfl⟩
    have hlt : i < 16 := List.mem_range.mp hi
    exact ⟨Int.natCast_nonneg i, by omega⟩
  · rw [List.mem_singleton.mp h]
    trivial

theorem mem_checkedSlots {s : Slot} (h : s.Checked) : s ∈ checkedSlots := by
  cases s with
  | disk n =>
    rcases Int.eq_ofNat_of_zero_le h.1 with ⟨i, rfl⟩
    have hi : i < 16 := Int.ofNat_lt.mp h.2
    exact disk_mem_checkedSlots (List.mem_range.mpr hi)
  | config => exact config_mem_checkedSlots

/-- One bound for the loops over the chains of all present files. -/
theorem exists_gaps_bound {u : DriveTables}
    (h : ∀ s, s.Checked → s.present (u.slot s) → ∃ gaps, Gaps m (u.slot s).cluster gaps) :
    ∃ n₀, ∀ fuel, n₀ ≤ fuel → ∀ s ∈ checkedSlots, s.present (u.slot s) →
      (iterate (gapStep m (geometry m)) fuel ((u.slot s).cluster, 0)).isSome := by
  let starts := (checkedSlots.filter fun s => s.present (u.slot s)).map fun s =>
    ((u.slot s).cluster, (0 : UInt32))
  have hstarts : ∀ a ∈ starts, ∃ gaps, Runs (gapStep m (geometry m)) a gaps := by
    intro a ha
    rcases List.mem_map.mp ha with ⟨s, hs, rfl⟩
    rcases List.mem_filter.mp hs with ⟨hs, hp⟩
    exact h s (checked_of_mem hs) (of_decide_eq_true hp)
  rcases exists_bound hstarts with ⟨n₀, hn₀⟩
  refine ⟨n₀, ?_⟩
  intro fuel hfuel s hs hp
  apply hn₀ fuel hfuel
  exact List.mem_map.mpr ⟨s, List.mem_filter.mpr ⟨hs, decide_eq_true hp⟩, rfl⟩

/-- `init_disk` returns 0 if the root directory ends and the loops over the present files' chains do. -/
theorem initOn_returns {clusters : List UInt32} {u : DriveTables} (hsigned : isSigned (m 0) = true)
    (hroot : Chain (fatStep m (geometry m)) (geometry m).rootDirectoryFirstCluster clusters)
    (hu : t.scanned m (listed m (fileSectors (geometry m) clusters)) = u)
    (hgaps : ∀ s, s.Checked → s.present (u.slot s) → ∃ gaps, Gaps m (u.slot s).cluster gaps) :
    ∃ fuel₀, ∀ fuel, fuel₀ ≤ fuel → ∃ t', initOn m fuel t = some (0, t') := by
  rcases exists_gaps_bound hgaps with ⟨n₀, hn₀⟩
  refine ⟨max n₀ (clusters.length + 1), ?_⟩
  intro fuel hfuel
  have hsome := hn₀ fuel (Nat.le_trans (Nat.le_max_left _ _) hfuel)
  have htrail := hroot.trail (Nat.lt_of_lt_of_le (Nat.lt_succ_self _)
    (Nat.le_trans (Nat.le_max_right _ _) hfuel))
  have hlt : ∀ i ∈ List.range NR_DISKS, i < 16 := fun i hi => List.mem_range.mp hi
  have hdisks : ∃ v, (List.range NR_DISKS).foldlM (checkedDisk m fuel) u = some v :=
    checkedDisks_returns List.nodup_range hlt fun i hi => hsome _ (disk_mem_checkedSlots hi)
  rcases hdisks with ⟨v, hv⟩
  -- the loop over the drives leaves the configuration file's record alone
  have hslot : v.slot .config = u.slot .config :=
    (checkedDisks_judges List.nodup_range hlt hv).2.1 .config fun _ _ heq => by cases heq
  have hconfig : ∃ t', checkedConfig m fuel v = some t' := by
    apply checkedConfig_returns
    rw [hslot]
    exact hsome .config config_mem_checkedSlots
  rcases hconfig with ⟨t', ht'⟩
  refine ⟨t', ?_⟩
  unfold initOn rootListed
  rw [if_pos hsigned, htrail]
  simp only [Option.map_some, Option.bind_eq_bind, Option.bind_some]
  rw [hu, hv, Option.bind_some, ht']
  rfl

/-- With the signature `init_disk` returns nothing but 0. -/
theorem initOn_signed {r : Int} (hsigned : isSigned (m 0) = true)
    (h : initOn m fuel t = some (r, t')) : r = 0 := by
  unfold initOn at h
  rw [if_pos hsigned] at h
  rcases Option.bind_eq_some_iff.mp h with ⟨es, -, h⟩
  rcases Option.bind_eq_some_iff.mp h with ⟨u, -, h⟩
  rcases Option.bind_eq_some_iff.mp h with ⟨u', -, h⟩
  cases h
  rfl

/-- Without the signature `init_disk` returns 1 and only clears the bitmap. -/
theorem initOn_unsigned (h : isSigned (m 0) = false) :
    initOn m fuel t = some (1, { t with diskBitmap := 0 }) := by
  unfold initOn
  rw [if_neg (by rw [h]; decide)]

end Init

end LptStore.Fs
