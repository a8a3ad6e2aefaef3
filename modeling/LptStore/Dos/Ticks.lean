import LptStore.Lib.Counter

/-!
# The clock of the driver

`get_ticks` asks the BIOS for the ticks since midnight, which it gets in two registers of 16 bits, and
adds a base that grows by a day whenever the sum is less than at the last call. The upper register is
shifted out of an `int` of 16 bits, so that the sum goes down every 65536 ticks, not at midnight. And the
base is added again to the sum that it is already in: from the second call after it has grown on, the day
counts twice.
-/

namespace LptStore.Dos

open LptStore.Lib

section Clock

/-- The ticks of a day: the BIOS counts from 0 to 0x1800AF. -/
def day : Nat := 0x1800B0

/-- What `INT 0x1A` with `AH` 0 leaves in `CX` and `DX`. -/
def biosTicks (instant : Nat) : UInt16 × UInt16 :=
  (UInt16.ofNat (instant % day / 65536), UInt16.ofNat (instant % day))

/-- The static variables of `get_ticks`. -/
structure Timer where
  timebase : UInt32
  lastticks : UInt32
  deriving DecidableEq, Repr

/-- As the driver is loaded. -/
def Timer.loaded : Timer := ⟨0, 0⟩

/-- `cx << count` for an `unsigned` of 16 bits. -/
def shiftLeft16 (cx : UInt16) (count : Nat) : UInt16 := ⟨cx.toBitVec <<< count⟩

/-- `get_ticks` (`LPTSTORE.C:550-564`), from the registers on. -/
def getTicks (registers : UInt16 × UInt16) (t : Timer) : UInt32 × Timer :=
  let ticks := t.timebase + (shiftLeft16 registers.1 16 ||| registers.2).toUInt32
  let timebase := if ticks < t.lastticks then t.timebase + 0x1800B0 else t.timebase
  (timebase + ticks, ⟨timebase, ticks⟩)

/-- Calls of `get_ticks` at these instants, in ticks since some midnight. -/
def readings (t : Timer) : List Nat → List Reading
  | [] => []
  | v :: vs =>
      ⟨v, (getTicks (biosTicks v) t).1.toNat⟩ :: readings (getTicks (biosTicks v) t).2 vs

/-- Less than a day later. -/
def Within (v v' : Nat) : Prop := v ≤ v' ∧ v' < v + day

/-- The same number in `CX`. -/
def SameHigh (v v' : Nat) : Prop := v % day / 65536 = v' % day / 65536

/-- Before which of the calls after the first a midnight has passed. -/
def midnights (vs : List Nat) : List Bool :=
  vs.zipWith (fun v v' => decide (v / day < v' / day)) vs.tail

/-- Such calls come in pairs, each pair without a call in between. There are no more than `n` pairs, and a
last one may have its second call to come. -/
def Paired : Nat → List Bool → Prop
  | _, [] => True
  | n, false :: ms => Paired n ms
  | _, [true] => True
  | n, true :: m :: ms => 0 < n ∧ m = true ∧ Paired (n - 1) ms

instance (v v' : Nat) : Decidable (Within v v') := inferInstanceAs (Decidable (_ ∧ _))

instance (v v' : Nat) : Decidable (SameHigh v v') := inferInstanceAs (Decidable (_ = _))

instance decidablePaired : ∀ n ms, Decidable (Paired n ms)
  | _, [] => .isTrue trivial
  | n, false :: ms => decidablePaired n ms
  | _, [true] => .isTrue trivial
  | n, true :: _ :: ms =>
      have := decidablePaired (n - 1) ms
      inferInstanceAs (Decidable (_ ∧ _ ∧ _))

end Clock

section Steps

variable {t : Timer} {v v' j : Nat} {raised : Bool}

/-- What is left of a reading. -/
def low (v : Nat) : Nat := v % day % 65536

theorem low_lt (v : Nat) : low v < 65536 := Nat.mod_lt _ (by decide)

theorem assembled_eq (v : Nat) :
    (shiftLeft16 (biosTicks v).1 16 ||| (biosTicks v).2).toUInt32.toNat = low v := by
  have hshift : shiftLeft16 (biosTicks v).1 16 = 0 := by
    apply UInt16.toBitVec_inj.mp
    exact BitVec.shiftLeft_eq_zero (Nat.le_refl 16)
  rw [hshift, UInt16.zero_or, UInt16.toNat_toUInt32]
  exact UInt16.toNat_ofNat'

/-- The value of the last call. -/
def Timer.value (t : Timer) : UInt32 := t.timebase + t.lastticks

theorem getTicks_value (registers : UInt16 × UInt16) (t : Timer) :
    (getTicks registers t).1 = (getTicks registers t).2.value := rfl

theorem getTicks_lastticks (v : Nat) (t : Timer) :
    (getTicks (biosTicks v) t).2.lastticks.toNat = (t.timebase.toNat + low v) % 2 ^ 32 := by
  rw [← assembled_eq, ← UInt32.toNat_add]
  rfl

theorem getTicks_timebase (v : Nat) (t : Timer) :
    (getTicks (biosTicks v) t).2.timebase.toNat =
      (t.timebase.toNat + if (t.timebase.toNat + low v) % 2 ^ 32 < t.lastticks.toNat
        then day else 0) % 2 ^ 32 := by
  rw [← getTicks_lastticks]
  show (if (getTicks (biosTicks v) t).2.lastticks < t.lastticks then t.timebase + 0x1800B0
    else t.timebase).toNat = _
  by_cases hless : (getTicks (biosTicks v) t).2.lastticks < t.lastticks
  · rw [if_pos hless, if_pos (UInt32.lt_iff_toNat_lt.mp hless)]
    exact UInt32.toNat_add _ _
  · rw [if_neg hless, if_neg (mt UInt32.lt_iff_toNat_lt.mpr hless)]
    exact (Nat.mod_eq_of_lt t.timebase.toNat_lt).symm

/-- After a call at the instant `v`: `lastticks` has the base of `j` days, and this call has added a day
to the base or not. -/
structure After (t : Timer) (v j : Nat) (raised : Bool) : Prop where
  timebase : t.timebase.toNat = (j + raised.toNat) * day % 2 ^ 32
  lastticks : t.lastticks.toNat = j * day + low v

theorem After.value (h : After t v j raised) :
    (t.value.toNat : Int) ≡ (2 * j + raised.toNat) * day + low v [ZMOD 2 ^ 32] := by
  unfold Timer.value Int.ModEq
  rw [UInt32.toNat_add, h.timebase, h.lastticks]
  push_cast
  unfold day
  cases raised <;> simp <;> omega

/-- The base of so many days fits in 32 bits, and so does the sum. -/
theorem days_fit (hj : j ≤ 2 ^ 32 / day) (v : Nat) : j * day + low v < 2 ^ 32 := by
  have hlow := low_lt v
  have hdays : j ≤ 2730 := hj
  unfold day
  omega

theorem After.base (h : After t v j raised) (hj : j + raised.toNat ≤ 2 ^ 32 / day) :
    t.timebase.toNat = (j + raised.toNat) * day := by
  rw [h.timebase]
  exact Nat.mod_eq_of_lt (Nat.lt_of_le_of_lt (Nat.le_add_right _ (low v)) (days_fit hj v))

theorem After.sum (h : After t v j raised) (hj : j + raised.toNat ≤ 2 ^ 32 / day) (v' : Nat) :
    (t.timebase.toNat + low v') % 2 ^ 32 = (j + raised.toNat) * day + low v' := by
  rw [h.base hj]
  exact Nat.mod_eq_of_lt (days_fit hj v')

/-- As long as the base has not grown in the last call, the sum goes down with the lower register. -/
theorem After.level (h : After t v j false) (hj : j ≤ 2 ^ 32 / day) (v' : Nat) :
    After (getTicks (biosTicks v') t).2 v' j (decide (low v' < low v)) := by
  have hsum := h.sum hj v'
  rw [Bool.toNat_false, Nat.add_zero] at hsum
  constructor
  · rw [getTicks_timebase, hsum, h.base hj, h.lastticks, Bool.toNat_false, Nat.add_zero]
    by_cases hless : low v' < low v
    · rw [if_pos (by omega), decide_eq_true hless, Bool.toNat_true, Nat.succ_mul]
    · rw [if_neg (by omega), decide_eq_false hless, Bool.toNat_false, Nat.add_zero, Nat.add_zero]
  · rw [getTicks_lastticks, hsum]

/-- In the call after one in which it has, the sum is greater. -/
theorem After.rises (h : After t v j true) (hj : j + 1 ≤ 2 ^ 32 / day) (v' : Nat) :
    After (getTicks (biosTicks v') t).2 v' (j + 1) false := by
  have hlow := low_lt v
  have hsum := h.sum hj v'
  have hnot : ¬ (j + 1) * day + low v' < j * day + low v := by unfold day; omega
  rw [Bool.toNat_true] at hsum
  constructor
  · rw [getTicks_timebase, hsum, h.base hj, h.lastticks, if_neg hnot, Bool.toNat_true,
      Bool.toNat_false, Nat.add_zero, Nat.add_zero]
  · rw [getTicks_lastticks, hsum]

/-- When the base has passed 2^32, the sum is less in the next call, and the base grows again. -/
theorem After.overflow (h : After t v (2 ^ 32 / day) true) (v' : Nat) :
    ((getTicks (biosTicks v') t).2.value.toNat : Int) - t.value.toNat ≡
      2 * day + low v' - low v [ZMOD 2 ^ 32] := by
  have hlow' := low_lt v'
  have hbase : t.timebase.toNat = 2731 * day % 2 ^ 32 := h.timebase
  have hlast : t.lastticks.toNat = 2730 * day + low v := h.lastticks
  unfold Timer.value Int.ModEq
  rw [UInt32.toNat_add, UInt32.toNat_add, getTicks_timebase, getTicks_lastticks, hbase, hlast,
    if_pos (by unfold day; omega)]
  push_cast
  unfold day
  omega

/-- Two values with `n` days of base between them differ by the time between the calls exactly if the
upper registers are the same, and a midnight has passed if `n` is 1 and none if it is 0. -/
theorem measures_iff {x y n : Nat} (h : Within v v') (hn : n ≤ 2)
    (hxy : (y : Int) - x ≡ n * day + low v' - low v [ZMOD 2 ^ 32]) :
    Reading.Measures (2 ^ 32) ⟨v, x⟩ ⟨v', y⟩ ↔
      n = (if v / day < v' / day then 1 else 0) ∧ SameHigh v v' := by
  have hadvance := counter_advance h.1 h.2
  have hsplit := Nat.div_add_mod (v % day) 65536
  have hsplit' := Nat.div_add_mod (v' % day) 65536
  have hhigh : v % day / 65536 < 25 := by unfold day; omega
  have hhigh' : v' % day / 65536 < 25 := by unfold day; omega
  have hmeasures : Reading.Measures (2 ^ 32) ⟨v, x⟩ ⟨v', y⟩ ↔
      (n * day + low v' - low v : Int) ≡ v' - v [ZMOD 2 ^ 32] :=
    ⟨fun hm => hxy.symm.trans hm, fun hm => hxy.trans hm⟩
  rw [hmeasures, Int.modEq_iff_dvd]
  unfold SameHigh low
  generalize v % day / 65536 = high at *
  generalize v' % day / 65536 = high' at *
  unfold day at *
  split_ifs at hadvance ⊢ <;> omega

/-- With the same upper register the lower one goes down over midnight, and only there. -/
theorem midnight_iff (h : Within v v') (hhigh : SameHigh v v') :
    low v' < low v ↔ v / day < v' / day := by
  have hadvance := counter_advance h.1 h.2
  have hsplit := Nat.div_add_mod (v % day) 65536
  have hsplit' := Nat.div_add_mod (v' % day) 65536
  have hlt := h.2
  unfold SameHigh at hhigh
  rw [hhigh] at hsplit
  unfold low
  split_ifs at hadvance with hmidnight
  · exact iff_of_true (by omega) hmidnight
  · exact iff_of_false (by have hle := h.1; omega) hmidnight

end Steps

section Runs

variable {t : Timer} {v j n : Nat} {raised : Bool} {vs : List Nat}

theorem loaded_after (v : Nat) : After (getTicks (biosTicks v) .loaded).2 v 0 false := by
  have hlow := low_lt v
  have hzero : Timer.loaded.timebase.toNat = 0 := rfl
  have hsum : (Timer.loaded.timebase.toNat + low v) % 2 ^ 32 = low v := by
    rw [hzero, Nat.zero_add]
    exact Nat.mod_eq_of_lt (by omega)
  constructor
  · have hnot : ¬ low v < Timer.loaded.lastticks.toNat := Nat.not_lt_zero _
    rw [getTicks_timebase, hsum, if_neg hnot]
    rfl
  · rw [getTicks_lastticks, hsum, Nat.zero_mul, Nat.zero_add]

theorem After.measures {t' : Timer} {v' j' m : Nat} {raised' : Bool} (h : After t v j raised)
    (h' : After t' v' j' raised') (hwithin : Within v v')
    (hm : 2 * j' + raised'.toNat = 2 * j + raised.toNat + m) (hle : m ≤ 2) :
    Reading.Measures (2 ^ 32) ⟨v, t.value.toNat⟩ ⟨v', t'.value.toNat⟩ ↔
      m = (if v / day < v' / day then 1 else 0) ∧ SameHigh v v' := by
  have hsub := h'.value.sub h.value
  have hm' : (2 * j' + raised'.toNat : Int) = 2 * j + raised.toNat + m := by exact_mod_cast hm
  have hdays : ((2 * j' + raised'.toNat) * day + low v' -
      ((2 * j + raised.toNat) * day + low v) : Int) = m * day + low v' - low v := by
    rw [hm']
    unfold day
    omega
  rw [hdays] at hsub
  exact measures_iff hwithin hle hsub

/-- The calls after one at the instant `v`, by induction on these; `n` more days fit in the sum. -/
theorem chain_iff (hafter : After t v j raised) (hdays : j + n = 2 ^ 32 / day)
    (hvs : (v :: vs).IsChain Within) :
    (⟨v, t.value.toNat⟩ :: readings t vs).IsChain (Reading.Measures (2 ^ 32)) ↔
      (v :: vs).IsChain SameHigh ∧
        Paired n (bif raised then true :: midnights (v :: vs) else midnights (v :: vs)) := by
  induction vs generalizing t v j n raised with
  | nil =>
    refine iff_of_true (.singleton _) ⟨.singleton _, ?_⟩
    cases raised <;> trivial
  | cons v' vs ih =>
    rcases List.isChain_cons_cons.mp hvs with ⟨hwithin, hvs⟩
    have hmidnights : midnights (v :: v' :: vs) =
        decide (v / day < v' / day) :: midnights (v' :: vs) := rfl
    rw [readings, getTicks_value, List.isChain_cons_cons, List.isChain_cons_cons, hmidnights]
    cases raised with
    | false =>
      have hnext := hafter.level (hdays ▸ Nat.le_add_right j n) v'
      have hmeasures := hafter.measures hnext hwithin rfl (Nat.le_succ_of_le (Bool.toNat_le _))
      rw [hmeasures, ih hnext hdays hvs]
      by_cases hhigh : SameHigh v v'
      · have hmidnight := midnight_iff hwithin hhigh
        by_cases h : v / day < v' / day
        · simp [hmidnight, hhigh, h]
        · simp [hmidnight, hhigh, h, Paired]
      · simp [hhigh]
    | true =>
      cases n with
      | zero =>
        -- the sum overflows: two more days are counted, whether or not one has ended
        have hj : j = 2 ^ 32 / day := hdays
        subst hj
        have hmeasures := measures_iff hwithin (Nat.le_refl 2) (hafter.overflow v')
        rw [hmeasures]
        split_ifs <;> simp [Paired]
      | succ n =>
        have hnext := hafter.rises (by omega) v'
        have hmeasures := hafter.measures (m := 1) hnext hwithin (by simp; omega) (by decide)
        have hrest : (j + 1) + n = 2 ^ 32 / day := by omega
        rw [hmeasures, ih hnext hrest hvs]
        by_cases h : v / day < v' / day
        · simp [h, Paired, and_assoc]
        · simp [h, Paired]

/-- With less than a day between two calls, any two values of `get_ticks` differ by the ticks between
the calls exactly if the upper register was the same at all calls, and the calls after a midnight come
in pairs, of which there are not more than fit in 32 bits. -/
theorem elapsed_iff {vs : List Nat} (h : vs.IsChain Within) :
    (readings .loaded vs).Pairwise (Reading.Measures (2 ^ 32)) ↔
      vs.IsChain SameHigh ∧ Paired (2 ^ 32 / day) (midnights vs) := by
  rw [Reading.pairwise_measures_iff]
  cases vs with
  | nil => exact iff_of_true .nil ⟨.nil, trivial⟩
  | cons v vs =>
    rw [readings, getTicks_value]
    exact chain_iff (loaded_after v) (Nat.zero_add _) h

/-- Three calls in the first hour of a day. -/
theorem elapsed_iff_hour :
    (readings .loaded [1000, 2000, 11000]).Pairwise (Reading.Measures (2 ^ 32)) := by
  have hwithin : [1000, 2000, 11000].IsChain Within := by decide
  exact (elapsed_iff hwithin).mpr ⟨by decide, by decide⟩

/-- One tick between two calls, and 1507505 between their values. -/
theorem elapsed_lost :
    ¬ ∀ vs : List Nat, vs.IsChain Within →
      (readings .loaded vs).Pairwise (Reading.Measures (2 ^ 32)) := by
  intro h
  have hwithin : [65535, 65536].IsChain Within := by decide
  have hpair := h _ hwithin
  have hvalues : readings .loaded [65535, 65536] = [⟨65535, 65535⟩, ⟨65536, 0x1800B0⟩] := by decide
  rw [hvalues] at hpair
  exact absurd hpair (by decide)

end Runs

end LptStore.Dos
