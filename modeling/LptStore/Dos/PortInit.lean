import LptStore.Dos.Options
import LptStore.Dos.Ticks

/-!
# The port and the wait of `LPTInit`

`LPTInit` takes the base of the port from a table, at an index that `parse_options` may have changed. Then
it drops the strobe and waits, for the stick to give up whatever it is in: for 36 ticks, which is two
seconds. But the ticks are those of `get_ticks`, and when they start again the wait is over.
-/

namespace LptStore.Dos

open LptStore.Lib

section Base

/-- `portbases` (`LPTSTORE.C:39`). -/
def portbases : List UInt16 := [0x3BC, 0x378, 0x278, 0x3E8, 0x2E8]

/-- `LPTBASE`; no value is an access outside the table. -/
def lptBase (o : Settings) : Option UInt16 := portbases[o.portbase.toNat]?

/-- The index is inside the table. -/
def InTable (o : Settings) : Prop := o.portbase.toNat < portbases.length

/-- Whatever comes of a round, the variables are so. -/
abbrev Keeps (P : Settings → Prop) : (List UInt8 × Settings) ⊕ Option (Bool × Settings) → Prop :=
  Sum.elim (fun s => P s.2) fun r => ∀ x ∈ r, P x.2

variable {o : Settings}

theorem nextOption_inTable (p : List UInt8) (h : InTable o) : Keeps InTable (nextOption p o) := by
  unfold nextOption
  cases spanwhite p with
  | none => exact nofun
  | some p => exact h

theorem parseLetter_inTable (p : List UInt8) (h : InTable o) : Keeps InTable (parseLetter o p) := by
  have hfalse : Keeps InTable (.inr (some (false, o))) := by
    intro x hx
    cases hx
    exact h
  cases p with
  | nil => exact nofun
  | cons ch p =>
    simp only [parseLetter]
    split_ifs
    · exact nextOption_inTable p h
    · cases optionValue p with
      | none => exact nofun
      | some value =>
        cases value with
        | none => exact hfalse
        | some value =>
          obtain ⟨temp, p⟩ := value
          simp only
          split_ifs with hrange
          · exact nextOption_inTable p h
          · -- from 1 to 5 on the line, from 0 to 4 in the variable
            apply nextOption_inTable
            simp only [not_or, UInt16.not_lt] at hrange
            obtain ⟨hlo, hhi⟩ := hrange
            rw [UInt16.le_iff_toNat_le] at hlo hhi
            have hone : (1 : UInt16).toNat = 1 := rfl
            have hfive : (5 : UInt16).toNat = 5 := rfl
            have hsub : (temp - 1).toNat = temp.toNat - 1 := UInt16.toNat_sub_of_le _ _ hlo
            show (temp - 1).toUInt8.toNat < 5
            rw [UInt16.toNat_toUInt8, hsub]
            omega
    · exact hfalse

theorem parseOption_inTable (s : List UInt8 × Settings) (h : InTable s.2) :
    Keeps InTable (parseOption s) := by
  obtain ⟨p, o⟩ := s
  have hover : ∀ accepted, Keeps InTable (.inr (some (accepted, o))) := by
    intro accepted x hx
    cases hx
    exact h
  cases p with
  | nil => exact nofun
  | cons ch p =>
    simp only [parseOption]
    split_ifs
    · exact hover true
    · cases spanwhite (ch :: p) with
      | none => exact nofun
      | some p =>
        cases p with
        | nil => exact nofun
        | cons ch p =>
          simp only
          split_ifs
          · exact hover false
          · exact parseLetter_inTable p h

/-- Whatever is on the line of CONFIG.SYS, accepted or not, and however far the parser gets: the port that
`LPTInit` takes is one of the table. -/
theorem port_in_table {n : Nat} {p : List UInt8} {accepted : Bool} {o' : Settings}
    (hparse : parseOptions n p o = some (some (accepted, o'))) (h : InTable o) :
    ∃ base ∈ portbases, lptBase o' = some base := by
  have hin : InTable o' := by
    unfold parseOptions at hparse
    cases hstart : (skip isName p).bind spanwhite with
    | none =>
      rw [hstart] at hparse
      cases hparse
    | some p' =>
      rw [hstart] at hparse
      have hkeeps := iterate_invariant parseOption_inTable hparse (s := (p', o)) h
      exact hkeeps _ rfl
  exact ⟨portbases[o'.portbase.toNat], List.getElem_mem hin, List.getElem?_eq_getElem hin⟩

/-- The third port, from ` /B=3`. -/
theorem port_in_table_third :
    parseOptions 3 [blank, slash, capitalB, equals, 0x33, 0x0d] ⟨false, 1⟩ =
        some (some (true, ⟨false, 2⟩)) ∧
      ∃ base ∈ portbases, lptBase ⟨false, 2⟩ = some base := by
  have hparse : parseOptions 3 [blank, slash, capitalB, equals, 0x33, 0x0d] ⟨false, 1⟩ =
      some (some (true, ⟨false, 2⟩)) := by decide
  have hin : InTable ⟨false, 1⟩ := show 1 < 5 by decide
  exact ⟨hparse, port_in_table hparse hin⟩

end Base

section Wait

/-- The loop `while (get_ticks() < limit);`, its calls at these instants: the instant of the last call, if
they do not run out before. -/
def waitTicks (limit : UInt32) : List Nat → Timer → Option Nat
  | [], _ => none
  | v :: vs, t =>
      let (ticks, t) := getTicks (biosTicks v) t
      if ticks < limit then waitTicks limit vs t else some v

/-- The wait of `LPTInit` (`LPTSTORE.C:575-576`), its first call at the instant `v`. -/
def lptInitWait (v : Nat) (vs : List Nat) (t : Timer) : Option Nat :=
  let (timeNow, t) := getTicks (biosTicks v) t
  waitTicks (timeNow + 36) vs t

theorem waitTicks_cons (limit : UInt32) (v : Nat) (vs : List Nat) (t : Timer) :
    waitTicks limit (v :: vs) t =
      if (getTicks (biosTicks v) t).2.value < limit
      then waitTicks limit vs (getTicks (biosTicks v) t).2 else some v := rfl

/-- Neither a midnight nor a multiple of 65536 ticks of the day is between. -/
def SameRound (v v' : Nat) : Prop := v / day = v' / day ∧ SameHigh v v'

instance (v v' : Nat) : Decidable (SameRound v v') := inferInstanceAs (Decidable (_ ∧ _))

variable {t : Timer} {v₀ v v' : Nat} {vs : List Nat}

/-- Between two calls less than 176 ticks apart, which is what the last round of a day has, the ticks go
down if a new round begins, and only then. -/
theorem low_round (hle : v ≤ v') (hlt : v' < v + 176) :
    (SameRound v v' → low v' + v = low v + v') ∧ (¬ SameRound v v' → low v' < low v) := by
  have hday : v' < v + day := Nat.lt_trans hlt (Nat.add_lt_add_left (by decide) v)
  have hadvance := counter_advance hle hday
  have hsplit := Nat.div_add_mod (v % day) 65536
  have hsplit' := Nat.div_add_mod (v' % day) 65536
  have hmono : v / day ≤ v' / day := Nat.div_le_div_right hle
  have hin : v % day < day := Nat.mod_lt v (by decide)
  have hhigh : v % day / 65536 < 25 := by unfold day; omega
  have hmod := Nat.mod_lt (v' % day) (show 65536 > 0 by decide)
  unfold SameRound SameHigh low
  generalize v / day = q at *
  generalize v' / day = q' at *
  generalize v % day / 65536 = high at *
  generalize v' % day / 65536 = high' at *
  unfold day at *
  split_ifs at hadvance with hmidnight
  · refine ⟨fun hsame => absurd hsame.1 hmidnight.ne, fun _ => ?_⟩
    omega
  · refine ⟨fun hsame => ?_, fun hnew => ?_⟩
    · obtain ⟨-, rfl⟩ := hsame
      omega
    · have hne : high ≠ high' := fun heq => hnew ⟨by omega, heq⟩
      omega

/-- The value of a call before the base has grown, and of the one with which it does. -/
theorem After.toNat_value {raised : Bool} (h : After t v 0 raised) :
    t.value.toNat = raised.toNat * day + low v := by
  have hlow := low_lt v
  unfold Timer.value
  rw [UInt32.toNat_add, h.timebase, h.lastticks]
  unfold day
  cases raised <;> simp <;> omega

/-- The wait ends where 36 ticks have passed, or where a new round has begun. -/
def waitOver (v₀ v : Nat) : Bool := v₀ + 36 ≤ v ∨ ¬ SameRound v₀ v

theorem SameRound.trans {v'' : Nat} (h : SameRound v v') : SameRound v v'' ↔ SameRound v' v'' := by
  unfold SameRound SameHigh
  rw [h.1, h.2]

/-- The loop, by induction on its calls, as long as it is in the round of the first one. -/
theorem waitTicks_eq (hafter : After t v 0 false) (hsame : SameRound v₀ v)
    (hlow : low v + v₀ = low v₀ + v) {limit : UInt32} (hlimit : limit.toNat = low v₀ + 36)
    (hvs : (v :: vs).IsChain fun v v' => v ≤ v' ∧ v' < v + 176) :
    waitTicks limit vs t = vs.find? (waitOver v₀) := by
  induction vs generalizing t v with
  | nil => rfl
  | cons v' vs ih =>
    obtain ⟨⟨hle, hlt⟩, hrest⟩ := List.isChain_cons_cons.mp hvs
    obtain ⟨hkeeps, hnew⟩ := low_round hle hlt
    have hnext := hafter.level (Nat.zero_le _) v'
    have hvalue := hnext.toNat_value
    rw [waitTicks_cons, List.find?_cons]
    by_cases hround : SameRound v v'
    · have hv' := hkeeps hround
      have hnot : ¬ low v' < low v := by omega
      rw [decide_eq_false hnot] at hnext hvalue
      rw [Bool.toNat_false, Nat.zero_mul, Nat.zero_add] at hvalue
      have hsame' : SameRound v₀ v' := hsame.trans.mpr hround
      by_cases hover : v₀ + 36 ≤ v'
      · have hnotless : ¬ (getTicks (biosTicks v') t).2.value < limit := by
          rw [UInt32.lt_iff_toNat_lt, hvalue, hlimit]
          omega
        simp [waitOver, hover, hnotless]
      · have hless : (getTicks (biosTicks v') t).2.value < limit := by
          rw [UInt32.lt_iff_toNat_lt, hvalue, hlimit]
          omega
        simp only [waitOver, hover, hsame', hless, not_true_eq_false, or_self, decide_false, if_true]
        exact ih hnext hsame' (by omega) hrest
    · have hless := hnew hround
      rw [decide_eq_true hless] at hvalue
      rw [Bool.toNat_true, Nat.one_mul] at hvalue
      have hnotless : ¬ (getTicks (biosTicks v') t).2.value < limit := by
        have hlow₀ := low_lt v₀
        rw [UInt32.lt_iff_toNat_lt, hvalue, hlimit]
        unfold day
        omega
      have hout : ¬ SameRound v₀ v' := fun hsame' => hround (hsame.trans.mp hsame')
      simp [waitOver, hout, hnotless]

/-- With the calls less than ten seconds apart, `LPTInit` waits until the first of them that comes 36
ticks or more after it began, or in whose round it did not begin, and no longer. -/
theorem init_waits (hvs : (v₀ :: vs).IsChain fun v v' => v ≤ v' ∧ v' < v + 176) :
    lptInitWait v₀ vs .loaded = vs.find? (waitOver v₀) := by
  have hafter := loaded_after v₀
  have hvalue := hafter.toNat_value
  rw [Bool.toNat_false, Nat.zero_mul, Nat.zero_add] at hvalue
  have hlimit : ((getTicks (biosTicks v₀) .loaded).1 + 36).toNat = low v₀ + 36 := by
    have hlow := low_lt v₀
    rw [getTicks_value, UInt32.toNat_add, hvalue]
    exact Nat.mod_eq_of_lt (by simp; omega)
  exact waitTicks_eq hafter ⟨rfl, rfl⟩ rfl hlimit hvs

/-- Two seconds, and two ticks before the round ends. -/
theorem init_waits_hour :
    lptInitWait 1000 [1010, 1030, 1036, 1040] .loaded = some 1036 ∧
      lptInitWait 65534 [65535, 65536] .loaded = some 65536 := by
  have hwhole : [1000, 1010, 1030, 1036, 1040].IsChain fun v v' => v ≤ v' ∧ v' < v + 176 := by decide
  have hshort : [65534, 65535, 65536].IsChain fun v v' => v ≤ v' ∧ v' < v + 176 := by decide
  exact ⟨(init_waits hwhole).trans (by decide), (init_waits hshort).trans (by decide)⟩

end Wait

end LptStore.Dos
