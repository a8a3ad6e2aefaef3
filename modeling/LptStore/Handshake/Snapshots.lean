import Mathlib.Data.Option.Basic
import LptStore.Handshake.Phases

/-!
# The pins that a received byte depends on

`gpio_get_all` returns all pins of the chip, and `lptcomms_readlpt` picks five of them. Four are masked
out of the word; the last is what the shift leaves, and with it come the pins above. The runs of
`lptcomms_readbytes` are over a list of samples, each with what the clock says after it.
-/

namespace LptStore.Handshake

open LptStore.Lib

section Samples

/-- A word from `gpio_get_all`, and whether `time_us_64()` is still before the end of the wait when it
is asked for after that. -/
structure Sample where
  word : UInt32
  inTime : Bool

namespace Sample

/-- The level of a pin. -/
def pin (s : Sample) (i : Nat) : Bool := s.word.toBitVec.getLsbD i

/-- The five pins of the link are the same, and so is the clock. -/
structure Agrees (s s' : Sample) : Prop where
  pin21 : s.pin 21 = s'.pin 21
  pin22 : s.pin 22 = s'.pin 22
  pin26 : s.pin 26 = s'.pin 26
  pin27 : s.pin 27 = s'.pin 27
  pin28 : s.pin 28 = s'.pin 28
  inTime : s.inTime = s'.inTime

/-- Each of the three bits above GPIO 28 is the same, or the data pin to which it is added is high. The
chip has no GPIO 30 and 31. -/
structure Covered (s s' : Sample) : Prop where
  bit29 : s.pin 27 = true ∨ s.pin 29 = s'.pin 29
  bit30 : s.pin 26 = true ∨ s.pin 30 = s'.pin 30
  bit31 : s.pin 22 = true ∨ s.pin 31 = s'.pin 31

end Sample

variable {s s' : Sample}

/-- The strobe is GPIO 21. -/
theorem readlpt_strobe_pin (s : Sample) :
    readlpt s.word &&& 0x10 = if s.pin 21 then 0x10 else 0x00 := by
  refine byte_ext fun i hi => ?_
  have hpin : s.pin 21 = s.word.toBitVec[21] := rfl
  rw [hpin]
  cases h21 : s.word.toBitVec[21] <;> interval_cases i <;> simp [readlpt, h21]

/-- The four bits of a nibble. -/
def Sample.nibble (s : Sample) (i : Nat) : Bool :=
  match i with
  | 0 => s.pin 28
  | 1 => s.pin 29 || s.pin 27
  | 2 => s.pin 30 || s.pin 26
  | 3 => s.pin 31 || s.pin 22
  | _ => false

theorem readlpt_nibble (s : Sample) (i : Nat) (hi : i < 8) :
    (readlpt s.word &&& 0xf).toBitVec[i] = s.nibble i := by
  unfold Sample.nibble Sample.pin readlpt
  interval_cases i <;> simp

/-- An added bit does not show exactly if it is the same on both sides or covered. -/
theorem or_eq_or_iff {x x' d : Bool} : (x || d) = (x' || d) ↔ d = true ∨ x = x' := by
  cases d <;> simp

/-- The byte of two words, the upper nibble first. -/
def joined (c c' : UInt8) : UInt8 := (c &&& 0xf) <<< 4 ||| (c' &&& 0xf)

theorem joined_low (c c' : UInt8) : joined c c' &&& 0xf = c' &&& 0xf := by
  refine byte_ext fun i hi => ?_
  interval_cases i <;> simp [joined]

theorem joined_high (c c' : UInt8) : joined c c' >>> 4 = c &&& 0xf := by
  refine byte_ext fun i hi => ?_
  interval_cases i <;> simp [joined]

theorem joined_inj {x y x' y' : UInt8} :
    joined x y = joined x' y' ↔ x &&& 0xf = x' &&& 0xf ∧ y &&& 0xf = y' &&& 0xf := by
  constructor
  · intro h
    constructor
    · rw [← joined_high x y, h, joined_high]
    · rw [← joined_low x y, h, joined_low]
  · rintro ⟨hx, hy⟩
    rw [joined, hx, hy, joined]

/-- What `lptcomms_readbyte` makes of its two data samples. -/
def byteOf (s₁ s₂ : Sample) : UInt8 := joined (readlpt s₁.word) (readlpt s₂.word)

/-- Two samples that agree on the link give the same nibble exactly if no other bit shows. -/
theorem nibble_eq_iff (h : s.Agrees s') :
    readlpt s.word &&& 0xf = readlpt s'.word &&& 0xf ↔ s.Covered s' := by
  have hbits : readlpt s.word &&& 0xf = readlpt s'.word &&& 0xf ↔
      ∀ i < 8, s.nibble i = s'.nibble i := by
    rw [← UInt8.toBitVec_inj]
    constructor
    · intro heq i hi
      rw [← readlpt_nibble s i hi, ← readlpt_nibble s' i hi, heq]
    · intro hall
      refine BitVec.eq_of_getElem_eq fun i hi => ?_
      rw [readlpt_nibble s i hi, readlpt_nibble s' i hi]
      exact hall i hi
  have h1 : s.nibble 1 = s'.nibble 1 ↔ s.pin 27 = true ∨ s.pin 29 = s'.pin 29 := by
    show (s.pin 29 || s.pin 27) = (s'.pin 29 || s'.pin 27) ↔ _
    rw [← h.pin27, or_eq_or_iff]
  have h2 : s.nibble 2 = s'.nibble 2 ↔ s.pin 26 = true ∨ s.pin 30 = s'.pin 30 := by
    show (s.pin 30 || s.pin 26) = (s'.pin 30 || s'.pin 26) ↔ _
    rw [← h.pin26, or_eq_or_iff]
  have h3 : s.nibble 3 = s'.nibble 3 ↔ s.pin 22 = true ∨ s.pin 31 = s'.pin 31 := by
    show (s.pin 31 || s.pin 22) = (s'.pin 31 || s'.pin 22) ↔ _
    rw [← h.pin22, or_eq_or_iff]
  rw [hbits]
  constructor
  · intro hall
    exact ⟨h1.mp (hall 1 (by decide)), h2.mp (hall 2 (by decide)), h3.mp (hall 3 (by decide))⟩
  · intro hcovered i hi
    interval_cases i
    · exact h.pin28
    · exact h1.mpr hcovered.bit29
    · exact h2.mpr hcovered.bit30
    · exact h3.mpr hcovered.bit31
    · rfl
    · rfl
    · rfl
    · rfl

theorem byteOf_eq_iff {s₁ s₂ s₁' s₂' : Sample} (h₁ : s₁.Agrees s₁') (h₂ : s₂.Agrees s₂') :
    byteOf s₁ s₂ = byteOf s₁' s₂' ↔ s₁.Covered s₁' ∧ s₂.Covered s₂' := by
  unfold byteOf
  rw [joined_inj, nibble_eq_iff h₁, nibble_eq_iff h₂]

end Samples

section Runs

/-- `waittimeout` with the mask 0x10 (`lptcomms.c:49-58`) on the samples to come: no value is its -1,
and where the samples end it still waits. -/
def waitSamples (value : UInt8) : List Sample → Option (Option UInt8 × List Sample)
  | [] => none
  | s :: ss =>
      if readlpt s.word &&& 0x10 = value then
        if s.inTime then waitSamples value ss else some (none, ss)
      else some (some (readlpt s.word), ss)

/-- The accesses to the pins on the samples to come. -/
def sampled : ∀ o : GpioOp, List Sample → Option (GpioResp o × List Sample)
  | .getAll, [] => none
  | .getAll, s :: ss => some (s.word, ss)
  | .put _ _, ss => some ((), ss)
  | .waittimeout value, ss => waitSamples value ss

/-- `lptcomms_readbytes` (`lptcomms.c:110-118`) with `n` bytes to go: the bytes stored to `buff`, and
the value returned, none as long as a byte is waited for. -/
def readbytesSamples : Nat → List Sample → List UInt8 × Option Int
  | 0, _ => ([], some 0)
  | n + 1, ss =>
      match lptcommsReadbyte.exec sampled ss with
      | none => ([], none)
      | some (none, _) => ([], some (-1))
      | some (some b, ss) => (b :: (readbytesSamples n ss).1, (readbytesSamples n ss).2)

/-- Go on to the first sample that shows the strobe at the level: the samples behind it, or that the
time is over before, or that none has come yet. -/
def await (level : Bool) : List Sample → Option (Option (List Sample))
  | [] => none
  | s :: ss =>
      if s.pin 21 = level then some (some ss) else if s.inTime then await level ss else some none

/-- The two data samples of the next byte, and what follows them. -/
def nextData (ss : List Sample) : Option (Option (Sample × Sample × List Sample)) :=
  match await true ss with
  | none => none
  | some none => some none
  | some (some []) => none
  | some (some (s₁ :: ss)) =>
      match await false ss with
      | none => none
      | some none => some none
      | some (some []) => none
      | some (some (s₂ :: ss)) => some (some (s₁, s₂, ss))

/-- The data samples of up to `n` bytes. -/
def dataSamples : Nat → List Sample → List Sample
  | 0, _ => []
  | n + 1, ss =>
      match nextData ss with
      | some (some (s₁, s₂, ss)) => s₁ :: s₂ :: dataSamples n ss
      | _ => []

theorem waitSamples_await (level : Bool) (ss : List Sample) :
    match await level ss with
    | none => waitSamples (if level then 0x00 else 0x10) ss = none
    | some none => ∃ ss', waitSamples (if level then 0x00 else 0x10) ss = some (none, ss')
    | some (some ss') => ∃ c, waitSamples (if level then 0x00 else 0x10) ss = some (some c, ss') := by
  induction ss with
  | nil => rfl
  | cons s ss ih =>
    have hshows : readlpt s.word &&& 0x10 = (if level then 0x00 else 0x10) ↔ s.pin 21 ≠ level := by
      rw [readlpt_strobe_pin]
      cases level <;> cases s.pin 21 <;> decide
    unfold await waitSamples
    by_cases hlevel : s.pin 21 = level
    · rw [if_pos hlevel, if_neg (not_not.mpr hlevel ∘ hshows.mp)]
      exact ⟨_, rfl⟩
    · rw [if_neg hlevel, if_pos (hshows.mpr hlevel)]
      cases s.inTime with
      | true => exact ih
      | false => exact ⟨_, rfl⟩

section Exec

variable {α : Type} {k : Option UInt8 → GpioProg α} {ss ss' : List Sample}

theorem exec_wait {value : UInt8} {r : Option UInt8} (h : waitSamples value ss = some (r, ss')) :
    (Prog.op (GpioOp.waittimeout value) k).exec sampled ss = (k r).exec sampled ss' := by
  simp only [Prog.exec, sampled, h]

theorem exec_wait_none {value : UInt8} (h : waitSamples value ss = none) :
    (Prog.op (GpioOp.waittimeout value) k).exec sampled ss = none := by
  simp only [Prog.exec, sampled, h]

end Exec

/-- `lptcomms_readbyte` on samples. -/
theorem readbyte_samples (ss : List Sample) :
    match nextData ss with
    | none => lptcommsReadbyte.exec sampled ss = none
    | some none => ∃ ss', lptcommsReadbyte.exec sampled ss = some (none, ss')
    | some (some (s₁, s₂, ss')) =>
        lptcommsReadbyte.exec sampled ss = some (some (byteOf s₁ s₂), ss') := by
  have hup := waitSamples_await true ss
  unfold nextData
  cases hawait : await true ss with
  | none =>
    rw [hawait] at hup
    exact exec_wait_none hup
  | some found =>
    cases found with
    | none =>
      rw [hawait] at hup
      obtain ⟨ss', hup⟩ := hup
      exact ⟨ss', exec_wait hup⟩
    | some ss₁ =>
      rw [hawait] at hup
      obtain ⟨c, hup⟩ := hup
      cases ss₁ with
      | nil => exact exec_wait hup
      | cons s₁ ss₁ =>
        have hupper : lptcommsReadbyte.exec sampled ss =
            (E4 ((readlpt s₁.word &&& 0xf) <<< 4)).exec sampled ss₁ := by
          rw [lptcommsReadbyte_eq]
          exact exec_wait hup
        rw [hupper]
        have hdown := waitSamples_await false ss₁
        cases hawait₁ : await false ss₁ with
        | none =>
          rw [hawait₁] at hdown
          simp only [hawait₁]
          exact exec_wait_none hdown
        | some found =>
          cases found with
          | none =>
            rw [hawait₁] at hdown
            obtain ⟨ss', hdown⟩ := hdown
            simp only [hawait₁]
            exact ⟨ss', exec_wait hdown⟩
          | some ss₂ =>
            rw [hawait₁] at hdown
            obtain ⟨c', hdown⟩ := hdown
            cases ss₂ with
            | nil =>
              simp only [hawait₁]
              exact exec_wait hdown
            | cons s₂ ss₂ =>
              simp only [hawait₁]
              exact exec_wait hdown

/-- One byte of `lptcomms_readbytes` on samples. -/
theorem readbytesSamples_succ (n : Nat) (ss : List Sample) :
    readbytesSamples (n + 1) ss =
      match nextData ss with
      | none => ([], none)
      | some none => ([], some (-1))
      | some (some (s₁, s₂, ss)) =>
          (byteOf s₁ s₂ :: (readbytesSamples n ss).1, (readbytesSamples n ss).2) := by
  have hbyte := readbyte_samples ss
  rw [readbytesSamples]
  cases hnext : nextData ss with
  | none =>
    rw [hnext] at hbyte
    simp only [hbyte]
  | some found =>
    cases found with
    | none =>
      rw [hnext] at hbyte
      obtain ⟨ss', hbyte⟩ := hbyte
      simp only [hbyte]
    | some data =>
      rw [hnext] at hbyte
      simp only [hbyte]

end Runs

section TwoRuns

variable {ss ss' : List Sample}

/-- The next byte of two runs: the data samples agree, and so does what follows them. -/
structure AgreeData (d d' : Sample × Sample × List Sample) : Prop where
  first : d.1.Agrees d'.1
  second : d.2.1.Agrees d'.2.1
  rest : List.Forall₂ Sample.Agrees d.2.2 d'.2.2

/-- Both runs leave a wait at the same sample. -/
theorem await_agree (level : Bool) (h : List.Forall₂ Sample.Agrees ss ss') :
    Option.Rel (Option.Rel (List.Forall₂ Sample.Agrees)) (await level ss) (await level ss') := by
  induction h with
  | nil => exact .none
  | cons hs hss ih =>
    unfold await
    rw [← hs.pin21, ← hs.inTime]
    split_ifs
    · exact .some (.some hss)
    · exact ih
    · exact .some .none

theorem nextData_agree (h : List.Forall₂ Sample.Agrees ss ss') :
    Option.Rel (Option.Rel AgreeData) (nextData ss) (nextData ss') := by
  unfold nextData
  have hup := await_agree true h
  generalize await true ss = found at hup
  generalize await true ss' = found' at hup
  cases hup with
  | none => exact .none
  | some hup =>
    cases hup with
    | none => exact .some .none
    | some hup =>
      cases hup with
      | nil => exact .none
      | @cons s₁ s₁' ss ss' hs₁ hss =>
        dsimp only
        have hdown := await_agree false hss
        generalize await false ss = found at hdown
        generalize await false ss' = found' at hdown
        cases hdown with
        | none => exact .none
        | some hdown =>
          cases hdown with
          | none => exact .some .none
          | some hdown =>
            cases hdown with
            | nil => exact .none
            | cons hs₂ hss => exact .some (.some ⟨hs₁, hs₂, hss⟩)

theorem hasbyte_agree (h : List.Forall₂ Sample.Agrees ss ss') :
    (lptcommsHasbyte.exec sampled ss).map Prod.fst =
      (lptcommsHasbyte.exec sampled ss').map Prod.fst := by
  cases h with
  | nil => rfl
  | @cons s s' ss ss' hs hss =>
    show some (decide (readlpt s.word &&& 0x10 = 0x10)) =
      some (decide (readlpt s'.word &&& 0x10 = 0x10))
    rw [readlpt_strobe_pin, readlpt_strobe_pin, hs.pin21]

/-- Two runs whose samples agree on the five pins of the link store the same bytes and return the same
exactly if at no data sample another bit shows. -/
theorem readbytes_agree_iff (n : Nat) (h : List.Forall₂ Sample.Agrees ss ss') :
    (lptcommsHasbyte.exec sampled ss).map Prod.fst =
        (lptcommsHasbyte.exec sampled ss').map Prod.fst ∧
      (readbytesSamples n ss = readbytesSamples n ss' ↔
        List.Forall₂ Sample.Covered (dataSamples n ss) (dataSamples n ss')) := by
  refine ⟨hasbyte_agree h, ?_⟩
  induction n generalizing ss ss' with
  | zero => exact iff_of_true rfl .nil
  | succ n ih =>
    have hdata := nextData_agree h
    rw [readbytesSamples_succ, readbytesSamples_succ]
    unfold dataSamples
    generalize nextData ss = d at hdata
    generalize nextData ss' = d' at hdata
    cases hdata with
    | none => exact iff_of_true rfl .nil
    | some hfound =>
      cases hfound with
      | none => exact iff_of_true rfl .nil
      | some hboth =>
        have hbyte := byteOf_eq_iff hboth.first hboth.second
        have hrest := ih hboth.rest
        simp only [List.cons.injEq, List.forall₂_cons, hbyte, ← hrest,
          Prod.ext_iff, and_assoc]

/-- The strobe rises and falls; the first data sample has the word `w`, the second is 0. -/
def oneByte (w : UInt32) : List Sample := [⟨0x200000, true⟩, ⟨w, true⟩, ⟨0, true⟩, ⟨0, true⟩]

theorem oneByte_agrees {w w' : UInt32} (h : Sample.Agrees ⟨w, true⟩ ⟨w', true⟩) :
    List.Forall₂ Sample.Agrees (oneByte w) (oneByte w') := by
  have hrefl : ∀ s : Sample, s.Agrees s := fun s => ⟨rfl, rfl, rfl, rfl, rfl, rfl⟩
  exact .cons (hrefl _) (.cons h (.cons (hrefl _) (.cons (hrefl _) .nil)))

/-- GPIO 23 to 25 and 29 differ, with GPIO 27 high. -/
theorem readbytes_agree_covered :
    readbytesSamples 1 (oneByte 0x08200000) = readbytesSamples 1 (oneByte 0x2ba00000) := by
  have hagree : Sample.Agrees ⟨0x08200000, true⟩ ⟨0x2ba00000, true⟩ := by
    constructor <;> decide
  have hcovered : List.Forall₂ Sample.Covered (dataSamples 1 (oneByte 0x08200000))
      (dataSamples 1 (oneByte 0x2ba00000)) := by
    refine .cons ⟨?_, ?_, ?_⟩ (.cons ⟨.inr rfl, .inr rfl, .inr rfl⟩ .nil)
    · exact .inl (by decide)
    · exact .inr (by decide)
    · exact .inr (by decide)
  exact (readbytes_agree_iff 1 (oneByte_agrees hagree)).2.mpr hcovered

/-- GPIO 29 alone differs, with GPIO 27 low: 0x00 in one run is 0x20 in the other. -/
theorem readbytes_leaks :
    ¬ ∀ (n : Nat) (ss ss' : List Sample), List.Forall₂ Sample.Agrees ss ss' →
      (lptcommsHasbyte.exec sampled ss).map Prod.fst =
          (lptcommsHasbyte.exec sampled ss').map Prod.fst ∧
        readbytesSamples n ss = readbytesSamples n ss' := by
  intro hall
  have hagree : Sample.Agrees ⟨0x00200000, true⟩ ⟨0x20200000, true⟩ := by
    constructor <;> decide
  have hsame := (hall 1 _ _ (oneByte_agrees hagree)).2
  have hclear : readbytesSamples 1 (oneByte 0x00200000) = ([0x00], some 0) := by decide
  have hset : readbytesSamples 1 (oneByte 0x20200000) = ([0x20], some 0) := by decide
  rw [hclear, hset] at hsame
  simp at hsame

end TwoRuns

end LptStore.Handshake
