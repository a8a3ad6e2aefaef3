import LptStore.Lib.While

/-!
# The options in `CONFIG.SYS`, `dos/SDPP10/DRIVER.C`

`parse_options` goes over the line behind `DEVICE=` by a pointer, here the text from there on up to
and with the first terminator. A read behind that has no answer. Where the functions of the source
return `NULL` or `FALSE` the models say so, and `none` is for such a read only.
-/

namespace LptStore.Dos

open LptStore.Lib

section Characters

def blank : UInt8 := 0x20
def tab : UInt8 := 0x09
def slash : UInt8 := 0x2f
def equals : UInt8 := 0x3d
def zero : UInt8 := 0x30
def nine : UInt8 := 0x39
def smallD : UInt8 := 0x64
def capitalD : UInt8 := 0x44
def smallB : UInt8 := 0x62
def capitalB : UInt8 := 0x42

/-- `iseol` (`DRIVER.C:435-437`): NUL, CR and LF. -/
def iseol (ch : UInt8) : Bool := ch = 0x00 ∨ ch = 0x0d ∨ ch = 0x0a

/-- A white space character. -/
def isWhite (ch : UInt8) : Bool := ch = blank ∨ ch = tab

/-- A character of the file name. -/
def isName (ch : UInt8) : Bool := !isWhite ch && !iseol ch

/-- A decimal digit. -/
def isDigit (ch : UInt8) : Bool := zero ≤ ch ∧ ch ≤ nine

end Characters

section Parser

/-- The variables that the options set. -/
@[ext]
structure Settings where
  debug : Bool
  portbase : UInt8
  deriving DecidableEq, Repr

/-- `while (c is ..) ++p;` -/
def skip (c : UInt8 → Bool) : List UInt8 → Option (List UInt8)
  | [] => none
  | ch :: p => if c ch then skip c p else some (ch :: p)

/-- `spanwhite` (`DRIVER.C:439-441`). -/
def spanwhite (p : List UInt8) : Option (List UInt8) := skip isWhite p

/-- The loop of `option_value`: the value and the text from the first character that is no digit, or
`NULL`. -/
def optionDigits : List UInt8 → UInt16 → Bool → Option (Option (UInt16 × List UInt8))
  | [], _, _ => none
  | ch :: p, v, null =>
      if isDigit ch then optionDigits p (v * 10 + (ch - zero).toUInt16) false
      else some (if null then none else some (v, ch :: p))

/-- `option_value` (`DRIVER.C:450-457`). -/
def optionValue : List UInt8 → Option (Option (UInt16 × List UInt8))
  | [] => none
  | ch :: p => if ch ≠ equals then some none else optionDigits p 0 true

/-- The rest of a round: the white space behind an option. -/
def nextOption (p : List UInt8) (o : Settings) :
    (List UInt8 × Settings) ⊕ Option (Bool × Settings) :=
  match spanwhite p with
  | none => .inr none
  | some p => .inl (p, o)

/-- The `switch` on the letter of an option. In `case 'd', 'D':` and `case 'b', 'B':` the comma is the
operator, so that the labels are the second letters. -/
def parseLetter (o : Settings) : List UInt8 → (List UInt8 × Settings) ⊕ Option (Bool × Settings)
  | [] => .inr none
  | ch :: p =>
      if ch = capitalD then nextOption p { o with debug := true }
      else if ch = capitalB then
        match optionValue p with
        | none => .inr none
        | some none => .inr (some (false, o))
        | some (some (temp, p)) =>
            if temp < 1 ∨ temp > 5 then nextOption p o
            else nextOption p { o with portbase := (temp - 1).toUInt8 }
      else .inr (some (false, o))

/-- A round of the loop of `parse_options`. -/
def parseOption : List UInt8 × Settings → (List UInt8 × Settings) ⊕ Option (Bool × Settings)
  | ([], _) => .inr none
  | (ch :: p, o) =>
      if iseol ch then .inr (some (true, o))
      else
        match spanwhite (ch :: p) with
        | none => .inr none
        | some [] => .inr none
        | some (ch :: p) => if ch ≠ slash then .inr (some (false, o)) else parseLetter o p

/-- `parse_options` (`DRIVER.C:466-491`), in at most `n` rounds: the value returned and the variables. -/
def parseOptions (n : Nat) (p : List UInt8) (o : Settings) : Option (Option (Bool × Settings)) :=
  match (skip isName p).bind spanwhite with
  | none => some none
  | some p => iterate parseOption n (p, o)

end Parser

section Language

/-- An option, with a capital or a small letter. -/
inductive Opt where
  | d (capital : Bool)
  | b (capital : Bool) (digits : List UInt8) (h : digits ≠ [] ∧ ∀ ch ∈ digits, isDigit ch = true)

namespace Opt

/-- The option as it is written. -/
def text : Opt → List UInt8
  | d capital => [slash, if capital then capitalD else smallD]
  | b capital digits _ => slash :: (if capital then capitalB else smallB) :: equals :: digits

def capital : Opt → Bool
  | d capital => capital
  | b capital _ _ => capital

def isDebug : Opt → Bool
  | d _ => true
  | b _ _ _ => false

end Opt

/-- The number that the digits stand for. -/
def decimal (digits : List UInt8) : Nat :=
  digits.foldl (fun v ch => v * 10 + (ch.toNat - zero.toNat)) 0

/-- The value of a b option, if it is taken for a port base index. -/
def Opt.index (value : List UInt8 → Nat) : Opt → Option Nat
  | d _ => none
  | b _ digits _ => if 1 ≤ value digits ∧ value digits ≤ 5 then some (value digits) else none

/-- What the options set, where the value of the digits is taken so. -/
def Settings.apply (value : List UInt8 → Nat) (os : List Opt) (o : Settings) : Settings where
  debug := o.debug || os.any Opt.isDebug
  portbase :=
    match (os.filterMap (Opt.index value)).getLast? with
    | some v => UInt8.ofNat (v - 1)
    | none => o.portbase

/-- The text is a sequence of options, with white space around them. -/
inductive Written : List UInt8 → List Opt → Prop
  | nil : Written [] []
  | white {ch : UInt8} {p : List UInt8} {os : List Opt} :
      isWhite ch = true → Written p os → Written (ch :: p) os
  | option {p : List UInt8} {os : List Opt} (x : Opt) : Written p os → Written (x.text ++ p) (x :: os)

end Language

section Reading

variable {c : UInt8 → Bool} {t : UInt8} {p q : List UInt8} {o : Settings}

theorem skip_eq (ht : c t = false) (p : List UInt8) :
    skip c (p ++ [t]) = some (p.dropWhile c ++ [t]) := by
  induction p with
  | nil => simp [skip, ht]
  | cons ch p ih =>
    by_cases hc : c ch = true
    · rw [List.cons_append, skip, if_pos hc, List.dropWhile_cons_of_pos hc]
      exact ih
    · rw [List.cons_append, skip, if_neg hc, List.dropWhile_cons_of_neg hc]
      rfl

theorem eol_cases (ht : iseol t = true) : t = 0x00 ∨ t = 0x0d ∨ t = 0x0a := by
  simpa [iseol] using ht

theorem isWhite_eol (ht : iseol t = true) : isWhite t = false := by
  rcases eol_cases ht with rfl | rfl | rfl <;> rfl

theorem isName_eol (ht : iseol t = true) : isName t = false := by
  rcases eol_cases ht with rfl | rfl | rfl <;> rfl

theorem isDigit_eol (ht : iseol t = true) : isDigit t = false := by
  rcases eol_cases ht with rfl | rfl | rfl <;> rfl

theorem optionDigits_eq (ds : List UInt8) (hds : ∀ ch ∈ ds, isDigit ch = true)
    {ch : UInt8} (hch : isDigit ch = false) (v : UInt16) (null : Bool) :
    optionDigits (ds ++ ch :: p) v null =
      some (if (null && ds.isEmpty) = true then none
        else some (ds.foldl (fun v ch => v * 10 + (ch - zero).toUInt16) v, ch :: p)) := by
  induction ds generalizing v null with
  | nil => simp [optionDigits, hch]
  | cons d ds ih =>
    rcases List.forall_mem_cons.mp hds with ⟨hd, hds⟩
    rw [List.cons_append, optionDigits, if_pos hd, ih hds]
    simp

/-- The 16-bit accumulator. -/
def wrapped (digits : List UInt8) : Nat := decimal digits % 65536

theorem toNat_digit {ch : UInt8} (h : isDigit ch = true) :
    (ch - zero).toUInt16.toNat = ch.toNat - zero.toNat := by
  have hle : zero ≤ ch := (of_decide_eq_true h).1
  rw [UInt8.toNat_toUInt16, UInt8.toNat_sub_of_le _ _ hle]

theorem toNat_accumulate (ds : List UInt8) (hds : ∀ ch ∈ ds, isDigit ch = true) (v : UInt16) (n : Nat)
    (hv : v.toNat = n % 65536) :
    (ds.foldl (fun v ch => v * 10 + (ch - zero).toUInt16) v).toNat =
      ds.foldl (fun v ch => v * 10 + (ch.toNat - zero.toNat)) n % 65536 := by
  induction ds generalizing v n with
  | nil => exact hv
  | cons d ds ih =>
    rcases List.forall_mem_cons.mp hds with ⟨hd, hds⟩
    refine ih hds _ _ ?_
    rw [UInt16.toNat_add, UInt16.toNat_mul, toNat_digit hd, hv]
    show (n % 65536 * 10 % 65536 + (d.toNat - zero.toNat)) % 65536 =
      (n * 10 + (d.toNat - zero.toNat)) % 65536
    omega

theorem toNat_optionDigits {ds : List UInt8} (hds : ∀ ch ∈ ds, isDigit ch = true) :
    (ds.foldl (fun v ch => v * 10 + (ch - zero).toUInt16) (0 : UInt16)).toNat = wrapped ds :=
  toNat_accumulate ds hds 0 0 rfl

theorem apply_nil (value : List UInt8 → Nat) (o : Settings) : o.apply value [] = o := by
  simp [Settings.apply]

/-- The options take effect one after the other. -/
theorem apply_cons (value : List UInt8 → Nat) (x : Opt) (os : List Opt) (o : Settings) :
    o.apply value (x :: os) = (o.apply value [x]).apply value os := by
  unfold Settings.apply
  cases hx : x.index value with
  | none => simp [hx, Bool.or_assoc]
  | some v =>
    cases hos : (os.filterMap (Opt.index value)).getLast? with
    | none => simp [hx, hos, Bool.or_assoc, List.getLast?_cons]
    | some w => simp [hx, hos, Bool.or_assoc, List.getLast?_cons]

theorem nextOption_eq (ht : iseol t = true) (p : List UInt8) (o : Settings) :
    nextOption (p ++ [t]) o = .inl (p.dropWhile isWhite ++ [t], o) := by
  unfold nextOption spanwhite
  rw [skip_eq (isWhite_eol ht)]

/-- Behind an option there is no digit. -/
theorem Written.head {os : List Opt} (h : Written p os) (ht : iseol t = true) :
    ∃ ch q, p ++ [t] = ch :: q ∧ isDigit ch = false := by
  cases h with
  | nil => exact ⟨t, [], rfl, isDigit_eol ht⟩
  | white hch _ =>
    refine ⟨_, _, rfl, ?_⟩
    have hcases : _ = blank ∨ _ = tab := of_decide_eq_true hch
    rcases hcases with rfl | rfl <;> rfl
  | option x _ =>
    cases x with
    | d capital => exact ⟨slash, _, rfl, rfl⟩
    | b capital digits hdigits => exact ⟨slash, _, rfl, rfl⟩

/-- The settings after a b option with the 16-bit value `temp`. -/
theorem apply_b {digits : List UInt8} (h : digits ≠ [] ∧ ∀ ch ∈ digits, isDigit ch = true)
    {temp : UInt16} (htemp : temp.toNat = wrapped digits) (capital : Bool) :
    o.apply wrapped [.b capital digits h] =
      if temp < 1 ∨ temp > 5 then o else { o with portbase := (temp - 1).toUInt8 } := by
  have hrange : temp < 1 ∨ temp > 5 ↔ ¬ (1 ≤ wrapped digits ∧ wrapped digits ≤ 5) := by
    rw [← htemp, UInt16.lt_iff_toNat_lt, gt_iff_lt, UInt16.lt_iff_toNat_lt]
    show temp.toNat < 1 ∨ 5 < temp.toNat ↔ _
    omega
  by_cases hin : 1 ≤ wrapped digits ∧ wrapped digits ≤ 5
  · rw [if_neg (not_not.mpr hin ∘ hrange.mp)]
    have hone : (temp - 1).toUInt8 = UInt8.ofNat (wrapped digits - 1) := by
      apply UInt8.toNat_inj.mp
      have hle : (1 : UInt16) ≤ temp := by
        rw [UInt16.le_iff_toNat_le, htemp]
        exact hin.1
      rw [UInt16.toNat_toUInt8, UInt16.toNat_sub_of_le _ _ hle, htemp, UInt8.toNat_ofNat']
      rfl
    simp [Settings.apply, Opt.index, Opt.isDebug, hin, hone]
  · rw [if_pos (hrange.mpr hin)]
    simp [Settings.apply, Opt.index, Opt.isDebug, hin]

end Reading

section Rounds

variable {t : UInt8} {p : List UInt8} {os : List Opt} {o : Settings}

theorem parseOption_eol (ht : iseol t = true) (o : Settings) :
    parseOption ([t], o) = .inr (some (true, o)) := if_pos ht

/-- What follows a `B`. -/
theorem parseLetter_b (p : List UInt8) (o : Settings) :
    parseLetter o (capitalB :: p) =
      match optionValue p with
      | none => .inr none
      | some none => .inr (some (false, o))
      | some (some (temp, p)) =>
          if temp < 1 ∨ temp > 5 then nextOption p o
          else nextOption p { o with portbase := (temp - 1).toUInt8 } := rfl

/-- A port base, in digits behind which there is none. -/
theorem parseLetter_number (ht : iseol t = true) {digits : List UInt8}
    (h : digits ≠ [] ∧ ∀ ch ∈ digits, isDigit ch = true)
    (hhead : ∃ ch q, p ++ [t] = ch :: q ∧ isDigit ch = false) (o : Settings) :
    parseLetter o (capitalB :: equals :: (digits ++ (p ++ [t]))) =
      .inl (p.dropWhile isWhite ++ [t], o.apply wrapped [.b true digits h]) := by
  rcases hhead with ⟨ch, q, hq, hch⟩
  have hnull : (true && digits.isEmpty) = false := by
    simpa using h.1
  have hvalue : optionValue (equals :: (digits ++ (p ++ [t]))) =
      some (some (digits.foldl (fun v ch => v * 10 + (ch - zero).toUInt16) 0, p ++ [t])) := by
    show optionDigits (digits ++ (p ++ [t])) 0 true = _
    rw [hq, optionDigits_eq digits h.2 hch, hnull]
    rfl
  rw [parseLetter_b, hvalue, apply_b h (toNat_optionDigits h.2)]
  dsimp only
  rw [nextOption_eq ht, nextOption_eq ht]
  split <;> rfl

/-- A capital letter is taken. -/
theorem parseOption_capital (ht : iseol t = true) (hp : Written p os) {x : Opt}
    (hx : x.capital = true) (o : Settings) :
    parseOption (x.text ++ p ++ [t], o) = .inl (p.dropWhile isWhite ++ [t], o.apply wrapped [x]) := by
  cases x with
  | d capital =>
    cases hx
    show nextOption (p ++ [t]) { o with debug := true } = _
    rw [nextOption_eq ht]
    simp [Settings.apply, Opt.index, Opt.isDebug]
  | b capital digits h =>
    cases hx
    have htext : (Opt.b true digits h).text ++ p ++ [t] =
        slash :: capitalB :: equals :: (digits ++ (p ++ [t])) := by
      simp [Opt.text]
    rw [htext]
    exact parseLetter_number ht h (hp.head ht) o

/-- A small letter is not. -/
theorem parseOption_small {x : Opt} (hx : x.capital = false) (p : List UInt8) (o : Settings) :
    parseOption (x.text ++ p, o) = .inr (some (false, o)) := by
  cases x with
  | d capital =>
    cases hx
    rfl
  | b capital digits h =>
    cases hx
    rfl

theorem dropWhile_text (x : Opt) (p : List UInt8) :
    (x.text ++ p).dropWhile isWhite = x.text ++ p := by
  cases x with
  | d capital => exact List.dropWhile_cons_of_neg (by decide)
  | b capital digits h => exact List.dropWhile_cons_of_neg (by decide)

theorem Written.of_dropWhile (h : Written (p.dropWhile isWhite) os) : Written p os := by
  induction p with
  | nil => exact h
  | cons ch p ih =>
    by_cases hch : isWhite ch = true
    · rw [List.dropWhile_cons_of_pos hch] at h
      exact .white hch (ih h)
    · rwa [List.dropWhile_cons_of_neg hch] at h

/-- Options with capital letters are all taken. -/
theorem runs_capital (ht : iseol t = true) (h : Written p os) (hcapital : ∀ x ∈ os, x.capital = true)
    (o : Settings) :
    Runs parseOption (p.dropWhile isWhite ++ [t], o) (some (true, o.apply wrapped os)) := by
  induction h generalizing o with
  | nil =>
    rw [apply_nil]
    exact .done (parseOption_eol ht o)
  | white hch _ ih =>
    rw [List.dropWhile_cons_of_pos hch]
    exact ih hcapital o
  | option x hp ih =>
    rcases List.forall_mem_cons.mp hcapital with ⟨hx, hos⟩
    rw [dropWhile_text, apply_cons]
    exact .round (parseOption_capital ht hp hx o) (ih hos _)

/-- A small letter ends the loop. -/
theorem runs_small (ht : iseol t = true) (h : Written p os) (hsmall : ∃ x ∈ os, x.capital = false)
    (o : Settings) :
    ∃ o', Runs parseOption (p.dropWhile isWhite ++ [t], o) (some (false, o')) := by
  induction h generalizing o with
  | nil => simp at hsmall
  | white hch _ ih =>
    rw [List.dropWhile_cons_of_pos hch]
    exact ih hsmall o
  | option x hp ih =>
    rw [dropWhile_text]
    cases hx : x.capital with
    | false =>
      rw [List.append_assoc]
      exact ⟨o, .done (parseOption_small hx _ o)⟩
    | true =>
      rcases hsmall with ⟨y, hy, hfalse⟩
      rcases List.mem_cons.mp hy with rfl | hy
      · exact absurd (hx.symm.trans hfalse) (by decide)
      rcases ih ⟨y, hy, hfalse⟩ (o.apply wrapped [x]) with ⟨o', hruns⟩
      exact ⟨o', .round (parseOption_capital ht hp hx o) hruns⟩

theorem dropWhile_head (ht : iseol t = true) (p : List UInt8) :
    ∃ ch q, p.dropWhile isDigit ++ [t] = ch :: q ∧ isDigit ch = false := by
  cases hrest : p.dropWhile isDigit with
  | nil => exact ⟨t, [], rfl, isDigit_eol ht⟩
  | cons ch q =>
    have hnot := List.head?_dropWhile_not isDigit p
    rw [hrest] at hnot
    exact ⟨ch, q ++ [t], rfl, by simpa using hnot⟩

/-- What follows an `=` is a port base, or ends the loop. -/
theorem parseNumber_cases (ht : iseol t = true) (p : List UInt8) (o : Settings) :
    parseLetter o (capitalB :: equals :: (p ++ [t])) = .inr (some (false, o)) ∨
      ∃ (x : Opt) (q : List UInt8) (o' : Settings), slash :: capitalB :: equals :: p = x.text ++ q ∧
        parseLetter o (capitalB :: equals :: (p ++ [t])) = .inl (q.dropWhile isWhite ++ [t], o') := by
  have hsplit : p ++ [t] = p.takeWhile isDigit ++ (p.dropWhile isDigit ++ [t]) := by
    rw [← List.append_assoc, List.takeWhile_append_dropWhile]
  have hdigits : ∀ d ∈ p.takeWhile isDigit, isDigit d = true := List.all_eq_true.mp List.all_takeWhile
  by_cases hempty : p.takeWhile isDigit = []
  · left
    rcases dropWhile_head ht p with ⟨c, q, hq, hc⟩
    have hnull : optionValue (equals :: (p ++ [t])) = some none := by
      show optionDigits (p ++ [t]) 0 true = _
      rw [hsplit, hq, optionDigits_eq _ hdigits hc, hempty]
      rfl
    rw [parseLetter_b, hnull]
  · right
    have htext : slash :: capitalB :: equals :: p =
        (Opt.b true (p.takeWhile isDigit) ⟨hempty, hdigits⟩).text ++ p.dropWhile isDigit := by
      simp [Opt.text]
    have hnumber := parseLetter_number ht ⟨hempty, hdigits⟩ (dropWhile_head ht p) o
    rw [← hsplit] at hnumber
    exact ⟨_, _, _, htext, hnumber⟩

/-- What follows a slash is an option, or ends the loop. -/
theorem parseLetter_cases (ht : iseol t = true) (p : List UInt8) (o : Settings) :
    parseLetter o (p ++ [t]) = .inr (some (false, o)) ∨
      ∃ (x : Opt) (q : List UInt8) (o' : Settings), slash :: p = x.text ++ q ∧
        parseLetter o (p ++ [t]) = .inl (q.dropWhile isWhite ++ [t], o') := by
  cases p with
  | nil =>
    left
    rcases eol_cases ht with rfl | rfl | rfl <;> rfl
  | cons ch p =>
    by_cases hd : ch = capitalD
    · subst hd
      exact .inr ⟨.d true, p, _, rfl, nextOption_eq ht p _⟩
    by_cases hb : ch = capitalB
    swap
    · left
      show (if ch = capitalD then _ else if ch = capitalB then _ else _) = _
      rw [if_neg hd, if_neg hb]
    subst hb
    cases p with
    | nil =>
      left
      rcases eol_cases ht with rfl | rfl | rfl <;> rfl
    | cons ch p =>
      by_cases hequals : ch = equals
      · subst hequals
        exact parseNumber_cases ht p o
      · left
        have hnull : optionValue (ch :: p ++ [t]) = some none := if_pos hequals
        rw [List.cons_append, parseLetter_b, hnull]

/-- The loop ends, by induction on what is left of the line, and where it ends with TRUE it has gone
over a sequence of options. -/
theorem runs_total (ht : iseol t = true) (hp : ∀ ch ∈ p, iseol ch = false) (o : Settings) :
    ∃ accepted o', Runs parseOption (p.dropWhile isWhite ++ [t], o) (some (accepted, o')) ∧
      (accepted = true → ∃ os, Written p os) := by
  induction hn : p.length using Nat.strongRecOn generalizing p o with
  | ind n ih =>
  cases hq : p.dropWhile isWhite with
  | nil =>
    refine ⟨true, o, .done (parseOption_eol ht o), fun _ => ⟨[], .of_dropWhile ?_⟩⟩
    rw [hq]
    exact .nil
  | cons ch q =>
    have hsuffix : ch :: q <:+ p := hq ▸ List.dropWhile_suffix isWhite
    have hwhite : isWhite ch = false := by
      have hnot := List.head?_dropWhile_not isWhite p
      rw [hq] at hnot
      simpa using hnot
    have heol : iseol ch = false := hp ch (hsuffix.subset List.mem_cons_self)
    have hspan : spanwhite (ch :: (q ++ [t])) = some (ch :: (q ++ [t])) := by
      unfold spanwhite skip
      rw [if_neg (by simp [hwhite])]
    have hround : parseOption (ch :: (q ++ [t]), o) =
        if ch ≠ slash then .inr (some (false, o)) else parseLetter o (q ++ [t]) := by
      unfold parseOption
      dsimp only
      rw [if_neg (by simp [heol]), hspan]
    by_cases hslash : ch = slash
    swap
    · rw [if_pos hslash] at hround
      exact ⟨false, o, .done hround, nofun⟩
    subst hslash
    rw [if_neg (not_not.mpr rfl)] at hround
    rcases parseLetter_cases ht q o with hletter | ⟨x, r, o₁, htext, hletter⟩
    · exact ⟨false, o, .done (hround.trans hletter), nofun⟩
    · have hrest : r <:+ p := by
        rw [htext] at hsuffix
        exact (List.suffix_append _ _).trans hsuffix
      have hshort : r.length < n := by
        have hle := hsuffix.length_le
        have hpos : 0 < x.text.length := by cases x <;> exact Nat.zero_lt_succ _
        rw [htext, List.length_append] at hle
        omega
      rcases ih r.length hshort (fun c hc => hp c (hrest.subset hc)) o₁ rfl
        with ⟨accepted, o', hruns, hwritten⟩
      refine ⟨accepted, o', .round (hround.trans hletter) hruns, fun haccepted => ?_⟩
      rcases hwritten haccepted with ⟨os, hos⟩
      refine ⟨x :: os, .of_dropWhile ?_⟩
      rw [hq, htext]
      exact .option x hos

end Rounds

section Line

variable {t : UInt8} {line : List UInt8} {o : Settings}

/-- The line as DOS passes it: characters that do not end it, and one that does. -/
structure Terminated (line : List UInt8) (t : UInt8) : Prop where
  inner : ∀ ch ∈ line, iseol ch = false
  last : iseol t = true

/-- What follows the file name. -/
def arguments (line : List UInt8) : List UInt8 := line.dropWhile isName

/-- `parse_options` ends with this value and these variables. -/
def Parses (p : List UInt8) (o : Settings) (r : Bool × Settings) : Prop :=
  ∃ n, parseOptions n p o = some (some r)

/-- `parse_options` ends without having read behind the terminator; it accepts exactly the option
language, and then the options have taken effect with their values. -/
def ParsedRight (line : List UInt8) (t : UInt8) (o : Settings) : Prop :=
  ∃ accepted o', Parses (line ++ [t]) o (accepted, o') ∧
    (accepted = true ↔ ∃ os, Written (arguments line) os) ∧
    (accepted = true → ∀ os, Written (arguments line) os → o' = o.apply decimal os)

theorem parses_iff (h : Terminated line t) {r : Bool × Settings} : Parses (line ++ [t]) o r ↔
    Runs parseOption ((arguments line).dropWhile isWhite ++ [t], o) (some r) := by
  have hstart : (skip isName (line ++ [t])).bind spanwhite =
      some ((arguments line).dropWhile isWhite ++ [t]) := by
    rw [skip_eq (isName_eol h.last), Option.bind_some, spanwhite, skip_eq (isWhite_eol h.last)]
    rfl
  unfold Parses parseOptions
  rw [hstart]
  exact Iff.rfl

/-- The parser is right about a line exactly if all options have capital letters, and the 16-bit
accumulator gives the port base that the values give. -/
theorem parsedRight_iff (h : Terminated line t) (o : Settings) : ParsedRight line t o ↔
    ∀ os, Written (arguments line) os → (∀ x ∈ os, x.capital = true) ∧
      (o.apply wrapped os).portbase = (o.apply decimal os).portbase := by
  have hinner : ∀ ch ∈ arguments line, iseol ch = false :=
    fun ch hch => h.inner ch ((List.dropWhile_suffix isName).subset hch)
  constructor
  · rintro ⟨accepted, o', hparses, haccepted, hsettings⟩ os hos
    have hruns := (parses_iff h).mp hparses
    have htrue : accepted = true := haccepted.mpr ⟨os, hos⟩
    have hcapital : ∀ x ∈ os, x.capital = true := by
      by_contra hnot
      have hsmall : ∃ x ∈ os, x.capital = false := by simpa using hnot
      rcases runs_small h.last hos hsmall o with ⟨o₁, hfalse⟩
      cases hruns.unique hfalse
      cases htrue
    refine ⟨hcapital, ?_⟩
    have hequal := hruns.unique (runs_capital h.last hos hcapital o)
    have hboth : o' = o.apply wrapped os := by
      cases hequal
      rfl
    rw [← hboth, hsettings htrue os hos]
  · intro hall
    rcases runs_total h.last hinner o with ⟨accepted, o', hruns, hwritten⟩
    have hsame (os) (hos : Written (arguments line) os) :
        accepted = true ∧ o' = o.apply wrapped os := by
      have hequal := hruns.unique (runs_capital h.last hos (hall os hos).1 o)
      cases hequal
      exact ⟨rfl, rfl⟩
    refine ⟨accepted, o', (parses_iff h).mpr hruns, ⟨hwritten, ?_⟩, ?_⟩
    · rintro ⟨os, hos⟩
      exact (hsame os hos).1
    · intro _ os hos
      rw [(hsame os hos).2]
      exact Settings.ext rfl (hall os hos).2

theorem written_nil {os : List Opt} (h : Written [] os) : os = [] := by
  generalize hp : ([] : List UInt8) = p at h
  cases h with
  | nil => rfl
  | white => cases hp
  | option x _ => cases x <;> cases hp

theorem written_white {ch : UInt8} {p : List UInt8} {os : List Opt} (hch : isWhite ch = true)
    (h : Written (ch :: p) os) : Written p os := by
  generalize hq : ch :: p = q at h
  cases h with
  | nil => cases hq
  | white _ hp =>
    cases hq
    exact hp
  | option x _ =>
    cases x <;> cases hq <;> cases hch

theorem written_debug {p : List UInt8} {os : List Opt} (h : Written (slash :: capitalD :: p) os) :
    ∃ os', os = .d true :: os' ∧ Written p os' := by
  generalize hq : slash :: capitalD :: p = q at h
  cases h with
  | nil => cases hq
  | white hch _ =>
    cases hq
    cases hch
  | option x hp =>
    cases x with
    | d capital =>
      cases capital with
      | true =>
        cases hq
        exact ⟨_, rfl, hp⟩
      | false => cases hq
    | b capital digits _ => cases capital <;> cases hq

/-- A debug option in a capital letter is taken. -/
theorem parsedRight_debug : ParsedRight [capitalD, blank, slash, capitalD] 0x0d ⟨false, 1⟩ := by
  have hline : Terminated [capitalD, blank, slash, capitalD] 0x0d :=
    ⟨by simp [iseol, capitalD, blank, slash], rfl⟩
  refine (parsedRight_iff hline _).mpr fun os hos => ?_
  have hwhite : Written (blank :: slash :: capitalD :: []) os := hos
  rcases written_debug (written_white rfl hwhite) with ⟨os', rfl, hrest⟩
  cases written_nil hrest
  exact ⟨by decide, rfl⟩

/-- The `/d` of the README is refused. -/
theorem small_refused : ¬ ∀ (line : List UInt8) (t : UInt8) (o : Settings), Terminated line t →
    ParsedRight line t o := by
  intro h
  have hline : Terminated [capitalD, blank, slash, smallD] 0x0d :=
    ⟨by simp [iseol, capitalD, smallD, blank, slash], rfl⟩
  have hwritten : Written (arguments [capitalD, blank, slash, smallD]) [.d false] :=
    .white rfl (.option (.d false) .nil)
  rcases h _ _ ⟨false, 1⟩ hline with ⟨accepted, o', hparses, haccepted, -⟩
  rcases runs_small hline.last hwritten ⟨_, List.mem_cons_self, rfl⟩ ⟨false, 1⟩ with ⟨o₁, hfalse⟩
  have htrue := haccepted.mpr ⟨_, hwritten⟩
  cases ((parses_iff hline).mp hparses).unique hfalse
  cases htrue

end Line

end LptStore.Dos
