import Mathlib.Logic.Relation
import Mathlib.Tactic.Common

/-!
# Runs of a labelled step relation

A run is a number of steps, each taken under a condition on its label and on the state before it.
Beside the relation a system may have a function that computes a step; the state it reaches by making
a list of moves is at the end of a run. `Surely` is about all runs at once: whatever steps are taken, they
lead to a state of a kind.
-/

namespace LptStore.Lib

section Runs

variable {E S : Type} (step : E → S → S → Prop) (ok : E → S → Prop)

/-- A run whose steps all meet `ok`. -/
inductive Run : S → S → Prop
  | refl (s : S) : Run s s
  | step {e : E} {s t u : S} : Run s t → ok e t → step e t u → Run s u

variable {step ok} {s t u : S}

theorem Run.trans (h : Run step ok s t) (h' : Run step ok t u) : Run step ok s u := by
  induction h' with
  | refl => exact h
  | step _ hok hstep ih => exact .step (ih h) hok hstep

theorem Run.head {e : E} (hok : ok e s) (hstep : step e s t) (h : Run step ok t u) :
    Run step ok s u :=
  Run.trans (.step (.refl s) hok hstep) h

theorem Run.mono {ok' : E → S → Prop} (himp : ∀ e s, ok e s → ok' e s) (h : Run step ok s t) :
    Run step ok' s t := by
  induction h with
  | refl => exact .refl _
  | step _ hok hstep ih => exact .step ih (himp _ _ hok) hstep

/-- What every step keeps, every run keeps. -/
theorem Run.invariant {I : S → Prop} (hkeeps : ∀ e s t, I s → ok e s → step e s t → I t)
    (hs : I s) (h : Run step ok s t) : I t := by
  induction h with
  | refl => exact hs
  | step _ hok hstep ih => exact hkeeps _ _ _ (ih hs) hok hstep

end Runs

section Surely

variable {S : Type} (step : S → S → Prop)

/-- Every run goes on until it gets to `Q`. -/
inductive Surely (Q : S → Prop) : S → Prop
  | here {s : S} : Q s → Surely Q s
  | step {s t : S} : step s t → (∀ u, step s u → Surely Q u) → Surely Q s

variable {step} {Q Q' : S → Prop} {s t : S}

theorem Surely.bind (h : Surely step Q s) (hnext : ∀ t, Q t → Surely step Q' t) : Surely step Q' s := by
  induction h with
  | here hs => exact hnext _ hs
  | step hstep _ ih => exact .step hstep ih

theorem Surely.mono (h : Surely step Q s) (himp : ∀ t, Q t → Q' t) : Surely step Q' s :=
  h.bind fun t ht => .here (himp t ht)

end Surely

section Play

variable {E M S : Type} {step : E → S → S → Prop} {ok : E → S → Prop} {s t : S}

/-- Make the moves one after the other; `check` is tested before each. -/
def play (next : M → S → Option S) (check : M → S → Bool) : List M → S → Option S
  | [], s => some s
  | m :: ms, s => if check m s then (next m s).bind (play next check ms) else none

variable {next : M → S → Option S} {check : M → S → Bool} {ms : List M}

theorem play_cons {m : M} (h : play next check (m :: ms) s = some t) :
    check m s = true ∧ ∃ u, next m s = some u ∧ play next check ms u = some t := by
  rcases Option.ite_none_right_eq_some.mp h with ⟨hcheck, hbind⟩
  exact ⟨hcheck, Option.bind_eq_some_iff.mp hbind⟩

/-- Moves that pass a check for `ok` make a run. -/
theorem play_run {label : M → E} (hnext : ∀ m s t, next m s = some t → step (label m) s t)
    (hcheck : ∀ m s, check m s = true → ok (label m) s) (h : play next check ms s = some t) :
    Run step ok s t := by
  induction ms generalizing s with
  | nil =>
    cases h
    exact .refl _
  | cons m ms ih =>
    rcases play_cons h with ⟨hm, u, hu, hrest⟩
    exact .head (hcheck m s hm) (hnext m s u hu) (ih hrest)

/-- The same for a system whose steps are what the labels compute. -/
theorem play_labels {next : E → S → Option S} {check : E → S → Bool} {es : List E}
    (hcheck : ∀ e s, check e s = true → ok e s) (h : play next check es s = some t) :
    Run (fun e s t => next e s = some t) ok s t :=
  play_run (fun _ _ _ hnext => hnext) hcheck h

theorem play_invariant {I : S → Prop} (hnext : ∀ m s t, next m s = some t → I s → I t)
    (hs : I s) (h : play next check ms s = some t) : I t := by
  induction ms generalizing s with
  | nil =>
    cases h
    exact hs
  | cons m ms ih =>
    rcases play_cons h with ⟨-, u, hu, hrest⟩
    exact ih (hnext m s u hu hs) hrest

end Play

end LptStore.Lib
