import Mathlib.Data.List.Basic
import Mathlib.Tactic.Common

/-!
# Loops with a bound on their rounds

A `while` loop is a function that answers a state with the next one or with the result, and
`iterate` runs it for a bounded number of rounds. What the loop computes is what some bound reaches:
`Runs` forgets the bound, and by `Runs.unique` it says all there is to say. `Chain` is the list of the
states a loop without a result goes through, and `trail` computes it.
-/

namespace LptStore.Lib

variable {σ ρ : Type}

/-- At most `n` rounds of a loop. -/
def iterate (step : σ → σ ⊕ ρ) : Nat → σ → Option ρ
  | 0, _ => none
  | n + 1, s =>
      match step s with
      | .inl s' => iterate step n s'
      | .inr r => some r

/-- The loop ends with the result `r`. -/
def Runs (step : σ → σ ⊕ ρ) (s : σ) (r : ρ) : Prop := ∃ n, iterate step n s = some r

section Runs

variable {step : σ → σ ⊕ ρ} {s s' : σ} {r r' : ρ}

theorem iterate_inl {n : Nat} (h : step s = .inl s') :
    iterate step (n + 1) s = iterate step n s' := by
  simp [iterate, h]

theorem iterate_inr {n : Nat} (h : step s = .inr r) : iterate step (n + 1) s = some r := by
  simp [iterate, h]

/-- A larger bound changes no result. -/
theorem iterate_mono {n k : Nat} (h : iterate step n s = some r) (hle : n ≤ k) :
    iterate step k s = some r := by
  induction n generalizing k s with
  | zero => cases h
  | succ n ih =>
    cases k with
    | zero => cases hle
    | succ k =>
      have hle' : n ≤ k := Nat.le_of_succ_le_succ hle
      cases hs : step s with
      | inl s' =>
        rw [iterate_inl hs] at h ⊢
        exact ih h hle'
      | inr r' =>
        rw [iterate_inr hs] at h ⊢
        exact h

theorem Runs.unique (h : Runs step s r) (h' : Runs step s r') : r = r' := by
  rcases h with ⟨n, hn⟩
  rcases h' with ⟨k, hk⟩
  have hmax : iterate step (max n k) s = some r := iterate_mono hn (Nat.le_max_left n k)
  have hmax' : iterate step (max n k) s = some r' := iterate_mono hk (Nat.le_max_right n k)
  exact Option.some.inj (hmax.symm.trans hmax')

theorem Runs.done (h : step s = .inr r) : Runs step s r := ⟨1, iterate_inr h⟩

theorem Runs.round (h : step s = .inl s') (hrun : Runs step s' r) : Runs step s r := by
  rcases hrun with ⟨n, hn⟩
  exact ⟨n + 1, (iterate_inl h).trans hn⟩

theorem Runs.of_done (h : step s = .inr r) (hrun : Runs step s r') : r' = r :=
  hrun.unique (.done h)

theorem Runs.of_round (h : step s = .inl s') (hrun : Runs step s r) : Runs step s' r := by
  rcases hrun with ⟨n, hn⟩
  cases n with
  | zero => cases hn
  | succ n =>
    rw [iterate_inl h] at hn
    exact ⟨n, hn⟩

/-- What every round keeps, or turns into something of the result, is so of the result. -/
theorem iterate_invariant {I : σ → Prop} {J : ρ → Prop} {n : Nat}
    (hstep : ∀ s, I s → Sum.elim I J (step s)) (h : iterate step n s = some r) (hs : I s) : J r := by
  induction n generalizing s with
  | zero => cases h
  | succ n ih =>
    have hround := hstep s hs
    cases hcase : step s with
    | inl s' =>
      rw [hcase] at hround
      rw [iterate_inl hcase] at h
      exact ih h hround
    | inr r' =>
      rw [hcase] at hround
      rw [iterate_inr hcase] at h
      exact Option.some.inj h ▸ hround

/-- Finitely many loops that end do so within one bound. -/
theorem exists_bound {l : List σ} (h : ∀ s ∈ l, ∃ r, Runs step s r) :
    ∃ n₀, ∀ n, n₀ ≤ n → ∀ s ∈ l, (iterate step n s).isSome := by
  induction l with
  | nil => exact ⟨0, fun _ _ _ hs => absurd hs List.not_mem_nil⟩
  | cons a l ih =>
    rcases List.forall_mem_cons.mp h with ⟨⟨r, n₁, hn₁⟩, hl⟩
    rcases ih hl with ⟨n₂, hn₂⟩
    refine ⟨max n₁ n₂, ?_⟩
    intro n hn s hs
    rcases List.mem_cons.mp hs with rfl | hs
    · rw [iterate_mono hn₁ (Nat.le_trans (Nat.le_max_left _ _) hn)]
      rfl
    · exact hn₂ n (Nat.le_trans (Nat.le_max_right _ _) hn) s hs

end Runs

/-- The states from `a` on, up to the one that has no next. -/
inductive Chain (next : σ → Option σ) : σ → List σ → Prop
  | stop {a : σ} : next a = none → Chain next a []
  | step {a b : σ} {l : List σ} : next a = some b → Chain next b l → Chain next a (a :: l)

/-- The chain from `a`, if it has fewer than `n` states. -/
def trail (next : σ → Option σ) : Nat → σ → Option (List σ)
  | 0, _ => none
  | n + 1, a =>
      match next a with
      | none => some []
      | some b => (trail next n b).map (a :: ·)

section Chain

variable {next : σ → Option σ} {a b : σ} {l l' : List σ}

theorem trail_stop {n : Nat} (h : next a = none) : trail next (n + 1) a = some [] := by
  simp [trail, h]

theorem trail_step {n : Nat} (h : next a = some b) :
    trail next (n + 1) a = (trail next n b).map (a :: ·) := by
  simp [trail, h]

theorem Chain.unique (h : Chain next a l) (h' : Chain next a l') : l = l' := by
  induction h generalizing l' with
  | stop hn =>
    cases h' with
    | stop _ => rfl
    | step hn' _ =>
      rw [hn] at hn'
      cases hn'
  | step hn _ ih =>
    cases h' with
    | stop hn' =>
      rw [hn] at hn'
      cases hn'
    | step hn' htail =>
      rw [hn] at hn'
      cases hn'
      rw [ih htail]

/-- A chain is one of any walk that makes its steps and ends where the first ends. -/
theorem Chain.congr {next' : σ → Option σ} (h : Chain next a l)
    (hsame : ∀ x ∈ l, next' x = next x) (hend : ∀ x, next x = none → next' x = none) :
    Chain next' a l := by
  induction h with
  | stop hn => exact .stop (hend _ hn)
  | step hn _ ih =>
    obtain ⟨hfirst, hrest⟩ := List.forall_mem_cons.mp hsame
    exact .step (hfirst.trans hn) (ih hrest)

theorem chain_of_trail {n : Nat} (h : trail next n a = some l) : Chain next a l := by
  induction n generalizing a l with
  | zero => cases h
  | succ n ih =>
    cases hn : next a with
    | none =>
      rw [trail_stop hn] at h
      cases h
      exact .stop hn
    | some b =>
      rw [trail_step hn] at h
      rcases Option.map_eq_some_iff.mp h with ⟨l', htail, rfl⟩
      exact .step hn (ih htail)

theorem Chain.trail {n : Nat} (h : Chain next a l) (hlen : l.length < n) :
    trail next n a = some l := by
  induction h generalizing n with
  | stop hn =>
    cases n with
    | zero => cases hlen
    | succ n => exact trail_stop hn
  | step hn _ ih =>
    cases n with
    | zero => cases hlen
    | succ n =>
      rw [trail_step hn, ih (Nat.lt_of_succ_lt_succ hlen)]
      rfl

end Chain

end LptStore.Lib
