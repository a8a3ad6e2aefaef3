import LptStore.Lib.Prog

/-!
# Proof outlines under interference

A program shares its state with an environment that may step between any two of its operations. An
outline gives each point of the program an assertion: the operation there leads from it to the next
one, and no step of the environment falsifies it. A program that is inside an outline stays inside
whatever is interleaved with it, and returns with the postcondition.
-/

namespace LptStore.Lib

variable {Op : Type} {Resp : Op → Type} {α σ : Type}

/-- No step of the environment falsifies the assertion. -/
def Stable (env : σ → σ → Prop) (A : σ → Prop) : Prop := ∀ s t, A s → env s t → A t

section Outline

variable (act : ∀ o : Op, σ → Resp o → σ → Prop) (env : σ → σ → Prop)

/-- An outline of a program with the postcondition `Q`, started under an assertion. -/
inductive Outline (Q : α → σ → Prop) : Prog Op Resp α → (σ → Prop) → Prop
  | ret {a : α} {A : σ → Prop} : (∀ s, A s → Q a s) → Outline Q (.ret a) A
  | op {o : Op} {k : Resp o → Prog Op Resp α} {A A' : σ → Prop} (B : Resp o → σ → Prop) :
      (∀ s, A s → A' s) → Stable env A' → (∀ s r t, A' s → act o s r t → B r t) →
      (∀ r, Outline Q (k r) (B r)) → Outline Q (.op o k) A

/-- The program is at a point of an outline, in a state that meets the assertion there. -/
def Inside (Q : α → σ → Prop) (p : Prog Op Resp α) (s : σ) : Prop :=
  ∃ A, Outline act env Q p A ∧ A s

variable {act env} {Q : α → σ → Prop} {p : Prog Op Resp α} {s t : σ}

theorem Outline.pre {A B : σ → Prop} (h : Outline act env Q p B) (hpre : ∀ s, A s → B s) :
    Outline act env Q p A := by
  cases h with
  | ret hpost => exact .ret fun s hs => hpost s (hpre s hs)
  | op C hle hstable hact hrest => exact .op C (fun s hs => hle s (hpre s hs)) hstable hact hrest

/-- An operation whose assertion is stable. -/
theorem Outline.next {o : Op} {k : Resp o → Prog Op Resp α} {A : σ → Prop} (B : Resp o → σ → Prop)
    (hstable : Stable env A) (hact : ∀ s r t, A s → act o s r t → B r t)
    (hrest : ∀ r, Outline act env Q (k r) (B r)) : Outline act env Q (.op o k) A :=
  .op B (fun _ hs => hs) hstable hact hrest

theorem Inside.start {A : σ → Prop} (h : Outline act env Q p A) (hs : A s) : Inside act env Q p s :=
  ⟨A, h, hs⟩

theorem Inside.returned {a : α} (h : Inside act env Q (.ret a) s) : Q a s := by
  rcases h with ⟨A, houtline, hs⟩
  cases houtline with
  | ret hpost => exact hpost s hs

theorem Inside.of_post {a : α} (h : Q a s) : Inside act env Q (.ret a) s :=
  ⟨Q a, .ret fun _ hs => hs, h⟩

theorem Inside.acted {o : Op} {k : Resp o → Prog Op Resp α} {r : Resp o}
    (h : Inside act env Q (.op o k) s) (hstep : act o s r t) : Inside act env Q (k r) t := by
  rcases h with ⟨A, houtline, hs⟩
  cases houtline with
  | op B hle _ hact hrest => exact ⟨B r, hrest r, hact s r t (hle s hs) hstep⟩

theorem Inside.disturbed {o : Op} {k : Resp o → Prog Op Resp α} (h : Inside act env Q (.op o k) s)
    (hstep : env s t) : Inside act env Q (.op o k) t := by
  rcases h with ⟨A, houtline, hs⟩
  cases houtline with
  | op B hle hstable hact hrest =>
    exact ⟨_, .op B (fun _ hs => hs) hstable hact hrest, hstable s t (hle s hs) hstep⟩

end Outline

end LptStore.Lib
