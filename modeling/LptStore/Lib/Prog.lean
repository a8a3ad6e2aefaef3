import Mathlib.Tactic.Common

/-!
# Programs over an effect signature

A program issues operations `o : Op` of a signature, each answered by a value of
`Resp o`, and finally returns. The trees are inductive: a loop that can spin for ever is
an operation of the signature, never an infinite branch. `exec` executes a program against a
handler that answers its operations from a state, and may hang.
-/

namespace LptStore.Lib

/-- A program that issues operations of the signature `(Op, Resp)` and returns an `α`. -/
inductive Prog (Op : Type) (Resp : Op → Type) (α : Type) where
  | ret (a : α)
  | op (o : Op) (k : Resp o → Prog Op Resp α)

namespace Prog

variable {Op : Type} {Resp : Op → Type} {α β γ σ : Type}

/-- Sequential composition. -/
def bind : Prog Op Resp α → (α → Prog Op Resp β) → Prog Op Resp β
  | ret a, f => f a
  | op o k, f => op o fun r => bind (k r) f

instance : Monad (Prog Op Resp) where
  pure := ret
  bind := bind

@[simp] theorem pure_eq (a : α) : (pure a : Prog Op Resp α) = ret a := rfl

@[simp] theorem bind_eq (p : Prog Op Resp α) (f : α → Prog Op Resp β) : p >>= f = p.bind f := rfl

@[simp] theorem ret_bind (a : α) (f : α → Prog Op Resp β) : (ret a).bind f = f a := rfl

@[simp] theorem op_bind (o : Op) (k : Resp o → Prog Op Resp α) (f : α → Prog Op Resp β) :
    (op o k).bind f = op o fun r => (k r).bind f := rfl

@[simp] theorem bind_ret (p : Prog Op Resp α) : p.bind ret = p := by
  induction p with
  | ret a => rfl
  | op o k ih => simp [ih]

@[simp] theorem bind_assoc (p : Prog Op Resp α) (f : α → Prog Op Resp β)
    (g : β → Prog Op Resp γ) : (p.bind f).bind g = p.bind fun a => (f a).bind g := by
  induction p with
  | ret a => rfl
  | op o k ih => simp [ih]

/-- Execute a program, every operation answered by `handle` from the current state: `none` where it
never returns. -/
def exec (handle : ∀ o, σ → Option (Resp o × σ)) : Prog Op Resp α → σ → Option (α × σ)
  | ret a, s => some (a, s)
  | op o k, s =>
      match handle o s with
      | none => none
      | some (r, s') => exec handle (k r) s'

theorem exec_bind (handle : ∀ o, σ → Option (Resp o × σ)) (p : Prog Op Resp α)
    (f : α → Prog Op Resp β) (s : σ) :
    exec handle (p.bind f) s = (exec handle p s).bind fun x => exec handle (f x.1) x.2 := by
  induction p generalizing s with
  | ret a => rfl
  | op o k ih =>
    simp only [op_bind, exec]
    cases handle o s with
    | none => rfl
    | some x => exact ih x.1 x.2

end Prog

end LptStore.Lib
