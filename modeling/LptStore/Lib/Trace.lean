import LptStore.Lib.Prog

/-!
# Traces of a program

A trace is the list of the operations a run of a program issues, each with its answer. Nothing is
assumed about the answers: what holds of every trace holds in every environment. `Only P` says that
a program issues none but the operations in `P`, and `interp` replaces each operation by a program
over a lower signature.
-/

namespace LptStore.Lib

variable {Op Op' : Type} {Resp : Op → Type} {Resp' : Op' → Type} {α β : Type}

/-- An operation and the answer to it. -/
abbrev Issued (Op : Type) (Resp : Op → Type) := Σ o : Op, Resp o

namespace Prog

/-- The program may issue these operations, get these answers and return this value. -/
inductive Trace : Prog Op Resp α → List (Issued Op Resp) → α → Prop
  | ret (a : α) : Trace (.ret a) [] a
  | op {o : Op} {k : Resp o → Prog Op Resp α} (r : Resp o) {es : List (Issued Op Resp)} {a : α} :
      Trace (k r) es a → Trace (.op o k) (⟨o, r⟩ :: es) a

theorem trace_ret {a b : α} {es : List (Issued Op Resp)} :
    Trace (.ret a : Prog Op Resp α) es b ↔ es = [] ∧ b = a := by
  constructor
  · intro h
    cases h
    exact ⟨rfl, rfl⟩
  · rintro ⟨rfl, rfl⟩
    exact .ret b

theorem trace_op {o : Op} {k : Resp o → Prog Op Resp α} {a : α} {es : List (Issued Op Resp)} :
    Trace (.op o k) es a ↔ ∃ r es', es = ⟨o, r⟩ :: es' ∧ Trace (k r) es' a := by
  constructor
  · intro h
    cases h with
    | op r h => exact ⟨r, _, rfl, h⟩
  · rintro ⟨r, es', rfl, h⟩
    exact .op r h

theorem trace_bind {p : Prog Op Resp α} {f : α → Prog Op Resp β} {b : β}
    {es : List (Issued Op Resp)} :
    Trace (p.bind f) es b ↔ ∃ es₁ es₂ a, es = es₁ ++ es₂ ∧ Trace p es₁ a ∧ Trace (f a) es₂ b := by
  induction p generalizing es with
  | ret a =>
    constructor
    · intro h
      exact ⟨[], es, a, rfl, .ret a, h⟩
    · rintro ⟨es₁, es₂, a', rfl, h₁, h₂⟩
      cases h₁
      exact h₂
  | op o k ih =>
    constructor
    · intro h
      rcases trace_op.mp h with ⟨r, es', rfl, h'⟩
      rcases (ih r).mp h' with ⟨es₁, es₂, a, rfl, h₁, h₂⟩
      exact ⟨⟨o, r⟩ :: es₁, es₂, a, rfl, .op r h₁, h₂⟩
    · rintro ⟨es₁, es₂, a, rfl, h₁, h₂⟩
      rcases trace_op.mp h₁ with ⟨r, es', rfl, h'⟩
      exact .op r ((ih r).mpr ⟨es', es₂, a, rfl, h', h₂⟩)

/-- Run a program against an environment that answers from a state, and record the trace. -/
def record {σ : Type} (answer : ∀ o, σ → Resp o × σ) : Prog Op Resp α → σ → List (Issued Op Resp) × α
  | ret a, _ => ([], a)
  | op o k, s =>
      let (r, s') := answer o s
      let (es, a) := record answer (k r) s'
      (⟨o, r⟩ :: es, a)

theorem trace_record {σ : Type} (answer : ∀ o, σ → Resp o × σ) (p : Prog Op Resp α) (s : σ) :
    Trace p (record answer p s).1 (record answer p s).2 := by
  induction p generalizing s with
  | ret a => exact .ret a
  | op o k ih => exact .op (answer o s).1 (ih _ (answer o s).2)

/-- Execute a program against a handler and keep the trace, also where the program never returns. -/
def transcript {σ : Type} (handle : ∀ o, σ → Option (Resp o × σ)) :
    Prog Op Resp α → σ → List (Issued Op Resp) × Option (α × σ)
  | ret a, s => ([], some (a, s))
  | op o k, s =>
      match handle o s with
      | none => ([], none)
      | some (r, s') =>
        (⟨o, r⟩ :: (transcript handle (k r) s').1, (transcript handle (k r) s').2)

section Transcript

variable {σ : Type} {handle : ∀ o, σ → Option (Resp o × σ)}

theorem transcript_some {o : Op} {k : Resp o → Prog Op Resp α} {r : Resp o} {s s' : σ}
    (h : handle o s = some (r, s')) : transcript handle (op o k) s =
      (⟨o, r⟩ :: (transcript handle (k r) s').1, (transcript handle (k r) s').2) := by
  simp only [transcript, h]

theorem transcript_none {o : Op} {k : Resp o → Prog Op Resp α} {s : σ} (h : handle o s = none) :
    transcript handle (op o k) s = ([], none) := by
  simp only [transcript, h]

/-- A handler whose answers show as those of another: a program is answered the same. -/
theorem transcript_map {τ : Type} {f : σ → τ} {handle' : ∀ o, τ → Option (Resp o × τ)}
    (h : ∀ o s, (handle o s).map (fun x => (x.1, f x.2)) = handle' o (f s)) (p : Prog Op Resp α)
    (s : σ) : (transcript handle p s).1 = (transcript handle' p (f s)).1 ∧
      (exec handle p s).map (fun x => (x.1, f x.2)) = exec handle' p (f s) := by
  induction p generalizing s with
  | ret a => exact ⟨rfl, rfl⟩
  | op o k ih =>
    have hop := h o s
    cases hcall : handle o s with
    | none =>
      rw [hcall, Option.map_none] at hop
      rw [transcript_none hcall, transcript_none hop.symm]
      simp only [exec, hcall, ← hop, Option.map_none, and_self]
    | some x =>
      rw [hcall, Option.map_some] at hop
      obtain ⟨hlog, hrun⟩ := ih x.1 x.2
      rw [transcript_some hcall, transcript_some hop.symm, hlog]
      simp only [exec, hcall, ← hop, hrun, and_self]

end Transcript

/-- Every operation of the program is in `P`, whatever the answers. -/
def Only (P : Op → Prop) : Prog Op Resp α → Prop
  | ret _ => True
  | op o k => P o ∧ ∀ r, Only P (k r)

theorem Only.bind {P : Op → Prop} {p : Prog Op Resp α} {f : α → Prog Op Resp β} (hp : Only P p)
    (hf : ∀ a, Only P (f a)) : Only P (p.bind f) := by
  induction p with
  | ret a => exact hf a
  | op o k ih => exact ⟨hp.1, fun r => ih r (hp.2 r)⟩

theorem Trace.only {P : Op → Prop} {p : Prog Op Resp α} {es : List (Issued Op Resp)} {a : α}
    (h : Trace p es a) (hp : Only P p) : ∀ e ∈ es, P e.1 := by
  induction h with
  | ret a => simp
  | op r _ ih =>
    intro e he
    rcases List.mem_cons.mp he with rfl | he
    · exact hp.1
    · exact ih (hp.2 r) e he

/-- Every operation of the program together with what follows it is in `P`, whatever the answers. -/
def Throughout (P : ∀ o, (Resp o → Prog Op Resp α) → Prop) : Prog Op Resp α → Prop
  | ret _ => True
  | op o k => P o k ∧ ∀ r, Throughout P (k r)

theorem Throughout.only {P : ∀ o, (Resp o → Prog Op Resp α) → Prop} {Q : Op → Prop}
    {p : Prog Op Resp α} (h : Throughout P p) (hle : ∀ o k, P o k → Q o) : Only Q p := by
  induction p with
  | ret a => trivial
  | op o k ih => exact ⟨hle o k h.1, fun r => ih r (h.2 r)⟩

/-- Replace every operation by a program over another signature. -/
def interp (f : ∀ o, Prog Op' Resp' (Resp o)) : Prog Op Resp α → Prog Op' Resp' α
  | ret a => ret a
  | op o k => (f o).bind fun r => interp f (k r)

@[simp] theorem interp_ret (f : ∀ o, Prog Op' Resp' (Resp o)) (a : α) :
    interp f (ret a) = ret a := rfl

@[simp] theorem interp_op (f : ∀ o, Prog Op' Resp' (Resp o)) (o : Op)
    (k : Resp o → Prog Op Resp α) :
    interp f (op o k) = (f o).bind fun r => interp f (k r) := rfl

@[simp] theorem interp_bind (f : ∀ o, Prog Op' Resp' (Resp o)) (p : Prog Op Resp α)
    (g : α → Prog Op Resp β) : interp f (p.bind g) = (interp f p).bind fun a => interp f (g a) := by
  induction p with
  | ret a => rfl
  | op o k ih => simp [ih]

end Prog

end LptStore.Lib
