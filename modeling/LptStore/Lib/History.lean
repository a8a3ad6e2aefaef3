import LptStore.Lib.Trace

/-!
# Programs and the history of their runs

What has happened in a run so far is summed up in a history variable, noted after each operation. A
program meets `wlp` if in every environment whose answers are admitted each operation finds the
history as `I` wants it, and `Q` holds when the program returns. The runs need not end: what `I` says
holds of every beginning of a run.
-/

namespace LptStore.Lib

variable {Op : Type} {Resp : Op → Type} {α β σ : Type}

namespace Prog

/-- A run of the program may begin with these operations and answers. -/
inductive Begins : Prog Op Resp α → List (Issued Op Resp) → Prop
  | nil (p : Prog Op Resp α) : Begins p []
  | op {o : Op} {k : Resp o → Prog Op Resp α} (r : Resp o) {es : List (Issued Op Resp)} :
      Begins (k r) es → Begins (.op o k) (⟨o, r⟩ :: es)

theorem Trace.begins {p : Prog Op Resp α} {es : List (Issued Op Resp)} {a : α}
    (h : Trace p es a) : Begins p es := by
  induction h with
  | ret a => exact .nil _
  | op r _ ih => exact .op r ih

section Wlp

variable (ok : Issued Op Resp → Prop) (note : σ → Issued Op Resp → σ)
  (I : Issued Op Resp → σ → Prop)

/-- As long as the answers are admitted, every operation meets `I` in the history before it, and `Q`
holds of the result and the history in the end. -/
def wlp (Q : α → σ → Prop) : Prog Op Resp α → σ → Prop
  | .ret a, s => Q a s
  | .op o k, s => ∀ r, ok ⟨o, r⟩ → I ⟨o, r⟩ s ∧ wlp Q (k r) (note s ⟨o, r⟩)

variable {ok note I} {Q Q' : α → σ → Prop} {p : Prog Op Resp α} {s : σ}

theorem wlp_mono (hpost : ∀ a s, Q a s → Q' a s) (h : wlp ok note I Q p s) :
    wlp ok note I Q' p s := by
  induction p generalizing s with
  | ret a => exact hpost a s h
  | op o k ih => exact fun r hr => ⟨(h r hr).1, ih r (h r hr).2⟩

theorem wlp_bind {f : α → Prog Op Resp β} {R : β → σ → Prop}
    (h : wlp ok note I (fun a s => wlp ok note I R (f a) s) p s) :
    wlp ok note I R (p.bind f) s := by
  induction p generalizing s with
  | ret a => exact h
  | op o k ih => exact fun r hr => ⟨(h r hr).1, ih r (h r hr).2⟩

/-- Sequential composition through an assertion between the two parts. -/
theorem wlp_seq {f : α → Prog Op Resp β} {R : β → σ → Prop} (h : wlp ok note I Q p s)
    (hf : ∀ a s, Q a s → wlp ok note I R (f a) s) : wlp ok note I R (p.bind f) s :=
  wlp_bind (wlp_mono hf h)

theorem Trace.post {es : List (Issued Op Resp)} {a : α} (ht : Trace p es a)
    (h : wlp ok note I Q p s) (hok : ∀ e ∈ es, ok e) : Q a (es.foldl note s) := by
  induction ht generalizing s with
  | ret a => exact h
  | op r _ ih =>
    rcases List.forall_mem_cons.mp hok with ⟨hr, hok⟩
    exact ih (h r hr).2 hok

theorem Begins.each {es es' : List (Issued Op Resp)} {e : Issued Op Resp}
    (hb : Begins p (es ++ e :: es')) (h : wlp ok note I Q p s)
    (hok : ∀ x ∈ es ++ e :: es', ok x) : I e (es.foldl note s) := by
  induction es generalizing p s with
  | nil =>
    cases hb with
    | op r hrest => exact (h r (hok _ List.mem_cons_self)).1
  | cons x es ih =>
    cases hb with
    | op r hrest =>
      rcases List.forall_mem_cons.mp hok with ⟨hr, hok⟩
      exact ih hrest (h r hr).2 hok

end Wlp

/-- A handler that keeps the history as its state gives a trace. -/
theorem trace_of_exec {handle : ∀ o : Op, σ → Option (Resp o × σ)} {ok : Issued Op Resp → Prop}
    {note : σ → Issued Op Resp → σ} {p : Prog Op Resp α} {s s' : σ} {a : α}
    (hhandle : ∀ o s r s', handle o s = some (r, s') → ok ⟨o, r⟩ ∧ s' = note s ⟨o, r⟩)
    (h : p.exec handle s = some (a, s')) :
    ∃ es, Trace p es a ∧ (∀ e ∈ es, ok e) ∧ s' = es.foldl note s := by
  induction p generalizing s with
  | ret b =>
    cases h
    exact ⟨[], .ret _, fun _ he => absurd he List.not_mem_nil, rfl⟩
  | op o k ih =>
    unfold exec at h
    cases hop : handle o s with
    | none =>
      rw [hop] at h
      cases h
    | some x =>
      rw [hop] at h
      rcases hhandle o s x.1 x.2 hop with ⟨hx, hnote⟩
      rcases ih x.1 h with ⟨es, htrace, hes, hs'⟩
      refine ⟨⟨o, x.1⟩ :: es, .op x.1 htrace, List.forall_mem_cons.mpr ⟨hx, hes⟩, ?_⟩
      rw [List.foldl_cons, ← hnote]
      exact hs'

end Prog

end LptStore.Lib
