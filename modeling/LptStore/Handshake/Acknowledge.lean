import LptStore.Handshake.Lines
import LptStore.Protocol.Requests

/-!
# The acknowledge line between two calls

`lptprotocol_task` down to its pins: every call into `lptcomms.c` is replaced by the routine itself.
A trace has whatever words `gpio_get_all` returns and lets any wait expire, so it covers every host.
GPIO 19 is left high by one exit only, that of `lptcomms_readbyte` when the host does not take the
strobe back.
-/

namespace LptStore.Handshake

open LptStore.Lib LptStore.Protocol Prog

/-- The accesses to the pins, and the operations of `lptprotocol_task` that are none. -/
inductive CoreOp where
  | gpio (o : GpioOp)
  | dev (o : DevOp)

@[reducible] def CoreResp : CoreOp → Type
  | .gpio o => GpioResp o
  | .dev o => DevResp o

abbrev CoreProg := Prog CoreOp CoreResp

/-- A routine of `lptcomms.c` as a program of the core. -/
def onPins {α : Type} (p : GpioProg α) : CoreProg α :=
  p.interp fun o => .op (CoreOp.gpio o) .ret

/-- Every call of `lptprotocol_task`, the link calls down to their pins. -/
def lower : ∀ o : DevOp, CoreProg (DevResp o)
  | .hasbyte => onPins Handshake.lptcommsHasbyte
  | .readbyte => onPins Handshake.lptcommsReadbyte
  | .writebyte b => onPins (Handshake.lptcommsWritebyte b)
  | .store buf i => .op (CoreOp.dev (.store buf i)) .ret
  | .getDrives => .op (CoreOp.dev .getDrives) .ret
  | .getBlocks disk => .op (CoreOp.dev (.getBlocks disk)) .ret
  | .readSector disk lbn buff => .op (CoreOp.dev (.readSector disk lbn buff)) .ret
  | .writeSector disk lbn buff => .op (CoreOp.dev (.writeSector disk lbn buff)) .ret

/-- `lptprotocol_task` on its pins. -/
def taskOnPins (b : Bufs) : CoreProg Bufs := (lptprotocolTask b).interp lower

/-- GPIO 19 after an event. -/
def ackStep (level : Bool) : Issued CoreOp CoreResp → Bool
  | ⟨.gpio (.put pin v), _⟩ => if pin = 19 then v else level
  | _ => level

/-- GPIO 19 after some events. -/
def ackAfter (level : Bool) (es : List (Issued CoreOp CoreResp)) : Bool := es.foldl ackStep level

/-- A wait for the strobe to fall expires. -/
def strobeStuck : Issued CoreOp CoreResp → Bool
  | ⟨.gpio (.waittimeout value), none⟩ => value == 0x10
  | _ => false

/-- No wait for the strobe to fall expires while GPIO 19 is high. -/
def NeverHeld (level : Bool) : List (Issued CoreOp CoreResp) → Prop
  | [] => True
  | e :: es => (strobeStuck e = true → level = false) ∧ NeverHeld (ackStep level e) es

instance decidableNeverHeld : ∀ level es, Decidable (NeverHeld level es)
  | _, [] => .isTrue trivial
  | level, e :: es =>
      have := decidableNeverHeld (ackStep level e) es
      inferInstanceAs (Decidable (_ ∧ _))

theorem neverHeld_append {level : Bool} {es es' : List (Issued CoreOp CoreResp)} :
    NeverHeld level (es ++ es') ↔ NeverHeld level es ∧ NeverHeld (ackAfter level es) es' := by
  induction es generalizing level with
  | nil => simp [NeverHeld, ackAfter]
  | cons e es ih => simp [NeverHeld, ackAfter, ih, and_assoc]

/-- A byte that did not come. -/
def Lost : ∀ o : DevOp, DevResp o → Prop
  | .readbyte, none => True
  | _, _ => False

theorem readbyte_ack {es : List (Issued CoreOp CoreResp)} {r : Option UInt8}
    (h : Trace (lower .readbyte) es r) :
    (ackAfter false es = false ∧ NeverHeld false es) ∨
      (ackAfter false es = true ∧ ¬ NeverHeld false es ∧ r = none) := by
  rcases trace_op.mp h with ⟨c, es₁, rfl, h₁⟩
  cases c with
  | none =>
    rcases trace_op.mp h₁ with ⟨_, es₂, rfl, h₂⟩
    rcases trace_ret.mp h₂ with ⟨rfl, rfl⟩
    exact .inl ⟨rfl, by simp [NeverHeld, ackStep]⟩
  | some c =>
    rcases trace_op.mp h₁ with ⟨_, es₂, rfl, h₂⟩
    rcases trace_op.mp h₂ with ⟨_, es₃, rfl, h₃⟩
    rcases trace_op.mp h₃ with ⟨d, es₄, rfl, h₄⟩
    cases d with
    | none =>
      -- the exit that forgets the line
      rcases trace_ret.mp h₄ with ⟨rfl, rfl⟩
      exact .inr ⟨rfl, by simp [NeverHeld, ackStep, strobeStuck], rfl⟩
    | some d =>
      rcases trace_op.mp h₄ with ⟨_, es₅, rfl, h₅⟩
      rcases trace_op.mp h₅ with ⟨_, es₆, rfl, h₆⟩
      rcases trace_ret.mp h₆ with ⟨rfl, rfl⟩
      exact .inl ⟨rfl, by simp [NeverHeld, strobeStuck]⟩

theorem writebyte_ack {b : UInt8} {es : List (Issued CoreOp CoreResp)} {r : Bool}
    (h : Trace (lower (.writebyte b)) es r) :
    ackAfter false es = false ∧ NeverHeld false es := by
  rcases trace_op.mp h with ⟨_, es₁, rfl, h₁⟩
  rcases trace_op.mp h₁ with ⟨_, es₂, rfl, h₂⟩
  rcases trace_op.mp h₂ with ⟨_, es₃, rfl, h₃⟩
  rcases trace_op.mp h₃ with ⟨_, es₄, rfl, h₄⟩
  rcases trace_op.mp h₄ with ⟨_, es₅, rfl, h₅⟩
  rcases trace_op.mp h₅ with ⟨c, es₆, rfl, h₆⟩
  cases c with
  | none =>
    rcases trace_op.mp h₆ with ⟨_, es₇, rfl, h₇⟩
    rcases trace_ret.mp h₇ with ⟨rfl, rfl⟩
    exact ⟨rfl, by simp [NeverHeld, strobeStuck]⟩
  | some c =>
    rcases trace_op.mp h₆ with ⟨_, es₇, rfl, h₇⟩
    rcases trace_op.mp h₇ with ⟨_, es₈, rfl, h₈⟩
    rcases trace_op.mp h₈ with ⟨_, es₉, rfl, h₉⟩
    rcases trace_op.mp h₉ with ⟨_, es₁₀, rfl, h₁₀⟩
    rcases trace_op.mp h₁₀ with ⟨_, es₁₁, rfl, h₁₁⟩
    rcases trace_op.mp h₁₁ with ⟨d, es₁₂, rfl, h₁₂⟩
    cases d with
    | none =>
      rcases trace_op.mp h₁₂ with ⟨_, es₁₃, rfl, h₁₃⟩
      rcases trace_ret.mp h₁₃ with ⟨rfl, rfl⟩
      exact ⟨rfl, by simp [NeverHeld, ackStep, strobeStuck]⟩
    | some d =>
      rcases trace_ret.mp h₁₂ with ⟨rfl, rfl⟩
      exact ⟨rfl, by simp [NeverHeld, strobeStuck]⟩

/-- An operation that is no access to a pin. -/
theorem dev_ack {o : DevOp} {r : DevResp o} {es : List (Issued CoreOp CoreResp)}
    (h : Trace (.op (CoreOp.dev o) .ret : CoreProg (DevResp o)) es r) :
    ackAfter false es = false ∧ NeverHeld false es := by
  rcases trace_op.mp h with ⟨a, es₁, rfl, h₁⟩
  rcases trace_ret.mp h₁ with ⟨rfl, -⟩
  exact ⟨rfl, by simp [NeverHeld, strobeStuck]⟩

/-- What one call does to GPIO 19: it leaves the line low, or it is a `lptcomms_readbyte` that gives
up on the falling strobe with the line high. -/
theorem lower_ack {o : DevOp} {es : List (Issued CoreOp CoreResp)} {r : DevResp o}
    (h : Trace (lower o) es r) :
    (ackAfter false es = false ∧ NeverHeld false es) ∨
      (ackAfter false es = true ∧ ¬ NeverHeld false es ∧ Lost o r) := by
  cases o with
  | hasbyte =>
    rcases trace_op.mp h with ⟨w, es₁, rfl, h₁⟩
    rcases trace_ret.mp h₁ with ⟨rfl, -⟩
    exact .inl ⟨rfl, by simp [NeverHeld, strobeStuck]⟩
  | readbyte =>
    rcases readbyte_ack h with hlow | ⟨hhigh, hheld, rfl⟩
    · exact .inl hlow
    · exact .inr ⟨hhigh, hheld, trivial⟩
  | writebyte b => exact .inl (writebyte_ack h)
  | store buf i => exact .inl (dev_ack h)
  | getDrives => exact .inl (dev_ack h)
  | getBlocks disk => exact .inl (dev_ack h)
  | readSector disk lbn buff => exact .inl (dev_ack h)
  | writeSector disk lbn buff => exact .inl (dev_ack h)

section Requests

variable {α β : Type}

/-- A byte that does not come is the end of the program. -/
def LossEnds : DevProg α → Prop
  | .ret _ => True
  | .op o k => ∀ r, LossEnds (k r) ∧ (Lost o r → ∃ a, k r = .ret a)

theorem lossEnds_quiet {p : DevProg α} (h : Only DevOp.Quiet p) : LossEnds p := by
  induction p with
  | ret a => trivial
  | op o k ih =>
    intro r
    refine ⟨ih r (h.2 r), fun hlost => ?_⟩
    have hquiet := h.1
    cases o with
    | readbyte => exact hquiet.elim
    | _ => exact hlost.elim

/-- After `lptcomms_readbytes`, a program that ends where it failed. -/
theorem lossEnds_readbytes {buf : BufId} {f : Bool × Sector → DevProg β}
    (hfail : ∀ buff, ∃ a, f (false, buff) = .ret a) (hok : ∀ buff, LossEnds (f (true, buff)))
    (n i : Nat) (buff : Sector) : LossEnds ((readbytesFrom buf n i buff).bind f) := by
  induction n generalizing i buff with
  | zero => exact hok buff
  | succ n ih =>
    intro r
    cases r with
    | none =>
      rcases hfail buff with ⟨a, ha⟩
      refine ⟨?_, fun _ => ⟨a, ha⟩⟩
      show LossEnds (f (false, buff))
      rw [ha]
      trivial
    | some b => exact ⟨fun _ => ⟨ih (i + 1) (buff.set i b), False.elim⟩, False.elim⟩

theorem lossEnds_receiveBlock (drv : UInt8) (lba : UInt32) (compressed : UInt16) (b : Bufs) :
    LossEnds (receiveBlock drv lba compressed b) := by
  unfold receiveBlock
  split_ifs
  · refine lossEnds_readbytes ?_ ?_ _ 0 _
    · exact fun buff => ⟨_, rfl⟩
    · exact fun buff => lossEnds_quiet (only_storeBlock _ _ _)
  · refine lossEnds_readbytes ?_ ?_ _ 0 _
    · exact fun buff => ⟨_, rfl⟩
    · exact fun buff => lossEnds_quiet (only_storeBlock _ _ _)

/-- In every request, a byte that does not come is the end of the call. -/
theorem lossEnds_dispatch (cmd : UInt8) (b : Bufs) : LossEnds (dispatch cmd b) := by
  unfold dispatch
  split_ifs
  · exact lossEnds_quiet ((only_writebytes _).bind fun _ => trivial)
  · exact lossEnds_quiet ⟨trivial, fun _ => (only_writebytes _).bind fun _ => trivial⟩
  · refine lossEnds_readbytes ?_ ?_ _ 0 _
    · exact fun buff => ⟨_, rfl⟩
    · exact fun buff => lossEnds_quiet ⟨trivial, fun _ => (only_writebytes _).bind fun _ => trivial⟩
  · refine lossEnds_readbytes ?_ ?_ _ 0 _
    · exact fun buff => ⟨_, rfl⟩
    · exact fun buff => lossEnds_quiet (only_fetchBlock _ _ _)
  · refine lossEnds_readbytes ?_ ?_ _ 0 _
    · exact fun buff => ⟨_, rfl⟩
    · exact fun buff => lossEnds_receiveBlock _ _ _ _
  · trivial

theorem lossEnds_task (b : Bufs) : LossEnds (lptprotocolTask b) := by
  intro found
  cases found with
  | false => exact ⟨trivial, False.elim⟩
  | true =>
    refine ⟨fun r => ⟨lossEnds_dispatch _ b, fun hlost => ?_⟩, False.elim⟩
    cases r with
    | none => exact ⟨b, rfl⟩
    | some cmd => exact hlost.elim

end Requests

/-- From a low line, a program that ends at a lost byte leaves the line low exactly if it never gave
up on the falling strobe. -/
theorem ack_low_iff {α : Type} {p : DevProg α} (hp : LossEnds p) {es : List (Issued CoreOp CoreResp)}
    {a : α} (h : Trace (p.interp lower) es a) : ackAfter false es = false ↔ NeverHeld false es := by
  induction p generalizing es with
  | ret a =>
    rcases trace_ret.mp h with ⟨rfl, -⟩
    exact iff_of_true rfl trivial
  | op o k ih =>
    rcases trace_bind.mp h with ⟨es₁, es₂, r, rfl, h₁, h₂⟩
    have happend : ackAfter false (es₁ ++ es₂) = ackAfter (ackAfter false es₁) es₂ :=
      List.foldl_append
    rw [happend, neverHeld_append]
    rcases lower_ack h₁ with ⟨hlow, hnever⟩ | ⟨hhigh, hheld, hlost⟩
    · rw [hlow, ih r (hp r).1 h₂]
      exact (and_iff_right hnever).symm
    · -- the call was the last of the program
      rcases (hp r).2 hlost with ⟨a', ha'⟩
      rw [ha'] at h₂
      rcases trace_ret.mp h₂ with ⟨rfl, -⟩
      refine iff_of_false ?_ fun hn => hheld hn.1
      rw [hhigh]
      exact Bool.noConfusion

/-- Calls of `lptprotocol_task` one after the other, each with its trace. -/
inductive Calls : Bufs → List (List (Issued CoreOp CoreResp)) → Bufs → Prop
  | nil (b : Bufs) : Calls b [] b
  | cons {b b₁ b' : Bufs} {es : List (Issued CoreOp CoreResp)}
      {calls : List (List (Issued CoreOp CoreResp))} :
      Trace (taskOnPins b) es b₁ → Calls b₁ calls b' → Calls b (es :: calls) b'

/-- GPIO 19 is low whenever `lptprotocol_task` returns, exactly in the runs in which no wait for the
strobe to fall expires while the line is high. -/
theorem ack_idle_iff {b b' : Bufs} {calls : List (List (Issued CoreOp CoreResp))}
    (h : Calls b calls b') :
    (∀ n, ackAfter false (calls.take n).flatten = false) ↔ NeverHeld false calls.flatten := by
  induction h with
  | nil b => simp [ackAfter, NeverHeld]
  | @cons b b₁ b' es calls h₁ h₂ ih =>
    have hfirst := ack_low_iff (lossEnds_task b) h₁
    have happend : ∀ es', ackAfter false (es ++ es') = ackAfter (ackAfter false es) es' :=
      fun es' => List.foldl_append
    rw [List.flatten_cons, neverHeld_append]
    constructor
    · intro hidle
      have hlow : ackAfter false es = false := by simpa using hidle 1
      refine ⟨hfirst.mp hlow, ?_⟩
      rw [hlow, ← ih]
      intro n
      have hn := hidle (n + 1)
      rwa [List.take_succ_cons, List.flatten_cons, happend, hlow] at hn
    · rintro ⟨hnever, hrest⟩ n
      have hlow := hfirst.mpr hnever
      rw [hlow] at hrest
      cases n with
      | zero => rfl
      | succ n =>
        rw [List.take_succ_cons, List.flatten_cons, happend, hlow]
        exact ih.mpr hrest n

/-- A host that raises the strobe over zero data bits, and takes it back or stops. -/
def strobing (falls : Bool) : ∀ o : CoreOp, Unit → CoreResp o × Unit
  | .gpio .getAll, u => (0x200000, u)
  | .gpio (.put _ _), u => ((), u)
  | .gpio (.waittimeout value), u =>
      (if value = 0x10 ∧ falls = false then none else some (value ^^^ 0x10), u)
  | .dev .hasbyte, u => (false, u)
  | .dev .readbyte, u => (none, u)
  | .dev (.writebyte _), u => (false, u)
  | .dev (.store _ _), u => ((), u)
  | .dev .getDrives, u => (0, u)
  | .dev (.getBlocks _), u => (0, u)
  | .dev (.readSector _ _ buff), u => ((0, buff), u)
  | .dev (.writeSector _ _ _), u => (0, u)

/-- The call such a host gets. -/
def strobedCall (falls : Bool) : List (Issued CoreOp CoreResp) :=
  (record (strobing falls) (taskOnPins ⟨.zero, .zero⟩) ()).1

theorem calls_strobed (falls : Bool) :
    Calls ⟨.zero, .zero⟩ [strobedCall falls]
      (record (strobing falls) (taskOnPins ⟨.zero, .zero⟩) ()).2 :=
  .cons (trace_record _ _ _) (.nil _)

/-- A HELLO answered in full. -/
theorem ack_idle_hello :
    NeverHeld false [strobedCall true].flatten ∧
      ∀ n, ackAfter false ([strobedCall true].take n).flatten = false := by
  have hnever : NeverHeld false [strobedCall true].flatten := by decide +kernel
  exact ⟨hnever, (ack_idle_iff (calls_strobed true)).mpr hnever⟩

/-- A host that stops with the strobe up: the command byte is given up and the line stays high. -/
theorem ack_left_high :
    ¬ ∀ (b b' : Bufs) (calls : List (List (Issued CoreOp CoreResp))), Calls b calls b' →
      ∀ n, ackAfter false (calls.take n).flatten = false := by
  intro h
  have hlow := h _ _ _ (calls_strobed false) 1
  have hhigh : ackAfter false ([strobedCall false].take 1).flatten = true := by decide +kernel
  rw [hhigh] at hlow
  cases hlow

end LptStore.Handshake
