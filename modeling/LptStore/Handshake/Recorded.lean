import LptStore.Handshake.Completion
import LptStore.Protocol.Direct

/-!
# What passes over the wires

The PC keeps a log of the bytes that it sends and receives. A program can keep the same log itself and
return it: `recorded` goes wherever the program goes, with the log of the PC up to there. So the end of the
hand-in-hand run of the recorded program says what has passed, and at any time before it was the beginning
of that.
-/

namespace LptStore.Handshake

open LptStore.Lib LptStore.Protocol

section Programs

variable {α β : Type}

def Log.send (lg : Log) (bs : List UInt8) : Log := { lg with passed := lg.passed ++ bs }

def Log.receive (lg : Log) (bs : List UInt8) : Log := { lg with returned := lg.returned ++ bs }

@[simp] theorem Log.send_nil (lg : Log) : lg.send [] = lg := by
  simp [Log.send]

@[simp] theorem Log.receive_nil (lg : Log) : lg.receive [] = lg := by
  simp [Log.receive]

@[simp] theorem Log.send_send (lg : Log) (bs bs' : List UInt8) :
    (lg.send bs).send bs' = lg.send (bs ++ bs') := by
  simp [Log.send]

@[simp] theorem Log.receive_receive (lg : Log) (bs bs' : List UInt8) :
    (lg.receive bs).receive bs' = lg.receive (bs ++ bs') := by
  simp [Log.receive]

/-- One log has become the other. -/
def Log.Grows (lg lg' : Log) : Prop := lg.passed <+: lg'.passed ∧ lg.returned <+: lg'.returned

theorem Log.Grows.refl (lg : Log) : lg.Grows lg := ⟨List.prefix_refl _, List.prefix_refl _⟩

theorem Log.Grows.trans {lg lg' lg'' : Log} (h : lg.Grows lg') (h' : lg'.Grows lg'') : lg.Grows lg'' :=
  ⟨h.1.trans h'.1, h.2.trans h'.2⟩

/-- A program that keeps a log and returns it. -/
def recorded : HostProg α → Log → HostProg (α × Log)
  | .ret a, lg => .ret (a, lg)
  | .op (.writeByte b) k, lg => .op (.writeByte b) fun r => recorded (k r) (lg.send [b])
  | .op .readByte k, lg => .op .readByte fun b => recorded (k b) (lg.receive [b])

theorem recorded_bind (p : HostProg α) (f : α → HostProg β) (lg : Log) :
    recorded (p.bind f) lg = (recorded p lg).bind fun x => recorded (f x.1) x.2 := by
  induction p generalizing lg with
  | ret a => rfl
  | op o k ih =>
    cases o with
    | writeByte b => simp only [Prog.op_bind, recorded, ih]
    | readByte => simp only [Prog.op_bind, recorded, ih]

/-- Without its log it is the program. -/
theorem recorded_result (p : HostProg α) (lg : Log) :
    ((recorded p lg).bind fun x => .ret x.1) = p := by
  induction p generalizing lg with
  | ret a => rfl
  | op o k ih =>
    cases o with
    | writeByte b => simp only [recorded, Prog.op_bind, ih]
    | readByte => simp only [recorded, Prog.op_bind, ih]

theorem recorded_writeBytes (bs : List UInt8) (k : HostProg α) (lg : Log) :
    recorded ((writeBytes bs).bind fun _ => k) lg =
      (writeBytes bs).bind fun _ => recorded k (lg.send bs) := by
  induction bs generalizing lg with
  | nil => simp [writeBytes]
  | cons b bs ih =>
    show Prog.op (HostOp.writeByte b) (fun _ => recorded ((writeBytes bs).bind fun _ => k) (lg.send [b])) =
      .op (.writeByte b) fun _ => (writeBytes bs).bind fun _ => recorded k (lg.send (b :: bs))
    rw [ih, Log.send_send, List.singleton_append]

theorem readBytes_succ (n : Nat) (f : List UInt8 → HostProg β) :
    (readBytes (n + 1)).bind f = .op .readByte fun b => (readBytes n).bind fun bs => f (b :: bs) := by
  simp [readBytes, Protocol.readByte]

theorem recorded_readBytes (n : Nat) (f : List UInt8 → HostProg α) (lg : Log) :
    recorded ((readBytes n).bind f) lg =
      (readBytes n).bind fun bs => recorded (f bs) (lg.receive bs) := by
  induction n generalizing lg f with
  | zero => simp [readBytes]
  | succ n ih =>
    rw [readBytes_succ, readBytes_succ, recorded]
    simp only [ih, Log.receive_receive, List.singleton_append]

end Programs

section Runs

variable {α δ : Type} {server : δ → ServerAct UInt8 δ} {p p' : HostProg α} {lg : Log}
  {s t : Pins (HostProg α) δ}

theorem hostAct_recorded_send {b : UInt8} (h : hostAct p = .send b p') :
    hostAct (recorded p lg) = .send b (recorded p' (lg.send [b])) := by
  cases p with
  | ret a => cases h
  | op o k =>
    cases o with
    | writeByte b' =>
      cases h
      rfl
    | readByte => cases h

theorem hostAct_recorded_recv {k : UInt8 → HostProg α} (h : hostAct p = .recv k) :
    hostAct (recorded p lg) = .recv fun b => recorded (k b) (lg.receive [b]) := by
  cases p with
  | ret a => cases h
  | op o k' =>
    cases o with
    | writeByte b => cases h
    | readByte =>
      cases h
      rfl

/-- The PC with the recorded program, where its own log is `lg`. -/
def recordedHost : HostState (HostProg α) → Log → HostState (HostProg (α × Log))
  | .idle p, lg => .idle (recorded p lg)
  | .writing q p, lg => .writing q (recorded p lg)
  | .reading q k, lg => .reading q fun b => recorded (k b) (lg.receive [b])

def recordedPins (s : Pins (HostProg α) δ) : Pins (HostProg (α × Log)) δ :=
  ⟨recordedHost s.host s.hostLog, s.dev, s.lines, s.hostLog, s.devLog⟩

theorem recorded_hostStep {h h' : HostState (HostProg α)} {l l' : Lines} {lg lg' : Log}
    (hstep : HostStep hostAct h l lg h' l' lg') :
    HostStep hostAct (recordedHost h lg) l lg (recordedHost h' lg') l' lg' := by
  cases hstep with
  | callWrite hc => exact .callWrite (hostAct_recorded_send hc)
  | callRead hc => exact .callRead (hostAct_recorded_recv hc)
  | write hport => exact .write hport
  | read hport => exact .read hport
  | returnWrite => exact .returnWrite
  | returnRead => exact .returnRead

theorem recorded_step {m : Mover} (hstep : PinStep hostAct server m s t) :
    PinStep hostAct server m (recordedPins s) (recordedPins t) := by
  cases hstep with
  | host hs => exact .host (recorded_hostStep hs)
  | device hs => exact .device hs
  | timeout he => exact .timeout he

/-- The recorded program is in time where the program is. -/
theorem recorded_inTime {m : Mover} (h : InTime m s) : InTime m (recordedPins s) := by
  obtain ⟨host, v, l, hl, dl⟩ := s
  refine ⟨h.noTimeout, ?_, ?_⟩
  · rintro hm hraises ⟨f, c, hawaits⟩
    cases host with
    | writing q p =>
      cases hawaits
      exact h.reply hm hraises ⟨f, p, rfl⟩
    | idle p => cases hawaits
    | reading q k => cases hawaits
  · rintro hm ⟨v', f, c, hraises, hup⟩
    cases host with
    | writing q p =>
      cases hraises
      exact h.request hm ⟨v', f, p, rfl, hup⟩
    | idle p => cases hraises
    | reading q k => cases hraises

theorem recorded_run (h : PinRun hostAct server InTime s t) :
    PinRun hostAct server InTime (recordedPins s) (recordedPins t) := by
  induction h with
  | refl => exact .refl _
  | step _ hok hstep ih => exact .step ih (recorded_inTime hok) (recorded_step hstep)

theorem hostLog_grows {ok : Mover → Pins (HostProg α) δ → Prop} (h : PinRun hostAct server ok s t) :
    s.hostLog.Grows t.hostLog := by
  refine Run.invariant (I := fun u => s.hostLog.Grows u.hostLog) ?_ (.refl _) h
  intro m u u' hu _ hstep
  refine hu.trans ?_
  cases hstep with
  | host hs =>
    cases hs with
    | callWrite _ => exact ⟨List.prefix_append _ _, List.prefix_refl _⟩
    | returnRead => exact ⟨List.prefix_refl _, List.prefix_append _ _⟩
    | callRead _ => exact .refl _
    | write _ => exact .refl _
    | read _ => exact .refl _
    | returnWrite => exact .refl _
  | device _ => exact .refl _
  | timeout _ => exact .refl _

variable {a : α} {d d' : δ}

/-- Where the recorded program comes to its end with a log, that is what the PC has in its own log when it
is done, and before it has the beginning of it. -/
theorem hostLog_of_leads (hpoll : ∃ e, server d' = .poll e)
    (hleads : Leads hostAct server (.ret (a, lg), d') (recorded p ⟨[], []⟩, d)) (hrest : AtRest p d s)
    (hrun : PinRun hostAct server InTime s t) :
    t.hostLog.Grows lg ∧ ∀ a', t.host = .idle (.ret a') → t.hostLog = lg := by
  have hstart : AtRest (recorded p ⟨[], []⟩) d (recordedPins s) := by
    refine ⟨?_, hrest.dev, hrest.strobe, hrest.ack, hrest.hostLog, hrest.devLog⟩
    show recordedHost s.host s.hostLog = _
    rw [hrest.host, hrest.hostLog]
    rfl
  have hdone : ∀ {u a'}, PinRun hostAct server InTime s u → u.host = .idle (.ret a') →
      u.hostLog = lg := by
    intro u a' hu hhost
    have hrecorded : (recordedPins u).host = .idle (.ret (a', u.hostLog)) := by
      show recordedHost u.host u.hostLog = _
      rw [hhost]
      rfl
    obtain ⟨-, -, hends⟩ := inTime_finishes ⟨rfl, hpoll⟩ hleads hstart (recorded_run hu)
    obtain ⟨hresult, -⟩ := hends _ hrecorded rfl
    exact congrArg Prod.snd (Prog.ret.inj hresult)
  -- without the log the program has a run to the end from here
  have hprog : Leads hostAct server (.ret a, d') (p, d) := by
    have hbind := leads_bind (f := fun x : α × Log => .ret x.1) hleads (.refl _)
    rwa [recorded_result] at hbind
  obtain ⟨-, ⟨u, hfinish, hu⟩, -⟩ := inTime_finishes ⟨rfl, hpoll⟩ hprog hrest hrun
  constructor
  · rw [← hdone (hrun.trans hfinish) hu]
    exact hostLog_grows hfinish
  · intro a' hhost
    exact hdone hrun hhost

end Runs

end LptStore.Handshake
