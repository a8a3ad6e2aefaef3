import LptStore.Handshake.Progress
import LptStore.Protocol.EndToEnd

/-!
# Changes of direction

When the direction of the link changes, the machine that has just received raises its
control line for its first byte without waiting for the other to have seen it fall.
`InTime` says that the other has; then no reachable state is a deadlock. Otherwise the
level is missed and the machines wait for each other for good.
-/

namespace LptStore.Handshake

open LptStore.Lib

section

variable {σ δ : Type} (server : δ → ServerAct UInt8 δ)

/-- The PC polls for a level of the acknowledge that the wires do not show. -/
def hostWaits (s : Pins σ δ) : Bool :=
  match s.host with
  | .writing (.op (.waitStatus level) _) _ => s.lines.g19 != level
  | .reading (.op (.waitStatus level) _) _ => s.lines.g19 != level
  | _ => false

/-- Core 1 polls for a level of the strobe that the wires do not show, in a routine or
between two requests. -/
def devWaits (s : Pins σ δ) : Bool :=
  match s.dev with
  | .idle d =>
    match server d with
    | .poll _ => !s.lines.strobe
    | _ => false
  | .polling (.op _ _) _ _ => !s.lines.strobe
  | .writing (.op (.waittimeout value) _) _ _ => (if s.lines.strobe then 0x10 else 0x00) == value
  | .reading (.op (.waittimeout value) _) _ _ => (if s.lines.strobe then 0x10 else 0x00) == value
  | _ => false

/-- Both machines wait for the other. -/
def Deadlock (s : Pins σ δ) : Prop := hostWaits s = true ∧ devWaits server s = true

instance (s : Pins σ δ) : Decidable (Deadlock server s) :=
  inferInstanceAs (Decidable (_ ∧ _))

/-- The next access of core 1 raises the acknowledge for a reply. -/
def RaisesAck (s : Pins σ δ) : Prop :=
  ∃ f d e, s.dev = .writing (.op (.put 19 true) f) d e

/-- The PC still waits for the acknowledge to fall after a byte it has sent. -/
def AwaitsAckFall (s : Pins σ δ) : Prop :=
  ∃ f c, s.host = .writing (.op (.waitStatus false) f) c

/-- The next access of the PC raises the strobe for a byte it sends. -/
def RaisesStrobe (s : Pins σ δ) : Prop :=
  ∃ v f c, s.host = .writing (.op (.outp v) f) c ∧ v &&& 0x10 ≠ 0

/-- Core 1 still waits for the strobe to fall after a byte it has sent. -/
def AwaitsStrobeFall (s : Pins σ δ) : Prop :=
  ∃ f d e, s.dev = .writing (.op (.waittimeout 0x10) f) d e

/-- No wait expires, core 1 does not raise the acknowledge for a reply while the PC still waits
for it to fall, and the PC does not raise the strobe for a request while core 1 still waits for it
to fall. -/
structure InTime (m : Mover) (s : Pins σ δ) : Prop where
  noTimeout : m ≠ .timeout
  reply : m = .device → RaisesAck s → ¬ AwaitsAckFall s
  request : m = .host → RaisesStrobe s → ¬ AwaitsStrobeFall s

variable {client : σ → ClientAct UInt8 σ} {server} {Inv : σ × δ → Prop} {c : σ} {d : δ}
  {s t : Pins σ δ}

theorem raisesStrobe_writeByte {b : UInt8} {c : σ} (h : s.host = .writing (writeByte b) c) :
    RaisesStrobe s := by
  refine ⟨_, _, _, h, ?_⟩
  intro hzero
  have hbit := congrArg (fun v : UInt8 => v.toBitVec[4]) hzero
  simp at hbit

/-- A step in time keeps the phases. -/
theorem kept_inTime (hm : Matching client server Inv) {m : Mover} (h : Kept client server Inv s)
    (hok : InTime m s) (hstep : PinStep client server m s t) : Kept client server Inv t := by
  rcases h with ⟨ds, us, c, d, hinv, hph⟩
  cases hstep with
  | host hs =>
    rcases phase_hostStep hm hinv hph hs with hkept | ⟨⟨b, c', hw⟩, ⟨d', e, hp⟩, -⟩
    · exact hkept
    · exact absurd ⟨_, _, _, hp⟩ (hok.request rfl (raisesStrobe_writeByte hw))
  | device hs =>
    rcases phase_devStep hm hinv hph hs with hkept | ⟨⟨c', hw⟩, ⟨b, d', e, hp⟩, -⟩
    · exact hkept
    · exact absurd ⟨_, _, hw⟩ (hok.reply rfl ⟨_, _, _, hp⟩)
  | timeout _ => exact absurd rfl hok.noTimeout

/-- In time, every state is in a phase. -/
theorem inTime_kept (hm : Matching client server Inv) (hinv : Inv (c, d)) (hrest : AtRest c d s)
    (hrun : PinRun client server InTime s t) : Kept client server Inv t :=
  Run.invariant (fun _ _ _ => kept_inTime hm) (kept_atRest hinv hrest) hrun

/-- On its own the PC waits only for the acknowledge of a reply. -/
theorem hostOpen_waits {ds us : List UInt8} {h : HostState σ} {v : DevState δ} {l : Lines}
    {hl lg dl : Log} (ho : HostOpen client ds us c h hl)
    (hw : hostWaits ⟨h, v, l, lg, dl⟩ = true) : (∃ k, client c = .recv k) ∧ l.g19 = false := by
  cases ho with
  | idle => cases hw
  | sent => cases hw
  | received _ _ => cases hw
  | w1 _ => cases hw
  | r1 hc => exact ⟨⟨_, hc⟩, by simpa [hostWaits, readByte_eq] using hw⟩

theorem strobe_of_level {l : Lines} {value : UInt8}
    (h : ((if l.strobe then 0x10 else 0x00) == value) = true) :
    (value = 0x00 → l.strobe = false) ∧ (value = 0x10 → l.strobe = true) := by
  have heq := eq_of_beq h
  constructor
  · intro hvalue
    by_contra hne
    rw [if_pos (Bool.eq_true_of_not_eq_false hne), hvalue] at heq
    exact absurd heq (by decide)
  · intro hvalue
    by_contra hne
    rw [if_neg hne, hvalue] at heq
    exact absurd heq (by decide)

/-- On its own core 1 waits only for the strobe of a request. -/
theorem devOpen_waits {ds us : List UInt8} {h : HostState σ} {v : DevState δ} {l : Lines}
    {hl lg dl : Log} (ho : DevOpen server ds us d l v dl)
    (hw : devWaits server ⟨h, v, l, hl, lg⟩ = true) :
    ((∃ d', server d = .poll d') ∨ ∃ k e, server d = .recv k e) ∧ l.strobe = false := by
  cases ho with
  | idle =>
    simp only [devWaits] at hw
    cases hd : server d with
    | poll d' => exact ⟨.inl ⟨d', rfl⟩, by simpa [hd] using hw⟩
    | tau d' => simp [hd] at hw
    | send b d' e => simp [hd] at hw
    | recv k e => simp [hd] at hw
  | poll hd => exact ⟨.inl ⟨_, hd⟩, by simpa [devWaits, lptcommsHasbyte_eq] using hw⟩
  | polled _ => cases hw
  | sent => cases hw
  | received _ _ => cases hw
  | e1 hd => exact ⟨.inr ⟨_, _, hd⟩, (strobe_of_level hw).1 rfl⟩
  | p1 hd hps hup =>
    rename_i ps b d' e
    cases ps with
    | nil => cases hw
    | cons p ps => cases hw

/-- No phase is a deadlock. -/
theorem kept_noDeadlock (hm : Matching client server Inv) (h : Kept client server Inv s) :
    ¬ Deadlock server s := by
  intro ⟨hhost, hdev⟩
  obtain ⟨ds, us, c, d, hinv, hph⟩ := h
  cases hph with
  | apart ho hv hS hA =>
    obtain ⟨⟨k, hk⟩, -⟩ := hostOpen_waits ho hhost
    obtain ⟨hd, -⟩ := devOpen_waits hv hdev
    rcases hm.recv_send hinv hk with ⟨d', htau⟩ | ⟨b, d', e, hsend⟩
    · simp [htau] at hd
    · simp [hsend] at hd
  | hostLags hv hS hA => simp [hostWaits, hA] at hhost
  | devLags ho hS hA =>
    have hhigh := (strobe_of_level hdev).2 rfl
    simp [hS] at hhigh
  | w2 hc hv hport hA =>
    obtain ⟨-, hS⟩ := devOpen_waits hv hdev
    simp [strobe_upper hport] at hS
  | w2e2 _ _ _ _ => cases hdev
  | w2e3 _ _ _ _ => cases hdev
  | w2e4 _ _ _ hA => simp [hostWaits, hA] at hhost
  | w3e4 _ _ _ _ => cases hhost
  | w4e4 _ _ hport _ =>
    have hhigh := (strobe_of_level hdev).2 rfl
    simp [strobe_lower hport] at hhigh
  | w4e5 _ _ _ _ => cases hdev
  | w4e6 _ _ _ _ => cases hdev
  | p6 ho _ _ _ _ hA =>
    obtain ⟨-, hlow⟩ := hostOpen_waits ho hhost
    simp [hA] at hlow
  | r2p6 _ _ _ _ _ => cases hhost
  | r3p6 _ _ _ _ => cases hhost
  | r4p6 _ _ hS _ =>
    have hlow := (strobe_of_level hdev).1 rfl
    simp [hS] at hlow
  | r4p7 hc hd hps hlow hS hA =>
    rename_i k b ps d' e l
    cases ps with
    | nil => cases hdev
    | cons p ps => cases hdev
  | r4p12 _ _ _ _ hA => simp [hostWaits, hA] at hhost
  | r5p12 _ _ _ _ _ => cases hhost
  | r6p12 _ _ _ _ => cases hhost

/-- A missed level is a deadlock. -/
theorem missed_deadlock {ds us : List UInt8} (h : Missed ds us s) : Deadlock server s := by
  cases h with
  | host hS hA => simp [Deadlock, hostWaits, devWaits, hS, hA]
  | device hS hA => simp [Deadlock, hostWaits, devWaits, hS, hA]

/-- A reply that is not in time is missed. -/
theorem late_reply {ds us : List UInt8} (hph : Phase client server ds us c d s)
    (hr : RaisesAck s) (ha : AwaitsAckFall s) (hs : PinStep client server .device s t) :
    Missed ds us t := by
  obtain ⟨f, c', hhost⟩ := ha
  obtain ⟨f', d', e', hdev⟩ := hr
  cases hs with
  | device hs =>
    cases hph with
    | apart ho _ _ _ => cases ho <;> cases hhost
    | devLags ho _ _ => cases ho <;> cases hhost
    | p6 ho _ _ _ _ _ => cases ho <;> cases hhost
    | hostLags hv hS hA =>
      cases hv with
      | p1 hd hps hup =>
        rename_i ps b d' e
        cases ps with
        | nil =>
          cases hs with
          | write hp =>
            obtain rfl := hp
            exact .host hS rfl
        | cons p ps =>
          obtain ⟨pin, level⟩ := p
          cases hdev
          exact absurd rfl (hps _ List.mem_cons_self)
      | _ => cases hdev
    | _ => first | (cases hhost; done) | cases hdev

/-- A request that is not in time is missed. -/
theorem late_request {ds us : List UInt8} (hph : Phase client server ds us c d s)
    (hr : RaisesStrobe s) (ha : AwaitsStrobeFall s) (hs : PinStep client server .host s t) :
    Missed ds us t := by
  obtain ⟨f, d', e', hdev⟩ := ha
  obtain ⟨v, f', c', hhost, hv⟩ := hr
  cases hs with
  | host hs =>
    cases hph with
    | apart _ hopen _ _ =>
      cases hopen with
      | p1 hd hps hup =>
        rename_i ps b d' e
        cases ps <;> cases hdev
      | _ => cases hdev
    | devLags ho hS hA =>
      cases ho with
      | w1 hc =>
        rw [writeByte_eq] at hs
        cases hs with
        | write hp =>
          obtain rfl := hp
          exact .device (strobe_upper rfl) hA
      | _ => cases hhost
    | _ => first | (cases hhost; done) | cases hdev

/-- A step after a run in time is in time or misses a level. -/
theorem inTime_or_missed_step (hm : Matching client server Inv) (hinv : Inv (c, d))
    (hrest : AtRest c d s) {m : Mover} {u : Pins σ δ} (hin : PinRun client server InTime s t)
    (hmover : m ≠ .timeout) (hstep : PinStep client server m t u) :
    PinRun client server InTime s u ∨ ∃ ds us, Missed ds us u := by
  obtain ⟨ds, us, c, d, -, hph⟩ := inTime_kept hm hinv hrest hin
  by_cases hreply : m = .device ∧ RaisesAck t ∧ AwaitsAckFall t
  · obtain ⟨rfl, hr, ha⟩ := hreply
    exact .inr ⟨ds, us, late_reply hph hr ha hstep⟩
  · by_cases hrequest : m = .host ∧ RaisesStrobe t ∧ AwaitsStrobeFall t
    · obtain ⟨rfl, hr, ha⟩ := hrequest
      exact .inr ⟨ds, us, late_request hph hr ha hstep⟩
    · refine .inl (.step hin ⟨hmover, ?_, ?_⟩ hstep)
      · intro h hr ha
        exact hreply ⟨h, hr, ha⟩
      · intro h hr ha
        exact hrequest ⟨h, hr, ha⟩

/-- In a run without expired waits, either every change of direction was in time or a level
has been missed. -/
theorem inTime_or_missed (hm : Matching client server Inv) (hinv : Inv (c, d))
    (hrest : AtRest c d s) (hrun : PinRun client server (fun m _ => m ≠ .timeout) s t) :
    PinRun client server InTime s t ∨ ∃ ds us, Missed ds us t := by
  apply Run.invariant _ (.inl (.refl s)) hrun
  rintro m t u (hin | ⟨ds, us, hmiss⟩) hmover hstep
  · exact inTime_or_missed_step hm hinv hrest hin hmover hstep
  · exact absurd (missed_stuck hmiss hstep) hmover

end

section Requests

open LptStore.Protocol

variable {α ω : Type} {disk : Disk ω}

/-- In every run of exchanges that match byte for byte and in which no wait expires, the
state is not a deadlock exactly when each change of direction was in time. -/
theorem noDeadlock_iff_inTime {fin : HostProg α × Device ω} {p : HostProg α} {b : Bufs} {w : ω}
    {s t : Pins (HostProg α) (Device ω)} (hfin : Quiet hostAct (Device.act disk) fin)
    (hmatch : Leads hostAct (Device.act disk) fin (p, Device.idle b w))
    (hrest : AtRest p (Device.idle b w) s)
    (hrun : PinRun hostAct (Device.act disk) (fun m _ => m ≠ .timeout) s t) :
    ¬ Deadlock (Device.act disk) t ↔ PinRun hostAct (Device.act disk) InTime s t := by
  have hm := matching_leads hfin
  constructor
  · intro hdead
    rcases inTime_or_missed hm hmatch hrest hrun with hin | ⟨ds, us, hmiss⟩
    · exact hin
    · exact absurd (missed_deadlock hmiss) hdead
  · intro hin
    exact kept_noDeadlock hm (inTime_kept hm hmatch hrest hin)

/-- The system at rest before a call of `LPTRead` for block 0 of drive 0, which has none. -/
def readStart : Pins (HostProg (DResult × Mem)) (Device Drives) :=
  ⟨.idle (lptRead 0 0 ⟨0, 0⟩ 1 fun _ => 0), .idle (Device.idle ⟨.zero, .zero⟩ fun _ => []),
    ⟨0, false, false, false, false, false⟩, ⟨[], []⟩, ⟨[], []⟩⟩

/-- The call and the device match byte for byte. -/
theorem readStart_matches : ∃ fin, Quiet hostAct (Device.act arrayDisk.toDisk) fin ∧
    Leads hostAct (Device.act arrayDisk.toDisk) fin
      (lptRead 0 0 ⟨0, 0⟩ 1 fun _ => 0, Device.idle ⟨.zero, .zero⟩ fun _ => []) := by
  obtain ⟨r, mem, b', w', -, hleads⟩ := call_leads arrayDisk
    (c := ⟨.read, 0, 0, ⟨0, 0⟩, 1, fun _ => 0⟩) ⟨.zero, .zero⟩ (fun _ => []) (.inl (by decide))
  exact ⟨_, quiet_rest _ _ _ _, hleads⟩

theorem readStart_atRest : AtRest (lptRead 0 0 ⟨0, 0⟩ 1 fun _ => 0)
    (Device.idle ⟨.zero, .zero⟩ fun _ => []) readStart := ⟨rfl, rfl, rfl, rfl, rfl, rfl⟩

/-- A schedule in turns, each of a number of steps of the PC and then of core 1. -/
def turns (ts : List (Nat × Nat)) : List Mover :=
  ts.flatMap fun t => .replicate t.1 .host ++ .replicate t.2 .device

/-- With a PC quick enough to see each acknowledge fall, the call is rejected without a
deadlock. -/
theorem noDeadlock_iff_inTime_read : ∃ t : Pins (HostProg (DResult × Mem)) (Device Drives),
    t.hostLog = ⟨[3, 0, 0, 0, 0, 0], [1]⟩ ∧ ¬ Deadlock (Device.act arrayDisk.toDisk) t ∧
      PinRun hostAct (Device.act arrayDisk.toDisk) InTime readStart t := by
  have hend : (play (pinNext hostAct (Device.act arrayDisk.toDisk)) (fun m _ => m ≠ .timeout)
      (turns [(2, 7), (2, 3), (4, 5), (2, 3), (4, 6), (2, 3), (4, 6), (2, 3), (4, 6), (2, 3),
        (4, 6), (2, 3), (3, 9), (3, 6), (4, 0)]) readStart).map
        (fun t => (t.hostLog, decide (Deadlock (Device.act arrayDisk.toDisk) t))) =
      some (⟨[3, 0, 0, 0, 0, 0], [1]⟩, false) := by
    decide
  obtain ⟨t, hsched, heq⟩ := Option.map_eq_some_iff.mp hend
  obtain ⟨hlog, hdead⟩ := Prod.mk.inj heq
  obtain ⟨fin, hfin, hmatch⟩ := readStart_matches
  have hrun := play_run pinNext_step (fun _ _ => of_decide_eq_true) hsched
  exact ⟨t, hlog, of_decide_eq_false hdead,
    (noDeadlock_iff_inTime hfin hmatch readStart_atRest hrun).mp (of_decide_eq_false hdead)⟩

/-- With a PC that polls once too late after the last byte of the request, the same call
deadlocks before its reply. -/
theorem read_deadlocks : ∃ t : Pins (HostProg (DResult × Mem)) (Device Drives),
    t.hostLog = ⟨[3, 0, 0, 0, 0, 0], []⟩ ∧ Deadlock (Device.act arrayDisk.toDisk) t ∧
      PinRun hostAct (Device.act arrayDisk.toDisk) (fun m _ => m ≠ .timeout) readStart t ∧
      AtRest (lptRead 0 0 ⟨0, 0⟩ 1 fun _ => 0) (Device.idle ⟨.zero, .zero⟩ fun _ => []) readStart ∧
      ∃ fin, Quiet hostAct (Device.act arrayDisk.toDisk) fin ∧
        Leads hostAct (Device.act arrayDisk.toDisk) fin
          (lptRead 0 0 ⟨0, 0⟩ 1 fun _ => 0, Device.idle ⟨.zero, .zero⟩ fun _ => []) := by
  have hend : (play (pinNext hostAct (Device.act arrayDisk.toDisk)) (fun m _ => m ≠ .timeout)
      (turns [(2, 7), (2, 5), (4, 3), (2, 6), (4, 3), (2, 6), (4, 3), (2, 6), (4, 3), (2, 6),
        (4, 3), (2, 12)]) readStart).map
        (fun t => (t.hostLog, decide (Deadlock (Device.act arrayDisk.toDisk) t))) =
      some (⟨[3, 0, 0, 0, 0, 0], []⟩, true) := by
    decide
  obtain ⟨t, hsched, heq⟩ := Option.map_eq_some_iff.mp hend
  obtain ⟨hlog, hdead⟩ := Prod.mk.inj heq
  exact ⟨t, hlog, of_decide_eq_true hdead,
    play_run pinNext_step (fun _ _ => of_decide_eq_true) hsched, readStart_atRest, readStart_matches⟩

end Requests

end LptStore.Handshake
