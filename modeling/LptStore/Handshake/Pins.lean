import LptStore.Handshake.Lines
import LptStore.Lib.Link
import LptStore.Lib.Run

/-!
# The two machines on the wires

A client of the link becomes the PC, whose sends and receives are calls of `write_byte` and
`read_byte`; a server becomes core 1 of the Pico with `lptcomms_writebyte`,
`lptcomms_readbyte` and `lptcomms_hasbyte`. `PinStep` interleaves their single accesses to
the wires. Each machine keeps a log of the bytes it passed to its calls and of those its
calls returned.
-/

namespace LptStore.Handshake

open LptStore.Lib

/-- The bytes passed to the calls that send, and those returned by the calls that receive. -/
structure Log where
  passed : List UInt8
  returned : List UInt8
  deriving DecidableEq, Repr

/-- The PC between calls, or what is left of the call it is in. -/
inductive HostState (σ : Type) where
  | idle (c : σ)
  | writing (p : PortProg Unit) (c : σ)
  | reading (p : PortProg UInt8) (k : UInt8 → σ)

/-- Core 1 between calls, or what is left of the call it is in. -/
inductive DevState (δ : Type) where
  | idle (d : δ)
  | polling (p : GpioProg Bool) (absent present : δ)
  | writing (p : GpioProg Bool) (sent expired : δ)
  | reading (p : GpioProg (Option UInt8)) (k : UInt8 → δ) (expired : δ)

/-- One access of the PC to its port. -/
def PortStep (l : Lines) : (o : PortOp) → PortResp o → Lines → Prop
  | .outp v, _, l' => l' = { l with port := v }
  | .waitStatus level, _, l' => l.g19 = level ∧ l' = l
  | .inp, al, l' => l.Status al ∧ l' = l

/-- One access of the Pico to its pins. A `waittimeout` ends when a sample shows the other
level of the strobe than `value`. -/
def GpioStep (l : Lines) : (o : GpioOp) → GpioResp o → Lines → Prop
  | .getAll, w, l' => l.Wired w ∧ l' = l
  | .put pin level, _, l' => l' = l.put pin level
  | .waittimeout value, r, l' =>
      (∃ w, l.Wired w ∧ readlpt w &&& 0x10 ≠ value ∧ r = some (readlpt w)) ∧ l' = l

section

variable {σ δ : Type} (client : σ → ClientAct UInt8 σ) (server : δ → ServerAct UInt8 δ)

/-- One step of the PC. -/
inductive HostStep : HostState σ → Lines → Log → HostState σ → Lines → Log → Prop
  | callWrite {c c' : σ} {b : UInt8} {l : Lines} {lg : Log} : client c = .send b c' →
      HostStep (.idle c) l lg (.writing (writeByte b) c') l { lg with passed := lg.passed ++ [b] }
  | callRead {c : σ} {k : UInt8 → σ} {l : Lines} {lg : Log} : client c = .recv k →
      HostStep (.idle c) l lg (.reading readByte k) l lg
  | write {o : PortOp} {r : PortResp o} {f : PortResp o → PortProg Unit} {c : σ} {l l' : Lines}
      {lg : Log} : PortStep l o r l' →
      HostStep (.writing (.op o f) c) l lg (.writing (f r) c) l' lg
  | read {o : PortOp} {r : PortResp o} {f : PortResp o → PortProg UInt8} {k : UInt8 → σ}
      {l l' : Lines} {lg : Log} : PortStep l o r l' →
      HostStep (.reading (.op o f) k) l lg (.reading (f r) k) l' lg
  | returnWrite {c : σ} {l : Lines} {lg : Log} :
      HostStep (.writing (.ret ()) c) l lg (.idle c) l lg
  | returnRead {b : UInt8} {k : UInt8 → σ} {l : Lines} {lg : Log} :
      HostStep (.reading (.ret b) k) l lg (.idle (k b)) l
        { lg with returned := lg.returned ++ [b] }

/-- One step of core 1 in which no wait expires. -/
inductive DevStep : DevState δ → Lines → Log → DevState δ → Lines → Log → Prop
  | tau {d d' : δ} {l : Lines} {lg : Log} : server d = .tau d' →
      DevStep (.idle d) l lg (.idle d') l lg
  | callPoll {d d' : δ} {l : Lines} {lg : Log} : server d = .poll d' →
      DevStep (.idle d) l lg (.polling lptcommsHasbyte d d') l lg
  | callWrite {d d' e : δ} {b : UInt8} {l : Lines} {lg : Log} : server d = .send b d' e →
      DevStep (.idle d) l lg (.writing (lptcommsWritebyte b) d' e) l
        { lg with passed := lg.passed ++ [b] }
  | callRead {d e : δ} {k : UInt8 → δ} {l : Lines} {lg : Log} : server d = .recv k e →
      DevStep (.idle d) l lg (.reading lptcommsReadbyte k e) l lg
  | poll {o : GpioOp} {r : GpioResp o} {f : GpioResp o → GpioProg Bool} {d d' : δ}
      {l l' : Lines} {lg : Log} : GpioStep l o r l' →
      DevStep (.polling (.op o f) d d') l lg (.polling (f r) d d') l' lg
  | write {o : GpioOp} {r : GpioResp o} {f : GpioResp o → GpioProg Bool} {d e : δ}
      {l l' : Lines} {lg : Log} : GpioStep l o r l' →
      DevStep (.writing (.op o f) d e) l lg (.writing (f r) d e) l' lg
  | read {o : GpioOp} {r : GpioResp o} {f : GpioResp o → GpioProg (Option UInt8)}
      {k : UInt8 → δ} {e : δ} {l l' : Lines} {lg : Log} : GpioStep l o r l' →
      DevStep (.reading (.op o f) k e) l lg (.reading (f r) k e) l' lg
  | returnPoll {ok : Bool} {d d' : δ} {l : Lines} {lg : Log} :
      DevStep (.polling (.ret ok) d d') l lg (.idle (if ok then d' else d)) l lg
  | returnWrite {ok : Bool} {d e : δ} {l : Lines} {lg : Log} :
      DevStep (.writing (.ret ok) d e) l lg (.idle (if ok then d else e)) l lg
  | returnRead {b : UInt8} {k : UInt8 → δ} {e : δ} {l : Lines} {lg : Log} :
      DevStep (.reading (.ret (some b)) k e) l lg (.idle (k b)) l
        { lg with returned := lg.returned ++ [b] }
  | returnExpired {k : UInt8 → δ} {e : δ} {l : Lines} {lg : Log} :
      DevStep (.reading (.ret none) k e) l lg (.idle e) l lg

/-- A wait of core 1 expires: its last sample still shows `value`. -/
inductive Expiry : DevState δ → Lines → DevState δ → Prop
  | write {value : UInt8} {f : Option UInt8 → GpioProg Bool} {d e : δ} {l : Lines} {w : UInt32} :
      l.Wired w → readlpt w &&& 0x10 = value →
      Expiry (.writing (.op (.waittimeout value) f) d e) l (.writing (f none) d e)
  | read {value : UInt8} {f : Option UInt8 → GpioProg (Option UInt8)} {k : UInt8 → δ} {e : δ}
      {l : Lines} {w : UInt32} : l.Wired w → readlpt w &&& 0x10 = value →
      Expiry (.reading (.op (.waittimeout value) f) k e) l (.reading (f none) k e)

/-- The whole system. -/
structure Pins (σ δ : Type) where
  host : HostState σ
  dev : DevState δ
  lines : Lines
  hostLog : Log
  devLog : Log

/-- Who makes a step. -/
inductive Mover where
  | host
  | device
  | timeout
  deriving DecidableEq, Repr

/-- One step of the system. -/
inductive PinStep : Mover → Pins σ δ → Pins σ δ → Prop
  | host {h h' : HostState σ} {v : DevState δ} {l l' : Lines} {hl hl' dl : Log} :
      HostStep client h l hl h' l' hl' → PinStep .host ⟨h, v, l, hl, dl⟩ ⟨h', v, l', hl', dl⟩
  | device {h : HostState σ} {v v' : DevState δ} {l l' : Lines} {hl dl dl' : Log} :
      DevStep server v l dl v' l' dl' → PinStep .device ⟨h, v, l, hl, dl⟩ ⟨h, v', l', hl, dl'⟩
  | timeout {h : HostState σ} {v v' : DevState δ} {l : Lines} {hl dl : Log} :
      Expiry v l v' → PinStep .timeout ⟨h, v, l, hl, dl⟩ ⟨h, v', l, hl, dl⟩

/-- Both machines between calls, nothing passed yet, and both control lines low. -/
structure AtRest (c : σ) (d : δ) (s : Pins σ δ) : Prop where
  host : s.host = .idle c
  dev : s.dev = .idle d
  strobe : s.lines.strobe = false
  ack : s.lines.g19 = false
  hostLog : s.hostLog = ⟨[], []⟩
  devLog : s.devLog = ⟨[], []⟩

/-- A run whose steps all satisfy `ok`, a condition on who moves and on the state before. -/
abbrev PinRun (ok : Mover → Pins σ δ → Prop) : Pins σ δ → Pins σ δ → Prop :=
  Run (PinStep client server) ok

end

section Scheduler

/-! A scheduler that picks who moves; the pins that are not wired and the low bits of the
status register read as zero. -/

/-- The word `gpio_get_all` returns with all other pins low. -/
def Lines.word (l : Lines) : UInt32 :=
  let p := l.port.toUInt32
  ((p &&& 0x01) <<< 28) ||| ((p &&& 0x02) <<< 26) ||| ((p &&& 0x04) <<< 24) |||
    ((p &&& 0x08) <<< 19) ||| ((p &&& 0x10) <<< 17)

theorem wired_word (l : Lines) : l.Wired l.word := by
  constructor <;> simp [Lines.word]

/-- The status register with zero low bits. -/
def Lines.status (l : Lines) : UInt8 :=
  (if l.g19 then 0x80 else 0) ||| (if l.g20 then 0 else 0x40) ||| (if l.g18 then 0 else 0x20) |||
    (if l.g17 then 0 else 0x10) ||| (if l.g16 then 0 else 0x08)

theorem status_status (l : Lines) : l.Status l.status := by
  obtain ⟨_, g16, g17, g18, g19, g20⟩ := l
  cases g16 <;> cases g17 <;> cases g18 <;> cases g19 <;> cases g20 <;> constructor <;>
    simp [Lines.status]

/-- One access of the PC, unless it is a wait for another level. -/
def portNext (l : Lines) : (o : PortOp) → Option (PortResp o × Lines)
  | .outp v => some ((), { l with port := v })
  | .waitStatus level => if l.g19 = level then some ((), l) else none
  | .inp => some (l.status, l)

theorem portNext_step {l l' : Lines} {o : PortOp} {r : PortResp o}
    (h : portNext l o = some (r, l')) : PortStep l o r l' := by
  cases o with
  | outp v =>
    cases h
    exact rfl
  | waitStatus level =>
    by_cases hlevel : l.g19 = level
    · simp only [portNext, hlevel, if_true] at h
      cases h
      exact ⟨hlevel, rfl⟩
    · simp only [portNext, hlevel, if_false] at h
      cases h
  | inp =>
    cases h
    exact ⟨status_status l, rfl⟩

/-- One access of the Pico, unless it is a wait for the level that is shown. -/
def gpioNext (l : Lines) : (o : GpioOp) → Option (GpioResp o × Lines)
  | .getAll => some (l.word, l)
  | .put pin level => some ((), l.put pin level)
  | .waittimeout value =>
      if readlpt l.word &&& 0x10 = value then none else some (some (readlpt l.word), l)

theorem gpioNext_step {l l' : Lines} {o : GpioOp} {r : GpioResp o}
    (h : gpioNext l o = some (r, l')) : GpioStep l o r l' := by
  cases o with
  | getAll =>
    cases h
    exact ⟨wired_word l, rfl⟩
  | put pin level =>
    cases h
    exact rfl
  | waittimeout value =>
    by_cases hvalue : readlpt l.word &&& 0x10 = value
    · simp only [gpioNext, hvalue, if_true] at h
      cases h
    · simp only [gpioNext, hvalue, if_false] at h
      cases h
      exact ⟨⟨_, wired_word l, hvalue, rfl⟩, rfl⟩

variable {σ δ : Type} (client : σ → ClientAct UInt8 σ) (server : δ → ServerAct UInt8 δ)

/-- The next step of the PC. -/
def hostNext (s : Pins σ δ) : Option (Pins σ δ) :=
  match s.host with
  | .idle c =>
    match client c with
    | .done => none
    | .send b c' =>
        some { s with host := .writing (writeByte b) c', hostLog.passed := s.hostLog.passed ++ [b] }
    | .recv k => some { s with host := .reading readByte k }
  | .writing (.op o f) c =>
    match portNext s.lines o with
    | some (r, l) => some { s with host := .writing (f r) c, lines := l }
    | none => none
  | .reading (.op o f) k =>
    match portNext s.lines o with
    | some (r, l) => some { s with host := .reading (f r) k, lines := l }
    | none => none
  | .writing (.ret ()) c => some { s with host := .idle c }
  | .reading (.ret b) k =>
      some { s with host := .idle (k b), hostLog.returned := s.hostLog.returned ++ [b] }

/-- The next step of core 1. -/
def devNext (s : Pins σ δ) : Option (Pins σ δ) :=
  match s.dev with
  | .idle d =>
    match server d with
    | .tau d' => some { s with dev := .idle d' }
    | .poll d' => some { s with dev := .polling lptcommsHasbyte d d' }
    | .send b d' e =>
        some { s with dev := .writing (lptcommsWritebyte b) d' e,
                      devLog.passed := s.devLog.passed ++ [b] }
    | .recv k e => some { s with dev := .reading lptcommsReadbyte k e }
  | .polling (.op o f) d d' =>
    match gpioNext s.lines o with
    | some (r, l) => some { s with dev := .polling (f r) d d', lines := l }
    | none => none
  | .writing (.op o f) d e =>
    match gpioNext s.lines o with
    | some (r, l) => some { s with dev := .writing (f r) d e, lines := l }
    | none => none
  | .reading (.op o f) k e =>
    match gpioNext s.lines o with
    | some (r, l) => some { s with dev := .reading (f r) k e, lines := l }
    | none => none
  | .polling (.ret ok) d d' => some { s with dev := .idle (if ok then d' else d) }
  | .writing (.ret ok) d e => some { s with dev := .idle (if ok then d else e) }
  | .reading (.ret (some b)) k _ =>
      some { s with dev := .idle (k b), devLog.returned := s.devLog.returned ++ [b] }
  | .reading (.ret none) _ e => some { s with dev := .idle e }

theorem hostNext_step {s t : Pins σ δ} (h : hostNext client s = some t) :
    PinStep client server .host s t := by
  obtain ⟨host, v, l, hl, dl⟩ := s
  cases host with
  | idle c =>
    simp only [hostNext] at h
    cases hc : client c with
    | done => simp [hc] at h
    | send b c' =>
      simp only [hc] at h
      cases h
      exact .host (.callWrite hc)
    | recv k =>
      simp only [hc] at h
      cases h
      exact .host (.callRead hc)
  | writing p c =>
    cases p with
    | ret _ =>
      cases h
      exact .host .returnWrite
    | op o f =>
      simp only [hostNext] at h
      cases hp : portNext l o with
      | none => simp [hp] at h
      | some r =>
        simp only [hp] at h
        cases h
        exact .host (.write (portNext_step hp))
  | reading p k =>
    cases p with
    | ret b =>
      cases h
      exact .host .returnRead
    | op o f =>
      simp only [hostNext] at h
      cases hp : portNext l o with
      | none => simp [hp] at h
      | some r =>
        simp only [hp] at h
        cases h
        exact .host (.read (portNext_step hp))

theorem devNext_step {s t : Pins σ δ} (h : devNext server s = some t) :
    PinStep client server .device s t := by
  obtain ⟨host, v, l, hl, dl⟩ := s
  cases v with
  | idle d =>
    simp only [devNext] at h
    cases hd : server d with
    | tau d' =>
      simp only [hd] at h
      cases h
      exact .device (.tau hd)
    | poll d' =>
      simp only [hd] at h
      cases h
      exact .device (.callPoll hd)
    | send b d' e =>
      simp only [hd] at h
      cases h
      exact .device (.callWrite hd)
    | recv k e =>
      simp only [hd] at h
      cases h
      exact .device (.callRead hd)
  | polling p d d' =>
    cases p with
    | ret ok =>
      cases h
      exact .device .returnPoll
    | op o f =>
      simp only [devNext] at h
      cases hp : gpioNext l o with
      | none => simp [hp] at h
      | some r =>
        simp only [hp] at h
        cases h
        exact .device (.poll (gpioNext_step hp))
  | writing p d e =>
    cases p with
    | ret ok =>
      cases h
      exact .device .returnWrite
    | op o f =>
      simp only [devNext] at h
      cases hp : gpioNext l o with
      | none => simp [hp] at h
      | some r =>
        simp only [hp] at h
        cases h
        exact .device (.write (gpioNext_step hp))
  | reading p k e =>
    cases p with
    | ret r =>
      cases r with
      | none =>
        cases h
        exact .device .returnExpired
      | some b =>
        cases h
        exact .device .returnRead
    | op o f =>
      simp only [devNext] at h
      cases hp : gpioNext l o with
      | none => simp [hp] at h
      | some r =>
        simp only [hp] at h
        cases h
        exact .device (.read (gpioNext_step hp))

/-- The next step of who moves; no wait expires. -/
def pinNext : Mover → Pins σ δ → Option (Pins σ δ)
  | .host, s => hostNext client s
  | .device, s => devNext server s
  | .timeout, _ => none

variable {client server}

theorem pinNext_step (m : Mover) (s t : Pins σ δ) (h : pinNext client server m s = some t) :
    PinStep client server m s t := by
  cases m with
  | host => exact hostNext_step client server h
  | device => exact devNext_step client server h
  | timeout => cases h

end Scheduler

end LptStore.Handshake
