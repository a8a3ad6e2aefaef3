import LptStore.Handshake.Pins

/-!
# The phases of the handshake

How far the two machines can be from a hand-in-hand state of the byte link: `Phase` lists
every pair of places in the four routines, with the levels on the wires, that a run can
reach, and `Missed` the two pairs in which one machine has waited past the level it waits
for. The names of the places follow the order of the accesses: `W1` to `W4` in `write_byte`, `R1` to
`R6` in `read_byte`, `E1` to `E6` in `lptcomms_readbyte` and `P1` to `P12` in
`lptcomms_writebyte`.
-/

namespace LptStore.Handshake

open LptStore.Lib

section Places

abbrev W4 : PortProg Unit := .op (.waitStatus false) .ret

abbrev W3 (b : UInt8) : PortProg Unit := .op (.outp (b &&& 0x0f)) fun _ => W4

abbrev W2 (b : UInt8) : PortProg Unit := .op (.waitStatus true) fun _ => W3 b

abbrev R6 (b : UInt8) : PortProg UInt8 := .op (.outp 0x00) fun _ => .ret b

abbrev R5 (ah : UInt8) : PortProg UInt8 := .op .inp fun al => R6 (ah ||| ((al >>> 3) &&& 0x0f))

abbrev R4 (ah : UInt8) : PortProg UInt8 := .op (.waitStatus false) fun _ => R5 ah

abbrev R3 (ah : UInt8) : PortProg UInt8 := .op (.outp 0x10) fun _ => R4 ah

abbrev R2 : PortProg UInt8 := .op .inp fun al => R3 ((al <<< 1) &&& 0xf0)

abbrev E6 (b : UInt8) : GpioProg (Option UInt8) := .op (.put 19 false) fun _ => .ret (some b)

abbrev E5 (d : UInt8) : GpioProg (Option UInt8) := .op .getAll fun w => E6 (d ||| (readlpt w &&& 0xf))

abbrev E4 (d : UInt8) : GpioProg (Option UInt8) :=
  .op (.waittimeout 0x10) fun
    | none => .ret none
    | some _ => E5 d

abbrev E3 (d : UInt8) : GpioProg (Option UInt8) := .op (.put 19 true) fun _ => E4 d

abbrev E2 : GpioProg (Option UInt8) := .op .getAll fun w => E3 ((readlpt w &&& 0xf) <<< 4)

abbrev P12 : GpioProg Bool :=
  .op (.waittimeout 0x10) fun
    | none => .op (.put 19 false) fun _ => .ret false
    | some _ => .ret true

abbrev P11 : GpioProg Bool := .op (.put 19 false) fun _ => P12

/-- Settings of pins one after the other. -/
def puts (ps : List (Nat × Bool)) (p : GpioProg Bool) : GpioProg Bool :=
  match ps with
  | [] => p
  | (pin, level) :: ps => .op (.put pin level) fun _ => puts ps p

abbrev lowerPins (b : UInt8) : List (Nat × Bool) :=
  [(16, b &&& 0x1 = 0), (17, b &&& 0x2 = 0), (18, b &&& 0x4 = 0), (20, b &&& 0x8 = 0)]

abbrev upperPins (b : UInt8) : List (Nat × Bool) :=
  [(16, b &&& 0x10 = 0), (17, b &&& 0x20 = 0), (18, b &&& 0x40 = 0), (20, b &&& 0x80 = 0)]

abbrev P6 (b : UInt8) : GpioProg Bool :=
  .op (.waittimeout 0x00) fun
    | none => .op (.put 19 false) fun _ => .ret false
    | some _ => puts (lowerPins b) P11

abbrev P5 (b : UInt8) : GpioProg Bool := .op (.put 19 true) fun _ => P6 b

theorem writeByte_eq (b : UInt8) :
    writeByte b = .op (.outp ((b >>> 4) ||| 0x10)) fun _ => W2 b := rfl

theorem readByte_eq : readByte = .op (.waitStatus true) fun _ => R2 := rfl

theorem lptcommsReadbyte_eq : lptcommsReadbyte = .op (.waittimeout 0x00) fun
    | none => .op (.put 19 false) fun _ => .ret none
    | some _ => E2 := rfl

theorem lptcommsHasbyte_eq :
    lptcommsHasbyte = .op .getAll fun w => .ret (decide (readlpt w &&& 0x10 = 0x10)) := rfl

end Places

section Pins

/-- The wires after settings of pins. -/
def putAll (l : Lines) (ps : List (Nat × Bool)) : Lines :=
  match ps with
  | [] => l
  | (pin, level) :: ps => putAll (l.put pin level) ps

/-- None of the settings is of the acknowledge. -/
def DataOnly (ps : List (Nat × Bool)) : Prop := ∀ p ∈ ps, p.1 ≠ 19

theorem put_ack {l : Lines} {pin : Nat} {level : Bool} (h : pin ≠ 19) :
    (l.put pin level).g19 = l.g19 := by
  unfold Lines.put
  split <;> first | rfl | exact absurd rfl h

theorem put_port (l : Lines) (pin : Nat) (level : Bool) : (l.put pin level).port = l.port := by
  unfold Lines.put
  split <;> rfl

/-- The strobe is one bit of the port. -/
theorem strobe_of_port {l l' : Lines} (h : l'.port = l.port) : l'.strobe = l.strobe := by
  unfold Lines.strobe
  rw [h]

theorem put_strobe (l : Lines) (pin : Nat) (level : Bool) :
    (l.put pin level).strobe = l.strobe := strobe_of_port (put_port l pin level)

theorem putAll_outp (l : Lines) (v : UInt8) (ps : List (Nat × Bool)) :
    putAll { l with port := v } ps = { putAll l ps with port := v } := by
  induction ps generalizing l with
  | nil => rfl
  | cons p ps ih =>
    obtain ⟨pin, level⟩ := p
    have hput : ({ l with port := v } : Lines).put pin level =
        { l.put pin level with port := v } := by
      unfold Lines.put
      split <;> rfl
    unfold putAll
    rw [hput, ih]

theorem dataOnly_upper (b : UInt8) : DataOnly (upperPins b) := by
  simp [DataOnly]

theorem dataOnly_lower (b : UInt8) : DataOnly (lowerPins b) := by
  simp [DataOnly]

theorem upper_putAll (l : Lines) (b : UInt8) : (putAll l (upperPins b)).Upper b :=
  ⟨rfl, rfl, rfl, rfl⟩

theorem lower_putAll (l : Lines) (b : UInt8) : (putAll l (lowerPins b)).Lower b :=
  ⟨rfl, rfl, rfl, rfl⟩

end Pins

section Relation

variable {σ δ : Type} (client : σ → ClientAct UInt8 σ) (server : δ → ServerAct UInt8 δ)

/-- The PC at `c` in the hand-in-hand run, having sent `ds` and received `us`, and on its
own as far as it gets without the device. -/
inductive HostOpen (ds us : List UInt8) (c : σ) : HostState σ → Log → Prop
  | idle : HostOpen ds us c (.idle c) ⟨ds, us⟩
  | sent : HostOpen ds us c (.writing (.ret ()) c) ⟨ds, us⟩
  | received {us' : List UInt8} {b : UInt8} {k : UInt8 → σ} : us = us' ++ [b] → c = k b →
      HostOpen ds us c (.reading (.ret b) k) ⟨ds, us'⟩
  | w1 {b : UInt8} {c' : σ} : client c = .send b c' →
      HostOpen ds us c (.writing (writeByte b) c') ⟨ds ++ [b], us⟩
  | r1 {k : UInt8 → σ} : client c = .recv k → HostOpen ds us c (.reading readByte k) ⟨ds, us⟩

/-- Core 1 at `d` in the hand-in-hand run, and on its own as far as it gets without the PC. -/
inductive DevOpen (ds us : List UInt8) (d : δ) (l : Lines) : DevState δ → Log → Prop
  | idle : DevOpen ds us d l (.idle d) ⟨us, ds⟩
  | poll {d' : δ} : server d = .poll d' → DevOpen ds us d l (.polling lptcommsHasbyte d d') ⟨us, ds⟩
  | polled {ok : Bool} {d₀ d₁ : δ} : d = (if ok then d₁ else d₀) →
      DevOpen ds us d l (.polling (.ret ok) d₀ d₁) ⟨us, ds⟩
  | sent {e : δ} : DevOpen ds us d l (.writing (.ret true) d e) ⟨us, ds⟩
  | received {ds' : List UInt8} {b : UInt8} {k : UInt8 → δ} {e : δ} : ds = ds' ++ [b] → d = k b →
      DevOpen ds us d l (.reading (.ret (some b)) k e) ⟨us, ds'⟩
  | e1 {k : UInt8 → δ} {e : δ} : server d = .recv k e →
      DevOpen ds us d l (.reading lptcommsReadbyte k e) ⟨us, ds⟩
  | p1 {ps : List (Nat × Bool)} {b : UInt8} {d' e : δ} : server d = .send b d' e → DataOnly ps →
      (putAll l ps).Upper b → DevOpen ds us d l (.writing (puts ps (P5 b)) d' e) ⟨us ++ [b], ds⟩

/-- The reachable places around a hand-in-hand state. -/
inductive Phase (ds us : List UInt8) (c : σ) (d : δ) : Pins σ δ → Prop
  /-- Each machine is on its own. -/
  | apart {h : HostState σ} {v : DevState δ} {l : Lines} {hl dl : Log} :
      HostOpen client ds us c h hl → DevOpen server ds us d l v dl → l.strobe = false →
      l.g19 = false → Phase ds us c d ⟨h, v, l, hl, dl⟩
  /-- The PC has yet to see the acknowledge of its last byte fall. -/
  | hostLags {v : DevState δ} {l : Lines} {dl : Log} : DevOpen server ds us d l v dl →
      l.strobe = false → l.g19 = false → Phase ds us c d ⟨.writing W4 c, v, l, ⟨ds, us⟩, dl⟩
  /-- Core 1 has yet to see the strobe of its last byte fall. -/
  | devLags {h : HostState σ} {e : δ} {l : Lines} {hl : Log} : HostOpen client ds us c h hl →
      l.strobe = false → l.g19 = false → Phase ds us c d ⟨h, .writing P12 d e, l, hl, ⟨us, ds⟩⟩
  | w2 {b : UInt8} {c' : σ} {v : DevState δ} {l : Lines} {dl : Log} : client c = .send b c' →
      DevOpen server ds us d l v dl → l.port = (b >>> 4) ||| 0x10 → l.g19 = false →
      Phase ds us c d ⟨.writing (W2 b) c', v, l, ⟨ds ++ [b], us⟩, dl⟩
  | w2e2 {b : UInt8} {c' : σ} {k : UInt8 → δ} {e : δ} {l : Lines} : client c = .send b c' →
      server d = .recv k e → l.port = (b >>> 4) ||| 0x10 → l.g19 = false →
      Phase ds us c d ⟨.writing (W2 b) c', .reading E2 k e, l, ⟨ds ++ [b], us⟩, ⟨us, ds⟩⟩
  | w2e3 {b : UInt8} {c' : σ} {k : UInt8 → δ} {e : δ} {l : Lines} : client c = .send b c' →
      server d = .recv k e → l.port = (b >>> 4) ||| 0x10 → l.g19 = false →
      Phase ds us c d
        ⟨.writing (W2 b) c', .reading (E3 (b &&& 0xf0)) k e, l, ⟨ds ++ [b], us⟩, ⟨us, ds⟩⟩
  | w2e4 {b : UInt8} {c' : σ} {k : UInt8 → δ} {e : δ} {l : Lines} : client c = .send b c' →
      server d = .recv k e → l.port = (b >>> 4) ||| 0x10 → l.g19 = true →
      Phase ds us c d
        ⟨.writing (W2 b) c', .reading (E4 (b &&& 0xf0)) k e, l, ⟨ds ++ [b], us⟩, ⟨us, ds⟩⟩
  | w3e4 {b : UInt8} {c' : σ} {k : UInt8 → δ} {e : δ} {l : Lines} : client c = .send b c' →
      server d = .recv k e → l.port = (b >>> 4) ||| 0x10 → l.g19 = true →
      Phase ds us c d
        ⟨.writing (W3 b) c', .reading (E4 (b &&& 0xf0)) k e, l, ⟨ds ++ [b], us⟩, ⟨us, ds⟩⟩
  | w4e4 {b : UInt8} {c' : σ} {k : UInt8 → δ} {e : δ} {l : Lines} : client c = .send b c' →
      server d = .recv k e → l.port = b &&& 0x0f → l.g19 = true →
      Phase ds us c d
        ⟨.writing W4 c', .reading (E4 (b &&& 0xf0)) k e, l, ⟨ds ++ [b], us⟩, ⟨us, ds⟩⟩
  | w4e5 {b : UInt8} {c' : σ} {k : UInt8 → δ} {e : δ} {l : Lines} : client c = .send b c' →
      server d = .recv k e → l.port = b &&& 0x0f → l.g19 = true →
      Phase ds us c d
        ⟨.writing W4 c', .reading (E5 (b &&& 0xf0)) k e, l, ⟨ds ++ [b], us⟩, ⟨us, ds⟩⟩
  | w4e6 {b : UInt8} {c' : σ} {k : UInt8 → δ} {e : δ} {l : Lines} : client c = .send b c' →
      server d = .recv k e → l.port = b &&& 0x0f → l.g19 = true →
      Phase ds us c d
        ⟨.writing W4 c', .reading (E6 b) k e, l, ⟨ds ++ [b], us⟩, ⟨us, ds⟩⟩
  | p6 {h : HostState σ} {hl : Log} {k : UInt8 → σ} {b : UInt8} {d' e : δ} {l : Lines} :
      HostOpen client ds us c h hl → client c = .recv k → server d = .send b d' e → l.Upper b →
      l.strobe = false → l.g19 = true →
      Phase ds us c d ⟨h, .writing (P6 b) d' e, l, hl, ⟨us ++ [b], ds⟩⟩
  | r2p6 {k : UInt8 → σ} {b : UInt8} {d' e : δ} {l : Lines} : client c = .recv k →
      server d = .send b d' e → l.Upper b → l.strobe = false → l.g19 = true →
      Phase ds us c d ⟨.reading R2 k, .writing (P6 b) d' e, l, ⟨ds, us⟩, ⟨us ++ [b], ds⟩⟩
  | r3p6 {k : UInt8 → σ} {b : UInt8} {d' e : δ} {l : Lines} : client c = .recv k →
      server d = .send b d' e → l.strobe = false → l.g19 = true →
      Phase ds us c d
        ⟨.reading (R3 (b &&& 0xf0)) k, .writing (P6 b) d' e, l, ⟨ds, us⟩, ⟨us ++ [b], ds⟩⟩
  | r4p6 {k : UInt8 → σ} {b : UInt8} {d' e : δ} {l : Lines} : client c = .recv k →
      server d = .send b d' e → l.strobe = true → l.g19 = true →
      Phase ds us c d
        ⟨.reading (R4 (b &&& 0xf0)) k, .writing (P6 b) d' e, l, ⟨ds, us⟩, ⟨us ++ [b], ds⟩⟩
  | r4p7 {k : UInt8 → σ} {b : UInt8} {ps : List (Nat × Bool)} {d' e : δ} {l : Lines} :
      client c = .recv k → server d = .send b d' e → DataOnly ps → (putAll l ps).Lower b →
      l.strobe = true → l.g19 = true →
      Phase ds us c d
        ⟨.reading (R4 (b &&& 0xf0)) k, .writing (puts ps P11) d' e, l, ⟨ds, us⟩, ⟨us ++ [b], ds⟩⟩
  | r4p12 {k : UInt8 → σ} {b : UInt8} {d' e : δ} {l : Lines} : client c = .recv k →
      server d = .send b d' e → l.Lower b → l.strobe = true → l.g19 = false →
      Phase ds us c d
        ⟨.reading (R4 (b &&& 0xf0)) k, .writing P12 d' e, l, ⟨ds, us⟩, ⟨us ++ [b], ds⟩⟩
  | r5p12 {k : UInt8 → σ} {b : UInt8} {d' e : δ} {l : Lines} : client c = .recv k →
      server d = .send b d' e → l.Lower b → l.strobe = true → l.g19 = false →
      Phase ds us c d
        ⟨.reading (R5 (b &&& 0xf0)) k, .writing P12 d' e, l, ⟨ds, us⟩, ⟨us ++ [b], ds⟩⟩
  | r6p12 {k : UInt8 → σ} {b : UInt8} {d' e : δ} {l : Lines} : client c = .recv k →
      server d = .send b d' e → l.strobe = true → l.g19 = false →
      Phase ds us c d
        ⟨.reading (R6 b) k, .writing P12 d' e, l, ⟨ds, us⟩, ⟨us ++ [b], ds⟩⟩

/-- The places where the last level of a byte was missed: the acknowledge is up again for a
reply while the PC waits for it to fall, or the strobe is up again for a request while core 1
waits for it to fall. -/
inductive Missed (ds us : List UInt8) : Pins σ δ → Prop
  | host {b : UInt8} {c : σ} {d e : δ} {l : Lines} : l.strobe = false → l.g19 = true →
      Missed ds us ⟨.writing W4 c, .writing (P6 b) d e, l, ⟨ds, us⟩, ⟨us ++ [b], ds⟩⟩
  | device {b : UInt8} {c : σ} {d e : δ} {l : Lines} : l.strobe = true → l.g19 = false →
      Missed ds us ⟨.writing (W2 b) c, .writing P12 d e, l, ⟨ds ++ [b], us⟩, ⟨us, ds⟩⟩

end Relation

end LptStore.Handshake
