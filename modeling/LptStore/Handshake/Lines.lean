import LptStore.Lib.Prog
import Mathlib.Tactic.IntervalCases

/-!
# The wires and the nibble transfers

The PC's port (`LPTSTORE.C:352-427`) and the pins of the Pico (`pico/lptcomms.c`) are joined
by ten wires. From the PC come the four data bits and the strobe, all of them set by one
`OUT`; from the Pico come four pins with the inverted bits of a nibble, set one at a time,
and the acknowledge on GPIO 19. `writeByte`, `readByte`, `lptcommsReadbyte` and
`lptcommsWritebyte` are the four routines as programs over single port and pin accesses.
-/

namespace LptStore.Handshake

open LptStore.Lib

/-- The levels on the wires: the value of the last `OUT`, and GPIO 16 to 20. -/
structure Lines where
  port : UInt8
  g16 : Bool
  g17 : Bool
  g18 : Bool
  g19 : Bool
  g20 : Bool
  deriving DecidableEq, Repr

/-- The strobe is bit 4 of the port. -/
def Lines.strobe (l : Lines) : Bool := l.port.toBitVec[4]

/-- `gpio_put`. -/
def Lines.put (l : Lines) (pin : Nat) (level : Bool) : Lines :=
  match pin with
  | 16 => { l with g16 := level }
  | 17 => { l with g17 := level }
  | 18 => { l with g18 := level }
  | 19 => { l with g19 := level }
  | 20 => { l with g20 := level }
  | _ => l

/-- `gpio_get_all` may return `w`: GPIO 28, 27, 26 and 22 carry the data bits and GPIO 21 the
strobe, GPIO 29 to 31 are low, and the other pins are arbitrary. -/
structure Lines.Wired (l : Lines) (w : UInt32) : Prop where
  data0 : w.toBitVec[28] = l.port.toBitVec[0]
  data1 : w.toBitVec[27] = l.port.toBitVec[1]
  data2 : w.toBitVec[26] = l.port.toBitVec[2]
  data3 : w.toBitVec[22] = l.port.toBitVec[3]
  strobe : w.toBitVec[21] = l.port.toBitVec[4]
  low29 : w.toBitVec[29] = false
  low30 : w.toBitVec[30] = false
  low31 : w.toBitVec[31] = false

/-- `IN AL,DX` on the status port may return `al`: bit 7 is the acknowledge, bits 3 to 6 are
the inverted levels of GPIO 16, 17, 18 and 20, and the low three bits are arbitrary. -/
structure Lines.Status (l : Lines) (al : UInt8) : Prop where
  ack : al.toBitVec[7] = l.g19
  bit3 : al.toBitVec[3] = !l.g16
  bit4 : al.toBitVec[4] = !l.g17
  bit5 : al.toBitVec[5] = !l.g18
  bit6 : al.toBitVec[6] = !l.g20

section Host

/-- Accesses to the port. `waitStatus` is a loop of `IN`, `TEST AL,0x80` and `JZ` or `JNZ`,
left when the acknowledge shows the level. -/
inductive PortOp where
  | outp (v : UInt8)
  | waitStatus (level : Bool)
  | inp
  deriving DecidableEq, Repr

@[reducible] def PortResp : PortOp → Type
  | .outp _ => Unit
  | .waitStatus _ => Unit
  | .inp => UInt8

abbrev PortProg := Prog PortOp PortResp

def outp (v : UInt8) : PortProg Unit := .op (.outp v) .ret

def waitStatus (level : Bool) : PortProg Unit := .op (.waitStatus level) .ret

def inp : PortProg UInt8 := .op .inp .ret

/-- `write_byte` (`LPTSTORE.C:395-427`). -/
def writeByte (b : UInt8) : PortProg Unit := do
  outp ((b >>> 4) ||| 0x10)
  waitStatus true
  outp (b &&& 0x0f)
  waitStatus false

/-- `read_byte` (`LPTSTORE.C:352-393`). -/
def readByte : PortProg UInt8 := do
  waitStatus true
  let al ← inp
  let ah := (al <<< 1) &&& 0xf0
  outp 0x10
  waitStatus false
  let al ← inp
  let ah := ah ||| ((al >>> 3) &&& 0x0f)
  outp 0x00
  return ah

end Host

section Device

/-- Accesses to the pins. `waittimeout` stands for the function of that name with the mask
0x10; no value is its -1. -/
inductive GpioOp where
  | getAll
  | put (pin : Nat) (level : Bool)
  | waittimeout (value : UInt8)
  deriving DecidableEq, Repr

@[reducible] def GpioResp : GpioOp → Type
  | .getAll => UInt32
  | .put _ _ => Unit
  | .waittimeout _ => Option UInt8

abbrev GpioProg := Prog GpioOp GpioResp

def gpioGetAll : GpioProg UInt32 := .op .getAll .ret

def gpioPut (pin : Nat) (level : Bool) : GpioProg Unit := .op (.put pin level) .ret

def waittimeout (value : UInt8) : GpioProg (Option UInt8) := .op (.waittimeout value) .ret

/-- What `lptcomms_readlpt` makes of the word `gpio_get_all` returned (`lptcomms.c:37-41`). -/
def readlpt (w : UInt32) : UInt8 :=
  let dw := w >>> 20
  ((dw >>> 8) ||| ((dw &&& 0x80) >>> 6) ||| ((dw &&& 0x40) >>> 4) ||| ((dw &&& 0x04) <<< 1) |||
    ((dw &&& 0x02) <<< 3)).toUInt8

/-- `lptcomms_readlpt`. -/
def lptcommsReadlpt : GpioProg UInt8 := do
  let w ← gpioGetAll
  return readlpt w

/-- `lptcomms_hasbyte` (`lptcomms.c:43-45`). -/
def lptcommsHasbyte : GpioProg Bool := do
  let c ← lptcommsReadlpt
  return c &&& 0x10 = 0x10

/-- `lptcomms_readbyte` (`lptcomms.c:60-81`). -/
def lptcommsReadbyte : GpioProg (Option UInt8) := do
  match ← waittimeout 0x00 with
  | none => do
      gpioPut 19 false
      return none
  | some _ => do
      let c ← lptcommsReadlpt
      let d := (c &&& 0xf) <<< 4
      gpioPut 19 true
      match ← waittimeout 0x10 with
      | none => return none
      | some _ => do
          let c ← lptcommsReadlpt
          gpioPut 19 false
          return some (d ||| (c &&& 0xf))

/-- `lptcomms_writebyte` (`lptcomms.c:120-148`). -/
def lptcommsWritebyte (b : UInt8) : GpioProg Bool := do
  gpioPut 16 (b &&& 0x10 = 0)
  gpioPut 17 (b &&& 0x20 = 0)
  gpioPut 18 (b &&& 0x40 = 0)
  gpioPut 20 (b &&& 0x80 = 0)
  gpioPut 19 true
  match ← waittimeout 0x00 with
  | none => do
      gpioPut 19 false
      return false
  | some _ => do
      gpioPut 16 (b &&& 0x1 = 0)
      gpioPut 17 (b &&& 0x2 = 0)
      gpioPut 18 (b &&& 0x4 = 0)
      gpioPut 20 (b &&& 0x8 = 0)
      gpioPut 19 false
      match ← waittimeout 0x10 with
      | none => do
          gpioPut 19 false
          return false
      | some _ => return true

end Device

section Nibbles

/-- A byte is its eight bits. -/
theorem byte_ext {x y : UInt8} (h : ∀ i < 8, x.toBitVec.getLsbD i = y.toBitVec.getLsbD i) : x = y :=
  UInt8.toBitVec_inj.mp (BitVec.eq_of_getLsbD_eq h)

theorem readlpt_wired {l : Lines} {w : UInt32} (h : l.Wired w) :
    readlpt w = l.port &&& 0x1f := by
  refine byte_ext fun i hi => ?_
  interval_cases i <;>
    simp [readlpt, h.data0, h.data1, h.data2, h.data3, h.strobe, h.low29, h.low30, h.low31]

/-- The two nibbles of a byte. -/
theorem nibbles (b : UInt8) : (b &&& 0xf0) ||| (b &&& 0x0f) = b := by
  refine byte_ext fun i hi => ?_
  interval_cases i <;> simp

/-- The device sees the strobe. -/
theorem readlpt_strobe {l : Lines} {w : UInt32} (h : l.Wired w) :
    readlpt w &&& 0x10 = if l.strobe then 0x10 else 0x00 := by
  rw [readlpt_wired h]
  unfold Lines.strobe
  refine byte_ext fun i hi => ?_
  cases hs : l.port.toBitVec[4] <;> interval_cases i <;> simp [hs]

/-- The upper nibble that `write_byte` drives, as the device stores it. -/
theorem readlpt_upper {l : Lines} {w : UInt32} {b : UInt8} (h : l.Wired w)
    (hp : l.port = b >>> 4 ||| 0x10) : (readlpt w &&& 0xf) <<< 4 = b &&& 0xf0 := by
  rw [readlpt_wired h, hp]
  refine byte_ext fun i hi => ?_
  interval_cases i <;> simp

theorem readlpt_lower {l : Lines} {w : UInt32} {b : UInt8} (h : l.Wired w)
    (hp : l.port = b &&& 0x0f) : readlpt w &&& 0xf = b &&& 0x0f := by
  rw [readlpt_wired h, hp]
  refine byte_ext fun i hi => ?_
  interval_cases i <;> simp

/-- The pins show the upper nibble of `b`, as `lptcomms_writebyte` sets them. -/
def Lines.Upper (l : Lines) (b : UInt8) : Prop :=
  l.g16 = decide (b &&& 0x10 = 0) ∧ l.g17 = decide (b &&& 0x20 = 0) ∧
    l.g18 = decide (b &&& 0x40 = 0) ∧ l.g20 = decide (b &&& 0x80 = 0)

/-- The pins show the lower nibble of `b`. -/
def Lines.Lower (l : Lines) (b : UInt8) : Prop :=
  l.g16 = decide (b &&& 0x1 = 0) ∧ l.g17 = decide (b &&& 0x2 = 0) ∧
    l.g18 = decide (b &&& 0x4 = 0) ∧ l.g20 = decide (b &&& 0x8 = 0)

/-- Testing one bit of a byte with a mask. -/
theorem and_mask_eq_zero {b m : UInt8} {k : Nat} (hk : k < 8)
    (hm : ∀ i (_ : i < 8), m.toBitVec[i] = decide (i = k)) :
    decide (b &&& m = 0) = !b.toBitVec[k] := by
  have hiff : b &&& m = 0 ↔ b.toBitVec[k] = false := by
    rw [← UInt8.toBitVec_inj]
    constructor
    · intro h
      have hbit := congrArg (fun v : BitVec 8 => v[k]) h
      simpa [hm] using hbit
    · intro h
      apply BitVec.eq_of_getElem_eq
      intro i hi
      rcases Nat.decEq i k with hne | heq
      · simp [hm i hi, hne]
      · simp [heq, h]
  cases hb : b.toBitVec[k] <;> simp [hiff, hb]

/-- What `read_byte` makes of the upper nibble. -/
theorem status_upper {l : Lines} {al b : UInt8} (h : l.Status al) (hp : l.Upper b) :
    (al <<< 1) &&& 0xf0 = b &&& 0xf0 := by
  obtain ⟨h16, h17, h18, h20⟩ := hp
  rw [and_mask_eq_zero (k := 4) (by decide) (by decide)] at h16
  rw [and_mask_eq_zero (k := 5) (by decide) (by decide)] at h17
  rw [and_mask_eq_zero (k := 6) (by decide) (by decide)] at h18
  rw [and_mask_eq_zero (k := 7) (by decide) (by decide)] at h20
  refine byte_ext fun i hi => ?_
  interval_cases i <;> simp [h.bit3, h.bit4, h.bit5, h.bit6, h16, h17, h18, h20]

theorem status_lower {l : Lines} {al b : UInt8} (h : l.Status al) (hp : l.Lower b) :
    (al >>> 3) &&& 0x0f = b &&& 0x0f := by
  obtain ⟨h16, h17, h18, h20⟩ := hp
  rw [and_mask_eq_zero (k := 0) (by decide) (by decide)] at h16
  rw [and_mask_eq_zero (k := 1) (by decide) (by decide)] at h17
  rw [and_mask_eq_zero (k := 2) (by decide) (by decide)] at h18
  rw [and_mask_eq_zero (k := 3) (by decide) (by decide)] at h20
  refine byte_ext fun i hi => ?_
  interval_cases i <;> simp [h.bit3, h.bit4, h.bit5, h.bit6, h16, h17, h18, h20]

end Nibbles

end LptStore.Handshake
