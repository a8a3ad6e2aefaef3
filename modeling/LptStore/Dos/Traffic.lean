import LptStore.Dos.Attached
import LptStore.Handshake.Commands

/-!
# The traffic of the driver

`LPTRead` and `LPTWrite` make a command of each block until one fails: a read with a block number of 16
bits, or a write in the form that the driver's compressor finds. The frames of these commands are all that
the requests of DOS put on the wires.
-/

namespace LptStore.Dos

open LptStore.Lib LptStore.Protocol LptStore.Handshake

section Definitions

/-- A block as `LPTWrite` sends it. -/
def writeCommand (d : UInt8) (lba : UInt16) (data : Sector) : Command :=
  if h : (Dos.lptCompress data).1 = 0 then .writeRaw d lba data
  else .writePacked d lba
    { bytes := (Dos.lptCompress data).2
      data := data
      nonempty := by
        intro hnil
        exact h ((lptCompress_out h).1.trans (congrArg List.length hnil))
      length_le := Nat.le_of_lt (lptCompress_out h).2.1
      unpacks := congrArg Prod.snd (lptCompress_out h).2.2 }

variable {ω : Type}

/-- The commands of `LPTRead`'s loop. -/
def readCommands (disk : Disk ω) (unit : UInt16) : Nat → UInt16 → ω → List Command
  | 0, _, _ => []
  | n + 1, lbn, w =>
      .readBlock unit.toUInt8 lbn.toUInt32 ::
        if (disk.fetch w unit.toUInt8 lbn.toUInt32 .zero).1.isSome then
          readCommands disk unit n (lbn + 1) (disk.fetch w unit.toUInt8 lbn.toUInt32 .zero).2
        else []

/-- The commands of `LPTWrite`'s loop. -/
def writeCommands (disk : Disk ω) (unit : UInt16) : Nat → UInt16 → FarPtr → Mem → ω → List Command
  | 0, _, _, _, _ => []
  | n + 1, lbn, buffer, mem, w =>
      writeCommand unit.toUInt8 lbn (mem.sector buffer) ::
        if UInt8.ofInt (disk.writeSector w unit.toUInt8 lbn.toUInt32 (mem.sector buffer)).1 = 0 then
          writeCommands disk unit n (lbn + 1) (buffer.add 512) mem
            (disk.writeSector w unit.toUInt8 lbn.toUInt32 (mem.sector buffer)).2
        else []

/-- The commands of a call. -/
def callCommands (disk : Disk ω) (c : Call) (w : ω) : List Command :=
  match c.direction with
  | .read => readCommands disk c.unit c.count.toNat c.start w
  | .write => writeCommands disk c.unit c.count.toNat c.start c.buffer c.mem w

/-- One of the commands that the driver makes. -/
def OfDriver (c : Command) : Prop :=
  (∃ (unit : UInt8) (lbn : UInt16), c = .readBlock unit lbn.toUInt32) ∨
    ∃ unit lbn data, c = writeCommand unit lbn data

/-- The calls of the driver with the disk layer at hand, and the commands they make. -/
def spoken (disk : Disk ω) : LptCalls (ω × List Command) :=
  fun c s => ((disk.call c s.1).1, ((disk.call c s.1).2, s.2 ++ callCommands disk c s.1))

/-- The commands of the requests. -/
def sessionCommands (disk : Disk ω) (localAt : FarPtr) (xs : List Posted) (m : Machine) (w : ω) :
    List Command :=
  (serveBy (spoken disk) localAt xs m (w, [])).2.2

/-- What `LPTRead` goes on to with the answer to a block, `n` blocks being left after it. -/
def readNext (unit : UInt16) (n : Nat) (lbn : UInt16) (buffer : FarPtr) (mem : Mem) :
    Option (List UInt8) → HostProg (DResult × Mem)
  | some bytes => lptReadLoop unit n (lbn + 1) (buffer.add 512) (mem.write buffer bytes)
  | none => return (.RES_ERROR, mem)

/-- What `LPTWrite` goes on to. -/
def writeNext (unit : UInt16) (n : Nat) (lbn : UInt16) (buffer : FarPtr) (mem : Mem) (result : UInt8) :
    HostProg (DResult × Mem) :=
  if result = 0 then lptWriteLoop unit n (lbn + 1) (buffer.add 512) mem else return (.RES_ERROR, mem)

/-- What DOS goes on to with the answer to a request. -/
def serveNext (localAt : FarPtr) (xs : List Posted) :
    Option (Reply × Driver) × Mem → HostProg (List Reply × Option Machine)
  | (none, _) => return ([], none)
  | (some (reply, driver), mem) => do
      let (replies, m) ← serve localAt xs ⟨driver, mem⟩
      return (reply :: replies, m)

/-- The same with the calls of the driver answered by `lpt`. -/
def serveByNext (lpt : LptCalls ω) (localAt : FarPtr) (xs : List Posted) :
    Option (Reply × Driver) × Mem → ω → (List Reply × Option Machine) × ω
  | (none, _), w => (([], none), w)
  | (some (reply, driver), mem), w =>
      let ((replies, m), w) := serveBy lpt localAt xs ⟨driver, mem⟩ w
      ((reply :: replies, m), w)

/-- What the host takes from the answer to a read. -/
def asBlock : Answer → Option (List UInt8)
  | .block bytes => bytes
  | _ => none

/-- What it takes from the answer to a write. -/
def asStatus : Answer → UInt8
  | .status r => r
  | _ => 0xff

end Definitions

section Blocks

variable {α : Type}

theorem wordBytes_lbn (lbn : UInt16) :
    wordBytes lbn.toUInt32 = [(0x00 : UInt8), 0x00, (lbn >>> 8).toUInt8, (lbn &&& 0xff).toUInt8] := by
  have hlt : lbn.toNat < 65536 := lbn.toNat_lt
  have hmask : ∀ x : Nat, x &&& 255 = x % 256 := fun x => Nat.and_two_pow_sub_one_eq_mod x 8
  have h24 : (lbn.toUInt32 >>> 24).toUInt8 = 0x00 := by
    apply UInt8.toNat_inj.mp
    simp [Nat.shiftRight_eq_div_pow]
    omega
  have h16 : ((lbn.toUInt32 >>> 16) &&& 0xff).toUInt8 = 0x00 := by
    apply UInt8.toNat_inj.mp
    simp [Nat.shiftRight_eq_div_pow, hmask]
    omega
  have h8 : ((lbn.toUInt32 >>> 8) &&& 0xff).toUInt8 = (lbn >>> 8).toUInt8 := by
    apply UInt8.toNat_inj.mp
    simp [Nat.shiftRight_eq_div_pow, hmask]
  have h0 : (lbn.toUInt32 &&& 0xff).toUInt8 = (lbn &&& 0xff).toUInt8 := by
    apply UInt8.toNat_inj.mp
    simp
  rw [wordBytes, h24, h16, h8, h0]

theorem lptReadBlock_eq (unit lbn : UInt16) (next : Option (List UInt8) → HostProg α) :
    (lptReadBlock unit lbn).bind next =
      (Command.readBlock unit.toUInt8 lbn.toUInt32).ask.bind fun a => next (asBlock a) := by
  simp only [lptReadBlock, Command.ask, wordBytes_lbn, writeBytes, Protocol.writeByte,
    Protocol.readByte, Prog.bind_eq, Prog.pure_eq, Prog.op_bind, Prog.ret_bind, Prog.bind_assoc,
    asBlock, lptsReadBlock]

theorem lptWriteBlock_eq (unit lbn : UInt16) (data : Sector) (next : UInt8 → HostProg α) :
    (lptWriteBlock unit lbn data).bind next =
      (writeCommand unit.toUInt8 lbn data).ask.bind fun a => next (asStatus a) := by
  unfold writeCommand
  by_cases hc : (Dos.lptCompress data).1 = 0
  · simp [hc, lptWriteBlock, Command.ask, writeBytes, Protocol.writeByte, Protocol.readByte,
      asStatus, lptsWriteBlock]
  · obtain ⟨hlen, -, -⟩ := lptCompress_out hc
    have htake : (Dos.lptCompress data).2.take (Dos.lptCompress data).1 = (Dos.lptCompress data).2 := by
      rw [hlen, List.take_length]
    simp [hc, lptWriteBlock, Command.ask, writeBytes, Protocol.writeByte, Protocol.readByte,
      asStatus, lptsWriteBlock, htake]
    rw [hlen]

end Blocks

section Calls

variable {ω : Type} {disk : BlindDisk ω}

/-- By induction on the blocks. -/
theorem speaks_readLoop (unit : UInt16) (n : Nat) (lbn : UInt16) (buffer : FarPtr) (mem : Mem) (w : ω) :
    Speaks disk (lptReadLoop unit n lbn buffer mem) (disk.readLoop unit n lbn buffer mem w).1
      (readCommands disk.toDisk unit n lbn w) w := by
  induction n generalizing lbn buffer mem w with
  | zero => exact speaks_ret _
  | succ n ih =>
    have hloop : lptReadLoop unit (n + 1) lbn buffer mem =
        (lptReadBlock unit lbn).bind (readNext unit n lbn buffer mem) := rfl
    rw [hloop, lptReadBlock_eq]
    unfold Disk.readLoop readCommands
    apply speaks_then
    simp only [Command.run, asBlock]
    cases hanswer : disk.fetch w unit.toUInt8 lbn.toUInt32 .zero with
    | mk block w' =>
      simp only
      cases block with
      | none => exact speaks_ret _
      | some bytes => exact ih (lbn + 1) (buffer.add 512) (mem.write buffer bytes) w'

/-- What a block that `LPTWrite` sends comes to. -/
theorem run_writeCommand (d : UInt8) (lba : UInt16) (data : Sector) (w : ω) :
    (writeCommand d lba data).run disk.toDisk w =
      (.status (UInt8.ofInt (disk.writeSector w d lba.toUInt32 data).1),
        (disk.writeSector w d lba.toUInt32 data).2) := by
  unfold writeCommand
  split <;> rfl

theorem speaks_writeLoop (unit : UInt16) (n : Nat) (lbn : UInt16) (buffer : FarPtr) (mem : Mem) (w : ω) :
    Speaks disk (lptWriteLoop unit n lbn buffer mem)
      ((disk.writeLoop unit n lbn buffer mem w).1, mem)
      (writeCommands disk.toDisk unit n lbn buffer mem w) w := by
  induction n generalizing lbn buffer w with
  | zero => exact speaks_ret _
  | succ n ih =>
    have hloop : lptWriteLoop unit (n + 1) lbn buffer mem =
        (lptWriteBlock unit lbn (mem.sector buffer)).bind (writeNext unit n lbn buffer mem) := rfl
    rw [hloop, lptWriteBlock_eq]
    unfold Disk.writeLoop writeCommands
    apply speaks_then
    simp only [run_writeCommand, asStatus]
    cases hanswer : disk.writeSector w unit.toUInt8 lbn.toUInt32 (mem.sector buffer) with
    | mk r w' =>
      by_cases hr : UInt8.ofInt r = 0
      · simp only [writeNext, hanswer, hr, if_true]
        exact ih (lbn + 1) (buffer.add 512) w'
      · simp only [writeNext, hanswer, hr, if_false]
        exact speaks_ret _

theorem speaks_call (c : Call) (w : ω) :
    Speaks disk c.prog (disk.call c w).1 (callCommands disk.toDisk c w) w := by
  unfold Call.prog Disk.call callCommands
  cases c.direction with
  | read => exact speaks_readLoop c.unit _ c.start c.buffer c.mem w
  | write => exact speaks_writeLoop c.unit _ c.start c.buffer c.mem w

/-- The commands of a call leave the disk layer as the call does. -/
theorem runAll_callCommands (disk : BlindDisk ω) (c : Call) (w : ω) :
    (runAll disk.toDisk (callCommands disk.toDisk c w) w).2 = (disk.call c w).2 := by
  obtain ⟨b, hspoken⟩ := (speaks_call c w).leads ⟨.zero, .zero⟩
  obtain ⟨b', hcall⟩ := leads_call disk c ⟨.zero, .zero⟩ w
  have hsame := leads_unique (quiet_rest _ _ _ _) (quiet_rest _ _ _ _) hspoken hcall
  exact congrArg Device.world (Prod.mk.inj hsame).2

theorem ofDriver_readCommands (disk : Disk ω) (unit : UInt16) (n : Nat) (lbn : UInt16) (w : ω) :
    ∀ c ∈ readCommands disk unit n lbn w, OfDriver c := by
  induction n generalizing lbn w with
  | zero =>
    intro c hc
    cases hc
  | succ n ih =>
    intro c hc
    rw [readCommands, List.mem_cons] at hc
    rcases hc with hfirst | hrest
    · exact .inl ⟨unit.toUInt8, lbn, hfirst⟩
    · split at hrest
      · exact ih _ _ c hrest
      · cases hrest

theorem ofDriver_writeCommands (disk : Disk ω) (unit : UInt16) (n : Nat) (lbn : UInt16) (buffer : FarPtr)
    (mem : Mem) (w : ω) : ∀ c ∈ writeCommands disk unit n lbn buffer mem w, OfDriver c := by
  induction n generalizing lbn buffer w with
  | zero =>
    intro c hc
    cases hc
  | succ n ih =>
    intro c hc
    rw [writeCommands, List.mem_cons] at hc
    rcases hc with hfirst | hrest
    · exact .inr ⟨unit.toUInt8, lbn, mem.sector buffer, hfirst⟩
    · split at hrest
      · exact ih _ _ _ c hrest
      · cases hrest

theorem ofDriver_callCommands (disk : Disk ω) (c : Call) (w : ω) :
    ∀ command ∈ callCommands disk c w, OfDriver command := by
  unfold callCommands
  cases c.direction with
  | read => exact ofDriver_readCommands disk c.unit _ c.start w
  | write => exact ofDriver_writeCommands disk c.unit _ c.start c.buffer c.mem w

end Calls

section Sessions

variable {α β ω : Type} {disk : BlindDisk ω} (localAt : FarPtr)

/-- The program makes some commands of the driver and comes to `r`, and `kept` adds the same commands to
those it is given. -/
def Spoken (disk : BlindDisk ω) (p : HostProg α) (w : ω) (r : α × ω)
    (kept : List Command → α × ω × List Command) : Prop :=
  ∃ cs, Speaks disk p r.1 cs w ∧ (runAll disk.toDisk cs w).2 = r.2 ∧ (∀ c ∈ cs, OfDriver c) ∧
    ∀ l, kept l = (r.1, r.2, l ++ cs)

theorem spoken_ret (a : α) (w : ω) : Spoken disk (.ret a) w (a, w) fun l => (a, w, l) := by
  refine ⟨[], speaks_ret a, rfl, ?_, ?_⟩
  · intro c hc
    cases hc
  · intro l
    simp

theorem spoken_bind {p : HostProg α} (f : α → HostProg β) {w : ω} {a : α × ω} {r : β × ω}
    {kept : List Command → α × ω × List Command} (g : α → ω × List Command → β × ω × List Command)
    (h : Spoken disk p w a kept) (hnext : Spoken disk (f a.1) a.2 r fun l => g a.1 (a.2, l)) :
    Spoken disk (p.bind f) w r fun l => g (kept l).1 (kept l).2 := by
  obtain ⟨cs, hspeaks, hworld, hof, hkept⟩ := h
  obtain ⟨cs', hspeaks', hworld', hof', hkept'⟩ := hnext
  refine ⟨cs ++ cs', ?_, ?_, ?_, ?_⟩
  · rw [← hworld] at hspeaks'
    exact speaks_bind hspeaks hspeaks'
  · rw [runAll_append, hworld, hworld']
  · intro c hc
    exact (List.mem_append.mp hc).elim (hof c) (hof' c)
  · intro l
    simp only [hkept, hkept', List.append_assoc]

theorem spoken_call (c : Call) (w : ω) :
    Spoken disk c.prog w (disk.call c w) fun l => spoken disk.toDisk c (w, l) :=
  ⟨callCommands disk.toDisk c w, speaks_call c w, runAll_callCommands disk c w,
    ofDriver_callCommands disk.toDisk c w, fun _ => rfl⟩

variable (disk)

/-- The driver, by induction on its program. -/
theorem spoken_attach (x : Posted) (p : DosProg α) (mem : Mem) (w : ω) :
    Spoken disk (attach localAt x p mem) w (direct disk.toDisk.call localAt x p mem w)
      fun l => direct (spoken disk.toDisk) localAt x p mem (w, l) := by
  induction p generalizing mem w with
  | ret a => exact spoken_ret _ w
  | op o k ih =>
    cases o with
    | parseOptions => exact ih x.options mem w
    | lptInit => exact ih () mem w
    | readLocal unit lbn old =>
      exact spoken_bind (fun a => attach localAt x (k (a.1, a.2.sector localAt)) a.2)
        (fun a s => direct (spoken disk.toDisk) localAt x (k (a.1, a.2.sector localAt)) a.2 s)
        (spoken_call ⟨.read, unit, lbn, localAt, 1, mem⟩ w) (ih _ _ _)
    | lptRead unit lbn count =>
      exact spoken_bind (fun a => attach localAt x (k a.1) a.2)
        (fun a s => direct (spoken disk.toDisk) localAt x (k a.1) a.2 s)
        (spoken_call ⟨.read, unit, lbn, x.buffer, count, mem⟩ w) (ih _ _ _)
    | lptWrite unit lbn count =>
      exact spoken_bind (fun a => attach localAt x (k a.1) a.2)
        (fun a s => direct (spoken disk.toDisk) localAt x (k a.1) a.2 s)
        (spoken_call ⟨.write, unit, lbn, x.buffer, count, mem⟩ w) (ih _ _ _)
    | divideError => exact spoken_ret _ w

theorem serve_cons (x : Posted) (xs : List Posted) (m : Machine) : serve localAt (x :: xs) m =
    (attach localAt x (lptDriver x.request m.driver) (x.setup m.mem)).bind (serveNext localAt xs) :=
  rfl

theorem serveBy_cons (lpt : LptCalls ω) (x : Posted) (xs : List Posted) (m : Machine) (w : ω) :
    serveBy lpt localAt (x :: xs) m w =
      serveByNext lpt localAt xs
        (direct lpt localAt x (lptDriver x.request m.driver) (x.setup m.mem) w).1
        (direct lpt localAt x (lptDriver x.request m.driver) (x.setup m.mem) w).2 := by
  unfold serveBy Posted.servedBy
  cases direct lpt localAt x (lptDriver x.request m.driver) (x.setup m.mem) w with
  | mk result s =>
    obtain ⟨a, mem⟩ := result
    cases a with
    | none => rfl
    | some y => rfl

/-- The requests, by induction on them. -/
theorem spoken_serve (xs : List Posted) (m : Machine) (w : ω) :
    Spoken disk (serve localAt xs m) w (serveOnDisk disk.toDisk localAt xs m w)
      fun l => serveBy (spoken disk.toDisk) localAt xs m (w, l) := by
  induction xs generalizing m w with
  | nil => exact spoken_ret _ w
  | cons x xs ih =>
    have hone := spoken_attach disk localAt x (lptDriver x.request m.driver) (x.setup m.mem) w
    simp only [serve_cons, serveOnDisk, serveBy_cons]
    refine spoken_bind (serveNext localAt xs) (serveByNext (spoken disk.toDisk) localAt xs) hone ?_
    cases direct disk.toDisk.call localAt x (lptDriver x.request m.driver) (x.setup m.mem) w with
    | mk result w₁ =>
      obtain ⟨a, mem⟩ := result
      cases a with
      | none => exact spoken_ret _ w₁
      | some y =>
        exact spoken_bind (fun z => .ret (y.1 :: z.1, z.2)) (fun z s => ((y.1 :: z.1, z.2), s)) (ih _ w₁)
          (spoken_ret _ _)

/-- Requests of DOS over the wires, with every change of direction in time. They come to a list of
commands, each a read of a block whose number has 16 bits or a write in the form that the compressor finds.
At any time the PC has sent a beginning of the frames of these commands, core 1 has heard a beginning of
them, and a beginning of the replies has come back; once DOS has all its answers, all of both has passed and
nothing else. -/
theorem requests_traffic {xs : List Posted} {m : Machine} {b : Bufs} {w : ω}
    {s t : Pins (HostProg (List Reply × Option Machine)) (Device ω)}
    (hrest : AtRest (serve localAt xs m) (Device.idle b w) s)
    (hrun : PinRun hostAct (Device.act disk.toDisk) InTime s t) :
    (∀ c ∈ sessionCommands disk.toDisk localAt xs m w, OfDriver c) ∧
      t.hostLog.Grows ⟨(sessionCommands disk.toDisk localAt xs m w).flatMap Command.frame,
        replies disk.toDisk (sessionCommands disk.toDisk localAt xs m w) w⟩ ∧
      t.devLog.returned <+: (sessionCommands disk.toDisk localAt xs m w).flatMap Command.frame ∧
      ∀ r, t.host = .idle (.ret r) →
        t.hostLog = ⟨(sessionCommands disk.toDisk localAt xs m w).flatMap Command.frame,
          replies disk.toDisk (sessionCommands disk.toDisk localAt xs m w) w⟩ := by
  obtain ⟨cs, hspeaks, -, hof, hkept⟩ := spoken_serve disk localAt xs m w
  have hcs : sessionCommands disk.toDisk localAt xs m w = cs := congrArg (fun r => r.2.2) (hkept [])
  rw [hcs]
  exact ⟨hof, hspeaks.traffic hrest hrun⟩

/-- The PC is about to write a block of zeros over one of ones, and to read it back. -/
def clearingStart : Pins (HostProg (List Reply × Option Machine)) (Device Drives) :=
  ⟨.idle (serve ⟨0, 0⟩ storedPosts clearedMachine),
    .idle (Device.idle ⟨.zero, .zero⟩ fun _ => [.ofFn fun _ => 1]),
    ⟨0, false, false, false, false, false⟩, ⟨[], []⟩, ⟨[], []⟩⟩

/-- It passes in four bytes each way: a frame of ten and its status, and one of six and the block. -/
theorem requests_traffic_stored : ∃ t : Pins (HostProg (List Reply × Option Machine)) (Device Drives),
    PinRun hostAct (Device.act blindArray.toDisk) InTime clearingStart t ∧
      t.hostLog = ⟨[0x04, 0x00, 0x00, 0x04, 0x00, 0x00, 0x00, 0xff, 0x00, 0xff] ++
        [0x03, 0x00, 0x00, 0x00, 0x00, 0x00], [0x00] ++ [0x02, 0x00, 0x04, 0x00, 0xff, 0x00, 0xff]⟩ := by
  have hrest : AtRest (serve ⟨0, 0⟩ storedPosts clearedMachine)
      (Device.idle ⟨.zero, .zero⟩ fun _ => [.ofFn fun _ => 1]) clearingStart :=
    ⟨rfl, rfl, rfl, rfl, rfl, rfl⟩
  obtain ⟨b', hleads⟩ := leads_serve blindArray.toBlindDisk ⟨0, 0⟩ storedPosts clearedMachine
    ⟨.zero, .zero⟩ fun _ => [.ofFn fun _ => 1]
  obtain ⟨-, ⟨t, hrun, hhost⟩, -⟩ := inTime_finishes (quiet_rest _ _ _ _) hleads hrest (.refl _)
  have htraffic := requests_traffic blindArray.toBlindDisk ⟨0, 0⟩ hrest hrun
  exact ⟨t, hrun, (htraffic.2.2.2 _ hhost).trans (by decide +kernel)⟩

end Sessions

end LptStore.Dos
