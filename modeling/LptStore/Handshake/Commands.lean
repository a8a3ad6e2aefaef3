import LptStore.Handshake.Recorded

/-!
# The whole command set over the wires

`lptprotocol_task` knows more than the driver asks for: the version, the drives and their sizes, block
numbers of 32 bits to read, and any compressed form of a block to write. A list of commands in any order
is answered over the wires as by the disk layer at hand. What passes is a frame for each command one way
and its reply the other, and no two lists of commands have the same frames.
-/

namespace LptStore.Handshake

open LptStore.Lib LptStore.Protocol

section Commands

/-- A compressed block as a write carries it, by whatever compressor: it unpacks to a whole block. -/
structure Packed where
  bytes : List UInt8
  data : Sector
  nonempty : bytes ≠ []
  length_le : bytes.length ≤ 512
  unpacks : (Pico.lptDecompress bytes).2 = data.bytes

/-- The requests of `lptprotocol.h`. -/
inductive Command where
  | hello
  | queryDisks
  | queryDiskCaps (disk : UInt8)
  | readBlock (disk : UInt8) (lba : UInt32)
  | writeRaw (disk : UInt8) (lba : UInt16) (data : Sector)
  | writePacked (disk : UInt8) (lba : UInt16) (packed : Packed)

inductive Answer where
  | version (major minor : UInt8)
  | word (w : UInt32)
  | block (bytes : Option (List UInt8))
  | status (r : UInt8)
  deriving DecidableEq

/-- The four bytes of a word, the highest first. -/
def wordBytes (w : UInt32) : List UInt8 :=
  [(w >>> 24).toUInt8, ((w >>> 16) &&& 0xff).toUInt8, ((w >>> 8) &&& 0xff).toUInt8, (w &&& 0xff).toUInt8]

def wordOf (b₀ b₁ b₂ b₃ : UInt8) : UInt32 :=
  (b₀.toUInt32 <<< 24) ||| (b₁.toUInt32 <<< 16) ||| (b₂.toUInt32 <<< 8) ||| b₃.toUInt32

/-- What the host makes of four bytes. -/
def answerWord : List UInt8 → Answer
  | [b₀, b₁, b₂, b₃] => .word (wordOf b₀ b₁ b₂ b₃)
  | _ => .word 0

/-- What the host makes of two. -/
def answerVersion : List UInt8 → Answer
  | [major, minor] => .version major minor
  | _ => .version 0 0

/-- A host that makes the request and reads the answer, a block as `LPTRead` does. -/
def Command.ask : Command → HostProg Answer
  | .hello => .op (.writeByte lptsHello) fun _ => (readBytes 2).bind fun bs => .ret (answerVersion bs)
  | .queryDisks =>
      .op (.writeByte lptsQueryDisks) fun _ => (readBytes 4).bind fun bs => .ret (answerWord bs)
  | .queryDiskCaps disk =>
      .op (.writeByte lptsQueryDiskCaps) fun _ => (writeBytes [disk]).bind fun _ =>
        (readBytes 4).bind fun bs => .ret (answerWord bs)
  | .readBlock disk lba =>
      .op (.writeByte lptsReadBlock) fun _ => (writeBytes (disk :: wordBytes lba)).bind fun _ =>
        .op .readByte fun result => (lptReadReply result).bind fun block => .ret (.block block)
  | .writeRaw disk lba data =>
      .op (.writeByte lptsWriteBlock) fun _ =>
        (writeBytes [disk, 0x00, 0x00, (lba >>> 8).toUInt8, (lba &&& 0xff).toUInt8]).bind fun _ =>
          (writeBytes data.bytes).bind fun _ => .op .readByte fun r => .ret (.status r)
  | .writePacked disk lba packed =>
      .op (.writeByte lptsWriteBlock) fun _ =>
        (writeBytes [disk, UInt8.ofNat (packed.bytes.length >>> 8),
          UInt8.ofNat (packed.bytes.length &&& 0xff), (lba >>> 8).toUInt8,
          (lba &&& 0xff).toUInt8]).bind fun _ =>
            (writeBytes packed.bytes).bind fun _ => .op .readByte fun r => .ret (.status r)

/-- One command after the other. -/
def askAll : List Command → HostProg (List Answer)
  | [] => return []
  | c :: cs => do
      let a ← c.ask
      let as ← askAll cs
      return a :: as

variable {ω : Type}

/-- What a command comes to with the disk layer at hand. -/
def Command.run (disk : Disk ω) : Command → ω → Answer × ω
  | .hello, w => (.version lptsVersionMajor lptsVersionMinor, w)
  | .queryDisks, w => (.word (disk.getDrives w), w)
  | .queryDiskCaps d, w => (.word (disk.getBlocks w d), w)
  | .readBlock d lba, w => ((.block (disk.fetch w d lba .zero).1), (disk.fetch w d lba .zero).2)
  | .writeRaw d lba data, w =>
      (.status (UInt8.ofInt (disk.writeSector w d lba.toUInt32 data).1),
        (disk.writeSector w d lba.toUInt32 data).2)
  | .writePacked d lba packed, w =>
      (.status (UInt8.ofInt (disk.writeSector w d lba.toUInt32 packed.data).1),
        (disk.writeSector w d lba.toUInt32 packed.data).2)

def runAll (disk : Disk ω) : List Command → ω → List Answer × ω
  | [], w => ([], w)
  | c :: cs, w =>
      let (a, w) := c.run disk w
      let (as, w) := runAll disk cs w
      (a :: as, w)

/-- The bytes of a request. -/
def Command.frame : Command → List UInt8
  | .hello => [lptsHello]
  | .queryDisks => [lptsQueryDisks]
  | .queryDiskCaps disk => [lptsQueryDiskCaps, disk]
  | .readBlock disk lba => lptsReadBlock :: disk :: wordBytes lba
  | .writeRaw disk lba data =>
      [lptsWriteBlock, disk, 0x00, 0x00, (lba >>> 8).toUInt8, (lba &&& 0xff).toUInt8] ++ data.bytes
  | .writePacked disk lba packed =>
      [lptsWriteBlock, disk, UInt8.ofNat (packed.bytes.length >>> 8),
        UInt8.ofNat (packed.bytes.length &&& 0xff), (lba >>> 8).toUInt8, (lba &&& 0xff).toUInt8] ++
        packed.bytes

/-- The bytes of a block that is sent back, in its packed form where it has one. -/
def blockReply (bytes : List UInt8) : List UInt8 :=
  let (c, out) := Codec.compress bytes
  if c = 0 then 0x00 :: bytes
  else 0x02 :: UInt8.ofNat (c >>> 8) :: UInt8.ofNat (c &&& 0xff) :: out

/-- The bytes of an answer. -/
def Command.reply (disk : Disk ω) : Command → ω → List UInt8
  | .hello, _ => [lptsVersionMajor, lptsVersionMinor]
  | .queryDisks, w => wordBytes (disk.getDrives w)
  | .queryDiskCaps d, w => wordBytes (disk.getBlocks w d)
  | .readBlock d lba, w => (disk.fetch w d lba .zero).1.elim [0x01] blockReply
  | .writeRaw d lba data, w => [UInt8.ofInt (disk.writeSector w d lba.toUInt32 data).1]
  | .writePacked d lba packed, w => [UInt8.ofInt (disk.writeSector w d lba.toUInt32 packed.data).1]

def replies (disk : Disk ω) : List Command → ω → List UInt8
  | [], _ => []
  | c :: cs, w => c.reply disk w ++ replies disk cs (c.run disk w).2

end Commands

section Bytes

theorem wordOf_bytes (w : UInt32) :
    wordOf (w >>> 24).toUInt8 ((w >>> 16) &&& 0xff).toUInt8 ((w >>> 8) &&& 0xff).toUInt8
      (w &&& 0xff).toUInt8 = w := by
  apply UInt32.toBitVec_inj.mp
  apply BitVec.eq_of_getLsbD_eq
  intro i hi
  interval_cases i <;> simp [wordOf, -UInt32.toUInt32_toUInt8]

theorem answerWord_bytes (w : UInt32) : answerWord (wordBytes w) = .word w :=
  congrArg Answer.word (wordOf_bytes w)

theorem take_putWord (buff : Sector) (w : UInt32) : (putWord buff w).bytes.take 4 = wordBytes w := by
  obtain ⟨bytes, hlen⟩ := buff
  match bytes, hlen with
  | _ :: _ :: _ :: _ :: _, _ => rfl

/-- The length field of a packed block tells its length. -/
theorem Packed.field_length (p : Packed) : ((UInt8.ofNat (p.bytes.length >>> 8)).toUInt16 <<< 8 |||
    (UInt8.ofNat (p.bytes.length &&& 0xff)).toUInt16).toNat = p.bytes.length :=
  length_of_bytes (Nat.lt_of_le_of_lt p.length_le (by decide))

/-- It is not that of a block as it is. -/
theorem Packed.field_ne_zero (p : Packed) : ((UInt8.ofNat (p.bytes.length >>> 8)).toUInt16 <<< 8 |||
    (UInt8.ofNat (p.bytes.length &&& 0xff)).toUInt16) ≠ 0 := by
  intro hzero
  have hlen := p.field_length
  rw [hzero] at hlen
  exact p.nonempty (List.eq_nil_of_length_eq_zero hlen.symm)

end Bytes

section Leads

variable {α ω : Type} {disk : Disk ω} {b : Bufs} {w : ω} {lg : Log}

/-- A command of one byte, answered with some bytes. -/
theorem leads_told {cmd : UInt8} {bs : List UInt8} {n : Nat} {b' : Bufs} {f : List UInt8 → α}
    (hpos : 0 < n) (hn : bs.length = n)
    (hd : dispatch cmd b = (lptcommsWritebytes bs).bind fun _ => .ret b') :
    Leads hostAct (Device.act disk) (.ret (f bs), Device.idle b' w)
      (.op (.writeByte cmd) fun _ => (readBytes n).bind fun bs => .ret (f bs), Device.idle b w) := by
  apply leads_command
  · obtain ⟨m, rfl⟩ := Nat.exists_eq_succ_of_ne_zero hpos.ne'
    exact continues_ne_done (continues_readByte _)
  · rw [hd]
    exact leads_writebytes hn (.refl _)

theorem take_version (buff : Sector) :
    ((buff.set 0 lptsVersionMajor).set 1 lptsVersionMinor).bytes.take 2 =
      [lptsVersionMajor, lptsVersionMinor] := by
  obtain ⟨bytes, hlen⟩ := buff
  match bytes, hlen with
  | _ :: _ :: _, _ => rfl

/-- A command leads to its answer, its frame sent and its reply received. -/
def Asked (disk : Disk ω) (c : Command) (lg : Log) (b : Bufs) (w : ω) : Prop :=
  ∃ b', Leads hostAct (Device.act disk)
    (.ret ((c.run disk w).1, (lg.send c.frame).receive (c.reply disk w)),
      Device.idle b' (c.run disk w).2) (recorded c.ask lg, Device.idle b w)

theorem asked_hello : Asked disk .hello lg b w := by
  refine ⟨{ b with buff := (b.buff.set 0 lptsVersionMajor).set 1 lptsVersionMinor }, ?_⟩
  have hd : dispatch lptsHello b = (lptcommsWritebytes [lptsVersionMajor, lptsVersionMinor]).bind
      fun _ => .ret { b with buff := (b.buff.set 0 lptsVersionMajor).set 1 lptsVersionMinor } := by
    rw [← take_version b.buff]
    rfl
  simp only [Command.ask, recorded, recorded_readBytes]
  exact leads_told (f := fun bs => (answerVersion bs, _)) (by decide) rfl hd

theorem asked_queryDisks : Asked disk .queryDisks lg b w := by
  refine ⟨{ b with buff := putWord b.buff (disk.getDrives w) }, ?_⟩
  simp only [Command.ask, recorded, recorded_readBytes, Command.run, Command.reply, Command.frame]
  refine leads_command (continues_ne_done (continues_readByte _)) (Leads.step (.tau rfl) (continues_readByte _) ?_)
  show Leads _ _ _ (_, Device.resume ((lptcommsWritebytes _).bind _) w)
  rw [take_putWord, ← answerWord_bytes]
  exact leads_writebytes rfl (.refl _)

theorem asked_queryDiskCaps (d : UInt8) : Asked disk (.queryDiskCaps d) lg b w := by
  refine ⟨{ b with buff := putWord (b.buff.setFrom 0 [d]) (disk.getBlocks w d) }, ?_⟩
  simp only [Command.ask, recorded, recorded_writeBytes, recorded_readBytes, Command.run, Command.reply,
    Command.frame, Log.send_send]
  refine leads_command (continues_ne_done (continues_writeBytes _ (continues_readByte _))) ?_
  refine leads_readbytes rfl (continues_readByte _) ?_
  simp only [if_true]
  rw [get_setFrom_zero _ _ (by simp) (by simp)]
  refine Leads.step (.tau rfl) (continues_readByte _) ?_
  show Leads _ _ _ (_, Device.resume ((lptcommsWritebytes _).bind _) w)
  rw [take_putWord, ← answerWord_bytes]
  exact leads_writebytes rfl (.refl _)

theorem recorded_rawReply (f : Option (List UInt8) → α) (lg : Log) :
    recorded ((lptReadReply 0x00).bind fun block => .ret (f block)) lg =
      (readBytes 512).bind fun bs => .ret (f (some bs), lg.receive bs) := by
  have hprog : (lptReadReply 0x00).bind (fun block => (.ret (f block) : HostProg α)) =
      (readBytes 512).bind fun bs => .ret (f (some bs)) := by
    simp [lptReadReply]
  rw [hprog, recorded_readBytes]
  rfl

theorem recorded_packedReply (f : Option (List UInt8) → α) (lg : Log) :
    recorded ((lptReadReply 0x02).bind fun block => .ret (f block)) lg =
      .op .readByte fun hi => .op .readByte fun lo => (readBytes (lengthField hi lo)).bind fun bs =>
        .ret (f (some (Dos.lptDecompress bs).2), ((lg.receive [hi]).receive [lo]).receive bs) := by
  have hprog : (lptReadReply 0x02).bind (fun block => (.ret (f block) : HostProg α)) =
      .op .readByte fun hi => .op .readByte fun lo => (readBytes (lengthField hi lo)).bind fun bs =>
        .ret (f (some (Dos.lptDecompress bs).2)) := by
    simp [lptReadReply, Protocol.readByte]
  rw [hprog]
  simp only [recorded, recorded_readBytes]

/-- A block on its way to the host, as it is or packed. -/
theorem leads_blockReply (f : Option (List UInt8) → α) : ∃ b', Leads hostAct (Device.act disk)
    (.ret (f (some b.buff.bytes), lg.receive (blockReply b.buff.bytes)), Device.idle b' w)
    (.op .readByte fun result =>
      recorded ((lptReadReply result).bind fun block => .ret (f block)) (lg.receive [result]),
        Device.resume (sendBlock b) w) := by
  refine ⟨{ b with compressBuff := b.compressBuff.overwrite (Pico.lptCompress b.buff).2 }, ?_⟩
  unfold blockReply
  by_cases hc : (Pico.lptCompress b.buff).1 = 0
  · have hreply : (Codec.compress b.buff.bytes).1 = 0 := hc
    simp only [sendBlock, hc, hreply, ne_eq, not_true_eq_false, if_false, if_true]
    apply leads_writebyte
    rw [recorded_rawReply]
    apply leads_writebytes b.buff.length_bytes
    rw [Log.receive_receive]
    exact .refl _
  · obtain ⟨hlen, hlt, hdec⟩ : (Pico.lptCompress b.buff).1 = (Pico.lptCompress b.buff).2.length ∧
        (Pico.lptCompress b.buff).2.length < 512 ∧
        Dos.lptDecompress (Pico.lptCompress b.buff).2 = (512, b.buff.bytes) := lptCompress_out hc
    have hfield := lengthField_of_bytes (n := (Pico.lptCompress b.buff).1) (by omega)
    have htake : (storeBytes b.compressBuff.bytes (Pico.lptCompress b.buff).2).take
        (Pico.lptCompress b.buff).1 = (Pico.lptCompress b.buff).2 := by
      rw [hlen]
      apply take_storeBytes
      rw [Sector.length_bytes]
      exact Nat.le_of_lt hlt
    have hreply : ¬ (Codec.compress b.buff.bytes).1 = 0 := hc
    simp only [sendBlock, hc, hreply, ne_eq, not_false_eq_true, if_true, if_false]
    apply leads_writebyte
    rw [recorded_packedReply]
    apply leads_writebyte
    apply leads_writebyte
    rw [hfield]
    simp only [Sector.overwrite, htake]
    apply leads_writebytes hlen.symm
    rw [hdec, Log.receive_receive, Log.receive_receive, Log.receive_receive]
    exact .refl _

theorem asked_readBlock (disk : BlindDisk ω) (d : UInt8) (lba : UInt32) (b : Bufs) (w : ω) :
    Asked disk.toDisk (.readBlock d lba) lg b w := by
  let buff := b.buff.setFrom 0 (d :: wordBytes lba)
  let answer := disk.readSector w d lba buff
  -- the layer does not look at what was left in the buffer
  have hfetch := disk.blind w d lba .zero buff
  unfold Asked
  simp only [Command.ask, recorded, recorded_writeBytes, Command.run, Command.reply, Command.frame,
    hfetch, Log.send_send]
  have hsent : ∃ b', Leads hostAct (Device.act disk.toDisk)
      (.ret (Answer.block (blockRead answer.1.1 answer.1.2),
        (lg.send (lptsReadBlock :: d :: wordBytes lba)).receive
          ((blockRead answer.1.1 answer.1.2).elim [0x01] blockReply)), Device.idle b' answer.2)
      (.op .readByte fun result =>
        recorded ((lptReadReply result).bind fun block => .ret (Answer.block block))
          ((lg.send (lptsReadBlock :: d :: wordBytes lba)).receive [result]),
        Device.resume (answerRead answer.1.1 ⟨answer.1.2, b.compressBuff⟩) answer.2) := by
    unfold answerRead blockRead
    by_cases hr : UInt8.ofInt answer.1.1 = 0
    · simp only [hr, if_true]
      exact leads_blockReply (b := ⟨answer.1.2, b.compressBuff⟩) Answer.block
    · simp only [hr, if_false]
      exact ⟨_, leads_writebyte (.refl _)⟩
  obtain ⟨b', hb'⟩ := hsent
  refine ⟨b', ?_⟩
  apply leads_header disk.toDisk rfl rfl (continues_readByte _)
  simp only [if_true]
  repeat rw [get_setFrom_zero _ _ (by simp [wordBytes]) (by simp [wordBytes])]
  show Leads _ _ _ (_, Device.resume (fetchBlock d (wordOf (lba >>> 24).toUInt8
    ((lba >>> 16) &&& 0xff).toUInt8 ((lba >>> 8) &&& 0xff).toUInt8 (lba &&& 0xff).toUInt8) _) w)
  rw [wordOf_bytes]
  exact Leads.step (.tau rfl) (continues_readByte _) hb'

theorem asked_writeRaw (d : UInt8) (lba : UInt16) (data : Sector) :
    Asked disk (.writeRaw d lba data) lg b w := by
  refine ⟨⟨data, b.compressBuff⟩, ?_⟩
  simp only [Command.ask, recorded, recorded_writeBytes, Log.send_send]
  apply leads_writeHeader disk (continues_writeBytes _ (continues_readByte _))
  rw [lbn_of_bytes]
  exact leads_receiveRaw disk (.refl _)

theorem asked_writePacked (d : UInt8) (lba : UInt16) (packed : Packed) :
    Asked disk (.writePacked d lba packed) lg b w := by
  refine ⟨⟨packed.data, b.compressBuff.setFrom 0 packed.bytes⟩, ?_⟩
  simp only [Command.ask, recorded, recorded_writeBytes, Log.send_send]
  apply leads_writeHeader disk (continues_writeBytes _ (continues_readByte _))
  rw [lbn_of_bytes]
  unfold receiveBlock
  rw [if_neg packed.field_ne_zero]
  apply leads_readbytes packed.field_length.symm (continues_readByte _)
  simp only [if_true]
  rw [packed.field_length, take_setFrom _ packed.length_le, packed.unpacks, Sector.overwrite_full]
  exact leads_storeBlock disk (.refl _)

variable (disk : BlindDisk ω)

theorem asked (c : Command) (lg : Log) (b : Bufs) (w : ω) : Asked disk.toDisk c lg b w := by
  cases c with
  | hello => exact asked_hello
  | queryDisks => exact asked_queryDisks
  | queryDiskCaps d => exact asked_queryDiskCaps d
  | readBlock d lba => exact asked_readBlock disk d lba b w
  | writeRaw d lba data => exact asked_writeRaw d lba data
  | writePacked d lba packed => exact asked_writePacked d lba packed

end Leads

section Speaks

variable {α β ω : Type} {disk : BlindDisk ω} {w : ω}

/-- A program makes these commands, one after the other, and comes to `a`. -/
def Speaks (disk : BlindDisk ω) (p : HostProg α) (a : α) (cs : List Command) (w : ω) : Prop :=
  ∀ lg b, ∃ b', Leads hostAct (Device.act disk.toDisk)
    (.ret (a, (lg.send (cs.flatMap Command.frame)).receive (replies disk.toDisk cs w)),
      Device.idle b' (runAll disk.toDisk cs w).2) (recorded p lg, Device.idle b w)

theorem speaks_ret (a : α) : Speaks disk (.ret a) a [] w := by
  intro lg b
  refine ⟨b, ?_⟩
  rw [List.flatMap_nil, Log.send_nil, replies, Log.receive_nil]
  exact .refl _

theorem runAll_append (disk : Disk ω) (cs cs' : List Command) (w : ω) :
    (runAll disk (cs ++ cs') w).2 = (runAll disk cs' (runAll disk cs w).2).2 := by
  induction cs generalizing w with
  | nil => rfl
  | cons c cs ih => exact ih (c.run disk w).2

theorem replies_append (disk : Disk ω) (cs cs' : List Command) (w : ω) :
    replies disk (cs ++ cs') w = replies disk cs w ++ replies disk cs' (runAll disk cs w).2 := by
  induction cs generalizing w with
  | nil => rfl
  | cons c cs ih =>
    rw [List.cons_append, replies, replies, ih, List.append_assoc]
    rfl

theorem speaks_bind {p : HostProg α} {f : α → HostProg β} {a : α} {r : β} {cs cs' : List Command}
    (h : Speaks disk p a cs w) (hnext : Speaks disk (f a) r cs' (runAll disk.toDisk cs w).2) :
    Speaks disk (p.bind f) r (cs ++ cs') w := by
  intro lg b
  obtain ⟨b₁, hone⟩ := h lg b
  obtain ⟨b', hrest⟩ := hnext _ b₁
  refine ⟨b', ?_⟩
  have hlog : ((lg.send (cs.flatMap Command.frame)).receive (replies disk.toDisk cs w)).send
      (cs'.flatMap Command.frame) =
        (lg.send ((cs ++ cs').flatMap Command.frame)).receive (replies disk.toDisk cs w) := by
    simp [Log.send, Log.receive]
  rw [hlog, Log.receive_receive, ← replies_append, ← runAll_append] at hrest
  rw [recorded_bind]
  exact leads_bind hone hrest

theorem speaks_map {p : HostProg α} {f : α → β} {a : α} {cs : List Command}
    (h : Speaks disk p a cs w) : Speaks disk (p.bind fun x => .ret (f x)) (f a) cs w := by
  have hbind := speaks_bind h (f := fun x => .ret (f x)) (speaks_ret (f a))
  rwa [List.append_nil] at hbind

theorem speaks_ask (c : Command) : Speaks disk c.ask (c.run disk.toDisk w).1 [c] w := by
  intro lg b
  obtain ⟨b', hone⟩ := asked disk c lg b w
  refine ⟨b', ?_⟩
  rw [List.flatMap_singleton, replies, replies, List.append_nil]
  exact hone

/-- A command first. -/
theorem speaks_then (c : Command) {f : Answer → HostProg α} {a : α} {cs : List Command}
    (hnext : Speaks disk (f (c.run disk.toDisk w).1) a cs (c.run disk.toDisk w).2) :
    Speaks disk (c.ask.bind f) a (c :: cs) w :=
  speaks_bind (speaks_ask c) hnext

/-- By induction on the commands. -/
theorem speaks_askAll (cs : List Command) : Speaks disk (askAll cs) (runAll disk.toDisk cs w).1 cs w := by
  induction cs generalizing w with
  | nil => exact speaks_ret _
  | cons c cs ih => exact speaks_then c (speaks_map ih)

variable {p : HostProg α} {a : α} {cs : List Command}

theorem Speaks.leads (h : Speaks disk p a cs w) (b : Bufs) : ∃ b', Leads hostAct (Device.act disk.toDisk)
    (.ret a, Device.idle b' (runAll disk.toDisk cs w).2) (p, Device.idle b w) := by
  obtain ⟨b', hrecorded⟩ := h ⟨[], []⟩ b
  have hbind := leads_bind (f := fun x : α × Log => .ret x.1) hrecorded (.refl _)
  rw [recorded_result] at hbind
  exact ⟨b', hbind⟩

/-- What passes over the wires in a run of a program that makes these commands: at any time the PC has
sent a beginning of their frames, core 1 has heard a beginning of them, and a beginning of the replies has
come back. -/
theorem Speaks.traffic (h : Speaks disk p a cs w) {b : Bufs} {s t : Pins (HostProg α) (Device ω)}
    (hrest : AtRest p (Device.idle b w) s)
    (hrun : PinRun hostAct (Device.act disk.toDisk) InTime s t) :
    t.hostLog.Grows ⟨cs.flatMap Command.frame, replies disk.toDisk cs w⟩ ∧
      t.devLog.returned <+: cs.flatMap Command.frame ∧
      ∀ a', t.host = .idle (.ret a') →
        t.hostLog = ⟨cs.flatMap Command.frame, replies disk.toDisk cs w⟩ := by
  obtain ⟨b', hrecorded⟩ := h ⟨[], []⟩ b
  obtain ⟨b'', hleads⟩ := h.leads b
  have hquiet := quiet_rest disk.toDisk a b' (runAll disk.toDisk cs w).2
  obtain ⟨hgrows, hend⟩ := hostLog_of_leads hquiet.poll hrecorded hrest hrun
  obtain ⟨ds, us, c, d, -, hph⟩ := inTime_kept (matching_leads (quiet_rest _ _ _ _)) hleads hrest hrun
  obtain ⟨hheard, -⟩ := phase_logs hph
  exact ⟨hgrows, hheard.trans hgrows.1, hend⟩

end Speaks

section Wires

variable {ω : Type} (disk : BlindDisk ω)

/-- The commands over the wires, in any order of the accesses in which every change of direction is in
time: there is no deadlock, the last command can always still be answered, and the answers and the disk
layer are then what they come to with the disk layer at hand. -/
theorem commands_over_wires {cs : List Command} {b : Bufs} {w : ω}
    {s t : Pins (HostProg (List Answer)) (Device ω)} (hrest : AtRest (askAll cs) (Device.idle b w) s)
    (hrun : PinRun hostAct (Device.act disk.toDisk) InTime s t) :
    ¬ Deadlock (Device.act disk.toDisk) t ∧
      (∃ u as, PinRun hostAct (Device.act disk.toDisk) InTime t u ∧ u.host = .idle (.ret as)) ∧
      ∀ as, t.host = .idle (.ret as) → as = (runAll disk.toDisk cs w).1 ∧
        ∃ u b', PinRun hostAct (Device.act disk.toDisk) (fun m _ => m = .device) t u ∧
          u.dev = .idle (Device.idle b' (runAll disk.toDisk cs w).2) ∧
          u.lines.strobe = false ∧ u.lines.g19 = false := by
  have hspeaks : Speaks disk (askAll cs) (runAll disk.toDisk cs w).1 cs w := speaks_askAll cs
  obtain ⟨b', hleads⟩ := hspeaks.leads b
  obtain ⟨hlive, ⟨u, hfinish, hu⟩, hend⟩ := inTime_finishes (quiet_rest _ _ _ _) hleads hrest hrun
  refine ⟨hlive, ⟨u, _, hfinish, hu⟩, ?_⟩
  intro as hhost
  obtain ⟨has, u, halone, -, hdev, hS, hA⟩ := hend _ hhost rfl
  exact ⟨Prog.ret.inj has, u, b', halone, hdev, hS, hA⟩

/-- At any time in such a run the PC has sent a beginning of the frames of the commands, core 1 has heard a
beginning of them, and a beginning of the replies has come back; when the last command is answered, all of
both has passed. -/
theorem frames_over_wires {cs : List Command} {b : Bufs} {w : ω}
    {s t : Pins (HostProg (List Answer)) (Device ω)} (hrest : AtRest (askAll cs) (Device.idle b w) s)
    (hrun : PinRun hostAct (Device.act disk.toDisk) InTime s t) :
    t.hostLog.Grows ⟨cs.flatMap Command.frame, replies disk.toDisk cs w⟩ ∧
      t.devLog.returned <+: cs.flatMap Command.frame ∧
      ∀ as, t.host = .idle (.ret as) →
        t.hostLog = ⟨cs.flatMap Command.frame, replies disk.toDisk cs w⟩ :=
  (speaks_askAll cs).traffic hrest hrun

end Wires

section Exchanged

/-- A block of a one and then zeros, as its five bytes. -/
def packedOne : Packed where
  bytes := [0x01, 0x00, 0xff, 0x00, 0xfe]
  data := ⟨(Pico.lptDecompress [0x01, 0x00, 0xff, 0x00, 0xfe]).2, by decide +kernel⟩
  nonempty := List.cons_ne_nil _ _
  length_le := by decide
  unpacks := by decide +kernel

/-- The version, a block written and the block read back. -/
def exchanged : List Command := [.hello, .writePacked 0 0 packedOne, .readBlock 0 0]

/-- A host is about to ask for them, of a device with a drive of one block of zeros. -/
def exchangedStart : Pins (HostProg (List Answer)) (Device Drives) :=
  ⟨.idle (askAll exchanged), .idle (Device.idle ⟨.zero, .zero⟩ fun _ => [.zero]),
    ⟨0, false, false, false, false, false⟩, ⟨[], []⟩, ⟨[], []⟩⟩

theorem exchangedStart_atRest :
    AtRest (askAll exchanged) (Device.idle ⟨.zero, .zero⟩ fun _ => [.zero]) exchangedStart :=
  ⟨rfl, rfl, rfl, rfl, rfl, rfl⟩

theorem exchanged_answers : (runAll blindArray.toDisk exchanged fun _ => [.zero]).1 =
    [.version 0 1, .status 0, .block (some packedOne.data.bytes)] := by
  decide +kernel

theorem exchanged_run : ∃ t : Pins (HostProg (List Answer)) (Device Drives),
    PinRun hostAct (Device.act blindArray.toDisk) InTime exchangedStart t ∧
      t.host = .idle (.ret (runAll blindArray.toDisk exchanged fun _ => [.zero]).1) := by
  have hspeaks : Speaks blindArray.toBlindDisk (askAll exchanged) _ exchanged fun _ => [.zero] :=
    speaks_askAll exchanged
  obtain ⟨b', hleads⟩ := hspeaks.leads ⟨.zero, .zero⟩
  obtain ⟨-, hfinishes, -⟩ :=
    inTime_finishes (quiet_rest _ _ _ _) hleads exchangedStart_atRest (.refl _)
  exact hfinishes

theorem commands_over_wires_block : ∃ t : Pins (HostProg (List Answer)) (Device Drives),
    PinRun hostAct (Device.act blindArray.toDisk) InTime exchangedStart t ∧
      ¬ Deadlock (Device.act blindArray.toDisk) t ∧
      t.host = .idle (.ret [.version 0 1, .status 0, .block (some packedOne.data.bytes)]) := by
  obtain ⟨-, ⟨t, as, hin, hhost⟩, -⟩ :=
    commands_over_wires blindArray.toBlindDisk exchangedStart_atRest (.refl _)
  obtain ⟨hlive, -, hends⟩ := commands_over_wires blindArray.toBlindDisk exchangedStart_atRest hin
  rw [(hends as hhost).1, exchanged_answers] at hhost
  exact ⟨t, hin, hlive, hhost⟩

/-- The version is asked for in one byte, the block goes and comes in its packed form. -/
theorem frames_over_wires_block : ∃ t : Pins (HostProg (List Answer)) (Device Drives),
    PinRun hostAct (Device.act blindArray.toDisk) InTime exchangedStart t ∧
      t.hostLog = ⟨[0x00, 0x04, 0, 0, 5, 0, 0, 0x01, 0x00, 0xff, 0x00, 0xfe, 0x03, 0, 0, 0, 0, 0],
        [0x00, 0x01, 0x00, 0x02, 0, 5, 0x01, 0x00, 0xff, 0x00, 0xfe]⟩ := by
  have hframes : exchanged.flatMap Command.frame =
      [0x00, 0x04, 0, 0, 5, 0, 0, 0x01, 0x00, 0xff, 0x00, 0xfe, 0x03, 0, 0, 0, 0, 0] := by
    decide
  have hreplies : replies blindArray.toDisk exchanged (fun _ => [.zero]) =
      [0x00, 0x01, 0x00, 0x02, 0, 5, 0x01, 0x00, 0xff, 0x00, 0xfe] := by
    decide +kernel
  obtain ⟨t, hin, hhost⟩ := exchanged_run
  obtain ⟨-, -, hends⟩ := frames_over_wires blindArray.toBlindDisk exchangedStart_atRest hin
  have hlog := hends _ hhost
  rw [hframes, hreplies] at hlog
  exact ⟨t, hin, hlog⟩

end Exchanged

section Frames

theorem Packed.eq_of_bytes {p q : Packed} (h : p.bytes = q.bytes) : p = q := by
  obtain ⟨bytes, data, hne, hle, hdata⟩ := p
  obtain ⟨bytes', data', hne', hle', hdata'⟩ := q
  subst h
  have hsame : data = data' := Sector.ext (hdata.symm.trans hdata')
  subst hsame
  rfl

theorem lba_of_bytes {x y : UInt16} (hhi : (x >>> 8).toUInt8 = (y >>> 8).toUInt8)
    (hlo : (x &&& 0xff).toUInt8 = (y &&& 0xff).toUInt8) : x = y := by
  have hx := lbn_of_bytes x
  rw [hhi, hlo, lbn_of_bytes y] at hx
  exact (UInt16.toUInt32_inj.mp hx).symm

theorem wordBytes_inj {x y : UInt32} (h : wordBytes x = wordBytes y) : x = y := by
  have hword := congrArg answerWord h
  rw [answerWord_bytes, answerWord_bytes] at hword
  exact Answer.word.inj hword

theorem Packed.length_inj {p q : Packed}
    (hhi : UInt8.ofNat (p.bytes.length >>> 8) = UInt8.ofNat (q.bytes.length >>> 8))
    (hlo : UInt8.ofNat (p.bytes.length &&& 0xff) = UInt8.ofNat (q.bytes.length &&& 0xff)) :
    p.bytes.length = q.bytes.length := by
  rw [← p.field_length, hhi, hlo, q.field_length]

theorem Command.frame_ne_nil (c : Command) : c.frame ≠ [] := by
  cases c <;> nofun

/-- The first byte tells the commands apart, and the frame of a command says where it ends. -/
theorem frame_append_inj {c c' : Command} {r r' : List UInt8} (h : c.frame ++ r = c'.frame ++ r') :
    c = c' ∧ r = r' := by
  cases c with
  | hello =>
    cases c' with
    | hello => exact ⟨rfl, List.append_cancel_left h⟩
    | _ => exact absurd (List.cons.inj h).1 (by decide)
  | queryDisks =>
    cases c' with
    | queryDisks => exact ⟨rfl, List.append_cancel_left h⟩
    | _ => exact absurd (List.cons.inj h).1 (by decide)
  | queryDiskCaps d =>
    cases c' with
    | queryDiskCaps d' =>
      simp only [Command.frame, List.cons_append, List.nil_append, List.cons.injEq, true_and] at h
      obtain ⟨rfl, rfl⟩ := h
      exact ⟨rfl, rfl⟩
    | _ => exact absurd (List.cons.inj h).1 (by decide)
  | readBlock d lba =>
    cases c' with
    | readBlock d' lba' =>
      simp only [Command.frame, List.cons_append, List.cons.injEq, true_and] at h
      obtain ⟨rfl, htail⟩ := h
      obtain ⟨hword, rfl⟩ := List.append_inj htail rfl
      rw [wordBytes_inj hword]
      exact ⟨rfl, rfl⟩
    | _ => exact absurd (List.cons.inj h).1 (by decide)
  | writeRaw d lba data =>
    cases c' with
    | writeRaw d' lba' data' =>
      simp only [Command.frame, List.cons_append, List.nil_append, List.cons.injEq, true_and] at h
      obtain ⟨rfl, hhi, hlo, htail⟩ := h
      obtain ⟨hdata, rfl⟩ := List.append_inj htail (data.length_bytes.trans data'.length_bytes.symm)
      rw [lba_of_bytes hhi hlo, Sector.ext hdata]
      exact ⟨rfl, rfl⟩
    | writePacked d' lba' packed =>
      simp only [Command.frame, List.cons_append, List.nil_append, List.cons.injEq, true_and] at h
      obtain ⟨-, hhi, hlo, -⟩ := h
      exact absurd (by rw [← hhi, ← hlo]; rfl) packed.field_ne_zero
    | _ => exact absurd (List.cons.inj h).1 (by decide)
  | writePacked d lba packed =>
    cases c' with
    | writeRaw d' lba' data' =>
      simp only [Command.frame, List.cons_append, List.nil_append, List.cons.injEq, true_and] at h
      obtain ⟨-, hhi, hlo, -⟩ := h
      exact absurd (by rw [hhi, hlo]; rfl) packed.field_ne_zero
    | writePacked d' lba' packed' =>
      simp only [Command.frame, List.cons_append, List.nil_append, List.cons.injEq, true_and] at h
      obtain ⟨rfl, hchi, hclo, hhi, hlo, htail⟩ := h
      obtain ⟨hbytes, rfl⟩ := List.append_inj htail (Packed.length_inj hchi hclo)
      rw [lba_of_bytes hhi hlo, Packed.eq_of_bytes hbytes]
      exact ⟨rfl, rfl⟩
    | _ => exact absurd (List.cons.inj h).1 (by decide)

/-- What is sent says which commands were meant: no two lists of commands have the same frames. -/
theorem frames_injective : Function.Injective fun cs : List Command => cs.flatMap Command.frame := by
  intro cs cs' h
  induction cs generalizing cs' with
  | nil =>
    cases cs' with
    | nil => rfl
    | cons c' cs' => exact absurd (List.append_eq_nil_iff.mp h.symm).1 c'.frame_ne_nil
  | cons c cs ih =>
    cases cs' with
    | nil => exact absurd (List.append_eq_nil_iff.mp h).1 c.frame_ne_nil
    | cons c' cs' =>
      obtain ⟨rfl, hrest⟩ := frame_append_inj h
      rw [ih hrest]

end Frames

end LptStore.Handshake
