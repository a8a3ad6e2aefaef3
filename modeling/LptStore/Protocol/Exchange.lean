import LptStore.Protocol.Task
import LptStore.Protocol.Host

/-!
# One block over the link

The exchanges that `LPTRead` and `LPTWrite` make with `lptprotocol_task` for one block, run
hand in hand. Each lemma walks one piece of the exchange backwards: from a run out of the
state after the piece it makes one out of the state before it, so that a whole exchange
is put together by applying them in the order of the messages.
-/

namespace LptStore.Protocol

open LptStore.Lib

section Wire

/-! Two bytes on the wire, high byte first, are the 16-bit number they came from. -/

theorem toNat_hi (w : UInt16) : (w >>> 8).toUInt8.toNat = w.toNat / 256 := by
  have h := w.toNat_lt
  simp [Nat.shiftRight_eq_div_pow]
  omega

theorem toNat_lo (w : UInt16) : (w &&& 0xff).toUInt8.toNat = w.toNat % 256 := by
  have h : w.toNat % 256 &&& 255 = w.toNat % 256 % 256 :=
    Nat.and_two_pow_sub_one_eq_mod (w.toNat % 256) 8
  simp [h]

theorem toNat_ofNat_hi {n : Nat} (h : n < 65536) :
    (UInt8.ofNat (n >>> 8)).toNat = n / 256 := by
  simp [Nat.shiftRight_eq_div_pow]
  omega

theorem toNat_ofNat_lo (n : Nat) : (UInt8.ofNat (n &&& 0xff)).toNat = n % 256 := by
  have h : n &&& 255 = n % 256 := Nat.and_two_pow_sub_one_eq_mod n 8
  simp [h]

theorem toNat_word16 (hi lo : UInt8) :
    ((hi.toUInt16 <<< 8) ||| lo.toUInt16).toNat = hi.toNat * 256 + lo.toNat := by
  have hh := hi.toNat_lt
  have hl := lo.toNat_lt
  have hs : hi.toNat <<< 8 < 65536 := by
    rw [Nat.shiftLeft_eq]
    omega
  simp
  rw [Nat.mod_eq_of_lt hs, ← Nat.shiftLeft_add_eq_or_of_lt (by omega), Nat.shiftLeft_eq]

theorem toNat_word32 (hi lo : UInt8) :
    ((hi.toUInt32 <<< 8) ||| lo.toUInt32).toNat = hi.toNat * 256 + lo.toNat := by
  have hh := hi.toNat_lt
  have hl := lo.toNat_lt
  have hs : hi.toNat <<< 8 < 65536 := by
    rw [Nat.shiftLeft_eq]
    omega
  simp
  rw [Nat.mod_eq_of_lt (by omega), ← Nat.shiftLeft_add_eq_or_of_lt (by omega), Nat.shiftLeft_eq]

/-- The block number of a write request. -/
theorem lbn_of_bytes (lbn : UInt16) :
    ((lbn >>> 8).toUInt8.toUInt32 <<< 8) ||| (lbn &&& 0xff).toUInt8.toUInt32 = lbn.toUInt32 := by
  apply UInt32.toNat_inj.mp
  rw [toNat_word32, toNat_hi, toNat_lo, UInt16.toNat_toUInt32]
  omega

/-- The length field of a compressed block. -/
theorem length_of_bytes {n : Nat} (h : n < 65536) :
    ((UInt8.ofNat (n >>> 8)).toUInt16 <<< 8 ||| (UInt8.ofNat (n &&& 0xff)).toUInt16).toNat = n := by
  rw [toNat_word16, toNat_ofNat_hi h, toNat_ofNat_lo]
  omega

theorem lengthField_of_bytes {n : Nat} (h : n < 0x8000) :
    lengthField (UInt8.ofNat (n >>> 8)) (UInt8.ofNat (n &&& 0xff)) = n := by
  have hn := length_of_bytes (n := n) (by omega)
  unfold lengthField
  rw [if_pos, hn]
  rw [UInt16.lt_iff_toNat_lt, hn]
  exact h

end Wire

section Steps

variable {α ω : Type} {disk : Disk ω} {fin : HostProg α × Device ω} {w : ω}

theorem continues_ne_done {c : HostProg α} (h : Continues hostAct c) : hostAct c ≠ .done := by
  intro hd
  simp [Continues, hd] at h

theorem continues_readByte (k : UInt8 → HostProg α) : Continues hostAct (.op .readByte k) := trivial

theorem continues_writeByte {b : UInt8} {k : Unit → HostProg α} (h : hostAct (k ()) ≠ .done) :
    Continues hostAct (.op (.writeByte b) k) := h

theorem continues_writeBytes {k : HostProg α} (bs : List UInt8) (h : Continues hostAct k) :
    Continues hostAct ((writeBytes bs).bind fun _ => k) := by
  induction bs with
  | nil => exact h
  | cons b bs ih => exact continues_writeByte (continues_ne_done ih)

/-- A poll that finds nothing leaves the device between two requests. -/
theorem lptprotocolTask_poll (b : Bufs) :
    ∃ k, lptprotocolTask b = .op .hasbyte k ∧ Device.resume (k false) w = Device.idle b w :=
  ⟨_, rfl, rfl⟩

/-- The device notices the first byte of a request and reads it. -/
theorem leads_command {cmd : UInt8} {b : Bufs} {k : HostProg α} (hk : hostAct k ≠ .done)
    (h : Leads hostAct (Device.act disk) fin (k, Device.resume (dispatch cmd b) w)) :
    Leads hostAct (Device.act disk) fin (.op (.writeByte cmd) fun _ => k, Device.idle b w) := by
  have hc : Continues hostAct (Prog.op (HostOp.writeByte cmd) fun _ => k) := continues_writeByte hk
  refine Leads.step (.poll rfl rfl) hc ?_
  refine Leads.step (.down rfl rfl) hc ?_
  exact h

/-- `lptcomms_readbytes` takes what the host writes. -/
theorem leads_readbytes {buf : BufId} {bs : List UInt8} {n i : Nat} {buff : Sector}
    {kH : HostProg α} {kD : Bool × Sector → DevProg Bufs} (hn : bs.length = n)
    (hk : Continues hostAct kH)
    (h : Leads hostAct (Device.act disk) fin
      (kH, Device.resume (kD (true, buff.setFrom i bs)) w)) :
    Leads hostAct (Device.act disk) fin ((writeBytes bs).bind fun _ => kH,
      Device.resume ((readbytesFrom buf n i buff).bind kD) w) := by
  subst hn
  induction bs generalizing i buff with
  | nil => exact h
  | cons b bs ih =>
    have hc : Continues hostAct ((writeBytes bs).bind fun _ => kH) := continues_writeBytes bs hk
    refine Leads.step (.down rfl rfl) (continues_writeByte (continues_ne_done hc)) ?_
    refine Leads.step (.tau rfl) hc ?_
    exact ih h

/-- `lptcomms_writebytes` gives the host what it reads. -/
theorem leads_writebytes {bs : List UInt8} {n : Nat} {kH : List UInt8 → HostProg α}
    {kD : Bool → DevProg Bufs} (hn : bs.length = n)
    (h : Leads hostAct (Device.act disk) fin (kH bs, Device.resume (kD true) w)) :
    Leads hostAct (Device.act disk) fin ((readBytes n).bind kH,
      Device.resume ((lptcommsWritebytes bs).bind kD) w) := by
  subst hn
  induction bs generalizing kH with
  | nil => exact h
  | cons b bs ih =>
    refine Leads.step (.up rfl rfl) (continues_readByte _) ?_
    change Leads _ _ _ (((readBytes bs.length).bind fun l => .ret (b :: l)).bind kH, _)
    rw [Prog.bind_assoc]
    exact ih h

/-- One byte from the device to the host. -/
theorem leads_writebyte {b : UInt8} {kH : UInt8 → HostProg α} {kD : Bool → DevProg Bufs}
    (h : Leads hostAct (Device.act disk) fin (kH b, Device.resume (kD true) w)) :
    Leads hostAct (Device.act disk) fin
      (.op .readByte kH, Device.resume (.op (.writebyte b) kD) w) :=
  Leads.step (.up rfl rfl) (continues_readByte kH) h

end Steps

section Blocks

variable {α ω : Type} (disk : Disk ω)

theorem get_setFrom_zero (buff : Sector) (bs : List UInt8) {i : Nat} (hi : i < bs.length)
    (h : bs.length ≤ 512) : (buff.setFrom 0 bs).get i = bs.getD i 0 := by
  unfold Sector.get
  rw [Sector.bytes_setFrom _ _ _ (by omega)]
  simp [List.getElem?_append_left hi]

theorem setFrom_full (buff data : Sector) : buff.setFrom 0 data.bytes = data := by
  ext1
  rw [Sector.bytes_setFrom _ _ _ (by simp)]
  simp

/-- The command byte of a request and its five bytes of header. -/
theorem leads_header {cmd : UInt8} {hdr : List UInt8} {b : Bufs}
    {kH : HostProg α} {kD : Bool × Sector → DevProg Bufs} {w : ω} {fin : HostProg α × Device ω}
    (hd : dispatch cmd b = (lptcommsReadbytes .buff b.buff 5).bind kD) (hn : hdr.length = 5)
    (hk : Continues hostAct kH)
    (h : Leads hostAct (Device.act disk) fin
      (kH, Device.resume (kD (true, b.buff.setFrom 0 hdr)) w)) :
    Leads hostAct (Device.act disk) fin
      (.op (.writeByte cmd) fun _ => (writeBytes hdr).bind fun _ => kH, Device.idle b w) := by
  apply leads_command (continues_ne_done (continues_writeBytes hdr hk))
  rw [hd]
  exact leads_readbytes hn hk h

/-- The status byte, once the block has been handed to the disk layer. -/
theorem leads_storeBlock {drv : UInt8} {lba : UInt32} {b : Bufs} {kH : UInt8 → HostProg α}
    {w : ω} {fin : HostProg α × Device ω}
    (h : Leads hostAct (Device.act disk) fin
      (kH (UInt8.ofInt (disk.writeSector w drv lba b.buff).1),
        Device.idle b (disk.writeSector w drv lba b.buff).2)) :
    Leads hostAct (Device.act disk) fin
      (.op .readByte kH, Device.resume (storeBlock drv lba b) w) := by
  refine Leads.step (.tau rfl) (continues_readByte kH) ?_
  exact leads_writebyte h

/-- A block sent raw. -/
theorem leads_receiveRaw {drv : UInt8} {lba : UInt32} {data : Sector} {b : Bufs}
    {kH : UInt8 → HostProg α} {w : ω} {fin : HostProg α × Device ω}
    (h : Leads hostAct (Device.act disk) fin
      (kH (UInt8.ofInt (disk.writeSector w drv lba data).1),
        Device.idle { b with buff := data } (disk.writeSector w drv lba data).2)) :
    Leads hostAct (Device.act disk) fin ((writeBytes data.bytes).bind fun _ => .op .readByte kH,
      Device.resume (receiveBlock drv lba 0 b) w) := by
  apply leads_readbytes data.length_bytes (continues_readByte kH)
  rw [setFrom_full]
  exact leads_storeBlock disk h

/-- What the compressor stored fits the buffer and decompresses to the block. -/
theorem lptCompress_out {data : Sector} (h : (Dos.lptCompress data).1 ≠ 0) :
    (Dos.lptCompress data).1 = (Dos.lptCompress data).2.length ∧
      (Dos.lptCompress data).2.length < 512 ∧
      Pico.lptDecompress (Dos.lptCompress data).2 = (512, data.bytes) := by
  have hd : data.bytes.length ≤ 512 := Nat.le_of_eq data.length_bytes
  have hc := Codec.decompress_compress hd (Nat.pos_of_ne_zero h)
  rwa [data.length_bytes] at hc

theorem take_setFrom (s : Sector) {bs : List UInt8} (h : bs.length ≤ 512) :
    (s.setFrom 0 bs).bytes.take bs.length = bs := by
  rw [Sector.bytes_setFrom _ _ _ (by omega)]
  simp

/-- A block sent compressed. -/
theorem leads_receiveCompressed {drv : UInt8} {lba : UInt32} {data : Sector} {b : Bufs}
    {kH : UInt8 → HostProg α} {w : ω} {fin : HostProg α × Device ω} {n : UInt16}
    (hn : n ≠ 0) (hc : (Dos.lptCompress data).1 = n.toNat)
    (h : Leads hostAct (Device.act disk) fin
      (kH (UInt8.ofInt (disk.writeSector w drv lba data).1),
        Device.idle ⟨data, b.compressBuff.setFrom 0 (Dos.lptCompress data).2⟩
          (disk.writeSector w drv lba data).2)) :
    Leads hostAct (Device.act disk) fin
      ((writeBytes (Dos.lptCompress data).2).bind fun _ => .op .readByte kH,
        Device.resume (receiveBlock drv lba n b) w) := by
  have hne : (Dos.lptCompress data).1 ≠ 0 := by
    intro h0
    apply hn
    apply UInt16.toNat_inj.mp
    rw [← hc, h0, UInt16.toNat_zero]
  obtain ⟨hlen, hlt, hdec⟩ := lptCompress_out hne
  rw [hc] at hlen
  unfold receiveBlock
  rw [if_neg hn]
  apply leads_readbytes hlen.symm (continues_readByte kH)
  simp only [if_true]
  rw [hlen, take_setFrom _ (by omega), hdec, Sector.overwrite_full]
  exact leads_storeBlock disk h

/-- The header of a write request. -/
theorem leads_writeHeader {unit ch cl hi lo : UInt8} {b : Bufs} {kH : HostProg α} {w : ω}
    {fin : HostProg α × Device ω} (hk : Continues hostAct kH)
    (h : Leads hostAct (Device.act disk) fin (kH,
      Device.resume (receiveBlock unit ((hi.toUInt32 <<< 8) ||| lo.toUInt32)
        ((ch.toUInt16 <<< 8) ||| cl.toUInt16)
        { b with buff := b.buff.setFrom 0 [unit, ch, cl, hi, lo] }) w)) :
    Leads hostAct (Device.act disk) fin
      (.op (.writeByte 0x04) fun _ => (writeBytes [unit, ch, cl, hi, lo]).bind fun _ => kH,
        Device.idle b w) := by
  apply leads_header disk rfl rfl hk
  simp only [if_true]
  repeat rw [get_setFrom_zero _ _ (by simp) (by simp)]
  exact h

/-- The exchange of one pass of `LPTWrite`'s loop. -/
theorem leads_writeBlock (kH : UInt8 → HostProg α) (unit lbn : UInt16) (data : Sector) (b : Bufs)
    (w : ω) :
    ∃ b', ∀ fin, Leads hostAct (Device.act disk) fin
      (kH (UInt8.ofInt (disk.writeSector w unit.toUInt8 lbn.toUInt32 data).1),
        Device.idle b' (disk.writeSector w unit.toUInt8 lbn.toUInt32 data).2) →
    Leads hostAct (Device.act disk) fin
      ((lptWriteBlock unit lbn data).bind kH, Device.idle b w) := by
  by_cases hc : (Dos.lptCompress data).1 = 0
  · refine ⟨⟨data, b.compressBuff⟩, ?_⟩
    intro fin h
    have hraw : (lptWriteBlock unit lbn data).bind kH = .op (.writeByte 0x04) fun _ =>
        (writeBytes [unit.toUInt8, 0x00, 0x00, (lbn >>> 8).toUInt8, (lbn &&& 0xff).toUInt8]).bind
          fun _ => (writeBytes data.bytes).bind fun _ => .op .readByte kH := by
      simp [lptWriteBlock, hc, writeByte, readByte, writeBytes]
    rw [hraw]
    apply leads_writeHeader disk (continues_writeBytes _ (continues_readByte kH))
    rw [lbn_of_bytes]
    exact leads_receiveRaw disk h
  · refine ⟨⟨data, b.compressBuff.setFrom 0 (Dos.lptCompress data).2⟩, ?_⟩
    intro fin h
    obtain ⟨hlen, hlt, -⟩ := lptCompress_out hc
    have htake : (Dos.lptCompress data).2.take (Dos.lptCompress data).1 =
        (Dos.lptCompress data).2 := by
      rw [hlen, List.take_length]
    have hcomp : (lptWriteBlock unit lbn data).bind kH = .op (.writeByte 0x04) fun _ =>
        (writeBytes [unit.toUInt8, UInt8.ofNat ((Dos.lptCompress data).1 >>> 8),
          UInt8.ofNat ((Dos.lptCompress data).1 &&& 0xff), (lbn >>> 8).toUInt8,
          (lbn &&& 0xff).toUInt8]).bind
            fun _ => (writeBytes (Dos.lptCompress data).2).bind fun _ => .op .readByte kH := by
      simp [lptWriteBlock, hc, writeByte, readByte, writeBytes, htake]
    have hword := length_of_bytes (n := (Dos.lptCompress data).1) (by omega)
    rw [hcomp]
    apply leads_writeHeader disk (continues_writeBytes _ (continues_readByte kH))
    rw [lbn_of_bytes]
    refine leads_receiveCompressed disk ?_ hword.symm h
    intro h0
    rw [h0, UInt16.toNat_zero] at hword
    exact hc hword.symm

/-- The answer to a block that was read: the host rebuilds the block from it. -/
theorem leads_sendBlock {b : Bufs} {kH : Option (List UInt8) → HostProg α} {w : ω}
    {fin : HostProg α × Device ω}
    (h : Leads hostAct (Device.act disk) fin (kH (some b.buff.bytes),
      Device.idle { b with compressBuff := b.compressBuff.overwrite (Pico.lptCompress b.buff).2 }
        w)) :
    Leads hostAct (Device.act disk) fin
      (.op .readByte fun result => (lptReadReply result).bind kH,
        Device.resume (sendBlock b) w) := by
  by_cases hc : (Pico.lptCompress b.buff).1 = 0
  · have hraw : (lptReadReply 0x00).bind kH = (readBytes 512).bind fun l => kH (some l) := by
      simp [lptReadReply]
    simp only [sendBlock, hc, ne_eq, not_true_eq_false, if_false]
    apply leads_writebyte
    rw [hraw]
    exact leads_writebytes b.buff.length_bytes h
  · obtain ⟨hlen, hlt, hdec⟩ : (Pico.lptCompress b.buff).1 = (Pico.lptCompress b.buff).2.length ∧
        (Pico.lptCompress b.buff).2.length < 512 ∧
        Dos.lptDecompress (Pico.lptCompress b.buff).2 = (512, b.buff.bytes) := lptCompress_out hc
    have hfield := lengthField_of_bytes (n := (Pico.lptCompress b.buff).1) (by omega)
    have htake : (storeBytes b.compressBuff.bytes (Pico.lptCompress b.buff).2).take
        (Pico.lptCompress b.buff).1 = (Pico.lptCompress b.buff).2 := by
      rw [hlen]
      apply take_storeBytes
      rw [Sector.length_bytes]
      exact Nat.le_of_lt hlt
    have hcomp : (lptReadReply 0x02).bind kH = .op .readByte fun hi => .op .readByte fun lo =>
        (readBytes (lengthField hi lo)).bind fun l => kH (some (Dos.lptDecompress l).2) := by
      simp [lptReadReply, readByte]
    simp only [sendBlock, hc, ne_eq, not_false_eq_true, if_true]
    apply leads_writebyte
    rw [hcomp]
    apply leads_writebyte
    apply leads_writebyte
    rw [hfield]
    simp only [Sector.overwrite, htake]
    apply leads_writebytes hlen.symm
    rw [hdec]
    exact h

/-- The header of a read request. -/
theorem leads_readHeader {unit hi lo : UInt8} {b : Bufs} {kH : HostProg α} {w : ω}
    {fin : HostProg α × Device ω} (hk : Continues hostAct kH)
    (h : Leads hostAct (Device.act disk) fin (kH,
      Device.resume (fetchBlock unit ((hi.toUInt32 <<< 8) ||| lo.toUInt32)
        { b with buff := b.buff.setFrom 0 [unit, 0x00, 0x00, hi, lo] }) w)) :
    Leads hostAct (Device.act disk) fin
      (.op (.writeByte 0x03) fun _ => (writeBytes [unit, 0x00, 0x00, hi, lo]).bind fun _ => kH,
        Device.idle b w) := by
  apply leads_header disk rfl rfl hk
  simp only [if_true]
  repeat rw [get_setFrom_zero _ _ (by simp) (by simp)]
  simpa using h

/-- What the answer of the disk layer becomes on the host: the bytes of a block, or none. -/
def blockRead (r : Int) (buff : Sector) : Option (List UInt8) :=
  if UInt8.ofInt r = 0 then some buff.bytes else none

/-- The answer to a read request. -/
theorem leads_answerRead {b : Bufs} {r : Int} {w : ω} (kH : Option (List UInt8) → HostProg α) :
    ∃ b', ∀ fin, Leads hostAct (Device.act disk) fin (kH (blockRead r b.buff), Device.idle b' w) →
    Leads hostAct (Device.act disk) fin
      (.op .readByte fun result => (lptReadReply result).bind kH,
        Device.resume (answerRead r b) w) := by
  unfold answerRead blockRead
  by_cases hr : UInt8.ofInt r = 0
  · simp only [hr, if_true]
    exact ⟨_, fun fin h => leads_sendBlock disk h⟩
  · simp only [hr, if_false]
    exact ⟨b, fun fin h => leads_writebyte h⟩

/-- The exchange of one pass of `LPTRead`'s loop. -/
theorem leads_readBlock (kH : Option (List UInt8) → HostProg α) (unit lbn : UInt16) (b : Bufs)
    (w : ω) :
    ∃ buff b', ∀ fin, Leads hostAct (Device.act disk) fin
      (kH (blockRead (disk.readSector w unit.toUInt8 lbn.toUInt32 buff).1.1
          (disk.readSector w unit.toUInt8 lbn.toUInt32 buff).1.2),
        Device.idle b' (disk.readSector w unit.toUInt8 lbn.toUInt32 buff).2) →
    Leads hostAct (Device.act disk) fin
      ((lptReadBlock unit lbn).bind kH, Device.idle b w) := by
  have hread : (lptReadBlock unit lbn).bind kH = .op (.writeByte 0x03) fun _ =>
      (writeBytes [unit.toUInt8, 0x00, 0x00, (lbn >>> 8).toUInt8, (lbn &&& 0xff).toUInt8]).bind
        fun _ => .op .readByte fun result => (lptReadReply result).bind kH := by
    simp [lptReadBlock, writeByte, readByte, writeBytes]
  let buff := b.buff.setFrom 0
    [unit.toUInt8, 0x00, 0x00, (lbn >>> 8).toUInt8, (lbn &&& 0xff).toUInt8]
  let answer := disk.readSector w unit.toUInt8 lbn.toUInt32 buff
  obtain ⟨b', hb'⟩ := leads_answerRead disk (w := answer.2)
    (b := ⟨answer.1.2, b.compressBuff⟩) (r := answer.1.1) kH
  refine ⟨buff, b', ?_⟩
  intro fin h
  rw [hread]
  apply leads_readHeader disk (continues_readByte _)
  rw [lbn_of_bytes]
  refine Leads.step (.tau rfl) (continues_readByte _) ?_
  exact hb' fin h

/-- One round of the loop of `LPTRead`. -/
theorem leads_readLoop_succ (unit : UInt16) (n : Nat) (lbn : UInt16) (buffer : FarPtr) (mem : Mem)
    (b : Bufs) (w : ω) :
    ∃ buff b', ∀ fin, Leads hostAct (Device.act disk) fin
      ((blockRead (disk.readSector w unit.toUInt8 lbn.toUInt32 buff).1.1
          (disk.readSector w unit.toUInt8 lbn.toUInt32 buff).1.2).elim (.ret (.RES_ERROR, mem))
        fun bytes => lptReadLoop unit n (lbn + 1) (buffer.add 512) (mem.write buffer bytes),
        Device.idle b' (disk.readSector w unit.toUInt8 lbn.toUInt32 buff).2) →
    Leads hostAct (Device.act disk) fin
      (lptReadLoop unit (n + 1) lbn buffer mem, Device.idle b w) := by
  let next : Option (List UInt8) → HostProg (DResult × Mem) := fun block =>
    block.elim (.ret (.RES_ERROR, mem))
      fun bytes => lptReadLoop unit n (lbn + 1) (buffer.add 512) (mem.write buffer bytes)
  have hloop : lptReadLoop unit (n + 1) lbn buffer mem = (lptReadBlock unit lbn).bind next := by
    rw [lptReadLoop]
    congr 1
    funext block
    cases block with
    | none => rfl
    | some bytes => rfl
  rw [hloop]
  exact leads_readBlock disk next unit lbn b w

/-- One round of the loop of `LPTWrite`. -/
theorem leads_writeLoop_succ (unit : UInt16) (n : Nat) (lbn : UInt16) (buffer : FarPtr) (mem : Mem)
    (b : Bufs) (w : ω) :
    ∃ b', ∀ fin, Leads hostAct (Device.act disk) fin
      (if UInt8.ofInt (disk.writeSector w unit.toUInt8 lbn.toUInt32 (mem.sector buffer)).1 = 0 then
          lptWriteLoop unit n (lbn + 1) (buffer.add 512) mem
        else .ret (.RES_ERROR, mem),
        Device.idle b' (disk.writeSector w unit.toUInt8 lbn.toUInt32 (mem.sector buffer)).2) →
    Leads hostAct (Device.act disk) fin
      (lptWriteLoop unit (n + 1) lbn buffer mem, Device.idle b w) :=
  leads_writeBlock disk
    (fun result => if result = 0 then lptWriteLoop unit n (lbn + 1) (buffer.add 512) mem
      else .ret (.RES_ERROR, mem)) unit lbn (mem.sector buffer) b w

end Blocks

end LptStore.Protocol
