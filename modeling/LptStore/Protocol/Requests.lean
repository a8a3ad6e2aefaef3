import LptStore.Lib.Trace
import LptStore.Protocol.Exchange
import LptStore.Codec.Bounds

/-!
# What one request does, whatever the host sends

A trace of `lptprotocol_task` shows the bytes that came and the waits that expired, the indices at
which the bytes were stored, the bytes sent back and the sectors written. `receiveBlock` believes
the length that comes with a compressed block, and writes the block whatever `LPTDecompress` made
of it.
-/

namespace LptStore.Protocol

open LptStore.Lib Prog

/-- The outcome of a `lptcomms_readbyte`. -/
def incoming : Issued DevOp DevResp → Option (Option UInt8)
  | ⟨.readbyte, r⟩ => some r
  | _ => none

/-- The index of a store of `lptcomms_readbytes`. -/
def stored : Issued DevOp DevResp → Option Nat
  | ⟨.store _ i, _⟩ => some i
  | _ => none

/-- The byte of a `lptcomms_writebyte`. -/
def outgoing : Issued DevOp DevResp → Option UInt8
  | ⟨.writebyte b, _⟩ => some b
  | _ => none

/-- The arguments of a `disk_write_sector`. -/
def written : Issued DevOp DevResp → Option (UInt8 × UInt32 × Sector)
  | ⟨.writeSector disk lbn buff, _⟩ => some (disk, lbn, buff)
  | _ => none

/-- The operations that take nothing from the link. -/
def DevOp.Quiet : DevOp → Prop
  | .readbyte => False
  | .store _ _ => False
  | _ => True

theorem incoming_quiet {es : List (Issued DevOp DevResp)} (h : ∀ e ∈ es, e.1.Quiet) :
    es.filterMap incoming = [] ∧ es.filterMap stored = [] := by
  constructor <;> rw [List.filterMap_eq_nil_iff] <;> intro e he
  · have hq := h e he
    rcases e with ⟨o, r⟩
    cases o <;> first | rfl | exact hq.elim
  · have hq := h e he
    rcases e with ⟨o, r⟩
    cases o <;> first | rfl | exact hq.elim

/-- A byte is sent, and the program ends if it is lost. -/
theorem only_writebyte {α : Type} {b : UInt8} {k : DevResp (.writebyte b) → DevProg α}
    (hlost : Only DevOp.Quiet (k false)) (hsent : Only DevOp.Quiet (k true)) :
    Only DevOp.Quiet (.op (.writebyte b) k) := by
  refine ⟨trivial, fun r => ?_⟩
  cases r with
  | false => exact hlost
  | true => exact hsent

theorem only_writebytes (bs : List UInt8) : Only DevOp.Quiet (lptcommsWritebytes bs) := by
  induction bs with
  | nil => trivial
  | cons b bs ih => exact only_writebyte trivial ih

/-- What a loop of `lptcomms_readbytes` takes from the link: all of its bytes, or some of them and
then a wait that expired. -/
theorem readbytes_trace {buf : BufId} {n i : Nat} {buff : Sector} {es : List (Issued DevOp DevResp)}
    {r : Bool × Sector} (h : Trace (readbytesFrom buf n i buff) es r) :
    ∃ bs : List UInt8, es.filterMap stored = (List.range bs.length).map (i + ·) ∧
      es.filterMap outgoing = [] ∧ es.filterMap written = [] ∧
      ((r = (true, buff.setFrom i bs) ∧ bs.length = n ∧ es.filterMap incoming = bs.map some) ∨
        (r = (false, buff.setFrom i bs) ∧ bs.length < n ∧
          es.filterMap incoming = bs.map some ++ [none])) := by
  induction n generalizing i buff es with
  | zero =>
    rcases trace_ret.mp h with ⟨rfl, rfl⟩
    exact ⟨[], rfl, rfl, rfl, .inl ⟨rfl, rfl, rfl⟩⟩
  | succ n ih =>
    rcases trace_op.mp h with ⟨a, es', rfl, h'⟩
    cases a with
    | none =>
      rcases trace_ret.mp h' with ⟨rfl, rfl⟩
      exact ⟨[], rfl, rfl, rfl, .inr ⟨rfl, Nat.succ_pos n, rfl⟩⟩
    | some b =>
      rcases trace_op.mp h' with ⟨⟨⟩, es'', rfl, h''⟩
      rcases ih h'' with ⟨bs, hstored, hout, hwritten, hend⟩
      refine ⟨b :: bs, ?_, hout, hwritten, ?_⟩
      · have hcons : (i :: es''.filterMap stored) = (List.range (bs.length + 1)).map (i + ·) := by
          rw [hstored, List.range_succ_eq_map]
          simp [Function.comp_def, Nat.add_comm, Nat.add_left_comm]
        exact hcons
      · rcases hend with ⟨rfl, hlen, hin⟩ | ⟨rfl, hlen, hin⟩
        · exact .inl ⟨rfl, congrArg (· + 1) hlen, congrArg (some b :: ·) hin⟩
        · exact .inr ⟨rfl, Nat.succ_lt_succ hlen, congrArg (some b :: ·) hin⟩

/-- The rest of a request after its payload takes nothing from the link. -/
theorem only_storeBlock (drv : UInt8) (lba : UInt32) (b : Bufs) :
    Only DevOp.Quiet (storeBlock drv lba b) :=
  ⟨trivial, fun _ => ⟨trivial, fun _ => trivial⟩⟩

theorem only_sendBlock (b : Bufs) : Only DevOp.Quiet (sendBlock b) := by
  have hend : ∀ bs c, Only DevOp.Quiet
      ((lptcommsWritebytes bs).bind fun _ => (.ret c : DevProg Bufs)) :=
    fun bs c => (only_writebytes bs).bind fun _ => trivial
  unfold sendBlock
  dsimp only
  split_ifs
  · -- the status and the two bytes of the length come before the data
    refine only_writebyte trivial ?_
    refine only_writebyte trivial ?_
    exact only_writebyte trivial (hend _ _)
  · exact only_writebyte trivial (hend _ _)

theorem only_fetchBlock (drv : UInt8) (lba : UInt32) (b : Bufs) :
    Only DevOp.Quiet (fetchBlock drv lba b) := by
  refine ⟨trivial, fun r => ?_⟩
  show Only DevOp.Quiet (answerRead r.1 { b with buff := r.2 })
  unfold answerRead
  split_ifs
  · exact only_sendBlock _
  · exact ⟨trivial, fun _ => trivial⟩

/-- A request that reads at most a header into a buffer. -/
theorem stored_lt_of_header {buf : BufId} {buff : Sector} {n : Nat} {f : Bool × Sector → DevProg Bufs}
    {es : List (Issued DevOp DevResp)} {b' : Bufs}
    (h : Trace ((lptcommsReadbytes buf buff n).bind f) es b') (hn : n ≤ 512)
    (hf : ∀ r, Only DevOp.Quiet (f r)) : ∀ i ∈ es.filterMap stored, i < 512 := by
  rcases trace_bind.mp h with ⟨es₁, es₂, r, rfl, h₁, h₂⟩
  rcases readbytes_trace h₁ with ⟨bs, hstored, -, -, hend⟩
  have hlen : bs.length ≤ n := by
    rcases hend with ⟨-, hlen, -⟩ | ⟨-, hlen, -⟩
    · exact Nat.le_of_eq hlen
    · exact Nat.le_of_lt hlen
  intro i hi
  rw [List.filterMap_append, (incoming_quiet (h₂.only (hf r))).2, List.append_nil, hstored] at hi
  rcases List.mem_map.mp hi with ⟨j, hj, rfl⟩
  have hj' := List.mem_range.mp hj
  omega

/-- A request other than a write stays inside the buffers. -/
theorem dispatch_stored_lt {cmd : UInt8} {b b' : Bufs} {es : List (Issued DevOp DevResp)}
    (h : Trace (dispatch cmd b) es b') (hcmd : cmd ≠ lptsWriteBlock) :
    ∀ i ∈ es.filterMap stored, i < 512 := by
  have hquiet : ∀ {p : DevProg Bufs}, Trace p es b' → Only DevOp.Quiet p →
      ∀ i ∈ es.filterMap stored, i < 512 := by
    intro p hp honly i hi
    rw [(incoming_quiet (hp.only honly)).2] at hi
    simp at hi
  unfold dispatch at h
  split_ifs at h
  · exact hquiet h ((only_writebytes _).bind fun _ => trivial)
  · exact hquiet h ⟨trivial, fun _ => (only_writebytes _).bind fun _ => trivial⟩
  · refine stored_lt_of_header h (by decide) fun r => ?_
    rcases r with ⟨ok, buff⟩
    cases ok with
    | false => trivial
    | true => exact ⟨trivial, fun _ => (only_writebytes _).bind fun _ => trivial⟩
  · refine stored_lt_of_header h (by decide) fun r => ?_
    rcases r with ⟨ok, buff⟩
    cases ok with
    | false => trivial
    | true => exact only_fetchBlock _ _ _
  · exact hquiet h trivial

/-- `compressed` of a write request, `(buff[1] << 8) | buff[2]`. -/
def compressedField (hi lo : UInt8) : UInt16 := (hi.toUInt16 <<< 8) ||| lo.toUInt16

/-- The block number of a write request, `(buff[3] << 8) | buff[4]`. -/
def lbaField (hi lo : UInt8) : UInt32 := (hi.toUInt32 <<< 8) ||| lo.toUInt32

theorem eq_of_length_five {bs : List UInt8} (h : bs.length = 5) :
    ∃ drv ch cl lh ll, bs = [drv, ch, cl, lh, ll] := by
  match bs, h with
  | [drv, ch, cl, lh, ll], _ => exact ⟨drv, ch, cl, lh, ll, rfl⟩

/-- A write request: its header breaks off, or `receiveBlock` goes on. -/
theorem writeBlock_trace {b b' : Bufs} {es : List (Issued DevOp DevResp)}
    (h : Trace (writeBlock b) es b') :
    (∃ hdr : List UInt8, hdr.length < 5 ∧ es.filterMap incoming = hdr.map some ++ [none] ∧
        es.filterMap stored = List.range hdr.length ∧ es.filterMap written = []) ∨
      ∃ drv ch cl lh ll es', es.filterMap incoming =
          [drv, ch, cl, lh, ll].map some ++ es'.filterMap incoming ∧
        es.filterMap stored = List.range 5 ++ es'.filterMap stored ∧
        es.filterMap outgoing = es'.filterMap outgoing ∧
        es.filterMap written = es'.filterMap written ∧
        Trace (receiveBlock drv (lbaField lh ll) (compressedField ch cl)
          { b with buff := b.buff.setFrom 0 [drv, ch, cl, lh, ll] }) es' b' := by
  rcases trace_bind.mp h with ⟨es₁, es₂, r, rfl, h₁, h₂⟩
  rcases readbytes_trace h₁ with ⟨bs, hstored, hout, hwritten, hend⟩
  simp only [Nat.zero_add, List.map_id'] at hstored
  simp only [List.filterMap_append, hstored, hout, hwritten, List.nil_append]
  rcases hend with ⟨rfl, hlen, hin⟩ | ⟨rfl, hlen, hin⟩
  · rcases eq_of_length_five hlen with ⟨drv, ch, cl, lh, ll, rfl⟩
    have hfive : [drv, ch, cl, lh, ll].length = 5 := hlen
    refine .inr ⟨drv, ch, cl, lh, ll, es₂, by rw [hin], by rw [hfive], rfl, rfl, ?_⟩
    simp only [if_true] at h₂
    repeat rw [get_setFrom_zero _ _ (by simp) (by simp)] at h₂
    exact h₂
  · rcases trace_ret.mp h₂ with ⟨rfl, -⟩
    exact .inl ⟨bs, hlen, by simp [hin], by simp, rfl⟩

/-- The payload of a compressed block: all of it comes and what `LPTDecompress` leaves in `buff` is
written, or it breaks off. -/
theorem receiveBlock_trace {drv : UInt8} {lba : UInt32} {n : UInt16} {b b' : Bufs}
    {es : List (Issued DevOp DevResp)} (h : Trace (receiveBlock drv lba n b) es b') (hn : n ≠ 0) :
    ∃ bs : List UInt8, es.filterMap stored = List.range bs.length ∧
      ((bs.length = n.toNat ∧ es.filterMap incoming = bs.map some ∧ ∃ r : Int,
          es.filterMap outgoing = [UInt8.ofInt r] ∧
          es.filterMap written = [(drv, lba, b.buff.overwrite
            (Pico.lptDecompress ((b.compressBuff.setFrom 0 bs).bytes.take n.toNat)).2)]) ∨
        (bs.length < n.toNat ∧ es.filterMap incoming = bs.map some ++ [none] ∧
          es.filterMap written = [])) := by
  unfold receiveBlock at h
  rw [if_neg hn] at h
  rcases trace_bind.mp h with ⟨es₁, es₂, r, rfl, h₁, h₂⟩
  rcases readbytes_trace h₁ with ⟨bs, hstored, hout, hwritten, hend⟩
  simp only [Nat.zero_add, List.map_id'] at hstored
  simp only [List.filterMap_append, hstored, hout, hwritten, List.nil_append]
  refine ⟨bs, ?_⟩
  rcases hend with ⟨rfl, hlen, hin⟩ | ⟨rfl, hlen, hin⟩
  · simp only [if_true] at h₂
    rcases trace_op.mp h₂ with ⟨r, es₃, rfl, h₃⟩
    rcases trace_op.mp h₃ with ⟨a, es₄, rfl, h₄⟩
    rcases trace_ret.mp h₄ with ⟨rfl, -⟩
    refine ⟨by simp [stored], .inl ⟨hlen, by simp [hin, incoming], r, rfl, rfl⟩⟩
  · rcases trace_ret.mp h₂ with ⟨rfl, -⟩
    exact ⟨by simp, .inr ⟨hlen, by simp [hin], rfl⟩⟩

/-- A raw block fits `buff`. -/
theorem receiveBlock_raw_stored_lt {drv : UInt8} {lba : UInt32} {b b' : Bufs}
    {es : List (Issued DevOp DevResp)} (h : Trace (receiveBlock drv lba 0 b) es b') :
    ∀ i ∈ es.filterMap stored, i < 512 := by
  unfold receiveBlock at h
  rw [if_pos rfl, bind_eq] at h
  refine stored_lt_of_header h (Nat.le_refl 512) fun r => ?_
  rcases r with ⟨ok, buff⟩
  cases ok with
  | false => trivial
  | true => exact only_storeBlock _ _ _

/-- A call of `lptprotocol_task` finds nothing, or takes a command byte and serves it. -/
theorem lptprotocolTask_trace {b b' : Bufs} {es : List (Issued DevOp DevResp)}
    (h : Trace (lptprotocolTask b) es b') :
    (es = [⟨.hasbyte, false⟩] ∧ b' = b) ∨
      ∃ r es', es = ⟨.hasbyte, true⟩ :: ⟨.readbyte, r⟩ :: es' ∧
        Trace (dispatch (r.getD 0xff) b) es' b' := by
  rcases trace_op.mp h with ⟨found, es₁, rfl, h₁⟩
  cases found with
  | false =>
    rcases trace_ret.mp h₁ with ⟨rfl, rfl⟩
    exact .inl ⟨rfl, rfl⟩
  | true =>
    rcases trace_op.mp h₁ with ⟨r, es₂, rfl, h₂⟩
    exact .inr ⟨r, es₂, rfl, h₂⟩

/-- The bytes that come before a wait expires. -/
def arrived : List (Option UInt8) → List UInt8
  | some b :: rs => b :: arrived rs
  | _ => []

theorem arrived_map (bs : List UInt8) : arrived (bs.map some) = bs := by
  induction bs with
  | nil => rfl
  | cons b bs ih => simp [arrived, ih]

theorem arrived_map_none (bs : List UInt8) : arrived (bs.map some ++ [none]) = bs := by
  induction bs with
  | nil => rfl
  | cons b bs ih => simp [arrived, ih]

/-- A write request that announces more than a sector of compressed data and sends it. -/
def Overlong (bytes : List UInt8) : Prop :=
  ∃ drv ch cl lh ll payload, bytes = [lptsWriteBlock, drv, ch, cl, lh, ll] ++ payload ∧
    512 < (compressedField ch cl).toNat ∧ 512 < payload.length

theorem not_overlong_short {cmd : UInt8} {bytes : List UInt8} (h : bytes.length < 5) :
    ¬ Overlong (cmd :: bytes) := by
  rintro ⟨drv, ch, cl, lh, ll, payload, heq, -, -⟩
  have hlen := congrArg List.length heq
  simp at hlen
  omega

theorem overlong_iff {drv ch cl lh ll : UInt8} {payload : List UInt8} :
    Overlong (lptsWriteBlock :: drv :: ch :: cl :: lh :: ll :: payload) ↔
      512 < (compressedField ch cl).toNat ∧ 512 < payload.length := by
  constructor
  · rintro ⟨drv', ch', cl', lh', ll', payload', heq, hfield, hlen⟩
    cases heq
    exact ⟨hfield, hlen⟩
  · rintro ⟨hfield, hlen⟩
    exact ⟨drv, ch, cl, lh, ll, payload, rfl, hfield, hlen⟩

theorem forall_mem_range_lt {n m : Nat} : (∀ i ∈ List.range n, i < m) ↔ n ≤ m := by
  constructor
  · intro h
    by_contra hlt
    exact absurd (h m (List.mem_range.mpr (by omega))) (Nat.lt_irrefl m)
  · intro h i hi
    exact Nat.lt_of_lt_of_le (List.mem_range.mp hi) h

/-- A write request stays inside the buffers unless its compressed data is too long. -/
theorem writeBlock_stored_lt_iff {b b' : Bufs} {es : List (Issued DevOp DevResp)}
    (h : Trace (writeBlock b) es b') :
    (∀ i ∈ es.filterMap stored, i < 512) ↔
      ¬ Overlong (lptsWriteBlock :: arrived (es.filterMap incoming)) := by
  rcases writeBlock_trace h with ⟨hdr, hlen, hin, hstored, -⟩ |
    ⟨drv, ch, cl, lh, ll, es', hin, hstored, -, -, h'⟩
  · rw [hin, hstored, arrived_map_none, forall_mem_range_lt]
    exact iff_of_true (by omega) (not_overlong_short hlen)
  · have hheader : (∀ i ∈ es.filterMap stored, i < 512) ↔ ∀ i ∈ es'.filterMap stored, i < 512 := by
      rw [hstored, List.forall_mem_append, and_iff_right (forall_mem_range_lt.mpr (by decide))]
    have harrived : arrived (es.filterMap incoming) =
        drv :: ch :: cl :: lh :: ll :: arrived (es'.filterMap incoming) := by rw [hin]; rfl
    rw [hheader, harrived, overlong_iff]
    by_cases hn : compressedField ch cl = 0
    · rw [hn] at h' ⊢
      exact iff_of_true (receiveBlock_raw_stored_lt h') (fun hover => absurd hover.1 (by decide))
    · rcases receiveBlock_trace h' hn with ⟨bs, hstored', hend⟩
      have hbs : arrived (es'.filterMap incoming) = bs ∧
          bs.length ≤ (compressedField ch cl).toNat := by
        rcases hend with ⟨hlen, hin', -⟩ | ⟨hlen, hin', -⟩
        · exact ⟨by rw [hin', arrived_map], Nat.le_of_eq hlen⟩
        · exact ⟨by rw [hin', arrived_map_none], Nat.le_of_lt hlen⟩
      rw [hstored', hbs.1, forall_mem_range_lt]
      have hle := hbs.2
      omega

/-- Every received byte is stored inside its buffer, exactly unless the request is a write that
announces more than 512 bytes of compressed data and more than 512 of them come. -/
theorem stores_inBounds_iff {b b' : Bufs} {es : List (Issued DevOp DevResp)}
    (h : Trace (lptprotocolTask b) es b') :
    (∀ i ∈ es.filterMap stored, i < 512) ↔ ¬ Overlong (arrived (es.filterMap incoming)) := by
  rcases lptprotocolTask_trace h with ⟨rfl, -⟩ | ⟨r, es', rfl, h'⟩
  · refine iff_of_true (by simp [stored]) ?_
    rintro ⟨_, _, _, _, _, _, heq, -⟩
    cases heq
  · have hstored : (⟨.hasbyte, true⟩ :: ⟨.readbyte, r⟩ :: es' : List (Issued DevOp DevResp)).filterMap
        stored = es'.filterMap stored := rfl
    have hin : (⟨.hasbyte, true⟩ :: ⟨.readbyte, r⟩ :: es' : List (Issued DevOp DevResp)).filterMap
        incoming = r :: es'.filterMap incoming := rfl
    rw [hstored, hin]
    by_cases hr : r = some lptsWriteBlock
    · subst hr
      exact writeBlock_stored_lt_iff h'
    · have hcmd : r.getD 0xff ≠ lptsWriteBlock := by
        cases r with
        | none => decide
        | some cmd => exact fun heq => hr (congrArg some heq)
      refine iff_of_true (dispatch_stored_lt h' hcmd) ?_
      rintro ⟨drv, ch, cl, lh, ll, payload, heq, -, -⟩
      cases r with
      | none => cases heq
      | some cmd => exact hr (congrArg some (List.cons.inj heq).1)

/-- A host that sends these bytes and takes every answer, and a medium that takes every sector. -/
def scripted : ∀ o, List (Option UInt8) → DevResp o × List (Option UInt8)
  | .hasbyte, rs => (true, rs)
  | .readbyte, rs => (rs.headD none, rs.tail)
  | .writebyte _, rs => (true, rs)
  | .store _ _, rs => ((), rs)
  | .getDrives, rs => (0, rs)
  | .getBlocks _, rs => (0, rs)
  | .readSector _ _ buff, rs => ((0, buff), rs)
  | .writeSector _ _ _, rs => (0, rs)

/-- The trace of a request of these bytes. -/
def scriptedTrace (bytes : List UInt8) : List (Issued DevOp DevResp) :=
  (record scripted (lptprotocolTask ⟨.zero, .zero⟩) (bytes.map some)).1

theorem trace_scripted (bytes : List UInt8) :
    Trace (lptprotocolTask ⟨.zero, .zero⟩) (scriptedTrace bytes)
      (record scripted (lptprotocolTask ⟨.zero, .zero⟩) (bytes.map some)).2 :=
  trace_record scripted _ _

/-- A write request of four compressed bytes. -/
theorem stores_inBounds_short :
    arrived ((scriptedTrace [0x04, 0, 0, 4, 0, 7, 0x00, 0xff, 0x00, 0xff]).filterMap incoming) =
      [0x04, 0, 0, 4, 0, 7, 0x00, 0xff, 0x00, 0xff] ∧
    ∀ i ∈ (scriptedTrace [0x04, 0, 0, 4, 0, 7, 0x00, 0xff, 0x00, 0xff]).filterMap stored,
      i < 512 := by
  have hiff := stores_inBounds_iff (trace_scripted [0x04, 0, 0, 4, 0, 7, 0x00, 0xff, 0x00, 0xff])
  have harrived : arrived ((scriptedTrace
      [0x04, 0, 0, 4, 0, 7, 0x00, 0xff, 0x00, 0xff]).filterMap incoming) =
        [0x04, 0, 0, 4, 0, 7, 0x00, 0xff, 0x00, 0xff] := by decide +kernel
  refine ⟨harrived, ?_⟩
  rw [harrived] at hiff
  exact hiff.mpr fun h => absurd (overlong_iff.mp h).1 (by decide)

/-- A length field of 513: the last byte is stored behind `compress_buff`. -/
theorem stores_overflow :
    ¬ ∀ (b b' : Bufs) (es : List (Issued DevOp DevResp)), Trace (lptprotocolTask b) es b' →
      ∀ i ∈ es.filterMap stored, i < 512 := by
  intro h
  have hmem : 512 ∈ (scriptedTrace ([0x04, 0, 2, 1, 0, 7] ++ List.replicate 513 1)).filterMap
      stored := by decide +kernel
  exact absurd (h _ _ _ (trace_scripted ([0x04, 0, 2, 1, 0, 7] ++ List.replicate 513 1)) 512 hmem)
    (Nat.lt_irrefl 512)

/-- Only a block that was rebuilt in full reaches the disk layer; any other is answered with an
error. -/
def RefusesMalformed (payload : List UInt8) (es : List (Issued DevOp DevResp)) : Prop :=
  (∀ w ∈ es.filterMap written, (Pico.lptDecompress payload).1 = 512 ∧
      w.2.2.bytes = (Pico.lptDecompress payload).2) ∧
    ((Pico.lptDecompress payload).1 ≠ 512 →
      es.filterMap written = [] ∧ ∃ s, es.filterMap outgoing = [s] ∧ s ≠ 0)

/-- What a compressed write request comes to: one sector written, whatever the payload. -/
theorem compressedWrite_trace {b b' : Bufs} {es : List (Issued DevOp DevResp)}
    {drv ch cl lh ll : UInt8} {payload : List UInt8} (h : Trace (lptprotocolTask b) es b')
    (hin : es.filterMap incoming = ([lptsWriteBlock, drv, ch, cl, lh, ll] ++ payload).map some)
    (hn : payload.length = (compressedField ch cl).toNat) (hpos : 1 ≤ payload.length)
    (hfit : payload.length ≤ 512) :
    ∃ buff : Sector, es.filterMap written =
      [(drv, lbaField lh ll, buff.overwrite (Pico.lptDecompress payload).2)] := by
  rcases lptprotocolTask_trace h with ⟨rfl, -⟩ | ⟨r, es', rfl, h'⟩
  · cases hin
  · have hin' : r :: es'.filterMap incoming =
        some lptsWriteBlock :: ([drv, ch, cl, lh, ll] ++ payload).map some := hin
    rcases List.cons.inj hin' with ⟨rfl, hrest⟩
    rcases writeBlock_trace h' with ⟨hdr, hlen, hin₁, -⟩ |
      ⟨drv', ch', cl', lh', ll', es₁, hin₁, -, -, hwritten, h₁⟩
    · -- every byte came, so the header did
      rw [hin₁] at hrest
      have hnone : none ∈ ([drv, ch, cl, lh, ll] ++ payload).map some := by
        rw [← hrest]
        simp
      simp at hnone
    · rw [hin₁] at hrest
      rcases List.append_inj (hrest.trans List.map_append) rfl with ⟨hhdr, hpayload⟩
      simp only [List.map_cons, List.map_nil, List.cons.injEq, Option.some.injEq, and_true] at hhdr
      rcases hhdr with ⟨rfl, rfl, rfl, rfl, rfl⟩
      have hne : compressedField ch' cl' ≠ 0 := by
        intro h0
        rw [h0, UInt16.toNat_zero] at hn
        omega
      rcases receiveBlock_trace h₁ hne with ⟨bs, -, hend⟩
      rcases hend with ⟨hlen, hin₂, a, hout, hwritten₁⟩ | ⟨hlen, hin₂, -⟩
      · have hbs : bs = payload := by
          rw [← arrived_map bs, ← hin₂, hpayload, arrived_map]
        subst hbs
        refine ⟨b.buff.setFrom 0 [drv', ch', cl', lh', ll'], ?_⟩
        have hout : (⟨.hasbyte, true⟩ :: ⟨.readbyte, some lptsWriteBlock⟩ :: es' :
            List (Issued DevOp DevResp)).filterMap written = es'.filterMap written := rfl
        rw [hout, hwritten, hwritten₁, ← hn, take_setFrom _ hfit]
      · have hnone : none ∈ payload.map some := by
          rw [← hpayload, hin₂]
          simp
        simp at hnone

/-- A malformed block never reaches the disk layer, exactly for the payloads whose literals and
runs make one sector, no more and no less. -/
theorem malformed_refused_iff {b b' : Bufs} {es : List (Issued DevOp DevResp)}
    {drv ch cl lh ll : UInt8} {payload : List UInt8} (h : Trace (lptprotocolTask b) es b')
    (hin : es.filterMap incoming = ([lptsWriteBlock, drv, ch, cl, lh, ll] ++ payload).map some)
    (hn : payload.length = (compressedField ch cl).toNat) (hpos : 1 ≤ payload.length)
    (hfit : payload.length ≤ 512) :
    RefusesMalformed payload es ↔ Codec.unpackedSize payload payload.length = 512 := by
  rcases compressedWrite_trace h hin hn hpos hfit with ⟨buff, hwritten⟩
  rw [← Codec.decompress_full_iff]
  unfold RefusesMalformed
  rw [hwritten]
  constructor
  · rintro ⟨hfull, -⟩
    exact (hfull _ (List.mem_singleton.mpr rfl)).1
  · intro hfull
    have hlen := Codec.length_decompress_full hfull
    refine ⟨?_, fun hne => absurd hfull hne⟩
    rw [List.forall_mem_singleton]
    exact ⟨hfull, buff.bytes_overwrite hlen⟩

/-- A zero sector travels as two full runs. -/
theorem malformed_refused_zeros :
    RefusesMalformed [0x00, 0xff, 0x00, 0xff]
      (scriptedTrace [0x04, 0, 0, 4, 0, 7, 0x00, 0xff, 0x00, 0xff]) := by
  have hin : (scriptedTrace [0x04, 0, 0, 4, 0, 7, 0x00, 0xff, 0x00, 0xff]).filterMap incoming =
      ([lptsWriteBlock, 0, 0, 4, 0, 7] ++ [0x00, 0xff, 0x00, 0xff]).map some := by decide +kernel
  exact (malformed_refused_iff (trace_scripted [0x04, 0, 0, 4, 0, 7, 0x00, 0xff, 0x00, 0xff]) hin
    (by decide) (by decide) (by decide)).mpr (by decide +kernel)

/-- A block of one literal: the sector written is the literal, the rest of the request header and
the old content of `buff`. -/
theorem malformed_written :
    ¬ ∀ (b b' : Bufs) (es : List (Issued DevOp DevResp)) (drv ch cl lh ll : UInt8)
      (payload : List UInt8), Trace (lptprotocolTask b) es b' →
      es.filterMap incoming = ([lptsWriteBlock, drv, ch, cl, lh, ll] ++ payload).map some →
      payload.length = (compressedField ch cl).toNat → 1 ≤ payload.length →
      payload.length ≤ 512 → RefusesMalformed payload es := by
  intro h
  have hrefuses := h _ _ _ 0 0 1 0 7 [0x01] (trace_scripted [0x04, 0, 0, 1, 0, 7, 0x01])
    (by decide +kernel) (by decide) (by decide) (by decide)
  have hwritten : ((scriptedTrace [0x04, 0, 0, 1, 0, 7, 0x01]).filterMap written).length = 1 := by
    decide +kernel
  rw [(hrefuses.2 (by decide +kernel)).1] at hwritten
  simp at hwritten

end LptStore.Protocol
