import Mathlib.Data.List.Flatten
import LptStore.Codec.Bounds
import LptStore.Protocol.EndToEnd

/-!
# The stores of `LPTRead`

`LPTRead` takes a block that the device sends raw straight into the caller's buffer. A compressed one it
takes into `compress_buff` first, as many bytes as the length field says, and unpacks it from there with
`LPTDecompress`, whose return value it drops: the block counts as read, however much of it has been
stored.
-/

namespace LptStore.Protocol

open LptStore.Lib LptStore.Codec Function

section Program

/-- The operations of `LPTRead` together with its stores, to the caller's memory, at linear addresses, and
to `compress_buff`. -/
inductive StoreOp where
  | host (o : HostOp)
  | store (a : Nat) (b : UInt8)
  | stage (i : Nat) (b : UInt8)

@[reducible] def StoreResp : StoreOp → Type
  | .host o => HostResp o
  | .store _ _ => Unit
  | .stage _ _ => Unit

abbrev StoreProg := Prog StoreOp StoreResp

/-- `*buffer++ = read_byte();`, `n` times. -/
def receiveRaw : Nat → FarPtr → StoreProg Unit
  | 0, _ => return ()
  | n + 1, buffer => do
      let b ← .op (.host .readByte) .ret
      .op (.store (buffer.addr 0) b) .ret
      receiveRaw n (buffer.add 1)

/-- `compress_buff[i] = read_byte();`, `n` times from `i` on: the bytes stored. -/
def receivePacked : Nat → Nat → StoreProg (List UInt8)
  | 0, _ => return []
  | n + 1, i => do
      let b ← .op (.host .readByte) .ret
      .op (.stage i b) .ret
      let bs ← receivePacked n (i + 1)
      return b :: bs

/-- The stores `out[r++]` of `LPTDecompress`. -/
def storeAll : List UInt8 → FarPtr → StoreProg Unit
  | [], _ => return ()
  | b :: bs, out => do
      .op (.store (out.addr 0) b) .ret
      storeAll bs (out.add 1)

/-- What `LPTRead` does after the status byte `result`: whether it goes on. -/
def storeReply (buffer : FarPtr) (result : UInt8) : StoreProg Bool :=
  if result = 0x00 then do
    receiveRaw 512 buffer
    return true
  else if result = 0x02 then do
    let hi ← .op (.host .readByte) .ret
    let lo ← .op (.host .readByte) .ret
    let bytes ← receivePacked (lengthField hi lo) 0
    storeAll (Dos.lptDecompress bytes).2 buffer
    return true
  else return false

/-- One pass of `LPTRead`'s loop (`LPTSTORE.C:436-461`). -/
def lptReadPass (unit lbn : UInt16) (buffer : FarPtr) : StoreProg Bool := do
  .op (.host (.writeByte 0x03)) .ret
  .op (.host (.writeByte unit.toUInt8)) .ret
  .op (.host (.writeByte 0x00)) .ret
  .op (.host (.writeByte 0x00)) .ret
  .op (.host (.writeByte (lbn >>> 8).toUInt8)) .ret
  .op (.host (.writeByte (lbn &&& 0xff).toUInt8)) .ret
  let result ← .op (.host .readByte) .ret
  storeReply buffer result

/-- `LPTRead` with its stores, `n` blocks to go. -/
def lptReadStores (unit : UInt16) : Nat → UInt16 → FarPtr → StoreProg DResult
  | 0, _, _ => return .RES_OK
  | n + 1, lbn, buffer => do
      if ← lptReadPass unit lbn buffer then lptReadStores unit n (lbn + 1) (buffer.add 512)
      else return .RES_ERROR

end Program

section Size

/-- `LPTDecompress` gets as far as the runs fit. -/
theorem decompress_reaches (data : List UInt8) :
    ∃ n ≤ data.length, RunsFit data 0 n ∧ (decompress data).2.length = unpackedSize data n ∧
      ∀ m ≤ data.length, RunsFit data 0 m → m ≤ n := by
  rcases decompress_cases data with ⟨-, hlen, hruns⟩ | ⟨-, j, hj, hlen, hcount, hover, hruns⟩
  · exact ⟨data.length, Nat.le_refl _, hruns, hlen, fun m hm _ => hm⟩
  · refine ⟨j, Nat.le_of_lt hj, hruns, hlen, fun m _ hfit => ?_⟩
    by_contra hlt
    have hle := hfit j (Nat.zero_le j) (Nat.lt_of_not_le hlt) hcount
    omega

theorem length_decompress_le (data : List UInt8) (room : Nat) :
    (decompress data).2.length ≤ room ↔
      ∀ n ≤ data.length, RunsFit data 0 n → unpackedSize data n ≤ room := by
  rcases decompress_reaches data with ⟨n, hn, hruns, hlen, hmax⟩
  rw [hlen]
  constructor
  · intro hle m hm hfit
    exact Nat.le_trans (unpackedSize_mono data (hmax m hm hfit)) hle
  · intro h
    exact h n hn hruns

theorem le_length_decompress (data : List UInt8) (k : Nat) :
    k ≤ (decompress data).2.length ↔
      ∃ n ≤ data.length, RunsFit data 0 n ∧ k ≤ unpackedSize data n := by
  rcases decompress_reaches data with ⟨n, hn, hruns, hlen, hmax⟩
  rw [hlen]
  constructor
  · intro hle
    exact ⟨n, hn, hruns, hle⟩
  · rintro ⟨m, hm, hfit, hle⟩
    exact Nat.le_trans hle (unpackedSize_mono data (hmax m hm hfit))

/-- Runs end within the sector, and each literal is a byte of the form. -/
theorem unpackedSize_le_add {data : List UInt8} {n : Nat} (hruns : RunsFit data 0 n) :
    unpackedSize data n ≤ 512 + n := by
  induction n with
  | zero => exact Nat.zero_le _
  | succ n ih =>
    by_cases hcount : isCount data n
    · have hfit := hruns n (Nat.zero_le n) (Nat.lt_succ_self n) hcount
      omega
    · have hle := ih fun j hj hlt => hruns j hj (Nat.lt_succ_of_lt hlt)
      rw [unpackedSize, unpackedAt, if_neg hcount]
      split <;> omega

theorem length_decompress_le_add (data : List UInt8) :
    (decompress data).2.length ≤ 512 + data.length := by
  refine (length_decompress_le data _).mpr fun n hn hruns => ?_
  have hle := unpackedSize_le_add hruns
  omega

theorem lengthField_lt (hi lo : UInt8) : lengthField hi lo < 0x8000 := by
  simp only [lengthField]
  split
  · next hlt => exact UInt16.lt_iff_toNat_lt.mp hlt
  · decide

/-- What is unpacked of a payload does not go round the segment. -/
theorem length_unpacked_lt {hi lo : UInt8} {w : List UInt8} (h : w.length = lengthField hi lo) :
    (Dos.lptDecompress w).2.length < 65536 := by
  have hfield := lengthField_lt hi lo
  have hle : (Dos.lptDecompress w).2.length ≤ 512 + w.length := length_decompress_le_add w
  omega

end Size

section Erase

variable {α β : Type}

/-- The program with its stores made in a memory, those to `compress_buff` left out. -/
def erase : StoreProg α → Mem → HostProg (α × Mem)
  | .ret a, mem => .ret (a, mem)
  | .op (.host o) k, mem => .op o fun r => erase (k r) mem
  | .op (.store a b) k, mem => erase (k ()) (mem.put a b)
  | .op (.stage _ _) k, mem => erase (k ()) mem

theorem erase_bind (p : StoreProg α) (f : α → StoreProg β) (mem : Mem) :
    erase (p.bind f) mem = (erase p mem).bind fun x => erase (f x.1) x.2 := by
  induction p generalizing mem with
  | ret a => rfl
  | op o k ih =>
    cases o with
    | host o => exact congrArg _ (funext fun r => ih r mem)
    | store a b => exact ih () (mem.put a b)
    | stage i b => exact ih () mem

/-- Programs that agree on `n` bytes agree behind the reading of them. -/
theorem readBytes_bind_congr {n : Nat} {f g : List UInt8 → HostProg α}
    (h : ∀ w : List UInt8, w.length = n → f w = g w) : (readBytes n).bind f = (readBytes n).bind g := by
  induction n generalizing f g with
  | zero => exact h [] rfl
  | succ n ih =>
    refine congrArg (Prog.op HostOp.readByte) (funext fun b => ?_)
    show ((readBytes n).bind fun w => .ret (b :: w)).bind f =
      ((readBytes n).bind fun w => .ret (b :: w)).bind g
    rw [Prog.bind_assoc, Prog.bind_assoc]
    exact ih fun w hw => h (b :: w) (congrArg (· + 1) hw)

theorem erase_receiveRaw {n : Nat} (buffer : FarPtr) (mem : Mem) (hn : n ≤ 65536) :
    erase (receiveRaw n buffer) mem =
      (readBytes n).bind fun w => .ret ((), mem.write buffer w) := by
  induction n generalizing buffer mem with
  | zero =>
    show _ = Prog.ret ((), mem.write buffer [])
    rw [Cells.write_nil]
    rfl
  | succ n ih =>
    refine congrArg (Prog.op HostOp.readByte) (funext fun b => ?_)
    show erase (receiveRaw n (buffer.add 1)) (mem.put (buffer.addr 0) b) =
      ((readBytes n).bind fun w => .ret (b :: w)).bind _
    rw [ih _ _ (Nat.le_of_succ_le hn), Prog.bind_assoc]
    refine readBytes_bind_congr fun w hw => ?_
    rw [Prog.ret_bind, Cells.write_cons _ _ _ (by omega)]

theorem erase_receivePacked (n i : Nat) (mem : Mem) :
    erase (receivePacked n i) mem = (readBytes n).bind fun w => .ret (w, mem) := by
  induction n generalizing i with
  | zero => rfl
  | succ n ih =>
    refine congrArg (Prog.op HostOp.readByte) (funext fun b => ?_)
    show erase ((receivePacked n (i + 1)).bind fun bs => .ret (b :: bs)) mem =
      ((readBytes n).bind fun w => .ret (b :: w)).bind _
    rw [erase_bind, ih, Prog.bind_assoc, Prog.bind_assoc]
    rfl

theorem erase_storeAll {w : List UInt8} (out : FarPtr) (mem : Mem) (hlen : w.length ≤ 65536) :
    erase (storeAll w out) mem = .ret ((), mem.write out w) := by
  induction w generalizing out mem with
  | nil =>
    rw [Cells.write_nil]
    rfl
  | cons b w ih =>
    rw [Cells.write_cons _ _ _ hlen]
    exact ih (out.add 1) (mem.put (out.addr 0) b) (Nat.le_of_succ_le hlen)

/-- What a pass leaves of the memory. -/
def storedBy (mem : Mem) (buffer : FarPtr) : Option (List UInt8) → Bool × Mem
  | some w => (true, mem.write buffer w)
  | none => (false, mem)

theorem erase_storeReply (buffer : FarPtr) (result : UInt8) (mem : Mem) :
    erase (storeReply buffer result) mem =
      (lptReadReply result).bind fun r => .ret (storedBy mem buffer r) := by
  unfold storeReply lptReadReply
  split
  · show erase ((receiveRaw 512 buffer).bind fun _ => .ret true) mem =
      ((readBytes 512).bind fun w => .ret (some w)).bind _
    rw [erase_bind, erase_receiveRaw _ _ (by decide), Prog.bind_assoc, Prog.bind_assoc]
    rfl
  split
  · refine congrArg (Prog.op HostOp.readByte) (funext fun hi => ?_)
    refine congrArg (Prog.op HostOp.readByte) (funext fun lo => ?_)
    show erase ((receivePacked (lengthField hi lo) 0).bind _) mem =
      ((readBytes (lengthField hi lo)).bind fun w => .ret _).bind _
    rw [erase_bind, erase_receivePacked, Prog.bind_assoc, Prog.bind_assoc]
    refine readBytes_bind_congr fun w hw => ?_
    show erase ((storeAll (Dos.lptDecompress w).2 buffer).bind fun _ => .ret true) mem = _
    rw [erase_bind, erase_storeAll _ _ (Nat.le_of_lt (length_unpacked_lt hw))]
    rfl
  · rfl

theorem erase_lptReadPass (unit lbn : UInt16) (buffer : FarPtr) (mem : Mem) :
    erase (lptReadPass unit lbn buffer) mem =
      (lptReadBlock unit lbn).bind fun r => .ret (storedBy mem buffer r) :=
  congrArg (fun k : UInt8 → HostProg (Bool × Mem) =>
    (Prog.op (HostOp.writeByte 0x03) fun _ => .op (HostOp.writeByte unit.toUInt8) fun _ =>
      .op (HostOp.writeByte 0x00) fun _ => .op (HostOp.writeByte 0x00) fun _ =>
        .op (HostOp.writeByte (lbn >>> 8).toUInt8) fun _ =>
          .op (HostOp.writeByte (lbn &&& 0xff).toUInt8) fun _ => .op HostOp.readByte k :
      HostProg (Bool × Mem))) (funext fun result => erase_storeReply buffer result mem)

/-- The program with its stores is `LPTRead`. -/
theorem erase_lptReadStores (unit : UInt16) (n : Nat) (lbn : UInt16) (buffer : FarPtr) (mem : Mem) :
    erase (lptReadStores unit n lbn buffer) mem = lptReadLoop unit n lbn buffer mem := by
  induction n generalizing lbn buffer mem with
  | zero => rfl
  | succ n ih =>
    show erase ((lptReadPass unit lbn buffer).bind fun more =>
        if more = true then lptReadStores unit n (lbn + 1) (buffer.add 512) else .ret .RES_ERROR) mem =
      (lptReadBlock unit lbn).bind _
    rw [erase_bind, erase_lptReadPass, Prog.bind_assoc]
    refine congrArg _ (funext fun r => ?_)
    cases r with
    | some w => exact ih (lbn + 1) (buffer.add 512) (mem.write buffer w)
    | none => rfl

end Erase

section Runs

/-- What the device still has to send, the caller's memory, the stores to it, and the indices of
`compress_buff` stored to. Of the stores to an address the last is kept: how many bytes the device still
had to send. -/
structure Wire where
  input : List UInt8
  mem : Mem
  stores : Cells (Option Nat)
  staged : List Nat

/-- The device sends the bytes of the input, one for each `read_byte`; that waits where there is none. -/
def Wire.handle : ∀ o : StoreOp, Wire → Option (StoreResp o × Wire)
  | .host (.writeByte _), s => some ((), s)
  | .host .readByte, s =>
      match s.input with
      | [] => none
      | b :: input => some (b, { s with input })
  | .store a b, s => some ((), { s with
      mem := s.mem.put a b
      stores := s.stores.put a (some s.input.length) })
  | .stage i _, s => some ((), { s with staged := s.staged ++ [i] })

/-- A block as the device may send it. -/
inductive Block where
  | raw (bytes : List UInt8) (h : bytes.length = 512)
  | packed (hi lo : UInt8) (bytes : List UInt8) (h : bytes.length = lengthField hi lo)

namespace Block

/-- The bytes received for the block. -/
def wire : Block → List UInt8
  | raw bytes _ => 0x00 :: bytes
  | packed hi lo bytes _ => 0x02 :: hi :: lo :: bytes

/-- The bytes stored from the buffer pointer on. -/
def stored : Block → List UInt8
  | raw bytes _ => bytes
  | packed _ _ bytes _ => (Dos.lptDecompress bytes).2

/-- The number of bytes stored to `compress_buff`. -/
def staged : Block → Nat
  | raw _ _ => 0
  | packed _ _ bytes _ => bytes.length

/-- How many bytes are still to come at each of `n` stores made as the bytes come in, with `r` behind
them. -/
def countdown (r : Nat) : Nat → List (Option Nat)
  | 0 => []
  | n + 1 => some (n + r) :: countdown r n

/-- How many bytes are still to come as the bytes of the block are stored. -/
def stamps (r : Nat) : Block → List (Option Nat)
  | raw bytes _ => countdown r bytes.length
  | packed _ _ bytes _ => .replicate (Dos.lptDecompress bytes).2.length (some r)

@[simp] theorem length_countdown (r n : Nat) : (countdown r n).length = n := by
  induction n with
  | zero => rfl
  | succ n ih => exact congrArg (· + 1) ih

@[simp] theorem length_stamps (r : Nat) (b : Block) : (b.stamps r).length = b.stored.length := by
  cases b with
  | raw bytes h => exact length_countdown r _
  | packed hi lo bytes h => exact List.length_replicate

theorem mem_countdown {r n : Nat} {x : Option Nat} (h : x ∈ countdown r n) :
    ∃ left, x = some left ∧ r ≤ left ∧ left < r + n := by
  induction n with
  | zero => cases h
  | succ n ih =>
    rcases List.mem_cons.mp h with rfl | h
    · exact ⟨n + r, rfl, by omega, by omega⟩
    · rcases ih h with ⟨left, rfl, hle, hlt⟩
      exact ⟨left, rfl, hle, by omega⟩

/-- A block is stored while it comes in. -/
theorem mem_stamps {r : Nat} {b : Block} {x : Option Nat} (h : x ∈ b.stamps r) :
    ∃ left, x = some left ∧ r ≤ left ∧ left < r + b.wire.length := by
  cases b with
  | raw bytes hlen =>
    rcases mem_countdown h with ⟨left, rfl, hle, hlt⟩
    exact ⟨left, rfl, hle, Nat.lt_succ_of_lt hlt⟩
  | packed hi lo bytes hlen =>
    exact ⟨r, List.eq_of_mem_replicate h, Nat.le_refl r, Nat.lt_add_of_pos_right (Nat.succ_pos _)⟩

theorem length_stored_lt (b : Block) : b.stored.length < 65536 := by
  cases b with
  | raw bytes h => exact Nat.lt_of_le_of_lt (Nat.le_of_eq h) (by decide)
  | packed hi lo bytes h => exact length_unpacked_lt h

end Block

namespace Wire

variable {s s' : Wire} {rest : List UInt8} {unit lbn : UInt16} {buffer : FarPtr} {n a : Nat}

/-- A block has been received. -/
def receive (s : Wire) (buffer : FarPtr) (b : Block) (rest : List UInt8) : Wire where
  input := rest
  mem := s.mem.write buffer b.stored
  stores := s.stores.write buffer (b.stamps rest.length)
  staged := s.staged ++ List.range b.staged

/-- The blocks have been received. -/
def receiveAll : List Block → FarPtr → List UInt8 → Wire → Wire
  | [], _, rest, s => { s with input := rest }
  | b :: bs, buffer, rest, s =>
      receiveAll bs (buffer.add 512) rest (s.receive buffer b (bs.flatMap Block.wire ++ rest))

section Exec

variable {α : Type} {k : UInt8 → StoreProg α} {x : α × Wire}

theorem exec_read {b : UInt8} {input : List UInt8} (h : s.input = b :: input) :
    (Prog.op (StoreOp.host .readByte) k).exec handle s = (k b).exec handle { s with input } := by
  simp only [Prog.exec, handle, h]

theorem read_of_exec (h : (Prog.op (StoreOp.host .readByte) k).exec handle s = some x) :
    ∃ b input, s.input = b :: input ∧ (k b).exec handle { s with input } = some x := by
  cases hinput : s.input with
  | nil =>
    simp only [Prog.exec, handle, hinput] at h
    cases h
  | cons b input =>
    rw [exec_read hinput] at h
    exact ⟨b, input, rfl, h⟩

end Exec

theorem exec_receiveRaw {w : List UInt8} (h : s.input = w ++ rest) (hlen : w.length ≤ 65536) :
    (receiveRaw w.length buffer).exec handle s = some ((), { s with
      input := rest
      mem := s.mem.write buffer w
      stores := s.stores.write buffer (Block.countdown rest.length w.length) }) := by
  induction w generalizing buffer s with
  | nil =>
    rw [List.nil_append] at h
    simp [receiveRaw, Prog.exec, Cells.write_nil, Block.countdown, ← h]
  | cons b w ih =>
    have hcount : (Block.countdown rest.length w.length).length < 65536 := by
      rw [Block.length_countdown]
      exact hlen
    rw [Cells.write_cons _ _ _ hlen, List.length_cons, Block.countdown, Cells.write_cons _ _ _ hcount,
      ← List.length_append]
    exact (exec_read h).trans (ih rfl (Nat.le_of_succ_le hlen))

theorem length_of_receiveRaw {x : Unit × Wire}
    (h : (receiveRaw n buffer).exec handle s = some x) : n ≤ s.input.length := by
  induction n generalizing buffer s with
  | zero => exact Nat.zero_le _
  | succ n ih =>
    rcases read_of_exec h with ⟨b, input, hinput, hrest⟩
    rw [hinput]
    exact Nat.succ_le_succ (ih hrest)

theorem exec_receivePacked (w : List UInt8) (i : Nat) (h : s.input = w ++ rest) :
    (receivePacked w.length i).exec handle s = some (w, { s with
      input := rest
      staged := s.staged ++ List.range' i w.length }) := by
  induction w generalizing i s with
  | nil =>
    rw [List.nil_append] at h
    simp [receivePacked, Prog.exec, ← h]
  | cons b w ih =>
    refine (exec_read h).trans ?_
    show ((receivePacked w.length (i + 1)).bind fun bs => .ret (b :: bs)).exec handle _ = _
    rw [Prog.exec_bind, ih (i + 1) rfl]
    simp [Prog.exec, List.range'_succ]

theorem length_of_receivePacked {i : Nat} {x : List UInt8 × Wire}
    (h : (receivePacked n i).exec handle s = some x) : n ≤ s.input.length := by
  induction n generalizing i s x with
  | zero => exact Nat.zero_le _
  | succ n ih =>
    rcases read_of_exec h with ⟨b, input, hinput, hrest⟩
    have hbind : ((receivePacked n (i + 1)).bind fun bs => .ret (b :: bs)).exec handle
        { s with input, staged := s.staged ++ [i] } = some x := hrest
    rw [Prog.exec_bind] at hbind
    rcases Option.bind_eq_some_iff.mp hbind with ⟨y, hy, -⟩
    rw [hinput]
    exact Nat.succ_le_succ (ih hy)

theorem exec_storeAll {w : List UInt8} (out : FarPtr) (hlen : w.length ≤ 65536) :
    (storeAll w out).exec handle s = some ((), { s with
      mem := s.mem.write out w
      stores := s.stores.write out (.replicate w.length (some s.input.length)) }) := by
  induction w generalizing out s with
  | nil => simp [storeAll, Prog.exec, Cells.write_nil]
  | cons b w ih =>
    have hcount : (List.replicate w.length (some s.input.length)).length < 65536 := by
      rw [List.length_replicate]
      exact hlen
    rw [Cells.write_cons _ _ _ hlen, List.length_cons, List.replicate_succ,
      Cells.write_cons _ _ _ hcount]
    exact ih (out.add 1) (Nat.le_of_succ_le hlen)

/-- A block that the device sends is received. -/
theorem exec_lptReadPass (b : Block) (h : s.input = b.wire ++ rest) :
    (lptReadPass unit lbn buffer).exec handle s = some (true, s.receive buffer b rest) := by
  cases b with
  | raw bytes hlen =>
    refine (exec_read (s := s) h).trans ?_
    show ((receiveRaw 512 buffer).bind fun _ => .ret true).exec handle _ = _
    have hle : bytes.length ≤ 65536 := Nat.le_of_lt (Block.raw bytes hlen).length_stored_lt
    rw [Prog.exec_bind, ← hlen, exec_receiveRaw rfl hle]
    simp [Prog.exec, receive, Block.stored, Block.staged, Block.stamps]
  | packed hi lo bytes hlen =>
    refine (exec_read (s := s) h).trans ((exec_read rfl).trans ((exec_read rfl).trans ?_))
    show ((receivePacked (lengthField hi lo) 0).bind fun bytes =>
      (storeAll (Dos.lptDecompress bytes).2 buffer).bind fun _ => .ret true).exec handle _ = _
    rw [Prog.exec_bind, ← hlen, exec_receivePacked bytes 0 rfl]
    show ((storeAll (Dos.lptDecompress bytes).2 buffer).bind fun _ => .ret true).exec handle _ = _
    rw [Prog.exec_bind, exec_storeAll _ (Nat.le_of_lt (length_unpacked_lt hlen))]
    simp [Prog.exec, receive, Block.stored, Block.staged, Block.stamps, List.range_eq_range']

/-- Only a block is received. -/
theorem block_of_lptReadPass (h : (lptReadPass unit lbn buffer).exec handle s = some (true, s')) :
    ∃ (b : Block) (rest : List UInt8), s.input = b.wire ++ rest ∧ s' = s.receive buffer b rest := by
  have hread : (Prog.op (.host .readByte) (storeReply buffer) : StoreProg Bool).exec handle s =
      some (true, s') := h
  rcases read_of_exec hread with ⟨result, input, hinput, hreply⟩
  have hsplit : ∃ (b : Block) (rest : List UInt8), s.input = b.wire ++ rest := by
    unfold storeReply at hreply
    split at hreply
    · next hraw =>
      have hbind : ((receiveRaw 512 buffer).bind fun _ => .ret true).exec handle { s with input } =
          some (true, s') := hreply
      rw [Prog.exec_bind] at hbind
      rcases Option.bind_eq_some_iff.mp hbind with ⟨x, hx, -⟩
      have hlen : (input.take 512).length = 512 :=
        List.length_take_of_le (length_of_receiveRaw hx)
      refine ⟨.raw (input.take 512) hlen, input.drop 512, ?_⟩
      rw [hinput, hraw, Block.wire, List.cons_append, List.take_append_drop]
    split at hreply
    · next hpacked =>
      rcases read_of_exec hreply with ⟨hi, input₁, hinput₁, hreply₁⟩
      rcases read_of_exec hreply₁ with ⟨lo, input₂, hinput₂, hreply₂⟩
      have hbind : ((receivePacked (lengthField hi lo) 0).bind fun bytes =>
          (storeAll (Dos.lptDecompress bytes).2 buffer).bind fun _ => .ret true).exec handle
            { s with input := input₂ } = some (true, s') := hreply₂
      rw [Prog.exec_bind] at hbind
      rcases Option.bind_eq_some_iff.mp hbind with ⟨x, hx, -⟩
      have hlen : (input₂.take (lengthField hi lo)).length = lengthField hi lo :=
        List.length_take_of_le (length_of_receivePacked hx)
      refine ⟨.packed hi lo (input₂.take (lengthField hi lo)) hlen,
        input₂.drop (lengthField hi lo), ?_⟩
      have hrest : input = hi :: lo :: input₂ := by
        rw [show input = hi :: input₁ from hinput₁, show input₁ = lo :: input₂ from hinput₂]
      rw [hinput, hpacked, hrest, Block.wire, List.cons_append, List.cons_append, List.cons_append,
        List.take_append_drop]
    · cases hreply
  rcases hsplit with ⟨b, rest, hinput⟩
  rw [exec_lptReadPass b hinput] at h
  cases h
  exact ⟨b, rest, hinput, rfl⟩

/-- The call receives as many blocks as it is asked for. -/
theorem exec_lptReadStores (bs : List Block) (h : s.input = bs.flatMap Block.wire ++ rest) :
    (lptReadStores unit bs.length lbn buffer).exec handle s =
      some (.RES_OK, receiveAll bs buffer rest s) := by
  induction bs generalizing lbn buffer s with
  | nil =>
    rw [List.flatMap_nil, List.nil_append] at h
    simp [lptReadStores, Prog.exec, receiveAll, ← h]
  | cons b bs ih =>
    rw [List.flatMap_cons, List.append_assoc] at h
    show ((lptReadPass unit lbn buffer).bind fun more =>
      if more = true then lptReadStores unit bs.length (lbn + 1) (buffer.add 512)
      else .ret .RES_ERROR).exec handle s = _
    rw [Prog.exec_bind, exec_lptReadPass b h]
    exact ih rfl

theorem blocks_of_lptReadStores
    (h : (lptReadStores unit n lbn buffer).exec handle s = some (.RES_OK, s')) :
    ∃ bs : List Block, bs.length = n ∧ s.input = bs.flatMap Block.wire ++ s'.input ∧
      s' = receiveAll bs buffer s'.input s := by
  induction n generalizing lbn buffer s with
  | zero =>
    cases h
    exact ⟨[], rfl, rfl, rfl⟩
  | succ n ih =>
    have hbind : ((lptReadPass unit lbn buffer).bind fun more =>
        if more = true then lptReadStores unit n (lbn + 1) (buffer.add 512)
        else .ret .RES_ERROR).exec handle s = some (.RES_OK, s') := h
    rw [Prog.exec_bind] at hbind
    rcases Option.bind_eq_some_iff.mp hbind with ⟨⟨more, s₁⟩, hpass, hrest⟩
    cases more with
    | false => cases hrest
    | true =>
      rcases block_of_lptReadPass hpass with ⟨b, rest, hinput, rfl⟩
      rcases ih hrest with ⟨bs, hlen, hinput', hs'⟩
      have hwire : rest = bs.flatMap Block.wire ++ s'.input := hinput'
      refine ⟨b :: bs, congrArg (· + 1) hlen, ?_, ?_⟩
      · rw [hinput, hwire, List.flatMap_cons, List.append_assoc]
      · rw [receiveAll, ← hwire]
        exact hs'

/-- The number of a block and the blocks behind it. -/
theorem exists_getElem?_cons {P : Nat → Block → Prop} {b : Block} {bs : List Block} :
    (∃ j c, (b :: bs)[j]? = some c ∧ P j c) ↔ P 0 b ∨ ∃ j c, bs[j]? = some c ∧ P (j + 1) c := by
  constructor
  · rintro ⟨j, c, hj, hp⟩
    cases j with
    | zero =>
      cases hj
      exact .inl hp
    | succ j => exact .inr ⟨j, c, hj, hp⟩
  · rintro (hp | ⟨j, c, hj, hp⟩)
    · exact ⟨0, b, rfl, hp⟩
    · exact ⟨j + 1, c, hj, hp⟩

theorem receiveAll_input (bs : List Block) : (receiveAll bs buffer rest s).input = rest := by
  induction bs generalizing buffer s with
  | nil => rfl
  | cons b bs ih => exact ih

/-- The bytes to come behind block `j`. -/
def behind (bs : List Block) (j : Nat) (rest : List UInt8) : Nat :=
  ((bs.drop (j + 1)).flatMap Block.wire).length + rest.length

/-- What comes behind a block includes the blocks behind it. -/
theorem behind_lt (rest : List UInt8) {bs : List Block} {j k : Nat} {c : Block} (hk : bs[k]? = some c)
    (hjk : j < k) :
    behind bs k rest + c.wire.length ≤ behind bs j rest := by
  rcases List.getElem?_eq_some_iff.mp hk with ⟨hlt, rfl⟩
  have hnext : j + 1 ≤ k := hjk
  have hsuffix := (List.drop_sublist_drop_left bs hnext).flatMap Block.wire
  have hle := hsuffix.length_le
  rw [List.drop_eq_getElem_cons hlt, List.flatMap_cons, List.length_append] at hle
  unfold behind
  omega

/-- Block `j` is the last of which a byte is stored to the address. -/
structure LastTo (bs : List Block) (p : FarPtr) (a j : Nat) (b : Block) : Prop where
  get : bs[j]? = some b
  covers : (p.add (512 * j)).Covers b.stored.length a
  later : ∀ k c, bs[k]? = some c → j < k → ¬ (p.add (512 * k)).Covers c.stored.length a

theorem add_succ (p : FarPtr) (j : Nat) : (p.add 512).add (512 * j) = p.add (512 * (j + 1)) := by
  rw [FarPtr.add_add]
  congr 1
  omega

theorem mem_staged {bs : List Block} {i : Nat} : i ∈ (receiveAll bs buffer rest s).staged ↔
    i ∈ s.staged ∨ ∃ b ∈ bs, i < b.staged := by
  induction bs generalizing buffer s with
  | nil => simp [receiveAll]
  | cons b bs ih =>
    rw [receiveAll, ih]
    simp [receive, or_assoc]

/-- If a block is stored to the address, one is the last. -/
theorem lastTo_exists {bs : List Block} {p : FarPtr} {j : Nat} {b : Block} (hj : bs[j]? = some b)
    (hcovers : (p.add (512 * j)).Covers b.stored.length a) : ∃ k c, j ≤ k ∧ LastTo bs p a k c := by
  by_cases hlater : ∃ k c, bs[k]? = some c ∧ j < k ∧ (p.add (512 * k)).Covers c.stored.length a
  · rcases hlater with ⟨k, c, hk, hjk, hcovers'⟩
    have hlt := (List.getElem?_eq_some_iff.mp hk).1
    rcases lastTo_exists hk hcovers' with ⟨l, d, hkl, hlast⟩
    exact ⟨l, d, by omega, hlast⟩
  · exact ⟨j, b, Nat.le_refl j, hj, hcovers, fun k c hk hjk h => hlater ⟨k, c, hk, hjk, h⟩⟩
termination_by bs.length - j

/-- An address that no block is stored to keeps its byte. -/
theorem receiveAll_kept (rest : List UInt8) {bs : List Block} {p : FarPtr}
    (h : ∀ j b, bs[j]? = some b → ¬ (p.add (512 * j)).Covers b.stored.length a) :
    (receiveAll bs p rest s).mem a = s.mem a ∧ (receiveAll bs p rest s).stores a = s.stores a := by
  induction bs generalizing p s with
  | nil => exact ⟨rfl, rfl⟩
  | cons b bs ih =>
    have hfirst := h 0 b rfl
    rw [Nat.mul_zero, FarPtr.add_zero] at hfirst
    have hrest : ∀ j c, bs[j]? = some c → ¬ ((p.add 512).add (512 * j)).Covers c.stored.length a := by
      intro j c hj
      rw [add_succ]
      exact h (j + 1) c hj
    rcases ih (s := s.receive p b (bs.flatMap Block.wire ++ rest)) hrest with ⟨hmem, hstores⟩
    rw [receiveAll, hmem, hstores]
    refine ⟨Cells.write_of_not_covers hfirst, Cells.write_of_not_covers ?_⟩
    rwa [Block.length_stamps]

/-- Otherwise it has the byte of the last, stored as that came in. -/
theorem receiveAll_last (rest : List UInt8) {bs : List Block} {p : FarPtr} {j : Nat} {b : Block}
    (h : LastTo bs p a j b) :
    (receiveAll bs p rest s).mem a = b.stored.getD ((p.add (512 * j)).index a) 0 ∧
      ∃ left, (receiveAll bs p rest s).stores a = some left ∧ behind bs j rest ≤ left ∧
        left < behind bs j rest + b.wire.length := by
  induction bs generalizing p s j with
  | nil => cases h.get
  | cons c bs ih =>
    cases j with
    | zero =>
      cases h.get
      have hcovers := h.covers
      rw [Nat.mul_zero, FarPtr.add_zero] at hcovers ⊢
      have hrest : ∀ k d, bs[k]? = some d →
          ¬ ((p.add 512).add (512 * k)).Covers d.stored.length a := by
        intro k d hk
        rw [add_succ]
        exact h.later (k + 1) d hk (Nat.succ_pos k)
      rcases FarPtr.covers_iff.mp hcovers with ⟨i, hi, rfl⟩
      have hle := Nat.le_of_lt b.length_stored_lt
      have hstamp : i < (b.stamps (bs.flatMap Block.wire ++ rest).length).length := by
        rwa [Block.length_stamps]
      have hmod : i % 65536 = i := Nat.mod_eq_of_lt (Nat.lt_of_lt_of_le hi hle)
      rcases receiveAll_kept rest (s := s.receive p b (bs.flatMap Block.wire ++ rest)) hrest
        with ⟨hmem, hstores⟩
      rw [receiveAll, hmem, hstores]
      constructor
      · rw [FarPtr.index_addr, hmod, List.getD_eq_getElem?_getD, List.getElem?_eq_getElem hi]
        exact Cells.write_addr hle hi
      · rcases Block.mem_stamps (List.getElem_mem hstamp) with ⟨left, hleft, hlow, hhigh⟩
        refine ⟨left, ?_, ?_, ?_⟩
        · rw [← hleft]
          exact Cells.write_addr (by rwa [Block.length_stamps]) hstamp
        · rwa [List.length_append] at hlow
        · rwa [List.length_append] at hhigh
    | succ j =>
      have hlast : LastTo bs (p.add 512) a j b := by
        refine ⟨h.get, ?_, fun k d hk hjk => ?_⟩
        · rw [add_succ]
          exact h.covers
        · rw [add_succ]
          exact h.later (k + 1) d hk (Nat.succ_lt_succ hjk)
      rw [← add_succ]
      exact ih hlast

end Wire

end Runs

section Complete

variable {unit lbn : UInt16} {p : FarPtr} {n : Nat}

/-- The state as `LPTRead` is called. -/
def Wire.start (input : List UInt8) (mem : Mem) : Wire := ⟨input, mem, fun _ => none, []⟩

/-- A run of `LPTRead` for `n` blocks that returns `RES_OK`, and the blocks it has received. -/
structure Received (unit lbn : UInt16) (p : FarPtr) (n : Nat) (input : List UInt8) (mem : Mem)
    (bs : List Block) (s : Wire) : Prop where
  run : (lptReadStores unit n lbn p).exec Wire.handle (.start input mem) = some (.RES_OK, s)
  length : bs.length = n
  blocks : input = bs.flatMap Block.wire ++ s.input

/-- A byte for block `j`, the last store to its place made as the bytes of that block came in. -/
structure Determined (bs : List Block) (s : Wire) (j : Nat) (b : Block) (i a : Nat) : Prop where
  value : s.mem a = b.stored.getD i 0
  source : ∃ left, s.stores a = some left ∧ Wire.behind bs j s.input ≤ left ∧
    left < Wire.behind bs j s.input + b.wire.length

/-- The bytes of each block are there in the buffer, the `512 * n` bytes from `p` on, and come from the
bytes received for that block, and nothing is stored outside the buffer or behind `compress_buff`. -/
structure Complete (p : FarPtr) (n : Nat) (bs : List Block) (s : Wire) : Prop where
  determined : ∀ j b, bs[j]? = some b → ∀ i < 512, Determined bs s j b i (p.addr 0 + (512 * j + i))
  within : ∀ a, s.stores a ≠ none → p.addr 0 ≤ a ∧ a < p.addr 0 + 512 * n
  staged : ∀ i ∈ s.staged, i < 1024

/-- A block of which `LPTRead` stores at least 512 bytes, and at most the `room` there is; its compressed
form has at most 1024 bytes. -/
def Block.Whole (room : Nat) : Block → Prop
  | .raw _ _ => True
  | .packed _ _ bytes _ => bytes.length ≤ 1024 ∧
      (∃ k ≤ bytes.length, RunsFit bytes 0 k ∧ 512 ≤ unpackedSize bytes k) ∧
      ∀ k ≤ bytes.length, RunsFit bytes 0 k → unpackedSize bytes k ≤ room

theorem Block.whole_iff {room : Nat} (hroom : 512 ≤ room) (b : Block) : b.Whole room ↔
    512 ≤ b.stored.length ∧ b.stored.length ≤ room ∧ b.staged ≤ 1024 := by
  cases b with
  | raw bytes hlen =>
    refine iff_of_true trivial ⟨Nat.le_of_eq hlen.symm, ?_, Nat.zero_le _⟩
    exact Nat.le_trans (Nat.le_of_eq hlen) hroom
  | packed hi lo bytes hlen =>
    show _ ↔ 512 ≤ (decompress bytes).2.length ∧ (decompress bytes).2.length ≤ room ∧ _
    rw [length_decompress_le, le_length_decompress]
    exact ⟨fun ⟨h₁, h₂, h₃⟩ => ⟨h₂, h₃, h₁⟩, fun ⟨h₂, h₃, h₁⟩ => ⟨h₁, h₂, h₃⟩⟩

variable {input : List UInt8} {mem : Mem} {bs : List Block} {s : Wire} {a j k : Nat} {b c : Block}

theorem received_exists
    (h : (lptReadStores unit n lbn p).exec Wire.handle (.start input mem) = some (.RES_OK, s)) :
    ∃ bs, Received unit lbn p n input mem bs s := by
  rcases Wire.blocks_of_lptReadStores h with ⟨bs, hlen, hinput, -⟩
  exact ⟨bs, h, hlen, hinput⟩

theorem received_blocks (unit lbn : UInt16) (p : FarPtr) (mem : Mem) (bs : List Block) :
    Received unit lbn p bs.length (bs.flatMap Block.wire) mem bs
      (Wire.receiveAll bs p [] (.start (bs.flatMap Block.wire) mem)) := by
  have hinput : (Wire.start (bs.flatMap Block.wire) mem).input = bs.flatMap Block.wire ++ [] :=
    (List.append_nil _).symm
  refine ⟨Wire.exec_lptReadStores bs hinput, rfl, ?_⟩
  rw [Wire.receiveAll_input, List.append_nil]

theorem Received.state (h : Received unit lbn p n input mem bs s) :
    s = Wire.receiveAll bs p s.input (.start input mem) := by
  have hrun := h.run
  have hinput : (Wire.start input mem).input = bs.flatMap Block.wire ++ s.input := h.blocks
  rw [← h.length, Wire.exec_lptReadStores bs hinput] at hrun
  exact (Prod.mk.inj (Option.some.inj hrun)).2.symm

theorem Received.mem_staged (h : Received unit lbn p n input mem bs s) {i : Nat} : i ∈ s.staged ↔
    ∃ b ∈ bs, i < b.staged := by
  rw [h.state, Wire.mem_staged]
  exact or_iff_right List.not_mem_nil

theorem Received.index_lt (h : Received unit lbn p n input mem bs s) (hj : bs[j]? = some b) : j < n := by
  rw [← h.length]
  exact (List.getElem?_eq_some_iff.mp hj).1

/-- What is at an address to which a block is stored last. -/
theorem Received.last (h : Received unit lbn p n input mem bs s) (hlast : Wire.LastTo bs p a j b) :
    Determined bs s j b ((p.add (512 * j)).index a) a := by
  have hstate := Wire.receiveAll_last s.input (s := .start input mem) hlast
  rw [← h.state] at hstate
  exact ⟨hstate.1, hstate.2⟩

/-- Only blocks are stored. -/
theorem Received.lastTo (h : Received unit lbn p n input mem bs s) (hstored : s.stores a ≠ none) :
    ∃ j b, Wire.LastTo bs p a j b := by
  by_contra hnone
  apply hstored
  rw [h.state, (Wire.receiveAll_kept _ fun j b hj hcovers => ?_).2]
  · rfl
  · rcases Wire.lastTo_exists hj hcovers with ⟨k, c, -, hlast⟩
    exact hnone ⟨k, c, hlast⟩

/-- A byte comes from one block. -/
theorem Determined.unique {i i' : Nat} (h : Determined bs s j b i a) (h' : Determined bs s k c i' a)
    (hj : bs[j]? = some b) (hk : bs[k]? = some c) : j = k := by
  rcases h.source with ⟨left, hleft, hlow, hhigh⟩
  rcases h'.source with ⟨left', hleft', hlow', hhigh'⟩
  cases hleft.symm.trans hleft'
  rcases Nat.lt_trichotomy j k with hlt | heq | hgt
  · have hbehind := Wire.behind_lt s.input hk hlt
    omega
  · exact heq
  · have hbehind := Wire.behind_lt s.input hj hgt
    omega

/-- A byte that comes from a block has been stored with it, and with none behind it. -/
theorem Received.lastTo_of_determined (h : Received unit lbn p n input mem bs s) {i : Nat}
    (hj : bs[j]? = some b) (hdet : Determined bs s j b i a) : Wire.LastTo bs p a j b := by
  rcases hdet.source with ⟨left, hleft, -⟩
  have hstored : s.stores a ≠ none := by simp [hleft]
  rcases h.lastTo hstored with ⟨k, c, hlast⟩
  obtain rfl := hdet.unique (h.last hlast) hj hlast.get
  cases hj.symm.trans hlast.get
  exact hlast

/-- Nothing is stored behind the segment, so that a buffer whose bytes all come from its blocks ends
within it. -/
theorem Received.spans (h : Received unit lbn p n input mem bs s) (hcomplete : Complete p n bs s) :
    p.Spans (512 * n) := by
  by_contra hnot
  have hoff := p.off.toNat_lt
  have hn : n - 1 < bs.length := by
    rw [h.length]
    apply Nat.sub_one_lt
    rintro rfl
    exact hnot (Nat.le_of_lt hoff)
  have hget := List.getElem?_eq_getElem hn
  have hdet := hcomplete.determined _ _ hget 511 (by decide)
  have hin := (h.lastTo_of_determined hget hdet).covers.1
  have hlen := h.length
  unfold FarPtr.Spans at hnot
  unfold FarPtr.addr at hin
  rw [FarPtr.add_base] at hin
  omega

/-- The bytes of a block come from it if 512 of them are stored and the blocks behind it end within the
buffer. -/
theorem Received.determined (h : Received unit lbn p n input mem bs s) (hspans : p.Spans (512 * n))
    (hj : bs[j]? = some b) (hfull : 512 ≤ b.stored.length)
    (hroom : ∀ k c, bs[k]? = some c → c.stored.length ≤ 512 * (n - k)) {i : Nat} (hi : i < 512) :
    Determined bs s j b i (p.addr 0 + (512 * j + i)) := by
  have hlt := h.index_lt hj
  have hle := hspans.le
  rw [← hspans.addr (show 512 * j + i < 512 * n by omega), ← FarPtr.addr_add]
  have hplace : (p.add (512 * j)).index ((p.add (512 * j)).addr i) = i := by
    rw [FarPtr.index_addr]
    omega
  have hlast : Wire.LastTo bs p ((p.add (512 * j)).addr i) j b := by
    refine ⟨hj, FarPtr.covers_iff.mpr ⟨i, by omega, rfl⟩, fun k c hk hjk hcovers => ?_⟩
    have hroom := hroom k c hk
    have hindex := h.index_lt hk
    rcases FarPtr.covers_iff.mp hcovers with ⟨i', hi', haddr⟩
    have hin : 512 * j + i < 512 * n := by omega
    have hin' : 512 * k + i' < 512 * n := by omega
    rw [FarPtr.addr_add, FarPtr.addr_add, hspans.addr hin, hspans.addr hin'] at haddr
    omega
  have hdet := h.last hlast
  rwa [hplace] at hdet

/-- At least 512 bytes of a block are stored if the last of these comes from it. -/
theorem Received.full (h : Received unit lbn p n input mem bs s) (hcomplete : Complete p n bs s)
    (hspans : p.Spans (512 * n)) (hj : bs[j]? = some b) : 512 ≤ b.stored.length := by
  have hlt := h.index_lt hj
  have hdet := hcomplete.determined j b hj 511 (by decide)
  have hcovers := (h.lastTo_of_determined hj hdet).covers
  have hle := hspans.le
  rw [← hspans.addr (show 512 * j + 511 < 512 * n by omega), ← FarPtr.addr_add,
    FarPtr.covers_addr] at hcovers
  omega

/-- A block ends within the buffer if nothing is stored outside that. -/
theorem Received.fits (h : Received unit lbn p n input mem bs s) (hcomplete : Complete p n bs s)
    (hspans : p.Spans (512 * n)) (hj : bs[j]? = some b) : b.stored.length ≤ 512 * (n - j) := by
  by_contra hover
  have hlt := h.index_lt hj
  have hcovers : (p.add (512 * j)).Covers b.stored.length (p.addr (512 * n)) := by
    refine FarPtr.covers_iff.mpr ⟨512 * (n - j), by omega, ?_⟩
    rw [FarPtr.addr_add]
    congr 1
    omega
  rcases Wire.lastTo_exists hj hcovers with ⟨k, c, hjk, hlast⟩
  have hsource := h.last hlast
  rcases hsource.source with ⟨left, hleft, -⟩
  have hstored : s.stores (p.addr (512 * n)) ≠ none := by simp [hleft]
  have hin := hcomplete.within _ hstored
  -- the byte behind the buffer is in it only if the buffer is the whole segment, where it is the first
  have hround : p.addr (512 * n) = p.addr 0 + (512 * 0 + 0) ∧ 0 < j := by
    have hshort := b.length_stored_lt
    unfold FarPtr.Spans at hspans
    unfold FarPtr.addr at hin ⊢
    omega
  have hfirst : 0 < bs.length := by
    rw [h.length]
    omega
  have hget := List.getElem?_eq_getElem hfirst
  have hdet := hcomplete.determined 0 _ hget 0 (by decide)
  rw [← hround.1] at hdet
  have hzero := hsource.unique hdet hlast.get hget
  omega

/-- `LPTRead` that returns `RES_OK` has received as many blocks as it was asked for, and has dealt with
them as it should exactly if the buffer ends within its segment and each compressed block fits in
`compress_buff`, unpacks to 512 bytes at least, and to no more than there is room for in the rest of the
buffer. -/
theorem complete_iff
    (h : (lptReadStores unit n lbn p).exec Wire.handle (.start input mem) = some (.RES_OK, s)) :
    (∃ bs, Received unit lbn p n input mem bs s) ∧
      ∀ bs, Received unit lbn p n input mem bs s → (Complete p n bs s ↔ p.Spans (512 * n) ∧
        ∀ j (b : Block), bs[j]? = some b → b.Whole (512 * (n - j))) := by
  refine ⟨received_exists h, fun bs hreceived => ?_⟩
  constructor
  · intro hcomplete
    have hspans := hreceived.spans hcomplete
    refine ⟨hspans, fun j b hj => ?_⟩
    have hlt := hreceived.index_lt hj
    refine (b.whole_iff (by omega)).mpr ⟨?_, ?_, ?_⟩
    · exact hreceived.full hcomplete hspans hj
    · exact hreceived.fits hcomplete hspans hj
    · by_contra hover
      have hstaged : b.staged - 1 ∈ s.staged :=
        hreceived.mem_staged.mpr ⟨b, List.mem_of_getElem? hj, by omega⟩
      have hlast := hcomplete.staged _ hstaged
      omega
  · rintro ⟨hspans, hwhole⟩
    have hsizes (j : Nat) (b : Block) (hj : bs[j]? = some b) : 512 ≤ b.stored.length ∧
        b.stored.length ≤ 512 * (n - j) ∧ b.staged ≤ 1024 := by
      have hlt := hreceived.index_lt hj
      exact (b.whole_iff (by omega)).mp (hwhole j b hj)
    refine ⟨?_, ?_, ?_⟩
    · intro j b hj i hi
      exact hreceived.determined hspans hj (hsizes j b hj).1 (fun k c hk => (hsizes k c hk).2.1) hi
    · intro a ha
      rcases hreceived.lastTo ha with ⟨j, b, hlast⟩
      have hroom := (hsizes j b hlast.get).2.1
      have hindex := hreceived.index_lt hlast.get
      rcases FarPtr.covers_iff.mp hlast.covers with ⟨i, hi, rfl⟩
      have hin : 512 * j + i < 512 * n := by omega
      rw [FarPtr.addr_add, hspans.addr hin]
      omega
    · intro i hi
      rcases hreceived.mem_staged.mp hi with ⟨b, hb, hlt⟩
      rcases List.mem_iff_getElem?.mp hb with ⟨j, hj⟩
      exact Nat.lt_of_lt_of_le hlt (hsizes j b hj).2.2

/-- A block of zeros, compressed. -/
def zeroPacked : Block := .packed 0x00 0x04 [0x00, 0xff, 0x00, 0xff] rfl

/-- And one of ones, raw. -/
def onesRaw : Block := .raw (Sector.ofFn fun _ => 1).bytes (Sector.length_bytes _)

/-- They are received whole, to the end of a segment. -/
theorem complete_iff_pair : Complete ⟨0x1000, 0xfc00⟩ 2 [zeroPacked, onesRaw]
    (Wire.receiveAll [zeroPacked, onesRaw] ⟨0x1000, 0xfc00⟩ []
      (.start ([zeroPacked, onesRaw].flatMap Block.wire) fun _ => 0xaa)) := by
  have hreceived := received_blocks 0 0 ⟨0x1000, 0xfc00⟩ (fun _ => 0xaa) [zeroPacked, onesRaw]
  refine ((complete_iff hreceived.run).2 _ hreceived).mpr ⟨by decide, fun j b hj => ?_⟩
  rcases j with _ | _ | j
  · cases hj
    refine (zeroPacked.whole_iff (by decide)).mpr ?_
    decide +kernel
  · cases hj
    trivial
  · cases hj

/-- A compressed block of no bytes: the call succeeds, and stores nothing. -/
theorem incomplete_empty : ¬ ∀ (unit lbn : UInt16) (p : FarPtr) (n : Nat) (input : List UInt8)
    (mem : Mem) (bs : List Block) (s : Wire), Received unit lbn p n input mem bs s →
      Complete p n bs s := by
  intro h
  have hreceived := received_blocks 0 0 ⟨0, 0⟩ (fun _ => 0) [.packed 0x00 0x00 [] rfl]
  have hcomplete := h _ _ _ _ _ _ _ _ hreceived
  rcases (hcomplete.determined 0 _ rfl 0 (by decide)).source with ⟨left, hleft, -⟩
  have hnone : (Wire.receiveAll [.packed 0x00 0x00 [] rfl] ⟨0, 0⟩ []
      (.start ([Block.packed 0x00 0x00 [] rfl].flatMap Block.wire) fun _ => 0)).stores
        (FarPtr.addr ⟨0, 0⟩ 0 + (512 * 0 + 0)) = none := by
    decide +kernel
  rw [hnone] at hleft
  cases hleft

end Complete

end LptStore.Protocol
