import LptStore.Sector

/-!
# The run-length codec

`LPTCompress` and `LPTDecompress` exist in three copies with the same text:
`pico/lptprotocol.c:11-55` for the firmware, `dos/SDPP10/LPTSTORE.C:306-350` for the DOS
driver and `fs/comp.c:6-48` for the offline round-trip test. The loop over the input is
`foldlM` of its body over the bytes, an early `return 0` being an `.error`. Both functions
store through `out[r++]` from `r = 0` on, so the bytes stored are the list `out`, `r` is
its length, and the index of each store is its position in the list.
-/

namespace LptStore.Codec

/-- The locals of `LPTCompress`: the run counter `c` and the bytes stored so far. -/
structure CompressState where
  c : Nat
  out : List UInt8
  deriving DecidableEq

/-- `if (c) out[r++] = c-1`: the count of an open run. -/
def CompressState.flush (s : CompressState) : List UInt8 :=
  if s.c ≠ 0 then s.out ++ [UInt8.ofNat (s.c - 1)] else s.out

/-- What `LPTCompress` does with one input byte. -/
def CompressState.push (s : CompressState) (b : UInt8) : CompressState :=
  if b = 0x00 then
    if s.c = 0 then { c := 1, out := s.out ++ [0x00] }
    else if s.c = 255 then { c := 0, out := s.out ++ [0xff] }
    else { s with c := s.c + 1 }
  else
    { c := 0, out := s.flush ++ [b] }

/-- One pass of `LPTCompress`'s loop; the error is its `if (r >= 512) return 0`. -/
def compressByte (s : CompressState) (b : UInt8) : Except (List UInt8) CompressState :=
  if 512 ≤ (s.push b).out.length then .error (s.push b).out else .ok (s.push b)

/-- `LPTCompress`: the value returned and the bytes stored to `out`. -/
def compress (data : List UInt8) : Nat × List UInt8 :=
  match data.foldlM compressByte { c := 0, out := [] } with
  | .error out => (0, out)
  | .ok s => (if 512 ≤ s.flush.length then 0 else s.flush.length, s.flush)

/-- The locals of `LPTDecompress`: `data[i-2]` and `data[i-1]` where they exist, and the
bytes stored so far. -/
structure DecompressState where
  prev2 : Option UInt8
  prev1 : Option UInt8
  out : List UInt8
  deriving DecidableEq

/-- One pass of `LPTDecompress`'s loop body; the error is its `if ((r + c) > 512) return 0`. -/
def decompressByte (s : DecompressState) (b : UInt8) : Except (List UInt8) DecompressState :=
  if s.prev1 = some 0x00 ∧ ¬ s.prev2 = some 0x00 then
    let c := b.toNat + 1
    if s.out.length + c > 512 then .error s.out
    else .ok { prev2 := s.prev1, prev1 := some b, out := s.out ++ List.replicate c 0x00 }
  else if b ≠ 0x00 then
    .ok { prev2 := s.prev1, prev1 := some b, out := s.out ++ [b] }
  else
    .ok { prev2 := s.prev1, prev1 := some b, out := s.out }

/-- `LPTDecompress` on `len` bytes of input: the value returned and the bytes stored to `out`. -/
def decompress (data : List UInt8) : Nat × List UInt8 :=
  match data.foldlM decompressByte { prev2 := none, prev1 := none, out := [] } with
  | .error out => (0, out)
  | .ok s => (s.out.length, s.out)

end LptStore.Codec

namespace LptStore.Pico

/-- `LPTCompress` of `pico/lptprotocol.c:11-40`. -/
def lptCompress (data : Sector) : Nat × List UInt8 := Codec.compress data.bytes

/-- `LPTDecompress` of `pico/lptprotocol.c:42-55`. -/
def lptDecompress (data : List UInt8) : Nat × List UInt8 := Codec.decompress data

end LptStore.Pico

namespace LptStore.Dos

/-- `LPTCompress` of `dos/SDPP10/LPTSTORE.C:306-335`. -/
def lptCompress (data : Sector) : Nat × List UInt8 := Codec.compress data.bytes

/-- `LPTDecompress` of `dos/SDPP10/LPTSTORE.C:337-350`. -/
def lptDecompress (data : List UInt8) : Nat × List UInt8 := Codec.decompress data

end LptStore.Dos

namespace LptStore.Codec

/-- What the decoder has rebuilt when the encoder has consumed `d` and stands in state `s`.
An open run has its marker in the stream but not its count, so its zeros are owed. -/
structure InStep (d : List UInt8) (s : CompressState) (t : DecompressState) : Prop where
  rebuilt : t.out ++ List.replicate s.c 0x00 = d
  short : s.c ≤ 255
  closed : s.c = 0 → t.prev1 ≠ some 0x00
  opened : s.c ≠ 0 → t.prev1 = some 0x00 ∧ t.prev2 ≠ some 0x00

theorem InStep.length {d : List UInt8} {s : CompressState} {t : DecompressState}
    (h : InStep d s t) : t.out.length + s.c = d.length := by
  simpa using congrArg List.length h.rebuilt

/-- The decoder's answer to the count of an open run. -/
theorem decompressByte_count {d : List UInt8} {s : CompressState} {t : DecompressState}
    (h : InStep d s t) (hc : s.c ≠ 0) (hd : d.length ≤ 512) :
    decompressByte t (UInt8.ofNat (s.c - 1)) =
      .ok { prev2 := some 0x00, prev1 := some (UInt8.ofNat (s.c - 1)), out := d } := by
  obtain ⟨h1, h2⟩ := h.opened hc
  have hlen := h.length
  have hshort := h.short
  have hcount : (UInt8.ofNat (s.c - 1)).toNat + 1 = s.c := by simp; omega
  have hfit : ¬ t.out.length + s.c > 512 := by omega
  simp only [decompressByte, h1, h2, not_false_eq_true, and_self, if_true, hcount, hfit, if_false]
  rw [h.rebuilt]

/-- One input byte keeps the two sides in step. -/
theorem push_inStep {d : List UInt8} {s : CompressState} {t : DecompressState} (b : UInt8)
    (h : InStep d s t) (hd : d.length < 512) :
    ∃ w t', (s.push b).out = s.out ++ w ∧ w.foldlM decompressByte t = .ok t' ∧
      InStep (d ++ [b]) (s.push b) t' := by
  have hlen := h.length
  have hshort := h.short
  by_cases hb : b = 0x00
  · subst hb
    by_cases hc : s.c = 0
    · -- a run opens: its marker alone leaves the output as it was
      have hp := h.closed hc
      refine ⟨[0x00], { prev2 := t.prev1, prev1 := some 0x00, out := t.out }, ?_, ?_, ?_⟩
      · simp [CompressState.push, hc]
      · simp [decompressByte, hp]
      · constructor
        · simpa [CompressState.push, hc] using h.rebuilt
        · simp [CompressState.push, hc]
        · simp [CompressState.push, hc]
        · simp [hp]
    · by_cases hfull : s.c = 255
      · -- the 256th zero closes the run with the count 0xff
        obtain ⟨h1, h2⟩ := h.opened hc
        have hfit : ¬ t.out.length + 256 > 512 := by omega
        have hff : (0xff : UInt8).toNat + 1 = 256 := rfl
        have hr : t.out ++ List.replicate 256 0x00 = d ++ [0x00] := by
          rw [← h.rebuilt, hfull, List.append_assoc, ← List.replicate_succ']
        refine ⟨[0xff], { prev2 := some 0x00, prev1 := some 0xff, out := d ++ [0x00] }, ?_, ?_, ?_⟩
        · simp [CompressState.push, hfull]
        · simp only [List.foldlM_cons, List.foldlM_nil, decompressByte, h1, h2,
            not_false_eq_true, and_self, if_true, hff, hfit, if_false, hr]
          rfl
        · constructor <;> simp [CompressState.push, hfull]
      · refine ⟨[], t, ?_, rfl, ?_⟩
        · simp [CompressState.push, hc, hfull]
        · simp only [CompressState.push, hc, hfull, if_true, if_false]
          constructor
          · rw [← h.rebuilt, List.append_assoc, ← List.replicate_succ']
          · show s.c + 1 ≤ 255
            omega
          · intro hz
            exact absurd hz (Nat.succ_ne_zero _)
          · intro _
            exact h.opened hc
  · by_cases hc : s.c = 0
    · have hp := h.closed hc
      have hd' : t.out = d := by simpa [hc] using h.rebuilt
      refine ⟨[b], { prev2 := t.prev1, prev1 := some b, out := d ++ [b] }, ?_, ?_, ?_⟩
      · simp [CompressState.push, CompressState.flush, hb, hc]
      · simp [decompressByte, hp, hb, hd']
      · constructor <;> simp [CompressState.push, hb]
    · -- the count of the open run, then the literal
      refine ⟨[UInt8.ofNat (s.c - 1), b],
        { prev2 := some (UInt8.ofNat (s.c - 1)), prev1 := some b, out := d ++ [b] }, ?_, ?_, ?_⟩
      · simp [CompressState.push, CompressState.flush, hb, hc]
      · rw [List.foldlM_cons, decompressByte_count h hc (by omega)]
        simp [decompressByte, hb, bind, Except.bind]
        rfl
      · constructor <;> simp [CompressState.push, hb]

/-- A whole input keeps the two sides in step, as long as the encoder does not give up. -/
theorem foldlM_inStep (data : List UInt8) {d : List UInt8} {s s' : CompressState}
    {t : DecompressState} (h : InStep d s t) (hd : d.length + data.length ≤ 512)
    (hs : data.foldlM compressByte s = .ok s') :
    ∃ w t', s'.out = s.out ++ w ∧ w.foldlM decompressByte t = .ok t' ∧
      InStep (d ++ data) s' t' := by
  induction data generalizing d s t with
  | nil =>
    cases hs
    exact ⟨[], t, by simp, rfl, by simpa using h⟩
  | cons b data ih =>
    simp only [List.length_cons] at hd
    obtain ⟨w₁, t₁, hout₁, hdec₁, h₁⟩ := push_inStep b h (by omega)
    rw [List.foldlM_cons, compressByte] at hs
    split at hs
    · cases hs
    · obtain ⟨w₂, t₂, hout₂, hdec₂, h₂⟩ := ih h₁ (by simp; omega) hs
      refine ⟨w₁ ++ w₂, t₂, ?_, ?_, ?_⟩
      · rw [hout₂, hout₁, List.append_assoc]
      · rw [List.foldlM_append, hdec₁]
        exact hdec₂
      · simpa using h₂

/-- Closing the last open run completes the input on the decoder's side. -/
theorem flush_inStep {d : List UInt8} {s : CompressState} {t : DecompressState}
    (h : InStep d s t) (hd : d.length ≤ 512) :
    ∃ w t', s.flush = s.out ++ w ∧ w.foldlM decompressByte t = .ok t' ∧ t'.out = d := by
  by_cases hc : s.c = 0
  · exact ⟨[], t, by simp [CompressState.flush, hc], rfl, by simpa [hc] using h.rebuilt⟩
  · refine ⟨[UInt8.ofNat (s.c - 1)],
      { prev2 := some 0x00, prev1 := some (UInt8.ofNat (s.c - 1)), out := d }, ?_, ?_, rfl⟩
    · simp [CompressState.flush, hc]
    · rw [List.foldlM_cons, decompressByte_count h hc hd]
      rfl

/-- What the encoder accepts, the decoder rebuilds. -/
theorem decompress_compress {data : List UInt8} (hd : data.length ≤ 512)
    (hn : 0 < (compress data).1) :
    (compress data).1 = (compress data).2.length ∧ (compress data).2.length < 512 ∧
      decompress (compress data).2 = (data.length, data) := by
  unfold compress at hn ⊢
  cases hrun : data.foldlM compressByte { c := 0, out := [] } with
  | error out => simp [hrun] at hn
  | ok s =>
    simp only [hrun] at hn ⊢
    have hlt : ¬ 512 ≤ s.flush.length := by
      intro hle
      simp [hle] at hn
    have hstart : InStep [] { c := 0, out := [] } { prev2 := none, prev1 := none, out := [] } := by
      constructor <;> simp
    obtain ⟨w₁, t₁, hout₁, hdec₁, h₁⟩ := foldlM_inStep data hstart (by simpa using hd) hrun
    obtain ⟨w₂, t₂, hout₂, hdec₂, h₂⟩ := flush_inStep h₁ (by simpa using hd)
    have hdec : s.flush.foldlM decompressByte { prev2 := none, prev1 := none, out := [] } = .ok t₂ := by
      rw [hout₂, hout₁, List.nil_append, List.foldlM_append, hdec₁]
      exact hdec₂
    refine ⟨by simp [hlt], by omega, ?_⟩
    simp only [decompress, hdec, h₂, List.nil_append]

/-- The codec carries a sector across the link in either direction: what one side's
`LPTCompress` leaves in its output buffer, whatever was there before, the other side's
`LPTDecompress` turns back into the sector, whatever its own output buffer held. -/
theorem lptCompress_roundTrip (d : Sector) :
    (∀ n o, Dos.lptCompress d = (n, o) → 0 < n →
      1 ≤ n ∧ n ≤ 511 ∧ ∀ (cbuf : List UInt8) (buff : Sector), cbuf.length = 1024 →
        (Pico.lptDecompress ((storeBytes cbuf o).take n)).1 = 512 ∧
        buff.overwrite (Pico.lptDecompress ((storeBytes cbuf o).take n)).2 = d) ∧
    (∀ n o, Pico.lptCompress d = (n, o) → 0 < n →
      1 ≤ n ∧ n ≤ 511 ∧ ∀ (cbuf : List UInt8) (buff : Sector), cbuf.length = 512 →
        (Dos.lptDecompress ((storeBytes cbuf o).take n)).1 = 512 ∧
        buff.overwrite (Dos.lptDecompress ((storeBytes cbuf o).take n)).2 = d) := by
  have key : ∀ n o, compress d.bytes = (n, o) → 0 < n →
      1 ≤ n ∧ n ≤ 511 ∧ ∀ (cbuf : List UInt8) (buff : Sector), 512 ≤ cbuf.length →
        (decompress ((storeBytes cbuf o).take n)).1 = 512 ∧
        buff.overwrite (decompress ((storeBytes cbuf o).take n)).2 = d := by
    intro n o hrun hn
    have hdec := decompress_compress (show d.bytes.length ≤ 512 by simp) (by rw [hrun]; exact hn)
    rw [hrun] at hdec
    dsimp only at hdec
    obtain ⟨rfl, hlt, hdec⟩ := hdec
    refine ⟨hn, by omega, ?_⟩
    intro cbuf buff hcbuf
    rw [take_storeBytes (by omega), hdec]
    exact ⟨d.length_bytes, buff.overwrite_full d⟩
  refine ⟨fun n o hrun hn => ?_, fun n o hrun hn => ?_⟩
  · obtain ⟨h1, h2, h3⟩ := key n o hrun hn
    exact ⟨h1, h2, fun cbuf buff hcbuf => h3 cbuf buff (by omega)⟩
  · obtain ⟨h1, h2, h3⟩ := key n o hrun hn
    exact ⟨h1, h2, fun cbuf buff hcbuf => h3 cbuf buff (by omega)⟩

/-- An all-zero sector travels as two full runs. -/
theorem lptCompress_roundTrip_zero :
    Pico.lptCompress .zero = (4, [0x00, 0xff, 0x00, 0xff]) ∧
      (Dos.lptDecompress ((storeBytes Sector.zero.bytes [0x00, 0xff, 0x00, 0xff]).take 4)).1 = 512 := by
  have hrun : Pico.lptCompress .zero = (4, [0x00, 0xff, 0x00, 0xff]) := by decide +kernel
  obtain ⟨-, -, h⟩ := (lptCompress_roundTrip .zero).2 4 _ hrun (by decide)
  exact ⟨hrun, (h _ .zero Sector.zero.length_bytes).1⟩

end LptStore.Codec
