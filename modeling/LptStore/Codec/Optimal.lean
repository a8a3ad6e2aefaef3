import LptStore.Codec.Bounds
import LptStore.Codec.Tokens

/-!
# Nothing shorter unpacks to the same sector

Whatever `LPTDecompress` accepts contains a list of tokens for what it stores: the count of a run and
the marker before it belong to that run alone, and so does the byte of a literal. A list of tokens needs
a byte for every byte that is not zero and two for every 256 zeros or less of a run, and that is what
`LPTCompress` spends.
-/

namespace LptStore.Codec

section Sizes

variable {data d e : List UInt8} {i n k : Nat} {b : UInt8}

theorem getD_append_left (hi : i < d.length) : (d ++ e).getD i 0 = d.getD i 0 := by
  rw [List.getD_eq_getElem?_getD, List.getD_eq_getElem?_getD, List.getElem?_append_left hi]

/-- The packed size of a prefix does not depend on what follows. -/
theorem packedSize_append (hn : n ≤ d.length) :
    zerosBefore (d ++ e) n = zerosBefore d n ∧ packedSize (d ++ e) n = packedSize d n := by
  induction n with
  | zero => exact ⟨rfl, rfl⟩
  | succ n ih =>
    rcases ih (Nat.le_of_succ_le hn) with ⟨hzeros, hsize⟩
    have hget : (d ++ e).getD n 0 = d.getD n 0 := getD_append_left hn
    constructor
    · rw [zerosBefore, zerosBefore, hget, hzeros]
    · rw [packedSize, packedSize, packedAt, packedAt, hget, hzeros, hsize]

/-- Zeros from position `i` on: each 256th opens a run. -/
theorem packedSize_zeros (hzero : ∀ j < k, data.getD (i + j) 0 = 0x00) :
    zerosBefore data (i + k) = zerosBefore data i + k ∧
      packedSize data (i + k) = packedSize data i +
        2 * ((zerosBefore data i + k + 255) / 256 - (zerosBefore data i + 255) / 256) := by
  induction k with
  | zero => exact ⟨rfl, by simp⟩
  | succ k ih =>
    rcases ih fun j hj => hzero j (Nat.lt_succ_of_lt hj) with ⟨hzeros, hsize⟩
    have hk := hzero k (Nat.lt_succ_self k)
    rw [← Nat.add_assoc]
    constructor
    · rw [zerosBefore, if_pos hk, hzeros, Nat.add_assoc]
    · rw [packedSize, packedAt, if_neg (not_not_intro hk), hzeros, hsize]
      split_ifs with hopen <;> omega

/-- A token adds no more than its bytes to the packed size. -/
theorem packedSize_token (d : List UInt8) (t : Token) :
    packedSize (d ++ t.expansion) (d.length + t.expansion.length) ≤
      packedSize d d.length + t.bytes.length := by
  have hbefore := (packedSize_append (e := t.expansion) (Nat.le_refl d.length)).2
  cases t with
  | literal b hb =>
    have hget : (d ++ [b]).getD d.length 0 = b := by simp
    show packedSize (d ++ [b]) (d.length + 1) ≤ packedSize d d.length + 1
    rw [packedSize, packedAt, hget, if_pos hb]
    exact Nat.add_le_add_right (Nat.le_of_eq hbefore) 1
  | run n =>
    have hlen : (Token.run n).expansion.length = n.toNat + 1 := List.length_replicate
    have hzero : ∀ j < n.toNat + 1,
        (d ++ (Token.run n).expansion).getD (d.length + j) 0 = 0x00 := by
      intro j hj
      have hget : (List.replicate (n.toNat + 1) (0x00 : UInt8))[j]? = some 0x00 := by simp [hj]
      rw [List.getD_eq_getElem?_getD, List.getElem?_append_right (Nat.le_add_right _ _),
        Nat.add_sub_cancel_left]
      exact congrArg (Option.getD · 0) hget
    have hn := n.toNat_lt
    rw [hlen, (packedSize_zeros hzero).2, hbefore]
    show _ ≤ packedSize d d.length + 2
    omega

theorem packedSize_expanded_le (ts : List Token) :
    packedSize (expanded ts) (expanded ts).length ≤ (packed ts).length := by
  induction ts using List.reverseRecOn with
  | nil => exact Nat.le_refl 0
  | append_singleton ts t ih =>
    have hexpanded : expanded (ts ++ [t]) = expanded ts ++ t.expansion := by simp [expanded]
    have hpacked : packed (ts ++ [t]) = packed ts ++ t.bytes := by simp [packed]
    have htoken := packedSize_token (expanded ts) t
    rw [hexpanded, hpacked, List.length_append, List.length_append]
    omega

end Sizes

section Encoder

variable {data : List UInt8} {i j : Nat} {s : CompressState}

theorem packedSize_mono (data : List UInt8) (h : i ≤ j) : packedSize data i ≤ packedSize data j := by
  induction h with
  | refl => exact Nat.le_refl _
  | step _ ih => exact Nat.le_trans ih (Nat.le_add_right _ _)

/-- The loop from position `i` on ends with everything packed, or early where that has 512 bytes. -/
theorem Packing.loop (h : Packing data i s) (hi : i ≤ data.length) :
    (∃ s', (data.drop i).foldlM compressByte s = .ok s' ∧ Packing data data.length s') ∨
      ((∃ out, (data.drop i).foldlM compressByte s = .error out) ∧
        512 ≤ packedSize data data.length) := by
  induction hn : data.length - i generalizing i s with
  | zero =>
    have hend : i = data.length := by omega
    subst hend
    exact .inl ⟨s, by rw [List.drop_length]; rfl, h⟩
  | succ n ih =>
    have hlt : i < data.length := by omega
    have hget : data[i] = data.getD i 0 := by simp [hlt]
    rw [List.drop_eq_getElem_cons hlt, List.foldlM_cons, hget, compressByte]
    split_ifs with hfull
    · have hsize := h.push.size
      have hmono := packedSize_mono data (show i + 1 ≤ data.length from hlt)
      exact .inr ⟨⟨_, rfl⟩, by omega⟩
    · exact ih h.push (by omega) (by omega)

/-- `LPTCompress` returns the packed size, or 0 where that is not below 512. -/
theorem compress_return (data : List UInt8) :
    (compress data).1 =
      if 512 ≤ packedSize data data.length then 0 else packedSize data data.length := by
  have hstart : Packing data 0 { c := 0, out := [] } := by constructor <;> rfl
  unfold compress
  rcases hstart.loop (Nat.zero_le _) with ⟨s, hrun, hs⟩ | ⟨⟨out, hrun⟩, hfull⟩
  · have hflush : s.flush.length = packedSize data data.length := by
      rw [← hs.size, CompressState.flush]
      by_cases hc : s.c = 0 <;> simp [hc]
    rw [List.drop_zero] at hrun
    simp only [hrun, hflush]
  · rw [List.drop_zero] at hrun
    simp only [hrun, if_pos hfull]

end Encoder

section Decoder

variable {data : List UInt8} {i : Nat} {s s' : DecompressState} {b : UInt8}

/-- After `i` bytes the decoder has stored what some tokens of no more bytes stand for; a marker whose
count is still to come belongs to none of them. -/
structure Tokenized (i : Nat) (s : DecompressState) (ts : List Token) : Prop where
  stored : expanded ts = s.out
  size : (packed ts).length ≤ i
  marked : s.Marked → (packed ts).length + 1 ≤ i

theorem Tokenized.append {ts : List Token} (h : Tokenized i s ts) (t : Token)
    (hsize : (packed ts).length + t.bytes.length ≤ i + 1) (hmarked : ¬ s'.Marked)
    (hout : s'.out = s.out ++ t.expansion) : Tokenized (i + 1) s' (ts ++ [t]) := by
  have hpacked : (packed (ts ++ [t])).length = (packed ts).length + t.bytes.length := by
    simp [packed]
  refine ⟨?_, by omega, fun hm => absurd hm hmarked⟩
  rw [hout, ← h.stored]
  simp [expanded]

theorem Tokenized.step {ts : List Token} (h : Tokenized i s ts)
    (hstep : decompressByte s b = .ok s') : ∃ ts', Tokenized (i + 1) s' ts' := by
  unfold decompressByte at hstep
  split at hstep
  · next hcount =>
    simp only at hstep
    split at hstep
    · cases hstep
    · -- the count and its marker
      cases hstep
      have hsize : (packed ts).length + 2 ≤ i + 1 := Nat.succ_le_succ (h.marked hcount)
      refine ⟨_, h.append (.run b) hsize ?_ rfl⟩
      intro hm
      exact hm.2 hcount.1
  · split at hstep
    · next hb =>
      cases hstep
      refine ⟨_, h.append (.literal b hb) (Nat.succ_le_succ h.size) ?_ rfl⟩
      intro hm
      exact hb (Option.some.inj hm.1)
    · cases hstep
      exact ⟨ts, h.stored, Nat.le_succ_of_le h.size, fun _ => Nat.succ_le_succ h.size⟩

theorem Tokenized.loop {ts : List Token} (h : Tokenized i s ts)
    (hrun : data.foldlM decompressByte s = .ok s') : ∃ ts', Tokenized (i + data.length) s' ts' := by
  induction data generalizing i s ts with
  | nil =>
    cases hrun
    exact ⟨ts, h⟩
  | cons b data ih =>
    rw [List.foldlM_cons] at hrun
    cases hbyte : decompressByte s b with
    | error out =>
      rw [hbyte] at hrun
      cases hrun
    | ok s₁ =>
      rw [hbyte] at hrun
      rcases h.step hbyte with ⟨ts₁, h₁⟩
      have hcount : i + (b :: data).length = i + 1 + data.length := by
        rw [List.length_cons]
        omega
      rw [hcount]
      exact ih h₁ hrun

/-- A block that unpacks to something contains tokens for it. -/
theorem decompress_tokenized (hn : 0 < (decompress data).1) :
    ∃ ts, expanded ts = (decompress data).2 ∧ (packed ts).length ≤ data.length := by
  unfold decompress at hn ⊢
  cases hrun : data.foldlM decompressByte { prev2 := none, prev1 := none, out := [] } with
  | error out =>
    rw [hrun] at hn
    exact absurd hn (Nat.lt_irrefl 0)
  | ok s =>
    have hstart : Tokenized 0 { prev2 := none, prev1 := none, out := [] } [] :=
      ⟨rfl, Nat.le_refl 0, fun hm => nomatch hm.1⟩
    rcases hstart.loop hrun with ⟨ts, hts⟩
    rw [Nat.zero_add] at hts
    exact ⟨ts, hts.stored, hts.size⟩

end Decoder

/-- No block shorter than what `LPTCompress` makes of a sector unpacks to that sector, and where it gives
up no block of fewer than 512 bytes does. -/
theorem lptCompress_optimal (d : Sector) (data : List UInt8)
    (h : Pico.lptDecompress data = (512, d.bytes)) :
    (0 < (Pico.lptCompress d).1 → (Pico.lptCompress d).1 ≤ data.length) ∧
      ((Pico.lptCompress d).1 = 0 → 512 ≤ data.length) := by
  have hdata : decompress data = (512, d.bytes) := h
  have hpos : 0 < (decompress data).1 := by
    rw [hdata]
    exact Nat.zero_lt_succ 511
  rcases decompress_tokenized hpos with ⟨ts, hstored, hsize⟩
  have hexpanded : expanded ts = d.bytes := hstored.trans (congrArg Prod.snd hdata)
  have hleast : packedSize d.bytes d.bytes.length ≤ data.length := by
    rw [← hexpanded]
    exact Nat.le_trans (packedSize_expanded_le ts) hsize
  have hreturn : (Pico.lptCompress d).1 = _ := compress_return d.bytes
  have hnonempty : 0 < packedSize d.bytes d.bytes.length := by
    have hfirst : packedSize d.bytes 1 ≤ packedSize d.bytes d.bytes.length :=
      packedSize_mono d.bytes (by rw [d.length_bytes]; decide)
    refine Nat.lt_of_lt_of_le ?_ hfirst
    show 0 < 0 + packedAt d.bytes 0
    unfold packedAt
    split_ifs with hzero hopen
    · decide
    · decide
    · exact absurd rfl hopen
  rw [hreturn]
  split_ifs with hfull
  · exact ⟨fun hlt => absurd hlt (Nat.lt_irrefl 0), fun _ => Nat.le_trans hfull hleast⟩
  · exact ⟨fun _ => hleast, fun hzero => absurd hzero (Nat.ne_of_gt hnonempty)⟩

/-- A sector of zeros takes four bytes. -/
theorem lptCompress_optimal_zero :
    (Pico.lptCompress .zero).1 ≤ [(0x00 : UInt8), 0xff, 0x00, 0xff].length := by
  have hpacks : (Pico.lptCompress .zero).1 = 4 := by decide +kernel
  have hunpacks : Pico.lptDecompress [0x00, 0xff, 0x00, 0xff] = (512, Sector.zero.bytes) := by
    decide +kernel
  refine (lptCompress_optimal .zero _ hunpacks).1 ?_
  rw [hpacks]
  decide

end LptStore.Codec
