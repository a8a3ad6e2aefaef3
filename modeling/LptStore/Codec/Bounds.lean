import LptStore.Codec.RunLength

/-!
# How far the codec writes

Both functions store through `out[r++]`, and both test `r` against 512 on some of their branches
only. What a block asks for is a sum over its positions: a literal is one byte, and a run is its
marker and count in the packed form, as many zeros as it counts in the unpacked form. The stores
stay inside 512 bytes exactly where that sum does not meet 512 at a branch without a test.
-/

namespace LptStore.Comp

/-- `LPTCompress` of `fs/comp.c:6-35`. -/
def lptCompress (data : Sector) : Nat × List UInt8 := Codec.compress data.bytes

end LptStore.Comp

namespace LptStore.Codec

section Compress

/-- The zero bytes directly before position `i`. -/
def zerosBefore (data : List UInt8) : Nat → Nat
  | 0 => 0
  | i + 1 => if data.getD i 0 = 0x00 then zerosBefore data i + 1 else 0

/-- What position `i` adds to the packed form: a literal, or a marker and the count that will close
its run of at most 256 zeros. -/
def packedAt (data : List UInt8) (i : Nat) : Nat :=
  if data.getD i 0 ≠ 0x00 then 1 else if zerosBefore data i % 256 = 0 then 2 else 0

/-- The packed form of the first `n` bytes, the last run closed. -/
def packedSize (data : List UInt8) : Nat → Nat
  | 0 => 0
  | n + 1 => packedSize data n + packedAt data n

/-- `LPTCompress` after `i` bytes: an open run has its marker stored and its count not yet. -/
structure Packing (data : List UInt8) (i : Nat) (s : CompressState) : Prop where
  run : s.c = zerosBefore data i % 256
  size : s.out.length + (if s.c = 0 then 0 else 1) = packedSize data i

theorem Packing.push {data : List UInt8} {i : Nat} {s : CompressState} (h : Packing data i s) :
    Packing data (i + 1) (s.push (data.getD i 0)) := by
  have hrun := h.run
  have hsize := h.size
  by_cases hb : data.getD i 0 = 0x00
  · have hzeros : zerosBefore data (i + 1) = zerosBefore data i + 1 := by
      rw [zerosBefore, if_pos hb]
    have hpacked : packedAt data i = if s.c = 0 then 2 else 0 := by
      rw [packedAt, if_neg (not_not_intro hb), hrun]
    rcases Nat.eq_zero_or_pos s.c with hc | hc
    · -- a run opens
      constructor
      · simp only [CompressState.push, hb, hc, if_true, hzeros]
        omega
      · simp only [CompressState.push, hb, hc, if_true, packedSize, hpacked, ← hsize]
        simp
    · have hne : s.c ≠ 0 := by omega
      by_cases hfull : s.c = 255
      · -- the 256th zero closes it
        constructor
        · simp only [CompressState.push, hb, hfull, if_true, hzeros]
          rw [hfull] at hrun
          simp
          omega
        · simp only [CompressState.push, hb, hfull, if_true, packedSize, hpacked, ← hsize]
          simp
      · constructor
        · simp only [CompressState.push, hb, hne, hfull, if_true, if_false, hzeros]
          omega
        · simp only [CompressState.push, hb, hne, hfull, if_true, if_false, packedSize, hpacked,
            ← hsize]
          simp
  · have hpacked : packedAt data i = 1 := by rw [packedAt, if_pos hb]
    constructor
    · rw [CompressState.push, if_neg hb, zerosBefore, if_neg hb]
    · simp only [CompressState.push, CompressState.flush, hb, if_false, packedSize, hpacked, ← hsize]
      by_cases hc : s.c = 0 <;> simp [hc]

theorem length_push_mono (s : CompressState) (b : UInt8) : s.out.length ≤ (s.push b).out.length := by
  unfold CompressState.push CompressState.flush
  split_ifs <;> simp

theorem Packing.later {data : List UInt8} {i j : Nat} {s : CompressState} (h : Packing data i s)
    (hij : i ≤ j) : ∃ s', Packing data j s' ∧ s.out.length ≤ s'.out.length := by
  induction hij with
  | refl => exact ⟨s, h, Nat.le_refl _⟩
  | step _ ih =>
    rcases ih with ⟨s', h', hle⟩
    exact ⟨_, h'.push, Nat.le_trans hle (length_push_mono s' _)⟩

/-- The branch that goes wrong: a non-zero byte closes a run that already fills the buffer. -/
def closesFull (data : List UInt8) (i : Nat) : Prop :=
  data.getD i 0 ≠ 0x00 ∧ zerosBefore data i % 256 ≠ 0 ∧ packedSize data i = 512

instance (data : List UInt8) (i : Nat) : Decidable (closesFull data i) :=
  inferInstanceAs (Decidable (_ ∧ _))

/-- One pass of the loop, and the length it leaves. -/
theorem Packing.length_push {data : List UInt8} {i : Nat} {s : CompressState}
    (h : Packing data i s) (hs : s.out.length < 512) :
    (s.push (data.getD i 0)).out.length ≤ 513 ∧
      ((s.push (data.getD i 0)).out.length = 513 ↔ closesFull data i) := by
  have hsize := h.size
  unfold closesFull
  rw [← h.run, ← hsize]
  unfold CompressState.push CompressState.flush
  split_ifs <;> simp_all <;> omega

/-- The bytes stored when the loop ends so. -/
def stored : Except (List UInt8) CompressState → List UInt8
  | .error out => out
  | .ok s => s.flush

theorem compress_stored (data : List UInt8) :
    (compress data).2 = stored (data.foldlM compressByte { c := 0, out := [] }) := by
  unfold compress stored
  cases data.foldlM compressByte { c := 0, out := [] } <;> rfl

theorem Packing.not_closesFull {data : List UInt8} {i j : Nat} {s : CompressState}
    (h : Packing data i s) (hij : i ≤ j) (hs : 512 ≤ s.out.length) : ¬ closesFull data j := by
  rintro ⟨-, hopen, hsize⟩
  rcases h.later hij with ⟨s', h', hle⟩
  have hsize' := h'.size
  rw [h'.run, if_neg hopen] at hsize'
  omega

theorem length_flush_le (s : CompressState) : s.flush.length ≤ s.out.length + 1 := by
  unfold CompressState.flush
  split_ifs <;> simp

/-- The loop from position `i` on, with room left before it: the stores pass the end of the buffer
exactly when a position from `i` on closes a full buffer. -/
theorem Packing.stored_le {data : List UInt8} {i : Nat} {s : CompressState} (h : Packing data i s)
    (hi : i ≤ data.length) (hs : s.out.length < 512) :
    (stored ((data.drop i).foldlM compressByte s)).length ≤ 512 ↔
      ∀ j, i ≤ j → j < data.length → ¬ closesFull data j := by
  induction hn : data.length - i generalizing i s with
  | zero =>
    have hend : data.drop i = [] := List.drop_eq_nil_of_le (by omega)
    have hflush : s.flush.length ≤ 512 := Nat.le_trans (length_flush_le s) hs
    rw [hend]
    exact iff_of_true hflush fun j hij hj => absurd hj (by omega)
  | succ n ih =>
    have hlt : i < data.length := by omega
    have hget : data[i] = data.getD i 0 := by simp [hlt]
    rcases h.length_push hs with ⟨hle, hfull⟩
    rw [List.drop_eq_getElem_cons hlt, List.foldlM_cons, hget, compressByte]
    split_ifs with hroom
    · -- the loop stops here, and no later position finds the buffer less full
      show (s.push (data.getD i 0)).out.length ≤ 512 ↔ _
      constructor
      · intro hfit j hij hj
        rcases Nat.eq_or_lt_of_le hij with rfl | hlater
        · intro hcloses
          have := hfull.mpr hcloses
          omega
        · exact h.push.not_closesFull hlater hroom
      · intro hnone
        have hne := mt hfull.mp (hnone i (Nat.le_refl i) hlt)
        omega
    · have hlast : ¬ closesFull data i := by
        intro hcloses
        have := hfull.mpr hcloses
        omega
      refine (ih h.push (by omega) (by omega) (by omega)).trans ?_
      constructor
      · intro hnone j hij hj
        rcases Nat.eq_or_lt_of_le hij with rfl | hlater
        · exact hlast
        · exact hnone j hlater hj
      · intro hnone j hij hj
        exact hnone j (by omega) hj

/-- The firmware's loop over a sector. -/
theorem length_compress_le_iff (d : Sector) :
    (compress d.bytes).2.length ≤ 512 ↔ ∀ i, i < 512 → ¬ closesFull d.bytes i := by
  have hstart : Packing d.bytes 0 { c := 0, out := [] } := by constructor <;> rfl
  have hstored := hstart.stored_le (Nat.zero_le _) (by decide)
  rw [List.drop_zero, d.length_bytes] at hstored
  rw [compress_stored, hstored]
  exact ⟨fun h i => h i (Nat.zero_le i), fun h i _ => h i⟩

/-- `LPTCompress` stays inside an output buffer of 512 bytes exactly on the sectors in which no
non-zero byte closes a zero run that fills the buffer to its last byte. -/
theorem lptCompress_inBounds_iff (d : Sector) :
    ((∀ i, i < (Pico.lptCompress d).2.length → i < 512) ↔
      ∀ i, i < 512 → ¬ closesFull d.bytes i) ∧
    ((∀ i, i < (Comp.lptCompress d).2.length → i < 512) ↔
      ∀ i, i < 512 → ¬ closesFull d.bytes i) := by
  have key : (∀ i, i < (compress d.bytes).2.length → i < 512) ↔
      ∀ i, i < 512 → ¬ closesFull d.bytes i := by
    rw [← length_compress_le_iff]
    constructor
    · intro hin
      by_contra hle
      exact absurd (hin 512 (by omega)) (Nat.lt_irrefl 512)
    · intro hle i hi
      omega
  exact ⟨key, key⟩

/-- Zeros and ones in turn. -/
def alternating : Sector := .ofFn fun i => UInt8.ofNat (i % 2)

theorem alternating_even {k : Nat} (h : 2 * k < 512) : alternating.bytes.getD (2 * k) 0 = 0x00 := by
  have hget : alternating.get (2 * k) = UInt8.ofNat (2 * k % 2) := Sector.get_ofFn _ h
  rwa [Nat.mul_mod_right] at hget

theorem alternating_odd {k : Nat} (h : 2 * k + 1 < 512) :
    alternating.bytes.getD (2 * k + 1) 0 ≠ 0x00 := by
  have hget : alternating.get (2 * k + 1) = UInt8.ofNat ((2 * k + 1) % 2) := Sector.get_ofFn _ h
  have hodd : (2 * k + 1) % 2 = 1 := by omega
  rw [hodd] at hget
  show alternating.get (2 * k + 1) ≠ 0
  rw [hget]
  decide

theorem alternating_opens {k : Nat} (h : 2 * k < 512)
    (hzeros : zerosBefore alternating.bytes (2 * k) = 0) :
    packedAt alternating.bytes (2 * k) = 2 := by
  rw [packedAt, if_neg (not_not_intro (alternating_even h)), hzeros, if_pos rfl]

/-- Each zero opens a run of its own: a pair packs to marker, count and literal. -/
theorem alternating_packed {k : Nat} (h : 2 * k ≤ 512) :
    zerosBefore alternating.bytes (2 * k) = 0 ∧ packedSize alternating.bytes (2 * k) = 3 * k := by
  induction k with
  | zero => exact ⟨rfl, rfl⟩
  | succ k ih =>
    rcases ih (by omega) with ⟨hzeros, hpacked⟩
    have hrun := alternating_opens (by omega) hzeros
    have hodd := alternating_odd (k := k) (by omega)
    have hliteral : packedAt alternating.bytes (2 * k + 1) = 1 := by rw [packedAt, if_pos hodd]
    show zerosBefore _ (2 * k + 1 + 1) = 0 ∧ packedSize _ (2 * k + 1 + 1) = 3 * (k + 1)
    constructor
    · rw [zerosBefore, if_neg hodd]
    · rw [packedSize, packedSize, hpacked, hrun, hliteral]
      omega

/-- The 171st run closes at byte 341 and stores indices 511 and 512. -/
theorem alternating_closesFull : closesFull alternating.bytes 341 := by
  rcases alternating_packed (k := 170) (by omega) with ⟨hzeros, hpacked⟩
  refine ⟨alternating_odd (k := 170) (by omega), ?_, ?_⟩
  · rw [zerosBefore, if_pos (alternating_even (k := 170) (by omega)), hzeros]
    decide
  · rw [packedSize, hpacked, alternating_opens (k := 170) (by omega) hzeros]

/-- Of zeros and ones in turn the last store is behind the buffer. -/
theorem lptCompress_overflows :
    ¬ ∀ (d : Sector) (i : Nat), i < (Pico.lptCompress d).2.length → i < 512 := by
  intro h
  have hle : (compress alternating.bytes).2.length ≤ 512 := by
    by_contra hgt
    exact absurd (h alternating 512 (Nat.lt_of_not_le hgt)) (Nat.lt_irrefl 512)
  exact (length_compress_le_iff _).mp hle 341 (by decide) alternating_closesFull

end Compress

section Decompress

/-- The test of `LPTDecompress` for the count of a run: the byte before is zero, and not the one
before that. -/
def isCount (data : List UInt8) (i : Nat) : Prop :=
  0 < i ∧ data.getD (i - 1) 0 = 0x00 ∧ ¬ (1 < i ∧ data.getD (i - 2) 0 = 0x00)

instance (data : List UInt8) (i : Nat) : Decidable (isCount data i) :=
  inferInstanceAs (Decidable (_ ∧ _))

/-- What byte `i` of a compressed block asks for: the zeros of a run, or itself. -/
def unpackedAt (data : List UInt8) (i : Nat) : Nat :=
  if isCount data i then (data.getD i 0).toNat + 1 else if data.getD i 0 ≠ 0x00 then 1 else 0

/-- What the first `n` bytes ask for. -/
def unpackedSize (data : List UInt8) : Nat → Nat
  | 0 => 0
  | n + 1 => unpackedSize data n + unpackedAt data n

/-- `LPTDecompress` after `i` bytes. -/
structure Unpacking (data : List UInt8) (i : Nat) (s : DecompressState) : Prop where
  prev1 : s.prev1 = if 0 < i then some (data.getD (i - 1) 0) else none
  prev2 : s.prev2 = if 1 < i then some (data.getD (i - 2) 0) else none
  size : s.out.length = unpackedSize data i

theorem unpackedSize_mono (data : List UInt8) {n m : Nat} (h : n ≤ m) :
    unpackedSize data n ≤ unpackedSize data m := by
  induction h with
  | refl => exact Nat.le_refl _
  | step _ ih => exact Nat.le_trans ih (Nat.le_add_right _ _)

theorem Unpacking.count_iff {data : List UInt8} {i : Nat} {s : DecompressState}
    (h : Unpacking data i s) :
    (s.prev1 = some 0x00 ∧ ¬ s.prev2 = some 0x00) ↔ isCount data i := by
  rw [h.prev1, h.prev2, isCount]
  by_cases h0 : 0 < i <;> by_cases h1 : 1 < i <;> simp [h0, h1]

/-- The state after one more byte, `w` being what it made the loop store. -/
theorem Unpacking.next {data : List UInt8} {i : Nat} {s : DecompressState} (h : Unpacking data i s)
    {w : List UInt8} (hw : w.length = unpackedAt data i) :
    Unpacking data (i + 1)
      { prev2 := s.prev1, prev1 := some (data.getD i 0), out := s.out ++ w } := by
  constructor
  · rw [if_pos (Nat.succ_pos i), Nat.add_sub_cancel]
  · simp only [h.prev1, Nat.lt_add_left_iff_pos, show i + 1 - 2 = i - 1 by omega]
  · rw [List.length_append, h.size, hw, unpackedSize]

/-- One pass of the loop: a run that does not fit ends it, everything else is stored. -/
theorem Unpacking.step {data : List UInt8} {i : Nat} {s : DecompressState} (h : Unpacking data i s) :
    if isCount data i ∧ 512 < unpackedSize data (i + 1) then
      decompressByte s (data.getD i 0) = .error s.out
    else ∃ s', decompressByte s (data.getD i 0) = .ok s' ∧ Unpacking data (i + 1) s' := by
  have hsize := h.size
  by_cases hcount : isCount data i
  · have hat : unpackedAt data i = (data.getD i 0).toNat + 1 := if_pos hcount
    simp only [decompressByte, if_pos (h.count_iff.mpr hcount), unpackedSize, hat, ← hsize]
    by_cases hfull : s.out.length + ((data.getD i 0).toNat + 1) > 512
    · rw [if_pos ⟨hcount, hfull⟩, if_pos hfull]
    · rw [if_neg (fun h => hfull h.2), if_neg hfull]
      exact ⟨_, rfl, h.next (by rw [List.length_replicate, hat])⟩
  · rw [if_neg (fun hc => hcount hc.1), decompressByte, if_neg (mt h.count_iff.mp hcount)]
    by_cases hb : data.getD i 0 = 0x00
    · have hat : unpackedAt data i = 0 := by
        rw [unpackedAt, if_neg hcount, if_neg (not_not_intro hb)]
      rw [if_neg (not_not_intro hb)]
      refine ⟨_, rfl, ?_⟩
      simpa using h.next (w := []) hat.symm
    · have hat : unpackedAt data i = 1 := by rw [unpackedAt, if_neg hcount, if_pos hb]
      rw [if_pos hb]
      exact ⟨_, rfl, h.next (by rw [hat]; rfl)⟩

/-- The branch that goes wrong: a literal comes when the sector is full. -/
def literalAfterFull (data : List UInt8) (i : Nat) : Prop :=
  ¬ isCount data i ∧ data.getD i 0 ≠ 0x00 ∧ unpackedSize data i = 512

/-- What `LPTDecompress` returns and stores when its loop ends so. -/
def unpacked : Except (List UInt8) DecompressState → Nat × List UInt8
  | .error out => (0, out)
  | .ok s => (s.out.length, s.out)

theorem decompress_unpacked (data : List UInt8) :
    decompress data =
      unpacked (data.foldlM decompressByte { prev2 := none, prev1 := none, out := [] }) := by
  unfold decompress unpacked
  cases data.foldlM decompressByte { prev2 := none, prev1 := none, out := [] } <;> rfl

/-- The runs counted at positions from `i` up to `n` fit in a sector. -/
def RunsFit (data : List UInt8) (i n : Nat) : Prop :=
  ∀ j, i ≤ j → j < n → isCount data j → unpackedSize data (j + 1) ≤ 512

/-- How the loop ends from position `i` on: with everything stored, or at a run that does not fit. -/
theorem Unpacking.loop {data : List UInt8} {i : Nat} {s : DecompressState} (h : Unpacking data i s)
    (hi : i ≤ data.length) :
    (∃ s', (data.drop i).foldlM decompressByte s = .ok s' ∧ Unpacking data data.length s' ∧
        RunsFit data i data.length) ∨
      ∃ j out, (data.drop i).foldlM decompressByte s = .error out ∧ j < data.length ∧
        out.length = unpackedSize data j ∧ isCount data j ∧ 512 < unpackedSize data (j + 1) ∧
        RunsFit data i j := by
  induction hn : data.length - i generalizing i s with
  | zero =>
    have hend : i = data.length := by omega
    subst hend
    refine .inl ⟨s, by rw [List.drop_length]; rfl, h, fun j hij hj => absurd hj (by omega)⟩
  | succ n ih =>
    have hlt : i < data.length := by omega
    have hget : data[i] = data.getD i 0 := by simp [hlt]
    have hstep := h.step
    rw [List.drop_eq_getElem_cons hlt, List.foldlM_cons, hget]
    split_ifs at hstep with hfull
    · refine .inr ⟨i, s.out, by rw [hstep]; rfl, hlt, h.size, hfull.1, hfull.2, ?_⟩
      exact fun j hij hj => absurd hj (by omega)
    · rcases hstep with ⟨s₁, hs₁, h₁⟩
      have hfit : ∀ m, RunsFit data (i + 1) m → RunsFit data i m := by
        intro m hm j hij hj hcount
        rcases Nat.eq_or_lt_of_le hij with rfl | hlater
        · by_contra hle
          exact hfull ⟨hcount, by omega⟩
        · exact hm j hlater hj hcount
      rw [hs₁]
      rcases ih h₁ hlt (by omega) with ⟨s', hrun, h', hruns⟩ | ⟨j, out, hrun, hj, hout, hc, hover, hruns⟩
      · exact .inl ⟨s', hrun, h', hfit _ hruns⟩
      · exact .inr ⟨j, out, hrun, hj, hout, hc, hover, hfit _ hruns⟩

/-- As long as the runs fit and no literal comes to a full sector, a sector is not exceeded. -/
theorem unpackedSize_le {data : List UInt8} {n : Nat} (hruns : RunsFit data 0 n)
    (hnone : ∀ j, j < n → ¬ literalAfterFull data j) : unpackedSize data n ≤ 512 := by
  induction n with
  | zero => exact Nat.zero_le _
  | succ n ih =>
    have hle := ih (fun j h0 hj => hruns j h0 (by omega)) (fun j hj => hnone j (by omega))
    by_cases hcount : isCount data n
    · exact hruns n (Nat.zero_le n) (Nat.lt_succ_self n) hcount
    · have hlast := hnone n (Nat.lt_succ_self n)
      rw [unpackedSize, unpackedAt, if_neg hcount]
      by_cases hb : data.getD n 0 = 0x00
      · rwa [if_neg (not_not_intro hb)]
      · have hne : unpackedSize data n ≠ 512 := fun heq => hlast ⟨hcount, hb, heq⟩
        rw [if_pos hb]
        omega

theorem literalAfterFull.next {data : List UInt8} {i : Nat} (h : literalAfterFull data i) :
    unpackedSize data (i + 1) = 513 := by
  rw [unpackedSize, unpackedAt, if_neg h.1, if_pos h.2.1, h.2.2]

/-- What `LPTDecompress` does with a block: it stores all of it and returns its size, or it stops at
the first run that does not fit, with the bytes before that run stored. -/
theorem decompress_cases (data : List UInt8) :
    ((decompress data).1 = unpackedSize data data.length ∧
        (decompress data).2.length = unpackedSize data data.length ∧
        RunsFit data 0 data.length) ∨
      ((decompress data).1 = 0 ∧ ∃ j < data.length, (decompress data).2.length = unpackedSize data j ∧
        isCount data j ∧ 512 < unpackedSize data (j + 1) ∧ RunsFit data 0 j) := by
  have hstart : Unpacking data 0 { prev2 := none, prev1 := none, out := [] } := by
    constructor <;> rfl
  rw [decompress_unpacked]
  rcases hstart.loop (Nat.zero_le _) with ⟨s, hrun, hs, hruns⟩ | ⟨j, out, hrun, hj, hrest⟩
  · rw [List.drop_zero] at hrun
    rw [hrun]
    exact .inl ⟨hs.size, hs.size, hruns⟩
  · rw [List.drop_zero] at hrun
    rw [hrun]
    exact .inr ⟨rfl, j, hj, hrest⟩

/-- The stores stay inside a sector exactly when no literal comes to a full one. -/
theorem length_decompress_le_iff (data : List UInt8) :
    (decompress data).2.length ≤ 512 ↔ ∀ i, i < data.length → ¬ literalAfterFull data i := by
  rcases decompress_cases data with ⟨-, hlen, hruns⟩ | ⟨-, j, hj, hlen, hcount, hover, hruns⟩
  · rw [hlen]
    constructor
    · intro hle i hi hlit
      have hmono := unpackedSize_mono data (show i + 1 ≤ data.length from hi)
      have hnext := hlit.next
      omega
    · exact unpackedSize_le hruns
  · rw [hlen]
    constructor
    · intro hle i hi hlit
      have hnext := hlit.next
      rcases Nat.lt_trichotomy i j with hlt | rfl | hgt
      · have hmono := unpackedSize_mono data (show i + 1 ≤ j from hlt)
        omega
      · exact hlit.1 hcount
      · have hmono := unpackedSize_mono data (show j + 1 ≤ i from hgt)
        have hfull := hlit.2.2
        omega
    · intro hnone
      exact unpackedSize_le hruns fun i hi => hnone i (Nat.lt_trans hi hj)

theorem decompress_return_le (data : List UInt8) :
    (decompress data).1 ≤ (decompress data).2.length := by
  rcases decompress_cases data with ⟨hret, hlen, -⟩ | ⟨hret, -⟩
  · exact Nat.le_of_eq (hret.trans hlen.symm)
  · rw [hret]
    exact Nat.zero_le _

/-- `LPTDecompress` returns 512 for the blocks that ask for a sector, no more and no less. -/
theorem decompress_full_iff (data : List UInt8) :
    (decompress data).1 = 512 ↔ unpackedSize data data.length = 512 := by
  rcases decompress_cases data with ⟨hret, -⟩ | ⟨hret, j, hj, -, -, hover, -⟩
  · rw [hret]
  · have hmono := unpackedSize_mono data (show j + 1 ≤ data.length from hj)
    rw [hret]
    omega

theorem length_decompress_full {data : List UInt8} (h : (decompress data).1 = 512) :
    (decompress data).2.length = 512 := by
  rcases decompress_cases data with ⟨hret, hlen, -⟩ | ⟨hret, -⟩
  · rw [hlen, ← hret, h]
  · omega

/-- `LPTDecompress` stays inside an output buffer of 512 bytes, and returns at most 512, exactly on
the inputs in which no literal comes when the runs and literals before it make a full sector. -/
theorem lptDecompress_inBounds_iff (data : List UInt8) :
    (((∀ i, i < (Pico.lptDecompress data).2.length → i < 512) ∧ (Pico.lptDecompress data).1 ≤ 512) ↔
      ∀ i, i < data.length → ¬ literalAfterFull data i) ∧
    (((∀ i, i < (Dos.lptDecompress data).2.length → i < 512) ∧ (Dos.lptDecompress data).1 ≤ 512) ↔
      ∀ i, i < data.length → ¬ literalAfterFull data i) := by
  have key : ((∀ i, i < (decompress data).2.length → i < 512) ∧ (decompress data).1 ≤ 512) ↔
      ∀ i, i < data.length → ¬ literalAfterFull data i := by
    rw [← length_decompress_le_iff]
    constructor
    · rintro ⟨hin, -⟩
      by_contra hle
      exact absurd (hin 512 (by omega)) (Nat.lt_irrefl 512)
    · intro hle
      have hret := decompress_return_le data
      exact ⟨fun i hi => by omega, by omega⟩
  exact ⟨key, key⟩

/-- Two full runs and a literal: the literal is stored at index 512. -/
theorem lptDecompress_overflows :
    ¬ ∀ (data : List UInt8), (∀ i, i < (Pico.lptDecompress data).2.length → i < 512) ∧
      (Pico.lptDecompress data).1 ≤ 512 := by
  intro h
  have hlen : (Pico.lptDecompress [0x00, 0xff, 0x00, 0xff, 0x01]).2.length = 513 := by
    decide +kernel
  exact absurd ((h [0x00, 0xff, 0x00, 0xff, 0x01]).1 512 (by omega)) (Nat.lt_irrefl 512)

end Decompress

end LptStore.Codec
