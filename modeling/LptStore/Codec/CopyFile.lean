import LptStore.Codec.Bounds
import LptStore.Lib.While

/-!
# The test of the codec

`main` of `fs/comp.c` packs and unpacks a file block by block and writes what comes back to `output.bin`.
It reads until `feof`, which a read that was served in full does not set: behind a file that ends with a
whole block there is one more round, with nothing read.
-/

namespace LptStore.Comp

open LptStore.Lib LptStore.Codec

/-- `LPTDecompress` of `fs/comp.c:37-50`. -/
def lptDecompress (data : List UInt8) : Nat × List UInt8 := Codec.decompress data

/-- What a round writes from (`comp.c:76-98`): `data` through `LPTCompress` and `LPTDecompress`, or as it
is. A store past `cdata` hits what lies there, and what that does to `data` is `behind`. -/
def roundTrip (behind : Sector → Sector) (data : Sector) : Sector :=
  let (c, out) := lptCompress data
  let data := if out.length ≤ 512 then data else behind data
  if c = 0 then data
  else Sector.zero.overwrite (lptDecompress ((Sector.zero.overwrite out).bytes.take c)).2

/-- The two files: what is still to be read of `f` and whether a read has met its end, and what `f2`
has. -/
structure Copying where
  unread : List UInt8
  eof : Bool
  written : List UInt8
  deriving DecidableEq

/-- One round of the loop (`comp.c:75-101`) without its prints. -/
def copyRound (behind : Sector → Sector) : Copying → Copying ⊕ List UInt8
  | ⟨_, true, written⟩ => .inr written
  | ⟨unread, false, written⟩ =>
      let got := unread.take 512
      let data := roundTrip behind (Sector.zero.overwrite got)
      .inl ⟨unread.drop 512, got.length < 512, written ++ data.bytes.take got.length⟩

/-- A block of a file as a round has it in `data`. -/
def blockAt (file : List UInt8) (k : Nat) : Sector :=
  Sector.zero.overwrite ((file.drop (512 * k)).take 512)

section Rounds

variable {behind : Sector → Sector} {unread written file : List UInt8}

theorem roundTrip_fits {data : Sector} (h : (compress data.bytes).2.length ≤ 512) :
    roundTrip behind data = data := by
  unfold roundTrip lptCompress lptDecompress
  by_cases hc : (compress data.bytes).1 = 0
  · simp [hc, h]
  · obtain ⟨hlen, -, hdec⟩ := decompress_compress (Nat.le_of_eq data.length_bytes) (Nat.pos_of_ne_zero hc)
    have htake : (Sector.zero.overwrite (compress data.bytes).2).bytes.take
        (compress data.bytes).2.length = (compress data.bytes).2 := by
      apply take_storeBytes
      simpa using h
    simp only [hc, if_false]
    rw [hlen, htake, hdec, Sector.overwrite_full]

theorem roundTrip_behind {data : Sector} (h : ¬ (compress data.bytes).2.length ≤ 512) :
    roundTrip behind data = behind data := by
  have hc : (compress data.bytes).1 = 0 := by
    by_contra hne
    have hlt := (decompress_compress (Nat.le_of_eq data.length_bytes) (Nat.pos_of_ne_zero hne)).2.1
    omega
  simp [roundTrip, lptCompress, hc, h]

theorem blockAt_take (file : List UInt8) (k : Nat) :
    (blockAt file k).bytes.take ((file.drop (512 * k)).take 512).length =
      (file.drop (512 * k)).take 512 := by
  apply take_storeBytes
  rw [Sector.length_bytes]
  exact List.length_take_le 512 _

theorem blockAt_drop (file : List UInt8) (k : Nat) :
    blockAt (file.drop 512) k = blockAt file (k + 1) := by
  unfold blockAt
  rw [List.drop_drop, Nat.mul_add, Nat.mul_one, Nat.add_comm]

/-- What a round adds to `f2`. -/
def added (behind : Sector → Sector) (unread : List UInt8) : List UInt8 :=
  (roundTrip behind (blockAt unread 0)).bytes.take (unread.take 512).length

theorem length_added (behind : Sector → Sector) (unread : List UInt8) :
    (added behind unread).length = (unread.take 512).length := by
  simp [added]

theorem copyRound_eq (behind : Sector → Sector) (unread written : List UInt8) :
    copyRound behind ⟨unread, false, written⟩ =
      .inl ⟨unread.drop 512, (unread.take 512).length < 512, written ++ added behind unread⟩ := rfl

/-- A round that stores nothing behind `cdata`, or that has nothing to write. -/
theorem added_eq (h : 0 < unread.length → (compress (blockAt unread 0).bytes).2.length ≤ 512) :
    added behind unread = unread.take 512 := by
  rcases Nat.eq_zero_or_pos unread.length with hzero | hpos
  · rw [List.eq_nil_of_length_eq_zero hzero]
    rfl
  · unfold added
    rw [roundTrip_fits (h hpos)]
    exact blockAt_take unread 0

/-- The loop, by induction on the blocks that are still to be read. -/
theorem copies_of_fits {n : Nat} (hn : unread.length ≤ 512 * n)
    (h : ∀ k, 512 * k < unread.length → (compress (blockAt unread k).bytes).2.length ≤ 512) :
    Runs (copyRound behind) ⟨unread, false, written⟩ (written ++ unread) := by
  induction n generalizing unread written with
  | zero =>
    have hnil : unread = [] := List.eq_nil_of_length_eq_zero (Nat.le_zero.mp hn)
    subst hnil
    exact Runs.round (copyRound_eq behind [] written) (.done rfl)
  | succ n ih =>
    have hround := copyRound_eq behind unread written
    rw [added_eq fun hpos => h 0 hpos] at hround
    apply Runs.round hround
    by_cases hlast : unread.length < 512
    · have hall : unread.take 512 = unread := List.take_of_length_le (Nat.le_of_lt hlast)
      rw [hall, decide_eq_true hlast]
      exact .done rfl
    · have hwhole : ¬ (unread.take 512).length < 512 := by
        rw [List.length_take]
        omega
      have hrest : (unread.drop 512).length ≤ 512 * n := by
        rw [List.length_drop]
        omega
      have hblocks : ∀ k, 512 * k < (unread.drop 512).length →
          (compress (blockAt (unread.drop 512) k).bytes).2.length ≤ 512 := by
        intro k hk
        rw [List.length_drop] at hk
        rw [blockAt_drop]
        exact h (k + 1) (by omega)
      have hcopied : Runs (copyRound behind) ⟨unread.drop 512, false, written ++ unread.take 512⟩
          (written ++ unread.take 512 ++ unread.drop 512) := ih hrest hblocks
      rw [List.append_assoc, List.take_append_drop] at hcopied
      rwa [decide_eq_false hwhole]

/-- What is in `f2` stays there. -/
theorem written_prefix {s : Copying} {r : List UInt8} (hrun : Runs (copyRound behind) s r) :
    s.written <+: r := by
  obtain ⟨n, hn⟩ := hrun
  refine iterate_invariant (I := fun s' => s.written <+: s'.written) ?_ hn (List.prefix_refl _)
  intro s' hs'
  obtain ⟨unread, eof, written⟩ := s'
  cases eof with
  | true => exact hs'
  | false => exact hs'.trans (List.prefix_append _ _)

/-- Where the file is copied, a round has added what it read. -/
theorem added_of_copies
    (hrun : Runs (copyRound behind) ⟨unread, false, written⟩ (written ++ unread)) :
    added behind unread = unread.take 512 := by
  have hprefix := written_prefix (Runs.of_round (copyRound_eq behind unread written) hrun)
  have hadded : added behind unread <+: unread := (List.prefix_append_right_inj written).mp hprefix
  rw [List.prefix_iff_eq_take.mp hadded, length_added, List.length_take]
  simp

/-- All bytes of `data` changed. -/
def shifted (data : Sector) : Sector := ⟨data.bytes.map (· + 1), by simp⟩

theorem fits_of_added (hpos : 0 < unread.length) (h : added shifted unread = unread.take 512) :
    (compress (blockAt unread 0).bytes).2.length ≤ 512 := by
  by_contra hover
  unfold added at h
  rw [roundTrip_behind hover] at h
  obtain ⟨b, bs, rfl⟩ := List.exists_cons_of_length_pos hpos
  have hhead := congrArg List.head? h
  simp [shifted, blockAt, Sector.overwrite, storeBytes] at hhead

theorem fits_of_copies {k : Nat} (hk : 512 * k < unread.length)
    (hrun : Runs (copyRound shifted) ⟨unread, false, written⟩ (written ++ unread)) :
    (compress (blockAt unread k).bytes).2.length ≤ 512 := by
  have hadded := added_of_copies hrun
  induction k generalizing unread written with
  | zero => exact fits_of_added hk hadded
  | succ k ih =>
    have hwhole : ¬ (unread.take 512).length < 512 := by
      rw [List.length_take]
      omega
    have hrest : 512 * k < (unread.drop 512).length := by
      rw [List.length_drop]
      omega
    have hnext := Runs.of_round (copyRound_eq shifted unread written) hrun
    rw [hadded, decide_eq_false hwhole] at hnext
    have hcopied : Runs (copyRound shifted) ⟨unread.drop 512, false, written ++ unread.take 512⟩
        (written ++ unread.take 512 ++ unread.drop 512) := by
      rwa [List.append_assoc, List.take_append_drop]
    rw [← blockAt_drop]
    exact ih hrest hcopied (added_of_copies hcopied)

/-- `output.bin` becomes a copy of the file, whatever lies behind `cdata`, exactly if in no block of it,
the last one filled up with zeros, a byte makes `LPTCompress` store there. -/
theorem copies_iff (file : List UInt8) :
    (∀ behind, Runs (copyRound behind) ⟨file, false, []⟩ file) ↔
      ∀ k, 512 * k < file.length → ∀ i < 512, ¬ closesFull (blockAt file k).bytes i := by
  constructor
  · intro hcopies k hk
    have hcopied : Runs (copyRound shifted) ⟨file, false, []⟩ ([] ++ file) := hcopies shifted
    exact (length_compress_le_iff _).mp (fits_of_copies hk hcopied)
  · intro hnone behind
    have hn : file.length ≤ 512 * file.length := Nat.le_mul_of_pos_left _ (by decide)
    have hfits : ∀ k, 512 * k < file.length → (compress (blockAt file k).bytes).2.length ≤ 512 :=
      fun k hk => (length_compress_le_iff _).mpr (hnone k hk)
    have hcopied : Runs (copyRound behind) ⟨file, false, []⟩ ([] ++ file) := copies_of_fits hn hfits
    exact hcopied

end Rounds

end LptStore.Comp
