import Mathlib.Data.List.Chain
import LptStore.Codec.RunLength

/-!
# The tokens of the packed form

A packed block is read as a list of tokens, literals and runs of zeros, written one behind the other.
`LPTDecompress` does not keep track of where a token starts: it takes a byte for the count of a run by
the two bytes before it. A run of one zero is written as two zero bytes, and behind them the marker of
another run passes for a third.
-/

namespace LptStore.Codec

/-- A byte that is not zero, or a run of `n + 1` zeros. -/
inductive Token where
  | literal (b : UInt8) (h : b ≠ 0x00)
  | run (n : UInt8)
  deriving DecidableEq

namespace Token

/-- How the token is written. -/
def bytes : Token → List UInt8
  | literal b _ => [b]
  | run n => [0x00, n]

/-- What it stands for. -/
def expansion : Token → List UInt8
  | literal b _ => [b]
  | run n => List.replicate (n.toNat + 1) 0x00

def isRun : Token → Bool
  | literal _ _ => false
  | run _ => true

/-- The token `u` may follow `t`: no run directly behind a run of one zero. -/
def Follows (t u : Token) : Prop := t = .run 0x00 → u.isRun = false

instance (t u : Token) : Decidable (t.Follows u) :=
  inferInstanceAs (Decidable (_ → _))

end Token

/-- A list of tokens, written. -/
def packed (ts : List Token) : List UInt8 := ts.flatMap Token.bytes

/-- What a list of tokens stands for. -/
def expanded (ts : List Token) : List UInt8 := ts.flatMap Token.expansion

section Loop

variable {s : DecompressState} {t : Token} {ts : List Token}

/-- The next byte will be taken for a count. -/
def DecompressState.Marked (s : DecompressState) : Prop :=
  s.prev1 = some 0x00 ∧ ¬ s.prev2 = some 0x00

/-- The token goes unread: it is a run, and the byte before it is zero. -/
def DecompressState.Misses (s : DecompressState) (t : Token) : Prop :=
  s.prev1 = some 0x00 ∧ t.isRun = true

theorem decompress_literal {b : UInt8} (hs : ¬ s.Marked) (hb : b ≠ 0x00) :
    (Token.literal b hb).bytes.foldlM decompressByte s =
      .ok ⟨s.prev1, some b, s.out ++ [b]⟩ := by
  have hplain : ¬ (s.prev1 = some 0x00 ∧ ¬ s.prev2 = some 0x00) := hs
  have hbyte : decompressByte s b = .ok ⟨s.prev1, some b, s.out ++ [b]⟩ := by
    rw [decompressByte, if_neg hplain, if_pos hb]
  simp only [Token.bytes, List.foldlM_cons, List.foldlM_nil, hbyte]
  rfl

theorem decompress_marker (hs : ¬ s.Marked) :
    decompressByte s 0x00 = .ok ⟨s.prev1, some 0x00, s.out⟩ := by
  have hplain : ¬ (s.prev1 = some 0x00 ∧ ¬ s.prev2 = some 0x00) := hs
  rw [decompressByte, if_neg hplain, if_neg (by decide)]

theorem decompress_run {n : UInt8} (hs : ¬ s.Marked) (hprev : s.prev1 ≠ some 0x00)
    (hroom : s.out.length + (n.toNat + 1) ≤ 512) :
    (Token.run n).bytes.foldlM decompressByte s =
      .ok ⟨some 0x00, some n, s.out ++ List.replicate (n.toNat + 1) 0x00⟩ := by
  have hmarked : (some 0x00 : Option UInt8) = some 0x00 ∧ ¬ s.prev1 = some 0x00 := ⟨rfl, hprev⟩
  have hcount : decompressByte ⟨s.prev1, some 0x00, s.out⟩ n =
      .ok ⟨some 0x00, some n, s.out ++ List.replicate (n.toNat + 1) 0x00⟩ := by
    rw [decompressByte, if_pos hmarked]
    simp only [if_neg (Nat.not_lt.mpr hroom)]
  simp only [Token.bytes, List.foldlM_cons, List.foldlM_nil, decompress_marker hs, bind, Except.bind,
    hcount]
  rfl

/-- The marker is the third zero in a row, and the count is a byte like any other. -/
theorem decompress_missed {n : UInt8} (hs : ¬ s.Marked) (hprev : s.prev1 = some 0x00) :
    (Token.run n).bytes.foldlM decompressByte s =
      .ok ⟨some 0x00, some n, if n ≠ 0x00 then s.out ++ [n] else s.out⟩ := by
  have hthird : ¬ ((some 0x00 : Option UInt8) = some 0x00 ∧ ¬ s.prev1 = some 0x00) := by
    simp [hprev]
  have hcount : decompressByte ⟨s.prev1, some 0x00, s.out⟩ n =
      .ok ⟨some 0x00, some n, if n ≠ 0x00 then s.out ++ [n] else s.out⟩ := by
    rw [decompressByte, if_neg hthird]
    split <;> rfl
  simp only [Token.bytes, List.foldlM_cons, List.foldlM_nil, decompress_marker hs, bind, Except.bind,
    hcount]
  rfl

/-- The decoder between two tokens: it stores what the next one stands for, or less. -/
theorem decompress_token (hs : ¬ s.Marked) (hfit : s.out.length + t.expansion.length ≤ 512) :
    ∃ s', t.bytes.foldlM decompressByte s = .ok s' ∧ ¬ s'.Marked ∧
      (s.Misses t → s'.out.length < s.out.length + t.expansion.length) ∧
      (¬ s.Misses t → s'.out = s.out ++ t.expansion ∧
        (s'.prev1 = some 0x00 ↔ t = .run 0x00)) := by
  cases t with
  | literal b hb =>
    refine ⟨_, decompress_literal hs hb, ?_, ?_, ?_⟩
    · simp [DecompressState.Marked, hb]
    · simp [DecompressState.Misses, Token.isRun]
    · simp [Token.expansion, hb]
  | run n =>
    by_cases hprev : s.prev1 = some 0x00
    · refine ⟨_, decompress_missed hs hprev, ?_, ?_, ?_⟩
      · simp [DecompressState.Marked]
      · intro _
        by_cases hn : n = 0x00
        · simp [hn, Token.expansion]
        · have hpos : 0 < n.toNat := Nat.pos_of_ne_zero fun h => hn (UInt8.toNat_inj.mp h)
          simp only [if_pos hn, Token.expansion, List.length_append, List.length_replicate,
            List.length_singleton]
          omega
      · exact fun hread => absurd ⟨hprev, rfl⟩ hread
    · have hroom : s.out.length + (n.toNat + 1) ≤ 512 := by
        simpa only [Token.expansion, List.length_replicate] using hfit
      refine ⟨_, decompress_run hs hprev hroom, ?_, ?_, ?_⟩
      · simp [DecompressState.Marked]
      · exact fun hmiss => absurd hmiss.1 hprev
      · simp [Token.expansion]

/-- The decoder reads all of the tokens. -/
def DecompressState.Reads (s : DecompressState) (ts : List Token) : Prop :=
  (∀ t ∈ ts.head?, ¬ s.Misses t) ∧ ts.IsChain Token.Follows

theorem reads_cons {s' : DecompressState} (hread : ¬ s.Misses t)
    (hprev : s'.prev1 = some 0x00 ↔ t = .run 0x00) : s.Reads (t :: ts) ↔ s'.Reads ts := by
  unfold DecompressState.Reads
  rw [List.isChain_cons]
  have hhead : (∀ u ∈ ts.head?, t.Follows u) ↔ ∀ u ∈ ts.head?, ¬ s'.Misses u := by
    refine forall_congr' fun u => imp_congr_right fun _ => ?_
    unfold Token.Follows DecompressState.Misses
    rw [hprev, not_and, Bool.not_eq_true]
  rw [hhead]
  constructor
  · exact fun h => h.2
  · refine fun h => ⟨?_, h⟩
    intro u hu
    cases hu
    exact hread

/-- The loop over a list of tokens whose expansion fits: it stores the expansion, or less. -/
theorem decompress_tokens (hs : ¬ s.Marked) (hfit : s.out.length + (expanded ts).length ≤ 512) :
    ∃ s', (packed ts).foldlM decompressByte s = .ok s' ∧
      s'.out.length ≤ s.out.length + (expanded ts).length ∧
      (s.Reads ts → s'.out = s.out ++ expanded ts) ∧
      (¬ s.Reads ts → s'.out.length < s.out.length + (expanded ts).length) := by
  induction ts generalizing s with
  | nil =>
    refine ⟨s, rfl, Nat.le_refl _, fun _ => (List.append_nil _).symm, fun h => absurd ?_ h⟩
    exact ⟨nofun, .nil⟩
  | cons t ts ih =>
    have hexpanded : expanded (t :: ts) = t.expansion ++ expanded ts := List.flatMap_cons
    rw [hexpanded, List.length_append] at hfit ⊢
    rcases decompress_token hs (t := t) (by omega) with ⟨s₁, hstep, hs₁, hmiss, hread⟩
    have hle : s₁.out.length ≤ s.out.length + t.expansion.length := by
      by_cases h : s.Misses t
      · exact Nat.le_of_lt (hmiss h)
      · rw [(hread h).1, List.length_append]
    rcases ih hs₁ (by omega) with ⟨s', hrun, hbound, hall, hless⟩
    have hpacked : (packed (t :: ts)).foldlM decompressByte s = .ok s' := by
      have hcons : packed (t :: ts) = t.bytes ++ packed ts := List.flatMap_cons
      rw [hcons, List.foldlM_append, hstep]
      exact hrun
    refine ⟨s', hpacked, by omega, ?_, ?_⟩
    · intro hreads
      rcases hread (hreads.1 t rfl) with ⟨hout, hprev⟩
      have hreads' := (reads_cons (hreads.1 t rfl) hprev).mp hreads
      rw [hall hreads', hout, List.append_assoc]
    · intro hnot
      by_cases h : s.Misses t
      · have hlt := hmiss h
        omega
      · rcases hread h with ⟨-, hprev⟩
        have hlt := hless (mt (reads_cons h hprev).mpr hnot)
        omega

end Loop

/-- `LPTDecompress` reads a list of tokens as what it stands for exactly if no run directly follows a run
of one zero. -/
theorem lptDecompress_tokens_iff (ts : List Token) (hfit : (expanded ts).length ≤ 512) :
    (Pico.lptDecompress (packed ts) = ((expanded ts).length, expanded ts) ↔
      ts.IsChain Token.Follows) ∧
    (Dos.lptDecompress (packed ts) = ((expanded ts).length, expanded ts) ↔
      ts.IsChain Token.Follows) := by
  have key : decompress (packed ts) = ((expanded ts).length, expanded ts) ↔
      ts.IsChain Token.Follows := by
    have hstart : ¬ (⟨none, none, []⟩ : DecompressState).Marked := fun h => nomatch h.1
    have hroom : ([] : List UInt8).length + (expanded ts).length ≤ 512 := by simpa using hfit
    rcases decompress_tokens hstart hroom with ⟨s', hrun, -, hall, hless⟩
    have hreads : (⟨none, none, []⟩ : DecompressState).Reads ts ↔ ts.IsChain Token.Follows :=
      and_iff_right fun t _ h => nomatch h.1
    unfold decompress
    rw [hrun, ← hreads]
    constructor
    · intro heq
      by_contra hnot
      have hlt := hless hnot
      have hlen : s'.out.length = (expanded ts).length := congrArg Prod.fst heq
      simp only [List.length_nil, Nat.zero_add] at hlt
      omega
    · intro h
      simp only [hall h, List.nil_append]
  exact ⟨key, key⟩

/-- A run of three zeros, one of one zero, and a literal. -/
theorem lptDecompress_tokens_run :
    Pico.lptDecompress [0x00, 0x02, 0x00, 0x00, 0x01] = (5, [0x00, 0x00, 0x00, 0x00, 0x01]) :=
  (lptDecompress_tokens_iff [.run 0x02, .run 0x00, .literal 0x01 (by decide)]
    (by decide +kernel)).1.mpr (by decide)

/-- A run of one zero and a run of six: the count of the second is stored as a literal. -/
theorem lptDecompress_tokens_lost :
    ¬ ∀ ts : List Token, (expanded ts).length ≤ 512 →
      Pico.lptDecompress (packed ts) = ((expanded ts).length, expanded ts) := by
  intro h
  have hrun : Pico.lptDecompress (packed [.run 0x00, .run 0x05]) = (2, [0x00, 0x05]) := by
    decide +kernel
  have hclaim := h [.run 0x00, .run 0x05] (by decide +kernel)
  rw [hrun] at hclaim
  exact absurd hclaim (by decide +kernel)

end LptStore.Codec
