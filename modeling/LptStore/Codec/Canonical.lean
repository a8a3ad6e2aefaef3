import LptStore.Codec.Optimal

/-!
# The packed form of a sector

Many blocks unpack to the same sector. Among those written token by token one is set apart: its runs are as
long as they can be, so that a run stands behind another only if that one is full. A sector has one such
form, and where it takes less than 512 bytes it is what `LPTCompress` stores.
-/

namespace LptStore.Codec

/-- The token `u` may follow `t` where runs are as long as they can be. -/
def Token.Greedy (t u : Token) : Prop := t.isRun = true → u.isRun = true → t = .run 0xff

/-- The packed form of a sector. -/
structure PackedForm where
  tokens : List Token
  greedy : tokens.IsChain Token.Greedy
  whole : (expanded tokens).length = 512
  short : (packed tokens).length < 512

/-- The sector it stands for. -/
def PackedForm.sector (p : PackedForm) : Sector := ⟨expanded p.tokens, p.whole⟩

section Unique

variable {ts us : List Token} {n m : UInt8}

/-- What begins with a zero begins with a run. -/
theorem run_of_zero (h : (expanded ts).head? = some 0x00) : ∃ n us, ts = .run n :: us := by
  cases ts with
  | nil => cases h
  | cons t us =>
    cases t with
    | literal b hb => exact absurd (Option.some.inj h) hb
    | run n => exact ⟨n, us, rfl⟩

/-- A run that is as long as it can be is not a part of a longer one. -/
theorem run_not_lt (hts : (Token.run n :: ts).IsChain Token.Greedy)
    (h : expanded (.run n :: ts) = expanded (.run m :: us)) : ¬ n.toNat < m.toNat := by
  intro hlt
  have hsplit : m.toNat + 1 = n.toNat + 1 + (m.toNat - n.toNat) := by omega
  have hm : expanded (.run m :: us) = List.replicate (n.toNat + 1) 0x00 ++
      (List.replicate (m.toNat - n.toNat) 0x00 ++ expanded us) := by
    rw [← List.append_assoc, ← List.replicate_add, ← hsplit]
    rfl
  have hrest : expanded ts = List.replicate (m.toNat - n.toNat) 0x00 ++ expanded us :=
    List.append_cancel_left (h.trans hm)
  have hpos : m.toNat - n.toNat ≠ 0 := by omega
  have hzero : (expanded ts).head? = some 0x00 := by
    rw [hrest, List.head?_append, List.head?_replicate, if_neg hpos]
    rfl
  obtain ⟨k, vs, rfl⟩ := run_of_zero hzero
  have hfull : Token.run n = .run 0xff := (List.isChain_cons_cons.mp hts).1 rfl rfl
  cases hfull
  have hm' := m.toNat_lt
  exact absurd hlt (by simp; omega)

/-- By induction on the tokens. -/
theorem expanded_inj (hts : ts.IsChain Token.Greedy) (hus : us.IsChain Token.Greedy)
    (h : expanded ts = expanded us) : ts = us := by
  induction ts generalizing us with
  | nil =>
    cases us with
    | nil => rfl
    | cons u us =>
      cases u with
      | literal b hb => cases h
      | run n => cases h
  | cons t ts ih =>
    cases us with
    | nil =>
      cases t with
      | literal b hb => cases h
      | run n => cases h
    | cons u us =>
      have htail : expanded ts = expanded us → ts = us := ih hts.tail hus.tail
      cases t with
      | literal b hb =>
        cases u with
        | literal b' hb' =>
          obtain ⟨rfl, hrest⟩ := List.cons.inj h
          rw [htail hrest]
        | run m => exact absurd (List.cons.inj h).1 hb
      | run n =>
        cases u with
        | literal b' hb' => exact absurd (List.cons.inj h).1.symm hb'
        | run m =>
          have hnm := run_not_lt hts h
          have hmn := run_not_lt hus h.symm
          have hsame : n = m := UInt8.toNat_inj.mp (by omega)
          subst hsame
          rw [htail (List.append_cancel_left h)]

end Unique

section Encoder

variable {data : List UInt8} {s s' : CompressState} {ts : List Token}

/-- The encoder has written the tokens `ts`, but for the count of an open run. -/
structure Writing (ts : List Token) (s : CompressState) : Prop where
  greedy : ts.IsChain Token.Greedy
  flushed : packed ts = s.flush
  short : s.c ≤ 255
  closed : s.c = 0 → ∀ t ∈ ts.getLast?, t.isRun = true → t = .run 0xff
  opened : s.c ≠ 0 → ∃ us, ts = us ++ [.run (UInt8.ofNat (s.c - 1))]

theorem greedy_append_literal (h : ts.IsChain Token.Greedy) (b : UInt8) (hb : b ≠ 0x00) :
    (ts ++ [Token.literal b hb]).IsChain Token.Greedy := by
  refine List.isChain_append.mpr ⟨h, .singleton _, ?_⟩
  intro t _ u hu _ hrun
  cases Option.some.inj hu
  cases hrun

theorem greedy_append_run (h : ts.IsChain Token.Greedy)
    (hclosed : ∀ t ∈ ts.getLast?, t.isRun = true → t = .run 0xff) (n : UInt8) :
    (ts ++ [Token.run n]).IsChain Token.Greedy :=
  List.isChain_append.mpr ⟨h, .singleton _, fun t ht _ _ hrun _ => hclosed t ht hrun⟩

theorem packed_append (ts : List Token) (t : Token) : packed (ts ++ [t]) = packed ts ++ t.bytes := by
  simp [packed]

theorem expanded_append (ts : List Token) (t : Token) :
    expanded (ts ++ [t]) = expanded ts ++ t.expansion := by
  simp [expanded]

/-- A byte that is not zero closes the run, if one is open. -/
theorem Writing.literal (h : Writing ts s) {b : UInt8} (hb : b ≠ 0x00) :
    Writing (ts ++ [.literal b hb]) (s.push b) := by
  have hpush : s.push b = ⟨0, s.flush ++ [b]⟩ := if_neg hb
  rw [hpush]
  constructor
  · exact greedy_append_literal h.greedy b hb
  · rw [packed_append, h.flushed]
    rfl
  · exact Nat.zero_le _
  · intro _ t ht hrun
    rw [List.getLast?_concat] at ht
    cases Option.some.inj ht
    cases hrun
  · exact fun hc => absurd rfl hc

/-- A zero with no run open opens one. -/
theorem Writing.first (h : Writing ts s) (hc : s.c = 0) : Writing (ts ++ [.run 0x00]) (s.push 0x00) := by
  have hpush : s.push 0x00 = ⟨1, s.out ++ [0x00]⟩ := (if_pos rfl).trans (if_pos hc)
  have hout : packed ts = s.out := by
    rw [h.flushed, CompressState.flush, if_neg (not_not_intro hc)]
  rw [hpush]
  constructor
  · exact greedy_append_run h.greedy (h.closed hc) 0x00
  · rw [packed_append, hout]
    exact (List.append_assoc s.out [0x00] [0x00]).symm
  · exact Nat.succ_le_succ (Nat.zero_le 254)
  · exact fun hc => absurd hc Nat.one_ne_zero
  · exact fun _ => ⟨ts, rfl⟩

/-- Another zero makes the open run longer, and the 256th closes it. -/
theorem Writing.again {us : List Token} (h : Writing (us ++ [.run (UInt8.ofNat (s.c - 1))]) s)
    (hc : s.c ≠ 0) : Writing (us ++ [.run (UInt8.ofNat s.c)]) (s.push 0x00) := by
  have hgreedy : (us ++ [Token.run (UInt8.ofNat s.c)]).IsChain Token.Greedy := by
    obtain ⟨hus, -, hlast⟩ := List.isChain_append.mp h.greedy
    refine greedy_append_run hus ?_ _
    intro t ht hrun
    exact hlast t ht _ rfl hrun rfl
  have hout : packed us ++ [0x00] = s.out := by
    have hflushed := h.flushed
    rw [packed_append, CompressState.flush, if_pos hc] at hflushed
    have hsplit : packed us ++ [0x00] ++ [UInt8.ofNat (s.c - 1)] = s.out ++ [UInt8.ofNat (s.c - 1)] := by
      rw [← hflushed, List.append_assoc]
      rfl
    exact List.append_cancel_right hsplit
  have hpacked : packed (us ++ [.run (UInt8.ofNat s.c)]) = s.out ++ [UInt8.ofNat s.c] := by
    rw [packed_append, ← hout, List.append_assoc]
    rfl
  by_cases hfull : s.c = 255
  · have hpush : s.push 0x00 = ⟨0, s.out ++ [0xff]⟩ :=
      (if_pos rfl).trans ((if_neg hc).trans (if_pos hfull))
    rw [hpush]
    rw [hfull] at hgreedy hpacked ⊢
    constructor
    · exact hgreedy
    · exact hpacked
    · exact Nat.zero_le _
    · intro _ t ht _
      rw [List.getLast?_concat] at ht
      exact (Option.some.inj ht).symm
    · exact fun hc => absurd rfl hc
  · have hpush : s.push 0x00 = { s with c := s.c + 1 } :=
      (if_pos rfl).trans ((if_neg hc).trans (if_neg hfull))
    rw [hpush]
    constructor
    · exact hgreedy
    · exact hpacked
    · exact Nat.lt_of_le_of_ne h.short hfull
    · exact fun hc => absurd hc (Nat.succ_ne_zero _)
    · exact fun _ => ⟨us, rfl⟩

theorem expansion_again {c : Nat} (hc : c ≠ 0) (hshort : c ≤ 255) :
    (Token.run (UInt8.ofNat c)).expansion = (Token.run (UInt8.ofNat (c - 1))).expansion ++ [0x00] := by
  have hlong : (UInt8.ofNat c).toNat = (UInt8.ofNat (c - 1)).toNat + 1 := by
    simp
    omega
  rw [Token.expansion, Token.expansion, hlong, List.replicate_succ']

theorem Writing.step (h : Writing ts s) (b : UInt8) :
    ∃ ts', Writing ts' (s.push b) ∧ expanded ts' = expanded ts ++ [b] := by
  by_cases hb : b = 0x00
  · subst hb
    by_cases hc : s.c = 0
    · exact ⟨_, h.first hc, expanded_append ts _⟩
    · obtain ⟨us, rfl⟩ := h.opened hc
      refine ⟨_, h.again hc, ?_⟩
      rw [expanded_append, expanded_append, expansion_again hc h.short, List.append_assoc]
  · exact ⟨_, h.literal hb, expanded_append ts _⟩

theorem Writing.loop (h : Writing ts s) (hrun : data.foldlM compressByte s = .ok s') :
    ∃ ts', Writing ts' s' ∧ expanded ts' = expanded ts ++ data := by
  induction data generalizing s ts with
  | nil =>
    cases hrun
    exact ⟨ts, h, (List.append_nil _).symm⟩
  | cons b data ih =>
    rw [List.foldlM_cons, compressByte] at hrun
    split_ifs at hrun with hfull
    · cases hrun
    · obtain ⟨ts₁, h₁, hexpanded⟩ := h.step b
      obtain ⟨ts', h', hall⟩ := ih h₁ hrun
      refine ⟨ts', h', ?_⟩
      rw [hall, hexpanded, List.append_assoc]
      rfl

/-- What the encoder has stored, if it does not give up, is the one packed form. -/
theorem compress_canonical (hpos : 0 < (compress data).1) : ∃ ts : List Token,
    ts.IsChain Token.Greedy ∧ expanded ts = data ∧ packed ts = (compress data).2 ∧
      (compress data).2.length < 512 := by
  unfold compress at hpos ⊢
  cases hrun : data.foldlM compressByte { c := 0, out := [] } with
  | error out =>
    rw [hrun] at hpos
    exact absurd hpos (Nat.lt_irrefl 0)
  | ok s =>
    have hstart : Writing [] { c := 0, out := [] } := by
      refine ⟨.nil, rfl, Nat.zero_le _, ?_, fun hc => absurd rfl hc⟩
      intro _ t ht
      cases ht
    obtain ⟨ts, hts, hall⟩ := hstart.loop hrun
    rw [hrun] at hpos
    simp only at hpos
    split_ifs at hpos with hfull
    · exact absurd hpos (Nat.lt_irrefl 0)
    · exact ⟨ts, hts.greedy, hall, hts.flushed, Nat.lt_of_not_le hfull⟩

/-- Tokens that need less than 512 bytes do not make it give up. -/
theorem compress_of_short (hdata : expanded ts = data) (hnonempty : data ≠ [])
    (hshort : (packed ts).length < 512) : 0 < (compress data).1 := by
  have hsize := packedSize_expanded_le ts
  rw [hdata] at hsize
  have hpos : 1 ≤ data.length := List.length_pos_of_ne_nil hnonempty
  have hfirst : packedAt data 0 ≤ packedSize data data.length := by
    simpa [packedSize] using packedSize_mono data hpos
  have hopens : 0 < packedAt data 0 := by
    unfold packedAt
    split_ifs with hb hopen
    · decide
    · decide
    · exact absurd rfl hopen
  rw [compress_return, if_neg (by omega)]
  omega

/-- `LPTCompress` stores the packed form of the sector, and gives up exactly where there is none. -/
theorem lptCompress_canonical_iff (d : Sector) (out : List UInt8) :
    0 < (Pico.lptCompress d).1 ∧ (Pico.lptCompress d).2 = out ↔
      ∃ p : PackedForm, p.sector = d ∧ packed p.tokens = out := by
  constructor
  · rintro ⟨hpos, rfl⟩
    obtain ⟨ts, hgreedy, hexpanded, hpacked, hshort⟩ := compress_canonical hpos
    have hwhole : (expanded ts).length = 512 := by rw [hexpanded, d.length_bytes]
    exact ⟨⟨ts, hgreedy, hwhole, hpacked ▸ hshort⟩, Sector.ext hexpanded, hpacked⟩
  · rintro ⟨p, rfl, rfl⟩
    have hnonempty : expanded p.tokens ≠ [] := by
      intro hnil
      have hwhole := p.whole
      rw [hnil] at hwhole
      cases hwhole
    have hpos : 0 < (compress (expanded p.tokens)).1 := compress_of_short rfl hnonempty p.short
    refine ⟨hpos, ?_⟩
    obtain ⟨ts, hgreedy, hexpanded, hpacked, -⟩ := compress_canonical hpos
    rw [← expanded_inj hgreedy p.greedy hexpanded, hpacked]
    rfl

end Encoder

end LptStore.Codec
