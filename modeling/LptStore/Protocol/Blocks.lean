import LptStore.Protocol.EndToEnd

/-!
# Which blocks a call transfers

The disk layer records the blocks it is asked for. From a message boundary `LPTRead` and `LPTWrite` ask
for the blocks from their start on, one after the other, up to the first that is refused. A caller that
means other blocks has to pass another start.
-/

namespace LptStore.Protocol

open LptStore.Lib

/-- A block that the disk layer is asked for. -/
structure Access where
  direction : Direction
  drive : UInt8
  lba : UInt32
  deriving DecidableEq, Repr

/-- The disk layer, recording the blocks it is asked for. -/
def ArrayDisk.watched {ω : Type} (disk : ArrayDisk ω) : ArrayDisk (ω × List Access) where
  getDrives w := disk.getDrives w.1
  getBlocks w d := disk.getBlocks w.1 d
  readSector w d l buff := ((disk.readSector w.1 d l buff).1, (disk.readSector w.1 d l buff).2,
    w.2 ++ [⟨.read, d, l⟩])
  writeSector w d l data := ((disk.writeSector w.1 d l data).1, (disk.writeSector w.1 d l data).2,
    w.2 ++ [⟨.write, d, l⟩])
  drives w := disk.drives w.1
  read_inRange buff h := disk.read_inRange buff h
  read_outOfRange buff h := disk.read_outOfRange buff h
  drives_read w d l buff := disk.drives_read w.1 d l buff
  write_inRange data h := disk.write_inRange data h
  write_outOfRange data h := disk.write_outOfRange data h

/-- The blocks `first`, `first + 1`, .. of a drive. -/
def blocksFrom (dir : Direction) (drive : UInt8) (first k : Nat) : List Access :=
  (List.range k).map fun j => ⟨dir, drive, UInt32.ofNat (first + j)⟩

theorem blocksFrom_succ (dir : Direction) (drive : UInt8) (first k : Nat) :
    blocksFrom dir drive first (k + 1) =
      ⟨dir, drive, UInt32.ofNat first⟩ :: blocksFrom dir drive (first + 1) k := by
  simp [blocksFrom, List.range_succ_eq_map, Function.comp_def, Nat.add_assoc, Nat.add_comm 1]

/-- Of `n` blocks the first `k` were asked for: all, if the call succeeds, and one at least. -/
structure Asked (n k : Nat) (r : DResult) : Prop where
  le : k ≤ n
  some : 0 < n → 0 < k
  all : r = .RES_OK → k = n

section Loops

variable {ω : Type} (disk : ArrayDisk ω) {n start : Nat} {lbn : UInt16}

theorem asked_zero : Asked 0 0 .RES_OK := ⟨Nat.le_refl 0, id, fun _ => rfl⟩

theorem asked_stop (n : Nat) : Asked (n + 1) 1 .RES_ERROR :=
  ⟨Nat.succ_le_succ (Nat.zero_le n), fun _ => Nat.one_pos, nofun⟩

theorem Asked.succ {k : Nat} {r : DResult} (h : Asked n k r) : Asked (n + 1) (k + 1) r :=
  ⟨Nat.succ_le_succ h.le, fun _ => Nat.succ_pos k, fun hr => congrArg (· + 1) (h.all hr)⟩

theorem toUInt32_lbn (hlbn : lbn.toNat = start % 65536) (hstart : start < 65536) :
    lbn.toUInt32 = UInt32.ofNat start := by
  apply UInt32.toNat_inj.mp
  rw [toNat_lbn hlbn hstart, UInt32.toNat_ofNat']
  omega

/-- The loop of `LPTRead`, by induction on the blocks to go. -/
theorem asks_readLoop (unit : UInt16) (buffer : FarPtr) (mem : Mem) (b : Bufs) (w : ω × List Access)
    (hlbn : lbn.toNat = start % 65536) (hspan : start + n ≤ 65536) :
    ∃ k r mem' b' w', Asked n k r ∧ w'.2 = w.2 ++ blocksFrom .read unit.toUInt8 start k ∧
      Leads hostAct (Device.act disk.watched.toDisk) (.ret (r, mem'), Device.idle b' w')
        (lptReadLoop unit n lbn buffer mem, Device.idle b w) := by
  induction n generalizing start lbn buffer mem b w with
  | zero => exact ⟨0, .RES_OK, mem, b, w, asked_zero, by simp [blocksFrom], Leads.refl _⟩
  | succ n ih =>
    have hl : lbn.toUInt32 = UInt32.ofNat start := toUInt32_lbn hlbn (by omega)
    rcases leads_readLoop_succ disk.watched.toDisk unit n lbn buffer mem b w
      with ⟨buff, b₁, hblock⟩
    generalize hw₁ : (disk.watched.readSector w unit.toUInt8 lbn.toUInt32 buff).2 = w₁ at hblock
    have hlog : w₁.2 = w.2 ++ [⟨.read, unit.toUInt8, UInt32.ofNat start⟩] := by
      rw [← hw₁, ← hl]
      rfl
    cases hbytes : blockRead (disk.watched.readSector w unit.toUInt8 lbn.toUInt32 buff).1.1
      (disk.watched.readSector w unit.toUInt8 lbn.toUInt32 buff).1.2 with
    | none =>
      refine ⟨1, .RES_ERROR, mem, b₁, w₁, asked_stop n, by simp [hlog, blocksFrom], hblock _ ?_⟩
      rw [hbytes]
      exact Leads.refl _
    | some bytes =>
      rcases ih (buffer.add 512) (mem.write buffer bytes) b₁ w₁ (toNat_lbn_succ hlbn) (by omega)
        with ⟨k, r, mem', b', w', hasked, hlog', hleads⟩
      refine ⟨k + 1, r, mem', b', w', hasked.succ, ?_, hblock _ ?_⟩
      · rw [hlog', hlog, blocksFrom_succ, List.append_assoc, List.singleton_append]
      · rw [hbytes]
        exact hleads

/-- The loop of `LPTWrite`. -/
theorem asks_writeLoop (unit : UInt16) (buffer : FarPtr) (mem : Mem) (b : Bufs) (w : ω × List Access)
    (hlbn : lbn.toNat = start % 65536) (hspan : start + n ≤ 65536) :
    ∃ k r b' w', Asked n k r ∧ w'.2 = w.2 ++ blocksFrom .write unit.toUInt8 start k ∧
      Leads hostAct (Device.act disk.watched.toDisk) (.ret (r, mem), Device.idle b' w')
        (lptWriteLoop unit n lbn buffer mem, Device.idle b w) := by
  induction n generalizing start lbn buffer b w with
  | zero => exact ⟨0, .RES_OK, b, w, asked_zero, by simp [blocksFrom], Leads.refl _⟩
  | succ n ih =>
    have hl : lbn.toUInt32 = UInt32.ofNat start := toUInt32_lbn hlbn (by omega)
    rcases leads_writeLoop_succ disk.watched.toDisk unit n lbn buffer mem b w with ⟨b₁, hblock⟩
    generalize hw₁ : (disk.watched.writeSector w unit.toUInt8 lbn.toUInt32 (mem.sector buffer)).2 = w₁
      at hblock
    have hlog : w₁.2 = w.2 ++ [⟨.write, unit.toUInt8, UInt32.ofNat start⟩] := by
      rw [← hw₁, ← hl]
      rfl
    by_cases hstatus : UInt8.ofInt
      (disk.watched.writeSector w unit.toUInt8 lbn.toUInt32 (mem.sector buffer)).1 = 0
    · rcases ih (buffer.add 512) b₁ w₁ (toNat_lbn_succ hlbn) (by omega)
        with ⟨k, r, b', w', hasked, hlog', hleads⟩
      refine ⟨k + 1, r, b', w', hasked.succ, ?_, hblock _ ?_⟩
      · rw [hlog', hlog, blocksFrom_succ, List.append_assoc, List.singleton_append]
      · rw [if_pos hstatus]
        exact hleads
    · refine ⟨1, .RES_ERROR, b₁, w₁, asked_stop n, by simp [hlog, blocksFrom], hblock _ ?_⟩
      rw [if_neg hstatus]
      exact Leads.refl _

end Loops

section Calls

variable {ω : Type} (disk : ArrayDisk ω)

/-- From a message boundary the call runs to its end over the queues, however they interleave, and there
it has asked for the blocks from `first` on of its drive. If it returns `RES_OK`, these are the
blocks that it has moved. -/
structure Call.Moves (c : Call) (b : Bufs) (w : ω) (first : Nat) : Prop where
  ends : ∃ n, ∀ m f,
    FifoRun hostAct (Device.act disk.watched.toDisk) m ⟨c.prog, Device.idle b (w, []), [], []⟩ f →
      m ≤ n ∧ (m = n → ∃ r, f.client = .ret r) ∧
        (m < n → ∃ f', FifoStep hostAct (Device.act disk.watched.toDisk) f f')
  moved : ∀ m r mem device down up,
    FifoRun hostAct (Device.act disk.watched.toDisk) m ⟨c.prog, Device.idle b (w, []), [], []⟩
      ⟨.ret (r, mem), device, down, up⟩ →
    ∃ k b' w', device = Device.idle b' w' ∧ Asked c.count.toNat k r ∧
      w'.2 = blocksFrom c.direction c.unit.toUInt8 first k ∧
      (r = .RES_OK → match c.direction with
        | .read => Loaded (disk.drives w) c.unit.toUInt8 first c.count.toNat c.mem mem c.buffer
        | .write => Wrote (disk.drives w) (disk.drives w'.1) c.unit.toUInt8 first c.count.toNat c.mem
            c.buffer)

variable {disk} {c : Call} {b : Bufs} {w : ω}

/-- The blocks a call asks for, on a hand-in-hand run. -/
theorem call_asks (disk : ArrayDisk ω) (b : Bufs) (w : ω)
    (hspan : c.start.toNat + c.count.toNat ≤ 65536) :
    ∃ k r mem' b' w', Asked c.count.toNat k r ∧
      w'.2 = blocksFrom c.direction c.unit.toUInt8 c.start.toNat k ∧
      Leads hostAct (Device.act disk.watched.toDisk) (.ret (r, mem'), Device.idle b' w')
        (c.prog, Device.idle b (w, [])) := by
  have hlbn : c.start.toNat = c.start.toNat % 65536 :=
    (Nat.mod_eq_of_lt c.start.toNat_lt).symm
  unfold Call.prog
  cases c.direction with
  | read => exact asks_readLoop disk c.unit c.buffer c.mem b (w, []) hlbn hspan
  | write =>
    rcases asks_writeLoop disk c.unit c.buffer c.mem b (w, []) hlbn hspan
      with ⟨k, r, b', w', hasked, hlog, hleads⟩
    exact ⟨k, r, c.mem, b', w', hasked, hlog, hleads⟩

/-- A call moves the blocks from its start on. -/
theorem call_moves (hspan : c.start.toNat + c.count.toNat ≤ 65536) :
    c.Moves disk b w c.start.toNat := by
  rcases call_asks disk b w hspan with ⟨k, r, mem, b', w', hasked, hlog, n, hpath⟩
  refine ⟨⟨n, fun m f hrun => ?_⟩, fun m r' mem' device down up hrun => ?_⟩
  · rcases fifoRun_end (quiet_rest _ _ _ _) hpath hrun with ⟨hle, hend, hstep⟩
    exact ⟨hle, fun hm => ⟨_, congrArg Fifo.client (hend hm)⟩, hstep⟩
  · rcases call_leads disk.watched (c := c) b (w, []) (.inl hspan)
      with ⟨r₁, mem₁, b₁, w₁, hserved, n₁, hpath₁⟩
    have hdone := fifoRun_done (quiet_rest _ _ _ _) hpath hrun rfl
    have hdone₁ := fifoRun_done (quiet_rest _ _ _ _) hpath₁ hrun rfl
    simp only [Fifo.mk.injEq, Prog.ret.injEq, Prod.mk.injEq] at hdone hdone₁
    rcases hdone with ⟨⟨rfl, rfl⟩, hdevice, -⟩
    rcases hdone₁ with ⟨⟨rfl, rfl⟩, hdevice₁, -⟩
    have hworld : w' = w₁ := congrArg Device.world (hdevice.symm.trans hdevice₁)
    subst hworld
    refine ⟨k, b', w', hdevice, hasked, hlog, ?_⟩
    intro hok
    rcases hserved.transferred with ⟨t, haccepts, htransferred⟩
    have ht : t = c.count.toNat := haccepts.eq_iff.mpr (hserved.ok_iff.mp hok)
    subst ht
    cases hdir : c.direction with
    | read =>
      rw [hdir] at htransferred
      exact htransferred.2
    | write =>
      rw [hdir] at htransferred
      exact htransferred.2

/-- A call without blocks moves none, wherever they are counted from. -/
theorem Call.Moves.of_empty {first first' : Nat} (h : c.Moves disk b w first)
    (hcount : c.count.toNat = 0) : c.Moves disk b w first' := by
  refine ⟨h.ends, fun m r mem device down up hrun => ?_⟩
  rcases h.moved _ _ _ _ _ _ hrun with ⟨k, b', w', hdevice, hasked, hlog, hmoved⟩
  have hk : k = 0 := Nat.eq_zero_of_le_zero (hcount ▸ hasked.le)
  subst hk
  refine ⟨0, b', w', hdevice, hasked, hlog, ?_⟩
  intro hok
  have hmoved := hmoved hok
  rw [hcount] at hmoved ⊢
  cases hdir : c.direction with
  | read =>
    rw [hdir] at hmoved
    exact ⟨nofun, hmoved.2⟩
  | write =>
    rw [hdir] at hmoved
    exact ⟨nofun, fun d l _ => hmoved.2 d l (by omega)⟩

/-- A call moves the blocks counted from `base` on exactly if `base` is 0 or there is nothing to move. -/
theorem call_moves_iff {base : Nat} (hspan : base + c.start.toNat + c.count.toNat ≤ 65536) :
    c.Moves disk b w (base + c.start.toNat) ↔ base = 0 ∨ c.count.toNat = 0 := by
  have hown : c.start.toNat + c.count.toNat ≤ 65536 := by omega
  rcases call_asks disk b w hown
    with ⟨k, r, mem, b', w', hasked, hlog, n, hpath⟩
  have hrun := fifoRun_exists (quiet_rest disk.watched.toDisk (r, mem) b' w') hpath
  constructor
  · intro hmoves
    by_contra hnot
    rcases not_or.mp hnot with ⟨hbase, hcount⟩
    rcases hmoves.moved _ _ _ _ _ _ hrun with ⟨k', b₁, w₁, hdevice, hasked', hlog', -⟩
    have hworld : w' = w₁ := congrArg Device.world hdevice
    have hk := hasked.some (Nat.pos_of_ne_zero hcount)
    have hk' := hasked'.some (Nat.pos_of_ne_zero hcount)
    rcases Nat.exists_eq_succ_of_ne_zero (Nat.ne_of_gt hk) with ⟨k, rfl⟩
    rcases Nat.exists_eq_succ_of_ne_zero (Nat.ne_of_gt hk') with ⟨k', rfl⟩
    rw [← hworld, hlog, blocksFrom_succ, blocksFrom_succ] at hlog'
    -- the first block asked for has the number of the call, not that of the volume
    have hlba := congrArg (fun l : List Access => l.head?.map Access.lba) hlog'
    have hfirst : UInt32.ofNat c.start.toNat = UInt32.ofNat (base + c.start.toNat) :=
      Option.some.inj hlba
    have hnat := congrArg UInt32.toNat hfirst
    rw [UInt32.toNat_ofNat', UInt32.toNat_ofNat'] at hnat
    omega
  · intro hzero
    by_cases hbase : base = 0
    · subst hbase
      rw [Nat.zero_add] at hspan ⊢
      exact call_moves hspan
    · exact (call_moves (by omega)).of_empty (hzero.resolve_left hbase)

end Calls

end LptStore.Protocol
