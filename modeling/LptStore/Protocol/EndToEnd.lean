import LptStore.Protocol.Exchange

/-!
# The block device end to end

`LPTRead` and `LPTWrite` against `lptprotocol_task`, over a queue of bytes in each direction
and with a disk layer that keeps one array of sectors for each drive. A session is a sequence
of calls, each started from whatever the one before left on the link. The hand-in-hand run
of every call is found by induction on its blocks; `fifoRun_end` and `fifoRun_done` then carry
it to every run over the queues.
-/

namespace LptStore.Protocol

open LptStore.Lib

/-- The sectors of each drive. -/
abbrev Drives := UInt8 → List Sector

/-- The drives with sector `l` of drive `d` replaced. -/
def Drives.put (ds : Drives) (d : UInt8) (l : Nat) (s : Sector) : Drives :=
  fun d' => if d' = d then (ds d).set l s else ds d'

/-- A disk layer that keeps an array of sectors for each drive and rejects what lies
outside it. -/
structure ArrayDisk (ω : Type) extends Disk ω where
  drives : ω → Drives
  read_inRange : ∀ {w d l s} buff, (drives w d)[l.toNat]? = some s →
    (readSector w d l buff).1 = (0, s)
  read_outOfRange : ∀ {w d l} buff, (drives w d).length ≤ l.toNat →
    ¬ 256 ∣ (readSector w d l buff).1.1
  drives_read : ∀ w d l buff, drives (readSector w d l buff).2 = drives w
  write_inRange : ∀ {w d l} data, l.toNat < (drives w d).length →
    (writeSector w d l data).1 = 0 ∧
      drives (writeSector w d l data).2 = (drives w).put d l.toNat data
  write_outOfRange : ∀ {w d l} data, (drives w d).length ≤ l.toNat →
    ¬ 256 ∣ (writeSector w d l data).1 ∧ drives (writeSector w d l data).2 = drives w

/-- The arrays themselves as a disk layer. -/
def arrayDisk : ArrayDisk Drives where
  getDrives _ := 0
  getBlocks ds d := UInt32.ofNat (ds d).length
  readSector ds d l buff :=
    match (ds d)[l.toNat]? with
    | some s => ((0, s), ds)
    | none => ((-1, buff), ds)
  writeSector ds d l data :=
    if l.toNat < (ds d).length then (0, ds.put d l.toNat data) else (-1, ds)
  drives ds := ds
  read_inRange buff h := by simp [h]
  read_outOfRange buff h := by simp [h]
  drives_read w d l buff := by split <;> rfl
  write_inRange data h := by simp [h]
  write_outOfRange data h := by simp [Nat.not_lt.mpr h]

section Calls

/-- A drive number, and blocks whose numbers do not wrap. -/
structure Call.Fits (c : Call) : Prop where
  unit_lt : c.unit.toNat < 256
  span_le : c.start.toNat + c.count.toNat ≤ 65536

/-- A call that has returned. -/
structure Return where
  call : Call
  result : DResult
  mem : Mem

/-- The device and the two queues between calls. -/
@[ext]
structure Link (ω : Type) where
  device : Device ω
  down : List UInt8
  up : List UInt8

/-- A message boundary: the device is between two requests and no byte is unread. -/
def Link.rest {ω : Type} (b : Bufs) (w : ω) : Link ω := ⟨Device.idle b w, [], []⟩

/-- A run of calls, one after the other, over the queues. -/
inductive Session {ω : Type} (disk : Disk ω) : Link ω → List Return → Link ω → Prop
  | nil (l : Link ω) : Session disk l [] l
  | cons {l l' l'' : Link ω} {c : Call} {r : DResult} {mem : Mem} {rs : List Return} {m : Nat} :
      FifoRun hostAct (Device.act disk) m ⟨c.prog, l.device, l.down, l.up⟩
        ⟨.ret (r, mem), l'.device, l'.down, l'.up⟩ →
      Session disk l' rs l'' → Session disk l (⟨c, r, mem⟩ :: rs) l''

end Calls

section Spec

/-- Of `n` blocks from `start` on, a drive of `size` blocks accepts the first `t`: all of
them, or those before the first that is out of range. -/
structure Accepts (size start n t : Nat) : Prop where
  le : t ≤ n
  inRange : ∀ j < t, start + j < size
  stops : t < n → size ≤ start + t

/-- The result of a call that transferred `t` of `n` blocks. -/
def resultOf (n t : Nat) : DResult := if t = n then .RES_OK else .RES_ERROR

/-- The `t` blocks from `start` on of drive `d` hold the memory from `p` on, and nothing
else changed. -/
def Wrote (before after : Drives) (d : UInt8) (start t : Nat) (mem : Mem) (p : FarPtr) : Prop :=
  (∀ j < t, (after d)[start + j]? = some (mem.sector (p.add (512 * j)))) ∧
    ∀ d' l, ¬ (d' = d ∧ start ≤ l ∧ l < start + t) → (after d')[l]? = (before d')[l]?

/-- The memory from `p` on holds the `t` blocks from `start` on of drive `d`, and nothing
else changed. The 129th lies over the first, where the offset has gone round, and so on: of more than 128
the last 128 are there. -/
def Loaded (ds : Drives) (d : UInt8) (start t : Nat) (mem mem' : Mem) (p : FarPtr) : Prop :=
  (∀ j < t, t ≤ j + 128 → (ds d)[start + j]? = some (mem'.sector (p.add (512 * j)))) ∧
    ∀ a, ¬ p.Covers (512 * t) a → mem' a = mem a

/-- In a buffer that ends within its segment all blocks are there. -/
theorem Loaded.block {ds : Drives} {d : UInt8} {start t j : Nat} {mem mem' : Mem} {p : FarPtr}
    (h : Loaded ds d start t mem mem' p) (hspans : p.Spans (512 * t)) (hj : j < t) :
    (ds d)[start + j]? = some (mem'.sector (p.add (512 * j))) := by
  have hle := hspans.le
  exact h.1 j hj (by omega)

theorem accepts_none (size start : Nat) : Accepts size start 0 0 :=
  ⟨Nat.le_refl 0, fun _ hj => absurd hj (Nat.not_lt_zero _), fun h => absurd h (Nat.lt_irrefl 0)⟩

theorem accepts_stop {size start : Nat} (n : Nat) (h : size ≤ start) :
    Accepts size start (n + 1) 0 :=
  ⟨Nat.zero_le _, fun _ hj => absurd hj (Nat.not_lt_zero _), fun _ => h⟩

theorem accepts_succ {size start n t : Nat} (h : start < size)
    (ht : Accepts size (start + 1) n t) : Accepts size start (n + 1) (t + 1) := by
  refine ⟨Nat.succ_le_succ ht.le, fun j hj => ?_, fun hlt => ?_⟩
  · rcases j with _ | j
    · exact h
    · have hin := ht.inRange j (Nat.lt_of_succ_lt_succ hj)
      omega
  · have hstop := ht.stops (Nat.lt_of_succ_lt_succ hlt)
    omega

/-- All blocks were transferred exactly when all are in range. -/
theorem Accepts.eq_iff {size start n t : Nat} (h : Accepts size start n t) :
    t = n ↔ ∀ j < n, start + j < size := by
  constructor
  · rintro rfl
    exact h.inRange
  · intro hall
    apply Nat.le_antisymm h.le
    apply Nat.le_of_not_lt
    intro hlt
    have hin := hall t hlt
    have hstop := h.stops hlt
    omega

theorem resultOf_succ (n t : Nat) : resultOf (n + 1) (t + 1) = resultOf n t := by
  simp [resultOf]

theorem put_get {ds : Drives} {d : UInt8} {l : Nat} (s : Sector) (h : l < (ds d).length) :
    (ds.put d l s d)[l]? = some s := by
  simp [Drives.put, h]

theorem put_get_ne {ds : Drives} {d d' : UInt8} {l l' : Nat} (s : Sector)
    (h : ¬ (d' = d ∧ l' = l)) : (ds.put d l s d')[l']? = (ds d')[l']? := by
  unfold Drives.put
  split
  · next hd =>
    subst hd
    exact List.getElem?_set_ne fun hl => h ⟨rfl, hl.symm⟩
  · rfl

theorem put_length (ds : Drives) (d d' : UInt8) (l : Nat) (s : Sector) :
    (ds.put d l s d').length = (ds d').length := by
  unfold Drives.put
  split
  · next hd => rw [List.length_set, hd]
  · rfl

theorem wrote_zero (ds : Drives) (d : UInt8) (start : Nat) (mem : Mem) (p : FarPtr) :
    Wrote ds ds d start 0 mem p :=
  ⟨fun _ hj => absurd hj (Nat.not_lt_zero _), fun _ _ _ => rfl⟩

theorem wrote_succ {before after : Drives} {d : UInt8} {start t : Nat} {mem : Mem} {p : FarPtr}
    (h : start < (before d).length)
    (hw : Wrote (before.put d start (mem.sector p)) after d (start + 1) t mem (p.add 512)) :
    Wrote before after d start (t + 1) mem p := by
  obtain ⟨hwritten, hkept⟩ := hw
  refine ⟨fun j hj => ?_, fun d' l hl => ?_⟩
  · rcases j with _ | j
    · rw [Nat.mul_zero, Nat.add_zero, FarPtr.add_zero, hkept d start (by omega)]
      exact put_get _ h
    · have hj := hwritten j (Nat.lt_of_succ_lt_succ hj)
      rw [FarPtr.add_add] at hj
      rw [show start + (j + 1) = start + 1 + j by omega, hj,
        show 512 * (j + 1) = 512 + 512 * j by omega]
  · rw [hkept d' l fun ⟨hd, hle, hlt⟩ => hl ⟨hd, by omega, by omega⟩]
    exact put_get_ne _ fun ⟨hd, heq⟩ => hl ⟨hd, by omega, by omega⟩

theorem sector_congr {m m' : Mem} {p : FarPtr} (h : ∀ a, p.Covers 512 a → m a = m' a) :
    m.sector p = m'.sector p := by
  apply Sector.ofFn_congr
  intro i hi
  exact h (p.addr i) (FarPtr.covers_iff.mpr ⟨i, hi, rfl⟩)

theorem sector_write (m : Mem) (p : FarPtr) (s : Sector) : (m.write p s.bytes).sector p = s := by
  ext1
  apply List.ext_getElem
  · simp [Cells.sector, Sector.ofFn]
  · intro i h₁ h₂
    have hle : s.bytes.length ≤ 65536 := by simp
    simp only [Cells.sector, Sector.ofFn, List.getElem_map, List.getElem_range]
    rw [Cells.write_addr hle h₂]

theorem loaded_zero (ds : Drives) (d : UInt8) (start : Nat) (mem : Mem) (p : FarPtr) :
    Loaded ds d start 0 mem mem p :=
  ⟨fun _ hj => absurd hj (Nat.not_lt_zero _), fun _ _ => rfl⟩

theorem loaded_succ {ds : Drives} {d : UInt8} {start t : Nat} {mem mem' : Mem} {p : FarPtr}
    {s : Sector} (h : (ds d)[start]? = some s)
    (hl : Loaded ds d (start + 1) t (mem.write p s.bytes) mem' (p.add 512)) :
    Loaded ds d start (t + 1) mem mem' p := by
  obtain ⟨hloaded, hkept⟩ := hl
  refine ⟨fun j hj hlast => ?_, fun a ha => ?_⟩
  · rcases j with _ | j
    · -- the blocks behind it do not come round to the first
      have hround : 512 + 512 * t ≤ 65536 := by omega
      have hfirst : mem'.sector p = s := by
        rw [← sector_write mem p s]
        apply sector_congr
        intro a ha
        exact hkept a (FarPtr.not_covers_add hround ha)
      rw [Nat.mul_zero, Nat.add_zero, FarPtr.add_zero, hfirst, h]
    · have hj := hloaded j (Nat.lt_of_succ_lt_succ hj) (by omega)
      rw [FarPtr.add_add] at hj
      rw [show start + (j + 1) = start + 1 + j by omega, hj,
        show 512 * (j + 1) = 512 + 512 * j by omega]
  · rw [show 512 * (t + 1) = 512 + 512 * t by omega, FarPtr.covers_add, not_or] at ha
    rw [hkept a ha.2, Cells.write_of_not_covers]
    rw [s.length_bytes]
    exact ha.1

end Spec

section Loops

variable {ω : Type} (disk : ArrayDisk ω)

theorem ofInt_eq_zero {r : Int} : UInt8.ofInt r = 0 ↔ 256 ∣ r := by
  have hnat : (UInt8.ofInt r).toNat = (r % 256).toNat % 256 := rfl
  rw [← UInt8.toNat_inj, hnat, UInt8.toNat_zero]
  omega

theorem toNat_lbn {lbn : UInt16} {start : Nat} (hlbn : lbn.toNat = start % 65536)
    (hstart : start < 65536) : lbn.toUInt32.toNat = start := by
  rw [UInt16.toNat_toUInt32, hlbn]
  exact Nat.mod_eq_of_lt hstart

theorem toNat_lbn_succ {lbn : UInt16} {start : Nat} (hlbn : lbn.toNat = start % 65536) :
    (lbn + 1).toNat = (start + 1) % 65536 := by
  rw [UInt16.toNat_add, hlbn]
  simp

/-- The loop of `LPTWrite`, by induction on the blocks to go. The block number does not wrap, or not
before one is rejected. -/
theorem leads_writeLoop (unit : UInt16) (mem : Mem) {n start : Nat} {lbn : UInt16} (buffer : FarPtr)
    (b : Bufs) (w : ω) (hlbn : lbn.toNat = start % 65536)
    (hspan : start + n ≤ 65536 ∨ start < 65536 ∧ (disk.drives w unit.toUInt8).length < 65536) :
    ∃ t b' w', Accepts (disk.drives w unit.toUInt8).length start n t ∧
      Wrote (disk.drives w) (disk.drives w') unit.toUInt8 start t mem buffer ∧
      Leads hostAct (Device.act disk.toDisk) (.ret (resultOf n t, mem), Device.idle b' w')
        (lptWriteLoop unit n lbn buffer mem, Device.idle b w) := by
  induction n generalizing start lbn buffer b w with
  | zero => exact ⟨0, b, w, accepts_none _ _, wrote_zero _ _ _ _ _, Leads.refl _⟩
  | succ n ih =>
    have hl := toNat_lbn hlbn (by omega)
    obtain ⟨b₁, hblock⟩ := leads_writeLoop_succ disk.toDisk unit n lbn buffer mem b w
    rcases Nat.lt_or_ge start (disk.drives w unit.toUInt8).length with hin | hout
    · obtain ⟨hstatus, hput⟩ := disk.write_inRange (mem.sector buffer) (hl ▸ hin)
      obtain ⟨t, b', w', hacc, hwrote, hleads⟩ := ih (buffer.add 512) b₁
        (disk.writeSector w unit.toUInt8 lbn.toUInt32 (mem.sector buffer)).2
        (toNat_lbn_succ hlbn) (by rw [hput, put_length]; omega)
      rw [hput, hl] at hwrote hacc
      rw [put_length] at hacc
      refine ⟨t + 1, b', w', accepts_succ hin hacc, wrote_succ hin hwrote, ?_⟩
      rw [resultOf_succ]
      apply hblock
      rw [hstatus]
      exact hleads
    · obtain ⟨hstatus, hsame⟩ := disk.write_outOfRange (mem.sector buffer) (hl ▸ hout)
      refine ⟨0, b₁, (disk.writeSector w unit.toUInt8 lbn.toUInt32 (mem.sector buffer)).2,
        accepts_stop n hout, ?_, ?_⟩
      · rw [hsame]
        exact wrote_zero _ _ _ _ _
      · apply hblock
        rw [if_neg fun h => hstatus (ofInt_eq_zero.mp h)]
        exact Leads.refl _

/-- The loop of `LPTRead`, by induction on the blocks to go. -/
theorem leads_readLoop (unit : UInt16) {n start : Nat} {lbn : UInt16} (buffer : FarPtr)
    (mem : Mem) (b : Bufs) (w : ω) (hlbn : lbn.toNat = start % 65536)
    (hspan : start + n ≤ 65536 ∨ start < 65536 ∧ (disk.drives w unit.toUInt8).length < 65536) :
    ∃ t mem' b' w', Accepts (disk.drives w unit.toUInt8).length start n t ∧
      disk.drives w' = disk.drives w ∧
      Loaded (disk.drives w) unit.toUInt8 start t mem mem' buffer ∧
      Leads hostAct (Device.act disk.toDisk) (.ret (resultOf n t, mem'), Device.idle b' w')
        (lptReadLoop unit n lbn buffer mem, Device.idle b w) := by
  induction n generalizing start lbn buffer mem b w with
  | zero => exact ⟨0, mem, b, w, accepts_none _ _, rfl, loaded_zero _ _ _ _ _, Leads.refl _⟩
  | succ n ih =>
    have hl := toNat_lbn hlbn (by omega)
    obtain ⟨buff, b₁, hblock⟩ := leads_readLoop_succ disk.toDisk unit n lbn buffer mem b w
    have hsame := disk.drives_read w unit.toUInt8 lbn.toUInt32 buff
    rcases Nat.lt_or_ge start (disk.drives w unit.toUInt8).length with hin | hout
    · obtain ⟨sector, hget⟩ : ∃ sector, (disk.drives w unit.toUInt8)[start]? = some sector :=
        ⟨_, List.getElem?_eq_getElem hin⟩
      have hanswer := disk.read_inRange buff (hl.symm ▸ hget)
      obtain ⟨t, mem', b', w', hacc, hdrives, hloaded, hleads⟩ := ih (buffer.add 512)
        (mem.write buffer sector.bytes) b₁
        (disk.readSector w unit.toUInt8 lbn.toUInt32 buff).2 (toNat_lbn_succ hlbn)
        (by rw [hsame]; omega)
      rw [hsame] at hacc hdrives hloaded
      refine ⟨t + 1, mem', b', w', accepts_succ hin hacc, hdrives, loaded_succ hget hloaded, ?_⟩
      rw [resultOf_succ]
      apply hblock
      rw [hanswer]
      exact hleads
    · have hstatus := disk.read_outOfRange buff (hl.symm ▸ hout)
      refine ⟨0, mem, b₁, (disk.readSector w unit.toUInt8 lbn.toUInt32 buff).2,
        accepts_stop n hout, hsame, loaded_zero _ _ _ _ _, ?_⟩
      apply hblock
      rw [blockRead, if_neg fun h => hstatus (ofInt_eq_zero.mp h)]
      exact Leads.refl _

end Loops

section Sessions

variable {ω : Type} (disk : ArrayDisk ω)

/-- What a call must have done when it returns `r` and leaves the memory `mem`: it returns
`RES_OK` exactly when all its blocks are in range, and it transferred the blocks before
the first that is not. A read leaves them all in a buffer that ends within its segment. -/
structure Call.Served (c : Call) (before after : Drives) (r : DResult) (mem : Mem) : Prop where
  ok_iff : r = .RES_OK ↔
    ∀ j < c.count.toNat, c.start.toNat + j < (before c.unit.toUInt8).length
  error : r ≠ .RES_OK → r = .RES_ERROR
  transferred : ∃ t, Accepts (before c.unit.toUInt8).length c.start.toNat c.count.toNat t ∧
    match c.direction with
    | .read => after = before ∧ Loaded before c.unit.toUInt8 c.start.toNat t c.mem mem c.buffer
    | .write => mem = c.mem ∧ Wrote before after c.unit.toUInt8 c.start.toNat t c.mem c.buffer

/-- Every call of a session, one after the other. -/
def AllServed : Drives → List Return → Drives → Prop
  | before, [], after => after = before
  | before, ret :: rets, after =>
      ∃ mid, ret.call.Served before mid ret.result ret.mem ∧ AllServed mid rets after

theorem resultOf_ok {n t : Nat} : resultOf n t = .RES_OK ↔ t = n := by
  unfold resultOf
  split <;> simp_all

theorem resultOf_error {n t : Nat} (h : resultOf n t ≠ .RES_OK) : resultOf n t = .RES_ERROR := by
  unfold resultOf at h ⊢
  split at h
  · exact absurd rfl h
  · next hne => exact if_neg hne

/-- A call has a hand-in-hand run from any message boundary to another. -/
theorem call_leads {c : Call} (b : Bufs) (w : ω) (hspan : c.start.toNat + c.count.toNat ≤ 65536 ∨
    (disk.drives w c.unit.toUInt8).length < 65536) :
    ∃ r mem b' w', c.Served (disk.drives w) (disk.drives w') r mem ∧
      Leads hostAct (Device.act disk.toDisk) (.ret (r, mem), Device.idle b' w')
        (c.prog, Device.idle b w) := by
  have hlbn : c.start.toNat = c.start.toNat % 65536 :=
    (Nat.mod_eq_of_lt c.start.toNat_lt).symm
  have hspan := hspan.imp_right fun hlt => And.intro c.start.toNat_lt hlt
  cases hdir : c.direction with
  | read =>
    obtain ⟨t, mem, b', w', hacc, hdrives, hloaded, hleads⟩ :=
      leads_readLoop disk c.unit c.buffer c.mem b w hlbn hspan
    refine ⟨_, mem, b', w', ⟨resultOf_ok.trans hacc.eq_iff, resultOf_error, t, hacc, ?_⟩, ?_⟩
    · rw [hdir]
      exact ⟨hdrives, hloaded⟩
    · unfold Call.prog
      rw [hdir]
      exact hleads
  | write =>
    obtain ⟨t, b', w', hacc, hwrote, hleads⟩ :=
      leads_writeLoop disk c.unit c.mem c.buffer b w hlbn hspan
    refine ⟨_, c.mem, b', w', ⟨resultOf_ok.trans hacc.eq_iff, resultOf_error, t, hacc, ?_⟩, ?_⟩
    · rw [hdir]
      exact ⟨rfl, hwrote⟩
    · unfold Call.prog
      rw [hdir]
      exact hleads

theorem quiet_rest {ω : Type} (disk : Disk ω) {α : Type} (a : α) (b : Bufs) (w : ω) :
    Quiet hostAct (Device.act disk) (Prog.ret a, Device.idle b w) := by
  obtain ⟨k, hk, -⟩ := lptprotocolTask_poll (w := w) b
  refine ⟨rfl, Device.resume (k true) w, ?_⟩
  unfold Device.act Device.idle
  rw [hk]

/-- Every session serves its calls and ends at a message boundary, and from there no
further call can stall: its runs over the queues are bounded and end with the call's return. -/
theorem session_served {b : Bufs} {w : ω} {rets : List Return} {l : Link ω}
    (h : Session disk.toDisk (Link.rest b w) rets l) (hfit : ∀ ret ∈ rets, ret.call.Fits) :
    ∃ b' w', l = Link.rest b' w' ∧ AllServed (disk.drives w) rets (disk.drives w') ∧
      ∀ c : Call, c.Fits → ∃ n, ∀ m f,
        FifoRun hostAct (Device.act disk.toDisk) m ⟨c.prog, l.device, l.down, l.up⟩ f →
          m ≤ n ∧ (m = n → ∃ r, f.client = .ret r) ∧
            (m < n → ∃ f', FifoStep hostAct (Device.act disk.toDisk) f f') := by
  generalize hl : Link.rest b w = l₀ at h
  induction h generalizing b w with
  | nil l =>
    subst hl
    refine ⟨b, w, rfl, rfl, ?_⟩
    intro c hc
    obtain ⟨r, mem, b', w', -, n, hpath⟩ := call_leads disk b w (.inl hc.span_le)
    refine ⟨n, ?_⟩
    intro m f hrun
    obtain ⟨hle, hend, hstep⟩ := fifoRun_end (quiet_rest _ _ _ _) hpath hrun
    exact ⟨hle, fun hm => ⟨_, congrArg Fifo.client (hend hm)⟩, hstep⟩
  | cons hrun _ ih =>
    subst hl
    obtain ⟨hc, hfit⟩ := List.forall_mem_cons.mp hfit
    obtain ⟨r, mem, b₁, w₁, hserved, n, hpath⟩ := call_leads disk b w (.inl hc.span_le)
    have hdone := fifoRun_done (quiet_rest _ _ _ _) hpath hrun rfl
    simp only [Fifo.mk.injEq, Prog.ret.injEq, Prod.mk.injEq] at hdone
    obtain ⟨⟨rfl, rfl⟩, hdevice, hdown, hup⟩ := hdone
    have hrest₁ : Link.rest b₁ w₁ = _ := Link.ext hdevice.symm hdown.symm hup.symm
    obtain ⟨b', w', hrest, hall, hnext⟩ := ih hfit hrest₁
    exact ⟨b', w', hrest, ⟨_, hserved, hall⟩, hnext⟩

/-- Any such calls make a session. -/
theorem session_exists {calls : List Call} (hfit : ∀ c ∈ calls, c.Fits) (b : Bufs) (w : ω) :
    ∃ rets l, Session disk.toDisk (Link.rest b w) rets l ∧ rets.map Return.call = calls := by
  induction calls generalizing b w with
  | nil => exact ⟨[], _, .nil _, rfl⟩
  | cons c calls ih =>
    obtain ⟨hc, hfit⟩ := List.forall_mem_cons.mp hfit
    obtain ⟨r, mem, b', w', -, n, hpath⟩ := call_leads disk b w (.inl hc.span_le)
    obtain ⟨rets, l, hsession, rfl⟩ := ih hfit b' w'
    have hrun := fifoRun_exists (quiet_rest disk.toDisk (r, mem) b' w') hpath
    exact ⟨⟨c, r, mem⟩ :: rets, l, .cons hrun hsession, rfl⟩

/-- Writing the block at address 0 over the first of two blocks, then reading both back and
one more. -/
theorem session_served_pair :
    ∃ rets l, Session arrayDisk.toDisk (Link.rest ⟨.zero, .zero⟩ fun _ => [.zero, .zero]) rets l ∧
      rets.map Return.call =
        [⟨.write, 0, 0, ⟨0, 0⟩, 1, fun a => UInt8.ofNat a⟩, ⟨.read, 0, 0, ⟨0, 0⟩, 3, fun _ => 0⟩] ∧
      ∃ b' w', l = Link.rest b' w' ∧ AllServed (fun _ => [.zero, .zero]) rets w' := by
  have hfit : ∀ c ∈ [(⟨.write, 0, 0, ⟨0, 0⟩, 1, fun a => UInt8.ofNat a⟩ : Call),
      ⟨.read, 0, 0, ⟨0, 0⟩, 3, fun _ => 0⟩], c.Fits := by
    intro c hc
    rcases List.mem_pair.mp hc with rfl | rfl
    · exact ⟨by decide, by decide⟩
    · exact ⟨by decide, by decide⟩
  obtain ⟨rets, l, hsession, hcalls⟩ := session_exists arrayDisk hfit ⟨.zero, .zero⟩
    (fun _ => [.zero, .zero])
  have hrets : ∀ ret ∈ rets, ret.call.Fits := by
    intro ret hret
    apply hfit
    rw [← hcalls]
    exact List.mem_map_of_mem hret
  obtain ⟨b', w', hrest, hall, -⟩ := session_served arrayDisk hsession hrets
  exact ⟨rets, l, hsession, hcalls, b', w', hrest, hall⟩

/-- 129 blocks, zeros but for the last. -/
def longDrive : Drives := fun _ => .replicate 128 .zero ++ [.ofFn fun _ => 1]

/-- A read of them to the beginning of a segment. -/
def longRead : Call := ⟨.read, 0, 0, ⟨0, 0⟩, 129, fun _ => 0⟩

/-- It succeeds, and the last block lies over the first. -/
theorem long_read_laps : ¬ ∀ (ds : Drives) (c : Call) (mem : Mem) (l : Link Drives), c.Fits →
    c.direction = .read →
    Session arrayDisk.toDisk (Link.rest ⟨.zero, .zero⟩ ds) [⟨c, .RES_OK, mem⟩] l →
    ∀ j < c.count.toNat, (ds c.unit.toUInt8)[c.start.toNat + j]? =
      some (mem.sector (c.buffer.add (512 * j))) := by
  intro h
  have hfit : longRead.Fits := ⟨by decide, by decide⟩
  obtain ⟨rets, l, hsession, hcalls⟩ :=
    session_exists arrayDisk (List.forall_mem_singleton.mpr hfit) ⟨.zero, .zero⟩ longDrive
  obtain ⟨⟨c, r, mem⟩, rfl, hc⟩ := List.map_eq_singleton_iff.mp hcalls
  obtain rfl : c = longRead := hc
  cases hsession with
  | cons hrun hnil =>
    obtain ⟨r', mem', b', w', hserved, n, hpath⟩ := call_leads arrayDisk (c := longRead)
      ⟨.zero, .zero⟩ longDrive (.inl hfit.span_le)
    have hdone := fifoRun_done (quiet_rest _ _ _ _) hpath hrun rfl
    simp only [Fifo.mk.injEq, Prog.ret.injEq, Prod.mk.injEq] at hdone
    obtain ⟨⟨rfl, rfl⟩, -⟩ := hdone
    have hok : r = .RES_OK := hserved.ok_iff.mpr (by decide +kernel)
    obtain ⟨t, hacc, -, hloaded, -⟩ := hserved.transferred
    obtain rfl : t = 129 := hacc.eq_iff.mpr (hserved.ok_iff.mp hok)
    have hlast := hloaded 128 (by decide) (by decide)
    subst hok
    have hfirst := h longDrive longRead mem l hfit rfl (.cons hrun hnil) 0 (by decide)
    have hlap : (FarPtr.mk 0 0).add (512 * 128) = (FarPtr.mk 0 0).add (512 * 0) := by decide
    have hsame : (longDrive 0)[0 + 128]? = (longDrive 0)[0 + 0]? :=
      hlast.trans ((congrArg (fun p => some (mem.sector p)) hlap).trans hfirst.symm)
    exact absurd hsame (by decide +kernel)

end Sessions

end LptStore.Protocol
