import LptStore.Protocol.EndToEnd

/-!
# The link is transparent

A program of the DOS side that makes calls one after the other has a hand-in-hand run wherever its calls
have. `Disk.call` is what `LPTRead` and `LPTWrite` come to with the disk layer at hand and no link, and
a call over the link does the same, for every disk layer whose answers do not depend on what the
firmware's buffer holds when it is given to `disk_read_sector`.
-/

namespace LptStore.Protocol

open LptStore.Lib

section Sequence

variable {α β δ : Type} {server : δ → ServerAct UInt8 δ} {p p' : HostProg α} {f : α → HostProg β}

theorem hostAct_bind_send {b : UInt8} (h : hostAct p = .send b p') :
    hostAct (p.bind f) = .send b (p'.bind f) := by
  cases p with
  | ret a => simp [hostAct] at h
  | op o k =>
    cases o with
    | writeByte c =>
      obtain ⟨rfl, rfl⟩ := ClientAct.send.inj h
      rfl
    | readByte => simp [hostAct] at h

theorem hostAct_bind_recv {k : UInt8 → HostProg α} (h : hostAct p = .recv k) :
    hostAct (p.bind f) = .recv fun b => (k b).bind f := by
  cases p with
  | ret a => simp [hostAct] at h
  | op o k' =>
    cases o with
    | writeByte c => simp [hostAct] at h
    | readByte =>
      obtain rfl := ClientAct.recv.inj h
      rfl

theorem hostAct_bind_ne_done (h : hostAct p ≠ .done) : hostAct (p.bind f) ≠ .done := by
  cases p with
  | ret a => exact absurd rfl h
  | op o k => cases o <;> simp [hostAct]

theorem continues_bind (h : Continues hostAct p) : Continues hostAct (p.bind f) := by
  cases hp : hostAct p with
  | done => simp [Continues, hp] at h
  | send b p' =>
    simp only [Continues, hp] at h
    simp only [Continues, hostAct_bind_send hp]
    exact hostAct_bind_ne_done h
  | recv k => simp only [Continues, hostAct_bind_recv hp]

theorem meet_bind {n : Nat} {s s' : HostProg α × δ} (h : Meet hostAct server n s s') :
    Meet hostAct server n (s.1.bind f, s.2) (s'.1.bind f, s'.2) := by
  cases h with
  | tau hd => exact .tau hd
  | poll hd hc => exact .poll hd (hostAct_bind_send hc)
  | down hc hd => exact .down (hostAct_bind_send hc) hd
  | up hd hc => exact .up hd (hostAct_bind_recv hc)

/-- Where a program has a hand-in-hand run and what follows it has one, both have one together. -/
theorem leads_bind {a : α} {d d' : δ} {fin : HostProg β × δ}
    (h : Leads hostAct server (.ret a, d') (p, d)) (hnext : Leads hostAct server fin (f a, d')) :
    Leads hostAct server fin (p.bind f, d) := by
  obtain ⟨n, hpath⟩ := h
  generalize hs : (p, d) = s at hpath
  have hgoes : Leads hostAct server fin (s.1.bind f, s.2) := by
    clear hs
    induction hpath with
    | refl => exact hnext
    | step hm hc _ ih => exact .step (meet_bind hm) (continues_bind hc) ih
  subst hs
  exact hgoes

/-- A hand-in-hand run has one end. -/
theorem leads_unique {σ : Type} {client : σ → ClientAct UInt8 σ} {fin fin' s : σ × δ}
    (hfin : Quiet client server fin) (hfin' : Quiet client server fin')
    (h : Leads client server fin s) (h' : Leads client server fin' s) : fin = fin' := by
  obtain ⟨n, hpath⟩ := h
  obtain ⟨n', hpath'⟩ := h'
  induction hpath generalizing n' with
  | refl =>
    cases hpath' with
    | refl => rfl
    | step hm _ _ =>
      obtain ⟨d, hd⟩ := hfin.poll
      have hdone := hfin.done
      cases hm <;> simp_all
  | step hm _ _ ih =>
    obtain ⟨k, -, hrest⟩ := hpath'.tail hfin'.done hfin'.poll hm
    exact ih k hrest

end Sequence

section Direct

variable {ω : Type}

/-- What `disk_read_sector` comes to for the host: the bytes of a block, or none. -/
def Disk.fetch (disk : Disk ω) (w : ω) (d : UInt8) (l : UInt32) (buff : Sector) :
    Option (List UInt8) × ω :=
  (blockRead (disk.readSector w d l buff).1.1 (disk.readSector w d l buff).1.2,
    (disk.readSector w d l buff).2)

/-- A disk layer whose answers do not depend on what is in the buffer that it is given to fill. -/
structure BlindDisk (ω : Type) extends Disk ω where
  blind : ∀ w d l buff buff', toDisk.fetch w d l buff = toDisk.fetch w d l buff'

/-- The loop of `LPTRead` with the disk layer at hand. -/
def Disk.readLoop (disk : Disk ω) (unit : UInt16) : Nat → UInt16 → FarPtr → Mem → ω →
    (DResult × Mem) × ω
  | 0, _, _, mem, w => ((.RES_OK, mem), w)
  | n + 1, lbn, buffer, mem, w =>
      match disk.fetch w unit.toUInt8 lbn.toUInt32 .zero with
      | (some bytes, w') => disk.readLoop unit n (lbn + 1) (buffer.add 512) (mem.write buffer bytes) w'
      | (none, w') => ((.RES_ERROR, mem), w')

/-- The loop of `LPTWrite` with the disk layer at hand. -/
def Disk.writeLoop (disk : Disk ω) (unit : UInt16) : Nat → UInt16 → FarPtr → Mem → ω → DResult × ω
  | 0, _, _, _, w => (.RES_OK, w)
  | n + 1, lbn, buffer, mem, w =>
      match disk.writeSector w unit.toUInt8 lbn.toUInt32 (mem.sector buffer) with
      | (r, w') =>
        if UInt8.ofInt r = 0 then disk.writeLoop unit n (lbn + 1) (buffer.add 512) mem w'
        else (.RES_ERROR, w')

/-- A call with the disk layer at hand: the result, the memory and the state of the disk layer. -/
def Disk.call (disk : Disk ω) (c : Call) (w : ω) : (DResult × Mem) × ω :=
  match c.direction with
  | .read => disk.readLoop c.unit c.count.toNat c.start c.buffer c.mem w
  | .write =>
    let (r, w') := disk.writeLoop c.unit c.count.toNat c.start c.buffer c.mem w
    ((r, c.mem), w')

theorem leads_readDirect (disk : BlindDisk ω) (unit : UInt16) (n : Nat) (lbn : UInt16) (buffer : FarPtr)
    (mem : Mem) (b : Bufs) (w : ω) :
    ∃ b', Leads hostAct (Device.act disk.toDisk)
      (.ret (disk.readLoop unit n lbn buffer mem w).1,
        Device.idle b' (disk.readLoop unit n lbn buffer mem w).2)
      (lptReadLoop unit n lbn buffer mem, Device.idle b w) := by
  induction n generalizing lbn buffer mem b w with
  | zero => exact ⟨b, .refl _⟩
  | succ n ih =>
    obtain ⟨buff, b₁, hblock⟩ := leads_readLoop_succ disk.toDisk unit n lbn buffer mem b w
    have hfetch := disk.blind w unit.toUInt8 lbn.toUInt32 .zero buff
    cases hanswer : disk.fetch w unit.toUInt8 lbn.toUInt32 .zero with
    | mk block w' =>
      rw [hanswer] at hfetch
      obtain ⟨hblock', hw'⟩ := Prod.mk.inj hfetch
      rw [← hblock', ← hw'] at hblock
      cases block with
      | some bytes =>
        obtain ⟨b', hrest⟩ := ih (lbn + 1) (buffer.add 512) (mem.write buffer bytes) b₁ w'
        refine ⟨b', ?_⟩
        simp only [Disk.readLoop, hanswer]
        exact hblock _ hrest
      | none =>
        refine ⟨b₁, ?_⟩
        simp only [Disk.readLoop, hanswer]
        exact hblock _ (.refl _)

theorem leads_writeDirect (disk : Disk ω) (unit : UInt16) (n : Nat) (lbn : UInt16) (buffer : FarPtr)
    (mem : Mem) (b : Bufs) (w : ω) :
    ∃ b', Leads hostAct (Device.act disk)
      (.ret ((disk.writeLoop unit n lbn buffer mem w).1, mem),
        Device.idle b' (disk.writeLoop unit n lbn buffer mem w).2)
      (lptWriteLoop unit n lbn buffer mem, Device.idle b w) := by
  induction n generalizing lbn buffer b w with
  | zero => exact ⟨b, .refl _⟩
  | succ n ih =>
    obtain ⟨b₁, hblock⟩ := leads_writeLoop_succ disk unit n lbn buffer mem b w
    cases hanswer : disk.writeSector w unit.toUInt8 lbn.toUInt32 (mem.sector buffer) with
    | mk r w' =>
      rw [hanswer] at hblock
      by_cases hr : UInt8.ofInt r = 0
      · obtain ⟨b', hrest⟩ := ih (lbn + 1) (buffer.add 512) b₁ w'
        refine ⟨b', ?_⟩
        simp only [Disk.writeLoop, hanswer, hr, if_true] at hrest ⊢
        apply hblock
        simpa only [hr, if_true] using hrest
      · refine ⟨b₁, ?_⟩
        simp only [Disk.writeLoop, hanswer, hr, if_false]
        apply hblock
        simpa only [hr, if_false] using Leads.refl _

/-- A call over the link does what it does with the disk layer at hand. -/
theorem leads_call (disk : BlindDisk ω) (c : Call) (b : Bufs) (w : ω) :
    ∃ b', Leads hostAct (Device.act disk.toDisk)
      (.ret (disk.call c w).1, Device.idle b' (disk.call c w).2) (c.prog, Device.idle b w) := by
  cases hdir : c.direction with
  | read =>
    simp only [Disk.call, Call.prog, hdir]
    exact leads_readDirect disk c.unit _ c.start c.buffer c.mem b w
  | write =>
    simp only [Disk.call, Call.prog, hdir]
    exact leads_writeDirect disk.toDisk c.unit _ c.start c.buffer c.mem b w

/-- What a disk layer of arrays answers to a read. -/
theorem fetch_array (disk : ArrayDisk ω) (w : ω) (d : UInt8) (l : UInt32) (buff : Sector) :
    (disk.fetch w d l buff).1 = (disk.drives w d)[l.toNat]?.map Sector.bytes := by
  unfold Disk.fetch blockRead
  cases hsector : (disk.drives w d)[l.toNat]? with
  | some s =>
    rw [disk.read_inRange buff hsector]
    rfl
  | none =>
    have hout := disk.read_outOfRange buff (List.getElem?_eq_none_iff.mp hsector)
    exact if_neg fun h => hout (ofInt_eq_zero.mp h)

theorem fetch_arrayDisk (ds : Drives) (d : UInt8) (l : UInt32) (buff : Sector) :
    arrayDisk.fetch ds d l buff = ((ds d)[l.toNat]?.map Sector.bytes, ds) :=
  Prod.ext (fetch_array arrayDisk ds d l buff) (arrayDisk.drives_read ds d l buff)

/-- A disk layer of arrays that does not look at the buffer. -/
structure BlindArray (ω : Type) extends ArrayDisk ω, BlindDisk ω

/-- The arrays themselves are one. -/
def blindArray : BlindArray Drives where
  toArrayDisk := arrayDisk
  blind ds d l buff buff' := by rw [fetch_arrayDisk, fetch_arrayDisk]

/-- A call with the disk layer at hand serves its blocks as a call over the link does. -/
theorem direct_served (disk : BlindArray ω) {c : Call} (w : ω)
    (hspan : c.start.toNat + c.count.toNat ≤ 65536 ∨
      (disk.drives w c.unit.toUInt8).length < 65536) :
    c.Served (disk.drives w) (disk.drives (disk.call c w).2) (disk.call c w).1.1
      (disk.call c w).1.2 := by
  obtain ⟨r, mem, b, w', hserved, hleads⟩ :=
    call_leads disk.toArrayDisk ⟨.zero, .zero⟩ w hspan
  obtain ⟨b', hdirect⟩ := leads_call disk.toBlindDisk c ⟨.zero, .zero⟩ w
  have hsame := leads_unique (quiet_rest _ _ _ _) (quiet_rest _ _ _ _) hleads hdirect
  obtain ⟨hret, hidle⟩ := Prod.mk.inj hsame
  have hresult : (r, mem) = (disk.call c w).1 := Prog.ret.inj hret
  have hworld : w' = (disk.call c w).2 := congrArg Device.world hidle
  rw [← hresult, ← hworld]
  exact hserved

end Direct

section Invariant

variable {ω : Type} {disk : Disk ω} {I : ω → Prop}

/-- Reads and writes of the disk layer keep an invariant. -/
structure Disk.Keeps (disk : Disk ω) (I : ω → Prop) : Prop where
  read : ∀ {w} d l buff, I w → I (disk.readSector w d l buff).2
  write : ∀ {w} d l data, I w → I (disk.writeSector w d l data).2

/-- Core 1 keeps it wherever it goes, whatever it is sent. -/
theorem act_keepsWorld (hkeeps : disk.Keeps I) {d : Device ω} (hd : I d.world) :
    (Device.act disk d).All fun d => I d.world := by
  obtain ⟨prog, w⟩ := d
  have hresume : ∀ (prog : DevProg Bufs) {w : ω}, I w → I (Device.resume prog w).world := by
    intro prog w hw
    cases prog <;> exact hw
  cases prog with
  | ret b => exact hd
  | op o k =>
    cases o with
    | hasbyte => exact hresume _ hd
    | readbyte => exact ⟨fun b => hresume _ hd, hresume _ hd⟩
    | writebyte b => exact ⟨hresume _ hd, hresume _ hd⟩
    | store buf i => exact hresume _ hd
    | getDrives => exact hresume _ hd
    | getBlocks n => exact hresume _ hd
    | readSector n lbn buff => exact hresume _ (hkeeps.read n lbn buff hd)
    | writeSector n lbn buff => exact hresume _ (hkeeps.write n lbn buff hd)

end Invariant

section Simulation

variable {ω ω' : Type} {A : Disk ω} {B : Disk ω'} {f : ω' → ω} {G : ω' → Prop}

/-- As long as `B` stays in `G`, which it does not come back to, `A` answers from `f w` as `B` from `w`,
whatever block is asked for. -/
structure Disk.Follows (A : Disk ω) (B : Disk ω') (f : ω' → ω) (G : ω' → Prop) : Prop where
  read : ∀ w d (l : UInt16), G (B.fetch w d l.toUInt32 .zero).2 → G w ∧
    A.fetch (f w) d l.toUInt32 .zero =
      ((B.fetch w d l.toUInt32 .zero).1, f (B.fetch w d l.toUInt32 .zero).2)
  write : ∀ w d (l : UInt16) data, G (B.writeSector w d l.toUInt32 data).2 → G w ∧
    A.writeSector (f w) d l.toUInt32 data =
      ((B.writeSector w d l.toUInt32 data).1, f (B.writeSector w d l.toUInt32 data).2)

theorem Disk.Follows.readLoop (h : A.Follows B f G) (unit : UInt16) (n : Nat) (lbn : UInt16)
    (buffer : FarPtr) (mem : Mem) (w : ω') (hG : G (B.readLoop unit n lbn buffer mem w).2) :
    G w ∧ A.readLoop unit n lbn buffer mem (f w) =
      ((B.readLoop unit n lbn buffer mem w).1, f (B.readLoop unit n lbn buffer mem w).2) := by
  induction n generalizing lbn buffer mem w with
  | zero => exact ⟨hG, rfl⟩
  | succ n ih =>
    have hread := h.read w unit.toUInt8 lbn
    unfold Disk.readLoop at hG ⊢
    cases hB : B.fetch w unit.toUInt8 lbn.toUInt32 .zero with
    | mk block w₁ =>
      rw [hB] at hread hG
      cases block with
      | some bytes =>
        obtain ⟨hG₁, hrest⟩ := ih _ _ _ _ hG
        obtain ⟨hw, hA⟩ := hread hG₁
        simp only [hA, hrest]
        exact ⟨hw, trivial⟩
      | none =>
        obtain ⟨hw, hA⟩ := hread hG
        simp only [hA]
        exact ⟨hw, trivial⟩

theorem Disk.Follows.writeLoop (h : A.Follows B f G) (unit : UInt16) (n : Nat) (lbn : UInt16)
    (buffer : FarPtr) (mem : Mem) (w : ω') (hG : G (B.writeLoop unit n lbn buffer mem w).2) :
    G w ∧ A.writeLoop unit n lbn buffer mem (f w) =
      ((B.writeLoop unit n lbn buffer mem w).1, f (B.writeLoop unit n lbn buffer mem w).2) := by
  induction n generalizing lbn buffer w with
  | zero => exact ⟨hG, rfl⟩
  | succ n ih =>
    have hwrite := h.write w unit.toUInt8 lbn (mem.sector buffer)
    unfold Disk.writeLoop at hG ⊢
    cases hB : B.writeSector w unit.toUInt8 lbn.toUInt32 (mem.sector buffer) with
    | mk r w₁ =>
      rw [hB] at hwrite hG
      by_cases hr : UInt8.ofInt r = 0
      · simp only [hr, if_true] at hG ⊢
        obtain ⟨hG₁, hrest⟩ := ih _ _ _ hG
        obtain ⟨hw, hA⟩ := hwrite hG₁
        simp only [hA, hr, if_true, hrest]
        exact ⟨hw, trivial⟩
      · simp only [hr, if_false] at hG ⊢
        obtain ⟨hw, hA⟩ := hwrite hG
        simp only [hA, hr, if_false]
        exact ⟨hw, trivial⟩

theorem Disk.Follows.call (h : A.Follows B f G) (c : Call) (w : ω') (hG : G (B.call c w).2) :
    G w ∧ A.call c (f w) = ((B.call c w).1, f (B.call c w).2) := by
  unfold Disk.call at hG ⊢
  cases hdir : c.direction with
  | read =>
    simp only [hdir] at hG ⊢
    exact h.readLoop c.unit _ c.start c.buffer c.mem w hG
  | write =>
    simp only [hdir] at hG ⊢
    obtain ⟨hw, hA⟩ := h.writeLoop c.unit _ c.start c.buffer c.mem w hG
    simp only [hA]
    exact ⟨hw, trivial⟩

end Simulation

end LptStore.Protocol
