import LptStore.Lib.Run
import LptStore.Protocol.EndToEnd

/-!
# A host that pauses

The waits of `lptcomms_readbyte` and `lptcomms_writebyte` expire when the host pauses for
more than `PROTOCOL_TIMEOUT`. The device then leaves its request and polls for a new one, while the
host resumes where it was. Here calls follow each other over the queues and waits expire at any point,
and the writes that reach the disk layer are recorded.

As long as no `lptcomms_readbyte` expires, every run stays on the way of the hand-in-hand run of the
present call, or the device has given up a reply and the host waits for the rest of it for good.
When one expires, the rest of the request is read as commands.
-/

namespace LptStore.Protocol

open LptStore.Lib

/-- A write that reaches the disk layer. -/
structure Write where
  drive : UInt8
  lba : UInt32
  data : Sector
  deriving DecidableEq

/-- The disk layer, recording the writes. -/
def Disk.logged {ω : Type} (disk : Disk ω) : Disk (ω × List Write) where
  getDrives w := disk.getDrives w.1
  getBlocks w d := disk.getBlocks w.1 d
  readSector w d l buff := ((disk.readSector w.1 d l buff).1, (disk.readSector w.1 d l buff).2, w.2)
  writeSector w d l data := ((disk.writeSector w.1 d l data).1, (disk.writeSector w.1 d l data).2,
    w.2 ++ [⟨d, l, data⟩])

/-- The write is of a block of the call. -/
def Call.Requests (c : Call) (x : Write) : Prop :=
  c.direction = .write ∧ ∃ j < c.count.toNat, x =
    ⟨c.unit.toUInt8, (c.start + UInt16.ofNat j).toUInt32, c.mem.sector (c.buffer.add (512 * j))⟩

/-- The calls started so far, and the two machines with the queues. -/
structure Paused (ω : Type) where
  started : List Call
  link : Fifo UInt8 (HostProg (DResult × Mem)) (Device (ω × List Write))

/-- The kinds of steps. -/
inductive Event where
  | call
  | link
  | readExpiry
  | writeExpiry
  deriving DecidableEq, Repr

section

variable {ω : Type} (disk : Disk ω)

/-- One step. A wait for a byte expires when there is none, and one with a byte to send before the host
has seen its signal. A host that pauses with the byte half taken is left out: when it resumes, it takes a
nibble twice and the device takes its strobe for a command. -/
inductive PausedStep : Event → Paused ω → Paused ω → Prop
  | call {cs : List Call} {c : Call} {r : DResult × Mem} {d : Device (ω × List Write)}
      {down up : List UInt8} :
      PausedStep .call ⟨cs, .ret r, d, down, up⟩ ⟨cs ++ [c], c.prog, d, down, up⟩
  | link {cs : List Call} {f f' : Fifo UInt8 (HostProg (DResult × Mem)) (Device (ω × List Write))} :
      FifoStep hostAct (Device.act disk.logged) f f' → PausedStep .link ⟨cs, f⟩ ⟨cs, f'⟩
  | readExpiry {cs : List Call} {p : HostProg (DResult × Mem)} {d e : Device (ω × List Write)}
      {k : UInt8 → Device (ω × List Write)} {up : List UInt8} :
      Device.act disk.logged d = .recv k e →
      PausedStep .readExpiry ⟨cs, p, d, [], up⟩ ⟨cs, p, e, [], up⟩
  | writeExpiry {cs : List Call} {p : HostProg (DResult × Mem)} {d d' e : Device (ω × List Write)}
      {b : UInt8} {down up : List UInt8} : Device.act disk.logged d = .send b d' e →
      PausedStep .writeExpiry ⟨cs, p, d, down, up⟩ ⟨cs, p, e, down, up⟩

/-- A run whose steps are all of the kinds `ok`. -/
abbrev PausedRun (ok : Event → Prop) : Paused ω → Paused ω → Prop :=
  Run (PausedStep disk) fun v _ => ok v

end

section Abandon

/-- A failed `lptcomms_writebyte` ends the request. -/
def WriteAbandons : (o : DevOp) → (DevResp o → DevProg Bufs) → Prop
  | .writebyte _, k => ∃ b, k false = .ret b
  | _, _ => True

/-- Every `lptcomms_writebyte` of the program is so. -/
def Abandons : DevProg Bufs → Prop
  | .ret _ => True
  | .op o k => WriteAbandons o k ∧ ∀ r, Abandons (k r)

theorem abandons_writebyte {c : UInt8} {b : Bufs} {p : DevProg Bufs} (h : Abandons p) :
    Abandons (.op (.writebyte c) fun ok => if ok then p else .ret b) := by
  refine ⟨⟨b, rfl⟩, ?_⟩
  intro ok
  cases ok with
  | false => trivial
  | true => exact h

theorem abandons_writebytes (bs : List UInt8) (b : Bufs) :
    Abandons ((lptcommsWritebytes bs).bind fun _ => .ret b) := by
  induction bs with
  | nil => trivial
  | cons c bs ih =>
    have hcons : ((lptcommsWritebytes (c :: bs)).bind fun _ => .ret b) =
        .op (.writebyte c) fun ok => if ok then (lptcommsWritebytes bs).bind fun _ => .ret b
          else .ret b := by
      simp only [lptcommsWritebytes, lptcommsWritebyte, Prog.bind_eq, Prog.op_bind, Prog.ret_bind]
      congr 1
      funext ok
      cases ok <;> rfl
    rw [hcons]
    exact abandons_writebyte ih

theorem abandons_readbytes {buf : BufId} {n i : Nat} {buff : Sector}
    {f : Bool × Sector → DevProg Bufs} (h : ∀ r, Abandons (f r)) :
    Abandons ((readbytesFrom buf n i buff).bind f) := by
  induction n generalizing i buff with
  | zero => exact h _
  | succ n ih =>
    refine ⟨trivial, ?_⟩
    intro r
    cases r with
    | none => exact h _
    | some r => exact ⟨trivial, fun _ => ih⟩

theorem abandons_storeBlock (drv : UInt8) (lba : UInt32) (b : Bufs) :
    Abandons (storeBlock drv lba b) := by
  exact ⟨trivial, fun r => ⟨⟨b, rfl⟩, fun ok => trivial⟩⟩

theorem abandons_sendBlock (b : Bufs) : Abandons (sendBlock b) := by
  unfold sendBlock
  simp only [lptcommsWritebyte, Prog.bind_eq, Prog.op_bind, Prog.ret_bind, Prog.pure_eq]
  split
  · apply abandons_writebyte
    apply abandons_writebyte
    apply abandons_writebyte
    exact abandons_writebytes _ _
  · apply abandons_writebyte
    exact abandons_writebytes _ _

theorem abandons_receiveBlock (drv : UInt8) (lba : UInt32) (compressed : UInt16) (b : Bufs) :
    Abandons (receiveBlock drv lba compressed b) := by
  unfold receiveBlock
  split
  · apply abandons_readbytes
    intro ⟨ok, buff⟩
    cases ok with
    | false => trivial
    | true => exact abandons_storeBlock _ _ _
  · apply abandons_readbytes
    intro ⟨ok, buff⟩
    cases ok with
    | false => trivial
    | true => exact abandons_storeBlock _ _ _

theorem abandons_answerRead (r : Int) (b : Bufs) : Abandons (answerRead r b) := by
  unfold answerRead
  split
  · exact abandons_sendBlock b
  · exact ⟨⟨b, rfl⟩, fun _ => trivial⟩

theorem abandons_dispatch (cmd : UInt8) (b : Bufs) : Abandons (dispatch cmd b) := by
  unfold dispatch
  split
  · exact abandons_writebytes _ _
  split
  · exact ⟨trivial, fun w => abandons_writebytes _ _⟩
  split
  · apply abandons_readbytes
    intro ⟨ok, buff⟩
    cases ok with
    | false => trivial
    | true => exact ⟨trivial, fun w => abandons_writebytes _ _⟩
  split
  · apply abandons_readbytes
    intro ⟨ok, buff⟩
    cases ok with
    | false => trivial
    | true => exact ⟨trivial, fun r => abandons_answerRead _ _⟩
  split
  · apply abandons_readbytes
    intro ⟨ok, buff⟩
    cases ok with
    | false => trivial
    | true => exact abandons_receiveBlock _ _ _ _
  · trivial

theorem abandons_task (b : Bufs) : Abandons (lptprotocolTask b) := by
  refine ⟨trivial, ?_⟩
  intro ok
  cases ok with
  | false => trivial
  | true => exact ⟨trivial, fun r => abandons_dispatch _ _⟩

theorem abandons_resume {ω : Type} {p : DevProg Bufs} (w : ω) (h : Abandons p) :
    Abandons (Device.resume p w).prog := by
  cases p with
  | ret b => exact abandons_task b
  | op o k => exact h

end Abandon

section Devices

variable {ω : Type} (disk : Disk ω)

/-- What a step of the device keeps and where its expired waits lead: the record grows only at
its end, and a reply that is given up leaves the device between two requests. -/
def ActKeeps (d : Device (ω × List Write)) : ServerAct UInt8 (Device (ω × List Write)) → Prop
  | .tau d' => Abandons d'.prog ∧ d.world.2 <+: d'.world.2
  | .poll d' => Abandons d'.prog ∧ d.world.2 <+: d'.world.2
  | .send _ d' e => Abandons d'.prog ∧ d.world.2 <+: d'.world.2 ∧ ∃ b, e = Device.idle b d.world
  | .recv k _ => ∀ b, Abandons (k b).prog ∧ d.world.2 <+: (k b).world.2

theorem resume_world {ω : Type} (p : DevProg Bufs) (w : ω) : (Device.resume p w).world = w := by
  cases p <;> rfl

theorem resume_grows {l : List Write} {p : DevProg Bufs} {w : ω × List Write} (h : l <+: w.2) :
    l <+: (Device.resume p w).world.2 := by
  rw [resume_world]
  exact h

theorem act_keeps {d : Device (ω × List Write)} (h : Abandons d.prog) :
    ActKeeps d (Device.act disk.logged d) := by
  obtain ⟨p, w⟩ := d
  cases p with
  | ret b => exact ⟨abandons_task b, List.prefix_refl _⟩
  | op o k =>
    obtain ⟨hwrite, hk⟩ := h
    cases o with
    | hasbyte => exact ⟨abandons_resume w (hk true), resume_grows (List.prefix_refl _)⟩
    | readbyte =>
      exact fun b => ⟨abandons_resume w (hk (some b)), resume_grows (List.prefix_refl _)⟩
    | writebyte c =>
      obtain ⟨b, hfail⟩ := hwrite
      refine ⟨abandons_resume w (hk true), resume_grows (List.prefix_refl _), b, ?_⟩
      rw [hfail]
      rfl
    | store buf i => exact ⟨abandons_resume w (hk ()), resume_grows (List.prefix_refl _)⟩
    | getDrives => exact ⟨abandons_resume w (hk _), resume_grows (List.prefix_refl _)⟩
    | getBlocks n => exact ⟨abandons_resume w (hk _), resume_grows (List.prefix_refl _)⟩
    | readSector n lbn buff =>
      exact ⟨abandons_resume _ (hk _), resume_grows (List.prefix_refl _)⟩
    | writeSector n lbn buff =>
      exact ⟨abandons_resume _ (hk _), resume_grows (List.prefix_append _ _)⟩

variable {disk} {α : Type} {f f' : Fifo UInt8 (HostProg α) (Device (ω × List Write))}
  {fin : HostProg α × Device (ω × List Write)}

theorem fifo_keeps (h : Abandons f.server.prog)
    (hs : FifoStep hostAct (Device.act disk.logged) f f') :
    Abandons f'.server.prog ∧ f.server.world.2 <+: f'.server.world.2 := by
  have hkeeps := act_keeps disk h
  cases hs with
  | clientSend _ => exact ⟨h, List.prefix_refl _⟩
  | clientRecv _ => exact ⟨h, List.prefix_refl _⟩
  | serverTau hd =>
    rw [hd] at hkeeps
    exact hkeeps
  | serverPoll hd =>
    rw [hd] at hkeeps
    exact hkeeps
  | serverSend hd =>
    rw [hd] at hkeeps
    exact ⟨hkeeps.1, hkeeps.2.1⟩
  | serverRecv hd =>
    rw [hd] at hkeeps
    exact hkeeps _

/-- On the way to the end, the record is the beginning of the record at the end. -/
theorem near_grows (hfin : Quiet hostAct (Device.act disk.logged) fin) {n : Nat}
    (h : Near hostAct (Device.act disk.logged) fin n f) (ha : Abandons f.server.prog) :
    f.server.world.2 <+: fin.2.world.2 := by
  induction n generalizing f with
  | zero =>
    obtain rfl := near_zero hfin h
    exact List.prefix_refl _
  | succ n ih =>
    obtain ⟨f', hs⟩ := near_progress hfin h
    obtain ⟨n', hn, h'⟩ := near_step hfin h hs
    obtain rfl : n = n' := by omega
    obtain ⟨ha', hgrows⟩ := fifo_keeps ha hs
    exact hgrows.trans (ih h' ha')

end Devices

section Calls

variable {ω : Type} (disk : Disk ω)

/-- The loop of `LPTWrite` against any disk layer: only its own blocks reach it. -/
theorem writeLoop_records (unit : UInt16) (mem : Mem) {n : Nat} (lbn : UInt16) (buffer : FarPtr)
    (b : Bufs) (w : ω × List Write) :
    ∃ r b' w', Leads hostAct (Device.act disk.logged) (.ret r, Device.idle b' w')
        (lptWriteLoop unit n lbn buffer mem, Device.idle b w) ∧
      ∀ x ∈ w'.2, x ∈ w.2 ∨ ∃ j < n, x = ⟨unit.toUInt8, (lbn + UInt16.ofNat j).toUInt32,
        mem.sector (buffer.add (512 * j))⟩ := by
  induction n generalizing lbn buffer b w with
  | zero => exact ⟨_, b, w, Leads.refl _, fun x hx => .inl hx⟩
  | succ n ih =>
    obtain ⟨b₁, hblock⟩ := leads_writeLoop_succ disk.logged unit n lbn buffer mem b w
    let w₁ := (disk.logged.writeSector w unit.toUInt8 lbn.toUInt32 (mem.sector buffer)).2
    have hfirst : ∀ x ∈ w₁.2, x ∈ w.2 ∨ x = ⟨unit.toUInt8, lbn.toUInt32, mem.sector buffer⟩ := by
      intro x hx
      simpa using List.mem_append.mp hx
    by_cases hok : UInt8.ofInt
        (disk.logged.writeSector w unit.toUInt8 lbn.toUInt32 (mem.sector buffer)).1 = 0
    · obtain ⟨r, b', w', hleads, hrec⟩ := ih (lbn + 1) (buffer.add 512) b₁ w₁
      refine ⟨r, b', w', ?_, fun x hx => ?_⟩
      · apply hblock
        rw [if_pos hok]
        exact hleads
      · rcases hrec x hx with hx | ⟨j, hj, rfl⟩
        · rcases hfirst x hx with hx | rfl
          · exact .inl hx
          · exact .inr ⟨0, Nat.succ_pos n, by simp⟩
        · refine .inr ⟨j + 1, Nat.succ_lt_succ hj, ?_⟩
          rw [FarPtr.add_add, show 512 * (j + 1) = 512 + 512 * j by omega, UInt16.ofNat_add,
            UInt16.add_comm (UInt16.ofNat j), ← UInt16.add_assoc]
          rfl
    · refine ⟨(.RES_ERROR, mem), b₁, w₁, ?_, fun x hx => ?_⟩
      · apply hblock
        rw [if_neg hok]
        exact Leads.refl _
      · rcases hfirst x hx with hx | rfl
        · exact .inl hx
        · exact .inr ⟨0, Nat.succ_pos n, by simp⟩

/-- The loop of `LPTRead` writes nothing. -/
theorem readLoop_records (unit : UInt16) {n : Nat} (lbn : UInt16) (buffer : FarPtr) (mem : Mem)
    (b : Bufs) (w : ω × List Write) :
    ∃ r b' w', Leads hostAct (Device.act disk.logged) (.ret r, Device.idle b' w')
        (lptReadLoop unit n lbn buffer mem, Device.idle b w) ∧ w'.2 = w.2 := by
  induction n generalizing lbn buffer mem b w with
  | zero => exact ⟨_, b, w, Leads.refl _, rfl⟩
  | succ n ih =>
    obtain ⟨buff, b₁, hblock⟩ := leads_readLoop_succ disk.logged unit n lbn buffer mem b w
    let answer := disk.logged.readSector w unit.toUInt8 lbn.toUInt32 buff
    cases hblk : blockRead answer.1.1 answer.1.2 with
    | some bytes =>
      obtain ⟨r, b', w', hleads, hrec⟩ := ih (lbn + 1) (buffer.add 512) (mem.write buffer bytes) b₁
        answer.2
      refine ⟨r, b', w', ?_, hrec⟩
      apply hblock
      rw [hblk]
      exact hleads
    | none =>
      refine ⟨(.RES_ERROR, mem), b₁, answer.2, ?_, rfl⟩
      apply hblock
      rw [hblk]
      exact Leads.refl _

/-- A call on its own: only its blocks are written. -/
theorem call_records (c : Call) (b : Bufs) (w : ω × List Write) :
    ∃ r b' w', Leads hostAct (Device.act disk.logged) (.ret r, Device.idle b' w')
        (c.prog, Device.idle b w) ∧ ∀ x ∈ w'.2, x ∈ w.2 ∨ c.Requests x := by
  unfold Call.prog
  cases hdir : c.direction with
  | read =>
    obtain ⟨r, b', w', hleads, hrec⟩ :=
      readLoop_records disk c.unit (n := c.count.toNat) c.start c.buffer c.mem b w
    exact ⟨r, b', w', hleads, fun x hx => .inl (hrec ▸ hx)⟩
  | write =>
    obtain ⟨r, b', w', hleads, hrec⟩ :=
      writeLoop_records disk c.unit c.mem (n := c.count.toNat) c.start c.buffer b w
    refine ⟨r, b', w', hleads, ?_⟩
    intro x hx
    rcases hrec x hx with hx | hx
    · exact .inl hx
    · exact .inr ⟨hdir, hx⟩

end Calls

section Runs

variable {ω : Type} {disk : Disk ω}

/-- Every recorded write is of a block of a call that has been started. -/
def AllRequested (cs : List Call) (l : List Write) : Prop := ∀ x ∈ l, ∃ c ∈ cs, c.Requests x

/-- What holds as long as no `lptcomms_readbyte` expires: the run is on the way of the present call, or
the device has given up its reply and the host waits for the rest. -/
inductive Sound (disk : Disk ω) : Paused ω → Prop
  | live {cs : List Call} {f : Fifo UInt8 (HostProg (DResult × Mem)) (Device (ω × List Write))}
      {n : Nat} {r : DResult × Mem} {b : Bufs} {w : ω × List Write} :
      Near hostAct (Device.act disk.logged) (.ret r, Device.idle b w) n f →
      Abandons f.server.prog → AllRequested cs w.2 → Sound disk ⟨cs, f⟩
  | givenUp {cs : List Call} {p : HostProg (DResult × Mem)} {b : Bufs} {w : ω × List Write}
      {up : List UInt8} : Starved hostAct p up → AllRequested cs w.2 →
      Sound disk ⟨cs, p, Device.idle b w, [], up⟩

theorem idle_polls (disk : Disk ω) (b : Bufs) (w : ω) :
    ∃ d, Device.act disk (Device.idle b w) = .poll d :=
  ⟨_, rfl⟩

theorem sound_requested {s : Paused ω} (h : Sound disk s) :
    AllRequested s.started s.link.server.world.2 := by
  cases h with
  | live hnear ha hall =>
    intro x hx
    exact hall x ((near_grows (quiet_rest _ _ _ _) hnear ha).subset hx)
  | givenUp _ hall => exact hall

theorem sound_step {s t : Paused ω} {v : Event} (h : Sound disk s) (hv : v ≠ .readExpiry)
    (hs : PausedStep disk v s t) : Sound disk t := by
  cases h with
  | @live cs f n r b w hnear ha hall =>
    have hquiet := quiet_rest disk.logged r b w
    cases hs with
    | @call _ c _ d down up =>
      cases near_done hquiet hnear rfl
      obtain ⟨r', b', w', ⟨n, hpath⟩, hrec⟩ := call_records disk c b w
      refine .live (.client (q := []) (n := n) hpath (.refl _)) (abandons_task b) ?_
      intro x hx
      rcases hrec x hx with hx | hx
      · obtain ⟨c', hc', hreq⟩ := hall x hx
        exact ⟨c', List.mem_append_left _ hc', hreq⟩
      · exact ⟨c, List.mem_append_right _ List.mem_cons_self, hx⟩
    | link hf =>
      obtain ⟨n', -, hnear'⟩ := near_step hquiet hnear hf
      exact .live hnear' (fifo_keeps ha hf).1 hall
    | readExpiry _ => exact absurd rfl hv
    | @writeExpiry _ p d d' e c down up hd =>
      obtain ⟨rfl, hstarved⟩ := near_starved hquiet hnear hd
      have hall' := sound_requested (.live hnear ha hall)
      have hkeeps := act_keeps disk ha
      rw [hd] at hkeeps
      obtain ⟨-, -, b', rfl⟩ := hkeeps
      exact .givenUp hstarved hall'
  | @givenUp cs p b w up hstarved hall =>
    obtain ⟨d, hpoll⟩ := idle_polls disk.logged b w
    obtain ⟨k, hk⟩ := hstarved.recv
    cases hs with
    | call => cases hk
    | link hf =>
      cases hf with
      | clientSend hc => simp [hk] at hc
      | clientRecv hc =>
        obtain ⟨k', hk', hrest⟩ := hstarved
        cases hk'.symm.trans hc
        exact .givenUp hrest hall
      | serverTau hd => simp [hpoll] at hd
      | serverSend hd => simp [hpoll] at hd
    | readExpiry _ => exact absurd rfl hv
    | writeExpiry hd => simp [hpoll] at hd

/-- Two machines at a message boundary, no call started and nothing written. -/
structure Fresh (s : Paused ω) : Prop where
  started : s.started = []
  link : ∃ r b w, s.link = ⟨.ret r, Device.idle b (w, []), [], []⟩

theorem sound_fresh {s : Paused ω} (h : Fresh s) : Sound disk s := by
  rcases s with ⟨cs, f⟩
  rcases h with ⟨hcs, r, b, w, hf⟩
  cases hcs
  cases hf
  refine .live (n := 0) (.client (q := []) (.refl) (.refl _)) (abandons_task b) ?_
  intro x hx
  cases hx

/-- In every run in which no `lptcomms_readbyte` expires, whatever the pauses between requests and
before bytes of replies, each write that reaches the disk layer is of a block of a call of `LPTWrite`
that has been started. -/
theorem writes_requested {s t : Paused ω} (hs : Fresh s)
    (hrun : PausedRun disk (fun v => v ≠ .readExpiry) s t) :
    ∀ x ∈ t.link.server.world.2, ∃ c ∈ t.started, c.Requests x := by
  have hsound : Sound disk t := by
    apply Run.invariant _ (sound_fresh hs) hrun
    intro v u u' h hv hstep
    exact sound_step h hv hstep
  exact sound_requested hsound

end Runs

section Schedules

variable {ω : Type} (disk : Disk ω)

/-- Who moves next, or a wait for a byte that is not there expires. -/
inductive Turn where
  | host
  | device
  | pause
  deriving DecidableEq, Repr

/-- A step of the PC's. -/
def pausedHost (s : Paused ω) : Option (Paused ω) :=
  match hostAct s.link.client, s.link.up with
  | .send b c, _ => some { s with link := { s.link with client := c, down := s.link.down ++ [b] } }
  | .recv k, b :: up => some { s with link := { s.link with client := k b, up := up } }
  | _, _ => none

/-- A step of the device's. -/
def pausedDevice (s : Paused ω) : Option (Paused ω) :=
  match Device.act disk.logged s.link.server, s.link.down with
  | .tau d, _ => some { s with link := { s.link with server := d } }
  | .poll d, _ :: _ => some { s with link := { s.link with server := d } }
  | .send b d _, _ => some { s with link := { s.link with server := d, up := s.link.up ++ [b] } }
  | .recv k _, b :: down => some { s with link := { s.link with server := k b, down := down } }
  | _, [] => none

/-- The device's wait for a byte that is not there expires. -/
def pausedPause (s : Paused ω) : Option (Paused ω) :=
  match Device.act disk.logged s.link.server, s.link.down with
  | .recv _ e, [] => some { s with link := { s.link with server := e } }
  | _, _ => none

/-- The step a turn stands for. -/
def pausedNext : Turn → Paused ω → Option (Paused ω)
  | .host, s => pausedHost s
  | .device, s => pausedDevice disk s
  | .pause, s => pausedPause disk s

/-- The kind of step a turn stands for. -/
def Turn.event : Turn → Event
  | .host => .link
  | .device => .link
  | .pause => .readExpiry

theorem pausedHost_step {s t : Paused ω} (h : pausedHost s = some t) :
    PausedStep disk .link s t ∧ t.started = s.started := by
  obtain ⟨cs, c, d, down, up⟩ := s
  unfold pausedHost at h
  split at h
  · next hc =>
    cases h
    exact ⟨.link (.clientSend hc), rfl⟩
  · next hc hup =>
    cases h
    obtain rfl : up = _ := hup
    exact ⟨.link (.clientRecv hc), rfl⟩
  · cases h

theorem pausedDevice_step {s t : Paused ω} (h : pausedDevice disk s = some t) :
    PausedStep disk .link s t ∧ t.started = s.started := by
  obtain ⟨cs, c, d, down, up⟩ := s
  unfold pausedDevice at h
  split at h
  · next hd =>
    cases h
    exact ⟨.link (.serverTau hd), rfl⟩
  · next hd hdown =>
    cases h
    obtain rfl : down = _ := hdown
    exact ⟨.link (.serverPoll hd), rfl⟩
  · next hd =>
    cases h
    exact ⟨.link (.serverSend hd), rfl⟩
  · next hd hdown =>
    cases h
    obtain rfl : down = _ := hdown
    exact ⟨.link (.serverRecv hd), rfl⟩
  · cases h

theorem pausedPause_step {s t : Paused ω} (h : pausedPause disk s = some t) :
    PausedStep disk .readExpiry s t ∧ t.started = s.started := by
  obtain ⟨cs, c, d, down, up⟩ := s
  unfold pausedPause at h
  split at h
  · next hd hdown =>
    cases h
    obtain rfl : down = [] := hdown
    exact ⟨.readExpiry hd, rfl⟩
  · cases h

variable {disk}

theorem pausedNext_step (m : Turn) (s t : Paused ω) (h : pausedNext disk m s = some t) :
    PausedStep disk m.event s t := by
  cases m with
  | host => exact (pausedHost_step disk h).1
  | device => exact (pausedDevice_step disk h).1
  | pause => exact (pausedPause_step disk h).1

/-- No turn starts a call. -/
theorem pausedNext_started (m : Turn) (s t : Paused ω) (h : pausedNext disk m s = some t) :
    t.started = s.started := by
  cases m with
  | host => exact (pausedHost_step disk h).2
  | device => exact (pausedDevice_step disk h).2
  | pause => exact (pausedPause_step disk h).2

theorem play_started {check : Turn → Paused ω → Bool} {ms : List Turn} {s t : Paused ω}
    (h : play (pausedNext disk) check ms s = some t) : t.started = s.started := by
  apply play_invariant (I := fun u : Paused ω => u.started = s.started) _ rfl h
  intro m u u' hnext hu
  exact (pausedNext_started m u u' hnext).trans hu

/-- A call of `LPTWrite` for block 0 of drive 0, whose block compresses to a write request for
block 0x0506 of drive 1. -/
def embedded : Call :=
  ⟨.write, 0, 0, ⟨0, 0⟩, 1,
    fun a => [0x04, 0x01, 0x00, 0x00, 0x00, 0x05, 0x06, 0x07, 0x08].getD a 0⟩

/-- The machines at a message boundary, no call started. -/
def freshStart : Paused Drives :=
  ⟨[], .ret (.RES_OK, fun _ => 0), Device.idle ⟨.zero, .zero⟩ (fun _ => [.zero], []), [], []⟩

/-- The same with the call started. -/
def embeddedStart : Paused Drives :=
  ⟨[embedded], embedded.prog, Device.idle ⟨.zero, .zero⟩ (fun _ => [.zero], []), [], []⟩

theorem freshStart_fresh : Fresh freshStart := ⟨rfl, _, _, _, rfl⟩

/-- Without a pause the block is written where it belongs. -/
theorem writes_requested_embedded : ∃ t : Paused Drives,
    t.started = [embedded] ∧
      t.link.server.world.2.map (fun x => (x.drive, x.lba)) = [(0, 0)] ∧
      ∀ x ∈ t.link.server.world.2, ∃ c ∈ t.started, c.Requests x := by
  have hend : (play (pausedNext arrayDisk.toDisk) (fun m _ => m ≠ .pause)
      (.replicate 18 .host ++ .replicate 37 .device) embeddedStart).map
        (fun t => t.link.server.world.2.map fun x => (x.drive, x.lba)) = some [(0, 0)] := by
    decide +kernel
  obtain ⟨t, hsteps, hlog⟩ := Option.map_eq_some_iff.mp hend
  have hrun : PausedRun arrayDisk.toDisk (fun v => v ≠ .readExpiry) embeddedStart t := by
    apply play_run pausedNext_step _ hsteps
    intro m _ hm
    cases m with
    | host => decide
    | device => decide
    | pause => cases hm
  have hcall : PausedStep arrayDisk.toDisk .call freshStart embeddedStart := .call
  exact ⟨t, play_started hsteps, hlog,
    writes_requested freshStart_fresh (.head (by decide) hcall hrun)⟩

/-- After a pause before the first byte of the block, the device takes the block for a request and
writes where no call asked it to. -/
theorem pause_writes_unrequested : ∃ t : Paused Drives, Fresh freshStart ∧
    PausedRun arrayDisk.toDisk (fun _ => True) freshStart t ∧ t.started = [embedded] ∧
      ∃ x ∈ t.link.server.world.2, ∀ c ∈ t.started, ¬ c.Requests x := by
  have hend : (play (pausedNext arrayDisk.toDisk) (fun _ _ => true) (.replicate 6 .host ++
      .replicate 12 .device ++ [.pause] ++ .replicate 12 .host ++ .replicate 17 .device)
      embeddedStart).map
        (fun t => t.link.server.world.2.map fun x => (x.drive, x.lba)) =
      some [(1, 0x0506)] := by
    decide +kernel
  obtain ⟨t, hsteps, hlog⟩ := Option.map_eq_some_iff.mp hend
  have hrun : PausedRun arrayDisk.toDisk (fun _ => True) embeddedStart t :=
    play_run pausedNext_step (fun _ _ _ => trivial) hsteps
  have hcs : t.started = [embedded] := play_started hsteps
  have hcall : PausedStep arrayDisk.toDisk .call freshStart embeddedStart := .call
  obtain ⟨x, hx, hdrive⟩ := List.mem_map.mp
    (show (1, 0x0506) ∈ t.link.server.world.2.map fun x => (x.drive, x.lba) by simp [hlog])
  have hwhole : PausedRun arrayDisk.toDisk (fun _ => True) freshStart t :=
    .head trivial hcall hrun
  refine ⟨t, freshStart_fresh, hwhole, hcs, x, hx, ?_⟩
  intro c hc hcall
  obtain ⟨-, j, -, hreq⟩ := hcall
  rw [hcs] at hc
  obtain rfl := List.mem_singleton.mp hc
  rw [hreq] at hdrive
  have hunit : embedded.unit.toUInt8 = 1 := congrArg Prod.fst hdrive
  exact absurd hunit (by decide)

end Schedules

end LptStore.Protocol
