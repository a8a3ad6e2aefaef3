import LptStore.Lib.Trace
import LptStore.Protocol.Pauses

/-!
# A request that is given up

When a byte does not come, or is not taken, `lptprotocol_task` makes no further call into `lptcomms.c`
before it returns. `settled` is what the disk layer comes to up to the next of these calls. It is one
block at most that a request writes on the way, and which one does not depend on the byte that came last.
-/

namespace LptStore.Protocol

open LptStore.Lib Prog

/-- What is written, but for the data. -/
def Write.block (x : Write) : UInt8 × UInt32 := (x.drive, x.lba)

section Settled

variable {α ω : Type}

/-- The disk layer at the next access to the link, or when the program returns. -/
def settled (disk : Disk ω) : DevProg α → ω → ω
  | .op (.store _ _) k, w => settled disk (k ()) w
  | .op .getDrives k, w => settled disk (k (disk.getDrives w)) w
  | .op (.getBlocks n) k, w => settled disk (k (disk.getBlocks w n)) w
  | .op (.readSector n lbn buff) k, w =>
      settled disk (k (disk.readSector w n lbn buff).1) (disk.readSector w n lbn buff).2
  | .op (.writeSector n lbn buff) k, w =>
      settled disk (k (disk.writeSector w n lbn buff).1) (disk.writeSector w n lbn buff).2
  | _, w => w

/-- Up to there the program writes this block, or none. -/
def Writes (disk : Disk ω) (t : Option (UInt8 × UInt32)) (p : DevProg α) : Prop :=
  ∀ w, ∃ ys, (settled disk.logged p w).2 = w.2 ++ ys ∧ ys.map Write.block = t.toList

variable {disk : Disk ω} {t : Option (UInt8 × UInt32)}

theorem writes_ret (a : α) : Writes disk none (.ret a) := fun _ => ⟨[], by simp [settled], rfl⟩

theorem writes_readbyte (k : Option UInt8 → DevProg α) : Writes disk none (.op .readbyte k) :=
  fun _ => ⟨[], by simp [settled], rfl⟩

theorem writes_writebyte (b : UInt8) (k : Bool → DevProg α) : Writes disk none (.op (.writebyte b) k) :=
  fun _ => ⟨[], by simp [settled], rfl⟩

theorem writes_store {buf : BufId} {i : Nat} {k : Unit → DevProg α} (h : Writes disk t (k ())) :
    Writes disk t (.op (.store buf i) k) := h

theorem writes_writeSector {n : UInt8} {lbn : UInt32} {buff : Sector} {k : Int → DevProg α}
    (h : ∀ r, Writes disk none (k r)) : Writes disk (some (n, lbn)) (.op (.writeSector n lbn buff) k) := by
  intro w
  obtain ⟨ys, hys, hblocks⟩ := h (disk.logged.writeSector w n lbn buff).1
    (disk.logged.writeSector w n lbn buff).2
  refine ⟨⟨n, lbn, buff⟩ :: ys, ?_, ?_⟩
  · simp only [settled, hys]
    simp [Disk.logged]
  · simp only [Option.toList_none, List.map_eq_nil_iff] at hblocks
    simp [hblocks, Write.block]

end Settled

section Requests

variable {ω : Type} (disk : Disk ω)

/-- What an access to the link leads to. -/
def AtLink : (o : DevOp) → (DevResp o → DevProg Bufs) → Prop
  | .hasbyte, _ => False
  | .readbyte, k => (∃ b, k none = .ret b) ∧ ∃ t, ∀ x, Writes disk t (k (some x))
  | .writebyte _, k => (∃ b, k false = .ret b) ∧ ∀ ok, Writes disk none (k ok)
  | _, _ => True

/-- What is left of a request. -/
abbrev Request (p : DevProg Bufs) : Prop := p.Throughout (AtLink disk)

variable {disk} {t : Option (UInt8 × UInt32)} {b : Bufs}

theorem request_writebyte {c : UInt8} {p : DevProg Bufs} (hp : Writes disk none p)
    (h : Request disk p) :
    Request disk (.op (.writebyte c) fun ok => if ok then p else .ret b) := by
  refine ⟨⟨⟨b, rfl⟩, ?_⟩, ?_⟩
  · intro ok
    cases ok with
    | false => exact writes_ret b
    | true => exact hp
  · intro ok
    cases ok with
    | false => trivial
    | true => exact h

theorem request_writebytes (bs : List UInt8) (b : Bufs) :
    Writes disk none ((lptcommsWritebytes bs).bind fun _ => .ret b) ∧
      Request disk ((lptcommsWritebytes bs).bind fun _ => .ret b) := by
  induction bs with
  | nil => exact ⟨writes_ret b, trivial⟩
  | cons c bs ih =>
    have hcons : ((lptcommsWritebytes (c :: bs)).bind fun _ => .ret b) =
        .op (.writebyte c) fun ok => if ok then (lptcommsWritebytes bs).bind fun _ => .ret b
          else .ret b := by
      simp only [lptcommsWritebytes, lptcommsWritebyte, Prog.bind_eq, Prog.op_bind, Prog.ret_bind]
      congr 1
      funext ok
      cases ok <;> rfl
    rw [hcons]
    exact ⟨writes_writebyte _ _, request_writebyte ih.1 ih.2⟩

theorem request_readbytes {buf : BufId} {n i : Nat} {buff : Sector} {f : Bool × Sector → DevProg Bufs}
    (hfail : ∀ buff, ∃ b, f (false, buff) = .ret b) (hlast : ∀ buff, Writes disk t (f (true, buff)))
    (h : ∀ buff, Request disk (f (true, buff))) :
    Request disk ((readbytesFrom buf n i buff).bind f) := by
  induction n generalizing i buff with
  | zero => exact h _
  | succ n ih =>
    refine ⟨⟨hfail _, ?_⟩, ?_⟩
    · cases n with
      | zero => exact ⟨t, fun x => writes_store (hlast _)⟩
      | succ n => exact ⟨none, fun x => writes_store (writes_readbyte _)⟩
    · intro r
      cases r with
      | none =>
        obtain ⟨b, hb⟩ := hfail buff
        show Request disk (f (false, buff))
        rw [hb]
        trivial
      | some x => exact ⟨trivial, fun _ => ih⟩

theorem request_storeBlock (drv : UInt8) (lba : UInt32) (b : Bufs) :
    Writes disk (some (drv, lba)) (storeBlock drv lba b) ∧ Request disk (storeBlock drv lba b) := by
  refine ⟨writes_writeSector fun r => writes_writebyte _ _, trivial, ?_⟩
  intro r
  exact ⟨⟨⟨b, rfl⟩, fun ok => writes_ret b⟩, fun ok => trivial⟩

theorem request_sendBlock (b : Bufs) : Writes disk none (sendBlock b) ∧ Request disk (sendBlock b) := by
  unfold sendBlock
  simp only [lptcommsWritebyte, Prog.bind_eq, Prog.op_bind, Prog.ret_bind, Prog.pure_eq]
  split
  · refine ⟨writes_writebyte _ _, request_writebyte (writes_writebyte _ _) ?_⟩
    refine request_writebyte (writes_writebyte _ _) (request_writebyte ?_ ?_)
    · exact (request_writebytes _ _).1
    · exact (request_writebytes _ _).2
  · refine ⟨writes_writebyte _ _, request_writebyte ?_ ?_⟩
    · exact (request_writebytes _ _).1
    · exact (request_writebytes _ _).2

theorem request_fetchBlock (drv : UInt8) (lba : UInt32) (b : Bufs) :
    Writes disk none (fetchBlock drv lba b) ∧ Request disk (fetchBlock drv lba b) := by
  have hanswer : ∀ r b, Writes disk none (answerRead r b) ∧ Request disk (answerRead r b) := by
    intro r b
    unfold answerRead
    split
    · exact request_sendBlock b
    · exact ⟨writes_writebyte _ _, ⟨⟨b, rfl⟩, fun ok => writes_ret b⟩, fun ok => trivial⟩
  exact ⟨fun w => (hanswer _ _).1 _, trivial, fun r => (hanswer _ _).2⟩

theorem request_receiveBlock (drv : UInt8) (lba : UInt32) (compressed : UInt16) (b : Bufs) :
    Writes disk none (receiveBlock drv lba compressed b) ∧
      Request disk (receiveBlock drv lba compressed b) := by
  unfold receiveBlock
  split
  · refine ⟨writes_readbyte _, request_readbytes (t := some (drv, lba)) ?_ ?_ ?_⟩
    · exact fun buff => ⟨_, rfl⟩
    · exact fun buff => (request_storeBlock _ _ _).1
    · exact fun buff => (request_storeBlock _ _ _).2
  · rename_i hne
    have hlen : ∃ n, compressed.toNat = n + 1 :=
      Nat.exists_eq_succ_of_ne_zero fun h => hne (UInt16.toNat_inj.mp h)
    obtain ⟨n, hn⟩ := hlen
    rw [hn]
    refine ⟨writes_readbyte _, request_readbytes (t := some (drv, lba)) ?_ ?_ ?_⟩
    · exact fun buff => ⟨_, rfl⟩
    · exact fun buff => (request_storeBlock _ _ _).1
    · exact fun buff => (request_storeBlock _ _ _).2

/-- A command byte alone writes nothing. -/
theorem request_dispatch (cmd : UInt8) (b : Bufs) :
    Writes disk none (dispatch cmd b) ∧ Request disk (dispatch cmd b) := by
  unfold dispatch
  split
  · exact request_writebytes _ _
  split
  · exact ⟨fun w => (request_writebytes _ _).1 _, trivial, fun w => (request_writebytes _ _).2⟩
  split
  · refine ⟨writes_readbyte _, request_readbytes (t := none) ?_ ?_ ?_⟩
    · exact fun buff => ⟨_, rfl⟩
    · exact fun buff w => (request_writebytes _ _).1 _
    · exact fun buff => ⟨trivial, fun w => (request_writebytes _ _).2⟩
  split
  · refine ⟨writes_readbyte _, request_readbytes (t := none) ?_ ?_ ?_⟩
    · exact fun buff => ⟨_, rfl⟩
    · exact fun buff => (request_fetchBlock _ _ _).1
    · exact fun buff => (request_fetchBlock _ _ _).2
  split
  · refine ⟨writes_readbyte _, request_readbytes (t := none) ?_ ?_ ?_⟩
    · exact fun buff => ⟨_, rfl⟩
    · exact fun buff => (request_receiveBlock _ _ _ _).1
    · exact fun buff => (request_receiveBlock _ _ _ _).2
  · exact ⟨writes_ret b, trivial⟩

/-- `lptprotocol_task` once it has seen that there is a byte. -/
def answering (b : Bufs) : DevProg Bufs :=
  .op .readbyte fun r => dispatch (r.getD 0xff) b

theorem request_answering (b : Bufs) : Request disk (answering b) := by
  refine ⟨⟨⟨b, rfl⟩, none, fun x => (request_dispatch _ _).1⟩, ?_⟩
  intro r
  exact (request_dispatch _ _).2

end Requests

section Ready

variable {ω ω' : Type} (disk : Disk ω)

/-- Core 1 between two requests. -/
def AtPolls (d : Device ω') : Prop := ∃ b w, d = Device.idle b w

/-- Core 1 between two calls of `lptcomms.c`. -/
def Ready (d : Device ω') : Prop := ∃ p w, Request disk p ∧ d = Device.resume p w

variable {disk} {d : Device ω'}

theorem AtPolls.ready (h : AtPolls d) : Ready disk d := by
  obtain ⟨b, w, rfl⟩ := h
  exact ⟨.ret b, w, trivial, rfl⟩

theorem ready_answering (b : Bufs) (w : ω') : Ready disk ⟨answering b, w⟩ :=
  ⟨_, w, request_answering b, rfl⟩

/-- What an action of core 1 leads to. -/
def ActReady (disk : Disk ω) (d : Device ω') : ServerAct UInt8 (Device ω') → Prop
  | .tau d' => Ready disk d'
  | .poll d' => AtPolls d ∧ ∃ b w, d' = ⟨answering b, w⟩
  | .send _ d' e => Ready disk d' ∧ AtPolls e
  | .recv k e => (∀ b, Ready disk (k b)) ∧ AtPolls e

theorem ready_act (disk' : Disk ω') (h : Ready disk d) : ActReady disk d (Device.act disk' d) := by
  obtain ⟨p, w, hp, rfl⟩ := h
  cases p with
  | ret b => exact ⟨⟨b, w, rfl⟩, b, w, rfl⟩
  | op o k =>
    obtain ⟨hlink, hk⟩ := hp
    cases o with
    | hasbyte => exact hlink.elim
    | readbyte =>
      obtain ⟨⟨b, hb⟩, -⟩ := hlink
      refine ⟨fun x => ⟨_, w, hk _, rfl⟩, b, w, ?_⟩
      rw [hb]
      rfl
    | writebyte c =>
      obtain ⟨⟨b, hb⟩, -⟩ := hlink
      refine ⟨⟨_, w, hk _, rfl⟩, b, w, ?_⟩
      rw [hb]
      rfl
    | store buf i => exact ⟨_, w, hk _, rfl⟩
    | getDrives => exact ⟨_, w, hk _, rfl⟩
    | getBlocks n => exact ⟨_, w, hk _, rfl⟩
    | readSector n lbn buff => exact ⟨_, _, hk _, rfl⟩
    | writeSector n lbn buff => exact ⟨_, _, hk _, rfl⟩

theorem settled_resume (disk' : Disk ω') (p : DevProg Bufs) (w : ω') :
    settled disk' (Device.resume p w).prog (Device.resume p w).world = settled disk' p w := by
  cases p <;> rfl

end Ready

section Torn

variable {ω α : Type} {disk : Disk ω} {c : HostProg α} {d : Device (ω × List Write)}
  {fin : HostProg α × Device (ω × List Write)}

/-- The same writes, but for the data of the last. -/
def TornLast (l l' : List Write) : Prop :=
  l'.dropLast = l.dropLast ∧ l'.map Write.block = l.map Write.block

theorem TornLast.refl (l : List Write) : TornLast l l := ⟨rfl, rfl⟩

theorem tornLast_append {l ys ys' : List Write} {t : Option (UInt8 × UInt32)}
    (h : ys.map Write.block = t.toList) (h' : ys'.map Write.block = t.toList) :
    TornLast (l ++ ys) (l ++ ys') := by
  refine ⟨?_, by rw [List.map_append, List.map_append, h, h']⟩
  cases t with
  | none => simp_all
  | some t =>
    obtain ⟨y, rfl, -⟩ := List.map_eq_singleton_iff.mp h
    obtain ⟨y', rfl, -⟩ := List.map_eq_singleton_iff.mp h'
    simp

/-- The record only grows. -/
theorem act_grows (disk : Disk ω) (d : Device (ω × List Write)) :
    (Device.act disk.logged d).All fun d' => d.world.2 <+: d'.world.2 := by
  obtain ⟨p, w⟩ := d
  have hsame : ∀ p, w.2 <+: (Device.resume p w).world.2 := fun p => resume_grows (List.prefix_refl _)
  cases p with
  | ret b => exact List.prefix_refl _
  | op o k =>
    cases o with
    | hasbyte => exact hsame _
    | readbyte => exact ⟨fun b => hsame _, hsame _⟩
    | writebyte b => exact ⟨hsame _, hsame _⟩
    | store buf i => exact hsame _
    | getDrives => exact hsame _
    | getBlocks n => exact hsame _
    | readSector n lbn buff => exact resume_grows (List.prefix_refl _)
    | writeSector n lbn buff => exact resume_grows (List.prefix_append _ _)

theorem leads_grows (h : Leads hostAct (Device.act disk.logged) fin (c, d)) :
    d.world.2 <+: fin.2.world.2 := by
  obtain ⟨n, hpath⟩ := h
  generalize hs : (c, d) = s at hpath
  induction hpath generalizing c d with
  | refl =>
    subst hs
    exact List.prefix_refl _
  | step hmeet _ _ ih =>
    subst hs
    have hgrows := act_grows disk d
    cases hmeet with
    | tau hd =>
      rw [hd] at hgrows
      exact hgrows.trans (ih rfl)
    | poll hd _ =>
      rw [hd] at hgrows
      exact hgrows.trans (ih rfl)
    | down _ hd =>
      rw [hd] at hgrows
      exact (hgrows.1 _).trans (ih rfl)
    | up hd _ =>
      rw [hd] at hgrows
      exact hgrows.1.trans (ih rfl)

/-- What a request does before its next access to the link it also does hand in hand. -/
theorem leads_settled (hfin : Quiet hostAct (Device.act disk.logged) fin) (p : DevProg Bufs)
    {w : ω × List Write}
    (h : Leads hostAct (Device.act disk.logged) fin (c, Device.resume p w)) :
    (settled disk.logged p w).2 <+: fin.2.world.2 := by
  induction p generalizing w with
  | ret b => exact leads_grows h
  | op o k ih =>
    have hnext : ∀ {d'}, Device.act disk.logged (Device.resume (.op o k) w) = .tau d' →
        Leads hostAct (Device.act disk.logged) fin (c, d') := fun hd =>
      (matching_leads hfin).next h (.tau hd)
    cases o with
    | hasbyte => exact leads_grows h
    | readbyte => exact leads_grows h
    | writebyte b => exact leads_grows h
    | store buf i => exact ih _ (hnext rfl)
    | getDrives => exact ih _ (hnext rfl)
    | getBlocks n => exact ih _ (hnext rfl)
    | readSector n lbn buff => exact ih _ (hnext rfl)
    | writeSector n lbn buff => exact ih _ (hnext rfl)

/-- What is written up to the next access to the link is what the hand-in-hand run to `fin` writes, but
for the data of the last. -/
def Torn (disk : Disk ω) (l : List Write) (d : Device (ω × List Write)) : Prop :=
  ∃ l', l' <+: l ∧ TornLast l' (settled disk.logged d.prog d.world).2

theorem torn_of_leads (hfin : Quiet hostAct (Device.act disk.logged) fin) (hd : Ready disk d)
    (h : Leads hostAct (Device.act disk.logged) fin (c, d)) : Torn disk fin.2.world.2 d := by
  obtain ⟨p, w, -, rfl⟩ := hd
  refine ⟨_, leads_settled hfin p h, ?_⟩
  rw [settled_resume]
  exact .refl _

/-- A byte that core 1 reads hand in hand comes. -/
theorem leads_arrives {k : UInt8 → Device (ω × List Write)} {e : Device (ω × List Write)}
    (hfin : Quiet hostAct (Device.act disk.logged) fin) (hd : Device.act disk.logged d = .recv k e)
    (h : Leads hostAct (Device.act disk.logged) fin (c, d)) :
    ∃ c' b, Leads hostAct (Device.act disk.logged) fin (c', k b) := by
  obtain ⟨n, hpath⟩ := h
  have hne : (c, d) ≠ fin := by
    rintro rfl
    obtain ⟨d', hpoll⟩ := hfin.poll
    cases hd.symm.trans hpoll
  obtain ⟨m, n', s', -, hmeet, -, hrest⟩ := hpath.uncons hne
  cases hmeet with
  | tau hd' => cases hd.symm.trans hd'
  | poll hd' _ => cases hd.symm.trans hd'
  | down hc hd' =>
    cases hd.symm.trans hd'
    exact ⟨_, _, n', hrest⟩
  | up hd' _ => cases hd.symm.trans hd'

/-- Wherever the next call leads, even if it gives up or another byte comes. -/
theorem torn_next (hfin : Quiet hostAct (Device.act disk.logged) fin) (hd : Ready disk d)
    (h : Leads hostAct (Device.act disk.logged) fin (c, d)) :
    (Device.act disk.logged d).All (Torn disk fin.2.world.2) := by
  have hgrows := leads_grows h
  obtain ⟨p, w, hp, rfl⟩ := hd
  rw [resume_world] at hgrows
  have hrest : ∀ {p' : DevProg Bufs}, Writes disk none p' →
      Torn disk fin.2.world.2 (Device.resume p' w) := by
    intro p' hnone
    obtain ⟨ys, hys, hblocks⟩ := hnone w
    refine ⟨w.2, hgrows, ?_⟩
    rw [settled_resume, hys]
    have hnothing : TornLast (w.2 ++ []) (w.2 ++ ys) := tornLast_append rfl hblocks
    rwa [List.append_nil] at hnothing
  cases p with
  | ret b => exact hrest (writes_readbyte _)
  | op o k =>
    obtain ⟨hlink, hk⟩ := hp
    have hnext : ∀ {d'}, Device.act disk.logged (Device.resume (.op o k) w) = .tau d' → Ready disk d' →
        Torn disk fin.2.world.2 d' := fun hact hd' =>
      torn_of_leads hfin hd' ((matching_leads hfin).next h (.tau hact))
    cases o with
    | hasbyte => exact hlink.elim
    | readbyte =>
      obtain ⟨⟨b, hb⟩, t, ht⟩ := hlink
      constructor
      · intro x
        obtain ⟨c', x', hcame⟩ := leads_arrives hfin rfl h
        obtain ⟨ys, hys, hblocks⟩ := ht x w
        obtain ⟨ys', hys', hblocks'⟩ := ht x' w
        refine ⟨_, leads_settled hfin _ hcame, ?_⟩
        rw [settled_resume, resume_world, hys, hys']
        exact tornLast_append hblocks' hblocks
      · rw [hb]
        exact hrest (writes_ret b)
    | writebyte b =>
      exact ⟨hrest (hlink.2 true), hrest (hlink.2 false)⟩
    | store buf i => exact hnext rfl ⟨_, w, hk _, rfl⟩
    | getDrives => exact hnext rfl ⟨_, w, hk _, rfl⟩
    | getBlocks n => exact hnext rfl ⟨_, w, hk _, rfl⟩
    | readSector n lbn buff => exact hnext rfl ⟨_, _, hk _, rfl⟩
    | writeSector n lbn buff => exact hnext rfl ⟨_, _, hk _, rfl⟩

/-- Hand in hand core 1 stays between calls. -/
theorem matching_ready (hfin : Quiet hostAct (Device.act disk.logged) fin) :
    Matching hostAct (Device.act disk.logged) fun x =>
      Leads hostAct (Device.act disk.logged) fin x ∧ Ready disk x.2 where
  next := by
    rintro n ⟨c, d⟩ ⟨c', d'⟩ ⟨hleads, hd⟩ hmeet
    refine ⟨(matching_leads hfin).next hleads hmeet, ?_⟩
    have hact := ready_act disk.logged hd
    cases hmeet with
    | tau hd' =>
      rw [hd'] at hact
      exact hact
    | poll hd' _ =>
      rw [hd'] at hact
      obtain ⟨-, b, w, rfl⟩ := hact
      exact ready_answering b w
    | down _ hd' =>
      rw [hd'] at hact
      exact hact.1 _
    | up hd' _ =>
      rw [hd'] at hact
      exact hact.1
  send_recv h hd := (matching_leads hfin).send_recv h.1 hd
  recv_send h hc := (matching_leads hfin).recv_send h.1 hc

end Torn

end LptStore.Protocol
