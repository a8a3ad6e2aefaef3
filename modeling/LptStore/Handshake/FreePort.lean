import LptStore.Handshake.Pins
import LptStore.Protocol.Task

/-!
# Core 1 and a port that changes at will

What core 1 keeps on its own account it keeps whatever the PC does: `FreeRun` lets the PC put any value
on its port at any time, and any wait of core 1 expire. A PC that can do anything can also send a write
request whose length or whose packed block is too long for the static buffers of `lptprotocol.c`. What
such stores hit is not followed here, so a `BoundedRun` is one without them.
-/

namespace LptStore.Handshake

open LptStore.Lib LptStore.Protocol

/-- Core 1, the wires and its log. -/
structure Pico (δ : Type) where
  dev : DevState δ
  lines : Lines
  log : Log

section

variable {δ : Type} (server : δ → ServerAct UInt8 δ)

/-- The PC writes its port, or core 1 makes a step, or a wait of core 1 expires. -/
inductive FreeStep : Mover → Pico δ → Pico δ → Prop
  | host {v : DevState δ} {l : Lines} {lg : Log} (port : UInt8) :
      FreeStep .host ⟨v, l, lg⟩ ⟨v, { l with port := port }, lg⟩
  | device {v v' : DevState δ} {l l' : Lines} {lg lg' : Log} : DevStep server v l lg v' l' lg' →
      FreeStep .device ⟨v, l, lg⟩ ⟨v', l', lg'⟩
  | timeout {v v' : DevState δ} {l : Lines} {lg : Log} : Expiry v l v' →
      FreeStep .timeout ⟨v, l, lg⟩ ⟨v', l, lg⟩

/-- A run in which the PC does what it likes. -/
abbrev FreeRun : Pico δ → Pico δ → Prop := Run (FreeStep server) fun _ _ => True

/-- Wherever core 1 is or may go when its call returns. -/
def DevState.All (P : δ → Prop) : DevState δ → Prop
  | .idle d => P d
  | .polling _ absent present => P absent ∧ P present
  | .writing _ sent expired => P sent ∧ P expired
  | .reading _ k expired => (∀ b, P (k b)) ∧ P expired

variable {server} {P Q : δ → Prop}

theorem DevState.All.imp {v : DevState δ} (h : v.All P) (himp : ∀ d, P d → Q d) : v.All Q := by
  cases v with
  | idle d => exact himp _ h
  | polling p absent present => exact ⟨himp _ h.1, himp _ h.2⟩
  | writing p sent expired => exact ⟨himp _ h.1, himp _ h.2⟩
  | reading p k expired => exact ⟨fun b => himp _ (h.1 b), himp _ h.2⟩

theorem devStep_keeps {v v' : DevState δ} {l l' : Lines} {lg lg' : Log}
    (hserver : ∀ d, P d → (server d).All P) (hstep : DevStep server v l lg v' l' lg')
    (h : v.All P) : v'.All P := by
  have hact : ∀ {d a}, server d = a → P d → a.All P := by
    intro d a ha hd
    rw [← ha]
    exact hserver d hd
  cases hstep with
  | tau hd => exact hact hd h
  | callPoll hd => exact ⟨h, hact hd h⟩
  | callWrite hd => exact hact hd h
  | callRead hd => exact hact hd h
  | poll _ => exact h
  | write _ => exact h
  | read _ => exact h
  | @returnPoll ok _ _ _ _ =>
    cases ok with
    | true => exact h.2
    | false => exact h.1
  | @returnWrite ok _ _ _ _ =>
    cases ok with
    | true => exact h.1
    | false => exact h.2
  | returnRead => exact h.1 _
  | returnExpired => exact h.2

theorem expiry_keeps {v v' : DevState δ} {l : Lines} (hexp : Expiry v l v') (h : v.All P) :
    v'.All P := by
  cases hexp with
  | write _ _ => exact h
  | read _ _ => exact h

/-- What every action of core 1 keeps, every run keeps. -/
theorem freeRun_keeps {s t : Pico δ} (hserver : ∀ d, P d → (server d).All P)
    (hrun : FreeRun server s t) (h : s.dev.All P) : t.dev.All P := by
  refine hrun.invariant (I := fun s => s.dev.All P) ?_ h
  intro m s t hs _ hstep
  cases hstep with
  | host port => exact hs
  | device hdev => exact devStep_keeps hserver hdev hs
  | timeout hexp => exact expiry_keeps hexp hs

end

section Pins

variable {σ δ : Type} {client : σ → ClientAct UInt8 σ} {server : δ → ServerAct UInt8 δ}

/-- What core 1 and the wires show of the whole system. -/
def pico (s : Pins σ δ) : Pico δ := ⟨s.dev, s.lines, s.devLog⟩

/-- The PC changes no line but its port. -/
theorem hostStep_port {h h' : HostState σ} {l l' : Lines} {lg lg' : Log}
    (hstep : HostStep client h l lg h' l' lg') : ∃ port, l' = { l with port := port } := by
  have haccess : ∀ {o : PortOp} {r : PortResp o} {l l' : Lines}, PortStep l o r l' →
      ∃ port, l' = { l with port := port } := by
    intro o r l l' hport
    cases o with
    | outp value => exact ⟨value, hport⟩
    | waitStatus level => exact ⟨l.port, hport.2⟩
    | inp => exact ⟨l.port, hport.2⟩
  cases hstep with
  | callWrite _ => exact ⟨l.port, rfl⟩
  | callRead _ => exact ⟨l.port, rfl⟩
  | write hport => exact haccess hport
  | read hport => exact haccess hport
  | returnWrite => exact ⟨l.port, rfl⟩
  | returnRead => exact ⟨l.port, rfl⟩

theorem freeStep_of_pinStep {m : Mover} {s t : Pins σ δ} (hstep : PinStep client server m s t) :
    FreeStep server m (pico s) (pico t) := by
  cases hstep with
  | host hhost =>
    obtain ⟨port, rfl⟩ := hostStep_port hhost
    exact .host port
  | device hdev => exact .device hdev
  | timeout hexp => exact .timeout hexp

theorem freeSteps_of_pinRun {ok : Mover → Pins σ δ → Prop} {ok' : Mover → Pico δ → Prop} {s t : Pins σ δ}
    (hok : ∀ m s, ok m s → ok' m (pico s)) (hrun : PinRun client server ok s t) :
    Run (FreeStep server) ok' (pico s) (pico t) := by
  induction hrun with
  | refl => exact .refl _
  | step _ hm hstep ih => exact .step ih (hok _ _ hm) (freeStep_of_pinStep hstep)

/-- A run of the two machines is one in which the PC does what it likes. -/
theorem freeRun_of_pinRun {ok : Mover → Pins σ δ → Prop} {s t : Pins σ δ}
    (hrun : PinRun client server ok s t) : FreeRun server (pico s) (pico t) :=
  freeSteps_of_pinRun (fun _ _ _ => trivial) hrun

end Pins

section Bounds

/-- The next call is the one of `disk_write_sector`. -/
def writesNext : DevProg Bufs → Bool
  | .op (.writeSector _ _ _) _ => true
  | _ => false

/-- The drive that the next call is about, if it is one into the disk layer. -/
def asksNext : DevProg Bufs → Option UInt8
  | .op (.getBlocks d) _ | .op (.readSector d _ _) _ | .op (.writeSector d _ _) _ => some d
  | _ => none

/-- The stores from here to the next call stay within the static buffers. `lptcomms_readbytes` stores at
the index it has come to. When that byte was the last of a packed block, `LPTDecompress` unpacks the block,
which is what `lptcomms_readbyte` has returned last, into `buff`. -/
def InBounds (returned : List UInt8) : DevProg Bufs → Prop
  | .op (.store .buff i) _ => i < 512
  | .op (.store .compressBuff i) k => i < 512 ∧ (writesNext (k ()) = true →
      (Pico.lptDecompress (returned.drop (returned.length - (i + 1)))).2.length ≤ 512)
  | _ => True

instance (returned : List UInt8) : (p : DevProg Bufs) → Decidable (InBounds returned p)
  | .op (.store .buff i) _ => inferInstanceAs (Decidable (i < 512))
  | .op (.store .compressBuff i) k => inferInstanceAs (Decidable (i < 512 ∧ (writesNext (k ()) = true →
      (Pico.lptDecompress (returned.drop (returned.length - (i + 1)))).2.length ≤ 512)))
  | .ret _ | .op .hasbyte _ | .op .readbyte _ | .op (.writebyte _) _ | .op .getDrives _
  | .op (.getBlocks _) _ | .op (.readSector _ _ _) _ | .op (.writeSector _ _ _) _ => .isTrue trivial

/-- At the last byte of a packed block: it has at most 512 bytes, and so has what it unpacks to. -/
theorem inBounds_unpacks {earlier packed : List UInt8} {drv : UInt8} {lba : UInt32} {b : Bufs}
    (hpos : packed ≠ []) :
    InBounds (earlier ++ packed)
        (.op (.store .compressBuff (packed.length - 1)) fun _ => storeBlock drv lba b) ↔
      packed.length ≤ 512 ∧ (Pico.lptDecompress packed).2.length ≤ 512 := by
  have hlen : packed.length - 1 + 1 = packed.length := Nat.sub_add_cancel (List.length_pos_iff.mpr hpos)
  have hlast : (earlier ++ packed).drop ((earlier ++ packed).length - (packed.length - 1 + 1)) =
      packed := by
    rw [hlen, List.length_append, Nat.add_sub_cancel, List.drop_left]
  show packed.length - 1 < 512 ∧ (true = true → _) ↔ _
  rw [hlast]
  have hbound : packed.length - 1 < 512 ↔ packed.length ≤ 512 := by omega
  rw [hbound, forall_prop_of_true rfl]

variable {ω : Type}

/-- Core 1 is about to store past the end of a static buffer. -/
def Overruns (s : Pico (Device ω)) : Prop :=
  match s.dev with
  | .idle d => ¬ InBounds s.log.returned d.prog
  | _ => False

instance (s : Pico (Device ω)) : Decidable (Overruns s) :=
  match s with
  | ⟨.idle d, _, lg⟩ => inferInstanceAs (Decidable (¬ InBounds lg.returned d.prog))
  | ⟨.polling _ _ _, _, _⟩ | ⟨.writing _ _ _, _, _⟩ | ⟨.reading _ _ _, _, _⟩ => .isFalse not_false

/-- A run in which the PC does what it likes, but for requests that overrun the static buffers. -/
abbrev BoundedRun (disk : Disk ω) : Pico (Device ω) → Pico (Device ω) → Prop :=
  Run (FreeStep (Device.act disk)) fun mover s => mover = .device → ¬ Overruns s

theorem BoundedRun.free {disk : Disk ω} {s t : Pico (Device ω)} (h : BoundedRun disk s t) :
    FreeRun (Device.act disk) s t := h.mono fun _ _ _ => trivial

end Bounds

end LptStore.Handshake
