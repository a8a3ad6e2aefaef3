import LptStore.Dos.BlockDevice
import LptStore.Protocol.DiskFake

/-!
# The driver built with `FAKE_LPT`

With `FAKE_LPT` defined the driver has the fake disk of the firmware in itself, with room for 50 blocks,
and no link. Until it has stored 50 different blocks DOS cannot tell it from the driver at a port with the
fake disk at the other end.
-/

namespace LptStore.Dos

open LptStore.Lib LptStore.Protocol LptStore.Handshake

section Calls

/-- `MAX_BLOCKS` of `LPTSTORE.C:257`. -/
def FAKE_MAX_BLOCKS : Nat := 50

/-- The test of the two loops; `unit` is a `WORD`. -/
def isFakeBlock (unit lbn : UInt16) (key : UInt8 × UInt16) : Bool :=
  key.1.toUInt16 == unit && key.2 == lbn

/-- The loop of `LPTRead` (`LPTSTORE.C:268-283`). -/
def fakeRead (unit : UInt16) (blocks : FakeBlocks) : Nat → UInt16 → FarPtr → Mem → Mem
  | 0, _, _, mem => mem
  | n + 1, lbn, buffer, mem =>
      let block := (Table.find (isFakeBlock unit lbn) blocks).getD (fakeImage lbn.toUInt32)
      fakeRead unit blocks n (lbn + 1) (buffer.add 512) (mem.write buffer block.bytes)

/-- The loop of `LPTWrite` (`LPTSTORE.C:483-498`). -/
def fakeWrite (unit : UInt16) : Nat → UInt16 → FarPtr → Mem → FakeBlocks → FakeBlocks
  | 0, _, _, _, blocks => blocks
  | n + 1, lbn, buffer, mem, blocks =>
      fakeWrite unit n (lbn + 1) (buffer.add 512) mem
        (Table.store FAKE_MAX_BLOCKS (isFakeBlock unit lbn) (unit.toUInt8, lbn) (mem.sector buffer) blocks)

/-- `LPTRead` and `LPTWrite` with `FAKE_LPT`. -/
def fakeLpt : LptCalls FakeBlocks := fun c blocks =>
  match c.direction with
  | .read => ((.RES_OK, fakeRead c.unit blocks c.count.toNat c.start c.buffer c.mem), blocks)
  | .write => ((.RES_OK, c.mem), fakeWrite c.unit c.count.toNat c.start c.buffer c.mem blocks)

variable {unit : UInt8}

/-- For a unit of the driver the test is that of the fake disk. -/
theorem isFakeBlock_eq (unit : UInt8) (lbn : UInt16) :
    isFakeBlock unit.toUInt16 lbn = isBlock unit lbn.toUInt32 := by
  rw [isBlock_eq]
  funext key
  have hunit : key.1.toUInt16 = unit.toUInt16 ↔ key.1 = unit :=
    ⟨fun h => by simpa using congrArg UInt16.toUInt8 h, congrArg UInt8.toUInt16⟩
  rw [Bool.eq_iff_iff, Table.isKey_eq_true, Prod.ext_iff, ← hunit]
  simp only [isFakeBlock, Bool.and_eq_true, beq_iff_eq]

theorem fakeRead_eq (blocks : FakeBlocks) (n : Nat) (lbn : UInt16) (buffer : FarPtr) (mem : Mem) :
    diskfake.readLoop unit.toUInt16 n lbn buffer mem blocks =
      ((.RES_OK, fakeRead unit.toUInt16 blocks n lbn buffer mem), blocks) := by
  induction n generalizing lbn buffer mem with
  | zero => rfl
  | succ n ih =>
    have hfetch : diskfake.fetch blocks unit.toUInt16.toUInt8 lbn.toUInt32 .zero =
        (some ((Table.find (isFakeBlock unit.toUInt16 lbn) blocks).getD (fakeImage lbn.toUInt32)).bytes,
          blocks) := by
      rw [isFakeBlock_eq, UInt8.toUInt8_toUInt16]
      rfl
    unfold Disk.readLoop fakeRead
    simp only [hfetch]
    exact ih _ _ _

/-- As long as the fake disk keeps no more than 50 blocks, the driver's own keeps the same. -/
theorem fakeWrite_eq (blocks : FakeBlocks) (n : Nat) (lbn : UInt16) (buffer : FarPtr) (mem : Mem)
    (hroom : (diskfake.writeLoop unit.toUInt16 n lbn buffer mem blocks).2.length ≤ FAKE_MAX_BLOCKS) :
    blocks.length ≤ FAKE_MAX_BLOCKS ∧ diskfake.writeLoop unit.toUInt16 n lbn buffer mem blocks =
      (.RES_OK, fakeWrite unit.toUInt16 n lbn buffer mem blocks) := by
  induction n generalizing lbn buffer blocks with
  | zero => exact ⟨hroom, rfl⟩
  | succ n ih =>
    have hwrite : diskfake.writeSector blocks unit.toUInt16.toUInt8 lbn.toUInt32 (mem.sector buffer) =
        (0, Table.store MAX_BLOCKS (isFakeBlock unit.toUInt16 lbn) (unit.toUInt16.toUInt8, lbn)
          (mem.sector buffer) blocks) := by
      rw [isFakeBlock_eq]
      simp only [diskfake, UInt8.toUInt8_toUInt16, UInt16.toUInt16_toUInt32]
    have hpassed : UInt8.ofInt 0 = 0 := rfl
    unfold Disk.writeLoop at hroom ⊢
    unfold fakeWrite
    simp only [hwrite, hpassed, if_true] at hroom ⊢
    obtain ⟨hstored, hrest⟩ := ih _ _ _ hroom
    have hsmall := Table.store_small (by decide) hstored
    rw [hrest, hsmall]
    exact ⟨Nat.le_trans Table.length_le_store hstored, rfl⟩

theorem fakeLpt_follows : LptFollows fakeLpt diskfake.call id fun w => w.length ≤ FAKE_MAX_BLOCKS := by
  intro c unit w hunit hroom
  unfold fakeLpt
  unfold Disk.call at hroom ⊢
  rw [hunit] at hroom ⊢
  cases hdir : c.direction with
  | read =>
    simp only [hdir, fakeRead_eq] at hroom ⊢
    exact ⟨hroom, rfl⟩
  | write =>
    simp only [hdir] at hroom ⊢
    obtain ⟨hw, heq⟩ := fakeWrite_eq _ _ _ _ _ hroom
    simp only [heq]
    exact ⟨hw, rfl⟩

end Calls

section Alike

variable {localAt : FarPtr} {xs : List Posted} {m : Machine} {b : Bufs} {r : List Reply × Option Machine}
  {s t : Pins (HostProg (List Reply × Option Machine)) (Device FakeBlocks)}

theorem fake_finishes (hrest : AtRest (serve localAt xs m) (Device.idle b []) s)
    (hrun : PinRun hostAct (Device.act diskfake.toDisk) InTime s t) (hret : t.host = .idle (.ret r)) :
    r = (serveOnDisk diskfake.toDisk localAt xs m []).1 ∧
      ∃ u b', PinRun hostAct (Device.act diskfake.toDisk) (fun mover _ => mover = .device) t u ∧
        u.dev = .idle (Device.idle b' (serveOnDisk diskfake.toDisk localAt xs m []).2) := by
  obtain ⟨b', hleads⟩ := leads_serve diskfake localAt xs m b []
  obtain ⟨-, -, hend⟩ := inTime_finishes (quiet_rest _ _ _ _) hleads hrest hrun
  obtain ⟨hres, u, halone, -, hdev, -, -⟩ := hend _ hret rfl
  exact ⟨Prog.ret.inj hres, u, b', halone, hdev⟩

/-- What the fake disk keeps of requests. -/
theorem fake_served : serveOnDisk diskfake.toDisk localAt xs m [] =
    ((serveOnDisk (remembering MAX_BLOCKS) localAt xs m []).1,
      Table.stored MAX_BLOCKS (serveOnDisk (remembering MAX_BLOCKS) localAt xs m []).2) := by
  have hfollows : LptFollows diskfake.call (remembering MAX_BLOCKS).call (Table.stored MAX_BLOCKS)
      fun _ => True := fun c _ w _ hG => diskfake_follows.call c w hG
  exact (serveBy_follows localAt hfollows xs m [] trivial).2

/-- Requests of DOS over the wires, with every change of direction in time, to a Pico with the fake disk,
just started. Where all have been answered, the PC has what the requests come to on a memory of all that
was written, which answers with the last that was written to a block if the block is one of the first 200
different ones, and with the image otherwise. The Pico keeps those 200 blocks, in the order in which they
came. -/
theorem fake_disk_remembers (hrest : AtRest (serve localAt xs m) (Device.idle b []) s)
    (hrun : PinRun hostAct (Device.act diskfake.toDisk) InTime s t) (hret : t.host = .idle (.ret r)) :
    r = (serveOnDisk (remembering MAX_BLOCKS) localAt xs m []).1 ∧
      ∃ u b' w, PinRun hostAct (Device.act diskfake.toDisk) (fun mover _ => mover = .device) t u ∧
        u.dev = .idle (Device.idle b' w) ∧
        w.map Prod.fst =
          Table.firstKeys MAX_BLOCKS (serveOnDisk (remembering MAX_BLOCKS) localAt xs m []).2 ∧
        ∀ key, Table.find (Table.isKey key) w =
          Table.lastValue MAX_BLOCKS key (serveOnDisk (remembering MAX_BLOCKS) localAt xs m []).2 := by
  obtain ⟨hserved, u, b', halone, hdev⟩ := fake_finishes hrest hrun hret
  rw [fake_served] at hserved hdev
  exact ⟨hserved, u, b', _, halone, hdev, Table.keys_stored _, fun _ => Table.find_stored _⟩

/-- Where these requests write no more than 50 different blocks, the driver built with `FAKE_LPT` comes to
the same with them and keeps the same blocks as the Pico. -/
theorem fake_lpt_alike (hrest : AtRest (serve localAt xs m) (Device.idle b []) s)
    (hrun : PinRun hostAct (Device.act diskfake.toDisk) InTime s t) (hret : t.host = .idle (.ret r))
    (hroom : (Table.firstKeys MAX_BLOCKS
      (serveOnDisk (remembering MAX_BLOCKS) localAt xs m []).2).length ≤ FAKE_MAX_BLOCKS) :
    r = (serveBy fakeLpt localAt xs m []).1 ∧
      ∃ u b', PinRun hostAct (Device.act diskfake.toDisk) (fun mover _ => mover = .device) t u ∧
        u.dev = .idle (Device.idle b' (serveBy fakeLpt localAt xs m []).2) := by
  obtain ⟨hserved, u, b', halone, hdev⟩ := fake_finishes hrest hrun hret
  have hkept : (serveBy diskfake.call localAt xs m []).2.length ≤ FAKE_MAX_BLOCKS := by
    show (serveOnDisk diskfake.toDisk localAt xs m []).2.length ≤ FAKE_MAX_BLOCKS
    rw [fake_served, ← List.length_map Prod.fst, Table.keys_stored]
    exact hroom
  have halike : serveBy fakeLpt localAt xs m [] = serveOnDisk diskfake.toDisk localAt xs m [] :=
    (serveBy_follows localAt fakeLpt_follows xs m [] hkept).2
  rw [halike]
  exact ⟨hserved, u, b', halone, hdev⟩

end Alike

section Stored

/-- The PC is about to post a write of block 1 of unit 0 and a read of the blocks 0, 1 and 2. -/
def fakeStart : Pins (HostProg (List Reply × Option Machine)) (Device FakeBlocks) :=
  ⟨.idle (serve ⟨0, 0⟩ [writePosted, readPosted] mountedMachine), .idle (Device.idle ⟨.zero, .zero⟩ []),
    ⟨0, false, false, false, false, false⟩, ⟨[], []⟩, ⟨[], []⟩⟩

theorem fakeStart_rests : AtRest (serve ⟨0, 0⟩ [writePosted, readPosted] mountedMachine)
    (Device.idle ⟨.zero, .zero⟩ []) fakeStart := ⟨rfl, rfl, rfl, rfl, rfl, rfl⟩

theorem fakeStart_answered : ∃ t, PinRun hostAct (Device.act diskfake.toDisk) InTime fakeStart t ∧
    t.host = .idle (.ret
      (serveOnDisk diskfake.toDisk ⟨0, 0⟩ [writePosted, readPosted] mountedMachine []).1) := by
  obtain ⟨b', hleads⟩ := leads_serve diskfake ⟨0, 0⟩ [writePosted, readPosted] mountedMachine
    ⟨.zero, .zero⟩ []
  obtain ⟨-, hfinishes, -⟩ := inTime_finishes (quiet_rest _ _ _ _) hleads fakeStart_rests (.refl _)
  exact hfinishes

/-- The Pico keeps the block that was written, and no other. -/
theorem fake_disk_remembers_one : ∃ (u : Pins (HostProg (List Reply × Option Machine)) (Device FakeBlocks))
    (b' : Bufs) (w : FakeBlocks), u.dev = .idle (Device.idle b' w) ∧ w.map Prod.fst = [(0, 1)] := by
  obtain ⟨t, hrun, hret⟩ := fakeStart_answered
  obtain ⟨-, u, b', w, -, hdev, hkeys, -⟩ := fake_disk_remembers fakeStart_rests hrun hret
  refine ⟨u, b', w, hdev, hkeys.trans ?_⟩
  rfl

/-- The driver built with `FAKE_LPT` comes to the same. -/
theorem fake_lpt_alike_one :
    (serveOnDisk diskfake.toDisk ⟨0, 0⟩ [writePosted, readPosted] mountedMachine []).1 =
      (serveBy fakeLpt ⟨0, 0⟩ [writePosted, readPosted] mountedMachine []).1 := by
  obtain ⟨t, hrun, hret⟩ := fakeStart_answered
  have hone : Table.firstKeys MAX_BLOCKS
      (serveOnDisk (remembering MAX_BLOCKS) ⟨0, 0⟩ [writePosted, readPosted] mountedMachine []).2 = [(0, 1)] :=
    rfl
  exact (fake_lpt_alike fakeStart_rests hrun hret (by rw [hone]; decide)).1

end Stored

end LptStore.Dos
