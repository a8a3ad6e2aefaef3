import LptStore.Protocol.Direct
import LptStore.Handshake.Completion
import LptStore.Dos.Mount

/-!
# The driver with its disks at the other end of the cable

The driver's reads and writes are calls of `LPTRead` and `LPTWrite`, whose bytes go over the wires to
the firmware and its disk layer. DOS hands the driver one request after the other, each with a transfer
address. Over the wires the requests come to what they come to with the disk layer at hand.
-/

namespace LptStore.Dos

open LptStore.Lib LptStore.Protocol LptStore.Handshake

/-- A request of DOS. Before it is made programs may change the memory. -/
structure Posted where
  request : Request
  /-- The transfer address, `rwrh_adrptr`. -/
  buffer : FarPtr
  /-- What `parse_options` says, should it be called. -/
  options : Bool
  setup : Mem → Mem

/-- The driver's variables and the memory of the PC. -/
structure Machine where
  driver : Driver
  mem : Mem

section Programs

variable {α ω : Type}

/-- The driver on the PC, its `local_buffer` at the address `localAt`. A division by zero ends it. -/
def attach (localAt : FarPtr) (x : Posted) : DosProg α → Mem → HostProg (Option α × Mem)
  | .ret a, mem => return (some a, mem)
  | .op .parseOptions k, mem => attach localAt x (k x.options) mem
  | .op .lptInit k, mem => attach localAt x (k ()) mem
  | .op (.readLocal unit lbn _) k, mem => do
      let (r, mem) ← lptRead unit lbn localAt 1 mem
      attach localAt x (k (r, mem.sector localAt)) mem
  | .op (.lptRead unit lbn count) k, mem => do
      let (r, mem) ← lptRead unit lbn x.buffer count mem
      attach localAt x (k r) mem
  | .op (.lptWrite unit lbn count) k, mem => do
      let (r, mem) ← lptWrite unit lbn x.buffer count mem
      attach localAt x (k r) mem
  | .op .divideError _, mem => return (none, mem)

/-- What the calls of `LPTRead` and `LPTWrite` come to on a state. -/
abbrev LptCalls (ω : Type) := Call → ω → (DResult × Mem) × ω

/-- The same with what the calls come to at hand. -/
def direct (lpt : LptCalls ω) (localAt : FarPtr) (x : Posted) :
    DosProg α → Mem → ω → (Option α × Mem) × ω
  | .ret a, mem, w => ((some a, mem), w)
  | .op .parseOptions k, mem, w => direct lpt localAt x (k x.options) mem w
  | .op .lptInit k, mem, w => direct lpt localAt x (k ()) mem w
  | .op (.readLocal unit lbn _) k, mem, w =>
      let ((r, mem), w) := lpt ⟨.read, unit, lbn, localAt, 1, mem⟩ w
      direct lpt localAt x (k (r, mem.sector localAt)) mem w
  | .op (.lptRead unit lbn count) k, mem, w =>
      let ((r, mem), w) := lpt ⟨.read, unit, lbn, x.buffer, count, mem⟩ w
      direct lpt localAt x (k r) mem w
  | .op (.lptWrite unit lbn count) k, mem, w =>
      let ((r, mem), w) := lpt ⟨.write, unit, lbn, x.buffer, count, mem⟩ w
      direct lpt localAt x (k r) mem w
  | .op .divideError _, mem, w => ((none, mem), w)

/-- The requests of DOS one after the other: the replies, and the machine unless a division by zero has
ended the driver. -/
def serve (localAt : FarPtr) : List Posted → Machine → HostProg (List Reply × Option Machine)
  | [], m => return ([], some m)
  | x :: xs, m => do
      match ← attach localAt x (lptDriver x.request m.driver) (x.setup m.mem) with
      | (none, _) => return ([], none)
      | (some (reply, driver), mem) => do
          let (replies, m) ← serve localAt xs ⟨driver, mem⟩
          return (reply :: replies, m)

/-- One request. -/
def Posted.servedBy (lpt : LptCalls ω) (localAt : FarPtr) (x : Posted) (m : Machine) (w : ω) :
    Option (Reply × Machine) × ω :=
  match direct lpt localAt x (lptDriver x.request m.driver) (x.setup m.mem) w with
  | ((none, _), w) => (none, w)
  | ((some (reply, driver), mem), w) => (some (reply, ⟨driver, mem⟩), w)

/-- The requests one after the other. -/
def serveBy (lpt : LptCalls ω) (localAt : FarPtr) :
    List Posted → Machine → ω → (List Reply × Option Machine) × ω
  | [], m, w => (([], some m), w)
  | x :: xs, m, w =>
      match x.servedBy lpt localAt m w with
      | (none, w) => (([], none), w)
      | (some (reply, m), w) =>
          let ((replies, m), w) := serveBy lpt localAt xs m w
          ((reply :: replies, m), w)

/-- One request with the disk layer at hand. -/
abbrev Posted.onDisk (disk : Disk ω) (localAt : FarPtr) (x : Posted) (m : Machine) (w : ω) :
    Option (Reply × Machine) × ω :=
  x.servedBy disk.call localAt m w

/-- The requests with the disk layer at hand. -/
abbrev serveOnDisk (disk : Disk ω) (localAt : FarPtr) (xs : List Posted) (m : Machine) (w : ω) :
    (List Reply × Option Machine) × ω :=
  serveBy disk.call localAt xs m w

end Programs

section Transparency

variable {α ω : Type} (disk : BlindDisk ω) (localAt : FarPtr)

/-- What follows a call sees what the call comes to with the disk layer at hand. -/
theorem leads_callThen {c : Call} {f : DResult × Mem → HostProg α} {b : Bufs} {w : ω}
    {fin : Bufs → HostProg α × Device ω}
    (h : ∀ b, ∃ b', Leads hostAct (Device.act disk.toDisk) (fin b')
      (f (disk.call c w).1, Device.idle b (disk.call c w).2)) :
    ∃ b', Leads hostAct (Device.act disk.toDisk) (fin b') (c.prog.bind f, Device.idle b w) := by
  obtain ⟨b₁, hcall⟩ := leads_call disk c b w
  obtain ⟨b', hrest⟩ := h b₁
  exact ⟨b', leads_bind hcall hrest⟩

/-- The driver over the link, by induction on its program. -/
theorem leads_attach (x : Posted) (p : DosProg α) (mem : Mem) (b : Bufs) (w : ω) :
    ∃ b', Leads hostAct (Device.act disk.toDisk)
      (.ret (direct disk.toDisk.call localAt x p mem w).1,
        Device.idle b' (direct disk.toDisk.call localAt x p mem w).2)
      (attach localAt x p mem, Device.idle b w) := by
  induction p generalizing mem b w with
  | ret a => exact ⟨b, .refl _⟩
  | op o k ih =>
    cases o with
    | parseOptions => exact ih x.options mem b w
    | lptInit => exact ih () mem b w
    | readLocal unit lbn old =>
      exact leads_callThen disk (c := ⟨.read, unit, lbn, localAt, 1, mem⟩) fun b => ih _ _ b _
    | lptRead unit lbn count =>
      exact leads_callThen disk (c := ⟨.read, unit, lbn, x.buffer, count, mem⟩) fun b => ih _ _ b _
    | lptWrite unit lbn count =>
      exact leads_callThen disk (c := ⟨.write, unit, lbn, x.buffer, count, mem⟩) fun b => ih _ _ b _
    | divideError => exact ⟨b, .refl _⟩

/-- The requests over the link, by induction on the requests. -/
theorem leads_serve (xs : List Posted) (m : Machine) (b : Bufs) (w : ω) :
    ∃ b', Leads hostAct (Device.act disk.toDisk)
      (.ret (serveOnDisk disk.toDisk localAt xs m w).1,
        Device.idle b' (serveOnDisk disk.toDisk localAt xs m w).2)
      (serve localAt xs m, Device.idle b w) := by
  induction xs generalizing m b w with
  | nil => exact ⟨b, .refl _⟩
  | cons x xs ih =>
    obtain ⟨b₁, hone⟩ := leads_attach disk localAt x (lptDriver x.request m.driver) (x.setup m.mem) b w
    cases hserved : direct disk.toDisk.call localAt x (lptDriver x.request m.driver) (x.setup m.mem) w with
    | mk result w₁ =>
      obtain ⟨answer, mem⟩ := result
      rw [hserved] at hone
      cases answer with
      | none =>
        refine ⟨b₁, ?_⟩
        simp only [serveBy, Posted.servedBy, hserved]
        exact leads_bind hone (.refl _)
      | some answer =>
        obtain ⟨reply, driver⟩ := answer
        obtain ⟨b', hrest⟩ := ih ⟨driver, mem⟩ b₁ w₁
        refine ⟨b', ?_⟩
        simp only [serveBy, Posted.servedBy, hserved]
        exact leads_bind hone (leads_bind hrest (.refl _))

/-- The requests of DOS over the wires, in any order of the accesses of the two machines in which every
change of direction is in time: there is no deadlock, the last request can always still be answered, and
once it is, the replies, the memory and the driver's variables are what the requests come to with the
disk layer at hand, and so is the disk layer when core 1 is back at its polls, where it gets alone. -/
theorem requests_over_wires {xs : List Posted} {m : Machine} {b : Bufs} {w : ω}
    {s t : Pins (HostProg (List Reply × Option Machine)) (Device ω)}
    (hrest : AtRest (serve localAt xs m) (Device.idle b w) s)
    (hrun : PinRun hostAct (Device.act disk.toDisk) InTime s t) :
    ¬ Deadlock (Device.act disk.toDisk) t ∧
      (∃ u r, PinRun hostAct (Device.act disk.toDisk) InTime t u ∧ u.host = .idle (.ret r)) ∧
      ∀ r, t.host = .idle (.ret r) → r = (serveOnDisk disk.toDisk localAt xs m w).1 ∧
        ∃ u b', PinRun hostAct (Device.act disk.toDisk) (fun m _ => m = .device) t u ∧
          u.dev = .idle (Device.idle b' (serveOnDisk disk.toDisk localAt xs m w).2) ∧
          u.lines.strobe = false ∧ u.lines.g19 = false := by
  obtain ⟨b', hleads⟩ := leads_serve disk localAt xs m b w
  obtain ⟨hlive, ⟨u, hfinish, hu⟩, hend⟩ :=
    inTime_finishes (quiet_rest _ _ _ _) hleads hrest hrun
  refine ⟨hlive, ⟨u, _, hfinish, hu⟩, ?_⟩
  intro r hhost
  obtain ⟨hr, u, halone, -, hdev, hS, hA⟩ := hend _ hhost rfl
  exact ⟨Prog.ret.inj hr, u, b', halone, hdev, hS, hA⟩

end Transparency

section Units

variable {unit partno : UInt8}

/-- The blocks that the operation moves, if any, are of the unit. -/
def OnUnit (unit : UInt8) : DosOp → Prop
  | .readLocal u _ _ => u = unit.toUInt16
  | .lptRead u _ _ => u = unit.toUInt16
  | .lptWrite u _ _ => u = unit.toUInt16
  | _ => True

theorem onUnit_checkFs (sect : UInt32) (localBuffer : Sector) :
    Prog.Only (OnUnit unit) (checkFs unit sect localBuffer) := by
  refine ⟨rfl, ?_⟩
  intro r
  show Prog.Only (OnUnit unit) (if r.1 ≠ .RES_OK then .ret (3, r.2) else .ret (fatKind r.2, r.2))
  split <;> trivial

theorem onUnit_findPartition (br : List UInt32) (localBuffer : Sector) :
    Prog.Only (OnUnit unit) (findPartition unit partno br localBuffer) := by
  induction br generalizing localBuffer with
  | nil => trivial
  | cons bsect br ih =>
    rw [findPartition_cons]
    apply Prog.Only.bind
    · unfold tryPartition
      split
      · exact onUnit_checkFs _ _
      · trivial
    · intro x
      split
      · exact ih x.2
      · trivial

theorem onUnit_lptInitialize (i : Nat) (d : Driver) :
    Prog.Only (OnUnit unit) (lptInitialize unit partno i d) := by
  have hlocate : Prog.Only (OnUnit unit) (locateVolume unit partno d.localBuffer) := by
    apply (onUnit_checkFs _ _).bind
    intro x
    show Prog.Only (OnUnit unit) (if x.1 = 1 ∨ x.1 = 0 ∧ partno ≠ 0 then _ else _)
    split
    · exact onUnit_findPartition _ _
    · trivial
  have hfind : Prog.Only (OnUnit unit) (findVolume unit partno i d) := by
    unfold findVolume
    split
    · trivial
    · exact hlocate.bind fun _ => trivial
  apply hfind.bind
  intro x
  show Prog.Only (OnUnit unit) (if x.1 < 0 then _ else _)
  split <;> trivial

theorem onUnit_transfer {call : DosProg DResult} {rh : Request} (d : Driver)
    (hcall : Prog.Only (OnUnit rh.unit) call) : Prog.Only (OnUnit rh.unit) (transfer call rh d) := by
  have hinit : Prog.Only (OnUnit rh.unit) (driveInit rh d) := by
    unfold driveInit
    split
    · apply (onUnit_lptInitialize _ _).bind
      intro x
      show Prog.Only (OnUnit rh.unit) (if x.1 = true then _ else _)
      split <;> trivial
    · trivial
  apply hinit.bind
  rintro ⟨status | status, d'⟩
  · exact hcall.bind fun _ => trivial
  · trivial

theorem onUnit_genericIoctl (rh : Request) (d : Driver) :
    Prog.Only (OnUnit unit) (genericIoctl rh d) := by
  have hparameters : Prog.Only (OnUnit unit) (getParameters d) := by
    show Prog.Only (OnUnit unit) (if (d.bpb 0).trackSize * (d.bpb 0).headCount = 0 then _ else _)
    split
    · exact ⟨trivial, nofun⟩
    · trivial
  unfold genericIoctl
  split_ifs
  · exact hparameters.bind fun _ => trivial
  all_goals trivial

theorem onUnit_driverInitialize (rh : Request) (d : Driver) :
    Prog.Only (OnUnit rh.unit) (driverInitialize rh d) := by
  refine ⟨trivial, ?_⟩
  intro parsed
  cases parsed with
  | false => trivial
  | true =>
    refine ⟨trivial, ?_⟩
    intro _
    apply (onUnit_lptInitialize _ _).bind
    intro x
    show Prog.Only (OnUnit rh.unit) (if x.1 = true then _ else _)
    split <;> trivial

/-- A request moves blocks of its own unit only. -/
theorem onUnit_lptDriver (rh : Request) (d : Driver) :
    Prog.Only (OnUnit rh.unit) (lptDriver rh d) := by
  have hread : Prog.Only (OnUnit rh.unit)
      (.op (.lptRead rh.unit.toUInt16 rh.start rh.count) .ret : DosProg DResult) :=
    ⟨rfl, fun _ => trivial⟩
  have hwrite : Prog.Only (OnUnit rh.unit)
      (.op (.lptWrite rh.unit.toUInt16 rh.start rh.count) .ret : DosProg DResult) :=
    ⟨rfl, fun _ => trivial⟩
  unfold lptDriver
  split
  · exact onUnit_driverInitialize rh d
  split
  · trivial
  split
  · trivial
  split
  · exact onUnit_transfer d hread
  split
  · exact onUnit_transfer d hwrite
  split
  · exact (onUnit_genericIoctl rh d).bind fun _ => trivial
  split
  · trivial
  split
  · trivial
  · trivial

end Units

section Simulation

variable {α ω ω' : Type} {lpt : LptCalls ω} {lpt' : LptCalls ω'} {f : ω' → ω} {G : ω' → Prop}
  (localAt : FarPtr)

/-- As long as `lpt'` stays in `G`, which it does not come back to, calls for units of the driver come to
the same from `f w` as by `lpt'` from `w`. -/
def LptFollows (lpt : LptCalls ω) (lpt' : LptCalls ω') (f : ω' → ω) (G : ω' → Prop) : Prop :=
  ∀ (c : Call) (unit : UInt8) w, c.unit = unit.toUInt16 → G (lpt' c w).2 →
    G w ∧ lpt c (f w) = ((lpt' c w).1, f (lpt' c w).2)

theorem direct_follows (h : LptFollows lpt lpt' f G) (x : Posted) {unit : UInt8} {p : DosProg α}
    (hp : p.Only (OnUnit unit)) (mem : Mem) (w : ω')
    (hG : G (direct lpt' localAt x p mem w).2) :
    G w ∧ direct lpt localAt x p mem (f w) =
      ((direct lpt' localAt x p mem w).1, f (direct lpt' localAt x p mem w).2) := by
  induction p generalizing mem w with
  | ret a => exact ⟨hG, rfl⟩
  | op o k ih =>
    obtain ⟨hop, hrest⟩ := hp
    cases o with
    | parseOptions => exact ih x.options (hrest x.options) mem w hG
    | lptInit => exact ih () (hrest ()) mem w hG
    | readLocal u lbn old =>
      obtain ⟨hG₁, hnext⟩ := ih _ (hrest _) _ _ hG
      obtain ⟨hw, hcall⟩ := h ⟨.read, u, lbn, localAt, 1, mem⟩ unit w hop hG₁
      refine ⟨hw, ?_⟩
      unfold direct
      rw [hcall]
      exact hnext
    | lptRead u lbn count =>
      obtain ⟨hG₁, hnext⟩ := ih _ (hrest _) _ _ hG
      obtain ⟨hw, hcall⟩ := h ⟨.read, u, lbn, x.buffer, count, mem⟩ unit w hop hG₁
      refine ⟨hw, ?_⟩
      unfold direct
      rw [hcall]
      exact hnext
    | lptWrite u lbn count =>
      obtain ⟨hG₁, hnext⟩ := ih _ (hrest _) _ _ hG
      obtain ⟨hw, hcall⟩ := h ⟨.write, u, lbn, x.buffer, count, mem⟩ unit w hop hG₁
      refine ⟨hw, ?_⟩
      unfold direct
      rw [hcall]
      exact hnext
    | divideError => exact ⟨hG, rfl⟩

/-- The requests, by induction on the requests. -/
theorem serveBy_follows (h : LptFollows lpt lpt' f G) (xs : List Posted) (m : Machine) (w : ω')
    (hG : G (serveBy lpt' localAt xs m w).2) :
    G w ∧ serveBy lpt localAt xs m (f w) =
      ((serveBy lpt' localAt xs m w).1, f (serveBy lpt' localAt xs m w).2) := by
  induction xs generalizing m w with
  | nil => exact ⟨hG, rfl⟩
  | cons x xs ih =>
    have hone := direct_follows localAt h x (onUnit_lptDriver x.request m.driver)
      (x.setup m.mem) w
    unfold serveBy Posted.servedBy at hG ⊢
    cases hserved : direct lpt' localAt x (lptDriver x.request m.driver) (x.setup m.mem) w with
    | mk result w₁ =>
      obtain ⟨answer, mem⟩ := result
      rw [hserved] at hone hG
      cases answer with
      | none =>
        obtain ⟨hw, hdirect⟩ := hone hG
        simp only [hdirect]
        exact ⟨hw, trivial⟩
      | some answer =>
        obtain ⟨reply, driver⟩ := answer
        obtain ⟨hG₁, hrest⟩ := ih _ _ hG
        obtain ⟨hw, hdirect⟩ := hone hG₁
        simp only [hdirect, hrest]
        exact ⟨hw, trivial⟩

end Simulation

section Stored

/-- A driver that has read its partition blocks, and a memory that is not all zero. -/
def mountedMachine : Machine :=
  ⟨{ Driver.loaded with initNeeded := fun _ => false }, fun a => UInt8.ofNat (a / 512)⟩

/-- The same over a memory of zeros. -/
def clearedMachine : Machine := ⟨mountedMachine.driver, fun _ => 0⟩

/-- A write of the first block of unit 0, and a read of it to another place. -/
def storedPosts : List Posted :=
  [⟨⟨0, OUTPUT, 0, 1, 0, 0⟩, ⟨0, 1024⟩, true, id⟩, ⟨⟨0, INPUT, 0, 1, 0, 0⟩, ⟨0, 4096⟩, true, id⟩]

/-- The PC is about to post them, to a device with a drive of one block. -/
def postedStart : Pins (HostProg (List Reply × Option Machine)) (Device Drives) :=
  ⟨.idle (serve ⟨0, 0⟩ storedPosts mountedMachine),
    .idle (Device.idle ⟨.zero, .zero⟩ fun _ => [.zero]), ⟨0, false, false, false, false, false⟩,
    ⟨[], []⟩, ⟨[], []⟩⟩

theorem postedStart_atRest : AtRest (serve ⟨0, 0⟩ storedPosts mountedMachine)
    (Device.idle ⟨.zero, .zero⟩ fun _ => [.zero]) postedStart := ⟨rfl, rfl, rfl, rfl, rfl, rfl⟩

/-- Both are answered, the drive has the block, and its last byte is in the other place. -/
theorem storedPosts_served : ∃ m, (serveOnDisk blindArray.toDisk ⟨0, 0⟩ storedPosts mountedMachine
    fun _ => [.zero]).1 = ([⟨DONE, .none⟩, ⟨DONE, .none⟩], some m) ∧
      m.mem (FarPtr.addr ⟨0, 4096⟩ 511) = 2 ∧ (serveOnDisk blindArray.toDisk ⟨0, 0⟩ storedPosts
        mountedMachine fun _ => [.zero]).2 0 = [mountedMachine.mem.sector ⟨0, 1024⟩] := by
  have hserved : (serveOnDisk blindArray.toDisk ⟨0, 0⟩ storedPosts mountedMachine
      fun _ => [.zero]).1.1 = [⟨DONE, .none⟩, ⟨DONE, .none⟩] ∧
      (serveOnDisk blindArray.toDisk ⟨0, 0⟩ storedPosts mountedMachine fun _ => [.zero]).1.2.map
        (fun m => m.mem (FarPtr.addr ⟨0, 4096⟩ 511)) = some 2 ∧
      (serveOnDisk blindArray.toDisk ⟨0, 0⟩ storedPosts mountedMachine fun _ => [.zero]).2 0 =
        [mountedMachine.mem.sector ⟨0, 1024⟩] := by
    decide +kernel
  obtain ⟨hreplies, hmem, hdrive⟩ := hserved
  obtain ⟨m, hm, hbyte⟩ := Option.map_eq_some_iff.mp hmem
  exact ⟨m, Prod.ext hreplies hm, hbyte, hdrive⟩

/-- So they are over the wires. -/
theorem requests_over_wires_stored :
    ∃ (t u : Pins (HostProg (List Reply × Option Machine)) (Device Drives)) (m : Machine) (b : Bufs)
        (w : Drives), PinRun hostAct (Device.act blindArray.toDisk) InTime postedStart t ∧
      ¬ Deadlock (Device.act blindArray.toDisk) t ∧
      t.host = .idle (.ret ([⟨DONE, .none⟩, ⟨DONE, .none⟩], some m)) ∧
      m.mem (FarPtr.addr ⟨0, 4096⟩ 511) = 2 ∧
      PinRun hostAct (Device.act blindArray.toDisk) (fun m _ => m = .device) t u ∧
      u.dev = .idle (Device.idle b w) ∧ w 0 = [mountedMachine.mem.sector ⟨0, 1024⟩] := by
  obtain ⟨-, ⟨t, r, hrun, hhost⟩, -⟩ :=
    requests_over_wires blindArray.toBlindDisk ⟨0, 0⟩ postedStart_atRest (.refl _)
  obtain ⟨hlive, -, hanswers⟩ :=
    requests_over_wires blindArray.toBlindDisk ⟨0, 0⟩ postedStart_atRest hrun
  obtain ⟨m, hserved, hbyte, hdrive⟩ := storedPosts_served
  obtain ⟨rfl, u, b, halone, hdev, -⟩ := hanswers r hhost
  rw [hserved] at hhost
  exact ⟨t, u, m, b, _, hrun, hlive, hhost, hbyte, halone, hdev, hdrive⟩

end Stored

end LptStore.Dos
