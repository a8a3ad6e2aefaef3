import LptStore.Firmware.Files

/-!
# Sticks one after the other

A stick is plugged in and mounted, DOS posts its requests, and when they have been answered the stick is
pulled and another one plugged in. `init_disk` does not clear its tables, so a drive that the new stick
does not have would be served from the place where an earlier one had it. If each stick has the drives of
those before it, each is served as if it were the first.
-/

namespace LptStore.Firmware

open LptStore.Lib LptStore.Protocol LptStore.Handshake LptStore.Fs LptStore.Dos

section Definitions

/-- A stick with a well-formed volume, clusters numbered within the FAT and a configuration file without
gaps, and what DOS posts while it is in. -/
structure Stick where
  volume : Volume
  inFat : volume.InFat
  configWhole : ConfigWhole volume
  posts : List Posted

/-- The firmware and DOS with no stick in, core 1 at its polls. -/
structure Unplugged where
  tables : DriveTables
  bufs : Bufs
  lines : Lines
  machine : Machine

/-- Both control lines are low. -/
structure Unplugged.Low (s : Unplugged) : Prop where
  strobe : s.lines.strobe = false
  ack : s.lines.g19 = false

/-- The stick has been mounted and DOS is about to post its requests. -/
def Unplugged.plugged (localAt : FarPtr) (x : Stick) (s : Unplugged) :
    Pins (HostProg (List Reply × Option Machine)) (Device Bench) :=
  ⟨.idle (serve localAt x.posts s.machine), .idle (Device.idle s.bufs ⟨x.volume.medium, []⟩), s.lines,
    ⟨[], []⟩, ⟨[], []⟩⟩

/-- A stick that was in: the PC before and after, what DOS was answered, and the stick as it was pulled. -/
structure Visit where
  stick : Stick
  before : Machine
  replies : List Reply
  after : Machine
  left : Bench

/-- A stick is plugged in and mounted, the FAT cache on the stack invalid or its own, all requests are
answered with every change of direction in time, and it is pulled. -/
inductive Visited (localAt : FarPtr) (s : Unplugged) : Visit → Unplugged → Prop
  | mk {x : Stick} {fuel : Nat} {stack : Stack} {t : DriveTables} {l : List Touch}
      {u : Pins (HostProg (List Reply × Option Machine)) (Device Bench)} {replies : List Reply}
      {m : Machine} {b : Bufs} {w : Bench} :
      stack.Coherent x.volume.medium →
      Reads x.volume.medium (initDisk fuel stack s.tables) (0, t) l →
      PinRun hostAct (Device.act (stickDisk t)) InTime (s.plugged localAt x) u →
      u.host = .idle (.ret (replies, some m)) → u.dev = .idle (Device.idle b w) →
      Visited localAt s ⟨x, s.machine, replies, m, w⟩ ⟨t, b, u.lines, m⟩

/-- Sticks one after the other. -/
inductive Swapped (localAt : FarPtr) : Unplugged → List Visit → Unplugged → Prop
  | nil (s : Unplugged) : Swapped localAt s [] s
  | cons {s s₁ s' : Unplugged} {v : Visit} {vs : List Visit} : Visited localAt s v s₁ →
      Swapped localAt s₁ vs s' → Swapped localAt s (v :: vs) s'

/-- With the tables `t` the requests have stored blocks in the files of the stick and fetched blocks of
them: a block of the file of an advertised drive holds what was stored there last, and each request that
read it brought what was stored there last before. -/
def Visit.FilesServed (localAt : FarPtr) (t : DriveTables) (v : Visit) : Prop :=
  ∃ hs, Exchanges (stickDisk t) localAt (v.before, ⟨v.stick.volume.medium, []⟩) hs (v.after, v.left) ∧
    hs.map Exchanged.posted = v.stick.posts ∧ hs.map Exchanged.status = v.replies.map Reply.status ∧
    ∀ d i x, FileBlock v.stick.volume t d i x →
      v.left.medium x = latest hs d i (v.stick.volume.medium x) ∧
      ∀ hs₁ y hs₂, hs = hs₁ ++ y :: hs₂ → y.posted.request.command = INPUT →
        y.status ≠ DONE ||| ERROR ||| GENERAL_FAILURE → y.posted.request.unit = d →
        y.posted.request.start.toNat ≤ i →
        i < y.posted.request.start.toNat + y.posted.request.count.toNat →
        y.after.sector (y.posted.buffer.add (512 * (i - y.posted.request.start.toNat))) =
          latest hs₁ d i (v.stick.volume.medium x)

/-- The stick was mounted as over zeroed tables, its files were served, and it may be mounted again. -/
def Visit.Served (localAt : FarPtr) (v : Visit) : Prop :=
  ∃ fuel t, initOn v.stick.volume.medium fuel .zero = some (0, t) ∧ v.FilesServed localAt t ∧
    Remountable v.stick.volume t v.left.medium

end Definitions

section Runs

variable {localAt : FarPtr} {s s' : Unplugged} {v : Visit} {vs : List Visit} {vol : Volume}
  {t : DriveTables} {fuel : Nat}

/-- What a mount leaves in the tables is of its own stick. -/
theorem within_mount (h : initOn vol.medium fuel .zero = some (0, t)) : t.Within vol.entries := by
  intro s hs
  have hlast : lastEntry s vol.entries = none := lastEntry_eq_none.mpr hs
  by_cases hchecked : s.Checked
  · exact (Volume.slot_unlisted h hchecked hlast).1
  · obtain ⟨-, es, hes, -⟩ := initOn_judges h
    rw [initOn_unchecked h hes hchecked]
    cases Volume.rootListed_eq hes
    rw [slot_scanned, hlast]
    rfl

theorem plugged_atRest (localAt : FarPtr) (x : Stick) (hlow : s.Low) : AtRest (serve localAt x.posts s.machine)
    (Device.idle s.bufs ⟨x.volume.medium, []⟩) (s.plugged localAt x) :=
  ⟨rfl, rfl, hlow.strobe, hlow.ack, rfl, rfl⟩

/-- One stick. -/
theorem visited_served (h : Visited localAt s v s') (hwithin : s.tables.Within v.stick.volume.entries)
    (hlow : s.Low) (hsuits : ∀ x ∈ v.stick.posts, Posted.Suits localAt x) :
    v.Served localAt ∧ s'.tables.Within v.stick.volume.entries ∧ s'.Low := by
  cases h with
  | @mk x fuel stack t l u replies m b w hcache hmount hrun hhost hdev =>
    have hon : initOn x.volume.medium fuel .zero = some (0, t) :=
      (Volume.mount_within hwithin).symm.trans (initOn_of_reads hcache hmount)
    have hapart := apart_mounted hon x.configWhole
    have hrest := plugged_atRest localAt x hlow
    obtain ⟨b', hleads⟩ := leads_stick hapart x.posts s.machine s.bufs ⟨x.volume.medium, []⟩
    obtain ⟨hres, hdevice, hS, hA⟩ :=
      inTime_ends (quiet_rest _ _ _ _) hleads hrest hrun hhost hdev rfl
    have hworld : w = (serveOnDisk (stickDisk t) localAt x.posts s.machine ⟨x.volume.medium, []⟩).2 :=
      congrArg Device.world hdevice
    have hserved : serveOnDisk (stickDisk t) localAt x.posts s.machine ⟨x.volume.medium, []⟩ =
        ((replies, some m), w) := Prod.ext (Prog.ret.inj hres).symm hworld.symm
    obtain ⟨hs, hexch, hposted, hstatus, hfiles⟩ :=
      served_files hon hapart (fun x hx => (hsuits x hx).toFits) hserved
    have hstart : (pico (s.plugged localAt x)).dev.All fun d => ∀ a, (∀ disk, a ∉ extent t disk) →
        d.world.medium a = x.volume.medium a := fun _ _ => rfl
    have hkept := freeRun_keeps (fun d hd => act_keepsWorld (keeps_outside x.volume.medium) hd)
      (freeRun_of_pinRun hrun) hstart
    unfold pico at hkept
    rw [hdev] at hkept
    refine ⟨⟨fuel, t, hon, ⟨hs, hexch, hposted, hstatus, hfiles⟩, ?_⟩, within_mount hon, hS, hA⟩
    exact remountable_of_outside hon x.configWhole x.inFat hkept

/-- Sticks one after the other, from tables that hold nothing of a slot that one of them does not list. -/
theorem swapped_served (hrun : Swapped localAt s vs s')
    (hwithin : ∀ v ∈ vs, s.tables.Within v.stick.volume.entries) (hlow : s.Low)
    (hlists : vs.Pairwise fun v v' => Relisted v.stick.volume.entries v'.stick.volume.entries)
    (hsuits : ∀ v ∈ vs, ∀ x ∈ v.stick.posts, Posted.Suits localAt x) : ∀ v ∈ vs, v.Served localAt := by
  induction hrun with
  | nil s =>
    intro v hv
    cases hv
  | cons hone _ ih =>
    obtain ⟨hfirst, hnext⟩ := List.pairwise_cons.mp hlists
    obtain ⟨hsuitsFirst, hsuitsNext⟩ := List.forall_mem_cons.mp hsuits
    obtain ⟨hserved, htables, hlow₁⟩ :=
      visited_served hone (List.forall_mem_cons.mp hwithin).1 hlow hsuitsFirst
    have hrest := ih (fun v' hv' => htables.mono (hfirst v' hv')) hlow₁ hnext hsuitsNext
    exact List.forall_mem_cons.mpr ⟨hserved, hrest⟩

/-- Sticks one after the other from the start of the firmware, each with a well-formed volume, clusters
numbered within the FAT, a configuration file without gaps, and the drives of those before it. Each is
mounted as if it were the first, and its files are served over the wires: whatever DOS has posted while it
was in, none of it for the unit behind the last, a block of the file of an advertised drive holds what was
stored there last, each request that read it brought what was stored there last before, and the stick may
be mounted again. -/
theorem sticks_over_wires (hrun : Swapped localAt s vs s') (hstart : s.tables = .zero) (hlow : s.Low)
    (hlists : vs.Pairwise fun v v' => Relisted v.stick.volume.entries v'.stick.volume.entries)
    (hsuits : ∀ v ∈ vs, ∀ x ∈ v.stick.posts, Posted.Suits localAt x) : ∀ v ∈ vs, v.Served localAt := by
  apply swapped_served hrun _ hlow hlists hsuits
  intro v _
  rw [hstart]
  exact DriveTables.within_zero _

end Runs

section Two

variable {localAt : FarPtr} {s : Unplugged} {x : Stick} {fuel : Nat} {stack : Stack} {t : DriveTables}
  {l : List Touch} {replies : List Reply} {m : Machine} {w : Bench}

/-- What the requests come to with the disk layer at hand, a stick that is plugged in can come to. -/
theorem visited_exists (hcache : stack.Coherent x.volume.medium)
    (hmount : Reads x.volume.medium (initDisk fuel stack s.tables) (0, t) l)
    (hwithin : s.tables.Within x.volume.entries) (hlow : s.Low)
    (hserved : serveOnDisk (stickDisk t) localAt x.posts s.machine ⟨x.volume.medium, []⟩ =
      ((replies, some m), w)) :
    ∃ b lines, Visited localAt s ⟨x, s.machine, replies, m, w⟩ ⟨t, b, lines, m⟩ := by
  have hon : initOn x.volume.medium fuel .zero = some (0, t) :=
    (Volume.mount_within hwithin).symm.trans (initOn_of_reads hcache hmount)
  obtain ⟨b, hleads⟩ := leads_stick (apart_mounted hon x.configWhole) x.posts s.machine s.bufs
    ⟨x.volume.medium, []⟩
  rw [hserved] at hleads
  obtain ⟨u, hrun, hhost, hdev⟩ :=
    inTime_ends_exists (quiet_rest _ _ _ _) rfl hleads (plugged_atRest localAt x hlow)
  exact ⟨b, u.lines, .mk hcache hmount hrun hhost hdev⟩

/-- A stick on which nothing is posted, mounted over the tables that the mount of one like it has left. -/
theorem visited_again {b : Bufs} {lines : Lines} (hposts : x.posts = [])
    (hon : initOn x.volume.medium fuel .zero = some (0, t)) (hlow : Unplugged.Low ⟨t, b, lines, m⟩) :
    ∃ b' lines', Visited localAt ⟨t, b, lines, m⟩
      ⟨x, m, [], m, ⟨x.volume.medium, []⟩⟩ ⟨t, b', lines', m⟩ := by
  have hwithin : t.Within x.volume.entries := within_mount hon
  have hover : initOn x.volume.medium fuel t = some (0, t) := (Volume.mount_within hwithin).trans hon
  obtain ⟨l, hl⟩ := initDisk_reads (invalidStack_coherent _) hover
  have hnone : serveOnDisk (stickDisk t) localAt x.posts m ⟨x.volume.medium, []⟩ =
      (([], some m), ⟨x.volume.medium, []⟩) := by
    rw [hposts]
    rfl
  exact visited_exists (invalidStack_coherent _) hl hwithin hlow hnone

/-- The stick with drive A, and what is posted while it is in. -/
def stickWith (posts : List Posted) : Stick :=
  ⟨stickVolume, stickVolume_inFat, stickVolume_configWhole, posts⟩

/-- The firmware has started, and DOS has mounted unit 0. -/
def startedUp : Unplugged :=
  ⟨.zero, ⟨.zero, .zero⟩, ⟨0, false, false, false, false, false⟩, mountedMachine⟩

/-- The visit of the one on which a block is stored, and then one with nothing posted. -/
def firstVisit (m : Machine) (w : Bench) : Visit :=
  ⟨stickWith storedPosts, mountedMachine, [⟨DONE, .none⟩, ⟨DONE, .none⟩], m, w⟩

def secondVisit (m : Machine) : Visit :=
  ⟨stickWith [], m, [], m, ⟨stickVolume.medium, []⟩⟩

/-- A stick with drive A on which a block is stored, and another one like it behind it. -/
theorem sticks_over_wires_two : ∃ (s' : Unplugged) (v v' : Visit),
    Swapped ⟨0, 0⟩ startedUp [v, v'] s' ∧ v.stick.posts = storedPosts ∧
      v.replies = [⟨DONE, .none⟩, ⟨DONE, .none⟩] ∧ v.Served ⟨0, 0⟩ ∧ v'.Served ⟨0, 0⟩ := by
  obtain ⟨l, hl⟩ := stickTables_mounted
  have hon := initOn_of_reads (invalidStack_coherent _) hl
  have hzero : startedUp.tables.Within stickVolume.entries := DriveTables.within_zero _
  have hlow : startedUp.Low := ⟨rfl, rfl⟩
  obtain ⟨m, w, hserved⟩ := stored_served
  obtain ⟨b, lines, hfirst⟩ : ∃ b lines, Visited ⟨0, 0⟩ startedUp (firstVisit m w)
      ⟨stickTables, b, lines, m⟩ :=
    visited_exists (invalidStack_coherent _) hl hzero hlow hserved
  obtain ⟨-, -, hlow₁⟩ := visited_served hfirst hzero hlow storedPosts_suit
  obtain ⟨b', lines', hsecond⟩ : ∃ b' lines', Visited ⟨0, 0⟩ ⟨stickTables, b, lines, m⟩ (secondVisit m)
      ⟨stickTables, b', lines', m⟩ :=
    visited_again rfl hon hlow₁
  have hlists : [firstVisit m w, secondVisit m].Pairwise
      fun v v' => Relisted v.stick.volume.entries v'.stick.volume.entries :=
    List.pairwise_pair.mpr fun e he => ⟨e, he, rfl⟩
  have hsuits : ∀ v ∈ [firstVisit m w, secondVisit m], ∀ x ∈ v.stick.posts, Posted.Suits ⟨0, 0⟩ x :=
    List.forall_mem_cons.mpr ⟨storedPosts_suit, List.forall_mem_singleton.mpr fun _ hx => by cases hx⟩
  have hrun : Swapped ⟨0, 0⟩ startedUp [firstVisit m w, secondVisit m] ⟨stickTables, b', lines', m⟩ :=
    .cons hfirst (.cons hsecond (.nil _))
  have hall := sticks_over_wires hrun rfl hlow hlists hsuits
  obtain ⟨hone, hrest⟩ := List.forall_mem_cons.mp hall
  exact ⟨_, _, _, hrun, rfl, rfl, hone, List.forall_mem_singleton.mp hrest⟩

end Two

end LptStore.Firmware
