import Mathlib.Data.List.Pairwise
import LptStore.Firmware.Stick
import LptStore.Dos.BlockDevice

/-!
# The units of the driver are the files of the stick

From a request of DOS through the port and core 1 to the sectors of the drive files: the requests store
and fetch the blocks of the files of their units, in the order of their chains, and leave the stick
mountable.
-/

namespace LptStore.Firmware

open LptStore.Lib LptStore.Protocol LptStore.Handshake LptStore.Fs LptStore.Dos

section Suits

/-- A transfer that fits, and not for the unit behind the last: `fat32.c` takes its number for that of a
drive, and the words behind the tables are of other variables. -/
structure Posted.Suits (localAt : FarPtr) (x : Posted) : Prop extends x.Fits localAt where
  unit_ne : x.request.unit ≠ 16

instance (localAt : FarPtr) (x : Posted) : Decidable (Posted.Suits localAt x) :=
  decidable_of_iff (x.Fits localAt ∧ x.request.unit ≠ 16)
    ⟨fun ⟨hfits, hunit⟩ => ⟨hfits, hunit⟩, fun h => ⟨h.toFits, h.unit_ne⟩⟩

end Suits

section Files

variable {v : Volume} {t : DriveTables} {fuel : Nat} {d : UInt8} {i : Nat} {x : UInt32}

/-- The sector `x` is block `i` of the file behind the advertised drive `d`: the `i`-th that `read_file`
visits on its chain. -/
structure FileBlock (v : Volume) (t : DriveTables) (d : UInt8) (i : Nat) (x : UInt32) : Prop where
  id : DriveId d
  advertised : t.advertised (slotOf d) = true
  file : ∃ e ∈ v.entries, e.slot = slotOf d ∧ i < e.size.toNat / 512 ∧
    ∃ visited, Visits v.medium e.cluster visited ∧ visited[i]? = some x

theorem entry_unique {e e' : DriveEntry} (he : e ∈ v.entries) (he' : e' ∈ v.entries)
    (h : e.slot = e'.slot) : e = e' := by
  have : Std.Symm fun e e' : DriveEntry => e.slot ≠ e'.slot := ⟨fun _ _ h => h.symm⟩
  by_contra hne
  exact v.once.forall he he' hne h

theorem fileBlock_extent (h : initOn v.medium fuel .zero = some (0, t)) (hx : FileBlock v t d i x) :
    (extent t d)[i]? = some x := by
  obtain ⟨hid, hadv, e, he, hslot, hi, visited, hvisits, hget⟩ := hx
  obtain ⟨e', he', hslot', hgaps, -, hrecord⟩ := v.advertised_serves hid h hadv
  obtain rfl := entry_unique he he' (hslot.trans hslot'.symm)
  obtain rfl := hvisits.unique (visits_of_chain (v.files e he).raw)
  have hserved : served t d = e.toRecord (geometry v.medium) := by
    rw [served_of_id hid, hrecord]
  rw [extent_of_record he hserved hgaps (List.mem_of_getElem? hget), List.getElem?_take_of_lt hi]
  exact hget

variable {localAt : FarPtr}

/-- The requests over the link to a stick. -/
theorem leads_stick (hapart : Apart t) (xs : List Posted) (m : Machine) (b : Bufs) (w : Bench) :
    ∃ b', Leads hostAct (Device.act (stickDisk t))
      (.ret (serveOnDisk (stickDisk t) localAt xs m w).1,
        Device.idle b' (serveOnDisk (stickDisk t) localAt xs m w).2)
      (serve localAt xs m, Device.idle b w) :=
  leads_serve (stickArray t hapart).toBlindDisk localAt xs m b w

/-- After requests on a stick a block of a file holds what was stored there last. -/
theorem exchanges_file {s u : Machine × Bench} {hs : List Exchanged}
    (h : initOn v.medium fuel .zero = some (0, t)) (hapart : Apart t)
    (hrun : Exchanges (stickDisk t) localAt s hs u) (hfits : ∀ y ∈ hs, y.posted.Fits localAt)
    (hx : FileBlock v t d i x) : u.2.medium x = latest hs d i (s.2.medium x) := by
  have hget := fileBlock_extent h hx
  have hrun' : Exchanges (stickArray t hapart).toDisk localAt s hs u := hrun
  have hall : ((extent t d).map u.2.medium)[i]? =
      ((extent t d).map s.2.medium)[i]?.map (latest hs d i) := exchanges_latest hrun' hfits
  rw [List.getElem?_map, List.getElem?_map, hget] at hall
  exact Option.some.inj hall

/-- A request that read a block of a file has brought what was stored there last. -/
theorem exchanges_delivered {s u : Machine × Bench} {hs hs' : List Exchanged} {y : Exchanged}
    (h : initOn v.medium fuel .zero = some (0, t)) (hapart : Apart t)
    (hrun : Exchanges (stickDisk t) localAt s (hs ++ y :: hs') u)
    (hfits : ∀ z ∈ hs ++ y :: hs', z.posted.Fits localAt) (hx : FileBlock v t d i x)
    (hin : y.posted.request.command = INPUT)
    (hstatus : y.status ≠ DONE ||| ERROR ||| GENERAL_FAILURE) (hunit : y.posted.request.unit = d)
    (hle : y.posted.request.start.toNat ≤ i)
    (hlt : i < y.posted.request.start.toNat + y.posted.request.count.toNat) :
    y.after.sector (y.posted.buffer.add (512 * (i - y.posted.request.start.toNat))) =
      latest hs d i (s.2.medium x) := by
  have hrun' : Exchanges (stickArray t hapart).toDisk localAt s (hs ++ y :: hs') u := hrun
  obtain ⟨mid, hbefore, hafter⟩ := exchanges_append hrun'
  obtain ⟨hfitsBefore, hfitsAfter⟩ := List.forall_mem_append.mp hfits
  obtain ⟨w, heffect⟩ := exchanges_head hafter (List.forall_mem_cons.mp hfitsAfter).1
  apply heffect.delivered (List.forall_mem_cons.mp hfitsAfter).1 hin hstatus (by omega)
  rw [Nat.add_sub_cancel' hle, hunit]
  have hget : ((extent t d).map mid.2.medium)[i]? = some (mid.2.medium x) := by
    rw [List.getElem?_map, fileBlock_extent h hx]
    rfl
  rw [← exchanges_file h hapart hbefore hfitsBefore hx]
  exact hget

/-- Requests on a stick with the disk layer at hand: what they store in the files and bring of them. -/
theorem served_files {xs : List Posted} {m m' : Machine} {w w' : Bench} {replies : List Reply}
    (h : initOn v.medium fuel .zero = some (0, t)) (hapart : Apart t)
    (hfits : ∀ x ∈ xs, x.Fits localAt)
    (hserved : serveOnDisk (stickDisk t) localAt xs m w = ((replies, some m'), w')) :
    ∃ hs, Exchanges (stickDisk t) localAt (m, w) hs (m', w') ∧ hs.map Exchanged.posted = xs ∧
      hs.map Exchanged.status = replies.map Reply.status ∧
      ∀ d i x, FileBlock v t d i x → w'.medium x = latest hs d i (w.medium x) ∧
        ∀ hs₁ y hs₂, hs = hs₁ ++ y :: hs₂ → y.posted.request.command = INPUT →
          y.status ≠ DONE ||| ERROR ||| GENERAL_FAILURE → y.posted.request.unit = d →
          y.posted.request.start.toNat ≤ i →
          i < y.posted.request.start.toNat + y.posted.request.count.toNat →
          y.after.sector (y.posted.buffer.add (512 * (i - y.posted.request.start.toNat))) =
            latest hs₁ d i (w.medium x) := by
  have hserved' : serveOnDisk (stickArray t hapart).toDisk localAt xs m w =
    ((replies, some m'), w') := hserved
  obtain ⟨hs, hexch, hposted, hstatus⟩ := exchanges_serve hserved'
  have hfits' : ∀ y ∈ hs, y.posted.Fits localAt := by
    intro y hy
    apply hfits
    rw [← hposted]
    exact List.mem_map_of_mem hy
  refine ⟨hs, hexch, hposted, hstatus, ?_⟩
  intro d i x hx
  refine ⟨exchanges_file h hapart hexch hfits' hx, ?_⟩
  rintro hs₁ y hs₂ rfl hin hpassed hunit hle hlt
  exact exchanges_delivered h hapart hexch hfits' hx hin hpassed hunit hle hlt

/-- Requests of DOS over the wires, with every change of direction in time and none for the unit behind
the last, to a stick with a well-formed volume, clusters numbered within the FAT and a configuration file
without gaps, mounted from zeroed tables: where all have been answered, a block of the file of an
advertised drive holds what a request stored there last, each request that read it had brought what was
stored there last before, and core 1 gets back to its polls alone with the stick as it then is, which may
be mounted again. -/
theorem files_over_wires (v : Volume) {stack : Stack} {l : List Touch} {log : List Touch} {b : Bufs}
    {xs : List Posted} {m m' : Machine} {replies : List Reply}
    {s u : Pins (HostProg (List Reply × Option Machine)) (Device Bench)} (hfat : v.InFat)
    (hconfig : ConfigWhole v) (hcache : stack.Coherent v.medium)
    (hmount : Reads v.medium (initDisk fuel stack .zero) (0, t) l)
    (hsuits : ∀ x ∈ xs, Posted.Suits localAt x)
    (hrest : AtRest (serve localAt xs m) (Device.idle b ⟨v.medium, log⟩) s)
    (hrun : PinRun hostAct (Device.act (stickDisk t)) InTime s u)
    (hret : u.host = .idle (.ret (replies, some m'))) :
    ∃ hs w, Exchanges (stickDisk t) localAt (m, ⟨v.medium, log⟩) hs (m', w) ∧
      hs.map Exchanged.posted = xs ∧ hs.map Exchanged.status = replies.map Reply.status ∧
      (∀ d i x, FileBlock v t d i x → w.medium x = latest hs d i (v.medium x) ∧
        ∀ hs₁ y hs₂, hs = hs₁ ++ y :: hs₂ → y.posted.request.command = INPUT →
          y.status ≠ DONE ||| ERROR ||| GENERAL_FAILURE → y.posted.request.unit = d →
          y.posted.request.start.toNat ≤ i →
          i < y.posted.request.start.toNat + y.posted.request.count.toNat →
          y.after.sector (y.posted.buffer.add (512 * (i - y.posted.request.start.toNat))) =
            latest hs₁ d i (v.medium x)) ∧
      ∃ u' b', PinRun hostAct (Device.act (stickDisk t)) (fun mover _ => mover = .device) u u' ∧
        u'.dev = .idle (Device.idle b' w) ∧ Remountable v t w.medium := by
  have hon := initOn_of_reads hcache hmount
  have hapart := apart_mounted hon hconfig
  obtain ⟨b', hleads⟩ := leads_stick hapart xs m b ⟨v.medium, log⟩
  obtain ⟨-, -, hend⟩ := inTime_finishes (quiet_rest _ _ _ _) hleads hrest hrun
  obtain ⟨hres, u', halone, -, hdev, -, -⟩ := hend _ hret rfl
  have hserved : serveOnDisk (stickDisk t) localAt xs m ⟨v.medium, log⟩ =
      ((replies, some m'), (serveOnDisk (stickDisk t) localAt xs m ⟨v.medium, log⟩).2) :=
    Prod.ext (Prog.ret.inj hres).symm rfl
  obtain ⟨hs, hexch, hposted, hstatus, hfiles⟩ :=
    served_files hon hapart (fun x hx => (hsuits x hx).toFits) hserved
  refine ⟨hs, _, hexch, hposted, hstatus, hfiles, u', b', halone, hdev, ?_⟩
  have hstart : (pico s).dev.All fun d => ∀ x, (∀ disk, x ∉ extent t disk) →
      d.world.medium x = v.medium x := by
    unfold pico
    rw [hrest.dev]
    exact fun _ _ => rfl
  have hkept := freeRun_keeps (fun d hd => act_keepsWorld (keeps_outside v.medium) hd)
    ((freeRun_of_pinRun hrun).trans (freeRun_of_pinRun halone)) hstart
  unfold pico at hkept
  rw [hdev] at hkept
  exact remountable_of_outside hon hconfig hfat hkept

end Files

section Stored

/-- The PC is about to write the one block of drive A and to read it. -/
def storedStart : Pins (HostProg (List Reply × Option Machine)) (Device Bench) :=
  ⟨.idle (serve ⟨0, 0⟩ storedPosts mountedMachine),
    .idle (Device.idle ⟨.zero, .zero⟩ ⟨stickVolume.medium, []⟩),
    ⟨0, false, false, false, false, false⟩, ⟨[], []⟩, ⟨[], []⟩⟩

theorem stored_fileBlock : FileBlock stickVolume stickTables 0 0 4 := by
  have hentries : stickVolume.entries = [⟨.disk 0, 3, 512⟩] := stick_directory
  have he : (⟨.disk 0, 3, 512⟩ : DriveEntry) ∈ stickVolume.entries := by
    rw [hentries]
    exact List.mem_singleton_self _
  refine ⟨.inl (by decide), by decide +kernel, _, he, rfl, by decide, _,
    visits_of_chain (stickVolume.files _ he).raw, ?_⟩
  decide +kernel

/-- Both are answered. -/
theorem stored_served : ∃ m w, serveOnDisk (stickDisk stickTables) ⟨0, 0⟩ storedPosts mountedMachine
    ⟨stickVolume.medium, []⟩ = (([⟨DONE, .none⟩, ⟨DONE, .none⟩], some m), w) := by
  have hreturns : (serveOnDisk (stickDisk stickTables) ⟨0, 0⟩ storedPosts mountedMachine
      ⟨stickVolume.medium, []⟩).1.1 = [⟨DONE, .none⟩, ⟨DONE, .none⟩] ∧
      (serveOnDisk (stickDisk stickTables) ⟨0, 0⟩ storedPosts mountedMachine
        ⟨stickVolume.medium, []⟩).1.2.isSome = true := by
    decide +kernel
  obtain ⟨hreplies, hsome⟩ := hreturns
  obtain ⟨m, hm⟩ := Option.isSome_iff_exists.mp hsome
  have hresult : (serveOnDisk (stickDisk stickTables) ⟨0, 0⟩ storedPosts mountedMachine
      ⟨stickVolume.medium, []⟩).1 = ([⟨DONE, .none⟩, ⟨DONE, .none⟩], some m) :=
    Prod.ext hreplies hm
  exact ⟨m, _, by rw [← hresult, Prod.mk.eta]⟩

theorem storedPosts_suit : ∀ x ∈ storedPosts, Posted.Suits ⟨0, 0⟩ x := by decide

/-- The two requests over the wires: the block is stored in the file of drive A. -/
theorem files_over_wires_stored : ∃ u m' hs, ∃ w : Bench,
    PinRun hostAct (Device.act (stickDisk stickTables)) InTime storedStart u ∧
      u.host = .idle (.ret ([⟨DONE, .none⟩, ⟨DONE, .none⟩], some m')) ∧
      hs.map Exchanged.posted = storedPosts ∧
      w.medium 4 = latest hs 0 0 (stickVolume.medium 4) ∧ Remountable stickVolume stickTables w.medium := by
  obtain ⟨l, hl⟩ := stickTables_mounted
  have hrest : AtRest (serve ⟨0, 0⟩ storedPosts mountedMachine)
      (Device.idle ⟨.zero, .zero⟩ ⟨stickVolume.medium, []⟩) storedStart :=
    ⟨rfl, rfl, rfl, rfl, rfl, rfl⟩
  have hon := initOn_of_reads (invalidStack_coherent _) hl
  have hapart := apart_mounted hon stickVolume_configWhole
  obtain ⟨b', hleads⟩ := @leads_stick _ ⟨0, 0⟩ hapart storedPosts mountedMachine
    ⟨.zero, .zero⟩ ⟨stickVolume.medium, []⟩
  obtain ⟨-, ⟨u, hrun, hu⟩, -⟩ := inTime_finishes (quiet_rest _ _ _ _) hleads hrest (.refl _)
  obtain ⟨m', w', hserved⟩ := stored_served
  rw [hserved] at hu
  obtain ⟨hs, w, -, hposted, -, hfile, -, -, -, -, hmount⟩ := files_over_wires stickVolume
    stickVolume_inFat stickVolume_configWhole (invalidStack_coherent _) hl storedPosts_suit hrest hrun hu
  exact ⟨u, m', hs, w, hrun, hu, hposted, (hfile 0 0 4 stored_fileBlock).1, hmount⟩

end Stored

end LptStore.Firmware
