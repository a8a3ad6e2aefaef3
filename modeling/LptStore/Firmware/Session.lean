import LptStore.Firmware.Files
import LptStore.Firmware.Readahead

/-!
# Requests of DOS over the prefetching layer

What the requests of DOS come to on the firmware's side of the link is one program over the sector
layer. On a stick that is in, the prefetching layer answers it as the medium alone would exactly if no
block is read that was changed after it had been read ahead.
-/

namespace LptStore.Firmware

open LptStore.Lib LptStore.Protocol LptStore.Handshake LptStore.Fs LptStore.Msc LptStore.Dos Function

section Programs

variable {α σ : Type} (t : DriveTables)

/-- The loop of `LPTRead` in terms of the sector layer. -/
def readSectors (unit : UInt16) : Nat → UInt16 → FarPtr → Mem → SectorProg (DResult × Mem)
  | 0, _, _, mem => return (.RES_OK, mem)
  | n + 1, lbn, buffer, mem => do
      let (r, data) ← readDiskSector t unit.toUInt8 lbn.toUInt32 .zero
      match blockRead r data with
      | some bytes => readSectors unit n (lbn + 1) (buffer.add 512) (mem.write buffer bytes)
      | none => return (.RES_ERROR, mem)

/-- The loop of `LPTWrite` in terms of the sector layer. -/
def writeSectors (unit : UInt16) : Nat → UInt16 → FarPtr → Mem → SectorProg DResult
  | 0, _, _, _ => return .RES_OK
  | n + 1, lbn, buffer, mem => do
      let r ← writeDiskSector t unit.toUInt8 lbn.toUInt32 (mem.sector buffer)
      if UInt8.ofInt r = 0 then writeSectors unit n (lbn + 1) (buffer.add 512) mem
      else return .RES_ERROR

/-- The driver in terms of the sector layer. -/
def driverSectors (localAt : FarPtr) (x : Posted) : DosProg α → Mem → SectorProg (Option α × Mem)
  | .ret a, mem => return (some a, mem)
  | .op .parseOptions k, mem => driverSectors localAt x (k x.options) mem
  | .op .lptInit k, mem => driverSectors localAt x (k ()) mem
  | .op (.readLocal unit lbn _) k, mem => do
      let (r, mem) ← readSectors t unit 1 lbn localAt mem
      driverSectors localAt x (k (r, mem.sector localAt)) mem
  | .op (.lptRead unit lbn count) k, mem => do
      let (r, mem) ← readSectors t unit count.toNat lbn x.buffer mem
      driverSectors localAt x (k r) mem
  | .op (.lptWrite unit lbn count) k, mem => do
      let r ← writeSectors t unit count.toNat lbn x.buffer mem
      driverSectors localAt x (k r) mem
  | .op .divideError _, mem => return (none, mem)

/-- The requests of DOS in terms of the sector layer. -/
def session (localAt : FarPtr) : List Posted → Machine → SectorProg (List Reply × Option Machine)
  | [], m => return ([], some m)
  | x :: xs, m => do
      match ← driverSectors t localAt x (lptDriver x.request m.driver) (x.setup m.mem) with
      | (none, _) => return ([], none)
      | (some (reply, driver), mem) => do
          let (replies, m) ← session localAt xs ⟨driver, mem⟩
          return (reply :: replies, m)

/-- The disk layer of `msc_app.c:94-110` with the calls of the sector layer answered from a state. -/
def sectorDisk (answer : ∀ o, σ → Option (SectorResp o × σ)) : Disk σ where
  getDrives _ := getDisks t
  getBlocks _ d := getDiskBlocks t d
  readSector w d l buff := ((readDiskSector t d l buff).exec answer w).getD ((-1, buff), w)
  writeSector w d l data := ((writeDiskSector t d l data).exec answer w).getD (-1, w)

/-- Every read and write is answered. -/
def Answers (answer : ∀ o, σ → Option (SectorResp o × σ)) : Prop :=
  ∀ o w, o ≠ .outOfFuel → ∃ x, answer o w = some x

variable {t} {answer : ∀ o, σ → Option (SectorResp o × σ)}

theorem readDiskSector_answered (h : Answers answer) (d : UInt8) (l : UInt32) (buff : Sector) (w : σ) :
    (readDiskSector t d l buff).exec answer w = some ((sectorDisk t answer).readSector w d l buff) := by
  have hsome : ∃ x, (readDiskSector t d l buff).exec answer w = some x := by
    rw [readDiskSector_served]
    unfold SlotRecord.read
    split_ifs
    · obtain ⟨x, hx⟩ := h (.read .buff ((served t d).lba + l) buff) w nofun
      exact ⟨x, by simp only [Fs.readSector, Prog.exec, hx]⟩
    · exact ⟨_, rfl⟩
  obtain ⟨x, hx⟩ := hsome
  simp only [sectorDisk, hx, Option.getD_some]

theorem writeDiskSector_answered (h : Answers answer) (d : UInt8) (l : UInt32) (data : Sector) (w : σ) :
    (writeDiskSector t d l data).exec answer w =
      some ((sectorDisk t answer).writeSector w d l data) := by
  have hsome : ∃ x, (writeDiskSector t d l data).exec answer w = some x := by
    rw [writeDiskSector_served]
    unfold SlotRecord.write
    split_ifs
    · obtain ⟨x, hx⟩ := h (.write ((served t d).lba + l) data) w nofun
      exact ⟨x, by simp only [Fs.writeSector, Prog.exec, hx]⟩
    · exact ⟨_, rfl⟩
  obtain ⟨x, hx⟩ := hsome
  simp only [sectorDisk, hx, Option.getD_some]

theorem readSectors_exec (h : Answers answer) (unit : UInt16) (n : Nat) (lbn : UInt16) (buffer : FarPtr)
    (mem : Mem) (w : σ) :
    (readSectors t unit n lbn buffer mem).exec answer w =
      some ((sectorDisk t answer).readLoop unit n lbn buffer mem w) := by
  induction n generalizing lbn buffer mem w with
  | zero => rfl
  | succ n ih =>
    unfold readSectors Disk.readLoop Disk.fetch
    rw [Prog.bind_eq, Prog.exec_bind, readDiskSector_answered h, Option.bind_some]
    cases hblock : blockRead ((sectorDisk t answer).readSector w unit.toUInt8 lbn.toUInt32 .zero).1.1
      ((sectorDisk t answer).readSector w unit.toUInt8 lbn.toUInt32 .zero).1.2 with
    | some bytes =>
      simp only [hblock]
      exact ih _ _ _ _
    | none =>
      simp only [hblock]
      rfl

theorem writeSectors_exec (h : Answers answer) (unit : UInt16) (n : Nat) (lbn : UInt16) (buffer : FarPtr)
    (mem : Mem) (w : σ) :
    (writeSectors t unit n lbn buffer mem).exec answer w =
      some ((sectorDisk t answer).writeLoop unit n lbn buffer mem w) := by
  induction n generalizing lbn buffer w with
  | zero => rfl
  | succ n ih =>
    unfold writeSectors Disk.writeLoop
    rw [Prog.bind_eq, Prog.exec_bind, writeDiskSector_answered h, Option.bind_some]
    by_cases hr : UInt8.ofInt ((sectorDisk t answer).writeSector w unit.toUInt8 lbn.toUInt32
        (mem.sector buffer)).1 = 0
    · simp only [hr, if_true]
      exact ih _ _ _
    · simp only [hr, if_false]
      rfl

theorem driverSectors_exec (h : Answers answer) (localAt : FarPtr) (x : Posted) (p : DosProg α) (mem : Mem)
    (w : σ) : (driverSectors t localAt x p mem).exec answer w =
      some (direct (sectorDisk t answer).call localAt x p mem w) := by
  induction p generalizing mem w with
  | ret a => rfl
  | op o k ih =>
    cases o with
    | parseOptions => exact ih _ _ _
    | lptInit => exact ih _ _ _
    | readLocal unit lbn old =>
      unfold driverSectors
      rw [Prog.bind_eq, Prog.exec_bind, readSectors_exec h, Option.bind_some]
      exact ih _ _ _
    | lptRead unit lbn count =>
      unfold driverSectors
      rw [Prog.bind_eq, Prog.exec_bind, readSectors_exec h, Option.bind_some]
      exact ih _ _ _
    | lptWrite unit lbn count =>
      unfold driverSectors
      rw [Prog.bind_eq, Prog.exec_bind, writeSectors_exec h, Option.bind_some]
      exact ih _ _ _
    | divideError => rfl

/-- The requests of DOS as a program over the sector layer. -/
theorem session_exec (h : Answers answer) (localAt : FarPtr) (xs : List Posted) (m : Machine) (w : σ) :
    (session t localAt xs m).exec answer w =
      some (serveOnDisk (sectorDisk t answer) localAt xs m w) := by
  induction xs generalizing m w with
  | nil => rfl
  | cons x xs ih =>
    unfold session serveOnDisk serveBy Posted.servedBy
    rw [Prog.bind_eq, Prog.exec_bind, driverSectors_exec h, Option.bind_some]
    cases hserved : direct (sectorDisk t answer).call localAt x (lptDriver x.request m.driver)
        (x.setup m.mem) w with
    | mk result w₁ =>
      obtain ⟨result, mem⟩ := result
      cases result with
      | none => rfl
      | some result =>
        simp only [Prog.bind_eq, Prog.exec_bind, ih, Option.bind_some]
        rfl

end Programs

section Disks

variable {t : DriveTables} (sched : Nat → Bool) {w : Inserted} {d : UInt8} {l : UInt32}

/-- `read_sector` looks at nothing that is in the buffer it fills. -/
theorem readSector_blind (sector : UInt32) (buff buff' : Sector) {w : Usb}
    (h : w.Ready) :
    (Msc.readSector sector).exec (Usb.answer sched) { w with buff := buff } =
      (Msc.readSector sector).exec (Usb.answer sched) { w with buff := buff' } := by
  obtain ⟨flags, lba, copy, old, medium, pending, clock⟩ := w
  obtain ⟨hp, hi, hr, hc⟩ := h
  dsimp only at hp hi hr hc
  subst hp
  by_cases hlba : lba = sector
  · simp [Msc.readSector, spin, load, loadLba, copyPrefetch, Prog.exec, Usb.answer, Usb.perform,
      Usb.tick_of_nil, hi, hr, hc, hlba]
  · by_cases h1 : sched (clock + 4) <;>
      simp [Msc.readSector, readDirect, spin, load, loadLba, store, tuhMscRead10, Prog.exec,
        Usb.answer, Usb.perform, Usb.tick, Usb.settle, Usb.deliver, hi, hc, hlba, mscFatCompleteCb, h1]

theorem inserted_read (into : Into) (sector : UInt32) (old : Sector) (w : Inserted) :
    ∃ w', w.answer sched (.read into sector old) =
      some ((0, if w.usb.prefetchingLba = sector then w.usb.prefetchingBuff else w.medium sector), w') ∧
      w'.medium = w.medium := by
  obtain ⟨w', hcall, -, hmedium, -⟩ := usbAnswer_read sched into sector old w.ready
  exact ⟨_, inserted_some sched hcall, hmedium⟩

theorem inserted_write (sector : UInt32) (data : Sector) (w : Inserted) :
    ∃ w', w.answer sched (.write sector data) = some (0, w') ∧
      w'.medium = update w.medium sector data := by
  obtain ⟨w', hcall, -, hmedium, -⟩ := usbAnswer_write sched sector data w.ready
  exact ⟨_, inserted_some sched hcall, hmedium⟩

theorem inserted_answers : Answers (Inserted.answer sched) := by
  intro o w ho
  cases o with
  | read into sector old =>
    obtain ⟨w', hcall, -⟩ := inserted_read sched into sector old w
    exact ⟨_, hcall⟩
  | write sector data =>
    obtain ⟨w', hcall, -⟩ := inserted_write sched sector data w
    exact ⟨_, hcall⟩
  | outOfFuel => exact absurd rfl ho

theorem bench_answers : Answers Bench.answer := by
  intro o w ho
  cases o with
  | read into sector old => exact ⟨_, rfl⟩
  | write sector data => exact ⟨_, rfl⟩
  | outOfFuel => exact absurd rfl ho

theorem sectorDisk_bench : sectorDisk t Bench.answer = stickDisk t := rfl

theorem inserted_blind (into : Into) (sector : UInt32) (old old' : Sector) (w : Inserted) :
    w.answer sched (.read into sector old) = w.answer sched (.read into sector old') := by
  have hsame : usbAnswer sched (.read into sector old) w.usb =
      usbAnswer sched (.read into sector old') w.usb := by
    unfold usbAnswer
    simp only [readSector_blind sched sector old old' w.ready]
  obtain ⟨w', hcall, -⟩ := usbAnswer_read sched into sector old w.ready
  rw [inserted_some sched hcall, inserted_some sched (hsame.symm.trans hcall)]

/-- The disk layer with a stick in. -/
def usbDisk (sched : Nat → Bool) (t : DriveTables) : BlindDisk Inserted where
  toDisk := sectorDisk t (Inserted.answer sched)
  blind w d l buff buff' := by
    unfold Disk.fetch
    simp only [sectorDisk, readDiskSector_served]
    unfold SlotRecord.read
    split_ifs
    · simp only [Fs.readSector, Prog.exec]
      rw [inserted_blind sched .buff ((served t d).lba + l) buff buff' w]
      obtain ⟨w', hcall, -⟩ := inserted_read sched .buff ((served t d).lba + l) buff' w
      simp only [hcall, Option.getD_some]
    · rfl

/-- Outside the extents of the drives the medium stays as it was, however stale the copy. -/
theorem usb_keeps_outside (t : DriveTables) (m : Medium) :
    (usbDisk sched t).Keeps fun w => ∀ x, (∀ d, x ∉ extent t d) → w.medium x = m x := by
  refine ⟨?_, ?_⟩
  · intro w d l buff hw
    have hmedium : ((sectorDisk t (Inserted.answer sched)).readSector w d l buff).2.medium =
        w.medium := by
      simp only [sectorDisk, readDiskSector_served]
      unfold SlotRecord.read
      split_ifs
      · obtain ⟨w', hcall, hmedium⟩ :=
          inserted_read sched .buff ((served t d).lba + l) buff w
        simp only [Fs.readSector, Prog.exec, hcall, Option.getD_some]
        exact hmedium
      · rfl
    intro x hx
    exact (congrFun hmedium x).trans (hw x hx)
  · intro w d l data hw x hx
    show ((sectorDisk t (Inserted.answer sched)).writeSector w d l data).2.medium x = m x
    simp only [sectorDisk, writeDiskSector_served]
    unfold SlotRecord.write
    split_ifs with hin
    · obtain ⟨w', hcall, hmedium⟩ := inserted_write sched ((served t d).lba + l) data w
      simp only [Fs.writeSector, Prog.exec, hcall, Option.getD_some]
      rw [hmedium]
      have hmem := List.mem_of_getElem? (extent_get_of_lt (UInt32.pos_iff_ne_zero.mp hin.1) hin.2)
      have hne : x ≠ (served t d).lba + l := fun heq => hx d (heq ▸ hmem)
      exact (update_of_ne hne _ _).trans (hw x hx)
    · exact hw x hx

end Disks

section Files

variable {v : Volume} {t : DriveTables} {fuel : Nat} {localAt : FarPtr} (sched : Nat → Bool)

/-- No request reads a block that was changed after it had been read ahead. -/
def Steady (t : DriveTables) (localAt : FarPtr) (xs : List Posted) (m : Machine) (w : Inserted) : Prop :=
  KeepsFirst w.medium w.usb.prefetchingLba w.usb.prefetchingBuff
      (plainCalls (session t localAt xs m) w.medium) ∧
    KeepsNext w.medium (plainCalls (session t localAt xs m) w.medium)

/-- Requests that never meet an outdated copy are served as on the medium alone. -/
theorem serve_steady {xs : List Posted} {m : Machine} {w : Inserted} (h : Steady t localAt xs m w) :
    (serveOnDisk (usbDisk sched t).toDisk localAt xs m w).1 =
        (serveOnDisk (stickDisk t) localAt xs m ⟨w.medium, []⟩).1 ∧
      (serveOnDisk (usbDisk sched t).toDisk localAt xs m w).2.medium =
        (serveOnDisk (stickDisk t) localAt xs m ⟨w.medium, []⟩).2.medium := by
  have hplain := inserted_alike sched (session t localAt xs m)
    ((alike_iff (session t localAt xs m)).mpr h)
  rw [session_exec (inserted_answers sched), session_exec bench_answers, sectorDisk_bench] at hplain
  exact Prod.mk.inj (Option.some.inj hplain)

/-- Requests of DOS over the wires, with every change of direction in time and none for the unit behind
the last, to the firmware with a stick in whose transfers complete under any schedule: a well-formed
volume, clusters numbered within the FAT and a configuration file without gaps, mounted over the
prefetching layer from zeroed tables. Where all have been answered and no block was read that had been
changed after it was read ahead, a block of the file of an advertised drive holds what a request stored
there last, and each request that read it had brought what was stored there last before. Core 1 gets back
to its polls alone, with the stick as it then is; whatever was read ahead, that may be mounted again. -/
theorem files_over_usb (v : Volume) {stack : Stack} {b : Bufs} {xs : List Posted} {m m' : Machine}
    {replies : List Reply} {w₀ w : Inserted}
    {s u : Pins (HostProg (List Reply × Option Machine)) (Device Inserted)} (hmedium : w₀.medium = v.medium)
    (hfat : v.InFat) (hconfig : ConfigWhole v) (hcache : stack.Coherent v.medium)
    (htag : w₀.usb.prefetchingLba ≠ 0)
    (hmount : (initDisk fuel stack .zero).exec (Inserted.answer sched) w₀ = some ((0, t), w))
    (hsuits : ∀ x ∈ xs, Posted.Suits localAt x)
    (hrest : AtRest (serve localAt xs m) (Device.idle b w) s)
    (hrun : PinRun hostAct (Device.act (usbDisk sched t).toDisk) InTime s u)
    (hret : u.host = .idle (.ret (replies, some m'))) :
    ∃ u' b' w', PinRun hostAct (Device.act (usbDisk sched t).toDisk) (fun mover _ => mover = .device) u u' ∧
      u'.dev = .idle (Device.idle b' w') ∧ Remountable v t w'.medium ∧
      (Steady t localAt xs m w →
        ∃ hs w₁, Exchanges (stickDisk t) localAt (m, ⟨v.medium, []⟩) hs (m', w₁) ∧
          hs.map Exchanged.posted = xs ∧ hs.map Exchanged.status = replies.map Reply.status ∧
          w'.medium = w₁.medium ∧
          ∀ d i x, FileBlock v t d i x → w'.medium x = latest hs d i (v.medium x) ∧
            ∀ hs₁ y hs₂, hs = hs₁ ++ y :: hs₂ → y.posted.request.command = INPUT →
              y.status ≠ DONE ||| ERROR ||| GENERAL_FAILURE → y.posted.request.unit = d →
              y.posted.request.start.toNat ≤ i →
              i < y.posted.request.start.toNat + y.posted.request.count.toNat →
              y.after.sector (y.posted.buffer.add (512 * (i - y.posted.request.start.toNat))) =
                latest hs₁ d i (v.medium x)) := by
  rw [← hmedium] at hcache
  have hon : initOn v.medium fuel .zero = some (0, t) ∧ w.medium = v.medium := by
    rcases inserted_initDisk sched fuel .zero htag hcache with
      ⟨hnone, -⟩ | ⟨r, w', hrun, hsame, -, hinit⟩
    · exact absurd (hnone.symm.trans hmount) nofun
    · obtain ⟨rfl, rfl⟩ := Prod.mk.inj (Option.some.inj (hrun.symm.trans hmount))
      rw [hmedium] at hinit hsame
      exact ⟨hinit, hsame⟩
  obtain ⟨hon, hsame⟩ := hon
  have hapart := apart_mounted hon hconfig
  obtain ⟨b', hleads⟩ := leads_serve (usbDisk sched t) localAt xs m b w
  obtain ⟨-, -, hend⟩ := inTime_finishes (quiet_rest _ _ _ _) hleads hrest hrun
  obtain ⟨hres, u', halone, -, hdev, -, -⟩ := hend _ hret rfl
  refine ⟨u', b', _, halone, hdev, ?_, ?_⟩
  · have hstart : (pico s).dev.All fun d => ∀ x, (∀ disk, x ∉ extent t disk) →
        d.world.medium x = v.medium x := by
      unfold pico
      rw [hrest.dev]
      exact fun x _ => congrFun hsame x
    have hkept := freeRun_keeps (fun d hd => act_keepsWorld (usb_keeps_outside sched t v.medium) hd)
      ((freeRun_of_pinRun hrun).trans (freeRun_of_pinRun halone)) hstart
    unfold pico at hkept
    rw [hdev] at hkept
    exact remountable_of_outside hon hconfig hfat hkept
  · intro hsteady
    obtain ⟨hreplies, hfinal⟩ := serve_steady sched hsteady
    rw [hsame] at hreplies hfinal
    have hserved : serveOnDisk (stickDisk t) localAt xs m ⟨v.medium, []⟩ =
        ((replies, some m'), (serveOnDisk (stickDisk t) localAt xs m ⟨v.medium, []⟩).2) :=
      Prod.ext (hreplies.symm.trans (Prog.ret.inj hres).symm) rfl
    obtain ⟨hs, hexch, hposted, hstatus, hfiles⟩ :=
      served_files hon hapart (fun x hx => (hsuits x hx).toFits) hserved
    refine ⟨hs, _, hexch, hposted, hstatus, hfinal, ?_⟩
    intro d i x hx
    rw [hfinal]
    exact hfiles d i x hx

end Files

section Stored

/-- The sector of a call, and whether it is written. -/
def callSector : Msc.Call → Bool × UInt32
  | .read sector _ => (false, sector)
  | .write sector _ => (true, sector)

theorem stored_calls : ∃ data old, plainCalls (session stickTables ⟨0, 0⟩ storedPosts mountedMachine)
    (stick stickDir) = [.write 4 data, .read 4 old] := by
  have hsectors : (plainCalls (session stickTables ⟨0, 0⟩ storedPosts mountedMachine)
      (stick stickDir)).map callSector = [(true, 4), (false, 4)] := by
    decide +kernel
  match hcalls : plainCalls (session stickTables ⟨0, 0⟩ storedPosts mountedMachine) (stick stickDir) with
  | [.write x data, .read y old] =>
    rw [hcalls] at hsectors
    simp only [List.map_cons, List.map_nil, callSector, List.cons.injEq, Prod.mk.injEq, true_and,
      and_true] at hsectors
    obtain ⟨rfl, rfl⟩ := hsectors
    exact ⟨data, old, rfl⟩
  | [] | [_] | .read _ _ :: _ :: _ | .write _ _ :: .write _ _ :: _ | _ :: _ :: _ :: _ =>
    rw [hcalls] at hsectors
    simp [callSector] at hsectors

/-- The stick with drive A, mounted over the prefetching layer. -/
theorem stored_mounted : ∃ w : Inserted,
    (initDisk 2 invalidStack .zero).exec (Inserted.answer fun _ => true) (.mounted (stick stickDir)) =
      some ((0, stickTables), w) ∧ w.medium = stick stickDir ∧ w.usb.prefetchingLba = 2 := by
  obtain ⟨l, hl⟩ := stickTables_mounted
  have hon : initOn (stick stickDir) 2 .zero = some (0, stickTables) :=
    initOn_of_reads (invalidStack_coherent _) hl
  have htag : (Inserted.mounted (stick stickDir)).usb.prefetchingLba ≠ 0 := by
    show (0xffffffff : UInt32) ≠ 0
    decide
  have hlast : ((initDisk 2 invalidStack .zero).exec Prefetcher.answer
      (prefetcher (.mounted (stick stickDir)))).map (fun x => x.2.tag) = some 2 := by
    decide +kernel
  rcases inserted_initDisk (w := .mounted (stick stickDir)) (fun _ => true) 2 .zero htag
    (invalidStack_coherent _) with ⟨-, hnone⟩ | ⟨r, w, hrun, hmedium, -, hinit⟩
  · exact absurd (hnone.symm.trans hon) nofun
  · obtain rfl := Option.some.inj (hinit.symm.trans hon)
    refine ⟨w, hrun, hmedium, ?_⟩
    obtain ⟨-, hend⟩ := inserted_transcript (fun _ => true) (initDisk 2 invalidStack .zero)
      (.mounted (stick stickDir))
    rw [← hend, hrun] at hlast
    exact Option.some.inj hlast

theorem stored_steady {w : Inserted} (hmedium : w.medium = stick stickDir)
    (htag : w.usb.prefetchingLba = 2) : Steady stickTables ⟨0, 0⟩ storedPosts mountedMachine w := by
  obtain ⟨data, old, hcalls⟩ := stored_calls
  unfold Steady
  rw [hmedium, htag, hcalls, keepsFirst_write, keepsFirst_read, keepsNext_write, keepsNext_read]
  refine ⟨fun heq => absurd heq (by decide), ?_, ?_⟩
  · intro j buff _ hj
    simp at hj
  · intro i j sector buff buff' _ hi _
    simp at hi

/-- The PC is about to post a write of the one block of drive A and a read of it. -/
def usbStart (w : Inserted) : Pins (HostProg (List Reply × Option Machine)) (Device Inserted) :=
  ⟨.idle (serve ⟨0, 0⟩ storedPosts mountedMachine), .idle (Device.idle ⟨.zero, .zero⟩ w),
    ⟨0, false, false, false, false, false⟩, ⟨[], []⟩, ⟨[], []⟩⟩

/-- The block is stored in the file of drive A. -/
theorem files_over_usb_stored : ∃ w u m' w', PinRun hostAct
    (Device.act (usbDisk (fun _ => true) stickTables).toDisk) InTime (usbStart w) u ∧
      u.host = .idle (.ret ([⟨DONE, .none⟩, ⟨DONE, .none⟩], some m')) ∧
      Remountable stickVolume stickTables (Inserted.medium w') ∧
      ∃ hs : List Exchanged, hs.map Exchanged.posted = storedPosts ∧
        w'.medium 4 = latest hs 0 0 (stickVolume.medium 4) := by
  obtain ⟨w, hmount, hmedium, htag⟩ := stored_mounted
  have hsteady := stored_steady hmedium htag
  have hstrobe : Lines.strobe ⟨0, false, false, false, false, false⟩ = false := by decide
  have hrest : AtRest (serve ⟨0, 0⟩ storedPosts mountedMachine) (Device.idle ⟨.zero, .zero⟩ w) (usbStart w) :=
    ⟨rfl, rfl, hstrobe, rfl, rfl, rfl⟩
  obtain ⟨b', hleads⟩ := leads_serve (usbDisk (fun _ => true) stickTables) ⟨0, 0⟩ storedPosts
    mountedMachine ⟨.zero, .zero⟩ w
  obtain ⟨-, ⟨u, hrun, hu⟩, -⟩ := inTime_finishes (quiet_rest _ _ _ _) hleads hrest (.refl _)
  have hserved : (serveOnDisk (stickDisk stickTables) ⟨0, 0⟩ storedPosts mountedMachine
      ⟨stick stickDir, []⟩).1.1 = [⟨DONE, .none⟩, ⟨DONE, .none⟩] ∧
      (serveOnDisk (stickDisk stickTables) ⟨0, 0⟩ storedPosts mountedMachine
        ⟨stick stickDir, []⟩).1.2.isSome = true := by
    decide +kernel
  obtain ⟨hreplies, hsome⟩ := hserved
  obtain ⟨m', hm'⟩ := Option.isSome_iff_exists.mp hsome
  obtain ⟨hresult, -⟩ := serve_steady (fun _ => true) hsteady
  rw [hmedium] at hresult
  rw [hresult, show (serveOnDisk (stickDisk stickTables) ⟨0, 0⟩ storedPosts mountedMachine
    ⟨stick stickDir, []⟩).1 = ([⟨DONE, .none⟩, ⟨DONE, .none⟩], some m') from
      Prod.ext hreplies hm'] at hu
  have hfirst : (Inserted.mounted (stick stickDir)).usb.prefetchingLba ≠ 0 := by
    show (0xffffffff : UInt32) ≠ 0
    decide
  have hin : (Inserted.mounted (stick stickDir)).medium = stickVolume.medium := rfl
  obtain ⟨-, -, w', -, -, hremount, hfiles⟩ := files_over_usb (fun _ => true) stickVolume hin
    stickVolume_inFat stickVolume_configWhole (invalidStack_coherent _) hfirst hmount
    storedPosts_suit hrest hrun hu
  obtain ⟨hs, -, -, hposted, -, -, hblocks⟩ := hfiles hsteady
  exact ⟨w, u, m', w', hrun, hu, hremount, hs, hposted, (hblocks 0 0 4 stored_fileBlock).1⟩

end Stored

end LptStore.Firmware
