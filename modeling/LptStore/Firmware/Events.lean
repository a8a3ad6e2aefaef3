import LptStore.Fs.Forget
import LptStore.Msc.Coherence

/-!
# The two cores of the firmware around a stick

Core 1 takes drive requests and runs `msc_task` in turn (`lptstore.c:84-85`); both reach the stick
through `read_sector` and `write_sector` only. Core 0 runs the callbacks of TinyUSB: a stick is
mounted, its inquiry completes, it is unmounted. The callbacks fall between any two calls of core 1 to
the sector layer, so a scan can see two sticks and a request can look a drive up before a swap and
reach the stick after it. The transfers of a call are accepted, pass and complete before the next,
but for a prefetch that is under way when the stick is pulled: it is lost.

Beside the variables of the program the state keeps the history that hot swapping is judged by: which
insertion it is, what the stick inserted has held since, which insertion a slot's record was computed
in, and what was served.
-/

namespace LptStore.Firmware

open LptStore.Lib LptStore.Fs LptStore.Msc

/-- A drive request that arrives through `lptprotocol_task`. -/
inductive Request where
  | read (disk : UInt8) (lbn : UInt32) (buff : Sector)
  | write (disk : UInt8) (lbn : UInt32) (data : Sector)

/-- The drive byte of the request. -/
def Request.disk : Request → UInt8
  | .read disk _ _ => disk
  | .write disk _ _ => disk

/-- `disk_read_sector` and `disk_write_sector` (`msc_app.c:96-102`), with the tables as they are when the
request is looked up. -/
def Request.prog (t : DriveTables) : Request → SectorProg Unit
  | .read disk lbn buff => (readDiskSector t disk lbn buff).bind fun _ => .ret ()
  | .write disk lbn data => (writeDiskSector t disk lbn data).bind fun _ => .ret ()

/-- What core 1 is doing. A scan keeps the insertion it began in, whether it has seen nothing but the
stick of that insertion, and the data sectors it has read. A request keeps the insertion that the
record it goes by was computed in. -/
inductive Core1 where
  | idle
  | scan (since : Nat) (undisturbed : Bool) (seen : List Sector)
      (prog : SectorProg (Int × DriveTables))
  | request (author : Option Nat) (prog : SectorProg Unit)

/-- A sector read or written for a request, or answered from the prefetch buffer: in which insertion,
by a record of which, and for a read what it served; `held` is what the stick has held since it was
inserted. -/
structure Service where
  insertion : Nat
  author : Option Nat
  sector : UInt32
  data : Option Sector
  held : List Medium

/-- The record was computed in the insertion, and the data came from the stick inserted. -/
def Service.Sound (x : Service) : Prop :=
  x.author = some x.insertion ∧ ∀ d, x.data = some d → ∃ m ∈ x.held, d = m x.sector

structure State where
  usb : Usb
  tables : DriveTables
  core1 : Core1
  /-- The inquiry of the stick inserted is under way. -/
  inquiring : Bool
  insertion : Nat
  held : List Medium
  /-- The media that a scan of this insertion has gone through from start to end, seeing nothing else. -/
  scans : List Medium
  author : Slot → Option Nat
  served : List Service

/-- `usb_disk_inserted` -/
def State.inserted (s : State) : Bool := s.usb.flags .usbDiskInserted

/-- The firmware as it starts, with no stick. -/
def State.start : State where
  usb := { Usb.mounted fun _ => .zero with flags := initialFlags }
  tables := .zero
  core1 := .idle
  inquiring := false
  insertion := 0
  held := []
  scans := []
  author := fun _ => none
  served := []

/-- A scan under way is disturbed. -/
def Core1.disturb : Core1 → Core1
  | .scan since _ seen prog => .scan since false seen prog
  | c => c

/-- The entries of the directory sectors a scan has read, the boot sector first. -/
def scannedEntries (seen : List Sector) : List DriveEntry :=
  (seen.drop 1).flatMap fun buff => entriesAt buff dirOffsets

/-- A scan can be relied on: the stick is there, the FAT cache on the stack is invalid or the
medium's, and a copy tagged as sector 0 is one of it. -/
def State.ReliableScan (s : State) (stack : Stack) : Prop :=
  s.inserted = true ∧ stack.Coherent s.usb.medium ∧
    (s.usb.prefetchingLba = 0 → s.usb.prefetchingBuff = s.usb.medium 0)

/-- The authors of the records after a scan that read `seen`: those it has stored are its own, if it
ends in the insertion it began in. -/
def State.authors (s : State) (since : Nat) (seen : List Sector) (x : Slot) : Option Nat :=
  if (scannedEntries seen).any fun e => e.slot == x then
    if since = s.insertion then some s.insertion else none
  else s.author x

/-- What a request is served by a read of `sector`. -/
def State.serveRead (s : State) (author : Option Nat) (sector : UInt32) (r : Int) (data : Sector) :
    List Service :=
  if s.inserted then
    s.served ++ [⟨s.insertion, author, sector, if r = 0 then some data else none, s.held⟩]
  else s.served

/-- What a request is served by a write of `sector`. -/
def State.serveWrite (s : State) (author : Option Nat) (sector : UInt32) : List Service :=
  if s.inserted then s.served ++ [⟨s.insertion, author, sector, none, s.held⟩] else s.served

/-- A stick is mounted, `tuh_msc_mount_cb`. -/
def State.mounted (s : State) (m : Medium) : State :=
  { s with
    usb := { s.usb with medium := m, flags := tuhMscMountCb s.usb.flags }
    core1 := s.core1.disturb, inquiring := true, insertion := s.insertion + 1
    held := [m], scans := [] }

/-- Its inquiry is complete, `inquiry_complete_cb`. -/
def State.inquired (s : State) (passed : Bool) : State :=
  { s with usb := { s.usb with flags := inquiryCompleteCb passed s.usb.flags }, inquiring := false }

/-- It is unmounted, `tuh_msc_umount_cb`. -/
def State.unmounted (s : State) : State :=
  { s with
    usb := { s.usb with flags := tuhMscUmountCb s.usb.flags }
    core1 := s.core1.disturb, inquiring := false }

/-- The stick is pulled while the prefetch of the call that has just returned is under way. -/
def pulled (w : Usb) : Usb := { w with pending := [], flags := tuhMscUmountCb w.flags }

/-- The data sectors a scan has read after one more call. -/
def seenAfter (into : Into) (seen : List Sector) (data : Sector) : List Sector :=
  if into = .buff then seen ++ [data] else seen

/-- `init_disk` returns with the tables `t` and `msc_task` clears the event. -/
def State.scanned (s : State) (since : Nat) (undisturbed : Bool) (seen : List Sector)
    (t : DriveTables) : State :=
  { s with
    usb := { s.usb with flags := Function.update s.usb.flags .usbDiskInsertEvent false }
    tables := t, core1 := .idle
    scans := if undisturbed then s.usb.medium :: s.scans else s.scans
    author := s.authors since seen }

/-- A request is looked up in the tables. -/
def State.requested (s : State) (r : Request) : State :=
  { s with core1 := .request (s.author (slotOf r.disk)) (r.prog s.tables) }

/-- A call of a request to `read_sector` has left `w`, and `prog` is left of the request. -/
def State.readFor (s : State) (author : Option Nat) (sector : UInt32) (r : Int) (data : Sector)
    (prog : SectorProg Unit) (w : Usb) : State :=
  { s with
    usb := w, core1 := .request author prog
    served := s.serveRead author sector r data }

/-- The same of a call to `write_sector`. -/
def State.wroteFor (s : State) (author : Option Nat) (sector : UInt32) (prog : SectorProg Unit)
    (w : Usb) : State :=
  { s with
    usb := w, core1 := .request author prog
    held := if s.inserted then w.medium :: s.held else s.held
    served := s.serveWrite author sector }

/-- The kind of a step. -/
inductive Event where
  | mount
  | inquiry
  | unmount
  | task
  | request (r : Request)
  | call
  | done

inductive Step : Event → State → State → Prop
  | mount {s : State} (m : Medium) : s.inserted = false → Step .mount s (s.mounted m)
  | inquiry {s : State} (passed : Bool) : s.inquiring = true → Step .inquiry s (s.inquired passed)
  | unmount {s : State} : s.inserted = true → Step .unmount s s.unmounted
  /-- `msc_task` finds `usb_disk_insert_event` set. -/
  | task {s : State} {fuel : Nat} {stack : Stack} {undisturbed : Bool} : s.core1 = .idle →
      s.usb.flags .usbDiskInsertEvent = true → (undisturbed = true ↔ s.ReliableScan stack) →
      Step .task s { s with
        core1 := .scan s.insertion undisturbed [] (initDisk fuel stack s.tables) }
  /-- A call of the scan to `read_sector`. -/
  | scanCall {s : State} {sched : Nat → Bool} {since : Nat} {undisturbed : Bool}
      {seen : List Sector} {into : Into} {sector : UInt32} {old : Sector}
      {k : Int × Sector → SectorProg (Int × DriveTables)} {r : Int} {data : Sector} {w : Usb} :
      s.core1 = .scan since undisturbed seen (.op (.read into sector old) k) →
      s.usb.call sched (.read sector old) = some (.read r data, w) →
      Step .call s { s with
        usb := w
        core1 := .scan since undisturbed (seenAfter into seen data) (k (r, data)) }
  /-- Such a call, and the stick is pulled before its prefetch completes. -/
  | scanPulled {s : State} {sched : Nat → Bool} {since : Nat} {undisturbed : Bool}
      {seen : List Sector} {into : Into} {sector : UInt32} {old : Sector}
      {k : Int × Sector → SectorProg (Int × DriveTables)} {r : Int} {w : Usb} :
      s.core1 = .scan since undisturbed seen (.op (.read into sector old) k) → s.inserted = true →
      (readSector sector).exec (Usb.answer sched) { s.usb with buff := old } = some (r, w) →
      Step .unmount s { s with
        usb := pulled w
        core1 := .scan since false (seenAfter into seen w.buff) (k (r, w.buff))
        inquiring := false }
  | scanDone {s : State} {since : Nat} {undisturbed : Bool} {seen : List Sector} {r : Int}
      {t : DriveTables} : s.core1 = .scan since undisturbed seen (.ret (r, t)) →
      Step .done s (s.scanned since undisturbed seen t)
  | request {s : State} (r : Request) : s.core1 = .idle → Step (.request r) s (s.requested r)
  /-- The call of a request to `read_sector`. -/
  | readCall {s : State} {sched : Nat → Bool} {author : Option Nat} {into : Into} {sector : UInt32}
      {old : Sector} {k : Int × Sector → SectorProg Unit} {r : Int} {data : Sector} {w : Usb} :
      s.core1 = .request author (.op (.read into sector old) k) →
      s.usb.call sched (.read sector old) = some (.read r data, w) →
      Step .call s (s.readFor author sector r data (k (r, data)) w)
  /-- Such a call, and the stick is pulled before its prefetch completes. -/
  | readPulled {s : State} {sched : Nat → Bool} {author : Option Nat} {into : Into}
      {sector : UInt32} {old : Sector} {k : Int × Sector → SectorProg Unit} {r : Int} {w : Usb} :
      s.core1 = .request author (.op (.read into sector old) k) → s.inserted = true →
      (readSector sector).exec (Usb.answer sched) { s.usb with buff := old } = some (r, w) →
      Step .unmount s { s.readFor author sector r w.buff (k (r, w.buff)) (pulled w) with
        inquiring := false }
  /-- The call of a request to `write_sector`. -/
  | writeCall {s : State} {sched : Nat → Bool} {author : Option Nat} {sector : UInt32}
      {data : Sector} {k : Int → SectorProg Unit} {r : Int} {w : Usb} :
      s.core1 = .request author (.op (.write sector data) k) →
      s.usb.call sched (.write sector data) = some (.write r, w) →
      Step .call s (s.wroteFor author sector (k r) w)
  /-- The request is answered. -/
  | requestDone {s : State} {author : Option Nat} : s.core1 = .request author (.ret ()) →
      Step .done s { s with core1 := .idle }

end LptStore.Firmware
