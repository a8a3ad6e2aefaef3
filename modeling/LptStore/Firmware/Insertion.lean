import LptStore.Fs.Forget
import LptStore.Msc.App
import LptStore.Lib.Run

/-!
# The insertion event

`inquiry_complete_cb` sets `usb_disk_insert_event` on core 0; `msc_task` on core 1 tests it, runs
`init_disk` and clears it. The callbacks of core 0 fall between any two steps of core 1, the calls of
the scan to the sector layer among them; those may answer anything. An insertion is noticed as long as
the event is not cleared for a scan that began before it.
-/

namespace LptStore.Firmware

open LptStore.Lib LptStore.Fs LptStore.Msc Function

/-- Where `msc_task` stands. A scan keeps the number of inquiries that had succeeded when it began. -/
inductive MscTask where
  /-- The event is tested next. -/
  | out
  /-- The event was set, and `init_disk` is called next. -/
  | entered
  | scan (since : Nat) (prog : SectorProg (Int × DriveTables))
  /-- `init_disk` has returned, and the event is cleared next. -/
  | scanned (since : Nat)

/-- The flags and the tables, and the history of insertions: the inquiries that have succeeded are
numbered from 1, `inquiry` is that of the medium now inserted, and `scans` holds for each run of
`init_disk` that has begun how many inquiries had succeeded by then. -/
structure TaskState where
  flags : Flag → Bool
  tables : DriveTables
  task : MscTask
  /-- The inquiry of the medium inserted is under way. -/
  inquiring : Bool
  inquiries : Nat
  inquiry : Option Nat
  scans : List Nat

namespace TaskState

/-- The firmware as it starts, with no stick. -/
def start : TaskState where
  flags := initialFlags
  tables := .zero
  task := .out
  inquiring := false
  inquiries := 0
  inquiry := none
  scans := []

/-- `usb_disk_inserted` -/
def inserted (s : TaskState) : Bool := s.flags .usbDiskInserted

/-- `usb_disk_insert_event` -/
def event (s : TaskState) : Bool := s.flags .usbDiskInsertEvent

/-- `tuh_msc_mount_cb`, which starts the inquiry. -/
def mounted (s : TaskState) : TaskState :=
  { s with flags := tuhMscMountCb s.flags, inquiring := true, inquiry := none }

/-- `inquiry_complete_cb` -/
def inquired (s : TaskState) (passed : Bool) : TaskState :=
  { s with
    flags := inquiryCompleteCb passed s.flags
    inquiring := false
    inquiries := if passed then s.inquiries + 1 else s.inquiries
    inquiry := if passed then some (s.inquiries + 1) else none }

/-- `tuh_msc_umount_cb` -/
def unmounted (s : TaskState) : TaskState :=
  { s with flags := tuhMscUmountCb s.flags, inquiring := false, inquiry := none }

/-- `init_disk` is called. -/
def begun (s : TaskState) (fuel : Nat) (stack : Stack) : TaskState :=
  { s with
    task := .scan s.inquiries (initDisk fuel stack s.tables)
    scans := s.inquiries :: s.scans }

/-- `usb_disk_insert_event = 0` -/
def cleared (s : TaskState) : TaskState :=
  { s with flags := update s.flags .usbDiskInsertEvent false, task := .out }

/-- The inquiry of the medium now inserted has not succeeded, or the event is set, or a run of
`init_disk` has begun since. -/
def Noticed (s : TaskState) : Prop :=
  ∀ n, s.inquiry = some n → s.event = true ∨ ∃ since ∈ s.scans, n ≤ since

end TaskState

/-- The steps of the callbacks on core 0 and of `msc_task` on core 1. -/
inductive TaskEvent where
  | mount
  | inquiry
  | unmount
  | test
  | begin
  | sector
  | done
  | clear

inductive TaskStep : TaskEvent → TaskState → TaskState → Prop
  | mount {s : TaskState} : s.inserted = false → TaskStep .mount s s.mounted
  | inquiry {s : TaskState} (passed : Bool) : s.inquiring = true →
      TaskStep .inquiry s (s.inquired passed)
  | unmount {s : TaskState} : s.inserted = true → TaskStep .unmount s s.unmounted
  | test {s : TaskState} : s.task = .out → s.event = true →
      TaskStep .test s { s with task := .entered }
  | begin {s : TaskState} (fuel : Nat) (stack : Stack) : s.task = .entered →
      TaskStep .begin s (s.begun fuel stack)
  | sector {s : TaskState} {since : Nat} {o : SectorOp}
      {k : SectorResp o → SectorProg (Int × DriveTables)} (r : SectorResp o) :
      s.task = .scan since (.op o k) → TaskStep .sector s { s with task := .scan since (k r) }
  | done {s : TaskState} {since : Nat} {r : Int} {t : DriveTables} :
      s.task = .scan since (.ret (r, t)) →
      TaskStep .done s { s with task := .scanned since, tables := t }
  | clear {s : TaskState} {since : Nat} : s.task = .scanned since → TaskStep .clear s s.cleared

/-- The event is cleared only for a scan that began after the inquiry of the medium now inserted, if
that has succeeded. -/
def ClearsOwn : TaskEvent → TaskState → Prop
  | .clear, s => ∀ since n, s.task = .scanned since → s.inquiry = some n → n ≤ since
  | _, _ => True

/-- The number kept by the scan that is under way or whose event is to be cleared. -/
def MscTask.since : MscTask → Option Nat
  | .scan since _ => some since
  | .scanned since => some since
  | _ => none

/-- What holds in every state: the run of `init_disk` that `msc_task` is at is the last that has
begun. -/
structure TaskState.Inv (s : TaskState) : Prop where
  noticed : s.Noticed
  counted : ∀ n ∈ s.scans, n ≤ s.inquiries
  begun : ∀ since, s.task.since = some since → since ∈ s.scans
  last : ∀ since, s.task.since = some since → ∀ n ∈ s.scans, n ≤ since

section Steps

variable {s t : TaskState} {e : TaskEvent}

theorem inv_taskStart : TaskState.start.Inv where
  noticed n h := by cases h
  counted n h := by cases h
  begun since h := by cases h
  last since h := by cases h

/-- Nothing is asked of a medium whose inquiry has not succeeded. -/
theorem TaskState.Noticed.of_none (h : s.inquiry = none) : s.Noticed := by
  intro n hn
  rw [h] at hn
  cases hn

theorem inv_taskInquiry (h : s.Inv) (passed : Bool) : (s.inquired passed).Inv := by
  cases passed with
  | true => exact ⟨fun _ _ => .inl rfl, fun n hn => Nat.le_succ_of_le (h.counted n hn), h.begun, h.last⟩
  | false => exact ⟨.of_none rfl, h.counted, h.begun, h.last⟩

theorem inv_taskBegin (h : s.Inv) (fuel : Nat) (stack : Stack) : (s.begun fuel stack).Inv := by
  have hcounted : ∀ n ∈ s.inquiries :: s.scans, n ≤ s.inquiries :=
    List.forall_mem_cons.mpr ⟨Nat.le_refl _, h.counted⟩
  refine ⟨fun n hn => ?_, hcounted, fun since heq => ?_, fun since heq => ?_⟩
  · exact (h.noticed n hn).imp_right fun ⟨since, hmem, hle⟩ =>
      ⟨since, List.mem_cons_of_mem _ hmem, hle⟩
  · cases heq
    exact List.mem_cons_self
  · cases heq
    exact hcounted

/-- A step that leaves `msc_task` at the same run of `init_disk`. -/
theorem TaskState.Inv.of_since {task : MscTask} (h : s.Inv) (tables : DriveTables)
    (hsince : task.since = s.task.since) : TaskState.Inv { s with task, tables } :=
  ⟨h.noticed, h.counted, fun since heq => h.begun since (hsince ▸ heq),
    fun since heq => h.last since (hsince ▸ heq)⟩

/-- Clearing the event loses the insertion unless the scan began after its inquiry. -/
theorem TaskState.Inv.cleared_iff (h : s.Inv) {since : Nat} (htask : s.task = .scanned since) :
    s.cleared.Noticed ↔ ClearsOwn .clear s := by
  have hsince : s.task.since = some since := by
    rw [htask]
    rfl
  constructor
  · intro hnoticed since' n htask' hn
    rw [htask] at htask'
    cases htask'
    rcases hnoticed n hn with hevent | ⟨m, hm, hle⟩
    · cases hevent
    · exact Nat.le_trans hle (h.last since hsince m hm)
  · exact fun hok n hn => .inr ⟨since, h.begun since hsince, hok since n htask hn⟩

theorem inv_taskStep (h : s.Inv) (hok : ClearsOwn e s) (hstep : TaskStep e s t) : t.Inv := by
  cases hstep with
  | mount _ => exact ⟨.of_none rfl, h.counted, h.begun, h.last⟩
  | inquiry passed _ => exact inv_taskInquiry h passed
  | unmount _ => exact ⟨.of_none rfl, h.counted, h.begun, h.last⟩
  | test htask _ => exact h.of_since _ (by rw [htask]; rfl)
  | begin fuel stack _ => exact inv_taskBegin h fuel stack
  | sector r htask => exact h.of_since _ (by rw [htask]; rfl)
  | done htask => exact h.of_since _ (by rw [htask]; rfl)
  | clear htask => exact ⟨(h.cleared_iff htask).mpr hok, h.counted, nofun, nofun⟩

theorem inv_taskRun (hrun : Run TaskStep ClearsOwn .start s) : s.Inv :=
  hrun.invariant (fun _ _ _ h hok hstep => inv_taskStep h hok hstep) inv_taskStart

end Steps

/-- In every run in which the event is cleared only for scans that began after the inquiry of the medium
inserted, no insertion is lost; the first clearing for an earlier scan loses one. -/
theorem insertions_noticed {s : TaskState} (hrun : Run TaskStep ClearsOwn .start s) :
    s.Noticed ∧ ∀ t, TaskStep .clear s t → (t.Noticed ↔ ClearsOwn .clear s) := by
  have hinv := inv_taskRun hrun
  refine ⟨hinv.noticed, fun t hstep => ?_⟩
  cases hstep with
  | clear htask => exact hinv.cleared_iff htask

section Sticks

/-- A stick is mounted, its inquiry succeeds and `init_disk` is called. -/
def firstScan : TaskState := TaskState.begun
  { (TaskState.start.mounted.inquired true) with task := .entered } 0 invalidStack

variable {ok : TaskEvent → TaskState → Prop}

theorem run_firstScan (hok : ∀ e s, e ≠ .clear → ok e s) : Run TaskStep ok .start firstScan := by
  have hmount : Run TaskStep ok .start TaskState.start.mounted :=
    .step (.refl _) (hok .mount _ nofun) (.mount rfl)
  have hinquiry := hmount.step (hok .inquiry _ nofun) (.inquiry true rfl)
  have htest := hinquiry.step (hok .test _ nofun) (.test rfl rfl)
  exact htest.step (hok .begin _ nofun) (.begin 0 invalidStack rfl)

theorem initDisk_unsigned {boot : Sector} (h : ¬ isSigned boot = true) (fuel : Nat) (stack : Stack)
    (t : DriveTables) : ∃ k, initDisk fuel stack t = .op (.read .buff 0 stack.fsIdBuff) k ∧
      ∀ r : Int, k ((r, boot) : Int × Sector) = .ret (1, { t with diskBitmap := 0 }) := by
  refine ⟨_, rfl, fun r => ?_⟩
  show Prog.bind (if isSigned boot = true then _ else _) _ = _
  rw [if_neg h]
  rfl

/-- A boot sector of zeros ends the scan. -/
theorem run_unsigned {s : TaskState} {since : Nat} (hok : ∀ e s, e ≠ .clear → ok e s)
    (hrun : Run TaskStep ok .start s) (htask : s.task = .scan since (initDisk 0 invalidStack .zero)) :
    Run TaskStep ok .start { s with task := .scanned since, tables := .zero } := by
  have hzeros : ¬ isSigned .zero = true := by decide +kernel
  rcases initDisk_unsigned hzeros 0 invalidStack .zero with ⟨k, hread, hret⟩
  rw [hread] at htask
  have hsector := hrun.step (hok .sector _ nofun) (.sector ((0, .zero) : Int × Sector) htask)
  rw [hret 0] at hsector
  exact hsector.step (hok .done _ nofun) (.done rfl)

/-- One stick is scanned, and the event cleared. -/
theorem insertions_noticed_one : ∃ s : TaskState, s.inquiry = some 1 ∧ s.event = false ∧ s.Noticed := by
  have hok (e : TaskEvent) (s : TaskState) (he : e ≠ .clear) : ClearsOwn e s := by
    cases e with
    | clear => exact absurd rfl he
    | _ => trivial
  have hown : ClearsOwn .clear { firstScan with task := .scanned 1, tables := .zero } := by
    intro since n htask hn
    cases htask
    cases hn
    exact Nat.le_refl 1
  have hcleared := (run_unsigned hok (run_firstScan hok) rfl).step hown (.clear rfl)
  exact ⟨_, rfl, rfl, (insertions_noticed hcleared).1⟩

/-- The stick is swapped during the scan. -/
theorem insertion_lost : ¬ ∀ s, Run TaskStep (fun _ _ => True) .start s → s.Noticed := by
  intro h
  have hok (e : TaskEvent) (s : TaskState) (_ : e ≠ .clear) : True := trivial
  have hunmount := (run_firstScan hok).step trivial (.unmount rfl)
  have hmount := hunmount.step trivial (.mount rfl)
  have hinquiry := hmount.step trivial (.inquiry true rfl)
  have hscanned := run_unsigned hok hinquiry rfl
  have hcleared := hscanned.step trivial (.clear rfl)
  rcases h _ hcleared 2 rfl with hevent | ⟨since, hsince, hle⟩
  · cases hevent
  · rw [List.mem_singleton.mp hsince] at hle
    exact absurd hle (by decide)

end Sticks

end LptStore.Firmware
