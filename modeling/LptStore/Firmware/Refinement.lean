import LptStore.Msc.Prefetch
import LptStore.Firmware.Events
import LptStore.Firmware.Insertion

/-!
# The firmware around a stick as a run of `msc_task`

The system around a stick takes the test of the event with the call of `init_disk`, and its return with
the clearing, and serves requests in between. Each of its steps is matched by steps of the callbacks and
of `msc_task` alone, which agree on the insertion, the event and the drive tables; so what holds of all
runs of these holds around a stick.
-/

namespace LptStore.Firmware

open LptStore.Lib LptStore.Fs LptStore.Msc Function

section Flags

/-- The sector layer leaves `usb_disk_inserted` and `usb_disk_insert_event` alone. -/
def Spares : MscOp → Prop
  | .store .usbDiskInserted _ => False
  | .store .usbDiskInsertEvent _ => False
  | _ => True

/-- The flags that the callbacks of a stick set are the same. -/
structure SameInsertion (flags flags' : Flag → Bool) : Prop where
  inserted : flags' .usbDiskInserted = flags .usbDiskInserted
  event : flags' .usbDiskInsertEvent = flags .usbDiskInsertEvent

variable {flags flags' flags'' : Flag → Bool} {sched : Nat → Bool} {w w' : Usb}

theorem SameInsertion.refl (flags : Flag → Bool) : SameInsertion flags flags := ⟨rfl, rfl⟩

theorem SameInsertion.trans (h : SameInsertion flags flags') (h' : SameInsertion flags' flags'') :
    SameInsertion flags flags'' :=
  ⟨h'.inserted.trans h.inserted, h'.event.trans h.event⟩

theorem deliver_same (w : Usb) (x : Transfer) : SameInsertion w.flags (w.deliver x).flags := by
  cases x with
  | read dst sector => cases dst <;> exact ⟨rfl, rfl⟩
  | write sector data => exact ⟨rfl, rfl⟩

theorem settle_same (w : Usb) : SameInsertion w.flags w.settle.flags := by
  show SameInsertion w.flags (w.pending.foldl Usb.deliver w).flags
  generalize w.pending = xs
  induction xs generalizing w with
  | nil => exact .refl _
  | cons x xs ih => exact (deliver_same w x).trans (ih _)

theorem tick_same (sched : Nat → Bool) (w : Usb) : SameInsertion w.flags (w.tick sched).flags := by
  unfold Usb.tick
  split
  · exact settle_same w
  · exact .refl _

theorem perform_same {o : MscOp} {r : MscResp o} (ho : Spares o) (h : w.perform o = some (r, w')) :
    SameInsertion w.flags w'.flags := by
  cases o with
  | store f b =>
    cases h
    match f, ho with
    | .complete, _ => exact ⟨rfl, rfl⟩
    | .result, _ => exact ⟨rfl, rfl⟩
    | .prefetchingComplete, _ => exact ⟨rfl, rfl⟩
  | spin f =>
    simp only [Usb.perform] at h
    split at h
    · cases h
      exact .refl _
    · split at h
      · cases h
        exact settle_same w
      · cases h
  | _ =>
    cases h
    exact .refl _

theorem exec_same {α : Type} {p : MscProg α} {a : α} (hp : p.Only Spares)
    (h : p.exec (Usb.answer sched) w = some (a, w')) : SameInsertion w.flags w'.flags := by
  induction p generalizing w with
  | ret b =>
    cases h
    exact .refl _
  | op o k ih =>
    unfold Prog.exec at h
    cases hop : Usb.answer sched o w with
    | none =>
      rw [hop] at h
      cases h
    | some x =>
      rw [hop] at h
      rcases Option.map_eq_some_iff.mp hop with ⟨y, hperform, rfl⟩
      exact ((perform_same hp.1 hperform).trans (tick_same sched _)).trans (ih _ (hp.2 _) h)

theorem prog_spares (c : Call) : c.prog.Only Spares := by
  refine (prog_announced c).only fun o k hann => ?_
  cases o with
  | store f b =>
    match f, b, k, hann with
    | .complete, _, _, _ => trivial
    | .result, _, _, _ => trivial
    | .prefetchingComplete, _, _, _ => trivial
  | _ => trivial

/-- A call of the sector layer. -/
theorem call_same {c : Call} {o : Outcome} (h : w.call sched c = some (o, w')) :
    SameInsertion w.flags w'.flags := by
  cases c with
  | read sector buff =>
    rcases Option.map_eq_some_iff.mp h with ⟨⟨r, w₁⟩, hexec, heq⟩
    cases heq
    exact (exec_same (prog_spares (.read sector buff)) hexec).trans (settle_same w₁)
  | write sector data =>
    rcases Option.map_eq_some_iff.mp h with ⟨⟨r, w₁⟩, hexec, heq⟩
    cases heq
    exact (exec_same (prog_spares (.write sector data)) hexec).trans (settle_same w₁)

end Flags

/-- `msc_task` is at the same scan, or at none. -/
def Core1.Shows : Core1 → MscTask → Prop
  | .scan _ _ _ prog, task => ∃ since, task = .scan since prog
  | _, task => task = .out

/-- The two systems agree. -/
structure State.Shows (s : State) (x : TaskState) : Prop where
  flags : SameInsertion s.usb.flags x.flags
  tables : x.tables = s.tables
  inquiring : x.inquiring = s.inquiring
  task : s.core1.Shows x.task

section Simulation

variable {s t : State} {x : TaskState} {e : Event}

theorem Core1.Shows.disturb {c : Core1} {task : MscTask} (h : c.Shows task) : c.disturb.Shows task := by
  cases c with
  | scan since undisturbed seen prog => exact h
  | _ => exact h

theorem State.Shows.mounted (h : s.Shows x) (m : Medium) : (s.mounted m).Shows x.mounted :=
  ⟨⟨rfl, h.flags.event⟩, h.tables, rfl, h.task.disturb⟩

theorem State.Shows.inquired (h : s.Shows x) (passed : Bool) :
    (s.inquired passed).Shows (x.inquired passed) :=
  ⟨⟨h.flags.inserted, congrArg (passed || ·) h.flags.event⟩, h.tables, rfl, h.task⟩

theorem State.Shows.unmounted (h : s.Shows x) : s.unmounted.Shows x.unmounted :=
  ⟨⟨rfl, h.flags.event⟩, h.tables, rfl, h.task.disturb⟩

/-- A step of core 1 that is none of `msc_task`. -/
theorem State.Shows.usb (h : s.Shows x) (hflags : SameInsertion s.usb.flags t.usb.flags)
    (htables : t.tables = s.tables) (hinquiring : t.inquiring = s.inquiring)
    (htask : t.core1.Shows x.task) : t.Shows x :=
  ⟨⟨h.flags.inserted.trans hflags.inserted.symm, h.flags.event.trans hflags.event.symm⟩,
    h.tables.trans htables.symm, h.inquiring.trans hinquiring.symm, htask⟩

/-- The steps of `msc_task` alone, whatever the clearings. -/
def TaskRun : TaskState → TaskState → Prop := Run TaskStep fun _ _ => True

theorem TaskRun.one {a : TaskEvent} {x y : TaskState} (h : TaskStep a x y) : TaskRun x y :=
  .step (.refl x) trivial h

theorem TaskRun.two {a a' : TaskEvent} {x y z : TaskState} (h : TaskStep a x y)
    (h' : TaskStep a' y z) : TaskRun x z :=
  .step (.step (.refl x) trivial h) trivial h'

/-- The test of the event and the call of `init_disk`. -/
theorem State.Shows.begun (h : s.Shows x) (hidle : s.core1 = .idle)
    (hevent : s.usb.flags .usbDiskInsertEvent = true) (fuel : Nat) (stack : Stack)
    (undisturbed : Bool) :
    ∃ y, TaskRun x y ∧ State.Shows { s with
      core1 := .scan s.insertion undisturbed [] (initDisk fuel stack s.tables) } y := by
  have htask : x.task = .out := by
    have hshows := h.task
    rw [hidle] at hshows
    exact hshows
  refine ⟨_, .two (.test htask (h.flags.event.trans hevent)) (.begin fuel stack rfl), h.flags,
    h.tables, h.inquiring, x.inquiries, ?_⟩
  show MscTask.scan _ (initDisk fuel stack x.tables) = _
  rw [h.tables]

/-- A call of the scan to the sector layer is answered. -/
theorem State.Shows.answered (h : s.Shows x) {since : Nat} {undisturbed : Bool} {seen : List Sector}
    {o : SectorOp} {k : SectorResp o → SectorProg (Int × DriveTables)}
    (hcore : s.core1 = .scan since undisturbed seen (.op o k)) (r : SectorResp o) {w : Usb}
    (hflags : SameInsertion s.usb.flags w.flags) (undisturbed' : Bool) (seen' : List Sector) :
    ∃ y, TaskStep .sector x y ∧
      State.Shows { s with usb := w, core1 := .scan since undisturbed' seen' (k r) } y := by
  have hshows := h.task
  rw [hcore] at hshows
  rcases hshows with ⟨n, htask⟩
  have hagree : State.Shows { s with core1 := .scan since undisturbed' seen' (k r) }
      { x with task := .scan n (k r) } := ⟨h.flags, h.tables, h.inquiring, n, rfl⟩
  exact ⟨_, .sector r htask, hagree.usb hflags rfl rfl ⟨n, rfl⟩⟩

/-- The stick is pulled before the prefetch of a call has completed. -/
theorem State.Shows.pulled (h : s.Shows x) :
    State.Shows { s with
      usb := Firmware.pulled s.usb, core1 := s.core1.disturb, inquiring := false } x.unmounted :=
  ⟨h.unmounted.flags, h.unmounted.tables, h.unmounted.inquiring, h.unmounted.task⟩

/-- `init_disk` returns and the event is cleared. -/
theorem State.Shows.scanned (h : s.Shows x) {since : Nat} {undisturbed : Bool} {seen : List Sector}
    {r : Int} {t : DriveTables} (hcore : s.core1 = .scan since undisturbed seen (.ret (r, t))) :
    ∃ y, TaskRun x y ∧ (s.scanned since undisturbed seen t).Shows y := by
  have hshows := h.task
  rw [hcore] at hshows
  rcases hshows with ⟨n, htask⟩
  exact ⟨_, .two (.done htask) (.clear rfl), ⟨h.flags.inserted, rfl⟩, rfl, h.inquiring, rfl⟩

theorem State.Shows.out (h : s.Shows x) {author : Option Nat} {prog : SectorProg Unit}
    (hcore : s.core1 = .request author prog) : x.task = .out := by
  have hshows := h.task
  rw [hcore] at hshows
  exact hshows

/-- Every step around a stick is matched. -/
theorem step_shown (hstep : Step e s t) (h : s.Shows x) : ∃ y, TaskRun x y ∧ t.Shows y := by
  cases hstep with
  | mount m hout => exact ⟨_, .one (.mount (h.flags.inserted.trans hout)), h.mounted m⟩
  | inquiry passed hinquiring =>
    exact ⟨_, .one (.inquiry passed (h.inquiring.trans hinquiring)), h.inquired passed⟩
  | unmount hin => exact ⟨_, .one (.unmount (h.flags.inserted.trans hin)), h.unmounted⟩
  | task hidle hevent _ => exact h.begun hidle hevent _ _ _
  | scanCall hcore hcall =>
    rcases h.answered hcore _ (call_same hcall) _ _ with ⟨y, hsector, hshows⟩
    exact ⟨y, .one hsector, hshows⟩
  | @scanPulled _ _ _ _ seen into sector old _ r w hcore hin hexec =>
    have hflags := exec_same (prog_spares (.read sector old)) hexec
    rcases h.answered hcore (r, w.buff) hflags false (seenAfter into seen w.buff) with
      ⟨y, hsector, hshows⟩
    have hinserted := hshows.flags.inserted.trans (hflags.inserted.trans hin)
    exact ⟨_, .two hsector (.unmount hinserted), hshows.pulled⟩
  | scanDone hcore => exact h.scanned hcore
  | request r hidle =>
    refine ⟨x, .refl x, h.flags, h.tables, h.inquiring, ?_⟩
    have hshows := h.task
    rw [hidle] at hshows
    exact hshows
  | readCall hcore hcall =>
    exact ⟨x, .refl x, h.usb (call_same hcall) rfl rfl (h.out hcore)⟩
  | @readPulled _ _ author _ sector old k r w hcore hin hexec =>
    have hflags := exec_same (prog_spares (.read sector old)) hexec
    have hinserted := h.flags.inserted.trans hin
    have hshows := h.usb (t := s.readFor author sector r w.buff (k (r, w.buff)) w) hflags rfl rfl
      (h.out hcore)
    exact ⟨_, .one (.unmount hinserted), hshows.pulled⟩
  | writeCall hcore hcall =>
    exact ⟨x, .refl x, h.usb (call_same hcall) rfl rfl (h.out hcore)⟩
  | requestDone hcore => exact ⟨x, .refl x, h.flags, h.tables, h.inquiring, h.out hcore⟩

/-- Every run around a stick is a run of the callbacks and of `msc_task`. -/
theorem run_shown (hrun : Run Step (fun _ _ => True) .start s) :
    ∃ x, TaskRun .start x ∧ s.Shows x := by
  have hstart : State.start.Shows .start := ⟨⟨rfl, rfl⟩, rfl, rfl, rfl⟩
  refine hrun.invariant (I := fun s => ∃ x, TaskRun .start x ∧ s.Shows x) ?_ ⟨_, .refl _, hstart⟩
  rintro e s t ⟨x, hreached, hshows⟩ - hstep
  rcases step_shown hstep hshows with ⟨y, hmatched, hshows⟩
  exact ⟨y, hreached.trans hmatched, hshows⟩

end Simulation

end LptStore.Firmware
