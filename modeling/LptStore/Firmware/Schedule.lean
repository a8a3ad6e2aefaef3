import LptStore.Firmware.Events
import LptStore.Lib.Run

/-!
# Playing a schedule

A schedule is a list of moves; playing it computes the state that the steps lead to. `msc_task` is
played with a FAT cache that is invalid, no transfer completes before the code waits for it, and every
inquiry passes.
-/

namespace LptStore.Firmware

open LptStore.Lib LptStore.Fs LptStore.Msc

/-- What happens next. -/
inductive Move where
  | mount (m : Medium)
  | inquiry
  | unmount
  | task
  | request (r : Request)
  | call
  | done

/-- The kind of step a move stands for. -/
def Move.event : Move → Event
  | .mount _ => .mount
  | .inquiry => .inquiry
  | .unmount => .unmount
  | .task => .task
  | .request r => .request r
  | .call => .call
  | .done => .done

/-- Whether a scan started now can be relied on. -/
def State.reliable (s : State) : Bool :=
  s.inserted && decide (s.usb.prefetchingLba = 0 → s.usb.prefetchingBuff = s.usb.medium 0)

/-- The call core 1 is about to make. -/
def State.callNext (s : State) : Option State :=
  match s.core1 with
  | .scan since undisturbed seen (.op (.read into sector old) k) =>
    match s.usb.call (fun _ => false) (.read sector old) with
    | some (.read r data, w) => some { s with
        usb := w
        core1 := .scan since undisturbed (seenAfter into seen data) (k (r, data)) }
    | _ => none
  | .request author (.op (.read _ sector old) k) =>
    match s.usb.call (fun _ => false) (.read sector old) with
    | some (.read r data, w) => some (s.readFor author sector r data (k (r, data)) w)
    | _ => none
  | .request author (.op (.write sector data) k) =>
    match s.usb.call (fun _ => false) (.write sector data) with
    | some (.write r, w) => some (s.wroteFor author sector (k r) w)
    | _ => none
  | _ => none

/-- What core 1 was doing is done. -/
def State.doneNext (s : State) : Option State :=
  match s.core1 with
  | .scan since undisturbed seen (.ret (_, t)) => some (s.scanned since undisturbed seen t)
  | .request _ (.ret ()) => some { s with core1 := .idle }
  | _ => none

/-- `msc_task` begins. -/
def State.taskNext (s : State) : Option State :=
  match s.core1 with
  | .idle => if s.usb.flags .usbDiskInsertEvent = true then some { s with
      core1 := .scan s.insertion s.reliable [] (initDisk 2 invalidStack s.tables) } else none
  | _ => none

/-- A request is looked up. -/
def State.requestNext (s : State) (r : Request) : Option State :=
  match s.core1 with
  | .idle => some (s.requested r)
  | _ => none

/-- The state a move leads to. -/
def nextState : Move → State → Option State
  | .mount m, s => if s.inserted = false then some (s.mounted m) else none
  | .inquiry, s => if s.inquiring = true then some (s.inquired true) else none
  | .unmount, s => if s.inserted = true then some s.unmounted else none
  | .task, s => s.taskNext
  | .request r, s => s.requestNext r
  | .call, s => s.callNext
  | .done, s => s.doneNext

variable {s t : State}

theorem reliable_iff : s.reliable = true ↔ s.ReliableScan invalidStack := by
  unfold State.reliable State.ReliableScan
  rw [Bool.and_eq_true, decide_eq_true_iff]
  exact ⟨fun h => ⟨h.1, invalidStack_coherent _, h.2⟩, fun h => ⟨h.1, h.2.2⟩⟩

theorem taskNext_step (h : s.taskNext = some t) : Step .task s t := by
  unfold State.taskNext at h
  split at h
  · next hcore =>
    rcases Option.ite_none_right_eq_some.mp h with ⟨hevent, heq⟩
    cases heq
    exact .task hcore hevent reliable_iff
  · cases h

theorem requestNext_step {r : Request} (h : s.requestNext r = some t) : Step (.request r) s t := by
  unfold State.requestNext at h
  split at h
  · next hcore =>
    cases h
    exact .request r hcore
  · cases h

theorem callNext_step (h : s.callNext = some t) : Step .call s t := by
  unfold State.callNext at h
  split at h
  · next hcore =>
    split at h
    · next hcall =>
      cases h
      exact .scanCall hcore hcall
    · cases h
  · next hcore =>
    split at h
    · next hcall =>
      cases h
      exact .readCall hcore hcall
    · cases h
  · next hcore =>
    split at h
    · next hcall =>
      cases h
      exact .writeCall hcore hcall
    · cases h
  · cases h

theorem doneNext_step (h : s.doneNext = some t) : Step .done s t := by
  unfold State.doneNext at h
  split at h
  · next hcore =>
    cases h
    exact .scanDone hcore
  · next hcore =>
    cases h
    exact .requestDone hcore
  · cases h

theorem nextState_step (m : Move) (s t : State) (h : nextState m s = some t) : Step m.event s t := by
  cases m with
  | mount m =>
    rcases Option.ite_none_right_eq_some.mp h with ⟨hout, heq⟩
    cases heq
    exact .mount m hout
  | inquiry =>
    rcases Option.ite_none_right_eq_some.mp h with ⟨hinq, heq⟩
    cases heq
    exact .inquiry true hinq
  | unmount =>
    rcases Option.ite_none_right_eq_some.mp h with ⟨hin, heq⟩
    cases heq
    exact .unmount hin
  | task => exact taskNext_step h
  | request r => exact requestNext_step h
  | call => exact callNext_step h
  | done => exact doneNext_step h

end LptStore.Firmware
