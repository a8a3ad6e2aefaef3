import LptStore.Lib.Outline
import LptStore.Lib.Run
import LptStore.Msc.Coherence

/-!
# Completions between the steps of a call

Core 1 calls `read_sector` and `write_sector` while core 0 runs the callback of each transfer that
completes, its three stores one by one, between any two steps of core 1. The prefetch and the transfer
that a call waits for share the callback and what it stores.
-/

namespace LptStore.Msc

open LptStore.Lib Function

/-- The transfer of a prefetch. -/
def Transfer.isPrefetch : Transfer → Bool
  | .read .prefetchingBuff _ => true
  | _ => false

/-- A transfer TinyUSB has accepted, and the number of the call that has started it. -/
structure Job where
  call : Nat
  transfer : Transfer

/-- A transfer whose callback has come: its status, and the data that a read has left in its buffer. -/
structure Completion where
  job : Job
  passed : Bool
  data : Sector

/-- How the last prefetch stands. -/
inductive Prefetch where
  | unstarted
  | refused
  | underWay
  | passed
  | failed
  deriving DecidableEq, Repr

/-- The buffers with the tag of the prefetched one, and the transfers. `buff` is the buffer of the last
`read_sector`; `calls` counts the calls. -/
structure Traffic where
  prefetchingLba : UInt32
  prefetchingBuff : Sector
  buff : Sector
  underWay : List Job
  completed : List Completion
  prefetch : Prefetch
  calls : Nat

/-- What the cores share: the variables of `msc_app.c` and what the callback on core 0 has still to
store. -/
structure Shared extends Traffic where
  flags : Flag → Bool
  stores : List (Flag × Bool)

/-- The last call of core 1, and what is left of it. -/
structure Cores where
  shared : Shared
  core1 : Option (Call × MscProg Int)

/-- The function that is called. -/
def Call.prog : Call → MscProg Int
  | .read sector _ => readSector sector
  | .write sector data => writeSector sector data

/-- The stores of `msc_fat_complete_cb` (`msc_app.c:47-49`), in order. -/
def callbackStores (passed : Bool) : List (Flag × Bool) :=
  [(.complete, true), (.prefetchingComplete, true), (.result, !passed)]

/-- The flags after some stores. -/
def storeAll (flags : Flag → Bool) (stores : List (Flag × Bool)) : Flag → Bool :=
  stores.foldl (fun flags x => update flags x.1 x.2) flags

/-- Together the stores are the callback. -/
theorem storeAll_callback (passed : Bool) (flags : Flag → Bool) :
    storeAll flags (callbackStores passed) = mscFatCompleteCb passed flags := by
  funext f
  cases f <;> rfl

/-- The flags once the callback at work has made its stores. -/
def Shared.settled (s : Shared) : Flag → Bool := storeAll s.flags s.stores

namespace Traffic

/-- TinyUSB answers a request for a transfer. -/
def request (x : Traffic) (accepted : Bool) (transfer : Transfer) : Traffic :=
  { x with
    underWay := if accepted then x.underWay ++ [⟨x.calls, transfer⟩] else x.underWay
    prefetch := if transfer.isPrefetch then (if accepted then .underWay else .refused)
      else x.prefetch }

/-- The data of a read transfer, passed or not, is in its buffer. -/
def move (x : Traffic) (data : Sector) : Transfer → Traffic
  | .read .buff _ => { x with buff := data }
  | .read .prefetchingBuff _ => { x with prefetchingBuff := data }
  | .write _ _ => x

/-- The `i`-th transfer under way completes. -/
def finish (x : Traffic) (i : Nat) (job : Job) (passed : Bool) (data : Sector) : Traffic :=
  { x.move data job.transfer with
    underWay := x.underWay.eraseIdx i
    completed := x.completed ++ [⟨job, passed, data⟩]
    prefetch := if job.transfer.isPrefetch then (if passed then .passed else .failed)
      else x.prefetch }

@[simp] theorem finish_underWay (x : Traffic) (i : Nat) (job : Job) (passed : Bool) (data : Sector) :
    (x.finish i job passed data).underWay = x.underWay.eraseIdx i := rfl

@[simp] theorem finish_calls (x : Traffic) (i : Nat) (job : Job) (passed : Bool) (data : Sector) :
    (x.finish i job passed data).calls = x.calls := by
  unfold finish move
  split <;> rfl

/-- A call begins; `read_sector` is handed a buffer with some content. -/
def enter (x : Traffic) : Call → Traffic
  | .read _ buff => { x with calls := x.calls + 1, buff := buff }
  | .write _ _ => { x with calls := x.calls + 1 }

end Traffic

/-- One operation of core 1; `accepted` is the answer of TinyUSB. A `while` loop whose flag is not set
goes on. -/
def Shared.perform (accepted : Bool) : (o : MscOp) → Shared → Option (MscResp o × Shared)
  | .load f, s => some (s.flags f, s)
  | .store f v, s => some ((), { s with flags := update s.flags f v })
  | .spin f, s => if s.flags f then some ((), s) else none
  | .loadLba, s => some (s.prefetchingLba, s)
  | .storeLba sector, s => some ((), { s with prefetchingLba := sector })
  | .copyPrefetch, s => some ((), { s with buff := s.prefetchingBuff })
  | .read10 dst sector, s =>
      some (accepted, { s with toTraffic := s.request accepted (.read dst sector) })
  | .write10 sector data, s =>
      some (accepted, { s with toTraffic := s.request accepted (.write sector data) })

/-- What can happen next: a call, a step of core 1, the completion of the `i`-th transfer under way, a
store of its callback, and a stick plugged in or pulled. -/
inductive UsbEvent where
  | call (c : Call)
  | op (accepted : Bool)
  | complete (i : Nat) (passed : Bool) (data : Sector)
  | store
  | mount
  | umount

namespace Cores

/-- The state after an event, if it can happen. Core 0 runs one callback at a time. -/
def next : UsbEvent → Cores → Option Cores
  | .call c, w =>
      match w.core1 with
      | some (_, .op _ _) => none
      | _ => some ⟨{ w.shared with toTraffic := w.shared.enter c }, some (c, c.prog)⟩
  | .op accepted, w =>
      match w.core1 with
      | some (c, .op o k) => (w.shared.perform accepted o).map fun x => ⟨x.2, some (c, k x.1)⟩
      | _ => none
  | .complete i passed data, w =>
      match w.shared.stores, w.shared.underWay[i]? with
      | [], some job =>
          some { w with
            shared := {
              toTraffic := w.shared.finish i job passed data
              flags := w.shared.flags
              stores := callbackStores passed } }
      | _, _ => none
  | .store, w =>
      match w.shared.stores with
      | [] => none
      | x :: rest =>
          some { w with
            shared := { w.shared with flags := update w.shared.flags x.1 x.2, stores := rest } }
  | .mount, w =>
      if w.shared.stores.isEmpty then
        some { w with shared := { w.shared with flags := tuhMscMountCb w.shared.flags } }
      else none
  | .umount, w =>
      if w.shared.stores.isEmpty then
        some { w with shared := { w.shared with flags := tuhMscUmountCb w.shared.flags } }
      else none

/-- The event takes one state to the other. -/
def Step (e : UsbEvent) (w w' : Cores) : Prop := w.next e = some w'

/-- The variables as initialised (`msc_app.c:36-42`), before the first call. -/
def initial : Cores where
  shared := {
    flags := initialFlags
    prefetchingLba := 0xffffffff
    prefetchingBuff := .zero
    buff := .zero
    stores := []
    underWay := []
    completed := []
    prefetch := .unstarted
    calls := 0 }
  core1 := none

/-- What the last call has returned. -/
def returned (w : Cores) : Option (Call × Int) :=
  match w.core1 with
  | some (c, .ret r) => some (c, r)
  | _ => none

end Cores

section Outcomes

/-- A transfer that a call has started and that it waits for has completed with a status. -/
def OwnCompleted (completed : List Completion) (call : Nat) (passed : Bool) : Prop :=
  ∃ x ∈ completed, x.job.call = call ∧ x.job.transfer.isPrefetch = false ∧ x.passed = passed

/-- A read transfer of the sector has passed and delivered the data. -/
def Delivered (completed : List Completion) (sector : UInt32) (data : Sector) : Prop :=
  ∃ x ∈ completed, (∃ dst, x.job.transfer = .read dst sector) ∧ x.passed = true ∧ x.data = data

/-- What a call has to show for the result 0. -/
def Traffic.Earned (x : Traffic) : Call → Prop
  | .read sector _ => Delivered x.completed sector x.buff
  | .write sector data => ∃ y ∈ x.completed, y.job = ⟨x.calls, .write sector data⟩ ∧ y.passed = true

/-- A call that returns 0 reports a transfer of its own. -/
def Cores.Reports (w : Cores) : Prop := ∀ c, w.returned = some (c, 0) → w.shared.Earned c

/-- Core 1 leaves the wait for a prefetch, or TinyUSB accepts a transfer, as the call expects: a matching
tag and result speak of a prefetch that has passed, and nothing has completed since the call has reset
`complete`. -/
def Shared.Expected (s : Shared) (accepted : Bool) : Call → MscOp → Prop
  | .read sector _, .spin .prefetchingComplete =>
      s.prefetchingLba = sector → s.settled .result = false → s.prefetch = .passed
  | _, .write10 _ _ => accepted = true → s.settled .complete = false
  | _, _ => True

/-- The flag that an operation reads or stores. -/
def MscOp.flag : MscOp → Option Flag
  | .load f => some f
  | .store f _ => some f
  | .spin f => some f
  | _ => none

/-- The callback at work has still to store the flag. -/
def Shared.Pending (s : Shared) (f : Flag) : Prop := ∃ x ∈ s.stores, x.1 = f

/-- The event mistakes no transfer for another. Core 1 touches no flag that the callback at work has still
to store; a transfer completes only while no other is under way, and does not pass while a call goes on
whose own transfer has failed. -/
def Apart : UsbEvent → Cores → Prop
  | .op accepted, ⟨s, some (c, .op o _)⟩ =>
      (∀ f, o.flag = some f → ¬ s.Pending f) ∧ s.Expected accepted c o
  | .complete _ passed _, ⟨s, some (_, .op _ _)⟩ =>
      s.underWay.length = 1 ∧ (OwnCompleted s.completed s.calls false → passed = false)
  | .complete _ _ _, ⟨s, _⟩ => s.underWay.length = 1
  | _, _ => True

instance (s : Shared) (f : Flag) : Decidable (s.Pending f) :=
  inferInstanceAs (Decidable (∃ x ∈ s.stores, x.1 = f))

instance (s : Shared) (accepted : Bool) : (c : Call) → (o : MscOp) → Decidable (s.Expected accepted c o)
  | .read sector _, .spin .prefetchingComplete => inferInstanceAs (Decidable
      (s.prefetchingLba = sector → s.settled .result = false → s.prefetch = .passed))
  | .read _ _, .write10 _ _ | .write _ _, .write10 _ _ =>
      inferInstanceAs (Decidable (accepted = true → s.settled .complete = false))
  | .read _ _, .load _ | .read _ _, .store _ _ | .read _ _, .spin .usbDiskInserted
  | .read _ _, .spin .usbDiskInsertEvent | .read _ _, .spin .complete | .read _ _, .spin .result
  | .read _ _, .loadLba | .read _ _, .storeLba _ | .read _ _, .copyPrefetch | .read _ _, .read10 _ _
  | .write _ _, .load _ | .write _ _, .store _ _ | .write _ _, .spin _ | .write _ _, .loadLba
  | .write _ _, .storeLba _ | .write _ _, .copyPrefetch | .write _ _, .read10 _ _ => .isTrue trivial

instance : (e : UsbEvent) → (w : Cores) → Decidable (Apart e w)
  | .op accepted, ⟨s, some (c, .op o _)⟩ => inferInstanceAs (Decidable
      ((∀ f ∈ o.flag, ¬ s.Pending f) ∧ s.Expected accepted c o))
  | .complete _ passed _, ⟨s, some (_, .op _ _)⟩ => inferInstanceAs (Decidable
      (s.underWay.length = 1 ∧
        ((∃ x ∈ s.completed, x.job.call = s.calls ∧ x.job.transfer.isPrefetch = false ∧
          x.passed = false) → passed = false)))
  | .complete _ _ _, ⟨s, none⟩ | .complete _ _ _, ⟨s, some (_, .ret _)⟩ =>
      inferInstanceAs (Decidable (s.underWay.length = 1))
  | .op _, ⟨_, none⟩ | .op _, ⟨_, some (_, .ret _)⟩ | .call _, _ | .store, _ | .mount, _ | .umount, _ =>
      .isTrue trivial

end Outcomes

end LptStore.Msc
