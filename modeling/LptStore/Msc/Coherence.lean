import Mathlib.Logic.Function.Basic
import LptStore.Msc.App

/-!
# Read-after-write coherence of the prefetching sector layer

One medium stays inserted and every transfer TinyUSB is given is accepted, passes and
completes before the next call begins. When exactly a completion falls between the
operations of the call that started it is left to a schedule. `readSector` serves the
prefetched copy whenever its tag matches, and `writeSector` touches neither: the copy is
stale after a write to the sector it was taken from.
-/

namespace LptStore.Msc

open LptStore.Lib Function

/-- A transfer TinyUSB has accepted and not yet completed. -/
inductive Transfer where
  | read (dst : Dst) (sector : UInt32)
  | write (sector : UInt32) (data : Sector)

/-- The variables of `msc_app.c`, the caller's buffer, the medium and the transfers under
way. `clock` counts the operations performed. -/
structure Usb where
  flags : Flag → Bool
  prefetchingLba : UInt32
  prefetchingBuff : Sector
  buff : Sector
  medium : Medium
  pending : List Transfer
  clock : Nat

/-- The data of a transfer moves and its callback runs. -/
def Usb.deliver (w : Usb) : Transfer → Usb
  | .read .buff sector =>
      { w with buff := w.medium sector, flags := mscFatCompleteCb true w.flags }
  | .read .prefetchingBuff sector =>
      { w with prefetchingBuff := w.medium sector, flags := mscFatCompleteCb true w.flags }
  | .write sector data =>
      { w with medium := update w.medium sector data, flags := mscFatCompleteCb true w.flags }

/-- Every transfer under way completes. -/
def Usb.settle (w : Usb) : Usb := { w.pending.foldl Usb.deliver w with pending := [] }

/-- One operation of core 1. A spin ends at once or when the transfers under way complete;
otherwise it never ends. -/
def Usb.perform : (o : MscOp) → Usb → Option (MscResp o × Usb)
  | .load f, w => some (w.flags f, w)
  | .store f v, w => some ((), { w with flags := update w.flags f v })
  | .spin f, w =>
      if w.flags f then some ((), w)
      else if w.settle.flags f then some ((), w.settle) else none
  | .loadLba, w => some (w.prefetchingLba, w)
  | .storeLba sector, w => some ((), { w with prefetchingLba := sector })
  | .copyPrefetch, w => some ((), { w with buff := w.prefetchingBuff })
  | .read10 dst sector, w => some (true, { w with pending := w.pending ++ [.read dst sector] })
  | .write10 sector data, w => some (true, { w with pending := w.pending ++ [.write sector data] })

/-- After each operation the schedule says whether the transfers under way complete now. -/
def Usb.tick (sched : Nat → Bool) (w : Usb) : Usb :=
  if sched w.clock then { w.settle with clock := w.clock + 1 } else { w with clock := w.clock + 1 }

/-- An operation of core 1 under a schedule of the completions. -/
def Usb.answer (sched : Nat → Bool) (o : MscOp) (w : Usb) : Option (MscResp o × Usb) :=
  (w.perform o).map fun (r, w') => (r, w'.tick sched)

/-- A call of the sector layer, `read_sector` with the previous content of its buffer. -/
inductive Call where
  | read (sector : UInt32) (buff : Sector)
  | write (sector : UInt32) (data : Sector)

/-- What a call returns, and for `read_sector` what it leaves in the buffer. -/
inductive Outcome where
  | read (r : Int) (data : Sector)
  | write (r : Int)
  deriving DecidableEq

/-- A call up to its return and the completion of the transfers it started. -/
def Usb.call (sched : Nat → Bool) : Call → Usb → Option (Outcome × Usb)
  | .read sector buff, w =>
      ((readSector sector).exec (Usb.answer sched) { w with buff := buff }).map fun (r, w') =>
        (.read r w'.buff, w'.settle)
  | .write sector data, w =>
      ((writeSector sector data).exec (Usb.answer sched) w).map fun (r, w') =>
        (.write r, w'.settle)

/-- The outcomes of a sequence of calls. -/
def Usb.calls (sched : Nat → Bool) : List Call → Usb → Option (List Outcome)
  | [], _ => some []
  | c :: cs, w =>
      match w.call sched c with
      | none => none
      | some (o, w') => (w'.calls sched cs).map (o :: ·)

/-- The state after `tuh_msc_mount_cb` on a medium: the variables as initialised
(`msc_app.c:35-42`), with `usb_disk_inserted` set. -/
def Usb.mounted (medium : Medium) : Usb where
  flags := update initialFlags .usbDiskInserted true
  prefetchingLba := 0xffffffff
  prefetchingBuff := .zero
  buff := .zero
  medium := medium
  pending := []
  clock := 0

/-- Between two calls: nothing under way, the last transfer passed, the medium inserted. -/
structure Usb.Ready (w : Usb) : Prop where
  pending : w.pending = []
  inserted : w.flags .usbDiskInserted = true
  passed : w.flags .result = false
  prefetched : w.flags .prefetchingComplete = true

theorem Usb.tick_of_nil {sched : Nat → Bool} {w : Usb} (h : w.pending = []) :
    w.tick sched = { w with clock := w.clock + 1 } := by
  obtain ⟨flags, lba, copy, buff, medium, pending, clock⟩ := w
  subst h
  simp [tick, settle]

/-- `startPrefetch` from a state with nothing under way: 0 is returned, the tag and the copy
are those of the next sector, and everything else is as it was. -/
theorem startPrefetch_exec (sched : Nat → Bool) (sector : UInt32) {w : Usb}
    (hp : w.pending = []) (hr : w.flags .result = false) (hi : w.flags .usbDiskInserted = true) :
    ∃ w', (startPrefetch sector).exec (Usb.answer sched) w = some (0, w') ∧
      w'.flags .result = false ∧ w'.buff = w.buff ∧ w'.settle.Ready ∧
      w'.settle.medium = w.medium ∧ w'.settle.prefetchingLba = sector + 1 ∧
      w'.settle.prefetchingBuff = w.medium (sector + 1) := by
  obtain ⟨flags, lba, copy, buff, medium, pending, clock⟩ := w
  subst hp
  dsimp only at hr hi
  -- the prefetch may complete before or after `result` is read, or only after the return
  by_cases h1 : sched (clock + 2) <;> by_cases h2 : sched (clock + 3) <;>
    simp [startPrefetch, returnResult, storeLba, store, tuhMscRead10, load, Prog.exec, Usb.answer,
      Usb.perform, Usb.tick, Usb.settle, Usb.deliver, h1, h2, hr, mscFatCompleteCb]
  all_goals constructor <;> simp [mscFatCompleteCb, hi]

/-- `readDirect` fetches the sector itself. -/
theorem readDirect_exec (sched : Nat → Bool) (sector : UInt32) {w : Usb}
    (hp : w.pending = []) (hi : w.flags .usbDiskInserted = true) :
    ∃ w', (readDirect sector).exec (Usb.answer sched) w = some (0, w') ∧
      w'.flags .result = false ∧ w'.buff = w.medium sector ∧ w'.settle.Ready ∧
      w'.settle.medium = w.medium ∧ w'.settle.prefetchingLba = sector + 1 ∧
      w'.settle.prefetchingBuff = w.medium (sector + 1) := by
  obtain ⟨flags, lba, copy, buff, medium, pending, clock⟩ := w
  subst hp
  by_cases h1 : sched (clock + 1) <;>
    simp [readDirect, spin, store, tuhMscRead10, Prog.exec, Usb.answer, Usb.perform, Usb.tick,
      Usb.settle, Usb.deliver, h1, mscFatCompleteCb]
  all_goals
    apply startPrefetch_exec sched sector rfl
    · simp [mscFatCompleteCb]
    · simpa [mscFatCompleteCb] using hi

/-- `read_sector` serves the prefetched copy when its tag is the sector asked for, and the
medium otherwise. -/
theorem readSector_exec (sched : Nat → Bool) (sector : UInt32) {w : Usb} (h : w.Ready) :
    ∃ w', (readSector sector).exec (Usb.answer sched) w = some (0, w') ∧
      w'.flags .result = false ∧
      w'.buff = (if w.prefetchingLba = sector then w.prefetchingBuff else w.medium sector) ∧
      w'.settle.Ready ∧ w'.settle.medium = w.medium ∧ w'.settle.prefetchingLba = sector + 1 ∧
      w'.settle.prefetchingBuff = w.medium (sector + 1) := by
  obtain ⟨flags, lba, copy, buff, medium, pending, clock⟩ := w
  obtain ⟨hp, hi, hr, hc⟩ := h
  dsimp only at hp hi hr hc
  subst hp
  by_cases hlba : lba = sector
  · simp [readSector, spin, load, loadLba, copyPrefetch, Prog.exec, Usb.answer, Usb.perform,
      Usb.tick_of_nil, hi, hr, hc, hlba]
    exact startPrefetch_exec sched sector rfl hr hi
  · simp [readSector, spin, load, loadLba, Prog.exec, Usb.answer, Usb.perform, Usb.tick_of_nil,
      hi, hc, hlba]
    exact readDirect_exec sched sector rfl hi

/-- `write_sector` changes the medium and leaves the prefetched copy and its tag alone. -/
theorem writeSector_exec (sched : Nat → Bool) (sector : UInt32) (data : Sector) {w : Usb}
    (h : w.Ready) :
    ∃ w', (writeSector sector data).exec (Usb.answer sched) w = some (0, w') ∧
      w'.settle.Ready ∧ w'.settle.medium = update w.medium sector data ∧
      w'.settle.prefetchingLba = w.prefetchingLba ∧
      w'.settle.prefetchingBuff = w.prefetchingBuff := by
  obtain ⟨flags, lba, copy, buff, medium, pending, clock⟩ := w
  obtain ⟨hp, hi, hr, hc⟩ := h
  dsimp only at hp hi hr hc
  subst hp
  by_cases h1 : sched (clock + 2) <;>
    simp [writeSector, returnResult, spin, load, store, tuhMscWrite10, Prog.exec, Usb.answer,
      Usb.perform, Usb.tick, Usb.settle, Usb.deliver, h1, hi, mscFatCompleteCb]
  all_goals constructor <;> simp [mscFatCompleteCb, hi]

theorem Usb.mounted_ready (medium : Medium) : (Usb.mounted medium).Ready := by
  constructor <;> simp [mounted, initialFlags]

/-- A call between two ready states, in terms of the medium, the tag and the copy. -/
theorem Usb.call_read (sched : Nat → Bool) (sector : UInt32) (buff : Sector) {w : Usb}
    (h : w.Ready) :
    ∃ w', w.call sched (.read sector buff) =
        some (.read 0 (if w.prefetchingLba = sector then w.prefetchingBuff else w.medium sector), w') ∧
      w'.Ready ∧ w'.medium = w.medium ∧ w'.prefetchingLba = sector + 1 ∧
      w'.prefetchingBuff = w.medium (sector + 1) := by
  obtain ⟨w', hrun, -, hbuff, hready, hmedium, htag, hcopy⟩ :=
    readSector_exec sched sector (w := { w with buff := buff }) ⟨h.1, h.2, h.3, h.4⟩
  refine ⟨w'.settle, ?_, hready, hmedium, htag, hcopy⟩
  simp only [call, hrun, Option.map_some, hbuff]

theorem Usb.call_write (sched : Nat → Bool) (sector : UInt32) (data : Sector) {w : Usb}
    (h : w.Ready) :
    ∃ w', w.call sched (.write sector data) = some (.write 0, w') ∧ w'.Ready ∧
      w'.medium = update w.medium sector data ∧ w'.prefetchingLba = w.prefetchingLba ∧
      w'.prefetchingBuff = w.prefetchingBuff := by
  obtain ⟨w', hrun, hready, hmedium, htag, hcopy⟩ := writeSector_exec sched sector data h
  refine ⟨w'.settle, ?_, hready, hmedium, htag, hcopy⟩
  simp only [call, hrun, Option.map_some]

/-- The content of the medium after some calls: the latest write to each block. -/
def latest (medium : Medium) : List Call → Medium
  | [] => medium
  | .read _ _ :: cs => latest medium cs
  | .write sector data :: cs => latest (update medium sector data) cs

/-- What the calls return, in terms of the medium, the tag and the copy. -/
def served (medium : Medium) (tag : UInt32) (copy : Sector) : List Call → List Outcome
  | [] => []
  | .read sector _ :: cs =>
      .read 0 (if tag = sector then copy else medium sector) ::
        served medium (sector + 1) (medium (sector + 1)) cs
  | .write sector data :: cs => .write 0 :: served (update medium sector data) tag copy cs

theorem Usb.calls_eq_served (sched : Nat → Bool) (cs : List Call) {w : Usb} (h : w.Ready) :
    w.calls sched cs = some (served w.medium w.prefetchingLba w.prefetchingBuff cs) := by
  induction cs generalizing w with
  | nil => rfl
  | cons c cs ih =>
    cases c with
    | read sector buff =>
      obtain ⟨w', hcall, hready, hmedium, htag, hcopy⟩ := Usb.call_read sched sector buff h
      simp only [calls, hcall, ih hready, hmedium, htag, hcopy, served, Option.map_some]
    | write sector data =>
      obtain ⟨w', hcall, hready, hmedium, htag, hcopy⟩ := Usb.call_write sched sector data h
      simp only [calls, hcall, ih hready, hmedium, htag, hcopy, served, Option.map_some]

/-- Every `read_sector` returns 0 and the latest content of its sector. -/
def ReadsLatest (medium : Medium) (cs : List Call) (os : List Outcome) : Prop :=
  ∀ i sector buff, cs[i]? = some (Call.read sector buff) →
    os[i]? = some (Outcome.read 0 (latest medium (cs.take i) sector))

/-- Call `j` is the first read after call `i`. -/
def NextRead (cs : List Call) (i j : Nat) : Prop :=
  i < j ∧ ∀ k, i < k → k < j → ∃ sector data, cs[k]? = some (Call.write sector data)

/-- Call `j` is the first read of all. -/
def FirstRead (cs : List Call) (j : Nat) : Prop :=
  ∀ k, k < j → ∃ sector data, cs[k]? = some (Call.write sector data)

/-- No read of a sector finds a copy of it that the writes since have outdated: between a
read of sector `s` and the read of `s + 1` that follows it, the writes leave `s + 1` as it
was. -/
def KeepsNext (medium : Medium) (cs : List Call) : Prop :=
  ∀ i j sector buff buff', NextRead cs i j → cs[i]? = some (Call.read sector buff) →
    cs[j]? = some (Call.read (sector + 1) buff') →
    latest medium (cs.take j) (sector + 1) = latest medium (cs.take i) (sector + 1)

/-- The first read of all, when it is of the sector the tag starts with, expects the copy
the buffer starts with. -/
def KeepsFirst (medium : Medium) (tag : UInt32) (copy : Sector) (cs : List Call) : Prop :=
  ∀ j buff, FirstRead cs j → cs[j]? = some (Call.read tag buff) →
    latest medium (cs.take j) tag = copy

theorem readsLatest_read (medium : Medium) (sector : UInt32) (buff : Sector) (cs : List Call)
    (o : Outcome) (os : List Outcome) :
    ReadsLatest medium (.read sector buff :: cs) (o :: os) ↔
      o = .read 0 (medium sector) ∧ ReadsLatest medium cs os := by
  constructor
  · intro h
    refine ⟨?_, fun i sector' buff' hi => ?_⟩
    · simpa [latest] using h 0 sector buff rfl
    · simpa [latest] using h (i + 1) sector' buff' hi
  · rintro ⟨rfl, h⟩ i sector' buff' hi
    cases i with
    | zero =>
      obtain ⟨rfl, rfl⟩ : sector = sector' ∧ buff = buff' := by simpa using hi
      rfl
    | succ i => exact h i sector' buff' hi

theorem readsLatest_write (medium : Medium) (sector : UInt32) (data : Sector) (cs : List Call)
    (o : Outcome) (os : List Outcome) :
    ReadsLatest medium (.write sector data :: cs) (o :: os) ↔
      ReadsLatest (update medium sector data) cs os := by
  constructor
  · intro h i sector' buff' hi
    simpa [latest] using h (i + 1) sector' buff' hi
  · intro h i sector' buff' hi
    cases i with
    | zero => simp at hi
    | succ i => exact h i sector' buff' hi

theorem firstRead_write (sector : UInt32) (data : Sector) (cs : List Call) (j : Nat) :
    FirstRead (.write sector data :: cs) (j + 1) ↔ FirstRead cs j := by
  constructor
  · intro h k hk
    simpa using h (k + 1) (by omega)
  · intro h k hk
    cases k with
    | zero => exact ⟨sector, data, rfl⟩
    | succ k => simpa using h k (by omega)

theorem nextRead_succ (c : Call) (cs : List Call) (i j : Nat) :
    NextRead (c :: cs) (i + 1) (j + 1) ↔ NextRead cs i j := by
  constructor
  · rintro ⟨hij, h⟩
    refine ⟨by omega, ?_⟩
    intro k hik hkj
    simpa using h (k + 1) (by omega) (by omega)
  · rintro ⟨hij, h⟩
    refine ⟨by omega, ?_⟩
    intro k hik hkj
    obtain ⟨k, rfl⟩ := Nat.exists_eq_succ_of_ne_zero (show k ≠ 0 by omega)
    simpa using h k (by omega) (by omega)

theorem nextRead_zero (c : Call) (cs : List Call) (j : Nat) :
    NextRead (c :: cs) 0 (j + 1) ↔ FirstRead cs j := by
  constructor
  · rintro ⟨-, h⟩ k hk
    simpa using h (k + 1) (by omega) (by omega)
  · intro h
    refine ⟨by omega, ?_⟩
    intro k hk hkj
    obtain ⟨k, rfl⟩ := Nat.exists_eq_succ_of_ne_zero (show k ≠ 0 by omega)
    simpa using h k (by omega)

theorem keepsFirst_read (medium : Medium) (tag : UInt32) (copy : Sector) (sector : UInt32)
    (buff : Sector) (cs : List Call) :
    KeepsFirst medium tag copy (.read sector buff :: cs) ↔ (tag = sector → medium sector = copy) := by
  constructor
  · rintro h rfl
    exact h 0 buff (fun k hk => absurd hk (by omega)) rfl
  · intro h j buff' hfirst hj
    cases j with
    | zero =>
      obtain ⟨rfl, -⟩ : sector = tag ∧ buff = buff' := by simpa using hj
      exact h rfl
    | succ j =>
      obtain ⟨_, _, hw⟩ := hfirst 0 (by omega)
      simp at hw

theorem keepsFirst_write (medium : Medium) (tag : UInt32) (copy : Sector) (sector : UInt32)
    (data : Sector) (cs : List Call) :
    KeepsFirst medium tag copy (.write sector data :: cs) ↔
      KeepsFirst (update medium sector data) tag copy cs := by
  constructor
  · intro h j buff hfirst hj
    simpa [latest] using h (j + 1) buff ((firstRead_write sector data cs j).2 hfirst) hj
  · intro h j buff hfirst hj
    cases j with
    | zero => simp at hj
    | succ j => exact h j buff ((firstRead_write sector data cs j).1 hfirst) hj

theorem keepsNext_read (medium : Medium) (sector : UInt32) (buff : Sector) (cs : List Call) :
    KeepsNext medium (.read sector buff :: cs) ↔
      KeepsFirst medium (sector + 1) (medium (sector + 1)) cs ∧ KeepsNext medium cs := by
  constructor
  · intro h
    refine ⟨fun j buff' hfirst hj => ?_, fun i j sector' buff₁ buff₂ hnext hi hj => ?_⟩
    · exact h 0 (j + 1) sector buff buff' ((nextRead_zero _ cs j).2 hfirst) rfl hj
    · exact h (i + 1) (j + 1) sector' buff₁ buff₂ ((nextRead_succ _ cs i j).2 hnext) hi hj
  · rintro ⟨hfirst, hrest⟩ i j sector' buff₁ buff₂ hnext hi hj
    obtain ⟨j, rfl⟩ := Nat.exists_eq_succ_of_ne_zero (show j ≠ 0 by have := hnext.1; omega)
    cases i with
    | zero =>
      obtain ⟨rfl, -⟩ : sector = sector' ∧ buff = buff₁ := by simpa using hi
      exact hfirst j buff₂ ((nextRead_zero _ cs j).1 hnext) hj
    | succ i => exact hrest i j sector' buff₁ buff₂ ((nextRead_succ _ cs i j).1 hnext) hi hj

theorem keepsNext_write (medium : Medium) (sector : UInt32) (data : Sector) (cs : List Call) :
    KeepsNext medium (.write sector data :: cs) ↔ KeepsNext (update medium sector data) cs := by
  constructor
  · intro h i j sector' buff₁ buff₂ hnext hi hj
    exact h (i + 1) (j + 1) sector' buff₁ buff₂ ((nextRead_succ _ cs i j).2 hnext) hi hj
  · intro h i j sector' buff₁ buff₂ hnext hi hj
    obtain ⟨j, rfl⟩ := Nat.exists_eq_succ_of_ne_zero (show j ≠ 0 by have := hnext.1; omega)
    cases i with
    | zero => simp at hi
    | succ i => exact h i j sector' buff₁ buff₂ ((nextRead_succ _ cs i j).1 hnext) hi hj

/-- The prefetching layer serves the latest contents exactly on the call sequences that
never outdate the copy before it is asked for. -/
theorem readsLatest_served (medium : Medium) (tag : UInt32) (copy : Sector) (cs : List Call) :
    ReadsLatest medium cs (served medium tag copy cs) ↔
      KeepsFirst medium tag copy cs ∧ KeepsNext medium cs := by
  induction cs generalizing medium tag copy with
  | nil => simp [ReadsLatest, KeepsFirst, KeepsNext]
  | cons c cs ih =>
    cases c with
    | read sector buff =>
      rw [served, readsLatest_read, ih, keepsFirst_read, keepsNext_read]
      have hserved : Outcome.read 0 (if tag = sector then copy else medium sector) =
          Outcome.read 0 (medium sector) ↔ (tag = sector → medium sector = copy) := by
        by_cases htag : tag = sector
        · simp [htag, eq_comm]
        · simp [htag]
      rw [hserved]
    | write sector data =>
      rw [served, readsLatest_write, ih, keepsFirst_write, keepsNext_write]

/-- Read-after-write coherence, exactly where it holds: whenever each completion falls, the
calls all return, and every read returns 0 with the latest content of its sector if and
only if the writes between a read of a sector and a directly following read of the next
sector leave that next sector as it was, and a first read of sector -1, the initial value
of the tag, is of a sector of zero bytes. -/
theorem reads_coherent_iff (sched : Nat → Bool) (medium : Medium) (cs : List Call) :
    (∃ os, (Usb.mounted medium).calls sched cs = some os ∧ ReadsLatest medium cs os) ↔
      KeepsFirst medium 0xffffffff .zero cs ∧ KeepsNext medium cs := by
  rw [Usb.calls_eq_served sched cs (Usb.mounted_ready medium)]
  simp only [Option.some.injEq, exists_eq_left']
  exact readsLatest_served medium 0xffffffff .zero cs

/-- Read 0, write 1, read 1: the second read is served the copy taken before the write. -/
theorem stale_read_after_write :
    ¬ ∃ os, (Usb.mounted fun _ => .zero).calls (fun _ => true)
        [.read 0 .zero, .write 1 (.ofFn fun _ => 0x55), .read 1 .zero] = some os ∧
      ReadsLatest (fun _ => .zero)
        [.read 0 .zero, .write 1 (.ofFn fun _ => 0x55), .read 1 .zero] os := by
  rintro ⟨os, hrun, h⟩
  have hos : [.read 0 .zero, .write 0, .read 0 .zero] = os := Option.some.inj hrun
  subst hos
  have h2 := h 2 1 .zero rfl
  have hne : ¬ ([.read 0 .zero, .write 0, .read 0 .zero] : List Outcome)[2]? =
      some (.read 0 (.ofFn fun _ => 0x55)) := by decide +kernel
  exact hne h2

end LptStore.Msc
