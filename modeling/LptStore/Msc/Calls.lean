import LptStore.Msc.Coherence

/-!
# Calls to the sector layer, with a stick and without

Between two calls nothing is under way and the last transfer has passed. Without a stick a call
returns at once; with one it returns as in `Usb.call_read` and `Usb.call_write`, unless a prefetch was
lost when the stick before was pulled: `read_sector` then waits for ever for its completion.
-/

namespace LptStore.Msc

open LptStore.Lib

variable {w w' : Usb} {sched : Nat → Bool} {sector : UInt32} {old : Sector} {r : Int}

theorem readSector_absent (hp : w.pending = []) (hi : w.flags .usbDiskInserted = false) :
    (readSector sector).exec (Usb.answer sched) w = some (1, { w with clock := w.clock + 1 }) := by
  simp [readSector, load, Prog.exec, Usb.answer, Usb.perform, Usb.tick_of_nil hp, hi]

theorem writeSector_absent {data : Sector} (hp : w.pending = [])
    (hi : w.flags .usbDiskInserted = false) :
    (writeSector sector data).exec (Usb.answer sched) w =
      some (1, { w with clock := w.clock + 1 }) := by
  simp [writeSector, load, Prog.exec, Usb.answer, Usb.perform, Usb.tick_of_nil hp, hi]

/-- A prefetch that was lost is waited for in vain. -/
theorem readSector_waits (hp : w.pending = []) (hi : w.flags .usbDiskInserted = true)
    (hc : w.flags .prefetchingComplete = false) :
    (readSector sector).exec (Usb.answer sched) w = none := by
  have hsettle : ∀ v : Usb, v.pending = [] → v.settle = v := by
    intro v hv
    obtain ⟨flags, lba, copy, buff, medium, pending, clock⟩ := v
    cases hv
    rfl
  have htick : ({ w with clock := w.clock + 1 } : Usb).settle = { w with clock := w.clock + 1 } :=
    hsettle _ hp
  simp [readSector, load, spin, Prog.exec, Usb.answer, Usb.perform, Usb.tick_of_nil hp, hi, hc, htick]

theorem ready_of_readSector (hp : w.pending = []) (hr : w.flags .result = false)
    (hi : w.flags .usbDiskInserted = true)
    (h : (readSector sector).exec (Usb.answer sched) { w with buff := old } = some (r, w')) :
    w.Ready := by
  refine ⟨hp, hi, hr, ?_⟩
  by_contra hc
  rw [readSector_waits (w := { w with buff := old }) hp hi (Bool.eq_false_iff.mpr hc)] at h
  cases h

/-- A call to `read_sector` with no stick: nothing but the clock changes. -/
theorem call_read_absent {data : Sector} (hp : w.pending = [])
    (hi : w.flags .usbDiskInserted = false)
    (h : w.call sched (.read sector old) = some (.read r data, w')) :
    w' = { w with buff := old, clock := w.clock + 1 } := by
  simp only [Usb.call] at h
  rw [readSector_absent (w := { w with buff := old }) hp hi] at h
  cases h
  obtain ⟨flags, lba, copy, buff, medium, pending, clock⟩ := w
  cases hp
  rfl

/-- A call to `read_sector` with the stick in: the copy or the medium. -/
theorem call_read_inserted {data : Sector} (hp : w.pending = []) (hr : w.flags .result = false)
    (hi : w.flags .usbDiskInserted = true)
    (h : w.call sched (.read sector old) = some (.read r data, w')) :
    w.Ready ∧ r = 0 ∧
      data = (if w.prefetchingLba = sector then w.prefetchingBuff else w.medium sector) ∧
      w'.Ready ∧ w'.medium = w.medium ∧ w'.prefetchingLba = sector + 1 ∧
      w'.prefetchingBuff = w.medium (sector + 1) := by
  have hready : w.Ready := by
    simp only [Usb.call] at h
    rcases Option.map_eq_some_iff.mp h with ⟨⟨r', v⟩, hexec, -⟩
    exact ready_of_readSector hp hr hi hexec
  rcases Usb.call_read sched sector old hready with ⟨v, hcall, hrest⟩
  rw [hcall] at h
  cases h
  exact ⟨hready, rfl, rfl, hrest⟩

theorem call_write_absent {data : Sector} (hp : w.pending = [])
    (hi : w.flags .usbDiskInserted = false)
    (h : w.call sched (.write sector data) = some (.write r, w')) :
    w' = { w with clock := w.clock + 1 } := by
  simp only [Usb.call] at h
  rw [writeSector_absent hp hi] at h
  cases h
  obtain ⟨flags, lba, copy, buff, medium, pending, clock⟩ := w
  cases hp
  rfl

end LptStore.Msc
