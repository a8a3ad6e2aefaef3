import LptStore.Lib.Trace
import LptStore.Msc.Interleave

/-!
# The wait for a prefetch

`read_sector` clears `prefetching_complete` before it asks for the prefetch, and the next call waits
for the flag. Here a stick that is pulled takes its transfers with it, and none is accepted without a
stick. The flag is always waiting for a callback as long as a prefetch is not refused, and no stick
pulled, while nothing else would set it.
-/

namespace LptStore.Msc

open LptStore.Lib Function

/-- The stick is pulled: what is under way never completes. -/
def Traffic.drop (x : Traffic) : Traffic :=
  { x with
    underWay := []
    prefetch := if x.prefetch = .underWay then .failed else x.prefetch }

/-- `usb_disk_inserted`, which `tuh_msc_mount_cb` and `tuh_msc_umount_cb` keep. -/
def Shared.inserted (s : Shared) : Bool := s.flags .usbDiskInserted

/-- A transfer is outstanding on the stick attached, or its callback has still to set
`prefetching_complete`. -/
def Shared.Outstanding (s : Shared) : Prop :=
  s.inserted = true ∧ (s.underWay ≠ [] ∨ s.Pending .prefetchingComplete)

/-- `prefetching_complete` is 1, or a callback that sets it is to come. -/
def Shared.Awaited (s : Shared) : Prop :=
  s.flags .prefetchingComplete = true ∨ s.Outstanding

namespace Cores

/-- The state after an event, if it can happen: TinyUSB accepts transfers only for a stick that is
attached. -/
def nextPlugged : UsbEvent → Cores → Option Cores
  | .op true, w => if w.shared.inserted then w.next (.op true) else none
  | .mount, w => if w.shared.inserted then none else w.next .mount
  | .umount, w =>
      if w.shared.inserted then
        (w.next .umount).map fun w' =>
          { w' with shared := { w'.shared with toTraffic := w'.shared.drop } }
      else none
  | e, w => w.next e

/-- The event takes one state to the other. -/
def StepPlugged (e : UsbEvent) (w w' : Cores) : Prop := w.nextPlugged e = some w'

/-- A call is executing. -/
def Executing (w : Cores) : Prop := ∃ c o k, w.core1 = some (c, .op o k)

/-- Core 1 waits at the start of `read_sector`. -/
def Spinning (w : Cores) : Prop := ∃ c k, w.core1 = some (c, .op (.spin .prefetchingComplete) k)

/-- The next operation of core 1 asks for a prefetch. -/
def AtPrefetch (w : Cores) : Prop :=
  ∃ c sector k, w.core1 = some (c, .op (.read10 .prefetchingBuff sector) k)

/-- The wait for the prefetch has something to wait for. -/
def PrefetchComes (w : Cores) : Prop := ¬ w.Executing ∨ w.Spinning → w.shared.Awaited

end Cores

/-- No prefetch is refused, and no stick pulled, while `prefetching_complete` is 0 and nothing else
would set it. -/
def Unbroken : UsbEvent → Cores → Prop
  | .op accepted, w => w.AtPrefetch → accepted = true ∨ w.shared.Awaited
  | .umount, w => w.AtPrefetch ∨ w.shared.flags .prefetchingComplete = true
  | _, _ => True

/-- What a call does to the flags: `prefetching_complete` is cleared right before a prefetch is asked
for, and those that the callbacks of a stick set are left alone. -/
def Announced : (o : MscOp) → (MscResp o → MscProg Int) → Prop
  | .store .prefetchingComplete false, k =>
      ∃ sector k', k () = .op (.read10 .prefetchingBuff sector) k'
  | .store .usbDiskInserted _, _ => False
  | .store .usbDiskInsertEvent _, _ => False
  | _, _ => True

section Programs

theorem startPrefetch_announced (sector : UInt32) :
    (startPrefetch sector).Throughout Announced := by
  refine ⟨trivial, fun _ => ⟨⟨_, _, rfl⟩, fun _ => ⟨trivial, fun accepted => ?_⟩⟩⟩
  cases accepted with
  | true => exact ⟨trivial, fun _ => trivial⟩
  | false => trivial

theorem readDirect_announced (sector : UInt32) : (readDirect sector).Throughout Announced := by
  refine ⟨trivial, fun _ => ⟨trivial, fun accepted => ?_⟩⟩
  cases accepted with
  | true => exact ⟨trivial, fun _ => startPrefetch_announced sector⟩
  | false => trivial

theorem readSector_announced (sector : UInt32) : (readSector sector).Throughout Announced := by
  refine ⟨trivial, fun inserted => ?_⟩
  cases inserted with
  | false => trivial
  | true =>
    refine ⟨trivial, fun _ => ⟨trivial, fun lba => ?_⟩⟩
    show Prog.Throughout Announced (if lba = sector then _ else _)
    by_cases hlba : lba = sector
    · rw [if_pos hlba]
      refine ⟨trivial, fun failed => ?_⟩
      cases failed with
      | true => exact readDirect_announced sector
      | false => exact ⟨trivial, fun _ => startPrefetch_announced sector⟩
    · rw [if_neg hlba]
      exact readDirect_announced sector

theorem writeSector_announced (sector : UInt32) (data : Sector) :
    (writeSector sector data).Throughout Announced := by
  refine ⟨trivial, fun inserted => ?_⟩
  cases inserted with
  | false => trivial
  | true =>
    refine ⟨trivial, fun _ => ⟨trivial, fun accepted => ?_⟩⟩
    cases accepted with
    | true => exact ⟨trivial, fun _ => ⟨trivial, fun _ => trivial⟩⟩
    | false => trivial

theorem prog_announced (c : Call) : c.prog.Throughout Announced := by
  cases c with
  | read sector buff => exact readSector_announced sector
  | write sector data => exact writeSector_announced sector data

end Programs

/-- What holds in every state: the flag is 0 for a callback to come or for a prefetch that is about to
be asked for, and without a stick nothing is outstanding. -/
structure Cores.Waits (w : Cores) : Prop where
  announced : ∀ c p, w.core1 = some (c, p) → p.Throughout Announced
  attached : w.shared.underWay ≠ [] ∨ w.shared.stores ≠ [] → w.shared.inserted = true
  stores : ∃ passed, w.shared.stores <:+ callbackStores passed
  awaited : w.AtPrefetch ∨ w.shared.Awaited

section Steps

variable {w w' : Cores} {s t : Shared}

theorem waits_initial : Cores.initial.Waits where
  announced c p h := by cases h
  attached h := by
    rcases h with h | h
    · exact absurd rfl h
    · exact absurd rfl h
  stores := ⟨true, List.nil_suffix⟩
  awaited := .inr (.inl rfl)

theorem Cores.Waits.prefetchComes (h : w.Waits) : w.PrefetchComes := by
  intro hwait
  refine h.awaited.resolve_left ?_
  rintro ⟨c, sector, k, hcore⟩
  rcases hwait with hidle | ⟨c', k', hspin⟩
  · exact hidle ⟨c, _, k, hcore⟩
  · rw [hcore] at hspin
    cases hspin

/-- What the flag waits for is still there. -/
theorem Shared.Awaited.of_eq (h : s.Awaited) (hunder : t.underWay = s.underWay)
    (hstores : t.stores = s.stores) (hflags : t.flags .prefetchingComplete =
      s.flags .prefetchingComplete) (hinserted : t.inserted = s.inserted) : t.Awaited := by
  unfold Shared.Awaited Shared.Outstanding Shared.Pending at h ⊢
  rw [hunder, hstores, hflags, hinserted]
  exact h

/-- A request that is accepted is outstanding. -/
theorem Shared.Awaited.of_request (transfer : Transfer) (hinserted : s.inserted = true) :
    Shared.Awaited { s with toTraffic := s.request true transfer } := by
  refine .inr ⟨hinserted, .inl ?_⟩
  show s.underWay ++ [_] ≠ []
  exact List.append_ne_nil_of_right_ne_nil _ (List.cons_ne_nil _ _)

theorem Shared.Awaited.request (h : s.Awaited) (accepted : Bool) (transfer : Transfer)
    (hinserted : accepted = true → s.inserted = true) :
    Shared.Awaited { s with toTraffic := s.request accepted transfer } := by
  cases accepted with
  | true => exact .of_request transfer (hinserted rfl)
  | false => exact h.of_eq rfl rfl rfl rfl

/-- What an operation of core 1 leaves of what the two cores share. -/
structure Shared.Frame (s t : Shared) : Prop where
  inserted : t.inserted = s.inserted
  stores : t.stores = s.stores
  underWay : t.underWay ≠ [] → s.underWay ≠ [] ∨ s.inserted = true

theorem frame_request (accepted : Bool) (transfer : Transfer)
    (hinserted : accepted = true → s.inserted = true) :
    s.Frame { s with toTraffic := s.request accepted transfer } := by
  refine ⟨rfl, rfl, fun hunder => ?_⟩
  cases accepted with
  | true => exact .inr (hinserted rfl)
  | false => exact .inl hunder

theorem perform_frame {accepted : Bool} {o : MscOp} {k : MscResp o → MscProg Int} {r : MscResp o}
    (hinserted : accepted = true → s.inserted = true) (hann : Announced o k)
    (hperform : s.perform accepted o = some (r, t)) : s.Frame t := by
  cases o with
  | store f b =>
    cases hperform
    match f, hann with
    | .complete, _ => exact ⟨rfl, rfl, .inl⟩
    | .result, _ => exact ⟨rfl, rfl, .inl⟩
    | .prefetchingComplete, _ => exact ⟨rfl, rfl, .inl⟩
  | spin f =>
    rcases Option.ite_none_right_eq_some.mp hperform with ⟨-, heq⟩
    cases heq
    exact ⟨rfl, rfl, .inl⟩
  | read10 dst sector =>
    cases hperform
    exact frame_request accepted _ hinserted
  | write10 sector data =>
    cases hperform
    exact frame_request accepted _ hinserted
  | _ =>
    cases hperform
    exact ⟨rfl, rfl, .inl⟩

/-- Core 1 does one operation. -/
theorem awaited_perform {accepted : Bool} {c : Call} {o : MscOp} {k : MscResp o → MscProg Int}
    {r : MscResp o} (hok : Unbroken (.op accepted) ⟨s, some (c, .op o k)⟩)
    (hann : Announced o k) (hinserted : accepted = true → s.inserted = true)
    (h : Cores.AtPrefetch ⟨s, some (c, .op o k)⟩ ∨ s.Awaited)
    (hperform : s.perform accepted o = some (r, t)) :
    Cores.AtPrefetch ⟨t, some (c, k r)⟩ ∨ t.Awaited := by
  have hstays (hnot : ¬ ∃ sector, o = .read10 .prefetchingBuff sector) : s.Awaited := by
    refine h.resolve_left ?_
    rintro ⟨c', sector, k', hcore⟩
    cases hcore
    exact hnot ⟨sector, rfl⟩
  cases o with
  | load f =>
    cases hperform
    exact .inr (hstays (by simp))
  | store f b =>
    cases hperform
    have hbefore := hstays (by simp)
    match f, b, k, hann with
    | .prefetchingComplete, false, k, ⟨sector, k', hk⟩ =>
      exact .inl ⟨c, sector, k', by rw [hk]⟩
    | .prefetchingComplete, true, k, _ => exact .inr (.inl rfl)
    | .complete, _, k, _ => exact .inr (hbefore.of_eq rfl rfl rfl rfl)
    | .result, _, k, _ => exact .inr (hbefore.of_eq rfl rfl rfl rfl)
  | spin f =>
    rcases Option.ite_none_right_eq_some.mp hperform with ⟨-, heq⟩
    cases heq
    exact .inr (hstays (by simp))
  | loadLba =>
    cases hperform
    exact .inr (hstays (by simp))
  | storeLba sector =>
    cases hperform
    exact .inr ((hstays (by simp)).of_eq rfl rfl rfl rfl)
  | copyPrefetch =>
    cases hperform
    exact .inr ((hstays (by simp)).of_eq rfl rfl rfl rfl)
  | read10 dst sector =>
    cases hperform
    right
    cases dst with
    | buff => exact (hstays (by simp)).request accepted _ hinserted
    | prefetchingBuff =>
      rcases hok ⟨c, sector, k, rfl⟩ with haccepted | hbefore
      · subst haccepted
        exact .of_request _ (hinserted rfl)
      · exact hbefore.request accepted _ hinserted
  | write10 sector data =>
    cases hperform
    exact .inr ((hstays (by simp)).request accepted _ hinserted)

theorem waits_op {accepted : Bool} (h : w.Waits) (hok : Unbroken (.op accepted) w)
    (hinserted : accepted = true → w.shared.inserted = true)
    (hnext : w.next (.op accepted) = some w') : w'.Waits := by
  rcases w with ⟨s, core1⟩
  match core1, h, hok, hnext with
  | some (c, .op o k), h, hok, hnext =>
    rcases Option.map_eq_some_iff.mp hnext with ⟨⟨r, t⟩, hperform, rfl⟩
    have hann := h.announced c _ rfl
    have hawaited := awaited_perform hok hann.1 hinserted h.awaited hperform
    have hframe := perform_frame hinserted hann.1 hperform
    show Cores.Waits ⟨t, some (c, k r)⟩
    refine ⟨fun c' p hcore => ?_, fun hbusy => ?_, ?_, hawaited⟩
    · cases hcore
      exact hann.2 r
    · show t.inserted = true
      rw [hframe.inserted]
      rcases hbusy with hunder | hstores
      · exact (hframe.underWay hunder).elim (fun hbefore => h.attached (.inl hbefore)) id
      · exact h.attached (.inr (hframe.stores ▸ hstores))
    · show ∃ passed, t.stores <:+ _
      rw [hframe.stores]
      exact h.stores

/-- A call begins while core 1 executes none. -/
theorem waits_enter (c : Call) (h : w.Waits) (hidle : ¬ w.Executing) :
    Cores.Waits ⟨{ w.shared with toTraffic := w.shared.enter c }, some (c, c.prog)⟩ := by
  have hunder : (w.shared.enter c).underWay = w.shared.underWay := by cases c <;> rfl
  have hawaited : Shared.Awaited { w.shared with toTraffic := w.shared.enter c } :=
    (h.prefetchComes (.inl hidle)).of_eq hunder rfl rfl rfl
  refine ⟨fun c' p hcore => ?_, fun hbusy => ?_, h.stores, .inr hawaited⟩
  · cases hcore
    exact prog_announced c
  · exact h.attached (hbusy.imp_left fun hne => hunder ▸ hne)

theorem waits_call {c : Call} (h : w.Waits) (hnext : w.next (.call c) = some w') : w'.Waits := by
  simp only [Cores.next] at hnext
  split at hnext
  · cases hnext
  · next hidle =>
    cases hnext
    exact waits_enter c h fun ⟨c', o, k, hcore⟩ => hidle c' o k hcore

theorem waits_complete {i : Nat} {passed : Bool} {data : Sector} (h : w.Waits)
    (hnext : w.next (.complete i passed data) = some w') : w'.Waits := by
  simp only [Cores.next] at hnext
  split at hnext
  · next job hstores hjob =>
    cases hnext
    have hinserted : w.shared.inserted = true := by
      refine h.attached (.inl fun hnone => ?_)
      rw [hnone] at hjob
      cases hjob
    refine ⟨h.announced, fun _ => hinserted, ⟨passed, List.suffix_rfl⟩, .inr (.inr ?_)⟩
    exact ⟨hinserted, .inr ⟨(.prefetchingComplete, true), by simp [callbackStores], rfl⟩⟩
  · cases hnext

/-- The callback does not clear the flag. -/
theorem mem_callbackStores {passed : Bool} {x : Flag × Bool} (hx : x ∈ callbackStores passed) :
    Flag.usbDiskInserted ≠ x.1 ∧ (x.1 = .prefetchingComplete → x.2 = true) := by
  simp only [callbackStores, List.mem_cons, List.not_mem_nil, or_false] at hx
  rcases hx with rfl | rfl | rfl
  · exact ⟨nofun, nofun⟩
  · exact ⟨nofun, fun _ => rfl⟩
  · exact ⟨nofun, nofun⟩

theorem waits_store (h : w.Waits) (hnext : w.next .store = some w') : w'.Waits := by
  simp only [Cores.next] at hnext
  split at hnext
  · cases hnext
  · next x rest hstores =>
    cases hnext
    rcases h.stores with ⟨passed, hsuffix⟩
    have hbusy : w.shared.stores ≠ [] := by
      rw [hstores]
      exact List.cons_ne_nil _ _
    rw [hstores] at hsuffix
    have hx := mem_callbackStores (hsuffix.subset List.mem_cons_self)
    have hkept : update w.shared.flags x.1 x.2 .usbDiskInserted = true :=
      (update_of_ne hx.1 _ _).trans (h.attached (.inr hbusy))
    refine ⟨h.announced, fun _ => hkept, ⟨passed, (List.suffix_cons x rest).trans hsuffix⟩, ?_⟩
    by_cases hflag : x.1 = .prefetchingComplete
    · refine .inr (.inl ?_)
      show update w.shared.flags x.1 x.2 .prefetchingComplete = true
      rw [hflag, update_self]
      exact hx.2 hflag
    · rcases h.awaited with hrequest | hset | ⟨-, hunder | ⟨y, hy, hyflag⟩⟩
      · exact .inl hrequest
      · exact .inr (.inl ((update_of_ne (Ne.symm hflag) _ _).trans hset))
      · exact .inr (.inr ⟨hkept, .inl hunder⟩)
      · rw [hstores] at hy
        rcases List.mem_cons.mp hy with rfl | hy
        · exact absurd hyflag hflag
        · exact .inr (.inr ⟨hkept, .inr ⟨y, hy, hyflag⟩⟩)

theorem waits_mount (h : w.Waits) (hnone : w.shared.inserted = false)
    (hnext : w.next .mount = some w') : w'.Waits := by
  rcases Option.ite_none_right_eq_some.mp hnext with ⟨-, heq⟩
  cases heq
  refine ⟨h.announced, fun _ => rfl, h.stores, ?_⟩
  rcases h.awaited with hrequest | hflag | ⟨hinserted, -⟩
  · exact .inl hrequest
  · exact .inr (.inl hflag)
  · rw [hnone] at hinserted
    cases hinserted

theorem waits_umount (h : w.Waits) (hok : Unbroken .umount w) (hnext : w.next .umount = some w') :
    Cores.Waits { w' with shared := { w'.shared with toTraffic := w'.shared.drop } } := by
  rcases Option.ite_none_right_eq_some.mp hnext with ⟨hempty, heq⟩
  cases heq
  refine ⟨h.announced, fun hbusy => ?_, h.stores, ?_⟩
  · rcases hbusy with hunder | hstores
    · exact absurd rfl hunder
    · exact absurd (List.isEmpty_iff.mp hempty) hstores
  · rcases hok with hrequest | hflag
    · exact .inl hrequest
    · exact .inr (.inl hflag)

theorem waits_next {e : UsbEvent} (h : w.Waits) (hok : Unbroken e w)
    (hstep : Cores.StepPlugged e w w') : w'.Waits := by
  cases e with
  | call c => exact waits_call h hstep
  | op accepted =>
    cases accepted with
    | false => exact waits_op h hok (fun haccepted => by cases haccepted) hstep
    | true =>
      rcases Option.ite_none_right_eq_some.mp hstep with ⟨hinserted, hnext⟩
      exact waits_op h hok (fun _ => hinserted) hnext
  | complete i passed data => exact waits_complete h hstep
  | store => exact waits_store h hstep
  | mount =>
    rcases Option.ite_none_left_eq_some.mp hstep with ⟨hnone, hnext⟩
    exact waits_mount h (Bool.eq_false_iff.mpr hnone) hnext
  | umount =>
    rcases Option.ite_none_right_eq_some.mp hstep with ⟨-, hnext⟩
    rcases Option.map_eq_some_iff.mp hnext with ⟨u, hu, rfl⟩
    exact waits_umount h hok hu

end Steps

section Runs

variable {w : Cores}

/-- In every run in which no prefetch is refused and no stick pulled while nothing else would set the
flag, the wait for a prefetch has something to wait for. -/
theorem prefetch_comes (hrun : Run Cores.StepPlugged Unbroken Cores.initial w) : w.PrefetchComes :=
  Cores.Waits.prefetchComes (hrun.invariant (fun _ _ _ h hok hstep => waits_next h hok hstep)
    waits_initial)

/-- Sector 0 is read, and TinyUSB answers the request for the prefetch of sector 1. -/
def readFirst (prefetched : Bool) : List UsbEvent :=
  [.mount, .call (.read 0 .zero), .op true, .op true, .op true, .op true, .op true,
    .complete 0 true .zero, .store, .store, .store, .op true, .op true, .op true, .op prefetched]

/-- Every request is accepted and no stick pulled. -/
def smooth : UsbEvent → Bool
  | .op accepted => accepted
  | .umount => false
  | _ => true

theorem unbroken_of_smooth (e : UsbEvent) (w : Cores) (h : smooth e = true) : Unbroken e w := by
  cases e with
  | op accepted => exact fun _ => .inl h
  | umount => cases h
  | _ => trivial

/-- The prefetch is under way when the call has returned. -/
theorem prefetch_comes_first : ∃ w : Cores, w.shared.flags .prefetchingComplete = false ∧
    w.shared.underWay = [⟨1, .read .prefetchingBuff 1⟩] ∧ w.PrefetchComes := by
  have hplay : ∃ w, play Cores.nextPlugged (fun e _ => smooth e) (readFirst true) Cores.initial =
      some w ∧ w.shared.flags .prefetchingComplete = false ∧
      w.shared.underWay = [⟨1, .read .prefetchingBuff 1⟩] := ⟨_, rfl, rfl, rfl⟩
  rcases hplay with ⟨w, hplay, hflag, hunder⟩
  exact ⟨w, hflag, hunder, prefetch_comes (play_labels unbroken_of_smooth hplay)⟩

/-- The prefetch is refused: nothing will set the flag. -/
theorem refused_prefetch_waits :
    ¬ ∀ w, Run Cores.StepPlugged (fun _ _ => True) Cores.initial w → w.PrefetchComes := by
  intro h
  have hplay : ∃ w, play Cores.nextPlugged (fun _ _ => true) (readFirst false) Cores.initial =
      some w ∧ w.core1 = some (.read 0 .zero, .ret 1) ∧
      w.shared.flags .prefetchingComplete = false ∧ w.shared.underWay = [] ∧
      w.shared.stores = [] := ⟨_, rfl, rfl, rfl, rfl, rfl⟩
  rcases hplay with ⟨w, hplay, hcore, hflag, hunder, hstores⟩
  have hrun : Run Cores.StepPlugged (fun _ _ => True) Cores.initial w :=
    play_labels (fun _ _ _ => trivial) hplay
  have hidle : ¬ w.Executing := by
    rintro ⟨c, o, k, hop⟩
    rw [hcore] at hop
    cases hop
  rcases h w hrun (.inl hidle) with hset | ⟨-, hbusy | ⟨x, hx, -⟩⟩
  · rw [hflag] at hset
    cases hset
  · exact hbusy hunder
  · rw [hstores] at hx
    cases hx

end Runs

end LptStore.Msc
