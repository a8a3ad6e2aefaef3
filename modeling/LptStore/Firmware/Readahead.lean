import LptStore.Lib.Trace
import LptStore.Fs.Layout
import LptStore.Msc.Coherence

/-!
# Programs over the prefetching sector layer

`fat32.c` and the drive requests call `read_sector` and `write_sector` one after the other, and what they
call next depends on what they were answered. Between two calls the layer is a medium with a copy of one
sector, whenever the transfers complete, and a program is answered as by the medium alone exactly if its
calls to the medium alone never outdate the copy. `init_disk` on a stick just mounted is.
-/

namespace LptStore.Firmware

open LptStore.Lib LptStore.Fs LptStore.Msc Function

/-- The medium, and a copy of the sector `tag`. -/
structure Prefetcher where
  medium : Medium
  tag : UInt32
  copy : Sector

/-- The calls of the sector layer, in terms of the copy. -/
def Prefetcher.answer : (o : SectorOp) → Prefetcher → Option (SectorResp o × Prefetcher)
  | .read _ sector _, c =>
      some ((0, if c.tag = sector then c.copy else c.medium sector),
        ⟨c.medium, sector + 1, c.medium (sector + 1)⟩)
  | .write sector data, c => some (0, { c with medium := update c.medium sector data })
  | .outOfFuel, _ => none

/-- The calls of the sector layer made to `msc_app.c`, under a schedule of the completions. -/
def usbAnswer (sched : Nat → Bool) : (o : SectorOp) → Usb → Option (SectorResp o × Usb)
  | .read _ sector old, w =>
      ((Msc.readSector sector).exec (Usb.answer sched) { w with buff := old }).map fun (r, w') =>
        ((r, w'.buff), w'.settle)
  | .write sector data, w =>
      ((Msc.writeSector sector data).exec (Usb.answer sched) w).map fun (r, w') => (r, w'.settle)
  | .outOfFuel, _ => none

section Usb

variable {α : Type} (sched : Nat → Bool) {w : Usb}

theorem usbAnswer_read (into : Into) (sector : UInt32) (old : Sector) (h : w.Ready) :
    ∃ w', usbAnswer sched (.read into sector old) w =
        some ((0, if w.prefetchingLba = sector then w.prefetchingBuff else w.medium sector), w') ∧
      w'.Ready ∧ w'.medium = w.medium ∧ w'.prefetchingLba = sector + 1 ∧
      w'.prefetchingBuff = w.medium (sector + 1) := by
  obtain ⟨w', hrun, -, hbuff, hready, hmedium, htag, hcopy⟩ :=
    readSector_exec sched sector (w := { w with buff := old }) ⟨h.1, h.2, h.3, h.4⟩
  refine ⟨w'.settle, ?_, hready, hmedium, htag, hcopy⟩
  simp only [usbAnswer, hrun, Option.map_some, hbuff]

theorem usbAnswer_write (sector : UInt32) (data : Sector) (h : w.Ready) :
    ∃ w', usbAnswer sched (.write sector data) w = some (0, w') ∧ w'.Ready ∧
      w'.medium = update w.medium sector data ∧ w'.prefetchingLba = w.prefetchingLba ∧
      w'.prefetchingBuff = w.prefetchingBuff := by
  obtain ⟨w', hrun, hready, hmedium, htag, hcopy⟩ := writeSector_exec sched sector data h
  refine ⟨w'.settle, ?_, hready, hmedium, htag, hcopy⟩
  simp only [usbAnswer, hrun, Option.map_some]

theorem usbAnswer_ready {o : SectorOp} {r : SectorResp o} {w' : Usb} (h : w.Ready)
    (hcall : usbAnswer sched o w = some (r, w')) : w'.Ready := by
  cases o with
  | read into sector old =>
    obtain ⟨w₁, hcall₁, hready, -⟩ := usbAnswer_read sched into sector old h
    obtain ⟨-, rfl⟩ := Prod.mk.inj (Option.some.inj (hcall₁.symm.trans hcall))
    exact hready
  | write sector data =>
    obtain ⟨w₁, hcall₁, hready, -⟩ := usbAnswer_write sched sector data h
    obtain ⟨-, rfl⟩ := Prod.mk.inj (Option.some.inj (hcall₁.symm.trans hcall))
    exact hready
  | outOfFuel => cases hcall

end Usb

section Inserted

variable {α : Type} (sched : Nat → Bool)

/-- The firmware with a stick in, between two calls of the sector layer. -/
structure Inserted where
  usb : Usb
  ready : usb.Ready

/-- A stick just mounted. -/
def Inserted.mounted (m : Medium) : Inserted := ⟨Usb.mounted m, Usb.mounted_ready m⟩

def Inserted.medium (w : Inserted) : Medium := w.usb.medium

/-- The calls of the sector layer with a stick in. -/
def Inserted.answer (sched : Nat → Bool) (o : SectorOp) (w : Inserted) :
    Option (SectorResp o × Inserted) :=
  match hcall : usbAnswer sched o w.usb with
  | none => none
  | some (r, w') => some (r, ⟨w', usbAnswer_ready sched w.ready hcall⟩)

theorem inserted_some {o : SectorOp} {r : SectorResp o} {w : Inserted} {w' : Usb}
    (hcall : usbAnswer sched o w.usb = some (r, w')) :
    w.answer sched o = some (r, ⟨w', usbAnswer_ready sched w.ready hcall⟩) := by
  unfold Inserted.answer
  split
  · next hnone => exact absurd (hcall.symm.trans hnone) nofun
  · next r₁ w₁ hsome =>
    obtain ⟨rfl, rfl⟩ := Prod.mk.inj (Option.some.inj (hcall.symm.trans hsome))
    rfl

theorem inserted_outOfFuel (w : Inserted) : w.answer sched .outOfFuel = none := by
  unfold Inserted.answer
  split
  · rfl
  · next hsome => cases hsome

/-- What the layer holds between two calls. -/
def prefetcher (w : Inserted) : Prefetcher := ⟨w.medium, w.usb.prefetchingLba, w.usb.prefetchingBuff⟩

/-- A call is answered in terms of the copy, whenever the transfers complete. -/
theorem inserted_answer (o : SectorOp) (w : Inserted) :
    (w.answer sched o).map (fun x => (x.1, prefetcher x.2)) = Prefetcher.answer o (prefetcher w) := by
  cases o with
  | read into sector old =>
    obtain ⟨w', hcall, -, hmedium, htag, hcopy⟩ :=
      usbAnswer_read sched into sector old w.ready
    rw [inserted_some sched hcall, Option.map_some]
    simp only [prefetcher, Inserted.medium, hmedium, htag, hcopy]
    rfl
  | write sector data =>
    obtain ⟨w', hcall, -, hmedium, htag, hcopy⟩ :=
      usbAnswer_write sched sector data w.ready
    rw [inserted_some sched hcall, Option.map_some]
    simp only [prefetcher, Inserted.medium, hmedium, htag, hcopy]
    rfl
  | outOfFuel =>
    rw [inserted_outOfFuel sched]
    rfl

/-- A program is answered as by the medium with its copy. -/
theorem inserted_transcript (p : SectorProg α) (w : Inserted) :
    (p.transcript (Inserted.answer sched) w).1 = (p.transcript Prefetcher.answer (prefetcher w)).1 ∧
      (p.exec (Inserted.answer sched) w).map (fun x => (x.1, prefetcher x.2)) =
        p.exec Prefetcher.answer (prefetcher w) :=
  Prog.transcript_map (inserted_answer sched) p w

end Inserted

section Alike

variable {α : Type} {c : Prefetcher}

/-- The calls of a run. -/
def callsOf (es : List (Issued SectorOp SectorResp)) : List Msc.Call :=
  es.filterMap fun e =>
    match e.1 with
    | .read _ sector old => some (.read sector old)
    | .write sector data => some (.write sector data)
    | .outOfFuel => none

/-- What a program calls on the medium alone. -/
def plainCalls (p : SectorProg α) (m : Medium) : List Msc.Call :=
  callsOf (p.transcript Bench.answer ⟨m, []⟩).1

theorem bench_transcript (p : SectorProg α) (m : Medium) (log log' : List Touch) :
    (p.transcript Bench.answer ⟨m, log⟩).1 = (p.transcript Bench.answer ⟨m, log'⟩).1 := by
  induction p generalizing m log log' with
  | ret a => rfl
  | op o k ih =>
    cases o with
    | read into sector old =>
      exact congrArg (List.cons ⟨.read into sector old, (0, m sector)⟩) (ih _ _ _ _)
    | write sector data => exact congrArg (List.cons ⟨.write sector data, (0 : Int)⟩) (ih _ _ _ _)
    | outOfFuel => rfl

theorem plainCalls_read {into : Into} {sector : UInt32} {old : Sector}
    {k : Int × Sector → SectorProg α} {m : Medium} :
    plainCalls (.op (.read into sector old) k) m = .read sector old :: plainCalls (k (0, m sector)) m := by
  unfold plainCalls
  rw [bench_transcript (k (0, m sector)) m [] [.read into sector]]
  rfl

theorem plainCalls_write {sector : UInt32} {data : Sector} {k : Int → SectorProg α} {m : Medium} :
    plainCalls (.op (.write sector data) k) m =
      .write sector data :: plainCalls (k 0) (update m sector data) := by
  unfold plainCalls
  rw [bench_transcript (k 0) (update m sector data) [] [.write sector]]
  rfl

/-- Every call of a program is answered as by the medium alone. -/
def Alike (p : SectorProg α) (c : Prefetcher) : Prop :=
  (p.transcript Prefetcher.answer c).1 = (p.transcript Bench.answer ⟨c.medium, []⟩).1

theorem alike_read {into : Into} {sector : UInt32} {old : Sector} {k : Int × Sector → SectorProg α} :
    Alike (.op (.read into sector old) k) c ↔
      (c.tag = sector → c.medium sector = c.copy) ∧
        Alike (k (0, c.medium sector)) ⟨c.medium, sector + 1, c.medium (sector + 1)⟩ := by
  have hcopy : (if c.tag = sector then c.copy else c.medium sector) = c.medium sector ↔
      (c.tag = sector → c.medium sector = c.copy) := by
    by_cases htag : c.tag = sector
    · simp [htag, eq_comm]
    · simp [htag]
  have hplain := bench_transcript (k (0, c.medium sector)) c.medium [] [.read into sector]
  unfold Alike
  rw [hplain, ← hcopy]
  constructor
  · intro h
    obtain ⟨hfirst, hrest⟩ := List.cons.inj h
    have hdata : (if c.tag = sector then c.copy else c.medium sector) = c.medium sector :=
      (Prod.mk.inj (eq_of_heq (Sigma.mk.inj hfirst).2)).2
    rw [hdata] at hrest
    exact ⟨hdata, hrest⟩
  · rintro ⟨hdata, hrest⟩
    show (_ :: _ : List _) = _ :: _
    rw [hdata, hrest]
    rfl

theorem alike_write {sector : UInt32} {data : Sector} {k : Int → SectorProg α} :
    Alike (.op (.write sector data) k) c ↔
      Alike (k 0) { c with medium := update c.medium sector data } := by
  have hplain := bench_transcript (k 0) (update c.medium sector data) [] [.write sector]
  unfold Alike
  rw [hplain]
  constructor
  · intro h
    exact (List.cons.inj h).2
  · intro h
    show (_ :: _ : List _) = _ :: _
    rw [h]
    rfl

/-- The copy is never read after a write has outdated it: by induction on the program, whose calls
depend on what it is answered. -/
theorem alike_iff (p : SectorProg α) :
    Alike p c ↔ KeepsFirst c.medium c.tag c.copy (plainCalls p c.medium) ∧
      KeepsNext c.medium (plainCalls p c.medium) := by
  induction p generalizing c with
  | ret a => simp [Alike, Prog.transcript, plainCalls, callsOf, KeepsFirst, KeepsNext]
  | op o k ih =>
    cases o with
    | read into sector old =>
      rw [alike_read, ih, plainCalls_read, keepsFirst_read, keepsNext_read]
    | write sector data =>
      rw [alike_write, ih, plainCalls_write, keepsFirst_write, keepsNext_write]
    | outOfFuel => simp [Alike, Prog.transcript, Prefetcher.answer, Bench.answer, plainCalls, callsOf,
        KeepsFirst, KeepsNext]

/-- A program answered alike returns the same and leaves the same medium. -/
theorem exec_alike (p : SectorProg α) (log : List Touch) (h : Alike p c) :
    (p.exec Prefetcher.answer c).map (fun x => (x.1, x.2.medium)) =
      (p.exec Bench.answer ⟨c.medium, log⟩).map fun x => (x.1, x.2.medium) := by
  induction p generalizing c log with
  | ret a => rfl
  | op o k ih =>
    cases o with
    | read into sector old =>
      obtain ⟨hdata, hrest⟩ := alike_read.mp h
      have hcopy : (if c.tag = sector then c.copy else c.medium sector) = c.medium sector := by
        by_cases htag : c.tag = sector
        · rw [if_pos htag, hdata htag]
        · rw [if_neg htag]
      simp only [Prog.exec, Prefetcher.answer, Bench.answer, hcopy]
      exact ih _ _ hrest
    | write sector data => exact ih _ _ (alike_write.mp h)
    | outOfFuel => rfl

/-- A program answered alike on a stick that is in. -/
theorem inserted_alike (sched : Nat → Bool) (p : SectorProg α) {w : Inserted} (h : Alike p (prefetcher w)) :
    (p.exec (Inserted.answer sched) w).map (fun x => (x.1, x.2.medium)) =
      (p.exec Bench.answer ⟨w.medium, []⟩).map fun x => (x.1, x.2.medium) := by
  obtain ⟨-, hend⟩ := inserted_transcript sched p w
  have hplain := exec_alike p [] h
  rw [← hend, Option.map_map] at hplain
  exact hplain

/-- A program on a stick that is in: whatever the schedule of the completions, every call is answered
as by the medium alone exactly if no call of the program on the medium alone reads a sector that was
changed after it had been read ahead, or, first of all, one of which the initial copy has other data,
and then the program returns what it returns on the medium alone and leaves the same medium. -/
theorem prefetched_alike_iff (sched : Nat → Bool) (p : SectorProg α) (w : Inserted) :
    ((p.transcript (Inserted.answer sched) w).1 = (p.transcript Bench.answer ⟨w.medium, []⟩).1 ↔
      KeepsFirst w.medium w.usb.prefetchingLba w.usb.prefetchingBuff (plainCalls p w.medium) ∧
        KeepsNext w.medium (plainCalls p w.medium)) ∧
    ((p.transcript (Inserted.answer sched) w).1 = (p.transcript Bench.answer ⟨w.medium, []⟩).1 →
      (p.exec (Inserted.answer sched) w).map (fun x => (x.1, x.2.medium)) =
        (p.exec Bench.answer ⟨w.medium, []⟩).map fun x => (x.1, x.2.medium)) := by
  obtain ⟨hlog, -⟩ := inserted_transcript sched p w
  rw [hlog]
  exact ⟨alike_iff p, inserted_alike sched p⟩

/-- Sector 0 is read, which reads sector 1 ahead, and then sector 1 is written and read. -/
def rewritten : SectorProg (Int × Sector) := do
  let _ ← readSector .buff 0 .zero
  let _ ← Fs.writeSector 1 (.ofFn fun _ => 0x55)
  readSector .buff 1 .zero

/-- The last read is answered otherwise than by the medium. -/
theorem prefetched_alike_iff_rewritten :
    ¬ (rewritten.transcript (Inserted.answer fun _ => true) (.mounted fun _ => .zero)).1 =
      (rewritten.transcript Bench.answer ⟨fun _ => .zero, []⟩).1 := by
  intro heq
  obtain ⟨-, hnext⟩ :=
    (prefetched_alike_iff (fun _ => true) rewritten (.mounted fun _ => .zero)).1.mp heq
  have hlater : NextRead (plainCalls rewritten fun _ => .zero) 0 2 := by
    refine ⟨by decide, fun k hlt hgt => ?_⟩
    obtain rfl : k = 1 := by omega
    exact ⟨1, _, rfl⟩
  have hsame : Sector.ofFn (fun _ => 0x55) = .zero := hnext 0 2 0 .zero .zero hlater rfl rfl
  have hne : Sector.ofFn (fun _ => 0x55) ≠ .zero := by decide +kernel
  exact hne hsame

end Alike

section Mount

variable {α : Type} {c : Prefetcher}

/-- The calls that leave the medium alone. -/
def KeepsMedium : SectorOp → Prop
  | .write _ _ => False
  | _ => True

theorem keeps_of_fatOnly {p : SectorProg α} (h : p.Only SectorOp.FatOnly) : p.Only KeepsMedium := by
  induction p with
  | ret a => trivial
  | op o k ih =>
    obtain ⟨hop, hrest⟩ := h
    refine ⟨?_, fun r => ih r (hrest r)⟩
    cases o with
    | read into sector old => trivial
    | write sector data => exact hop.elim
    | outOfFuel => trivial

theorem readCluster_keeps {τ : Type} (callback : Fat32 → Sector → τ → τ) (pfat32 : Fat32) (n : Nat)
    (lba : UInt32) (buff : Sector) (t : τ) :
    (readCluster callback pfat32 n lba buff t).Only KeepsMedium := by
  induction n generalizing lba buff t with
  | zero => trivial
  | succ n ih => exact ⟨trivial, fun r => ih _ _ _⟩

theorem readFile_keeps {τ : Type} (callback : Fat32 → Sector → τ → τ) (fuel : Nat)
    (pfat32 : Fat32) (cluster : UInt32) (buff : Sector) (t : τ) :
    (readFile callback fuel pfat32 cluster buff t).Only KeepsMedium := by
  induction fuel generalizing pfat32 cluster buff t with
  | zero => exact ⟨trivial, fun e => e.elim⟩
  | succ fuel ih =>
    unfold readFile
    by_cases hin : inChain cluster
    · rw [if_pos hin]
      apply (readCluster_keeps callback _ _ _ _ _).bind
      intro x
      apply (keeps_of_fatOnly (getNextCluster_fatOnly _ _)).bind
      intro y
      exact ih _ _ _ _
    · rw [if_neg hin]
      trivial

theorem readFsId_keeps (pfat32 : Fat32) (buff : Sector) : (readFsId pfat32 buff).Only KeepsMedium := by
  refine ⟨trivial, ?_⟩
  rintro ⟨r, buff⟩
  show Prog.Only _ (if isSigned buff = true then _ else _)
  split_ifs <;> trivial

/-- `init_disk` reads only. -/
theorem initDisk_keeps (fuel : Nat) (stack : Stack) (t : DriveTables) :
    (initDisk fuel stack t).Only KeepsMedium := by
  apply (readFsId_keeps _ _).bind
  rintro ⟨bad, pfat32⟩
  by_cases hbad : bad ≠ 0
  · simp only [if_pos hbad]
    trivial
  · simp only [if_neg hbad]
    apply (readFile_keeps _ _ _ _ _ _).bind
    rintro ⟨pfat32, t⟩
    apply (keeps_of_fatOnly (checkDisks_fatOnly _ _ _ _)).bind
    rintro ⟨pfat32, t⟩
    exact (keeps_of_fatOnly (checkConfig_fatOnly _ _ _)).bind fun _ => trivial

/-- The copy is of the sector on the medium. -/
def Prefetcher.Fresh (c : Prefetcher) : Prop := c.copy = c.medium c.tag

/-- A program that reads only, with the copy fresh. -/
theorem exec_fresh {p : SectorProg α} (hp : p.Only KeepsMedium) (hc : c.Fresh) :
    (p.exec Prefetcher.answer c = none ∧ Stuck c.medium p) ∨
      ∃ a c' l, p.exec Prefetcher.answer c = some (a, c') ∧ c'.medium = c.medium ∧ c'.Fresh ∧
        Reads c.medium p a l := by
  induction p generalizing c with
  | ret a => exact .inr ⟨a, c, [], rfl, rfl, hc, .ret a⟩
  | op o k ih =>
    obtain ⟨hop, hrest⟩ := hp
    cases o with
    | write sector data => exact hop.elim
    | outOfFuel => exact .inl ⟨rfl, fun _ => rfl⟩
    | read into sector old =>
      have hcopy : (if c.tag = sector then c.copy else c.medium sector) = c.medium sector := by
        by_cases htag : c.tag = sector
        · rw [if_pos htag, hc, htag]
        · rw [if_neg htag]
      have hread := Reads.readSector (m := c.medium) into sector old
      have hexec : (Prog.op (.read into sector old) k).exec Prefetcher.answer c =
          (k (0, c.medium sector)).exec Prefetcher.answer
            ⟨c.medium, sector + 1, c.medium (sector + 1)⟩ := by
        simp only [Prog.exec, Prefetcher.answer, hcopy]
      rw [hexec]
      rcases ih (0, c.medium sector) (c := ⟨c.medium, sector + 1, c.medium (sector + 1)⟩)
        (hrest (0, c.medium sector)) rfl with ⟨hnone, hstuck⟩ | ⟨a, c', l, hrun, hmedium, hfresh, hreads⟩
      · exact .inl ⟨hnone, hread.bind_stuck hstuck⟩
      · exact .inr ⟨a, c', _, hrun, hmedium, hfresh, hread.bind hreads⟩

/-- `init_disk` over a medium with a copy of another sector than sector 0, which it reads first. -/
theorem initDisk_copied (fuel : Nat) {stack : Stack} (t : DriveTables) (htag : c.tag ≠ 0)
    (hcache : stack.Coherent c.medium) :
    ((initDisk fuel stack t).exec Prefetcher.answer c = none ∧ initOn c.medium fuel t = none) ∨
      ∃ r c', (initDisk fuel stack t).exec Prefetcher.answer c = some (r, c') ∧
        c'.medium = c.medium ∧ c'.Fresh ∧ initOn c.medium fuel t = some r := by
  have hfirst : ∃ k, initDisk fuel stack t = .op (.read .buff 0 stack.fsIdBuff) k := ⟨_, rfl⟩
  obtain ⟨k, hk⟩ := hfirst
  have hread := Reads.readSector (m := c.medium) .buff 0 stack.fsIdBuff
  have hexec : (initDisk fuel stack t).exec Prefetcher.answer c =
      (k (0, c.medium 0)).exec Prefetcher.answer ⟨c.medium, 0 + 1, c.medium (0 + 1)⟩ := by
    rw [hk]
    simp only [Prog.exec, Prefetcher.answer, if_neg htag]
  have hkeeps := initDisk_keeps fuel stack t
  rw [hk] at hkeeps
  rw [hexec]
  rcases exec_fresh (c := ⟨c.medium, 0 + 1, c.medium (0 + 1)⟩) (hkeeps.2 (0, c.medium 0)) rfl with
    ⟨hnone, hstuck⟩ | ⟨r, c', l, hrun, hmedium, hfresh, hreads⟩
  · refine .inl ⟨hnone, ?_⟩
    cases hinit : initOn c.medium fuel t with
    | none => rfl
    | some r =>
      obtain ⟨l, hl⟩ := initDisk_reads hcache hinit
      rw [hk] at hl
      have hends := (hread.bind_stuck hstuck []).symm.trans (hl [])
      cases hends
  · refine .inr ⟨r, c', hrun, hmedium, hfresh, ?_⟩
    have hall : Reads c.medium (initDisk fuel stack t) r ([.read .buff 0] ++ l) := by
      rw [hk]
      exact hread.bind hreads
    exact initOn_of_reads hcache hall

/-- `init_disk` with a stick in. -/
theorem inserted_initDisk (sched : Nat → Bool) {w : Inserted} (fuel : Nat) {stack : Stack}
    (t : DriveTables)
    (htag : w.usb.prefetchingLba ≠ 0) (hcache : stack.Coherent w.medium) :
    ((initDisk fuel stack t).exec (Inserted.answer sched) w = none ∧ initOn w.medium fuel t = none) ∨
      ∃ r w', (initDisk fuel stack t).exec (Inserted.answer sched) w = some (r, w') ∧
        w'.medium = w.medium ∧ (prefetcher w').Fresh ∧ initOn w.medium fuel t = some r := by
  obtain ⟨-, hend⟩ := inserted_transcript sched (initDisk fuel stack t) w
  rcases initDisk_copied (c := prefetcher w) fuel t htag hcache with
    ⟨hnone, hinit⟩ | ⟨r, c', hrun, hmedium, hfresh, hinit⟩
  · rw [hnone, Option.map_eq_none_iff] at hend
    exact .inl ⟨hend, hinit⟩
  · rw [hrun] at hend
    obtain ⟨⟨r₁, w'⟩, husb, hsame⟩ := Option.map_eq_some_iff.mp hend
    obtain ⟨rfl, rfl⟩ := Prod.mk.inj hsame
    exact .inr ⟨r₁, w', husb, hmedium, hfresh, hinit⟩

/-- `init_disk` over the prefetching layer finds on a stick what it finds on the medium alone, under any
schedule of the completions and whatever the copy was taken from, unless that was sector 0 of a stick
before; where it does not return on the medium alone it does not return. It leaves a fresh copy. -/
theorem mount_prefetched (sched : Nat → Bool) {w : Inserted} {fuel : Nat} {stack : Stack}
    (t : DriveTables) (htag : w.usb.prefetchingLba ≠ 0) (hcache : stack.Coherent w.medium) :
    (∀ r, initOn w.medium fuel t = some r → ∃ w',
      (initDisk fuel stack t).exec (Inserted.answer sched) w = some (r, w') ∧
        w'.medium = w.medium ∧ w'.usb.prefetchingBuff = w.medium w'.usb.prefetchingLba) ∧
    (initOn w.medium fuel t = none →
      (initDisk fuel stack t).exec (Inserted.answer sched) w = none) := by
  rcases inserted_initDisk sched fuel t htag hcache with
    ⟨hnone, hinit⟩ | ⟨r, w', hrun, hmedium, hfresh, hinit⟩
  · refine ⟨?_, fun _ => hnone⟩
    intro r hr
    exact absurd (hinit.symm.trans hr) nofun
  · constructor
    · intro r' hr
      obtain rfl := Option.some.inj (hinit.symm.trans hr)
      refine ⟨w', hrun, hmedium, ?_⟩
      have hcopy : w'.usb.prefetchingBuff = w'.medium w'.usb.prefetchingLba := hfresh
      rw [hcopy]
      exact congrFun hmedium _
    · intro hnone
      exact absurd (hinit.symm.trans hnone) nofun

/-- On the stick with drive A just mounted. -/
theorem mount_prefetched_stick : ∃ r w',
    (initDisk 2 invalidStack .zero).exec (Inserted.answer fun _ => true)
      (.mounted (stick stickDir)) = some (r, w') ∧ r.1 = 0 ∧ w'.medium = stick stickDir := by
  have hreturns : (initOn (stick stickDir) 2 .zero).map Prod.fst = some 0 := by decide +kernel
  obtain ⟨r, hr, hzero⟩ := Option.map_eq_some_iff.mp hreturns
  have htag : (Inserted.mounted (stick stickDir)).usb.prefetchingLba ≠ 0 := by
    show (0xffffffff : UInt32) ≠ 0
    decide
  obtain ⟨w', hrun, hmedium, -⟩ := (mount_prefetched (w := .mounted (stick stickDir)) (fun _ => true)
    .zero htag (invalidStack_coherent _)).1 r hr
  exact ⟨r, w', hrun, hzero, hmedium⟩

end Mount

end LptStore.Firmware
