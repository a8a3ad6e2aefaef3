import LptStore.Firmware.Schedule
import LptStore.Msc.Calls

/-!
# Hot swapping

The tables, the tag and the prefetch buffer outlive an unmount, and the mount callback opens the sector
layer before anything has been scanned. A request is served by the stick it was meant for when it is
looked up after a scan of the present insertion that has seen only the stick inserted and lists the
drive, and when no other stick is mounted before it is answered.
-/

namespace LptStore.Firmware

open LptStore.Lib LptStore.Fs LptStore.Msc Function

/-- The root directory of the medium lists a file of the slot. -/
def Listed (m : Medium) (x : Slot) : Prop :=
  isSigned (m 0) = true ∧ ∃ fuel es, rootListed m fuel = some es ∧ ∃ e ∈ es, e.slot = x

/-- No stick is mounted while a request is being passed on, and a request that is passed on finds, if a
stick is there, that a scan since it was mounted has seen nothing but the stick and that the stick lists
the drive. -/
def Settled : Event → State → Prop
  | .mount, s => ∀ author prog, s.core1 = .request author prog → ¬ PassesOn prog
  | .request r, s => PassesOn (r.prog s.tables) → s.inserted = true →
      ∃ m ∈ s.scans, Listed m (slotOf r.disk)
  | _, _ => True

/-- What is left of a request: a call to the sector layer, or nothing. -/
inductive Rest : SectorProg Unit → Prop
  | answered : Rest (.ret ())
  | read (lba : UInt32) (buff : Sector) : Rest (.op (.read .buff lba buff) fun _ => .ret ())
  | write (lba : UInt32) (data : Sector) : Rest (.op (.write lba data) fun _ => .ret ())

theorem rest_prog (t : DriveTables) (r : Request) : Rest (r.prog t) := by
  cases r with
  | read disk lbn buff =>
    show Rest ((readDiskSector t disk lbn buff).bind fun _ => .ret ())
    unfold readDiskSector
    split
    · exact .read _ _
    · split
      · exact .read _ _
      · exact .answered
  | write disk lbn data =>
    show Rest ((writeDiskSector t disk lbn data).bind fun _ => .ret ())
    unfold writeDiskSector
    split
    · exact .write _ _
    · split
      · exact .write _ _
      · exact .answered

/-- An undisturbed scan: it goes on as it would on the medium alone, and the copy in the prefetch buffer
is of the medium once a sector has been read. -/
structure Undisturbed (s : State) (since : Nat) (seen : List Sector)
    (prog : SectorProg (Int × DriveTables)) : Prop where
  since : since = s.insertion
  inserted : s.inserted = true
  bench : ∃ fuel stack l, stack.Coherent s.usb.medium ∧
    (initDisk fuel stack s.tables).exec Bench.answer ⟨s.usb.medium, []⟩ =
      prog.exec Bench.answer ⟨s.usb.medium, l⟩ ∧
    seen = (dataReads l).map s.usb.medium ∧
    (l = [] → prog = initDisk fuel stack s.tables ∧
      (s.usb.prefetchingLba = 0 → s.usb.prefetchingBuff = s.usb.medium 0)) ∧
    (l ≠ [] → s.usb.flags .prefetchingComplete = true ∧
      s.usb.prefetchingBuff = s.usb.medium s.usb.prefetchingLba)

/-- What holds of core 1's work. -/
def Core1.Sound (s : State) : Core1 → Prop
  | .idle => True
  | .scan since undisturbed seen prog =>
      (since = s.insertion ∨ s.scans = []) ∧ (undisturbed = true → Undisturbed s since seen prog)
  | .request author prog =>
      Rest prog ∧ (PassesOn prog → s.inserted = true → author = some s.insertion ∧ s.scans ≠ [])

/-- The invariant. -/
structure Inv (s : State) : Prop where
  pending : s.usb.pending = []
  passed : s.usb.flags .result = false
  held : s.inserted = true → s.usb.medium ∈ s.held
  copy : s.inserted = true → s.scans ≠ [] → s.usb.flags .prefetchingComplete = true ∧
    ∃ m ∈ s.held, s.usb.prefetchingBuff = m s.usb.prefetchingLba
  author : ∀ m ∈ s.scans, ∀ x, Listed m x → s.author x = some s.insertion
  core1 : s.core1.Sound s
  served : ∀ x ∈ s.served, x.Sound

theorem inv_start : Inv .start where
  pending := rfl
  passed := rfl
  held h := by cases h
  copy h := by cases h
  author _ h := absurd h List.not_mem_nil
  core1 := trivial
  served _ h := absurd h List.not_mem_nil

section Steps

variable {s : State}

theorem Inv.scan (h : Inv s) {since : Nat} {undisturbed : Bool} {seen : List Sector}
    {prog : SectorProg (Int × DriveTables)} (hcore : s.core1 = .scan since undisturbed seen prog) :
    (since = s.insertion ∨ s.scans = []) ∧ (undisturbed = true → Undisturbed s since seen prog) := by
  have hsound := h.core1
  rw [hcore] at hsound
  exact hsound

/-- A request about to call the sector layer. -/
theorem Inv.request (h : Inv s) {author : Option Nat} {o : SectorOp}
    {k : SectorResp o → SectorProg Unit} (hcore : s.core1 = .request author (.op o k)) :
    Rest (.op o k) ∧ (s.inserted = true → author = some s.insertion ∧ s.scans ≠ []) := by
  have hsound := h.core1
  rw [hcore] at hsound
  exact ⟨hsound.1, hsound.2 ⟨_, _, rfl⟩⟩

theorem not_passesOn_ret {α : Type} (a : α) : ¬ PassesOn (.ret a) := by
  rintro ⟨o, k, heq⟩
  cases heq

theorem answered_sound (t : State) (author : Option Nat) :
    Core1.Sound t (.request author (.ret ())) :=
  ⟨.answered, fun hpass => absurd hpass (not_passesOn_ret ())⟩

theorem inv_mount (h : Inv s) (m : Medium) (hok : Settled .mount s) :
    Inv (s.mounted m) where
  pending := h.pending
  passed := h.passed
  held _ := List.mem_singleton.mpr rfl
  copy _ hne := absurd rfl hne
  author _ hm := absurd hm List.not_mem_nil
  core1 := by
    show Core1.Sound (s.mounted m) s.core1.disturb
    cases hcore : s.core1 with
    | idle => trivial
    | scan since undisturbed seen prog => exact ⟨.inr rfl, fun hund => by cases hund⟩
    | request author prog =>
      have hrequest := h.core1
      rw [hcore] at hrequest
      exact ⟨hrequest.1, fun hpass => absurd hpass (hok author prog hcore)⟩
  served := h.served

theorem inv_inquiry (h : Inv s) (passed : Bool) : Inv (s.inquired passed) where
  pending := h.pending
  passed := h.passed
  held := h.held
  copy := h.copy
  author := h.author
  core1 := by
    show Core1.Sound (s.inquired passed) s.core1
    have hcore := h.core1
    cases hc : s.core1 with
    | idle => trivial
    | scan since undisturbed seen prog =>
      rw [hc] at hcore
      rcases hcore with ⟨hsince, hund⟩
      refine ⟨hsince, ?_⟩
      intro hu
      rcases hund hu with ⟨hs, hi, hbench⟩
      exact ⟨hs, hi, hbench⟩
    | request author prog =>
      rw [hc] at hcore
      exact hcore
  served := h.served

theorem inv_unmount (h : Inv s) : Inv s.unmounted where
  pending := h.pending
  passed := h.passed
  held hi := by cases hi
  copy hi := by cases hi
  author := h.author
  core1 := by
    show Core1.Sound s.unmounted s.core1.disturb
    have hcore := h.core1
    cases hc : s.core1 with
    | idle => trivial
    | scan since undisturbed seen prog =>
      rw [hc] at hcore
      exact ⟨hcore.1, fun hund => by cases hund⟩
    | request author prog =>
      rw [hc] at hcore
      exact ⟨hcore.1, fun _ hi => by cases hi⟩
  served := h.served

theorem inv_task (h : Inv s) {fuel : Nat} {stack : Stack} {undisturbed : Bool}
    (hund : undisturbed = true ↔ s.ReliableScan stack) :
    Inv { s with core1 := .scan s.insertion undisturbed [] (initDisk fuel stack s.tables) } where
  pending := h.pending
  passed := h.passed
  held := h.held
  copy := h.copy
  author := h.author
  core1 := by
    refine ⟨.inl rfl, ?_⟩
    intro hu
    rcases hund.mp hu with ⟨hi, hcache, hfresh⟩
    exact ⟨rfl, hi, fuel, stack, [], hcache, rfl, rfl, fun _ => ⟨rfl, hfresh⟩, fun hne => absurd rfl hne⟩
  served := h.served

/-- An undisturbed scan is given the medium's sector, whether from the copy or not. -/
theorem Undisturbed.value {since : Nat} {seen : List Sector} {into : Into} {sector : UInt32}
    {old : Sector} {k : Int × Sector → SectorProg (Int × DriveTables)}
    (h : Undisturbed s since seen (.op (.read into sector old) k)) :
    (if s.usb.prefetchingLba = sector then s.usb.prefetchingBuff else s.usb.medium sector) =
      s.usb.medium sector := by
  rcases h with ⟨-, -, fuel, stack, l, -, -, -, hfirst, hlater⟩
  by_cases hmatch : s.usb.prefetchingLba = sector
  · rw [if_pos hmatch]
    by_cases hl : l = []
    · rcases hfirst hl with ⟨hprog, hzero⟩
      have hsector : sector = 0 := by
        have hop := (Prog.op.inj hprog).1
        exact (SectorOp.read.inj hop).2.1
      rw [hsector] at hmatch ⊢
      exact hzero hmatch
    · rw [(hlater hl).2, hmatch]
  · rw [if_neg hmatch]

/-- After a call an undisturbed scan is undisturbed still. -/
theorem Undisturbed.call {since : Nat} {seen : List Sector} {into : Into} {sector : UInt32}
    {old : Sector} {k : Int × Sector → SectorProg (Int × DriveTables)} {w : Usb} {c : Core1}
    (h : Undisturbed s since seen (.op (.read into sector old) k))
    (hinserted : w.flags .usbDiskInserted = true) (hmedium : w.medium = s.usb.medium)
    (hfresh : w.flags .prefetchingComplete = true ∧
      w.prefetchingBuff = w.medium w.prefetchingLba) :
    Undisturbed { s with usb := w, core1 := c } since (seenAfter into seen (s.usb.medium sector))
      (k (0, s.usb.medium sector)) := by
  rcases h with ⟨hins, -, fuel, stack, l, hcache, hexec, hseen, -, -⟩
  refine ⟨hins, hinserted, fuel, stack, l ++ [.read into sector], ?_⟩
  show stack.Coherent w.medium ∧ _
  rw [hmedium]
  refine ⟨hcache, hexec, ?_, fun hnil => ?_, fun _ => ?_⟩
  · rw [dataReads_append, List.map_append, ← hseen]
    cases into with
    | buff => rfl
    | fat => exact (List.append_nil seen).symm
  · exact absurd hnil (List.append_ne_nil_of_right_ne_nil l (List.cons_ne_nil _ _))
  · rw [← hmedium]
    exact hfresh

theorem inv_scanCall (h : Inv s) {sched : Nat → Bool} {since : Nat} {undisturbed : Bool}
    {seen : List Sector} {into : Into} {sector : UInt32} {old : Sector}
    {k : Int × Sector → SectorProg (Int × DriveTables)} {r : Int} {data : Sector} {w : Usb}
    (hcore : s.core1 = .scan since undisturbed seen (.op (.read into sector old) k))
    (hcall : s.usb.call sched (.read sector old) = some (.read r data, w)) :
    Inv { s with
      usb := w
      core1 := .scan since undisturbed (seenAfter into seen data) (k (r, data)) } := by
  rcases h.scan hcore with ⟨hsince, hund⟩
  by_cases hi : s.inserted = true
  · rcases call_read_inserted h.pending h.passed hi hcall with
      ⟨-, hr, hdata, hready, hmedium, htag, hcopy⟩
    have hfresh : w.flags .prefetchingComplete = true ∧
        w.prefetchingBuff = w.medium w.prefetchingLba :=
      ⟨hready.prefetched, by rw [hcopy, hmedium, htag]⟩
    have hheld : w.medium ∈ s.held := hmedium ▸ h.held hi
    refine ⟨hready.pending, hready.passed, fun _ => hheld,
      fun _ _ => ⟨hfresh.1, w.medium, hheld, hfresh.2⟩, h.author, ⟨hsince, ?_⟩, h.served⟩
    intro hu
    rw [hr, hdata, (hund hu).value]
    exact (hund hu).call hready.inserted hmedium hfresh
  · have habsent := call_read_absent h.pending (Bool.eq_false_iff.mpr hi) hcall
    rw [habsent]
    exact ⟨h.pending, h.passed, fun hins => absurd hins hi, fun hins => absurd hins hi, h.author,
      ⟨hsince, fun hu => absurd (hund hu).inserted hi⟩, h.served⟩

/-- What a call to `read_sector` leaves when the stick is pulled right after it. -/
theorem pulled_rests (h : Inv s) {sched : Nat → Bool} {sector : UInt32} {old : Sector} {r : Int}
    {w : Usb} (hi : s.inserted = true)
    (hexec : (Msc.readSector sector).exec (Usb.answer sched) { s.usb with buff := old } =
      some (r, w)) :
    r = 0 ∧ w.flags .result = false ∧
      w.buff = if s.usb.prefetchingLba = sector then s.usb.prefetchingBuff else s.usb.medium sector := by
  have hready := ready_of_readSector h.pending h.passed hi hexec
  have hready' : ({ s.usb with buff := old } : Usb).Ready :=
    ⟨hready.pending, hready.inserted, hready.passed, hready.prefetched⟩
  rcases readSector_exec sched sector hready' with ⟨v, hexec', hresult, hbuff, -⟩
  rw [hexec'] at hexec
  cases hexec
  exact ⟨rfl, hresult, hbuff⟩

theorem inv_scanPulled (h : Inv s) {sched : Nat → Bool} {since : Nat} {undisturbed : Bool}
    {seen seen' : List Sector} {into : Into} {sector : UInt32} {old : Sector}
    {k : Int × Sector → SectorProg (Int × DriveTables)} {r : Int} {w : Usb}
    (hcore : s.core1 = .scan since undisturbed seen (.op (.read into sector old) k))
    (hi : s.inserted = true)
    (hexec : (Msc.readSector sector).exec (Usb.answer sched) { s.usb with buff := old } =
      some (r, w)) :
    Inv { s with
      usb := pulled w, core1 := .scan since false seen' (k (r, w.buff)), inquiring := false } := by
  rcases pulled_rests h hi hexec with ⟨-, hresult, -⟩
  exact ⟨rfl, hresult, (fun hins => by cases hins), (fun hins => by cases hins), h.author,
    ⟨(h.scan hcore).1, (fun hu => by cases hu)⟩, h.served⟩

/-- A scan that has seen nothing but the medium lists what the medium lists. -/
theorem scanned_of_listed {since : Nat} {seen : List Sector} {r : Int} {t : DriveTables}
    (h : Undisturbed s since seen (.ret (r, t))) {x : Slot} (hlisted : Listed s.usb.medium x) :
    ((scannedEntries seen).any fun e => e.slot == x) = true := by
  rcases h with ⟨-, -, fuel, stack, l, hcache, hexec, hseen, -⟩
  rcases hlisted with ⟨hsigned, fuel', es, hes, e, he, hslot⟩
  rcases initOn_of_exec hcache hexec with ⟨hon, hdata⟩
  cases initOn_signed hsigned hon
  rcases initOn_judges hon with ⟨-, es', hes', -⟩
  cases rootListed_unique hes hes'
  rcases Option.map_eq_some_iff.mp hes' with ⟨clusters, htrail, rfl⟩
  have hentries : scannedEntries seen =
      listed s.usb.medium (fileSectors (geometry s.usb.medium) clusters) := by
    unfold scannedEntries
    rw [hseen]
    change dataReads l = _ at hdata
    rw [hdata]
    unfold scanSectors
    rw [if_pos hsigned, htrail]
    simp only [Option.map_some, Option.getD_some, List.map_cons, List.drop_succ_cons, List.drop_zero,
      List.flatMap_map]
    rfl
  rw [hentries, List.any_eq_true]
  exact ⟨e, he, beq_iff_eq.mpr hslot⟩

/-- A finished scan has read something. -/
theorem copy_of_undisturbed {since : Nat} {seen : List Sector} {r : Int} {t : DriveTables}
    (h : Undisturbed s since seen (.ret (r, t))) :
    s.usb.flags .prefetchingComplete = true ∧
      s.usb.prefetchingBuff = s.usb.medium s.usb.prefetchingLba := by
  rcases h with ⟨-, -, fuel, stack, l, -, -, -, hfirst, hlater⟩
  by_cases hl : l = []
  · have hret := (hfirst hl).1
    cases hret
  · exact hlater hl

theorem inv_scanDone (h : Inv s) {since : Nat} {undisturbed : Bool} {seen : List Sector} {r : Int}
    {t : DriveTables} (hcore : s.core1 = .scan since undisturbed seen (.ret (r, t))) :
    Inv (s.scanned since undisturbed seen t) := by
  rcases h.scan hcore with ⟨hsince, hund⟩
  have hkept : ∀ m ∈ s.scans, ∀ x, Listed m x → s.authors since seen x = some s.insertion := by
    intro m hm x hx
    have hin : since = s.insertion := hsince.resolve_right (List.ne_nil_of_mem hm)
    unfold State.authors
    rw [if_pos hin, h.author m hm x hx]
    exact ite_self _
  refine ⟨h.pending, h.passed, h.held, fun hins hne => ?_, fun m hm x hx => ?_, trivial, h.served⟩
  · cases hu : undisturbed with
    | true =>
      rcases copy_of_undisturbed (hund hu) with ⟨hcomplete, hcopy⟩
      exact ⟨hcomplete, s.usb.medium, h.held hins, hcopy⟩
    | false =>
      rw [hu] at hne
      exact h.copy hins hne
  · cases hu : undisturbed with
    | true =>
      rw [hu] at hm
      rcases List.mem_cons.mp hm with rfl | hm
      · have hin := (hund hu).since
        show s.authors since seen x = some s.insertion
        unfold State.authors
        rw [if_pos (scanned_of_listed (hund hu) hx), if_pos hin]
      · exact hkept m hm x hx
    | false =>
      rw [hu] at hm
      exact hkept m hm x hx

theorem inv_request (h : Inv s) (r : Request) (hok : Settled (.request r) s) :
    Inv (s.requested r) where
  pending := h.pending
  passed := h.passed
  held := h.held
  copy := h.copy
  author := h.author
  core1 := by
    refine ⟨rest_prog s.tables r, ?_⟩
    intro hpass hi
    rcases hok hpass hi with ⟨m, hm, hlisted⟩
    exact ⟨h.author m hm _ hlisted, List.ne_nil_of_mem hm⟩
  served := h.served

/-- What a read serves comes from what the stick has held. -/
theorem data_of_held (h : Inv s) (hi : s.inserted = true) (hscans : s.scans ≠ []) (sector : UInt32) :
    ∃ m ∈ s.held, (if s.usb.prefetchingLba = sector then s.usb.prefetchingBuff
      else s.usb.medium sector) = m sector := by
  by_cases hmatch : s.usb.prefetchingLba = sector
  · rcases (h.copy hi hscans).2 with ⟨m, hm, hcopy⟩
    exact ⟨m, hm, by rw [if_pos hmatch, hcopy, hmatch]⟩
  · exact ⟨s.usb.medium, h.held hi, if_neg hmatch⟩

/-- One more service, if a stick is in. -/
theorem recorded_sound (h : Inv s) {service : Service} (hnew : s.inserted = true → service.Sound) :
    ∀ x ∈ (if s.inserted then s.served ++ [service] else s.served), x.Sound := by
  intro x hx
  by_cases hi : s.inserted = true
  · rw [if_pos hi] at hx
    rcases List.mem_append.mp hx with hx | hx
    · exact h.served x hx
    · rw [List.mem_singleton.mp hx]
      exact hnew hi
  · rw [if_neg hi] at hx
    exact h.served x hx

/-- A read of a request under way is served soundly. -/
theorem serveRead_sound (h : Inv s) {author : Option Nat} {sector : UInt32} {r : Int} {data : Sector}
    (hgoes : s.inserted = true → author = some s.insertion ∧ s.scans ≠ [])
    (hdata : s.inserted = true → data =
      if s.usb.prefetchingLba = sector then s.usb.prefetchingBuff else s.usb.medium sector) :
    ∀ x ∈ s.serveRead author sector r data, x.Sound := by
  refine recorded_sound h fun hi => ⟨(hgoes hi).1, ?_⟩
  intro d hd
  by_cases hr : r = 0
  · rw [if_pos hr] at hd
    cases hd
    rw [hdata hi]
    exact data_of_held h hi (hgoes hi).2 sector
  · rw [if_neg hr] at hd
    cases hd

theorem inv_readCall (h : Inv s) {sched : Nat → Bool} {author : Option Nat} {into : Into}
    {sector : UInt32} {old : Sector} {k : Int × Sector → SectorProg Unit} {r : Int} {data : Sector}
    {w : Usb} (hcore : s.core1 = .request author (.op (.read into sector old) k))
    (hcall : s.usb.call sched (.read sector old) = some (.read r data, w)) :
    Inv (s.readFor author sector r data (k (r, data)) w) := by
  rcases h.request hcore with ⟨hrest, hserved⟩
  cases hrest
  by_cases hi : s.inserted = true
  · rcases call_read_inserted h.pending h.passed hi hcall with
      ⟨-, -, hdata, hready, hmedium, htag, hcopy⟩
    have hheld : w.medium ∈ s.held := hmedium ▸ h.held hi
    have hfresh : w.prefetchingBuff = w.medium w.prefetchingLba := by rw [hcopy, hmedium, htag]
    exact ⟨hready.pending, hready.passed, fun _ => hheld,
      fun _ _ => ⟨hready.prefetched, w.medium, hheld, hfresh⟩, h.author,
      answered_sound _ _, serveRead_sound h hserved fun _ => hdata⟩
  · have habsent := call_read_absent h.pending (Bool.eq_false_iff.mpr hi) hcall
    rw [habsent]
    exact ⟨h.pending, h.passed, fun hins => absurd hins hi, fun hins => absurd hins hi, h.author,
      answered_sound _ _, serveRead_sound h hserved fun hins => absurd hins hi⟩

theorem inv_readPulled (h : Inv s) {sched : Nat → Bool} {author : Option Nat} {into : Into}
    {sector : UInt32} {old : Sector} {k : Int × Sector → SectorProg Unit} {r : Int} {w : Usb}
    (hcore : s.core1 = .request author (.op (.read into sector old) k)) (hi : s.inserted = true)
    (hexec : (Msc.readSector sector).exec (Usb.answer sched) { s.usb with buff := old } =
      some (r, w)) :
    Inv { s.readFor author sector r w.buff (k (r, w.buff)) (pulled w) with
      inquiring := false } := by
  rcases h.request hcore with ⟨hrest, hserved⟩
  cases hrest
  rcases pulled_rests h hi hexec with ⟨-, hresult, hbuff⟩
  exact ⟨rfl, hresult, (fun hins => by cases hins), (fun hins => by cases hins), h.author,
    answered_sound _ _, serveRead_sound h hserved fun _ => hbuff⟩

theorem inv_writeCall (h : Inv s) {sched : Nat → Bool} {author : Option Nat} {sector : UInt32}
    {data : Sector} {k : Int → SectorProg Unit} {r : Int} {w : Usb}
    (hcore : s.core1 = .request author (.op (.write sector data) k))
    (hcall : s.usb.call sched (.write sector data) = some (.write r, w)) :
    Inv (s.wroteFor author sector (k r) w) := by
  rcases h.request hcore with ⟨hrest, hserved⟩
  cases hrest
  have hsound : ∀ x ∈ s.serveWrite author sector, x.Sound :=
    recorded_sound h fun hi => ⟨(hserved hi).1, fun d hd => by cases hd⟩
  by_cases hi : s.inserted = true
  · rcases h.copy hi (hserved hi).2 with ⟨hcomplete, m, hm, hcopy⟩
    rcases Usb.call_write sched sector data ⟨h.pending, hi, h.passed, hcomplete⟩ with
      ⟨v, hcall', hready, -, htag', hcopy'⟩
    rw [hcall'] at hcall
    cases hcall
    unfold State.wroteFor
    rw [if_pos hi]
    exact ⟨hready.pending, hready.passed, fun _ => List.mem_cons_self,
      fun _ _ => ⟨hready.prefetched, m, List.mem_cons_of_mem _ hm, by rw [hcopy', hcopy, htag']⟩,
      h.author, answered_sound _ _, hsound⟩
  · have habsent := call_write_absent h.pending (Bool.eq_false_iff.mpr hi) hcall
    unfold State.wroteFor
    rw [habsent, if_neg hi]
    exact ⟨h.pending, h.passed, fun hins => absurd hins hi, fun hins => absurd hins hi, h.author,
      answered_sound _ _, hsound⟩

/-- Every step from a settled state keeps the invariant. -/
theorem inv_step {t : State} {e : Event} (h : Inv s) (hok : Settled e s) (hstep : Step e s t) :
    Inv t := by
  cases hstep with
  | mount m _ => exact inv_mount h m hok
  | inquiry passed _ => exact inv_inquiry h passed
  | unmount _ => exact inv_unmount h
  | task _ _ hund => exact inv_task h hund
  | scanCall hcore hcall => exact inv_scanCall h hcore hcall
  | scanPulled hcore hi hexec => exact inv_scanPulled h hcore hi hexec
  | scanDone hcore => exact inv_scanDone h hcore
  | request r _ => exact inv_request h r hok
  | readCall hcore hcall => exact inv_readCall h hcore hcall
  | readPulled hcore hi hexec => exact inv_readPulled h hcore hi hexec
  | writeCall hcore hcall => exact inv_writeCall h hcore hcall
  | requestDone _ => exact ⟨h.pending, h.passed, h.held, h.copy, h.author, trivial, h.served⟩

end Steps

/-- In every run whose requests find the stick scanned and listing the drive, and whose mounts find no
request being passed on, whatever is read or written for a request goes by a record computed in the
insertion it is served in, and whatever is served has been on the stick since it was inserted. -/
theorem served_sound {s : State} (hrun : Run Step Settled .start s) : ∀ x ∈ s.served, x.Sound := by
  have hinv : Inv s := by
    apply Run.invariant _ inv_start hrun
    intro e s t h hok hstep
    exact inv_step h hok hstep
  exact hinv.served

section Swap

/-- Whether the medium lists a file of the slot. -/
def lists (x : Slot) (m : Medium) : Bool :=
  isSigned (m 0) && ((rootListed m 2).getD []).any fun e => e.slot == x

theorem listed_of_lists {x : Slot} {m : Medium} (h : lists x m = true) : Listed m x := by
  rcases Bool.and_eq_true_iff.mp h with ⟨hsigned, hany⟩
  rcases List.any_eq_true.mp hany with ⟨e, he, hslot⟩
  cases hes : rootListed m 2 with
  | none =>
    rw [hes] at he
    exact absurd he List.not_mem_nil
  | some es =>
    rw [hes] at he
    exact ⟨hsigned, 2, es, hes, e, he, beq_iff_eq.mp hslot⟩

/-- Whether core 1 is between requests and scans. -/
def Core1.isIdle : Core1 → Bool
  | .idle => true
  | _ => false

/-- Whether a move is settled. -/
def settles : Move → State → Bool
  | .mount _, s => s.core1.isIdle
  | .request r, s => s.scans.any (lists (slotOf r.disk))
  | _, _ => true

theorem settled_of_settles (m : Move) (s : State) (h : settles m s = true) : Settled m.event s := by
  cases m with
  | mount m =>
    intro author prog hcore
    have hidle : s.core1.isIdle = true := h
    rw [hcore] at hidle
    cases hidle
  | request r =>
    intro _ _
    rcases List.any_eq_true.mp h with ⟨m, hm, hlist⟩
    exact ⟨m, hm, listed_of_lists hlist⟩
  | inquiry => trivial
  | unmount => trivial
  | task => trivial
  | call => trivial
  | done => trivial

/-- `msc_task` after an inquiry, with the three sectors it reads from the stick below. -/
def scanMoves : List Move := [.inquiry, .task, .call, .call, .call, .done]

/-- A read of the first sector of drive A. -/
def readMoves : List Move := [.request (.read 0 0 .zero), .call, .done]

/-- A stick with drive A is mounted, scanned, and asked for the first sector of the drive. -/
theorem served_sound_stick : ∃ s, Run Step Settled .start s ∧
    s.served.map (fun x => (x.insertion, x.sector)) = [(1, 4)] ∧ ∀ x ∈ s.served, x.Sound := by
  have hplay : (play nextState settles ([.mount (stick stickDir)] ++ scanMoves ++ readMoves)
      State.start).map (fun s => s.served.map fun x => (x.insertion, x.sector)) = some [(1, 4)] := by
    decide +kernel
  rcases Option.map_eq_some_iff.mp hplay with ⟨s, hmoves, hserved⟩
  have hrun : Run Step Settled .start s := play_run nextState_step settled_of_settles hmoves
  exact ⟨s, hrun, hserved, served_sound hrun⟩

/-- The stick is swapped for an empty one: before `msc_task` has scanned it, drive A is served from it
at the address that the stick before had it at. -/
theorem swapped_stick_serves : ∃ s, Run Step (fun _ _ => True) .start s ∧
    ∃ x ∈ s.served, ¬ x.Sound := by
  have hplay : (play nextState (fun _ _ => true) ([.mount (stick stickDir)] ++ scanMoves ++
      [.unmount, .mount (stick .zero)] ++ readMoves) State.start).map
        (fun s => s.served.map fun x => (x.insertion, x.author)) = some [(2, some 1)] := by
    decide +kernel
  rcases Option.map_eq_some_iff.mp hplay with ⟨s, hmoves, hserved⟩
  refine ⟨s, play_run nextState_step (fun _ _ _ => trivial) hmoves, ?_⟩
  have hmem : (2, some 1) ∈ s.served.map fun x => (x.insertion, x.author) := by
    rw [hserved]
    exact List.mem_singleton.mpr rfl
  rcases List.mem_map.mp hmem with ⟨x, hx, heq⟩
  simp only [Prod.mk.injEq] at heq
  rcases heq with ⟨hinsertion, hauthor⟩
  refine ⟨x, hx, ?_⟩
  intro hsound
  have hsame := hsound.1
  rw [hinsertion, hauthor] at hsame
  exact absurd hsame (by decide)

end Swap

end LptStore.Firmware
