import LptStore.Fs.Marks
import LptStore.Fs.Length

/-!
# Failed reads while mounting

`init_disk` looks at no return value of `read_sector`: after a failed read the buffer is taken as it
is, and the cached FAT sector is tagged with the offset that was asked for. A ledger of the run notes
the answers to the reads and what each slot was accepted on. A slot gets its bit exactly if the chain
followed for it came to an end, so a failed read is taken for data exactly where such a slot rests on
one. Which entries a chain was followed through is a matter of the answers alone: `Reading` walks on them.
-/

namespace LptStore.Fs

open LptStore.Lib

/-- A read succeeds, or fails and leaves the buffer as it was. -/
def MayFail (m : Medium) : Issued MountOp MountResp → Prop
  | ⟨.sector (.read _ sector old), answer⟩ =>
      answer.1 = 0 ∧ answer.2 = m sector ∨ answer.1 ≠ 0 ∧ answer.2 = old
  | _ => True

/-- What has been read in a run of `init_disk`. -/
structure Ledger where
  /-- The read of the boot sector: whether it succeeded, and the buffer after it. -/
  boot : Option (Bool × Sector)
  /-- All reads of directory sectors succeeded. -/
  dirRead : Bool
  /-- What `process_dir_sector` was handed. -/
  dir : List Sector
  /-- The answers to the reads of FAT sectors. -/
  fats : List (Int × Sector)
  /-- The read that filled the cache was a successful one of this run. -/
  fatRead : Bool
  /-- The slot whose chain is followed. -/
  scanning : Option Slot
  /-- The entries that the chain of a slot was followed through, each with whether the FAT sector it
  was taken from had been read. -/
  links : Slot → List (UInt32 × Bool)

namespace Ledger

/-- Nothing has been read. -/
def start : Ledger := ⟨none, true, [], [], false, none, fun _ => []⟩

/-- An entry was followed for a slot. -/
def follow (L : Ledger) (s : Slot) (entry : UInt32) : Ledger :=
  { L with links := fun s' => if s' = s then L.links s ++ [(entry, L.fatRead)] else L.links s' }

/-- A sector was read into a data buffer. -/
def readData (L : Ledger) (status : Int) (buff : Sector) : Ledger :=
  match L.boot with
  | none => { L with boot := some (decide (status = 0), buff) }
  | some _ => { L with dirRead := L.dirRead && decide (status = 0), dir := L.dir ++ [buff] }

def note (L : Ledger) : Issued MountOp MountResp → Ledger
  | ⟨.sector (.read .buff _ _), answer⟩ => L.readData answer.1 answer.2
  | ⟨.sector (.read .fat _ _), answer⟩ =>
      { L with fats := L.fats ++ [answer], fatRead := decide (answer.1 = 0) }
  | ⟨.scan s, _⟩ => { L with scanning := some s }
  | ⟨.found _ _ entry, _⟩ =>
      match L.scanning with
      | none => L
      | some s => L.follow s entry
  | _ => L

theorem note_readFat (L : Ledger) (sector : UInt32) (old : Sector) (answer : Int × Sector) :
    L.note ⟨.sector (.read .fat sector old), answer⟩ =
      { L with fats := L.fats ++ [answer], fatRead := decide (answer.1 = 0) } :=
  rfl

/-- What the boot sector, as it was read, says of the volume. -/
def geometry (L : Ledger) : Geometry := L.boot.elim ⟨0, 0, 0, 0⟩ fun x => bootGeometry x.2

/-- The slot after the scan of what `process_dir_sector` was handed. -/
def recordAfter (L : Ledger) (t : DriveTables) (s : Slot) : SlotRecord :=
  ((lastEntry s (L.dir.flatMap fun buff => entriesAt buff dirOffsets)).map
    (DriveEntry.toRecord L.geometry)).getD (t.slot s)

/-- Where the chain followed for a slot has got to. -/
def lastLink (L : Ledger) (s : Slot) (start : UInt32) : UInt32 :=
  ((L.links s).getLast?.map Prod.fst).getD start

/-- A record was found of the slot, and its chain followed to the end. -/
def Ends (L : Ledger) (s : Slot) (r : SlotRecord) : Prop :=
  s.present r ∧ ¬ inChain (L.lastLink s r.cluster)

/-- All that the slot was taken from has been read: the directory, and the FAT sectors of its chain. -/
def Rests (L : Ledger) (s : Slot) : Prop := L.dirRead = true ∧ ∀ x ∈ L.links s, x.2 = true

/-- The read of the boot sector failed. -/
def BootFailed (L : Ledger) : Prop := ∃ buff, L.boot = some (false, buff)

end Ledger

/-- The FAT on the way through the answers to its reads: the cached sector, whether the read that filled
it succeeded, and the answers to come. -/
structure Reading where
  fat : Fat
  ok : Bool
  answers : List (Int × Sector)

namespace Reading

/-- The entry of a cluster, and whether the FAT sector it is taken from has been read. -/
def lookup (cluster : UInt32) (x : Reading) : (UInt32 × Bool) × Reading :=
  if x.fat.offset = 0xffffffff ∨ cluster < x.fat.offset ∨ cluster > x.fat.offset + 127 then
    match x.answers with
    | [] => ((0, false), x)
    | (status, record) :: answers =>
        let fat : Fat := ⟨cluster &&& 0xffffff80, record⟩
        ((fat.entry (cluster &&& 0x7f), decide (status = 0)), ⟨fat, decide (status = 0), answers⟩)
  else ((x.fat.entry (cluster &&& 0x7f), x.ok), x)

/-- Along the chain of the root directory. -/
def root : Nat → UInt32 → Reading → Reading
  | 0, _, x => x
  | n + 1, cluster, x =>
      if inChain cluster then root n (x.lookup cluster).1.1 (x.lookup cluster).2 else x

/-- The entries that a scan for gaps follows. -/
def scan (g : Geometry) : Nat → UInt32 → UInt32 → Reading → List (UInt32 × Bool) × Reading
  | 0, _, _, x => ([], x)
  | n + 1, cluster, last, x =>
      if inChain cluster then
        match gapInCluster g.sectorsPerCluster.toNat (getLba g cluster) last with
        | none => ([], x)
        | some last =>
            let (link, x) := x.lookup cluster
            let (links, x) := scan g n link.1 last x
            (link :: links, x)
      else ([], x)

/-- The scans of the slots that have a record, one after the other. -/
def scans (g : Geometry) (n : Nat) :
    List (Slot × SlotRecord) → Reading → List (Slot × List (UInt32 × Bool)) × Reading
  | [], x => ([], x)
  | (s, r) :: rest, x =>
      let (links, x) := if s.present r then x.scan g n r.cluster 0 else ([], x)
      let (chains, x) := scans g n rest x
      ((s, links) :: chains, x)

end Reading

namespace Ledger

variable (L : Ledger) (fuel : Nat) (stack : Stack) (t : DriveTables)

/-- The entries on the chains of the slots by the answers to the reads, each with whether the FAT sector
it is taken from has been read. The root directory takes the first answers, and then the slots in order. -/
def chains : List (Slot × List (UInt32 × Bool)) :=
  ((Reading.root fuel L.geometry.rootDirectoryFirstCluster ⟨stack.fat32.fat, false, L.fats⟩).scans
    L.geometry fuel (checkedSlots.map fun s => (s, L.recordAfter t s))).1

/-- The entries on the chain of a slot. -/
def chainOf (s : Slot) : List (UInt32 × Bool) := ((L.chains fuel stack t).lookup s).getD []

/-- By the answers to the reads the slot has a record, and its chain an end. -/
def Closes (s : Slot) : Prop :=
  s.present (L.recordAfter t s) ∧
    ¬ inChain (((L.chainOf fuel stack t s).getLast?.map Prod.fst).getD (L.recordAfter t s).cluster)

/-- All that they say of the slot has been read: the directory, and the FAT sectors of its chain. -/
def Backed (s : Slot) : Prop := L.dirRead = true ∧ ∀ x ∈ L.chainOf fuel stack t s, x.2 = true

instance (s : Slot) : Decidable (L.Closes fuel stack t s) := inferInstanceAs (Decidable (_ ∧ ¬ _))

instance (s : Slot) : Decidable (L.Backed fuel stack t s) :=
  haveI := List.decidableBAll (fun x : UInt32 × Bool => x.2 = true) (L.chainOf fuel stack t s)
  inferInstanceAs (Decidable (_ ∧ ∀ x ∈ L.chainOf fuel stack t s, x.2 = true))

/-- The boot sector, as it was read, has its signature. -/
def Signed : Prop := ∃ ok boot, L.boot = some (ok, boot) ∧ isSigned boot = true

end Ledger

/-- No slot is advertised without what it depends on having been read, and `init_disk` fails if the
boot sector has not. -/
def NeverTaken (L : Ledger) (r : Int) (t : DriveTables) : Prop :=
  (L.BootFailed → r ≠ 0) ∧
    ∀ s, s.Checked → t.advertised s = true → (∃ buff, L.boot = some (true, buff)) ∧ L.Rests s

/-- The program returns with `Q` of the result and the ledger. -/
abbrev Notes {α : Type} (m : Medium) (Q : α → Ledger → Prop) (p : MountProg α) (L : Ledger) : Prop :=
  Prog.wlp (MayFail m) Ledger.note (fun _ _ => True) Q p L

section Takes

variable {β γ : Type} {f : Reading → β × Reading} {b : β} {fat fat₁ fat' : Fat} {L L₁ L' : Ledger}

/-- From one cached sector to the other `f` takes the answers that come between the two ledgers, whatever
is behind them. -/
def Takes (f : Reading → β × Reading) (b : β) (fat fat' : Fat) (L L' : Ledger) : Prop :=
  ∃ answers, L'.fats = L.fats ++ answers ∧
    ∀ rest, f ⟨fat, L.fatRead, answers ++ rest⟩ = (b, ⟨fat', L'.fatRead, rest⟩)

theorem Takes.none (hfats : L'.fats = L.fats) (hread : L'.fatRead = L.fatRead)
    (hf : ∀ x, f x = (b, x)) : Takes f b fat fat L L' := by
  refine ⟨[], by rw [hfats, List.append_nil], fun rest => ?_⟩
  rw [hf, hread, List.nil_append]

theorem Takes.bind {k : β → Reading → γ × Reading} {c : γ} (h : Takes f b fat fat₁ L L₁)
    (hk : Takes (k b) c fat₁ fat' L₁ L') : Takes (fun x => k (f x).1 (f x).2) c fat fat' L L' := by
  obtain ⟨answers, hfats, hf⟩ := h
  obtain ⟨answers', hfats', hk⟩ := hk
  refine ⟨answers ++ answers', by rw [hfats', hfats, List.append_assoc], fun rest => ?_⟩
  simp only [List.append_assoc, hf, hk]

theorem Takes.map (g : β → γ) (h : Takes f b fat fat' L L') :
    Takes (fun x => (g (f x).1, (f x).2)) (g b) fat fat' L L' := by
  obtain ⟨answers, hfats, hf⟩ := h
  refine ⟨answers, hfats, fun rest => ?_⟩
  simp only [hf]

theorem Takes.of_eq {f' : Reading → β × Reading} (h : Takes f b fat fat' L L') (heq : ∀ x, f' x = f x) :
    Takes f' b fat fat' L L' := by
  obtain rfl : f' = f := funext heq
  exact h

/-- A lookup that reads a FAT sector. -/
theorem Takes.miss {cluster : UInt32} (status : Int) (record : Sector) (hmiss : fat.offset = 0xffffffff ∨
      cluster < fat.offset ∨ cluster > fat.offset + 127)
    (hfats : L'.fats = L.fats ++ [(status, record)]) (hread : L'.fatRead = decide (status = 0)) :
    Takes (Reading.lookup cluster)
      (Fat.entry ⟨cluster &&& 0xffffff80, record⟩ (cluster &&& 0x7f), L'.fatRead)
      fat ⟨cluster &&& 0xffffff80, record⟩ L L' := by
  refine ⟨_, hfats, fun rest => ?_⟩
  simp only [Reading.lookup, if_pos hmiss, List.singleton_append, hread]

/-- A lookup in the cached sector. -/
theorem Takes.hit {cluster : UInt32} (hhit : ¬ (fat.offset = 0xffffffff ∨ cluster < fat.offset ∨
      cluster > fat.offset + 127)) (hfats : L'.fats = L.fats) (hread : L'.fatRead = L.fatRead) :
    Takes (Reading.lookup cluster) (fat.entry (cluster &&& 0x7f), L'.fatRead) fat fat L L' := by
  refine ⟨[], by rw [hfats, List.append_nil], fun rest => ?_⟩
  simp only [Reading.lookup, if_neg hhit, List.nil_append, hread]

end Takes

section Walk

variable {m : Medium}

/-- Between the two ledgers the directory sectors `buffs` were read, and no slot's chain followed. -/
structure Walked (buffs : List Sector) (L L' : Ledger) : Prop where
  boot : L'.boot = L.boot
  dir : L'.dir = L.dir ++ buffs
  scanning : L'.scanning = L.scanning
  links : L'.links = L.links

theorem Walked.trans {buffs buffs' : List Sector} {L L₁ L' : Ledger} (h : Walked buffs L L₁)
    (h' : Walked buffs' L₁ L') : Walked (buffs ++ buffs') L L' where
  boot := h'.boot.trans h.boot
  dir := by rw [h'.dir, h.dir, List.append_assoc]
  scanning := h'.scanning.trans h.scanning
  links := h'.links.trans h.links

theorem Walked.refl (L : Ledger) : Walked [] L L := ⟨rfl, (List.append_nil _).symm, rfl, rfl⟩

/-- A read of a directory sector. -/
theorem Walked.read {L : Ledger} {x : Bool × Sector} (hboot : L.boot = some x) (status : Int)
    (buff : Sector) : Walked [buff] L (L.readData status buff) := by
  unfold Ledger.readData
  rw [hboot]
  exact ⟨hboot.symm, rfl, rfl, rfl⟩

/-- The tables after some directory sectors. -/
def scanBuffs (g : Geometry) (buffs : List Sector) (t : DriveTables) : DriveTables :=
  buffs.foldl (fun t buff => processDirEntries g buff dirOffsets t) t

theorem readCluster_notes (pfat32 : Fat32) (k : Nat) (lba : UInt32) (buff : Sector)
    (t : DriveTables) {L : Ledger} {x : Bool × Sector} (hboot : L.boot = some x) :
    Notes m (fun r L' => (L'.fats = L.fats ∧ L'.fatRead = L.fatRead) ∧
        ∃ buffs, r.2 = scanBuffs pfat32.toGeometry buffs t ∧ Walked buffs L L')
      (unmarked (readCluster processDirSector pfat32 k lba buff t)) L := by
  induction k generalizing lba buff t L with
  | zero => exact ⟨⟨rfl, rfl⟩, [], rfl, .refl L⟩
  | succ k ih =>
    rintro ⟨status, buff'⟩ -
    have hread := Walked.read hboot status buff'
    refine ⟨trivial, Prog.wlp_mono ?_ (ih (lba + 1) buff' (processDirSector pfat32 buff' t)
      (hread.boot.trans hboot))⟩
    have hfat : (L.readData status buff').fats = L.fats ∧ (L.readData status buff').fatRead = L.fatRead := by
      unfold Ledger.readData
      rw [hboot]
      exact ⟨rfl, rfl⟩
    rintro r L' ⟨⟨hfats, hok⟩, buffs, hr, hwalked⟩
    exact ⟨⟨hfats.trans hfat.1, hok.trans hfat.2⟩, buff' :: buffs, hr, hread.trans hwalked⟩

/-- A lookup while no slot's chain is followed. -/
theorem getNextClusterMarked_walks (pfat32 : Fat32) (cluster : UInt32) {L : Ledger}
    (hscan : L.scanning = none) :
    Notes m (fun r L' => r.2.toGeometry = pfat32.toGeometry ∧
        Takes (Reading.lookup cluster) (r.1, L'.fatRead) pfat32.fat r.2.fat L L' ∧ Walked [] L L')
      (getNextClusterMarked pfat32 cluster) L := by
  have hfound : ∀ (L' : Ledger) e, L'.scanning = none → L'.note ⟨.found pfat32 cluster e, ()⟩ = L' := by
    intro L' e hnone
    unfold Ledger.note
    rw [hnone]
  unfold getNextClusterMarked getNextCluster
  by_cases hmiss : pfat32.fat.offset = 0xffffffff ∨ cluster < pfat32.fat.offset ∨
      cluster > pfat32.fat.offset + 127
  · rw [if_pos hmiss]
    rintro ⟨status, record⟩ -
    refine ⟨trivial, fun _ _ => ⟨trivial, rfl, ?_⟩⟩
    rw [Ledger.note_readFat, hfound { L with fats := _, fatRead := decide (status = 0) } _ hscan]
    exact ⟨.miss status record hmiss rfl rfl, rfl, (List.append_nil _).symm, rfl, rfl⟩
  · rw [if_neg hmiss]
    refine fun _ _ => ⟨trivial, rfl, ?_⟩
    rw [hfound L _ hscan]
    exact ⟨.hit hmiss rfl rfl, .refl L⟩

theorem readFileMarked_notes {fuel : Nat} {pfat32 : Fat32} {cluster : UInt32} {buff : Sector}
    {t : DriveTables} {L : Ledger} {x : Bool × Sector} (hboot : L.boot = some x)
    (hscan : L.scanning = none) :
    Notes m (fun r L' => r.1.toGeometry = pfat32.toGeometry ∧
        Takes (fun x => ((), Reading.root fuel cluster x)) () pfat32.fat r.1.fat L L' ∧
        ∃ buffs, r.2 = scanBuffs pfat32.toGeometry buffs t ∧ Walked buffs L L')
      (readFileMarked fuel pfat32 cluster buff t) L := by
  induction fuel generalizing pfat32 cluster buff t L with
  | zero => exact fun r => r.elim
  | succ fuel ih =>
    unfold readFileMarked
    by_cases hc : inChain cluster
    · rw [if_pos hc]
      refine Prog.wlp_seq (readCluster_notes pfat32 _ _ _ _ hboot) ?_
      rintro ⟨buff₁, t₁⟩ L₁ ⟨⟨hfats, hok⟩, buffs, ht₁, hwalked₁⟩
      refine Prog.wlp_seq (getNextClusterMarked_walks pfat32 cluster
        (hwalked₁.scanning.trans hscan)) ?_
      rintro ⟨next, pfat32'⟩ L₂ ⟨hg, hlookup, hwalked₂⟩
      have hwalked := hwalked₁.trans hwalked₂
      refine Prog.wlp_mono ?_ (ih (hwalked.boot.trans hboot) (hwalked.scanning.trans hscan))
      rintro r L' ⟨hgr, hrest, buffs', hr, hwalked'⟩
      have hg : pfat32'.toGeometry = pfat32.toGeometry := hg
      have hsame : Takes (fun x => ((), x)) () pfat32.fat pfat32.fat L L₁ := .none hfats hok fun _ => rfl
      refine ⟨hgr.trans hg, ?_, buffs ++ buffs', ?_, ?_⟩
      · have hboth := hsame.bind (k := fun _ => Reading.lookup cluster) hlookup
        refine (hboth.bind (b := (next, L₂.fatRead)) (k := fun link x => ((), Reading.root fuel link.1 x))
          hrest).of_eq ?_
        intro x
        simp only [Reading.root, if_pos hc]
      · rw [hr, hg, show t₁ = _ from ht₁]
        unfold scanBuffs
        rw [List.foldl_append]
      · have hall := hwalked.trans hwalked'
        rwa [List.append_nil] at hall
    · rw [if_neg hc]
      refine ⟨rfl, .none rfl rfl ?_, [], rfl, .refl L⟩
      intro x
      simp only [Reading.root, if_neg hc]

end Walk

section Checks

variable {m : Medium}

/-- Between the two ledgers the chain of the slot was followed through `entries`. -/
structure Followed (s : Slot) (entries : List (UInt32 × Bool)) (L L' : Ledger) : Prop where
  boot : L'.boot = L.boot
  dir : L'.dir = L.dir
  scanning : L'.scanning = L.scanning
  links : L'.links s = L.links s ++ entries
  links_of_ne : ∀ s', s' ≠ s → L'.links s' = L.links s'

theorem Followed.refl (s : Slot) (L : Ledger) : Followed s [] L L :=
  ⟨rfl, rfl, rfl, (List.append_nil _).symm, fun _ _ => rfl⟩

theorem Followed.trans {s : Slot} {entries entries' : List (UInt32 × Bool)} {L L₁ L' : Ledger}
    (h : Followed s entries L L₁) (h' : Followed s entries' L₁ L') :
    Followed s (entries ++ entries') L L' where
  boot := h'.boot.trans h.boot
  dir := h'.dir.trans h.dir
  scanning := h'.scanning.trans h.scanning
  links := by rw [h'.links, h.links, List.append_assoc]
  links_of_ne s' hne := (h'.links_of_ne s' hne).trans (h.links_of_ne s' hne)

theorem Followed.follow (s : Slot) (L : Ledger) (entry : UInt32) :
    Followed s [(entry, L.fatRead)] L (L.follow s entry) :=
  ⟨rfl, rfl, rfl, if_pos rfl, fun _ hne => if_neg hne⟩

/-- A lookup for a slot. -/
theorem getNextClusterMarked_follows (pfat32 : Fat32) (cluster : UInt32) {s : Slot} {L : Ledger}
    (hscan : L.scanning = some s) :
    Notes m (fun r L' => r.2.toGeometry = pfat32.toGeometry ∧
        Takes (Reading.lookup cluster) (r.1, L'.fatRead) pfat32.fat r.2.fat L L' ∧
        Followed s [(r.1, L'.fatRead)] L L')
      (getNextClusterMarked pfat32 cluster) L := by
  have hfound : ∀ (L' : Ledger) e, L'.scanning = some s →
      L'.note ⟨.found pfat32 cluster e, ()⟩ = L'.follow s e := by
    intro L' e hsome
    unfold Ledger.note
    rw [hsome]
  unfold getNextClusterMarked getNextCluster
  by_cases hmiss : pfat32.fat.offset = 0xffffffff ∨ cluster < pfat32.fat.offset ∨
      cluster > pfat32.fat.offset + 127
  · rw [if_pos hmiss]
    rintro ⟨status, record⟩ -
    refine ⟨trivial, fun _ _ => ⟨trivial, rfl, ?_⟩⟩
    rw [Ledger.note_readFat, hfound { L with fats := _, fatRead := decide (status = 0) } _ hscan]
    exact ⟨.miss status record hmiss rfl rfl, rfl, rfl, rfl, if_pos rfl, fun _ hne => if_neg hne⟩
  · rw [if_neg hmiss]
    refine fun _ _ => ⟨trivial, rfl, ?_⟩
    rw [hfound L _ hscan]
    exact ⟨.hit hmiss rfl rfl, .follow s L _⟩

/-- `file_has_gaps` returns 0 exactly if the last entry it followed ends the chain. -/
theorem fileHasGapsMarked_follows {fuel : Nat} {pfat32 : Fat32} {cluster last : UInt32} {s : Slot}
    {L : Ledger} (hscan : L.scanning = some s) :
    Notes m (fun r L' => r.2.toGeometry = pfat32.toGeometry ∧ ∃ entries,
        Takes (Reading.scan pfat32.toGeometry fuel cluster last) entries pfat32.fat r.2.fat L L' ∧
        Followed s entries L L' ∧
        (r.1 ≠ 0 ↔ inChain ((entries.getLast?.map Prod.fst).getD cluster)))
      (fileHasGapsMarked fuel pfat32 cluster last) L := by
  induction fuel generalizing pfat32 cluster last L with
  | zero => exact fun r => r.elim
  | succ fuel ih =>
    unfold fileHasGapsMarked
    by_cases hc : inChain cluster
    · rw [if_pos hc]
      cases hgap : gapInCluster pfat32.sectorsPerCluster.toNat (getLba pfat32.toGeometry cluster) last with
      | none =>
        refine ⟨rfl, [], .none rfl rfl ?_, .refl s L, fun _ => hc, fun _ => Int.one_ne_zero⟩
        intro x
        simp only [Reading.scan, if_pos hc, hgap]
      | some last' =>
        refine Prog.wlp_seq (getNextClusterMarked_follows pfat32 cluster hscan) ?_
        rintro ⟨next, pfat32'⟩ L₁ ⟨hg, hlookup, hfirst⟩
        have hg : pfat32'.toGeometry = pfat32.toGeometry := hg
        refine Prog.wlp_mono ?_ (ih (hfirst.scanning.trans hscan))
        rintro r L' ⟨hgr, entries, hscans, hrest, hiff⟩
        rw [hg] at hscans
        refine ⟨hgr.trans hg, (next, L₁.fatRead) :: entries, ?_, hfirst.trans hrest, ?_⟩
        · refine (hlookup.bind (b := (next, L₁.fatRead))
            (k := fun link x => (link :: (Reading.scan pfat32.toGeometry fuel link.1 last' x).1,
              (Reading.scan pfat32.toGeometry fuel link.1 last' x).2))
            (hscans.map fun links => (next, L₁.fatRead) :: links)).of_eq ?_
          intro x
          simp only [Reading.scan, if_pos hc, hgap]
        · rw [hiff, List.getLast?_cons]
          cases entries.getLast? <;> rfl
    · rw [if_neg hc]
      refine ⟨rfl, [], .none rfl rfl ?_, .refl s L, fun hne => absurd rfl hne, fun h => absurd h hc⟩
      intro x
      simp only [Reading.scan, if_neg hc]

/-- The checks of the slots `ss`: each gets its bit exactly if its chain was followed to the end, through
the entries that the answers give, and the other slots stay as they are. -/
structure JudgesAll (fuel : Nat) (ss : List Slot) (p : Fat32) (L : Ledger) (t : DriveTables) (p' : Fat32)
    (L' : Ledger) (t' : DriveTables) : Prop where
  boot : L'.boot = L.boot
  dir : L'.dir = L.dir
  geometry : p'.toGeometry = p.toGeometry
  bit : ∀ s ∈ ss, t.advertised s = false → L.links s = [] →
    (t'.advertised s = true ↔ L'.Ends s (t.slot s))
  takes : (∀ s ∈ ss, L.links s = []) →
    Takes (Reading.scans p.toGeometry fuel (ss.map fun s => (s, t.slot s)))
      (ss.map fun s => (s, L'.links s)) p.fat p'.fat L L'
  links_of_not : ∀ s, s ∉ ss → L'.links s = L.links s
  untouched : ∀ s, s.Checked → s ∉ ss → Untouched s t t'

variable {fuel : Nat} {ss ss' : List Slot} {p p₁ p' : Fat32} {L L₁ L' : Ledger} {t t₁ t' : DriveTables}

theorem JudgesAll.nil (fuel : Nat) (p : Fat32) (L : Ledger) (t : DriveTables) :
    JudgesAll fuel [] p L t p L t where
  boot := rfl
  dir := rfl
  geometry := rfl
  bit _ hs := absurd hs List.not_mem_nil
  takes _ := .none rfl rfl fun _ => rfl
  links_of_not _ _ := rfl
  untouched s _ _ := .refl s t

theorem scans_append (g : Geometry) (n : Nat) (l l' : List (Slot × SlotRecord)) (x : Reading) :
    Reading.scans g n (l ++ l') x =
      ((Reading.scans g n l x).1 ++ (Reading.scans g n l' (Reading.scans g n l x).2).1,
        (Reading.scans g n l' (Reading.scans g n l x).2).2) := by
  induction l generalizing x with
  | nil => rfl
  | cons y l ih =>
    simp only [List.cons_append, Reading.scans, ih]

theorem JudgesAll.append (h : JudgesAll fuel ss p L t p₁ L₁ t₁) (h' : JudgesAll fuel ss' p₁ L₁ t₁ p' L' t')
    (hdisj : ss.Disjoint ss') (hss : ∀ s ∈ ss ++ ss', s.Checked) :
    JudgesAll fuel (ss ++ ss') p L t p' L' t' where
  boot := h'.boot.trans h.boot
  dir := h'.dir.trans h.dir
  geometry := h'.geometry.trans h.geometry
  links_of_not s hs := by
    rcases not_or.mp fun hmem => hs (List.mem_append.mpr hmem) with ⟨hs₁, hs₂⟩
    rw [h'.links_of_not s hs₂, h.links_of_not s hs₁]
  untouched s hchecked hs := by
    rcases not_or.mp fun hmem => hs (List.mem_append.mpr hmem) with ⟨hs₁, hs₂⟩
    exact (h.untouched s hchecked hs₁).trans (h'.untouched s hchecked hs₂)
  bit s hs hclear hlinks := by
    have hchecked := hss s hs
    rcases List.mem_append.mp hs with hs | hs
    · have hnot : s ∉ ss' := hdisj hs
      unfold Ledger.Ends Ledger.lastLink
      rw [(h'.untouched s hchecked hnot).bit, h'.links_of_not s hnot]
      exact h.bit s hs hclear hlinks
    · have hnot : s ∉ ss := fun hmem => hdisj hmem hs
      have hsame := h.untouched s hchecked hnot
      rw [← hsame.slot]
      exact h'.bit s hs (hsame.bit.trans hclear) ((h.links_of_not s hnot).trans hlinks)
  takes hempty := by
    obtain ⟨hempty₁, hempty₂⟩ := List.forall_mem_append.mp hempty
    have hfirst := h.takes hempty₁
    have hnot : ∀ s ∈ ss', s ∉ ss := fun s hs hmem => hdisj hmem hs
    have hsecond := h'.takes fun s hs => (h.links_of_not s (hnot s hs)).trans (hempty₂ s hs)
    -- The first checks leave the records of the second alone, and the second the links of the first.
    have hrecords : (ss'.map fun s => (s, t₁.slot s)) = ss'.map fun s => (s, t.slot s) :=
      List.map_congr_left fun s hs => by
        rw [(h.untouched s (hss s (List.mem_append_right _ hs)) (hnot s hs)).slot]
    have hlinks : (ss.map fun s => (s, L₁.links s)) = ss.map fun s => (s, L'.links s) :=
      List.map_congr_left fun s hs => by rw [h'.links_of_not s (hdisj hs)]
    rw [h.geometry, hrecords] at hsecond
    rw [hlinks] at hfirst
    rw [List.map_append, List.map_append]
    refine (hfirst.bind (k := fun chains x => (chains ++ (Reading.scans p.toGeometry fuel
      (ss'.map fun s => (s, t.slot s)) x).1, (Reading.scans p.toGeometry fuel
        (ss'.map fun s => (s, t.slot s)) x).2)) (hsecond.map fun chains => _ ++ chains)).of_eq ?_
    exact scans_append _ _ _ _

/-- The check of one slot, after its chain was followed through `entries`. -/
theorem JudgesAll.one {s : Slot} {entries : List (UInt32 × Bool)} (gaps : Bool)
    (hfollowed : Followed s entries { L with scanning := some s } L')
    (htakes : Takes (Reading.scan p.toGeometry fuel (t.slot s).cluster 0) entries p.fat p'.fat
      { L with scanning := some s } L')
    (hg : p'.toGeometry = p.toGeometry) (hp : s.present (t.slot s))
    (hgaps : gaps = true ↔ inChain ((entries.getLast?.map Prod.fst).getD (t.slot s).cluster))
    (hbit : t.advertised s = false → t'.advertised s = !gaps)
    (huntouched : ∀ s', s'.Checked → s' ≠ s → Untouched s' t t') :
    JudgesAll fuel [s] p L t p' L' t' where
  boot := hfollowed.boot
  dir := hfollowed.dir
  geometry := hg
  links_of_not s' hs' := hfollowed.links_of_ne s' fun heq => hs' (List.mem_singleton.mpr heq)
  untouched s' hchecked hs' := huntouched s' hchecked fun heq => hs' (List.mem_singleton.mpr heq)
  bit s' hs' hclear hempty := by
    rw [List.mem_singleton] at hs'
    subst hs'
    have hall : L'.links s' = entries := by
      rw [hfollowed.links]
      show L.links s' ++ entries = entries
      rw [hempty, List.nil_append]
    unfold Ledger.Ends Ledger.lastLink
    rw [hbit hclear, hall, ← hgaps]
    cases gaps with
    | true => exact ⟨fun h => absurd h (by decide), fun h => absurd rfl h.2⟩
    | false => exact ⟨fun _ => ⟨hp, by decide⟩, fun _ => rfl⟩
  takes hempty := by
    have hall : L'.links s = entries := by
      rw [hfollowed.links]
      show L.links s ++ entries = entries
      rw [hempty s (List.mem_singleton_self s), List.nil_append]
    rw [List.map_singleton, List.map_singleton, hall]
    have htakes' : Takes (Reading.scan p.toGeometry fuel (t.slot s).cluster 0) entries p.fat p'.fat L L' :=
      htakes
    refine (htakes'.map fun links => [(s, links)]).of_eq fun x => ?_
    simp only [Reading.scans, if_pos hp]

theorem JudgesAll.absent {s : Slot} (fuel : Nat) (p : Fat32) (L : Ledger)
    (hp : ¬ s.present (t.slot s)) : JudgesAll fuel [s] p L t p L t where
  boot := rfl
  dir := rfl
  geometry := rfl
  links_of_not _ _ := rfl
  untouched s' _ _ := .refl s' t
  bit s' hs' hclear _ := by
    rw [List.mem_singleton] at hs'
    subst hs'
    rw [hclear]
    exact ⟨fun h => absurd h (by decide), fun h => absurd h.1 hp⟩
  takes hempty := by
    rw [List.map_singleton, List.map_singleton, hempty s (List.mem_singleton_self s)]
    refine .none rfl rfl fun x => ?_
    simp only [Reading.scans, if_neg hp]

theorem checkDiskMarked_judges (fuel : Nat) {i : Nat} (hi : i < 16) (pfat32 : Fat32)
    (t : DriveTables) (L : Ledger) :
    Notes m (fun r L' => JudgesAll fuel [.disk i] pfat32 L t r.1 L' r.2)
      (checkDiskMarked fuel i pfat32 t) L := by
  unfold checkDiskMarked
  by_cases hlba : t.diskLba i ≠ 0
  · rw [if_pos hlba]
    refine fun _ _ => ⟨trivial, Prog.wlp_seq (fileHasGapsMarked_follows (s := .disk i) rfl) ?_⟩
    rintro ⟨gaps, pfat32'⟩ L' ⟨hg, entries, htakes, hfollowed, hiff⟩
    by_cases hgaps : gaps ≠ 0
    · simp only [if_pos hgaps]
      exact .one true hfollowed htakes hg hlba ⟨fun _ => hiff.mp hgaps, fun _ => rfl⟩
        (advertised_judgeDisk true hi) fun s' hs' hne => judgeDisk_untouched true hi hs' hne
    · simp only [if_neg hgaps]
      exact .one false hfollowed htakes hg hlba
        ⟨fun h => absurd h (by decide), fun h => absurd (hiff.mpr h) hgaps⟩
        (advertised_judgeDisk false hi) fun s' hs' hne => judgeDisk_untouched false hi hs' hne
  · rw [if_neg hlba]
    exact .absent fuel pfat32 L hlba

theorem checkDisksMarked_judges (fuel : Nat) {is : List Nat} (hnodup : is.Nodup)
    (hlt : ∀ i ∈ is, i < 16) (pfat32 : Fat32) (t : DriveTables) (L : Ledger) :
    Notes m (fun r L' => JudgesAll fuel (is.map fun i : Nat => Slot.disk i) pfat32 L t r.1 L' r.2)
      (checkDisksMarked fuel is pfat32 t) L := by
  induction is generalizing pfat32 t L with
  | nil => exact .nil fuel pfat32 L t
  | cons i is ih =>
    rcases List.nodup_cons.mp hnodup with ⟨hnot, hnodup⟩
    rcases List.forall_mem_cons.mp hlt with ⟨hi, hrest⟩
    refine Prog.wlp_seq (checkDiskMarked_judges fuel hi pfat32 t L) ?_
    rintro ⟨pfat32', t₁⟩ L₁ hfirst
    refine Prog.wlp_mono ?_ (ih hnodup hrest pfat32' t₁ L₁)
    intro r L' hbehind
    refine hfirst.append hbehind ?_ fun s hs => ?_
    · intro s hs hs'
      rw [List.mem_singleton] at hs
      subst hs
      rcases List.mem_map.mp hs' with ⟨k, hk, heq⟩
      have hki : k = i := Int.ofNat.inj (Slot.disk.inj heq)
      exact hnot (hki ▸ hk)
    · rcases List.mem_map.mp (show s ∈ (i :: is).map fun i : Nat => Slot.disk i from hs) with
        ⟨k, hk, rfl⟩
      have hlt := hlt k hk
      exact ⟨Int.natCast_nonneg k, by omega⟩

theorem checkConfigMarked_judges (fuel : Nat) (pfat32 : Fat32) (t : DriveTables) (L : Ledger) :
    Notes m (fun r L' => ∃ p', JudgesAll fuel [.config] pfat32 L t p' L' r)
      (checkConfigMarked fuel pfat32 t) L := by
  unfold checkConfigMarked
  by_cases hcluster : t.cfgCluster ≠ 0
  · rw [if_pos hcluster]
    refine fun _ _ => ⟨trivial, Prog.wlp_seq (fileHasGapsMarked_follows (s := .config) rfl) ?_⟩
    rintro ⟨gaps, pfat32'⟩ L' ⟨hg, entries, htakes, hfollowed, hiff⟩
    by_cases hgaps : gaps ≠ 0
    · simp only [if_pos hgaps]
      exact ⟨pfat32', .one true hfollowed htakes hg hcluster ⟨fun _ => hiff.mp hgaps, fun _ => rfl⟩
        (advertised_judgeConfig true) fun s' hs' hne => judgeConfig_untouched true hs' hne⟩
    · simp only [if_neg hgaps]
      exact ⟨pfat32', .one false hfollowed htakes hg hcluster
        ⟨fun h => absurd h (by decide), fun h => absurd (hiff.mpr h) hgaps⟩
        (advertised_judgeConfig false) fun s' hs' hne => judgeConfig_untouched false hs' hne⟩
  · rw [if_neg hcluster]
    exact ⟨pfat32, .absent fuel pfat32 L hcluster⟩

end Checks

section Mount

variable {m : Medium} {stack : Stack} {t : DriveTables}

theorem scanBuffs_eq (g : Geometry) (buffs : List Sector) (t : DriveTables) :
    scanBuffs g buffs t =
      (buffs.flatMap fun buff => entriesAt buff dirOffsets).foldl (DriveTables.enter g) t := by
  induction buffs generalizing t with
  | nil => rfl
  | cons buff buffs ih =>
    unfold scanBuffs at ih ⊢
    rw [List.foldl_cons, ih, processDirEntries_eq, List.flatMap_cons, List.foldl_append]

/-- What a run has come to when it returns. -/
def Finished (fuel : Nat) (stack : Stack) (t : DriveTables) (r : Int × DriveTables) (L : Ledger) : Prop :=
  ∃ ok boot, L.boot = some (ok, boot) ∧ (ok = false → boot = stack.fsIdBuff) ∧
    ((isSigned boot = false ∧ r = (1, { t with diskBitmap := 0 })) ∨
      (isSigned boot = true ∧ r.1 = 0 ∧ ∀ s, s.Checked →
        (r.2.advertised s = true ↔ L.Ends s (L.recordAfter t s)) ∧
          L.links s = L.chainOf fuel stack t s))

theorem readFsId_notes : Notes m (fun r L => ∃ ok boot,
      L = { Ledger.start with boot := some (ok, boot) } ∧ (ok = false → boot = stack.fsIdBuff) ∧
        (isSigned boot = true → r.1 = 0 ∧ r.2.toGeometry = bootGeometry boot ∧
          r.2.fat = stack.fat32.fat) ∧ (isSigned boot = false → r.1 = 1))
    (unmarked (readFsId stack.fat32 stack.fsIdBuff)) .start := by
  rintro ⟨status, boot⟩ hanswer
  have hfailed : decide (status = 0) = false → boot = stack.fsIdBuff := by
    intro hne
    rcases hanswer with ⟨hzero, -⟩ | ⟨-, hold⟩
    · exact absurd hzero (of_decide_eq_false hne)
    · exact hold
  refine ⟨trivial, ?_⟩
  simp only [Prog.ret_bind]
  by_cases hsigned : isSigned boot = true
  · rw [if_pos hsigned]
    exact ⟨decide (status = 0), boot, rfl, hfailed, fun _ => ⟨rfl, rfl, rfl⟩,
      fun hno => absurd hsigned (by rw [hno]; decide)⟩
  · rw [if_neg hsigned]
    exact ⟨decide (status = 0), boot, rfl, hfailed, fun hyes => absurd hyes hsigned, fun _ => rfl⟩

/-- The chains that the slots were followed through are those that the answers give. -/
theorem chainOf_links {fuel : Nat} {p p₁ p' : Fat32} {L₀ L₁ L' : Ledger} {t₁ t' : DriveTables}
    (hroot : Takes (fun x => ((), Reading.root fuel p.rootDirectoryFirstCluster x)) () p.fat p₁.fat L₀ L₁)
    (hall : JudgesAll fuel checkedSlots p₁ L₁ t₁ p' L' t') (hfat : p.fat = stack.fat32.fat)
    (hfats : L₀.fats = []) (hread : L₀.fatRead = false) (hempty : ∀ s, L₁.links s = [])
    (hg : p.toGeometry = L'.geometry) (hg₁ : p₁.toGeometry = L'.geometry)
    (hslot : ∀ s, t₁.slot s = L'.recordAfter t s) {s : Slot} (hs : s.Checked) :
    L'.links s = L'.chainOf fuel stack t s := by
  obtain ⟨answers, hanswers, hboth⟩ := hroot.bind (k := fun _ => Reading.scans p₁.toGeometry fuel
    (checkedSlots.map fun s => (s, t₁.slot s))) (hall.takes fun s _ => hempty s)
  have hrest := hboth []
  rw [hfats, List.nil_append] at hanswers
  simp only [List.append_nil, ← hanswers, hread, hfat, hg, hg₁, hslot] at hrest
  unfold Ledger.chainOf Ledger.chains
  rw [hrest, List.lookup_graph _ (mem_checkedSlots hs), Option.getD_some]

theorem initDiskMarked_finishes (m : Medium) (fuel : Nat) (stack : Stack) (t : DriveTables) :
    Notes m (Finished fuel stack t) (initDiskMarked fuel stack t) .start := by
  refine Prog.wlp_seq readFsId_notes ?_
  rintro ⟨bad, pfat32⟩ L₀ ⟨ok, boot, rfl, hfailed, hyes, hno⟩
  by_cases hsigned : isSigned boot = true
  · rcases hyes hsigned with ⟨hbad, hg, hfat⟩
    have hbad : bad = 0 := hbad
    have hg : pfat32.toGeometry = bootGeometry boot := hg
    subst hbad
    refine Prog.wlp_seq (readFileMarked_notes (x := (ok, boot)) rfl rfl) ?_
    rintro ⟨pfat32₁, t₁⟩ L₁ ⟨hg₁, hroot, buffs, ht₁, hwalked⟩
    have hg₁ : pfat32₁.toGeometry = pfat32.toGeometry := hg₁
    have ht₁ : t₁ = scanBuffs pfat32.toGeometry buffs { t with diskBitmap := 0 } := ht₁
    have hlt : ∀ i ∈ List.range NR_DISKS, i < 16 := fun i hi => List.mem_range.mp hi
    refine Prog.wlp_seq (checkDisksMarked_judges fuel List.nodup_range hlt pfat32₁ t₁ L₁) ?_
    rintro ⟨pfat32₂, t₂⟩ L₂ hdisks
    refine Prog.wlp_seq (checkConfigMarked_judges fuel pfat32₂ t₂ L₂) ?_
    rintro t' L' ⟨p', hconfig⟩
    have hall : JudgesAll fuel checkedSlots pfat32₁ L₁ t₁ p' L' t' := by
      refine hdisks.append hconfig ?_ fun s hs => checked_of_mem hs
      intro s hs hs'
      rcases List.mem_map.mp hs with ⟨i, -, rfl⟩
      cases List.mem_singleton.mp hs'
    have hboot : L'.boot = some (ok, boot) := hall.boot.trans hwalked.boot
    have hgeometry : L'.geometry = bootGeometry boot := by
      unfold Ledger.geometry
      rw [hboot]
      rfl
    have hdir : L'.dir = buffs := hall.dir.trans hwalked.dir
    rw [scanBuffs_eq, hg] at ht₁
    have hslot : ∀ s, t₁.slot s = L'.recordAfter t s := by
      intro s
      unfold Ledger.recordAfter
      rw [ht₁, slot_foldl_enter, hdir, hgeometry]
      cases s <;> rfl
    have hlinks : ∀ s, L₁.links s = [] := congrFun hwalked.links
    refine ⟨ok, boot, hboot, hfailed, .inr ⟨hsigned, rfl, fun s hs => ⟨?_, ?_⟩⟩⟩
    · have hclear : t₁.advertised s = false := by
        unfold DriveTables.advertised
        rw [ht₁, bitmap_foldl_enter]
        exact Nat.zero_testBit _
      rw [← hslot s]
      exact hall.bit s (mem_checkedSlots hs) hclear (hlinks s)
    · exact chainOf_links hroot hall hfat rfl rfl hlinks (hg.trans hgeometry.symm)
        (hg₁.trans (hg.trans hgeometry.symm)) hslot hs
  · have hsigned : isSigned boot = false := Bool.eq_false_iff.mpr hsigned
    have hbad : bad = 1 := hno hsigned
    subst hbad
    exact ⟨ok, boot, rfl, hfailed, .inl ⟨hsigned, rfl⟩⟩

/-- Whatever reads fail, no failed read is taken for data exactly if the boot sector's read fails only
with an unsigned buffer on the stack, and, where what was read of it is signed, no other read fails that a
slot rests on which by the answers to the reads has a record and a chain that ends. `DISKx` names beyond
A .. P are taken to store in no variable used here. -/
theorem neverTaken_iff (m : Medium) (fuel : Nat) (stack : Stack) (t t' : DriveTables) (r : Int)
    (es : List (Issued MountOp MountResp)) (hrun : (initDiskMarked fuel stack t).Trace es (r, t'))
    (hreads : ∀ e ∈ es, MayFail m e) :
    NeverTaken (es.foldl Ledger.note .start) r t' ↔
      ((es.foldl Ledger.note .start).BootFailed → isSigned stack.fsIdBuff = false) ∧
        ((es.foldl Ledger.note .start).Signed → ∀ s, s.Checked →
          (es.foldl Ledger.note .start).Closes fuel stack t s →
            (es.foldl Ledger.note .start).Backed fuel stack t s) := by
  have hfinished := hrun.post (initDiskMarked_finishes m fuel stack t) hreads
  generalize es.foldl Ledger.note .start = L at hfinished ⊢
  rcases hfinished with ⟨ok, boot, hboot, hstale, ⟨hsigned, hr⟩ | ⟨hsigned, hr, hslots⟩⟩
  · -- `init_disk` returns 1 with no bit set
    cases hr
    have hclear : ∀ s, ({ t with diskBitmap := 0 } : DriveTables).advertised s = false :=
      fun s => Nat.zero_testBit _
    refine ⟨fun _ => ⟨?_, ?_⟩, fun _ => ⟨fun _ => by decide, fun s _ hbit => ?_⟩⟩
    · rintro ⟨buff, hfailed⟩
      rw [hboot] at hfailed
      cases hfailed
      rw [← hstale rfl]
      exact hsigned
    · rintro ⟨ok', boot', hboot', hsigned'⟩
      rw [hboot] at hboot'
      cases hboot'
      exact absurd (hsigned.symm.trans hsigned') (by decide)
    · rw [hclear s] at hbit
      cases hbit
  · have hr : r = 0 := hr
    subst hr
    have hcloses : ∀ s, s.Checked → (t'.advertised s = true ↔ L.Closes fuel stack t s) := by
      intro s hs
      unfold Ledger.Closes
      rw [← (hslots s hs).2]
      exact (hslots s hs).1
    have hbacked : ∀ s, s.Checked → (L.Rests s ↔ L.Backed fuel stack t s) := by
      intro s hs
      unfold Ledger.Backed
      rw [← (hslots s hs).2]
      exact Iff.rfl
    have hok : (L.BootFailed → isSigned stack.fsIdBuff = false) → ok = true := by
      intro hunsigned
      by_contra hne
      have hfalse : ok = false := Bool.eq_false_iff.mpr hne
      have hbuff := hunsigned ⟨boot, by rw [hboot, hfalse]⟩
      rw [← hstale hfalse, hsigned] at hbuff
      cases hbuff
    constructor
    · rintro ⟨hboot', htrusted⟩
      refine ⟨fun hfailed => absurd rfl (hboot' hfailed), fun _ s hs hends => ?_⟩
      exact (hbacked s hs).mp (htrusted s hs ((hcloses s hs).mpr hends)).2
    · rintro ⟨hunsigned, hrests⟩
      have htrue := hok hunsigned
      have hrests := hrests ⟨ok, boot, hboot, hsigned⟩
      refine ⟨fun ⟨buff, hfailed⟩ => ?_, fun s hs hadv => ?_⟩
      · rw [hboot, htrue] at hfailed
        cases hfailed
      · exact ⟨⟨boot, by rw [hboot, htrue]⟩, (hbacked s hs).mpr (hrests s hs ((hcloses s hs).mp hadv))⟩

/-- A medium on which the reads of some sectors fail. -/
def faulty (m : Medium) (fails : UInt32 → Bool) :
    ∀ o : MountOp, Ledger → Option (MountResp o × Ledger)
  | .sector (.read into sector old), L =>
      let answer : Int × Sector := if fails sector then (1, old) else (0, m sector)
      some (answer, L.note ⟨.sector (.read into sector old), answer⟩)
  | .sector (.write sector data), L => some (0, L.note ⟨.sector (.write sector data), 0⟩)
  | .sector .outOfFuel, _ => none
  | .scan s, L => some ((), L.note ⟨.scan s, ()⟩)
  | .found pfat32 cluster entry, L => some ((), L.note ⟨.found pfat32 cluster entry, ()⟩)

theorem faulty_mayFail (m : Medium) (fails : UInt32 → Bool) (o : MountOp) (L : Ledger)
    (r : MountResp o) (L' : Ledger) (h : faulty m fails o L = some (r, L')) :
    MayFail m ⟨o, r⟩ ∧ L' = L.note ⟨o, r⟩ := by
  cases o with
  | sector o =>
    cases o with
    | read into sector old =>
      cases h
      refine ⟨?_, rfl⟩
      by_cases hfails : fails sector = true
      · rw [if_pos hfails]
        exact .inr ⟨Int.one_ne_zero, rfl⟩
      · rw [if_neg hfails]
        exact .inl ⟨rfl, rfl⟩
    | write sector data =>
      cases h
      exact ⟨trivial, rfl⟩
    | outOfFuel => cases h
  | scan s =>
    cases h
    exact ⟨trivial, rfl⟩
  | found pfat32 cluster entry =>
    cases h
    exact ⟨trivial, rfl⟩

/-- The stick with two drives, but drive B starts at a cluster whose entry is in the second FAT sector. -/
def farStick : Medium := Function.update twinStick 3 (twinDir.set 58 131)

/-- That sector cannot be read. The entry taken for it is a gap, so drive B has no chain that ends, and drive
A rests on nothing that failed. -/
theorem neverTaken_iff_far : ∃ es t',
    (initDiskMarked 4 invalidStack .zero).Trace es (0, t') ∧ (∀ e ∈ es, MayFail farStick e) ∧
      (es.foldl Ledger.note .start).fats.map Prod.fst = [0, 1] ∧ t'.advertised (.disk 0) = true ∧
      NeverTaken (es.foldl Ledger.note .start) 0 t' := by
  have hrun : ((initDiskMarked 4 invalidStack .zero).exec (faulty farStick (· == 2)) .start).map
      (fun x => (x.1.1, x.2.boot.map Prod.fst, x.2.fats.map Prod.fst, x.1.2.advertised (.disk 0),
        checkedSlots.all fun s => decide (x.2.Closes 4 invalidStack .zero s →
          x.2.Backed 4 invalidStack .zero s))) = some (0, some true, [0, 1], true, true) := by
    decide +kernel
  rcases Option.map_eq_some_iff.mp hrun with ⟨⟨⟨r, t'⟩, L⟩, hexec, hout⟩
  rcases Prog.trace_of_exec (faulty_mayFail _ _) hexec with ⟨es, htrace, hreads, hL⟩
  simp only [Prod.mk.injEq] at hout
  rcases hout with ⟨rfl, hboot, hfats, hadv, hslots⟩
  subst hL
  refine ⟨es, t', htrace, hreads, hfats, hadv,
    (neverTaken_iff farStick 4 invalidStack .zero t' 0 es htrace hreads).mpr ⟨?_, fun _ s hs => ?_⟩⟩
  · rintro ⟨buff, hfailed⟩
    rw [hfailed] at hboot
    cases hboot
  · exact of_decide_eq_true (List.all_eq_true.mp hslots s (mem_checkedSlots hs))

/-- The FAT cannot be read, and the chain of drive A is followed through the zeros on the stack. -/
theorem unread_fat_followed : ¬ ∀ (m : Medium) (fuel : Nat) (stack : Stack) (t t' : DriveTables)
    (r : Int) (es : List (Issued MountOp MountResp)),
      (initDiskMarked fuel stack t).Trace es (r, t') → (∀ e ∈ es, MayFail m e) →
        NeverTaken (es.foldl Ledger.note .start) r t' := by
  intro h
  have hrun : ((initDiskMarked 2 invalidStack .zero).exec (faulty (stick stickDir) (· == 1))
      .start).map (fun x => (x.1.2.advertised (.disk 0), x.2.links (.disk 0))) =
        some (true, [(0, false)]) := by
    decide +kernel
  rcases Option.map_eq_some_iff.mp hrun with ⟨⟨⟨r, t'⟩, L⟩, hexec, hout⟩
  rcases Prog.trace_of_exec (faulty_mayFail _ _) hexec with ⟨es, htrace, hreads, hL⟩
  simp only [Prod.mk.injEq] at hout
  rcases hout with ⟨hadv, hlinks⟩
  have htaken := (h _ _ _ _ _ _ _ htrace hreads).2 (.disk 0) ⟨by decide, by decide⟩ hadv
  rw [← hL] at htaken
  have hread := htaken.2.2 (0, false) (by rw [hlinks]; exact List.mem_singleton.mpr rfl)
  cases hread

end Mount

end LptStore.Fs
