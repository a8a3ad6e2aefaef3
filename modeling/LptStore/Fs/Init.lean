import LptStore.Fs.Directory

/-!
# What `init_disk` leaves in the drive tables

On a medium whose reads succeed, and with the cached FAT sector invalid or the medium's, `init_disk`
computes a function of the tables and the medium (`initOn`): it enters the listed files and judges every
slot by the loop of `file_has_gaps`. A slot's judgement depends on that slot alone.
-/

namespace LptStore.Fs

open LptStore.Lib Function

/-- What the boot sector says. -/
def geometry (m : Medium) : Geometry := bootGeometry (m 0)

/-- `file_has_gaps` on a medium, from a start cluster: whether it finds a gap. -/
def Gaps (m : Medium) (cluster : UInt32) (gaps : Bool) : Prop :=
  Runs (gapStep m (geometry m)) (cluster, 0) gaps

/-- The files listed in the root directory, if it ends within `fuel` clusters. -/
def rootListed (m : Medium) (fuel : Nat) : Option (List DriveEntry) :=
  (trail (fatStep m (geometry m)) fuel (geometry m).rootDirectoryFirstCluster).map fun clusters =>
    listed m (fileSectors (geometry m) clusters)

namespace DriveTables

/-- The tables after the scan of a directory that lists `es`. -/
def scanned (m : Medium) (es : List DriveEntry) (t : DriveTables) : DriveTables :=
  es.foldl (enter (geometry m)) { t with diskBitmap := 0 }

/-- Drive `i` after its check. -/
def judgeDisk (t : DriveTables) (i : Nat) (gaps : Bool) : DriveTables :=
  if gaps then
    { t with
      diskLba := update t.diskLba i 0
      diskCluster := update t.diskCluster i 0 }
  else { t with diskBitmap := t.diskBitmap ||| 1 <<< UInt32.ofNat i }

/-- The configuration file after its check. -/
def judgeConfig (t : DriveTables) (gaps : Bool) : DriveTables :=
  if gaps then { t with cfgCluster := 0 }
  else { t with diskBitmap := t.diskBitmap ||| CONFIG_BLOCK }

end DriveTables

/-- A round of the loop over the drives, on a medium. -/
def checkedDisk (m : Medium) (fuel : Nat) (t : DriveTables) (i : Nat) : Option DriveTables :=
  if t.diskLba i ≠ 0 then
    (iterate (gapStep m (geometry m)) fuel (t.diskCluster i, 0)).map (t.judgeDisk i)
  else some t

/-- The check of the configuration file, on a medium. -/
def checkedConfig (m : Medium) (fuel : Nat) (t : DriveTables) : Option DriveTables :=
  if t.cfgCluster ≠ 0 then
    (iterate (gapStep m (geometry m)) fuel (t.cfgCluster, 0)).map t.judgeConfig
  else some t

/-- `init_disk` on a medium. -/
def initOn (m : Medium) (fuel : Nat) (t : DriveTables) : Option (Int × DriveTables) :=
  if isSigned (m 0) then do
    let es ← rootListed m fuel
    let t ← (List.range NR_DISKS).foldlM (checkedDisk m fuel) (t.scanned m es)
    let t ← checkedConfig m fuel t
    return (0, t)
  else some (1, { t with diskBitmap := 0 })

section Exec

variable {m : Medium} {fuel : Nat} {pfat32 : Fat32}

theorem checkDisk_reads {i : Nat} {t t' : DriveTables} (hg : pfat32.toGeometry = geometry m)
    (hcache : Coherent m pfat32) (h : checkedDisk m fuel t i = some t') :
    ∃ fat l, Reads m (checkDisk fuel i pfat32 t) ({ pfat32 with fat }, t') l ∧
      Coherent m { pfat32 with fat } ∧ dataReads l = [] := by
  unfold checkedDisk at h
  unfold checkDisk
  by_cases hlba : t.diskLba i ≠ 0
  · rw [if_pos hlba, ← hg] at h
    rw [if_pos hlba]
    rcases Option.map_eq_some_iff.mp h with ⟨gaps, hgaps, rfl⟩
    rcases fileHasGaps_reads hcache hgaps with ⟨fat, l, hrun, hcache', hl⟩
    refine ⟨fat, l ++ [], hrun.bind ?_, hcache', by rw [List.append_nil, hl]⟩
    cases gaps with
    | true => exact Reads.ret _
    | false => exact Reads.ret _
  · rw [if_neg hlba] at h ⊢
    cases h
    exact ⟨pfat32.fat, [], Reads.ret _, hcache, rfl⟩

theorem checkDisk_stuck {i : Nat} {t : DriveTables} (hg : pfat32.toGeometry = geometry m)
    (hcache : Coherent m pfat32) (h : checkedDisk m fuel t i = none) :
    Stuck m (checkDisk fuel i pfat32 t) := by
  unfold checkedDisk at h
  unfold checkDisk
  by_cases hlba : t.diskLba i ≠ 0
  · rw [if_pos hlba, ← hg] at h
    rw [if_pos hlba]
    exact (fileHasGaps_stuck hcache (Option.map_eq_none_iff.mp h)).bind _
  · rw [if_neg hlba] at h
    cases h

theorem checkDisks_reads {is : List Nat} {t t' : DriveTables}
    (hg : pfat32.toGeometry = geometry m) (hcache : Coherent m pfat32)
    (h : is.foldlM (checkedDisk m fuel) t = some t') :
    ∃ fat l, Reads m (checkDisks fuel is pfat32 t) ({ pfat32 with fat }, t') l ∧
      Coherent m { pfat32 with fat } ∧ dataReads l = [] := by
  induction is generalizing pfat32 t with
  | nil =>
    cases h
    exact ⟨pfat32.fat, [], Reads.ret _, hcache, rfl⟩
  | cons i is ih =>
    rw [List.foldlM_cons] at h
    rcases Option.bind_eq_some_iff.mp h with ⟨u, hu, hrest⟩
    rcases checkDisk_reads hg hcache hu with ⟨fat₁, l₁, hrun, hcache₁, hl₁⟩
    have hg₁ : ({ pfat32 with fat := fat₁ } : Fat32).toGeometry = geometry m := hg
    rcases ih hg₁ hcache₁ hrest with
      ⟨fat, l₂, htail, hcache', hl₂⟩
    refine ⟨fat, l₁ ++ l₂, hrun.bind htail, hcache', ?_⟩
    rw [dataReads_append, hl₁, hl₂]
    rfl

theorem checkDisks_stuck {is : List Nat} {t : DriveTables} (hg : pfat32.toGeometry = geometry m)
    (hcache : Coherent m pfat32) (h : is.foldlM (checkedDisk m fuel) t = none) :
    Stuck m (checkDisks fuel is pfat32 t) := by
  induction is generalizing pfat32 t with
  | nil => cases h
  | cons i is ih =>
    rw [List.foldlM_cons] at h
    cases hu : checkedDisk m fuel t i with
    | none => exact (checkDisk_stuck hg hcache hu).bind _
    | some u =>
      rw [hu] at h
      rcases checkDisk_reads hg hcache hu with ⟨fat₁, l₁, hrun, hcache₁, -⟩
      have hg₁ : ({ pfat32 with fat := fat₁ } : Fat32).toGeometry = geometry m := hg
      exact hrun.bind_stuck (ih hg₁ hcache₁ h)

theorem checkConfig_reads {t t' : DriveTables} (hg : pfat32.toGeometry = geometry m)
    (hcache : Coherent m pfat32) (h : checkedConfig m fuel t = some t') :
    ∃ l, Reads m (checkConfig fuel pfat32 t) t' l ∧ dataReads l = [] := by
  unfold checkedConfig at h
  unfold checkConfig
  by_cases hcluster : t.cfgCluster ≠ 0
  · rw [if_pos hcluster, ← hg] at h
    rw [if_pos hcluster]
    rcases Option.map_eq_some_iff.mp h with ⟨gaps, hgaps, rfl⟩
    rcases fileHasGaps_reads hcache hgaps with ⟨fat, l, hrun, -, hl⟩
    refine ⟨l ++ [], hrun.bind ?_, by rw [List.append_nil, hl]⟩
    cases gaps with
    | true => exact Reads.ret _
    | false => exact Reads.ret _
  · rw [if_neg hcluster] at h ⊢
    cases h
    exact ⟨[], Reads.ret _, rfl⟩

theorem checkConfig_stuck {t : DriveTables} (hg : pfat32.toGeometry = geometry m)
    (hcache : Coherent m pfat32) (h : checkedConfig m fuel t = none) :
    Stuck m (checkConfig fuel pfat32 t) := by
  unfold checkedConfig at h
  unfold checkConfig
  by_cases hcluster : t.cfgCluster ≠ 0
  · rw [if_pos hcluster, ← hg] at h
    rw [if_pos hcluster]
    exact (fileHasGaps_stuck hcache (Option.map_eq_none_iff.mp h)).bind _
  · rw [if_neg hcluster] at h
    cases h

end Exec

/-- The FAT cache as it lies on the stack is invalid, or holds a FAT sector of the medium. -/
def Stack.Coherent (m : Medium) (stack : Stack) : Prop :=
  Fs.Coherent m { stack.fat32 with toGeometry := geometry m }

theorem Stack.coherent_of_invalid (m : Medium) {stack : Stack}
    (h : stack.fat32.fat.offset = 0xffffffff) : stack.Coherent m := .inl h

section Init

variable {m : Medium} {fuel : Nat} {stack : Stack} {t : DriveTables}

theorem readFsId_reads (pfat32 : Fat32) (buff : Sector) :
    Reads m (readFsId pfat32 buff)
      (if isSigned (m 0) then (0, { pfat32 with toGeometry := geometry m }) else (1, pfat32))
      [.read .buff 0] := by
  have hboot := Reads.readSector (m := m) .buff 0 buff
  by_cases hsigned : isSigned (m 0) = true
  · refine hboot.bind ?_
    simp only [hsigned]
    exact Reads.ret _
  · refine hboot.bind ?_
    simp only [hsigned]
    exact Reads.ret _

/-- The data sectors that `init_disk` reads: the boot sector, and with its signature the root directory,
if that ends within `fuel` clusters. -/
def scanSectors (m : Medium) (fuel : Nat) : List UInt32 :=
  0 :: if isSigned (m 0) then
    ((trail (fatStep m (geometry m)) fuel (geometry m).rootDirectoryFirstCluster).map
      (fileSectors (geometry m))).getD []
  else []

/-- `init_disk` computes `initOn`, and `scanSectors` are the data sectors it reads. -/
theorem initDisk_scans {r : Int × DriveTables} (hcache : stack.Coherent m)
    (h : initOn m fuel t = some r) :
    ∃ l, Reads m (initDisk fuel stack t) r l ∧ dataReads l = scanSectors m fuel := by
  have hid := readFsId_reads (m := m) stack.fat32 stack.fsIdBuff
  have hg (fat : Fat) : (⟨geometry m, fat⟩ : Fat32).toGeometry = geometry m := rfl
  have hcache₀ : Coherent m { stack.fat32 with toGeometry := geometry m } := hcache
  unfold initOn at h
  unfold scanSectors
  by_cases hsigned : isSigned (m 0) = true
  · rw [if_pos hsigned] at h hid ⊢
    rcases Option.bind_eq_some_iff.mp h with ⟨es, hes, h⟩
    rcases Option.bind_eq_some_iff.mp h with ⟨u, hdisks, h⟩
    rcases Option.bind_eq_some_iff.mp h with ⟨u', hconfig, h⟩
    cases h
    rcases Option.map_eq_some_iff.mp hes with ⟨clusters, htrail, rfl⟩
    rcases readFile_reads (fun g buff t => processDirEntries g buff dirOffsets t) stack.fileBuff
      { t with diskBitmap := 0 } hcache₀ htrail with ⟨fat₁, l₁, hscan, hcache₁, hl₁⟩
    rw [scan_eq] at hscan
    rcases checkDisks_reads (hg fat₁) hcache₁ hdisks with
      ⟨fat₂, l₂, hcheck, hcache₂, hl₂⟩
    rcases checkConfig_reads (hg fat₂) hcache₂ hconfig with ⟨l₃, hcfg, hl₃⟩
    refine ⟨_, hid.bind (hscan.bind (hcheck.bind (hcfg.bind (Reads.ret _)))), ?_⟩
    rw [htrail, dataReads_append, dataReads_append, dataReads_append, dataReads_append, hl₁, hl₂, hl₃]
    simp only [Option.map_some, Option.getD_some, dataReads_nil, List.append_nil]
    rfl
  · rw [if_neg hsigned] at h hid ⊢
    cases h
    exact ⟨_, hid.bind (Reads.ret _), rfl⟩

theorem initDisk_reads {r : Int × DriveTables} (hcache : stack.Coherent m)
    (h : initOn m fuel t = some r) : ∃ l, Reads m (initDisk fuel stack t) r l := by
  rcases initDisk_scans hcache h with ⟨l, hl, -⟩
  exact ⟨l, hl⟩

theorem initDisk_stuck (hcache : stack.Coherent m) (h : initOn m fuel t = none) :
    Stuck m (initDisk fuel stack t) := by
  have hid := readFsId_reads (m := m) stack.fat32 stack.fsIdBuff
  have hg (fat : Fat) : (⟨geometry m, fat⟩ : Fat32).toGeometry = geometry m := rfl
  have hcache₀ : Coherent m { stack.fat32 with toGeometry := geometry m } := hcache
  unfold initOn at h
  by_cases hsigned : isSigned (m 0) = true
  · rw [if_pos hsigned] at h hid
    refine hid.bind_stuck ?_
    cases htrail : trail (fatStep m (geometry m)) fuel (geometry m).rootDirectoryFirstCluster with
    | none =>
      exact (readFile_stuck (fun g buff t => processDirEntries g buff dirOffsets t) stack.fileBuff
        { t with diskBitmap := 0 } hcache₀ htrail).bind _
    | some clusters =>
      rcases readFile_reads (fun g buff t => processDirEntries g buff dirOffsets t) stack.fileBuff
        { t with diskBitmap := 0 } hcache₀ htrail with ⟨fat₁, l₁, hscan, hcache₁, -⟩
      rw [scan_eq] at hscan
      refine hscan.bind_stuck ?_
      simp only [rootListed, htrail, Option.map_some, Option.bind_eq_bind, Option.bind_some] at h
      cases hdisks : (List.range NR_DISKS).foldlM (checkedDisk m fuel)
          (t.scanned m (listed m (fileSectors (geometry m) clusters))) with
      | none => exact (checkDisks_stuck (hg fat₁) hcache₁ hdisks).bind _
      | some u =>
        rw [hdisks] at h
        rcases checkDisks_reads (hg fat₁) hcache₁ hdisks with
          ⟨fat₂, l₂, hcheck, hcache₂, -⟩
        refine hcheck.bind_stuck ?_
        cases hconfig : checkedConfig m fuel u with
        | none => exact (checkConfig_stuck (hg fat₂) hcache₂ hconfig).bind _
        | some u' =>
          rw [Option.bind_some, hconfig] at h
          cases h
  · rw [if_neg hsigned] at h
    cases h

/-- What `init_disk` returns is what `initOn` computes, and it leaves the medium alone. -/
theorem initOn_of_exec {r : Int × DriveTables} {w : Bench} (hcache : stack.Coherent m)
    (h : (initDisk fuel stack t).exec Bench.answer ⟨m, []⟩ = some (r, w)) :
    initOn m fuel t = some r ∧ dataReads w.log = scanSectors m fuel := by
  cases hinit : initOn m fuel t with
  | none =>
    rw [initDisk_stuck hcache hinit []] at h
    cases h
  | some r' =>
    rcases initDisk_scans hcache hinit with ⟨l, hl, hdata⟩
    rw [hl []] at h
    cases h
    exact ⟨rfl, hdata⟩

theorem initOn_of_reads {r : Int × DriveTables} {l : List Touch} (hcache : stack.Coherent m)
    (h : Reads m (initDisk fuel stack t) r l) : initOn m fuel t = some r :=
  (initOn_of_exec hcache (h [])).1

end Init

end LptStore.Fs
