import LptStore.Msc.Interleave

/-!
# What a call reports

Where core 1 touches no flag that a callback has still to store, the three stores might as well be one
step. Over such steps `read_sector` and `write_sector` have proof outlines: as long as no transfer is
taken for another, a call that returns 0 has its own to show.
-/

namespace LptStore.Msc

open LptStore.Lib Function

/-- What the cores share once the callback at work has made its stores. -/
structure View extends Traffic where
  complete : Bool
  result : Bool
  prefetchingComplete : Bool

def Shared.view (s : Shared) : View where
  toTraffic := s.toTraffic
  complete := s.settled .complete
  result := s.settled .result
  prefetchingComplete := s.settled .prefetchingComplete

theorem Shared.not_pending {s : Shared} (h : s.stores = []) (f : Flag) : ¬ s.Pending f := by
  rintro ⟨x, hx, -⟩
  rw [h] at hx
  cases hx

/-- A flag that the callback has not still to store is settled. -/
theorem Shared.settled_apply {s : Shared} {f : Flag} (h : ¬ s.Pending f) :
    s.settled f = s.flags f := by
  unfold settled storeAll
  unfold Pending at h
  generalize s.flags = flags at *
  generalize s.stores = stores at *
  induction stores generalizing flags with
  | nil => rfl
  | cons x rest ih =>
    have hx : f ≠ x.1 := fun heq => h ⟨x, List.mem_cons_self, heq.symm⟩
    rw [List.foldl_cons, ih _ fun ⟨y, hy, heq⟩ => h ⟨y, List.mem_cons_of_mem x hy, heq⟩,
      update_of_ne hx]

/-- A store to such a flag might as well come behind those of the callback. -/
theorem Shared.settled_store {s : Shared} {f : Flag} (h : ¬ s.Pending f) (b : Bool) :
    Shared.settled { s with flags := update s.flags f b } = update s.settled f b := by
  unfold settled storeAll
  unfold Pending at h
  show s.stores.foldl _ (update s.flags f b) = _
  generalize s.flags = flags at *
  generalize s.stores = stores at *
  induction stores generalizing flags with
  | nil => rfl
  | cons x rest ih =>
    have hx : f ≠ x.1 := fun heq => h ⟨x, List.mem_cons_self, heq.symm⟩
    rw [List.foldl_cons, List.foldl_cons, update_comm hx,
      ih _ fun ⟨y, hy, heq⟩ => h ⟨y, List.mem_cons_of_mem x hy, heq⟩]

namespace View

/-- The only transfer under way completes. While a call is running whose own transfer has failed, it does
not pass. -/
inductive Env (running : Bool) : View → View → Prop
  | complete {v : View} {job : Job} {passed : Bool} (data : Sector) : v.underWay = [job] →
      (running = true → OwnCompleted v.completed v.calls false → passed = false) →
      Env running v {
        toTraffic := v.finish 0 job passed data
        complete := true
        result := !passed
        prefetchingComplete := true }

/-- An operation of a call between whose own steps completions are single steps. -/
def Act (c : Call) : (o : MscOp) → View → MscResp o → View → Prop
  | .load .result, v, failed, v' => failed = v.result ∧ v' = v
  | .load _, v, _, v' => v' = v
  | .store .complete b, v, _, v' => v' = { v with complete := b }
  | .store .prefetchingComplete b, v, _, v' => v' = { v with prefetchingComplete := b }
  | .store .result b, v, _, v' => v' = { v with result := b }
  | .store _ _, v, _, v' => v' = v
  | .spin .complete, v, _, v' => v.complete = true ∧ v' = v
  | .spin .prefetchingComplete, v, _, v' =>
      (v.prefetchingComplete = true ∧ ∀ sector buff, c = .read sector buff →
        v.prefetchingLba = sector → v.result = false → v.prefetch = .passed) ∧ v' = v
  | .spin _, v, _, v' => v' = v
  | .loadLba, v, lba, v' => lba = v.prefetchingLba ∧ v' = v
  | .storeLba sector, v, _, v' => v' = { v with prefetchingLba := sector }
  | .copyPrefetch, v, _, v' => v' = { v with buff := v.prefetchingBuff }
  | .read10 dst sector, v, accepted, v' =>
      v' = { v with toTraffic := v.request accepted (.read dst sector) }
  | .write10 sector data, v, accepted, v' =>
      (accepted = true → v.complete = false) ∧
        v' = { v with toTraffic := v.request accepted (.write sector data) }

end View

section Refinement

variable {s t : Shared} {c : Call}

/-- An operation of core 1 as its step on the view. -/
theorem perform_act {accepted : Bool} {o : MscOp} {r : MscResp o}
    (hclear : ∀ f, o.flag = some f → ¬ s.Pending f) (hexp : s.Expected accepted c o)
    (h : s.perform accepted o = some (r, t)) : View.Act c o s.view r t.view := by
  cases o with
  | load f =>
    cases h
    cases f with
    | result => exact ⟨(Shared.settled_apply (hclear .result rfl)).symm, rfl⟩
    | _ => rfl
  | store f b =>
    cases h
    have hstore := Shared.settled_store (hclear f rfl) b
    cases f <;> simp [View.Act, Shared.view, hstore]
  | spin f =>
    have hflag := Shared.settled_apply (hclear f rfl)
    rcases Option.ite_none_right_eq_some.mp h with ⟨hf, heq⟩
    cases heq
    cases f with
    | complete => exact ⟨hflag.trans hf, rfl⟩
    | prefetchingComplete =>
      refine ⟨⟨hflag.trans hf, ?_⟩, rfl⟩
      rintro sector buff rfl hlba hresult
      exact hexp hlba hresult
    | _ => rfl
  | loadLba =>
    cases h
    exact ⟨rfl, rfl⟩
  | storeLba sector =>
    cases h
    rfl
  | copyPrefetch =>
    cases h
    rfl
  | read10 dst sector =>
    cases h
    rfl
  | write10 sector data =>
    cases h
    refine ⟨fun haccepted => ?_, rfl⟩
    cases c <;> exact hexp haccepted

end Refinement

section Assertions

/-- The transfer that a call waits for. -/
def Call.transfer : Call → Transfer
  | .read sector _ => .read .buff sector
  | .write sector data => .write sector data

theorem isPrefetch_transfer (c : Call) : c.transfer.isPrefetch = false := by
  cases c <;> rfl

theorem Delivered.append {completed : List Completion} {sector : UInt32} {data : Sector}
    (h : Delivered completed sector data) (x : Completion) :
    Delivered (completed ++ [x]) sector data := by
  rcases h with ⟨y, hy, hrest⟩
  exact ⟨y, List.mem_append_left _ hy, hrest⟩

namespace View

/-- The prefetched copy is of the sector its tag names. -/
def Copied (v : View) : Prop :=
  v.prefetch = .passed → Delivered v.completed v.prefetchingLba v.prefetchingBuff

/-- No transfer is under way. -/
structure Quiet (v : View) : Prop where
  none : v.underWay = []
  copied : v.Copied

/-- Nothing but the last prefetch is under way, and it is waited for. -/
structure Between (v : View) : Prop where
  prefetches : ∀ j ∈ v.underWay, j.transfer = .read .prefetchingBuff v.prefetchingLba
  waited : v.prefetchingComplete = true → v.underWay = []
  copied : v.Copied

/-- The call has what the result 0 promises, or has failed and `result` says so. -/
def Settled (c : Call) (v : View) : Prop :=
  v.Earned c ∨ OwnCompleted v.completed v.calls false ∧ v.result = true

/-- The call waits for its transfer, or this has just completed. -/
structure Awaits (c : Call) (v : View) : Prop where
  waiting : v.complete = false → ∃ js, v.underWay = js ++ [⟨v.calls, c.transfer⟩]
  done : v.complete = true → v.underWay = [] ∧ v.Settled c
  copied : v.Copied

/-- What a call leaves when it returns. -/
def Post (c : Call) (r : Int) (v : View) : Prop := v.Between ∧ (r = 0 → v.Earned c)

variable {running : Bool} {c : Call}

theorem Quiet.between {v : View} (h : v.Quiet) : v.Between where
  prefetches j hj := by
    rw [h.none] at hj
    cases hj
  waited _ := h.none
  copied := h.copied

/-- With nothing under way nothing can complete. -/
theorem stable_of_none {A : View → Prop} (h : ∀ v, A v → v.underWay = []) :
    Stable (Env running) A := by
  intro v v' hv hstep
  cases hstep with
  | complete _ hunder _ =>
    rw [h v hv] at hunder
    cases hunder

/-- A prefetch that completes. -/
theorem Between.finish {v : View} {job : Job} (h : v.Between) (hunder : v.underWay = [job])
    (passed : Bool) (data : Sector) (flag : Bool) :
    Between {
      toTraffic := v.finish 0 job passed data
      complete := true
      result := flag
      prefetchingComplete := true } := by
  have hjob : job.transfer = .read .prefetchingBuff v.prefetchingLba :=
    h.prefetches job (hunder ▸ List.mem_singleton.mpr rfl)
  have hnone : (v.finish 0 job passed data).underWay = [] := by
    show v.underWay.eraseIdx 0 = []
    rw [hunder]
    rfl
  refine Quiet.between ⟨hnone, fun hpassed => ?_⟩
  unfold Traffic.finish at hpassed ⊢
  rw [hjob] at hpassed ⊢
  cases passed with
  | true => exact ⟨⟨job, true, data⟩, List.mem_append_right _ (List.mem_singleton.mpr rfl),
      ⟨_, hjob⟩, rfl, rfl⟩
  | false => cases hpassed

theorem stable_between : Stable (Env running) Between := by
  intro v v' hv hstep
  cases hstep with
  | complete data hunder _ => exact hv.finish hunder _ data _

/-- A prefetch that completes takes nothing from a call. -/
theorem Between.earned_finish {v : View} {job : Job} (h : v.Between) (hunder : v.underWay = [job])
    (hearned : v.Earned c) (passed : Bool) (data : Sector) :
    (v.finish 0 job passed data).Earned c := by
  have hjob : job.transfer = .read .prefetchingBuff v.prefetchingLba :=
    h.prefetches job (hunder ▸ List.mem_singleton.mpr rfl)
  unfold Traffic.finish
  rw [hjob]
  cases c with
  | read sector buff => exact Delivered.append hearned _
  | write sector data' =>
    rcases hearned with ⟨y, hy, hrest⟩
    exact ⟨y, List.mem_append_left _ hy, hrest⟩

theorem stable_post (r : Int) : Stable (Env running) (Post c r) := by
  intro v v' hv hstep
  refine ⟨stable_between v v' hv.1 hstep, fun hr => ?_⟩
  cases hstep with
  | complete data hunder _ => exact hv.1.earned_finish hunder (hv.2 hr) _ data

theorem stable_settled : Stable (Env true) fun v => v.Between ∧ v.Settled c := by
  intro v v' hv hstep
  refine ⟨stable_between v v' hv.1 hstep, ?_⟩
  cases hstep with
  | @complete job passed data hunder hfail =>
    rcases hv.2 with hearned | ⟨⟨y, hy, hown⟩, hresult⟩
    · exact .inl (hv.1.earned_finish hunder hearned _ data)
    · have hpassed : passed = false := hfail rfl ⟨y, hy, hown⟩
      subst hpassed
      refine .inr ⟨⟨y, List.mem_append_left _ hy, ?_⟩, rfl⟩
      rw [Traffic.finish_calls]
      exact hown

/-- A transfer that a call waits for completes. -/
theorem settled_finish {v : View} (passed : Bool) (data : Sector) :
    Settled c {
      toTraffic := v.finish 0 ⟨v.calls, c.transfer⟩ passed data
      complete := true
      result := !passed
      prefetchingComplete := true } := by
  have hmem : (⟨⟨v.calls, c.transfer⟩, passed, data⟩ : Completion) ∈
      v.completed ++ [⟨⟨v.calls, c.transfer⟩, passed, data⟩] :=
    List.mem_append_right _ (List.mem_singleton.mpr rfl)
  cases passed with
  | true =>
    left
    cases c with
    | read sector buff => exact ⟨_, hmem, ⟨_, rfl⟩, rfl, rfl⟩
    | write sector data' => exact ⟨_, hmem, rfl, rfl⟩
  | false =>
    refine .inr ⟨⟨_, hmem, ?_, isPrefetch_transfer c, rfl⟩, rfl⟩
    exact (Traffic.finish_calls _ _ _ _ _).symm

theorem copied_finish {v : View} (h : v.Copied) (passed : Bool) (data : Sector) :
    Copied {
      toTraffic := v.finish 0 ⟨v.calls, c.transfer⟩ passed data
      complete := true
      result := !passed
      prefetchingComplete := true } := by
  intro hpassed
  cases c with
  | read sector buff => exact (h hpassed).append _
  | write sector data' => exact (h hpassed).append _

theorem stable_awaits : Stable (Env running) (Awaits c) := by
  intro v v' hv hstep
  cases hstep with
  | @complete job passed data hunder _ =>
    cases hcomplete : v.complete with
    | true =>
      rw [(hv.done hcomplete).1] at hunder
      cases hunder
    | false =>
      rcases hv.waiting hcomplete with ⟨js, hjs⟩
      have hjob : job = ⟨v.calls, c.transfer⟩ := by
        rw [hunder] at hjs
        rcases List.append_eq_singleton_iff.mp hjs.symm with ⟨-, hown⟩ | ⟨-, hown⟩
        · cases hown
          rfl
        · cases hown
      subst hjob
      refine ⟨fun h => (nomatch h), fun _ => ⟨?_, settled_finish passed data⟩,
        copied_finish hv.copied passed data⟩
      rw [Traffic.finish_underWay, hunder]
      rfl

end View

end Assertions

section Outlines

open View

/-- `return result` after the call's transfer. -/
theorem returnResult_outline (c : Call) :
    Outline (Act c) (Env true) (Post c) returnResult fun v => v.Between ∧ v.Settled c := by
  refine .next (fun failed v => (v.Between ∧ v.Settled c) ∧ failed = v.result) stable_settled
    ?_ fun failed => ?_
  · rintro v failed _ hv ⟨rfl, rfl⟩
    exact ⟨hv, rfl⟩
  · refine .ret ?_
    rintro v ⟨⟨hbetween, hsettled⟩, rfl⟩
    refine ⟨hbetween, fun hzero => ?_⟩
    rcases hsettled with hearned | ⟨-, hresult⟩
    · exact hearned
    · rw [hresult] at hzero
      cases hzero

theorem startPrefetch_outline (sector : UInt32) (c : Call) :
    Outline (Act c) (Env true) (Post c) (startPrefetch sector)
      fun v => v.underWay = [] ∧ v.Settled c := by
  refine .next (fun _ v => v.underWay = [] ∧ v.Settled c ∧ v.prefetchingLba = sector + 1)
    (stable_of_none fun _ hv => hv.1) ?_ fun _ => ?_
  · rintro v _ _ hv rfl
    exact ⟨hv.1, hv.2, rfl⟩
  refine .next (fun _ v => (v.underWay = [] ∧ v.Settled c ∧ v.prefetchingLba = sector + 1) ∧
    v.prefetchingComplete = false) (stable_of_none fun _ hv => hv.1) ?_ fun _ => ?_
  · rintro v _ _ hv rfl
    exact ⟨hv, rfl⟩
  refine .next (fun _ v => v.Between ∧ v.Settled c) (stable_of_none fun _ hv => hv.1.1) ?_
    fun accepted => ?_
  · rintro v accepted _ ⟨⟨hnone, hsettled, hlba⟩, hreset⟩ rfl
    refine ⟨⟨fun j hj => ?_, fun hwaited => ?_, fun hpassed => ?_⟩, ?_⟩
    · cases accepted with
      | true =>
        have hmem : j ∈ v.underWay ++ [⟨v.calls, .read .prefetchingBuff (sector + 1)⟩] := hj
        rw [hnone] at hmem
        rw [List.mem_singleton.mp hmem, ← hlba]
        rfl
      | false =>
        have hmem : j ∈ v.underWay := hj
        rw [hnone] at hmem
        cases hmem
    · have hwaits : v.prefetchingComplete = true := hwaited
      rw [hreset] at hwaits
      cases hwaits
    · cases accepted <;> cases hpassed
    · exact hsettled
  · cases accepted with
    | true => exact returnResult_outline c
    | false =>
      refine .ret fun v hv => ⟨hv.1, fun hzero => ?_⟩
      cases hzero

theorem quiet_refused {v : View} (c : Call) (h : v.Quiet) : Post c 1 v :=
  ⟨h.between, fun hzero => by cases hzero⟩

/-- The wait for the call's own transfer. -/
theorem spin_outline {c : Call} {k : Unit → MscProg Int}
    (hrest : Outline (Act c) (Env true) (Post c) (k ()) fun v => v.Quiet ∧ v.Settled c) :
    Outline (Act c) (Env true) (Post c) (.op (.spin .complete) k) (Awaits c) := by
  refine .next (fun _ v => v.Quiet ∧ v.Settled c) stable_awaits ?_ fun _ => hrest
  rintro v _ _ hv ⟨hcomplete, rfl⟩
  exact ⟨⟨(hv.done hcomplete).1, hv.copied⟩, (hv.done hcomplete).2⟩

theorem readDirect_outline (sector : UInt32) (buff : Sector) :
    Outline (Act (.read sector buff)) (Env true) (Post (.read sector buff)) (readDirect sector)
      Quiet := by
  refine .next (fun _ v => v.Quiet ∧ v.complete = false) (stable_of_none fun _ hv => hv.none) ?_
    fun _ => ?_
  · rintro v _ _ hv rfl
    exact ⟨⟨hv.none, hv.copied⟩, rfl⟩
  refine .next (fun accepted v => if accepted then v.Awaits (.read sector buff) else v.Quiet)
    (stable_of_none fun _ hv => hv.1.none) ?_ fun accepted => ?_
  · rintro v accepted _ ⟨hv, hreset⟩ rfl
    cases accepted with
    | true =>
      refine ⟨fun _ => ⟨[], ?_⟩, fun hcomplete => ?_, hv.copied⟩
      · show v.underWay ++ _ = _
        rw [hv.none]
        rfl
      · have hdone : v.complete = true := hcomplete
        rw [hreset] at hdone
        cases hdone
    | false => exact ⟨hv.none, hv.copied⟩
  · cases accepted with
    | true =>
      exact spin_outline ((startPrefetch_outline sector _).pre fun v hv => ⟨hv.1.none, hv.2⟩)
    | false => exact .ret fun v hv => quiet_refused _ hv

/-- The copy is served when its tag and `result` speak for it. -/
theorem readSector_outline (sector : UInt32) (buff : Sector) :
    Outline (Act (.read sector buff)) (Env true) (Post (.read sector buff)) (readSector sector)
      Between := by
  refine .next (fun _ => Between) stable_between ?_ fun inserted => ?_
  · rintro v _ _ hv rfl
    exact hv
  cases inserted with
  | false => exact .ret fun v hv => ⟨hv, fun hzero => by cases hzero⟩
  | true =>
    refine .next (fun _ v => v.Quiet ∧
      (v.prefetchingLba = sector → v.result = false → v.prefetch = .passed)) stable_between ?_
      fun _ => ?_
    · rintro v _ _ hv ⟨⟨hwaited, hexp⟩, rfl⟩
      exact ⟨⟨hv.waited hwaited, hv.copied⟩, hexp sector buff rfl⟩
    refine .next (fun lba v => (v.Quiet ∧
      (v.prefetchingLba = sector → v.result = false → v.prefetch = .passed)) ∧
        lba = v.prefetchingLba) (stable_of_none fun _ hv => hv.1.none) ?_ fun lba => ?_
    · rintro v lba _ hv ⟨rfl, rfl⟩
      exact ⟨hv, rfl⟩
    show Outline _ _ _ (if lba = sector then _ else _) _
    by_cases hlba : lba = sector
    · rw [if_pos hlba]
      refine .next (fun failed v => v.Quiet ∧ v.prefetchingLba = sector ∧
        (failed = false → v.prefetch = .passed)) (stable_of_none fun _ hv => hv.1.1.none) ?_
        fun failed => ?_
      · rintro v failed _ ⟨⟨hv, hexp⟩, htag⟩ ⟨rfl, rfl⟩
        exact ⟨hv, htag.symm.trans hlba, hexp (htag.symm.trans hlba)⟩
      cases failed with
      | true => exact (readDirect_outline sector buff).pre fun v hv => hv.1
      | false =>
        refine .next (fun _ v => v.underWay = [] ∧ v.Settled (.read sector buff))
          (stable_of_none fun _ hv => hv.1.none) ?_ fun _ => startPrefetch_outline sector _
        rintro v _ _ ⟨hv, htag, hpassed⟩ rfl
        have hcopy := hv.copied (hpassed rfl)
        rw [htag] at hcopy
        exact ⟨hv.none, .inl hcopy⟩
    · rw [if_neg hlba]
      exact (readDirect_outline sector buff).pre fun v hv => hv.1.1

theorem writeSector_outline (sector : UInt32) (data : Sector) :
    Outline (Act (.write sector data)) (Env true) (Post (.write sector data))
      (writeSector sector data) Between := by
  refine .next (fun _ => Between) stable_between ?_ fun inserted => ?_
  · rintro v _ _ hv rfl
    exact hv
  cases inserted with
  | false => exact .ret fun v hv => ⟨hv, fun hzero => by cases hzero⟩
  | true =>
    refine .next (fun _ => Between) stable_between ?_ fun _ => ?_
    · rintro v _ _ hv rfl
      exact ⟨hv.prefetches, hv.waited, hv.copied⟩
    refine .next (fun accepted v => if accepted then v.Awaits (.write sector data) else v.Between)
      stable_between ?_ fun accepted => ?_
    · rintro v accepted _ hv ⟨hreset, rfl⟩
      cases accepted with
      | true =>
        refine ⟨fun _ => ⟨v.underWay, rfl⟩, fun hcomplete => ?_, hv.copied⟩
        have hdone : v.complete = true := hcomplete
        rw [hreset rfl] at hdone
        cases hdone
      | false => exact ⟨hv.prefetches, hv.waited, hv.copied⟩
    · cases accepted with
      | true =>
        exact spin_outline ((returnResult_outline _).pre fun v hv => ⟨hv.1.between, hv.2⟩)
      | false => exact .ret fun v hv => ⟨hv, fun hzero => by cases hzero⟩

theorem prog_outline (c : Call) :
    Outline (Act c) (Env true) (Post c) c.prog Between := by
  cases c with
  | read sector buff => exact readSector_outline sector buff
  | write sector data => exact writeSector_outline sector data

end Outlines

section Runs

open View

variable {w w' : Cores}

/-- What holds in every state: core 1 is inside the outline of its call. -/
def Cores.Sound (w : Cores) : Prop :=
  match w.core1 with
  | none => w.shared.view.Between
  | some (c, p) => Inside (Act c) (Env true) (Post c) p w.shared.view

theorem sound_initial : Cores.initial.Sound where
  prefetches j hj := by cases hj
  waited _ := rfl
  copied hpassed := by cases hpassed

theorem Cores.Sound.of_view {s : Shared} (h : w.Sound) (hview : s.view = w.shared.view) :
    Cores.Sound ⟨s, w.core1⟩ := by
  unfold Cores.Sound at h ⊢
  rw [hview]
  exact h

/-- A stick plugged in or pulled between two callbacks leaves what they store. -/
theorem Cores.Sound.of_flags {flags : Flag → Bool} (h : w.Sound)
    (hempty : w.shared.stores.isEmpty = true)
    (hcomplete : flags .complete = w.shared.flags .complete)
    (hresult : flags .result = w.shared.flags .result)
    (hprefetching : flags .prefetchingComplete = w.shared.flags .prefetchingComplete) :
    Cores.Sound ⟨{ w.shared with flags }, w.core1⟩ := by
  refine h.of_view ?_
  unfold Shared.view Shared.settled
  rw [List.isEmpty_iff.mp hempty]
  simp only [storeAll, List.foldl_nil, hcomplete, hresult, hprefetching]

theorem sound_call {c : Call} (h : w.Sound) (hnext : w.next (.call c) = some w') : w'.Sound := by
  rcases w with ⟨s, core1⟩
  have hstart (hbetween : s.view.Between) :
      Cores.Sound ⟨{ s with toTraffic := s.enter c }, some (c, c.prog)⟩ := by
    refine Inside.start (prog_outline c) ?_
    cases c with
    | read sector buff => exact ⟨hbetween.prefetches, hbetween.waited, hbetween.copied⟩
    | write sector data => exact ⟨hbetween.prefetches, hbetween.waited, hbetween.copied⟩
  match core1, h, hnext with
  | none, h, hnext =>
    cases hnext
    exact hstart h
  | some (_, .ret r), h, hnext =>
    cases hnext
    exact hstart (Inside.returned h).1

theorem sound_op {accepted : Bool} (h : w.Sound) (hok : Apart (.op accepted) w)
    (hnext : w.next (.op accepted) = some w') : w'.Sound := by
  rcases w with ⟨s, core1⟩
  match core1, h, hok, hnext with
  | some (c, .op o k), h, hok, hnext =>
    rcases Option.map_eq_some_iff.mp hnext with ⟨⟨r, t⟩, hperform, rfl⟩
    exact Inside.acted h (perform_act hok.1 hok.2 hperform)

/-- A completion, apart from all others, is a step of the environment. -/
theorem env_complete {s : Shared} {i : Nat} {job : Job} {running : Bool} (passed : Bool)
    (data : Sector) (hjob : s.underWay[i]? = some job) (hone : s.underWay.length = 1)
    (hfail : running = true → OwnCompleted s.completed s.calls false → passed = false) :
    Env running s.view
      (Shared.view ⟨s.finish i job passed data, s.flags, callbackStores passed⟩) := by
  rcases List.length_eq_one_iff.mp hone with ⟨j, hj⟩
  rcases List.getElem?_eq_some_iff.mp hjob with ⟨hi, hget⟩
  have hzero : i = 0 := by omega
  subst hzero
  have hunder : s.view.underWay = [job] := by
    show s.underWay = [job]
    rw [hj] at hjob ⊢
    cases hjob
    rfl
  exact .complete data hunder hfail

theorem sound_complete {i : Nat} {passed : Bool} {data : Sector} (h : w.Sound)
    (hok : Apart (.complete i passed data) w)
    (hnext : w.next (.complete i passed data) = some w') : w'.Sound := by
  rcases w with ⟨s, core1⟩
  have hinv : ∃ job, s.underWay[i]? = some job ∧
      w' = ⟨⟨s.finish i job passed data, s.flags, callbackStores passed⟩, core1⟩ := by
    simp only [Cores.next] at hnext
    split at hnext
    · next job _ hjob =>
      cases hnext
      exact ⟨job, hjob, rfl⟩
    · cases hnext
  rcases hinv with ⟨job, hjob, rfl⟩
  match core1, h, hok with
  | none, h, hok =>
    have hstep : Env false s.view _ := env_complete passed data hjob hok nofun
    exact stable_between _ _ h hstep
  | some (c, .ret r), h, hok =>
    have hstep : Env false s.view _ := env_complete passed data hjob hok nofun
    exact Inside.of_post (stable_post r _ _ (Inside.returned h) hstep)
  | some (c, .op o k), h, hok =>
    exact Inside.disturbed h (env_complete passed data hjob hok.1 fun _ => hok.2)

theorem sound_next {e : UsbEvent} (h : w.Sound) (hok : Apart e w) (hnext : w.next e = some w') :
    w'.Sound := by
  cases e with
  | call c => exact sound_call h hnext
  | op accepted => exact sound_op h hok hnext
  | complete i passed data => exact sound_complete h hok hnext
  | store =>
    simp only [Cores.next] at hnext
    split at hnext
    · cases hnext
    · next x rest hstores =>
      cases hnext
      refine h.of_view ?_
      unfold Shared.view Shared.settled
      rw [hstores]
      rfl
  | mount =>
    rcases Option.ite_none_right_eq_some.mp hnext with ⟨hempty, heq⟩
    cases heq
    exact h.of_flags hempty rfl rfl rfl
  | umount =>
    rcases Option.ite_none_right_eq_some.mp hnext with ⟨hempty, heq⟩
    cases heq
    exact h.of_flags hempty rfl rfl rfl

theorem Cores.Sound.reports (h : w.Sound) : w.Reports := by
  intro c hreturned
  rcases w with ⟨s, core1⟩
  match core1, h, hreturned with
  | some (c', .ret r), h, hreturned =>
    cases hreturned
    exact (Inside.returned h).2 rfl

/-- In every run that mistakes no transfer for another, a call that returns 0 reports its own. -/
theorem calls_report (hrun : Run Cores.Step Apart Cores.initial w) : w.Reports :=
  Cores.Sound.reports (hrun.invariant (fun _ _ _ h hok hnext => sound_next h hok hnext)
    sound_initial)

/-- `n` operations of core 1, TinyUSB accepting what it is asked for. -/
def operations (n : Nat) : List UsbEvent := List.replicate n (.op true)

/-- The transfer under way completes, and its callback makes the three stores. -/
def completion (passed : Bool) (data : Sector) : List UsbEvent :=
  [.complete 0 passed data, .store, .store, .store]

/-- Sector 0 is read; the prefetch of sector 1 passes or fails, a write to sector 9 passes, and sector 1
is read. -/
def behindPrefetch (passed : Bool) (data : Sector) : List UsbEvent :=
  [.mount, .call (.read 0 .zero)] ++ operations 5 ++ completion true .zero ++ operations 5 ++
    completion passed data ++ [.call (.write 9 .zero)] ++ operations 3 ++ completion true .zero ++
    operations 2 ++ [.call (.read 1 .zero)] ++ operations 9

/-- The copy of a prefetch that has passed is served. -/
theorem calls_report_copied : ∃ w : Cores, w.returned = some (.read 1 .zero, 0) ∧
    w.shared.buff = .ofFn (fun _ => 1) ∧ w.Reports := by
  have hplay : ∃ w, play Cores.next (fun e w => Apart e w) (behindPrefetch true (.ofFn fun _ => 1))
      Cores.initial = some w ∧ w.returned = some (.read 1 .zero, 0) ∧
      w.shared.buff = .ofFn (fun _ => 1) := ⟨_, rfl, rfl, rfl⟩
  rcases hplay with ⟨w, hplay, hreturned, hbuff⟩
  have hrun : Run Cores.Step Apart Cores.initial w :=
    play_labels (fun _ _ => of_decide_eq_true) hplay
  exact ⟨w, hreturned, hbuff, calls_report hrun⟩

/-- The copy of a prefetch that has failed is served. -/
theorem failed_prefetch_served :
    ¬ ∀ w, Run Cores.Step (fun _ _ => True) Cores.initial w → w.Reports := by
  intro h
  have hplay : ∃ w, play Cores.next (fun _ _ => true) (behindPrefetch false .zero) Cores.initial = some w ∧
      w.returned = some (.read 1 .zero, 0) ∧ w.shared.completed =
        [⟨⟨1, .read .buff 0⟩, true, .zero⟩, ⟨⟨1, .read .prefetchingBuff 1⟩, false, .zero⟩,
          ⟨⟨2, .write 9 .zero⟩, true, .zero⟩] := ⟨_, rfl, rfl, rfl⟩
  rcases hplay with ⟨w, hplay, hreturned, hcompleted⟩
  have hrun : Run Cores.Step (fun _ _ => True) Cores.initial w :=
    play_labels (fun _ _ _ => trivial) hplay
  rcases h w hrun _ hreturned with ⟨x, hx, ⟨dst, htransfer⟩, hpassed, -⟩
  rw [hcompleted] at hx
  simp only [List.mem_cons, List.not_mem_nil, or_false] at hx
  rcases hx with rfl | rfl | rfl
  · cases htransfer
  · cases hpassed
  · cases htransfer

end Runs

end LptStore.Msc
