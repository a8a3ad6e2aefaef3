import LptStore.Handshake.Held
import LptStore.Handshake.Turnaround
import LptStore.Protocol.Abandoned

/-!
# Back to the polls

A PC that stops in the middle of anything leaves core 1 in one of its routines. With the port held and the
strobe low, core 1 gets back to its polls on its own, at the latest by giving up the next byte. GPIO 19 is
low then, unless `lptcomms_readbyte` left it high before and no call has touched it since.
-/

namespace LptStore.Handshake

open LptStore.Lib LptStore.Protocol

section Invariant

variable {ω ω' : Type} (disk : Disk ω)

/-- What always holds of core 1 and of the level of GPIO 19. -/
inductive Sane : DevState (Device ω') → Bool → Prop
  | polls {d : Device ω'} {level : Bool} : AtPolls d → Sane (.idle d) level
  | answers {b : Bufs} {w : ω'} {level : Bool} : Sane (.idle ⟨answering b, w⟩) level
  | low {d : Device ω'} : Ready disk d → Sane (.idle d) false
  | poll {p : GpioProg Bool} {absent : Device ω'} {b : Bufs} {w : ω'} {level : Bool} :
      p = lptcommsHasbyte → AtPolls absent → Sane (.polling p absent ⟨answering b, w⟩) level
  | polled {ok : Bool} {absent : Device ω'} {b : Bufs} {w : ω'} {level : Bool} : AtPolls absent →
      Sane (.polling (.ret ok) absent ⟨answering b, w⟩) level
  | writing {p : GpioProg Bool} {sent expired : Device ω'} {level : Bool} : Ready disk sent →
      AtPolls expired → Leftover (fun _ => False) level p → Sane (.writing p sent expired) level
  | reading {p : GpioProg (Option UInt8)} {k : UInt8 → Device ω'} {expired : Device ω'} {level : Bool} :
      (∀ b, Ready disk (k b)) → AtPolls expired → Leftover (· = none) level p →
      Sane (.reading p k expired) level

variable {disk} {disk' : Disk ω'} {d : Device ω'}

theorem Sane.ready {level : Bool} (h : Sane disk (.idle d) level) : Ready disk d := by
  cases h with
  | polls hd => exact hd.ready
  | answers => exact ready_answering _ _
  | low hd => exact hd

/-- Core 1 makes no step of its own with GPIO 19 high. -/
theorem Sane.level_tau {level : Bool} {d' : Device ω'} (h : Sane disk (.idle d) level)
    (hd : Device.act disk' d = .tau d') : level = false := by
  cases h with
  | polls hpolls =>
    obtain ⟨b, w, rfl⟩ := hpolls
    cases hd
  | answers => cases hd
  | low _ => rfl

theorem sane_devStep {v v' : DevState (Device ω')} {l l' : Lines} {lg lg' : Log}
    (h : Sane disk v l.g19) (hstep : DevStep (Device.act disk') v l lg v' l' lg') :
    Sane disk v' l'.g19 := by
  cases hstep with
  | tau hd =>
    have hact := ready_act disk' h.ready
    rw [hd] at hact
    rw [h.level_tau hd]
    exact .low hact
  | callPoll hd =>
    have hact := ready_act disk' h.ready
    rw [hd] at hact
    obtain ⟨hpolls, b, w, rfl⟩ := hact
    exact .poll rfl hpolls
  | callWrite hd =>
    have hact := ready_act disk' h.ready
    rw [hd] at hact
    exact .writing hact.1 hact.2 (leftover_writebyte _ _)
  | callRead hd =>
    have hact := ready_act disk' h.ready
    rw [hd] at hact
    exact .reading hact.1 hact.2 (leftover_readbyte _)
  | poll hg =>
    cases h with
    | poll hp hpolls =>
      rw [lptcommsHasbyte_eq] at hp
      cases hp
      exact .polled hpolls
  | write hg =>
    cases h with
    | writing hsent hexpired hp =>
      rw [(gpioStep_keeps hg).2]
      exact .writing hsent hexpired (hp.2 _)
  | read hg =>
    cases h with
    | reading hk hexpired hp =>
      rw [(gpioStep_keeps hg).2]
      exact .reading hk hexpired (hp.2 _)
  | @returnPoll ok _ _ _ _ =>
    cases h with
    | poll hp _ => cases hp
    | polled hpolls =>
      cases ok with
      | true => exact .answers
      | false => exact .polls hpolls
  | @returnWrite ok _ _ _ _ =>
    cases h with
    | writing hsent hexpired hp =>
      have hlow : l.g19 = false := Bool.eq_false_iff.mpr hp
      rw [hlow]
      cases ok with
      | true => exact .low hsent
      | false => exact .polls hexpired
  | returnRead =>
    cases h with
    | reading hk _ hp =>
      have hlow : l.g19 = false := Bool.eq_false_iff.mpr fun hlevel => nomatch hp hlevel
      rw [hlow]
      exact .low (hk _)
  | returnExpired =>
    cases h with
    | reading _ hexpired _ => exact .polls hexpired

/-- Every step keeps it, whatever the PC does. -/
theorem sane_step {m : Mover} {s t : Pico (Device ω')} (h : Sane disk s.dev s.lines.g19)
    (hstep : FreeStep (Device.act disk') m s t) : Sane disk t.dev t.lines.g19 := by
  cases hstep with
  | host port => exact h
  | device hdev => exact sane_devStep h hdev
  | timeout hexp =>
    cases hexp with
    | write _ _ =>
      cases h with
      | writing hsent hexpired hp => exact .writing hsent hexpired (hp.2 _)
    | read _ _ =>
      cases h with
      | reading hk hexpired hp => exact .reading hk hexpired (hp.2 _)

theorem freeRun_sane {s t : Pico (Device ω')} (h : Sane disk s.dev s.lines.g19)
    (hrun : FreeRun (Device.act disk') s t) : Sane disk t.dev t.lines.g19 :=
  hrun.invariant (I := fun s => Sane disk s.dev s.lines.g19) (fun _ _ _ hs _ hstep => sane_step hs hstep) h

end Invariant

section Settling

variable {ω ω' : Type} {disk : Disk ω} {disk' : Disk ω'} {d : Device ω'} {l : Lines} {lg : Log}

/-- What is left of a request ends at the next byte. -/
theorem surely_request {p : DevProg Bufs} (w : ω') (hp : Request disk p) (hS : l.strobe = false)
    (hlevel : l.g19 = true → ∃ b, p = answering b) :
    Surely (HeldStep (Device.act disk'))
      (fun u => ∃ b, u.dev = .idle (Device.idle b (settled disk' p w)) ∧ u.lines.port = l.port ∧
        u.lines.g19 = false)
      ⟨.idle (Device.resume p w), l, lg⟩ := by
  induction p generalizing w l lg with
  | ret b =>
    refine .here ⟨b, rfl, rfl, ?_⟩
    refine Bool.eq_false_iff.mpr fun hhigh => ?_
    obtain ⟨b', hb'⟩ := hlevel hhigh
    cases hb'
  | op o k ih =>
    obtain ⟨hlink, hk⟩ := hp
    have hquiet : (∀ b, .op o k ≠ answering b) → ∀ p', l.g19 = true → ∃ b, p' = answering b := by
      intro hne p' hhigh
      obtain ⟨b, hb⟩ := hlevel hhigh
      exact absurd hb (hne b)
    cases o with
    | hasbyte => exact hlink.elim
    | readbyte =>
      obtain ⟨⟨b, hb⟩, -⟩ := hlink
      refine surely_recv rfl hS fun l' lg' hport hlow => .here ⟨b, ?_, hport, hlow⟩
      rw [hb]
      rfl
    | writebyte c =>
      obtain ⟨⟨b, hb⟩, -⟩ := hlink
      refine surely_send rfl hS fun l' lg' hport hlow => .here ⟨b, ?_, hport, hlow⟩
      rw [hb]
      rfl
    | store buf i => exact surely_tau rfl (ih _ w (hk _) hS (hquiet nofun _))
    | getDrives => exact surely_tau rfl (ih _ w (hk _) hS (hquiet nofun _))
    | getBlocks n => exact surely_tau rfl (ih _ w (hk _) hS (hquiet nofun _))
    | readSector n lbn buff => exact surely_tau rfl (ih _ _ (hk _) hS (hquiet nofun _))
    | writeSector n lbn buff => exact surely_tau rfl (ih _ _ (hk _) hS (hquiet nofun _))

theorem surely_ready (h : Ready disk d) (hS : l.strobe = false) (hA : l.g19 = false) :
    Surely (HeldStep (Device.act disk'))
      (fun u => ∃ b, u.dev = .idle (Device.idle b (settled disk' d.prog d.world)) ∧
        u.lines.port = l.port ∧ u.lines.g19 = false) ⟨.idle d, l, lg⟩ := by
  obtain ⟨p, w, hp, rfl⟩ := h
  rw [settled_resume]
  exact surely_request w hp hS fun hhigh => nomatch hA.symm.trans hhigh

/-- Core 1 at its polls, where the call it was in has led it. GPIO 19 is high only if it was high and
forgotten. -/
def BackFrom (disk' : Disk ω') (v : DevState (Device ω')) (l : Lines) (u : Pico (Device ω')) : Prop :=
  ∃ b d, Returns l v d ∧ u.dev = .idle (Device.idle b (settled disk' d.prog d.world)) ∧
    u.lines.port = l.port ∧ (u.lines.g19 = true ↔ l.g19 = true ∧ Forgotten (Device.act disk') v)

variable {v : DevState (Device ω')} {b : Bufs} {w : ω'}

theorem back_polls (hd : AtPolls d) (hreturns : Returns l v d)
    (hforgotten : Forgotten (Device.act disk') v) :
    Surely (HeldStep (Device.act disk')) (BackFrom disk' v l) ⟨.idle d, l, lg⟩ := by
  obtain ⟨b, w, rfl⟩ := hd
  exact .here ⟨b, _, hreturns, rfl, rfl, (and_iff_left hforgotten).symm⟩

theorem back_ready {l' : Lines} (hd : Ready disk d) (hreturns : Returns l v d) (hS : l.strobe = false)
    (hport : l'.port = l.port) (hA : l'.g19 = false)
    (hkept : ¬ (l.g19 = true ∧ Forgotten (Device.act disk') v)) :
    Surely (HeldStep (Device.act disk')) (BackFrom disk' v l) ⟨.idle d, l', lg⟩ := by
  refine (surely_ready hd ((strobe_of_port hport).trans hS) hA).mono ?_
  rintro u ⟨b, hu, huport, hlow⟩
  refine ⟨b, d, hreturns, hu, huport.trans hport, ?_⟩
  rw [hlow]
  exact iff_of_false nofun hkept

theorem back_answers (hreturns : Returns l v ⟨answering b, w⟩) (hS : l.strobe = false)
    (hseen : ¬ Forgotten (Device.act disk') v) :
    Surely (HeldStep (Device.act disk')) (BackFrom disk' v l) ⟨.idle ⟨answering b, w⟩, l, lg⟩ := by
  have hrequest : Request disk' (answering b) := request_answering b
  refine (surely_request w hrequest hS fun _ => ⟨b, rfl⟩).mono ?_
  rintro u ⟨b', hu, huport, hlow⟩
  refine ⟨b', _, hreturns, hu, huport, ?_⟩
  rw [hlow]
  exact iff_of_false nofun fun hforgotten => hseen hforgotten.2

/-- With the strobe low core 1 gets back to its polls, whatever its waits and accesses give, after what is
left of the disk operations at hand. -/
theorem surely_polls (disk' : Disk ω') {s : Pico (Device ω')} (h : Sane disk s.dev s.lines.g19)
    (hS : s.lines.strobe = false) :
    Surely (HeldStep (Device.act disk')) (BackFrom disk' s.dev s.lines) s := by
  obtain ⟨v, l, lg⟩ := s
  simp only at h hS ⊢
  generalize hlevel : l.g19 = level at h
  cases h with
  | polls hd =>
    obtain ⟨b, w, rfl⟩ := hd
    exact back_polls ⟨b, w, rfl⟩ .idle (.idle rfl)
  | answers =>
    refine back_answers .idle hS fun hforgotten => ?_
    cases hforgotten with | idle hd => cases hd
  | low hd =>
    refine back_ready hd .idle hS rfl hlevel fun hhigh => ?_
    exact nomatch hlevel.symm.trans hhigh.1
  | poll hp hd =>
    subst hp
    exact surely_hasbyte hS (back_polls hd (.polling (hasbyte_held hS)) (.polling nofun))
  | @polled ok absent b w _ hd =>
    apply surely_polling
    have hreturns : Returns l (.polling (.ret ok) absent ⟨answering b, w⟩)
        (if ok then ⟨answering b, w⟩ else absent) := .polling .ret
    cases ok with
    | true =>
      refine back_answers hreturns hS fun hforgotten => ?_
      cases hforgotten with | polling hne => exact hne rfl
    | false => exact back_polls hd hreturns (.polling nofun)
  | @writing p sent expired _ hsent hexpired hp =>
    subst hlevel
    apply surely_writing
    intro ok l' lg' hheld
    have hlow : l'.g19 = false := (held_leftover hS hp hheld).resolve_right fun hlost => hlost.2.2
    have hd : Ready disk (if ok then sent else expired) := by
      cases ok with
      | true => exact hsent
      | false => exact hexpired.ready
    exact back_ready hd (.writing hheld) hS (held_port hheld) hlow fun hhigh => nomatch hhigh.2
  | @reading p k expired _ hk hexpired hp =>
    subst hlevel
    apply surely_reading
    intro r l' lg' hheld
    rcases held_leftover hS hp hheld with hlow | ⟨rfl, rfl, rfl⟩
    · have hd : Ready disk (r.elim expired k) := by
        cases r with
        | none => exact hexpired.ready
        | some b => exact hk b
      refine back_ready hd (.reading hheld) hS (held_port hheld) hlow ?_
      rintro ⟨hhigh, hforgotten⟩
      cases hforgotten
      cases hheld
      exact nomatch hlow.symm.trans hhigh
    · -- the byte has been lost already
      exact back_polls hexpired (.reading hheld) .reading

end Settling

section Stopped

/-! The PC stops in the middle of a run in time, and its port drops the strobe. -/

variable {σ δ : Type} {client : σ → ClientAct UInt8 σ} {server : δ → ServerAct UInt8 δ} {c : σ}
  {d d₁ : δ} {ds us : List UInt8} {P : δ → Prop} {l : Lines}

theorem returns_reading {p : GpioProg (Option UInt8)} {k : UInt8 → δ} {e : δ}
    (hd : server d = .recv k e) (hnext : (server d).All P) (h : Returns l (.reading p k e) d₁) :
    P d₁ := by
  rw [hd] at hnext
  cases h with
  | @reading _ r _ _ _ _ =>
    cases r with
    | none => exact hnext.2
    | some b => exact hnext.1 b

theorem returns_writing {p : GpioProg Bool} {b : UInt8} {d' e : δ} (hd : server d = .send b d' e)
    (hnext : (server d).All P) (h : Returns l (.writing p d' e) d₁) : P d₁ := by
  rw [hd] at hnext
  cases h with
  | @writing _ ok _ _ _ _ =>
    cases ok with
    | true => exact hnext.1
    | false => exact hnext.2

theorem returns_open {v : DevState δ} {l₀ : Lines} {lg : Log} (ho : DevOpen server ds us d l₀ v lg)
    (hd : P d) (hnext : (server d).All P) (h : Returns l v d₁) : P d₁ := by
  cases ho with
  | idle =>
    cases h with
    | idle => exact hd
  | poll hpoll =>
    rw [hpoll] at hnext
    cases h with
    | @polling _ ok _ _ _ _ =>
      cases ok with
      | true => exact hnext
      | false => exact hd
  | polled heq =>
    cases h with
    | polling hheld =>
      cases hheld
      rw [← heq]
      exact hd
  | sent =>
    cases h with
    | writing hheld =>
      cases hheld
      exact hd
  | received _ heq =>
    cases h with
    | reading hheld =>
      cases hheld
      subst heq
      exact hd
  | e1 hrecv => exact returns_reading hrecv hnext h
  | p1 hsend _ _ => exact returns_writing hsend hnext h

/-- Where the call of core 1 may lead when the strobe drops: it was over, or it is the one that the
hand-in-hand state makes next. -/
theorem returns_phase {s : Pins σ δ} (hph : Phase client server ds us c d s) (hd : P d)
    (hnext : (server d).All P) (hS : l.strobe = false) (h : Returns l s.dev d₁) : P d₁ := by
  cases hph with
  | apart _ hv _ _ => exact returns_open hv hd hnext h
  | hostLags hv _ _ => exact returns_open hv hd hnext h
  | w2 _ hv _ _ => exact returns_open hv hd hnext h
  | devLags _ _ _ =>
    cases h with
    | writing hheld =>
      obtain rfl := held_p12 hS hheld
      exact hd
  | _ => first | exact returns_reading ‹_› hnext h | exact returns_writing ‹_› hnext h

/-- In time GPIO 19 is not left high. -/
theorem phase_forgotten {s : Pins σ δ} (hph : Phase client server ds us c d s) :
    ¬ (s.lines.g19 = true ∧ Forgotten server s.dev) := by
  rintro ⟨hhigh, hforgotten⟩
  cases hph <;> simp_all <;> cases hforgotten

/-- The PC has stopped, and its port shows `port`. -/
def stopped (port : UInt8) (s : Pins σ δ) : Pico δ :=
  ⟨s.dev, { s.lines with port := port }, s.devLog⟩

/-- Core 1 gets back to its polls with GPIO 19 low, and what has been written by then is what the
hand-in-hand run writes up to some block, but for the data of the last. -/
theorem stopped_torn {α ω : Type} {disk : Disk ω} {p : HostProg α} {b : Bufs} {w : ω × List Write}
    {fin : HostProg α × Device (ω × List Write)} {s t : Pins (HostProg α) (Device (ω × List Write))}
    (port : UInt8) (hfin : Quiet hostAct (Device.act disk.logged) fin)
    (hleads : Leads hostAct (Device.act disk.logged) fin (p, Device.idle b w))
    (hrest : AtRest p (Device.idle b w) s)
    (hrun : PinRun hostAct (Device.act disk.logged) InTime s t)
    (hS : (stopped port t).lines.strobe = false) :
    Surely (HeldStep (Device.act disk.logged))
      (fun u => ∃ b' w' l, u.dev = .idle (Device.idle b' w') ∧ u.lines.g19 = false ∧
        l <+: fin.2.world.2 ∧ TornLast l w'.2)
      (stopped port t) := by
  have hsane : Sane disk t.dev t.lines.g19 := by
    refine freeRun_sane (s := pico s) (t := pico t) ?_ (freeRun_of_pinRun hrun)
    have hdev : (pico s).dev = .idle (Device.idle b w) := hrest.dev
    rw [hdev]
    exact .polls ⟨b, w, rfl⟩
  have hstart : Ready disk (Device.idle b w) := AtPolls.ready ⟨b, w, rfl⟩
  obtain ⟨ds, us, c, d, ⟨hway, hready⟩, hphase⟩ :=
    inTime_kept (matching_ready hfin) ⟨hleads, hstart⟩ hrest hrun
  refine (surely_polls disk.logged (s := stopped port t) hsane hS).mono ?_
  rintro u ⟨b', d₁, hreturns, hdev, -, hack⟩
  obtain ⟨l, hl, hlast⟩ := returns_phase hphase (torn_of_leads hfin hready hway)
    (torn_next hfin hready hway) hS hreturns
  refine ⟨b', _, l, hdev, ?_, hl, hlast⟩
  exact Bool.eq_false_iff.mpr fun hhigh => phase_forgotten hphase (hack.mp hhigh)

end Stopped

end LptStore.Handshake
