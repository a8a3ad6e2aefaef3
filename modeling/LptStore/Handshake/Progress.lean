import LptStore.Handshake.Phases

/-!
# Every step keeps the phase

One step of either machine leads from a phase to a phase of the same hand-in-hand state or
of the next, or to a missed level. What the machines do on their own, the steps that
`HostOpen` and `DevOpen` allow, is said once and used in every phase where it can happen.
-/

namespace LptStore.Handshake

open LptStore.Lib

section Alone

variable {σ δ : Type} {client : σ → ClientAct UInt8 σ} {server : δ → ServerAct UInt8 δ}
  {ds us : List UInt8} {c : σ} {d : δ}

/-- What the PC can do on its own: go on to its next call, raise the strobe with a byte, or
see the acknowledge of a reply. -/
theorem hostOpen_step {h h' : HostState σ} {l l' : Lines} {lg lg' : Log}
    (ho : HostOpen client ds us c h lg) (hs : HostStep client h l lg h' l' lg') :
    (HostOpen client ds us c h' lg' ∧ l' = l) ∨
      (∃ b c', client c = .send b c' ∧ h = .writing (writeByte b) c' ∧ h' = .writing (W2 b) c' ∧
        l' = { l with port := (b >>> 4) ||| 0x10 } ∧ lg' = ⟨ds ++ [b], us⟩) ∨
      (∃ k, client c = .recv k ∧ l.g19 = true ∧ h' = .reading R2 k ∧ l' = l ∧ lg' = ⟨ds, us⟩) := by
  cases ho with
  | idle =>
    cases hs with
    | callWrite hc => exact .inl ⟨.w1 hc, rfl⟩
    | callRead hc => exact .inl ⟨.r1 hc, rfl⟩
  | sent =>
    cases hs with
    | returnWrite => exact .inl ⟨.idle, rfl⟩
  | received hus hc =>
    cases hs with
    | returnRead =>
      subst hus hc
      exact .inl ⟨.idle, rfl⟩
  | w1 hc =>
    rw [writeByte_eq] at hs
    cases hs with
    | write hp => exact .inr (.inl ⟨_, _, hc, rfl, rfl, hp, rfl⟩)
  | r1 hc =>
    rw [readByte_eq] at hs
    cases hs with
    | read hp => exact .inr (.inr ⟨_, hc, hp.1, rfl, hp.2, rfl⟩)

/-- A wait that ends has seen the strobe leave `value`. -/
theorem seen_strobe {l : Lines} {value : UInt8} {r : Option UInt8} {l' : Lines}
    (h : GpioStep l (.waittimeout value) r l') :
    (if l.strobe then 0x10 else 0x00) ≠ value ∧ (∃ x, r = some x) ∧ l' = l := by
  obtain ⟨⟨w, hw, hne, hr⟩, hl⟩ := h
  rw [readlpt_strobe hw] at hne
  exact ⟨hne, ⟨_, hr⟩, hl⟩

/-- What core 1 can do on its own: go on in the hand-in-hand run, raise the acknowledge with
a reply, or see the strobe of a request. -/
theorem devOpen_step {v v' : DevState δ} {l l' : Lines} {lg lg' : Log}
    (ho : DevOpen server ds us d l v lg) (hs : DevStep server v l lg v' l' lg') :
    (∃ d', (d' = d ∨ server d = .tau d' ∨ (server d = .poll d' ∧ l.strobe = true)) ∧
        DevOpen server ds us d' l' v' lg' ∧ l'.port = l.port ∧ l'.g19 = l.g19) ∨
      (∃ b d' e, server d = .send b d' e ∧ v = .writing (P5 b) d' e ∧
        v' = .writing (P6 b) d' e ∧ l.Upper b ∧ l' = l.put 19 true ∧ lg' = ⟨us ++ [b], ds⟩) ∨
      (∃ k e, server d = .recv k e ∧ l.strobe = true ∧ v' = .reading E2 k e ∧ l' = l ∧
        lg' = ⟨us, ds⟩) := by
  cases ho with
  | idle =>
    cases hs with
    | tau hd => exact .inl ⟨_, .inr (.inl hd), .idle, rfl, rfl⟩
    | callPoll hd => exact .inl ⟨d, .inl rfl, .poll hd, rfl, rfl⟩
    | callWrite hd =>
      exact .inl ⟨d, .inl rfl, .p1 hd (dataOnly_upper _) (upper_putAll _ _), rfl, rfl⟩
    | callRead hd => exact .inl ⟨d, .inl rfl, .e1 hd, rfl, rfl⟩
  | poll hd =>
    rename_i d₁
    rw [lptcommsHasbyte_eq] at hs
    cases hs with
    | poll hp =>
      obtain ⟨hw, rfl⟩ := hp
      have hok := readlpt_strobe hw
      cases hstrobe : l'.strobe with
      | false =>
        rw [hstrobe] at hok
        exact .inl ⟨d, .inl rfl, .polled (by simp [hok]), rfl, rfl⟩
      | true =>
        rw [hstrobe] at hok
        exact .inl ⟨d₁, .inr (.inr ⟨hd, rfl⟩), .polled (by simp [hok]), rfl, rfl⟩
  | polled hd =>
    cases hs with
    | returnPoll =>
      subst hd
      exact .inl ⟨_, .inl rfl, .idle, rfl, rfl⟩
  | sent =>
    cases hs with
    | returnWrite => exact .inl ⟨_, .inl rfl, .idle, rfl, rfl⟩
  | received hds hd =>
    cases hs with
    | returnRead =>
      subst hds hd
      exact .inl ⟨_, .inl rfl, .idle, rfl, rfl⟩
  | e1 hd =>
    rw [lptcommsReadbyte_eq] at hs
    cases hs with
    | read hp =>
      obtain ⟨hne, ⟨x, rfl⟩, rfl⟩ := seen_strobe hp
      have hstrobe : l'.strobe = true := by
        by_contra hlow
        rw [if_neg hlow] at hne
        exact hne rfl
      exact .inr (.inr ⟨_, _, hd, hstrobe, rfl, rfl, rfl⟩)
  | p1 hd hps hup =>
    rename_i ps b d' e
    cases ps with
    | nil =>
      cases hs with
      | write hp => exact .inr (.inl ⟨_, _, _, hd, rfl, rfl, hup, hp, rfl⟩)
    | cons p ps =>
      cases hs with
      | write hp =>
        obtain rfl : l' = l.put p.1 p.2 := hp
        obtain ⟨hne, hps⟩ := List.forall_mem_cons.mp hps
        exact .inl ⟨d, .inl rfl, .p1 hd hps hup, put_port _ _ _, put_ack hne⟩

/-- What core 1 does on its own does not depend on what the PC drives. -/
theorem devOpen_outp {v : DevState δ} {l : Lines} {lg : Log} (val : UInt8)
    (h : DevOpen server ds us d l v lg) : DevOpen server ds us d { l with port := val } v lg := by
  cases h with
  | idle => exact .idle
  | poll hd => exact .poll hd
  | polled hd => exact .polled hd
  | sent => exact .sent
  | received hds hd => exact .received hds hd
  | e1 hd => exact .e1 hd
  | p1 hd hps hup =>
    refine .p1 hd hps ?_
    rw [putAll_outp]
    exact hup

end Alone

section Steps

variable {σ δ : Type} {client : σ → ClientAct UInt8 σ} {server : δ → ServerAct UInt8 δ}
  {Inv : σ × δ → Prop} {ds us : List UInt8} {c : σ} {d : δ}

theorem strobe_upper {l : Lines} {b : UInt8} (h : l.port = (b >>> 4) ||| 0x10) :
    l.strobe = true := by
  unfold Lines.strobe
  rw [h]
  simp

theorem strobe_lower {l : Lines} {b : UInt8} (h : l.port = b &&& 0x0f) : l.strobe = false := by
  unfold Lines.strobe
  rw [h]
  simp

/-- The system is in a phase around a state in which the machines match. -/
def Kept (client : σ → ClientAct UInt8 σ) (server : δ → ServerAct UInt8 δ) (Inv : σ × δ → Prop)
    (s : Pins σ δ) : Prop :=
  ∃ ds us c d, Inv (c, d) ∧ Phase client server ds us c d s

/-- Every step of the PC keeps the phase, unless it raises the strobe too early. -/
theorem phase_hostStep (hm : Matching client server Inv) {h h' : HostState σ} {v : DevState δ}
    {l l' : Lines} {hl hl' dl : Log} (hinv : Inv (c, d))
    (hph : Phase client server ds us c d ⟨h, v, l, hl, dl⟩)
    (hs : HostStep client h l hl h' l' hl') :
    Kept client server Inv ⟨h', v, l', hl', dl⟩ ∨
      ((∃ b c', h = .writing (writeByte b) c') ∧ (∃ d' e, v = .writing P12 d' e) ∧
        Missed ds us ⟨h', v, l', hl', dl⟩) := by
  cases hph with
  | apart ho hv hS hA =>
    rcases hostOpen_step ho hs with ⟨ho', rfl⟩ | ⟨b, c', hc, -, rfl, rfl, rfl⟩ | ⟨k, -, hup, -⟩
    · exact .inl ⟨_, _, _, _, hinv, .apart ho' hv hS hA⟩
    · exact .inl ⟨_, _, _, _, hinv, .w2 hc (devOpen_outp _ hv) rfl hA⟩
    · simp [hA] at hup
  | hostLags hv hS hA =>
    cases hs with
    | write hp =>
      obtain ⟨-, rfl⟩ := hp
      exact .inl ⟨_, _, _, _, hinv, .apart .sent hv hS hA⟩
  | devLags ho hS hA =>
    rcases hostOpen_step ho hs with ⟨ho', rfl⟩ | ⟨b, c', hc, rfl, rfl, rfl, rfl⟩ | ⟨k, -, hup, -⟩
    · exact .inl ⟨_, _, _, _, hinv, .devLags ho' hS hA⟩
    · exact .inr ⟨⟨_, _, rfl⟩, ⟨_, _, rfl⟩, .device (strobe_upper rfl) hA⟩
    · simp [hA] at hup
  | w2 hc hv hport hA =>
    cases hs with
    | write hp => simp [PortStep, hA] at hp
  | w2e2 hc hd hport hA =>
    cases hs with
    | write hp => simp [PortStep, hA] at hp
  | w2e3 hc hd hport hA =>
    cases hs with
    | write hp => simp [PortStep, hA] at hp
  | w2e4 hc hd hport hA =>
    cases hs with
    | write hp =>
      obtain ⟨-, rfl⟩ := hp
      exact .inl ⟨_, _, _, _, hinv, .w3e4 hc hd hport hA⟩
  | w3e4 hc hd hport hA =>
    cases hs with
    | write hp =>
      obtain rfl := hp
      exact .inl ⟨_, _, _, _, hinv, .w4e4 hc hd rfl hA⟩
  | w4e4 hc hd hport hA =>
    cases hs with
    | write hp => simp [PortStep, hA] at hp
  | w4e5 hc hd hport hA =>
    cases hs with
    | write hp => simp [PortStep, hA] at hp
  | w4e6 hc hd hport hA =>
    cases hs with
    | write hp => simp [PortStep, hA] at hp
  | p6 ho hc hd hup hS hA =>
    rcases hostOpen_step ho hs with ⟨ho', rfl⟩ | ⟨b, c', hc', -⟩ | ⟨k, hk, -, rfl, rfl, rfl⟩
    · exact .inl ⟨_, _, _, _, hinv, .p6 ho' hc hd hup hS hA⟩
    · simp [hc] at hc'
    · exact .inl ⟨_, _, _, _, hinv, .r2p6 hk hd hup hS hA⟩
  | r2p6 hc hd hup hS hA =>
    cases hs with
    | read hp =>
      obtain ⟨hal, rfl⟩ := hp
      simp only [status_upper hal hup]
      exact .inl ⟨_, _, _, _, hinv, .r3p6 hc hd hS hA⟩
  | r3p6 hc hd hS hA =>
    cases hs with
    | read hp =>
      obtain rfl := hp
      exact .inl ⟨_, _, _, _, hinv, .r4p6 hc hd (strobe_upper (b := 0) rfl) hA⟩
  | r4p6 hc hd hS hA =>
    cases hs with
    | read hp => simp [PortStep, hA] at hp
  | r4p7 hc hd hps hlow hS hA =>
    cases hs with
    | read hp => simp [PortStep, hA] at hp
  | r4p12 hc hd hlow hS hA =>
    cases hs with
    | read hp =>
      obtain ⟨-, rfl⟩ := hp
      exact .inl ⟨_, _, _, _, hinv, .r5p12 hc hd hlow hS hA⟩
  | r5p12 hc hd hlow hS hA =>
    cases hs with
    | read hp =>
      obtain ⟨hal, rfl⟩ := hp
      simp only [status_lower hal hlow, nibbles]
      exact .inl ⟨_, _, _, _, hinv, .r6p12 hc hd hS hA⟩
  | r6p12 hc hd hS hA =>
    cases hs with
    | read hp =>
      obtain rfl := hp
      have hnext := hm.next hinv (.up hd hc)
      exact .inl ⟨_, _, _, _, hnext, .devLags (.received rfl rfl) (strobe_lower (b := 0) rfl) hA⟩

/-- Where core 1 gets on its own around a hand-in-hand state. -/
theorem inv_alone (hm : Matching client server Inv) {d' : δ} {l : Lines}
    (hinv : Inv (c, d)) (hsend : l.strobe = true → ∃ b c', client c = .send b c')
    (hd : d' = d ∨ server d = .tau d' ∨ (server d = .poll d' ∧ l.strobe = true)) :
    Inv (c, d') := by
  rcases hd with rfl | hd | ⟨hd, hS⟩
  · exact hinv
  · exact hm.next hinv (.tau hd)
  · obtain ⟨b, c', hc⟩ := hsend hS
    exact hm.next hinv (.poll hd hc)

theorem no_seen {l l' : Lines} {value : UInt8} {r : Option UInt8}
    (h : GpioStep l (.waittimeout value) r l') (hv : (if l.strobe then 0x10 else 0x00) = value) :
    False :=
  (seen_strobe h).1 hv

/-- Every step of core 1 keeps the phase, unless it raises the acknowledge too early. -/
theorem phase_devStep (hm : Matching client server Inv) {h : HostState σ} {v v' : DevState δ}
    {l l' : Lines} {hl dl dl' : Log} (hinv : Inv (c, d))
    (hph : Phase client server ds us c d ⟨h, v, l, hl, dl⟩)
    (hs : DevStep server v l dl v' l' dl') :
    Kept client server Inv ⟨h, v', l', hl, dl'⟩ ∨
      ((∃ c', h = .writing W4 c') ∧ (∃ b d' e, v = .writing (P5 b) d' e) ∧
        Missed ds us ⟨h, v', l', hl, dl'⟩) := by
  cases hph with
  | apart ho hv hS hA =>
    rcases devOpen_step hv hs with ⟨d', hd, hv', hport, hack⟩ | ⟨b, d', e, hd, -, rfl, hup, rfl, rfl⟩ |
      ⟨k, e, -, hup, -⟩
    · have hinv' := inv_alone hm (l := l) hinv (by simp [hS]) hd
      have hS' : l'.strobe = false := (strobe_of_port hport).trans hS
      exact .inl ⟨_, _, _, _, hinv', .apart ho hv' hS' (hack.trans hA)⟩
    · obtain ⟨k, hk⟩ := hm.send_recv hinv hd
      exact .inl ⟨_, _, _, _, hinv, .p6 ho hk hd hup hS rfl⟩
    · simp [hS] at hup
  | hostLags hv hS hA =>
    rcases devOpen_step hv hs with ⟨d', hd, hv', hport, hack⟩ | ⟨b, d', e, hd, rfl, rfl, hup, rfl, rfl⟩ |
      ⟨k, e, -, hup, -⟩
    · have hinv' := inv_alone hm (l := l) hinv (by simp [hS]) hd
      have hS' : l'.strobe = false := (strobe_of_port hport).trans hS
      exact .inl ⟨_, _, _, _, hinv', .hostLags hv' hS' (hack.trans hA)⟩
    · exact .inr ⟨⟨_, rfl⟩, ⟨_, _, _, rfl⟩, .host hS rfl⟩
    · simp [hS] at hup
  | devLags ho hS hA =>
    cases hs with
    | write hp =>
      obtain ⟨-, ⟨x, rfl⟩, rfl⟩ := seen_strobe hp
      exact .inl ⟨_, _, _, _, hinv, .apart ho .sent hS hA⟩
  | w2 hc hv hport hA =>
    rcases devOpen_step hv hs with ⟨d', hd, hv', hport', hack⟩ | ⟨b, d', e, hd, -⟩ |
      ⟨k, e, hd, -, rfl, rfl, rfl⟩
    · have hinv' := inv_alone hm (l := l) hinv (fun _ => ⟨_, _, hc⟩) hd
      exact .inl ⟨_, _, _, _, hinv', .w2 hc hv' (hport'.trans hport) (hack.trans hA)⟩
    · obtain ⟨k', hk⟩ := hm.send_recv hinv hd
      simp [hc] at hk
    · exact .inl ⟨_, _, _, _, hinv, .w2e2 hc hd hport hA⟩
  | w2e2 hc hd hport hA =>
    cases hs with
    | read hp =>
      obtain ⟨hw, rfl⟩ := hp
      simp only [readlpt_upper hw hport]
      exact .inl ⟨_, _, _, _, hinv, .w2e3 hc hd hport hA⟩
  | w2e3 hc hd hport hA =>
    cases hs with
    | read hp =>
      obtain rfl : l' = l.put 19 true := hp
      exact .inl ⟨_, _, _, _, hinv, .w2e4 hc hd hport rfl⟩
  | w2e4 hc hd hport hA =>
    cases hs with
    | read hp => exact (no_seen hp (by rw [strobe_upper hport]; rfl)).elim
  | w3e4 hc hd hport hA =>
    cases hs with
    | read hp => exact (no_seen hp (by rw [strobe_upper hport]; rfl)).elim
  | w4e4 hc hd hport hA =>
    cases hs with
    | read hp =>
      obtain ⟨-, ⟨x, rfl⟩, rfl⟩ := seen_strobe hp
      exact .inl ⟨_, _, _, _, hinv, .w4e5 hc hd hport hA⟩
  | w4e5 hc hd hport hA =>
    cases hs with
    | read hp =>
      obtain ⟨hw, rfl⟩ := hp
      simp only [readlpt_lower hw hport, nibbles]
      exact .inl ⟨_, _, _, _, hinv, .w4e6 hc hd hport hA⟩
  | w4e6 hc hd hport hA =>
    cases hs with
    | read hp =>
      obtain rfl : l' = l.put 19 false := hp
      have hnext := hm.next hinv (.down hc hd)
      exact .inl ⟨_, _, _, _, hnext, .hostLags (.received rfl rfl) (strobe_lower hport) rfl⟩
  | p6 ho hc hd hup hS hA =>
    cases hs with
    | write hp => exact (no_seen hp (by rw [hS]; rfl)).elim
  | r2p6 hc hd hup hS hA =>
    cases hs with
    | write hp => exact (no_seen hp (by rw [hS]; rfl)).elim
  | r3p6 hc hd hS hA =>
    cases hs with
    | write hp => exact (no_seen hp (by rw [hS]; rfl)).elim
  | r4p6 hc hd hS hA =>
    cases hs with
    | write hp =>
      obtain ⟨-, ⟨x, rfl⟩, rfl⟩ := seen_strobe hp
      exact .inl ⟨_, _, _, _, hinv, .r4p7 hc hd (dataOnly_lower _) (lower_putAll _ _) hS hA⟩
  | r4p7 hc hd hps hlow hS hA =>
    rename_i k b ps d' e
    cases ps with
    | nil =>
      cases hs with
      | write hp =>
        obtain rfl : l' = l.put 19 false := hp
        exact .inl ⟨_, _, _, _, hinv, .r4p12 hc hd hlow hS rfl⟩
    | cons p ps =>
      cases hs with
      | write hp =>
        obtain rfl : l' = l.put p.1 p.2 := hp
        obtain ⟨hne, hps⟩ := List.forall_mem_cons.mp hps
        exact .inl ⟨_, _, _, _, hinv, .r4p7 hc hd hps hlow ((put_strobe _ _ _).trans hS)
          ((put_ack hne).trans hA)⟩
  | r4p12 hc hd hlow hS hA =>
    cases hs with
    | write hp => exact (no_seen hp (by rw [hS]; rfl)).elim
  | r5p12 hc hd hlow hS hA =>
    cases hs with
    | write hp => exact (no_seen hp (by rw [hS]; rfl)).elim
  | r6p12 hc hd hS hA =>
    cases hs with
    | write hp => exact (no_seen hp (by rw [hS]; rfl)).elim

/-- After a missed level neither machine has a step to make, save for a wait that expires. -/
theorem missed_stuck {s t : Pins σ δ} {m : Mover} (h : Missed ds us s)
    (hs : PinStep client server m s t) : m = .timeout := by
  cases h with
  | host hS hA =>
    cases hs with
    | host hs =>
      cases hs with
      | write hp => simp [PortStep, hA] at hp
    | device hs =>
      cases hs with
      | write hp => exact (no_seen hp (by rw [hS]; rfl)).elim
    | timeout _ => rfl
  | device hS hA =>
    cases hs with
    | host hs =>
      cases hs with
      | write hp => simp [PortStep, hA] at hp
    | device hs =>
      cases hs with
      | write hp => exact (no_seen hp (by rw [hS]; rfl)).elim
    | timeout _ => rfl

end Steps

section Runs

variable {σ δ : Type} {client : σ → ClientAct UInt8 σ} {server : δ → ServerAct UInt8 δ}
  {Inv : σ × δ → Prop} {c : σ} {d : δ} {s t : Pins σ δ}

theorem kept_atRest (hinv : Inv (c, d)) (h : AtRest c d s) : Kept client server Inv s := by
  obtain ⟨hhost, hdev, hS, hA, hhl, hdl⟩ := h
  obtain ⟨h, v, l, hl, dl⟩ := s
  subst hhost hdev hhl hdl
  exact ⟨[], [], c, d, hinv, .apart .idle .idle hS hA⟩

/-- A step without an expired wait keeps the phases or misses a level, and a missed level stays so. -/
theorem keptOrMissed_step (hm : Matching client server Inv) {m : Mover} (hmover : m ≠ .timeout)
    (h : Kept client server Inv s ∨ ∃ ds us, Missed ds us s) (hstep : PinStep client server m s t) :
    Kept client server Inv t ∨ ∃ ds us, Missed ds us t := by
  rcases h with ⟨ds, us, c, d, hinv, hph⟩ | ⟨ds, us, hmiss⟩
  · cases hstep with
    | host hs =>
      rcases phase_hostStep hm hinv hph hs with hkept | ⟨-, -, hmiss⟩
      · exact .inl hkept
      · exact .inr ⟨_, _, hmiss⟩
    | device hs =>
      rcases phase_devStep hm hinv hph hs with hkept | ⟨-, -, hmiss⟩
      · exact .inl hkept
      · exact .inr ⟨_, _, hmiss⟩
    | timeout _ => exact absurd rfl hmover
  · exact absurd (missed_stuck hmiss hstep) hmover

/-- In a run without expired waits every state is in a phase or has missed a level. -/
theorem pinRun_kept (hm : Matching client server Inv) {ok : Mover → Pins σ δ → Prop}
    (hok : ∀ m u, ok m u → m ≠ .timeout) (hinv : Inv (c, d)) (hrest : AtRest c d s)
    (hrun : PinRun client server ok s t) :
    Kept client server Inv t ∨ ∃ ds us, Missed ds us t := by
  apply Run.invariant _ (.inl (kept_atRest hinv hrest)) hrun
  intro m u v h hmover hstep
  exact keptOrMissed_step hm (hok m u hmover) h hstep

/-- The logs in any place: what a machine's calls returned, the other passed to its calls. -/
theorem phase_logs {ds us : List UInt8} (h : Phase client server ds us c d s) :
    s.devLog.returned <+: s.hostLog.passed ∧ s.hostLog.returned <+: s.devLog.passed := by
  have hhost : ∀ {h hl}, HostOpen client ds us c h hl → ds <+: hl.passed ∧ hl.returned <+: us := by
    intro h hl ho
    cases ho <;> simp_all
  have hdev : ∀ {v dl l}, DevOpen server ds us d l v dl → us <+: dl.passed ∧ dl.returned <+: ds := by
    intro v dl l ho
    cases ho <;> simp_all
  cases h with
  | apart ho hv _ _ =>
    exact ⟨(hdev hv).2.trans (hhost ho).1, (hhost ho).2.trans (hdev hv).1⟩
  | hostLags hv _ _ => exact ⟨(hdev hv).2, (hdev hv).1⟩
  | devLags ho _ _ => exact ⟨(hhost ho).1, (hhost ho).2⟩
  | w2 _ hv _ _ => exact ⟨(hdev hv).2.trans (List.prefix_append _ _), (hdev hv).1⟩
  | p6 ho _ _ _ _ _ => exact ⟨(hhost ho).1, (hhost ho).2.trans (List.prefix_append _ _)⟩
  | _ => simp

theorem missed_logs {ds us : List UInt8} (h : Missed ds us s) :
    s.devLog.returned <+: s.hostLog.passed ∧ s.hostLog.returned <+: s.devLog.passed := by
  cases h <;> simp

end Runs

end LptStore.Handshake
