import LptStore.Handshake.Turnaround

/-!
# The end of a call

A hand-in-hand run to a quiet end is what a run over the wires comes to: as long as every change of
direction is in time, the PC can always still get to the end, it is done nowhere else, and once it is
done core 1 needs nothing more from it to get to its end too. The steps that lead there are found phase
by phase, backwards along each byte.
-/

namespace LptStore.Handshake

open LptStore.Lib

theorem putAll_port (l : Lines) (ps : List (Nat × Bool)) : (putAll l ps).port = l.port := by
  induction ps generalizing l with
  | nil => rfl
  | cons p ps ih => exact (ih _).trans (put_port l p.1 p.2)

section Ends

variable {σ δ : Type} {client : σ → ClientAct UInt8 σ} {server : δ → ServerAct UInt8 δ}
  {fin : σ × δ} {c : σ} {d : δ} {ds us : List UInt8}

/-- A hand-in-hand run is at its end when the client is done. -/
theorem eq_of_leads_done (h : Leads client server fin (c, d)) (hdone : client c = .done) :
    (c, d) = fin := by
  obtain ⟨n, hpath⟩ := h
  cases hpath with
  | refl => rfl
  | step _ hc _ => simp [Continues, hdone] at hc

/-- Core 1 alone makes a step. -/
theorem alone_step {s t u : Pins σ δ} (hstep : PinStep client server .device s t)
    (h : PinRun client server (fun m _ => m = .device) t u) :
    PinRun client server (fun m _ => m = .device) s u := .head rfl hstep h

/-- Core 1 gets back to its polls without the PC, both lines low. -/
def Rests (client : σ → ClientAct UInt8 σ) (server : δ → ServerAct UInt8 δ) (d : δ)
    (s : Pins σ δ) : Prop :=
  ∃ u, PinRun client server (fun m _ => m = .device) s u ∧ u.host = s.host ∧ u.dev = .idle d ∧
    u.lines.strobe = false ∧ u.lines.g19 = false

theorem Rests.step {s t : Pins σ δ} (hstep : PinStep client server .device s t)
    (hhost : t.host = s.host) (h : Rests client server d t) : Rests client server d s := by
  obtain ⟨u, hrun, hu, hrest⟩ := h
  exact ⟨u, alone_step hstep hrun, hu.trans hhost, hrest⟩

theorem rests_idle {h : HostState σ} {l : Lines} {hl dl : Log} (hS : l.strobe = false)
    (hA : l.g19 = false) : Rests client server d ⟨h, .idle d, l, hl, dl⟩ :=
  ⟨_, .refl _, rfl, rfl, hS, hA⟩

/-- A wait for the strobe to fall ends when it is low. -/
theorem wait_low {l : Lines} (hS : l.strobe = false) :
    GpioStep l (.waittimeout 0x10) (some (readlpt l.word)) l := by
  refine ⟨⟨_, wired_word l, ?_, rfl⟩, rfl⟩
  simp [readlpt_strobe (wired_word l), hS]

/-- A wait for the strobe to rise ends when it is high. -/
theorem wait_high {l : Lines} (hS : l.strobe = true) :
    GpioStep l (.waittimeout 0x00) (some (readlpt l.word)) l := by
  refine ⟨⟨_, wired_word l, ?_, rfl⟩, rfl⟩
  simp [readlpt_strobe (wired_word l), hS]

theorem rests_open {h : HostState σ} {v : DevState δ} {l : Lines} {hl dl : Log} {d' : δ}
    (hpoll : server d = .poll d') (ho : DevOpen server ds us d l v dl) (hS : l.strobe = false)
    (hA : l.g19 = false) : Rests client server d ⟨h, v, l, hl, dl⟩ := by
  cases ho with
  | idle => exact rests_idle hS hA
  | poll _ =>
    refine .step (.device (.poll (r := l.word) ⟨wired_word l, rfl⟩)) rfl ?_
    refine .step (.device .returnPoll) rfl ?_
    have hseen : readlpt l.word &&& 0x10 = 0x00 := by simp [readlpt_strobe (wired_word l), hS]
    simp only [hseen]
    exact rests_idle hS hA
  | polled hd =>
    refine .step (.device .returnPoll) rfl ?_
    rw [← hd]
    exact rests_idle hS hA
  | sent => exact .step (.device .returnWrite) rfl (rests_idle hS hA)
  | received hds hd =>
    subst hd
    exact .step (.device .returnRead) rfl (rests_idle hS hA)
  | e1 hd => simp [hpoll] at hd
  | p1 hd _ _ => simp [hpoll] at hd

/-- Once the client is done it is where the hand-in-hand run ends, and core 1 gets there alone. -/
theorem rests_of_done (hfin : Quiet client server fin)
    (hleads : Leads client server fin (c, d)) {c' : σ} {v : DevState δ} {l : Lines} {hl dl : Log}
    (hph : Phase client server ds us c d ⟨.idle c', v, l, hl, dl⟩) (hdone : client c' = .done) :
    c' = fin.1 ∧ Rests client server fin.2 ⟨.idle c', v, l, hl, dl⟩ := by
  have hend : client c = .done → c = fin.1 ∧ d = fin.2 := by
    intro hc
    have heq := eq_of_leads_done hleads hc
    exact ⟨congrArg Prod.fst heq, congrArg Prod.snd heq⟩
  obtain ⟨d', hpoll⟩ := hfin.poll
  cases hph with
  | apart ho hv hS hA =>
    cases ho with
    | idle =>
      obtain ⟨hc, rfl⟩ := hend hdone
      exact ⟨hc, rests_open hpoll hv hS hA⟩
  | devLags ho hS hA =>
    cases ho with
    | idle =>
      obtain ⟨hc, rfl⟩ := hend hdone
      refine ⟨hc, .step (.device (.write (wait_low hS))) rfl ?_⟩
      exact .step (.device .returnWrite) rfl (rests_idle hS hA)
  | p6 ho hc _ _ _ _ =>
    cases ho with
    | idle => simp [hdone] at hc

/-- With the client done and core 1 between two calls, both are at the end. -/
theorem ends_of_done (hleads : Leads client server fin (c, d)) {c' : σ} {d' : δ} {l : Lines}
    {hl dl : Log} (hph : Phase client server ds us c d ⟨.idle c', .idle d', l, hl, dl⟩)
    (hdone : client c' = .done) :
    c' = fin.1 ∧ d' = fin.2 ∧ l.strobe = false ∧ l.g19 = false := by
  cases hph with
  | apart ho hv hS hA =>
    cases ho with
    | idle =>
      cases hv with
      | idle =>
        have heq := eq_of_leads_done hleads hdone
        exact ⟨congrArg Prod.fst heq, congrArg Prod.snd heq, hS, hA⟩

/-- While the PC is idle core 1 is in time. -/
theorem alone_inTime {s t : Pins σ δ} {c : σ} (hhost : s.host = .idle c)
    (hrun : PinRun client server (fun m _ => m = .device) s t) :
    PinRun client server InTime s t ∧ t.host = .idle c := by
  induction hrun with
  | refl => exact ⟨.refl _, hhost⟩
  | @step m s t u _ hm hstep ih =>
    obtain ⟨hin, hidle⟩ := ih hhost
    subst hm
    have hok : InTime .device t := by
      refine ⟨nofun, ?_, nofun⟩
      rintro - - ⟨f, c', hwriting⟩
      cases hidle.symm.trans hwriting
    refine ⟨.step hin hok hstep, ?_⟩
    cases hstep with
    | device _ => exact hidle

end Ends

section Finish

variable {σ δ : Type} {client : σ → ClientAct UInt8 σ} {server : δ → ServerAct UInt8 δ}
  {fin : σ × δ} {c c' : σ} {d d' : δ} {ds us : List UInt8} {h : HostState σ} {v : DevState δ}
  {l : Lines} {hl dl : Log} {s t : Pins σ δ}

/-- The PC can still get to the end of the hand-in-hand run in time. -/
def Finishes (client : σ → ClientAct UInt8 σ) (server : δ → ServerAct UInt8 δ) (fin : σ × δ)
    (s : Pins σ δ) : Prop :=
  ∃ u, PinRun client server InTime s u ∧ u.host = .idle fin.1

theorem finishes_host (hstep : PinStep client server .host s t)
    (hok : RaisesStrobe s → ¬ AwaitsStrobeFall s) (hnext : Finishes client server fin t) :
    Finishes client server fin s := by
  obtain ⟨u, hrun, hu⟩ := hnext
  have hin : InTime .host s := ⟨nofun, nofun, fun _ => hok⟩
  exact ⟨u, .head hin hstep hrun, hu⟩

theorem finishes_dev (hstep : PinStep client server .device s t)
    (hok : RaisesAck s → ¬ AwaitsAckFall s) (hnext : Finishes client server fin t) :
    Finishes client server fin s := by
  obtain ⟨u, hrun, hu⟩ := hnext
  have hin : InTime .device s := ⟨nofun, fun _ => hok, nofun⟩
  exact ⟨u, .head hin hstep hrun, hu⟩

section Quickly

/-! Steps that raise no control line are in time whatever the other machine does. -/

theorem not_raisesStrobe_idle : ¬ RaisesStrobe ⟨.idle c, v, l, hl, dl⟩ := by
  rintro ⟨_, _, _, hraises, _⟩
  cases hraises

theorem not_raisesStrobe_reading {p : PortProg UInt8} {k : UInt8 → σ} :
    ¬ RaisesStrobe ⟨.reading p k, v, l, hl, dl⟩ := by
  rintro ⟨_, _, _, hraises, _⟩
  cases hraises

theorem not_raisesAck_idle : ¬ RaisesAck ⟨h, .idle d, l, hl, dl⟩ := by
  rintro ⟨_, _, _, hraises⟩
  cases hraises

theorem not_raisesAck_polling {p : GpioProg Bool} :
    ¬ RaisesAck ⟨h, .polling p d d', l, hl, dl⟩ := by
  rintro ⟨_, _, _, hraises⟩
  cases hraises

theorem not_raisesAck_reading {p : GpioProg (Option UInt8)} {k : UInt8 → δ} :
    ¬ RaisesAck ⟨h, .reading p k d, l, hl, dl⟩ := by
  rintro ⟨_, _, _, hraises⟩
  cases hraises

end Quickly

/-- A PC that is on its own gets to its next `write_byte`. -/
theorem finishes_hostSends {b : UInt8} (hc : client c = .send b c')
    (ho : HostOpen client ds us c h hl)
    (hnext : Finishes client server fin ⟨.writing (writeByte b) c', v, l, ⟨ds ++ [b], us⟩, dl⟩) :
    Finishes client server fin ⟨h, v, l, hl, dl⟩ := by
  have hidle : Finishes client server fin ⟨.idle c, v, l, ⟨ds, us⟩, dl⟩ :=
    finishes_host (.host (.callWrite hc)) (fun hr => absurd hr not_raisesStrobe_idle) hnext
  cases ho with
  | idle => exact hidle
  | sent =>
    refine finishes_host (.host .returnWrite) ?_ hidle
    rintro ⟨_, _, _, hraises, _⟩
    cases hraises
  | received hus hc' =>
    subst hus hc'
    exact finishes_host (.host .returnRead) (fun hr => absurd hr not_raisesStrobe_reading) hidle
  | w1 hc' =>
    obtain ⟨rfl, rfl⟩ := ClientAct.send.inj (hc.symm.trans hc')
    exact hnext
  | r1 hc' => simp [hc] at hc'

/-- A PC that is on its own gets to its next `read_byte`. -/
theorem finishes_hostReceives {k : UInt8 → σ} (hc : client c = .recv k)
    (ho : HostOpen client ds us c h hl)
    (hnext : Finishes client server fin ⟨.reading readByte k, v, l, ⟨ds, us⟩, dl⟩) :
    Finishes client server fin ⟨h, v, l, hl, dl⟩ := by
  have hidle : Finishes client server fin ⟨.idle c, v, l, ⟨ds, us⟩, dl⟩ :=
    finishes_host (.host (.callRead hc)) (fun hr => absurd hr not_raisesStrobe_idle) hnext
  cases ho with
  | idle => exact hidle
  | sent =>
    refine finishes_host (.host .returnWrite) ?_ hidle
    rintro ⟨_, _, _, hraises, _⟩
    cases hraises
  | received hus hc' =>
    subst hus hc'
    exact finishes_host (.host .returnRead) (fun hr => absurd hr not_raisesStrobe_reading) hidle
  | w1 hc' => simp [hc] at hc'
  | r1 hc' =>
    obtain rfl := ClientAct.recv.inj (hc.symm.trans hc')
    exact hnext

/-- A PC that is done returns from its last call. -/
theorem finishes_hostDone (hc : client c = .done) (hfin : c = fin.1)
    (ho : HostOpen client ds us c h hl) : Finishes client server fin ⟨h, v, l, hl, dl⟩ := by
  have hidle : ∀ hl, Finishes client server fin ⟨.idle c, v, l, hl, dl⟩ :=
    fun hl => ⟨_, .refl _, congrArg HostState.idle hfin⟩
  cases ho with
  | idle => exact hidle _
  | sent =>
    refine finishes_host (.host .returnWrite) ?_ (hidle _)
    rintro ⟨_, _, _, hraises, _⟩
    cases hraises
  | received hus hc' =>
    subst hc'
    exact finishes_host (.host .returnRead) (fun hr => absurd hr not_raisesStrobe_reading) (hidle _)
  | w1 hc' => simp [hc] at hc'
  | r1 hc' => simp [hc] at hc'

/-- Core 1 on its own is between its calls, or gets there, or is in its next call. -/
theorem finishes_devOpen (ho : DevOpen server ds us d l v dl)
    (hidle : Finishes client server fin ⟨h, .idle d, l, hl, ⟨us, ds⟩⟩)
    (hpolls : ∀ d', server d = .poll d' →
      Finishes client server fin ⟨h, .polling lptcommsHasbyte d d', l, hl, ⟨us, ds⟩⟩)
    (hreceives : ∀ k e, server d = .recv k e →
      Finishes client server fin ⟨h, .reading lptcommsReadbyte k e, l, hl, ⟨us, ds⟩⟩)
    (hsends : ∀ ps b d' e, server d = .send b d' e → DataOnly ps → (putAll l ps).Upper b →
      Finishes client server fin ⟨h, .writing (puts ps (P5 b)) d' e, l, hl, ⟨us ++ [b], ds⟩⟩) :
    Finishes client server fin ⟨h, v, l, hl, dl⟩ := by
  cases ho with
  | idle => exact hidle
  | poll hd => exact hpolls _ hd
  | polled hd =>
    subst hd
    exact finishes_dev (.device .returnPoll) (fun hr => absurd hr not_raisesAck_polling) hidle
  | sent =>
    refine finishes_dev (.device .returnWrite) ?_ hidle
    rintro ⟨_, _, _, hraises⟩
    cases hraises
  | received hds hd =>
    subst hds hd
    exact finishes_dev (.device .returnRead) (fun hr => absurd hr not_raisesAck_reading) hidle
  | e1 hd => exact hreceives _ _ hd
  | p1 hd hps hup => exact hsends _ _ _ _ hd hps hup

/-- Core 1 makes an internal step. -/
theorem finishes_devTau (hd : server d = .tau d') (ho : DevOpen server ds us d l v dl)
    (hnext : Finishes client server fin ⟨h, .idle d', l, hl, ⟨us, ds⟩⟩) :
    Finishes client server fin ⟨h, v, l, hl, dl⟩ := by
  refine finishes_devOpen ho ?_ ?_ ?_ ?_
  · exact finishes_dev (.device (.tau hd)) (fun hr => absurd hr not_raisesAck_idle) hnext
  · intro d₁ hd₁
    simp [hd] at hd₁
  · intro k e hd₁
    simp [hd] at hd₁
  · intro ps b d₁ e hd₁
    simp [hd] at hd₁

/-- Core 1 sees the strobe that is up. -/
theorem finishes_devPoll (hd : server d = .poll d') (ho : DevOpen server ds us d l v dl)
    (hS : l.strobe = true)
    (hnext : Finishes client server fin ⟨h, .polling (.ret true) d d', l, hl, ⟨us, ds⟩⟩) :
    Finishes client server fin ⟨h, v, l, hl, dl⟩ := by
  have hpolling : Finishes client server fin
      ⟨h, .polling lptcommsHasbyte d d', l, hl, ⟨us, ds⟩⟩ := by
    have hseen : readlpt l.word &&& 0x10 = 0x10 := by simp [readlpt_strobe (wired_word l), hS]
    rw [lptcommsHasbyte_eq]
    refine finishes_dev (.device (.poll (r := l.word) ⟨wired_word l, rfl⟩))
      (fun hr => absurd hr not_raisesAck_polling) ?_
    simpa only [hseen, decide_true] using hnext
  refine finishes_devOpen ho ?_ ?_ ?_ ?_
  · exact finishes_dev (.device (.callPoll hd)) (fun hr => absurd hr not_raisesAck_idle) hpolling
  · intro d₁ hd₁
    obtain rfl := ServerAct.poll.inj (hd.symm.trans hd₁)
    exact hpolling
  · intro k e hd₁
    simp [hd] at hd₁
  · intro ps b d₁ e hd₁
    simp [hd] at hd₁

/-- Core 1 is in its next `lptcomms_readbyte`. -/
theorem finishes_devReceives {k : UInt8 → δ} {e : δ} (hd : server d = .recv k e)
    (ho : DevOpen server ds us d l v dl)
    (hnext : Finishes client server fin ⟨h, .reading lptcommsReadbyte k e, l, hl, ⟨us, ds⟩⟩) :
    Finishes client server fin ⟨h, v, l, hl, dl⟩ := by
  refine finishes_devOpen ho ?_ ?_ ?_ ?_
  · exact finishes_dev (.device (.callRead hd)) (fun hr => absurd hr not_raisesAck_idle) hnext
  · intro d₁ hd₁
    simp [hd] at hd₁
  · intro k₁ e₁ hd₁
    obtain ⟨rfl, rfl⟩ := ServerAct.recv.inj (hd.symm.trans hd₁)
    exact hnext
  · intro ps b d₁ e₁ hd₁
    simp [hd] at hd₁

/-- Settings of data pins are in time. -/
theorem finishes_puts {p : GpioProg Bool} {ps : List (Nat × Bool)} (hps : DataOnly ps)
    (hnext : Finishes client server fin ⟨h, .writing p d d', putAll l ps, hl, dl⟩) :
    Finishes client server fin ⟨h, .writing (puts ps p) d d', l, hl, dl⟩ := by
  induction ps generalizing l with
  | nil => exact hnext
  | cons x ps ih =>
    obtain ⟨pin, level⟩ := x
    obtain ⟨hne, hps⟩ := List.forall_mem_cons.mp hps
    refine finishes_dev (.device (.write (r := ()) rfl)) ?_ (ih hps hnext)
    rintro ⟨_, _, _, hraises⟩
    cases hraises
    exact absurd rfl hne

/-- Core 1 is about to raise the acknowledge for the byte it sends. -/
theorem finishes_devSends {b : UInt8} {e : δ} (hd : server d = .send b d' e)
    (ho : DevOpen server ds us d l v dl)
    (hnext : ∀ l' : Lines, l'.port = l.port → l'.Upper b →
      Finishes client server fin ⟨h, .writing (P5 b) d' e, l', hl, ⟨us ++ [b], ds⟩⟩) :
    Finishes client server fin ⟨h, v, l, hl, dl⟩ := by
  have hputs : ∀ ps : List (Nat × Bool), DataOnly ps → (putAll l ps).Upper b →
      Finishes client server fin ⟨h, .writing (puts ps (P5 b)) d' e, l, hl, ⟨us ++ [b], ds⟩⟩ :=
    fun ps hps hup => finishes_puts hps (hnext _ (putAll_port l ps) hup)
  refine finishes_devOpen ho ?_ ?_ ?_ ?_
  · refine finishes_dev (.device (.callWrite hd)) (fun hr => absurd hr not_raisesAck_idle) ?_
    exact hputs (upperPins b) (dataOnly_upper b) (upper_putAll l b)
  · intro d₁ hd₁
    simp [hd] at hd₁
  · intro k e₁ hd₁
    simp [hd] at hd₁
  · intro ps b₁ d₁ e₁ hd₁ hps hup
    obtain ⟨rfl, rfl, rfl⟩ := ServerAct.send.inj (hd.symm.trans hd₁)
    exact hputs ps hps hup

section Down

/-! One byte to core 1, from its last access back to its first. -/

variable {b : UInt8} {k : UInt8 → δ} {e : δ}

theorem finishes_w4e6 (hport : l.port = b &&& 0x0f)
    (hnext : ∀ {ds us s}, Phase client server ds us c' (k b) s → Finishes client server fin s) :
    Finishes client server fin
      ⟨.writing W4 c', .reading (E6 b) k e, l, ⟨ds ++ [b], us⟩, ⟨us, ds⟩⟩ := by
  refine finishes_dev (.device (.read (r := ()) rfl)) (fun hr => absurd hr not_raisesAck_reading) ?_
  exact hnext (.hostLags (.received rfl rfl) (strobe_lower hport) rfl)

theorem finishes_w4e5 (hport : l.port = b &&& 0x0f)
    (hnext : ∀ {ds us s}, Phase client server ds us c' (k b) s → Finishes client server fin s) :
    Finishes client server fin
      ⟨.writing W4 c', .reading (E5 (b &&& 0xf0)) k e, l, ⟨ds ++ [b], us⟩, ⟨us, ds⟩⟩ := by
  refine finishes_dev (.device (.read (r := l.word) ⟨wired_word l, rfl⟩))
    (fun hr => absurd hr not_raisesAck_reading) ?_
  simp only [readlpt_lower (wired_word l) hport, nibbles]
  exact finishes_w4e6 hport hnext

theorem finishes_w4e4 (hport : l.port = b &&& 0x0f)
    (hnext : ∀ {ds us s}, Phase client server ds us c' (k b) s → Finishes client server fin s) :
    Finishes client server fin
      ⟨.writing W4 c', .reading (E4 (b &&& 0xf0)) k e, l, ⟨ds ++ [b], us⟩, ⟨us, ds⟩⟩ := by
  refine finishes_dev (.device (.read (wait_low (strobe_lower hport))))
    (fun hr => absurd hr not_raisesAck_reading) ?_
  exact finishes_w4e5 hport hnext

theorem finishes_w3e4
    (hnext : ∀ {ds us s}, Phase client server ds us c' (k b) s → Finishes client server fin s) :
    Finishes client server fin
      ⟨.writing (W3 b) c', .reading (E4 (b &&& 0xf0)) k e, l, ⟨ds ++ [b], us⟩, ⟨us, ds⟩⟩ := by
  refine finishes_host (.host (.write (r := ()) rfl)) ?_ (finishes_w4e4 rfl hnext)
  rintro - ⟨_, _, _, hawaits⟩
  cases hawaits

theorem finishes_w2e4 (hA : l.g19 = true)
    (hnext : ∀ {ds us s}, Phase client server ds us c' (k b) s → Finishes client server fin s) :
    Finishes client server fin
      ⟨.writing (W2 b) c', .reading (E4 (b &&& 0xf0)) k e, l, ⟨ds ++ [b], us⟩, ⟨us, ds⟩⟩ := by
  refine finishes_host (.host (.write (r := ()) ⟨hA, rfl⟩)) ?_ (finishes_w3e4 hnext)
  rintro ⟨_, _, _, hraises, _⟩
  cases hraises

theorem finishes_w2e3
    (hnext : ∀ {ds us s}, Phase client server ds us c' (k b) s → Finishes client server fin s) :
    Finishes client server fin
      ⟨.writing (W2 b) c', .reading (E3 (b &&& 0xf0)) k e, l, ⟨ds ++ [b], us⟩, ⟨us, ds⟩⟩ := by
  refine finishes_dev (.device (.read (r := ()) rfl)) (fun hr => absurd hr not_raisesAck_reading) ?_
  exact finishes_w2e4 rfl hnext

theorem finishes_w2e2 (hport : l.port = (b >>> 4) ||| 0x10)
    (hnext : ∀ {ds us s}, Phase client server ds us c' (k b) s → Finishes client server fin s) :
    Finishes client server fin
      ⟨.writing (W2 b) c', .reading E2 k e, l, ⟨ds ++ [b], us⟩, ⟨us, ds⟩⟩ := by
  refine finishes_dev (.device (.read (r := l.word) ⟨wired_word l, rfl⟩))
    (fun hr => absurd hr not_raisesAck_reading) ?_
  simp only [readlpt_upper (wired_word l) hport]
  exact finishes_w2e3 hnext

/-- Core 1 takes the byte for which the strobe is up. -/
theorem finishes_w2 (hd : server d = .recv k e) (ho : DevOpen server ds us d l v dl)
    (hport : l.port = (b >>> 4) ||| 0x10)
    (hnext : ∀ {ds us s}, Phase client server ds us c' (k b) s → Finishes client server fin s) :
    Finishes client server fin ⟨.writing (W2 b) c', v, l, ⟨ds ++ [b], us⟩, dl⟩ := by
  refine finishes_devReceives hd ho ?_
  rw [lptcommsReadbyte_eq]
  refine finishes_dev (.device (.read (wait_high (strobe_upper hport))))
    (fun hr => absurd hr not_raisesAck_reading) ?_
  exact finishes_w2e2 hport hnext

/-- The PC raises the strobe with its byte. -/
theorem finishes_w1 (ho : DevOpen server ds us d l v dl)
    (hnext : ∀ l' : Lines, l'.port = (b >>> 4) ||| 0x10 → l'.g19 = l.g19 →
      DevOpen server ds us d l' v dl →
      Finishes client server fin ⟨.writing (W2 b) c', v, l', ⟨ds ++ [b], us⟩, dl⟩) :
    Finishes client server fin ⟨.writing (writeByte b) c', v, l, ⟨ds ++ [b], us⟩, dl⟩ := by
  rw [writeByte_eq]
  refine finishes_host (.host (.write (r := ()) rfl)) ?_ (hnext _ rfl rfl (devOpen_outp _ ho))
  rintro - ⟨_, _, _, hawaits⟩
  cases ho with
  | p1 hd hps hup =>
    rename_i ps b₁ d₁ e₁
    cases ps <;> cases hawaits
  | _ => cases hawaits

end Down

section Up

/-! One byte from core 1. -/

variable {b : UInt8} {k : UInt8 → σ} {e : δ}

theorem finishes_r6p12 (hA : l.g19 = false)
    (hnext : ∀ {ds us s}, Phase client server ds us (k b) d' s → Finishes client server fin s) :
    Finishes client server fin
      ⟨.reading (R6 b) k, .writing P12 d' e, l, ⟨ds, us⟩, ⟨us ++ [b], ds⟩⟩ := by
  refine finishes_host (.host (.read (r := ()) rfl))
    (fun hr => absurd hr not_raisesStrobe_reading) ?_
  exact hnext (.devLags (.received rfl rfl) (strobe_lower (b := 0) rfl) hA)

theorem finishes_r5p12 (hlow : l.Lower b) (hA : l.g19 = false)
    (hnext : ∀ {ds us s}, Phase client server ds us (k b) d' s → Finishes client server fin s) :
    Finishes client server fin
      ⟨.reading (R5 (b &&& 0xf0)) k, .writing P12 d' e, l, ⟨ds, us⟩, ⟨us ++ [b], ds⟩⟩ := by
  refine finishes_host (.host (.read (r := l.status) ⟨status_status l, rfl⟩))
    (fun hr => absurd hr not_raisesStrobe_reading) ?_
  simp only [status_lower (status_status l) hlow, nibbles]
  exact finishes_r6p12 hA hnext

theorem finishes_r4p12 (hlow : l.Lower b) (hA : l.g19 = false)
    (hnext : ∀ {ds us s}, Phase client server ds us (k b) d' s → Finishes client server fin s) :
    Finishes client server fin
      ⟨.reading (R4 (b &&& 0xf0)) k, .writing P12 d' e, l, ⟨ds, us⟩, ⟨us ++ [b], ds⟩⟩ := by
  refine finishes_host (.host (.read (r := ()) ⟨hA, rfl⟩))
    (fun hr => absurd hr not_raisesStrobe_reading) ?_
  exact finishes_r5p12 hlow hA hnext

theorem finishes_r4p7 {ps : List (Nat × Bool)} (hps : DataOnly ps) (hlow : (putAll l ps).Lower b)
    (hnext : ∀ {ds us s}, Phase client server ds us (k b) d' s → Finishes client server fin s) :
    Finishes client server fin
      ⟨.reading (R4 (b &&& 0xf0)) k, .writing (puts ps P11) d' e, l, ⟨ds, us⟩, ⟨us ++ [b], ds⟩⟩ := by
  refine finishes_puts hps ?_
  refine finishes_dev (.device (.write (r := ()) rfl)) ?_ (finishes_r4p12 hlow rfl hnext)
  rintro ⟨_, _, _, hraises⟩
  cases hraises

theorem finishes_r4p6 (hS : l.strobe = true)
    (hnext : ∀ {ds us s}, Phase client server ds us (k b) d' s → Finishes client server fin s) :
    Finishes client server fin
      ⟨.reading (R4 (b &&& 0xf0)) k, .writing (P6 b) d' e, l, ⟨ds, us⟩, ⟨us ++ [b], ds⟩⟩ := by
  refine finishes_dev (.device (.write (wait_high hS))) ?_
    (finishes_r4p7 (dataOnly_lower b) (lower_putAll l b) hnext)
  rintro ⟨_, _, _, hraises⟩
  cases hraises

theorem finishes_r3p6
    (hnext : ∀ {ds us s}, Phase client server ds us (k b) d' s → Finishes client server fin s) :
    Finishes client server fin
      ⟨.reading (R3 (b &&& 0xf0)) k, .writing (P6 b) d' e, l, ⟨ds, us⟩, ⟨us ++ [b], ds⟩⟩ := by
  refine finishes_host (.host (.read (r := ()) rfl))
    (fun hr => absurd hr not_raisesStrobe_reading) ?_
  exact finishes_r4p6 (strobe_upper (b := 0) rfl) hnext

theorem finishes_r2p6 (hup : l.Upper b)
    (hnext : ∀ {ds us s}, Phase client server ds us (k b) d' s → Finishes client server fin s) :
    Finishes client server fin
      ⟨.reading R2 k, .writing (P6 b) d' e, l, ⟨ds, us⟩, ⟨us ++ [b], ds⟩⟩ := by
  refine finishes_host (.host (.read (r := l.status) ⟨status_status l, rfl⟩))
    (fun hr => absurd hr not_raisesStrobe_reading) ?_
  simp only [status_upper (status_status l) hup]
  exact finishes_r3p6 hnext

/-- The PC takes the byte for which the acknowledge is up. -/
theorem finishes_p6 (hc : client c = .recv k) (ho : HostOpen client ds us c h hl) (hup : l.Upper b)
    (hA : l.g19 = true)
    (hnext : ∀ {ds us s}, Phase client server ds us (k b) d' s → Finishes client server fin s) :
    Finishes client server fin ⟨h, .writing (P6 b) d' e, l, hl, ⟨us ++ [b], ds⟩⟩ := by
  refine finishes_hostReceives hc ho ?_
  rw [readByte_eq]
  refine finishes_host (.host (.read (r := ()) ⟨hA, rfl⟩))
    (fun hr => absurd hr not_raisesStrobe_reading) ?_
  exact finishes_r2p6 hup hnext

/-- Core 1 raises the acknowledge with its byte. -/
theorem finishes_p5 (hc : client c = .recv k) (ho : HostOpen client ds us c h hl) (hup : l.Upper b)
    (hnext : ∀ {ds us s}, Phase client server ds us (k b) d' s → Finishes client server fin s) :
    Finishes client server fin ⟨h, .writing (P5 b) d' e, l, hl, ⟨us ++ [b], ds⟩⟩ := by
  refine finishes_dev (.device (.write (r := ()) rfl)) ?_ (finishes_p6 hc ho hup rfl hnext)
  rintro - ⟨_, _, hawaits⟩
  cases ho <;> cases hawaits

end Up

/-- The PC sees the acknowledge of its last byte fall. -/
theorem finishes_hostLags (hA : l.g19 = false)
    (hnext : Finishes client server fin ⟨.writing (.ret ()) c, v, l, hl, dl⟩) :
    Finishes client server fin ⟨.writing W4 c, v, l, hl, dl⟩ := by
  refine finishes_host (.host (.write (r := ()) ⟨hA, rfl⟩)) ?_ hnext
  rintro ⟨_, _, _, hraises, _⟩
  cases hraises

/-- Core 1 sees the strobe of its last byte fall. -/
theorem finishes_devLags {e : δ} (hS : l.strobe = false)
    (hnext : Finishes client server fin ⟨h, .writing (.ret true) d e, l, hl, dl⟩) :
    Finishes client server fin ⟨h, .writing P12 d e, l, hl, dl⟩ := by
  refine finishes_dev (.device (.write (wait_low hS))) ?_ hnext
  rintro ⟨_, _, _, hraises⟩
  cases hraises

/-- At the end. -/
theorem finishes_end (hfin : Quiet client server fin)
    (hph : Phase client server ds us fin.1 fin.2 s) : Finishes client server fin s := by
  have hdone := hfin.done
  cases hph with
  | apart ho _ _ _ => exact finishes_hostDone hdone rfl ho
  | hostLags _ _ hA => exact finishes_hostLags hA (finishes_hostDone hdone rfl .sent)
  | devLags ho _ _ => exact finishes_hostDone hdone rfl ho
  | p6 _ hc _ _ _ _ => simp [hdone] at hc
  | r2p6 hc _ _ _ _ => simp [hdone] at hc
  | r3p6 hc _ _ _ => simp [hdone] at hc
  | r4p6 hc _ _ _ => simp [hdone] at hc
  | r4p7 hc _ _ _ _ _ => simp [hdone] at hc
  | r4p12 hc _ _ _ _ => simp [hdone] at hc
  | r5p12 hc _ _ _ _ => simp [hdone] at hc
  | r6p12 hc _ _ _ => simp [hdone] at hc
  | _ hc => simp [hdone] at hc

/-- Before an internal step of core 1. -/
theorem finishes_tau (hd : server d = .tau d') (hph : Phase client server ds us c d s)
    (hnext : ∀ {s}, Phase client server ds us c d' s → Finishes client server fin s) :
    Finishes client server fin s := by
  cases hph with
  | apart ho hv hS hA => exact finishes_devTau hd hv (hnext (.apart ho .idle hS hA))
  | hostLags hv hS hA => exact finishes_devTau hd hv (hnext (.hostLags .idle hS hA))
  | devLags ho hS hA =>
    exact finishes_devLags hS (finishes_devTau hd .sent (hnext (.apart ho .idle hS hA)))
  | w2 hc hv hport hA => exact finishes_devTau hd hv (hnext (.w2 hc .idle hport hA))
  | p6 _ _ hd' _ _ _ => simp [hd] at hd'
  | r2p6 _ hd' _ _ _ => simp [hd] at hd'
  | r3p6 _ hd' _ _ => simp [hd] at hd'
  | r4p6 _ hd' _ _ => simp [hd] at hd'
  | r4p7 _ hd' _ _ _ _ => simp [hd] at hd'
  | r4p12 _ hd' _ _ _ => simp [hd] at hd'
  | r5p12 _ hd' _ _ _ => simp [hd] at hd'
  | r6p12 _ hd' _ _ => simp [hd] at hd'
  | _ _ hd' => simp [hd] at hd'

/-- The PC has a byte to send, and core 1 gets on once the strobe is up for it. -/
theorem finishes_sends {b : UInt8} (hc : client c = .send b c')
    (hph : Phase client server ds us c d s) (hsend : ∀ b d' e, server d ≠ .send b d' e)
    (hnext : ∀ {v l dl}, DevOpen server ds us d l v dl → l.port = (b >>> 4) ||| 0x10 →
      l.g19 = false → Finishes client server fin ⟨.writing (W2 b) c', v, l, ⟨ds ++ [b], us⟩, dl⟩)
    (hreads : ∀ k e, server d = .recv k e → ∀ {ds us s}, Phase client server ds us c' (k b) s →
      Finishes client server fin s) : Finishes client server fin s := by
  have hapart : ∀ {h v l hl dl}, HostOpen client ds us c h hl → DevOpen server ds us d l v dl →
      l.g19 = false → Finishes client server fin ⟨h, v, l, hl, dl⟩ := by
    intro h v l hl dl ho hv hA
    refine finishes_hostSends hc ho (finishes_w1 hv ?_)
    intro l' hport hack hv'
    exact hnext hv' hport (hack.trans hA)
  cases hph with
  | apart ho hv _ hA => exact hapart ho hv hA
  | hostLags hv _ hA => exact finishes_hostLags hA (hapart .sent hv hA)
  | devLags ho hS hA => exact finishes_devLags hS (hapart ho .sent hA)
  | w2 hc' hv hport hA =>
    obtain ⟨rfl, rfl⟩ := ClientAct.send.inj (hc.symm.trans hc')
    exact hnext hv hport hA
  | w2e2 hc' hd hport _ =>
    obtain ⟨rfl, rfl⟩ := ClientAct.send.inj (hc.symm.trans hc')
    exact finishes_w2e2 hport (hreads _ _ hd)
  | w2e3 hc' hd _ _ =>
    obtain ⟨rfl, rfl⟩ := ClientAct.send.inj (hc.symm.trans hc')
    exact finishes_w2e3 (hreads _ _ hd)
  | w2e4 hc' hd _ hA =>
    obtain ⟨rfl, rfl⟩ := ClientAct.send.inj (hc.symm.trans hc')
    exact finishes_w2e4 hA (hreads _ _ hd)
  | w3e4 hc' hd _ _ =>
    obtain ⟨rfl, rfl⟩ := ClientAct.send.inj (hc.symm.trans hc')
    exact finishes_w3e4 (hreads _ _ hd)
  | w4e4 hc' hd hport _ =>
    obtain ⟨rfl, rfl⟩ := ClientAct.send.inj (hc.symm.trans hc')
    exact finishes_w4e4 hport (hreads _ _ hd)
  | w4e5 hc' hd hport _ =>
    obtain ⟨rfl, rfl⟩ := ClientAct.send.inj (hc.symm.trans hc')
    exact finishes_w4e5 hport (hreads _ _ hd)
  | w4e6 hc' hd hport _ =>
    obtain ⟨rfl, rfl⟩ := ClientAct.send.inj (hc.symm.trans hc')
    exact finishes_w4e6 hport (hreads _ _ hd)
  | p6 _ _ hd _ _ _ => exact absurd hd (hsend _ _ _)
  | r2p6 _ hd _ _ _ => exact absurd hd (hsend _ _ _)
  | r3p6 _ hd _ _ => exact absurd hd (hsend _ _ _)
  | r4p6 _ hd _ _ => exact absurd hd (hsend _ _ _)
  | r4p7 _ hd _ _ _ _ => exact absurd hd (hsend _ _ _)
  | r4p12 _ hd _ _ _ => exact absurd hd (hsend _ _ _)
  | r5p12 _ hd _ _ _ => exact absurd hd (hsend _ _ _)
  | r6p12 _ hd _ _ => exact absurd hd (hsend _ _ _)

/-- Core 1 has a byte to send. -/
theorem finishes_receives {b : UInt8} {k : UInt8 → σ} {e : δ} (hc : client c = .recv k)
    (hd : server d = .send b d' e) (hph : Phase client server ds us c d s)
    (hnext : ∀ {ds us s}, Phase client server ds us (k b) d' s → Finishes client server fin s) :
    Finishes client server fin s := by
  have hapart : ∀ {h v l hl dl}, HostOpen client ds us c h hl → DevOpen server ds us d l v dl →
      Finishes client server fin ⟨h, v, l, hl, dl⟩ := by
    intro h v l hl dl ho hv
    refine finishes_devSends hd hv ?_
    intro l' _ hup
    exact finishes_p5 hc ho hup hnext
  cases hph with
  | apart ho hv _ _ => exact hapart ho hv
  | hostLags hv _ hA => exact finishes_hostLags hA (hapart .sent hv)
  | devLags ho hS _ => exact finishes_devLags hS (hapart ho .sent)
  | p6 ho hc' hd' hup _ hA =>
    obtain ⟨rfl, rfl, rfl⟩ := ServerAct.send.inj (hd.symm.trans hd')
    exact finishes_p6 hc ho hup hA hnext
  | r2p6 hc' hd' hup _ _ =>
    obtain rfl := ClientAct.recv.inj (hc.symm.trans hc')
    obtain ⟨rfl, rfl, rfl⟩ := ServerAct.send.inj (hd.symm.trans hd')
    exact finishes_r2p6 hup hnext
  | r3p6 hc' hd' _ _ =>
    obtain rfl := ClientAct.recv.inj (hc.symm.trans hc')
    obtain ⟨rfl, rfl, rfl⟩ := ServerAct.send.inj (hd.symm.trans hd')
    exact finishes_r3p6 hnext
  | r4p6 hc' hd' hS _ =>
    obtain rfl := ClientAct.recv.inj (hc.symm.trans hc')
    obtain ⟨rfl, rfl, rfl⟩ := ServerAct.send.inj (hd.symm.trans hd')
    exact finishes_r4p6 hS hnext
  | r4p7 hc' hd' hps hlow _ _ =>
    obtain rfl := ClientAct.recv.inj (hc.symm.trans hc')
    obtain ⟨rfl, rfl, rfl⟩ := ServerAct.send.inj (hd.symm.trans hd')
    exact finishes_r4p7 hps hlow hnext
  | r4p12 hc' hd' hlow _ hA =>
    obtain rfl := ClientAct.recv.inj (hc.symm.trans hc')
    obtain ⟨rfl, rfl, rfl⟩ := ServerAct.send.inj (hd.symm.trans hd')
    exact finishes_r4p12 hlow hA hnext
  | r5p12 hc' hd' hlow _ hA =>
    obtain rfl := ClientAct.recv.inj (hc.symm.trans hc')
    obtain ⟨rfl, rfl, rfl⟩ := ServerAct.send.inj (hd.symm.trans hd')
    exact finishes_r5p12 hlow hA hnext
  | r6p12 hc' hd' _ hA =>
    obtain rfl := ClientAct.recv.inj (hc.symm.trans hc')
    obtain ⟨rfl, rfl, rfl⟩ := ServerAct.send.inj (hd.symm.trans hd')
    exact finishes_r6p12 hA hnext
  | _ hc' => simp [hc] at hc'

/-- From every phase the PC can still get to the end, by induction on the hand-in-hand run. -/
theorem finishes_of_phase (hfin : Quiet client server fin) (h : Leads client server fin (c, d))
    (hph : Phase client server ds us c d s) : Finishes client server fin s := by
  obtain ⟨n, hpath⟩ := h
  generalize hcd : (c, d) = cd at hpath
  induction hpath generalizing ds us c d s with
  | refl =>
    subst hcd
    exact finishes_end hfin hph
  | step hm _ _ ih =>
    cases hm with
    | tau hd =>
      cases hcd
      exact finishes_tau hd hph fun hph' => ih hph' rfl
    | poll hd hc =>
      cases hcd
      refine finishes_sends hc hph (by simp [hd]) ?_ (by simp [hd])
      intro v l dl hv hport hA
      refine finishes_devPoll hd hv (strobe_upper hport) ?_
      exact ih (.w2 hc (.polled rfl) hport hA) rfl
    | down hc hd =>
      cases hcd
      refine finishes_sends hc hph (by simp [hd]) ?_ ?_
      · intro v l dl hv hport _
        exact finishes_w2 hd hv hport fun hph' => ih hph' rfl
      · intro k e hd' ds us s hph'
        obtain ⟨rfl, -⟩ := ServerAct.recv.inj (hd.symm.trans hd')
        exact ih hph' rfl
    | up hd hc =>
      cases hcd
      exact finishes_receives hc hd hph fun hph' => ih hph' rfl

/-- In a run in time from rest there is no deadlock, the PC can always still get to the end, and where
it is done it is at the end and core 1 gets back to its polls alone. -/
theorem inTime_finishes (hfin : Quiet client server fin) (hleads : Leads client server fin (c, d))
    (hrest : AtRest c d s) (hrun : PinRun client server InTime s t) :
    ¬ Deadlock server t ∧ Finishes client server fin t ∧
      ∀ c', t.host = .idle c' → client c' = .done → c' = fin.1 ∧ Rests client server fin.2 t := by
  have hkept := inTime_kept (matching_leads hfin) hleads hrest hrun
  refine ⟨kept_noDeadlock (matching_leads hfin) hkept, ?_⟩
  obtain ⟨ds, us, c₁, d₁, hleads₁, hph⟩ := hkept
  refine ⟨finishes_of_phase hfin hleads₁ hph, ?_⟩
  intro c' hhost hdone
  obtain ⟨h, v, l, hl, dl⟩ := t
  subst hhost
  exact rests_of_done hfin hleads₁ hph hdone

/-- In a run in time from rest that has come to a rest again with the PC done, both machines are at the
end. -/
theorem inTime_ends (hfin : Quiet client server fin) (hleads : Leads client server fin (c, d))
    (hrest : AtRest c d s) (hrun : PinRun client server InTime s t) {c' : σ} {d' : δ}
    (hhost : t.host = .idle c') (hdev : t.dev = .idle d') (hdone : client c' = .done) :
    c' = fin.1 ∧ d' = fin.2 ∧ t.lines.strobe = false ∧ t.lines.g19 = false := by
  obtain ⟨ds, us, c₁, d₁, hleads₁, hph⟩ := inTime_kept (matching_leads hfin) hleads hrest hrun
  obtain ⟨h, v, l, hl, dl⟩ := t
  subst hhost hdev
  exact ends_of_done hleads₁ hph hdone

/-- There is such a run. -/
theorem inTime_ends_exists (hfin : Quiet client server fin) (hdone : client fin.1 = .done)
    (hleads : Leads client server fin (c, d)) (hrest : AtRest c d s) :
    ∃ u, PinRun client server InTime s u ∧ u.host = .idle fin.1 ∧ u.dev = .idle fin.2 := by
  obtain ⟨-, ⟨t, hrun, ht⟩, -⟩ := inTime_finishes hfin hleads hrest (.refl s)
  obtain ⟨-, -, hend⟩ := inTime_finishes hfin hleads hrest hrun
  obtain ⟨-, u, halone, hhost, hdev, -, -⟩ := hend _ ht hdone
  obtain ⟨hin, -⟩ := alone_inTime ht halone
  exact ⟨u, hrun.trans hin, hhost.trans ht, hdev⟩

end Finish

end LptStore.Handshake
