import LptStore.Handshake.FreePort
import LptStore.Handshake.Phases

/-!
# Core 1 and a port that is held

The PC leaves its port alone. Core 1 goes on with nothing but its own accesses and waits that expire, and
`Held` is what one of its routines comes to. While the strobe is low a wait for it to rise can only
expire, and one for it to fall cannot, so that there is one way to go on. `Leftover` describes a routine
at any place inside: what it does to GPIO 19 from there if the strobe is low.
-/

namespace LptStore.Handshake

open LptStore.Lib

section Routines

variable {α : Type}

/-- What a routine comes to while the port is held. -/
inductive Held : Lines → GpioProg α → α → Lines → Prop
  | ret {l : Lines} {a : α} : Held l (.ret a) a l
  | access {l l₁ l' : Lines} {o : GpioOp} {r : GpioResp o} {f : GpioResp o → GpioProg α} {a : α} :
      GpioStep l o r l₁ → Held l₁ (f r) a l' → Held l (.op o f) a l'
  | expired {l l' : Lines} {w : UInt32} {value : UInt8} {f : Option UInt8 → GpioProg α} {a : α} :
      l.Wired w → readlpt w &&& 0x10 = value → Held l (f none) a l' →
      Held l (.op (.waittimeout value) f) a l'

/-- GPIO 19 after an access. -/
def levelAfter (level : Bool) : GpioOp → Bool
  | .put pin v => if pin = 19 then v else level
  | _ => level

/-- From there a routine ends with GPIO 19 low if the strobe is low. -/
def Lowers : Bool → GpioProg α → Prop
  | level, .ret _ => level = false
  | level, .op .getAll k => ∀ w, Lowers level (k w)
  | level, .op (.put pin v) k => Lowers (levelAfter level (.put pin v)) (k ())
  | level, .op (.waittimeout value) k =>
      if value = 0x00 then Lowers level (k none) else ∀ c, Lowers level (k (some c))

/-- What is left of a routine. It has returned, with GPIO 19 high only if it `lost` the byte, or it ends
with GPIO 19 low if the strobe is low from there. -/
def Leftover (lost : α → Prop) : Bool → GpioProg α → Prop
  | level, .ret a => level = true → lost a
  | level, .op o k => Lowers level (.op o k) ∧ ∀ r, Leftover lost (levelAfter level o) (k r)

variable {l l' : Lines} {p : GpioProg α} {a : α}

theorem gpioStep_keeps {o : GpioOp} {r : GpioResp o} (h : GpioStep l o r l') :
    l'.port = l.port ∧ l'.g19 = levelAfter l.g19 o := by
  cases o with
  | getAll =>
    obtain ⟨-, rfl⟩ := h
    exact ⟨rfl, rfl⟩
  | put pin level =>
    cases h
    refine ⟨put_port _ _ _, ?_⟩
    by_cases hpin : pin = 19
    · subst hpin
      rfl
    · simp [levelAfter, hpin, put_ack hpin]
  | waittimeout value =>
    obtain ⟨-, rfl⟩ := h
    exact ⟨rfl, rfl⟩

theorem held_port (h : Held l p a l') : l'.port = l.port := by
  induction h with
  | ret => rfl
  | access hg _ ih => exact ih.trans (gpioStep_keeps hg).1
  | expired _ _ _ ih => exact ih

/-- What a sample shows while the strobe is low. -/
theorem sample_low {w : UInt32} (hS : l.strobe = false) (hw : l.Wired w) : readlpt w &&& 0x10 = 0x00 := by
  simp [readlpt_strobe hw, hS]

theorem held_low (hS : l.strobe = false) (h : Held l p a l') (hp : Lowers l.g19 p) : l'.g19 = false := by
  induction h with
  | ret => exact hp
  | @access l _ _ o _ _ _ hg _ ih =>
    obtain ⟨hport, hlevel⟩ := gpioStep_keeps hg
    refine ih ((strobe_of_port hport).trans hS) ?_
    rw [hlevel]
    cases o with
    | getAll => exact hp _
    | put pin v => exact hp
    | waittimeout value =>
      -- the sample that ended the wait shows the strobe low
      obtain ⟨⟨w, hw, hne, rfl⟩, -⟩ := hg
      rw [sample_low hS hw] at hne
      simp only [Lowers, if_neg hne.symm] at hp
      exact hp _
  | expired hw hvalue _ ih =>
    rw [sample_low hS hw] at hvalue
    simp only [Lowers, if_pos hvalue.symm] at hp
    exact ih hS hp

/-- What is left of a routine ends with GPIO 19 low, unless it has lost the byte already. -/
theorem held_leftover {lost : α → Prop} (hS : l.strobe = false) (hp : Leftover lost l.g19 p)
    (h : Held l p a l') : l'.g19 = false ∨ (p = .ret a ∧ l' = l ∧ lost a) := by
  cases p with
  | ret a =>
    cases h with
    | ret =>
      cases hlevel : l.g19 with
      | false => exact .inl rfl
      | true => exact .inr ⟨rfl, rfl, hp hlevel⟩
  | op o k => exact .inl (held_low hS h hp.1)

theorem hasbyte_held (hS : l.strobe = false) : Held l lptcommsHasbyte false l := by
  have hheld : Held l lptcommsHasbyte (decide (readlpt l.word &&& 0x10 = 0x10)) l :=
    .access (o := .getAll) (r := l.word) ⟨wired_word l, rfl⟩ .ret
  simpa [sample_low hS (wired_word l)] using hheld

/-- `lptcomms_readbyte` gives up. -/
theorem held_readbyte {r : Option UInt8} (hS : l.strobe = false) (h : Held l lptcommsReadbyte r l') :
    r = none := by
  cases h with
  | access hg _ =>
    obtain ⟨⟨w, hw, hne, -⟩, -⟩ := hg
    exact absurd (sample_low hS hw) hne
  | expired _ _ hrest =>
    cases hrest with
    | access _ hend =>
      cases hend
      rfl

/-- `lptcomms_writebyte` gives up. -/
theorem held_writebyte {b : UInt8} {ok : Bool} (hS : l.strobe = false)
    (h : Held l (lptcommsWritebyte b) ok l') : ok = false := by
  -- past the settings of the pins
  obtain ⟨l₁, hport, hwait⟩ : ∃ l₁, l₁.port = l.port ∧ Held l₁ (P6 b) ok l' := by
    cases h with | access h₁ h =>
    cases h with | access h₂ h =>
    cases h with | access h₃ h =>
    cases h with | access h₄ h =>
    cases h with | access h₅ h =>
    refine ⟨_, ?_, h⟩
    rw [(gpioStep_keeps h₅).1, (gpioStep_keeps h₄).1, (gpioStep_keeps h₃).1, (gpioStep_keeps h₂).1,
      (gpioStep_keeps h₁).1]
  have hS₁ : l₁.strobe = false := (strobe_of_port hport).trans hS
  cases hwait with
  | access hg _ =>
    obtain ⟨⟨w, hw, hne, -⟩, -⟩ := hg
    exact absurd (sample_low hS₁ hw) hne
  | expired _ _ hrest =>
    cases hrest with
    | access _ hend =>
      cases hend
      rfl

/-- The last wait of `lptcomms_writebyte` does not expire. -/
theorem held_p12 {ok : Bool} (hS : l.strobe = false) (h : Held l P12 ok l') : ok = true := by
  cases h with
  | access hg hrest =>
    obtain ⟨⟨w, -, -, rfl⟩, -⟩ := hg
    cases hrest
    rfl
  | expired hw hvalue _ =>
    rw [sample_low hS hw] at hvalue
    cases hvalue

section Tidy

variable {lost : α → Prop} {level : Bool}

/-- A routine that is not over without GPIO 19 low. -/
def Tidy (lost : α → Prop) (level : Bool) (p : GpioProg α) : Prop :=
  Lowers level p ∧ Leftover lost level p

theorem tidy_ret : Tidy lost false (.ret a) := ⟨rfl, nofun⟩

theorem tidy_getAll {k : UInt32 → GpioProg α} (h : ∀ w, Tidy lost level (k w)) :
    Tidy lost level (.op .getAll k) := by
  have hlow : Lowers level (.op .getAll k) := fun w => (h w).1
  exact ⟨hlow, hlow, fun w => (h w).2⟩

theorem tidy_put {pin : Nat} {v : Bool} {k : Unit → GpioProg α}
    (h : Tidy lost (levelAfter level (.put pin v)) (k ())) : Tidy lost level (.op (.put pin v) k) := by
  have hlow : Lowers level (.op (.put pin v) k) := h.1
  exact ⟨hlow, hlow, fun _ => h.2⟩

theorem tidy_rise {k : Option UInt8 → GpioProg α} (hnone : Tidy lost level (k none))
    (h : ∀ c, Tidy lost level (k (some c))) : Tidy lost level (.op (.waittimeout 0x00) k) := by
  have hlow : Lowers level (.op (.waittimeout 0x00) k) := hnone.1
  refine ⟨hlow, hlow, ?_⟩
  intro r
  cases r with
  | none => exact hnone.2
  | some c => exact (h c).2

theorem tidy_fall {k : Option UInt8 → GpioProg α} (hnone : Leftover lost level (k none))
    (h : ∀ c, Tidy lost level (k (some c))) : Tidy lost level (.op (.waittimeout 0x10) k) := by
  have hlow : Lowers level (.op (.waittimeout 0x10) k) := fun c => (h c).1
  refine ⟨hlow, hlow, ?_⟩
  intro r
  cases r with
  | none => exact hnone
  | some c => exact (h c).2

theorem tidy_puts {lost : Bool → Prop} {p : GpioProg Bool} {ps : List (Nat × Bool)} (hps : DataOnly ps)
    (h : Tidy lost level p) : Tidy lost level (puts ps p) := by
  induction ps with
  | nil => exact h
  | cons q ps ih =>
    obtain ⟨hpin, hrest⟩ := List.forall_mem_cons.mp hps
    apply tidy_put
    rw [levelAfter, if_neg hpin]
    exact ih hrest

end Tidy

theorem leftover_readbyte (level : Bool) : Leftover (· = none) level lptcommsReadbyte := by
  refine (tidy_rise ?_ fun c => ?_).2
  · exact tidy_put tidy_ret
  · refine tidy_getAll fun w => tidy_put ?_
    -- the exit that leaves the line high
    refine tidy_fall (fun _ => rfl) fun d => ?_
    exact tidy_getAll fun w => tidy_put tidy_ret

theorem leftover_writebyte (level : Bool) (b : UInt8) :
    Leftover (fun _ => False) level (lptcommsWritebyte b) := by
  refine (tidy_puts (dataOnly_upper b) (p := P5 b) ?_).2
  refine tidy_put (tidy_rise ?_ fun c => ?_)
  · exact tidy_put tidy_ret
  · refine tidy_puts (dataOnly_lower b) (p := P11) (tidy_put ?_)
    exact tidy_fall (tidy_put tidy_ret).2 fun d => tidy_ret

end Routines

section Machine

variable {δ : Type} (server : δ → ServerAct UInt8 δ)

/-- Core 1 makes a step, or a wait of core 1 expires, and the PC leaves its port alone. -/
def HeldStep (s t : Pico δ) : Prop := ∃ m, m ≠ Mover.host ∧ FreeStep server m s t

/-- Where the present call may return to while the port is held. -/
inductive Returns (l : Lines) : DevState δ → δ → Prop
  | idle {d : δ} : Returns l (.idle d) d
  | polling {p : GpioProg Bool} {ok : Bool} {l' : Lines} {absent present : δ} : Held l p ok l' →
      Returns l (.polling p absent present) (if ok then present else absent)
  | writing {p : GpioProg Bool} {ok : Bool} {l' : Lines} {sent expired : δ} : Held l p ok l' →
      Returns l (.writing p sent expired) (if ok then sent else expired)
  | reading {p : GpioProg (Option UInt8)} {r : Option UInt8} {l' : Lines} {k : UInt8 → δ}
      {expired : δ} : Held l p r l' → Returns l (.reading p k expired) (r.elim expired k)

/-- Core 1 is in no call that will touch GPIO 19, and the next byte has not been seen. -/
inductive Forgotten : DevState δ → Prop
  | idle {d d' : δ} : server d = .poll d' → Forgotten (.idle d)
  | polling {p : GpioProg Bool} {absent present : δ} : p ≠ .ret true →
      Forgotten (.polling p absent present)
  | reading {k : UInt8 → δ} {expired : δ} : Forgotten (.reading (.ret none) k expired)

variable {server} {Q : Pico δ → Prop} {l : Lines} {lg : Log}

/-- An access is made, or it is a wait that expires. -/
theorem gpio_moves (l : Lines) (o : GpioOp) : (∃ r l', GpioStep l o r l') ∨
    ∃ value, o = .waittimeout value ∧ readlpt l.word &&& 0x10 = value := by
  cases o with
  | getAll => exact .inl ⟨_, l, wired_word l, rfl⟩
  | put pin level => exact .inl ⟨(), _, rfl⟩
  | waittimeout value =>
    by_cases hvalue : readlpt l.word &&& 0x10 = value
    · exact .inr ⟨value, rfl, hvalue⟩
    · exact .inl ⟨_, l, ⟨_, wired_word l, hvalue, rfl⟩, rfl⟩

theorem surely_reading {p : GpioProg (Option UInt8)} {k : UInt8 → δ} {expired : δ}
    (h : ∀ r l' lg', Held l p r l' →
      Surely (HeldStep server) Q ⟨.idle (r.elim expired k), l', lg'⟩) :
    Surely (HeldStep server) Q ⟨.reading p k expired, l, lg⟩ := by
  induction p generalizing l with
  | ret r =>
    have hmove : HeldStep server ⟨.reading (.ret r) k expired, l, lg⟩
        ⟨.idle (r.elim expired k), l, ⟨lg.passed, lg.returned ++ r.toList⟩⟩ := by
      refine ⟨.device, nofun, .device ?_⟩
      cases r with
      | none => simpa using DevStep.returnExpired
      | some b => exact .returnRead
    refine .step hmove ?_
    rintro u ⟨m, hm, hstep⟩
    cases hstep with
    | host port => exact absurd rfl hm
    | device hdev => cases hdev <;> exact h _ _ _ .ret
    | timeout hexp => cases hexp
  | op o f ih =>
    have hnext : ∀ u, HeldStep server ⟨.reading (.op o f) k expired, l, lg⟩ u →
        Surely (HeldStep server) Q u := by
      rintro u ⟨m, hm, hstep⟩
      cases hstep with
      | host port => exact absurd rfl hm
      | device hdev =>
        cases hdev with
        | read hg => exact ih _ fun r l' lg' hheld => h r l' lg' (.access hg hheld)
      | timeout hexp =>
        cases hexp with
        | read hw hvalue => exact ih _ fun r l' lg' hheld => h r l' lg' (.expired hw hvalue hheld)
    rcases gpio_moves l o with ⟨r, l', hg⟩ | ⟨value, rfl, hvalue⟩
    · exact .step ⟨.device, nofun, .device (.read hg)⟩ hnext
    · exact .step ⟨.timeout, nofun, .timeout (.read (wired_word l) hvalue)⟩ hnext

theorem surely_writing {p : GpioProg Bool} {sent expired : δ}
    (h : ∀ ok l' lg', Held l p ok l' →
      Surely (HeldStep server) Q ⟨.idle (if ok then sent else expired), l', lg'⟩) :
    Surely (HeldStep server) Q ⟨.writing p sent expired, l, lg⟩ := by
  induction p generalizing l with
  | ret ok =>
    refine .step ⟨.device, nofun, .device .returnWrite⟩ ?_
    rintro u ⟨m, hm, hstep⟩
    cases hstep with
    | host port => exact absurd rfl hm
    | device hdev => cases hdev with | returnWrite => exact h _ _ _ .ret
    | timeout hexp => cases hexp
  | op o f ih =>
    have hnext : ∀ u, HeldStep server ⟨.writing (.op o f) sent expired, l, lg⟩ u →
        Surely (HeldStep server) Q u := by
      rintro u ⟨m, hm, hstep⟩
      cases hstep with
      | host port => exact absurd rfl hm
      | device hdev =>
        cases hdev with
        | write hg => exact ih _ fun ok l' lg' hheld => h ok l' lg' (.access hg hheld)
      | timeout hexp =>
        cases hexp with
        | write hw hvalue => exact ih _ fun ok l' lg' hheld => h ok l' lg' (.expired hw hvalue hheld)
    rcases gpio_moves l o with ⟨r, l', hg⟩ | ⟨value, rfl, hvalue⟩
    · exact .step ⟨.device, nofun, .device (.write hg)⟩ hnext
    · exact .step ⟨.timeout, nofun, .timeout (.write (wired_word l) hvalue)⟩ hnext

/-- A poll, which waits for nothing. -/
theorem surely_polling {ok : Bool} {absent present : δ}
    (h : Surely (HeldStep server) Q ⟨.idle (if ok then present else absent), l, lg⟩) :
    Surely (HeldStep server) Q ⟨.polling (.ret ok) absent present, l, lg⟩ := by
  refine .step ⟨.device, nofun, .device .returnPoll⟩ ?_
  rintro u ⟨m, hm, hstep⟩
  cases hstep with
  | host port => exact absurd rfl hm
  | device hdev => cases hdev with | returnPoll => exact h
  | timeout hexp => cases hexp

theorem surely_hasbyte {absent present : δ} (hS : l.strobe = false)
    (h : Surely (HeldStep server) Q ⟨.idle absent, l, lg⟩) :
    Surely (HeldStep server) Q ⟨.polling lptcommsHasbyte absent present, l, lg⟩ := by
  refine .step ⟨.device, nofun, .device (.poll (r := l.word) ⟨wired_word l, rfl⟩)⟩ ?_
  rintro u ⟨m, hm, hstep⟩
  cases hstep with
  | host port => exact absurd rfl hm
  | device hdev =>
    cases hdev with
    | poll hg =>
      obtain ⟨hw, rfl⟩ := hg
      apply surely_polling
      simpa [sample_low hS hw] using h
  | timeout hexp => cases hexp

theorem surely_tau {d d' : δ} (hd : server d = .tau d')
    (h : Surely (HeldStep server) Q ⟨.idle d', l, lg⟩) :
    Surely (HeldStep server) Q ⟨.idle d, l, lg⟩ := by
  refine .step ⟨.device, nofun, .device (.tau hd)⟩ ?_
  rintro u ⟨m, hm, hstep⟩
  cases hstep with
  | host port => exact absurd rfl hm
  | device hdev => cases hdev <;> simp_all
  | timeout hexp => cases hexp

/-- A byte that does not come. -/
theorem surely_recv {d expired : δ} {k : UInt8 → δ} (hd : server d = .recv k expired)
    (hS : l.strobe = false)
    (h : ∀ l' lg', l'.port = l.port → l'.g19 = false →
      Surely (HeldStep server) Q ⟨.idle expired, l', lg'⟩) :
    Surely (HeldStep server) Q ⟨.idle d, l, lg⟩ := by
  have hcall : Surely (HeldStep server) Q ⟨.reading lptcommsReadbyte k expired, l, lg⟩ := by
    apply surely_reading
    intro r l' lg' hheld
    obtain rfl := held_readbyte hS hheld
    refine h l' lg' (held_port hheld) ?_
    exact (held_leftover hS (leftover_readbyte _) hheld).resolve_right nofun
  refine .step ⟨.device, nofun, .device (.callRead hd)⟩ ?_
  rintro u ⟨m, hm, hstep⟩
  cases hstep with
  | host port => exact absurd rfl hm
  | device hdev => cases hdev <;> simp_all
  | timeout hexp => cases hexp

/-- A byte that is not taken. -/
theorem surely_send {d sent expired : δ} {b : UInt8} (hd : server d = .send b sent expired)
    (hS : l.strobe = false)
    (h : ∀ l' lg', l'.port = l.port → l'.g19 = false →
      Surely (HeldStep server) Q ⟨.idle expired, l', lg'⟩) :
    Surely (HeldStep server) Q ⟨.idle d, l, lg⟩ := by
  have hcall : ∀ lg, Surely (HeldStep server) Q ⟨.writing (lptcommsWritebyte b) sent expired, l, lg⟩ := by
    intro lg
    apply surely_writing
    intro ok l' lg' hheld
    obtain rfl := held_writebyte hS hheld
    refine h l' lg' (held_port hheld) ?_
    exact (held_leftover hS (leftover_writebyte _ b) hheld).resolve_right nofun
  refine .step ⟨.device, nofun, .device (.callWrite hd)⟩ ?_
  rintro u ⟨m, hm, hstep⟩
  cases hstep with
  | host port => exact absurd rfl hm
  | device hdev =>
    cases hdev with
    | callWrite hd' =>
      obtain ⟨rfl, rfl, rfl⟩ := ServerAct.send.inj (hd.symm.trans hd')
      exact hcall _
    | _ => simp_all
  | timeout hexp => cases hexp

end Machine

end LptStore.Handshake
