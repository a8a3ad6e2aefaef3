import LptStore.Handshake.Recovery
import LptStore.Dos.Attached

/-!
# The PC is switched off, and on again

Before the first byte `LPTInit` drops the strobe and waits for much longer than `PROTOCOL_TIMEOUT`. By
then core 1 is back at its polls, whatever the PC did before, and serves DOS as if nothing had happened.
What a request that was cut short has written is what it was to write up to some block, the last of them
perhaps with other data.
-/

namespace LptStore.Dos

open LptStore.Lib LptStore.Protocol LptStore.Handshake

section Restart

variable {ω : Type}

/-- DOS is about to post its requests to core 1 as it is found. -/
def starting (localAt : FarPtr) (xs : List Posted) (m : Machine) (u : Pico (Device ω)) :
    Pins (HostProg (List Reply × Option Machine)) (Device ω) :=
  ⟨.idle (serve localAt xs m), u.dev, u.lines, ⟨[], []⟩, ⟨[], []⟩⟩

/-- Whatever the PC has done to its port, and whichever waits have expired, as long as no request overran the
static buffers: once it drops the strobe and waits, every way for core 1 to go on leads to such a store or
back to its polls. If GPIO 19 is low there, DOS is served in time from then on as with the disk layer at
hand; it is high exactly if core 1 had left it high before the strobe dropped and was in no call that
would touch it. -/
theorem link_recovers (disk : BlindDisk ω) {b : Bufs} {w : ω} {s t : Pico (Device ω)}
    (hidle : s.dev = .idle (Device.idle b w)) (hrun : BoundedRun disk.toDisk s t)
    (hS : t.lines.strobe = false) :
    Surely (HeldStep (Device.act disk.toDisk))
      (fun u => Overruns u ∨ ∃ b' w', u.dev = .idle (Device.idle b' w') ∧
        (u.lines.g19 = true ↔ t.lines.g19 = true ∧ Forgotten (Device.act disk.toDisk) t.dev) ∧
        (u.lines.g19 = false → ∀ localAt xs m v,
          PinRun hostAct (Device.act disk.toDisk) InTime (starting localAt xs m u) v →
          ¬ Deadlock (Device.act disk.toDisk) v ∧
            (∃ v' r, PinRun hostAct (Device.act disk.toDisk) InTime v v' ∧ v'.host = .idle (.ret r)) ∧
            ∀ r, v.host = .idle (.ret r) → r = (serveOnDisk disk.toDisk localAt xs m w').1)) t := by
  have hsane : Sane disk.toDisk s.dev s.lines.g19 := by
    rw [hidle]
    exact .polls ⟨b, w, rfl⟩
  refine (surely_polls disk.toDisk (freeRun_sane hsane hrun.free) hS).mono ?_
  rintro u ⟨b', d, -, hdev, hport, hack⟩
  refine .inr ⟨b', _, hdev, hack, ?_⟩
  intro hA localAt xs m v hsession
  have hrest : AtRest (serve localAt xs m) (Device.idle b' (settled disk.toDisk d.prog d.world))
      (starting localAt xs m u) := ⟨rfl, hdev, (strobe_of_port hport).trans hS, hA, rfl, rfl⟩
  obtain ⟨b₁, hleads⟩ := leads_serve disk localAt xs m b' (settled disk.toDisk d.prog d.world)
  obtain ⟨hlive, ⟨v', hfinish, hv'⟩, hend⟩ := inTime_finishes (quiet_rest _ _ _ _) hleads hrest hsession
  refine ⟨hlive, ⟨v', _, hfinish, hv'⟩, ?_⟩
  intro r hr
  exact Prog.ret.inj (hend _ hr rfl).1

end Restart

section Interrupted

variable {ω : Type}

/-- A disk layer that records what is written looks at the buffer no more than without. -/
def recorded (disk : BlindDisk ω) : BlindDisk (ω × List Write) where
  toDisk := disk.toDisk.logged
  blind w d l buff buff' := by
    obtain ⟨hblock, hworld⟩ := Prod.mk.inj (disk.blind w.1 d l buff buff')
    exact Prod.ext hblock (Prod.ext hworld rfl)

/-- The PC stops at any time between the accesses of the two machines, and its port drops the strobe. Every
way for core 1 to go on leads back to its polls, GPIO 19 low, and what has been written by then is what
the requests were to write up to some block, but for the data of the last. -/
theorem interrupted_writes (disk : BlindDisk ω) {localAt : FarPtr} {xs : List Posted} {m : Machine} {b : Bufs}
    {w : ω} {s t : Pins (HostProg (List Reply × Option Machine)) (Device (ω × List Write))}
    (port : UInt8) (hrest : AtRest (serve localAt xs m) (Device.idle b (w, [])) s)
    (hrun : PinRun hostAct (Device.act disk.toDisk.logged) InTime s t)
    (hS : (stopped port t).lines.strobe = false) :
    Surely (HeldStep (Device.act disk.toDisk.logged))
      (fun u => ∃ b' w' l, u.dev = .idle (Device.idle b' w') ∧ u.lines.g19 = false ∧
        l <+: (serveOnDisk disk.toDisk.logged localAt xs m (w, [])).2.2 ∧ TornLast l w'.2)
      (stopped port t) := by
  obtain ⟨b₁, hleads⟩ := leads_serve (recorded disk) localAt xs m b (w, [])
  exact stopped_torn port (quiet_rest _ _ _ _) hleads hrest hrun hS

end Interrupted

section Cut

/-- The PC is about to post the write of a block of zeros and a read of it; the writes are recorded. -/
def cutStart : Pins (HostProg (List Reply × Option Machine)) (Device (Drives × List Write)) :=
  ⟨.idle (serve ⟨0, 0⟩ storedPosts clearedMachine),
    .idle (Device.idle ⟨.zero, .zero⟩ (fun _ => [.ofFn fun _ => 1], [])),
    ⟨0, false, false, false, false, false⟩, ⟨[], []⟩, ⟨[], []⟩⟩

/-- The blocks core 1 has written when it goes on from the byte it sends. -/
def written : DevState (Device (Drives × List Write)) → List (UInt8 × UInt32)
  | .writing _ sent _ => sent.world.2.map Write.block
  | _ => []

/-- The PC has sent the ten bytes of the write, and has read half of the status. -/
theorem cutStart_reaches :
    ∃ t, play (pinNext hostAct (Device.act blindArray.toDisk.logged))
        (fun m x => m ≠ .timeout ∧ ¬ Overruns (pico x))
        (turns ([(2, 7), (2, 3), (4, 5)] ++ (List.replicate 8 [(2, 3), (4, 6)]).flatten ++
          [(2, 3), (3, 9)])) cutStart = some t ∧
      t.devLog = ⟨[0x00], [0x04, 0, 0, 4, 0, 0, 0x00, 0xff, 0x00, 0xff]⟩ ∧ written t.dev = [(0, 0)] ∧
      ¬ Deadlock (Device.act blindArray.toDisk.logged) t := by
  have hend : (play (pinNext hostAct (Device.act blindArray.toDisk.logged))
      (fun m x => m ≠ .timeout ∧ ¬ Overruns (pico x))
      (turns ([(2, 7), (2, 3), (4, 5)] ++ (List.replicate 8 [(2, 3), (4, 6)]).flatten ++
        [(2, 3), (3, 9)])) cutStart).map
        (fun t => (t.devLog.passed, t.devLog.returned, written t.dev,
          decide (Deadlock (Device.act blindArray.toDisk.logged) t))) =
      some ([0x00], [0x04, 0, 0, 4, 0, 0, 0x00, 0xff, 0x00, 0xff], [(0, 0)], false) := by
    decide +kernel
  obtain ⟨t, ht, heq⟩ := Option.map_eq_some_iff.mp hend
  simp only [Prod.mk.injEq] at heq
  obtain ⟨hpassed, hreturned, hwritten, hdead⟩ := heq
  exact ⟨t, ht, by rw [← hpassed, ← hreturned], hwritten, of_decide_eq_false hdead⟩

/-- Then it drops the strobe. -/
theorem link_recovers_stored : ∃ t : Pico (Device (Drives × List Write)),
    BoundedRun blindArray.toDisk.logged (pico cutStart) t ∧
      t.log = ⟨[0x00], [0x04, 0, 0, 4, 0, 0, 0x00, 0xff, 0x00, 0xff]⟩ ∧ written t.dev = [(0, 0)] ∧
      Surely (HeldStep (Device.act blindArray.toDisk.logged))
        (fun u => Overruns u ∨ ∃ b w, u.dev = .idle (Device.idle b w) ∧
          (u.lines.g19 = true ↔ t.lines.g19 = true ∧
            Forgotten (Device.act blindArray.toDisk.logged) t.dev)) t := by
  obtain ⟨t, hsched, hlog, hwritten, -⟩ := cutStart_reaches
  have hpins : PinRun hostAct (Device.act blindArray.toDisk.logged) (fun _ x => ¬ Overruns (pico x))
      cutStart t := play_run pinNext_step (fun _ _ hcheck => (of_decide_eq_true hcheck).2) hsched
  have hrun : BoundedRun blindArray.toDisk.logged (pico cutStart) (pico t) :=
    freeSteps_of_pinRun (fun _ _ hbounds _ => hbounds) hpins
  have hdropped : BoundedRun blindArray.toDisk.logged (pico cutStart) (stopped 0x00 t) :=
    .step hrun (fun hmover => absurd hmover (by decide)) (.host 0x00)
  refine ⟨_, hdropped, hlog, hwritten, ?_⟩
  refine (link_recovers (recorded blindArray.toBlindDisk) rfl hdropped
    (by simp [stopped, Lines.strobe])).mono ?_
  rintro u (hoverruns | ⟨b, w, hu, hack, -⟩)
  · exact .inl hoverruns
  · exact .inr ⟨b, w, hu, hack⟩

/-- What it had sent of the requests was the write. -/
theorem interrupted_writes_stored :
    ∃ t : Pins (HostProg (List Reply × Option Machine)) (Device (Drives × List Write)),
      PinRun hostAct (Device.act blindArray.toDisk.logged) InTime cutStart t ∧
      t.devLog = ⟨[0x00], [0x04, 0, 0, 4, 0, 0, 0x00, 0xff, 0x00, 0xff]⟩ ∧ written t.dev = [(0, 0)] ∧
      Surely (HeldStep (Device.act blindArray.toDisk.logged))
        (fun u => ∃ b w l, u.dev = .idle (Device.idle b w) ∧ u.lines.g19 = false ∧
          l <+: (serveOnDisk blindArray.toDisk.logged ⟨0, 0⟩ storedPosts clearedMachine
            (fun _ => [.ofFn fun _ => 1], [])).2.2 ∧ TornLast l w.2)
        (stopped 0x00 t) := by
  obtain ⟨t, hsched, hlog, hwritten, hlive⟩ := cutStart_reaches
  have hstart : AtRest (serve ⟨0, 0⟩ storedPosts clearedMachine)
      (Device.idle ⟨.zero, .zero⟩ (fun _ => [.ofFn fun _ => 1], [])) cutStart :=
    ⟨rfl, rfl, rfl, rfl, rfl, rfl⟩
  have hin : PinRun hostAct (Device.act blindArray.toDisk.logged) InTime cutStart t := by
    obtain ⟨b', hleads⟩ := leads_serve (recorded blindArray.toBlindDisk) ⟨0, 0⟩ storedPosts
      clearedMachine ⟨.zero, .zero⟩ (fun _ => [.ofFn fun _ => 1], [])
    rcases inTime_or_missed (matching_leads (quiet_rest _ _ _ _)) hleads hstart
        (play_run pinNext_step (fun _ _ hcheck => (of_decide_eq_true hcheck).1) hsched) with
      hin | ⟨ds, us, hmiss⟩
    · exact hin
    · exact absurd (missed_deadlock hmiss) hlive
  exact ⟨t, hin, hlog, hwritten, interrupted_writes blindArray.toBlindDisk 0x00 hstart hin
    (by simp [stopped, Lines.strobe])⟩

end Cut

end LptStore.Dos
