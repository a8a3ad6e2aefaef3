import LptStore.Handshake.Progress

/-!
# Delivery of bytes

Any alternation of transfers, as scripts of calls for the two machines, delivers what was
sent: at every moment of every run without expired waits, the bytes returned by one
machine's calls are a prefix of those the other machine has passed to its calls.
-/

namespace LptStore.Handshake

open LptStore.Lib

/-- A transfer of bytes in one direction. -/
inductive Transfer where
  | toDevice (bs : List UInt8)
  | toHost (bs : List UInt8)
  deriving DecidableEq, Repr

/-- A call of the PC: `write_byte(b)` or `read_byte()`. -/
inductive HostCall where
  | writeByte (b : UInt8)
  | readByte
  deriving DecidableEq, Repr

/-- A call of core 1: `lptcomms_readbyte()` or `lptcomms_writebyte(b)`. -/
inductive DevCall where
  | readbyte
  | writebyte (b : UInt8)
  deriving DecidableEq, Repr

def Transfer.hostCalls : Transfer → List HostCall
  | .toDevice bs => bs.map .writeByte
  | .toHost bs => bs.map fun _ => .readByte

def Transfer.devCalls : Transfer → List DevCall
  | .toDevice bs => bs.map fun _ => .readbyte
  | .toHost bs => bs.map .writebyte

/-- The PC making the calls in order. -/
def hostScript : List HostCall → ClientAct UInt8 (List HostCall)
  | [] => .done
  | .writeByte b :: cs => .send b cs
  | .readByte :: cs => .recv fun _ => cs

/-- Core 1 making the calls in order, whatever they return, and polling after the last. -/
def devScript : List DevCall → ServerAct UInt8 (List DevCall)
  | [] => .poll []
  | .readbyte :: cs => .recv (fun _ => cs) cs
  | .writebyte b :: cs => .send b cs cs

/-- Scripts in which every send meets a receive. -/
inductive Aligned : List HostCall × List DevCall → Prop
  | nil : Aligned ([], [])
  | down {b : UInt8} {hs : List HostCall} {ds : List DevCall} : Aligned (hs, ds) →
      Aligned (.writeByte b :: hs, .readbyte :: ds)
  | up {b : UInt8} {hs : List HostCall} {ds : List DevCall} : Aligned (hs, ds) →
      Aligned (.readByte :: hs, .writebyte b :: ds)

theorem aligned_transfer {t : Transfer} {hs : List HostCall} {ds : List DevCall}
    (h : Aligned (hs, ds)) : Aligned (t.hostCalls ++ hs, t.devCalls ++ ds) := by
  cases t with
  | toDevice bs =>
    induction bs with
    | nil => exact h
    | cons b bs ih => exact .down ih
  | toHost bs =>
    induction bs with
    | nil => exact h
    | cons b bs ih => exact .up ih

theorem aligned_transfers (ts : List Transfer) :
    Aligned (ts.flatMap Transfer.hostCalls, ts.flatMap Transfer.devCalls) := by
  induction ts with
  | nil => exact .nil
  | cons t ts ih => exact aligned_transfer ih

theorem matching_aligned : Matching hostScript devScript Aligned where
  next := by
    intro n s s' h hm
    cases h with
    | nil =>
      cases hm with
      | tau hd => cases hd
      | poll _ hc => cases hc
      | down hc _ => cases hc
      | up hd _ => cases hd
    | down h =>
      cases hm with
      | tau hd => cases hd
      | poll hd _ => cases hd
      | down hc hd =>
        cases hc
        cases hd
        exact h
      | up hd _ => cases hd
    | up h =>
      cases hm with
      | tau hd => cases hd
      | poll hd _ => cases hd
      | down hc _ => cases hc
      | up hd hc =>
        cases hc
        cases hd
        exact h
  send_recv := by
    intro c d b d' e h hd
    cases h with
    | nil => simp [devScript] at hd
    | down h => simp [devScript] at hd
    | up h => exact ⟨_, rfl⟩
  recv_send := by
    intro c d k h hc
    cases h with
    | nil => simp [hostScript] at hc
    | down h => simp [hostScript] at hc
    | up h => exact .inr ⟨_, _, _, rfl⟩

/-- At every moment of every run without expired waits, the bytes returned by the receiver's
calls are a prefix of the bytes passed to the sender's calls, in both directions. -/
theorem transfers_delivered {ts : List Transfer} {s t : Pins (List HostCall) (List DevCall)}
    (hrest : AtRest (ts.flatMap Transfer.hostCalls) (ts.flatMap Transfer.devCalls) s)
    (hrun : PinRun hostScript devScript (fun m _ => m ≠ .timeout) s t) :
    t.devLog.returned <+: t.hostLog.passed ∧ t.hostLog.returned <+: t.devLog.passed := by
  rcases pinRun_kept matching_aligned (fun _ _ h => h) (aligned_transfers ts) hrest hrun with
    ⟨ds, us, c, d, -, hph⟩ | ⟨ds, us, hmiss⟩
  · exact phase_logs hph
  · exact missed_logs hmiss

/-- The system at rest before a list of transfers, all wires low. -/
def transferStart (ts : List Transfer) : Pins (List HostCall) (List DevCall) :=
  ⟨.idle (ts.flatMap Transfer.hostCalls), .idle (ts.flatMap Transfer.devCalls),
    ⟨0, false, false, false, false, false⟩, ⟨[], []⟩, ⟨[], []⟩⟩

/-- One byte down and one byte up, delivered. -/
theorem transfers_delivered_exchange :
    ∃ t : Pins (List HostCall) (List DevCall),
      t.hostLog = ⟨[0xa5], [0x3c]⟩ ∧ t.devLog = ⟨[0x3c], [0xa5]⟩ ∧
      t.devLog.returned <+: t.hostLog.passed ∧ t.hostLog.returned <+: t.devLog.passed := by
  have hlogs : (play (pinNext hostScript devScript) (fun m _ => m ≠ .timeout)
      (.replicate 2 .host ++ .replicate 4 .device ++ .replicate 2 .host ++ .replicate 3 .device ++
        .replicate 3 .host ++ .replicate 7 .device ++ .replicate 3 .host ++ .replicate 6 .device ++
        .replicate 4 .host)
      (transferStart [.toDevice [0xa5], .toHost [0x3c]])).map (fun t => (t.hostLog, t.devLog)) =
      some (⟨[0xa5], [0x3c]⟩, ⟨[0x3c], [0xa5]⟩) := by
    decide
  obtain ⟨t, hrun, heq⟩ := Option.map_eq_some_iff.mp hlogs
  obtain ⟨hhost, hdev⟩ := Prod.mk.inj heq
  have hrest : AtRest (([.toDevice [0xa5], .toHost [0x3c]] : List Transfer).flatMap
      Transfer.hostCalls) (([.toDevice [0xa5], .toHost [0x3c]] : List Transfer).flatMap
      Transfer.devCalls) (transferStart [.toDevice [0xa5], .toHost [0x3c]]) :=
    ⟨rfl, rfl, rfl, rfl, rfl, rfl⟩
  exact ⟨t, hhost, hdev, transfers_delivered hrest
    (play_run pinNext_step (fun _ _ => of_decide_eq_true) hrun)⟩

end LptStore.Handshake
