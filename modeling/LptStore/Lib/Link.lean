import Mathlib.Tactic.Common

/-!
# A client and a server on a byte link

Two sequential machines exchange messages: a client that sends, receives and at last is
done, and a server that also performs internal steps and, between requests, polls for a
message. `Meet` runs them hand in hand, every message being received as it is sent.
`FifoStep` puts a queue of any length between them in each direction and lets them run at
any relative speed. A server's waits may expire; on the queues, which lose nothing, they do
not.

The result is that the speed does not matter: when the hand-in-hand run ends, every run
over the queues goes on for the same number of steps to the same end (`fifoRun_end`), and
when the client is done nothing is left in either queue (`fifoRun_done`).
-/

namespace LptStore.Lib

/-- What a client does next. -/
inductive ClientAct (μ σ : Type) where
  | done
  | send (b : μ) (c : σ)
  | recv (k : μ → σ)

/-- What a server does next. A poll that finds no message changes nothing, so only its
outcome when there is one is recorded; `expired` is where a wait that times out leads. -/
inductive ServerAct (μ δ : Type) where
  | tau (d : δ)
  | poll (d : δ)
  | send (b : μ) (d : δ) (expired : δ)
  | recv (k : μ → δ) (expired : δ)

/-- Wherever the server may go next. -/
def ServerAct.All {μ δ : Type} (P : δ → Prop) : ServerAct μ δ → Prop
  | .tau d => P d
  | .poll d => P d
  | .send _ d expired => P d ∧ P expired
  | .recv k expired => (∀ b, P (k b)) ∧ P expired

section

variable {μ σ δ : Type} (client : σ → ClientAct μ σ) (server : δ → ServerAct μ δ)

/-- A hand-in-hand step, with the number of steps it stands for when a queue lies between. -/
inductive Meet : Nat → σ × δ → σ × δ → Prop
  | tau {c : σ} {d d' : δ} : server d = .tau d' → Meet 1 (c, d) (c, d')
  | poll {c c' : σ} {d d' : δ} {b : μ} : server d = .poll d' → client c = .send b c' →
      Meet 1 (c, d) (c, d')
  | down {c c' : σ} {d e : δ} {b : μ} {k : μ → δ} : client c = .send b c' → server d = .recv k e →
      Meet 2 (c, d) (c', k b)
  | up {c : σ} {d d' e : δ} {b : μ} {k : μ → σ} : server d = .send b d' e → client c = .recv k →
      Meet 2 (c, d) (k b, d')

/-- The client is not done, nor will it be right after a send. -/
def Continues (c : σ) : Prop :=
  match client c with
  | .done => False
  | .send _ c' => client c' ≠ .done
  | .recv _ => True

/-- A hand-in-hand run to `fin`, throughout which the client has more to do. -/
inductive Path (fin : σ × δ) : Nat → σ × δ → Prop
  | refl : Path fin 0 fin
  | step {m n : Nat} {s s' : σ × δ} : Meet client server m s s' → Continues client s.1 →
      Path fin n s' → Path fin (m + n) s

variable {client server}

theorem meet_unique {m m' : Nat} {s t t' : σ × δ} (h : Meet client server m s t)
    (h' : Meet client server m' s t') : m = m' ∧ t = t' := by
  cases h <;> cases h' <;> simp_all

theorem Path.cast {fin s : σ × δ} {n n' : Nat} (h : Path client server fin n s) (hn : n = n') :
    Path client server fin n' s := hn ▸ h

variable (client server) in
/-- There is a hand-in-hand run from `s` to `fin`. -/
def Leads (fin s : σ × δ) : Prop := ∃ n, Path client server fin n s

theorem Leads.refl (s : σ × δ) : Leads client server s s := ⟨0, .refl⟩

theorem Leads.step {fin s s' : σ × δ} {m : Nat} (hm : Meet client server m s s')
    (hc : Continues client s.1) (h : Leads client server fin s') : Leads client server fin s := by
  obtain ⟨n, hp⟩ := h
  exact ⟨m + n, .step hm hc hp⟩

/-- The run goes on with the one step its state allows. -/
theorem Path.tail {fin s s' : σ × δ} {m n : Nat} (h : Path client server fin n s)
    (hfin : client fin.1 = .done) (hpoll : ∃ d, server fin.2 = .poll d)
    (hm : Meet client server m s s') :
    ∃ n', n = m + n' ∧ Path client server fin n' s' := by
  cases h with
  | refl =>
    obtain ⟨d, hd⟩ := hpoll
    cases hm <;> simp_all
  | step hm' _ hp =>
    obtain ⟨rfl, rfl⟩ := meet_unique hm hm'
    exact ⟨_, rfl, hp⟩

end

/-- The two machines with a queue between them in each direction. -/
structure Fifo (μ σ δ : Type) where
  client : σ
  server : δ
  down : List μ
  up : List μ

section

variable {μ σ δ : Type} (client : σ → ClientAct μ σ) (server : δ → ServerAct μ δ)

/-- One step of either machine. -/
inductive FifoStep : Fifo μ σ δ → Fifo μ σ δ → Prop
  | clientSend {c c' : σ} {d : δ} {b : μ} {down up : List μ} : client c = .send b c' →
      FifoStep ⟨c, d, down, up⟩ ⟨c', d, down ++ [b], up⟩
  | clientRecv {c : σ} {d : δ} {b : μ} {k : μ → σ} {down up : List μ} : client c = .recv k →
      FifoStep ⟨c, d, down, b :: up⟩ ⟨k b, d, down, up⟩
  | serverTau {c : σ} {d d' : δ} {down up : List μ} : server d = .tau d' →
      FifoStep ⟨c, d, down, up⟩ ⟨c, d', down, up⟩
  | serverPoll {c : σ} {d d' : δ} {b : μ} {down up : List μ} : server d = .poll d' →
      FifoStep ⟨c, d, b :: down, up⟩ ⟨c, d', b :: down, up⟩
  | serverSend {c : σ} {d d' e : δ} {b : μ} {down up : List μ} : server d = .send b d' e →
      FifoStep ⟨c, d, down, up⟩ ⟨c, d', down, up ++ [b]⟩
  | serverRecv {c : σ} {d e : δ} {b : μ} {k : μ → δ} {down up : List μ} : server d = .recv k e →
      FifoStep ⟨c, d, b :: down, up⟩ ⟨c, k b, down, up⟩

/-- A run of `n` steps. -/
inductive FifoRun : Nat → Fifo μ σ δ → Fifo μ σ δ → Prop
  | refl (s : Fifo μ σ δ) : FifoRun 0 s s
  | step {n : Nat} {s t u : Fifo μ σ δ} : FifoRun n s t → FifoStep client server t u →
      FifoRun (n + 1) s u

/-- The client has run ahead, leaving the messages `q` in its queue. -/
inductive ClientAhead : σ → List μ → σ → Prop
  | refl (c : σ) : ClientAhead c [] c
  | send {c c' c'' : σ} {b : μ} {q : List μ} : client c = .send b c' → ClientAhead c' q c'' →
      ClientAhead c (b :: q) c''

/-- The server has run `n` steps ahead, leaving the messages `q` in its queue. -/
inductive ServerAhead : Nat → δ → List μ → δ → Prop
  | refl (d : δ) : ServerAhead 0 d [] d
  | tau {n : Nat} {d d' d'' : δ} {q : List μ} : server d = .tau d' → ServerAhead n d' q d'' →
      ServerAhead (n + 1) d q d''
  | send {n : Nat} {d d' d'' e : δ} {b : μ} {q : List μ} : server d = .send b d' e →
      ServerAhead n d' q d'' → ServerAhead (n + 1) d (b :: q) d''

variable {client server}

theorem ClientAhead.snoc {c c' c'' : σ} {b : μ} {q : List μ} (h : ClientAhead client c q c')
    (hs : client c' = .send b c'') : ClientAhead client c (q ++ [b]) c'' := by
  induction h with
  | refl c => exact .send hs (.refl _)
  | send hb _ ih => exact .send hb (ih hs)

theorem ServerAhead.snoc_tau {n : Nat} {d d' d'' : δ} {q : List μ}
    (h : ServerAhead server n d q d') (hs : server d' = .tau d'') :
    ServerAhead server (n + 1) d q d'' := by
  induction h with
  | refl d => exact .tau hs (.refl _)
  | tau ht _ ih => exact .tau ht (ih hs)
  | send hb _ ih => exact .send hb (ih hs)

theorem ServerAhead.snoc_send {n : Nat} {d d' d'' e : δ} {b : μ} {q : List μ}
    (h : ServerAhead server n d q d') (hs : server d' = .send b d'' e) :
    ServerAhead server (n + 1) d (q ++ [b]) d'' := by
  induction h with
  | refl d => exact .send hs (.refl _)
  | tau ht _ ih => exact .tau ht (ih hs)
  | send hb _ ih => exact .send hb (ih hs)

/-- A state over the queues `n` steps from the end: it is a hand-in-hand state from which
one of the two machines has run ahead. -/
inductive Near (client : σ → ClientAct μ σ) (server : δ → ServerAct μ δ) (fin : σ × δ) :
    Nat → Fifo μ σ δ → Prop
  | client {n : Nat} {c c' : σ} {d : δ} {q : List μ} :
      Path client server fin (n + q.length) (c, d) → ClientAhead client c q c' →
      Near client server fin n ⟨c', d, q, []⟩
  | server {n m : Nat} {c : σ} {d d' d'' e : δ} {b : μ} {q : List μ} :
      Path client server fin (n + (m + 1)) (c, d) → server d = .send b d' e →
      ServerAhead server m d' q d'' → Near client server fin n ⟨c, d'', [], b :: q⟩

/-- Where the hand-in-hand run ends: the client is done and the server polls. -/
structure Quiet (client : σ → ClientAct μ σ) (server : δ → ServerAct μ δ) (fin : σ × δ) : Prop where
  done : client fin.1 = .done
  poll : ∃ d, server fin.2 = .poll d

variable {fin : σ × δ}

/-- A server ahead of the hand-in-hand state is near once its internal steps are caught up. -/
theorem near_of_serverAhead (hfin : Quiet client server fin) {n m : Nat} {c : σ} {d d' : δ}
    {q : List μ} (hp : Path client server fin (n + m) (c, d)) (h : ServerAhead server m d q d') :
    Near client server fin n ⟨c, d', [], q⟩ := by
  induction h with
  | refl d => exact .client (by simpa using hp) (.refl c)
  | tau ht _ ih =>
    obtain ⟨n', hn', hp'⟩ := hp.tail hfin.done hfin.poll (.tau ht)
    exact ih (hp'.cast (by omega))
  | send hb h _ => exact .server hp hb h

/-- A hand-in-hand state whose client is not done or whose server does not poll has a step. -/
theorem Path.uncons {n : Nat} {s : σ × δ} (hp : Path client server fin n s)
    (hs : s ≠ fin) :
    ∃ m n' s', n = m + n' ∧ Meet client server m s s' ∧ Continues client s.1 ∧
      Path client server fin n' s' := by
  cases hp with
  | refl => exact absurd rfl hs
  | step hm hc hp => exact ⟨_, _, _, rfl, hm, hc, hp⟩

theorem Path.uncons_of_pos {n : Nat} {s : σ × δ} (hp : Path client server fin n s) (hn : 0 < n) :
    ∃ m s', Meet client server m s s' := by
  cases hp with
  | refl => exact absurd hn (Nat.lt_irrefl 0)
  | step hm _ _ => exact ⟨_, _, hm⟩

theorem Path.eq_of_zero {n : Nat} {s : σ × δ} (hp : Path client server fin n s) (hn : n = 0) :
    s = fin := by
  cases hp with
  | refl => rfl
  | step hm _ _ => cases hm <;> omega

theorem Quiet.ne_of_send (hfin : Quiet client server fin) {c c' : σ} {d : δ} {b : μ}
    (hc : client c = .send b c') : (c, d) ≠ fin := by
  rintro rfl
  simpa [hc] using hfin.done

theorem Quiet.ne_of_serverSend (hfin : Quiet client server fin) {c : σ} {d d' e : δ} {b : μ}
    (hd : server d = .send b d' e) : (c, d) ≠ fin := by
  rintro rfl
  obtain ⟨d'', hp⟩ := hfin.poll
  simp [hd] at hp

/-- A server about to send meets a client about to receive. -/
theorem Path.client_recv (hfin : Quiet client server fin) {n : Nat} {c : σ} {d d' e : δ} {b : μ}
    (hp : Path client server fin n (c, d)) (hd : server d = .send b d' e) :
    ∃ k, client c = .recv k := by
  obtain ⟨m, n', s', -, hm, -, -⟩ := hp.uncons (hfin.ne_of_serverSend hd)
  cases hm with
  | tau h => simp [hd] at h
  | poll h _ => simp [hd] at h
  | down _ h => simp [hd] at h
  | up _ hk => exact ⟨_, hk⟩

/-- Each message the client has run ahead with is worth two steps of the run. -/
theorem ClientAhead.weight (hfin : Quiet client server fin) {n : Nat} {s : σ × δ} {c : σ}
    {q : List μ} (hp : Path client server fin n s) (h : ClientAhead client s.1 q c) :
    2 * q.length ≤ n := by
  induction hp generalizing q with
  | refl =>
    cases h with
    | refl => simp
    | send hb _ => simp [hfin.done] at hb
  | step hm _ _ ih =>
    cases hm with
    | tau _ => exact Nat.le_trans (ih h) (by omega)
    | poll _ _ => exact Nat.le_trans (ih h) (by omega)
    | up _ hk =>
      cases h with
      | refl => simp
      | send hb _ => simp [hk] at hb
    | down hb _ =>
      cases h with
      | refl => simp
      | send hb' h =>
        obtain ⟨rfl, rfl⟩ := ClientAct.send.inj (hb.symm.trans hb')
        have := ih h
        simp only [List.length_cons]
        omega

theorem ServerAhead.weight (hfin : Quiet client server fin) {n m : Nat} {c : σ} {d d' : δ}
    {q : List μ} (hp : Path client server fin n (c, d)) (h : ServerAhead server m d q d') :
    m + q.length ≤ n := by
  induction h generalizing n c with
  | refl d => simp
  | tau ht _ ih =>
    obtain ⟨n', rfl, hp'⟩ := hp.tail hfin.done hfin.poll (.tau ht)
    have := ih hp'
    omega
  | send hb _ ih =>
    obtain ⟨k, hk⟩ := hp.client_recv hfin hb
    obtain ⟨n', rfl, hp'⟩ := hp.tail hfin.done hfin.poll (.up hb hk)
    have := ih hp'
    simp only [List.length_cons]
    omega

/-- Every step over the queues brings the end one step nearer. -/
theorem near_step (hfin : Quiet client server fin) {n : Nat} {s t : Fifo μ σ δ}
    (h : Near client server fin n s) (hst : FifoStep client server s t) :
    ∃ n', n = n' + 1 ∧ Near client server fin n' t := by
  cases h with
  | client hp ha =>
    have hw := ha.weight hfin hp
    cases hst with
    | clientSend hc =>
      have hw' := (ha.snoc hc).weight hfin hp
      rw [List.length_append, List.length_singleton] at hw'
      obtain ⟨n', rfl⟩ : ∃ n', n = n' + 1 := ⟨n - 1, by omega⟩
      refine ⟨n', rfl, .client (hp.cast ?_) (ha.snoc hc)⟩
      rw [List.length_append, List.length_singleton]
      omega
    | serverTau hd =>
      obtain ⟨m, hm, hp'⟩ := hp.tail hfin.done hfin.poll (.tau hd)
      have hw' := ha.weight hfin hp'
      obtain ⟨n', rfl⟩ : ∃ n', n = n' + 1 := ⟨n - 1, by omega⟩
      exact ⟨n', rfl, .client (hp'.cast (by omega)) ha⟩
    | serverPoll hd =>
      cases ha with
      | send hc ha' =>
        obtain ⟨m, hm, hp'⟩ := hp.tail hfin.done hfin.poll (.poll hd hc)
        have hw' := (ClientAhead.send hc ha').weight hfin hp'
        obtain ⟨n', rfl⟩ : ∃ n', n = n' + 1 := ⟨n - 1, by omega⟩
        exact ⟨n', rfl, .client (hp'.cast (by omega)) (.send hc ha')⟩
    | serverSend hd =>
      obtain ⟨k, hk⟩ := hp.client_recv hfin hd
      cases ha with
      | send hc _ => simp [hk] at hc
      | refl =>
        have hw' := ServerAhead.weight hfin hp (.send hd (.refl _))
        rw [List.length_nil, Nat.add_zero] at hp
        obtain ⟨n', rfl⟩ : ∃ n', n = n' + 1 := ⟨n - 1, by simp at hw'; omega⟩
        exact ⟨n', rfl, .server hp hd (.refl _)⟩
    | serverRecv hd =>
      cases ha with
      | send hc ha' =>
        obtain ⟨m, hm, hp'⟩ := hp.tail hfin.done hfin.poll (.down hc hd)
        simp only [List.length_cons] at hw hm
        obtain ⟨n', rfl⟩ : ∃ n', n = n' + 1 := ⟨n - 1, by omega⟩
        exact ⟨n', rfl, .client (hp'.cast (by omega)) ha'⟩
  | server hp hd hs =>
    have hw := ServerAhead.weight hfin hp (.send hd hs)
    simp only [List.length_cons] at hw
    obtain ⟨n', rfl⟩ : ∃ n', n = n' + 1 := ⟨n - 1, by omega⟩
    obtain ⟨k, hk⟩ := hp.client_recv hfin hd
    cases hst with
    | clientSend hc => simp [hk] at hc
    | clientRecv hc =>
      obtain ⟨m, hm, hp'⟩ := hp.tail hfin.done hfin.poll (.up hd hc)
      exact ⟨n', rfl, near_of_serverAhead hfin (hp'.cast (by omega)) hs⟩
    | serverTau hd' =>
      exact ⟨n', rfl, .server (hp.cast (by omega)) hd (hs.snoc_tau hd')⟩
    | serverSend hd' =>
      exact ⟨n', rfl, .server (hp.cast (by omega)) hd (hs.snoc_send hd')⟩

/-- Short of the end, one of the two machines has a step to make. -/
theorem near_progress (hfin : Quiet client server fin) {n : Nat} {s : Fifo μ σ δ}
    (h : Near client server fin (n + 1) s) : ∃ t, FifoStep client server s t := by
  cases h with
  | server hp hd _ =>
    obtain ⟨k, hk⟩ := hp.client_recv hfin hd
    exact ⟨_, .clientRecv hk⟩
  | client hp ha =>
    cases ha with
    | refl =>
      obtain ⟨_, _, hm⟩ := hp.uncons_of_pos (by simp)
      cases hm with
      | tau hd => exact ⟨_, .serverTau hd⟩
      | poll _ hc => exact ⟨_, .clientSend hc⟩
      | down hc _ => exact ⟨_, .clientSend hc⟩
      | up hd _ => exact ⟨_, .serverSend hd⟩
    | send hc _ =>
      obtain ⟨_, _, _, -, hm, -, -⟩ := hp.uncons (hfin.ne_of_send hc)
      cases hm with
      | tau hd => exact ⟨_, .serverTau hd⟩
      | poll hd _ => exact ⟨_, .serverPoll hd⟩
      | down _ hd => exact ⟨_, .serverRecv hd⟩
      | up _ hk => simp [hc] at hk

/-- The machines match wherever `Inv` holds: neither waits for a message the other will not
send. -/
structure Matching (client : σ → ClientAct μ σ) (server : δ → ServerAct μ δ)
    (Inv : σ × δ → Prop) : Prop where
  next : ∀ {n s s'}, Inv s → Meet client server n s s' → Inv s'
  send_recv : ∀ {c d b d' e}, Inv (c, d) → server d = .send b d' e → ∃ k, client c = .recv k
  recv_send : ∀ {c d k}, Inv (c, d) → client c = .recv k →
    (∃ d', server d = .tau d') ∨ ∃ b d' e, server d = .send b d' e

/-- They match all the way to a quiet end. -/
theorem matching_leads (hfin : Quiet client server fin) :
    Matching client server (Leads client server fin) where
  next := by
    intro n s s' ⟨m, hp⟩ hm
    obtain ⟨m', -, hp'⟩ := hp.tail hfin.done hfin.poll hm
    exact ⟨m', hp'⟩
  send_recv := by
    intro c d b d' e ⟨m, hp⟩ hd
    exact hp.client_recv hfin hd
  recv_send := by
    intro c d k ⟨m, hp⟩ hc
    have hne : (c, d) ≠ fin := by
      rintro rfl
      simpa [hc] using hfin.done
    obtain ⟨_, _, _, -, hm, -, -⟩ := hp.uncons hne
    cases hm with
    | tau hd => exact .inl ⟨_, hd⟩
    | poll _ hc' => simp [hc] at hc'
    | down hc' _ => simp [hc] at hc'
    | up hd _ => exact .inr ⟨_, _, _, hd⟩

/-- A client that takes the messages `q` and then waits for another. -/
def Starved (client : σ → ClientAct μ σ) : σ → List μ → Prop
  | c, [] => ∃ k, client c = .recv k
  | c, b :: q => ∃ k, client c = .recv k ∧ Starved client (k b) q

theorem Starved.recv {c : σ} {q : List μ} (h : Starved client c q) : ∃ k, client c = .recv k := by
  cases q with
  | nil => exact h
  | cons b q =>
    obtain ⟨k, hk, -⟩ := h
    exact ⟨k, hk⟩

theorem ServerAhead.starved (hfin : Quiet client server fin) {n m : Nat} {c : σ} {d d' d'' e : δ}
    {b : μ} {q : List μ} (hp : Path client server fin n (c, d)) (h : ServerAhead server m d q d')
    (hd : server d' = .send b d'' e) : Starved client c q := by
  induction h generalizing n c with
  | refl d => exact hp.client_recv hfin hd
  | tau ht _ ih =>
    obtain ⟨n', -, hp'⟩ := hp.tail hfin.done hfin.poll (.tau ht)
    exact ih hp' hd
  | send hb _ ih =>
    obtain ⟨k, hk⟩ := hp.client_recv hfin hb
    obtain ⟨n', -, hp'⟩ := hp.tail hfin.done hfin.poll (.up hb hk)
    exact ⟨k, hk, ih hp' hd⟩

/-- A server about to send has read everything, and the client waits for what it sends. -/
theorem near_starved (hfin : Quiet client server fin) {n : Nat} {c : σ} {d d' e : δ} {b : μ}
    {down up : List μ} (h : Near client server fin n ⟨c, d, down, up⟩)
    (hd : server d = .send b d' e) : down = [] ∧ Starved client c up := by
  cases h with
  | client hp ha =>
    obtain ⟨k, hk⟩ := hp.client_recv hfin hd
    cases ha with
    | refl => exact ⟨rfl, k, hk⟩
    | send hc _ => simp [hk] at hc
  | server hp hb hs =>
    obtain ⟨k, hk⟩ := hp.client_recv hfin hb
    obtain ⟨n', -, hp'⟩ := hp.tail hfin.done hfin.poll (.up hb hk)
    exact ⟨rfl, k, hk, hs.starved hfin hp' hd⟩

/-- No steps from the end is the end. -/
theorem near_zero (hfin : Quiet client server fin) {s : Fifo μ σ δ}
    (h : Near client server fin 0 s) : s = ⟨fin.1, fin.2, [], []⟩ := by
  cases h with
  | client hp ha =>
    have hw := ha.weight hfin hp
    cases ha with
    | send _ _ =>
      rw [List.length_cons] at hw
      omega
    | refl =>
      obtain rfl := hp.eq_of_zero rfl
      rfl
  | server hp hd hs =>
    have hw := ServerAhead.weight hfin hp (.send hd hs)
    simp only [List.length_cons] at hw
    omega

/-- A client that is done has left nothing for the server to read. -/
theorem ClientAhead.nil_of_done (hfin : Quiet client server fin) {n : Nat} {s : σ × δ} {c : σ}
    {q : List μ} (hp : Path client server fin n s) (h : ClientAhead client s.1 q c)
    (hc : client c = .done) : q = [] := by
  induction hp generalizing q with
  | refl =>
    cases h with
    | refl => rfl
    | send hb _ => simp [hfin.done] at hb
  | step hm hcont _ ih =>
    cases hm with
    | tau _ => exact ih h
    | poll _ _ => exact ih h
    | up _ hk =>
      cases h with
      | refl => rfl
      | send hb _ => simp [hk] at hb
    | down hb _ =>
      cases h with
      | refl => rfl
      | send hb' h =>
        obtain ⟨rfl, rfl⟩ := ClientAct.send.inj (hb.symm.trans hb')
        obtain rfl := ih h
        simp only [Continues, hb] at hcont
        cases h with
        | refl => exact absurd hc hcont

theorem near_done (hfin : Quiet client server fin) {n : Nat} {s : Fifo μ σ δ}
    (h : Near client server fin n s) (hs : client s.client = .done) :
    s = ⟨fin.1, fin.2, [], []⟩ := by
  cases h with
  | server hp hd _ =>
    obtain ⟨k, hk⟩ := hp.client_recv hfin hd
    simp [hk] at hs
  | client hp ha =>
    obtain rfl := ha.nil_of_done hfin hp hs
    cases ha with
    | refl =>
      cases hp with
      | refl => rfl
      | step _ hcont _ => simp [Continues, hs] at hcont

variable {c : σ} {d : δ} {n : Nat}

/-- Whatever the order of the steps, a run over the queues stays on the way to the end. -/
theorem fifoRun_near (hfin : Quiet client server fin) (hp : Path client server fin n (c, d))
    {m : Nat} {s : Fifo μ σ δ} (h : FifoRun client server m ⟨c, d, [], []⟩ s) :
    ∃ n', n = m + n' ∧ Near client server fin n' s := by
  generalize hs₀ : (⟨c, d, [], []⟩ : Fifo μ σ δ) = s₀ at h
  induction h with
  | refl =>
    subst hs₀
    exact ⟨n, by omega, .client (by simpa using hp) (.refl c)⟩
  | step _ hst ih =>
    obtain ⟨n', hn, hnear⟩ := ih hs₀
    obtain ⟨n'', rfl, hnear'⟩ := near_step hfin hnear hst
    exact ⟨n'', by omega, hnear'⟩

/-- Every run over the queues can go on to the end, and has `n` steps when it gets there. -/
theorem fifoRun_end (hfin : Quiet client server fin) (hp : Path client server fin n (c, d))
    {m : Nat} {s : Fifo μ σ δ} (h : FifoRun client server m ⟨c, d, [], []⟩ s) :
    m ≤ n ∧ (m = n → s = ⟨fin.1, fin.2, [], []⟩) ∧
      (m < n → ∃ t, FifoStep client server s t) := by
  obtain ⟨n', rfl, hnear⟩ := fifoRun_near hfin hp h
  refine ⟨by omega, fun hm => ?_, fun hm => ?_⟩
  · obtain rfl : n' = 0 := by omega
    exact near_zero hfin hnear
  · obtain ⟨k, rfl⟩ : ∃ k, n' = k + 1 := ⟨n' - 1, by omega⟩
    exact near_progress hfin hnear

/-- Once the client is done, the run is at its end: both queues are empty and the server
polls. -/
theorem fifoRun_done (hfin : Quiet client server fin) (hp : Path client server fin n (c, d))
    {m : Nat} {s : Fifo μ σ δ} (h : FifoRun client server m ⟨c, d, [], []⟩ s)
    (hs : client s.client = .done) : s = ⟨fin.1, fin.2, [], []⟩ := by
  obtain ⟨_, _, hnear⟩ := fifoRun_near hfin hp h
  exact near_done hfin hnear hs

/-- There is a run over the queues to the end. -/
theorem fifoRun_exists (hfin : Quiet client server fin) (hp : Path client server fin n (c, d)) :
    FifoRun client server n ⟨c, d, [], []⟩ ⟨fin.1, fin.2, [], []⟩ := by
  have hprefix : ∀ m, m ≤ n → ∃ s, FifoRun client server m ⟨c, d, [], []⟩ s := by
    intro m
    induction m with
    | zero => exact fun _ => ⟨_, .refl _⟩
    | succ m ih =>
      intro hm
      obtain ⟨s, hs⟩ := ih (Nat.le_of_succ_le hm)
      obtain ⟨-, -, hnext⟩ := fifoRun_end hfin hp hs
      obtain ⟨t, ht⟩ := hnext hm
      exact ⟨t, .step hs ht⟩
  obtain ⟨s, hs⟩ := hprefix n (Nat.le_refl n)
  obtain ⟨-, hend, -⟩ := fifoRun_end hfin hp hs
  exact hend rfl ▸ hs

end

end LptStore.Lib
