import Bdr.Client.Ring
import Bdr.Server.Session
import Bdr.Support.Runs

/-!
# System — client and server

A client and the session the server has with it, joined by a connection that delivers the packets
of each side in order.  Either side makes its moves in any order; a packet is received only from
the head of what the other side has sent.

The connection may be lost at any moment.  What is sent after that is lost; each side may still
receive what had been sent before.  When the client connects again the server has ended the session
and begins a new one, on the target and the journal it has by then.
-/

/-- A client, the session with it, and the packets under way in each direction. -/
structure Bdr.System where
  client : Client
  session : Server.Session
  toServer : List Packet
  toClient : List Packet
  connected : Bool

namespace Bdr.System

open Client Server

/-- What both programs are set up with. -/
structure Config where
  client : ClientConfig
  serverHash : List UInt8 → UInt64
  serverWorkers : ℕ

/-- A move of the client or of the server, or what happens to the connection. -/
inductive Move (P : ℕ) where
  | client (m : ClientMove P)
  | server (m : SessionMove)
  | disconnect
  | reconnect (machine : Machine)

/-- A client that has connected, and whose `Run` is about to carry out a command, if any. -/
def start (client : Client) (machine : Machine) : System where
  client := client
  session := .start machine
  toServer := []
  toClient := []
  connected := true

/-- A packet is received: the first of those under way. -/
def pop (packet : Packet) : List Packet → Option (List Packet)
  | [] => none
  | p :: ps => if p = packet then some ps else none

/-- Packets are sent, if there is a connection. -/
def push (connected : Bool) (chan ps : List Packet) : List Packet :=
  if connected then chan ++ ps else chan

section Step
variable {P : ℕ} (cfg : Config) (s : System)

def clientStep (toClient : List Packet) (m : ClientMove P) : Option System :=
  (s.client.move cfg.client m).map fun r =>
    { s with client := r.1, toServer := push s.connected s.toServer r.2, toClient := toClient }

def serverStep (toServer : List Packet) (m : SessionMove) : Option System :=
  (s.session.move cfg.serverHash cfg.serverWorkers m).map fun r =>
    { s with session := r.1, toServer := toServer, toClient := push s.connected s.toClient r.2 }

def step : Move P → Option System
  | .client (.deliver packet) =>
      (pop packet s.toClient).bind fun ps => s.clientStep cfg ps (.deliver packet : ClientMove P)
  | .client .eof => if s.connected then none else s.clientStep cfg [] (.eof : ClientMove P)
  | .client .dial => none
  | .client m => s.clientStep cfg s.toClient m
  | .server (.receive packet) =>
      (pop packet s.toServer).bind fun ps => s.serverStep cfg ps (.receive packet)
  | .server m => s.serverStep cfg s.toServer m
  | .disconnect => some { s with connected := false }
  | .reconnect machine =>
      (s.client.move cfg.client (.dial : ClientMove P)).map fun r =>
        ⟨r.1, .start machine, [], [], true⟩

/-- The packets the client sends in a move. -/
def sent (c : Client) (m : ClientMove P) : List Packet :=
  ((c.move cfg.client m).map Prod.snd).getD []

end Step

/-! ### What a step does -/

section Cases
variable {cfg : Config} {s s' : System} {P : ℕ}

theorem pop_eq_some {packet : Packet} {ps qs : List Packet} :
    pop packet ps = some qs ↔ ps = packet :: qs := by
  cases ps with
  | nil => simp [pop]
  | cons p ps => simp [pop]

@[simp] theorem push_true (chan ps : List Packet) : push true chan ps = chan ++ ps := rfl

@[simp] theorem push_false (chan ps : List Packet) : push false chan ps = chan := rfl

@[simp] theorem push_nil (b : Bool) (chan : List Packet) : push b chan [] = chan := by
  cases b <;> simp

/-- What is left of the packets to the client after a move of its. -/
def Inbox (s : System) (toClient : List Packet) : ClientMove P → Prop
  | .deliver packet => s.toClient = packet :: toClient
  | .eof => s.connected = false ∧ toClient = []
  | .dial => False
  | _ => toClient = s.toClient

theorem step_client {m : ClientMove P} (h : s.step cfg (.client m) = some s') :
    ∃ c ps toClient, s.client.move cfg.client m = some (c, ps) ∧ s.Inbox toClient m ∧
      s' = { s with
        client := c
        toServer := push s.connected s.toServer ps
        toClient := toClient } := by
  have key : ∀ toClient, s.clientStep cfg toClient m = some s' →
      s.Inbox toClient m → ∃ c ps toClient, s.client.move cfg.client m = some (c, ps) ∧
        s.Inbox toClient m ∧ s' = { s with
          client := c
          toServer := push s.connected s.toServer ps
          toClient := toClient } := by
    intro toClient h hin
    obtain ⟨⟨c, ps⟩, hm, rfl⟩ := Option.map_eq_some_iff.mp h
    exact ⟨c, ps, toClient, hm, hin, rfl⟩
  cases m with
  | deliver packet =>
      obtain ⟨toClient, hpop, h⟩ := Option.bind_eq_some_iff.mp h
      exact key _ h (pop_eq_some.mp hpop)
  | eof =>
      simp only [step] at h
      split at h
      · cases h
      · rename_i hc
        exact key _ h ⟨by simpa using hc, rfl⟩
  | dial => cases h
  | run => exact key _ h rfl
  | monitor sent => exact key _ h rfl
  | listener sent => exact key _ h rfl
  | hashing m => exact key _ h rfl
  | replication m => exact key _ h rfl
  | write a => exact key _ h rfl

/-- As long as the connection is up and the server has sent nothing, the listener does not move. -/
theorem Inbox.of_receiving {toClient ps : List Packet} {c : Client} {m : ClientMove P}
    (h : s.Inbox toClient m) (hconn : s.connected = true) (hto : s.toClient = [])
    (hl : s.client.listener = .receiving) (hs : s.client.move cfg.client m = some (c, ps)) :
    m.ofListener = false ∧ toClient = [] := by
  cases m with
  | deliver packet => cases hto.symm.trans h
  | eof => cases hconn.symm.trans h.1
  | dial => exact h.elim
  | listener sent => simp [Client.move, moveListener, hl] at hs
  | write | run | monitor | hashing | replication => exact ⟨rfl, h.trans hto⟩

/-- What is left of the packets to the server after a move of its. -/
def Outbox (s : System) (toServer : List Packet) : SessionMove → Prop
  | .receive packet => s.toServer = packet :: toServer
  | _ => toServer = s.toServer

theorem Outbox.received {toServer : List Packet} {m : SessionMove} (h : s.Outbox toServer m) :
    s.toServer = Session.received m ++ toServer := by
  cases m with
  | receive packet => exact h
  | _ => exact h.symm

theorem step_server {m : SessionMove} (h : s.step cfg (.server m : Move P) = some s') :
    ∃ t ps toServer, s.session.move cfg.serverHash cfg.serverWorkers m = some (t, ps) ∧
      s.Outbox toServer m ∧
      s' = { s with
        session := t
        toServer := toServer
        toClient := push s.connected s.toClient ps } := by
  have key : ∀ toServer, s.serverStep cfg toServer m = some s' →
      s.Outbox toServer m → ∃ t ps toServer,
        s.session.move cfg.serverHash cfg.serverWorkers m = some (t, ps) ∧ s.Outbox toServer m ∧
        s' = { s with
          session := t
          toServer := toServer
          toClient := push s.connected s.toClient ps } := by
    intro toServer h hin
    obtain ⟨⟨t, ps⟩, hm, rfl⟩ := Option.map_eq_some_iff.mp h
    exact ⟨t, ps, toServer, hm, hin, rfl⟩
  cases m with
  | receive packet =>
      obtain ⟨toServer, hpop, h⟩ := Option.bind_eq_some_iff.mp h
      exact key _ h (pop_eq_some.mp hpop)
  | handler sent => exact key _ h rfl
  | writer => exact key _ h rfl
  | corrector => exact key _ h rfl
  | journaler sent => exact key _ h rfl
  | replicator i => exact key _ h rfl
  | startHash => exact key _ h rfl
  | hash m => exact key _ h rfl

end Cases

/-! ### Scripts

A step compares the packet that the server receives with the first one under way, a page of data
and all.  A script says only that one is received. -/

/-- A move, or that the server receives the packet that comes first. -/
inductive Cue (P : ℕ) where
  | client (m : ClientMove P)
  | server (m : SessionMove)
  | receive

section Script
variable {P : ℕ} {τ : Type*} {cfg : Config}

/-- The move that the cue asks for, and the system after it. -/
def Cue.next (cfg : Config) (s : System) : Cue P → Option (Move P × System)
  | .client m => (s.step cfg (.client m)).map (Prod.mk (.client m))
  | .server m => (s.step cfg (.server m : Move P)).map (Prod.mk (.server m))
  | .receive =>
      match s.toServer with
      | [] => none
      | p :: ps => (s.serverStep cfg ps (.receive p)).map (Prod.mk (.server (.receive p)))

theorem Cue.step_of_next {s s' : System} {c : Cue P} {m : Move P}
    (h : c.next cfg s = some (m, s')) : s.step cfg m = some s' := by
  cases c with
  | client m | server m =>
      obtain ⟨s₁, hs, hm⟩ := Option.map_eq_some_iff.mp h
      cases hm
      exact hs
  | receive =>
      cases hto : s.toServer with
      | nil => simp [Cue.next, hto] at h
      | cons p ps =>
          rw [Cue.next, hto] at h
          obtain ⟨s₁, hs, hm⟩ := Option.map_eq_some_iff.mp h
          cases hm
          simpa only [step, hto, pop, if_true, Option.bind_some] using hs

/-- A state that has a system in it, and notes what it does, follows a cue. -/
def follow (cfg : Config) (system : τ → System) (note : τ → Move P → System → τ)
    (ok : τ → Move P → Prop) [∀ t m, Decidable (ok t m)] (t : τ) (c : Cue P) : Option τ :=
  (c.next cfg (system t)).bind fun r => if ok t r.1 then some (note t r.1 r.2) else none

/-- A script that can be followed to its end is a run. -/
theorem exists_run_of_follow {step : τ → Move P → Option τ} {ok : τ → Move P → Prop}
    [∀ t m, Decidable (ok t m)] {system : τ → System} {note : τ → Move P → System → τ}
    (hstep : ∀ t m, step t m = ((system t).step cfg m).map (note t m)) {t t' : τ}
    {script : List (Cue P)} (h : exec (follow cfg system note ok) t script = some t') :
    ∃ moves, Run step ok t moves t' := by
  refine Run.exists_of_exec (fun t c t' ht => ?_) h
  obtain ⟨⟨m, s⟩, hnext, ht⟩ := Option.bind_eq_some_iff.mp ht
  obtain ⟨hok, ht⟩ := Option.ite_none_right_eq_some.mp ht
  exact ⟨m, hok, by rw [hstep, Cue.step_of_next hnext, ← ht, Option.map_some]⟩

end Script

end Bdr.System
