import Bdr.Client.Flow
import Bdr.System.System

/-!
# System — what has been captured

A system together with the writes that were captured and those that were sent since the ring was
reset (`Capture`).  They are recorded alongside; no goroutine looks at them.
-/

namespace Bdr.System

open Client Server

variable {P : ℕ}

/-- A system, and what has been captured and sent since the ring was reset. -/
structure Captured (P : ℕ) where
  system : System
  capture : Capture P

namespace Captured

section Parts
variable (t : Captured P)

abbrev client : Client := t.system.client

abbrev session : Session := t.system.session

abbrev toServer : List Packet := t.system.toServer

abbrev toClient : List Packet := t.system.toClient

end Parts

def start (client : Client) (machine : Machine) : Captured P :=
  ⟨.start client machine, ⟨client.source, [], []⟩⟩

section Step
variable (cfg : Config) (t : Captured P)

def note : Move P → Capture P
  | .client m => t.capture.after t.system.client m (sent cfg t.system.client m)
  | _ => t.capture

def step (m : Move P) : Option (Captured P) := (t.system.step cfg m).map (⟨·, t.note cfg m⟩)

end Step

section Cases
variable {cfg : Config} {t t' : Captured P}

theorem step_client {m : ClientMove P} (h : t.step cfg (.client m) = some t') :
    ∃ c ps toClient, t.system.client.move cfg.client m = some (c, ps) ∧
      t.system.Inbox toClient m ∧
      t' = ⟨{ t.system with
          client := c
          toServer := push t.system.connected t.system.toServer ps
          toClient := toClient }, t.capture.after t.system.client m ps⟩ := by
  obtain ⟨s, hs, rfl⟩ := Option.map_eq_some_iff.mp h
  obtain ⟨c, ps, toClient, hm, hin, rfl⟩ := System.step_client hs
  refine ⟨c, ps, toClient, hm, hin, ?_⟩
  simp [note, sent, hm]

theorem step_server {m : SessionMove} (h : t.step cfg (.server m) = some t') :
    ∃ s ps toServer, t.system.session.move cfg.serverHash cfg.serverWorkers m = some (s, ps) ∧
      t.system.Outbox toServer m ∧
      t' = ⟨{ t.system with
          session := s
          toServer := toServer
          toClient := push t.system.connected t.system.toClient ps }, t.capture⟩ := by
  obtain ⟨s, hs, rfl⟩ := Option.map_eq_some_iff.mp h
  obtain ⟨s, ps, toServer, hm, hout, rfl⟩ := System.step_server hs
  exact ⟨s, ps, toServer, hm, hout, rfl⟩

/-- What a move of the server changes. -/
structure ServerStep (cfg : Config) (t : Captured P) (m : SessionMove) (t' : Captured P)
    (ps : List Packet) : Prop where
  move : t.session.move cfg.serverHash cfg.serverWorkers m = some (t'.session, ps)
  client : t'.client = t.client
  toServer : t.toServer = Session.received m ++ t'.toServer
  toClient : t'.toClient = push t.system.connected t.toClient ps
  connected : t'.system.connected = t.system.connected
  capture : t'.capture = t.capture

theorem serverStep {m : SessionMove} (h : t.step cfg (.server m) = some t') :
    ∃ ps, ServerStep cfg t m t' ps := by
  obtain ⟨s, ps, toServer, hm, hout, rfl⟩ := step_server h
  exact ⟨ps, hm, rfl, hout.received, rfl, rfl, rfl⟩

end Cases

/-- A script is followed. -/
def follow (cfg : Config) (ok : Captured P → Move P → Prop) [∀ t m, Decidable (ok t m)] :
    Captured P → Cue P → Option (Captured P) :=
  System.follow cfg system (fun t m s => ⟨s, t.note cfg m⟩) ok

theorem exists_run {cfg : Config} {ok : Captured P → Move P → Prop} [∀ t m, Decidable (ok t m)]
    {t t' : Captured P} {script : List (Cue P)} (h : exec (follow cfg ok) t script = some t') :
    ∃ moves, Run (step cfg) ok t moves t' :=
  exists_run_of_follow (fun _ _ => rfl) h

/-- The system with more packets ahead of those on their way to the server. -/
def behind (t : Captured P) (ps : List Packet) : Captured P :=
  ⟨{ t.system with toServer := ps ++ t.toServer }, t.capture⟩

theorem eq_behind {t : Captured P} {ps qs : List Packet} (h : t.toServer = ps ++ qs) :
    t = Captured.behind ⟨{ t.system with toServer := qs }, t.capture⟩ ps := by
  obtain ⟨⟨c, s, out, inbox, b⟩, g⟩ := t
  cases h
  rfl

/-- The client does not know what has been received. -/
theorem step_behind {cfg : Config} {t : Captured P} (hconn : t.system.connected = true)
    (ps : List Packet) (m : ClientMove P) :
    (t.behind ps).step cfg (.client m) = (t.step cfg (.client m)).map (·.behind ps) := by
  have hsystem : (t.behind ps).system.step cfg (.client m) =
      (t.system.step cfg (.client m)).map fun s => { s with toServer := ps ++ s.toServer } := by
    have hpush : ∀ toClient, (t.behind ps).system.clientStep cfg toClient m =
        (t.system.clientStep cfg toClient m).map
          fun s => { s with toServer := ps ++ s.toServer } := by
      intro toClient
      simp only [System.clientStep, behind, Option.map_map]
      congr 1
      funext r
      simp [hconn]
    cases m with
    | deliver packet =>
        simp only [System.step, Option.map_bind]
        exact congrArg _ (funext hpush)
    | eof => simp [System.step, behind, hconn]
    | dial => rfl
    | write | run | monitor | listener | hashing | replication => exact hpush _
  simp only [step, hsystem, Option.map_map]
  rfl

end Captured

end Bdr.System
