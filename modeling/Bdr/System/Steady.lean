import Bdr.Client.Resync
import Bdr.Server.Writer
import Bdr.System.Captured

/-!
# System — the steady state

A client that replicates the writes of its source as they come: no recovery has been asked for, the
ring does not overflow and the connection stays up.  A captured write goes from its slot into a
window, from there into a packet, through the server's queue and to the replica, which may fail to
take it any number of times.

The replica is always its first image with some of the captured writes applied, oldest first, and
perhaps a part of the next one; once nothing is left on the way all of them are.
-/

namespace Bdr.Client

open Kern

variable {P : ℕ}

/-- No recovery is under way, and the monitor is not about to start one. -/
structure Undisturbed (c : Client) : Prop where
  run : c.run = none
  state : c.shared.state = .writing
  listener : c.listener = .receiving
  free : c.monitor.Free c.shared.pause
  readers : c.hashing.readers.workers = []
  hashing : c.hashing.Quiet
  replication : c.replication.phase = .idle

section Undisturbed
variable {cfg : ClientConfig} {c c' : Client} {ps : List Packet} {m : ClientMove P}

theorem undisturbed_start (ring : RingBuffer) (source : Image UInt8) :
    (start none ring source).Undisturbed where
  run := rfl
  state := rfl
  listener := rfl
  free := ⟨by rintro ⟨⟩, by rintro _ ⟨⟩; exact .inl rfl, by rintro _ ⟨⟩, by rintro _ _ ⟨⟩⟩
  readers := rfl
  hashing := InitHashing.quiet_start 0
  replication := rfl

/-- The monitor is the only one to read the ring, and nobody resets it. -/
theorem Undisturbed.ringOp (h : c.Undisturbed) (m : ClientMove P) :
    c.ringOp m ≠ some .reset ∧ (c.ringOp m = some .read → c.monitor = .reading) := by
  cases m with
  | write a => simp [Client.ringOp]
  | run => simp [Client.ringOp, h.run]
  | monitor sent =>
      cases hm : c.monitor with
      | reading => simp [Client.ringOp, hm]
      | waiting call => simp [Client.ringOp, hm]
      | starting call => exact absurd hm (h.free.starting call)
      | processing w => simp [Client.ringOp, hm]
  | listener sent => simp [Client.ringOp, h.listener]
  | hashing m =>
      rw [ringOp_hashes]
      · simp
      · rintro i failed call -
        rw [(Pool.finished_of_workers h.readers).busy? i]
        simp
  | deliver | eof | dial | replication => simp [Client.ringOp]

theorem Undisturbed.orderly (h : c.Undisturbed)
    (hroom : ∀ a, m = .write a → (bdrRingBufferPut c.shared.ring a).2 = true) : c.Orderly m where
  room a ha := hroom a (write_of_ringOp ha)
  alone hop := by
    have hread := (h.ringOp m).2 (hop.resolve_right (h.ringOp m).1)
    simp [windows, h.listener, hread, Listener.window?, Monitor.window?]
  unpaused w hw hpc := by rcases h.free.checking w _ hw hpc with h | h | h <;> cases h
  connected _ := by simp [h.state]

/-- The client goes on replicating, as long as the ring is not flagged and nothing comes from the
server. -/
theorem Undisturbed.move (h : c.Undisturbed) (hring : c.shared.ring.bufferInfo.overflown = false)
    (hm : m.ofListener = false) (hs : c.move cfg m = some (c', ps)) : c'.Undisturbed := by
  cases move_cases hs with
  | write a => exact { h with }
  | run hrun => cases h.run.symm.trans hrun
  | monitorWaits _ hmon hp =>
      have hfree := h.free
      rw [hmon] at hfree
      exact { h with free := hfree.waits hp }
  | monitorReads _ hmon =>
      have hfree := h.free
      rw [hmon] at hfree
      rw [read_snd]
      exact { h with free := hfree.reads hring }
  | monitorStarts _ hmon => exact absurd hmon (h.free.starting _)
  | monitorProcesses _ hmon hp =>
      have hfree := h.free
      rw [hmon] at hfree
      exact { h with
        state := (shared_processStep hp).2.trans h.state
        free := hfree.processes hp }
  | readerStarts _ hb =>
      rw [(Pool.finished_of_workers h.readers).busy? _] at hb
      cases hb
  | hashes _ _ hp =>
      exact { h with
        readers := by
          rw [← h.readers]
          exact congrArg Pool.workers (InitHashing.readers_move h.readers hp)
        hashing := (h.hashing.move hp).1 }
  | replicates _ hp => exact absurd h.replication hp.not_idle
  | listener | deliver | eof | dial => cases hm

end Undisturbed

end Bdr.Client

namespace Bdr.System

open Client Server Kern

variable {P : ℕ}

namespace Captured

/-- The ring takes every write, and the connection stays up. -/
def steady (t : Captured P) : Move P → Prop
  | .client (.write a) => (bdrRingBufferPut t.system.client.shared.ring a).2 = true
  | .client _ | .server _ => True
  | .disconnect | .reconnect _ => False

instance (t : Captured P) (m : Move P) : Decidable (t.steady m) := by
  unfold steady
  split
  all_goals infer_instance

/-- The replica is `base` with the first captured writes applied, and a part of the next one. -/
def PrefixApplied (base : Image UInt8) (t : Captured P) : Prop :=
  ∃ n k, t.system.session.machine.target.bytes =
    (base.applyAll ((patches t.capture.captured).take n)).applyAll
      (((patches t.capture.captured)[n]?).toList.map (·.torn k))

/-- No captured write is on its way: not in the ring, in a window, in a packet or in a queue. -/
structure Drained (s : System) : Prop where
  ring : s.client.shared.ring.bufferInfo.length = 0
  windows : s.client.windows = []
  packets : s.toServer = []
  queue : s.session.queued = []

/-- The invariant: `done` are the writes that the replica has. -/
structure Steady (cfg : Config) (base : Image UInt8) (t : Captured P)
    (done : List (Patch UInt8)) : Prop where
  connected : t.system.connected = true
  toClient : t.system.toClient = []
  toServer : ∀ p ∈ t.system.toServer, ∃ w, p = .payloadBufferWrite w
  client : t.system.client.Undisturbed
  session : t.system.session.OnlyWrites
  flow : Flow cfg.client.targetInfo t.system.client t.capture
  wrote : t.system.session.Wrote base done
  sent : t.capture.sent = done ++ writes t.system.session.queued ++ writes t.system.toServer

section Steady
variable {cfg : Config} {base : Image UInt8} {t t' : Captured P} {done : List (Patch UInt8)}

theorem steady_start {mem : Image UInt8} {M : ℕ} {rb : RingBuffer}
    (hrb : bdrRingBufferInit mem M = some rb) (hti : cfg.client.targetInfo = bdrGetTargetInfo P rb)
    (source : Image UInt8) (machine : Machine) :
    Steady cfg machine.target.bytes (.start (P := P) (.start none rb source) machine) [] where
  connected := rfl
  toClient := rfl
  toServer := by simp [start, System.start]
  client := undisturbed_start rb source
  session := Session.onlyWrites_start machine
  flow := ⟨hti, rfl, .empty, none, rfl, ⟨refines_init hrb, by rintro _ ⟨⟩⟩, rfl⟩
  wrote := ⟨0, rfl⟩
  sent := rfl

/-- The buffer writes go into the channel. -/
theorem sends_of_undisturbed {c c' : Client} {m : ClientMove P} {ps : List Packet}
    (h : c.Undisturbed) (hm : m.ofListener = false) (hs : c.move cfg.client m = some (c', ps)) :
    ∀ p ∈ ps, ∃ w, p = .payloadBufferWrite w := by
  cases move_cases hs with
  | write | monitorWaits | monitorReads => simp
  | monitorProcesses _ _ hp => exact processStep_writes hp
  | run hrun => cases h.run.symm.trans hrun
  | monitorStarts _ hmon => exact absurd hmon (h.free.starting _)
  | readerStarts _ hb =>
      rw [(Pool.finished_of_workers h.readers).busy? _] at hb
      cases hb
  | hashes _ _ hp =>
      rw [(h.hashing.move hp).2]
      simp
  | replicates _ hp => exact absurd h.replication hp.not_idle
  | listener | deliver | eof | dial => cases hm

theorem Steady.clientMoves (h : Steady cfg base t done) {m : ClientMove P}
    (hm : t.steady (.client m)) (hs : t.step cfg (.client m) = some t') :
    Steady cfg base t' done := by
  obtain ⟨c, ps, toClient, hmove, hin, rfl⟩ := step_client hs
  have hlist := hin.of_receiving h.connected h.toClient h.client.listener hmove
  obtain ⟨q, w, -, hout, -⟩ := h.flow.ring
  have hring := overflown_of_flags hout.refines.flags
  have horderly : t.system.client.Orderly m := h.client.orderly fun a ha => by
    subst ha
    exact hm
  have hps := sends_of_undisturbed h.client hlist.1 hmove
  refine ⟨h.connected, hlist.2, ?_, h.client.move hring hlist.1 hmove, h.session,
    h.flow.move horderly hmove, h.wrote, ?_⟩
  · simp only [h.connected, push_true]
    exact fun p hp => (List.mem_append.mp hp).elim (h.toServer p) (hps p)
  · simp only [h.connected, push_true, Capture.sent_after hmove (h.client.ringOp m).1, h.sent,
      writes_append, List.append_assoc]

theorem Steady.serverMoves (h : Steady cfg base t done) {m : SessionMove}
    (hs : t.step cfg (.server m) = some t') : ∃ done', Steady cfg base t' done' := by
  obtain ⟨s, ps, toServer, hmove, hout, rfl⟩ := step_server hs
  have hrecv := hout.received
  have hm : ∀ packet, m = .receive packet → ∃ w, packet = .payloadBufferWrite w := by
    rintro packet rfl
    exact h.toServer packet (by simp [hrecv, Session.received])
  obtain ⟨hsession, rfl, done', hwrote, hdone⟩ := h.session.move h.wrote hm hmove
  refine ⟨done', h.connected, by simp [h.toClient], fun p hp => ?_, h.client, hsession, h.flow,
    hwrote, ?_⟩
  · exact h.toServer p (by simp [hrecv, hp])
  · rw [h.sent, hrecv, writes_append, ← List.append_assoc, hdone]

theorem Steady.step (h : Steady cfg base t done) {m : Move P} (hm : t.steady m)
    (hs : t.step cfg m = some t') : ∃ done', Steady cfg base t' done' := by
  cases m with
  | client m => exact ⟨done, h.clientMoves hm hs⟩
  | server m => exact h.serverMoves hs
  | disconnect | reconnect => exact hm.elim

/-- The writes that the replica has come first among those that were captured. -/
theorem Steady.captured (h : Steady cfg base t done) :
    ∃ rest, patches t.capture.captured = done ++ writes t.system.session.queued ++ rest ∧
      (Drained t.system → rest = []) := by
  obtain ⟨q, w, hw, hout, hflow⟩ := h.flow.ring
  refine ⟨writes t.system.toServer ++ patches (unsent w q ++ q.pending), ?_, fun hd => ?_⟩
  · rw [hflow, h.sent]
    simp
  · have hnone : w = none := Option.toList_eq_nil_iff.mp (hw.symm.trans hd.windows)
    have hpending : q.pending = [] :=
      List.length_eq_zero_iff.mp (hout.refines.length_eq.symm.trans hd.ring)
    simp [hd.packets, hnone, hpending, unsent]

/-- The write that is being tried is the next one. -/
theorem trying_of_queued {s : Session} {done rest log : List (Patch UInt8)}
    (h : log = done ++ writes s.queued ++ rest) :
    s.trying = [] ∨ s.trying = (log[done.length]?).toList := by
  unfold Session.trying
  split
  · rename_i packet hp
    cases hw : packet.bufferWrite? with
    | none => simp [writes, hw]
    | some w =>
        right
        have hq : writes s.queued =
            w.patch :: writes (s.writeQueue.queue ++ s.handler.toWriter) := by
          simp [Session.queued, hp, WriteTask.packet, writes, hw]
        rw [h, hq]
        simp [writes, hw]
  · exact .inl rfl

theorem Steady.prefixApplied (h : Steady cfg base t done) : t.PrefixApplied base := by
  obtain ⟨rest, hlog, -⟩ := h.captured
  obtain ⟨k, hbytes⟩ := h.wrote
  have hdone : (patches t.capture.captured).take done.length = done := by
    rw [hlog, List.append_assoc, List.take_left]
  rcases trying_of_queued hlog with htry | htry
  · refine ⟨done.length, 0, ?_⟩
    rw [hdone, hbytes, htry]
    cases (patches t.capture.captured)[done.length]? <;> simp
  · exact ⟨done.length, k, by rw [hdone, hbytes, htry]⟩

theorem Steady.allApplied (h : Steady cfg base t done) (hd : Drained t.system) :
    t.system.session.machine.target.bytes = base.applyAll (patches t.capture.captured) := by
  obtain ⟨rest, hlog, hrest⟩ := h.captured
  have htry : t.system.session.trying = [] := by
    have hq := hd.queue
    cases hb : t.system.session.writeQueue.busy? 0 with
    | none => simp [Session.trying, hb]
    | some task => simp [Session.queued, hb] at hq
  rw [(Session.wrote_of_trying htry).mp h.wrote, hlog, hrest hd, hd.queue]
  simp

end Steady

/-- **Prefix consistency.**  Whatever is written to the source and however the kernel, the monitor,
the network and the server's writer take turns, the replica is its first image with a prefix of the
captured writes applied in order, and perhaps a part of the next one, which fails and is tried again
any number of times; when ring and queues are empty it has all of them. -/
theorem prefixApplied_of_steady {cfg : Config} {mem : Image UInt8} {M : ℕ} {rb : RingBuffer}
    (hrb : bdrRingBufferInit mem M = some rb) (hti : cfg.client.targetInfo = bdrGetTargetInfo P rb)
    {source : Image UInt8} {machine : Machine} {moves : List (Move P)} {t : Captured P}
    (hrun : Run (step cfg) steady (.start (.start none rb source) machine) moves t) :
    t.PrefixApplied machine.target.bytes ∧ (Drained t.system →
      t.system.session.machine.target.bytes =
        machine.target.bytes.applyAll (patches t.capture.captured)) := by
  obtain ⟨done, h⟩ := hrun.invariant (I := fun t => ∃ done, Steady cfg machine.target.bytes t done)
    (fun _ _ _ ⟨_, h⟩ hm hs => h.step hm hs) ⟨[], steady_start hrb hti source machine⟩
  exact ⟨h.prefixApplied, h.allApplied⟩

/-- Both sides, with a device of one byte and a ring of four slots. -/
def oneByteConfig : Config where
  client := Traced.fourSlotsConfig
  serverHash := fun bs => UInt64.ofNat (leNat bs)
  serverWorkers := 1

/-- The replica holds a seven, and does not take the first write. -/
def refusingMachine : Machine :=
  { tightMachine with target := tightMachine.target.replan [.short 0] }

/-- A nine is captured, sent and written. -/
def replicateNine : List (Cue 4096) :=
  .client (.write Traced.ninePut) :: List.replicate 7 (.client (.monitor true)) ++
    [.receive, .server (.handler .ok), .server .writer, .server .writer, .server .writer,
      .server .writer, .client (.monitor true)]

theorem prefixApplied_of_steady_replicateNine : ∃ (moves : List (Move 4096)) (t : Captured 4096),
    Run (step oneByteConfig) steady
      (.start (.start none Traced.fourSlots fun _ => 5) refusingMachine) moves t ∧
    t.PrefixApplied refusingMachine.target.bytes ∧
    t.system.session.machine.target.bytes =
      refusingMachine.target.bytes.applyAll (patches t.capture.captured) ∧
    t.system.session.machine.target.bytes 0 = 9 := by
  obtain ⟨t, ht, hd⟩ := exists_exec (P := fun t : Captured 4096 =>
      t.system.client.shared.ring.bufferInfo.length = 0 ∧ t.system.client.windows = [] ∧
        t.system.toServer = [] ∧ t.system.session.queued = [] ∧
        t.system.session.machine.target.bytes 0 = 9)
    (show (exec (follow oneByteConfig steady)
      (.start (.start none Traced.fourSlots fun _ => 5) refusingMachine) replicateNine).any _ = true
      by decide +kernel)
  obtain ⟨hring, hwindows, hpackets, hqueue, hnine⟩ := of_decide_eq_true hd
  obtain ⟨moves, hrun⟩ := exists_run ht
  have hrb : bdrRingBufferInit (fun _ => 0) 4 = some Traced.fourSlots := rfl
  obtain ⟨happlied, hall⟩ := prefixApplied_of_steady hrb rfl hrun
  exact ⟨moves, t, hrun, happlied, hall ⟨hring, hwindows, hpackets, hqueue⟩, hnine⟩

end Captured

end Bdr.System
