import Bdr.Server.Writer

/-!
# Server — a full replication

From `InfoStartReplication` to `InfoReplicationCompleted` the server takes in the blocks of a full
replication.  `HandleClient` passes them on to a pool of goroutines, which write them to the replica
in any order; at the end it waits for them, so that nothing is left to be written when the server
goes back to `StateWriting`.
-/

namespace Bdr.Server

open Journal

/-- A block of a full replication. -/
def IsBlock (size : ℕ) (Q : ℕ → UInt8 → Prop) (packet : Packet) : Prop :=
  ∃ b, packet = .payloadReplicationBlock b ∧ b.Carries size Q

theorem IsBlock.mono {size : ℕ} {Q Q' : ℕ → UInt8 → Prop} {packet : Packet}
    (h : IsBlock size Q packet) (hQ : ∀ p v, Q p v → Q' p v) : IsBlock size Q' packet := by
  obtain ⟨b, rfl, hb⟩ := h
  exact ⟨b, rfl, hb.mono hQ⟩

/-- What `HandleClient` is about to pass on to the goroutines that write the blocks. -/
def Handler.toReplicators : Handler → List Packet
  | .enqueueing .replication packet => [packet]
  | _ => []

namespace Session

/-- How often the blocks on their way to the replica cover `p`. -/
def weight (p : ℕ) (s : Session) : ℕ :=
  (s.handler.toReplicators.map (Packet.weight p)).sum +
    s.replicationQueue.weigh (Packet.weight p) (Packet.weight p)

/-- The session has not received anything. -/
structure Fresh (s : Session) : Prop where
  writes : s.OnlyWrites
  handler : s.handler = .receiving
  writer : s.writeQueue.Idle
  queue : s.replicationQueue.queue = []

/-- The session is in a full replication, where `HandleClient` first waits for the goroutines of the
one before. -/
structure Taking (size : ℕ) (Q : ℕ → UInt8 → Prop) (s : Session) : Prop where
  state : s.state = .replicating
  handler : s.handler = .receiving ∨
    (∃ packet, s.handler = .enqueueing .replication packet ∧ IsBlock size Q packet) ∨
    s.handler = .drainingReplication .startReplication ∨
    s.handler = .drainingReplication .replicationCompleted
  writer : s.writeQueue.Idle
  correct : s.correctQueue.Idle
  journal : s.journalQueue.workers = []
  hash : s.hashDisk.phase = .returned
  blocks : s.replicationQueue.All (IsBlock size Q) (IsBlock size Q)
  settled : s.replicationQueue.Settled ∨ s.handler = .drainingReplication .startReplication ∧
    s.replicationQueue.workers = [] ∧ s.replicationQueue.queue = []

section Taking
variable {s s' : Session} {size numWorkers : ℕ} {Q Q' : ℕ → UInt8 → Prop} {m : SessionMove}
variable {hash : List UInt8 → UInt64} {ps : List Packet}

theorem fresh_start (machine : Machine) : (start machine).Fresh :=
  ⟨onlyWrites_start machine, rfl, Pool.all_start 1, rfl⟩

theorem queued_of_idle (hw : s.writeQueue.Idle) (hh : s.handler.toWriter = []) : s.queued = [] := by
  have hq : s.writeQueue.queue = [] := List.eq_nil_iff_forall_not_mem.mpr hw.queue
  simp [queued, hw.busy? 0, hq, hh]

theorem Fresh.queued (h : s.Fresh) : s.queued = [] :=
  queued_of_idle h.writer (by rw [h.handler]; rfl)

theorem weight_of_fresh (h : s.Fresh) (p : ℕ) : s.weight p = 0 := by
  have hf := Pool.finished_of_workers h.writes.replication
  simp [weight, h.handler, Handler.toReplicators, hf.weigh, h.queue]

theorem Taking.queued (h : s.Taking size Q) : s.queued = [] := by
  refine queued_of_idle h.writer ?_
  rcases h.handler with hh | ⟨packet, hh, -⟩ | hh | hh <;> rw [hh] <;> rfl

theorem Taking.mono (h : s.Taking size Q) (hQ : ∀ p v, Q p v → Q' p v) : s.Taking size Q' :=
  { h with
    handler := h.handler.imp_right (Or.imp_left fun ⟨packet, hp, hb⟩ => ⟨packet, hp, hb.mono hQ⟩)
    blocks := ⟨fun a ha => (h.blocks.queue a ha).mono hQ,
      fun t ht => (h.blocks.workers t ht).mono hQ⟩ }

theorem Taking.settled_of_ne (h : s.Taking size Q)
    (hne : s.handler ≠ .drainingReplication .startReplication) : s.replicationQueue.Settled :=
  h.settled.resolve_right fun hstart => hne hstart.1

/-- A writer that has nothing to do. -/
theorem moveWriter_of_idle (h : s.writeQueue.Idle) (hs : s.moveWriter = some s') :
    ∃ q, q.Idle ∧ s' = { s with writeQueue := q } := by
  rcases moveWriter_cases hs with ⟨q, hq, rfl⟩ | ⟨p, hp, -⟩ | ⟨p, hp, -⟩
  · exact ⟨q, h.receive hq, rfl⟩
  · rw [h.busy? 0] at hp
    cases hp
  · rw [h.busy? 0] at hp
    cases hp

theorem moveCorrector_of_idle (h : s.correctQueue.Idle) (hs : s.moveCorrector = some s') :
    ∃ q, q.Idle ∧ s' = { s with correctQueue := q } := by
  rcases moveCorrector_cases hs with ⟨q, hq, rfl⟩ | ⟨p, hp, -⟩
  · exact ⟨q, h.receive hq, rfl⟩
  · rw [h.busy? 0] at hp
    cases hp

/-- A session that waits for its first packet. -/
theorem Fresh.waits (h : s.Fresh) (hm : received m = [])
    (hs : s.move hash numWorkers m = some (s', ps)) :
    ps = [] ∧ s'.machine = s.machine ∧ s.wrote m = 0 ∧ s'.Fresh := by
  have hh := h.handler
  cases m with
  | receive packet => cases hm
  | handler sent => simp [Session.move, moveHandler, hh] at hs
  | writer =>
      obtain ⟨t, ht, heq⟩ := Option.map_eq_some_iff.mp hs
      cases heq
      have hfinishes : s.finishes = false := by simp [finishes, h.writer.busy? 0]
      obtain ⟨q, hq, rfl⟩ := moveWriter_of_idle h.writer ht
      exact ⟨rfl, rfl, by simp [wrote, hfinishes], ⟨{ h.writes with }, hh, hq, h.queue⟩⟩
  | corrector =>
      obtain ⟨t, ht, heq⟩ := Option.map_eq_some_iff.mp hs
      cases heq
      obtain ⟨q, hq, rfl⟩ := moveCorrector_of_idle h.writes.correct ht
      exact ⟨rfl, rfl, rfl, ⟨{ h.writes with correct := hq }, hh, h.writer, h.queue⟩⟩
  | journaler sent =>
      have hf := Pool.finished_of_workers h.writes.journal
      simp [Session.move, moveJournaler, hf.busy? 0, hf.receive] at hs
  | replicator i =>
      have hf := Pool.finished_of_workers h.writes.replication
      simp [Session.move, moveReplicator, hf.busy? i, hf.receive] at hs
  | startHash => simp [Session.move, moveStartHash, h.writes.hash] at hs
  | hash m => simp [Session.move, HashDisk.move_of_returned h.writes.hash] at hs

/-- **The first packet** of a full replication. -/
theorem Fresh.taking (h : s.Fresh) (size : ℕ) (Q : ℕ → UInt8 → Prop) :
    (s.receive .infoStartReplication).Taking size Q ∧
      ∀ p, (s.receive .infoStartReplication).weight p = 0 := by
  refine ⟨{
    state := rfl
    handler := .inr (.inr (.inl rfl))
    writer := h.writer
    correct := h.writes.correct
    journal := h.writes.journal
    hash := h.writes.hash
    blocks := ⟨by simp [Session.receive, Pool.close, h.queue],
      by simp [Session.receive, Pool.close, h.writes.replication]⟩
    settled := .inr ⟨rfl, h.writes.replication, h.queue⟩ }, fun p => ?_⟩
  have hf := Pool.finished_of_workers h.writes.replication
  simp [weight, Session.receive, Handler.toReplicators, hf.weigh, h.queue]

theorem Fresh.move (h : s.Fresh) (size : ℕ) (Q : ℕ → UInt8 → Prop)
    (hm : ∀ packet, m = .receive packet → packet = .infoStartReplication)
    (hs : s.move hash numWorkers m = some (s', ps)) :
    ps = [] ∧ s'.machine = s.machine ∧ s.wrote m = 0 ∧
      (s'.Fresh ∧ received m = [] ∨
        received m = [.infoStartReplication] ∧ s'.Taking size Q ∧
          s'.handler = .drainingReplication .startReplication ∧ ∀ p, s'.weight p = 0) := by
  by_cases hrecv : received m = []
  · obtain ⟨hps, hmachine, hwrote, hfresh⟩ := h.waits hrecv hs
    exact ⟨hps, hmachine, hwrote, .inl ⟨hfresh, hrecv⟩⟩
  · cases m with
    | receive packet =>
        cases hm packet rfl
        obtain ⟨-, heq⟩ := Option.ite_none_right_eq_some.mp hs
        cases heq
        obtain ⟨htaking, hweight⟩ := h.taking size Q
        exact ⟨rfl, rfl, rfl, .inr ⟨rfl, htaking, rfl, hweight⟩⟩
    | handler | writer | corrector | journaler | replicator | startHash | hash =>
        exact absurd rfl hrecv

/-- What a move of a session that takes in blocks does at an offset: it passes a block on, or writes
one that covers the offset. -/
def Takes (Q : ℕ → UInt8 → Prop) (s : Session) (m : SessionMove) (s' : Session) (p : ℕ) : Prop :=
  s'.weight p = s.weight p + ((received m).map (Packet.weight p)).sum ∧
      s'.machine.target.bytes p = s.machine.target.bytes p ∨
    s'.weight p + 1 = s.weight p + ((received m).map (Packet.weight p)).sum ∧
      Q p (s'.machine.target.bytes p)

/-- A goroutine writes its block. -/
theorem Taking.moveReplicator {i : ℕ} (h : s.Taking size Q) (hplan : s.machine.target.plan = [])
    (hsize : s.machine.target.size = size) (hs : s.moveReplicator i = some s') :
    s'.Taking size Q ∧ s'.machine.target.plan = [] ∧ s'.machine.target.size = size ∧
      s'.handler = s.handler ∧ ∀ p, Takes Q s (.replicator i) s' p := by
  rcases moveReplicator_cases hs with ⟨q, hq, rfl⟩ | ⟨packet, hb, hcases⟩
  · have hsettled : s.replicationQueue.Settled := by
      rcases h.settled with hsettled | ⟨-, hworkers, -⟩
      · exact hsettled
      · rw [(Pool.finished_of_workers hworkers).receive] at hq
        cases hq
    refine ⟨{ h with
      blocks := h.blocks.receive hq fun _ => id
      settled := .inl (hsettled.receive hq) }, hplan, hsize, rfl, fun p => .inl ⟨?_, rfl⟩⟩
    have := Pool.weigh_receive (g := Packet.weight p) (f := Packet.weight p) hq fun _ => rfl
    simp [weight, received, this]
  · have hsettled : s.replicationQueue.Settled := by
      rcases h.settled with hsettled | ⟨-, hworkers, -⟩
      · exact hsettled
      · rw [(Pool.finished_of_workers hworkers).busy? i] at hb
        cases hb
    obtain ⟨b, rfl, hcarries⟩ := h.blocks.of_busy? hb
    rcases hcases with ⟨hne, -⟩ | ⟨b', r, heq, hr, rfl⟩
    · exact absurd rfl (hne b)
    · cases heq
      have hfits : b.offset.toNat + b.data.length ≤ s.machine.target.size := by
        rw [hcarries.length, hsize]
        exact hcarries.fits
      obtain ⟨-, hr'⟩ := attempt_of_fits hplan hfits hr
      rw [hr']
      refine ⟨{ h with
        blocks := h.blocks.setWorker (by rintro _ ⟨⟩)
        settled := .inl (hsettled.setWorker (by simp)) }, hplan, hsize, rfl, fun p => ?_⟩
      have hw := Pool.weigh_setWorker (g := Packet.weight p) (f := Packet.weight p) hb .ranging
      simp only [Worker.weigh, add_zero, Packet.weight] at hw
      have hbytes := Device.bytes_store hfits
      simp only [Takes, weight, received, setReplicator, hbytes, List.map_nil, List.sum_nil]
      rcases hcarries.apply (p := p) s.machine.target.bytes with ⟨hzero, heq⟩ | ⟨hone, hQ⟩
      · exact .inl ⟨by omega, heq⟩
      · exact .inr ⟨by omega, hQ⟩

/-- **A session that takes in blocks** passes them on and writes them, and at the end waits until
all are written. -/
theorem Taking.move (h : s.Taking size Q) (hplan : s.machine.target.plan = [])
    (hsize : s.machine.target.size = size) (hn : 0 < numWorkers)
    (hm : ∀ packet, m = .receive packet →
      IsBlock size Q packet ∨ packet = .infoReplicationCompleted)
    (hs : s.move hash numWorkers m = some (s', ps)) :
    ps = [] ∧ s.wrote m = 0 ∧ s'.machine.target.plan = [] ∧ s'.machine.target.size = size ∧
      (s'.Taking size Q ∧ (∀ p, Takes Q s m s' p) ∧
          (s'.handler = .drainingReplication .replicationCompleted ↔
            received m = [.infoReplicationCompleted] ∨
              s.handler = .drainingReplication .replicationCompleted) ∧
          (∀ sent, m = .handler sent → s.handler ≠ .drainingReplication .replicationCompleted) ∨
        (∃ sent, m = .handler sent) ∧ s.handler = .drainingReplication .replicationCompleted ∧
          s'.OnlyWrites ∧ s'.queued = [] ∧ s'.machine = s.machine ∧ ∀ p, s.weight p = 0) := by
  cases m with
  | receive packet =>
      obtain ⟨hh, heq⟩ := Option.ite_none_right_eq_some.mp hs
      cases heq
      have hsettled := h.settled_of_ne (by simp [hh])
      rcases hm packet rfl with hblock | rfl
      · have hrecv : s.receive packet = { s with handler := .enqueueing .replication packet } := by
          obtain ⟨b, rfl, -⟩ := hblock
          rfl
        rw [hrecv]
        refine ⟨rfl, rfl, hplan, hsize, .inl ⟨{ h with
          handler := .inr (.inl ⟨packet, rfl, hblock⟩)
          settled := .inl hsettled }, fun p => .inl ⟨?_, rfl⟩, ?_, by simp⟩⟩
        · simp only [weight, Handler.toReplicators, received, hh, List.map_nil, List.sum_nil]
          omega
        · obtain ⟨b, rfl, -⟩ := hblock
          simp [received, hh]
      · refine ⟨rfl, rfl, hplan, hsize, .inl ⟨{ h with
          handler := .inr (.inr (.inr rfl))
          blocks := h.blocks.close
          settled := .inl hsettled.close }, fun p => .inl ⟨?_, rfl⟩, ?_, by simp⟩⟩
        · simp [weight, Handler.toReplicators, received, hh, Session.receive, Packet.weight]
        · simp [received, Session.receive]
  | handler sent =>
      simp only [Session.move, moveHandler] at hs
      rcases h.handler with hh | ⟨packet, hh, hblock⟩ | hh | hh
      · rw [hh] at hs
        cases hs
      -- the block goes from the handler to the queue, and is on its way as before
      · rw [hh] at hs
        obtain ⟨t, ht, heq⟩ := Option.map_eq_some_iff.mp hs
        cases heq
        obtain ⟨q, hq, rfl⟩ := Option.map_eq_some_iff.mp ht
        have hsettled := h.settled_of_ne (by simp [hh])
        refine ⟨rfl, rfl, hplan, hsize, .inl ⟨{ h with
          handler := .inl rfl
          blocks := h.blocks.send hq hblock
          settled := .inl (hsettled.send hq) }, fun p => .inl ⟨?_, rfl⟩, ?_, by simp [hh]⟩⟩
        · have := Pool.weigh_send (g := Packet.weight p) (f := Packet.weight p) hq
          simp only [weight, Handler.toReplicators, received, hh, this, List.map_nil, List.sum_nil,
            List.map_cons, List.sum_cons]
          omega
        · simp [received, hh]
      -- the workers of the replication before have returned: there are new ones
      · rw [hh] at hs
        obtain ⟨hf, heq⟩ := Option.ite_none_right_eq_some.mp hs
        cases heq
        refine ⟨rfl, rfl, hplan, hsize, .inl ⟨{ h with
          handler := .inl rfl
          blocks := Pool.all_start numWorkers
          settled := .inl (Pool.settled_start hn) }, fun p => .inl ⟨?_, rfl⟩, ?_, by simp [hh]⟩⟩
        · have hqueue : s.replicationQueue.queue = [] := by
            rcases h.settled with hsettled | ⟨-, -, hqueue⟩
            · exact (hsettled.finished hf).2
            · exact hqueue
          simp [weight, Handler.toReplicators, received, hh, hf.weigh, hqueue]
        · simp [received, hh]
      -- the workers have returned, and with them the last block is written
      · rw [hh] at hs
        obtain ⟨hf, heq⟩ := Option.ite_none_right_eq_some.mp hs
        cases heq
        have hsettled := h.settled_of_ne (by simp [hh])
        refine ⟨rfl, rfl, hplan, hsize, .inr ⟨⟨sent, rfl⟩, hh, ?_, ?_, rfl, fun p => ?_⟩⟩
        · exact ⟨rfl, .inl rfl, h.correct, h.journal, rfl, h.hash⟩
        · exact queued_of_idle h.writer rfl
        · simp [weight, Handler.toReplicators, hh, hf.weigh, (hsettled.finished hf).2]
  | writer =>
      obtain ⟨t, ht, heq⟩ := Option.map_eq_some_iff.mp hs
      cases heq
      have hfinishes : s.finishes = false := by simp [finishes, h.writer.busy? 0]
      obtain ⟨q, hq, rfl⟩ := moveWriter_of_idle h.writer ht
      exact ⟨rfl, by simp [wrote, hfinishes], hplan, hsize,
        .inl ⟨{ h with writer := hq }, fun p => .inl ⟨rfl, rfl⟩, by simp [received], by simp⟩⟩
  | corrector =>
      obtain ⟨t, ht, heq⟩ := Option.map_eq_some_iff.mp hs
      cases heq
      obtain ⟨q, hq, rfl⟩ := moveCorrector_of_idle h.correct ht
      exact ⟨rfl, rfl, hplan, hsize,
        .inl ⟨{ h with correct := hq }, fun p => .inl ⟨rfl, rfl⟩, by simp [received], by simp⟩⟩
  | journaler sent =>
      -- neither a scan nor its journal is running
      have hf := Pool.finished_of_workers h.journal
      simp [Session.move, moveJournaler, hf.busy? 0, hf.receive] at hs
  | replicator i =>
      obtain ⟨t, ht, heq⟩ := Option.map_eq_some_iff.mp hs
      cases heq
      obtain ⟨htaking, hplan', hsize', hh, htakes⟩ := h.moveReplicator hplan hsize ht
      exact ⟨rfl, rfl, hplan', hsize', .inl ⟨htaking, htakes, by simp [received, hh], by simp⟩⟩
  | startHash => simp [Session.move, moveStartHash, h.hash] at hs
  | hash m => simp [Session.move, HashDisk.move_of_returned h.hash] at hs

end Taking

end Session

end Bdr.Server
