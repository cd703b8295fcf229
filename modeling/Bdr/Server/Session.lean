import Bdr.Server.HashDisk
import Bdr.Server.Journal
import Bdr.Server.Reopen
import Bdr.Server.Replay

/-!
# Server — Session

A session of the server with a client: `HandleClient` receives the packets and passes them on, and
goroutines of their own write them to the replica or to the journal, hash the replica, and take in
a full replication.  They share the server's state, its target and its journal.

Each goroutine moves by itself, from one operation on a channel, on the shared state or on a device
to the next.  `WriteJournalToReplica` and `ResetTo` are one move each.
-/

namespace Bdr.Server

open Journal

/-- `State` of `user/server/server.go`. -/
inductive ServerState where
  | hashing
  | writing
  | disconnected
  | destroyingReplica
  | journalOverflow
  | replicating
  deriving DecidableEq, Repr

/-- The queues `HandleClient` feeds. -/
inductive Queue where
  | write
  | correct
  | journal
  | replication
  deriving DecidableEq, Repr

/-- What the journal is drained for. -/
inductive JournalDrain where
  | startHashing
  | hashingCompleted
  deriving DecidableEq, Repr

/-- What the replication is drained for. -/
inductive ReplicationDrain where
  | startReplication
  | replicationCompleted
  deriving DecidableEq, Repr

/-- Where `HandleClient` is. -/
inductive Handler where
  | receiving
  | enqueueing (queue : Queue) (packet : Packet)
  | drainingJournal (k : JournalDrain)
  | awaitingHash
  | writingJournal
  | settingWriting
  | drainingReplication (k : ReplicationDrain)
  deriving DecidableEq, Repr

/-- What `HandleWritePackets` does with a packet. -/
inductive WriteTask where
  | took (packet : Packet)
  | writing (packet : Packet)
  deriving DecidableEq, Repr

/-- What `HandleJournalPackets` does with a packet. -/
inductive JournalTask where
  | took (packet : Packet)
  | storing (packet : Packet)
  | overflowing
  deriving DecidableEq, Repr

/-- A session: the server's state, target and journal, and its goroutines with their queues. -/
structure Session where
  state : ServerState
  machine : Machine
  handler : Handler
  writeQueue : Pool Packet WriteTask
  correctQueue : Pool Packet Packet
  journalQueue : Pool Packet JournalTask
  replicationQueue : Pool Packet Packet
  hashDisk : HashDisk

/-- `WritePacketQueueSize`, `CorrectPacketQueueSize`, `JournalPacketQueueSize` and
`ReplicationPacketQueueSize`. -/
def packetQueueSize : ℕ := 8

/-- A move of one goroutine, with the outcome of the packet it may send. -/
inductive SessionMove where
  | receive (packet : Packet)
  | handler (sent : Sent)
  | writer
  | corrector
  | journaler (sent : Sent)
  | replicator (i : ℕ)
  | startHash
  | hash (m : HashMove)
  deriving DecidableEq, Repr

/-- What a call leaves, and whether it returned without an error; nothing if it brings the server
down. -/
def attempt {ε σ : Type} (x : EStateM (Fault ε) σ Unit) (s : σ) : Option (σ × Bool) :=
  match x s with
  | .ok _ s' => some (s', true)
  | .error (.err _) s' => some (s', false)
  | .error _ _ => none

section Attempt
variable {ε σ : Type} {x : EStateM (Fault ε) σ Unit} {s : σ} {r : σ × Bool}

theorem attempt_eq_some : attempt x s = some r ↔
    (x s = .ok () r.1 ∧ r.2 = true) ∨ ∃ e, x s = .error (.err e) r.1 ∧ r.2 = false := by
  obtain ⟨s', b⟩ := r
  unfold attempt
  cases x s with
  | ok _ s₁ => simp [eq_comm]
  | error e s₁ => cases e <;> simp [eq_comm]

theorem attempt_of_ends {P : σ → Prop} (h : Ends x s (fun _ => P) fun _ => P)
    (hr : attempt x s = some r) : P r.1 := by
  unfold Ends at h
  rcases attempt_eq_some.mp hr with ⟨hx, -⟩ | ⟨e, hx, -⟩ <;> rwa [hx] at h

end Attempt

/-- The queue a packet with data is passed on to, by the state of the server; the others are
dropped. -/
def route (state : ServerState) : Packet → Option Queue
  | .payloadBufferWrite _ =>
      match state with
      | .hashing => some .journal
      | .writing => some .write
      | _ => none
  | .payloadCorrectBlock _ =>
      match state with
      | .hashing => some .journal
      | .destroyingReplica => some .correct
      | _ => none
  | .payloadReplicationBlock _ => some .replication
  | _ => none

/-- `HandleJournalBufferWrite` and `HandleJournalCorrectBlock`. -/
def storePacket : Packet → Op Unit
  | .payloadBufferWrite w => writeBufferWriteToJournal w
  | .payloadCorrectBlock b => writeCorrectBlockToJournal b
  | _ => pure ()

namespace Session

/-- A session before the first packet. -/
def start (machine : Machine) : Session where
  state := .writing
  machine := machine
  handler := .receiving
  writeQueue := .start 1
  correctQueue := .start 1
  journalQueue := .start 0
  replicationQueue := .start 0
  hashDisk := { HashDisk.start 0 with phase := .returned }

def setWriter (s : Session) (w : Worker WriteTask) : Session :=
  { s with writeQueue := s.writeQueue.setWorker 0 w }

def setCorrector (s : Session) (w : Worker Packet) : Session :=
  { s with correctQueue := s.correctQueue.setWorker 0 w }

def setJournaler (s : Session) (w : Worker JournalTask) : Session :=
  { s with journalQueue := s.journalQueue.setWorker 0 w }

def setReplicator (s : Session) (i : ℕ) (w : Worker Packet) : Session :=
  { s with replicationQueue := s.replicationQueue.setWorker i w }

def setJournal (s : Session) (j : Journal) : Session :=
  { s with machine := { s.machine with journal := j } }

def setPhase (s : Session) (phase : HashPhase) : Session :=
  { s with hashDisk := { s.hashDisk with phase := phase } }

section Moves
variable (hash : List UInt8 → UInt64) (numWorkers : ℕ) (s : Session)

/-- `HandleClient` decodes a packet. -/
def receive (packet : Packet) : Session :=
  match packet with
  | .cmdStartHashing =>
      { s with
        state := .hashing
        journalQueue := s.journalQueue.close
        handler := .drainingJournal .startHashing }
  | .cmdStartFullScan =>
      { s with
        state := .destroyingReplica
        hashDisk := s.hashDisk.terminate
        handler := .awaitingHash }
  | .infoHashingCompleted =>
      { s with
        journalQueue := s.journalQueue.close
        handler := .drainingJournal .hashingCompleted }
  | .infoReplicationCompleted =>
      { s with
        replicationQueue := s.replicationQueue.close
        handler := .drainingReplication .replicationCompleted }
  | .infoStartReplication =>
      { s with
        state := .replicating
        replicationQueue := s.replicationQueue.close
        handler := .drainingReplication .startReplication }
  | packet =>
      match route s.state packet with
      | some queue => { s with handler := .enqueueing queue packet }
      | none => s

def enqueue (packet : Packet) : Queue → Option Session
  | .write => (s.writeQueue.send packetQueueSize packet).map fun q => { s with writeQueue := q }
  | .correct =>
      (s.correctQueue.send packetQueueSize packet).map fun q => { s with correctQueue := q }
  | .journal =>
      (s.journalQueue.send packetQueueSize packet).map fun q => { s with journalQueue := q }
  | .replication =>
      (s.replicationQueue.send packetQueueSize packet).map fun q => { s with replicationQueue := q }

/-- `HandleJournalWriting`. -/
def handleJournalWriting (sent : Sent) : Option (Session × List Packet) :=
  if s.state = .destroyingReplica then some ({ s with handler := .settingWriting }, [])
  else (attempt writeJournalToReplica s.machine).map fun r =>
    ({ s with machine := r.1, handler := .settingWriting },
      if r.2 then [] else sent.deliver .errJournalOverflow)

/-- `HandleClient` goes on with the packet it has received. -/
def moveHandler (sent : Sent) : Option (Session × List Packet) :=
  match s.handler with
  | .receiving => none
  | .enqueueing queue packet =>
      (s.enqueue packet queue).map fun s => ({ s with handler := .receiving }, [])
  | .drainingJournal k =>
      if s.journalQueue.Finished then
        match k with
        | .startHashing =>
            some ({ s with
              journalQueue := .start 1
              hashDisk := s.hashDisk.terminate
              handler := .awaitingHash }, [])
        | .hashingCompleted =>
            some ({ s with journalQueue := .start 0, handler := .writingJournal }, [])
      else none
  | .awaitingHash =>
      if s.hashDisk.phase = .returned then
        some ({ s with
          hashDisk := { HashDisk.start numWorkers with phase := .starting }
          handler := .receiving }, [])
      else none
  | .writingJournal => s.handleJournalWriting sent
  | .settingWriting => some ({ s with state := .writing, handler := .receiving }, [])
  | .drainingReplication k =>
      if s.replicationQueue.Finished then
        match k with
        | .startReplication =>
            some ({ s with replicationQueue := .start numWorkers, handler := .receiving }, [])
        | .replicationCompleted =>
            some ({ s with
              replicationQueue := .start 0
              state := .writing
              handler := .receiving }, [])
      else none

/-- `HandleWritePackets`: a write that fails is tried again. -/
def moveWriter : Option Session :=
  match s.writeQueue.busy? 0 with
  | none => (s.writeQueue.receive .took 0).map fun q => { s with writeQueue := q }
  | some (.took packet) =>
      some (s.setWriter (if s.state = .writing then .busy (.writing packet) else .ranging))
  | some (.writing (.payloadBufferWrite w)) =>
      (attempt (writeBufferWriteToReplica w) s.machine).map fun r =>
        if r.2 then { s.setWriter .ranging with machine := r.1 } else { s with machine := r.1 }
  | some (.writing _) => some (s.setWriter .ranging)

/-- `HandleCorrectPackets`. -/
def moveCorrector : Option Session :=
  match s.correctQueue.busy? 0 with
  | none => (s.correctQueue.receive id 0).map fun q => { s with correctQueue := q }
  | some (.payloadCorrectBlock b) =>
      (attempt (writeCorrectBlockToReplica b) s.machine).map fun r =>
        { s.setCorrector .ranging with machine := r.1 }
  | some _ => some (s.setCorrector .ranging)

/-- `HandleJournalPackets`. -/
def moveJournaler (sent : Sent) : Option (Session × List Packet) :=
  match s.journalQueue.busy? 0 with
  | none => (s.journalQueue.receive .took 0).map fun q => ({ s with journalQueue := q }, [])
  | some (.took packet) =>
      some (s.setJournaler
        (if s.state = .journalOverflow then .ranging else .busy (.storing packet)), [])
  | some (.storing packet) =>
      (attempt (storePacket packet) s.machine.journal).map fun r =>
        if r.2 then ((s.setJournal r.1).setJournaler .ranging, [])
        else ((s.setJournal r.1).setJournaler (.busy .overflowing),
          sent.deliver .errJournalOverflow)
  | some .overflowing =>
      some ({ s.setJournaler .ranging with state := .journalOverflow }, [])

/-- A worker of `HandleReplicationPackets`. -/
def moveReplicator (i : ℕ) : Option Session :=
  match s.replicationQueue.busy? i with
  | none => (s.replicationQueue.receive id i).map fun q => { s with replicationQueue := q }
  | some (.payloadReplicationBlock r) =>
      (attempt (targetWriteAt .copy r.offset.toNat r.data) s.machine).map fun m =>
        { s.setReplicator i .ranging with machine := m.1 }
  | some _ => some (s.setReplicator i .ranging)

/-- `HashDisk` looks at the server's state, and resets the journal. -/
def moveStartHash : Option Session :=
  match s.hashDisk.phase with
  | .starting =>
      some (s.setPhase (if s.state = .destroyingReplica then .announcing else .resetting))
  | .resetting =>
      (attempt (resetTo s.machine.journal.writeOffset s.machine.journal.correctOffset)
        s.machine.journal).map fun r => (s.setJournal r.1).setPhase .announcing
  | _ => none

/-- One move, and the packets it sends to the client. -/
def move : SessionMove → Option (Session × List Packet)
  | .receive packet => if s.handler = .receiving then some (s.receive packet, []) else none
  | .handler sent => s.moveHandler numWorkers sent
  | .writer => s.moveWriter.map (·, [])
  | .corrector => s.moveCorrector.map (·, [])
  | .journaler sent => s.moveJournaler sent
  | .replicator i => (s.moveReplicator i).map (·, [])
  | .startHash => s.moveStartHash.map (·, [])
  | .hash m =>
      (s.hashDisk.move (hashConfig hash numWorkers s.machine.target) s.machine.target m).map
        fun r => ({ s with hashDisk := r.1 }, r.2)

end Moves

/-- The packet that is received in a move. -/
def received : SessionMove → List Packet
  | .receive packet => [packet]
  | _ => []

theorem received_of_ne {m : SessionMove} (h : ∀ packet, m ≠ .receive packet) : received m = [] := by
  cases m with
  | receive packet => exact absurd rfl (h packet)
  | handler | writer | corrector | journaler | replicator | startHash | hash => rfl

/-! ### What a move does -/

section Cases
variable {s s' : Session} {ps : List Packet} {sent : Sent} {i : ℕ}

/-- The packets that start or end a recovery. -/
def IsControl : Packet → Bool
  | .cmdStartHashing | .cmdStartFullScan | .infoHashingCompleted | .infoReplicationCompleted
  | .infoStartReplication => true
  | _ => false

/-- The other packets are passed on to a queue or dropped. -/
theorem receive_of_data {packet : Packet} (h : IsControl packet = false) (s : Session) :
    (∃ queue, route s.state packet = some queue ∧
      s.receive packet = { s with handler := .enqueueing queue packet }) ∨
    route s.state packet = none ∧ s.receive packet = s := by
  have hr : s.receive packet = match route s.state packet with
      | some queue => { s with handler := .enqueueing queue packet }
      | none => s := by
    cases packet <;> first | rfl | cases h
  rw [hr]
  cases route s.state packet with
  | none => exact .inr ⟨rfl, rfl⟩
  | some queue => exact .inl ⟨queue, rfl, rfl⟩

/-- What `HandleClient` may do with a packet it has received, from `s` to `s'`. -/
inductive HandlerMoves (numWorkers : ℕ) (s : Session) (sent : Sent) :
    Session → List Packet → Prop where
  | enqueued {queue : Queue} {p : Packet} {s₁ : Session} (hh : s.handler = .enqueueing queue p)
      (he : s.enqueue p queue = some s₁) :
      HandlerMoves numWorkers s sent { s₁ with handler := .receiving } []
  | journalDrained (hh : s.handler = .drainingJournal .startHashing)
      (hf : s.journalQueue.Finished) :
      HandlerMoves numWorkers s sent
        { s with
          journalQueue := .start 1
          hashDisk := s.hashDisk.terminate
          handler := .awaitingHash } []
  | scanDrained (hh : s.handler = .drainingJournal .hashingCompleted)
      (hf : s.journalQueue.Finished) :
      HandlerMoves numWorkers s sent
        { s with journalQueue := .start 0, handler := .writingJournal } []
  | hashStarted (hh : s.handler = .awaitingHash) (hp : s.hashDisk.phase = .returned) :
      HandlerMoves numWorkers s sent
        { s with
          hashDisk := { HashDisk.start numWorkers with phase := .starting }
          handler := .receiving } []
  | journalSkipped (hh : s.handler = .writingJournal) (hs : s.state = .destroyingReplica) :
      HandlerMoves numWorkers s sent { s with handler := .settingWriting } []
  | journalWritten {r : Machine × Bool} (hh : s.handler = .writingJournal)
      (hs : s.state ≠ .destroyingReplica) (hr : attempt writeJournalToReplica s.machine = some r) :
      HandlerMoves numWorkers s sent { s with machine := r.1, handler := .settingWriting }
        (if r.2 then [] else sent.deliver .errJournalOverflow)
  | writingSet (hh : s.handler = .settingWriting) :
      HandlerMoves numWorkers s sent { s with state := .writing, handler := .receiving } []
  | replicationStarted (hh : s.handler = .drainingReplication .startReplication)
      (hf : s.replicationQueue.Finished) :
      HandlerMoves numWorkers s sent
        { s with replicationQueue := .start numWorkers, handler := .receiving } []
  | replicationEnded (hh : s.handler = .drainingReplication .replicationCompleted)
      (hf : s.replicationQueue.Finished) :
      HandlerMoves numWorkers s sent
        { s with replicationQueue := .start 0, state := .writing, handler := .receiving } []

theorem moveHandler_cases {numWorkers : ℕ} (h : s.moveHandler numWorkers sent = some (s', ps)) :
    HandlerMoves numWorkers s sent s' ps := by
  unfold moveHandler at h
  cases hh : s.handler with
  | receiving => simp [hh] at h
  | enqueueing queue p =>
      simp only [hh, Option.map_eq_some_iff, Prod.mk.injEq] at h
      obtain ⟨s₁, he, rfl, rfl⟩ := h
      exact .enqueued hh he
  | drainingJournal k =>
      simp only [hh, Option.ite_none_right_eq_some] at h
      obtain ⟨hf, h⟩ := h
      cases k with
      | startHashing =>
          cases h
          exact .journalDrained hh hf
      | hashingCompleted =>
          cases h
          exact .scanDrained hh hf
  | awaitingHash =>
      simp only [hh, Option.ite_none_right_eq_some] at h
      obtain ⟨hp, h⟩ := h
      cases h
      exact .hashStarted hh hp
  | writingJournal =>
      simp only [hh, handleJournalWriting] at h
      split at h
      · rename_i hs
        cases h
        exact .journalSkipped hh hs
      · rename_i hs
        obtain ⟨r, hr, heq⟩ := Option.map_eq_some_iff.mp h
        cases heq
        exact .journalWritten hh hs hr
  | settingWriting =>
      simp only [hh, Option.some.injEq, Prod.mk.injEq] at h
      obtain ⟨rfl, rfl⟩ := h
      exact .writingSet hh
  | drainingReplication k =>
      simp only [hh, Option.ite_none_right_eq_some] at h
      obtain ⟨hf, h⟩ := h
      cases k with
      | startReplication =>
          cases h
          exact .replicationStarted hh hf
      | replicationCompleted =>
          cases h
          exact .replicationEnded hh hf

theorem machine_enqueue {p : Packet} {queue : Queue} (h : s.enqueue p queue = some s') :
    s'.machine = s.machine := by
  cases queue <;>
    (obtain ⟨q, -, rfl⟩ := Option.map_eq_some_iff.mp h
     rfl)

theorem moveWriter_cases (h : s.moveWriter = some s') :
    (∃ q, s.writeQueue.receive .took 0 = some q ∧ s' = { s with writeQueue := q }) ∨
    (∃ p, s.writeQueue.busy? 0 = some (.took p) ∧
      s' = s.setWriter (if s.state = .writing then .busy (.writing p) else .ranging)) ∨
    ∃ p, s.writeQueue.busy? 0 = some (.writing p) ∧
      ((∀ w, p ≠ .payloadBufferWrite w) ∧ s' = s.setWriter .ranging ∨
        ∃ w r, p = .payloadBufferWrite w ∧
        attempt (writeBufferWriteToReplica w) s.machine = some r ∧
        s' = if r.2 then { s.setWriter .ranging with machine := r.1 }
          else { s with machine := r.1 }) := by
  unfold moveWriter at h
  split at h
  · obtain ⟨q, hq, rfl⟩ := Option.map_eq_some_iff.mp h
    exact .inl ⟨q, hq, rfl⟩
  · rename_i p hp
    exact .inr (.inl ⟨p, hp, (Option.some.inj h).symm⟩)
  · rename_i w hw
    obtain ⟨r, hr, rfl⟩ := Option.map_eq_some_iff.mp h
    exact .inr (.inr ⟨_, hw, .inr ⟨w, r, rfl, hr, rfl⟩⟩)
  · rename_i p hne hp
    exact .inr (.inr ⟨p, hp, .inl ⟨fun w hw => hne w hw, (Option.some.inj h).symm⟩⟩)

theorem moveCorrector_cases (h : s.moveCorrector = some s') :
    (∃ q, s.correctQueue.receive id 0 = some q ∧ s' = { s with correctQueue := q }) ∨
    ∃ p, s.correctQueue.busy? 0 = some p ∧
      ((∀ b, p ≠ .payloadCorrectBlock b) ∧ s' = s.setCorrector .ranging ∨
        ∃ b r, p = .payloadCorrectBlock b ∧
        attempt (writeCorrectBlockToReplica b) s.machine = some r ∧
        s' = { s.setCorrector .ranging with machine := r.1 }) := by
  unfold moveCorrector at h
  split at h
  · obtain ⟨q, hq, rfl⟩ := Option.map_eq_some_iff.mp h
    exact .inl ⟨q, hq, rfl⟩
  · rename_i b hb
    obtain ⟨r, hr, rfl⟩ := Option.map_eq_some_iff.mp h
    exact .inr ⟨_, hb, .inr ⟨b, r, rfl, hr, rfl⟩⟩
  · rename_i p hne hp
    exact .inr ⟨p, hp, .inl ⟨fun b hb => hne b hb, (Option.some.inj h).symm⟩⟩

theorem moveReplicator_cases (h : s.moveReplicator i = some s') :
    (∃ q, s.replicationQueue.receive id i = some q ∧ s' = { s with replicationQueue := q }) ∨
    ∃ p, s.replicationQueue.busy? i = some p ∧
      ((∀ b, p ≠ .payloadReplicationBlock b) ∧ s' = s.setReplicator i .ranging ∨
        ∃ b r, p = .payloadReplicationBlock b ∧
        attempt (targetWriteAt .copy b.offset.toNat b.data) s.machine = some r ∧
        s' = { s.setReplicator i .ranging with machine := r.1 }) := by
  unfold moveReplicator at h
  split at h
  · obtain ⟨q, hq, rfl⟩ := Option.map_eq_some_iff.mp h
    exact .inl ⟨q, hq, rfl⟩
  · rename_i b hb
    obtain ⟨r, hr, rfl⟩ := Option.map_eq_some_iff.mp h
    exact .inr ⟨_, hb, .inr ⟨b, r, rfl, hr, rfl⟩⟩
  · rename_i p hne hp
    exact .inr ⟨p, hp, .inl ⟨fun b hb => hne b hb, (Option.some.inj h).symm⟩⟩

theorem moveJournaler_cases (h : s.moveJournaler sent = some (s', ps)) :
    (∃ q, s.journalQueue.receive .took 0 = some q ∧ s' = { s with journalQueue := q } ∧ ps = []) ∨
    (∃ p, s.journalQueue.busy? 0 = some (.took p) ∧ ps = [] ∧
      s' = s.setJournaler (if s.state = .journalOverflow then .ranging else .busy (.storing p))) ∨
    (∃ p r, s.journalQueue.busy? 0 = some (.storing p) ∧
      attempt (storePacket p) s.machine.journal = some r ∧
      (r.2 = true ∧ s' = (s.setJournal r.1).setJournaler .ranging ∧ ps = [] ∨
        r.2 = false ∧ s' = (s.setJournal r.1).setJournaler (.busy .overflowing) ∧
          ps = sent.deliver .errJournalOverflow)) ∨
    s.journalQueue.busy? 0 = some .overflowing ∧ ps = [] ∧
      s' = { s.setJournaler .ranging with state := .journalOverflow } := by
  unfold moveJournaler at h
  split at h
  · obtain ⟨q, hq, heq⟩ := Option.map_eq_some_iff.mp h
    cases heq
    exact .inl ⟨q, hq, rfl, rfl⟩
  · rename_i p hp
    cases h
    exact .inr (.inl ⟨p, hp, rfl, rfl⟩)
  · rename_i p hp
    obtain ⟨r, hr, heq⟩ := Option.map_eq_some_iff.mp h
    refine .inr (.inr (.inl ⟨p, r, hp, hr, ?_⟩))
    split at heq
    · rename_i hok
      cases heq
      exact .inl ⟨hok, rfl, rfl⟩
    · rename_i hok
      cases heq
      exact .inr ⟨by simpa using hok, rfl, rfl⟩
  · rename_i hp
    cases h
    exact .inr (.inr (.inr ⟨hp, rfl, rfl⟩))

theorem moveStartHash_cases (h : s.moveStartHash = some s') :
    s.hashDisk.phase = .starting ∧
      s' = s.setPhase (if s.state = .destroyingReplica then .announcing else .resetting) ∨
    s.hashDisk.phase = .resetting ∧ ∃ r, attempt (resetTo s.machine.journal.writeOffset
        s.machine.journal.correctOffset) s.machine.journal = some r ∧
      s' = (s.setJournal r.1).setPhase .announcing := by
  unfold moveStartHash at h
  split at h
  · rename_i hp
    exact .inl ⟨hp, (Option.some.inj h).symm⟩
  · rename_i hp
    obtain ⟨r, hr, rfl⟩ := Option.map_eq_some_iff.mp h
    exact .inr ⟨hp, r, hr, rfl⟩
  · cases h

/-- What one move may be. -/
inductive Moves (hash : List UInt8 → UInt64) (numWorkers : ℕ) (s : Session) :
    SessionMove → Session → List Packet → Prop where
  | receive {packet : Packet} (h : s.handler = .receiving) :
      Moves hash numWorkers s (.receive packet) (s.receive packet) []
  | handler {sent : Sent} {s' : Session} {ps : List Packet}
      (h : s.moveHandler numWorkers sent = some (s', ps)) :
      Moves hash numWorkers s (.handler sent) s' ps
  | writer {s' : Session} (h : s.moveWriter = some s') : Moves hash numWorkers s .writer s' []
  | corrector {s' : Session} (h : s.moveCorrector = some s') :
      Moves hash numWorkers s .corrector s' []
  | journaler {sent : Sent} {s' : Session} {ps : List Packet}
      (h : s.moveJournaler sent = some (s', ps)) : Moves hash numWorkers s (.journaler sent) s' ps
  | replicator {i : ℕ} {s' : Session} (h : s.moveReplicator i = some s') :
      Moves hash numWorkers s (.replicator i) s' []
  | startHash {s' : Session} (h : s.moveStartHash = some s') :
      Moves hash numWorkers s .startHash s' []
  | hash {m : HashMove} {h' : HashDisk} {ps : List Packet}
      (h : s.hashDisk.move (hashConfig hash numWorkers s.machine.target) s.machine.target m =
        some (h', ps)) : Moves hash numWorkers s (.hash m) { s with hashDisk := h' } ps

theorem move_cases {hash : List UInt8 → UInt64} {numWorkers : ℕ} {m : SessionMove}
    (h : s.move hash numWorkers m = some (s', ps)) : Moves hash numWorkers s m s' ps := by
  cases m with
  | receive packet =>
      obtain ⟨hs, heq⟩ := Option.ite_none_right_eq_some.mp h
      cases heq
      exact .receive hs
  | handler sent => exact .handler h
  | journaler sent => exact .journaler h
  | writer =>
      obtain ⟨t, ht, heq⟩ := Option.map_eq_some_iff.mp h
      cases heq
      exact .writer ht
  | corrector =>
      obtain ⟨t, ht, heq⟩ := Option.map_eq_some_iff.mp h
      cases heq
      exact .corrector ht
  | replicator i =>
      obtain ⟨t, ht, heq⟩ := Option.map_eq_some_iff.mp h
      cases heq
      exact .replicator ht
  | startHash =>
      obtain ⟨t, ht, heq⟩ := Option.map_eq_some_iff.mp h
      cases heq
      exact .startHash ht
  | hash m =>
      obtain ⟨⟨h', qs⟩, ht, heq⟩ := Option.map_eq_some_iff.mp h
      cases heq
      exact .hash ht

/-- A move that leaves `HandleClient`, the state and the journal's queue alone. -/
structure Frame (s s' : Session) : Prop where
  handler : s'.handler = s.handler
  state : s'.state = s.state
  journalQueue : s'.journalQueue = s.journalQueue

theorem frame_moveWriter (h : s.moveWriter = some s') : s.Frame s' := by
  rcases moveWriter_cases h with ⟨q, -, rfl⟩ | ⟨p, -, rfl⟩ | ⟨p, -, ⟨-, rfl⟩ | ⟨w, r, -, -, rfl⟩⟩
  · exact ⟨rfl, rfl, rfl⟩
  · exact ⟨rfl, rfl, rfl⟩
  · exact ⟨rfl, rfl, rfl⟩
  · split <;> exact ⟨rfl, rfl, rfl⟩

theorem frame_moveCorrector (h : s.moveCorrector = some s') : s.Frame s' := by
  rcases moveCorrector_cases h with ⟨q, -, rfl⟩ | ⟨p, -, ⟨-, rfl⟩ | ⟨b, r, -, -, rfl⟩⟩ <;>
    exact ⟨rfl, rfl, rfl⟩

theorem frame_moveReplicator (h : s.moveReplicator i = some s') : s.Frame s' := by
  rcases moveReplicator_cases h with ⟨q, -, rfl⟩ | ⟨p, -, ⟨-, rfl⟩ | ⟨b, r, -, -, rfl⟩⟩ <;>
    exact ⟨rfl, rfl, rfl⟩

theorem frame_moveStartHash (h : s.moveStartHash = some s') : s.Frame s' := by
  rcases moveStartHash_cases h with ⟨-, rfl⟩ | ⟨-, r, -, rfl⟩ <;> exact ⟨rfl, rfl, rfl⟩

end Cases

end Session

theorem tightMachine_size_lt : 1 < 2 ^ 63 := by decide

/-- The target holds a seven, and the journal has one slot in each section. -/
def tightMachine : Machine := ⟨⟨1, fun _ => 7, [], tightMachine_size_lt⟩, tightJournal⟩

end Bdr.Server
