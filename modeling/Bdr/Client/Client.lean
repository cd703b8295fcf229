import Bdr.Client.InitHashing
import Bdr.Client.InitReplication

/-!
# Client — the daemon

The goroutines of the client: the monitor passes the writes in the ring buffer on to the server,
the listener takes the server's packets, `InitHashing` compares hashes and `InitReplication` sends
the whole device.  `StartHashing` may be called by `Run`, by the monitor when the ring has
overflown, by the listener when the ring has overflown at the end of a scan or the connection was
lost, and by a reader that fails.

Each goroutine moves by itself, from one operation on a channel, on what is shared or on a device
to the next.  The shutdown of the daemon is not modelled: where the listener asks for it, it stops.
-/

namespace Bdr.Client

open Kern

/-- `MonitorChanges`. -/
inductive Monitor where
  | waiting (call : PauseCall)
  | reading
  | starting (call : StartCall)
  | processing (window : Window)
  deriving DecidableEq, Repr

/-- What the listener waits for `InitHashing` for. -/
inductive HashDrain where
  | startHashing
  | hashingCompleted
  | journalOverflow
  deriving DecidableEq, Repr

/-- Why the listener starts a scan: the ring has overflown at the end of one, or the connection was
lost. -/
inductive Restart where
  | overflow
  | reconnect
  deriving DecidableEq, Repr

/-- `ListenPackets`, with `ProcessBuffer`, `SendBuffer` and `reconnectToServer`. -/
inductive Listener where
  | receiving
  | enqueueing (h : HashInfo)
  | draining (k : HashDrain)
  | reading
  | processing (window : Window)
  | settingWriting
  | resuming (call : PauseCall)
  | completing
  | starting (k : Restart) (call : StartCall)
  | dialing (pastState : ClientState)
  | stopped
  deriving DecidableEq, Repr

/-- What the client is set up with. -/
structure ClientConfig where
  hash : List UInt8 → UInt64
  numWorkers : ℕ
  targetInfo : TargetInfo
  diskSize : UInt64

/-- `HashPacketQueueSize`. -/
def hashPacketQueueSize : ℕ := 8

/-- A move of one goroutine, where `sent` says whether an `Encode` succeeds; a packet from the
server, the loss of the connection or a new one; or a write of an application. -/
inductive ClientMove (P : ℕ) where
  | run
  | monitor (sent : Bool)
  | listener (sent : Bool)
  | deliver (packet : Packet)
  | eof
  | dial
  | hashing (m : HashingMove)
  | replication (m : ReplicationMove)
  | write (a : Put P)

end Bdr.Client

/-- The client; `run` is where `Run` is in its command, until it has started the goroutines. -/
structure Bdr.Client where
  shared : Client.Shared
  source : Image UInt8
  run : Option (Client.Command × Client.StartCall)
  monitor : Client.Monitor
  listener : Client.Listener
  hashing : Client.InitHashing
  replication : Client.InitReplication

namespace Bdr.Client

open Kern

/-- A client whose `Run` is about to carry out a command, if any. -/
def start (command : Option Command) (ring : RingBuffer) (source : Image UInt8) : Client where
  shared := ⟨.writing, .new, ring⟩
  source := source
  run := command.map (·, .resetting)
  monitor := .waiting .check
  listener := .receiving
  hashing := .start 0
  replication := .idle

def setMonitor (c : Client) (m : Monitor) : Client := { c with monitor := m }

def setListener (c : Client) (l : Listener) : Client := { c with listener := l }

def setShared (c : Client) (s : Shared) : Client := { c with shared := s }

def setHashing (c : Client) (h : InitHashing) : Client := { c with hashing := h }

def setReplication (c : Client) (r : InitReplication) : Client := { c with replication := r }

section Moves
variable (cfg : ClientConfig) (c : Client)

/-- `Run` starts the goroutines when its command has returned. -/
def moveRun : Option (Client × List Packet) :=
  match c.run with
  | none => none
  | some (command, call) =>
      (c.shared.startStep command call).map fun (s, ps, next) =>
        ({ c.setShared s with
            run := next.map (command, ·)
            replication := if next = none ∧ command = .fullReplicate then .start cfg.numWorkers
              else c.replication }, ps)

def moveMonitor (sent : Bool) : Option (Client × List Packet) :=
  match c.monitor with
  | .waiting call =>
      (c.shared.pause.step call).map fun r =>
        ((c.setShared { c.shared with pause := r.1 }).setMonitor
          (r.2.elim .waiting fun _ => .reading), [])
  | .reading =>
      let r := bdrBufferReadRoutine c.shared.ring
      some ((c.setShared { c.shared with ring := r.1 }).setMonitor
        (if r.2.length = 0 then .waiting .check
        else if r.2.overflown then .starting .resetting
        else .processing ⟨r.2, 0, .looping⟩), [])
  | .starting call =>
      (c.shared.startStep .startHashing call).map fun (s, ps, next) =>
        ((c.setShared s).setMonitor (next.elim (.waiting .check) .starting), ps)
  | .processing w =>
      (c.shared.processStep cfg.targetInfo true sent w).map fun (s, ps, next) =>
        ((c.setShared s).setMonitor (next.elim (.waiting .check) .processing), ps)

/-- The channel that the listener feeds is closed. -/
def closeHashQueue : Client :=
  c.setHashing { c.hashing with readers := c.hashing.readers.close }

/-- The listener decodes a packet. -/
def deliver (packet : Packet) : Client :=
  match packet with
  | .infoStartHashing => c.closeHashQueue.setListener (.draining .startHashing)
  | .payloadHash h => c.setListener (.enqueueing h)
  | .infoHashingCompleted => c.closeHashQueue.setListener (.draining .hashingCompleted)
  | .errJournalOverflow => c.closeHashQueue.setListener (.draining .journalOverflow)
  | .errInit | .errInvalidSizes | .errJournalCreate => c.setListener .stopped
  | _ => c

/-- The listener goes on with the packet it has received. -/
def moveListener (sent : Bool) : Option (Client × List Packet) :=
  match c.listener with
  | .enqueueing h =>
      (c.hashing.readers.send hashPacketQueueSize h).map fun readers =>
        ((c.setHashing { c.hashing with readers := readers }).setListener .receiving, [])
  | .draining k =>
      if c.hashing.comparers.Finished then
        match k with
        | .startHashing =>
            some ((c.setHashing (.start cfg.numWorkers)).setListener .receiving, [])
        | .hashingCompleted => some (c.setListener .reading, [])
        | .journalOverflow => some (c.setListener .stopped, [])
      else none
  | .reading =>
      let r := bdrBufferReadRoutine c.shared.ring
      some ((c.setShared { c.shared with ring := r.1 }).setListener
        (if r.2.length = 0 then .settingWriting
        else if r.2.overflown then .starting .overflow .resetting
        else .processing ⟨r.2, 0, .looping⟩), [])
  | .processing w =>
      (c.shared.processStep cfg.targetInfo false sent w).map fun (s, ps, next) =>
        -- `SendBuffer` returns true also when the window was given up
        ((c.setShared s).setListener (next.elim .settingWriting .processing), ps)
  | .settingWriting =>
      some ((c.setShared { c.shared with state := .writing }).setListener
        (.resuming (.lock .running)), [])
  | .resuming call =>
      (c.shared.pause.step call).map fun r =>
        ((c.setShared { c.shared with pause := r.1 }).setListener
          (r.2.elim .resuming fun _ => .completing), [])
  | .completing =>
      -- the new queue has no readers until the server starts to hash again
      some ((c.setHashing (.start 0)).setListener .receiving, [.infoHashingCompleted])
  | .starting k call =>
      (c.shared.startStep .startHashing call).map fun (s, ps, next) =>
        match next, k with
        | some call, _ => ((c.setShared s).setListener (.starting k call), ps)
        | none, .overflow => (((c.setShared s).setHashing (.start 0)).setListener .receiving, ps)
        | none, .reconnect => ((c.setShared s).setListener .receiving, ps)
  | .receiving | .dialing _ | .stopped => none

/-- The listener finds the connection closed, and starts to reconnect. -/
def eof : Option Client :=
  if c.listener = .receiving then
    some ((c.setShared { c.shared with state := .reconnecting }).setListener
      (.dialing c.shared.state))
  else none

/-- The listener has a new connection: it sends `InfoInit`, and starts a scan. -/
def dial : Option (Client × List Packet) :=
  match c.listener with
  | .dialing pastState =>
      some
        -- the source starts the scan in each of the other three states
        (if pastState = .reconnecting then
          (c.setShared { c.shared with state := pastState }).setListener .receiving
        else c.setListener (.starting .reconnect .resetting),
        [.infoInit ⟨cfg.diskSize, UInt32.ofNat cfg.targetInfo.writeInfoSize,
          UInt64.ofNat cfg.targetInfo.bufferByteSize⟩])
  | _ => none

/-- A goroutine of `InitHashing`. -/
def moveHashing (m : HashingMove) : Option (Client × List Packet) :=
  let go := (c.hashing.move cfg.hash cfg.numWorkers c.source m).map fun r =>
    (c.setHashing r.1, r.2)
  match m with
  | .reader i _ =>
      match c.hashing.readers.busy? i with
      -- `StartHashing` works on what the goroutines share, so its steps are not the pipeline's
      | some (.starting call) =>
          (c.shared.startStep .startHashing call).map fun (s, ps, next) =>
            ((c.setShared s).setHashing
              (c.hashing.setReader i (next.elim .ranging fun call => .busy (.starting call))), ps)
      | _ => go
  | _ => go

/-- A goroutine of `InitReplication`, or its end. -/
def moveReplication (m : ReplicationMove) : Option (Client × List Packet) :=
  let r := c.replication
  match r.phase, m with
  | .running, .generator =>
      (r.moveGenerator cfg.numWorkers cfg.diskSize).map fun r => (c.setReplication r, [])
  | .running, .reader i failed =>
      (r.moveReader cfg.numWorkers c.source i failed).map fun r => (c.setReplication r, [])
  | .running, .closeSend =>
      if r.readers.Finished ∧ r.senders.closed = false then
        some (c.setReplication { r with senders := r.senders.close }, [])
      else none
  | .running, .sender i => (r.moveSender i).map fun r => (c.setReplication r.1, r.2)
  | .running, .finish =>
      if r.senders.Finished then
        some (c.setReplication { r with phase := .settingState }, [.infoReplicationCompleted])
      else none
  | .settingState, .finish =>
      some ((c.setShared { c.shared with state := .writing }).setReplication
        { r with phase := .resuming (.lock .running) }, [])
  | .resuming call, .finish =>
      (c.shared.pause.step call).map fun p =>
        ((c.setShared { c.shared with pause := p.1 }).setReplication
          { r with phase := p.2.elim .resuming fun _ => .returned }, [])
  | _, _ => none

/-- An application writes to the device: the write is captured in the ring and applied. -/
def write {P : ℕ} (a : Put P) : Client :=
  { c.setShared { c.shared with ring := (bdrRingBufferPut c.shared.ring a).1 } with
    source := c.source.apply (writeInfo a).patch }

/-- One move, and the packets it sends to the server.  The goroutines move once `Run` has started
them. -/
def move {P : ℕ} : ClientMove P → Option (Client × List Packet)
  | .write a => some (c.write a, [])
  | .run => c.moveRun cfg
  | m =>
      if c.run = none then
        match m with
        | .monitor sent => c.moveMonitor cfg sent
        | .listener sent => c.moveListener cfg sent
        | .deliver packet => if c.listener = .receiving then some (c.deliver packet, []) else none
        | .eof => c.eof.map (·, [])
        | .dial => c.dial cfg
        | .hashing m => c.moveHashing cfg m
        | .replication m => c.moveReplication cfg m
        | _ => none
      else none

end Moves

/-! ### What a move does -/

section Cases
variable {cfg : ClientConfig} {c c' : Client} {ps : List Packet} {sent : Bool}

theorem moveRun_cases (h : c.moveRun cfg = some (c', ps)) :
    ∃ command call s next, c.run = some (command, call) ∧
      c.shared.startStep command call = some (s, ps, next) ∧
      c' = { c.setShared s with
        run := next.map (command, ·)
        replication := if next = none ∧ command = .fullReplicate then .start cfg.numWorkers
          else c.replication } := by
  unfold moveRun at h
  split at h
  · cases h
  · rename_i command call hrun
    obtain ⟨⟨s, qs, next⟩, hs, heq⟩ := Option.map_eq_some_iff.mp h
    cases heq
    exact ⟨command, call, s, next, hrun, hs, rfl⟩

theorem moveMonitor_cases (h : c.moveMonitor cfg sent = some (c', ps)) :
    (∃ call r, c.monitor = .waiting call ∧ c.shared.pause.step call = some r ∧ ps = [] ∧
      c' = (c.setShared { c.shared with pause := r.1 }).setMonitor
        (r.2.elim .waiting fun _ => .reading)) ∨
    (c.monitor = .reading ∧ ps = [] ∧
      c' = (c.setShared { c.shared with ring := (bdrBufferReadRoutine c.shared.ring).1 }).setMonitor
        (if (bdrBufferReadRoutine c.shared.ring).2.length = 0 then .waiting .check
        else if (bdrBufferReadRoutine c.shared.ring).2.overflown then .starting .resetting
        else .processing ⟨(bdrBufferReadRoutine c.shared.ring).2, 0, .looping⟩)) ∨
    (∃ call s next, c.monitor = .starting call ∧
      c.shared.startStep .startHashing call = some (s, ps, next) ∧
      c' = (c.setShared s).setMonitor (next.elim (.waiting .check) .starting)) ∨
    ∃ w s next, c.monitor = .processing w ∧
      c.shared.processStep cfg.targetInfo true sent w = some (s, ps, next) ∧
      c' = (c.setShared s).setMonitor (next.elim (.waiting .check) .processing) := by
  unfold moveMonitor at h
  split at h
  · rename_i call hm
    obtain ⟨r, hr, heq⟩ := Option.map_eq_some_iff.mp h
    cases heq
    exact .inl ⟨call, r, hm, hr, rfl, rfl⟩
  · rename_i hm
    cases h
    exact .inr (.inl ⟨hm, rfl, rfl⟩)
  · rename_i call hm
    obtain ⟨⟨s, qs, next⟩, hs, heq⟩ := Option.map_eq_some_iff.mp h
    cases heq
    exact .inr (.inr (.inl ⟨call, s, next, hm, hs, rfl⟩))
  · rename_i w hm
    obtain ⟨⟨s, qs, next⟩, hs, heq⟩ := Option.map_eq_some_iff.mp h
    cases heq
    exact .inr (.inr (.inr ⟨w, s, next, hm, hs, rfl⟩))

/-- A move of the listener, by where it is. -/
inductive ListenerMove (cfg : ClientConfig) (c : Client) : List Packet → Client → Prop where
  | enqueued {h : HashInfo} {readers : Pool HashInfo HashReader} (hl : c.listener = .enqueueing h)
      (hs : c.hashing.readers.send hashPacketQueueSize h = some readers) :
      ListenerMove cfg c []
        ((c.setHashing { c.hashing with readers := readers }).setListener .receiving)
  | started (hl : c.listener = .draining .startHashing) (hf : c.hashing.comparers.Finished) :
      ListenerMove cfg c [] ((c.setHashing (.start cfg.numWorkers)).setListener .receiving)
  | compared (hl : c.listener = .draining .hashingCompleted) (hf : c.hashing.comparers.Finished) :
      ListenerMove cfg c [] (c.setListener .reading)
  | ended (hl : c.listener = .draining .journalOverflow) (hf : c.hashing.comparers.Finished) :
      ListenerMove cfg c [] (c.setListener .stopped)
  | read (hl : c.listener = .reading) :
      ListenerMove cfg c [] ((c.setShared
        { c.shared with ring := (bdrBufferReadRoutine c.shared.ring).1 }).setListener
        (if (bdrBufferReadRoutine c.shared.ring).2.length = 0 then .settingWriting
        else if (bdrBufferReadRoutine c.shared.ring).2.overflown then .starting .overflow .resetting
        else .processing ⟨(bdrBufferReadRoutine c.shared.ring).2, 0, .looping⟩))
  | process {w : Window} {s : Shared} {ps : List Packet} {next : Option Window} {sent : Bool}
      (hl : c.listener = .processing w)
      (hs : c.shared.processStep cfg.targetInfo false sent w = some (s, ps, next)) :
      ListenerMove cfg c ps ((c.setShared s).setListener (next.elim .settingWriting .processing))
  | setWriting (hl : c.listener = .settingWriting) :
      ListenerMove cfg c [] ((c.setShared { c.shared with state := .writing }).setListener
        (.resuming (.lock .running)))
  | resume {call : PauseCall} {r : Pause × (PauseCall ⊕ Bool)} (hl : c.listener = .resuming call)
      (hs : c.shared.pause.step call = some r) :
      ListenerMove cfg c [] ((c.setShared { c.shared with pause := r.1 }).setListener
        (r.2.elim .resuming fun _ => .completing))
  | completed (hl : c.listener = .completing) :
      ListenerMove cfg c [.infoHashingCompleted]
        ((c.setHashing (.start 0)).setListener .receiving)
  | start {k : Restart} {call call' : StartCall} {s : Shared} {ps : List Packet}
      (hl : c.listener = .starting k call)
      (hs : c.shared.startStep .startHashing call = some (s, ps, some call')) :
      ListenerMove cfg c ps ((c.setShared s).setListener (.starting k call'))
  | restarted {call : StartCall} {s : Shared} {ps : List Packet}
      (hl : c.listener = .starting .overflow call)
      (hs : c.shared.startStep .startHashing call = some (s, ps, none)) :
      ListenerMove cfg c ps (((c.setShared s).setHashing (.start 0)).setListener .receiving)
  | reconnected {call : StartCall} {s : Shared} {ps : List Packet}
      (hl : c.listener = .starting .reconnect call)
      (hs : c.shared.startStep .startHashing call = some (s, ps, none)) :
      ListenerMove cfg c ps ((c.setShared s).setListener .receiving)

theorem moveListener_cases (h : c.moveListener cfg sent = some (c', ps)) :
    ListenerMove cfg c ps c' := by
  unfold moveListener at h
  split at h
  · rename_i info hl
    obtain ⟨readers, hs, heq⟩ := Option.map_eq_some_iff.mp h
    cases heq
    exact .enqueued hl hs
  · rename_i k hl
    obtain ⟨hf, h⟩ := Option.ite_none_right_eq_some.mp h
    cases k with
    | startHashing => cases h; exact .started hl hf
    | hashingCompleted => cases h; exact .compared hl hf
    | journalOverflow => cases h; exact .ended hl hf
  · rename_i hl
    cases h
    exact .read hl
  · rename_i w hl
    obtain ⟨⟨s, qs, next⟩, hs, heq⟩ := Option.map_eq_some_iff.mp h
    cases heq
    exact .process hl hs
  · rename_i hl
    cases h
    exact .setWriting hl
  · rename_i call hl
    obtain ⟨r, hs, heq⟩ := Option.map_eq_some_iff.mp h
    cases heq
    exact .resume hl hs
  · rename_i hl
    cases h
    exact .completed hl
  · rename_i k call hl
    obtain ⟨⟨s, qs, next⟩, hs, heq⟩ := Option.map_eq_some_iff.mp h
    cases next with
    | some call' => cases heq; exact .start hl hs
    | none =>
        cases k with
        | overflow => cases heq; exact .restarted hl hs
        | reconnect => cases heq; exact .reconnected hl hs
  · cases h
  · cases h
  · cases h

/-- A move of `InitHashing`: one of its goroutines starts a scan, or works on the blocks. -/
theorem moveHashing_cases {m : HashingMove} (h : c.moveHashing cfg m = some (c', ps)) :
    (∃ i failed call s next, m = .reader i failed ∧
      c.hashing.readers.busy? i = some (.starting call) ∧
      c.shared.startStep .startHashing call = some (s, ps, next) ∧
      c' = (c.setShared s).setHashing
        (c.hashing.setReader i (next.elim .ranging fun call => .busy (.starting call)))) ∨
    ((∀ i failed call, m = .reader i failed → c.hashing.readers.busy? i ≠ some (.starting call)) ∧
      ∃ r, c.hashing.move cfg.hash cfg.numWorkers c.source m = some r ∧ c' = c.setHashing r.1 ∧
        ps = r.2) := by
  unfold moveHashing at h
  split at h
  · rename_i i failed
    split at h
    · rename_i call hb
      obtain ⟨⟨s, qs, next⟩, hs, heq⟩ := Option.map_eq_some_iff.mp h
      cases heq
      exact .inl ⟨i, failed, call, s, next, rfl, hb, hs, rfl⟩
    · rename_i hb
      obtain ⟨r, hr, heq⟩ := Option.map_eq_some_iff.mp h
      cases heq
      refine .inr ⟨?_, r, hr, rfl, rfl⟩
      rintro _ _ call ⟨⟩
      exact hb call
  · rename_i hm
    obtain ⟨r, hr, heq⟩ := Option.map_eq_some_iff.mp h
    cases heq
    exact .inr ⟨fun i failed call hm' => absurd hm' (hm i failed), r, hr, rfl, rfl⟩

/-- A move of `InitReplication`, by where it is. -/
inductive ReplicationMoves (cfg : ClientConfig) (c : Client) :
    ReplicationMove → List Packet → Client → Prop where
  | generates {r : InitReplication} (hp : c.replication.phase = .running)
      (h : c.replication.moveGenerator cfg.numWorkers cfg.diskSize = some r) :
      ReplicationMoves cfg c .generator [] (c.setReplication r)
  | reads {i : ℕ} {failed : Bool} {r : InitReplication} (hp : c.replication.phase = .running)
      (h : c.replication.moveReader cfg.numWorkers c.source i failed = some r) :
      ReplicationMoves cfg c (.reader i failed) [] (c.setReplication r)
  | closes (hp : c.replication.phase = .running) (hf : c.replication.readers.Finished)
      (hc : c.replication.senders.closed = false) :
      ReplicationMoves cfg c .closeSend []
        (c.setReplication { c.replication with senders := c.replication.senders.close })
  | receives {i : ℕ} {senders : Pool ReplicationBlockInfo ReplicationBlockInfo}
      (hp : c.replication.phase = .running)
      (h : c.replication.senders.receive id i = some senders) :
      ReplicationMoves cfg c (.sender i) []
        (c.setReplication { c.replication with senders := senders })
  | sends {i : ℕ} {block : ReplicationBlockInfo} (hp : c.replication.phase = .running)
      (hb : c.replication.senders.busy? i = some block) :
      ReplicationMoves cfg c (.sender i) [.payloadReplicationBlock block]
        (c.setReplication
          { c.replication with senders := c.replication.senders.setWorker i .ranging })
  | completes (hp : c.replication.phase = .running) (hf : c.replication.senders.Finished) :
      ReplicationMoves cfg c .finish [.infoReplicationCompleted]
        (c.setReplication { c.replication with phase := .settingState })
  | setsWriting (hp : c.replication.phase = .settingState) :
      ReplicationMoves cfg c .finish []
        ((c.setShared { c.shared with state := .writing }).setReplication
          { c.replication with phase := .resuming (.lock .running) })
  | resumes {call : PauseCall} {r : Pause × (PauseCall ⊕ Bool)}
      (hp : c.replication.phase = .resuming call) (hs : c.shared.pause.step call = some r) :
      ReplicationMoves cfg c .finish []
        ((c.setShared { c.shared with pause := r.1 }).setReplication
          { c.replication with phase := r.2.elim .resuming fun _ => .returned })

theorem moveReplication_cases {m : ReplicationMove} (h : c.moveReplication cfg m = some (c', ps)) :
    ReplicationMoves cfg c m ps c' := by
  simp only [moveReplication] at h
  split at h
  · rename_i hp
    obtain ⟨r, hr, heq⟩ := Option.map_eq_some_iff.mp h
    cases heq
    exact .generates hp hr
  · rename_i hp
    obtain ⟨r, hr, heq⟩ := Option.map_eq_some_iff.mp h
    cases heq
    exact .reads hp hr
  · rename_i hp
    obtain ⟨⟨hf, hc⟩, heq⟩ := Option.ite_none_right_eq_some.mp h
    cases heq
    exact .closes hp hf hc
  · rename_i hp
    obtain ⟨⟨r, qs⟩, hr, heq⟩ := Option.map_eq_some_iff.mp h
    cases heq
    simp only [InitReplication.moveSender] at hr
    split at hr
    · obtain ⟨senders, hs, heq⟩ := Option.map_eq_some_iff.mp hr
      cases heq
      exact .receives hp hs
    · rename_i hb
      cases hr
      exact .sends hp hb
  · rename_i hp
    obtain ⟨hf, heq⟩ := Option.ite_none_right_eq_some.mp h
    cases heq
    exact .completes hp hf
  · rename_i hp
    cases h
    exact .setsWriting hp
  · rename_i hp
    obtain ⟨r, hs, heq⟩ := Option.map_eq_some_iff.mp h
    cases heq
    exact .resumes hp hs
  · cases h

theorem ReplicationMoves.not_idle {m : ReplicationMove} (h : ReplicationMoves cfg c m ps c') :
    c.replication.phase ≠ .idle := by
  cases h <;> simp [*]

/-- A move of the client, by the goroutine that makes it and by where that is. -/
inductive Moves {P : ℕ} (cfg : ClientConfig) (c : Client) :
    ClientMove P → List Packet → Client → Prop where
  | write (a : Put P) : Moves cfg c (.write a) [] (c.write a)
  | run {command : Command} {call : StartCall} {s : Shared} {ps : List Packet}
      {next : Option StartCall} (hrun : c.run = some (command, call))
      (hs : c.shared.startStep command call = some (s, ps, next)) :
      Moves cfg c .run ps
        { c.setShared s with
          run := next.map (command, ·)
          replication := if next = none ∧ command = .fullReplicate then .start cfg.numWorkers
            else c.replication }
  | monitorWaits {sent : Bool} {call : PauseCall} {r : Pause × (PauseCall ⊕ Bool)}
      (hrun : c.run = none) (hm : c.monitor = .waiting call)
      (hs : c.shared.pause.step call = some r) :
      Moves cfg c (.monitor sent) []
        ((c.setShared { c.shared with pause := r.1 }).setMonitor
          (r.2.elim .waiting fun _ => .reading))
  | monitorReads {sent : Bool} (hrun : c.run = none) (hm : c.monitor = .reading) :
      Moves cfg c (.monitor sent) []
        ((c.setShared { c.shared with ring := (bdrBufferReadRoutine c.shared.ring).1 }).setMonitor
          (if (bdrBufferReadRoutine c.shared.ring).2.length = 0 then .waiting .check
          else if (bdrBufferReadRoutine c.shared.ring).2.overflown then .starting .resetting
          else .processing ⟨(bdrBufferReadRoutine c.shared.ring).2, 0, .looping⟩))
  | monitorStarts {sent : Bool} {call : StartCall} {s : Shared} {ps : List Packet}
      {next : Option StartCall} (hrun : c.run = none) (hm : c.monitor = .starting call)
      (hs : c.shared.startStep .startHashing call = some (s, ps, next)) :
      Moves cfg c (.monitor sent) ps
        ((c.setShared s).setMonitor (next.elim (.waiting .check) .starting))
  | monitorProcesses {sent : Bool} {w : Window} {s : Shared} {ps : List Packet}
      {next : Option Window} (hrun : c.run = none) (hm : c.monitor = .processing w)
      (hs : c.shared.processStep cfg.targetInfo true sent w = some (s, ps, next)) :
      Moves cfg c (.monitor sent) ps
        ((c.setShared s).setMonitor (next.elim (.waiting .check) .processing))
  | listener {sent : Bool} {ps : List Packet} {c' : Client} (hrun : c.run = none)
      (h : ListenerMove cfg c ps c') : Moves cfg c (.listener sent) ps c'
  | deliver {packet : Packet} (hrun : c.run = none) (hl : c.listener = .receiving) :
      Moves cfg c (.deliver packet) [] (c.deliver packet)
  | eof (hrun : c.run = none) (hl : c.listener = .receiving) :
      Moves cfg c .eof [] ((c.setShared { c.shared with state := .reconnecting }).setListener
        (.dialing c.shared.state))
  | dial {pastState : ClientState} {ps : List Packet} (hrun : c.run = none)
      (hl : c.listener = .dialing pastState)
      (hps : ∃ info, ps = [.infoInit info]) :
      Moves cfg c .dial ps
        (if pastState = .reconnecting then
          (c.setShared { c.shared with state := pastState }).setListener .receiving
        else c.setListener (.starting .reconnect .resetting))
  | readerStarts {i : ℕ} {failed : Bool} {call : StartCall} {s : Shared} {ps : List Packet}
      {next : Option StartCall} (hrun : c.run = none)
      (hb : c.hashing.readers.busy? i = some (.starting call))
      (hs : c.shared.startStep .startHashing call = some (s, ps, next)) :
      Moves cfg c (.hashing (.reader i failed)) ps ((c.setShared s).setHashing
        (c.hashing.setReader i (next.elim .ranging fun call => .busy (.starting call))))
  | hashes {m : HashingMove} {ps : List Packet} {h : InitHashing} (hrun : c.run = none)
      (hnot : ∀ i failed call, m = .reader i failed →
        c.hashing.readers.busy? i ≠ some (.starting call))
      (hs : c.hashing.move cfg.hash cfg.numWorkers c.source m = some (h, ps)) :
      Moves cfg c (.hashing m) ps (c.setHashing h)
  | replicates {m : ReplicationMove} {ps : List Packet} {c' : Client} (hrun : c.run = none)
      (h : ReplicationMoves cfg c m ps c') : Moves cfg c (.replication m) ps c'

/-- **What the client can do.** -/
theorem move_cases {P : ℕ} {m : ClientMove P} (h : c.move cfg m = some (c', ps)) :
    Moves cfg c m ps c' := by
  cases m with
  | write a =>
      cases h
      exact .write a
  | run =>
      obtain ⟨command, call, s, next, hrun, hs, rfl⟩ := moveRun_cases h
      exact .run hrun hs
  | monitor sent =>
      obtain ⟨hrun, h⟩ := Option.ite_none_right_eq_some.mp h
      obtain ⟨call, r, hm, hr, rfl, rfl⟩ | ⟨hm, rfl, rfl⟩ | ⟨call, s, next, hm, hs, rfl⟩ |
        ⟨w, s, next, hm, hs, rfl⟩ := moveMonitor_cases h
      · exact .monitorWaits hrun hm hr
      · exact .monitorReads hrun hm
      · exact .monitorStarts hrun hm hs
      · exact .monitorProcesses hrun hm hs
  | listener sent =>
      obtain ⟨hrun, h⟩ := Option.ite_none_right_eq_some.mp h
      exact .listener hrun (moveListener_cases h)
  | deliver packet =>
      obtain ⟨hrun, h⟩ := Option.ite_none_right_eq_some.mp h
      obtain ⟨hl, h⟩ := Option.ite_none_right_eq_some.mp h
      cases h
      exact .deliver hrun hl
  | eof =>
      obtain ⟨hrun, h⟩ := Option.ite_none_right_eq_some.mp h
      obtain ⟨c₁, hc, heq⟩ := Option.map_eq_some_iff.mp h
      obtain ⟨hl, hc⟩ := Option.ite_none_right_eq_some.mp hc
      cases hc
      cases heq
      exact .eof hrun hl
  | dial =>
      obtain ⟨hrun, h⟩ := Option.ite_none_right_eq_some.mp h
      simp only [dial] at h
      split at h
      · rename_i hl
        cases h
        exact .dial hrun hl ⟨_, rfl⟩
      · cases h
  | hashing m =>
      obtain ⟨hrun, h⟩ := Option.ite_none_right_eq_some.mp h
      obtain ⟨i, failed, call, s, next, rfl, hb, hs, rfl⟩ | ⟨hnot, ⟨h, qs⟩, hs, rfl, rfl⟩ :=
        moveHashing_cases h
      · exact .readerStarts hrun hb hs
      · exact .hashes hrun hnot hs
  | replication m =>
      obtain ⟨hrun, h⟩ := Option.ite_none_right_eq_some.mp h
      exact .replicates hrun (moveReplication_cases h)

end Cases

end Bdr.Client
