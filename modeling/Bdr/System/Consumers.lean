import Bdr.System.CorrectBlocks

/-!
# System — Consumers

Whether there is a goroutine that receives what `HandleClient` passes on.  The queues of the writes
and of the correct blocks have theirs from the beginning; that of the journal has one whenever the
server is in `StateHashing`.  The queue of a full replication has its goroutines from
`InfoStartReplication` to `InfoReplicationCompleted`, but a block is passed on to it in any state:
`Consumes` says what the packets before a block make of it.

A client that takes `InitReplication` over to a new connection sends blocks that nobody announced
there.  As long as it does not, every queue that is fed is attended (`attended_of_rested`).
-/

namespace Bdr.Server.Session

/-! ### The session -/

/-- The queue has goroutines that range over it, and none of them has returned. -/
def Attends (s : Session) : Queue → Prop
  | .write => s.writeQueue.Attended packetQueueSize
  | .correct => s.correctQueue.Attended packetQueueSize
  | .journal => s.journalQueue.Attended packetQueueSize
  | .replication => s.replicationQueue.Attended packetQueueSize

/-- The packet finds room in the queue, or a goroutine is busy, or one makes room when it
receives. -/
def Relieves (s : Session) (packet : Packet) : Queue → Prop
  | .write => s.writeQueue.Relieved packetQueueSize .took packet
  | .correct => s.correctQueue.Relieved packetQueueSize id packet
  | .journal => s.journalQueue.Relieved packetQueueSize .took packet
  | .replication => s.replicationQueue.Relieved packetQueueSize id packet

theorem Attends.relieves {s : Session} {queue : Queue} (h : s.Attends queue) (packet : Packet) :
    s.Relieves packet queue := by
  have hcap : 0 < packetQueueSize := by decide
  cases queue with
  | write => exact Pool.Attended.relieved h hcap
  | correct => exact Pool.Attended.relieved h hcap
  | journal => exact Pool.Attended.relieved h hcap
  | replication => exact Pool.Attended.relieved h hcap

/-- `HandleClient` is at the end of a scan, or about to start one. -/
def renewsJournal : Handler → Bool
  | .drainingJournal _ | .writingJournal | .settingWriting => true
  | _ => false

/-- What holds throughout a session: the queue that is fed is attended. -/
structure Attending (s : Session) : Prop where
  write : s.Attends .write
  correct : s.Attends .correct
  journal : s.state = .hashing → renewsJournal s.handler = true ∨ s.Attends .journal
  enqueueing : ∀ queue packet, s.handler = .enqueueing queue packet → s.Attends queue

/-- There are goroutines for the blocks of a full replication, once `HandleClient` is done with its
packet. -/
def Consumes (s : Session) : Prop :=
  match s.handler with
  | .drainingReplication .startReplication => True
  | .drainingReplication .replicationCompleted => False
  | _ => s.Attends .replication

/-- Whether there are after one more packet. -/
def consumesAfter (b : Prop) : Packet → Prop
  | .infoStartReplication => True
  | .infoReplicationCompleted => False
  | _ => b

section Moves
variable {hash : List UInt8 → UInt64} {numWorkers : ℕ} {s t : Session} {ps : List Packet}

theorem attending_start (machine : Machine) : (start machine).Attending where
  write := Pool.attended_start Nat.one_pos
  correct := Pool.attended_start Nat.one_pos
  journal := by rintro ⟨⟩
  enqueueing := by rintro queue packet ⟨⟩

/-- A move that leaves `HandleClient` where it is, and each queue attended that was. -/
structure Serves (s t : Session) : Prop where
  handler : t.handler = s.handler
  state : t.state = .hashing → s.state = .hashing
  attends : ∀ queue, s.Attends queue → t.Attends queue

theorem consumes_iff (h : ∀ k, s.handler ≠ .drainingReplication k) :
    s.Consumes ↔ s.Attends .replication := by
  unfold Consumes
  split
  · rename_i hh
    exact absurd hh (h _)
  · rename_i hh
    exact absurd hh (h _)
  · exact Iff.rfl

theorem Serves.consumes (h : s.Serves t) (hc : s.Consumes) : t.Consumes := by
  by_cases hk : ∃ k, s.handler = .drainingReplication k
  · obtain ⟨k, hk⟩ := hk
    have hk' := h.handler.trans hk
    cases k with
    | startReplication => simp only [Consumes, hk']
    | replicationCompleted => simp only [Consumes, hk] at hc
  · have hne : ∀ k, s.handler ≠ .drainingReplication k := fun k hh => hk ⟨k, hh⟩
    rw [consumes_iff hne] at hc
    rw [consumes_iff (h.handler ▸ hne)]
    exact h.attends _ hc

theorem Attending.serves (h : s.Attending) (ht : s.Serves t) : t.Attending where
  write := ht.attends _ h.write
  correct := ht.attends _ h.correct
  journal := fun hs => by
    rw [ht.handler]
    exact (h.journal (ht.state hs)).imp_right (ht.attends _)
  enqueueing := fun queue packet hh =>
    ht.attends _ (h.enqueueing queue packet (ht.handler.symm.trans hh))

/-- A move of one goroutine of a pool: it receives, or goes on with what it has. -/
theorem serves_of_pools (hh : t.handler = s.handler)
    (hs : t.state = .hashing → s.state = .hashing)
    (hw : s.Attends .write → t.Attends .write) (hc : s.Attends .correct → t.Attends .correct)
    (hj : s.Attends .journal → t.Attends .journal)
    (hr : s.Attends .replication → t.Attends .replication) : s.Serves t := by
  refine ⟨hh, hs, fun queue => ?_⟩
  cases queue with
  | write => exact hw
  | correct => exact hc
  | journal => exact hj
  | replication => exact hr

theorem serves_moveWriter (hm : s.moveWriter = some t) : s.Serves t := by
  have hset : ∀ {w : Worker WriteTask}, w ≠ .done → s.Attends .write →
      (s.setWriter w).Attends .write := fun hw h => Pool.Attended.setWorker h hw
  rcases moveWriter_cases hm with ⟨q, hq, rfl⟩ | ⟨p, -, rfl⟩ | ⟨p, -, ⟨-, rfl⟩ | ⟨w, r, -, -, rfl⟩⟩
  · exact serves_of_pools rfl id (fun h => Pool.Attended.receive h hq) id id id
  · refine serves_of_pools rfl id (hset ?_) id id id
    split <;> simp
  · exact serves_of_pools rfl id (hset (by simp)) id id id
  · split
    · exact serves_of_pools rfl id (hset (by simp)) id id id
    · exact serves_of_pools rfl id id id id id

theorem serves_moveCorrector (hm : s.moveCorrector = some t) : s.Serves t := by
  have hset : s.Attends .correct → (s.setCorrector .ranging).Attends .correct :=
    fun h => Pool.Attended.setWorker h (by simp)
  rcases moveCorrector_cases hm with ⟨q, hq, rfl⟩ | ⟨p, -, ⟨-, rfl⟩ | ⟨b, r, -, -, rfl⟩⟩
  · exact serves_of_pools rfl id id (fun h => Pool.Attended.receive h hq) id id
  · exact serves_of_pools rfl id id hset id id
  · exact serves_of_pools rfl id id hset id id

theorem serves_moveReplicator {i : ℕ} (hm : s.moveReplicator i = some t) : s.Serves t := by
  have hset : s.Attends .replication → (s.setReplicator i .ranging).Attends .replication :=
    fun h => Pool.Attended.setWorker h (by simp)
  rcases moveReplicator_cases hm with ⟨q, hq, rfl⟩ | ⟨p, -, ⟨-, rfl⟩ | ⟨b, r, -, -, rfl⟩⟩
  · exact serves_of_pools rfl id id id id fun h => Pool.Attended.receive h hq
  · exact serves_of_pools rfl id id id id hset
  · exact serves_of_pools rfl id id id id hset

theorem serves_moveJournaler {sent : Sent} (hm : s.moveJournaler sent = some (t, ps)) :
    s.Serves t := by
  have hset : ∀ {w : Worker JournalTask}, w ≠ .done → s.Attends .journal →
      (s.setJournaler w).Attends .journal := fun hw h => Pool.Attended.setWorker h hw
  rcases moveJournaler_cases hm with ⟨q, hq, rfl, -⟩ | ⟨p, -, -, rfl⟩ |
    ⟨p, r, -, -, ⟨-, rfl, -⟩ | ⟨-, rfl, -⟩⟩ | ⟨-, -, rfl⟩
  · exact serves_of_pools rfl id id id (fun h => Pool.Attended.receive h hq) id
  · refine serves_of_pools rfl id id id (hset ?_) id
    split <;> simp
  · exact serves_of_pools rfl id id id (hset (by simp)) id
  · exact serves_of_pools rfl id id id (hset (by simp)) id
  · exact serves_of_pools rfl (by rintro ⟨⟩) id id (hset (by simp)) id

theorem serves_moveStartHash (hm : s.moveStartHash = some t) : s.Serves t := by
  rcases moveStartHash_cases hm with ⟨-, rfl⟩ | ⟨-, r, -, rfl⟩ <;>
    exact serves_of_pools rfl id id id id id

/-- `HandleClient` goes on, with nothing to pass on. -/
theorem Attending.goesOn (h : s.Attending) (hw : t.writeQueue = s.writeQueue)
    (hc : t.correctQueue = s.correctQueue)
    (hj : t.state = .hashing → renewsJournal t.handler = true ∨ t.Attends .journal)
    (he : ∀ queue packet, t.handler ≠ .enqueueing queue packet) : t.Attending := by
  refine ⟨?_, ?_, hj, fun queue packet hh => absurd hh (he queue packet)⟩
  · rw [Attends, hw]
    exact h.write
  · rw [Attends, hc]
    exact h.correct

theorem consumes_congr (hs : ∀ k, s.handler ≠ .drainingReplication k)
    (ht : ∀ k, t.handler ≠ .drainingReplication k)
    (hq : t.replicationQueue = s.replicationQueue) : t.Consumes ↔ s.Consumes := by
  rw [consumes_iff hs, consumes_iff ht, Attends, Attends, hq]

theorem Consumes.goesOn (h : s.Consumes) (hs : ∀ k, s.handler ≠ .drainingReplication k)
    (ht : ∀ k, t.handler ≠ .drainingReplication k)
    (hq : t.replicationQueue = s.replicationQueue) : t.Consumes :=
  (consumes_congr hs ht hq).mpr h

/-- Outside the end of a scan, `StateHashing` means that the journal's queue is attended. -/
theorem Attending.journal_of (h : s.Attending) (hr : renewsJournal s.handler = false)
    (hs : s.state = .hashing) : s.Attends .journal := by
  refine (h.journal hs).resolve_left fun h0 => ?_
  rw [hr] at h0
  cases h0

theorem serves_enqueue {queue : Queue} {packet : Packet} (hs : s.enqueue packet queue = some t) :
    s.Serves t := by
  cases queue with
  | write =>
      obtain ⟨q, hq, rfl⟩ := Option.map_eq_some_iff.mp hs
      exact serves_of_pools rfl id (fun h => Pool.Attended.send h hq) id id id
  | correct =>
      obtain ⟨q, hq, rfl⟩ := Option.map_eq_some_iff.mp hs
      exact serves_of_pools rfl id id (fun h => Pool.Attended.send h hq) id id
  | journal =>
      obtain ⟨q, hq, rfl⟩ := Option.map_eq_some_iff.mp hs
      exact serves_of_pools rfl id id id (fun h => Pool.Attended.send h hq) id
  | replication =>
      obtain ⟨q, hq, rfl⟩ := Option.map_eq_some_iff.mp hs
      exact serves_of_pools rfl id id id id fun h => Pool.Attended.send h hq

/-- `HandleClient` goes on, and replaces a queue together with its goroutines. -/
theorem Attending.moveHandler {sent : Sent} (h : s.Attending) (hn : 0 < numWorkers)
    (hm : s.moveHandler numWorkers sent = some (t, ps)) :
    t.Attending ∧ (s.Consumes → t.Consumes) := by
  cases moveHandler_cases hm with
  | enqueued hh hs =>
      have hserves := serves_enqueue hs
      have h' := h.serves hserves
      have hh' := hserves.handler.trans hh
      refine ⟨h'.goesOn rfl rfl (fun hst => .inr ?_) (by simp), fun hc => ?_⟩
      · exact h'.journal_of (by rw [hh']; rfl) hst
      · exact (hserves.consumes hc).goesOn (by simp [hh']) (by simp) rfl
  | journalDrained hh =>
      refine ⟨h.goesOn rfl rfl (fun _ => .inr ?_) (by simp), fun hc => ?_⟩
      · exact Pool.attended_start Nat.one_pos
      · exact hc.goesOn (by simp [hh]) (by simp) rfl
  | scanDrained hh | journalSkipped hh | journalWritten hh =>
      refine ⟨h.goesOn rfl rfl (fun _ => .inl rfl) (by simp), fun hc => ?_⟩
      exact hc.goesOn (by simp [hh]) (by simp) rfl
  | hashStarted hh =>
      refine ⟨h.goesOn rfl rfl (fun hst => .inr ?_) (by simp), fun hc => ?_⟩
      · exact h.journal_of (by rw [hh]; rfl) hst
      · exact hc.goesOn (by simp [hh]) (by simp) rfl
  | writingSet hh =>
      refine ⟨h.goesOn rfl rfl (by rintro ⟨⟩) (by simp), fun hc => ?_⟩
      exact hc.goesOn (by simp [hh]) (by simp) rfl
  | replicationStarted hh =>
      refine ⟨h.goesOn rfl rfl (fun hst => .inr ?_) (by simp), fun _ => ?_⟩
      · exact h.journal_of (by rw [hh]; rfl) hst
      · exact (consumes_iff (by simp)).mpr (Pool.attended_start hn)
  | replicationEnded hh =>
      refine ⟨h.goesOn rfl rfl (by rintro ⟨⟩) (by simp), fun hc => ?_⟩
      simp only [Consumes, hh] at hc

/-- A move of a goroutine of the server. -/
theorem Attending.move {m : SessionMove} (h : s.Attending) (hn : 0 < numWorkers)
    (hm : s.move hash numWorkers m = some (t, ps)) (hr : ∀ packet, m ≠ .receive packet) :
    t.Attending ∧ (s.Consumes → t.Consumes) := by
  have go : s.Serves t → t.Attending ∧ (s.Consumes → t.Consumes) :=
    fun ht => ⟨h.serves ht, ht.consumes⟩
  cases move_cases hm with
  | receive _ => exact absurd rfl (hr _)
  | handler ht => exact h.moveHandler hn ht
  | journaler ht => exact go (serves_moveJournaler ht)
  | writer hw => exact go (serves_moveWriter hw)
  | corrector hc => exact go (serves_moveCorrector hc)
  | replicator hb => exact go (serves_moveReplicator hb)
  | startHash hs => exact go (serves_moveStartHash hs)
  | hash _ => exact go (serves_of_pools rfl id id id id id)

/-- The queue that a packet is passed on to is attended; for a block of a full replication this
depends on the packets before it. -/
theorem Attending.of_route (h : s.Attending) (hh : s.handler = .receiving) {packet : Packet}
    {queue : Queue} (hb : ∀ block, packet = .payloadReplicationBlock block → s.Consumes)
    (hr : route s.state packet = some queue) : s.Attends queue := by
  cases packet with
  | payloadBufferWrite w =>
      cases hs : s.state with
      | hashing =>
          rw [hs] at hr
          cases hr
          exact h.journal_of (by rw [hh]; rfl) hs
      | writing =>
          rw [hs] at hr
          cases hr
          exact h.write
      | _ =>
          rw [hs] at hr
          cases hr
  | payloadCorrectBlock b =>
      cases hs : s.state with
      | hashing =>
          rw [hs] at hr
          cases hr
          exact h.journal_of (by rw [hh]; rfl) hs
      | destroyingReplica =>
          rw [hs] at hr
          cases hr
          exact h.correct
      | _ =>
          rw [hs] at hr
          cases hr
  | payloadReplicationBlock block =>
      cases hr
      exact (consumes_iff (by simp [hh])).mp (hb block rfl)
  | _ => cases hr

/-- A packet is received. -/
theorem Attending.receive (h : s.Attending) (hh : s.handler = .receiving) {packet : Packet}
    (hb : ∀ block, packet = .payloadReplicationBlock block → s.Consumes) :
    (s.receive packet).Attending ∧
      ((s.receive packet).Consumes ↔ consumesAfter s.Consumes packet) := by
  have hne : ∀ k, s.handler ≠ .drainingReplication k := by simp [hh]
  cases hcontrol : IsControl packet with
  | true =>
      cases packet with
      | cmdStartHashing =>
          exact ⟨h.goesOn rfl rfl (fun _ => .inl rfl) (by simp [Session.receive]),
            consumes_congr hne (by simp [Session.receive]) rfl⟩
      | cmdStartFullScan =>
          exact ⟨h.goesOn rfl rfl (by rintro ⟨⟩) (by simp [Session.receive]),
            consumes_congr hne (by simp [Session.receive]) rfl⟩
      | infoHashingCompleted =>
          exact ⟨h.goesOn rfl rfl (fun _ => .inl rfl) (by simp [Session.receive]),
            consumes_congr hne (by simp [Session.receive]) rfl⟩
      | infoReplicationCompleted =>
          refine ⟨h.goesOn rfl rfl (fun hst => .inr ?_) (by simp [Session.receive]), Iff.rfl⟩
          exact h.journal_of (by rw [hh]; rfl) hst
      | infoStartReplication =>
          exact ⟨h.goesOn rfl rfl (by rintro ⟨⟩) (by simp [Session.receive]), Iff.rfl⟩
      | _ => cases hcontrol
  | false =>
      have hafter : consumesAfter s.Consumes packet = s.Consumes := by
        cases packet <;> first | rfl | cases hcontrol
      rw [hafter]
      rcases receive_of_data hcontrol s with ⟨queue, hr, heq⟩ | ⟨-, heq⟩
      · rw [heq]
        refine ⟨⟨h.write, h.correct, fun hst => .inr ?_, ?_⟩, consumes_congr hne (by simp) rfl⟩
        · exact h.journal_of (by rw [hh]; rfl) hst
        · intro queue' packet' hq
          cases hq
          exact h.of_route hh hb hr
      · rw [heq]
        exact ⟨h, Iff.rfl⟩

end Moves

end Bdr.Server.Session

namespace Bdr.System

open Client Server Server.Session Kern

/-! ### The client -/

/-- The packets of a full replication. -/
def OfReplication : Packet → Bool
  | .infoStartReplication | .infoReplicationCompleted | .payloadReplicationBlock _ => true
  | _ => false

/-- What a move of the client sends of a full replication: a block only while `InitReplication` is
running, which begins with the announcement and ends with the report. -/
inductive Feeds (c c' : Client) : List Packet → Prop where
  | other {ps : List Packet} (hps : ∀ p ∈ ps, OfReplication p = false)
      (hk : c'.replication.phase = .running → c.replication.phase = .running) : Feeds c c' ps
  | block (b : ReplicationBlockInfo) (hr : c.replication.phase = .running) :
      Feeds c c' [.payloadReplicationBlock b]
  | completes (hr : c'.replication.phase ≠ .running) : Feeds c c' [.infoReplicationCompleted]
  | starts : Feeds c c' [.infoStartReplication]

section Client
variable {cfg : ClientConfig} {c c' : Client} {P : ℕ} {ps : List Packet}

/-- A command other than `FullReplicate`. -/
theorem feeds_startStep {s s' : Shared} {call : StartCall} {next : Option StartCall}
    (hs : s.startStep .startHashing call = some (s', ps, next))
    (hk : c'.replication = c.replication) : Feeds c c' ps := by
  refine .other (fun p hp => ?_) (by rw [hk]; exact id)
  rcases startStep_packet hs with ⟨rfl, -⟩ | ⟨-, rfl, -⟩
  · exact absurd hp List.not_mem_nil
  · cases List.mem_singleton.mp hp
    rfl

theorem feeds_processStep {ti : TargetInfo} {s s' : Shared} {mainLoop sent : Bool} {w : Window}
    {next : Option Window} (hs : s.processStep ti mainLoop sent w = some (s', ps, next))
    (hk : c'.replication = c.replication) : Feeds c c' ps := by
  refine .other (fun p hp => ?_) (by rw [hk]; exact id)
  obtain ⟨w, rfl⟩ := processStep_writes hs p hp
  rfl

theorem feeds_nothing (hk : c'.replication = c.replication) : Feeds c c' [] :=
  .other (fun _ hp => absurd hp List.not_mem_nil) (by rw [hk]; exact id)

theorem feeds_listener (h : ListenerMove cfg c ps c') : Feeds c c' ps := by
  cases h with
  | process hl hs => exact feeds_processStep hs rfl
  | completed hl => exact .other (by simp [OfReplication]) id
  | start hl hs => exact feeds_startStep hs rfl
  | restarted hl hs => exact feeds_startStep hs rfl
  | reconnected hl hs => exact feeds_startStep hs rfl
  | _ => exact feeds_nothing rfl

theorem feeds_replication {m : ReplicationMove} (h : ReplicationMoves cfg c m ps c') :
    Feeds c c' ps := by
  cases h with
  | generates hp h => exact .other (by simp) fun _ => hp
  | reads hp h => exact .other (by simp) fun _ => hp
  | closes hp => exact .other (by simp) fun _ => hp
  | receives hp => exact .other (by simp) fun _ => hp
  | sends hp hb => exact .block _ hp
  | completes hp hf => exact .completes (by simp [setReplication])
  | setsWriting hp => exact .other (by simp) (by simp [setReplication])
  | @resumes call r hp hs =>
      refine .other (by simp) fun hr => ?_
      have hne : (r.2.elim ReplicationPhase.resuming fun _ => .returned) ≠ .running := by
        cases r.2 <;> simp
      exact absurd hr hne

theorem feeds_move {m : ClientMove P} (h : c.move cfg m = some (c', ps)) : Feeds c c' ps := by
  cases move_cases h with
  | write a => exact feeds_nothing rfl
  | @run command call s _ next hrun hs =>
      rcases startStep_packet hs with ⟨rfl, call', rfl⟩ | ⟨-, rfl, rfl, -⟩
      · exact .other (by simp) (by simp)
      · by_cases hc : command = .fullReplicate
        · subst hc
          exact .starts
        · refine .other (fun p hp => ?_) (by simp [hc])
          cases List.mem_singleton.mp hp
          cases command <;> first | rfl | exact absurd rfl hc
  | monitorWaits => exact feeds_nothing rfl
  | monitorReads => exact feeds_nothing rfl
  | monitorStarts hrun hm hs => exact feeds_startStep hs rfl
  | monitorProcesses hrun hm hs => exact feeds_processStep hs rfl
  | listener hrun h => exact feeds_listener h
  | @deliver packet hrun hl =>
      refine feeds_nothing ?_
      cases packet <;> rfl
  | eof => exact feeds_nothing rfl
  | dial hrun hl hps =>
      obtain ⟨info, rfl⟩ := hps
      refine .other (by simp [OfReplication]) ?_
      split <;> exact id
  | readerStarts hrun hb hs => exact feeds_startStep hs rfl
  | hashes hrun hnot hs =>
      refine .other (fun p hp => ?_) id
      rcases InitHashing.move_sends hs with heq | ⟨block, heq⟩
      · cases heq
        exact absurd hp List.not_mem_nil
      · cases heq
        cases List.mem_singleton.mp hp
        rfl
  | replicates hrun h => exact feeds_replication h

end Client

/-! ### The packets under way -/

/-- There are goroutines for every block of a full replication among the packets, when it comes. -/
def Awaited : Prop → List Packet → Prop
  | _, [] => True
  | b, p :: ps => (∀ block, p = .payloadReplicationBlock block → b) ∧ Awaited (consumesAfter b p) ps

section Packets
variable {b b' : Prop} {ps qs : List Packet}

theorem consumesAfter_mono (hb : b → b') (p : Packet) : consumesAfter b p → consumesAfter b' p := by
  cases p <;> first | exact hb | exact id

theorem foldl_consumesAfter_mono (hb : b → b') :
    ps.foldl consumesAfter b → ps.foldl consumesAfter b' := by
  induction ps generalizing b b' with
  | nil => exact hb
  | cons p ps ih => exact ih (consumesAfter_mono hb p)

theorem Awaited.mono (hb : b → b') (h : Awaited b ps) : Awaited b' ps := by
  induction ps generalizing b b' with
  | nil => trivial
  | cons p ps ih => exact ⟨fun block hp => hb (h.1 block hp), ih (consumesAfter_mono hb p) h.2⟩

theorem Awaited.append (h : Awaited b ps) (hq : Awaited (ps.foldl consumesAfter b) qs) :
    Awaited b (ps ++ qs) := by
  induction ps generalizing b with
  | nil => exact hq
  | cons p ps ih => exact ⟨h.1, ih h.2 hq⟩

/-- Packets that are none of a full replication leave it as it is. -/
theorem foldl_consumesAfter_of_other (h : ∀ p ∈ ps, OfReplication p = false) (b : Prop) :
    ps.foldl consumesAfter b = b ∧ Awaited b ps := by
  induction ps with
  | nil => exact ⟨rfl, trivial⟩
  | cons p ps ih =>
      obtain ⟨hp, hps⟩ := List.forall_mem_cons.mp h
      have hb : consumesAfter b p = b := by cases p <;> first | rfl | cases hp
      rw [List.foldl_cons, Awaited, hb]
      refine ⟨(ih hps).1, ?_, (ih hps).2⟩
      rintro block rfl
      cases hp

end Packets

/-! ### Runs -/

/-- There are goroutines for what is under way, and for what `InitReplication` is still to send. -/
structure Supplied (s : System) : Prop where
  attending : s.session.Attending
  awaited : Awaited s.session.Consumes s.toServer
  running : s.connected = true → s.client.replication.phase = .running →
    s.toServer.foldl consumesAfter s.session.Consumes

section Runs
variable {cfg : Config} {s s' : System} {P : ℕ}

/-- The client connects again only when `InitReplication` is not running. -/
def rested (s : System) : Move P → Prop
  | .reconnect _ => s.client.replication.phase ≠ .running
  | _ => True

instance (s : System) : (m : Move P) → Decidable (s.rested m)
  | .reconnect _ => inferInstanceAs (Decidable (_ ≠ _))
  | .client _ | .server _ | .disconnect => inferInstanceAs (Decidable True)

theorem supplied_start (command : Option Command) (ring : RingBuffer) (source : Image UInt8)
    (machine : Machine) : Supplied (.start (.start command ring source) machine) where
  attending := attending_start machine
  awaited := trivial
  running := by rintro - ⟨⟩

/-- The client's packets follow those under way. -/
theorem Supplied.sends {c : Client} {ps toClient : List Packet} (h : Supplied s)
    (hc : s.connected = true) (hf : Feeds s.client c ps) :
    Supplied { s with client := c, toServer := s.toServer ++ ps, toClient := toClient } := by
  cases hf with
  | other hps hk =>
      obtain ⟨hfold, hawait⟩ := foldl_consumesAfter_of_other hps
        (s.toServer.foldl consumesAfter s.session.Consumes)
      refine ⟨h.attending, h.awaited.append hawait, fun _ hr => ?_⟩
      rw [List.foldl_append, hfold]
      exact h.running hc (hk hr)
  | block b hr =>
      refine ⟨h.attending, h.awaited.append ⟨fun _ _ => h.running hc hr, trivial⟩, fun _ _ => ?_⟩
      rw [List.foldl_append]
      exact h.running hc hr
  | completes hr =>
      exact ⟨h.attending, h.awaited.append ⟨by rintro block ⟨⟩, trivial⟩,
        fun _ hr' => absurd hr' hr⟩
  | starts =>
      refine ⟨h.attending, h.awaited.append ⟨by rintro block ⟨⟩, trivial⟩, fun _ _ => ?_⟩
      rw [List.foldl_append]
      trivial

theorem Supplied.client {m : ClientMove P} (h : Supplied s)
    (hs : s.step cfg (.client m) = some s') : Supplied s' := by
  obtain ⟨c, ps, toClient, hm, -, rfl⟩ := step_client hs
  cases hc : s.connected with
  | true => simpa only [hc, push_true] using h.sends hc (feeds_move hm)
  | false => exact ⟨h.attending, h.awaited, by rintro ⟨⟩⟩

theorem Supplied.server {m : SessionMove} (h : Supplied s) (hn : 0 < cfg.serverWorkers)
    (hs : s.step cfg (.server m : Move P) = some s') : Supplied s' := by
  obtain ⟨t, ps, toServer, hm, hout, rfl⟩ := step_server hs
  by_cases hr : ∃ packet, m = .receive packet
  · obtain ⟨packet, rfl⟩ := hr
    obtain ⟨hh, heq⟩ := Option.ite_none_right_eq_some.mp hm
    cases heq
    have hto : s.toServer = packet :: toServer := hout
    have hawait := h.awaited
    rw [hto] at hawait
    obtain ⟨hatt, hcons⟩ := h.attending.receive hh hawait.1
    refine ⟨hatt, hawait.2.mono hcons.mpr, fun hc hr => ?_⟩
    have hrun := h.running hc hr
    rw [hto, List.foldl_cons] at hrun
    exact foldl_consumesAfter_mono hcons.mpr hrun
  · obtain ⟨hatt, hcons⟩ := h.attending.move hn hm fun packet hp => hr ⟨packet, hp⟩
    have hto : toServer = s.toServer := by
      cases m <;> first | exact hout | exact absurd ⟨_, rfl⟩ hr
    subst hto
    exact ⟨hatt, h.awaited.mono hcons,
      fun hc hr => foldl_consumesAfter_mono hcons (h.running hc hr)⟩

theorem Supplied.step {m : Move P} (h : Supplied s) (hn : 0 < cfg.serverWorkers)
    (hok : s.rested m) (hs : s.step cfg m = some s') : Supplied s' := by
  cases m with
  | client m => exact h.client hs
  | server m => exact h.server hn hs
  | disconnect =>
      cases hs
      exact ⟨h.attending, h.awaited, by rintro ⟨⟩⟩
  | reconnect machine =>
      obtain ⟨⟨c, ps⟩, hm, rfl⟩ := Option.map_eq_some_iff.mp hs
      have hsame : c.replication = s.client.replication := by
        cases move_cases hm with
        | dial hrun hl hps => split <;> rfl
      exact ⟨attending_start machine, trivial, fun _ hr => absurd (hsame ▸ hr) hok⟩

/-- **Whatever `HandleClient` passes on is received**, as long as the client does not take
`InitReplication` over to a new connection: the queue has goroutines that range over it and have not
returned, so that `HandleClient` does not wait for good. -/
theorem attended_of_rested {command : Option Command} {ring : RingBuffer} {source : Image UInt8}
    {machine : Machine} {moves : List (Move P)} (hn : 0 < cfg.serverWorkers)
    (hrun : Run (System.step cfg) rested (.start (.start command ring source) machine) moves s) :
    ∀ queue packet, s.session.handler = .enqueueing queue packet →
      s.session.Attends queue ∧ s.session.Relieves packet queue := by
  have h := hrun.invariant (I := Supplied) (fun _ _ _ h hok hs => h.step hn hok hs)
    (supplied_start command ring source machine)
  intro queue packet hh
  have hatt := h.attending.enqueueing queue packet hh
  exact ⟨hatt, hatt.relieves packet⟩

/-- `InitReplication` sends its one block, and `HandleClient` receives it. -/
theorem attended_of_rested_oneByte : ∃ s,
    Run (System.step oneByteConfig) rested
      (.start (oneByteClient (some .fullReplicate)) tightMachine)
      (List.replicate 6 (.client .run) ++ replicateOneByte ++
        [.server (.receive .infoStartReplication), .server (.handler .ok),
          .server (.receive (.payloadReplicationBlock ⟨0, 1, [5]⟩))]) s ∧
      s.session.handler = .enqueueing .replication (.payloadReplicationBlock ⟨0, 1, [5]⟩) ∧
      s.session.Attends .replication := by
  obtain ⟨s, hs, hh⟩ := exists_exec (show (exec (guarded (System.step oneByteConfig) rested)
    (.start (oneByteClient (some .fullReplicate)) tightMachine)
    (List.replicate 6 (.client .run) ++ replicateOneByte ++
      [.server (.receive .infoStartReplication), .server (.handler .ok),
        .server (.receive (.payloadReplicationBlock ⟨0, 1, [5]⟩))])).any
    (fun s => s.session.handler =
      .enqueueing .replication (.payloadReplicationBlock ⟨0, 1, [5]⟩)) = true by decide +kernel)
  have hrun := Run.of_exec_guarded hs
  have hh := of_decide_eq_true hh
  exact ⟨s, hrun, hh, (attended_of_rested Nat.one_pos hrun _ _ hh).1⟩

/-- The connection is lost during a full replication: `InitReplication` sends its block over the new
one, where nobody receives it. -/
theorem not_attended_of_reconnect : ∃ (moves : List (Move 4096)) (s : System),
    exec (System.step oneByteConfig) (.start (oneByteClient (some .fullReplicate)) tightMachine)
      moves = some s ∧
      s.session.handler = .enqueueing .replication (.payloadReplicationBlock ⟨0, 1, [5]⟩) ∧
      s.session.replicationQueue.workers = [] ∧ ¬ s.session.Attends .replication := by
  obtain ⟨s, hs, hd⟩ := exists_exec (show (exec (System.step oneByteConfig)
    (.start (oneByteClient (some .fullReplicate)) tightMachine)
    (List.replicate 6 (.client .run) ++ [.disconnect, .client .eof, .reconnect tightMachine] ++
      replicateOneByte ++ [.server (.receive (.payloadReplicationBlock ⟨0, 1, [5]⟩))])).any
    (fun s => s.session.handler =
      .enqueueing .replication (.payloadReplicationBlock ⟨0, 1, [5]⟩) ∧
        s.session.replicationQueue.workers = []) = true by decide +kernel)
  obtain ⟨hh, hw⟩ := of_decide_eq_true hd
  exact ⟨_, s, hs, hh, hw, fun h => Pool.Settled.workers_ne h.toSettled hw⟩

end Runs

end Bdr.System
