import Bdr.System.Work

/-!
# System — the server comes back to its client

Between two packets `HandleClient` may wait: for room in a queue, for the goroutines that range over
a queue it has closed, and for `HashDisk`.  The goroutines it waits for share the target, the
journal and the state of the server with all others.

* `Manned.progress`: as long as `HandleClient` waits, a goroutine can go on or brings the server
  down, with one exception: a block of a full replication that nobody has announced waits for room
  in a queue that nobody reads (`Stuck`).
* `Manned.move`: every move but the next packet leaves less to do.
* `comes_back`: so `HandleClient` is back at its loop after so many moves, in whatever order the
  goroutines make them.
* `Stuck.move`: the exception is for good.
-/

namespace Bdr.Server

open Journal

namespace Session

/-! ### Going on -/

/-- The goroutine can make its move, or the operation it is at brings the server down. -/
def GoesOn (hash : List UInt8 → UInt64) (numWorkers : ℕ) (s : Session) (m : SessionMove) : Prop :=
  (∃ r, s.move hash numWorkers m = some r) ∨ attempt (s.operating m) s.machine = none

/-- `HandleClient` has a block of a full replication, for a queue that is full and that no goroutine
ranges over. -/
def Stuck (s : Session) : Prop :=
  (∃ packet, s.handler = .enqueueing .replication packet) ∧ s.replicationQueue.workers = [] ∧
    s.replicationQueue.queue.length = packetQueueSize

/-- A move that does not wait for a packet. -/
def isInner : SessionMove → Bool
  | .receive _ => false
  | _ => true

section GoesOn
variable {hash : List UInt8 → UInt64} {numWorkers : ℕ} {s : Session}

theorem goesOn_writer (h : s.writeQueue.Stirs .took 0) : s.GoesOn hash numWorkers .writer := by
  rcases h with ⟨t, hb⟩ | ⟨q, hq⟩
  · cases t with
    | took packet => exact .inl ⟨_, by simp only [move, moveWriter, hb]; rfl⟩
    | writing packet =>
        cases packet with
        | payloadBufferWrite w =>
            cases hr : attempt (writeBufferWriteToReplica w) s.machine with
            | none => exact .inr (by simpa [operating, operation, hb] using hr)
            | some r => exact .inl ⟨_, by simp only [move, moveWriter, hb, hr]; rfl⟩
        | _ => exact .inl ⟨_, by simp only [move, moveWriter, hb]; rfl⟩
  · exact .inl ⟨_, by simp only [move, moveWriter, (Pool.busy?_receive hq).1, hq]; rfl⟩

theorem goesOn_corrector (h : s.correctQueue.Stirs id 0) :
    s.GoesOn hash numWorkers .corrector := by
  rcases h with ⟨packet, hb⟩ | ⟨q, hq⟩
  · cases packet with
    | payloadCorrectBlock b =>
        cases hr : attempt (writeCorrectBlockToReplica b) s.machine with
        | none => exact .inr (by simpa [operating, operation, hb] using hr)
        | some r => exact .inl ⟨_, by simp only [move, moveCorrector, hb, hr]; rfl⟩
    | _ => exact .inl ⟨_, by simp only [move, moveCorrector, hb]; rfl⟩
  · exact .inl ⟨_, by simp only [move, moveCorrector, (Pool.busy?_receive hq).1, hq]; rfl⟩

theorem goesOn_journaler (h : s.journalQueue.Stirs .took 0) (sent : Sent) :
    s.GoesOn hash numWorkers (.journaler sent) := by
  rcases h with ⟨t, hb⟩ | ⟨q, hq⟩
  · cases t with
    | took packet => exact .inl ⟨_, by simp only [move, moveJournaler, hb]; rfl⟩
    | storing packet =>
        cases hr : attempt (storePacket packet) s.machine.journal with
        | none =>
            refine .inr ?_
            simpa [operating, operation, hb] using attempt_onJournal_of_none hr
        | some r => exact .inl ⟨_, by simp only [move, moveJournaler, hb, hr]; rfl⟩
    | overflowing => exact .inl ⟨_, by simp only [move, moveJournaler, hb]; rfl⟩
  · exact .inl ⟨_, by simp only [move, moveJournaler, (Pool.busy?_receive hq).1, hq]; rfl⟩

theorem goesOn_replicator {i : ℕ} (h : s.replicationQueue.Stirs id i) :
    s.GoesOn hash numWorkers (.replicator i) := by
  rcases h with ⟨packet, hb⟩ | ⟨q, hq⟩
  · cases packet with
    | payloadReplicationBlock b =>
        cases hr : attempt (targetWriteAt .copy b.offset.toNat b.data) s.machine with
        | none => exact .inr (by simpa [operating, operation, hb] using hr)
        | some r => exact .inl ⟨_, by simp only [move, moveReplicator, hb, hr]; rfl⟩
    | _ => exact .inl ⟨_, by simp only [move, moveReplicator, hb]; rfl⟩
  · exact .inl ⟨_, by simp only [move, moveReplicator, (Pool.busy?_receive hq).1, hq]; rfl⟩

theorem goesOn_startHash (h : s.hashDisk.phase = .starting ∨ s.hashDisk.phase = .resetting) :
    s.GoesOn hash numWorkers .startHash := by
  rcases h with hp | hp
  · exact .inl ⟨_, by simp only [move, moveStartHash, hp]; rfl⟩
  · cases hr : attempt (resetTo s.machine.journal.writeOffset s.machine.journal.correctOffset)
        s.machine.journal with
    | none =>
        refine .inr ?_
        simpa [operating, operation, hp] using attempt_onJournal_of_none hr
    | some r => exact .inl ⟨_, by simp only [move, moveStartHash, hp, hr]; rfl⟩

theorem goesOn_writingJournal (h : s.handler = .writingJournal) (sent : Sent) :
    s.GoesOn hash numWorkers (.handler sent) := by
  by_cases hs : s.state = .destroyingReplica
  · exact .inl ⟨_, by simp only [move, moveHandler, h, handleJournalWriting, hs, if_true]; rfl⟩
  · cases hr : attempt writeJournalToReplica s.machine with
    | none => exact .inr (by simpa [operating, h, hs] using hr)
    | some r =>
        exact .inl ⟨_, by simp only [move, moveHandler, h, handleJournalWriting, hs, if_false, hr]
                          rfl⟩

end GoesOn

/-! ### The invariant -/

/-- The packets that are received lie on the target. -/
def accepts (size : ℕ) : SessionMove → Prop
  | .receive packet => Lies size packet
  | _ => True

/-- The session without the block that `HandleClient` may hold for a full replication: whether that
one finds a reader is not for the server to say. -/
def aside (s : Session) : Session :=
  match s.handler with
  | .enqueueing .replication _ => { s with handler := .receiving }
  | _ => s

/-- What holds throughout a session, whatever packets it receives. -/
structure Manned (hash : List UInt8 → UInt64) (numWorkers : ℕ) (target : Device) (s : Session) :
    Prop where
  attending : s.aside.Attending
  write : s.writeQueue.Within packetQueueSize 1
  correct : s.correctQueue.Within packetQueueSize 1
  journal : s.journalQueue.Within packetQueueSize 1
  replication : s.replicationQueue.Within packetQueueSize numWorkers
  isOpen : (∀ k, s.handler ≠ .drainingReplication k) → s.replicationQueue.Open
  journalClosed : ∀ k, s.handler = .drainingJournal k → s.journalQueue.closed = true
  replicationClosed : ∀ k, s.handler = .drainingReplication k → s.replicationQueue.closed = true
  size : s.machine.target.size = target.size
  scans : Scans (hashConfig hash numWorkers target) s.hashDisk
  queued : s.QueuesLie target.size
  held : ∀ queue packet, s.handler = .enqueueing queue packet → Lies target.size packet

section Aside
variable {s t : Session}

theorem aside_of_block {packet : Packet} (h : s.handler = .enqueueing .replication packet) :
    s.aside = { s with handler := .receiving } := by
  simp only [aside, h]

theorem aside_of_ne (h : ∀ packet, s.handler ≠ .enqueueing .replication packet) :
    s.aside = s := by
  unfold aside
  split
  · rename_i packet hh
    exact absurd hh (h packet)
  · rfl

theorem Serves.aside (h : s.Serves t) : s.aside.Serves t.aside := by
  by_cases hb : ∃ packet, s.handler = .enqueueing .replication packet
  · obtain ⟨packet, hb⟩ := hb
    rw [aside_of_block hb, aside_of_block (h.handler.trans hb)]
    exact serves_of_pools rfl h.state (h.attends .write) (h.attends .correct)
      (h.attends .journal) (h.attends .replication)
  · have hne : ∀ packet, s.handler ≠ .enqueueing .replication packet := fun p hp => hb ⟨p, hp⟩
    rw [aside_of_ne hne, aside_of_ne (h.handler ▸ hne)]
    exact h

end Aside

/-- `HandleClient` has no packet to pass on, and waits for no queue. -/
def settled : Handler → Bool
  | .receiving | .awaitingHash | .writingJournal | .settingWriting => true
  | _ => false

theorem manned_of_settled {hash : List UInt8 → UInt64} {numWorkers : ℕ} {target : Device}
    {s : Session} (hh : settled s.handler = true) (ha : s.Attending)
    (hwrite : s.writeQueue.Within packetQueueSize 1)
    (hcorrect : s.correctQueue.Within packetQueueSize 1)
    (hjournal : s.journalQueue.Within packetQueueSize 1)
    (hreplication : s.replicationQueue.Within packetQueueSize numWorkers)
    (hopen : s.replicationQueue.Open) (hsize : s.machine.target.size = target.size)
    (hscans : Scans (hashConfig hash numWorkers target) s.hashDisk)
    (hqueued : s.QueuesLie target.size) : s.Manned hash numWorkers target := by
  have hne {handler : Handler} (h : s.handler = handler) : settled handler = true := h ▸ hh
  refine ⟨?_, hwrite, hcorrect, hjournal, hreplication, fun _ => hopen, fun k hk => ?_,
    fun k hk => ?_, hsize, hscans, hqueued, fun queue packet hp => ?_⟩
  · rwa [aside_of_ne fun packet hp => by cases hne hp]
  · cases hne hk
  · cases hne hk
  · cases hne hp

theorem Manned.works {hash : List UInt8 → UInt64} {numWorkers : ℕ} {target : Device}
    {s t : Session} (h : s.Manned hash numWorkers target)
    (hw : s.Works (hashConfig hash numWorkers target) t) : t.Manned hash numWorkers target where
  attending := h.attending.serves hw.serves.aside
  write := h.write.goes hw.write
  correct := h.correct.goes hw.correct
  journal := h.journal.goes hw.journal
  replication := h.replication.goes hw.replication
  isOpen := fun hk => (h.isOpen (hw.serves.handler ▸ hk)).goes hw.replication
  journalClosed := fun k hk =>
    (Pool.closed_goes hw.journal).trans (h.journalClosed k (hw.serves.handler.symm.trans hk))
  replicationClosed := fun k hk =>
    (Pool.closed_goes hw.replication).trans
      (h.replicationClosed k (hw.serves.handler.symm.trans hk))
  size := hw.spared.size.trans h.size
  scans := hw.scans h.scans
  queued := hw.queued _ h.queued
  held := fun queue packet hh => h.held queue packet (hw.serves.handler.symm.trans hh)

/-! ### What `HandleClient` does -/

section Handler
variable {hash : List UInt8 → UInt64} {numWorkers : ℕ} {target : Device} {s t : Session}
variable {ps : List Packet} {sent : Sent}

theorem Manned.attending_moveHandler (h : s.Manned hash numWorkers target) (hn : 0 < numWorkers)
    (hm : s.moveHandler numWorkers sent = some (t, ps)) : t.Attending := by
  by_cases hb : ∃ packet, s.handler = .enqueueing .replication packet
  · obtain ⟨packet, hb⟩ := hb
    unfold Session.moveHandler at hm
    simp only [hb, Option.map_eq_some_iff, Prod.mk.injEq] at hm
    obtain ⟨s₁, hs, rfl, -⟩ := hm
    have hserves := serves_enqueue hs
    have h₁ := h.attending.serves hserves.aside
    rwa [aside_of_block (hserves.handler.trans hb)] at h₁
  · have h₀ := h.attending
    rw [aside_of_ne fun packet hp => hb ⟨packet, hp⟩] at h₀
    exact (h₀.moveHandler hn hm).1

/-- The packet is sent on its queue. -/
theorem Manned.enqueued (h : s.Manned hash numWorkers target) {queue : Queue} {packet : Packet}
    {s₁ : Session} (hh : s.handler = .enqueueing queue packet)
    (hs : s.enqueue packet queue = some s₁)
    (ha : ({ s₁ with handler := .receiving } : Session).Attending) :
    ({ s₁ with handler := .receiving } : Session).Manned hash numWorkers target ∧
      ({ s₁ with handler := .receiving } : Session).work (hashConfig hash numWorkers target) <
        s.work (hashConfig hash numWorkers target) := by
  have hopen := h.isOpen (by simp [hh])
  cases queue with
  | write =>
      obtain ⟨q, hq, rfl⟩ := Option.map_eq_some_iff.mp hs
      have hcost := Pool.cost_send (g := fun _ => 3) (f := writeWork) hq
      refine ⟨manned_of_settled rfl ha (h.write.send hq) h.correct h.journal h.replication hopen
        h.size h.scans (Pool.All.send h.queued hq (h.held _ _ hh)), ?_⟩
      simp only [work, handlerWork, hh]
      omega
  | correct =>
      obtain ⟨q, hq, rfl⟩ := Option.map_eq_some_iff.mp hs
      have hcost := Pool.cost_send (g := fun _ => 2) (f := fun _ => 1) hq
      refine ⟨manned_of_settled rfl ha h.write (h.correct.send hq) h.journal h.replication hopen
        h.size h.scans h.queued, ?_⟩
      simp only [work, handlerWork, hh]
      omega
  | journal =>
      obtain ⟨q, hq, rfl⟩ := Option.map_eq_some_iff.mp hs
      have hcost := Pool.cost_send (g := fun _ => 4) (f := journalWork) hq
      refine ⟨manned_of_settled rfl ha h.write h.correct (h.journal.send hq) h.replication hopen
        h.size h.scans h.queued, ?_⟩
      simp only [work, handlerWork, hh]
      omega
  | replication =>
      obtain ⟨q, hq, rfl⟩ := Option.map_eq_some_iff.mp hs
      have hcost := Pool.cost_send (g := fun _ => 2) (f := fun _ => 1) hq
      refine ⟨manned_of_settled rfl ha h.write h.correct h.journal (h.replication.send hq)
        (hopen.send hq) h.size h.scans h.queued, ?_⟩
      simp only [work, handlerWork, hh]
      omega

theorem Manned.moveHandler (h : s.Manned hash numWorkers target) (hn : 0 < numWorkers)
    (hm : s.moveHandler numWorkers sent = some (t, ps)) : t.Manned hash numWorkers target ∧
      t.work (hashConfig hash numWorkers target) < s.work (hashConfig hash numWorkers target) := by
  have ha := h.attending_moveHandler hn hm
  cases moveHandler_cases hm with
  | enqueued hh hs => exact h.enqueued hh hs ha
  | journalDrained hh hf =>
      refine ⟨manned_of_settled rfl ha h.write h.correct (Pool.within_start le_rfl) h.replication
        (h.isOpen (by simp [hh])) h.size h.scans.terminate h.queued, ?_⟩
      have hterm : s.hashDisk.terminate.work (hashConfig hash numWorkers target) =
          s.hashDisk.work (hashConfig hash numWorkers target) := rfl
      simp only [work, handlerWork, hh, hterm, Pool.cost_start]
      omega
  | scanDrained hh hf =>
      refine ⟨manned_of_settled rfl ha h.write h.correct (Pool.within_start (Nat.zero_le 1))
        h.replication (h.isOpen (by simp [hh])) h.size h.scans h.queued, ?_⟩
      simp only [work, handlerWork, hh, Pool.cost_start]
      omega
  | hashStarted hh hp =>
      refine ⟨manned_of_settled rfl ha h.write h.correct h.journal h.replication
        (h.isOpen (by simp [hh])) h.size (scans_starting _) h.queued, ?_⟩
      have hscan : HashDisk.work (hashConfig hash numWorkers target)
          { HashDisk.start numWorkers with phase := .starting } =
            scanWork (hashConfig hash numWorkers target) := rfl
      simp only [work, handlerWork, hh, hscan]
      omega
  | journalSkipped hh hs =>
      refine ⟨manned_of_settled rfl ha h.write h.correct h.journal h.replication
        (h.isOpen (by simp [hh])) h.size h.scans h.queued, ?_⟩
      simp only [work, handlerWork, hh]
      omega
  | journalWritten hh hs hr =>
      have hspared := spared_of_attempt (fun _ _ => Spared.keeps_writeJournalToReplica) hr
      have hplan := hspared.plan
      refine ⟨manned_of_settled rfl ha h.write h.correct h.journal h.replication
        (h.isOpen (by simp [hh])) (hspared.size.trans h.size) h.scans h.queued, ?_⟩
      simp only [work, handlerWork, hh]
      omega
  | writingSet hh =>
      refine ⟨manned_of_settled rfl ha h.write h.correct h.journal h.replication
        (h.isOpen (by simp [hh])) h.size h.scans h.queued, ?_⟩
      simp only [work, handlerWork, hh]
      omega
  | replicationStarted hh hf =>
      refine ⟨manned_of_settled rfl ha h.write h.correct h.journal (Pool.within_start le_rfl)
        (Pool.open_start _) h.size h.scans h.queued, ?_⟩
      have hcfg : (hashConfig hash numWorkers target).numWorkers = numWorkers := rfl
      simp only [work, handlerWork, hh, hcfg, Pool.cost_start]
      omega
  | replicationEnded hh hf =>
      refine ⟨manned_of_settled rfl ha h.write h.correct h.journal
        (Pool.within_start (Nat.zero_le _)) (Pool.open_start _) h.size h.scans h.queued, ?_⟩
      simp only [work, handlerWork, hh, Pool.cost_start]
      omega

/-- **Every move but the next packet** leaves less to do. -/
theorem Manned.move (h : s.Manned hash numWorkers target) (hn : 0 < numWorkers)
    {m : SessionMove} (hinner : isInner m = true) (hm : s.move hash numWorkers m = some (t, ps)) :
    t.Manned hash numWorkers target ∧
      t.work (hashConfig hash numWorkers target) < s.work (hashConfig hash numWorkers target) := by
  cases m with
  | receive packet => cases hinner
  | handler sent => exact h.moveHandler hn hm
  | writer | corrector | journaler | replicator | startHash | hash =>
      have hw := works_move h.size h.queued h.scans rfl hm
      exact ⟨h.works hw, hw.work_lt⟩

/-- `HandleClient` receives a packet that is passed on or dropped. -/
theorem Manned.receive_data (h : s.Manned hash numWorkers target) (hh : s.handler = .receiving)
    {packet : Packet} (hl : Lies target.size packet) (hcontrol : IsControl packet = false) :
    (s.receive packet).Manned hash numWorkers target := by
  have h₀ := h.attending
  rw [aside_of_ne (by simp [hh])] at h₀
  have hopen := h.isOpen (by simp [hh])
  rcases receive_of_data hcontrol s with ⟨queue, hr, heq⟩ | ⟨-, heq⟩
  · have ha : (s.receive packet).aside.Attending := by
      by_cases hb : ∃ block, packet = .payloadReplicationBlock block
      · obtain ⟨block, rfl⟩ := hb
        cases hr
        have hs : (s.receive (.payloadReplicationBlock block)).aside = s := by
          rw [aside_of_block (congrArg Session.handler heq), heq, ← hh]
        rwa [hs]
      · have h₁ := (h₀.receive hh fun block hp => absurd ⟨block, hp⟩ hb).1
        rwa [aside_of_ne]
        intro p hp
        rw [heq] at hp
        cases hp
        cases packet with
        | payloadReplicationBlock block => exact hb ⟨block, rfl⟩
        | payloadBufferWrite w => cases hs : s.state <;> rw [hs] at hr <;> cases hr
        | payloadCorrectBlock b => cases hs : s.state <;> rw [hs] at hr <;> cases hr
        | _ => cases hr
    rw [heq] at ha ⊢
    exact ⟨ha, h.write, h.correct, h.journal, h.replication, fun _ => hopen, by rintro _ ⟨⟩,
      by rintro _ ⟨⟩, h.size, h.scans, h.queued, by rintro queue packet ⟨⟩; exact hl⟩
  · rw [heq]
    exact h

theorem Manned.receive (h : s.Manned hash numWorkers target) (hh : s.handler = .receiving)
    {packet : Packet} (hl : Lies target.size packet) :
    (s.receive packet).Manned hash numWorkers target := by
  have h₀ := h.attending
  rw [aside_of_ne (by simp [hh])] at h₀
  have hopen := h.isOpen (by simp [hh])
  cases hcontrol : IsControl packet with
  | false => exact h.receive_data hh hl hcontrol
  | true =>
      have ha : (s.receive packet).Attending :=
        (h₀.receive hh (by rintro block rfl; cases hcontrol)).1
      have haside : (s.receive packet).aside = s.receive packet := by
        refine aside_of_ne fun p hp => ?_
        cases packet with
        | cmdStartHashing | cmdStartFullScan | infoHashingCompleted | infoReplicationCompleted
        | infoStartReplication => cases hp
        | _ => cases hcontrol
      rw [← haside] at ha
      cases packet with
      | cmdStartHashing | infoHashingCompleted =>
          exact ⟨ha, h.write, h.correct, h.journal.close, h.replication, fun _ => hopen,
            fun _ _ => rfl, by rintro _ ⟨⟩, h.size, h.scans, h.queued, by rintro _ _ ⟨⟩⟩
      | cmdStartFullScan =>
          exact manned_of_settled rfl (haside ▸ ha) h.write h.correct h.journal h.replication hopen
            h.size h.scans.terminate h.queued
      | infoReplicationCompleted | infoStartReplication =>
          exact ⟨ha, h.write, h.correct, h.journal, h.replication.close,
            fun hk => absurd rfl (hk _), by rintro _ ⟨⟩, fun _ _ => rfl, h.size, h.scans,
            h.queued, by rintro _ _ ⟨⟩⟩
      | _ => cases hcontrol

end Handler

/-! ### A goroutine can go on -/

section Progress
variable {hash : List UInt8 → UInt64} {numWorkers : ℕ} {target : Device} {s : Session}

theorem Manned.attends (h : s.Manned hash numWorkers target) {queue : Queue} {packet : Packet}
    (hh : s.handler = .enqueueing queue packet) (hne : queue ≠ .replication) :
    s.Attends queue := by
  have ha := h.attending
  rw [aside_of_ne] at ha
  · exact ha.enqueueing queue packet hh
  · rintro packet' hp
    cases hh.symm.trans hp
    exact hne rfl

/-- A pool of one goroutine that goes on. -/
theorem stirs_zero {α τ : Type} {p : Pool α τ} {enter : α → τ} {cap : ℕ} (hw : p.Within cap 1)
    (h : ∃ i, p.Stirs enter i) : p.Stirs enter 0 := by
  obtain ⟨i, hi⟩ := h
  have := hi.lt
  have := hw.workers
  obtain rfl : i = 0 := by omega
  exact hi

/-- A send that waits: on a queue that is attended the goroutine can go on. -/
theorem Manned.progress_enqueueing (h : s.Manned hash numWorkers target) {queue : Queue}
    {packet : Packet} (hh : s.handler = .enqueueing queue packet)
    (hs : s.enqueue packet queue = none) :
    s.Stuck ∨ ∃ m, isInner m = true ∧ s.GoesOn hash numWorkers m := by
  have hcap : 0 < packetQueueSize := by decide
  cases queue with
  | write =>
      have hsend := Option.map_eq_none_iff.mp hs
      have ha : s.writeQueue.Attended packetQueueSize := h.attends hh (by simp)
      exact .inr ⟨.writer, rfl, goesOn_writer (stirs_zero h.write (ha.stirs hcap hsend _))⟩
  | correct =>
      have hsend := Option.map_eq_none_iff.mp hs
      have ha : s.correctQueue.Attended packetQueueSize := h.attends hh (by simp)
      exact .inr ⟨.corrector, rfl,
        goesOn_corrector (stirs_zero h.correct (ha.stirs hcap hsend _))⟩
  | journal =>
      have hsend := Option.map_eq_none_iff.mp hs
      have ha : s.journalQueue.Attended packetQueueSize := h.attends hh (by simp)
      exact .inr ⟨.journaler .ok, rfl,
        goesOn_journaler (stirs_zero h.journal (ha.stirs hcap hsend _)) _⟩
  | replication =>
      have hsend := Option.map_eq_none_iff.mp hs
      have hopen := h.isOpen (by simp [hh])
      by_cases hw : s.replicationQueue.workers = []
      · have hfull : ¬ s.replicationQueue.queue.length < packetQueueSize := fun hlt => by
          rw [Pool.send, if_pos ⟨hlt, hopen.not_closed⟩] at hsend
          cases hsend
        have := h.replication.queue
        exact .inl ⟨⟨packet, hh⟩, hw, by omega⟩
      · have ha := hopen.attended h.replication hw
        obtain ⟨i, hi⟩ := ha.stirs hcap hsend id
        exact .inr ⟨.replicator i, rfl, goesOn_replicator hi⟩

/-- **As long as `HandleClient` waits, something goes on**: what it waits for has a goroutine that
can make a move or brings the server down. -/
theorem Manned.progress (h : s.Manned hash numWorkers target) (hn : 0 < numWorkers) :
    s.handler = .receiving ∨ s.Stuck ∨ ∃ m, isInner m = true ∧ s.GoesOn hash numWorkers m := by
  cases hh : s.handler with
  | receiving => exact .inl rfl
  | enqueueing queue packet =>
      cases hs : s.enqueue packet queue with
      | none => exact .inr (h.progress_enqueueing hh hs)
      | some s₁ =>
          exact .inr (.inr ⟨.handler .ok, rfl, .inl ⟨_, by
            simp only [Session.move, Session.moveHandler, hh, hs]
            rfl⟩⟩)
  | drainingJournal k =>
      by_cases hf : s.journalQueue.Finished
      · refine .inr (.inr ⟨.handler .ok, rfl, .inl ?_⟩)
        cases k with
        | startHashing | hashingCompleted =>
            exact ⟨_, by simp only [Session.move, Session.moveHandler, hh, hf, if_true]; rfl⟩
      · have hstirs := Pool.stirs_of_closed (h.journalClosed k hh) hf .took
        exact .inr (.inr ⟨.journaler .ok, rfl,
          goesOn_journaler (stirs_zero h.journal hstirs) _⟩)
  | awaitingHash =>
      refine .inr (.inr ?_)
      have hscan (hp : s.hashDisk.phase = .announcing ∨ s.hashDisk.phase = .running) :
          ∃ m, isInner m = true ∧ s.GoesOn hash numWorkers m := by
        have hticks := h.scans.ticking
        rw [← hashConfig_congr h.size] at hticks
        obtain ⟨m, r, hm⟩ := hticks.progress hn hp s.machine.target
        exact ⟨.hash m, rfl, .inl ⟨_, by simp only [Session.move, hm]; rfl⟩⟩
      cases hp : s.hashDisk.phase with
      | returned =>
          exact ⟨.handler .ok, rfl, .inl ⟨_, by
            simp only [Session.move, Session.moveHandler, hh, hp, if_true]
            rfl⟩⟩
      | starting => exact ⟨.startHash, rfl, goesOn_startHash (.inl hp)⟩
      | resetting => exact ⟨.startHash, rfl, goesOn_startHash (.inr hp)⟩
      | announcing => exact hscan (.inl hp)
      | running => exact hscan (.inr hp)
  | writingJournal => exact .inr (.inr ⟨.handler .ok, rfl, goesOn_writingJournal hh .ok⟩)
  | settingWriting =>
      exact .inr (.inr ⟨.handler .ok, rfl, .inl ⟨_, by
        simp only [Session.move, Session.moveHandler, hh]
        rfl⟩⟩)
  | drainingReplication k =>
      by_cases hf : s.replicationQueue.Finished
      · refine .inr (.inr ⟨.handler .ok, rfl, .inl ?_⟩)
        cases k with
        | startReplication | replicationCompleted =>
            exact ⟨_, by simp only [Session.move, Session.moveHandler, hh, hf, if_true]; rfl⟩
      · obtain ⟨i, hi⟩ := Pool.stirs_of_closed (h.replicationClosed k hh) hf id
        exact .inr (.inr ⟨.replicator i, rfl, goesOn_replicator hi⟩)

end Progress

/-! ### Whole runs -/

section Runs
variable {hash : List UInt8 → UInt64} {numWorkers : ℕ} {machine : Machine} {s t : Session}

theorem scans_start (c : HashConfig) :
    Scans c { HashDisk.start 0 with phase := .returned } := by
  refine ⟨⟨by rintro _ ⟨⟩, by rintro ⟨⟩⟩, ?_⟩
  rw [scanWork_eq]
  simp only [HashDisk.work, HashDisk.start, HashDisk.phaseWork, HashDisk.generatorWork,
    Pool.cost_start, UInt64.toNat_zero]
  omega

theorem manned_start (hash : List UInt8 → UInt64) (numWorkers : ℕ) {target : Device}
    (hsize : machine.target.size = target.size) : (start machine).Manned hash numWorkers target :=
  manned_of_settled rfl (attending_start machine) (Pool.within_start le_rfl)
    (Pool.within_start le_rfl) (Pool.within_start (Nat.zero_le 1))
    (Pool.within_start (Nat.zero_le numWorkers)) (Pool.open_start 0) hsize (scans_start _)
    (Pool.all_start 1)

theorem Manned.step {target : Device} (h : s.Manned hash numWorkers target) (hn : 0 < numWorkers)
    {m : SessionMove} {ps : List Packet} (hok : accepts target.size m)
    (hm : s.move hash numWorkers m = some (t, ps)) : t.Manned hash numWorkers target := by
  by_cases hinner : isInner m = true
  · exact (h.move hn hinner hm).1
  · cases m with
    | receive packet =>
        obtain ⟨hh, heq⟩ := Option.ite_none_right_eq_some.mp hm
        cases heq
        exact h.receive hh hok
    | _ => exact absurd rfl hinner

/-- **The exception is for good**: whatever the other goroutines do, `HandleClient` keeps the block
it has, and takes no other packet from its client. -/
theorem Stuck.move (h : s.Stuck) {m : SessionMove} {ps : List Packet}
    (hm : s.move hash numWorkers m = some (t, ps)) : t.Stuck ∧ isInner m = true := by
  obtain ⟨⟨packet, hh⟩, hw, hlen⟩ := h
  have hkept : t.handler = s.handler → t.replicationQueue = s.replicationQueue → t.Stuck :=
    fun hh' hq => ⟨⟨packet, hh'.trans hh⟩, hq ▸ hw, hq ▸ hlen⟩
  cases move_cases hm with
  | receive hr => cases hh.symm.trans hr
  | handler ht =>
      simp only [Session.moveHandler, hh, enqueue, Pool.send, hlen, lt_irrefl, false_and,
        if_false, Option.map_none] at ht
      cases ht
  | writer ht =>
      refine ⟨hkept (serves_moveWriter ht).handler ?_, rfl⟩
      rcases moveWriter_cases ht with ⟨q, -, rfl⟩ | ⟨p, -, rfl⟩ |
        ⟨p, -, ⟨-, rfl⟩ | ⟨w, r, -, -, rfl⟩⟩
      · rfl
      · rfl
      · rfl
      · split <;> rfl
  | corrector ht =>
      refine ⟨hkept (serves_moveCorrector ht).handler ?_, rfl⟩
      rcases moveCorrector_cases ht with ⟨q, -, rfl⟩ | ⟨p, -, ⟨-, rfl⟩ | ⟨b, r, -, -, rfl⟩⟩ <;> rfl
  | journaler ht =>
      refine ⟨hkept (serves_moveJournaler ht).handler ?_, rfl⟩
      rcases moveJournaler_cases ht with ⟨q, -, rfl, -⟩ | ⟨p, -, -, rfl⟩ |
        ⟨p, r, -, -, ⟨-, rfl, -⟩ | ⟨-, rfl, -⟩⟩ | ⟨-, -, rfl⟩ <;> rfl
  | replicator ht =>
      have hfinished := Pool.finished_of_workers hw
      rcases moveReplicator_cases ht with ⟨q, hq, -⟩ | ⟨p, hp, -⟩
      · cases (hfinished.receive id _).symm.trans hq
      · cases (hfinished.busy? _).symm.trans hp
  | startHash ht =>
      refine ⟨hkept (serves_moveStartHash ht).handler ?_, rfl⟩
      rcases moveStartHash_cases ht with ⟨-, rfl⟩ | ⟨-, r, -, rfl⟩ <;> rfl
  | hash ht => exact ⟨hkept rfl rfl, rfl⟩

/-! ### A replay -/

end Runs

end Session

end Bdr.Server
