import Bdr.Server.HashReturns
import Bdr.Server.PowerLoss
import Bdr.System.Consumers

/-!
# System — what is left to be done in a session

Every goroutine of a session but `HandleClient` works off a queue, or a scan.  `work` counts the
moves that are left to them: a packet in a queue takes so many, a block of a scan so many more, and
`HandleClient` may be about to start a scan.  A move of any of them leaves less to do
(`works_move`), and there is never more than a scan and full queues take (`work_le`).

`HandleWritePackets` tries a write until it succeeds.  A write that ends behind the device never
does, and therefore the buffer writes are taken to lie on it.
-/

namespace Bdr

theorem Device.plan_writeAt_le (d : Device) (off : ℕ) (data : List UInt8) :
    (d.writeAt off data).1.plan.length ≤ d.plan.length := by
  unfold writeAt
  split
  · exact le_rfl
  · split
    · exact le_rfl
    · split
      · rename_i hp
        simp [hp]
      · rename_i hp
        simp [hp]
      · simp

/-- A write that lies on the device fails as planned. -/
theorem Device.plan_of_failed {d d' : Device} {off : ℕ} {data : List UInt8}
    (hfits : off + data.length ≤ d.size) (h : d.writeAt off data = (d', .failed)) :
    d'.plan.length < d.plan.length := by
  have hlt := d.size_lt
  rw [writeAt, if_neg (by omega)] at h
  split at h
  · cases h
  · split at h
    · rename_i hp
      cases h
      simp [hp]
    · cases h
    · cases h

end Bdr

namespace Bdr.Server

open Journal

/-! ### What the operations leave of the plan -/

/-- The target has its size, and no more is planned for it than that. -/
structure Spared (size n : ℕ) (m : Machine) : Prop where
  size : m.target.size = size
  plan : m.target.plan.length ≤ n

section Spared
variable {size n : ℕ}

theorem spared_self (m : Machine) : Spared m.target.size m.target.plan.length m := ⟨rfl, le_rfl⟩

theorem Spared.keeps_targetWriteAt (step : ReplayStep) (off : ℕ) (data : List UInt8) :
    Keeps (Spared size n) (targetWriteAt step off data) := by
  intro m h
  have hsize := Device.size_writeAt m.target off data
  have hplan := Device.plan_writeAt_le m.target off data
  rw [Ends, targetWriteAt]
  rcases hw : m.target.writeAt off data with ⟨d, _ | _ | _⟩ <;> rw [hw] at hsize hplan <;>
    exact ⟨hsize.trans h.size, hplan.trans h.plan⟩

theorem Spared.keeps_onJournal {α : Type} (step : ReplayStep) (x : Op α) :
    Keeps (Spared size n) (onJournal step x) := by
  intro m h
  rw [Ends, onJournal]
  rcases x m.journal with ⟨a, j⟩ | ⟨_ | _ | _, j⟩ <;> exact ⟨h.size, h.plan⟩

theorem Spared.keeps_writeBufferWriteToReplica (w : WriteInfo) :
    Keeps (Spared size n) (writeBufferWriteToReplica w) := by
  refine Keeps.bind ?_ fun data => keeps_targetWriteAt _ _ data
  unfold dataToWrite
  split
  · exact Keeps.pure _
  · exact Keeps.throw _

theorem Spared.keeps_writeJournalToReplica : Keeps (Spared size n) writeJournalToReplica := by
  refine (Keeps.ignoreError (keeps_onJournal _ _)).bind fun _ => Keeps.get_bind fun _ => ?_
  refine (Keeps.forM _ fun i _ => ?_).bind fun _ => ?_
  · exact (keeps_onJournal _ _).bind fun b => keeps_targetWriteAt _ _ _
  · refine (Keeps.forM _ fun i _ => ?_).bind fun _ => keeps_onJournal _ _
    exact (keeps_onJournal _ _).bind fun w => keeps_writeBufferWriteToReplica w

/-- What a call that returns leaves of the machine. -/
theorem spared_of_attempt {x : ServerOp Unit} {m : Machine} {r : Machine × Bool}
    (hx : ∀ size n, Keeps (Spared size n) x) (hr : attempt x m = some r) :
    Spared m.target.size m.target.plan.length r.1 :=
  attempt_of_ends (hx _ _ m (spared_self m)) hr

/-- A buffer write that lies on the target and fails was planned to fail. -/
theorem plan_of_retry {w : WriteInfo} {m : Machine} {r : Machine × Bool}
    (hfits : w.patch.offset + w.patch.data.length ≤ m.target.size)
    (h : attempt (writeBufferWriteToReplica w) m = some r) (hr : r.2 = false) :
    r.1.target.plan.length < m.target.plan.length := by
  have hwrite := Session.attempt_writeBufferWrite_eq h
  obtain ⟨d, written, hw, hm, hok⟩ := Session.attempt_targetWriteAt hwrite
  rw [hm]
  cases written with
  | ok => cases hr.symm.trans (hok.mpr rfl)
  | failed => exact Device.plan_of_failed hfits hw
  | dead =>
      rw [attempt, targetWriteAt, hw] at hwrite
      cases hwrite

theorem attempt_onJournal_of_none {step : ReplayStep} {x : Op Unit} {m : Machine}
    (h : attempt x m.journal = none) : attempt (onJournal step x) m = none := by
  unfold attempt at h ⊢
  unfold onJournal
  cases hx : x m.journal with
  | ok a j =>
      rw [hx] at h
      cases h
  | error e j =>
      cases e with
      | err e =>
          rw [hx] at h
          cases h
      | panic | powerLoss => rfl

end Spared

theorem HashDisk.work_setPhase {c : HashConfig} {h : HashDisk} {phase : HashPhase}
    (hlt : phaseWork phase < phaseWork h.phase) :
    work c { h with phase := phase } < h.work c := by
  simp only [work]
  omega

namespace Session

/-! ### Packets and scans -/

/-- A buffer write lies on the target. -/
def Lies (size : ℕ) (packet : Packet) : Prop :=
  ∀ w, packet = .payloadBufferWrite w → w.patch.offset + w.patch.data.length ≤ size

/-- What `HandleWritePackets` has in its hands. -/
def taken : WriteTask → Packet
  | .took packet | .writing packet => packet

/-- What `HandleWritePackets` has been given lies on the target. -/
abbrev QueuesLie (size : ℕ) (s : Session) : Prop :=
  s.writeQueue.All (Lies size) fun t => Lies size (taken t)

/-- The moves of a scan that is about to start. -/
def scanWork (c : HashConfig) : ℕ :=
  HashDisk.work c { HashDisk.start c.numWorkers with phase := .starting }

/-- A scan does not do more than it is started for. -/
structure Scans (c : HashConfig) (h : HashDisk) : Prop where
  ticking : h.Ticking c
  work_le : h.work c ≤ scanWork c

section Scans
variable {c : HashConfig} {h : HashDisk}

theorem Scans.terminate (hs : Scans c h) : Scans c h.terminate :=
  ⟨⟨hs.ticking.sending, hs.ticking.done⟩, hs.work_le⟩

/-- `HashDisk` comes to its next phase. -/
theorem Scans.setPhase (hs : Scans c h) {phase : HashPhase}
    (hlt : HashDisk.phaseWork phase < HashDisk.phaseWork h.phase) :
    Scans c { h with phase := phase } :=
  ⟨⟨hs.ticking.sending, hs.ticking.done⟩, (HashDisk.work_setPhase hlt).le.trans hs.work_le⟩

theorem scans_starting (c : HashConfig) :
    Scans c { HashDisk.start c.numWorkers with phase := .starting } :=
  ⟨⟨by rintro _ ⟨⟩, by rintro ⟨⟩⟩, le_rfl⟩

end Scans

theorem hashConfig_congr {hash : List UInt8 → UInt64} {numWorkers : ℕ} {d d' : Device}
    (h : d.size = d'.size) : hashConfig hash numWorkers d = hashConfig hash numWorkers d' := by
  rw [hashConfig, hashConfig, h]

theorem bounded_hashConfig (hash : List UInt8 → UInt64) (numWorkers : ℕ) (target : Device) :
    HashDisk.Bounded (hashConfig hash numWorkers target) := by
  obtain ⟨hsize, hpos, hlt⟩ := whole_hashConfig hash numWorkers target
  have := target.size_lt
  exact ⟨hpos, by omega⟩

/-! ### What is left to be done -/

def writeWork : WriteTask → ℕ
  | .took _ => 2
  | .writing _ => 1

def journalWork : JournalTask → ℕ
  | .took _ => 3
  | .storing _ => 2
  | .overflowing => 1

/-- The moves that are left to `HandleClient`, and to the goroutines it is about to start. -/
def handlerWork (c : HashConfig) : Handler → ℕ
  | .receiving => 0
  | .settingWriting => 1
  | .writingJournal => 2
  | .enqueueing _ _ => 5
  | .awaitingHash => scanWork c + 1
  | .drainingJournal .startHashing => scanWork c + 4
  | .drainingJournal .hashingCompleted => 4
  | .drainingReplication .startReplication => c.numWorkers + 2
  | .drainingReplication .replicationCompleted => 2

/-- The moves that are left to a session until the next packet, at most.  A write that is planned to
fail is tried once more. -/
def work (c : HashConfig) (s : Session) : ℕ :=
  handlerWork c s.handler + s.writeQueue.cost (fun _ => 3) writeWork +
    s.correctQueue.cost (fun _ => 2) (fun _ => 1) +
    s.journalQueue.cost (fun _ => 4) journalWork +
    s.replicationQueue.cost (fun _ => 2) (fun _ => 1) + s.hashDisk.work c +
    s.machine.target.plan.length

theorem scanWork_eq (c : HashConfig) :
    scanWork c = 14 * HashDisk.blocksFrom c 0 + 3 * c.numWorkers + 8 := by
  have h := HashDisk.work_start c c.numWorkers
  simp only [scanWork, HashDisk.work, HashDisk.start, HashDisk.phaseWork] at h ⊢
  omega

/-- A goroutine other than `HandleClient` has made a move. -/
structure Works (c : HashConfig) (s t : Session) : Prop where
  serves : s.Serves t
  write : s.writeQueue.Goes .took t.writeQueue
  correct : s.correctQueue.Goes id t.correctQueue
  journal : s.journalQueue.Goes .took t.journalQueue
  replication : s.replicationQueue.Goes id t.replicationQueue
  spared : Spared s.machine.target.size s.machine.target.plan.length t.machine
  scans : Scans c s.hashDisk → Scans c t.hashDisk
  queued : ∀ size, s.QueuesLie size → t.QueuesLie size
  work_lt : t.work c < s.work c

section Goroutines
variable {c : HashConfig} {s t : Session} {ps : List Packet} {i : ℕ}

/-- A write that is planned to fail is tried again; the plan is shorter by that outcome. -/
theorem works_moveWriter (hq : s.QueuesLie s.machine.target.size) (hm : s.moveWriter = some t) :
    s.Works c t := by
  have hserves := serves_moveWriter hm
  have hset {task : WriteTask} (hp : s.writeQueue.busy? 0 = some task) (w : Worker WriteTask) :=
    Pool.cost_setWorker (g := fun _ => 3) (f := writeWork) hp w
  have hranging (size : ℕ) (h : s.QueuesLie size) : (s.setWriter .ranging).QueuesLie size :=
    Pool.All.setWorker h (by rintro t ⟨⟩)
  rcases moveWriter_cases hm with ⟨q, hr, rfl⟩ | ⟨p, hp, rfl⟩ | ⟨p, hp, hrest⟩
  · have hcost := Pool.cost_receive (g := fun _ => 3) (f := writeWork) hr fun _ => by
      simp [writeWork]
    refine ⟨hserves, .receive hr, .same, .same, .same, spared_self _, id,
      fun size h => Pool.All.receive h hr fun _ => id, ?_⟩
    simp only [work]
    omega
  · refine ⟨hserves, .set (by split <;> simp), .same, .same, .same, spared_self _, id,
      fun size (h : s.QueuesLie size) => h.setWorker fun t ht => ?_, ?_⟩
    · have hlies : Lies size p := h.of_busy? hp
      split at ht
      · cases ht
        exact hlies
      · cases ht
    · have hcost := hset hp (if s.state = .writing then .busy (.writing p) else .ranging)
      have hnext : (if s.state = .writing then Worker.busy (WriteTask.writing p)
          else .ranging).cost writeWork ≤ 2 := by
        split <;> simp [Worker.cost, writeWork]
      simp only [writeWork] at hcost
      simp only [work, setWriter]
      omega
  · have hcost := hset hp .ranging
    simp only [writeWork, Worker.cost] at hcost
    rcases hrest with ⟨-, rfl⟩ | ⟨w, r, rfl, hr, rfl⟩
    · refine ⟨hserves, .set (by simp), .same, .same, .same, spared_self _, id, hranging, ?_⟩
      simp only [work, setWriter]
      omega
    · have hspared := spared_of_attempt (fun _ _ => Spared.keeps_writeBufferWriteToReplica w) hr
      have hplan := hspared.plan
      cases hok : r.2 with
      | true =>
          simp only [hok, if_true] at hserves ⊢
          refine ⟨hserves, .set (by simp), .same, .same, .same, hspared, id, hranging, ?_⟩
          simp only [work, setWriter]
          omega
      | false =>
          simp only [hok, Bool.false_eq_true, if_false] at hserves ⊢
          have hlt := plan_of_retry (Pool.All.of_busy? hq hp w rfl) hr hok
          refine ⟨hserves, .same, .same, .same, .same, hspared, id, fun _ => id, ?_⟩
          simp only [work]
          omega

theorem works_moveCorrector (hm : s.moveCorrector = some t) : s.Works c t := by
  have hserves := serves_moveCorrector hm
  rcases moveCorrector_cases hm with ⟨q, hq, rfl⟩ | ⟨p, hp, hrest⟩
  · have hcost := Pool.cost_receive (g := fun _ => 2) (f := fun _ => 1) hq fun _ => by simp
    refine ⟨hserves, .same, .receive hq, .same, .same, spared_self _, id, fun _ => id, ?_⟩
    simp only [work]
    omega
  · have hset := Pool.cost_setWorker (g := fun _ => 2) (f := fun _ => 1) hp .ranging
    simp only [Worker.cost] at hset
    rcases hrest with ⟨-, rfl⟩ | ⟨b, r, rfl, hr, rfl⟩
    · refine ⟨hserves, .same, .set (by simp), .same, .same, spared_self _, id, fun _ => id, ?_⟩
      simp only [work, setCorrector]
      omega
    · have hspared := spared_of_attempt (fun _ _ => Spared.keeps_targetWriteAt _ _ _) hr
      have hplan := hspared.plan
      refine ⟨hserves, .same, .set (by simp), .same, .same, hspared, id, fun _ => id, ?_⟩
      simp only [work, setCorrector]
      omega

theorem works_moveReplicator (hm : s.moveReplicator i = some t) : s.Works c t := by
  have hserves := serves_moveReplicator hm
  rcases moveReplicator_cases hm with ⟨q, hq, rfl⟩ | ⟨p, hp, hrest⟩
  · have hcost := Pool.cost_receive (g := fun _ => 2) (f := fun _ => 1) hq fun _ => by simp
    refine ⟨hserves, .same, .same, .same, .receive hq, spared_self _, id, fun _ => id, ?_⟩
    simp only [work]
    omega
  · have hset := Pool.cost_setWorker (g := fun _ => 2) (f := fun _ => 1) hp .ranging
    simp only [Worker.cost] at hset
    rcases hrest with ⟨-, rfl⟩ | ⟨b, r, rfl, hr, rfl⟩
    · refine ⟨hserves, .same, .same, .same, .set (by simp), spared_self _, id, fun _ => id, ?_⟩
      simp only [work, setReplicator]
      omega
    · have hspared := spared_of_attempt (fun _ _ => Spared.keeps_targetWriteAt _ _ _) hr
      have hplan := hspared.plan
      refine ⟨hserves, .same, .same, .same, .set (by simp), hspared, id, fun _ => id, ?_⟩
      simp only [work, setReplicator]
      omega

theorem works_moveJournaler {sent : Sent} (hm : s.moveJournaler sent = some (t, ps)) :
    s.Works c t := by
  have hserves := serves_moveJournaler hm
  have hset {task : JournalTask} (hp : s.journalQueue.busy? 0 = some task)
      (w : Worker JournalTask) :=
    Pool.cost_setWorker (g := fun _ => 4) (f := journalWork) hp w
  rcases moveJournaler_cases hm with ⟨q, hq, rfl, -⟩ | ⟨p, hp, -, rfl⟩ |
    ⟨p, r, hp, -, ⟨-, rfl, -⟩ | ⟨-, rfl, -⟩⟩ | ⟨hp, -, rfl⟩
  · have hcost := Pool.cost_receive (g := fun _ => 4) (f := journalWork) hq fun _ => by
      simp [journalWork]
    refine ⟨hserves, .same, .same, .receive hq, .same, spared_self _, id, fun _ => id, ?_⟩
    simp only [work]
    omega
  · have hcost := hset hp (if s.state = .journalOverflow then .ranging else .busy (.storing p))
    have hnext : (if s.state = .journalOverflow then .ranging
        else Worker.busy (JournalTask.storing p)).cost journalWork ≤ 3 := by
      split <;> simp [Worker.cost, journalWork]
    refine ⟨hserves, .same, .same, .set (by split <;> simp), .same, spared_self _, id,
      fun _ => id, ?_⟩
    simp only [journalWork] at hcost
    simp only [work, setJournaler]
    omega
  · have hcost := hset hp .ranging
    refine ⟨hserves, .same, .same, .set (by simp), .same, ⟨rfl, le_rfl⟩, id, fun _ => id, ?_⟩
    simp only [journalWork, Worker.cost] at hcost
    simp only [work, setJournaler, setJournal]
    omega
  · have hcost := hset hp (.busy .overflowing)
    refine ⟨hserves, .same, .same, .set (by simp), .same, ⟨rfl, le_rfl⟩, id, fun _ => id, ?_⟩
    simp only [journalWork, Worker.cost] at hcost
    simp only [work, setJournaler, setJournal]
    omega
  · have hcost := hset hp .ranging
    refine ⟨hserves, .same, .same, .set (by simp), .same, spared_self _, id, fun _ => id, ?_⟩
    simp only [journalWork, Worker.cost] at hcost
    simp only [work, setJournaler]
    omega

theorem works_moveStartHash (hm : s.moveStartHash = some t) : s.Works c t := by
  have hserves := serves_moveStartHash hm
  rcases moveStartHash_cases hm with ⟨hp, rfl⟩ | ⟨hp, r, -, rfl⟩
  · have hphase : HashDisk.phaseWork
        (if s.state = .destroyingReplica then .announcing else .resetting) <
          HashDisk.phaseWork s.hashDisk.phase := by
      rw [hp]
      split <;> decide
    have hlt := HashDisk.work_setPhase (c := c) hphase
    refine ⟨hserves, .same, .same, .same, .same, spared_self _, fun h => h.setPhase hphase,
      fun _ => id, ?_⟩
    simp only [work, setPhase]
    omega
  · have hphase : HashDisk.phaseWork .announcing < HashDisk.phaseWork s.hashDisk.phase := by
      rw [hp]
      decide
    have hlt := HashDisk.work_setPhase (c := c) hphase
    refine ⟨hserves, .same, .same, .same, .same, ⟨rfl, le_rfl⟩, fun h => h.setPhase hphase,
      fun _ => id, ?_⟩
    simp only [work, setPhase, setJournal]
    omega

/-- A goroutine of `HashDisk` makes a move. -/
theorem works_moveHash (hb : HashDisk.Bounded c) (hscans : Scans c s.hashDisk) {m : HashMove}
    {h' : HashDisk} (hm : s.hashDisk.move c s.machine.target m = some (h', ps)) :
    s.Works c { s with hashDisk := h' } := by
  obtain ⟨hticks, hlt⟩ := hscans.ticking.move hb hm
  refine ⟨serves_of_pools rfl id id id id id, .same, .same, .same, .same, spared_self _,
    fun _ => ⟨hticks, hlt.le.trans hscans.work_le⟩, fun _ => id, ?_⟩
  simp only [work]
  omega

/-- The move of a goroutine that `HandleClient` has started. -/
def ofGoroutine : SessionMove → Bool
  | .receive _ | .handler _ => false
  | _ => true

theorem works_move {hash : List UInt8 → UInt64} {numWorkers : ℕ} {target : Device}
    (hsize : s.machine.target.size = target.size) (hq : s.QueuesLie target.size)
    (hscans : Scans (hashConfig hash numWorkers target) s.hashDisk) {m : SessionMove}
    (hg : ofGoroutine m = true) (hm : s.move hash numWorkers m = some (t, ps)) :
    s.Works (hashConfig hash numWorkers target) t := by
  cases move_cases hm with
  | receive _ => cases hg
  | handler _ => cases hg
  | writer ht => exact works_moveWriter (hsize ▸ hq) ht
  | corrector ht => exact works_moveCorrector ht
  | journaler ht => exact works_moveJournaler ht
  | replicator ht => exact works_moveReplicator ht
  | startHash ht => exact works_moveStartHash ht
  | hash ht =>
      rw [hashConfig_congr hsize] at ht
      exact works_moveHash (bounded_hashConfig hash numWorkers target) hscans ht

end Goroutines

/-! ### How much that is -/

section Bounds
variable {s : Session}

/-- There is only so much to do besides. -/
theorem work_le {c : HashConfig} (hscans : Scans c s.hashDisk)
    (hwrite : s.writeQueue.Within packetQueueSize 1)
    (hcorrect : s.correctQueue.Within packetQueueSize 1)
    (hjournal : s.journalQueue.Within packetQueueSize 1)
    (hreplication : s.replicationQueue.Within packetQueueSize c.numWorkers) :
    s.work c ≤ handlerWork c s.handler + (14 * HashDisk.blocksFrom c 0 + 5 * c.numWorkers + 109 +
      s.machine.target.plan.length) := by
  have hscan := scanWork_eq c
  have hhash := hscans.work_le
  have h₁ := hwrite.cost_le (g := fun _ => 3) (f := writeWork) (G := 3) (F := 2)
    (fun _ => le_rfl) fun t => by cases t <;> simp [writeWork]
  have h₂ := hcorrect.cost_le (g := fun _ => 2) (f := fun _ => 1) (fun _ => le_rfl)
    fun _ => le_rfl
  have h₃ := hjournal.cost_le (g := fun _ => 4) (f := journalWork) (G := 4) (F := 3)
    (fun _ => le_rfl) fun t => by cases t <;> simp [journalWork]
  have h₄ := hreplication.cost_le (g := fun _ => 2) (f := fun _ => 1) (fun _ => le_rfl)
    fun _ => le_rfl
  simp only [packetQueueSize] at h₁ h₂ h₃ h₄
  unfold work
  omega

end Bounds

end Session

end Bdr.Server
