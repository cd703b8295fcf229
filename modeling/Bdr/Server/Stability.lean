import Bdr.Server.HashTiling
import Bdr.Server.Session

/-!
# Server — Stability

Whether the replica stays as it is while it is hashed for a scan with journal.  Three goroutines
write to the replica besides `WriteJournalToReplica`: `HandleWritePackets`, which looks at the state
before it writes but not while it does, `HandleCorrectPackets` and `HandleReplicationPackets`, which
do not look at it.  Nothing waits for them when a scan starts.

So a buffer write that was queued before `CmdStartHashing` may be written while the blocks are
read, or, if its turn comes late, after the journal has been applied.  It cannot if the queues are
empty when the scan starts (`stable_of_careful`).
-/

namespace Bdr.Server

open Journal

/-- How far the last `CmdStartHashing` has got: it has been received, and its `HashDisk` has been
started. -/
inductive ScanStage where
  | none
  | requested
  | started
  deriving DecidableEq, Repr

/-- A session and its last scan with journal.  `reading`: the scan has read a block, and
`WriteJournalToReplica` has not begun since.  Of the buffer writes that `HandleWritePackets` still
has to do with, the first `old` were queued before the last `CmdStartHashing`, and the first `stale`
before one whose `HashDisk` has read a block. -/
structure ScanWatch where
  session : Session
  stage : ScanStage
  reading : Bool
  old : ℕ
  stale : ℕ

/-- The packets that `HandleWritePackets` still has to do with. -/
def Session.unwritten (s : Session) : ℕ :=
  s.writeQueue.queue.length + if (s.writeQueue.busy? 0).isSome then 1 else 0

/-- The move is a write to the target, other than one of `WriteJournalToReplica`. -/
def Session.writesTarget (s : Session) : SessionMove → Bool
  | .writer =>
      match s.writeQueue.busy? 0 with
      | some (.writing (.payloadBufferWrite _)) => true
      | _ => false
  | .corrector =>
      match s.correctQueue.busy? 0 with
      | some (.payloadCorrectBlock _) => true
      | _ => false
  | .replicator i =>
      match s.replicationQueue.busy? i with
      | some (.payloadReplicationBlock _) => true
      | _ => false
  | _ => false

/-- The move reads a block of the target. -/
def Session.readsBlock (s : Session) : SessionMove → Bool
  | .hash (.reader i _) =>
      match s.hashDisk.readers.busy? i with
      | some (.reading _) => true
      | _ => false
  | _ => false

namespace ScanWatch

def start (machine : Machine) : ScanWatch := ⟨.start machine, .none, false, 0, 0⟩

/-- What is to be remembered after a move that has led to `s'`. -/
def after (w : ScanWatch) (s' : Session) (m : SessionMove) : ScanWatch :=
  let s := w.session
  let w' := { w with session := s' }
  match m with
  | .receive .cmdStartHashing => { w' with stage := .requested, old := s.unwritten }
  | .handler _ =>
      match s.handler with
      | .awaitingHash => { w' with stage := if w.stage = .requested then .started else .none }
      | .writingJournal =>
          if s.state = .destroyingReplica then w'
          else { w' with
            reading := false
            -- a `HashDisk` that has returned reads no more
            stage := if s.hashDisk.phase = .returned then .none else w.stage }
      | _ => w'
  | .hash _ =>
      if s.readsBlock m = true ∧ w.stage = .started then
        { w' with reading := true, stale := w.old }
      else w'
  | .writer =>
      if (s.writeQueue.busy? 0).isSome ∧ s'.writeQueue.busy? 0 = Option.none then
        { w' with old := w.old - 1, stale := w.stale - 1 }
      else w'
  | _ => w'

def step (hash : List UInt8 → UInt64) (numWorkers : ℕ) (w : ScanWatch) (m : SessionMove) :
    Option ScanWatch :=
  (w.session.move hash numWorkers m).map fun r => w.after r.1 m

/-- Nothing is written to the target between the first block read by a scan and
`WriteJournalToReplica`, and no write that is older than such a scan is written at all. -/
def Stable (w : ScanWatch) : Prop :=
  (w.reading = true → ∀ m, w.session.writesTarget m = false) ∧
    (0 < w.stale → w.session.writesTarget .writer = false)

/-- A scan starts when nothing is on its way to the target, no other recovery starts or ends while
it goes on, and the client reports its end only after `HashDisk` has. -/
def careful (w : ScanWatch) : SessionMove → Prop
  | .receive .cmdStartHashing =>
      w.session.writeQueue.Idle ∧ w.session.correctQueue.Idle ∧ w.session.replicationQueue.Finished
  | .receive .infoHashingCompleted => w.stage ≠ .none → w.session.hashDisk.phase = .returned
  | .receive .cmdStartFullScan | .receive .infoStartReplication
  | .receive .infoReplicationCompleted => w.stage = .none
  | _ => True

instance (w : ScanWatch) (m : SessionMove) : Decidable (w.careful m) := by
  unfold careful
  split <;> infer_instance

end ScanWatch

/-! ### While a scan goes on -/

/-- Where `HandleClient` may be during a scan. -/
def Handler.Scanning (phase : HashPhase) : Handler → Prop
  | .receiving | .awaitingHash | .drainingJournal .startHashing => True
  | .enqueueing queue _ => queue = .journal ∨ queue = .replication
  | .drainingJournal .hashingCompleted | .writingJournal => phase = .returned
  | _ => False

/-- Nothing is on its way to the target, and nothing will be. -/
structure Undisturbed (s : Session) : Prop where
  writer : s.writeQueue.Idle
  corrector : s.correctQueue.Idle
  replicators : s.replicationQueue.Finished
  state : s.state = .hashing ∨ s.state = .journalOverflow
  handler : s.handler.Scanning s.hashDisk.phase

section Undisturbed
variable {hash : List UInt8 → UInt64} {numWorkers : ℕ} {s s' : Session} {ps : List Packet}
variable {sent : Sent}

theorem Undisturbed.writesTarget (h : Undisturbed s) (m : SessionMove) :
    s.writesTarget m = false := by
  cases m with
  | writer => simp only [Session.writesTarget, h.writer.busy? 0]
  | corrector => simp only [Session.writesTarget, h.corrector.busy? 0]
  | replicator i => simp only [Session.writesTarget, h.replicators.busy? i]
  | receive p | handler sent | journaler sent | startHash | hash m => rfl

theorem Undisturbed.unwritten (h : Undisturbed s) : s.unwritten = 0 := by
  have hq : s.writeQueue.queue = [] := List.eq_nil_iff_forall_not_mem.mpr h.writer.queue
  simp [Session.unwritten, hq, h.writer.busy? 0]

/-- The start of a scan. -/
theorem undisturbed_receive (hw : s.writeQueue.Idle) (hc : s.correctQueue.Idle)
    (hr : s.replicationQueue.Finished) : Undisturbed (s.receive .cmdStartHashing) :=
  ⟨hw, hc, hr, .inl rfl, trivial⟩

theorem Undisturbed.enqueueing (h : Undisturbed s) {queue : Queue} {p : Packet}
    (hq : queue = .journal ∨ queue = .replication) :
    Undisturbed { s with handler := .enqueueing queue p } :=
  { h with handler := hq }

/-- A packet that starts or ends no other recovery. -/
theorem Undisturbed.receive (h : Undisturbed s) {p : Packet}
    (hp : p ≠ .cmdStartHashing ∧ p ≠ .cmdStartFullScan ∧ p ≠ .infoStartReplication ∧
      p ≠ .infoReplicationCompleted)
    (hend : p = .infoHashingCompleted → s.hashDisk.phase = .returned) :
    Undisturbed (s.receive p) := by
  obtain ⟨h₁, h₂, h₃, h₄⟩ := hp
  cases p with
  | cmdStartHashing => exact absurd rfl h₁
  | cmdStartFullScan => exact absurd rfl h₂
  | infoStartReplication => exact absurd rfl h₃
  | infoReplicationCompleted => exact absurd rfl h₄
  | infoHashingCompleted => exact { h with handler := hend rfl }
  | payloadBufferWrite w =>
      rcases h.state with hst | hst
      · simpa only [Session.receive, route, hst] using h.enqueueing (.inl rfl)
      · simpa only [Session.receive, route, hst] using h
  | payloadCorrectBlock b =>
      rcases h.state with hst | hst
      · simpa only [Session.receive, route, hst] using h.enqueueing (.inl rfl)
      · simpa only [Session.receive, route, hst] using h
  | payloadReplicationBlock b => exact h.enqueueing (.inr rfl)
  | _ => exact h

/-- `HandleClient` goes on: the scan does too, until the journal is written. -/
theorem Undisturbed.moveHandler (h : Undisturbed s)
    (hm : s.moveHandler numWorkers sent = some (s', ps)) :
    Undisturbed s' ∨ s.handler = .writingJournal := by
  have hscan := h.handler
  cases Session.moveHandler_cases hm with
  | enqueued hh he =>
      rw [hh] at hscan
      rcases hscan with rfl | rfl
      · obtain ⟨q, -, rfl⟩ := Option.map_eq_some_iff.mp he
        exact .inl { h with handler := trivial }
      · obtain ⟨q, hq, rfl⟩ := Option.map_eq_some_iff.mp he
        obtain ⟨-, rfl⟩ := Pool.send_eq_some.mp hq
        exact .inl { h with replicators := h.replicators, handler := trivial }
  | journalDrained | hashStarted => exact .inl { h with handler := trivial }
  | scanDrained hh =>
      rw [hh] at hscan
      exact .inl { h with handler := hscan }
  | journalSkipped hh | journalWritten hh => exact .inr hh
  | writingSet hh | replicationStarted hh | replicationEnded hh =>
      rw [hh] at hscan
      exact hscan.elim

theorem Undisturbed.moveWriter (h : Undisturbed s) (hm : s.moveWriter = some s') :
    Undisturbed s' := by
  rcases Session.moveWriter_cases hm with ⟨q, hq, rfl⟩ | ⟨p, hp, -⟩ | ⟨p, hp, -⟩
  · exact { h with writer := h.writer.receive hq }
  · exact (h.writer.of_busy? hp).elim
  · exact (h.writer.of_busy? hp).elim

theorem Undisturbed.moveCorrector (h : Undisturbed s) (hm : s.moveCorrector = some s') :
    Undisturbed s' := by
  rcases Session.moveCorrector_cases hm with ⟨q, hq, rfl⟩ | ⟨p, hp, -⟩
  · exact { h with corrector := h.corrector.receive hq }
  · exact (h.corrector.of_busy? hp).elim

theorem Undisturbed.moveReplicator (h : Undisturbed s) {i : ℕ}
    (hm : s.moveReplicator i = some s') : Undisturbed s' := by
  rcases Session.moveReplicator_cases hm with ⟨q, hq, -⟩ | ⟨p, hp, -⟩
  · rw [h.replicators.receive] at hq
    cases hq
  · rw [h.replicators.busy?] at hp
    cases hp

theorem Undisturbed.moveJournaler (h : Undisturbed s)
    (hm : s.moveJournaler sent = some (s', ps)) : Undisturbed s' := by
  rcases Session.moveJournaler_cases hm with ⟨q, -, rfl, -⟩ | ⟨p, -, -, rfl⟩ |
    ⟨p, a, -, -, ⟨-, rfl, -⟩ | ⟨-, rfl, -⟩⟩ | ⟨-, -, rfl⟩
  · exact { h with }
  · exact { h with }
  · exact { h with }
  · exact { h with }
  · exact { h with state := .inr rfl }

/-- A `HashDisk` that has not returned may go on. -/
theorem Undisturbed.withHashDisk (h : Undisturbed s) {d : HashDisk} {j : Journal}
    (hp : s.hashDisk.phase ≠ .returned) :
    Undisturbed { s with hashDisk := d, machine := { s.machine with journal := j } } := by
  refine { h with handler := ?_ }
  have hh := h.handler
  cases hs : s.handler with
  | drainingJournal k =>
      cases k with
      | startHashing => trivial
      | hashingCompleted =>
          rw [hs] at hh
          exact absurd hh hp
  | writingJournal =>
      rw [hs] at hh
      exact absurd hh hp
  | receiving | awaitingHash => trivial
  | enqueueing queue p =>
      rw [hs] at hh
      exact hh
  | settingWriting | drainingReplication k =>
      rw [hs] at hh
      exact hh.elim

theorem Undisturbed.moveStartHash (h : Undisturbed s) (hm : s.moveStartHash = some s') :
    Undisturbed s' := by
  rcases Session.moveStartHash_cases hm with ⟨hp, rfl⟩ | ⟨hp, a, -, rfl⟩
  · exact h.withHashDisk (j := s.machine.journal) (by rw [hp]; decide)
  · exact h.withHashDisk (j := a.1) (by rw [hp]; decide)

theorem Undisturbed.moveHash (h : Undisturbed s) {m : HashMove} {c : HashConfig} {target : Device}
    {d : HashDisk} (hm : s.hashDisk.move c target m = some (d, ps)) :
    Undisturbed { s with hashDisk := d } := by
  refine h.withHashDisk (j := s.machine.journal) fun hret => ?_
  rw [HashDisk.move_of_returned hret] at hm
  cases hm

/-- Only the start of a recovery makes `HandleClient` wait for another scan. -/
theorem receive_handler (hs : s.handler = .receiving) {p : Packet} (h₁ : p ≠ .cmdStartHashing)
    (h₂ : p ≠ .cmdStartFullScan) : (s.receive p).handler ≠ .awaitingHash ∧
      (s.receive p).handler ≠ .drainingJournal .startHashing := by
  have henq : ∀ q : Packet, Session.IsControl q = false → (s.receive q).handler ≠ .awaitingHash ∧
      (s.receive q).handler ≠ .drainingJournal .startHashing := by
    intro q hq
    rcases Session.receive_of_data hq s with ⟨queue, -, hr⟩ | ⟨-, hr⟩
    · simp [hr]
    · simp [hr, hs]
  cases p with
  | cmdStartHashing => exact absurd rfl h₁
  | cmdStartFullScan => exact absurd rfl h₂
  | infoHashingCompleted | infoReplicationCompleted | infoStartReplication =>
      simp [Session.receive]
  | _ => exact henq _ rfl

/-- Where `HandleClient` is after a move. -/
theorem moveHandler_handler (hm : s.moveHandler numWorkers sent = some (s', ps)) :
    (s.handler = .awaitingHash → s'.handler = .receiving) ∧
      (s.handler ≠ .drainingJournal .startHashing → s'.handler ≠ .awaitingHash ∧
        s'.handler ≠ .drainingJournal .startHashing) := by
  cases Session.moveHandler_cases hm with
  | journalDrained hh => simp [hh]
  | scanDrained hh | journalSkipped hh | journalWritten hh => simp [hh]
  | _ => simp

theorem handler_moveJournaler (hm : s.moveJournaler sent = some (s', ps)) :
    s'.handler = s.handler := by
  rcases Session.moveJournaler_cases hm with ⟨q, -, rfl, -⟩ | ⟨p, -, -, rfl⟩ |
    ⟨p, a, -, -, ⟨-, rfl, -⟩ | ⟨-, rfl, -⟩⟩ | ⟨-, -, rfl⟩ <;> rfl

end Undisturbed

/-! ### Whole runs -/

namespace ScanWatch

/-- No write is older than the scan; while it goes on nothing disturbs it, and `HandleClient` waits
for no other. -/
structure Calm (w : ScanWatch) : Prop where
  old : w.old = 0
  stale : w.stale = 0
  reading : w.reading = true → w.stage ≠ .none
  scan : w.stage ≠ .none → Undisturbed w.session
  starting : w.stage = .started → w.session.handler ≠ .awaitingHash ∧
    w.session.handler ≠ .drainingJournal .startHashing

section Runs
variable {hash : List UInt8 → UInt64} {numWorkers : ℕ} {w w' : ScanWatch} {s' : Session}

theorem Calm.stable (h : Calm w) : w.Stable := by
  refine ⟨fun hr => (h.scan (h.reading hr)).writesTarget, fun hs => ?_⟩
  rw [h.stale] at hs
  cases hs

/-- A move after which nothing else is to be remembered. -/
theorem Calm.keep (h : Calm w) (hs : Undisturbed w.session → Undisturbed s')
    (hh : s'.handler = w.session.handler) : Calm { w with session := s' } :=
  ⟨h.old, h.stale, h.reading, fun hst => hs (h.scan hst), by rw [hh]; exact h.starting⟩

theorem Calm.receive (h : Calm w) {p : Packet} (hc : w.careful (.receive p))
    (hs : w.session.handler = .receiving) :
    Calm (w.after (w.session.receive p) (.receive p)) := by
  by_cases h₁ : p = .cmdStartHashing
  · subst h₁
    obtain ⟨hw, hcor, hr⟩ := hc
    have hu := undisturbed_receive hw hcor hr
    refine ⟨?_, h.stale, fun _ => by simp [after], fun _ => hu, by simp [after]⟩
    have hq : w.session.writeQueue.queue = [] := List.eq_nil_iff_forall_not_mem.mpr hw.queue
    simp [after, Session.unwritten, hq, hw.busy? 0]
  · have hafter : w.after (w.session.receive p) (.receive p) =
        { w with session := w.session.receive p } := by
      cases p <;> first | rfl | exact absurd rfl h₁
    have hfull : w.stage ≠ .none → p ≠ .cmdStartFullScan := by
      rintro hst rfl
      exact hst hc
    rw [hafter]
    refine ⟨h.old, h.stale, h.reading, fun hst => ?_, fun hst => ?_⟩
    · refine (h.scan hst).receive ⟨h₁, hfull hst, ?_, ?_⟩ ?_
      · rintro rfl
        exact hst hc
      · rintro rfl
        exact hst hc
      · rintro rfl
        exact hc hst
    · exact receive_handler hs h₁ (hfull (by rw [hst]; decide))

theorem Calm.moveHandler (h : Calm w) {sent : Sent} {ps : List Packet}
    (hm : w.session.moveHandler numWorkers sent = some (s', ps)) :
    Calm (w.after s' (.handler sent)) := by
  by_cases hwj : w.session.handler = .writingJournal
  · simp only [after, hwj]
    split
    · rename_i hst
      have hnone : w.stage = .none := by
        by_contra hs
        rcases (h.scan hs).state with hh | hh <;> simp [hh] at hst
      exact ⟨h.old, h.stale, h.reading, fun hs => absurd hnone hs, fun hs => by simp [hnone] at hs⟩
    · -- the journal is written only when `HashDisk` has returned
      have hnone : (if w.session.hashDisk.phase = .returned then ScanStage.none else w.stage) =
          .none := by
        by_cases hstage : w.stage = .none
        · simp [hstage]
        · have hret := (h.scan hstage).handler
          rw [hwj] at hret
          exact if_pos hret
      rw [hnone]
      exact ⟨h.old, h.stale, by rintro ⟨⟩, fun hs => absurd rfl hs, by rintro ⟨⟩⟩
  · have hu : Undisturbed w.session → Undisturbed s' := fun hu =>
      (hu.moveHandler hm).resolve_right hwj
    have hnext := moveHandler_handler hm
    cases hs : w.session.handler with
    | awaitingHash =>
        simp only [after, hs]
        -- the one that is waited for is the scan's own
        cases hst : w.stage with
        | none =>
            refine ⟨h.old, h.stale, fun hr => absurd hst (h.reading hr), ?_, ?_⟩
            · exact fun hs => absurd rfl hs
            · rintro ⟨⟩
        | requested =>
            have := hu (h.scan (by rw [hst]; decide))
            exact ⟨h.old, h.stale, fun _ => by simp, fun _ => this, fun _ => by
              rw [hnext.1 hs]; decide⟩
        | started => exact absurd hs (h.starting hst).1
    | writingJournal => exact absurd hs hwj
    | receiving | enqueueing queue p | drainingJournal k | settingWriting
    | drainingReplication k =>
        simp only [after, hs]
        refine ⟨h.old, h.stale, h.reading, fun hst => hu (h.scan hst), fun hst => ?_⟩
        exact hnext.2 (h.starting hst).2

theorem Calm.step (h : Calm w) {m : SessionMove} (hc : w.careful m)
    (hm : w.step hash numWorkers m = some w') : Calm w' := by
  obtain ⟨⟨s', ps⟩, hmove, rfl⟩ := Option.map_eq_some_iff.mp hm
  cases Session.move_cases hmove with
  | receive hs => exact h.receive hc hs
  | handler hs' => exact h.moveHandler hs'
  | journaler hs' => exact h.keep (·.moveJournaler hs') (handler_moveJournaler hs')
  | writer hs' =>
      have hk : Calm { w with session := s' } :=
        h.keep (·.moveWriter hs') (Session.frame_moveWriter hs').handler
      simp only [after]
      split
      · exact { hk with
          old := by simp [h.old]
          stale := by simp [h.stale] }
      · exact hk
  | corrector hs' => exact h.keep (·.moveCorrector hs') (Session.frame_moveCorrector hs').handler
  | replicator hs' => exact h.keep (·.moveReplicator hs') (Session.frame_moveReplicator hs').handler
  | startHash hs' => exact h.keep (·.moveStartHash hs') (Session.frame_moveStartHash hs').handler
  | @hash _ d _ hs' =>
      have hk : Calm { w with session := { w.session with hashDisk := d } } :=
        h.keep (·.moveHash hs') rfl
      simp only [after]
      split
      · rename_i hread
        exact { hk with
          stale := h.old
          reading := fun _ => by simp [hread.2] }
      · exact hk

/-- **The replica is stable during a scan** in every run in which a scan starts when nothing is on
its way to the target, no other recovery starts or ends while it goes on, and the client reports
its end only after `HashDisk` has. -/
theorem stable_of_careful {machine : Machine} {moves : List SessionMove}
    (hrun : Run (step hash numWorkers) careful (start machine) moves w) : w.Stable := by
  have h₀ : Calm (start machine) :=
    ⟨rfl, rfl, by rintro ⟨⟩, fun hs => absurd rfl hs, by rintro ⟨⟩⟩
  exact (hrun.invariant (fun _ _ _ hw hc hm => hw.step hc hm) h₀).stable

end Runs

/-! ### One buffer write -/

/-- A scan of a target of one byte, until its block is read. -/
def scanOneByte : List SessionMove :=
  [.receive .cmdStartHashing, .handler .ok, .handler .ok, .startHash, .startHash,
    .hash (.announce .ok), .hash .generator, .hash .generator, .hash (.reader 0 false),
    .hash (.reader 0 false), .hash (.reader 0 false)]

/-- A buffer write is received and written. -/
def writeOneByte : List SessionMove :=
  [.receive (.payloadBufferWrite ⟨0, 1, [5]⟩), .handler .ok, .writer, .writer, .writer]

theorem stable_of_careful_oneByte : ∃ w,
    Run (step (fun _ => 3) 1) careful (start tightMachine) (writeOneByte ++ scanOneByte) w ∧
      w.reading = true ∧ w.Stable := by
  obtain ⟨w, hw, hr⟩ := exists_exec (P := fun w : ScanWatch => w.reading)
    (show (exec (guarded (step (fun _ => 3) 1) careful) (start tightMachine)
      (writeOneByte ++ scanOneByte)).any _ = true by decide +kernel)
  have hrun := Run.of_exec_guarded hw
  exact ⟨w, hrun, hr, stable_of_careful hrun⟩

/-- The write has been taken from the queue, and the state looked at, before the scan starts: it is
written after the block has been read. -/
theorem not_stable_of_taken_write : ∃ w,
    exec (step (fun _ => 3) 1) (start tightMachine) (writeOneByte.take 4 ++ scanOneByte) = some w ∧
      w.reading = true ∧ w.session.writesTarget .writer = true ∧ ¬ w.Stable := by
  obtain ⟨w, hw, hr⟩ := exists_exec (P := fun w : ScanWatch =>
      w.reading && w.session.writesTarget .writer)
    (show (exec (step (fun _ => 3) 1) (start tightMachine)
      (writeOneByte.take 4 ++ scanOneByte)).any _ = true by decide +kernel)
  obtain ⟨hr, ht⟩ := Bool.and_eq_true_iff.mp hr
  exact ⟨w, hw, hr, ht, fun h => by simp [h.1 hr] at ht⟩

end ScanWatch

end Bdr.Server
