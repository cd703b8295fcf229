import Bdr.System.Responsive

/-!
# System — a client hangs up

`HandleConnections` accepts the next client when `HandleClient` has returned.  When its connection
is closed, `HandleClient` terminates the scan, closes the queues of the journal and of the
replication, and its deferred calls wait for the goroutines there, one after the other.

* `Daemon.hangUp_returns`: they always end; in whatever order the goroutines of the session, and
  those that earlier sessions have left behind, make their moves.
* `Daemon.serves_nobody`: but a `HandleClient` that is stuck does not notice that its connection is
  closed.  No client is accepted any more.
-/

namespace Bdr.Server

open Journal

/-! ### The size of the target -/

section Size
variable {size n : ℕ} {hash : List UInt8 → UInt64} {numWorkers : ℕ} {s t : Session}
variable {m : SessionMove} {ps : List Packet}

theorem Spared.keeps_write (r : Round) : Keeps (Spared size n) r.write := by
  cases r with
  | validate => exact Keeps.ignoreError (keeps_onJournal _ _)
  | correctBlock i => exact (keeps_onJournal _ _).bind fun b => keeps_targetWriteAt _ _ _
  | bufferWrite i =>
      exact (keeps_onJournal _ _).bind fun w => keeps_writeBufferWriteToReplica w
  | invalidate => exact keeps_onJournal _ _

theorem Spared.keeps_copy (r : Round) : Keeps (Spared size n) r.copy := by
  cases r with
  | validate => exact Keeps.pure _
  | correctBlock i =>
      exact (keeps_onJournal _ _).bind fun b => Keeps.ignoreError (keeps_targetWriteAt _ _ _)
  | bufferWrite i =>
      exact (keeps_onJournal _ _).bind fun w =>
        Keeps.ignoreError (keeps_writeBufferWriteToReplica w)
  | invalidate => exact Keeps.ignoreError (keeps_onJournal _ _)

theorem Spared.keeps_operation {x : ServerOp Unit} (h : s.operation m = some x) :
    Keeps (Spared size n) x := by
  unfold Session.operation at h
  split at h
  · split at h <;> cases h
    exact keeps_writeBufferWriteToReplica _
  · split at h <;> cases h
    exact keeps_targetWriteAt _ _ _
  · split at h <;> cases h
    exact keeps_onJournal _ _
  · split at h <;> cases h
    exact keeps_targetWriteAt _ _ _
  · split at h <;> cases h
    exact keeps_onJournal _ _
  · cases h

theorem Session.size_wreck {machine : Machine} (h : s.wreck m = some machine) :
    machine.target.size = s.machine.target.size := by
  obtain ⟨x, hx, h⟩ := Option.bind_eq_some_iff.mp h
  have hends := Spared.keeps_operation hx _ (spared_self s.machine)
  unfold Ends at hends
  split at h
  · cases h
  · cases h
  · rename_i hne heq
    cases h
    rw [heq] at hends
    exact hends.size

/-- What a goroutine of an earlier session leaves of the target. -/
theorem Session.spared_leftover (hm : m = .writer ∨ m = .corrector)
    (h : s.move hash numWorkers m = some (t, ps)) :
    Spared s.machine.target.size s.machine.target.plan.length t.machine := by
  rcases hm with rfl | rfl
  · obtain ⟨s₁, hs, heq⟩ := Option.map_eq_some_iff.mp h
    cases heq
    rcases moveWriter_cases hs with ⟨q, -, rfl⟩ | ⟨p, -, rfl⟩ |
      ⟨p, -, ⟨-, rfl⟩ | ⟨w, r, -, hr, rfl⟩⟩
    · exact spared_self _
    · exact spared_self _
    · exact spared_self _
    · have hspared := spared_of_attempt (fun _ _ => Spared.keeps_writeBufferWriteToReplica w) hr
      split <;> exact hspared
  · obtain ⟨s₁, hs, heq⟩ := Option.map_eq_some_iff.mp h
    cases heq
    rcases moveCorrector_cases hs with ⟨q, -, rfl⟩ | ⟨p, -, ⟨-, rfl⟩ | ⟨b, r, -, hr, rfl⟩⟩
    · exact spared_self _
    · exact spared_self _
    · exact spared_of_attempt (fun _ _ => Spared.keeps_targetWriteAt _ _ _) hr

end Size

namespace Session

/-! ### A session that ends -/

/-- What holds of a session that ends: the goroutines that are waited for find their channels
closed. -/
structure Returning (hash : List UInt8 → UInt64) (numWorkers : ℕ) (target : Device)
    (s : Session) : Prop where
  handler : s.handler = .receiving
  write : s.writeQueue.Within packetQueueSize 1
  correct : s.correctQueue.Within packetQueueSize 1
  journal : s.journalQueue.Within packetQueueSize 1
  replication : s.replicationQueue.Within packetQueueSize numWorkers
  journalClosed : s.journalQueue.closed = true
  replicationClosed : s.replicationQueue.closed = true
  size : s.machine.target.size = target.size
  scans : Scans (hashConfig hash numWorkers target) s.hashDisk
  queued : s.QueuesLie target.size

section Returning
variable {hash : List UInt8 → UInt64} {numWorkers : ℕ} {target : Device} {s t : Session}

theorem Manned.returning (h : s.Manned hash numWorkers target) (hh : s.handler = .receiving) :
    ({ s with
      hashDisk := s.hashDisk.terminate
      journalQueue := s.journalQueue.close
      replicationQueue := s.replicationQueue.close } : Session).Returning hash numWorkers target :=
  ⟨hh, h.write, h.correct, h.journal.close, h.replication.close, rfl, rfl, h.size,
    h.scans.terminate, h.queued⟩

theorem Returning.works (h : s.Returning hash numWorkers target)
    (hw : s.Works (hashConfig hash numWorkers target) t) :
    t.Returning hash numWorkers target where
  handler := hw.serves.handler.trans h.handler
  write := h.write.goes hw.write
  correct := h.correct.goes hw.correct
  journal := h.journal.goes hw.journal
  replication := h.replication.goes hw.replication
  journalClosed := (Pool.closed_goes hw.journal).trans h.journalClosed
  replicationClosed := (Pool.closed_goes hw.replication).trans h.replicationClosed
  size := hw.spared.size.trans h.size
  scans := hw.scans h.scans
  queued := hw.queued _ h.queued

/-- `HandleClient` is at its deferred calls: the others go on. -/
theorem Returning.move (h : s.Returning hash numWorkers target) {m : SessionMove}
    {ps : List Packet} (hinner : isInner m = true)
    (hm : s.move hash numWorkers m = some (t, ps)) : t.Returning hash numWorkers target ∧
      t.work (hashConfig hash numWorkers target) < s.work (hashConfig hash numWorkers target) := by
  cases m with
  | receive packet => cases hinner
  | handler sent =>
      have hnone : s.moveHandler numWorkers sent = none := by simp only [moveHandler, h.handler]
      cases hnone.symm.trans hm
  | writer | corrector | journaler | replicator | startHash | hash =>
      have hw := works_move h.size h.queued h.scans rfl hm
      exact ⟨h.works hw, hw.work_lt⟩

/-- Another goroutine uses the target. -/
theorem Returning.setMachine (h : s.Returning hash numWorkers target) {machine : Machine}
    (hs : Spared s.machine.target.size s.machine.target.plan.length machine) :
    ({ s with machine := machine } : Session).Returning hash numWorkers target ∧
      ({ s with machine := machine } : Session).work (hashConfig hash numWorkers target) ≤
        s.work (hashConfig hash numWorkers target) := by
  have hplan := hs.plan
  refine ⟨⟨h.handler, h.write, h.correct, h.journal, h.replication, h.journalClosed,
    h.replicationClosed, hs.size.trans h.size, h.scans, h.queued⟩, ?_⟩
  simp only [work]
  omega

theorem Manned.setMachine (h : s.Manned hash numWorkers target) {machine : Machine}
    (hs : machine.target.size = s.machine.target.size) :
    ({ s with machine := machine } : Session).Manned hash numWorkers target where
  attending := by
    have hserves : s.Serves { s with machine := machine } :=
      serves_of_pools rfl id id id id id
    exact h.attending.serves hserves.aside
  write := h.write
  correct := h.correct
  journal := h.journal
  replication := h.replication
  isOpen := h.isOpen
  journalClosed := h.journalClosed
  replicationClosed := h.replicationClosed
  size := hs.trans h.size
  scans := h.scans
  queued := h.queued
  held := h.held

/-- `WriteJournalToReplica` has returned. -/
theorem Manned.settingWriting (h : s.Manned hash numWorkers target)
    (hh : s.handler = .writingJournal) :
    ({ s with handler := .settingWriting } : Session).Manned hash numWorkers target := by
  have ha := h.attending
  rw [aside_of_ne (by simp [hh])] at ha
  exact manned_of_settled rfl (ha.goesOn rfl rfl (fun _ => .inl rfl) (by simp)) h.write h.correct
    h.journal h.replication (h.isOpen (by simp [hh])) h.size h.scans h.queued

/-- An operation that is not ignored brings the server down. -/
theorem wreck_of_none {m : SessionMove} (hg : ofGoroutine m = true)
    (h : attempt (s.operating m) s.machine = none) : ∃ machine, s.wreck m = some machine := by
  have hop : s.operating m = (s.operation m).getD (pure ()) := by
    cases m with
    | receive | handler => cases hg
    | writer | corrector | journaler | replicator | startHash | hash => rfl
  rw [hop] at h
  unfold wreck
  cases hx : s.operation m with
  | none =>
      rw [hx] at h
      cases h
  | some x =>
      rw [hx] at h
      unfold attempt at h
      simp only [Option.getD_some, Option.bind_some] at h ⊢
      cases hr : x s.machine with
      | ok u machine =>
          rw [hr] at h
          cases h
      | error e machine =>
          cases e with
          | err e =>
              rw [hr] at h
              cases h
          | panic | powerLoss => exact ⟨machine, rfl⟩

end Returning

end Session

namespace Daemon

open Session (isInner ofGoroutine accepts)

/-! ### The server -/

/-- The packets that a session receives lie on the target. -/
def admits (size : ℕ) : DaemonMove → Prop
  | .session m => accepts size m
  | _ => True

/-- There is a session, and `HandleClient` has not left it. -/
def hosts : Phase → Bool
  | .serving | .replaying _ | .returning _ => true
  | _ => false

/-- What holds of the server, whatever clients it has had. -/
structure Upheld (hash : List UInt8 → UInt64) (numWorkers : ℕ) (target : Device) (d : Daemon) :
    Prop where
  size : d.session.machine.target.size = target.size
  serving : d.phase = .serving → d.session.Manned hash numWorkers target
  replaying : ∀ rest, d.phase = .replaying rest →
    d.session.Manned hash numWorkers target ∧ d.session.handler = .writingJournal
  returning : ∀ stage, d.phase = .returning stage → d.session.Returning hash numWorkers target

section Upheld
variable {hash : List UInt8 → UInt64} {numWorkers : ℕ} {target : Device} {d d' : Daemon}

theorem upheld_of_hosts (hp : hosts d.phase = false)
    (hsize : d.session.machine.target.size = target.size) : d.Upheld hash numWorkers target := by
  refine ⟨hsize, fun h => ?_, fun rest h => ?_, fun stage h => ?_⟩ <;>
    (rw [h] at hp; cases hp)

theorem upheld_serving (hp : d.phase = .serving)
    (h : d.session.Manned hash numWorkers target) : d.Upheld hash numWorkers target := by
  refine ⟨h.size, fun _ => h, fun rest hr => ?_, fun stage hr => ?_⟩ <;> cases hp.symm.trans hr

theorem upheld_replaying {rest : List Round} (hp : d.phase = .replaying rest)
    (h : d.session.Manned hash numWorkers target) (hh : d.session.handler = .writingJournal) :
    d.Upheld hash numWorkers target := by
  refine ⟨h.size, fun hr => ?_, fun _ _ => ⟨h, hh⟩, fun stage hr => ?_⟩ <;>
    cases hp.symm.trans hr

theorem upheld_returning {stage : ReturnStage} (hp : d.phase = .returning stage)
    (h : d.session.Returning hash numWorkers target) : d.Upheld hash numWorkers target := by
  refine ⟨h.size, fun hr => ?_, fun rest hr => ?_, fun _ _ => h⟩ <;> cases hp.symm.trans hr

theorem Upheld.boot (h : d.Upheld hash numWorkers target) :
    d.boot.Upheld hash numWorkers target := by
  rcases d.boot_cases with ⟨e, -, hb | hb⟩ | ⟨jrn, -, ⟨-, hb⟩ | ⟨-, hb⟩⟩ <;> rw [hb]
  · exact upheld_of_hosts rfl h.size
  · exact h
  · exact upheld_of_hosts rfl h.size
  · exact upheld_of_hosts rfl h.size

theorem Upheld.copyRound (h : d.Upheld hash numWorkers target) (rest : List Round) :
    (d.copyRound rest).Upheld hash numWorkers target := by
  cases rest with
  | nil => exact upheld_of_hosts rfl h.size
  | cons r rest =>
      have hends := Spared.keeps_copy r _ (spared_self d.session.machine)
      unfold Ends at hends
      simp only [Daemon.copyRound]
      cases hr : r.copy d.session.machine with
      | ok u m | error e m =>
          rw [hr] at hends
          exact upheld_of_hosts rfl (hends.size.trans h.size)

/-- A round of `WriteJournalToReplica`. -/
theorem Upheld.writeRound (h : d.Upheld hash numWorkers target) {rest : List Round}
    (hp : d.phase = .replaying rest) : (d.writeRound rest).Upheld hash numWorkers target := by
  obtain ⟨hm, hh⟩ := h.replaying rest hp
  cases rest with
  | nil => exact upheld_serving rfl (hm.settingWriting hh)
  | cons r rest =>
      have hends := Spared.keeps_write r _ (spared_self d.session.machine)
      unfold Ends at hends
      simp only [Daemon.writeRound]
      cases hr : r.write d.session.machine with
      | ok u m =>
          rw [hr] at hends
          exact upheld_replaying rfl (hm.setMachine hends.size) hh
      | error e m =>
          rw [hr] at hends
          cases e with
          | err e => exact upheld_serving rfl ((hm.setMachine hends.size).settingWriting hh)
          | panic | powerLoss => exact upheld_of_hosts rfl (hends.size.trans h.size)

theorem Upheld.greet (h : d.Upheld hash numWorkers target) (info : InitInfo) :
    (d.greet info).Upheld hash numWorkers target := by
  unfold Daemon.greet
  split
  · exact upheld_of_hosts rfl h.size
  · split
    · exact upheld_serving rfl (Session.manned_start hash numWorkers h.size)
    · exact upheld_of_hosts rfl h.size
    · exact upheld_of_hosts rfl h.size

/-- A move of the present session. -/
theorem Upheld.session (h : d.Upheld hash numWorkers target) (hn : 0 < numWorkers)
    {m : SessionMove} (hok : accepts target.size m)
    (hs : d.step hash numWorkers (.session m) = some d') :
    d'.Upheld hash numWorkers target := by
  rcases session_cases hs with ⟨-, hp, hw, rfl⟩ | ⟨-, rest, hp, rfl⟩ | ⟨hplain, hm⟩
  · exact upheld_replaying rfl (h.serving hp) hw
  · exact h.writeRound hp
  · rcases moveSession_cases hm with ⟨s, ps, hmove, rfl⟩ | ⟨machine, hw, rfl⟩
    · cases hp : d.phase with
      | down | copying | accepting | greeting => simp [Plain, hp] at hplain
      | serving => exact upheld_serving rfl ((h.serving hp).step hn hok hmove)
      | replaying rest =>
          obtain ⟨hm, hh⟩ := h.replaying rest hp
          have hg : ofGoroutine m = true := by
            have hne : ∀ sent, m ≠ .handler sent := by simpa only [Plain, hp] using hplain
            cases m with
            | receive packet =>
                cases hh.symm.trans (Option.ite_none_right_eq_some.mp hmove).1
            | handler sent => exact absurd rfl (hne sent)
            | writer | corrector | journaler | replicator | startHash | hash => rfl
          have hw := Session.works_move hm.size hm.queued hm.scans hg hmove
          exact upheld_replaying rfl (hm.works hw) (hw.serves.handler.trans hh)
      | returning stage =>
          have hne : ∀ p, m ≠ .receive p := by simpa only [Plain, hp] using hplain
          have hinner : isInner m = true := by
            cases m with
            | receive packet => exact absurd rfl (hne packet)
            | handler | writer | corrector | journaler | replicator | startHash | hash => rfl
          exact upheld_returning rfl ((h.returning stage hp).move hinner hmove).1
    · exact upheld_of_hosts rfl ((Session.size_wreck hw).trans h.size)

theorem Upheld.leftover (h : d.Upheld hash numWorkers target) {i : ℕ} {m : SessionMove}
    (hs : d.step hash numWorkers (.leftover i m) = some d') :
    d'.Upheld hash numWorkers target := by
  obtain ⟨hm, hs⟩ := Option.ite_none_right_eq_some.mp hs
  obtain ⟨l, -, ⟨l', ps, hmove, rfl⟩ | ⟨machine, hw, rfl⟩⟩ := moveLeftover_cases hs
  · have hspared : Spared d.session.machine.target.size d.session.machine.target.plan.length
        l'.machine := Session.spared_leftover (s := d.lend l) hm hmove
    exact ⟨hspared.size.trans h.size, fun hp => (h.serving hp).setMachine hspared.size,
      fun rest hp => ⟨(h.replaying rest hp).1.setMachine hspared.size, (h.replaying rest hp).2⟩,
      fun stage hp => ((h.returning stage hp).setMachine hspared).1⟩
  · exact upheld_of_hosts rfl ((Session.size_wreck hw).trans h.size)

theorem Upheld.step (h : d.Upheld hash numWorkers target) (hn : 0 < numWorkers) {m : DaemonMove}
    (hok : admits target.size m) (hs : d.step hash numWorkers m = some d') :
    d'.Upheld hash numWorkers target := by
  cases m with
  | boot =>
      obtain ⟨-, ⟨⟩⟩ := Option.ite_none_right_eq_some.mp hs
      exact h.boot
  | copy =>
      simp only [Daemon.step] at hs
      split at hs
      · cases hs
        exact h.copyRound _
      · cases hs
  | accept | refuse =>
      obtain ⟨-, ⟨⟩⟩ := Option.ite_none_right_eq_some.mp hs
      exact upheld_of_hosts rfl h.size
  | greet info =>
      obtain ⟨-, ⟨⟩⟩ := Option.ite_none_right_eq_some.mp hs
      exact h.greet info
  | session m => exact h.session hn hok hs
  | hangUp =>
      obtain ⟨⟨hp, hh⟩, ⟨⟩⟩ := Option.ite_none_right_eq_some.mp hs
      exact upheld_returning rfl ((h.serving hp).returning hh)
  | wrapUp =>
      simp only [Daemon.step] at hs
      split at hs
      · rename_i stage hp
        have hr := h.returning stage hp
        cases stage with
        | replicationWg =>
            obtain ⟨-, ⟨⟩⟩ := Option.ite_none_right_eq_some.mp hs
            exact upheld_returning rfl ⟨hr.handler, hr.write, hr.correct.close, hr.journal,
              hr.replication, hr.journalClosed, hr.replicationClosed, hr.size, hr.scans,
              hr.queued⟩
        | journalWg =>
            obtain ⟨-, ⟨⟩⟩ := Option.ite_none_right_eq_some.mp hs
            exact upheld_returning rfl ⟨hr.handler, hr.write.close, hr.correct, hr.journal,
              hr.replication, hr.journalClosed, hr.replicationClosed, hr.size, hr.scans,
              hr.queued.close⟩
        | hashWg =>
            obtain ⟨-, ⟨⟩⟩ := Option.ite_none_right_eq_some.mp hs
            exact upheld_of_hosts rfl h.size
      · cases hs
  | leftover i m => exact h.leftover hs
  | crash =>
      cases hs
      exact upheld_of_hosts rfl h.size

end Upheld

/-! ### `HandleClient` returns -/

/-- The deferred calls that are left. -/
def stageWork : ReturnStage → ℕ
  | .replicationWg => 3
  | .journalWg => 2
  | .hashWg => 1

/-- The moves that are left to a session that ends, at most. -/
def returnWork (c : HashConfig) (d : Daemon) : ℕ :=
  match d.phase with
  | .returning stage => stageWork stage + d.session.work c
  | _ => 0

/-- `HandleClient` is at its deferred calls. -/
def leaves : Phase → Bool
  | .returning _ => true
  | _ => false

/-- A move of the session that ends, or of the `HandleClient` that leaves it. -/
def isReturning : DaemonMove → Bool
  | .session _ | .wrapUp => true
  | _ => false

section Return
variable {hash : List UInt8 → UInt64} {numWorkers : ℕ} {target : Device} {d d' : Daemon}

theorem returnWork_of_hosts {c : HashConfig} (hp : hosts d.phase = false) :
    returnWork c d = 0 := by
  unfold returnWork
  split
  · rename_i hr
    rw [hr] at hp
    cases hp
  · rfl

/-- A session that ends gets nearer to its end. -/
theorem Upheld.returnWork_session (h : d.Upheld hash numWorkers target) {stage : ReturnStage}
    (hp : d.phase = .returning stage) {m : SessionMove}
    (hs : d.step hash numWorkers (.session m) = some d') :
    returnWork (hashConfig hash numWorkers target) d' <
      returnWork (hashConfig hash numWorkers target) d := by
  have hpos : 0 < stageWork stage := by cases stage <;> decide
  rcases session_cases hs with ⟨-, hp', -⟩ | ⟨-, rest, hp', -⟩ | ⟨hplain, hm⟩
  · cases hp.symm.trans hp'
  · cases hp.symm.trans hp'
  · rcases moveSession_cases hm with ⟨s, ps, hmove, rfl⟩ | ⟨machine, -, rfl⟩
    · have hne : ∀ p, m ≠ .receive p := by simpa only [Plain, hp] using hplain
      have hinner : isInner m = true := by
        cases m with
        | receive packet => exact absurd rfl (hne packet)
        | handler | writer | corrector | journaler | replicator | startHash | hash => rfl
      have hlt := ((h.returning stage hp).move hinner hmove).2
      simp only [returnWork, hp]
      omega
    · rw [returnWork_of_hosts rfl]
      simp only [returnWork, hp]
      omega

theorem Upheld.returnWork_wrapUp {stage : ReturnStage} (hp : d.phase = .returning stage)
    (hs : d.step hash numWorkers .wrapUp = some d') (c : HashConfig) :
    returnWork c d' < returnWork c d := by
  simp only [Daemon.step, hp] at hs
  cases stage with
  | replicationWg =>
      obtain ⟨-, ⟨⟩⟩ := Option.ite_none_right_eq_some.mp hs
      have hle := Pool.cost_close_le (g := fun _ => 2) (f := fun _ => 1) d.session.correctQueue
      simp only [returnWork, hp, stageWork, Session.work]
      omega
  | journalWg =>
      obtain ⟨-, ⟨⟩⟩ := Option.ite_none_right_eq_some.mp hs
      have hle := Pool.cost_close_le (g := fun _ => 3) (f := Session.writeWork)
        d.session.writeQueue
      simp only [returnWork, hp, stageWork, Session.work]
      omega
  | hashWg =>
      obtain ⟨-, ⟨⟩⟩ := Option.ite_none_right_eq_some.mp hs
      rw [returnWork_of_hosts rfl]
      simp only [returnWork, hp, stageWork]
      omega

theorem Upheld.returnWork_leftover (h : d.Upheld hash numWorkers target) {stage : ReturnStage}
    (hp : d.phase = .returning stage) {i : ℕ} {m : SessionMove}
    (hs : d.step hash numWorkers (.leftover i m) = some d') :
    returnWork (hashConfig hash numWorkers target) d' ≤
      returnWork (hashConfig hash numWorkers target) d := by
  obtain ⟨hm, hs⟩ := Option.ite_none_right_eq_some.mp hs
  obtain ⟨l, -, ⟨l', ps, hmove, rfl⟩ | ⟨machine, -, rfl⟩⟩ := moveLeftover_cases hs
  · have hspared : Spared d.session.machine.target.size d.session.machine.target.plan.length
        l'.machine := Session.spared_leftover (s := d.lend l) hm hmove
    have hle := ((h.returning stage hp).setMachine hspared).2
    simp only [returnWork, Daemon.setMachine, hp]
    omega
  · rw [returnWork_of_hosts rfl]
    exact Nat.zero_le _

theorem exists_stage (h : leaves d.phase = true) : ∃ stage, d.phase = .returning stage := by
  cases hp : d.phase with
  | returning stage => exact ⟨stage, rfl⟩
  | down | copying | accepting | greeting | serving | replaying =>
      rw [hp] at h
      cases h

/-- A session that ends receives no packets. -/
theorem admits_of_returning {stage : ReturnStage} (hp : d.phase = .returning stage)
    {m : DaemonMove} (hs : d.step hash numWorkers m = some d') (size : ℕ) : admits size m := by
  cases m with
  | session m =>
      cases m with
      | receive packet =>
          simp only [Daemon.step, hp] at hs
          cases hs
      | handler | writer | corrector | journaler | replicator | startHash | hash => trivial
  | boot | copy | accept | refuse | greet | hangUp | wrapUp | leftover | crash => trivial

/-- While `HandleClient` returns, every move of its session counts. -/
theorem Upheld.returnWork_step (h : d.Upheld hash numWorkers target) {stage : ReturnStage}
    (hp : d.phase = .returning stage) {m : DaemonMove}
    (hs : d.step hash numWorkers m = some d') :
    returnWork (hashConfig hash numWorkers target) d' + (if isReturning m then 1 else 0) ≤
      returnWork (hashConfig hash numWorkers target) d := by
  cases m with
  | session m => exact h.returnWork_session hp hs
  | wrapUp => exact Upheld.returnWork_wrapUp hp hs _
  | leftover i m => exact h.returnWork_leftover hp hs
  | crash =>
      cases hs
      exact Nat.zero_le _
  | boot | accept | refuse | greet =>
      cases hp.symm.trans (Option.ite_none_right_eq_some.mp hs).1
  | hangUp => cases hp.symm.trans (Option.ite_none_right_eq_some.mp hs).1.1
  | copy =>
      simp only [Daemon.step, hp] at hs
      cases hs

theorem moveSession_of_goesOn {m : SessionMove} (hg : ofGoroutine m = true)
    (h : d.session.GoesOn hash numWorkers m) :
    ∃ d', d.moveSession hash numWorkers m = some d' := by
  unfold moveSession
  cases hm : d.session.move hash numWorkers m with
  | some r => exact ⟨_, rfl⟩
  | none =>
      rcases h with ⟨r, hr⟩ | hdown
      · cases hm.symm.trans hr
      · obtain ⟨machine, hw⟩ := Session.wreck_of_none hg hdown
        exact ⟨down machine, by rw [hw]; rfl⟩

theorem session_of_goesOn {stage : ReturnStage} (hp : d.phase = .returning stage)
    {m : SessionMove} (hg : ofGoroutine m = true) (h : d.session.GoesOn hash numWorkers m) :
    ∃ k d', isReturning k = true ∧ d.step hash numWorkers k = some d' := by
  obtain ⟨d', hd'⟩ := moveSession_of_goesOn hg h
  refine ⟨.session m, d', rfl, ?_⟩
  cases m with
  | receive | handler => cases hg
  | writer | corrector | journaler | replicator | startHash | hash =>
      simp only [Daemon.step, hp]
      exact hd'

/-- **A deferred call that waits** waits for a goroutine that goes on. -/
theorem Upheld.progress (h : d.Upheld hash numWorkers target) (hn : 0 < numWorkers)
    {stage : ReturnStage} (hp : d.phase = .returning stage) :
    ∃ m d', isReturning m = true ∧ d.step hash numWorkers m = some d' := by
  have hr := h.returning stage hp
  cases stage with
  | replicationWg =>
      by_cases hf : d.session.replicationQueue.Finished
      · exact ⟨.wrapUp, _, rfl, by simp only [Daemon.step, hp]; exact if_pos hf⟩
      · obtain ⟨i, hi⟩ := Pool.stirs_of_closed hr.replicationClosed hf id
        exact session_of_goesOn hp rfl (Session.goesOn_replicator hi)
  | journalWg =>
      by_cases hf : d.session.journalQueue.Finished
      · exact ⟨.wrapUp, _, rfl, by simp only [Daemon.step, hp]; exact if_pos hf⟩
      · have hstirs := Pool.stirs_of_closed hr.journalClosed hf .took
        exact session_of_goesOn hp rfl
          (Session.goesOn_journaler (Session.stirs_zero hr.journal hstirs) .ok)
  | hashWg =>
      have hscan (hph : d.session.hashDisk.phase = .announcing ∨
          d.session.hashDisk.phase = .running) :
          ∃ m d', isReturning m = true ∧ d.step hash numWorkers m = some d' := by
        have hticks := hr.scans.ticking
        rw [← Session.hashConfig_congr hr.size] at hticks
        obtain ⟨m, r, hm⟩ := hticks.progress hn hph d.session.machine.target
        exact session_of_goesOn (m := .hash m) hp rfl
          (.inl ⟨_, by simp only [Session.move, hm]; rfl⟩)
      cases hph : d.session.hashDisk.phase with
      | returned => exact ⟨.wrapUp, _, rfl, by simp only [Daemon.step, hp]; exact if_pos hph⟩
      | starting => exact session_of_goesOn hp rfl (Session.goesOn_startHash (.inl hph))
      | resetting => exact session_of_goesOn hp rfl (Session.goesOn_startHash (.inr hph))
      | announcing => exact hscan (.inl hph)
      | running => exact hscan (.inr hph)

/-- **`HandleClient` returns when its client has hung up.**  Its session makes at most so many
moves, in whatever order and whatever the goroutines of earlier sessions do meanwhile; and until
`HandleClient` has returned, or the server has gone down, one of these moves can be made. -/
theorem hangUp_returns {machine : Machine} (hn : 0 < numWorkers) {moves₀ moves : List DaemonMove}
    (hrun₀ : Run (step hash numWorkers) (fun _ m => admits machine.target.size m) (down machine)
      moves₀ d)
    (hrun : Run (step hash numWorkers) (fun d _ => leaves d.phase = true) d moves d') :
    moves.countP isReturning ≤
        14 * HashDisk.blocksFrom (hashConfig hash numWorkers machine.target) 0 + 5 * numWorkers +
          112 + d.session.machine.target.plan.length ∧
      (leaves d'.phase = true →
        ∃ m d'', isReturning m = true ∧ d'.step hash numWorkers m = some d'') := by
  have hd : d.Upheld hash numWorkers machine.target :=
    hrun₀.invariant (I := Upheld hash numWorkers machine.target)
      (fun _ _ _ h hok hs => h.step hn hok hs) (upheld_of_hosts rfl rfl)
  have hstep : ∀ d m d', Upheld hash numWorkers machine.target d → leaves d.phase = true →
      d.step hash numWorkers m = some d' → Upheld hash numWorkers machine.target d' := by
    intro d m d' h hl hs
    obtain ⟨stage, hp⟩ := exists_stage hl
    exact h.step hn (admits_of_returning hp hs _) hs
  have hd' : d'.Upheld hash numWorkers machine.target := hrun.invariant hstep hd
  have hcount := hrun.countP_le (I := Upheld hash numWorkers machine.target)
    (w := returnWork (hashConfig hash numWorkers machine.target)) isReturning hd hstep
    fun d m d' h hl hs => by
      obtain ⟨stage, hp⟩ := exists_stage hl
      exact h.returnWork_step hp hs
  have hwork : returnWork (hashConfig hash numWorkers machine.target) d ≤
      14 * HashDisk.blocksFrom (hashConfig hash numWorkers machine.target) 0 + 5 * numWorkers +
        112 + d.session.machine.target.plan.length := by
    unfold returnWork
    split
    · rename_i stage hp
      have hr := hd.returning stage hp
      have hle := Session.work_le hr.scans hr.write hr.correct hr.journal hr.replication
      have hstage : stageWork stage ≤ 3 := by cases stage <;> decide
      have hcfg : (hashConfig hash numWorkers machine.target).numWorkers = numWorkers := rfl
      rw [hr.handler, hcfg] at hle
      simp only [Session.handlerWork] at hle
      omega
    · exact Nat.zero_le _
  refine ⟨by omega, fun hl => ?_⟩
  obtain ⟨stage, hp⟩ := exists_stage hl
  exact hd'.progress hn hp

/-- The first client goes, with its write still in the queue. -/
def hangsUp : List DaemonMove := firstClient ++ [.hangUp]

/-- The write is taken, and is on its way to the target when the last deferred call waits. -/
def wrapsUp : List DaemonMove := [.session .writer, .wrapUp, .session .writer, .wrapUp]

theorem admits_hangsUp : ∀ m ∈ hangsUp, admits 1 m := by
  intro m hm
  simp only [hangsUp, firstClient, List.cons_append, List.nil_append, List.mem_cons,
    List.not_mem_nil, or_false] at hm
  rcases hm with rfl | rfl | rfl | rfl | rfl | rfl
  · trivial
  · trivial
  · trivial
  · rintro w ⟨⟩
    decide
  · trivial
  · trivial

theorem hangUp_returns_wrapsUp : ∃ d d',
    Run (step (fun _ => 3) 1) (fun _ m => admits freshMachine.target.size m) (down freshMachine)
      hangsUp d ∧
    Run (step (fun _ => 3) 1) (fun d _ => leaves d.phase = true) d wrapsUp d' ∧
    d'.phase = .returning .hashWg ∧
    ∃ m d'', isReturning m = true ∧ d'.step (fun _ => 3) 1 m = some d'' := by
  obtain ⟨d, hd, hcheck⟩ := exists_exec
    (P := fun d : Daemon => (exec (guarded (step (fun _ => 3) 1) fun d _ => leaves d.phase = true)
      d wrapsUp).any fun d' : Daemon => decide (d'.phase = .returning .hashWg))
    (show (exec (step (fun _ => 3) 1) (down freshMachine) hangsUp).any _ = true by decide +kernel)
  obtain ⟨d', hd', hphase⟩ := exists_exec hcheck
  have hrun₀ : Run (step (fun _ => 3) 1) (fun _ m => admits freshMachine.target.size m)
      (down freshMachine) hangsUp d := Run.of_exec hd fun m hm _ => admits_hangsUp m hm
  have hrun : Run (step (fun _ => 3) 1) (fun d _ => leaves d.phase = true) d wrapsUp d' :=
    Run.of_exec_guarded hd'
  have hp := of_decide_eq_true hphase
  exact ⟨d, d', hrun₀, hrun, hp, (hangUp_returns Nat.one_pos hrun₀ hrun).2 (by rw [hp]; rfl)⟩

/-! ### `HandleClient` does not return -/

/-- A move of a server whose `HandleClient` is stuck. -/
theorem stuck_step (hp : d.phase = .serving) (h : d.session.Stuck) {m : DaemonMove}
    (hs : d.step hash numWorkers m = some d') :
    (d'.phase = .down ∨ d'.phase = .serving ∧ d'.session.Stuck) ∧ m ≠ .accept ∧
      ∀ packet, m ≠ .session (.receive packet) := by
  obtain ⟨⟨block, hh⟩, hw, hlen⟩ := h
  cases m with
  | boot | accept | refuse | greet =>
      cases hp.symm.trans (Option.ite_none_right_eq_some.mp hs).1
  | copy | wrapUp =>
      simp only [Daemon.step, hp] at hs
      cases hs
  | hangUp => cases hh.symm.trans (Option.ite_none_right_eq_some.mp hs).1.2
  | session m =>
      rcases session_cases hs with ⟨-, -, hj, -⟩ | ⟨-, rest, hr, -⟩ | ⟨-, hm⟩
      · cases hh.symm.trans hj
      · cases hp.symm.trans hr
      · rcases moveSession_cases hm with ⟨s, ps, hmove, rfl⟩ | ⟨machine, hwreck, rfl⟩
        · obtain ⟨hstuck, hinner⟩ := Session.Stuck.move ⟨⟨block, hh⟩, hw, hlen⟩ hmove
          refine ⟨.inr ⟨hp, hstuck⟩, by simp, ?_⟩
          rintro packet ⟨⟩
          cases hinner
        · refine ⟨.inl rfl, by simp, ?_⟩
          rintro packet ⟨⟩
          cases hwreck
  | leftover i m =>
      obtain ⟨-, hs⟩ := Option.ite_none_right_eq_some.mp hs
      obtain ⟨l, -, ⟨l', ps, -, rfl⟩ | ⟨machine, -, rfl⟩⟩ := moveLeftover_cases hs
      · exact ⟨.inr ⟨hp, ⟨block, hh⟩, hw, hlen⟩, by simp, by simp⟩
      · exact ⟨.inl rfl, by simp, by simp⟩
  | crash =>
      cases hs
      exact ⟨.inl rfl, by simp, by simp⟩

/-- **The server serves nobody any more.**  As long as it is up, a `HandleClient` that waits for
room in a queue that nobody reads takes no packet from its client and does not notice that the
client is gone, and `HandleConnections` accepts no other. -/
theorem serves_nobody {moves : List DaemonMove} (hp : d.phase = .serving)
    (h : d.session.Stuck)
    (hrun : Run (step hash numWorkers) (fun d _ => d.phase ≠ .down) d moves d') :
    (d'.phase = .down ∨ d'.phase = .serving ∧ d'.session.Stuck) ∧ .accept ∉ moves ∧
      ∀ packet, DaemonMove.session (.receive packet) ∉ moves := by
  induction hrun with
  | refl => exact ⟨.inr ⟨hp, h⟩, List.not_mem_nil, fun _ => List.not_mem_nil⟩
  | more hup hs hrest ih =>
      obtain ⟨hnext, haccept, hreceive⟩ := stuck_step hp h hs
      rcases hnext with hdown | ⟨hp', h'⟩
      · -- the server has gone down, and the run ends
        cases hrest with
        | refl =>
            refine ⟨.inl hdown, ?_, fun packet => ?_⟩
            · exact fun hin => haccept (List.mem_singleton.mp hin).symm
            · exact fun hin => hreceive packet (List.mem_singleton.mp hin).symm
        | more hup' => exact absurd hdown hup'
      · obtain ⟨hend, haccepts, hreceives⟩ := ih hp' h'
        refine ⟨hend, fun hin => ?_, fun packet hin => ?_⟩
        · rcases List.mem_cons.mp hin with rfl | hin
          · exact haccept rfl
          · exact haccepts hin
        · rcases List.mem_cons.mp hin with rfl | hin
          · exact hreceive packet rfl
          · exact hreceives packet hin

/-- A block that no `InfoStartReplication` has announced. -/
def unannouncedBlock : Packet := .payloadReplicationBlock ⟨0, 1, [6]⟩

/-- One block more than the queue takes. -/
def nineBlocks : List DaemonMove :=
  firstClient ++
    (List.replicate 8 [.session (.receive unannouncedBlock), .session (.handler .ok)]).flatten ++
      [.session (.receive unannouncedBlock)]

theorem serves_nobody_nineBlocks : ∃ d d',
    exec (step (fun _ => 3) 1) (down freshMachine) nineBlocks = some d ∧
    d.phase = .serving ∧ d.session.Stuck ∧
    Run (step (fun _ => 3) 1) (fun d _ => d.phase ≠ .down) d
      (List.replicate 3 (.session .writer)) d' ∧
    d'.session.machine.target.bytes 0 = 9 ∧
    (d'.phase = .down ∨ d'.phase = .serving ∧ d'.session.Stuck) := by
  obtain ⟨d, hd, hcheck⟩ := exists_exec
    (P := fun d : Daemon => decide (d.phase = .serving ∧
        d.session.handler = .enqueueing .replication unannouncedBlock ∧
        d.session.replicationQueue.workers = [] ∧
        d.session.replicationQueue.queue.length = packetQueueSize) &&
      (exec (guarded (step (fun _ => 3) 1) fun d _ => d.phase ≠ .down) d
        (List.replicate 3 (.session .writer))).any fun d' : Daemon =>
          decide (d'.session.machine.target.bytes 0 = 9))
    (show (exec (step (fun _ => 3) 1) (down freshMachine) nineBlocks).any _ = true by
      decide +kernel)
  obtain ⟨hstate, hnext⟩ := Bool.and_eq_true_iff.mp hcheck
  obtain ⟨hp, hh, hw, hlen⟩ := of_decide_eq_true hstate
  obtain ⟨d', hd', hbyte⟩ := exists_exec hnext
  have hstuck : d.session.Stuck := ⟨⟨_, hh⟩, hw, hlen⟩
  have hrun : Run (step (fun _ => 3) 1) (fun d _ => d.phase ≠ .down) d
      (List.replicate 3 (.session .writer)) d' := Run.of_exec_guarded hd'
  exact ⟨d, d', hd, hp, hstuck, hrun, of_decide_eq_true hbyte, (serves_nobody hp hstuck hrun).1⟩

end Return

end Daemon

end Bdr.Server
