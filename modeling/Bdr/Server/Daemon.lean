import Bdr.Server.Redo
import Bdr.Server.Stability

/-!
# Server — Daemon

The server from one start to the next: `Run` checks the journal, and then `HandleConnections`
accepts one client after the other and waits for its `HandleClient` to return.  The machine may go
down at any moment, in the middle of a write to a device too; what is left are the devices.

A replay of the journal takes one move for each entry, so that the other goroutines, and a crash,
can come between.

The deferred calls of `HandleClient` wait for the goroutines of the journal, of the replication and
of `HashDisk`, but not for `HandleWritePackets` and `HandleCorrectPackets`: these call `wg.Done`
before anything else.  So they may outlive their session with what is left in their queues, and look
at the state that the next session has set.
-/

namespace Bdr.Server

open Journal

/-! ### A replay round by round -/

/-- What a replay of the journal does, one after the other. -/
inductive Round where
  | validate
  | correctBlock (i : ℕ)
  | bufferWrite (i : ℕ)
  | invalidate
  deriving DecidableEq, Repr

/-- The rounds of a replay once the journal is valid. -/
def rounds (j : Journal) : List Round :=
  (List.range j.correctOffset).map .correctBlock ++
    ((List.range j.writeOffset).map .bufferWrite ++ [.invalidate])

/-- A round of `WriteJournalToReplica`. -/
def Round.write : Round → ServerOp Unit
  | .validate => ignoreError (onJournal .validate Journal.validate)
  | .correctBlock i => do
      let correctBlock ← onJournal .readCorrectBlock (readCorrectBlock i)
      targetWriteAt .writeCorrectBlock correctBlock.offset.toNat correctBlock.data
  | .bufferWrite i => do
      let bufferWrite ← onJournal .readBufferWrite (readBufferWrite i)
      let data ← dataToWrite bufferWrite
      targetWriteAt .writeBufferWrite bufferWrite.offset.toNat data
  | .invalidate => onJournal .invalidate Journal.invalidate

/-- A round of `CopyJournalToReplica`. -/
def Round.copy : Round → ServerOp Unit
  | .validate => pure ()
  | .correctBlock i => do
      let correctBlock ← onJournal .copy (readCorrectBlock i)
      ignoreError (writeCorrectBlockToReplica correctBlock)
  | .bufferWrite i => do
      let bufferWrite ← onJournal .copy (readBufferWrite i)
      ignoreError (writeBufferWriteToReplica bufferWrite)
  | .invalidate => ignoreError (onJournal .invalidate Journal.invalidate)

/-- The rounds of a replay in the two loops of the source. -/
theorem forM_rounds (j : Journal) (f : Round → ServerOp Unit) :
    (rounds j).forM f = (do
      (List.range j.correctOffset).forM fun i => f (.correctBlock i)
      (List.range j.writeOffset).forM fun i => f (.bufferWrite i)
      f .invalidate) := by
  simp only [rounds, List.forM_eq_forM, List.forM_append, List.forM_map, List.forM_cons,
    List.forM_nil]
  congr! 3
  simp

theorem copyJournalToReplica_eq (m : Machine) :
    copyJournalToReplica m = (rounds m.journal).forM Round.copy m := by
  rw [forM_rounds]
  rfl

theorem Keeps.onJournal {α : Type} {I : Journal → Prop} {x : Op α} (hx : Keeps I x)
    (step : ReplayStep) : Keeps (fun m : Machine => I m.journal) (onJournal step x) := by
  intro m hm
  have h := hx m.journal hm
  unfold Ends Server.onJournal at *
  split at h
  · rename_i hr
    simpa only [hr] using h
  · rename_i e _ hr
    cases e <;> simpa only [hr] using h

theorem Keeps.ignoreError {I : Machine → Prop} {x : ServerOp Unit} (hx : Keeps I x) :
    Keeps I (ignoreError x) := by
  intro m hm
  have h := hx m hm
  unfold Ends Server.ignoreError at *
  split at h
  · rename_i hr
    simpa only [hr] using h
  · rename_i e _ hr
    cases e <;> simpa only [hr] using h

/-- Marking the journal valid moves no offset, whatever becomes of the write. -/
theorem write_validate_keeps (c w : ℕ) :
    Keeps (fun m : Machine => m.journal.correctOffset = c ∧ m.journal.writeOffset = w)
      (Round.write .validate) := by
  refine Keeps.ignoreError (Keeps.onJournal (I := fun j => j.correctOffset = c ∧ j.writeOffset = w)
    ?_ .validate)
  intro j hj
  rw [Ends, validate_eq, writeHeader]
  exact diskWriteAt_keeps (I := fun j => j.correctOffset = c ∧ j.writeOffset = w)
    (fun _ _ h => h) 0 _ { j with header := j.header.setValidFlag } hj

theorem writeJournalToReplica_eq (m : Machine) :
    writeJournalToReplica m = (Round.validate :: rounds m.journal).forM Round.write m := by
  have hv := write_validate_keeps _ _ m ⟨rfl, rfl⟩
  have hw : Round.write .validate = ignoreError (onJournal .validate Journal.validate) := rfl
  simp only [List.forM_eq_forM, List.forM_cons, hw, Ends] at hv ⊢
  cases hr : ignoreError (onJournal .validate Journal.validate) m with
  | error e m' => rw [writeJournalToReplica, bind_of_error hr, bind_of_error hr]
  | ok u m' =>
      rw [hr] at hv
      rw [writeJournalToReplica, bind_of_ok hr, bind_of_ok hr, ← List.forM_eq_forM, forM_rounds,
        ← hv.1, ← hv.2]
      rfl

/-! ### The server -/

/-- What `HandleClient` waits for when it returns, in the order of its deferred calls. -/
inductive ReturnStage where
  | replicationWg
  | journalWg
  | hashWg
  deriving DecidableEq, Repr

/-- Where the server is: not running, in `CheckJournal`, waiting for a client in
`HandleConnections`, or in `HandleClient`: waiting for the `InitInfo`, receiving packets, in
`WriteJournalToReplica`, or returning. -/
inductive Phase where
  | down
  | copying (rest : List Round)
  | accepting
  | greeting
  | serving
  | replaying (rest : List Round)
  | returning (stage : ReturnStage)
  deriving DecidableEq, Repr

/-- A client has been accepted, and its `HandleClient` has not returned. -/
def Phase.connected : Phase → Bool
  | .greeting | .serving | .replaying _ | .returning _ => true
  | _ => false

/-- The server.  `session` holds its state, its target and its journal, and the goroutines of the
present client; `leftovers` are the sessions that have ended, whose `HandleWritePackets` and
`HandleCorrectPackets` may still be there.  Until a client is served, the journal is the one that
`CheckJournal` has opened or that was last in use, and only its disk matters. -/
structure Daemon where
  phase : Phase
  session : Session
  leftovers : List Session

inductive DaemonMove where
  | boot
  | copy
  | accept
  | refuse
  | greet (clientInfo : InitInfo)
  | session (m : SessionMove)
  | hangUp
  | wrapUp
  | leftover (i : ℕ) (m : SessionMove)
  | crash
  deriving DecidableEq, Repr

/-- The operation on the devices that a move consists in. -/
def Session.operation (s : Session) : SessionMove → Option (ServerOp Unit)
  | .writer =>
      match s.writeQueue.busy? 0 with
      | some (.writing (.payloadBufferWrite w)) => some (writeBufferWriteToReplica w)
      | _ => none
  | .corrector =>
      match s.correctQueue.busy? 0 with
      | some (.payloadCorrectBlock b) => some (writeCorrectBlockToReplica b)
      | _ => none
  | .journaler _ =>
      match s.journalQueue.busy? 0 with
      | some (.storing p) => some (onJournal .copy (storePacket p))
      | _ => none
  | .replicator i =>
      match s.replicationQueue.busy? i with
      | some (.payloadReplicationBlock r) => some (targetWriteAt .copy r.offset.toNat r.data)
      | _ => none
  | .startHash =>
      if s.hashDisk.phase = .resetting then
        some (onJournal .copy
          (resetTo s.machine.journal.writeOffset s.machine.journal.correctOffset))
      else none
  | _ => none

/-- What an operation leaves that brings the server down. -/
def Session.wreck (s : Session) (m : SessionMove) : Option Machine :=
  (s.operation m).bind fun x =>
    match x s.machine with
    | .ok _ _ => none
    | .error (.err _) _ => none
    | .error _ machine => some machine

namespace Daemon

/-- The server is not running. -/
def down (machine : Machine) : Daemon :=
  ⟨.down, { Session.start machine with state := .disconnected }, []⟩

section Moves
variable (hash : List UInt8 → UInt64) (numWorkers : ℕ) (d : Daemon)

def setMachine (m : Machine) : Daemon := { d with session := { d.session with machine := m } }

/-- `Run` looks for a journal to copy. -/
def boot : Daemon :=
  match openJournal d.session.machine.journal.disk with
  | .error (.err _) => { d with phase := .accepting }
  | .error _ => d
  | .ok jrn =>
      if !jrn.header.isValid then { d with phase := .accepting }
      else { d.setMachine ⟨d.session.machine.target, jrn⟩ with phase := .copying (rounds jrn) }

/-- A round of `CopyJournalToReplica`.  If it fails, `Run` returns. -/
def copyRound : List Round → Daemon
  | [] => { d with phase := .accepting }
  | r :: rest =>
      match r.copy d.session.machine with
      | .ok _ m => { d.setMachine m with phase := .copying rest }
      | .error _ m => down m

/-- A round of `WriteJournalToReplica`. -/
def writeRound : List Round → Daemon
  | [] => { d with phase := .serving, session := { d.session with handler := .settingWriting } }
  | r :: rest =>
      match r.write d.session.machine with
      | .ok _ m => { d.setMachine m with phase := .replaying rest }
      | .error (.err _) m =>
          { d with
            phase := .serving
            session := { d.session with machine := m, handler := .settingWriting } }
      | .error _ m => down m

/-- `HandleClient` returns before it has served the client. -/
def leave : Daemon :=
  { d with phase := .accepting, session := { d.session with state := .disconnected } }

/-- `CreateJournal`, and the start of the goroutines. -/
def greet (clientInfo : InitInfo) : Daemon :=
  match newJournal d.session.machine.journal.disk clientInfo.bufferByteSize
      (UInt64.ofNat writeInfoSize) (UInt64.ofNat correctBlockByteSize) with
  | .error _ => d.leave
  | .ok jrn =>
      match initWithoutClearing jrn with
      | .ok _ jrn =>
          { d with phase := .serving, session := .start ⟨d.session.machine.target, jrn⟩ }
      | .error (.err _) jrn => (d.setMachine ⟨d.session.machine.target, jrn⟩).leave
      | .error _ jrn => down ⟨d.session.machine.target, jrn⟩

/-- A move of the present session, which may bring the server down. -/
def moveSession (m : SessionMove) : Option Daemon :=
  match d.session.move hash numWorkers m with
  | some (s, _) => some { d with session := s }
  | none => (d.session.wreck m).map down

/-- The connection is closed: `HandleClient` begins to return. -/
def hangUp : Daemon :=
  { d with
    phase := .returning .replicationWg
    session := { d.session with
      hashDisk := d.session.hashDisk.terminate
      journalQueue := d.session.journalQueue.close
      replicationQueue := d.session.replicationQueue.close } }

/-- The deferred calls of `HandleClient`, from one wait to the next. -/
def wrapUp : ReturnStage → Option Daemon
  | .replicationWg =>
      if d.session.replicationQueue.Finished then
        some { d with
          phase := .returning .journalWg
          session := { d.session with correctQueue := d.session.correctQueue.close } }
      else none
  | .journalWg =>
      if d.session.journalQueue.Finished then
        some { d with
          phase := .returning .hashWg
          session := { d.session with writeQueue := d.session.writeQueue.close } }
      else none
  | .hashWg =>
      -- `childWg.Wait` does not wait for the consumers of the two queues
      if d.session.hashDisk.phase = .returned then
        some { d.leave with leftovers := d.leftovers ++ [d.session] }
      else none

/-- An earlier session, as it finds the server's state, target and journal. -/
def lend (l : Session) : Session :=
  { l with state := d.session.state, machine := d.session.machine }

/-- A move of `HandleWritePackets` or `HandleCorrectPackets` of an earlier session. -/
def moveLeftover (i : ℕ) (m : SessionMove) : Option Daemon :=
  (d.leftovers[i]?).bind fun l =>
    match (d.lend l).move hash numWorkers m with
    | some (l', _) => some { d.setMachine l'.machine with leftovers := d.leftovers.set i l' }
    | none => ((d.lend l).wreck m).map down

def step : DaemonMove → Option Daemon
  | .boot => if d.phase = .down then some d.boot else none
  | .copy =>
      match d.phase with
      | .copying rest => some (d.copyRound rest)
      | _ => none
  | .accept =>
      if d.phase = .accepting then
        some { d with phase := .greeting, session := { d.session with state := .writing } }
      else none
  | .refuse => if d.phase = .greeting then some d.leave else none
  | .greet clientInfo => if d.phase = .greeting then some (d.greet clientInfo) else none
  | .session m =>
      match d.phase, m with
      | .serving, .handler _ =>
          if d.session.handler = .writingJournal ∧ d.session.state ≠ .destroyingReplica then
            some { d with phase := .replaying (.validate :: rounds d.session.machine.journal) }
          else d.moveSession hash numWorkers m
      | .serving, _ => d.moveSession hash numWorkers m
      | .replaying rest, .handler _ => some (d.writeRound rest)
      | .replaying _, _ => d.moveSession hash numWorkers m
      | .returning _, .receive _ => none
      | .returning _, _ => d.moveSession hash numWorkers m
      | _, _ => none
  | .hangUp =>
      if d.phase = .serving ∧ d.session.handler = .receiving then some d.hangUp else none
  | .wrapUp =>
      match d.phase with
      | .returning stage => d.wrapUp stage
      | _ => none
  | .leftover i m =>
      if m = .writer ∨ m = .corrector then d.moveLeftover hash numWorkers i m else none
  | .crash => some (down d.session.machine)

end Moves

/-! ### What a move does -/

section Cases
variable {hash : List UInt8 → UInt64} {numWorkers : ℕ} {d d' : Daemon} {m : SessionMove}

theorem boot_cases (d : Daemon) :
    (∃ e, openJournal d.session.machine.journal.disk = .error e ∧
      (d.boot = { d with phase := .accepting } ∨ d.boot = d)) ∨
    ∃ jrn, openJournal d.session.machine.journal.disk = .ok jrn ∧
      (jrn.header.isValid = false ∧ d.boot = { d with phase := .accepting } ∨
        jrn.header.isValid = true ∧ d.boot =
          { d.setMachine ⟨d.session.machine.target, jrn⟩ with
            phase := .copying (rounds jrn) }) := by
  unfold boot
  cases openJournal d.session.machine.journal.disk with
  | error e => cases e <;> simp
  | ok jrn => cases hv : jrn.header.isValid <;> simp [hv]

theorem moveSession_cases (h : d.moveSession hash numWorkers m = some d') :
    (∃ s ps, d.session.move hash numWorkers m = some (s, ps) ∧ d' = { d with session := s }) ∨
    ∃ machine, d.session.wreck m = some machine ∧ d' = down machine := by
  unfold moveSession at h
  split at h
  · rename_i s ps hs
    exact .inl ⟨s, ps, hs, (Option.some.inj h).symm⟩
  · obtain ⟨machine, hw, rfl⟩ := Option.map_eq_some_iff.mp h
    exact .inr ⟨machine, hw, rfl⟩

theorem moveLeftover_cases {i : ℕ} (h : d.moveLeftover hash numWorkers i m = some d') :
    ∃ l, d.leftovers[i]? = some l ∧
      ((∃ l' ps, (d.lend l).move hash numWorkers m = some (l', ps) ∧
        d' = { d.setMachine l'.machine with leftovers := d.leftovers.set i l' }) ∨
      ∃ machine, (d.lend l).wreck m = some machine ∧ d' = down machine) := by
  unfold moveLeftover at h
  obtain ⟨l, hl, h⟩ := Option.bind_eq_some_iff.mp h
  refine ⟨l, hl, ?_⟩
  split at h
  · rename_i l' ps hs
    exact .inl ⟨l', ps, hs, (Option.some.inj h).symm⟩
  · obtain ⟨machine, hw, rfl⟩ := Option.map_eq_some_iff.mp h
    exact .inr ⟨machine, hw, rfl⟩

/-- The phases in which a move is one of the session alone. -/
def Plain (d : Daemon) (m : SessionMove) : Prop :=
  match d.phase with
  | .serving => ∀ sent, m = .handler sent →
      d.session.handler = .writingJournal → d.session.state = .destroyingReplica
  | .replaying _ => ∀ sent, m ≠ .handler sent
  | .returning _ => ∀ p, m ≠ .receive p
  | _ => False

theorem session_cases (h : d.step hash numWorkers (.session m) = some d') :
    ((∃ sent, m = .handler sent) ∧ d.phase = .serving ∧ d.session.handler = .writingJournal ∧
      d' = { d with phase := .replaying (.validate :: rounds d.session.machine.journal) }) ∨
    ((∃ sent, m = .handler sent) ∧ ∃ rest, d.phase = .replaying rest ∧ d' = d.writeRound rest) ∨
    d.Plain m ∧ d.moveSession hash numWorkers m = some d' := by
  simp only [step] at h
  split at h
  · rename_i sent hp
    split at h
    · rename_i hc
      exact .inl ⟨⟨sent, rfl⟩, hp, hc.1, (Option.some.inj h).symm⟩
    · rename_i hc
      refine .inr (.inr ⟨?_, h⟩)
      simp only [Plain, hp]
      exact fun _ _ hw => of_not_not fun hs => hc ⟨hw, hs⟩
  · rename_i hp hm
    refine .inr (.inr ⟨?_, h⟩)
    simp only [Plain, hp]
    exact fun sent hs => absurd hs (hm sent)
  · rename_i rest sent hp
    exact .inr (.inl ⟨⟨sent, rfl⟩, rest, hp, (Option.some.inj h).symm⟩)
  · rename_i rest hp hm
    refine .inr (.inr ⟨?_, h⟩)
    simp only [Plain, hp]
    exact hm
  · cases h
  · rename_i stage hp hm
    refine .inr (.inr ⟨?_, h⟩)
    simp only [Plain, hp]
    exact hm
  · cases h

theorem Plain.connected (h : d.Plain m) : d.phase.connected = true := by
  unfold Plain at h
  cases hp : d.phase <;> simp [hp] at h <;> rfl

theorem writeRound_cases (rest : List Round) :
    (d.writeRound rest).phase = .down ∨
      (d.writeRound rest).phase.connected = true ∧ (d.writeRound rest).leftovers = d.leftovers := by
  cases rest with
  | nil => exact .inr ⟨rfl, rfl⟩
  | cons r rest =>
      simp only [writeRound]
      split
      · exact .inr ⟨rfl, rfl⟩
      · exact .inr ⟨rfl, rfl⟩
      · exact .inl rfl

/-- A move of the session leaves the earlier sessions alone, or brings the server down. -/
theorem leftovers_session (h : d.step hash numWorkers (.session m) = some d') :
    d'.phase = .down ∨ d.phase.connected = true ∧ d'.leftovers = d.leftovers := by
  rcases session_cases h with ⟨-, hp, -, rfl⟩ | ⟨-, rest, hp, rfl⟩ | ⟨hplain, hm⟩
  · exact .inr ⟨by rw [hp]; rfl, rfl⟩
  · exact (writeRound_cases rest).imp_right fun hw => ⟨by rw [hp]; rfl, hw.2⟩
  · rcases moveSession_cases hm with ⟨s, ps, -, rfl⟩ | ⟨machine, -, rfl⟩
    · exact .inr ⟨hplain.connected, rfl⟩
    · exact .inl rfl

theorem greet_cases (d : Daemon) (info : InitInfo) :
    (∃ m, d.greet info = (d.setMachine m).leave) ∨ (∃ m, d.greet info = down m) ∨
    ∃ j j', initWithoutClearing j = .ok () j' ∧
      d.greet info = { d with
        phase := .serving
        session := .start ⟨d.session.machine.target, j'⟩ } := by
  unfold greet
  split
  · exact .inl ⟨d.session.machine, rfl⟩
  · rename_i j _
    split
    · rename_i j' hj
      exact .inr (.inr ⟨j, j', hj, rfl⟩)
    · exact .inl ⟨_, rfl⟩
    · exact .inr (.inl ⟨_, rfl⟩)

end Cases

/-! ### One session after the other -/

/-- Nothing of an earlier session is being written to the target while a client is connected. -/
def Sealed (d : Daemon) : Prop :=
  d.phase.connected = true → ∀ l ∈ d.leftovers,
    l.writesTarget .writer = false ∧ l.writesTarget .corrector = false

/-- The queues of a session that has ended are empty, and so are the hands of their consumers. -/
def Spent (l : Session) : Prop := l.writeQueue.Idle ∧ l.correctQueue.Idle

instance (l : Session) : Decidable (Spent l) := inferInstanceAs (Decidable (_ ∧ _))

/-- A client is accepted when nothing is left of the earlier sessions. -/
def waitsForConsumers (d : Daemon) : DaemonMove → Prop
  | .accept => ∀ l ∈ d.leftovers, Spent l
  | _ => True

instance (d : Daemon) (m : DaemonMove) : Decidable (d.waitsForConsumers m) := by
  unfold waitsForConsumers
  split <;> infer_instance

section Sealed
variable {hash : List UInt8 → UInt64} {numWorkers : ℕ} {d d' : Daemon}

theorem Spent.writesTarget {l : Session} (h : Spent l) :
    l.writesTarget .writer = false ∧ l.writesTarget .corrector = false := by
  simp only [Session.writesTarget, h.1.busy? 0, h.2.busy? 0, and_self]

/-- What is left of a session does not come back. -/
theorem Spent.move {l l' : Session} {ps : List Packet} (h : Spent l) {m : SessionMove}
    (hm : m = .writer ∨ m = .corrector) (hl : (d.lend l).move hash numWorkers m = some (l', ps)) :
    Spent l' := by
  rcases hm with rfl | rfl
  · obtain ⟨s, hs, heq⟩ := Option.map_eq_some_iff.mp hl
    cases heq
    rcases Session.moveWriter_cases hs with ⟨q, hq, rfl⟩ | ⟨p, hp, -⟩ | ⟨p, hp, -⟩
    · exact ⟨h.1.receive hq, h.2⟩
    · exact (h.1.of_busy? hp).elim
    · exact (h.1.of_busy? hp).elim
  · obtain ⟨s, hs, heq⟩ := Option.map_eq_some_iff.mp hl
    cases heq
    rcases Session.moveCorrector_cases hs with ⟨q, hq, rfl⟩ | ⟨p, hp, -⟩
    · exact ⟨h.1, h.2.receive hq⟩
    · exact (h.2.of_busy? hp).elim

/-- While a client is connected, nothing is left of the earlier sessions. -/
def Quiet (d : Daemon) : Prop := d.phase.connected = true → ∀ l ∈ d.leftovers, Spent l

theorem Quiet.of_not_connected (h : d.phase.connected = false) : Quiet d := by
  intro hc
  rw [h] at hc
  cases hc

theorem Quiet.step (h : Quiet d) {m : DaemonMove} (hok : d.waitsForConsumers m)
    (hs : d.step hash numWorkers m = some d') : Quiet d' := by
  cases m with
  | boot =>
      simp only [Daemon.step, Option.ite_none_right_eq_some, Option.some.injEq] at hs
      obtain ⟨hp, rfl⟩ := hs
      refine .of_not_connected ?_
      unfold boot
      split
      · rfl
      · rw [hp]
        rfl
      · split <;> rfl
  | copy =>
      simp only [Daemon.step] at hs
      split at hs
      · rename_i rest _
        cases hs
        refine .of_not_connected ?_
        cases rest with
        | nil => rfl
        | cons r rest =>
            simp only [copyRound]
            split <;> rfl
      · cases hs
  | accept =>
      -- the only move that needs the condition: the consumers of the session before have ended
      simp only [Daemon.step, Option.ite_none_right_eq_some, Option.some.injEq] at hs
      obtain ⟨-, rfl⟩ := hs
      exact fun _ => hok
  | refuse =>
      simp only [Daemon.step, Option.ite_none_right_eq_some, Option.some.injEq] at hs
      obtain ⟨-, rfl⟩ := hs
      exact .of_not_connected rfl
  | greet info =>
      simp only [Daemon.step, Option.ite_none_right_eq_some, Option.some.injEq] at hs
      obtain ⟨hp, rfl⟩ := hs
      rcases d.greet_cases info with ⟨m, hg⟩ | ⟨m, hg⟩ | ⟨j, j', -, hg⟩
      · exact .of_not_connected (by rw [hg]; rfl)
      · exact .of_not_connected (by rw [hg]; rfl)
      · rw [hg]
        exact fun _ => h (by rw [hp]; rfl)
  | session m =>
      rcases leftovers_session hs with hdown | ⟨hc, hl⟩
      · exact .of_not_connected (by rw [hdown]; rfl)
      · exact fun _ => hl ▸ h hc
  | hangUp =>
      simp only [Daemon.step, Option.ite_none_right_eq_some, Option.some.injEq] at hs
      obtain ⟨⟨hp, -⟩, rfl⟩ := hs
      exact fun _ => h (by rw [hp]; rfl)
  | wrapUp =>
      simp only [Daemon.step] at hs
      split at hs
      · rename_i stage hp
        have hc : d.phase.connected = true := by rw [hp]; rfl
        cases stage with
        | replicationWg | journalWg =>
            simp only [wrapUp, Option.ite_none_right_eq_some, Option.some.injEq] at hs
            obtain ⟨-, rfl⟩ := hs
            exact fun _ => h hc
        | hashWg =>
            simp only [wrapUp, Option.ite_none_right_eq_some, Option.some.injEq] at hs
            obtain ⟨-, rfl⟩ := hs
            exact .of_not_connected rfl
      · cases hs
  | leftover i m =>
      simp only [Daemon.step, Option.ite_none_right_eq_some] at hs
      obtain ⟨hm, hs⟩ := hs
      obtain ⟨l, hl, ⟨l', ps, hmove, rfl⟩ | ⟨machine, -, rfl⟩⟩ := moveLeftover_cases hs
      -- a leftover that is spent stays so
      · intro hc k hk
        have hquiet := h hc
        rcases List.mem_or_eq_of_mem_set hk with hk | rfl
        · exact hquiet k hk
        · exact (hquiet l (List.mem_of_getElem? hl)).move hm hmove
      · exact .of_not_connected rfl
  | crash =>
      cases hs
      exact .of_not_connected rfl

/-- **Sessions do not leak** in a run in which a client is accepted only when the consumers of the
earlier sessions have nothing left. -/
theorem sealed_of_waitsForConsumers {machine : Machine} {moves : List DaemonMove}
    (hrun : Run (step hash numWorkers) waitsForConsumers (down machine) moves d) : Sealed d := by
  have hquiet : Quiet d := hrun.invariant (fun _ _ _ h hok hs => h.step hok hs)
    (.of_not_connected rfl)
  exact fun hc l hl => (hquiet hc l hl).writesTarget

end Sealed

theorem freshMachine_size_lt : 65 < 2 ^ 63 := by decide

/-- A server whose target holds a seven, and whose journal's device has no journal yet. -/
def freshMachine : Machine :=
  ⟨sevens 1 tightMachine_size_lt,
    ⟨sevens 65 freshMachine_size_lt, 0, 0, ⟨0, 0, 0, 0, 0, 0, 0, 0⟩⟩⟩

/-- A client connects, and sends a buffer write. -/
def firstClient : List DaemonMove :=
  [.boot, .accept, .greet ⟨1, 4108, 1⟩, .session (.receive (.payloadBufferWrite ⟨0, 1, [9]⟩)),
    .session (.handler .ok)]

/-- The connection is closed, and another client is accepted. -/
def nextClient : List DaemonMove := [.hangUp, .wrapUp, .wrapUp, .wrapUp, .accept]

theorem sealed_of_waitsForConsumers_twoClients : ∃ d,
    Run (step (fun _ => 3) 1) waitsForConsumers (down freshMachine)
      (firstClient ++ List.replicate 3 (.session .writer) ++ nextClient) d ∧
      d.leftovers.length = 1 ∧ d.phase.connected = true ∧ d.Sealed := by
  obtain ⟨d, hd, hl⟩ := exists_exec (P := fun d : Daemon =>
      decide (d.leftovers.length = 1) && d.phase.connected)
    (show (exec (guarded (step (fun _ => 3) 1) waitsForConsumers) (down freshMachine)
      (firstClient ++ List.replicate 3 (.session .writer) ++ nextClient)).any _ = true by
        decide +kernel)
  obtain ⟨hl, hc⟩ := Bool.and_eq_true_iff.mp hl
  have hrun := Run.of_exec_guarded hd
  exact ⟨d, hrun, of_decide_eq_true hl, hc, sealed_of_waitsForConsumers hrun⟩

/-- The write is still in its queue when its client goes: it is taken, and finds the state that the
next session has set. -/
theorem not_sealed_of_queued_write : ∃ d d',
    exec (step (fun _ => 3) 1) (down freshMachine)
      (firstClient ++ nextClient ++ List.replicate 2 (.leftover 0 .writer)) = some d ∧
      d.phase = .greeting ∧ ¬ d.Sealed ∧
      d.step (fun _ => 3) 1 (.leftover 0 .writer) = some d' ∧
      d.session.machine.target.bytes 0 = 7 ∧ d'.session.machine.target.bytes 0 = 9 := by
  obtain ⟨d, hd, h⟩ := exists_exec (P := fun d : Daemon =>
      decide (d.phase = .greeting) && d.leftovers.any (·.writesTarget .writer) &&
        decide (d.session.machine.target.bytes 0 = 7) &&
        (d.step (fun _ => 3) 1 (.leftover 0 .writer)).any fun d' : Daemon =>
          decide (d'.session.machine.target.bytes 0 = 9))
    (show (exec (step (fun _ => 3) 1) (down freshMachine)
      (firstClient ++ nextClient ++ List.replicate 2 (.leftover 0 .writer))).any _ = true by
        decide +kernel)
  simp only [Bool.and_eq_true, decide_eq_true_eq, List.any_eq_true, Option.any_eq_true] at h
  obtain ⟨⟨⟨hp, l, hl, hw⟩, h7⟩, d', hd', h9⟩ := h
  refine ⟨d, d', hd, hp, fun hs => ?_, hd', h7, h9⟩
  have := (hs (by rw [hp]; rfl) l hl).1
  simp [hw] at this

end Daemon

end Bdr.Server
