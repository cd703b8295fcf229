import Bdr.Server.Collected
import Bdr.Server.Owed
import Bdr.Server.Replicator

/-!
# Server — a full scan

From `CmdStartFullScan` on the server is in `StateDestroyingReplica`: it hashes the replica, and
`HandleCorrectPackets` writes the correct blocks that come back to it, one after the other, while
the rest of it is still being hashed.

At `InfoHashingCompleted` nobody waits for `HandleCorrectPackets`.  The server is back in
`StateWriting` when blocks are still on their way to the replica (`Settling`), and only when they
have all been written does it do nothing but write (`OnlyWrites`).
-/

namespace Bdr.Server

/-- A correct block that lies on a device of `size` bytes. -/
def IsCorrect (size : ℕ) (packet : Packet) : Prop :=
  ∃ b, packet = .payloadCorrectBlock b ∧ b.Carries size fun _ _ => True

/-- What `HandleClient` is about to pass on to `HandleCorrectPackets`. -/
def Handler.toCorrector : Handler → List Packet
  | .enqueueing .correct packet => [packet]
  | _ => []

/-- Where `HandleClient` may be in a full scan. -/
def Handler.inFullScan : Handler → Bool
  | .receiving | .enqueueing .correct _ | .awaitingHash | .drainingJournal .hashingCompleted
  | .writingJournal | .settingWriting => true
  | _ => false

/-- `HandleClient` has received `InfoHashingCompleted`. -/
def Handler.completing : Handler → Bool
  | .drainingJournal .hashingCompleted | .writingJournal | .settingWriting => true
  | _ => false

namespace Session

/-- The blocks on their way to the replica, oldest first. -/
def correcting (s : Session) : List Packet :=
  (s.correctQueue.busy? 0).toList ++ s.correctQueue.queue ++ s.handler.toCorrector

/-- The replica is `base` with `done` written to it, and takes what is on its way. -/
structure Corrects (base : Image UInt8) (size : ℕ) (done : List CorrectBlockInfo) (s : Session) :
    Prop where
  plan : s.machine.target.plan = []
  size_eq : s.machine.target.size = size
  bytes : s.machine.target.bytes = base.applyAll (done.map BlockInfo.patch)
  blocks : ∀ packet ∈ s.correcting, IsCorrect size packet

/-- The session is in a full scan, with `todo` still to be hashed. -/
structure Correcting (hash : List UInt8 → UInt64) (numWorkers : ℕ) (target : Device)
    (stage : HashStage) (todo : Multiset HashInfo) (done : List CorrectBlockInfo) (s : Session) :
    Prop where
  state : s.state = .destroyingReplica
  handler : s.handler.inFullScan = true
  awaits : s.handler = .awaitingHash → stage = .silent ∧ s.hashDisk.phase = .returned
  writer : s.writeQueue.Idle
  journal : s.journalQueue.workers = []
  replication : s.replicationQueue.workers = []
  owes : s.hashDisk.Owes (hashConfig hash numWorkers target) target stage todo
  corrects : s.Corrects target.bytes target.size done

/-- The session is back in `StateWriting`, and has not begun to write. -/
structure Settling (base : Image UInt8) (size : ℕ) (done : List CorrectBlockInfo) (s : Session) :
    Prop where
  state : s.state = .writing
  handler : s.handler = .receiving ∨ ∃ packet, s.handler = .enqueueing .write packet
  writer : s.writeQueue.busy? 0 = none
  journal : s.journalQueue.workers = []
  replication : s.replicationQueue.workers = []
  hash : s.hashDisk.phase = .returned
  corrects : s.Corrects base size done

section Corrects
variable {s s' : Session} {base : Image UInt8} {size : ℕ} {done : List CorrectBlockInfo}

theorem correcting_of_idle (hc : s.correctQueue.Idle) (hh : s.handler.toCorrector = []) :
    s.correcting = [] := by
  have hq : s.correctQueue.queue = [] := List.eq_nil_iff_forall_not_mem.mpr hc.queue
  simp [correcting, hc.busy? 0, hq, hh]

/-- **The blocks are written one after the other.** -/
theorem Corrects.moveCorrector (h : s.Corrects base size done) (hs : s.moveCorrector = some s') :
    ∃ q machine done', s' = { s with correctQueue := q, machine := machine } ∧
      s'.Corrects base size done' ∧
      done ++ blocksOf s.correcting = done' ++ blocksOf s'.correcting := by
  rcases moveCorrector_cases hs with ⟨q, hq, rfl⟩ | ⟨p, hp, hcases⟩
  · -- a block goes from the queue into the hand of `HandleCorrectPackets`
    have hsame : correcting { s with correctQueue := q } = s.correcting := by
      obtain ⟨hb, ⟨a, hqueue, hb'⟩ | ⟨hqueue, hqueue', hb'⟩⟩ := Pool.busy?_receive hq
      · simp [correcting, hb, hb', hqueue]
      · simp [correcting, hb, hb', hqueue, hqueue']
    exact ⟨q, s.machine, done, rfl, { h with blocks := by rw [hsame]; exact h.blocks },
      by rw [hsame]⟩
  · have hb' : (s.setCorrector .ranging).correctQueue.busy? 0 = none := Pool.busy?_setWorker hp _
    have hcorr : s.correcting = p :: (s.setCorrector .ranging).correcting := by
      simp only [correcting, hp, hb']
      rfl
    obtain ⟨b, rfl, hb⟩ := h.blocks p (by rw [hcorr]; exact List.mem_cons_self)
    have hrest : ∀ packet ∈ (s.setCorrector .ranging).correcting, IsCorrect size packet :=
      fun packet hmem => h.blocks packet (by rw [hcorr]; exact List.mem_cons_of_mem _ hmem)
    rcases hcases with ⟨hne, -⟩ | ⟨b', r, heq, hr, rfl⟩
    · exact absurd rfl (hne b)
    · cases heq
      have hfits : b.offset.toNat + b.data.length ≤ s.machine.target.size := by
        rw [h.size_eq, hb.length]
        exact hb.fits
      obtain ⟨-, hr'⟩ := attempt_of_fits h.plan hfits hr
      refine ⟨_, r.1, done ++ [b], rfl, ⟨?_, ?_, ?_, hrest⟩, ?_⟩
      · rw [hr']
        exact h.plan
      · rw [hr']
        exact h.size_eq
      · rw [hr', List.map_append, Image.applyAll_append, ← h.bytes]
        rw [List.map_singleton, patch_of_length hb.length]
        exact Device.bytes_store hfits
      · rw [hcorr, List.append_assoc]
        rfl

/-- What does not touch the replica and the blocks on their way to it. -/
theorem Corrects.congr (h : s.Corrects base size done) (hm : s'.machine.target = s.machine.target)
    (hc : s'.correcting = s.correcting) : s'.Corrects base size done :=
  ⟨hm ▸ h.plan, hm ▸ h.size_eq, hm ▸ h.bytes, hc ▸ h.blocks⟩

end Corrects

section Correcting
variable {s s' : Session} {hash : List UInt8 → UInt64} {numWorkers : ℕ} {target : Device}
variable {stage : HashStage} {todo : Multiset HashInfo} {done : List CorrectBlockInfo}
variable {m : SessionMove} {ps : List Packet}

/-- **`CmdStartFullScan`.** -/
theorem Fresh.correcting (h : s.Fresh) (htarget : s.machine.target = target)
    (hplan : target.plan = []) (hash : List UInt8 → UInt64) (numWorkers : ℕ) :
    (s.receive .cmdStartFullScan).Correcting hash numWorkers target .silent
        (tiling hash target hashedSpaceBase) [] ∧
      (s.receive .cmdStartFullScan).correcting = [] := by
  subst htarget
  have hnone : (s.receive .cmdStartFullScan).correcting = [] :=
    correcting_of_idle h.writes.correct rfl
  exact ⟨{
    state := rfl
    handler := rfl
    awaits := fun _ => ⟨rfl, h.writes.hash⟩
    writer := h.writer
    journal := h.writes.journal
    replication := h.writes.replication
    owes := HashDisk.Owes.waiting h.writes.hash
    corrects := ⟨hplan, rfl, rfl, by simp [hnone]⟩ }, hnone⟩

/-- A packet of the client. -/
theorem Correcting.receive (h : s.Correcting hash numWorkers target stage todo done)
    (hh : s.handler = .receiving) {packet : Packet}
    (hp : IsCorrect target.size packet ∨ packet = .infoHashingCompleted) :
    (s.receive packet).Correcting hash numWorkers target stage todo done ∧
      blocksOf s.correcting ++ blocksOf [packet] = blocksOf (s.receive packet).correcting ∧
      ((s.receive packet).handler.completing = true ↔ packet = .infoHashingCompleted) := by
  rcases hp with hb | rfl
  · obtain ⟨b, rfl, -⟩ := id hb
    have heq : s.receive (.payloadCorrectBlock b) =
        { s with handler := .enqueueing .correct (.payloadCorrectBlock b) } := by
      simp [Session.receive, route, h.state]
    rw [heq]
    have hcorr : correcting { s with handler := .enqueueing .correct (.payloadCorrectBlock b) } =
        s.correcting ++ [.payloadCorrectBlock b] := by
      simp [correcting, hh, Handler.toCorrector]
    refine ⟨{ h with
      handler := rfl
      awaits := by rintro ⟨⟩
      corrects := ⟨h.corrects.plan, h.corrects.size_eq, h.corrects.bytes, ?_⟩ },
      by rw [hcorr, blocksOf_append], by simp [Handler.completing]⟩
    rw [hcorr]
    intro packet hmem
    rcases List.mem_append.mp hmem with hmem | hmem
    · exact h.corrects.blocks packet hmem
    · rw [List.mem_singleton.mp hmem]
      exact hb
  · have hcorr : (s.receive .infoHashingCompleted).correcting = s.correcting := by
      simp [correcting, Session.receive, hh, Handler.toCorrector]
    refine ⟨{ h with
      handler := rfl
      awaits := by rintro ⟨⟩
      journal := h.journal
      corrects := h.corrects.congr rfl hcorr }, by rw [hcorr]; exact List.append_nil _,
      by simp [Session.receive, Handler.completing]⟩

/-- `HandleClient` goes on with what it has received, until it sets `StateWriting`. -/
theorem Correcting.moveHandler (h : s.Correcting hash numWorkers target stage todo done)
    (hn : 0 < numWorkers) {sent : Sent} (hs : s.moveHandler numWorkers sent = some (s', ps)) :
    ps = [] ∧ (s'.Correcting hash numWorkers target stage todo done ∧
        blocksOf s.correcting = blocksOf s'.correcting ∧
        (s'.handler.completing = true ↔ s.handler.completing = true) ∧
        s.handler ≠ .settingWriting ∨
      s.handler = .settingWriting ∧ s' = { s with state := .writing, handler := .receiving }) := by
  have hin := h.handler
  cases moveHandler_cases hs with
  | @enqueued queue p s₁ hh he =>
      rw [hh] at hin
      cases queue with
      | write | journal | replication => cases hin
      | correct =>
          obtain ⟨q, hq, rfl⟩ := Option.map_eq_some_iff.mp he
          obtain ⟨-, rfl⟩ := Pool.send_eq_some.mp hq
          have hcorr : correcting { s with
              correctQueue := { s.correctQueue with queue := s.correctQueue.queue ++ [p] }
              handler := .receiving } = s.correcting := by
            simp only [correcting, hh, Handler.toCorrector, List.append_nil, ← List.append_assoc]
            rfl
          exact ⟨rfl, .inl ⟨{ h with
            handler := rfl
            awaits := by rintro ⟨⟩
            corrects := h.corrects.congr rfl hcorr }, by rw [hcorr],
            by simp [hh, Handler.completing], by simp [hh]⟩⟩
  | hashStarted hh hp =>
      obtain ⟨rfl, -⟩ := h.awaits hh
      have howes := h.owes
      have hcorr : correcting { s with
          hashDisk := { HashDisk.start numWorkers with phase := .starting }
          handler := .receiving } = s.correcting := by
        simp [correcting, hh, Handler.toCorrector]
      refine ⟨rfl, .inl ⟨{ h with
        handler := rfl
        awaits := by rintro ⟨⟩
        owes := ?_
        corrects := h.corrects.congr rfl hcorr }, by rw [hcorr], by simp [hh, Handler.completing],
        by simp [hh]⟩⟩
      cases howes with
      | waiting => exact HashDisk.owes_start hn (.inl rfl)
      | silent => exact HashDisk.owes_start hn (.inl rfl)
  | scanDrained hh hf =>
      have hcorr : correcting { s with journalQueue := .start 0, handler := .writingJournal } =
          s.correcting := by
        simp [correcting, hh, Handler.toCorrector]
      exact ⟨rfl, .inl ⟨{ h with
        handler := rfl
        awaits := by rintro ⟨⟩
        journal := rfl
        corrects := h.corrects.congr rfl hcorr }, by rw [hcorr], by simp [hh, Handler.completing],
        by simp [hh]⟩⟩
  | journalSkipped hh _ =>
      have hcorr : correcting { s with handler := .settingWriting } = s.correcting := by
        simp [correcting, hh, Handler.toCorrector]
      exact ⟨rfl, .inl ⟨{ h with
        handler := rfl
        awaits := by rintro ⟨⟩
        corrects := h.corrects.congr rfl hcorr }, by rw [hcorr], by simp [hh, Handler.completing],
        by simp [hh]⟩⟩
  | writingSet hh => exact ⟨rfl, .inr ⟨hh, rfl⟩⟩
  | journalWritten _ hne => exact absurd h.state hne
  | journalDrained hh | replicationStarted hh | replicationEnded hh => rw [hh] at hin; cases hin

/-- **One move of a session in a full scan.**  It hashes what the replica was at first, though
blocks may have been written to it: those are not of what is still to be hashed. -/
theorem Correcting.move (h : s.Correcting hash numWorkers target stage todo done)
    (hn : 0 < numWorkers)
    (hagree : ∀ p, 1 ≤ hashWeight p todo → s.machine.target.bytes p = target.bytes p)
    (hm : ∀ packet, m = .receive packet →
      IsCorrect target.size packet ∨ packet = .infoHashingCompleted)
    (hd : ∀ mv, m = .hash mv → mv.Delivered) (hs : s.move hash numWorkers m = some (s', ps)) :
    (∃ stage' todo' done', s'.Correcting hash numWorkers target stage' todo' done' ∧
        Told stage todo stage' todo' ps ∧
        done ++ blocksOf s.correcting ++ blocksOf (received m) =
          done' ++ blocksOf s'.correcting ∧
        (s'.handler.completing = true ↔
          received m = [.infoHashingCompleted] ∨ s.handler.completing = true) ∧
        ∀ sent, m = .handler sent → s.handler ≠ .settingWriting) ∨
      ps = [] ∧ received m = [] ∧ s.handler = .settingWriting ∧
        s' = { s with state := .writing, handler := .receiving } := by
  cases move_cases hs with
  | @receive packet hh =>
      obtain ⟨h', hblocks, hcomp⟩ := h.receive hh (hm packet rfl)
      refine .inl ⟨stage, todo, done, h', .nothing, by rw [List.append_assoc, ← hblocks]; rfl, ?_,
        by simp⟩
      rw [hcomp, hh]
      simp [received, Handler.completing]
  | handler hmv =>
      obtain ⟨rfl, ⟨h', hblocks, hcomp, hne⟩ | ⟨hh, rfl⟩⟩ := h.moveHandler hn hmv
      · exact .inl ⟨stage, todo, done, h', .nothing, by rw [hblocks]; exact List.append_nil _,
          by simp [hcomp, received], fun _ _ => hne⟩
      · exact .inr ⟨rfl, rfl, hh, rfl⟩
  | writer hmv =>
      obtain ⟨q, hq, rfl⟩ := moveWriter_of_idle h.writer hmv
      exact .inl ⟨stage, todo, done, { h with
        writer := hq
        corrects := h.corrects.congr rfl rfl }, .nothing, List.append_nil _, by simp [received],
        by simp⟩
  | corrector hmv =>
      obtain ⟨q, machine, done', rfl, hc, hblocks⟩ := h.corrects.moveCorrector hmv
      exact .inl ⟨stage, todo, done', { h with corrects := hc }, .nothing,
        by rw [hblocks]; exact List.append_nil _, by simp [received], by simp⟩
  | journaler hmv =>
      have hf := Pool.finished_of_workers h.journal
      simp [moveJournaler, hf.busy? 0, hf.receive] at hmv
  | @replicator i _ hmv =>
      have hf := Pool.finished_of_workers h.replication
      simp [moveReplicator, hf.busy? i, hf.receive] at hmv
  | startHash hmv =>
      have hnot : s.handler ≠ .awaitingHash := by
        intro hh
        simp [moveStartHash, (h.awaits hh).2] at hmv
      rcases moveStartHash_cases hmv with ⟨hp, rfl⟩ | ⟨hp, r, hr, rfl⟩
      · rw [if_pos h.state]
        exact .inl ⟨stage, todo, done, { h with
          awaits := fun hh => absurd hh hnot
          owes := h.owes.setPhase (.inl hp) (.inr rfl)
          corrects := h.corrects.congr rfl rfl }, .nothing, List.append_nil _,
          by simp [received, setPhase], by simp⟩
      · exact .inl ⟨stage, todo, done, { h with
          awaits := fun hh => absurd hh hnot
          owes := h.owes.setPhase (.inr hp) (.inr rfl)
          corrects := h.corrects.congr rfl rfl }, .nothing, List.append_nil _,
          by simp [received, setPhase, setJournal], by simp⟩
  | @hash mv h' ps hmv =>
      have hnot : s.handler ≠ .awaitingHash := by
        intro hh
        rw [HashDisk.move_of_returned (h.awaits hh).2] at hmv
        cases hmv
      -- a block that is still to be hashed has not been corrected yet
      rw [h.owes.move_eq h.corrects.size_eq hagree] at hmv
      obtain ⟨stage', todo', howes, htold⟩ := h.owes.move (whole_hashConfig _ _ _) (hd mv rfl) hmv
      exact .inl ⟨stage', todo', done, { h with
        awaits := fun hh => absurd hh hnot
        owes := howes
        corrects := h.corrects.congr rfl rfl }, htold, List.append_nil _, by simp [received],
        by simp⟩

end Correcting

section Settling
variable {s s' : Session} {hash : List UInt8 → UInt64} {numWorkers : ℕ} {target : Device}
variable {base : Image UInt8} {size : ℕ} {done : List CorrectBlockInfo}
variable {m : SessionMove} {ps : List Packet}

/-- `HandleClient` sets `StateWriting`. -/
theorem Correcting.settling (h : s.Correcting hash numWorkers target .completed 0 done)
    (hh : s.handler = .settingWriting) :
    Settling target.bytes target.size done { s with state := .writing, handler := .receiving } where
  state := rfl
  handler := .inl rfl
  writer := h.writer.busy? 0
  journal := h.journal
  replication := h.replication
  hash := by
    have howes := h.owes
    generalize hz : (0 : Multiset HashInfo) = todo at howes
    cases howes
    assumption
  corrects := h.corrects.congr rfl (by simp [correcting, hh, Handler.toCorrector])

/-- When the blocks are written, there is nothing to do but to write. -/
theorem Settling.onlyWrites (h : s.Settling base size done) (hc : s.correctQueue.Idle) :
    s.OnlyWrites ∧ s.correcting = [] := by
  refine ⟨⟨h.state, h.handler, hc, h.journal, h.replication, h.hash⟩, correcting_of_idle hc ?_⟩
  rcases h.handler with hh | ⟨packet, hh⟩ <;> rw [hh] <;> rfl

/-- **The blocks are written, and the buffer writes wait**, as long as the writer does. -/
theorem Settling.move (h : s.Settling base size done) (hne : m ≠ .writer)
    (hm : ∀ packet, m = .receive packet → ∃ w, packet = .payloadBufferWrite w)
    (hs : s.move hash numWorkers m = some (s', ps)) :
    ps = [] ∧ s.queued ++ received m = s'.queued ∧ ∃ done', s'.Settling base size done' ∧
      done ++ blocksOf s.correcting = done' ++ blocksOf s'.correcting := by
  cases move_cases hs with
  | @receive packet hh =>
      obtain ⟨w, rfl⟩ := hm packet rfl
      have heq : s.receive (.payloadBufferWrite w) =
          { s with handler := .enqueueing .write (.payloadBufferWrite w) } := by
        simp [Session.receive, route, h.state]
      rw [heq]
      have hcorr : correcting { s with handler := .enqueueing .write (.payloadBufferWrite w) } =
          s.correcting := by
        simp [correcting, hh, Handler.toCorrector]
      exact ⟨rfl, by simp [queued, hh, Handler.toWriter, received], done, { h with
        handler := .inr ⟨_, rfl⟩
        corrects := h.corrects.congr rfl hcorr }, by rw [hcorr]⟩
  | handler hmv =>
      rcases h.handler with hh | ⟨packet, hh⟩
      · simp [moveHandler, hh] at hmv
      · simp only [moveHandler, hh] at hmv
        obtain ⟨t, ht, heq⟩ := Option.map_eq_some_iff.mp hmv
        cases heq
        obtain ⟨q, hq, rfl⟩ := Option.map_eq_some_iff.mp ht
        obtain ⟨-, rfl⟩ := Pool.send_eq_some.mp hq
        have hcorr : correcting { s with
            writeQueue := { s.writeQueue with queue := s.writeQueue.queue ++ [packet] }
            handler := .receiving } = s.correcting := by
          simp [correcting, hh, Handler.toCorrector]
        refine ⟨rfl, ?_, done, { h with
          handler := .inl rfl
          writer := h.writer
          corrects := h.corrects.congr rfl hcorr }, by rw [hcorr]⟩
        simp only [queued, hh, Handler.toWriter, received, List.append_nil, List.append_assoc]
        rfl
  | writer => exact absurd rfl hne
  | corrector hmv =>
      obtain ⟨q, machine, done', rfl, hc, hblocks⟩ := h.corrects.moveCorrector hmv
      exact ⟨rfl, List.append_nil _, done', { h with corrects := hc }, hblocks⟩
  | journaler hmv =>
      have hf := Pool.finished_of_workers h.journal
      simp [moveJournaler, hf.busy? 0, hf.receive] at hmv
  | @replicator i _ hmv =>
      have hf := Pool.finished_of_workers h.replication
      simp [moveReplicator, hf.busy? i, hf.receive] at hmv
  | startHash hmv => simp [moveStartHash, h.hash] at hmv
  | hash hmv =>
      rw [HashDisk.move_of_returned h.hash] at hmv
      cases hmv

end Settling

end Session

end Bdr.Server
