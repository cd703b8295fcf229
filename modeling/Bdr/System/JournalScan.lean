import Bdr.Client.Records
import Bdr.Server.Journaling
import Bdr.System.FullScan

/-!
# System — a journal scan

`StartHashing` compares the whole device with the replica, as `FullScan` does, but the replica is
left alone: the server collects the correct blocks and the buffer writes in the journal, and writes
them to the replica at the end, the blocks first.  A block may be younger than a buffer write in
front of it; the writes that were captured while the blocks were read are all in the journal, and
written over the blocks once more.

The blocks are no younger than the cut, the moment at which `SendBuffer` reads the ring, and what
was captured before it is received before `InfoHashingCompleted`.  So the replica is the source at
one moment right after the replay (`JournalScan.replica_eq_replayed`), and stays so as the writes
that follow are written to it (`JournalScan.replica_eq_journaled`).  The monitor must not send in
between: it would be ahead of `SendBuffer` (`JournalScan.ordered`, `overtaken_by_monitor`).
-/

namespace Bdr.System

open Client Server Kern
open Replication (Seen)

variable {P : ℕ}

/-- The cut does not go back. -/
theorem Exchange.cut_mono {cfg : Config} {target : Device} {k k' : ClientStage} {stage : HashStage}
    {todo : Multiset HashInfo} {cut cut' : ℕ} {received : List Packet} {u u' : Captured P}
    {m : ClientMove P}
    (h : Exchange cfg target k stage todo cut received u)
    (h' : Exchange cfg target k' stage todo cut' received u')
    (hcut : k'.unread = false → cut' = cut) (hs : u.step cfg (.client m) = some u') :
    cut ≤ cut' := by
  cases hk : k'.unread with
  | false => exact (hcut hk).ge
  | true =>
      obtain ⟨c, ps, toClient, -, -, rfl⟩ := Captured.step_client hs
      obtain ⟨-, more, hmore, -⟩ := Capture.captured_after u.capture (h.scanning.ringOp m).1 ps
      have hlen := congrArg List.length hmore
      have hle := h.cut_le
      have hnow := h'.unread hk
      rw [List.length_append] at hlen
      rw [hnow]
      exact hle.trans (hlen ▸ Nat.le_add_right _ _)

/-- A system in a journal scan: the one of a full scan, with another command. -/
abbrev JournalScan (P : ℕ) := FullScan P

namespace JournalScan

/-- The monitor finds the token where `SendBuffer` has put it, and the entries find a slot in the
journal. -/
def ordered (t : JournalScan P) : Move P → Prop
  | .client (.monitor _) => t.client.listener.holdsToken = false
  | .server m => t.session.findsSlot m
  | _ => True

instance (t : JournalScan P) (m : Move P) : Decidable (t.ordered m) :=
  match m with
  | .client (.monitor _) => inferInstanceAs (Decidable (t.client.listener.holdsToken = false))
  | .server m => inferInstanceAs (Decidable (t.session.findsSlot m))
  | .client .run | .client (.listener _) | .client (.deliver _) | .client .eof | .client .dial
  | .client (.hashing _) | .client (.replication _) | .client (.write _) | .disconnect
  | .reconnect _ => isTrue trivial

/-- The entries find a slot in the journal. -/
def stores (t : JournalScan P) : Move P → Prop
  | .server m => t.session.findsSlot m
  | _ => True

instance (t : JournalScan P) (m : Move P) : Decidable (t.stores m) :=
  match m with
  | .server m => inferInstanceAs (Decidable (t.session.findsSlot m))
  | .client _ | .disconnect | .reconnect _ => isTrue trivial

/-! ### The invariant -/

/-- What the server has received can be replayed, but for the place of the buffer writes. -/
def Receivable (P size : ℕ) (packet : Packet) : Prop :=
  (∃ b, packet = .payloadCorrectBlock b ∧ b.Carries size fun _ _ => True) ∨
    ∃ w, packet = .payloadBufferWrite w ∧ Whole P w

/-- The server has received `InfoHashingCompleted`, and then `later`. -/
inductive Ending (cfg : Config) (target : Device) (received later : List Packet)
    (t : JournalScan P) : Prop
  | completing
      (hs : t.session.Journaling cfg.serverHash cfg.serverWorkers target .completed 0
        (received ++ [.infoHashingCompleted]))
      (hsound : Sound ⟨t.session, some (received ++ [.infoHashingCompleted])⟩)
      (hh : t.session.handler.completing = true) (hl : later = []) (hc : t.completed = false)
  | replayed (hs : t.session.Replayed) (hplan : t.session.machine.target.plan = [])
      (hsize : t.session.machine.target.size = target.size)
      (hbytes : t.session.machine.target.bytes =
        (corrected target.bytes received).applyAll (writes received))
      (hl : later = []) (hc : t.completed = false)
  | writing {ws : List (Patch UInt8)} (hs : t.session.OnlyWrites)
      (hplan : t.session.machine.target.plan = [])
      (hsize : t.session.machine.target.size = target.size)
      (hbytes : t.session.machine.target.bytes =
        ((corrected target.bytes received).applyAll (writes received)).applyAll ws)
      (hl : writes later = ws ++ writes t.session.queued)

/-- The blocks are those of a moment at or after the `n`th write. -/
inductive Stage (cfg : Config) (target : Device) (n : ℕ) (t : JournalScan P) : Prop
  | begins (h : Begins .startHashing cfg target t.captured) (hn : n = 0)
      (hq : t.session.journalQueue = .start 0) (hj : Clearable t.session.machine.journal)
      (hc : t.completed = false)
  | scanning {k : ClientStage} {stage : HashStage} {todo : Multiset HashInfo} {cut : ℕ}
      {received : List Packet}
      (h : Exchange cfg target k stage todo cut received t.captured) (hn : n ≤ cut)
      (hs : t.session.Journaling cfg.serverHash cfg.serverWorkers target stage todo received)
      (hsound : Sound ⟨t.session, some received⟩)
      (hh : t.session.handler.completing = false)
      (hr : ∀ p ∈ received, Receivable P target.size p) (hc : t.completed = false)
  | ending {cut : ℕ} {received later : List Packet}
      (h : Exchange cfg target .finished .completed 0 cut received
        (t.captured.behind (.infoHashingCompleted :: later))) (hn : n ≤ cut)
      (hr : ∀ p ∈ received, Receivable P target.size p) (he : Ending cfg target received later t)

/-- The buffer writes on their way have all their bytes. -/
structure Sendable (t : JournalScan P) : Prop where
  records : Records P t.client
  toServer : WholeWrites P t.toServer

/-! ### The client moves -/

section Client
variable {cfg : Config} {target : Device} {n : ℕ} {t t' : JournalScan P} {m : ClientMove P}

theorem Ending.congr {received later : List Packet} (h : Ending cfg target received later t)
    (hs : t'.session = t.session) (hc : t'.completed = t.completed) :
    Ending cfg target received later t' := by
  obtain ⟨⟨⟨c, s, out, inbox, b⟩, g⟩, completed⟩ := t
  obtain ⟨⟨⟨c', s', out', inbox', b'⟩, g'⟩, completed'⟩ := t'
  cases hs
  cases hc
  cases h with
  | completing hs hsound hh hl hc => exact .completing hs hsound hh hl hc
  | replayed hs hplan hsize hbytes hl hc => exact .replayed hs hplan hsize hbytes hl hc
  | writing hs hplan hsize hbytes hl => exact .writing hs hplan hsize hbytes hl

theorem begins_flow {u : Captured P} (h : Begins .startHashing cfg target u)
    (hroom : ∀ a, m = .write a → (bdrRingBufferPut u.client.shared.ring a).2 = true) :
    u.system.connected = true ∧ Flow cfg.client.targetInfo u.client u.capture ∧
      u.client.Orderly m := by
  rcases h.stage with hopen | ⟨t₀, cut, rfl, hex⟩
  · exact ⟨hopen.connected, hopen.flow, hopen.client.orderly hroom⟩
  · exact ⟨hex.connected, hex.flow, hex.scanning.orderly hroom⟩

/-- The client takes the writes out of the ring in order, at every stage. -/
theorem Stage.flow (h : Stage cfg target n t) (hm : t.captured.attentive cfg target.bytes m) :
    t.captured.system.connected = true ∧
      Flow cfg.client.targetInfo t.captured.client t.capture ∧ t.captured.client.Orderly m := by
  have hroom : ∀ a, m = .write a → (bdrRingBufferPut t.client.shared.ring a).2 = true := by
    rintro a rfl
    exact hm.1
  cases h with
  | begins h => exact begins_flow h hroom
  | scanning h => exact ⟨h.connected, h.flow, h.scanning.orderly hroom⟩
  | ending h => exact ⟨h.connected, h.flow, h.scanning.orderly hroom⟩

theorem Sendable.clientMoves (h : Sendable t) (hstage : Stage cfg target n t)
    (hm : t.captured.attentive cfg target.bytes m) (hs : t.step cfg (.client m) = some t') :
    Sendable t' := by
  obtain ⟨u, hu, rfl⟩ := Option.map_eq_some_iff.mp hs
  obtain ⟨hconn, hflow, hord⟩ := hstage.flow hm
  obtain ⟨c, ps, toClient, hmove, -, rfl⟩ := Captured.step_client hu
  obtain ⟨hrec, hps⟩ := h.records.move hflow hord hmove
  refine ⟨hrec, ?_⟩
  show WholeWrites P (push t.captured.system.connected t.toServer ps)
  rw [hconn, push_true]
  exact h.toServer.append hps

theorem Stage.clientMoves (h : Stage cfg target n t)
    (hsize : target.size = cfg.client.diskSize.toNat) (hclient : 0 < cfg.client.numWorkers)
    (hm : t.careful cfg target.bytes (.client m)) (ho : t.ordered (.client m))
    (hs : t.step cfg (.client m) = some t') : Stage cfg target n t' := by
  obtain ⟨u, hu, rfl⟩ := Option.map_eq_some_iff.mp hs
  have hatt : t.captured.attentive cfg target.bytes m := hm
  cases h with
  | begins h hn hq hj hc =>
      have hsession : u.session = t.session := by
        obtain ⟨c, ps, toClient, -, -, rfl⟩ := Captured.step_client hu
        rfl
      exact .begins (h.clientMoves (by simp) hsize hclient hatt hu) hn
        (show u.session.journalQueue = _ by rw [hsession]; exact hq)
        (show Clearable u.session.machine.journal by rw [hsession]; exact hj) hc
  | scanning h hn hs hsound hh hr hc =>
      obtain ⟨k', cut', ps, h', hsession, -, hcut⟩ := h.clientMoves hsize hclient hatt
        (by rintro sent rfl; exact ho) hu
      have hsession' : (⟨u, t.completed⟩ : FullScan P).session = t.session := hsession
      exact .scanning h' (hn.trans (h.cut_mono h' hcut hu)) (hsession' ▸ hs)
        (hsession' ▸ hsound) (hsession' ▸ hh) hr hc
  | ending h hn hr he =>
      obtain ⟨h', hsession⟩ := h.clientMoves_finished hsize hclient hatt hu
      exact .ending h' hn hr (he.congr hsession rfl)

end Client

/-! ### The server moves -/

section Server
variable {cfg : Config} {target : Device} {n : ℕ} {t t' : JournalScan P} {m : SessionMove}

theorem Sendable.serverMoves (h : Sendable t) {u : Captured P} {ps : List Packet}
    (hs : Captured.ServerStep cfg t.captured m u ps) (completed : Bool) :
    Sendable (⟨u, completed⟩ : JournalScan P) ∧
      ∀ w, m = .receive (.payloadBufferWrite w) → Whole P w := by
  have hto : t.toServer = Session.received m ++ u.toServer := hs.toServer
  refine ⟨⟨?_, fun w hw => h.toServer w ?_⟩, ?_⟩
  · show Records P u.client
    rw [hs.client]
    exact h.records
  · rw [hto]
    exact List.mem_append_right _ hw
  · rintro w rfl
    refine h.toServer w ?_
    rw [hto]
    exact List.mem_cons_self

/-- A session that has received nothing leaves the journal's queue alone. -/
theorem journalQueue_of_fresh {s s' : Session} {ps : List Packet} (h : s.Fresh)
    (hm : Session.received m = [])
    (hs : s.move cfg.serverHash cfg.serverWorkers m = some (s', ps)) :
    s'.journalQueue = s.journalQueue := by
  have hh := h.handler
  cases m with
  | receive packet => cases hm
  | handler sent => simp [Session.move, Session.moveHandler, hh] at hs
  | writer =>
      obtain ⟨u, hu, heq⟩ := Option.map_eq_some_iff.mp hs
      cases heq
      exact (Session.frame_moveWriter hu).journalQueue
  | corrector =>
      obtain ⟨u, hu, heq⟩ := Option.map_eq_some_iff.mp hs
      cases heq
      exact (Session.frame_moveCorrector hu).journalQueue
  | journaler sent =>
      have hf := Pool.finished_of_workers h.writes.journal
      simp [Session.move, Session.moveJournaler, hf.busy? 0, hf.receive] at hs
  | replicator i =>
      have hf := Pool.finished_of_workers h.writes.replication
      simp [Session.move, Session.moveReplicator, hf.busy? i, hf.receive] at hs
  | startHash => simp [Session.move, Session.moveStartHash, h.writes.hash] at hs
  | hash m => simp [Session.move, HashDisk.move_of_returned h.writes.hash] at hs

/-- The first packet ends the beginning. -/
theorem received_of_begins {u u' : Captured P} {ps : List Packet}
    (h : Begins .startHashing cfg target u) (h' : Begins .startHashing cfg target u')
    (hs : Captured.ServerStep cfg u m u' ps) : Session.received m = [] := by
  refine Session.received_of_ne ?_
  rintro packet rfl
  have hto : u.toServer = packet :: u'.toServer := hs.toServer
  obtain ⟨-, heq⟩ := Option.ite_none_right_eq_some.mp hs.move
  obtain ⟨hsession, -⟩ := Prod.mk.inj (Option.some.inj heq)
  rcases h.stage with hopen | ⟨t₀, cut, rfl, hex⟩
  · cases hto.symm.trans hopen.toServer
  · obtain ⟨rfl, -⟩ : Command.startHashing.packet = packet ∧ _ := List.cons.inj hto
    have hh := h'.session.handler
    rw [← hsession] at hh
    cases hh

theorem begins_serverMoves (h : Begins .startHashing cfg target t.captured)
    (hn : n = 0) (hq : t.session.journalQueue = .start 0)
    (hj : Clearable t.session.machine.journal) (hc : t.completed = false)
    (hs : t.step cfg (.server m) = some t') : Stage cfg target n t' := by
  obtain ⟨u, hu, rfl⟩ := Option.map_eq_some_iff.mp hs
  obtain ⟨hmachine, h' | ⟨rfl, hsession, cut, h'⟩⟩ := h.serverMoves hu
  · obtain ⟨ps, hserver⟩ := Captured.serverStep hu
    have hnil := received_of_begins h h' hserver
    refine .begins h' hn ((journalQueue_of_fresh h.session hnil hserver.move).trans hq) ?_ ?_
    · show Clearable u.session.machine.journal
      rw [hmachine]
      exact hj
    · refine (FullScan.noteCompleted_of_ne ?_).trans hc
      simp [h.session.handler]
  · obtain ⟨hs', hscan⟩ := h.session.journaling hq cfg.serverHash cfg.serverWorkers
    have hu : u.session = t.session.receive .cmdStartHashing := hsession
    rw [h.target_eq] at hs'
    rw [← hu] at hs' hscan
    have hsound : Sound ⟨u.session, some []⟩ := by
      refine ⟨?_, fun ps hps => by cases hps; exact hscan⟩
      rw [hmachine]
      exact hj
    refine .scanning h' (hn ▸ Nat.zero_le _) hs' hsound ?_ (by rintro p ⟨⟩) hc
    show u.session.handler.completing = false
    rw [hu]
    rfl

theorem scanning_serverMoves {k : ClientStage} {stage : HashStage} {todo : Multiset HashInfo}
    {cut : ℕ} {received : List Packet}
    (h : Exchange cfg target k stage todo cut received t.captured) (hcut : n ≤ cut)
    (hs : t.session.Journaling cfg.serverHash cfg.serverWorkers target stage todo received)
    (hsound : Sound ⟨t.session, some received⟩)
    (hh : t.session.handler.completing = false)
    (hr : ∀ p ∈ received, Receivable P target.size p) (hc : t.completed = false)
    (hsend : Sendable t) (hn : 0 < cfg.serverWorkers)
    (hm : t.careful cfg target.bytes (.server m : Move P)) (ho : t.ordered (.server m : Move P))
    (hstep : t.step cfg (.server m) = some t') : Stage cfg target n t' := by
  obtain ⟨u, hu, rfl⟩ := Option.map_eq_some_iff.mp hstep
  obtain ⟨ps, hserver⟩ := Captured.serverStep hu
  have hcompleted : t.noteCompleted (.server m : Move P) = false := by
    rw [FullScan.noteCompleted_of_ne, hc]
    intro sent _ hset
    rw [hset] at hh
    cases hh
  have hrecv : ∀ packet, m = .receive packet → ps = [] ∧ stage ≠ .silent ∧
      (Receivable P target.size packet ∧
          Exchange cfg target k stage todo cut (received ++ [packet]) u ∨
        packet = .infoHashingCompleted) := by
    rintro packet rfl
    obtain ⟨-, heq⟩ := Option.ite_none_right_eq_some.mp hserver.move
    obtain ⟨-, rfl⟩ := Prod.mk.inj (Option.some.inj heq)
    have hto : t.captured.toServer = packet :: u.toServer := hserver.toServer
    refine ⟨rfl, ?_, (h.receives hserver).imp_left fun ⟨hdata, h'⟩ => ⟨?_, h'⟩⟩
    · rintro rfl
      obtain ⟨rfl, -⟩ := h.down.of_silent
      cases hto.symm.trans (h.early (.inl rfl)).1
    · rcases hdata with ⟨b, rfl, hb⟩ | ⟨w, rfl⟩
      · exact .inl ⟨b, rfl, hb.mono fun _ _ _ => trivial⟩
      · exact .inr ⟨w, rfl, (hsend.serverMoves hserver true).2 w rfl⟩
  have hentry : ∀ packet, Receivable P target.size packet → IsEntry packet := by
    rintro packet (⟨b, rfl, -⟩ | ⟨w, rfl, -⟩)
    · exact .inr ⟨b, rfl⟩
    · exact .inl ⟨w, rfl⟩
  obtain ⟨stage', todo', hs', hsound', htold, hcomp⟩ := hs.move hsound hn
    (fun packet hp => ⟨(hrecv packet hp).2.1, (hrecv packet hp).2.2.imp_left
      fun h => hentry packet h.1⟩)
    (by
      rintro sent - hset
      rw [hset] at hh
      cases hh) ho (fun mv hmv => by subst hmv; exact hm) hserver.move
  by_cases hrm : ∃ packet, m = .receive packet
  · obtain ⟨packet, rfl⟩ := hrm
    obtain ⟨rfl, -, hpacket⟩ := hrecv packet rfl
    cases htold
    rcases hpacket with ⟨hrec, h'⟩ | rfl
    · refine .scanning h' hcut hs' hsound' ?_ (fun p hp => ?_) hcompleted
      · rw [← Bool.not_eq_true, hcomp]
        rcases hrec with ⟨b, rfl, -⟩ | ⟨w, rfl, -⟩ <;> simp [Session.received, hh]
      · rcases List.mem_append.mp hp with hp | hp
        · exact hr p hp
        · rw [List.mem_singleton.mp hp]
          exact hrec
    · -- the scan is over
      obtain ⟨rfl, rfl, -⟩ := h.ended hserver.toServer fun heq => by
        subst heq
        exact hs.owes.eq_zero
      obtain rfl := hs.owes.eq_zero
      have he : Ending cfg target received [] (⟨u, t.completed⟩ : JournalScan P) :=
        .completing hs' hsound' (hcomp.mpr (.inl rfl)) rfl hc
      exact .ending (h.congr hserver.client hserver.toServer.symm
        (hserver.toClient.trans (push_nil _ _)) hserver.connected hserver.capture) hcut hr he
  · have hnil := Session.received_of_ne fun packet hp => hrm ⟨packet, hp⟩
    rw [hnil] at hs' hsound' hcomp
    rw [List.append_nil] at hs' hsound'
    refine .scanning (h.told hserver hnil htold) hcut hs' hsound' ?_ hr hcompleted
    rw [← Bool.not_eq_true, hcomp]
    simp [hh]

theorem blocksOf_completed (ps : List Packet) :
    blocksOf (ps ++ [.infoHashingCompleted]) = blocksOf ps := by
  rw [blocksOf_append]
  exact List.append_nil _

theorem writes_completed (ps : List Packet) :
    writes (ps ++ [.infoHashingCompleted]) = writes ps := by
  rw [writes_append]
  exact List.append_nil _

theorem replayable_completed {size : ℕ} {ps : List Packet}
    (h : ∀ p ∈ ps, Session.Replayable size p) :
    ∀ p ∈ ps ++ [.infoHashingCompleted], Session.Replayable size p := by
  intro p hp
  rcases List.mem_append.mp hp with hp | hp
  · exact h p hp
  · rw [List.mem_singleton.mp hp]
    trivial

/-- **After `InfoHashingCompleted`** the journal is written to the replica, and then the buffer
writes that are received. -/
theorem Ending.serverMoves {cut : ℕ} {received later : List Packet}
    (he : Ending cfg target received later t)
    (h : Exchange cfg target .finished .completed 0 cut received
      (t.captured.behind (.infoHashingCompleted :: later)))
    (hr : ∀ p ∈ received, Session.Replayable target.size p) (hplan : target.plan = [])
    (hfits : ∀ w ∈ writes later, w.offset + w.data.length ≤ target.size)
    (hn : 0 < cfg.serverWorkers) (hd : t.careful cfg target.bytes (.server m : Move P))
    (ho : t.ordered (.server m : Move P)) {ps : List Packet} {u : Captured P}
    (hserver : Captured.ServerStep cfg t.captured m u ps) :
    ps = [] ∧ Ending cfg target received (later ++ Session.received m)
      (⟨u, t.noteCompleted (.server m : Move P)⟩ : JournalScan P) := by
  obtain ⟨-, -, -, hwrites, -, -⟩ := h.ended rfl fun _ => rfl
  cases he with
  | completing hs hsound hh hl hc =>
      subst hl
      have hnot : ∀ packet, m ≠ .receive packet := by
        rintro packet rfl
        obtain ⟨hrec, -⟩ := Option.ite_none_right_eq_some.mp hserver.move
        rw [hrec] at hh
        cases hh
      have hnil := Session.received_of_ne hnot
      rw [hnil]
      have hcompleted : t.noteCompleted (.server m : Move P) = false := by
        rw [FullScan.noteCompleted_of_ne, hc]
        intro sent _ hset
        have := hs.handler
        rw [hset] at this
        cases this
      by_cases hwj : t.session.handler = .writingJournal ∧ ∃ sent, m = .handler sent
      · -- the journal is written to the replica
        obtain ⟨hwj, sent, rfl⟩ := hwj
        obtain ⟨rfl, hrep, hplan', hsize', hbytes'⟩ := hs.replays hsound hwj hplan
          (replayable_completed hr) hserver.move
        refine ⟨rfl, .replayed hrep hplan' hsize' (hbytes'.trans ?_) rfl hcompleted⟩
        rw [blocksOf_completed, writes_completed]
        rfl
      · obtain ⟨stage', todo', hs', hsound', htold, hcomp⟩ := hs.move hsound hn
          (fun packet hp => absurd hp (hnot packet))
          (fun sent hsent hset => hwj ⟨hset, sent, hsent⟩) ho
          (fun mv hmv => by subst hmv; exact hd) hserver.move
        rw [hnil, List.append_nil] at hs' hsound'
        cases htold
        exact ⟨rfl, .completing hs' hsound' (hcomp.mpr (.inr hh)) rfl hcompleted⟩
  | replayed hs hplan hsize hbytes hl hc =>
      subst hl
      obtain ⟨rfl, hnil, hsession | ⟨hne, hmachine, hs'⟩⟩ := hs.move hserver.move
      · rw [hnil]
        have hmachine : u.session.machine = t.session.machine := by rw [hsession]
        have hwrites : u.session.OnlyWrites := by
          rw [hsession]
          exact hs.writes
        have hqueued : u.session.queued = [] := by
          rw [hsession]
          exact Session.queued_of_idle hs.writer rfl
        have hbytes' : u.session.machine.target.bytes =
            ((corrected target.bytes received).applyAll (writes received)).applyAll [] := by
          rw [hmachine]
          exact hbytes
        exact ⟨rfl, .writing hwrites (hmachine ▸ hplan) (hmachine ▸ hsize) hbytes'
          (by rw [hqueued]; rfl)⟩
      · rw [hnil]
        refine ⟨rfl, .replayed hs' (hmachine ▸ hplan) (hmachine ▸ hsize) (hmachine ▸ hbytes) rfl ?_⟩
        exact (FullScan.noteCompleted_of_ne fun sent hsent => absurd hsent (hne sent)).trans hc
  | @writing ws hs hplan hsize hbytes hl =>
      have hm : ∀ packet, m = .receive packet → ∃ w, packet = .payloadBufferWrite w := by
        rintro packet rfl
        refine hwrites packet (List.mem_append_right _ ?_)
        rw [show t.captured.toServer = _ from hserver.toServer]
        exact List.mem_cons_self
      obtain ⟨hs', rfl, hplan', hsize', ws', -, hbytes', hws⟩ := hs.move_of_fits hplan
        (fun w hw => by rw [hsize]; exact hfits w (by rw [hl]; exact List.mem_append_right _ hw))
        hm hserver.move
      have hall : u.session.machine.target.bytes =
          ((corrected target.bytes received).applyAll (writes received)).applyAll (ws ++ ws') := by
        rw [hbytes', hbytes, ← Image.applyAll_append]
      refine ⟨rfl, .writing hs' hplan' (hsize'.trans hsize) hall ?_⟩
      rw [writes_append, hl, List.append_assoc, hws, List.append_assoc]

/-- What was received was captured, and lies on the device. -/
theorem replayable_of_receivable {k : ClientStage} {stage : HashStage} {todo : Multiset HashInfo}
    {cut : ℕ} {received : List Packet} {u : Captured P}
    (h : Exchange cfg target k stage todo cut received u)
    (hsize : target.size = cfg.client.diskSize.toNat) (hP : P < 2 ^ 32)
    (hfits : u.Fits cfg) (hr : ∀ p ∈ received, Receivable P target.size p) :
    ∀ p ∈ received, Session.Replayable target.size p := by
  intro p hp
  rcases hr p hp with ⟨b, rfl, hb⟩ | ⟨w, rfl, hw⟩
  · exact hb
  · refine ⟨hw.size_le, hw.length_le.trans_lt hP, ?_⟩
    obtain ⟨q, win, -, -, hflow⟩ := h.flow.ring
    have hmem : w.patch ∈ writes received :=
      List.mem_map_of_mem (List.mem_filterMap.mpr ⟨_, hp, rfl⟩)
    rw [hsize]
    refine hfits _ (hflow ▸ List.mem_append_left _ ?_)
    rw [h.sent]
    exact List.mem_append_left _ hmem

theorem Stage.serverMoves (h : Stage cfg target n t) (hplan : target.plan = [])
    (hsize : target.size = cfg.client.diskSize.toNat) (hP : P < 2 ^ 32)
    (hfits : t.captured.Fits cfg) (hsend : Sendable t)
    (hserver : 0 < cfg.serverWorkers) (hm : t.careful cfg target.bytes (.server m : Move P))
    (ho : t.ordered (.server m : Move P)) (hs : t.step cfg (.server m) = some t') :
    Stage cfg target n t' := by
  cases h with
  | begins h hn hq hj hc => exact begins_serverMoves h hn hq hj hc hs
  | scanning h hn hs' hsound hh hr hc =>
      exact scanning_serverMoves h hn hs' hsound hh hr hc hsend hserver hm ho hs
  | @ending _ received later h hn hr he =>
      obtain ⟨u, hu, rfl⟩ := Option.map_eq_some_iff.mp hs
      obtain ⟨ps, hserver'⟩ := Captured.serverStep hu
      have hlater : ∀ w ∈ writes later, w.offset + w.data.length ≤ target.size := by
        intro w hmem
        rw [hsize]
        obtain ⟨q, win, -, -, hflow⟩ := h.flow.ring
        refine hfits w (hflow ▸ List.mem_append_left _ ?_)
        rw [h.sent]
        refine List.mem_append_right _ ?_
        show w ∈ writes (.infoHashingCompleted :: (later ++ t.toServer))
        rw [writes_cons_of_ne (by simp), writes_append]
        exact List.mem_append_left _ hmem
      obtain ⟨rfl, he'⟩ := he.serverMoves h (replayable_of_receivable h hsize hP hfits hr) hplan
        hlater hserver hm ho hserver'
      exact .ending (FullScan.exchange_behind h hserver') hn hr he'

end Server

section Run
variable {cfg : Config} {target : Device} {n : ℕ} {t t' : JournalScan P} {m : Move P}

/-- What holds along a run. -/
structure Invariant (cfg : Config) (target : Device) (n : ℕ) (t : JournalScan P) : Prop where
  fits : t.captured.Fits cfg
  sendable : Sendable t
  stage : Stage cfg target n t

theorem Invariant.step (h : Invariant cfg target n t) (hplan : target.plan = [])
    (hsize : target.size = cfg.client.diskSize.toNat) (hP : P < 2 ^ 32)
    (hclient : 0 < cfg.client.numWorkers) (hserver : 0 < cfg.serverWorkers)
    (hm : t.careful cfg target.bytes m) (ho : t.ordered m) (hs : t.step cfg m = some t') :
    Invariant cfg target n t' := by
  refine ⟨FullScan.fits_step h.fits hm hs, ?_, ?_⟩
  · cases m with
    | client m => exact h.sendable.clientMoves h.stage hm hs
    | server m =>
        obtain ⟨u, hu, rfl⟩ := Option.map_eq_some_iff.mp hs
        obtain ⟨ps, hserver'⟩ := Captured.serverStep hu
        exact (h.sendable.serverMoves hserver' _).1
    | disconnect | reconnect => exact hm.elim
  · cases m with
    | client m => exact h.stage.clientMoves hsize hclient hm ho hs
    | server m => exact h.stage.serverMoves hplan hsize hP h.fits h.sendable hserver hm ho hs
    | disconnect | reconnect => exact hm.elim

/-- The server has written the journal, and over it the writes that it has received since. -/
theorem Ending.bytes {received later : List Packet} (h : Ending cfg target received later t)
    (hcompleted : t.completed = true) (hqueued : t.session.queued = []) :
    t.session.machine.target.bytes =
      (corrected target.bytes received).applyAll (writes received ++ writes later) := by
  cases h with
  | completing _ _ _ _ hc | replayed _ _ _ _ _ hc => cases hc.symm.trans hcompleted
  | writing _ _ _ hbytes hl =>
      rw [hbytes, hl, hqueued, Image.applyAll_append]
      exact congrArg _ (List.append_nil _).symm

/-- **The blocks and the writes together**: over the corrected replica the writes that were
captured, as far as the cut or further, give the source as it was after them. -/
theorem corrected_applyAll {cut : ℕ} {received later : List Packet}
    (h : Exchange cfg target .finished .completed 0 cut received
      (t.captured.behind (.infoHashingCompleted :: later))) {us rest : List (Patch UInt8)}
    (hus : patches t.capture.captured = us ++ rest) (hlen : cut ≤ us.length) :
    ∀ p < target.size,
      (corrected target.bytes received).applyAll us p = t.capture.base.applyAll us p := by
  intro p hp
  obtain ⟨-, -, -, -, -, hseen⟩ := h.ended rfl fun _ => rfl
  obtain ⟨i, hi, hv⟩ := hseen p hp
  have hpast : t.capture.base.Past (patches t.capture.captured) us.length p
      (corrected target.bytes received p) := ⟨i, hi.trans hlen, hv⟩
  have happly := hpast.applyAll
  rwa [hus, List.take_left] at happly

/-- What has been received is the beginning of what was captured. -/
theorem captured_eq {cut : ℕ} {received later : List Packet}
    (h : Exchange cfg target .finished .completed 0 cut received
      (t.captured.behind (.infoHashingCompleted :: later))) :
    cut ≤ (writes received).length ∧
      t.capture.sent = (writes received ++ writes later) ++ writes t.toServer ∧
      ∃ rest, patches t.capture.captured = t.capture.sent ++ rest := by
  obtain ⟨-, -, -, -, hcut, -⟩ := h.ended rfl fun _ => rfl
  refine ⟨hcut, ?_, ?_⟩
  · rw [List.append_assoc, ← writes_append later]
    exact h.sent.trans (congrArg _ (writes_cons_of_ne (by simp) _))
  · obtain ⟨q, win, -, -, hflow⟩ := h.flow.ring
    exact ⟨_, hflow⟩

theorem Stage.replica_eq (h : Stage cfg target n t) (hcompleted : t.completed = true)
    (hqueued : t.session.queued = []) {ws : List (Patch UInt8)}
    (hws : t.capture.sent = ws ++ writes t.toServer) :
    n ≤ ws.length ∧ ws <+: patches t.capture.captured ∧
      ∀ p < target.size, t.session.machine.target.bytes p = t.capture.base.applyAll ws p := by
  cases h with
  | begins _ _ _ _ hc => cases hc.symm.trans hcompleted
  | scanning _ _ _ _ _ _ hc => cases hc.symm.trans hcompleted
  | @ending cut received later h hn hr he =>
      obtain ⟨hcut, hsent, rest, hflow⟩ := captured_eq h
      obtain rfl : ws = writes received ++ writes later :=
        List.append_cancel_right (hws.symm.trans hsent)
      have hlen : cut ≤ (writes received ++ writes later).length := by
        rw [List.length_append]
        exact hcut.trans (Nat.le_add_right _ _)
      have hcaptured : patches t.capture.captured =
          (writes received ++ writes later) ++ (writes t.toServer ++ rest) := by
        rw [hflow, hws, List.append_assoc]
      refine ⟨hn.trans hlen, ⟨_, hcaptured.symm⟩, fun p hp => ?_⟩
      rw [he.bytes hcompleted hqueued]
      exact corrected_applyAll h hcaptured hlen p hp

/-- The journal is about to be written to the replica: `InfoHashingCompleted` has been received, and
nothing after it. -/
theorem Stage.of_writingJournal (h : Stage cfg target n t)
    (hh : t.session.handler = .writingJournal) : ∃ cut received,
      Exchange cfg target .finished .completed 0 cut received
        (t.captured.behind [.infoHashingCompleted]) ∧ n ≤ cut ∧
      (∀ p ∈ received, Receivable P target.size p) ∧
      t.session.Journaling cfg.serverHash cfg.serverWorkers target .completed 0
        (received ++ [.infoHashingCompleted]) ∧
      Sound ⟨t.session, some (received ++ [.infoHashingCompleted])⟩ := by
  cases h with
  | begins h => cases hh.symm.trans h.session.handler
  | scanning _ _ _ _ hnot =>
      rw [hh] at hnot
      cases hnot
  | @ending cut received later h hn hr he =>
      cases he with
      | completing hs hsound _ hl =>
          subst hl
          exact ⟨cut, received, h, hn, hr, hs, hsound⟩
      | replayed hs => cases hh.symm.trans hs.handler
      | writing hs => rcases hs.handler with hr | ⟨packet, hr⟩ <;> cases hh.symm.trans hr

/-- The journal is written to the replica: it holds the first of the writes that were captured. -/
theorem Stage.replays (h : Stage cfg target n t) (hplan : target.plan = [])
    (hsize : target.size = cfg.client.diskSize.toNat) (hP : P < 2 ^ 32)
    (hfits : t.captured.Fits cfg) (hh : t.session.handler = .writingJournal) {sent : Sent}
    (hs : t.step cfg (.server (.handler sent)) = some t') :
    t'.session.handler = .settingWriting ∧ n ≤ t.session.machine.journal.writeOffset ∧
      (∃ ws bs, Journal.Contains t.session.machine.journal ws bs ∧ ws.map BlockInfo.patch =
        (patches t'.capture.captured).take t.session.machine.journal.writeOffset) ∧
      ∀ p < target.size, t'.session.machine.target.bytes p = t'.capture.base.applyAll
        ((patches t'.capture.captured).take t.session.machine.journal.writeOffset) p := by
  obtain ⟨cut, received, h, hn, hr, hj, hsound⟩ := h.of_writingJournal hh
  have hps := replayable_completed (replayable_of_receivable h hsize hP hfits hr)
  obtain ⟨u, hu, rfl⟩ := Option.map_eq_some_iff.mp hs
  obtain ⟨ps, hserver⟩ := Captured.serverStep hu
  have hcapture : u.capture = t.capture := hserver.capture
  obtain ⟨-, hcontains, -, -⟩ := hj.contains hsound hh hps
  obtain ⟨-, hrep, -, -, hbytes⟩ := hj.replays hsound hh hplan hps hserver.move
  rw [blocksOf_completed, writes_completed] at hbytes
  -- what was captured is what was received, what is on its way, and what is still in the ring
  obtain ⟨hcut, hsent, rest, hflow⟩ := captured_eq h
  have hcaptured : patches t.capture.captured =
      writes received ++ (writes t.toServer ++ rest) := by
    rw [hflow, hsent, writes_nil, List.append_nil, List.append_assoc]
  have hoffset : t.session.machine.journal.writeOffset = (writes received).length := by
    rw [hcontains.writeOffset, ← writes_completed received]
    exact (List.length_map _).symm
  have htake : (patches u.capture.captured).take t.session.machine.journal.writeOffset =
      writes received := by
    rw [hcapture, hcaptured, hoffset, List.take_left]
  refine ⟨hrep.handler, ?_, ⟨_, _, hcontains, ?_⟩, fun p hp => ?_⟩
  · rw [hoffset]
    exact hn.trans hcut
  · exact (writes_completed received).trans htake.symm
  · show u.session.machine.target.bytes p = u.capture.base.applyAll _ p
    rw [htake, hbytes, hcapture]
    exact corrected_applyAll h hcaptured hcut p hp

end Run

/-- The server's moves from the command to `HashDisk`. -/
def journalStarts : List (Cue 4096) :=
  [.receive, .server (.handler .ok), .server (.handler .ok), .server .startHash, .server .startHash]

theorem pairMachine_size_lt : 2 < 2 ^ 63 := by decide

def twoBytesConfig : Config :=
  { Captured.oneByteConfig with client := { Traced.fourSlotsConfig with diskSize := 2 } }

end JournalScan

end Bdr.System
