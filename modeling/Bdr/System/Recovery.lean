import Bdr.System.System

/-!
# System — Recovery

What a move of the client or of the server does to a recovery.  A recovery is a scan or a full
replication: the client starts it with a command and ends it with a report, and in between it is
for a scan of the hashes that the server sends, the blocks that the client compares and the listener
that finishes the scan.

`Effect` says what a move of a goroutine of the client can do to these, and `ServerEffect` what a
move of the server can.
-/

namespace Bdr.System

open Client Server Kern

/-! ### What the client does -/

/-- The listener has been told that the server's hashes are complete, and has not finished. -/
def finishing : Listener → Bool
  | .draining .hashingCompleted | .reading | .processing _ | .settingWriting | .resuming _
  | .completing | .starting .overflow _ => true
  | _ => false

/-- `ProcessBuffer` starts the scan again. -/
def Restarts {P : ℕ} (c : Client) : ClientMove P → Prop
  | .listener _ => c.listener = .starting .overflow .sending
  | _ => False

instance {P : ℕ} (c : Client) : (m : ClientMove P) → Decidable (Restarts c m)
  | .listener _ => inferInstanceAs (Decidable (_ = _))
  | .run | .monitor _ | .deliver _ | .eof | .dial | .hashing _ | .replication _ | .write _ =>
      inferInstanceAs (Decidable False)

/-- The packets that start a recovery. -/
def IsCommand : Packet → Bool
  | .cmdStartHashing | .cmdStartFullScan | .infoStartReplication => true
  | _ => false

theorem isCommand_packet (command : Command) : IsCommand command.packet = true := by
  cases command <;> rfl

/-- The packets that neither start nor end a recovery and carry no correct block. -/
def Plain : Packet → Prop
  | .payloadBufferWrite _ | .payloadReplicationBlock _ => True
  | _ => False

/-- The client is no further in a recovery than before. -/
structure Keeps (c c' : Client) : Prop where
  finishing : System.finishing c'.listener = true → System.finishing c.listener = true
  enqueueing : ∀ h, c'.listener = .enqueueing h → c.listener = .enqueueing h
  quiet : c.hashing.Quiet → c'.hashing.Quiet
  running : c'.replication.phase = .running → c.replication.phase = .running

/-- What a move of the client does, as far as the recoveries are concerned. -/
inductive Effect {P : ℕ} (m : ClientMove P) (c c' : Client) : List Packet → Prop where
  | plain {ps : List Packet} (h : Keeps c c') (hps : ∀ p ∈ ps, Plain p) : Effect m c c' ps
  | enqueue (h : HashInfo) (hl : c.listener = .enqueueing h) (hl' : c'.listener = .receiving)
      (hr : c'.replication = c.replication) : Effect m c c' []
  | correct (b : CorrectBlockInfo) (h : Keeps c c') (hq : ¬ c.hashing.Quiet) :
      Effect m c c' [.payloadCorrectBlock b]
  | completed (hl : c.listener = .completing) (hl' : c'.listener = .receiving)
      (hq : c'.hashing.Quiet) (hr : c'.replication = c.replication) :
      Effect m c c' [.infoHashingCompleted]
  | replicated (h : Keeps c c') (hr : c.replication.phase = .running)
      (hr' : c'.replication.phase ≠ .running) : Effect m c c' [.infoReplicationCompleted]
  | scan (command : Command) (hc : command ≠ .fullReplicate) (h : Keeps c c')
      (hre : Restarts c m → finishing c.listener = true ∧ finishing c'.listener = false) :
      Effect m c c' [command.packet]
  | replicate (hl : c'.listener = c.listener) (hh : c'.hashing = c.hashing) (hm : ¬ Restarts c m) :
      Effect m c c' [.infoStartReplication]

section Effect
variable {cfg : ClientConfig} {c c' : Client} {P : ℕ} {ps : List Packet}

theorem Keeps.of_eq (hl : c'.listener = c.listener) (hh : c'.hashing = c.hashing)
    (hr : c'.replication = c.replication) : Keeps c c' :=
  ⟨by simp [hl], by simp [hl], by simp [hh], by simp [hr]⟩

/-- `ProcessBufferInfo` sends plain packets. -/
theorem plain_processStep {ti : TargetInfo} {s s' : Shared} {mainLoop sent : Bool} {w : Window}
    {next : Option Window} (h : s.processStep ti mainLoop sent w = some (s', ps, next)) :
    ∀ p ∈ ps, Plain p := by
  intro p hp
  obtain ⟨w, rfl⟩ := processStep_writes h p hp
  trivial

theorem effect_moveRun (h : c.moveRun cfg = some (c', ps)) :
    Effect (.run : ClientMove P) c c' ps := by
  obtain ⟨command, call, s, next, -, hs, rfl⟩ := moveRun_cases h
  rcases startStep_packet hs with ⟨rfl, call', rfl⟩ | ⟨-, rfl, rfl, -⟩
  · refine .plain ⟨id, fun _ => id, id, ?_⟩ (by simp)
    simp
  · by_cases hc : command = .fullReplicate
    · subst hc
      exact .replicate rfl rfl id
    · refine .scan command hc ⟨id, fun _ => id, id, ?_⟩ (by rintro ⟨⟩)
      simp [hc]

theorem effect_moveMonitor {sent : Bool} (h : c.moveMonitor cfg sent = some (c', ps)) :
    Effect (.monitor sent : ClientMove P) c c' ps := by
  rcases moveMonitor_cases h with ⟨call, r, -, -, rfl, rfl⟩ | ⟨-, rfl, rfl⟩ |
    ⟨call, s, next, -, hs, rfl⟩ | ⟨w, s, next, -, hs, rfl⟩
  · exact .plain (.of_eq rfl rfl rfl) (by simp)
  · exact .plain (.of_eq rfl rfl rfl) (by simp)
  · rcases startStep_packet hs with ⟨rfl, -⟩ | ⟨-, rfl, rfl, -⟩
    · exact .plain (.of_eq rfl rfl rfl) (by simp)
    · exact .scan .startHashing (by simp) (.of_eq rfl rfl rfl) (by rintro ⟨⟩)
  · exact .plain (.of_eq rfl rfl rfl) (plain_processStep hs)

/-- The listener goes on, and is finishing only if it was. -/
theorem keeps_setListener (l : Listener) (hf : finishing l = true → finishing c.listener = true)
    (he : ∀ h, l ≠ .enqueueing h) (s : Shared) : Keeps c ((c.setShared s).setListener l) :=
  ⟨hf, fun h hl => absurd hl (he h), id, id⟩

theorem effect_moveListener {sent : Bool} (h : c.moveListener cfg sent = some (c', ps)) :
    Effect (.listener sent : ClientMove P) c c' ps := by
  cases moveListener_cases h with
  | enqueued hl hs => exact .enqueue _ hl rfl rfl
  | started hl hf =>
      exact .plain ⟨by simp [setListener, finishing], by simp [setListener],
        fun _ => InitHashing.quiet_start _, id⟩ (by simp)
  | compared hl hf =>
      exact .plain ⟨by simp [hl, finishing], by simp [setListener], id, id⟩ (by simp)
  | ended hl hf =>
      exact .plain ⟨by simp [setListener, finishing], by simp [setListener], id, id⟩ (by simp)
  | read hl =>
      refine .plain (keeps_setListener _ (by simp [hl, finishing]) (fun h => ?_) _) (by simp)
      split
      · simp
      · split <;> simp
  | @process w s _ next _ hl hs =>
      refine .plain (keeps_setListener _ (by simp [hl, finishing]) (fun h => ?_) _)
        (plain_processStep hs)
      cases next <;> simp
  | setWriting hl =>
      exact .plain (keeps_setListener _ (by simp [hl, finishing]) (by simp) _) (by simp)
  | @resume call r hl hs =>
      refine .plain (keeps_setListener _ (by simp [hl, finishing]) (fun h => ?_) _) (by simp)
      cases r.2 <;> simp
  | completed hl => exact .completed hl rfl (InitHashing.quiet_start 0) rfl
  | @start k call call' s _ hl hs =>
      rcases startStep_packet hs with ⟨rfl, -⟩ | ⟨-, -, hn, -⟩
      · refine .plain (keeps_setListener _ ?_ (by simp) _) (by simp)
        cases k <;> simp [hl, finishing]
      · cases hn
  | restarted hl hs =>
      rcases startStep_packet hs with ⟨-, call', hn⟩ | ⟨-, rfl, -⟩
      · cases hn
      · refine .scan .startHashing (by simp) ⟨by simp [setListener, finishing],
          by simp [setListener], fun _ => InitHashing.quiet_start 0, id⟩ fun _ => ?_
        simp [hl, finishing, setListener]
  | reconnected hl hs =>
      rcases startStep_packet hs with ⟨-, call', hn⟩ | ⟨-, rfl, -⟩
      · cases hn
      · refine .scan .startHashing (by simp)
          (keeps_setListener _ (by simp [finishing]) (by simp) _) fun hre => ?_
        rw [show c.listener = _ from hre] at hl
        cases hl

theorem effect_moveHashing {m : HashingMove} (h : c.moveHashing cfg m = some (c', ps)) :
    Effect (.hashing m : ClientMove P) c c' ps := by
  have go : ((c.hashing.move cfg.hash cfg.numWorkers c.source m).map fun r =>
      (c.setHashing r.1, r.2)) = some (c', ps) → Effect (.hashing m : ClientMove P) c c' ps := by
    intro h
    obtain ⟨⟨h', qs⟩, hm, heq⟩ := Option.map_eq_some_iff.mp h
    cases heq
    have hk : Keeps c (c.setHashing h') := ⟨id, fun _ => id, fun hq => (hq.move hm).1, id⟩
    rcases InitHashing.move_sends hm with rfl | ⟨block, rfl⟩
    · exact .plain hk (by simp)
    · exact .correct block hk fun hq => by simpa using (hq.move hm).2
  cases m with
  | reader i failed =>
      simp only [Client.moveHashing] at h
      split at h
      · rename_i call hb
        obtain ⟨⟨s, qs, next⟩, hs, heq⟩ := Option.map_eq_some_iff.mp h
        cases heq
        have hk : ∀ w, Keeps c ((c.setShared s).setHashing (c.hashing.setReader i w)) :=
          fun w => ⟨id, fun _ => id, fun hq => hq.setReader hb w, id⟩
        rcases startStep_packet hs with ⟨rfl, -⟩ | ⟨-, rfl, rfl, -⟩
        · exact .plain (hk _) (by simp)
        · exact .scan .startHashing (by simp) (hk _) (by rintro ⟨⟩)
      · exact go h
  | closeWork => exact go h
  | worker i => exact go h
  | closeComp => exact go h
  | comparer i => exact go h

theorem phase_moveGenerator {n : ℕ} {size : UInt64} {r r' : InitReplication}
    (h : r.moveGenerator n size = some r') : r'.phase = r.phase := by
  unfold InitReplication.moveGenerator at h
  split at h
  · split at h <;> cases h <;> rfl
  · obtain ⟨_, -, rfl⟩ := Option.map_eq_some_iff.mp h
    rfl
  · cases h

theorem phase_moveReader {n : ℕ} {source : Image UInt8} {r r' : InitReplication} {i : ℕ}
    {failed : Bool} (h : r.moveReader n source i failed = some r') : r'.phase = r.phase := by
  unfold InitReplication.moveReader at h
  split at h
  · obtain ⟨_, -, rfl⟩ := Option.map_eq_some_iff.mp h
    rfl
  · split at h
    · cases h; rfl
    · split at h <;> cases h <;> rfl
  · obtain ⟨_, -, rfl⟩ := Option.map_eq_some_iff.mp h
    rfl

theorem moveSender_sends {r r' : InitReplication} {i : ℕ}
    (h : r.moveSender i = some (r', ps)) : r'.phase = r.phase ∧ ∀ p ∈ ps, Plain p := by
  unfold InitReplication.moveSender at h
  split at h
  · obtain ⟨_, -, heq⟩ := Option.map_eq_some_iff.mp h
    cases heq
    exact ⟨rfl, by simp⟩
  · cases h
    exact ⟨rfl, by simp [Plain]⟩

/-- `InitReplication` goes on with its blocks. -/
theorem keeps_setReplication {r : InitReplication} (hr : r.phase = c.replication.phase) :
    Keeps c (c.setReplication r) :=
  ⟨id, fun _ => id, id, fun h => hr.symm.trans h⟩

theorem effect_moveReplication {m : ReplicationMove}
    (h : c.moveReplication cfg m = some (c', ps)) :
    Effect (.replication m : ClientMove P) c c' ps := by
  simp only [Client.moveReplication] at h
  split at h
  · obtain ⟨r, hm, heq⟩ := Option.map_eq_some_iff.mp h
    cases heq
    exact .plain (keeps_setReplication (phase_moveGenerator hm)) (by simp)
  · obtain ⟨r, hm, heq⟩ := Option.map_eq_some_iff.mp h
    cases heq
    exact .plain (keeps_setReplication (phase_moveReader hm)) (by simp)
  · split at h
    · cases h
      exact .plain (keeps_setReplication rfl) (by simp)
    · cases h
  · obtain ⟨⟨r, qs⟩, hm, heq⟩ := Option.map_eq_some_iff.mp h
    cases heq
    exact .plain (keeps_setReplication (moveSender_sends hm).1) (moveSender_sends hm).2
  · rename_i hp
    split at h
    · cases h
      exact .replicated ⟨id, fun _ => id, id, fun _ => hp⟩ hp (by simp [setReplication])
    · cases h
  · cases h
    exact .plain ⟨id, fun _ => id, id, by simp [setReplication]⟩ (by simp)
  · obtain ⟨⟨p, r⟩, -, heq⟩ := Option.map_eq_some_iff.mp h
    cases heq
    refine .plain ⟨id, fun _ => id, id, ?_⟩ (by simp)
    cases r <;> simp [setReplication]
  · cases h

/-- A move of a goroutine of the client, or a write. -/
theorem effect_move {m : ClientMove P} (h : c.move cfg m = some (c', ps))
    (hd : ∀ packet, m ≠ .deliver packet) (he : m ≠ .eof) (hd' : m ≠ .dial) :
    Effect m c c' ps := by
  cases m with
  | run => exact effect_moveRun h
  | write a =>
      cases h
      exact .plain (.of_eq rfl rfl rfl) (by simp)
  | monitor sent => exact effect_moveMonitor (Option.ite_none_right_eq_some.mp h).2
  | listener sent => exact effect_moveListener (Option.ite_none_right_eq_some.mp h).2
  | deliver packet => exact absurd rfl (hd packet)
  | eof => exact absurd rfl he
  | dial => exact absurd rfl hd'
  | hashing m => exact effect_moveHashing (Option.ite_none_right_eq_some.mp h).2
  | replication m => exact effect_moveReplication (Option.ite_none_right_eq_some.mp h).2

end Effect

/-! ### What the server does -/

/-- The states in which a correct block is taken, or known to be of no use. -/
def TakesBlocks : ServerState → Bool
  | .hashing | .destroyingReplica | .journalOverflow => true
  | _ => false

/-- Whether the server takes correct blocks, once `HandleClient` is done with its packet. -/
def mode (s : Session) : Bool :=
  match s.handler with
  | .drainingJournal .hashingCompleted | .writingJournal | .settingWriting
  | .drainingReplication _ => false
  | _ => TakesBlocks s.state

/-- Whether it does after one more packet. -/
def modeAfter (b : Bool) : Packet → Bool
  | .cmdStartHashing | .cmdStartFullScan => true
  | .infoHashingCompleted | .infoReplicationCompleted | .infoStartReplication => false
  | _ => b

/-- `HandleClient` is about to start `HashDisk`. -/
def startsHash : Handler → Bool
  | .drainingJournal .startHashing | .awaitingHash => true
  | _ => false

/-- The scans the server is about to start or has not ended. -/
def serverTokens (s : Session) : ℕ :=
  (startsHash s.handler).toNat + if s.hashDisk.phase = .returned then 0 else 1

/-- What a move of the server other than a packet's receipt does. -/
structure ServerEffect (s t : Session) (ps : List Packet) : Prop where
  mode : System.mode s = true → System.mode t = true
  tokens : serverTokens t + ps.count .infoHashingCompleted ≤ serverTokens s
  hashes : ∀ h, .payloadHash h ∈ ps → ps = [.payloadHash h] ∧ 0 < serverTokens s

section Server
variable {hash : List UInt8 → UInt64} {numWorkers : ℕ} {s t : Session} {ps : List Packet}

theorem ServerEffect.of_eq (hh : t.handler = s.handler)
    (hs : t.state = s.state) (hd : t.hashDisk.phase = s.hashDisk.phase)
    (hps : ps = [] ∨ ps = [.errJournalOverflow]) : ServerEffect s t ps := by
  refine ⟨by simp [System.mode, hh, hs], ?_, ?_⟩
  · rcases hps with rfl | rfl <;> simp [serverTokens, hh, hd]
  · rcases hps with rfl | rfl <;> simp

theorem deliver_cases (sent : Sent) (p : Packet) : sent.deliver p = [] ∨ sent.deliver p = [p] := by
  unfold Sent.deliver
  split
  · exact .inr rfl
  · exact .inl rfl

/-- A move of `HashDisk`. -/
theorem hashDisk_sends {c : HashConfig} {target : Device} {h h' : HashDisk} {m : HashMove}
    (hm : h.move c target m = some (h', ps)) :
    (if h'.phase = .returned then 0 else 1) + ps.count .infoHashingCompleted ≤ 1 ∧
      ∀ info, .payloadHash info ∈ ps → ps = [.payloadHash info] := by
  have key : ∀ {qs : List Packet}, qs = [] ∨ (∃ p, qs = [p] ∧ p ≠ .infoHashingCompleted) →
      (if h'.phase = .returned then 0 else 1) + qs.count .infoHashingCompleted ≤ 1 ∧
        ∀ info, .payloadHash info ∈ qs → qs = [.payloadHash info] := by
    rintro qs (rfl | ⟨p, rfl, hp⟩)
    · simp only [List.count_nil]
      split <;> simp
    · rw [List.count_eq_zero.mpr (by simpa using hp.symm)]
      refine ⟨by split <;> simp, ?_⟩
      simp [eq_comm]
  have hdel : ∀ (sent : Sent) (p : Packet), p ≠ .infoHashingCompleted →
      sent.deliver p = [] ∨ ∃ q, sent.deliver p = [q] ∧ q ≠ .infoHashingCompleted :=
    fun sent p hp => (deliver_cases sent p).imp_right fun h => ⟨p, h, hp⟩
  cases m with
  | announce sent =>
      simp only [HashDisk.move, Option.ite_none_right_eq_some, Option.some.injEq,
        Prod.mk.injEq] at hm
      obtain ⟨-, -, rfl⟩ := hm
      exact key (hdel sent _ (by simp))
  | generator | reader i failed | hasher i =>
      simp only [HashDisk.move, Option.ite_none_right_eq_some, Option.map_eq_some_iff,
        Prod.mk.injEq] at hm
      obtain ⟨-, _, -, -, rfl⟩ := hm
      exact key (.inl rfl)
  | closeWork | closeResults =>
      simp only [HashDisk.move, Option.ite_none_right_eq_some, Option.some.injEq,
        Prod.mk.injEq] at hm
      obtain ⟨-, -, rfl⟩ := hm
      exact key (.inl rfl)
  | sender i sent =>
      obtain ⟨-, hm⟩ := Option.ite_none_right_eq_some.mp hm
      refine key ?_
      unfold HashDisk.moveSender at hm
      split at hm
      · obtain ⟨_, -, heq⟩ := Option.map_eq_some_iff.mp hm
        cases heq
        exact .inl rfl
      · cases hm
        exact .inl rfl
      all_goals
        cases hm
        exact hdel sent _ (by simp)
  | complete sent =>
      simp only [HashDisk.move, Option.ite_none_right_eq_some, Option.some.injEq,
        Prod.mk.injEq] at hm
      obtain ⟨-, rfl, rfl⟩ := hm
      rcases deliver_cases sent .infoHashingCompleted with h | h <;> simp [h]

theorem serverEffect_moveHandler {sent : Sent} (h : s.moveHandler numWorkers sent = some (t, ps)) :
    ServerEffect s t ps := by
  cases Session.moveHandler_cases h with
  | @enqueued queue packet s' hh hs =>
      have hf : s'.state = s.state ∧ s'.hashDisk = s.hashDisk := by
        cases queue <;> obtain ⟨q, -, rfl⟩ := Option.map_eq_some_iff.mp hs <;> exact ⟨rfl, rfl⟩
      exact ⟨by simp [mode, hh, hf.1], by simp [serverTokens, hh, hf.2, startsHash], by simp⟩
  | journalDrained hh =>
      refine ⟨by simp [mode, hh], ?_, by simp⟩
      simp only [serverTokens, hh, startsHash, HashDisk.terminate]
      exact Nat.le_refl _
  | hashStarted hh hp =>
      exact ⟨by simp [mode, hh], by simp [serverTokens, hh, hp, startsHash], by simp⟩
  | @journalWritten r hh =>
      refine ⟨by simp [mode, hh], ?_, fun info => ?_⟩
      · split
        · simp [serverTokens, hh, startsHash]
        · rcases deliver_cases sent .errJournalOverflow with h | h <;>
            simp [serverTokens, hh, startsHash, h]
      · split
        · simp
        · rcases deliver_cases sent .errJournalOverflow with h | h <;> simp [h]
  | scanDrained hh | journalSkipped hh | writingSet hh | replicationStarted hh
  | replicationEnded hh =>
      exact ⟨by simp [mode, hh], by simp [serverTokens, hh, startsHash], by simp⟩

theorem serverEffect_moveJournaler {sent : Sent} (h : s.moveJournaler sent = some (t, ps)) :
    ServerEffect s t ps := by
  rcases Session.moveJournaler_cases h with ⟨q, -, rfl, rfl⟩ | ⟨p, -, rfl, rfl⟩ |
    ⟨p, r, -, -, ⟨-, rfl, rfl⟩ | ⟨-, rfl, rfl⟩⟩ | ⟨-, rfl, rfl⟩
  · exact .of_eq rfl rfl rfl (.inl rfl)
  · exact .of_eq rfl rfl rfl (.inl rfl)
  · exact .of_eq rfl rfl rfl (.inl rfl)
  · exact .of_eq rfl rfl rfl (deliver_cases sent _)
  · refine ⟨fun hm => ?_, Nat.le_refl _, by simp⟩
    cases hh : s.handler with
    | drainingJournal k => cases k <;> simp_all [mode, TakesBlocks, Session.setJournaler]
    | _ => simp_all [mode, TakesBlocks, Session.setJournaler]

/-- A move of a goroutine of the server. -/
theorem serverEffect_move {m : SessionMove} (h : s.move hash numWorkers m = some (t, ps))
    (hr : ∀ packet, m ≠ .receive packet) : ServerEffect s t ps := by
  cases Session.move_cases h with
  | receive _ => exact absurd rfl (hr _)
  | handler hm => exact serverEffect_moveHandler hm
  | journaler hm => exact serverEffect_moveJournaler hm
  | writer hm =>
      have hf := Session.frame_moveWriter hm
      refine .of_eq hf.handler hf.state ?_ (.inl rfl)
      rcases Session.moveWriter_cases hm with ⟨q, -, rfl⟩ | ⟨p, -, rfl⟩ |
        ⟨p, -, ⟨-, rfl⟩ | ⟨w, r, -, -, rfl⟩⟩
      · rfl
      · rfl
      · rfl
      · split <;> rfl
  | corrector hm =>
      have hf := Session.frame_moveCorrector hm
      refine .of_eq hf.handler hf.state ?_ (.inl rfl)
      rcases Session.moveCorrector_cases hm with ⟨q, -, rfl⟩ |
        ⟨p, -, ⟨-, rfl⟩ | ⟨b, r, -, -, rfl⟩⟩ <;> rfl
  | replicator hm =>
      have hf := Session.frame_moveReplicator hm
      refine .of_eq hf.handler hf.state ?_ (.inl rfl)
      rcases Session.moveReplicator_cases hm with ⟨q, -, rfl⟩ |
        ⟨p, -, ⟨-, rfl⟩ | ⟨b, r, -, -, rfl⟩⟩ <;> rfl
  | startHash hm =>
      have hf := Session.frame_moveStartHash hm
      refine ⟨by simp [mode, hf.handler, hf.state], ?_, by simp⟩
      rcases Session.moveStartHash_cases hm with ⟨hp, rfl⟩ | ⟨hp, r, -, rfl⟩
      · split <;> simp [serverTokens, Session.setPhase, hp]
      · simp [serverTokens, Session.setPhase, Session.setJournal, hp]
  | hash hm =>
      obtain ⟨hp, -⟩ := HashDisk.phase_move hm
      have hp : s.hashDisk.phase ≠ .returned := by
        rcases hp with hp | hp <;> simp [hp]
      obtain ⟨htok, hhash⟩ := hashDisk_sends hm
      refine ⟨id, ?_, fun info hin => ⟨hhash info hin, by simp [serverTokens, hp]⟩⟩
      simp only [serverTokens, hp, if_false] at htok ⊢
      omega

/-- A packet is received. -/
theorem mode_receive (hr : s.handler = .receiving) (p : Packet) :
    mode (s.receive p) = modeAfter (mode s) p := by
  cases hc : Session.IsControl p with
  | true => cases p <;> first | rfl | cases hc
  | false =>
      have hafter : modeAfter (mode s) p = mode s := by
        cases p <;> first | rfl | cases hc
      rw [hafter]
      rcases Session.receive_of_data hc s with ⟨queue, -, h⟩ | ⟨-, h⟩ <;> simp [h, mode, hr]

/-- The command that starts a scan. -/
def IsScan (p : Packet) : Bool := p = .cmdStartHashing ∨ p = .cmdStartFullScan

theorem serverTokens_receive (hr : s.handler = .receiving) (p : Packet) :
    serverTokens (s.receive p) = serverTokens s + (IsScan p).toNat := by
  cases hc : Session.IsControl p with
  | true =>
      have key : ∀ {t : Session} {b : Bool}, t.hashDisk.phase = s.hashDisk.phase →
          startsHash t.handler = b → serverTokens t = serverTokens s + b.toNat := by
        rintro t b hp rfl
        simp [serverTokens, hr, startsHash, hp, Nat.add_comm]
      cases p <;> first | exact key rfl rfl | cases hc
  | false =>
      have hscan : IsScan p = false := by
        cases p <;> first | rfl | cases hc
      rcases Session.receive_of_data hc s with ⟨queue, -, h⟩ | ⟨-, h⟩ <;>
        simp [h, serverTokens, hr, startsHash, hscan]

end Server

end Bdr.System
