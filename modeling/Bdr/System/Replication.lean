import Bdr.Client.Replication
import Bdr.Server.Replicator
import Bdr.System.Steady

/-!
# System — a full replication

`FullReplicate` sends the whole device to the server while applications go on writing to it.  The
blocks are read byte by byte by several goroutines and written by several others, in any order: they
are a snapshot of no single moment.  The writes made meanwhile wait in the ring, and the monitor
passes them on when all blocks are written.

Every byte of the replica was then on the source at some moment before the first of those reads of
the ring (`Past`), so that the writes up to any later read make it what it was at that read.
-/

namespace Bdr.System

open Client Server Kern

variable {P : ℕ}

/-- A system in a full replication: what has been captured, what the source was and how much had
been captured when the monitor read the ring, how many buffer writes the server has written, and
whether it has handled `InfoReplicationCompleted`. -/
structure Replication (P : ℕ) where
  captured : Captured P
  reads : List (ℕ × Image UInt8)
  written : ℕ
  completed : Bool

namespace Replication

def start (client : Client) (machine : Machine) : Replication P :=
  ⟨.start client machine, [], 0, false⟩

section Step
variable (cfg : Config) (t : Replication P)

abbrev client : Client := t.captured.system.client

abbrev session : Session := t.captured.system.session

abbrev capture : Capture P := t.captured.capture

abbrev toServer : List Packet := t.captured.system.toServer

def noteRead : Move P → List (ℕ × Image UInt8)
  | .client (.monitor _) =>
      if t.client.monitor = .reading then
        t.reads ++ [(t.capture.captured.length, t.client.source)]
      else t.reads
  | _ => t.reads

def noteWritten : Move P → ℕ
  | .server m => t.written + t.session.wrote m
  | _ => t.written

def noteCompleted : Move P → Bool
  | .server (.handler _) =>
      t.completed || t.session.handler = .drainingReplication .replicationCompleted
  | _ => t.completed

def step (m : Move P) : Option (Replication P) :=
  (t.captured.step cfg m).map (⟨·, t.noteRead m, t.noteWritten m, t.noteCompleted m⟩)

/-- The ring takes every write, which lies on the device, the device can be read, and the connection
stays up. -/
def careful : Move P → Prop
  | .client (.write a) => (bdrRingBufferPut t.client.shared.ring a).2 = true ∧
      (writeInfo a).patch.offset + (writeInfo a).patch.data.length ≤ cfg.client.diskSize.toNat
  | .client (.replication (.reader _ failed)) => failed = false
  | .client _ | .server _ => True
  | .disconnect | .reconnect _ => False

end Step

instance (cfg : Config) (t : Replication P) (m : Move P) : Decidable (t.careful cfg m) :=
  match m with
  | .client (.write _) => inferInstanceAs (Decidable (_ ∧ _))
  | .client (.replication (.reader _ failed)) => inferInstanceAs (Decidable (failed = false))
  | .client (.replication .generator) | .client (.replication .closeSend)
  | .client (.replication (.sender _)) | .client (.replication .finish)
  | .client .run | .client (.monitor _) | .client (.listener _) | .client (.deliver _)
  | .client .eof | .client .dial | .client (.hashing _) | .server _ => isTrue trivial
  | .disconnect | .reconnect _ => isFalse id

/-- A script is followed. -/
def follow (cfg : Config) : Replication P → Cue P → Option (Replication P) :=
  System.follow cfg (·.captured.system)
    (fun t m s => ⟨⟨s, t.captured.note cfg m⟩, t.noteRead m, t.noteWritten m, t.noteCompleted m⟩)
    (careful cfg)

theorem exists_run {cfg : Config} {t t' : Replication P} {script : List (Cue P)}
    (h : exec (follow cfg) t script = some t') :
    ∃ moves, Run (step cfg) (careful cfg) t moves t' :=
  exists_run_of_follow (fun _ _ => Option.map_map ..) h

/-! ### The packets on their way -/

/-- The packets after `InfoStartReplication`: blocks, and when there are no more (`open` is false),
`InfoReplicationCompleted` and buffer writes. -/
inductive Stream (ok : ReplicationBlockInfo → Prop) : Bool → List Packet → Prop
  | nil : Stream ok true []
  | block {running : Bool} {ps : List Packet} {b : ReplicationBlockInfo} (hb : ok b)
      (h : Stream ok running ps) : Stream ok running (.payloadReplicationBlock b :: ps)
  | completed {ps : List Packet} (h : ∀ p ∈ ps, ∃ w, p = .payloadBufferWrite w) :
      Stream ok false (.infoReplicationCompleted :: ps)

section Stream
variable {ok ok' : ReplicationBlockInfo → Prop} {running : Bool} {ps : List Packet}

theorem Stream.mono (h : Stream ok running ps) (hok : ∀ b, ok b → ok' b) :
    Stream ok' running ps := by
  induction h with
  | nil => exact .nil
  | block hb _ ih => exact .block (hok _ hb) ih
  | completed h => exact .completed h

/-- The first of the packets. -/
theorem Stream.head {packet : Packet} (h : Stream ok running (packet :: ps)) :
    (∃ b, packet = .payloadReplicationBlock b ∧ ok b) ∧ Stream ok running ps ∨
      packet = .infoReplicationCompleted ∧ running = false ∧
        ∀ p ∈ ps, ∃ w, p = .payloadBufferWrite w := by
  cases h with
  | block hb h => exact .inl ⟨⟨_, rfl, hb⟩, h⟩
  | completed h => exact .inr ⟨rfl, rfl, h⟩

theorem Stream.sendBlock {b : ReplicationBlockInfo} (h : Stream ok true ps) (hb : ok b) :
    Stream ok true (ps ++ [.payloadReplicationBlock b]) := by
  generalize hr : true = running at h
  induction h with
  | nil => exact .block hb .nil
  | block hb' _ ih => exact .block hb' (ih hr)
  | completed => cases hr

theorem Stream.complete (h : Stream ok true ps) :
    Stream ok false (ps ++ [.infoReplicationCompleted]) := by
  generalize hr : true = running at h
  induction h with
  | nil => exact .completed (by simp)
  | block hb _ ih => exact .block hb (ih hr)
  | completed => cases hr

theorem Stream.sendWrites {qs : List Packet} (h : Stream ok false ps)
    (hqs : ∀ p ∈ qs, ∃ w, p = .payloadBufferWrite w) : Stream ok false (ps ++ qs) := by
  generalize hr : false = running at h
  induction h with
  | nil => cases hr
  | block hb _ ih => exact .block hb (ih hr)
  | completed h => exact .completed fun p hp => (List.mem_append.mp hp).elim (h p) (hqs p)

end Stream

/-! ### The invariant -/

/-- The byte was on the source at some moment up to the `cut`th write. -/
def Seen (g : Capture P) (cut p : ℕ) (v : UInt8) : Prop :=
  g.base.Past (patches g.captured) cut p v

/-- What holds all along. -/
structure Common (cfg : Config) (t : Replication P) : Prop where
  connected : t.captured.system.connected = true
  toClient : t.captured.system.toClient = []
  flow : Flow cfg.client.targetInfo t.client t.capture
  plan : t.session.machine.target.plan = []
  size : t.session.machine.target.size = cfg.client.diskSize.toNat
  fits : ∀ w ∈ patches t.capture.captured, w.offset + w.data.length ≤ cfg.client.diskSize.toNat

/-- `FullReplicate` is under way. -/
structure Starting (t : Replication P) : Prop where
  client : t.client.Commanding .fullReplicate
  session : t.session.Fresh
  toServer : t.toServer = []
  sent : t.capture.sent = []
  reads : t.reads = []
  written : t.written = 0
  completed : t.completed = false

/-- The client in the replication: no byte of a block is younger than the `cut`th write, and no read
of the ring is older. -/
structure Copied (cfg : Config) (cut : ℕ) (t : Replication P) : Prop where
  client : t.client.Copying cfg.client (Seen t.capture cut)
  cut_le : cut ≤ t.capture.captured.length
  running : t.client.replication.phase = .running → cut = t.capture.captured.length ∧ t.reads = []
  reads : ∀ r ∈ t.reads, cut ≤ r.1 ∧ r.1 ≤ t.capture.captured.length ∧
    r.2 = t.capture.base.applyAll ((patches t.capture.captured).take r.1)

/-- What the server has received, and what it is about to. -/
inductive Incoming (size : ℕ) (Q : ℕ → UInt8 → Prop) (running : Bool) (s : Session) :
    List Packet → Prop
  | fresh {ps : List Packet} (hs : s.Fresh) (h : Stream (BlockInfo.Carries size Q) running ps) :
      Incoming size Q running s (.infoStartReplication :: ps)
  | taking {ps : List Packet} (hs : s.Taking size Q)
      (hh : s.handler ≠ .drainingReplication .replicationCompleted)
      (h : Stream (BlockInfo.Carries size Q) running ps) : Incoming size Q running s ps
  | closing {ps : List Packet} (hs : s.Taking size Q)
      (hh : s.handler = .drainingReplication .replicationCompleted) (hr : running = false)
      (h : ∀ p ∈ ps, ∃ w, p = .payloadBufferWrite w) : Incoming size Q running s ps

/-- How often the blocks on their way cover `p`. -/
def weight (p : ℕ) (t : Replication P) : ℕ :=
  t.client.replication.weight p + (t.toServer.map (Packet.weight p)).sum + t.session.weight p

/-- Blocks are on their way: what none of them covers is written. -/
structure Before (cfg : Config) (cut : ℕ) (t : Replication P) : Prop where
  incoming : Incoming cfg.client.diskSize.toNat (Seen t.capture cut)
    (t.client.replication.phase = .running) t.session t.toServer
  cover : ∀ p < cfg.client.diskSize.toNat, t.weight p = 0 →
    Seen t.capture cut p (t.session.machine.target.bytes p)
  sent : t.capture.sent = writes t.toServer
  written : t.written = 0
  completed : t.completed = false

/-- The server writes what the monitor sends, over the replica that the blocks have made. -/
structure After (cfg : Config) (cut : ℕ) (t : Replication P) : Prop where
  session : t.session.OnlyWrites
  phase : t.client.replication.phase ≠ .running
  toServer : ∀ p ∈ t.toServer, ∃ w, p = .payloadBufferWrite w
  replica : ∃ (r : Image UInt8) (done : List (Patch UInt8)),
    (∀ p < cfg.client.diskSize.toNat, Seen t.capture cut p (r p)) ∧
    t.session.machine.target.bytes = r.applyAll done ∧ t.written = done.length ∧
    t.capture.sent = done ++ writes t.session.queued ++ writes t.toServer

inductive Stage (cfg : Config) (t : Replication P) : Prop
  | starting (h : Starting t)
  | before {cut : ℕ} (hc : Copied cfg cut t) (h : Before cfg cut t)
  | after {cut : ℕ} (hc : Copied cfg cut t) (h : After cfg cut t)

section Stages
variable {size : ℕ} {Q Q' : ℕ → UInt8 → Prop} {running : Bool} {s : Session} {ps : List Packet}

theorem Incoming.mono (h : Incoming size Q running s ps) (hQ : ∀ p v, Q p v → Q' p v) :
    Incoming size Q' running s ps := by
  cases h with
  | fresh hs h => exact .fresh hs (h.mono fun b hb => hb.mono hQ)
  | taking hs hh h => exact .taking (hs.mono hQ) hh (h.mono fun b hb => hb.mono hQ)
  | closing hs hh hr h => exact .closing (hs.mono hQ) hh hr h

theorem Incoming.queued (h : Incoming size Q running s ps) : s.queued = [] := by
  cases h with
  | fresh hs _ => exact hs.queued
  | taking hs _ _ => exact hs.queued
  | closing hs _ _ _ => exact hs.queued

/-- What the client sends goes behind what is on its way. -/
theorem Incoming.append {qs : List Packet} {running' : Bool} (h : Incoming size Q running s ps)
    (hstream : ∀ ps, Stream (BlockInfo.Carries size Q) running ps →
      Stream (BlockInfo.Carries size Q) running' (ps ++ qs))
    (hwrites : running = false → running' = false ∧ ∀ p ∈ qs, ∃ w, p = .payloadBufferWrite w) :
    Incoming size Q running' s (ps ++ qs) := by
  cases h with
  | fresh hs h => exact .fresh hs (hstream _ h)
  | taking hs hh h => exact .taking hs hh (hstream _ h)
  | closing hs hh hr h =>
      obtain ⟨hr', hqs⟩ := hwrites hr
      exact .closing hs hh hr' fun p hp => (List.mem_append.mp hp).elim (h p) (hqs p)

/-- The packets of a move of the client. -/
theorem Incoming.sends {cfg : ClientConfig} {c c' : Client}
    (h : Incoming cfg.diskSize.toNat Q (c.replication.phase = .running) s ps) {qs : List Packet}
    (hs : Sends cfg Q c c' qs) :
    Incoming cfg.diskSize.toNat Q (c'.replication.phase = .running) s (ps ++ qs) := by
  cases hs with
  | writes hqs hphase _ =>
      rcases hphase with ⟨hp, hp', rfl⟩ | ⟨hp, hp'⟩
      · simpa [hp, hp'] using h
      · simp only [hp, hp', decide_false] at h ⊢
        exact h.append (fun ps h => h.sendWrites hqs) fun _ => ⟨rfl, hqs⟩
  | block hb hp hp' _ =>
      simp only [hp, hp', decide_true] at h ⊢
      exact h.append (fun ps h => h.sendBlock hb) (by simp)
  | completed hp hp' _ =>
      simp only [hp, hp', decide_true, decide_false] at h ⊢
      exact h.append (fun ps h => h.complete) (by simp)

end Stages

/-- Buffer writes are no blocks. -/
theorem sum_weight_of_writes {ps : List Packet} (h : ∀ p ∈ ps, ∃ w, p = .payloadBufferWrite w)
    (p : ℕ) : (ps.map (Packet.weight p)).sum = 0 := by
  induction ps with
  | nil => rfl
  | cons q ps ih =>
      obtain ⟨w, rfl⟩ := h q List.mem_cons_self
      simpa [Packet.weight] using ih fun p hp => h p (List.mem_cons_of_mem _ hp)

/-! ### The client moves -/

section Client
variable {cfg : Config} {t t' : Replication P} {cut : ℕ} {m : ClientMove P}

/-- What a move of the client changes, where the listener has nothing to do. -/
structure ClientStep (cfg : Config) (t : Replication P) (m : ClientMove P) (t' : Replication P)
    (ps : List Packet) : Prop where
  move : t.client.move cfg.client m = some (t'.client, ps)
  session : t'.session = t.session
  toServer : t'.toServer = t.toServer ++ ps
  capture : t'.capture = t.capture.after t.client m ps
  reads : t'.reads = t.noteRead (.client m)
  written : t'.written = t.written
  completed : t'.completed = t.completed

theorem Common.clientMoves (h : Common cfg t) (hm : t.careful cfg (.client m))
    (hord : t.client.Orderly m) (hl : t.client.listener = .receiving)
    (hs : t.step cfg (.client m) = some t') :
    ∃ ps, ClientStep cfg t m t' ps ∧ m.ofListener = false ∧ Common cfg t' := by
  obtain ⟨u, hu, rfl⟩ := Option.map_eq_some_iff.mp hs
  obtain ⟨c, ps, toClient, hmove, hin, rfl⟩ := Captured.step_client hu
  obtain ⟨hlist, rfl⟩ := hin.of_receiving h.connected h.toClient hl hmove
  refine ⟨ps, ⟨hmove, rfl, ?_, rfl, rfl, rfl, rfl⟩, hlist,
    ⟨h.connected, rfl, h.flow.move hord hmove, h.plan, h.size, ?_⟩⟩
  · simp only [toServer, h.connected, push_true]
  · intro w hw
    obtain ⟨a, ha, rfl⟩ := List.mem_map.mp hw
    rcases Capture.mem_captured_after ha with ha | rfl
    · exact h.fits _ (List.mem_map_of_mem ha)
    · exact hm.2

theorem Common.unflagged (h : Common cfg t) :
    t.client.shared.ring.bufferInfo.overflown = false := by
  obtain ⟨q, w, -, hout, -⟩ := h.flow.ring
  exact overflown_of_flags hout.refines.flags

theorem room_of_careful (hm : t.careful cfg (.client m)) (a : Put P) (ha : m = .write a) :
    (bdrRingBufferPut t.client.shared.ring a).2 = true := by
  subst ha
  exact hm.1

theorem noteRead_of_read (hop : t.client.ringOp m = some .read)
    (hmon : t.client.monitor = .reading) (hl : t.client.listener = .receiving) :
    t.noteRead (.client m) = t.reads ++ [(t.capture.captured.length, t.client.source)] := by
  cases m with
  | monitor sent => exact if_pos hmon
  | run =>
      obtain ⟨r, -, hr⟩ := Option.bind_eq_some_iff.mp hop
      exact absurd hr r.2.ringOp_ne_read
  | listener sent => simp [Client.ringOp, hl] at hop
  | hashing m =>
      by_cases hnot : ∀ i failed call, m = .reader i failed →
          t.client.hashing.readers.busy? i ≠ some (.starting call)
      · rw [ringOp_hashes hnot] at hop
        cases hop
      · push Not at hnot
        obtain ⟨i, failed, call, rfl, hb⟩ := hnot
        simp only [Client.ringOp, hb] at hop
        exact absurd hop call.ringOp_ne_read
  | write | deliver | eof | dial | replication => cases hop

theorem noteRead_of_ne (hop : t.client.ringOp m ≠ some .read) :
    t.noteRead (.client m) = t.reads := by
  cases m with
  | monitor sent =>
      have hmon : t.client.monitor ≠ .reading := fun hmon => hop (by simp [Client.ringOp, hmon])
      simp [noteRead, hmon]
  | _ => rfl

theorem Starting.clientMoves (h : Starting t) (hcom : Common cfg t)
    (hn : 0 < cfg.client.numWorkers) (hm : t.careful cfg (.client m))
    (hs : t.step cfg (.client m) = some t') : Common cfg t' ∧ Stage cfg t' := by
  have hord := h.client.orderly (room_of_careful hm)
  obtain ⟨ps, hstep, -, hcom'⟩ := hcom.clientMoves hm hord h.client.listener hs
  refine ⟨hcom', ?_⟩
  rcases h.client.move hstep.move with ⟨hc, rfl⟩ | ⟨hchan, rfl, ⟨rfl, hrun⟩, hc⟩
  · refine .starting ⟨hc, hstep.session ▸ h.session, ?_, ?_, ?_, hstep.written.trans h.written,
      hstep.completed.trans h.completed⟩
    · rw [hstep.toServer, h.toServer]
      rfl
    · rw [hstep.capture]
      by_cases hop : t.client.ringOp m = some .reset
      · simp [Capture.after, hop]
      · exact (Capture.sent_after hstep.move hop).trans (by simp [h.sent])
    · rw [hstep.reads]
      cases m with
      | monitor sent => simp [noteRead, h.client.monitor, h.reads]
      | _ => exact h.reads
  · -- the command has returned
    have hop : t.client.ringOp (.run : ClientMove P) = none := by
      simp [Client.ringOp, hrun, StartCall.ringOp]
    have hcapture : t'.capture = t.capture := by
      rw [hstep.capture]
      simp only [Capture.after, hop, show writes [Command.fullReplicate.packet] = [] from rfl,
        List.append_nil]
    have htoServer : t'.toServer = [.infoStartReplication] := by
      rw [hstep.toServer, h.toServer]
      rfl
    have hreads : t'.reads = [] := hstep.reads.trans h.reads
    have hcopying : t'.client.Copying cfg.client (Seen t'.capture t'.capture.captured.length) := by
      rw [hc]
      exact h.client.copying hn hchan
    have hphase : t'.client.replication.phase = .running := by rw [hc]; rfl
    refine .before ⟨hcopying, le_rfl, fun _ => ⟨rfl, hreads⟩, ?_⟩
      ⟨?_, fun p _ hp => ?_, ?_, hstep.written.trans h.written, hstep.completed.trans h.completed⟩
    · rw [hreads]
      intro r hr
      cases hr
    · rw [htoServer, hstep.session]
      simp only [hphase, decide_true]
      exact .fresh h.session .nil
    · rw [weight, hc] at hp
      simp [InitReplication.weight_start] at hp
    · rw [hcapture, htoServer, h.sent]
      rfl

/-- What was seen stays so as writes come, and `cut` goes with them until the blocks are read. -/
theorem Copied.clientMoves (h : Copied cfg cut t) (hcom : Common cfg t)
    (hd : cfg.client.diskSize.toNat < 2 ^ 63) (hm : t.careful cfg (.client m))
    (hs : t.step cfg (.client m) = some t') :
    ∃ ps cut', ClientStep cfg t m t' ps ∧ Common cfg t' ∧ Copied cfg cut' t' ∧
      (∀ p v, Seen t.capture cut p v → Seen t'.capture cut' p v) ∧
      Sends cfg.client (Seen t.capture cut) t.client t'.client ps ∧
      t'.capture.sent = t.capture.sent ++ writes ps := by
  have hord := h.client.orderly (room_of_careful hm)
  obtain ⟨ps, hstep, hlist, hcom'⟩ := hcom.clientMoves hm hord h.client.listener hs
  have hfail : ∀ i, m ≠ .replication (.reader i true) := by
    rintro i rfl
    cases hm
  have hnow : t.client.replication.phase = .running →
      ∀ p, Seen t.capture cut p (t.client.source p) := by
    intro hp p
    have hpast := Image.past_now t.capture.base (patches t.capture.captured) p
    rw [← hcom.flow.source] at hpast
    rwa [Seen, (h.running hp).1, ← length_patches]
  obtain ⟨hop, hread⟩ := h.client.ringOp m
  obtain ⟨hcopying, hsends⟩ := h.client.move hd hcom.unflagged hlist hfail hnow hstep.move
  obtain ⟨hbase, more, hmore, hsame⟩ :=
    Capture.captured_after t.capture hop ps
  rw [← hstep.capture] at hbase hmore
  have hrunning : t'.client.replication.phase = .running →
      t.client.replication.phase = .running := by
    intro hp
    cases hsends with
    | writes _ hphase _ =>
        rcases hphase with ⟨hp', -⟩ | ⟨-, hnot⟩
        · exact hp'
        · exact absurd hp hnot
    | block _ hp' _ _ => exact hp'
    | completed hp' _ _ => exact hp'
  have hlen : t.capture.captured.length ≤ t'.capture.captured.length := by
    rw [hmore, List.length_append]
    exact Nat.le_add_right _ _
  -- while blocks are read, the cut is at the last write
  obtain ⟨cut', hcut', hcut⟩ : ∃ cut', (t'.client.replication.phase = .running →
      cut' = t'.capture.captured.length) ∧ (cut' = cut ∨ cut' = t'.capture.captured.length ∧
        t'.client.replication.phase = .running) := by
    by_cases hp : t'.client.replication.phase = .running
    · exact ⟨_, fun _ => rfl, .inr ⟨rfl, hp⟩⟩
    · exact ⟨cut, fun hp' => absurd hp' hp, .inl rfl⟩
  have hle : cut ≤ cut' ∧ cut' ≤ t'.capture.captured.length := by
    have := h.cut_le
    omega
  -- what has been seen stays seen as the cut goes on
  have hmono : ∀ p v, Seen t.capture cut p v → Seen t'.capture cut' p v := by
    intro p v hv
    rw [Seen, hbase, hmore, patches_append]
    exact hv.mono (by rw [length_patches]; exact h.cut_le) hle.1 _
  have hearly : t'.client.replication.phase = .running → t'.reads = [] := by
    intro hp
    rw [hstep.reads, noteRead_of_ne fun hop => (hread hop).2 (hrunning hp)]
    exact (h.running (hrunning hp)).2
  refine ⟨ps, cut', hstep, hcom', ⟨hcopying.mono hmono, hle.2, fun hp => ⟨hcut' hp, hearly hp⟩, ?_⟩,
    hmono, hsends, by rw [hstep.capture, Capture.sent_after hstep.move hop]⟩
  intro r hr
  have hcut : cut' = cut := by
    refine hcut.resolve_right fun hp => ?_
    rw [hearly hp.2] at hr
    cases hr
  rw [hcut, hbase]
  have hold : r ∈ t.reads → cut ≤ r.1 ∧ r.1 ≤ t'.capture.captured.length ∧
      r.2 = t.capture.base.applyAll ((patches t'.capture.captured).take r.1) := by
    intro hr
    obtain ⟨hle, hlen', himage⟩ := h.reads r hr
    refine ⟨hle, hlen'.trans hlen, ?_⟩
    rw [himage, hmore, patches_append, List.take_append_of_le_length (by rwa [length_patches])]
  rw [hstep.reads] at hr
  by_cases hop : t.client.ringOp m = some .read
  · -- the monitor reads the ring
    obtain ⟨hmon, -⟩ := hread hop
    rw [noteRead_of_read hop hmon h.client.listener] at hr
    rcases List.mem_append.mp hr with hr | hr
    · exact hold hr
    · rw [List.mem_singleton.mp hr, hmore, hsame hop, List.append_nil]
      refine ⟨h.cut_le, le_rfl, ?_⟩
      rw [← length_patches, List.take_length]
      exact hcom.flow.source
  · rw [noteRead_of_ne hop] at hr
    exact hold hr

theorem Before.clientMoves (h : Before cfg cut t) (hc : Copied cfg cut t) (hcom : Common cfg t)
    (hd : cfg.client.diskSize.toNat < 2 ^ 63) (hm : t.careful cfg (.client m))
    (hs : t.step cfg (.client m) = some t') : Common cfg t' ∧ Stage cfg t' := by
  obtain ⟨ps, cut', hstep, hcom', hc', hmono, hsends, hsent⟩ := hc.clientMoves hcom hd hm hs
  refine ⟨hcom', .before hc' ⟨?_, fun p hp hw => ?_, ?_, hstep.written.trans h.written,
    hstep.completed.trans h.completed⟩⟩
  · rw [hstep.session, hstep.toServer]
    exact (h.incoming.sends hsends).mono hmono
  · have hweight : t.weight p = t'.weight p := by
      simp only [weight, hstep.session, hstep.toServer, List.map_append, List.sum_append]
      cases hsends with
      | writes hps _ hw =>
          have hzero : (ps.map (Packet.weight p)).sum = 0 := sum_weight_of_writes hps p
          rw [hw p hp, hzero]
          omega
      | block _ _ _ hw =>
          have := hw p
          simp only [List.map_cons, List.map_nil, List.sum_cons, List.sum_nil, Packet.weight]
          omega
      | completed _ _ hw =>
          simp [hw p, Packet.weight]
    rw [hstep.session]
    exact hmono _ _ (h.cover p hp (hweight.trans hw))
  · rw [hsent, h.sent, hstep.toServer, writes_append]

theorem After.clientMoves (h : After cfg cut t) (hc : Copied cfg cut t) (hcom : Common cfg t)
    (hd : cfg.client.diskSize.toNat < 2 ^ 63) (hm : t.careful cfg (.client m))
    (hs : t.step cfg (.client m) = some t') : Common cfg t' ∧ Stage cfg t' := by
  obtain ⟨ps, cut', hstep, hcom', hc', hmono, hsends, hsent⟩ := hc.clientMoves hcom hd hm hs
  obtain ⟨r, done, hseen, hbytes, hwritten, hdone⟩ := h.replica
  obtain ⟨hps, hphase⟩ : (∀ p ∈ ps, ∃ w, p = .payloadBufferWrite w) ∧
      t'.client.replication.phase ≠ .running := by
    cases hsends with
    | writes hps hphase _ =>
        rcases hphase with ⟨hp, -⟩ | ⟨-, hp'⟩
        · exact absurd hp h.phase
        · exact ⟨hps, hp'⟩
    | block _ hp _ _ => exact absurd hp h.phase
    | completed hp _ _ => exact absurd hp h.phase
  refine ⟨hcom', .after hc' ⟨hstep.session ▸ h.session, hphase, ?_, r, done, fun p hp =>
    hmono _ _ (hseen p hp), ?_, hstep.written.trans hwritten, ?_⟩⟩
  · rw [hstep.toServer]
    exact fun p hp => (List.mem_append.mp hp).elim (h.toServer p) (hps p)
  · rw [hstep.session, hbytes]
  · rw [hsent, hdone, hstep.session, hstep.toServer, writes_append, List.append_assoc]

end Client

/-! ### The server moves -/

section Server
variable {cfg : Config} {t t' : Replication P} {cut : ℕ} {m : SessionMove}

/-- What a move of the server changes. -/
structure ServerStep (cfg : Config) (t : Replication P) (m : SessionMove) (t' : Replication P)
    (ps : List Packet) : Prop where
  move : t.session.move cfg.serverHash cfg.serverWorkers m = some (t'.session, ps)
  client : t'.client = t.client
  toServer : t.toServer = Session.received m ++ t'.toServer
  toClient : t'.captured.system.toClient =
    push t.captured.system.connected t.captured.system.toClient ps
  connected : t'.captured.system.connected = t.captured.system.connected
  capture : t'.capture = t.capture
  reads : t'.reads = t.reads
  written : t'.written = t.written + t.session.wrote m
  completed : t'.completed = t.noteCompleted (.server m : Move P)

theorem step_server (hs : t.step cfg (.server m) = some t') : ∃ ps, ServerStep cfg t m t' ps := by
  obtain ⟨u, hu, rfl⟩ := Option.map_eq_some_iff.mp hs
  obtain ⟨s, ps, toServer, hmove, hout, rfl⟩ := Captured.step_server hu
  exact ⟨ps, hmove, rfl, hout.received, rfl, rfl, rfl, rfl, rfl, rfl⟩

theorem ServerStep.common (hs : ServerStep cfg t m t' []) (h : Common cfg t)
    (hplan : t'.session.machine.target.plan = [])
    (hsize : t'.session.machine.target.size = cfg.client.diskSize.toNat) : Common cfg t' where
  connected := hs.connected.trans h.connected
  toClient := by rw [hs.toClient, push_nil, h.toClient]
  flow := by rw [hs.client, hs.capture]; exact h.flow
  plan := hplan
  size := hsize
  fits := by rw [hs.capture]; exact h.fits

theorem ServerStep.copied {ps : List Packet} (hs : ServerStep cfg t m t' ps)
    (h : Copied cfg cut t) : Copied cfg cut t' where
  client := by rw [hs.client, hs.capture]; exact h.client
  cut_le := by rw [hs.capture]; exact h.cut_le
  running := by rw [hs.client, hs.capture, hs.reads]; exact h.running
  reads := by rw [hs.capture, hs.reads]; exact h.reads

theorem Starting.serverMoves (h : Starting t) (hcom : Common cfg t)
    (hs : t.step cfg (.server m) = some t') : Common cfg t' ∧ Stage cfg t' := by
  obtain ⟨ps, hstep⟩ := step_server hs
  have hnil : Session.received m = [] ∧ t'.toServer = [] :=
    List.append_eq_nil_iff.mp (hstep.toServer.symm.trans h.toServer)
  have hm : ∀ packet, m = .receive packet → packet = .infoStartReplication := by
    rintro packet rfl
    cases hnil.1
  obtain ⟨rfl, hmachine, hwrote, hcases⟩ := h.session.move 0 (fun _ _ => True) hm hstep.move
  have hfresh : t'.session.Fresh := by
    rcases hcases with ⟨hfresh, -⟩ | ⟨hrecv, -⟩
    · exact hfresh
    · rw [hnil.1] at hrecv
      cases hrecv
  refine ⟨hstep.common hcom (by rw [hmachine]; exact hcom.plan) (by rw [hmachine]; exact hcom.size),
    .starting ⟨by rw [hstep.client]; exact h.client, hfresh, hnil.2, by rw [hstep.capture, h.sent],
      hstep.reads.trans h.reads, by rw [hstep.written, h.written, hwrote], ?_⟩⟩
  rw [hstep.completed]
  cases m with
  | handler sent => simp [noteCompleted, h.completed, h.session.handler]
  | _ => exact h.completed

/-- Blocks are still on their way after a move of the server. -/
theorem Before.stays (h : Before cfg cut t) (hstep : ServerStep cfg t m t' [])
    (hin : Incoming cfg.client.diskSize.toNat (Seen t.capture cut)
      (t.client.replication.phase = .running) t'.session t'.toServer)
    (htakes : ∀ p, Session.Takes (Seen t.capture cut) t.session m t'.session p)
    (hrecv : writes (Session.received m) = []) (hwrote : t.session.wrote m = 0)
    (hnot : ∀ sent, m = .handler sent →
      t.session.handler ≠ .drainingReplication .replicationCompleted) : Before cfg cut t' where
  incoming := by
    rw [hstep.client, hstep.capture]
    exact hin
  cover p hp hw := by
    rw [hstep.capture]
    have hto := congrArg (fun ps => (ps.map (Packet.weight p)).sum) hstep.toServer
    simp only [List.map_append, List.sum_append] at hto
    simp only [weight, hstep.client] at hw
    rcases htakes p with ⟨hweight, hbytes⟩ | ⟨-, hseen⟩
    · rw [hbytes]
      refine h.cover p hp ?_
      simp only [weight]
      omega
    · exact hseen
  sent := by rw [hstep.capture, h.sent, hstep.toServer, writes_append, hrecv, List.nil_append]
  written := by rw [hstep.written, h.written, hwrote]
  completed := by
    rw [hstep.completed]
    cases m with
    | handler sent => simp [noteCompleted, h.completed, hnot sent rfl]
    | _ => exact h.completed

/-- **The blocks are written** in any order, and when they all are the replication is over. -/
theorem Before.serverMoves (h : Before cfg cut t) (hc : Copied cfg cut t) (hcom : Common cfg t)
    (hn : 0 < cfg.serverWorkers) (hs : t.step cfg (.server m) = some t') :
    Common cfg t' ∧ Stage cfg t' := by
  obtain ⟨ps, hstep⟩ := step_server hs
  have hc' := hstep.copied hc
  have hto := hstep.toServer
  have hin := h.incoming
  generalize hps : t.toServer = toServer at hin hto
  cases hin with
  | @fresh rest hfresh hstream =>
      -- the first packet is the announcement, which starts the workers
      have hm : ∀ packet, m = .receive packet → packet = .infoStartReplication := by
        rintro packet rfl
        exact (List.cons.inj hto).1.symm
      obtain ⟨rfl, hmachine, hwrote, hcases⟩ := hfresh.move
        cfg.client.diskSize.toNat (Seen t.capture cut) hm hstep.move
      have hcom' := hstep.common hcom (by rw [hmachine]; exact hcom.plan)
        (by rw [hmachine]; exact hcom.size)
      have hnot : ∀ sent, m = .handler sent →
          t.session.handler ≠ .drainingReplication .replicationCompleted := by
        simp [hfresh.handler]
      rcases hcases with ⟨hfresh', hrecv⟩ | ⟨hrecv, htaking, hh, hweight⟩
      · rw [hrecv] at hto
        refine ⟨hcom', .before hc' (h.stays hstep ?_ (fun p => .inl ⟨?_, by rw [hmachine]⟩)
          (by rw [hrecv]; rfl) hwrote hnot)⟩
        · rw [show t'.toServer = _ from hto.symm]
          exact .fresh hfresh' hstream
        · simp [Session.weight_of_fresh hfresh', Session.weight_of_fresh hfresh, hrecv]
      · rw [hrecv] at hto
        refine ⟨hcom', .before hc' (h.stays hstep ?_ (fun p => .inl ⟨?_, by rw [hmachine]⟩)
          (by rw [hrecv]; rfl) hwrote hnot)⟩
        · obtain rfl : rest = t'.toServer := (List.cons.inj hto).2
          exact .taking htaking (by simp [hh]) hstream
        · simp [hweight p, Session.weight_of_fresh hfresh, hrecv, Packet.weight]
  | taking htaking hh hstream =>
      have hm : ∀ packet, m = .receive packet →
          IsBlock cfg.client.diskSize.toNat (Seen t.capture cut) packet ∨
            packet = .infoReplicationCompleted := by
        rintro packet rfl
        rw [show toServer = packet :: t'.toServer from hto] at hstream
        rcases hstream.head with ⟨hb, -⟩ | ⟨rfl, -⟩
        · exact .inl hb
        · exact .inr rfl
      obtain ⟨rfl, hwrote, hplan, hsize, hcases⟩ :=
        htaking.move hcom.plan hcom.size hn hm hstep.move
      refine ⟨hstep.common hcom hplan hsize, .before hc' ?_⟩
      rcases hcases with ⟨htaking', htakes, hiff, hnot⟩ | ⟨-, hclosing, -⟩
      · by_cases hrecv : ∃ packet, m = .receive packet
        -- a block is taken, or the end is announced and the queue closed
        · obtain ⟨packet, rfl⟩ := hrecv
          rw [show toServer = packet :: t'.toServer from hto] at hstream
          rcases hstream.head with ⟨⟨b, rfl, -⟩, htail⟩ | ⟨rfl, hrunning, hwrites⟩
          · refine h.stays hstep (.taking htaking' (fun hc => ?_) htail) htakes rfl hwrote hnot
            rcases hiff.mp hc with hrecv | hclosing
            · cases hrecv
            · exact hh hclosing
          · exact h.stays hstep (.closing htaking' (hiff.mpr (.inl rfl)) hrunning hwrites) htakes
              rfl hwrote hnot
        · have hrecv' := Session.received_of_ne fun packet hp => hrecv ⟨packet, hp⟩
          rw [hrecv', List.nil_append] at hto
          rw [hto] at hstream
          refine h.stays hstep (.taking htaking' (fun hc => ?_) hstream) htakes
            (by rw [hrecv']; rfl) hwrote hnot
          rcases hiff.mp hc with hrecv | hclosing
          · rw [hrecv'] at hrecv
            cases hrecv
          · exact hh hclosing
      · exact absurd hclosing hh
  | closing htaking hh hr hwrites =>
      -- `HandleClient` waits for the workers, and receives nothing
      have hrecv : Session.received m = [] := by
        refine Session.received_of_ne ?_
        rintro packet rfl
        obtain ⟨hreceiving, -⟩ := Option.ite_none_right_eq_some.mp hstep.move
        cases hh.symm.trans hreceiving
      rw [hrecv, List.nil_append] at hto
      rw [hto] at hwrites hps
      have hm : ∀ packet, m = .receive packet →
          IsBlock cfg.client.diskSize.toNat (Seen t.capture cut) packet ∨
            packet = .infoReplicationCompleted := by
        rintro packet rfl
        cases hrecv
      obtain ⟨rfl, hwrote, hplan, hsize, hcases⟩ :=
        htaking.move hcom.plan hcom.size hn hm hstep.move
      refine ⟨hstep.common hcom hplan hsize, ?_⟩
      rcases hcases with ⟨htaking', htakes, hiff, hnot⟩ | ⟨-, -, hsession, hqueued, hmachine, hzero⟩
      · exact .before hc' (h.stays hstep (.closing htaking' (hiff.mpr (.inr hh)) hr hwrites) htakes
          (by rw [hrecv]; rfl) hwrote hnot)
      · -- nothing is on its way any more: what the blocks have left is the replica
        have hphase : t.client.replication.phase ≠ .running := by simpa using hr
        refine .after hc' ⟨hsession, by rw [hstep.client]; exact hphase, hwrites,
          t.session.machine.target.bytes, [], fun p hp => ?_, by rw [hmachine]; rfl, ?_, ?_⟩
        · rw [hstep.capture]
          refine h.cover p hp ?_
          rw [weight, hps, sum_weight_of_writes hwrites, hzero,
            hc.client.copies.weight_of_finished (hc.client.finished hphase)]
        · rw [hstep.written, h.written, hwrote]
          rfl
        · rw [hstep.capture, h.sent, hps, hqueued]
          rfl

theorem After.serverMoves (h : After cfg cut t) (hc : Copied cfg cut t) (hcom : Common cfg t)
    (hs : t.step cfg (.server m) = some t') : Common cfg t' ∧ Stage cfg t' := by
  obtain ⟨ps, hstep⟩ := step_server hs
  obtain ⟨r, done, hseen, hbytes, hwritten, hdone⟩ := h.replica
  have hm : ∀ packet, m = .receive packet → ∃ w, packet = .payloadBufferWrite w := by
    rintro packet rfl
    exact h.toServer packet (by rw [hstep.toServer]; simp [Session.received])
  have hfits : ∀ w ∈ writes t.session.queued, w.offset + w.data.length ≤
      t.session.machine.target.size := by
    intro w hw
    rw [hcom.size]
    refine hcom.fits w ?_
    obtain ⟨q, win, -, -, hflow⟩ := hcom.flow.ring
    rw [hflow, hdone]
    simp [hw]
  obtain ⟨hsession, rfl, hplan, hsize, ws, hlen, hbytes', hws⟩ :=
    h.session.move_of_fits hcom.plan hfits hm hstep.move
  refine ⟨hstep.common hcom hplan (hsize.trans hcom.size), .after (hstep.copied hc)
    ⟨hsession, by rw [hstep.client]; exact h.phase, fun p hp => h.toServer p ?_, r, done ++ ws,
      ?_, ?_, ?_, ?_⟩⟩
  · rw [hstep.toServer]
    exact List.mem_append_right _ hp
  · rw [hstep.capture]
    exact hseen
  · rw [hbytes', hbytes, Image.applyAll_append]
  · rw [hstep.written, hwritten, List.length_append, hlen]
  · rw [hstep.capture, hdone, hstep.toServer, writes_append]
    simp only [List.append_assoc]
    rw [← List.append_assoc (writes t.session.queued), hws]
    simp only [List.append_assoc]

end Server

section Run
variable {cfg : Config} {t t' : Replication P} {m : Move P}

theorem Stage.step (h : Stage cfg t) (hcom : Common cfg t) (hd : cfg.client.diskSize.toNat < 2 ^ 63)
    (hclient : 0 < cfg.client.numWorkers) (hserver : 0 < cfg.serverWorkers)
    (hm : t.careful cfg m) (hs : t.step cfg m = some t') : Common cfg t' ∧ Stage cfg t' := by
  cases m with
  | client m =>
      cases h with
      | starting h => exact h.clientMoves hcom hclient hm hs
      | before hc h => exact h.clientMoves hc hcom hd hm hs
      | after hc h => exact h.clientMoves hc hcom hd hm hs
  | server m =>
      cases h with
      | starting h => exact h.serverMoves hcom hs
      | before hc h => exact h.serverMoves hc hcom hserver hs
      | after hc h => exact h.serverMoves hc hcom hs
  | disconnect | reconnect => exact hm.elim

theorem common_start {mem : Image UInt8} {M : ℕ} {rb : RingBuffer}
    (hrb : bdrRingBufferInit mem M = some rb) (hti : cfg.client.targetInfo = bdrGetTargetInfo P rb)
    (source : Image UInt8) {machine : Machine} (hplan : machine.target.plan = [])
    (hsize : machine.target.size = cfg.client.diskSize.toNat) :
    Common cfg (.start (P := P) (.start (some .fullReplicate) rb source) machine) where
  connected := rfl
  toClient := rfl
  flow := ⟨hti, rfl, .empty, none, rfl, ⟨refines_init hrb, by rintro _ ⟨⟩⟩, rfl⟩
  plan := hplan
  size := hsize
  fits := by simp [start, Captured.start]

theorem starting_start (rb : RingBuffer) (source : Image UInt8) (machine : Machine) :
    Starting (.start (P := P) (.start (some .fullReplicate) rb source) machine) :=
  ⟨commanding_start _ rb source, Session.fresh_start machine, rfl, rfl, rfl, rfl, rfl⟩

/-- The replica after the writes up to a read of the ring. -/
theorem After.replica_eq {cut : ℕ} (h : After cfg cut t) (hc : Copied cfg cut t)
    (hcom : Common cfg t) {r : ℕ × Image UInt8} (hr : r ∈ t.reads) (hn : t.written = r.1) :
    ∀ p < cfg.client.diskSize.toNat, t.session.machine.target.bytes p = r.2 p := by
  intro p hp
  obtain ⟨r₀, done, hseen, hbytes, hwritten, hdone⟩ := h.replica
  obtain ⟨hle, hlen, himage⟩ := hc.reads r hr
  obtain ⟨q, win, -, -, hflow⟩ := hcom.flow.ring
  have htake : (patches t.capture.captured).take r.1 = done := by
    rw [hflow, hdone, ← hn, hwritten]
    simp
  have hpast := (hseen p hp).mono (by rw [length_patches]; exact hc.cut_le) hle []
  rw [List.append_nil] at hpast
  rw [hbytes, himage, ← htake]
  exact hpast.applyAll

end Run

/-- **Full-replication convergence.**  However the applications' writes, the readers and senders of
`InitReplication`, the network and the goroutines of the server take turns: when the server has
handled `InfoReplicationCompleted` and has written the buffer writes that were captured before some
read of the ring by the monitor, the replica is the source as it was at that read. -/
theorem replica_eq_source {cfg : Config} {mem : Image UInt8} {M : ℕ} {rb : RingBuffer}
    (hrb : bdrRingBufferInit mem M = some rb) (hti : cfg.client.targetInfo = bdrGetTargetInfo P rb)
    (hclient : 0 < cfg.client.numWorkers) (hserver : 0 < cfg.serverWorkers)
    {source : Image UInt8} {machine : Machine} (hplan : machine.target.plan = [])
    (hsize : machine.target.size = cfg.client.diskSize.toNat) {moves : List (Move P)}
    {t : Replication P}
    (hrun : Run (step cfg) (careful cfg) (.start (.start (some .fullReplicate) rb source) machine)
      moves t)
    (hcompleted : t.completed = true) {r : ℕ × Image UInt8} (hr : r ∈ t.reads)
    (hwritten : t.written = r.1) :
    ∀ p < machine.target.size, t.session.machine.target.bytes p = r.2 p := by
  have hd : cfg.client.diskSize.toNat < 2 ^ 63 := hsize ▸ machine.target.size_lt
  obtain ⟨hcom, hstage⟩ := hrun.invariant (I := fun t => Common cfg t ∧ Stage cfg t)
    (fun _ _ _ h hm hs => h.2.step h.1 hd hclient hserver hm hs)
    ⟨common_start hrb hti source hplan hsize, .starting (starting_start rb source machine)⟩
  rw [hsize]
  cases hstage with
  | starting h => cases h.completed.symm.trans hcompleted
  | before hc h => cases h.completed.symm.trans hcompleted
  | after hc h => exact h.replica_eq hc hcom hr hwritten

/-- The byte of the source is a five when it is read, and a nine is written before it is sent. -/
def copyThenNine : List (Cue 4096) :=
  List.flatten [
    List.replicate 6 (.client .run),
    List.replicate 3 (.client (.replication .generator)),
    List.replicate 2 (.client (.replication (.reader 0 false))),
    [.client (.write Traced.ninePut)],
    List.replicate 3 (.client (.replication (.reader 0 false))),
    [.client (.replication .closeSend)],
    List.replicate 3 (.client (.replication (.sender 0))),
    List.replicate 5 (.client (.replication .finish)),
    [.receive, .server (.handler .ok), .receive, .server (.handler .ok), .server (.replicator 0),
      .server (.replicator 0), .receive, .server (.replicator 0), .server (.handler .ok)],
    List.replicate 7 (.client (.monitor true)),
    [.receive, .server (.handler .ok), .server .writer, .server .writer, .server .writer]]

theorem replica_eq_source_copyThenNine : ∃ (moves : List (Move 4096)) (t : Replication 4096)
    (r : ℕ × Image UInt8),
    Run (step Captured.oneByteConfig) (careful Captured.oneByteConfig)
      (.start (.start (some .fullReplicate) Traced.fourSlots fun _ => 5) tightMachine) moves t ∧
    t.completed = true ∧ r ∈ t.reads ∧ t.written = r.1 ∧
    (∀ p < tightMachine.target.size, t.session.machine.target.bytes p = r.2 p) ∧ r.2 0 = 9 := by
  obtain ⟨t, ht, hd⟩ := exists_exec (P := fun t : Replication 4096 =>
      t.completed = true ∧ ∃ r ∈ t.reads.head?, t.written = r.1 ∧ r.2 0 = 9)
    (show (exec (follow Captured.oneByteConfig)
      (.start (.start (some .fullReplicate) Traced.fourSlots fun _ => 5) tightMachine)
      copyThenNine).any _ = true by decide +kernel)
  obtain ⟨hcompleted, r, hr, hwritten, hnine⟩ := of_decide_eq_true hd
  obtain ⟨moves, hrun⟩ := exists_run ht
  have hrb : bdrRingBufferInit (fun _ => 0) 4 = some Traced.fourSlots := rfl
  have hmem := List.mem_of_mem_head? hr
  exact ⟨moves, t, r, hrun, hcompleted, hmem, hwritten,
    replica_eq_source hrb rfl (by decide) (by decide) rfl rfl hrun hcompleted hmem hwritten, hnine⟩

end Replication

end Bdr.System
