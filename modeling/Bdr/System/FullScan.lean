import Bdr.Server.Corrector
import Bdr.System.Opening

/-!
# System — a full scan

`FullScan` compares the whole device with the replica, which is written to at once where they
differ.  The server is in `StateDestroyingReplica` until it has handled `InfoHashingCompleted`, and
drops the buffer writes it receives before; these are the ones `SendBuffer` takes out of the ring,
and those of a monitor that is ahead of the listener.  And it does not wait for the correct blocks:
one of them may be written over a buffer write that came after it.

Where no write waits for `SendBuffer`, none is received too early and the writer does not overtake
the blocks (`FullScan.quiet`), the replica is the source.
-/

namespace Bdr.System

open Client Server Kern
open Replication (Seen)

variable {P : ℕ}

/-- A system in a full scan, and whether the server has gone back to `StateWriting`. -/
structure FullScan (P : ℕ) where
  captured : Captured P
  completed : Bool

namespace FullScan

def start (client : Client) (machine : Machine) : FullScan P := ⟨.start client machine, false⟩

section Step
variable (cfg : Config) (replica : Image UInt8) (t : FullScan P)

abbrev client : Client := t.captured.client

abbrev session : Session := t.captured.session

abbrev capture : Capture P := t.captured.capture

abbrev toServer : List Packet := t.captured.toServer

def noteCompleted : Move P → Bool
  | .server (.handler _) => t.completed || t.session.handler = .settingWriting
  | _ => t.completed

def step (m : Move P) : Option (FullScan P) :=
  (t.captured.step cfg m).map (⟨·, t.noteCompleted m⟩)

/-- The ring takes every write, which lies on the device, the devices can be read, no two blocks
that are compared have the same hash unless they are equal, and the connection stays up. -/
def careful : Move P → Prop
  | .client m => t.captured.attentive cfg replica m
  | .server (.hash m) => m.Delivered
  | .server _ => True
  | .disconnect | .reconnect _ => False

/-- `SendBuffer` finds the ring empty, no buffer write is received in `StateDestroyingReplica`, and
the writer waits until the correct blocks are written. -/
def quiet : Move P → Prop
  | .client (.listener _) =>
      t.client.listener = .reading → t.client.shared.ring.bufferInfo.length = 0
  | .server (.receive packet) =>
      packet.bufferWrite?.isSome → t.session.state ≠ .destroyingReplica
  | .server .writer => t.session.correctQueue.Idle
  | _ => True

end Step

instance (cfg : Config) (replica : Image UInt8) (t : FullScan P) (m : Move P) :
    Decidable (t.careful cfg replica m) :=
  match m with
  | .client m => inferInstanceAs (Decidable (t.captured.attentive cfg replica m))
  | .server (.hash m) => inferInstanceAs (Decidable m.Delivered)
  | .server (.receive _) | .server (.handler _) | .server .writer | .server .corrector
  | .server (.journaler _) | .server (.replicator _) | .server .startHash => isTrue trivial
  | .disconnect | .reconnect _ => isFalse id

instance (t : FullScan P) (m : Move P) : Decidable (t.quiet m) :=
  match m with
  | .client (.listener _) | .server (.receive _) => inferInstanceAs (Decidable (_ → _))
  | .server .writer => inferInstanceAs (Decidable t.session.correctQueue.Idle)
  | .client .run | .client (.monitor _) | .client (.deliver _) | .client .eof | .client .dial
  | .client (.hashing _) | .client (.replication _) | .client (.write _) | .server (.handler _)
  | .server .corrector | .server (.journaler _) | .server (.replicator _) | .server .startHash
  | .server (.hash _) | .disconnect | .reconnect _ => isTrue trivial

/-- A script is followed. -/
def follow (cfg : Config) (ok : FullScan P → Move P → Prop) [∀ t m, Decidable (ok t m)] :
    FullScan P → Cue P → Option (FullScan P) :=
  System.follow cfg (·.captured.system)
    (fun t m s => ⟨⟨s, t.captured.note cfg m⟩, t.noteCompleted m⟩) ok

theorem exists_run {cfg : Config} {ok : FullScan P → Move P → Prop} [∀ t m, Decidable (ok t m)]
    {t t' : FullScan P} {script : List (Cue P)} (h : exec (follow cfg ok) t script = some t') :
    ∃ moves, Run (step cfg) ok t moves t' :=
  exists_run_of_follow (fun _ _ => Option.map_map ..) h

/-! ### The invariant -/

/-- The server has received `InfoHashingCompleted`, and then `later`. -/
inductive Ending (cfg : Config) (target : Device) (received later : List Packet)
    (t : FullScan P) : Prop
  | completing {done : List CorrectBlockInfo}
      (hs : t.session.Correcting cfg.serverHash cfg.serverWorkers target .completed 0 done)
      (hh : t.session.handler.completing = true)
      (hb : blocksOf received = done ++ blocksOf t.session.correcting) (hl : later = [])
      (hc : t.completed = false)
  | settling {done : List CorrectBlockInfo}
      (hs : t.session.Settling target.bytes target.size done)
      (hb : blocksOf received = done ++ blocksOf t.session.correcting)
      (hl : writes later = writes t.session.queued)
  | writing {ws : List (Patch UInt8)} (hs : t.session.OnlyWrites)
      (hplan : t.session.machine.target.plan = [])
      (hsize : t.session.machine.target.size = target.size)
      (hbytes : t.session.machine.target.bytes = (corrected target.bytes received).applyAll ws)
      (hl : writes later = ws ++ writes t.session.queued)

inductive Stage (cfg : Config) (target : Device) (t : FullScan P) : Prop
  | begins (h : Begins .fullScan cfg target t.captured) (hc : t.completed = false)
  | scanning {k : ClientStage} {stage : HashStage} {todo : Multiset HashInfo} {cut : ℕ}
      {received : List Packet} {done : List CorrectBlockInfo}
      (h : Exchange cfg target k stage todo cut received t.captured) (hk : k ≠ .sending)
      (hs : t.session.Correcting cfg.serverHash cfg.serverWorkers target stage todo done)
      (hh : t.session.handler.completing = false)
      (hb : blocksOf received = done ++ blocksOf t.session.correcting)
      (hw : writes received = []) (hc : t.completed = false)
  | ending {cut : ℕ} {received later : List Packet}
      (h : Exchange cfg target .finished .completed 0 cut received
        (t.captured.behind (.infoHashingCompleted :: later)))
      (hw : writes received = []) (he : Ending cfg target received later t)

/-! ### The client moves -/

section Client
variable {cfg : Config} {target : Device} {t t' : FullScan P} {m : ClientMove P}

theorem Ending.congr {received later : List Packet} (h : Ending cfg target received later t)
    (hs : t'.session = t.session) (hc : t'.completed = t.completed) :
    Ending cfg target received later t' := by
  obtain ⟨⟨⟨c, s, out, inbox, b⟩, g⟩, completed⟩ := t
  obtain ⟨⟨⟨c', s', out', inbox', b'⟩, g'⟩, completed'⟩ := t'
  cases hs
  cases hc
  cases h with
  | completing hs hh hb hl hc => exact .completing hs hh hb hl hc
  | settling hs hb hl => exact .settling hs hb hl
  | writing hs hplan hsize hbytes hl => exact .writing hs hplan hsize hbytes hl

theorem Stage.clientMoves (h : Stage cfg target t)
    (hsize : target.size = cfg.client.diskSize.toNat) (hn : 0 < cfg.client.numWorkers)
    (hm : t.careful cfg target.bytes (.client m)) (hq : t.quiet (.client m))
    (hs : t.step cfg (.client m) = some t') : Stage cfg target t' := by
  obtain ⟨u, hu, rfl⟩ := Option.map_eq_some_iff.mp hs
  have hatt : t.captured.attentive cfg target.bytes m := hm
  cases h with
  | begins h hc => exact .begins (h.clientMoves (by simp) hsize hn hatt hu) hc
  | scanning h hk hs hh hb hw hc =>
      obtain ⟨k', cut', ps, h', hsession, hscans, -⟩ := h.clientMoves hsize hn hatt
        (fun _ _ => h.scanning.listener.holdsToken hk) hu
      have hk' : k' ≠ .sending := by
        intro hk'
        rcases hscans.sending hk' with hk' | ⟨rfl, ⟨sent, rfl⟩, hlen⟩
        · exact hk hk'
        · have hat := h.scanning.listener
          generalize hl : t.captured.client.listener = l at hat
          cases hat
          exact hlen (hq hl)
      have hsession' : (⟨u, t.completed⟩ : FullScan P).session = t.session := hsession
      exact .scanning h' hk' (hsession' ▸ hs) (hsession' ▸ hh) (hsession' ▸ hb) hw hc
  | ending h hw he =>
      obtain ⟨h', hsession⟩ := h.clientMoves_finished hsize hn hatt hu
      exact .ending h' hw (he.congr hsession rfl)

end Client

/-! ### The server moves -/

section Server
variable {cfg : Config} {target : Device} {t t' : FullScan P} {m : SessionMove}

theorem noteCompleted_of_ne (hh : ∀ sent, m = .handler sent → t.session.handler ≠ .settingWriting) :
    t.noteCompleted (.server m : Move P) = t.completed := by
  cases m with
  | handler sent => simp [noteCompleted, hh sent rfl]
  | receive | writer | corrector | journaler | replicator | startHash | hash => rfl

/-- The blocks that have been written are not of what is still to be hashed. -/
theorem bytes_eq_of_hashWeight {k : ClientStage} {stage : HashStage} {todo : Multiset HashInfo}
    {cut : ℕ} {received : List Packet} {done more : List CorrectBlockInfo} {u : Captured P}
    {s : Session} (h : Exchange cfg target k stage todo cut received u)
    (hs : s.Corrects target.bytes target.size done) (hb : blocksOf received = done ++ more) {p : ℕ}
    (hp : 1 ≤ hashWeight p todo) : s.machine.target.bytes p = target.bytes p := by
  rw [hs.bytes]
  refine applyAll_of_weight (fun b hmem hone => ?_) target.bytes
  have hzero := h.ledger.apart b (by rw [hb]; exact List.mem_append_left _ hmem) p hone
  simp only [Captured.hashWeight] at hzero
  omega

/-- A correct block, or the end of the scan, is received; a buffer write would be dropped. -/
theorem isCorrect_of_isData {Q : ℕ → UInt8 → Prop} {packet : Packet} {size : ℕ}
    (h : IsData size Q packet) (hne : ∀ w, packet ≠ .payloadBufferWrite w) :
    IsCorrect size packet := by
  rcases h with ⟨b, rfl, hb⟩ | ⟨w, rfl⟩
  · exact ⟨b, rfl, hb.mono fun _ _ _ => trivial⟩
  · exact absurd rfl (hne w)

theorem writes_of_isCorrect {packet : Packet} {size : ℕ} (h : IsCorrect size packet) :
    writes [packet] = [] := by
  obtain ⟨b, rfl, -⟩ := h
  rfl

theorem scanning_serverMoves {k : ClientStage} {stage : HashStage} {todo : Multiset HashInfo}
    {cut : ℕ} {received : List Packet} {done : List CorrectBlockInfo}
    (h : Exchange cfg target k stage todo cut received t.captured) (hk : k ≠ .sending)
    (hs : t.session.Correcting cfg.serverHash cfg.serverWorkers target stage todo done)
    (hh : t.session.handler.completing = false)
    (hb : blocksOf received = done ++ blocksOf t.session.correcting)
    (hw : writes received = []) (hc : t.completed = false) (hn : 0 < cfg.serverWorkers)
    (hm : t.careful cfg target.bytes (.server m : Move P)) (hq : t.quiet (.server m : Move P))
    (hstep : t.step cfg (.server m) = some t') : Stage cfg target t' := by
  obtain ⟨u, hu, rfl⟩ := Option.map_eq_some_iff.mp hstep
  obtain ⟨ps, hserver⟩ := Captured.serverStep hu
  have hne : ∀ w, m ≠ .receive (.payloadBufferWrite w) := by
    rintro w rfl
    exact hq rfl hs.state
  have hcompleted : t.noteCompleted (.server m : Move P) = false := by
    rw [noteCompleted_of_ne, hc]
    intro sent _ hset
    rw [hset] at hh
    cases hh
  have hrecv : ∀ packet, m = .receive packet → ps = [] ∧
      (IsCorrect target.size packet ∧
          Exchange cfg target k stage todo cut (received ++ [packet]) u ∨
        packet = .infoHashingCompleted) := by
    rintro packet rfl
    obtain ⟨-, heq⟩ := Option.ite_none_right_eq_some.mp hserver.move
    obtain ⟨-, rfl⟩ := Prod.mk.inj (Option.some.inj heq)
    refine ⟨rfl, (h.receives hserver).imp_left fun ⟨hdata, h'⟩ => ⟨?_, h'⟩⟩
    exact isCorrect_of_isData hdata fun w hw => hne w (by rw [hw])
  rcases hs.move hn (fun p hp => bytes_eq_of_hashWeight h hs.corrects hb hp)
    (fun packet hp => (hrecv packet hp).2.imp_left And.left)
    (fun mv hmv => by subst hmv; exact hm) hserver.move with
    ⟨stage', todo', done', hs', htold, hblocks, hcomp, -⟩ | ⟨-, -, hset, -⟩
  · by_cases hr : ∃ packet, m = .receive packet
    · obtain ⟨packet, rfl⟩ := hr
      obtain ⟨rfl, hpacket⟩ := hrecv packet rfl
      cases htold
      rcases hpacket with ⟨hcorr, h'⟩ | rfl
      · refine .scanning h' hk hs' ?_ ?_ ?_ hcompleted
        · rw [← Bool.not_eq_true, hcomp]
          obtain ⟨b, rfl, -⟩ := hcorr
          simp [Session.received, hh]
        · rw [blocksOf_append, hb]
          exact hblocks
        · rw [writes_append, hw, writes_of_isCorrect hcorr]
          rfl
      · -- the scan is over
        obtain ⟨rfl, rfl, -⟩ := h.ended hserver.toServer fun heq => by
          subst heq
          exact hs.owes.eq_zero
        obtain rfl := hs.owes.eq_zero
        have he : Ending cfg target received [] ⟨u, t.completed⟩ := by
          refine .completing hs' (hcomp.mpr (.inl rfl)) ?_ rfl hc
          rw [hb]
          exact (List.append_nil _).symm.trans hblocks
        exact .ending (h.congr hserver.client hserver.toServer.symm
          (hserver.toClient.trans (push_nil _ _)) hserver.connected hserver.capture) hw he
    · have hnil := Session.received_of_ne fun packet hp => hr ⟨packet, hp⟩
      rw [hnil] at hblocks hcomp
      refine .scanning (h.told hserver hnil htold) hk hs' ?_ ?_ hw hcompleted
      · rw [← Bool.not_eq_true, hcomp]
        simp [hh]
      · rw [hb]
        exact (List.append_nil _).symm.trans hblocks
  · rw [hset] at hh
    cases hh

/-- What the server receives after `InfoHashingCompleted` does not concern the scan. -/
theorem exchange_behind {cut : ℕ} {received later : List Packet} {u u' : Captured P}
    (h : Exchange cfg target .finished .completed 0 cut received
      (u.behind (.infoHashingCompleted :: later))) (hs : Captured.ServerStep cfg u m u' []) :
    Exchange cfg target .finished .completed 0 cut received
      (u'.behind (.infoHashingCompleted :: (later ++ Session.received m))) := by
  refine h.congr hs.client ?_ (hs.toClient.trans (push_nil _ _)) hs.connected hs.capture
  show _ ++ u'.toServer = _ ++ u.toServer
  rw [hs.toServer, List.cons_append, List.cons_append, List.append_assoc]

/-- When the blocks are written, the replica has all of them. -/
theorem bytes_of_settling {received : List Packet} {done : List CorrectBlockInfo} {s : Session}
    (hs : s.Settling target.bytes target.size done)
    (hb : blocksOf received = done ++ blocksOf s.correcting) (hidle : s.correctQueue.Idle) :
    s.OnlyWrites ∧ s.machine.target.bytes = corrected target.bytes received := by
  obtain ⟨honly, hnil⟩ := hs.onlyWrites hidle
  refine ⟨honly, ?_⟩
  rw [hs.corrects.bytes, corrected, hb, hnil]
  exact congrArg _ (congrArg _ (List.append_nil _).symm)

/-- **After `InfoHashingCompleted`** the server writes the blocks that are left, and then the buffer
writes. -/
theorem Ending.serverMoves {cut : ℕ} {received later : List Packet}
    (he : Ending cfg target received later t)
    (h : Exchange cfg target .finished .completed 0 cut received
      (t.captured.behind (.infoHashingCompleted :: later)))
    (hfits : ∀ w ∈ writes later, w.offset + w.data.length ≤ target.size)
    (hn : 0 < cfg.serverWorkers) (hd : t.careful cfg target.bytes (.server m : Move P))
    (hq : t.quiet (.server m : Move P)) {ps : List Packet} {u : Captured P}
    (hserver : Captured.ServerStep cfg t.captured m u ps) :
    ps = [] ∧ Ending cfg target received (later ++ Session.received m)
      ⟨u, t.noteCompleted (.server m : Move P)⟩ := by
  obtain ⟨-, -, -, hwrites, -, -⟩ := h.ended rfl fun _ => rfl
  have hm : ∀ packet, m = .receive packet → ∃ w, packet = .payloadBufferWrite w := by
    rintro packet rfl
    refine hwrites packet (List.mem_append_right _ ?_)
    rw [show t.captured.toServer = _ from hserver.toServer]
    exact List.mem_cons_self
  have hwriting : ∀ ws : List (Patch UInt8), t.session.OnlyWrites →
      t.session.machine.target.plan = [] → t.session.machine.target.size = target.size →
      t.session.machine.target.bytes = (corrected target.bytes received).applyAll ws →
      writes later = ws ++ writes t.session.queued →
      ps = [] ∧ Ending cfg target received (later ++ Session.received m)
        ⟨u, t.noteCompleted (.server m : Move P)⟩ := by
    intro ws hs hplan hsize hbytes hl
    obtain ⟨hs', rfl, hplan', hsize', ws', -, hbytes', hws⟩ := hs.move_of_fits hplan
      (fun w hw => by rw [hsize]; exact hfits w (by rw [hl]; exact List.mem_append_right _ hw))
      hm hserver.move
    have hall : (corrected target.bytes received).applyAll (ws ++ ws') =
        u.session.machine.target.bytes := by
      rw [hbytes', hbytes, Image.applyAll_append]
    refine ⟨rfl, .writing hs' hplan' (hsize'.trans hsize) hall.symm ?_⟩
    rw [writes_append, hl, List.append_assoc, hws, List.append_assoc]
  cases he with
  | completing hs hh hb hl hc =>
      subst hl
      have hnot : ∀ packet, m ≠ .receive packet := by
        rintro packet rfl
        obtain ⟨hr, -⟩ := Option.ite_none_right_eq_some.mp hserver.move
        rw [hr] at hh
        cases hh
      rcases hs.move hn (by simp) (fun packet hp => absurd hp (hnot packet))
        (fun mv hmv => by subst hmv; exact hd) hserver.move with
        ⟨stage', todo', done', hs', htold, hblocks, hcomp, hne⟩ | ⟨rfl, hrecv, hset, hsession⟩
      · have hnil := Session.received_of_ne hnot
        rw [hnil] at hblocks ⊢
        cases htold
        refine ⟨rfl, .completing hs' (hcomp.mpr (.inr hh)) ?_ rfl ?_⟩
        · rw [hb]
          exact (List.append_nil _).symm.trans hblocks
        · exact (noteCompleted_of_ne hne).trans hc
      · -- the server goes back to `StateWriting`
        rw [hrecv]
        have hs' := hs.settling hset
        rw [← hsession] at hs'
        have hcorr : u.session.correcting = t.session.correcting := by
          rw [hsession]
          simp [Session.correcting, hset, Handler.toCorrector]
        have hqueued : u.session.queued = [] := by
          rw [hsession]
          exact Session.queued_of_idle hs.writer rfl
        exact ⟨rfl, .settling hs' (by rw [hb, hcorr]) (by rw [hqueued]; rfl)⟩
  | settling hs hb hl =>
      by_cases hmw : m = .writer
      · subst hmw
        obtain ⟨honly, hbytes⟩ := bytes_of_settling hs hb hq
        exact hwriting [] honly hs.corrects.plan hs.corrects.size_eq hbytes hl
      · obtain ⟨rfl, hqueued, done', hs', hblocks⟩ := hs.move hmw hm hserver.move
        refine ⟨rfl, .settling hs' (hb.trans hblocks) ?_⟩
        rw [writes_append, hl, ← writes_append, hqueued]
  | writing hs hplan hsize hbytes hl => exact hwriting _ hs hplan hsize hbytes hl

theorem Stage.serverMoves (h : Stage cfg target t) (hplan : target.plan = [])
    (hsize : target.size = cfg.client.diskSize.toNat)
    (hfits : t.captured.Fits cfg)
    (hn : 0 < cfg.serverWorkers) (hm : t.careful cfg target.bytes (.server m : Move P))
    (hq : t.quiet (.server m : Move P)) (hs : t.step cfg (.server m) = some t') :
    Stage cfg target t' := by
  cases h with
  | begins h hc =>
      obtain ⟨u, hu, rfl⟩ := Option.map_eq_some_iff.mp hs
      obtain ⟨-, h' | ⟨rfl, hsession, cut, h'⟩⟩ := h.serverMoves hu
      · refine .begins h' ((noteCompleted_of_ne ?_).trans hc)
        simp [h.session.handler]
      · obtain ⟨hs', hnil⟩ :=
          h.session.correcting h.target_eq hplan cfg.serverHash cfg.serverWorkers
        have hu : u.session = t.session.receive .cmdStartFullScan := hsession
        rw [← hu] at hs' hnil
        refine .scanning h' (by simp) hs' ?_ ?_ rfl hc
        · show u.session.handler.completing = false
          rw [hu]
          rfl
        · show [] = [] ++ blocksOf u.session.correcting
          rw [hnil]
          rfl
  | scanning h hk hs' hh hb hw hc => exact scanning_serverMoves h hk hs' hh hb hw hc hn hm hq hs
  | @ending _ received later h hw he =>
      obtain ⟨u, hu, rfl⟩ := Option.map_eq_some_iff.mp hs
      obtain ⟨ps, hserver⟩ := Captured.serverStep hu
      have hlater : ∀ w ∈ writes later, w.offset + w.data.length ≤ target.size := by
        intro w hmem
        rw [hsize]
        obtain ⟨q, win, -, -, hflow⟩ := h.flow.ring
        refine hfits w (hflow ▸ List.mem_append_left _ ?_)
        rw [h.sent, hw, List.nil_append]
        show w ∈ writes (.infoHashingCompleted :: (later ++ t.toServer))
        rw [writes_cons_of_ne (by simp), writes_append]
        exact List.mem_append_left _ hmem
      obtain ⟨rfl, he'⟩ := he.serverMoves h hlater hn hm hq hserver
      exact .ending (exchange_behind h hserver) hw he'

end Server

section Run
variable {cfg : Config} {target : Device} {t t' : FullScan P} {m : Move P}

theorem fits_step (h : t.captured.Fits cfg) (hm : t.careful cfg target.bytes m)
    (hs : t.step cfg m = some t') : t'.captured.Fits cfg := by
  obtain ⟨u, hu, rfl⟩ := Option.map_eq_some_iff.mp hs
  cases m with
  | client m => exact h.clientMoves hm hu
  | server m =>
      obtain ⟨ps, hserver⟩ := Captured.serverStep hu
      exact h.serverMoves hserver
  | disconnect | reconnect => exact hm.elim

/-- The server has the blocks, and over them the writes that it has received. -/
theorem Ending.bytes {received later : List Packet} (h : Ending cfg target received later t)
    (hcompleted : t.completed = true) (hcorrect : t.session.correctQueue.Idle)
    (hqueued : t.session.queued = []) :
    t.session.machine.target.bytes =
      (corrected target.bytes received).applyAll (writes later) := by
  cases h with
  | completing _ _ _ _ hc => cases hc.symm.trans hcompleted
  | settling hs hb hl =>
      rw [(bytes_of_settling hs hb hcorrect).2, hl, hqueued]
      rfl
  | writing _ _ _ hbytes hl =>
      rw [hbytes, hl, hqueued]
      exact congrArg _ (List.append_nil _).symm

theorem Stage.replica_eq (h : Stage cfg target t) (hcompleted : t.completed = true)
    (hcorrect : t.session.correctQueue.Idle) (hqueued : t.session.queued = [])
    {ws : List (Patch UInt8)} (hws : t.capture.sent = ws ++ writes t.toServer) :
    ∀ p < target.size, t.session.machine.target.bytes p = t.capture.base.applyAll ws p := by
  intro p hp
  cases h with
  | begins _ hc => cases hc.symm.trans hcompleted
  | scanning _ _ _ _ _ _ hc => cases hc.symm.trans hcompleted
  | @ending cut received later h hw he =>
      obtain ⟨-, -, -, -, hcut, hseen⟩ := h.ended rfl fun _ => rfl
      obtain ⟨rest, hflow⟩ : ∃ rest, patches t.capture.captured = t.capture.sent ++ rest := by
        obtain ⟨q, win, -, -, hflow⟩ := h.flow.ring
        exact ⟨_, hflow⟩
      have hsent : t.capture.sent = writes later ++ writes t.toServer := by
        rw [← writes_append]
        refine h.sent.trans ?_
        rw [hw, List.nil_append]
        exact writes_cons_of_ne (by simp) _
      obtain rfl : ws = writes later := List.append_cancel_right (hws.symm.trans hsent)
      have htake : (patches t.capture.captured).take (writes later).length = writes later := by
        rw [hflow, hws, List.append_assoc, List.take_left]
      have hpast : t.capture.base.Past (patches t.capture.captured) (writes later).length p
          (corrected target.bytes received p) := by
        obtain ⟨i, hi, hv⟩ := hseen p hp
        exact ⟨i, by rw [hw] at hcut; exact (hi.trans hcut).trans (Nat.zero_le _), hv⟩
      rw [he.bytes hcompleted hcorrect hqueued]
      have := hpast.applyAll
      rwa [htake] at this

theorem Stage.step (h : Stage cfg target t) (hplan : target.plan = [])
    (hsize : target.size = cfg.client.diskSize.toNat)
    (hfits : t.captured.Fits cfg)
    (hclient : 0 < cfg.client.numWorkers) (hserver : 0 < cfg.serverWorkers)
    (hm : t.careful cfg target.bytes m) (hq : t.quiet m) (hs : t.step cfg m = some t') :
    Stage cfg target t' := by
  cases m with
  | client m => exact h.clientMoves hsize hclient hm hq hs
  | server m => exact h.serverMoves hplan hsize hfits hserver hm hq hs
  | disconnect | reconnect => exact hm.elim

end Run

/-- **Convergence of a full scan.**  However the applications' writes, the pipelines of both sides,
the network and the goroutines of the server take turns: when the server is back in `StateWriting`
and its queues are drained, the replica is the source as it was when the ring was reset, with the
writes that the server has received since, as long as nothing disturbs the scan (`quiet`). -/
theorem replica_eq_received {cfg : Config} {mem : Image UInt8} {M : ℕ} {rb : RingBuffer}
    (hrb : bdrRingBufferInit mem M = some rb) (hti : cfg.client.targetInfo = bdrGetTargetInfo P rb)
    (hclient : 0 < cfg.client.numWorkers) (hserver : 0 < cfg.serverWorkers)
    {source : Image UInt8} {machine : Machine} (hplan : machine.target.plan = [])
    (hsize : machine.target.size = cfg.client.diskSize.toNat) {moves : List (Move P)}
    {t : FullScan P}
    (hrun : Run (step cfg) (fun t m => t.careful cfg machine.target.bytes m ∧ t.quiet m)
      (.start (.start (some .fullScan) rb source) machine) moves t)
    (hcompleted : t.completed = true) (hcorrect : t.session.correctQueue.Idle)
    (hqueued : t.session.queued = []) {ws : List (Patch UInt8)}
    (hws : t.capture.sent = ws ++ writes t.toServer) :
    ∀ p < machine.target.size,
      t.session.machine.target.bytes p = t.capture.base.applyAll ws p := by
  obtain ⟨-, hstage⟩ := hrun.invariant
    (I := fun t => t.captured.Fits cfg ∧ Stage cfg machine.target t)
    (fun _ _ _ h hm hs => ⟨fits_step h.1 hm.1 hs,
      h.2.step hplan hsize h.1 hclient hserver hm.1 hm.2 hs⟩)
    ⟨by simp [Captured.Fits, start, Captured.start],
      .begins (begins_start hrb hti source machine) rfl⟩
  exact hstage.replica_eq hcompleted hcorrect hqueued hws

/-- The only block is compared, after the server's moves `begins` up to `HashDisk`: the server sends
`hash`, and the client reads its block in `reads` moves.  The blocks differ, so that the client's is
sent; `SendBuffer` is about to read the ring. -/
def compares (begins : List (Cue 4096)) (hash : HashInfo) (reads : ℕ) : List (Cue 4096) :=
  List.flatten [
    List.replicate 6 (.client .run), begins, [.server (.hash (.announce .ok))],
    List.replicate 3 (.server (.hash .generator)),
    List.replicate 5 (.server (.hash (.reader 0 false))),
    [.server (.hash .closeWork)],
    List.replicate 4 (.server (.hash (.hasher 0))),
    [.server (.hash .closeResults)],
    List.replicate 4 (.server (.hash (.sender 0 .ok))),
    [.server (.hash (.complete .ok)), .client (.deliver .infoStartHashing),
      .client (.listener true), .client (.deliver (.payloadHash hash)), .client (.listener true)],
    List.replicate reads (.client (.hashing (.reader 0 false))),
    List.replicate 3 (.client (.hashing (.worker 0))),
    List.replicate 3 (.client (.hashing (.comparer 0))),
    [.client (.deliver .infoHashingCompleted), .client (.hashing (.reader 0 false)),
      .client (.hashing .closeWork), .client (.hashing (.worker 0)), .client (.hashing .closeComp),
      .client (.hashing (.comparer 0)), .client (.listener true)]]

/-- The source holds a five and the replica a seven. -/
def comparedFive : List (Cue 4096) :=
  compares [.receive, .server (.handler .ok), .server .startHash] ⟨0, 1, 7⟩ 5

/-- The block is written. -/
def writesBlock : List (Cue 4096) :=
  [.receive, .server (.handler .ok), .server .corrector, .server .corrector]

/-- The server goes back to `StateWriting`. -/
def returnsToWriting : List (Cue 4096) := .receive :: List.replicate 3 (.server (.handler .ok))

/-- The nine is written when the scan is over. -/
def nineAfterScan : List (Cue 4096) :=
  List.flatten [
    comparedFive, List.replicate 6 (.client (.listener true)), writesBlock, returnsToWriting,
    [.client (.write Traced.ninePut)],
    List.replicate 7 (.client (.monitor true)),
    [.receive, .server (.handler .ok), .server .writer, .server .writer, .server .writer]]

/-- The nine is written when `SendBuffer` is about to read the ring. -/
def nineBeforeRead : List (Cue 4096) :=
  List.flatten [
    comparedFive, [.client (.write Traced.ninePut)], List.replicate 13 (.client (.listener true)),
    writesBlock, [.receive], returnsToWriting]

theorem replica_eq_received_nineAfterScan : ∃ (moves : List (Move 4096)) (t : FullScan 4096),
    Run (step Captured.oneByteConfig)
      (fun t m => t.careful Captured.oneByteConfig tightMachine.target.bytes m ∧ t.quiet m)
      (.start (.start (some .fullScan) Traced.fourSlots fun _ => 5) tightMachine) moves t ∧
    t.completed = true ∧ t.session.correctQueue.Idle ∧ t.session.queued = [] ∧
    t.capture.sent = [⟨0, [9]⟩] ∧
    (∀ p < tightMachine.target.size,
      t.session.machine.target.bytes p = t.capture.base.applyAll [⟨0, [9]⟩] p) ∧
    t.session.machine.target.bytes 0 = 9 := by
  obtain ⟨t, ht, hd⟩ := exists_exec (P := fun t : FullScan 4096 =>
      t.completed = true ∧ t.session.correctQueue.Idle ∧ t.session.queued = [] ∧
        t.toServer = [] ∧ t.capture.sent = [⟨0, [9]⟩] ∧ t.session.machine.target.bytes 0 = 9)
    (show (exec (follow Captured.oneByteConfig
      (fun t m => t.careful Captured.oneByteConfig tightMachine.target.bytes m ∧ t.quiet m))
      (.start (.start (some .fullScan) Traced.fourSlots fun _ => 5) tightMachine)
      nineAfterScan).any _ = true by decide +kernel)
  obtain ⟨hcompleted, hcorrect, hqueued, hto, hsent, hnine⟩ := of_decide_eq_true hd
  obtain ⟨moves, hrun⟩ := exists_run ht
  have hrb : bdrRingBufferInit (fun _ => 0) 4 = some Traced.fourSlots := rfl
  refine ⟨moves, t, hrun, hcompleted, hcorrect, hqueued, hsent, ?_, hnine⟩
  exact replica_eq_received hrb rfl (by decide) (by decide) rfl rfl hrun hcompleted hcorrect hqueued
    (by rw [hsent, hto]; rfl)

/-- The nine is written after the block has been read.  `SendBuffer` sends it, and the server, which
is still in `StateDestroyingReplica`, drops it: the replica stays at five. -/
theorem dropped_in_destroyingReplica : ∃ (moves : List (Move 4096)) (t : FullScan 4096),
    Run (step Captured.oneByteConfig)
      (fun t m => t.careful Captured.oneByteConfig tightMachine.target.bytes m)
      (.start (.start (some .fullScan) Traced.fourSlots fun _ => 5) tightMachine) moves t ∧
    t.completed = true ∧ t.session.state = .writing ∧ t.session.correctQueue.Idle ∧
    t.session.queued = [] ∧ t.toServer = [] ∧ t.capture.sent = [⟨0, [9]⟩] ∧
    t.session.machine.target.bytes 0 = 5 ∧ t.capture.base.applyAll [⟨0, [9]⟩] 0 = 9 := by
  obtain ⟨t, ht, hd⟩ := exists_exec (P := fun t : FullScan 4096 =>
      t.completed = true ∧ t.session.state = .writing ∧ t.session.correctQueue.Idle ∧
        t.session.queued = [] ∧ t.toServer = [] ∧ t.capture.sent = [⟨0, [9]⟩] ∧
        t.session.machine.target.bytes 0 = 5 ∧ t.capture.base.applyAll [⟨0, [9]⟩] 0 = 9)
    (show (exec (follow Captured.oneByteConfig
      (fun t m => t.careful Captured.oneByteConfig tightMachine.target.bytes m))
      (.start (.start (some .fullScan) Traced.fourSlots fun _ => 5) tightMachine)
      nineBeforeRead).any _ = true by decide +kernel)
  obtain ⟨moves, hrun⟩ := exists_run ht
  exact ⟨moves, t, hrun, of_decide_eq_true hd⟩

end FullScan

end Bdr.System
