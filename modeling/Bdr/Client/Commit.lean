import Bdr.Client.Resync
import Bdr.Client.Ring
import Bdr.Support.Runs

/-!
# Client — committing a scan

With `InfoHashingCompleted` the client tells the server to apply the journal.  `ProcessBuffer` sends
it when `SendBuffer` has read the ring and sent what was in it.

Here the client may be shut down: a signal or an error packet closes `TermChan`, and a goroutine
that finds it closed gives up what it is trying to do.  `ServeIOCTL` then returns without its ioctl
and `SendPacket` without having sent its packet; `ProcessBufferInfo` leaves the rest of the window.
A goroutine that looked before goes on as if nothing had happened.  An ioctl may also fail after the
ring has been read (`fault`); the other failures are only tried again, and change nothing.

The packets of `ProcessBuffer` are recorded (`Commit`): what `READ_BUFFER_INFO` has returned since
the server's `InfoHashingCompleted` arrived, and the entries that were sent, each with the
connection it was sent on.
-/

namespace Bdr.Client

open Kern

/-! ### Giving up -/

/-- A goroutine that may find `TermChan` closed: a sender of `InitReplication` does before it sends
its block, or while it is trying to (`sending`). -/
inductive Goroutine where
  | run
  | monitor
  | listener
  | reader (i : ℕ)
  | comparer (i : ℕ)
  | generator
  | blockReader (i : ℕ)
  | sender (i : ℕ) (sending : Bool)
  | replication
  deriving DecidableEq, Repr

/-- A command goes on without its reset, or returns without having sent its packet. -/
def StartCall.abandon : StartCall → Option (Option StartCall)
  | .resetting => some (some (.pausing (.lock .paused)))
  | .sending => some none
  | .pausing _ | .settingState => none

/-- `ProcessBufferInfo` looks at `TermChan` where an entry cannot be decoded or sent. -/
def Window.stuck (ti : TargetInfo) (rb : RingBuffer) (w : Window) : Bool :=
  match w.pc with
  | .decoding => (decodeSlot ti rb.buffer w.info w.next).isNone
  | .refused _ => true
  | .looping | .checking _ | .encoding _ => false

/-- A goroutine of `InitReplication`, or the function itself, finds `TermChan` closed. -/
def InitReplication.giveUp (r : InitReplication) : Goroutine → Option InitReplication
  | .generator =>
      match r.generator with
      | .loop _ => some { r with generator := .done, readers := r.readers.close }
      | .sending _ | .done => none
  | .blockReader i =>
      match r.readers.busy? i with
      | some (.reading _ []) => some (r.setReader i .done)
      | _ => none
  | .sender i sending =>
      (r.senders.busy? i).map fun _ =>
        { r with senders := r.senders.setWorker i (if sending then .ranging else .done) }
  | .replication =>
      if r.phase = .running ∧ r.senders.Finished then some { r with phase := .settingState }
      else none
  | _ => none

/-- A goroutine finds `TermChan` closed. -/
def giveUp (cfg : ClientConfig) (c : Client) : Goroutine → Option Client
  | .run =>
      match c.run with
      | none => none
      | some (command, call) =>
          call.abandon.map fun next =>
            { c with
              run := next.map (command, ·)
              replication := if next = none ∧ command = .fullReplicate then .start cfg.numWorkers
                else c.replication }
  | .monitor =>
      match c.monitor with
      | .waiting _ => none
      -- the info is still zeroed: there are no new writes
      | .reading => some (c.setMonitor (.waiting .check))
      | .starting call =>
          call.abandon.map fun next => c.setMonitor (next.elim (.waiting .check) .starting)
      | .processing w =>
          if w.stuck cfg.targetInfo c.shared.ring then some (c.setMonitor (.waiting .check))
          else none
  | .listener =>
      match c.listener with
      | .receiving | .dialing _ => some (c.setListener .stopped)
      | .reading => some (c.setListener .settingWriting)
      | .processing w =>
          if w.stuck cfg.targetInfo c.shared.ring then some (c.setListener .settingWriting)
          else none
      | .completing => some ((c.setHashing (.start 0)).setListener .receiving)
      | .starting k call =>
          call.abandon.map fun next =>
            match next, k with
            | some call, _ => c.setListener (.starting k call)
            | none, .overflow => (c.setHashing (.start 0)).setListener .receiving
            | none, .reconnect => c.setListener .receiving
      | .enqueueing _ | .draining _ | .settingWriting | .resuming _ | .stopped => none
  | .reader i =>
      match c.hashing.readers.busy? i with
      | some (.starting call) =>
          call.abandon.map fun next => c.setHashing
            (c.hashing.setReader i (next.elim .ranging fun call => .busy (.starting call)))
      | _ => none
  | .comparer i =>
      match c.hashing.comparers.busy? i with
      | some (.sending _) => some (c.setHashing (c.hashing.setComparer i .ranging))
      | _ => none
  | g => (c.replication.giveUp g).map c.setReplication

/-- `READ_BUFFER_INFO` reads the ring, but the info does not get to the goroutine, which tries
again. -/
def fault (c : Client) (g : Goroutine) : Option Client :=
  if g = .monitor ∧ c.monitor = .reading ∨ g = .listener ∧ c.listener = .reading then
    some (c.setShared { c.shared with ring := (bdrBufferReadRoutine c.shared.ring).1 })
  else none

/-! ### The record -/

/-- What `ProcessBuffer` has done: the info it has read, the entries of that window when it was
read, and those it has sent, each with the connection. -/
structure Commit where
  window : Option BufferInfo
  entries : Option (List WriteInfo)
  sent : List (ℕ × WriteInfo)
  connection : ℕ
  deriving DecidableEq, Repr

def Commit.none : Commit := ⟨Option.none, Option.none, [], 0⟩

/-- The ring was read, it was not flagged, and its entries were sent on the connection. -/
def Commit.Complete (k : Commit) : Prop :=
  ∃ bi ws, k.window = some bi ∧ bi.overflown = false ∧ k.entries = some ws ∧
    k.sent = ws.map (k.connection, ·)

/-- The client, whether `TermChan` is closed, the connection it has, what `ProcessBuffer` has done
with the completion that arrived last, and the scans that were committed. -/
structure Closable where
  client : Client
  terminated : Bool
  connection : ℕ
  scan : Commit
  commits : List Commit

inductive ClosableMove (P : ℕ) where
  | client (m : ClientMove P)
  | terminate
  | giveUp (g : Goroutine)
  | fault (g : Goroutine)

namespace Closable
variable {P : ℕ}

def start (c : Client) : Closable := ⟨c, false, 0, .none, []⟩

/-- What `ProcessBuffer` has done after a move that sends `ps`. -/
def record (cfg : ClientConfig) (s : Closable) (m : ClientMove P) (ps : List Packet) : Commit :=
  match m, s.client.listener with
  | .deliver .infoHashingCompleted, _ => .none
  | .listener _, .reading =>
      { s.scan with
        window := some (bdrBufferReadRoutine s.client.shared.ring).2
        entries := decodeWindow cfg.targetInfo s.client.shared.ring.buffer
          (bdrBufferReadRoutine s.client.shared.ring).2 }
  | .listener _, .processing _ =>
      { s.scan with
        sent := s.scan.sent ++ (ps.filterMap Packet.bufferWrite?).map (s.connection, ·) }
  | _, _ => s.scan

/-- The connection after a move. -/
def dialed (s : Closable) : ClientMove P → ℕ
  | .dial => s.connection + 1
  | _ => s.connection

/-- A move that stops the listener has closed `TermChan`. -/
def clientStep (cfg : ClientConfig) (s : Closable) (m : ClientMove P) : Option Closable :=
  (s.client.move cfg m).map fun r =>
    { client := r.1
      terminated := s.terminated || r.1.listener = .stopped
      connection := s.dialed m
      scan := s.record cfg m r.2
      commits := if .infoHashingCompleted ∈ r.2 then
          s.commits ++ [{ s.scan with connection := s.connection }]
        else s.commits }

def step (cfg : ClientConfig) (s : Closable) : ClosableMove P → Option Closable
  | .client m => s.clientStep cfg m
  | .terminate => some { s with terminated := true }
  | .giveUp g =>
      if s.terminated ∧ (s.client.run = none ∨ g = .run) then
        (s.client.giveUp cfg g).map fun c => { s with client := c }
      else none
  | .fault g =>
      if s.client.run = none then (s.client.fault g).map fun c => { s with client := c } else none

end Closable

/-! ### Who commits -/

section Sends
variable {P : ℕ} {cfg : ClientConfig} {c c' : Client} {ps : List Packet}

theorem not_completed_startStep {s s' : Shared} {command : Command} {call : StartCall}
    {next : Option StartCall} (h : s.startStep command call = some (s', ps, next)) :
    Packet.infoHashingCompleted ∉ ps := by
  rcases startStep_packet h with ⟨rfl, -⟩ | ⟨-, rfl, -⟩
  · simp
  · cases command <;> simp [Command.packet]

theorem not_completed_processStep {ti : TargetInfo} {s s' : Shared} {mainLoop sent : Bool}
    {w : Window} {next : Option Window}
    (h : s.processStep ti mainLoop sent w = some (s', ps, next)) :
    Packet.infoHashingCompleted ∉ ps := by
  intro hin
  obtain ⟨w, hw⟩ := processStep_writes h _ hin
  cases hw

/-- Only the listener sends `InfoHashingCompleted`. -/
theorem not_completed_move {m : ClientMove P} (h : c.move cfg m = some (c', ps))
    (hm : m.ofListener = false) : Packet.infoHashingCompleted ∉ ps := by
  cases move_cases h with
  | write | monitorWaits | monitorReads => simp
  | run _ hs | monitorStarts _ _ hs | readerStarts _ _ hs => exact not_completed_startStep hs
  | monitorProcesses _ _ hs => exact not_completed_processStep hs
  | hashes _ _ hs => rcases InitHashing.move_sends hs with rfl | ⟨block, rfl⟩ <;> simp
  | replicates _ h => cases h <;> simp
  | listener | deliver | eof | dial => cases hm

end Sends

/-! ### The window that is being sent -/

section Sending
variable {P : ℕ} {ti : TargetInfo} {rb : RingBuffer} {scan : Commit} {connection : ℕ} {w : Window}

/-- What is known of the entry that `ProcessBufferInfo` is at. -/
def Processing.At (ws : List WriteInfo) (i : ℕ) : Processing → Prop
  | .looping => True
  | .checking _ | .decoding => i < ws.length
  | .encoding wi | .refused wi => ws[i]? = some wi

/-- The listener is sending its window: the entries before `w.next` have been sent, and the others
are in their slots as they were when the ring was read. -/
structure Sending (P : ℕ) (ti : TargetInfo) (rb : RingBuffer) (scan : Commit) (connection : ℕ)
    (w : Window) (ws : List WriteInfo) : Prop where
  window : scan.window = some w.info
  flag : w.info.overflown = false
  entries : scan.entries = some ws
  length : ws.length = w.info.length
  next_le : w.next ≤ ws.length
  sent : scan.sent = (ws.take w.next).map (connection, ·)
  slots : ∀ i, i < ws.length → decodeSlot ti rb.buffer w.info i = ws[i]?
  guards : Guards P rb w.info
  at_next : w.pc.At ws w.next

/-- What is known of the record, by where the listener is. -/
def ListenerOk (P : ℕ) (ti : TargetInfo) (rb : RingBuffer) (scan : Commit) (connection : ℕ) :
    Listener → Prop
  | .draining .hashingCompleted | .reading => scan.sent = []
  | .processing w => ∃ ws, Sending P ti rb scan connection w ws
  | .settingWriting | .resuming _ | .completing =>
      Commit.Complete { scan with connection := connection }
  | .dialing pastState => pastState ≠ .reconnecting
  | _ => True

/-- A put does not disturb the listener. -/
theorem ListenerOk.put {l : Listener} (h : ListenerOk P ti rb scan connection l)
    (hti : ti.writeInfoSize = bdrWriteInfoSize P) (a : Put P) :
    ListenerOk P ti (bdrRingBufferPut rb a).1 scan connection l := by
  cases l with
  | processing w =>
      obtain ⟨ws, hw⟩ := h
      refine ⟨ws, { hw with slots := fun i hi => ?_, guards := hw.guards.put a }⟩
      rw [hw.guards.decodeSlot_put hti a (hw.length ▸ hi)]
      exact hw.slots i hi
  | draining k => cases k <;> exact h
  | _ => exact h

/-- A window that is not being sent does not look at the ring. -/
theorem ListenerOk.of_ring {l : Listener} {rb' : RingBuffer}
    (h : ListenerOk P ti rb scan connection l) (hl : ∀ w, l ≠ .processing w) :
    ListenerOk P ti rb' scan connection l := by
  cases l with
  | processing w => exact absurd rfl (hl w)
  | draining k => cases k <;> exact h
  | _ => exact h

/-- A step of `ProcessBufferInfo` in `SendBuffer`: it sends the entry it is at, and returns only
when all have been sent. -/
theorem Sending.step {s s' : Shared} {ws : List WriteInfo} {sent : Bool} {ps : List Packet}
    {next : Option Window} (h : Sending P ti s.ring scan connection w ws)
    (hr : s.state ≠ .reconnecting) (hs : s.processStep ti false sent w = some (s', ps, next)) :
    ListenerOk P ti s'.ring
      { scan with sent := scan.sent ++ (ps.filterMap Packet.bufferWrite?).map (connection, ·) }
      connection (next.elim .settingWriting .processing) := by
  obtain ⟨info, i, pc⟩ := w
  obtain ⟨hwin, hflag, hent, hlen, hle, hsent, hslots, hguards, hat⟩ := h
  simp only at hlen hle hsent
  have hstay : ∀ pc', Processing.At ws i pc' →
      Sending P ti s.ring { scan with sent := scan.sent ++ [] } connection ⟨info, i, pc'⟩ ws :=
    fun pc' hpc => ⟨hwin, hflag, hent, hlen, hle, by simpa using hsent, hslots, hguards, hpc⟩
  cases pc with
  | looping =>
      cases hs
      by_cases hi : i < info.length
      · simp only [if_pos hi]
        exact ⟨ws, hstay _ (show i < ws.length by rwa [hlen])⟩
      · -- the loop ends behind the last entry
        simp only [if_neg hi]
        have htake : ws.take i = ws := List.take_of_length_le (by omega)
        exact ⟨info, ws, hwin, hflag, hent, by simpa [htake] using hsent⟩
  | checking call =>
      obtain ⟨⟨p, r⟩, -, heq⟩ := Option.map_eq_some_iff.mp hs
      cases heq
      cases r with
      | inl call' => exact ⟨ws, hstay _ hat⟩
      | inr paused => cases paused <;> exact ⟨ws, hstay _ hat⟩
  | decoding =>
      obtain ⟨wi, hwi, heq⟩ := Option.map_eq_some_iff.mp hs
      cases heq
      exact ⟨ws, hstay _ ((hslots i hat).symm.trans hwi)⟩
  | encoding wi =>
      have hi : i < ws.length := (List.getElem?_eq_some_iff.mp hat).1
      simp only [Shared.processStep] at hs
      split at hs
      · cases hs
        refine ⟨ws, hwin, hflag, hent, hlen, hi, ?_, hslots, hguards, trivial⟩
        have htake : ws.take (i + 1) = ws.take i ++ [wi] := by
          rw [List.take_add_one, show ws[i]? = some wi from hat]
          rfl
        rw [htake, List.map_append, ← hsent]
        rfl
      · cases hs
        exact ⟨ws, hstay _ hat⟩
  | refused wi =>
      simp only [Shared.processStep, if_neg hr] at hs
      cases hs
      exact ⟨ws, hstay _ hat⟩

end Sending

/-! ### Every commit is complete -/

/-- Where the listener is while the state is `StateReconnecting`. -/
def Listener.reconnects : Listener → Bool
  | .dialing _ | .stopped => true
  | .starting .reconnect call => call ≠ .sending
  | _ => false

/-- The listener is in `ProcessBufferInfo`. -/
def Listener.processes : Listener → Bool
  | .processing _ => true
  | _ => false

theorem Listener.not_processing {l : Listener} (h : l.processes = false) (w : Window) :
    l ≠ .processing w := by
  rintro rfl
  cases h

/-- The ring is left alone, or only put into. -/
def putsOnly {α : Type*} : Option (WindowOp α) → Bool
  | some .read | some .reset => false
  | some (.put _) | none => true

namespace Closable
variable {P : ℕ}

/-- `SendBuffer` does not find `TermChan` closed, and nobody else reads or resets the ring while it
is sending its window. -/
def careful (s : Closable) : ClosableMove P → Prop
  | .client m => s.client.listener.processes = true → putsOnly (s.client.ringOp m) = true
  | .giveUp .listener => s.client.listener ≠ .reading ∧ s.client.listener.processes = false
  | .fault _ => s.client.listener.processes = false
  | .giveUp _ | .terminate => True

instance (s : Closable) (m : ClosableMove P) : Decidable (s.careful m) := by
  unfold careful
  split
  all_goals infer_instance

/-- The invariant. -/
structure Sound (P : ℕ) (ti : TargetInfo) (s : Closable) : Prop where
  ring : RingOk P s.client.shared.ring
  target : ti = bdrGetTargetInfo P s.client.shared.ring
  state : s.client.shared.state = .reconnecting → s.client.listener.reconnects = true
  listener : ListenerOk P ti s.client.shared.ring s.scan s.connection s.client.listener
  commits : ∀ k ∈ s.commits, k.Complete

section Sound
variable {cfg : ClientConfig} {s s' : Closable} {c : Client} {ps : List Packet}

/-- A goroutine other than the listener. -/
theorem Sound.other (h : Sound P cfg.targetInfo s) {m : ClientMove P}
    (hc : s.careful (.client m)) (hm : m.ofListener = false)
    (hs : s.clientStep cfg m = some s') : Sound P cfg.targetInfo s' := by
  obtain ⟨⟨c, ps⟩, hmove, rfl⟩ := Option.map_eq_some_iff.mp hs
  have hring := ring_move hmove
  obtain ⟨hl, hstate⟩ := listener_move hmove hm
  have hps := not_completed_move hmove hm
  have hrec : s.record cfg m ps = s.scan := by cases m <;> first | rfl | cases hm
  have hconn : s.dialed m = s.connection := by cases m <;> first | rfl | cases hm
  simp only [hrec, hconn, if_neg hps]
  refine ⟨?_, ?_, fun hr => ?_, ?_, h.commits⟩
  · rw [hring]
    cases s.client.ringOp m with
    | none => exact h.ring
    | some op => exact h.ring.step op
  · rw [hring]
    cases s.client.ringOp m with
    | none => exact h.target
    | some op => exact h.target.trans (target_ringStep op).symm
  · simp only [hl]
    exact h.state (hstate hr)
  · simp only [hl, hring]
    cases hop : s.client.ringOp m with
    | none => exact h.listener
    | some op =>
        by_cases hproc : s.client.listener.processes = true
        · have hputs := hc hproc
          rw [hop] at hputs
          cases op with
          | put a => exact h.listener.put (by rw [h.target]; rfl) a
          | read | reset => cases hputs
        · exact h.listener.of_ring (Listener.not_processing (by simpa using hproc))

/-- The listener reads the ring: what it gets is a window, unless the ring is empty or flagged. -/
theorem Sound.read (h : Sound P cfg.targetInfo s) (hl : s.client.listener = .reading) :
    ListenerOk P cfg.targetInfo (bdrBufferReadRoutine s.client.shared.ring).1
      { s.scan with
        window := some (bdrBufferReadRoutine s.client.shared.ring).2
        entries := decodeWindow cfg.targetInfo s.client.shared.ring.buffer
          (bdrBufferReadRoutine s.client.shared.ring).2 } s.connection
      (if (bdrBufferReadRoutine s.client.shared.ring).2.length = 0 then .settingWriting
      else if (bdrBufferReadRoutine s.client.shared.ring).2.overflown then
        .starting .overflow .resetting
      else .processing ⟨(bdrBufferReadRoutine s.client.shared.ring).2, 0, .looping⟩) := by
  have hsent : s.scan.sent = [] := by
    have := h.listener
    rwa [hl] at this
  rw [read_snd]
  obtain ⟨-, ⟨q, hq⟩ | ⟨hf, hn⟩⟩ := h.ring
  · have hflag := overflown_of_flags hq.flags
    have hdec := decodeWindow_of_refines hq (rfl : _ = s.client.shared.ring.bufferInfo.maxWrites)
    rw [← h.target] at hdec
    obtain ⟨ws, hws, -⟩ := Option.map_eq_some_iff.mp hdec
    obtain ⟨hlen, hslots⟩ := decodeWindow_eq_some hws
    split
    · rename_i hzero
      have hnil : ws = [] := List.length_eq_zero_iff.mp (hlen.trans hzero)
      exact ⟨_, [], rfl, hflag, hws.trans (by rw [hnil]), by simp [hsent]⟩
    · rw [if_neg (by simp [hflag])]
      refine ⟨ws, rfl, hflag, hws, hlen, Nat.zero_le _, by simp [hsent], fun i hi => ?_,
        guards_read h.ring hflag, trivial⟩
      rw [read_fst hq.flags]
      exact hslots i (hlen ▸ hi)
  · rw [if_neg hn, if_pos hf]
    trivial

/-- A commit is recorded as `ProcessBuffer` has left it. -/
theorem Sound.commits_append (h : Sound P cfg.targetInfo s) (hl : s.client.listener = .completing) :
    ∀ k ∈ s.commits ++ [{ s.scan with connection := s.connection }], k.Complete := by
  have hlist := h.listener
  rw [hl] at hlist
  intro k hk
  rcases List.mem_append.mp hk with hk | hk
  · exact h.commits k hk
  · rw [List.mem_singleton.mp hk]
    exact hlist

/-- The listener goes on with a packet. -/
theorem Sound.listens (h : Sound P cfg.targetInfo s) {sent : Bool}
    (hs : s.clientStep cfg (.listener sent : ClientMove P) = some s') :
    Sound P cfg.targetInfo s' := by
  obtain ⟨⟨c, ps⟩, hmove, rfl⟩ := Option.map_eq_some_iff.mp hs
  have hring := ring_move hmove
  have hok : RingOk P c.shared.ring ∧ cfg.targetInfo = bdrGetTargetInfo P c.shared.ring := by
    rw [hring]
    cases s.client.ringOp (.listener sent : ClientMove P) with
    | none => exact ⟨h.ring, h.target⟩
    | some op => exact ⟨h.ring.step op, h.target.trans (target_ringStep op).symm⟩
  have hstate := h.state
  have hlist := h.listener
  -- a commit is recorded where the listener sends `InfoHashingCompleted`
  suffices hnext : (c.shared.state = .reconnecting → c.listener.reconnects = true) ∧
      ListenerOk P cfg.targetInfo c.shared.ring (s.record cfg (.listener sent : ClientMove P) ps)
        s.connection c.listener ∧
      (.infoHashingCompleted ∈ ps → s.client.listener = .completing) by
    refine ⟨hok.1, hok.2, hnext.1, hnext.2.1, ?_⟩
    simp only
    split
    · rename_i hin
      exact h.commits_append (hnext.2.2 hin)
    · exact h.commits
  have hgoes : ListenerMove cfg s.client ps c := by
    cases move_cases hmove with
    | listener _ h => exact h
  cases hgoes with
  | enqueued hl _ | started hl _ | ended hl _ =>
      simp only [hl, Listener.reconnects] at hstate
      exact ⟨fun hr => absurd (hstate hr) (by simp), trivial, by simp⟩
  | compared hl _ =>
      simp only [hl, Listener.reconnects] at hstate
      rw [hl] at hlist
      simp only [record, hl]
      exact ⟨fun hr => absurd (hstate hr) (by simp), hlist, by simp⟩
  | read hl =>
      simp only [hl, Listener.reconnects] at hstate
      simp only [record, hl]
      exact ⟨fun hr => absurd (hstate hr) (by simp), h.read hl, by simp⟩
  | process hl hp =>
      -- not while it is connecting again: then the rest of the window would be left out
      simp only [hl, Listener.reconnects] at hstate
      rw [hl] at hlist
      obtain ⟨ws, hw⟩ := hlist
      have hr : s.client.shared.state ≠ .reconnecting := fun hr => absurd (hstate hr) (by simp)
      simp only [record, hl]
      refine ⟨fun hr' => absurd ((shared_processStep hp).2.symm.trans hr') hr, hw.step hr hp, ?_⟩
      exact fun hin => absurd hin (not_completed_processStep hp)
  | setWriting hl =>
      rw [hl] at hlist
      simp only [record, hl]
      exact ⟨by rintro ⟨⟩, hlist, by simp⟩
  | @resume call r hl hp =>
      simp only [hl, Listener.reconnects] at hstate
      rw [hl] at hlist
      simp only [record, hl]
      refine ⟨fun hr => absurd (hstate hr) (by simp), ?_, by simp⟩
      cases r.2 <;> exact hlist
  | completed hl =>
      simp only [hl, Listener.reconnects] at hstate
      exact ⟨fun hr => absurd (hstate hr) (by simp), trivial, fun _ => hl⟩
  | @start k call call' sh qs hl hp =>
      refine ⟨fun hr => ?_, trivial, fun hin => absurd hin (not_completed_startStep hp)⟩
      obtain ⟨hr', hnext, -⟩ := reconnecting_startStep hp hr
      have hrec := hstate hr'
      rw [hl] at hrec
      cases k with
      | overflow => cases hrec
      | reconnect =>
          simp only [setListener, Listener.reconnects, decide_eq_true_eq]
          rintro rfl
          exact hnext rfl
  | restarted hl hp =>
      refine ⟨fun hr => ?_, trivial, fun hin => absurd hin (not_completed_startStep hp)⟩
      have hrec := hstate (reconnecting_startStep hp hr).1
      rw [hl] at hrec
      cases hrec
  | reconnected hl hp =>
      refine ⟨fun hr => ?_, trivial, fun hin => absurd hin (not_completed_startStep hp)⟩
      obtain ⟨hr', -, hcall⟩ := reconnecting_startStep hp hr
      have hrec := hstate hr'
      rw [hl, hcall rfl] at hrec
      cases hrec

/-- A packet arrives, or the connection is lost or made again. -/
theorem Sound.connects (h : Sound P cfg.targetInfo s) {m : ClientMove P}
    (hm : (∃ packet, m = .deliver packet) ∨ m = .eof ∨ m = .dial)
    (hs : s.clientStep cfg m = some s') : Sound P cfg.targetInfo s' := by
  obtain ⟨⟨c, ps⟩, hmove, rfl⟩ := Option.map_eq_some_iff.mp hs
  have hstate := h.state
  have hlist := h.listener
  cases move_cases hmove with
  | @deliver packet _ hl =>
      simp only [hl, Listener.reconnects] at hstate
      have hr : s.client.shared.state ≠ .reconnecting := fun hr => absurd (hstate hr) (by simp)
      cases packet with
      | infoHashingCompleted => exact ⟨h.ring, h.target, fun hr' => absurd hr' hr, rfl, h.commits⟩
      | infoStartHashing | payloadHash | errJournalOverflow | errInit | errInvalidSizes |
          errJournalCreate =>
          exact ⟨h.ring, h.target, fun hr' => absurd hr' hr, trivial, h.commits⟩
      | _ => exact ⟨h.ring, h.target, fun hr' => absurd hr' hr, hlist, h.commits⟩
  | eof _ hl =>
      simp only [hl, Listener.reconnects] at hstate
      exact ⟨h.ring, h.target, fun _ => rfl, fun hr => absurd (hstate hr) (by simp), h.commits⟩
  | dial _ hl hps =>
      rw [hl] at hlist
      obtain ⟨info, rfl⟩ := hps
      simp only [if_neg (show _ ≠ ClientState.reconnecting from hlist)]
      exact ⟨h.ring, h.target, fun _ => rfl, trivial, h.commits⟩
  | _ => simp at hm

/-- A goroutine that gives up touches neither the ring nor the state; the others leave the listener
where it is. -/
theorem giveUp_frame {c c' : Client} {g : Goroutine} (h : c.giveUp cfg g = some c') :
    c'.shared = c.shared ∧ (g ≠ .listener → c'.listener = c.listener) := by
  cases g with
  | run =>
      simp only [giveUp] at h
      split at h
      · cases h
      · obtain ⟨next, -, rfl⟩ := Option.map_eq_some_iff.mp h
        exact ⟨rfl, fun _ => rfl⟩
  | monitor =>
      simp only [giveUp] at h
      split at h
      · cases h
      · cases h
        exact ⟨rfl, fun _ => rfl⟩
      · obtain ⟨next, -, rfl⟩ := Option.map_eq_some_iff.mp h
        exact ⟨rfl, fun _ => rfl⟩
      · obtain ⟨-, h⟩ := Option.ite_none_right_eq_some.mp h
        cases h
        exact ⟨rfl, fun _ => rfl⟩
  | listener =>
      refine ⟨?_, fun hg => absurd rfl hg⟩
      simp only [giveUp] at h
      split at h <;> try cases h <;> rfl
      · obtain ⟨-, h⟩ := Option.ite_none_right_eq_some.mp h
        cases h
        rfl
      · obtain ⟨next, -, rfl⟩ := Option.map_eq_some_iff.mp h
        split <;> rfl
  | reader i =>
      simp only [giveUp] at h
      split at h
      · obtain ⟨next, -, rfl⟩ := Option.map_eq_some_iff.mp h
        exact ⟨rfl, fun _ => rfl⟩
      · cases h
  | comparer i =>
      simp only [giveUp] at h
      split at h
      · cases h
        exact ⟨rfl, fun _ => rfl⟩
      · cases h
  | generator | blockReader | sender | replication =>
      obtain ⟨r, -, rfl⟩ := Option.map_eq_some_iff.mp h
      exact ⟨rfl, fun _ => rfl⟩

/-- The listener gives up, but not in `SendBuffer`. -/
theorem Sound.listenerGivesUp (h : Sound P cfg.targetInfo s)
    (hread : s.client.listener ≠ .reading) (hproc : s.client.listener.processes = false)
    (hc : s.client.giveUp cfg .listener = some c) :
    (c.shared.state = .reconnecting → c.listener.reconnects = true) ∧
      ListenerOk P cfg.targetInfo c.shared.ring s.scan s.connection c.listener := by
  have hstate := h.state
  simp only [giveUp] at hc
  split at hc
  · cases hc
    exact ⟨fun _ => rfl, trivial⟩
  · cases hc
    exact ⟨fun _ => rfl, trivial⟩
  · rename_i hl
    exact absurd hl hread
  · rename_i w hl
    rw [hl] at hproc
    cases hproc
  · rename_i hl
    simp only [hl, Listener.reconnects] at hstate
    cases hc
    exact ⟨fun hr => absurd (hstate hr) (by simp), trivial⟩
  · rename_i k call hl
    obtain ⟨next, hnext, rfl⟩ := Option.map_eq_some_iff.mp hc
    rw [hl] at hstate
    cases call with
    | resetting =>
        cases hnext
        refine ⟨fun hr => ?_, trivial⟩
        cases k with
        | overflow => cases hstate hr
        | reconnect => rfl
    | sending =>
        cases hnext
        cases k <;> exact ⟨fun hr => absurd (hstate hr) (by simp [Listener.reconnects]), trivial⟩
    | pausing | settingState => cases hnext
  all_goals cases hc

/-- **What one step preserves.** -/
theorem Sound.step (h : Sound P cfg.targetInfo s) {m : ClosableMove P} (hm : s.careful m)
    (hs : s.step cfg m = some s') : Sound P cfg.targetInfo s' := by
  cases m with
  | client m =>
      by_cases hl : m.ofListener = true
      · cases m with
        | listener sent => exact h.listens hs
        | deliver packet => exact h.connects (.inl ⟨packet, rfl⟩) hs
        | eof => exact h.connects (.inr (.inl rfl)) hs
        | dial => exact h.connects (.inr (.inr rfl)) hs
        | _ => cases hl
      · exact h.other hm (by simpa using hl) hs
  | terminate =>
      cases hs
      exact ⟨h.ring, h.target, h.state, h.listener, h.commits⟩
  | giveUp g =>
      obtain ⟨-, hs⟩ := Option.ite_none_right_eq_some.mp hs
      obtain ⟨c, hc, rfl⟩ := Option.map_eq_some_iff.mp hs
      obtain ⟨hshared, hother⟩ := giveUp_frame hc
      have hring : c.shared.ring = s.client.shared.ring := by rw [hshared]
      suffices hnext : (c.shared.state = .reconnecting → c.listener.reconnects = true) ∧
          ListenerOk P cfg.targetInfo c.shared.ring s.scan s.connection c.listener from
        ⟨hring ▸ h.ring, hring ▸ h.target, hnext.1, hnext.2, h.commits⟩
      by_cases hg : g = .listener
      · subst hg
        exact h.listenerGivesUp hm.1 hm.2 hc
      · rw [hshared, hother hg]
        exact ⟨h.state, h.listener⟩
  | fault g =>
      obtain ⟨-, hs⟩ := Option.ite_none_right_eq_some.mp hs
      obtain ⟨c, hc, rfl⟩ := Option.map_eq_some_iff.mp hs
      obtain ⟨-, hc⟩ := Option.ite_none_right_eq_some.mp hc
      cases hc
      exact ⟨h.ring.step .read, h.target.trans (target_ringStep .read).symm, h.state,
        h.listener.of_ring (Listener.not_processing hm), h.commits⟩

end Sound

/-- **A scan is committed only when the whole ring has been sent**, as long as `SendBuffer` does not
find `TermChan` closed and is the only one to read or reset the ring while it sends its window.
Whatever is delivered, however often the connection is lost, whatever fails and whenever the client
is asked to shut down, `READ_BUFFER_INFO` has succeeded since the server's completion arrived, it
was not flagged, and every entry of the window was sent on the connection of the commit. -/
theorem complete_of_careful {cfg : ClientConfig} {mem : Image UInt8} {M : ℕ} {rb : RingBuffer}
    (hrb : bdrRingBufferInit mem M = some rb) (hti : cfg.targetInfo = bdrGetTargetInfo P rb)
    {command : Option Command} {source : Image UInt8} {moves : List (ClosableMove P)}
    {s : Closable} (hrun : Run (step cfg) careful (start (.start command rb source)) moves s) :
    ∀ k ∈ s.commits, k.Complete := by
  have hstart : Sound P cfg.targetInfo (start (.start command rb source)) := by
    refine ⟨⟨?_, .inl ⟨_, refines_init hrb⟩⟩, hti, by rintro ⟨⟩, trivial, by simp [start]⟩
    exact (refines_init (P := P) hrb).maxWrites_pos
  exact (hrun.invariant (I := Sound P cfg.targetInfo) (fun _ _ _ h hm hs => h.step hm hs)
    hstart).commits

/-- The server reports the end of a scan during which a nine was written: the pipeline of
`InitHashing` ends, and the listener is about to read the ring. -/
def scanned : List (ClosableMove 4096) :=
  List.map .client (List.replicate 6 (.run : ClientMove 4096) ++ [.deliver .infoStartHashing,
    .listener true, .write Traced.ninePut, .deliver .infoHashingCompleted,
    .hashing (.reader 0 false), .hashing .closeWork, .hashing (.worker 0), .hashing .closeComp,
    .hashing (.comparer 0), .listener true])

/-- `SendBuffer` sends the nine, after one failed attempt; the shutdown that is asked for then does
not keep the scan from being committed. -/
def committed : List (ClosableMove 4096) :=
  List.replicate 6 (.client (.listener true)) ++
    [.client (.listener false), .client (.listener true), .client (.listener true),
      .client (.listener true), .terminate] ++
    List.replicate 5 (.client (.listener true))

theorem complete_of_careful_scanned : ∃ s,
    Run (step Traced.fourSlotsConfig) careful
      (start (.start (some .startHashing) Traced.fourSlots fun _ => 5)) (scanned ++ committed) s ∧
    s.commits.map (fun k => (k.window, k.sent.map fun x => (x.1, effective x.2))) =
      [(some ⟨0, 1, 0, 0, 4⟩, [(0, writeInfo Traced.ninePut)])] ∧
    ∀ k ∈ s.commits, k.Complete := by
  obtain ⟨s, hs, hk⟩ := exists_exec (P := fun s : Closable =>
      s.commits.map (fun k => (k.window, k.sent.map fun x => (x.1, effective x.2))) =
        [(some ⟨0, 1, 0, 0, 4⟩, [(0, writeInfo Traced.ninePut)])])
    (show (exec (guarded (step Traced.fourSlotsConfig) careful)
      (start (.start (some .startHashing) Traced.fourSlots fun _ => 5))
      (scanned ++ committed)).any _ = true by decide +kernel)
  have hrun := Run.of_exec_guarded hs
  have hrb : bdrRingBufferInit (fun _ => 0) 4 = some Traced.fourSlots := rfl
  exact ⟨s, hrun, of_decide_eq_true hk, complete_of_careful hrb rfl hrun⟩

/-- The shutdown is asked for when `SendBuffer` is about to read the ring: `ServeIOCTL` returns
without its ioctl, there are no new writes in the zeroed info, and the scan is committed although
the nine is still in the ring. -/
theorem not_complete_of_terminate : ∃ s,
    exec (step Traced.fourSlotsConfig)
      (start (.start (some .startHashing) Traced.fourSlots fun _ => 5))
      (scanned ++ [.terminate, .giveUp .listener] ++
        List.replicate 5 (.client (.listener true))) = some s ∧
    s.client.shared.ring.bufferInfo.length = 1 ∧ ∃ k ∈ s.commits, ¬ k.Complete := by
  obtain ⟨s, hs, hk⟩ := exists_exec (P := fun s : Closable =>
      s.client.shared.ring.bufferInfo.length = 1 ∧ s.commits = [.none])
    (show (exec (step Traced.fourSlotsConfig)
      (start (.start (some .startHashing) Traced.fourSlots fun _ => 5))
      (scanned ++ [.terminate, .giveUp .listener] ++
        List.replicate 5 (.client (.listener true)))).any _ = true by decide +kernel)
  obtain ⟨hlen, hk⟩ := of_decide_eq_true hk
  refine ⟨s, hs, hlen, .none, by rw [hk]; simp, ?_⟩
  rintro ⟨bi, ws, hw, -⟩
  cases hw

end Closable

end Bdr.Client
