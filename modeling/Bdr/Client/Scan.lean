import Bdr.Client.Comparison
import Bdr.Client.Replication

/-!
# Client — a scan

The client from the command that starts a scan to its end: the listener is told that the scan has
begun, feeds the hashes to `InitHashing`, waits for the comparers, sends what the ring holds and
resumes the monitor (`ClientStage`).

Until then the controller holds the monitor, so that the ring is read by the listener alone.  But
`IsPaused`, which `SendBuffer` calls for every entry, takes the token out of the channel and puts it
back: a monitor that looks in between finds no token, and goes on (`Listener.holdsToken`).
-/

namespace Bdr.Client

open Kern

/-- How far the client is in a scan. -/
inductive ClientStage where
  /-- The command has been sent. -/
  | called
  /-- The listener waits for the comparers of the scan before. -/
  | starting
  | comparing
  /-- The listener waits for the comparers of this scan. -/
  | draining
  | reading
  | sending
  | finishing
  | finished
  deriving DecidableEq, Repr

namespace ClientStage

/-- The pipeline is the one of this scan. -/
def compares : ClientStage → Bool
  | .comparing | .draining | .reading | .sending | .finishing => true
  | _ => false

/-- Blocks may still be read. -/
def reads : ClientStage → Bool
  | .called | .starting | .comparing | .draining => true
  | _ => false

/-- `SendBuffer` has not read the ring yet. -/
def unread : ClientStage → Bool
  | .sending | .finishing | .finished => false
  | _ => true

/-- Where the client may be after a move, but for the packets of the server and the end. -/
inductive Next : ClientStage → ClientStage → Prop
  | refl (k : ClientStage) : Next k k
  | started : Next .starting .comparing
  | compared : Next .draining .reading
  | read : Next .reading .sending
  | empty : Next .reading .finishing
  | sent : Next .sending .finishing

theorem unread_of_reads {k : ClientStage} (h : k.reads = true) : k.unread = true := by
  cases k with
  | called | starting | comparing | draining => rfl
  | reading | sending | finishing | finished => cases h

end ClientStage

/-- Where the listener is. -/
inductive Listener.At (ok : HashInfo → Prop) : ClientStage → Listener → Prop
  | called : At ok .called .receiving
  | starting : At ok .starting (.draining .startHashing)
  | receiving : At ok .comparing .receiving
  | enqueueing {h : HashInfo} (hh : ok h) : At ok .comparing (.enqueueing h)
  | draining : At ok .draining (.draining .hashingCompleted)
  | reading : At ok .reading .reading
  | sending {w : Window} : At ok .sending (.processing w)
  | settingWriting : At ok .finishing .settingWriting
  | resuming {call : PauseCall} : At ok .finishing (.resuming call)
  | completing : At ok .finishing .completing
  | finished : At ok .finished .receiving

/-- What the pipeline of `InitHashing` is. -/
def InitHashing.At (hash : List UInt8 → UInt64) (size : ℕ) (ok : HashInfo → Prop)
    (Q : ℕ → UInt8 → Prop) (h : InitHashing) : ClientStage → Prop
  | .called | .starting | .finished => h.readers.workers = [] ∧ h.Quiet
  | .comparing | .draining => h.Compares hash size ok Q
  | .reading | .sending | .finishing => h.Compares hash size ok Q ∧ h.comparers.Finished

/-! ### The monitor is held -/

/-- At the end of a scan the listener resumes the monitor as `InitReplication` does. -/
def Listener.phase : Listener → ReplicationPhase
  | .settingWriting => .settingState
  | .resuming call => .resuming call
  | .completing => .returned
  | _ => .running

/-- `IsPaused` has taken the token out of the channel, and is about to put it back. -/
def Listener.holdsToken : Listener → Bool
  | .processing ⟨_, _, .checking (.putBack .paused)⟩ => true
  | _ => false

/-- The monitor is held while the listener sends a window, or would be if `IsPaused` had put the
token back. -/
def Window.Bars (w : Window) (m : Monitor) (p : Pause) : Prop :=
  m.Held p ∧ (∀ call, w.pc = .checking call → call = .rlock ∨ call = .receive) ∨
    w.pc = .checking (.putBack .paused) ∧ m = .waiting .check ∧ p.stateChan = none

def Barred (c : Client) : ClientStage → Prop
  | .finished => c.monitor.Free c.shared.pause
  | .sending => ∀ w, c.listener = .processing w → w.Bars c.monitor c.shared.pause
  | _ => c.monitor.Gate c.shared.pause c.listener.phase

section Bars
variable {m : Monitor} {p : Pause} {w : Window} {s s' : Shared} {ps : List Packet}

theorem Monitor.Held.waiting (h : m.Held p) : ∃ call, m = .waiting call := by
  rcases h with ⟨rfl, -⟩ | ⟨rfl, -⟩
  · exact ⟨_, rfl⟩
  · exact ⟨_, rfl⟩

theorem Window.Bars.waiting (h : w.Bars m p) : ∃ call, m = .waiting call := by
  rcases h with ⟨hheld, -⟩ | ⟨-, rfl, -⟩
  · exact hheld.waiting
  · exact ⟨_, rfl⟩

/-- The monitor does not get past the controller, if `IsPaused` does not have the token. -/
theorem Window.Bars.waits {call : PauseCall} {r : Pause × (PauseCall ⊕ Bool)}
    (h : w.Bars (.waiting call) p) (hnot : w.pc ≠ .checking (.putBack .paused))
    (hs : p.step call = some r) : w.Bars (r.2.elim .waiting fun _ => .reading) r.1 := by
  rcases h with ⟨hheld, hcall⟩ | ⟨hpc, -⟩
  · exact .inl ⟨hheld.waits hs, hcall⟩
  · exact absurd hpc hnot

/-- A step of `SendBuffer`: the monitor is held when it is over. -/
theorem Window.Bars.process {ti : TargetInfo} {sent : Bool} {next : Option Window}
    (h : w.Bars m s.pause) (hconn : s.state ≠ .reconnecting)
    (hs : s.processStep ti false sent w = some (s', ps, next)) :
    (next = none → m.Held s'.pause) ∧ ∀ w' ∈ next, w'.Bars m s'.pause := by
  obtain ⟨info, i, pc⟩ := w
  have hfree : ∀ {p' : Pause} {w' : Window}, m.Held p' → (∀ call, w'.pc ≠ .checking call) →
      (some w' = none → m.Held p') ∧ ∀ v ∈ some w', v.Bars m p' := by
    intro p' w' hheld hpc
    refine ⟨by simp, fun v hv => ?_⟩
    cases hv
    exact .inl ⟨hheld, fun call hcall => absurd hcall (hpc call)⟩
  cases pc with
  | looping =>
      rcases h with ⟨hheld, -⟩ | ⟨hpc, -⟩
      · cases hs
        split
        · refine ⟨by simp, fun v hv => ?_⟩
          cases hv
          exact .inl ⟨hheld, fun call hcall => by cases hcall; exact .inl rfl⟩
        · exact ⟨fun _ => hheld, by simp⟩
      · cases hpc
  | checking call =>
      obtain ⟨⟨p, r⟩, hp, heq⟩ := Option.map_eq_some_iff.mp hs
      cases heq
      rcases h with ⟨hheld, hcall⟩ | ⟨hpc, hm, hchan⟩
      · rcases hcall call rfl with rfl | rfl
        · obtain ⟨-, heq⟩ := Option.ite_none_right_eq_some.mp hp
          cases heq
          refine ⟨by simp, fun v hv => ?_⟩
          cases hv
          exact .inl ⟨hheld, fun call hcall => by cases hcall; exact .inr rfl⟩
        · -- the token is in the channel as long as the monitor has not taken it
          rcases hheld with ⟨hm, hchan⟩ | ⟨hm, hchan⟩
          · simp only [Pause.step, hchan] at hp
            cases hp
            refine ⟨by simp, fun v hv => ?_⟩
            cases hv
            exact .inr ⟨rfl, hm, rfl⟩
          · simp only [Pause.step, hchan] at hp
            cases hp
            exact hfree (.inr ⟨hm, rfl⟩) (by simp)
      · cases hpc
        obtain ⟨-, heq⟩ := Option.ite_none_right_eq_some.mp hp
        cases heq
        simp only [Bool.and_false, Bool.false_eq_true, if_false]
        exact hfree (.inl ⟨hm, rfl⟩) (by simp)
  | decoding =>
      rcases h with ⟨hheld, -⟩ | ⟨hpc, -⟩
      · obtain ⟨wi, -, heq⟩ := Option.map_eq_some_iff.mp hs
        cases heq
        exact hfree hheld (by simp)
      · cases hpc
  | encoding wi =>
      rcases h with ⟨hheld, -⟩ | ⟨hpc, -⟩
      · simp only [Shared.processStep] at hs
        split at hs <;> cases hs <;> exact hfree hheld (by simp)
      · cases hpc
  | refused wi =>
      rcases h with ⟨hheld, -⟩ | ⟨hpc, -⟩
      · simp only [Shared.processStep, if_neg hconn] at hs
        cases hs
        exact hfree hheld (by simp)
      · cases hpc

end Bars

/-! ### The client in a scan -/

/-- `Run` has started the goroutines, and the scan is under way. -/
structure Scanning (cfg : ClientConfig) (ok : HashInfo → Prop) (Q : ℕ → UInt8 → Prop)
    (k : ClientStage) (c : Client) : Prop where
  run : c.run = none
  connected : c.shared.state ≠ .reconnecting
  replication : c.replication.phase = .idle
  listener : c.listener.At ok k
  hashing : c.hashing.At cfg.hash cfg.diskSize.toNat ok Q k
  barred : c.Barred k

/-- The hash that the listener is about to pass on. -/
def Listener.hashWeight (p : ℕ) : Listener → ℕ
  | .enqueueing h => h.weight p
  | _ => 0

/-- How often the hashes in the client cover `p`. -/
def hashWeight (c : Client) (k : ClientStage) (p : ℕ) : ℕ :=
  if k.compares then c.listener.hashWeight p + c.hashing.hashWeight p else 0

/-- How often the blocks in the client cover `p`. -/
def blockWeight (c : Client) (k : ClientStage) (p : ℕ) : ℕ :=
  if k.compares then c.hashing.blockWeight p else 0

/-- The packets of the server that the client may receive. -/
inductive Expects (ok : HashInfo → Prop) : ClientStage → Packet → Prop
  | startHashing : Expects ok .called .infoStartHashing
  | hash {h : HashInfo} (hh : ok h) : Expects ok .comparing (.payloadHash h)
  | completed : Expects ok .comparing .infoHashingCompleted

/-- What a move receives and sends, and what it does to the hashes and blocks in the client. -/
inductive Scans {P : ℕ} (cfg : ClientConfig) (ok : HashInfo → Prop) (Q : ℕ → UInt8 → Prop)
    (k k' : ClientStage) (c c' : Client) : ClientMove P → List Packet → Prop
  | passes {m : ClientMove P} {ps : List Packet} (hm : ∀ packet, m ≠ .deliver packet)
      (hk : k.Next k') (hps : ∀ p ∈ ps, ∃ w, p = .payloadBufferWrite w)
      (hleaves : k' ≠ k → c'.monitor = c.monitor ∧
        (k = .reading → (∃ sent, m = .listener sent) ∧ c.ringOp m = some .read ∧
          (k' = .sending → c.shared.ring.bufferInfo.length ≠ 0)))
      (hnil : k.reads = true → ps = []) (hw : ∀ p, c'.hashWeight k' p = c.hashWeight k p)
      (hb : ∀ p, c'.blockWeight k' p = c.blockWeight k p) : Scans cfg ok Q k k' c c' m ps
  | announced (hk : k = .called) (hk' : k' = .starting) :
      Scans cfg ok Q k k' c c' (.deliver .infoStartHashing) []
  | hash {h : HashInfo} (hk : k = .comparing) (hk' : k' = .comparing)
      (hw : ∀ p, c'.hashWeight k' p = c.hashWeight k p + h.weight p)
      (hb : ∀ p, c'.blockWeight k' p = c.blockWeight k p) :
      Scans cfg ok Q k k' c c' (.deliver (.payloadHash h)) []
  | completed (hk : k = .comparing) (hk' : k' = .draining)
      (hw : ∀ p, c'.hashWeight k' p = c.hashWeight k p)
      (hb : ∀ p, c'.blockWeight k' p = c.blockWeight k p) :
      Scans cfg ok Q k k' c c' (.deliver .infoHashingCompleted) []
  | agrees {i : ℕ} {comp : CompItem} (hk : k = .comparing ∨ k = .draining) (hk' : k' = k)
      (hc : comp.Carries cfg.hash ok Q)
      (hbusy : c.hashing.comparers.busy? i = some (.took comp))
      (heq : comp.hash = comp.hashInfo.hash)
      (hw : ∀ p, c'.hashWeight k' p + comp.hashInfo.weight p = c.hashWeight k p)
      (hb : ∀ p, c'.blockWeight k' p = c.blockWeight k p) :
      Scans cfg ok Q k k' c c' (.hashing (.comparer i)) []
  | differs {i : ℕ} {comp : CompItem} (hk : k = .comparing ∨ k = .draining) (hk' : k' = k)
      (hw : ∀ p, c'.hashWeight k' p + comp.hashInfo.weight p = c.hashWeight k p)
      (hb : ∀ p, c'.blockWeight k' p = c.blockWeight k p + comp.hashInfo.weight p) :
      Scans cfg ok Q k k' c c' (.hashing (.comparer i)) []
  | block {i : ℕ} {b : CorrectBlockInfo} (hk : k = .comparing ∨ k = .draining) (hk' : k' = k)
      (hc : b.Carries cfg.diskSize.toNat Q)
      (hw : ∀ p, c'.hashWeight k' p = c.hashWeight k p)
      (hb : ∀ p, c'.blockWeight k' p + b.weight p = c.blockWeight k p) :
      Scans cfg ok Q k k' c c' (.hashing (.comparer i)) [.payloadCorrectBlock b]
  | ended {sent : Bool} (hk : k = .finishing) (hk' : k' = .finished)
      (hw : ∀ p, c.hashWeight k p = 0) (hb : ∀ p, c.blockWeight k p = 0) :
      Scans cfg ok Q k k' c c' (.listener sent) [.infoHashingCompleted]

section Scanning
variable {P : ℕ} {cfg : ClientConfig} {ok : HashInfo → Prop} {Q Q' : ℕ → UInt8 → Prop}
variable {k : ClientStage} {c c' : Client} {m : ClientMove P} {ps : List Packet}

/-- The listener passes a hash on only while it receives them. -/
theorem Listener.At.hashWeight {l : Listener} (h : l.At ok k) (hk : k.reads = false) (p : ℕ) :
    l.hashWeight p = 0 := by
  cases h with
  | called | starting | receiving | enqueueing | draining => cases hk
  | reading | sending | settingWriting | resuming | completing | finished => rfl

theorem Listener.At.window? {l : Listener} (h : l.At ok k) (hk : k ≠ .sending) :
    l.window? = none := by
  cases h with
  | sending => exact absurd rfl hk
  | _ => rfl

theorem InitHashing.At.mono {hash : List UInt8 → UInt64} {size : ℕ} {h : InitHashing}
    (hat : h.At hash size ok Q k) (hQ : ∀ p v, Q p v → Q' p v) : h.At hash size ok Q' k := by
  cases k with
  | called | starting | finished => exact hat
  | comparing | draining => exact InitHashing.Compares.mono hat hQ
  | reading | sending | finishing => exact ⟨hat.1.mono hQ, hat.2⟩

theorem Scanning.mono (h : c.Scanning cfg ok Q k) (hQ : ∀ p v, Q p v → Q' p v) :
    c.Scanning cfg ok Q' k :=
  { h with hashing := h.hashing.mono hQ }

/-- When no block is read any more, nothing is on its way in the client. -/
theorem Scanning.weight_of_not_reads (h : c.Scanning cfg ok Q k) (hk : k.reads = false) (p : ℕ) :
    c.hashWeight k p = 0 ∧ c.blockWeight k p = 0 := by
  have hhash := h.hashing
  have hl := h.listener
  cases k with
  | called | starting | comparing | draining => cases hk
  | finished => exact ⟨rfl, rfl⟩
  | reading | sending | finishing =>
      obtain ⟨hw, hb⟩ := hhash.1.weight_of_finished hhash.2 p
      have hzero := hl.hashWeight rfl p
      constructor
      · simp [hashWeight, ClientStage.compares, hw, hzero]
      · simp [blockWeight, ClientStage.compares, hb]

/-- The monitor waits, or it is free at the end. -/
theorem Scanning.held_or_free (h : c.Scanning cfg ok Q k) :
    (∃ call, c.monitor = .waiting call) ∨
      c.monitor.Free c.shared.pause ∧ (k = .finishing ∨ k = .finished) := by
  have hbar := h.barred
  have hl := h.listener
  generalize hlis : c.listener = l at hl
  cases hl with
  | finished => exact .inr ⟨hbar, .inr rfl⟩
  | sending => exact .inl (hbar _ hlis).waiting
  | called | starting | receiving | enqueueing | draining | reading =>
      simp only [Barred, hlis] at hbar
      rcases hbar.held_or_free with hheld | ⟨-, hne⟩
      · exact .inl hheld.waiting
      · exact absurd rfl hne
  | settingWriting | resuming | completing =>
      simp only [Barred, hlis] at hbar
      rcases hbar.held_or_free with hheld | ⟨hfree, -⟩
      · exact .inl hheld.waiting
      · exact .inr ⟨hfree, .inl rfl⟩

theorem Scanning.readers (h : c.Scanning cfg ok Q k) (i : ℕ) (call : StartCall) :
    c.hashing.readers.busy? i ≠ some (.starting call) := by
  intro hb
  have hhash := h.hashing
  cases k with
  | called | starting | finished =>
      rw [(Pool.finished_of_workers hhash.1).busy? i] at hb
      cases hb
  | comparing | draining => exact hhash.readers.of_busy? hb
  | reading | sending | finishing => exact hhash.1.readers.of_busy? hb

/-- **The ring is read by the listener**, and at the end by the monitor. -/
theorem Scanning.ringOp (h : c.Scanning cfg ok Q k) (m : ClientMove P) :
    c.ringOp m ≠ some .reset ∧ (c.ringOp m = some .read →
      k = .reading ∧ c.listener = .reading ∨
        (k = .finishing ∨ k = .finished) ∧ c.monitor = .reading) := by
  cases m with
  | write a => simp [Client.ringOp]
  | run => simp [Client.ringOp, h.run]
  | monitor sent =>
      rcases h.held_or_free with ⟨call, hm⟩ | ⟨hfree, hk⟩
      · simp [Client.ringOp, hm]
      · cases hm : c.monitor with
        | reading => simp [Client.ringOp, hm, hk]
        | waiting call => simp [Client.ringOp, hm]
        | starting call => exact absurd hm (hfree.starting call)
        | processing w => simp [Client.ringOp, hm]
  | listener sent =>
      have hl := h.listener
      generalize hlis : c.listener = l at hl
      cases hl <;> simp [Client.ringOp, hlis]
  | hashing m =>
      rw [ringOp_hashes fun i failed call _ => h.readers i call]
      simp
  | deliver | eof | dial | replication => simp [Client.ringOp]

theorem Scanning.orderly (h : c.Scanning cfg ok Q k)
    (hroom : ∀ a, m = .write a → (bdrRingBufferPut c.shared.ring a).2 = true) : c.Orderly m where
  room a ha := hroom a (write_of_ringOp ha)
  alone hop := by
    obtain ⟨hreset, hread⟩ := h.ringOp m
    rcases hread (hop.resolve_right hreset) with ⟨rfl, hl⟩ | ⟨hk, hm⟩
    · rcases h.held_or_free with ⟨call, hm⟩ | ⟨-, hk | hk⟩
      · simp [windows, hl, hm, Listener.window?, Monitor.window?]
      · cases hk
      · cases hk
    · have hw := h.listener.window? (by rcases hk with rfl | rfl <;> simp)
      simp [windows, hw, hm, Monitor.window?]
  unpaused w hw hpc := by
    rcases h.held_or_free with ⟨call, hm⟩ | ⟨hfree, -⟩
    · cases hm.symm.trans hw
    · rcases hfree.checking w _ hw hpc with h | h | h <;> cases h
  connected _ := h.connected

/-- The command has returned, and the goroutines begin. -/
theorem Commanding.scanning {command : Command} (h : c.Commanding command)
    (hchan : c.shared.pause.stateChan = some .paused) :
    Scanning cfg ok Q .called { c with run := none } where
  run := rfl
  connected := h.connected
  replication := by rw [h.replication]; rfl
  listener := by
    rw [show Client.listener { c with run := none } = .receiving from h.listener]
    exact .called
  hashing := ⟨h.readers, h.hashing⟩
  barred := by
    show c.monitor.Gate c.shared.pause c.listener.phase
    rw [h.listener]
    exact .inl ⟨h.monitor, hchan⟩

/-- The monitor is held until `SendBuffer` reads the ring. -/
theorem Scanning.gate (h : c.Scanning cfg ok Q k) (hk : k.unread = true) :
    c.monitor.Gate c.shared.pause .running := by
  have hbar := h.barred
  have hl := h.listener
  generalize hlis : c.listener = l at hl
  cases hl with
  | called | starting | receiving | enqueueing | draining | reading =>
      simp only [Barred, hlis] at hbar
      exact hbar
  | sending | settingWriting | resuming | completing | finished => cases hk

/-- **A packet of the server.** -/
theorem Scanning.deliver (h : c.Scanning cfg ok Q k) {packet : Packet} (hp : Expects ok k packet)
    (hl : c.listener = .receiving) :
    ∃ k', (c.deliver packet).Scanning cfg ok Q k' ∧
      Scans (P := P) cfg ok Q k k' c (c.deliver packet) (.deliver packet) [] := by
  have hhash := h.hashing
  cases hp with
  | startHashing =>
      exact ⟨.starting, { h with
        listener := .starting
        hashing := ⟨hhash.1, InitHashing.Quiet.closeReaders hhash.2⟩
        barred := h.gate rfl }, .announced rfl rfl⟩
  | @hash info hh =>
      refine ⟨.comparing, { h with
        listener := .enqueueing hh
        barred := h.gate rfl }, .hash rfl rfl (fun p => ?_) fun _ => rfl⟩
      simp only [hashWeight, ClientStage.compares, if_true, hl, Client.deliver, setListener,
        Listener.hashWeight]
      omega
  | completed =>
      refine ⟨.draining, { h with
        listener := .draining
        hashing := InitHashing.Compares.closeReaders hhash
        barred := h.gate rfl }, .completed rfl rfl (fun p => ?_) fun _ => rfl⟩
      simp only [hashWeight, ClientStage.compares, if_true, hl]
      rfl

/-- A move that leaves the listener and the pipeline alone. -/
theorem Scans.of_eq {k' : ClientStage} (hm : ∀ packet, m ≠ .deliver packet) (hk : k' = k)
    (hps : ∀ p ∈ ps, ∃ w, p = .payloadBufferWrite w) (hnil : k.reads = true → ps = [])
    (hl : c'.listener = c.listener) (hh : c'.hashing = c.hashing) :
    Scans cfg ok Q k k' c c' m ps := by
  subst hk
  exact .passes hm (.refl _) hps (by simp) hnil (fun p => by rw [hashWeight, hashWeight, hl, hh])
    fun p => by rw [blockWeight, blockWeight, hh]

theorem InitHashing.at_iff_quiet {hash : List UInt8 → UInt64} {size : ℕ} {h : InitHashing}
    (hk : k.compares = false) :
    h.At hash size ok Q k ↔ h.readers.workers = [] ∧ h.Quiet := by
  cases k with
  | called | starting | finished => exact Iff.rfl
  | comparing | draining | reading | sending | finishing => cases hk

theorem InitHashing.at_iff_compares {hash : List UInt8 → UInt64} {size : ℕ} {h : InitHashing}
    (hk : k.compares = true) (hr : k.reads = true) :
    h.At hash size ok Q k ↔ h.Compares hash size ok Q := by
  cases k with
  | comparing | draining => exact Iff.rfl
  | called | starting | finished => cases hk
  | reading | sending | finishing => cases hr

section Hashes
variable {mv : HashingMove} {hh : InitHashing}

/-- Nothing is compared before the scan has begun and when it is over. -/
theorem Scanning.hashes_of_quiet (h : c.Scanning cfg ok Q k) (hk : k.compares = false)
    (hs : c.hashing.move cfg.hash cfg.numWorkers c.source mv = some (hh, ps)) :
    (c.setHashing hh).Scanning cfg ok Q k ∧
      Scans (P := P) cfg ok Q k k c (c.setHashing hh) (.hashing mv) ps := by
  obtain ⟨hworkers, hq⟩ := (InitHashing.at_iff_quiet hk).mp h.hashing
  obtain ⟨hq', rfl⟩ := hq.move hs
  have hr := congrArg Pool.workers (InitHashing.readers_move hworkers hs)
  refine ⟨{ h with hashing := (InitHashing.at_iff_quiet hk).mpr ⟨hr.trans hworkers, hq'⟩ },
    .passes (by simp) (.refl k) (by simp) (by simp) (fun _ => rfl) (fun p => ?_) fun p => ?_⟩
  · simp [hashWeight, hk]
  · simp [blockWeight, hk]

theorem Scanning.hashes_of_compares (h : c.Scanning cfg ok Q k)
    (hstage : k = .comparing ∨ k = .draining)
    (hfits : ∀ info, ok info → info.offset.toNat + info.size.toNat ≤ cfg.diskSize.toNat)
    (hQ : ∀ p, Q p (c.source p)) (hfail : ∀ i, mv ≠ .reader i true)
    (hs : c.hashing.move cfg.hash cfg.numWorkers c.source mv = some (hh, ps)) :
    (c.setHashing hh).Scanning cfg ok Q k ∧
      Scans (P := P) cfg ok Q k k c (c.setHashing hh) (.hashing mv) ps := by
  obtain ⟨hk, hreads⟩ : k.compares = true ∧ k.reads = true := by
    rcases hstage with rfl | rfl <;> exact ⟨rfl, rfl⟩
  obtain ⟨hc, hprog⟩ :=
    ((InitHashing.at_iff_compares hk hreads).mp h.hashing).move hfits hQ hfail hs
  refine ⟨{ h with hashing := (InitHashing.at_iff_compares hk hreads).mpr hc }, ?_⟩
  have hw : ∀ p, c.hashWeight k p = c.listener.hashWeight p + c.hashing.hashWeight p :=
    fun p => if_pos hk
  have hw' : ∀ p, (c.setHashing hh).hashWeight k p =
      c.listener.hashWeight p + hh.hashWeight p := fun p => if_pos hk
  have hb : ∀ p, c.blockWeight k p = c.hashing.blockWeight p := fun p => if_pos hk
  have hb' : ∀ p, (c.setHashing hh).blockWeight k p = hh.blockWeight p := fun p => if_pos hk
  cases hprog with
  | passes hhash hblock =>
      exact .passes (by simp) (.refl k) (by simp) (by simp) (fun _ => rfl)
        (fun p => by rw [hw', hw, hhash]) fun p => by rw [hb', hb, hblock]
  | agrees hcomp hbusy heq hhash hblock =>
      exact .agrees hstage rfl hcomp hbusy heq
        (fun p => by rw [hw', hw, ← hhash p, Nat.add_assoc]) fun p => by rw [hb', hb, hblock]
  | differs comp hhash hblock =>
      exact .differs hstage rfl (fun p => by rw [hw', hw, ← hhash p, Nat.add_assoc])
        fun p => by rw [hb', hb, hblock]
  | sends hcarries hhash hblock =>
      exact .block hstage rfl hcarries (fun p => by rw [hw', hw, hhash])
        fun p => by rw [hb', hb, hblock]

/-- **A move of a goroutine of `InitHashing`.** -/
theorem Scanning.hashes (h : c.Scanning cfg ok Q k)
    (hfits : ∀ info, ok info → info.offset.toNat + info.size.toNat ≤ cfg.diskSize.toNat)
    (hQ : k.reads = true → ∀ p, Q p (c.source p)) (hfail : ∀ i, mv ≠ .reader i true)
    (hs : c.hashing.move cfg.hash cfg.numWorkers c.source mv = some (hh, ps)) :
    (c.setHashing hh).Scanning cfg ok Q k ∧
      Scans (P := P) cfg ok Q k k c (c.setHashing hh) (.hashing mv) ps := by
  have hhash := h.hashing
  cases k with
  | called | starting | finished => exact h.hashes_of_quiet rfl hs
  | comparing => exact h.hashes_of_compares (.inl rfl) hfits (hQ rfl) hfail hs
  | draining => exact h.hashes_of_compares (.inr rfl) hfits (hQ rfl) hfail hs
  | reading | sending | finishing =>
      -- the pipeline is at its end
      rw [hhash.1.move_of_finished hhash.2] at hs
      cases hs

end Hashes

/-- The listener goes on, and sends nothing. -/
theorem Scans.silent {k' : ClientStage} {sent : Bool} (hk : k.Next k')
    (hleaves : k' ≠ k → c'.monitor = c.monitor ∧
      (k = .reading → c.ringOp (.listener sent : ClientMove P) = some .read ∧
        (k' = .sending → c.shared.ring.bufferInfo.length ≠ 0)))
    (hw : ∀ p, c'.hashWeight k' p = c.hashWeight k p)
    (hb : ∀ p, c'.blockWeight k' p = c.blockWeight k p) :
    Scans (P := P) cfg ok Q k k' c c' (.listener sent) [] :=
  .passes (by simp) hk (by simp)
    (fun hne => ⟨(hleaves hne).1, fun hk => ⟨⟨sent, rfl⟩, (hleaves hne).2 hk⟩⟩) (fun _ => rfl) hw hb

/-- **A move of the listener.** -/
theorem Scanning.listens (h : c.Scanning cfg ok Q k) (hn : 0 < cfg.numWorkers)
    (hring : c.shared.ring.bufferInfo.overflown = false) {sent : Bool}
    (hs : ListenerMove cfg c ps c') :
    ∃ k', c'.Scanning cfg ok Q k' ∧ Scans (P := P) cfg ok Q k k' c c' (.listener sent) ps := by
  have hhash := h.hashing
  have hat := h.listener
  have hbar := h.barred
  cases hs with
  | @enqueued info readers hl hsend =>
      -- the hash goes from the listener to the readers, and is on its way as before
      rw [hl] at hat
      cases hat with
      | enqueueing hok =>
          obtain ⟨hc, hw⟩ := InitHashing.Compares.enqueue hhash hok hsend
          refine ⟨.comparing, { h with
            listener := .receiving
            hashing := hc
            barred := h.gate rfl },
            .silent (.refl _) (by simp) (fun p => ?_) fun _ => rfl⟩
          simp only [hashWeight, ClientStage.compares, if_true, hl, setListener, setHashing,
            Listener.hashWeight, hw p]
          omega
  | started hl hf =>
      rw [hl] at hat
      cases hat
      refine ⟨.comparing, { h with
        listener := .receiving
        hashing := InitHashing.compares_start hn
        barred := h.gate rfl },
        .silent .started (fun _ => ⟨rfl, by simp⟩) (fun p => ?_) fun p => ?_⟩
      · simp [hashWeight, ClientStage.compares, setListener, setHashing, Listener.hashWeight]
      · simp [blockWeight, ClientStage.compares, setListener, setHashing]
  | compared hl hf =>
      -- all hashes have been looked at: `SendBuffer` is next
      rw [hl] at hat
      cases hat
      refine ⟨.reading, { h with
        listener := .reading
        hashing := ⟨hhash, hf⟩
        barred := h.gate rfl },
        .silent .compared (fun _ => ⟨rfl, by simp⟩) (fun p => ?_) fun _ => rfl⟩
      simp only [hashWeight, ClientStage.compares, if_true, hl]
      rfl
  | ended hl _ =>
      -- this is the drain after `ErrJournalOverflow`, which a scan does not expect
      rw [hl] at hat
      cases hat
  | read hl =>
      rw [hl] at hat
      cases hat
      have hheld : c.monitor.Held c.shared.pause := h.gate rfl
      have hop : c.ringOp (.listener sent : ClientMove P) = some .read := by
        simp [Client.ringOp, hl]
      rw [read_snd, hring]
      simp only [Bool.false_eq_true, if_false]
      split
      -- an unflagged ring: `SendBuffer` returns at once, or has a window to send
      · refine ⟨.finishing, { h with listener := .settingWriting, barred := hheld },
          .silent .empty (fun _ => ⟨rfl, fun _ => ⟨hop, by simp⟩⟩) (fun p => ?_) fun _ => rfl⟩
        simp only [hashWeight, ClientStage.compares, if_true, hl]
        rfl
      · rename_i hlen
        refine ⟨.sending, { h with listener := .sending, barred := ?_ },
          .silent .read (fun _ => ⟨rfl, fun _ => ⟨hop, fun _ => hlen⟩⟩) (fun p => ?_) fun _ => rfl⟩
        · rintro _ ⟨⟩
          exact .inl ⟨hheld, by rintro _ ⟨⟩⟩
        · simp only [hashWeight, ClientStage.compares, if_true, hl]
          rfl
  | @process w s ps next sent' hl hp =>
      rw [hl] at hat
      cases hat
      have hstate := (shared_processStep hp).2
      obtain ⟨hheld, hbars⟩ := (hbar w hl).process h.connected hp
      have hconn : s.state ≠ .reconnecting := fun hr => h.connected (hstate.symm.trans hr)
      cases next with
      | none =>
          refine ⟨.finishing, { h with
            connected := hconn
            listener := .settingWriting
            barred := hheld rfl },
            .passes (by simp) .sent (processStep_writes hp) (fun _ => ⟨rfl, by simp⟩)
              (by rintro ⟨⟩) (fun p => ?_) fun _ => rfl⟩
          simp only [hashWeight, ClientStage.compares, if_true, hl]
          rfl
      | some w' =>
          refine ⟨.sending, { h with
            connected := hconn
            listener := .sending
            barred := ?_ },
            .passes (by simp) (.refl _) (processStep_writes hp) (by simp) (by rintro ⟨⟩)
              (fun p => ?_) fun _ => rfl⟩
          · rintro _ ⟨⟩
            exact hbars w' rfl
          · simp only [hashWeight, ClientStage.compares, if_true, hl]
            rfl
  | setWriting hl =>
      rw [hl] at hat
      cases hat
      simp only [Barred, hl] at hbar
      refine ⟨.finishing, { h with
        connected := by simp [setListener, setShared]
        listener := .resuming
        barred := hbar },
        .silent (.refl _) (by simp) (fun p => ?_) fun _ => rfl⟩
      simp only [hashWeight, ClientStage.compares, if_true, hl]
      rfl
  | @resume call r hl hp =>
      rw [hl] at hat
      cases hat
      simp only [Barred, hl] at hbar
      have hgate := hbar.resumes hp
      obtain ⟨p', next⟩ := r
      cases next with
      | inl call' =>
          refine ⟨.finishing, { h with listener := .resuming, barred := hgate },
            .silent (.refl _) (by simp) (fun p => ?_) fun _ => rfl⟩
          simp only [hashWeight, ClientStage.compares, if_true, hl]
          rfl
      | inr b =>
          refine ⟨.finishing, { h with listener := .completing, barred := hgate },
            .silent (.refl _) (by simp) (fun p => ?_) fun _ => rfl⟩
          simp only [hashWeight, ClientStage.compares, if_true, hl]
          rfl
  | completed hl =>
      -- the listener reports completion; nothing was left in the pipeline
      rw [hl] at hat
      cases hat
      simp only [Barred, hl] at hbar
      refine ⟨.finished, { h with
        listener := .finished
        hashing := ⟨rfl, InitHashing.quiet_start 0⟩
        barred := hbar }, .ended rfl rfl (fun p => ?_) fun p => ?_⟩
      · exact (h.weight_of_not_reads rfl p).1
      · exact (h.weight_of_not_reads rfl p).2
  | start hl _ | restarted hl _ | reconnected hl _ =>
      -- nobody starts another scan
      rw [hl] at hat
      cases hat

/-- A move of the monitor, held or free. -/
theorem Scanning.monitors (h : c.Scanning cfg ok Q k) {s : Shared} {mon : Monitor}
    (hconn : s.state ≠ .reconnecting)
    (hheld : c.monitor.Held c.shared.pause → mon.Held s.pause)
    (hfree : c.monitor.Free c.shared.pause → mon.Free s.pause)
    (hbars : ∀ w : Window, c.listener = .processing w → w.Bars c.monitor c.shared.pause →
      w.Bars mon s.pause) : ((c.setShared s).setMonitor mon).Scanning cfg ok Q k := by
  have hbar := h.barred
  refine { h with connected := hconn, barred := ?_ }
  cases k with
  | finished => exact hfree hbar
  | sending => exact fun w hw => hbars w hw (hbar w hw)
  | called | starting | comparing | draining | reading | finishing =>
      exact Monitor.Gate.map hbar hheld hfree

/-- What the monitor sends, it sends at the end. -/
theorem Scans.of_monitor {sent : Bool} (h : c.Scanning cfg ok Q k) {s : Shared} {mon : Monitor}
    (hps : ∀ p ∈ ps, ∃ w, p = .payloadBufferWrite w)
    (hnil : (∃ call, c.monitor = .waiting call) → ps = []) :
    Scans (P := P) cfg ok Q k k c ((c.setShared s).setMonitor mon) (.monitor sent) ps := by
  refine .of_eq (by simp) rfl hps (fun hk => ?_) rfl rfl
  rcases h.held_or_free with hw | ⟨-, rfl | rfl⟩
  · exact hnil hw
  · cases hk
  · cases hk

/-- **One move of the client in a scan**, as long as the monitor does not move while `IsPaused` has
the token. -/
theorem Scanning.move (h : c.Scanning cfg ok Q k) (hn : 0 < cfg.numWorkers)
    (hfits : ∀ info, ok info → info.offset.toNat + info.size.toNat ≤ cfg.diskSize.toNat)
    (hring : c.shared.ring.bufferInfo.overflown = false)
    (htoken : ∀ sent, m = .monitor sent → c.listener.holdsToken = false)
    (hfail : ∀ i, m ≠ .hashing (.reader i true)) (heof : m ≠ .eof)
    (hexpects : ∀ packet, m = .deliver packet → Expects ok k packet)
    (hQ : k.reads = true → ∀ p, Q p (c.source p)) (hs : c.move cfg m = some (c', ps)) :
    ∃ k', c'.Scanning cfg ok Q k' ∧ Scans cfg ok Q k k' c c' m ps := by
  cases move_cases hs with
  | write a => exact ⟨k, { h with }, .of_eq (by simp) rfl (by simp) (fun _ => rfl) rfl rfl⟩
  | run hrun => cases h.run.symm.trans hrun
  | @monitorWaits sent call r _ hm hp =>
      refine ⟨k, h.monitors h.connected ?_ ?_ fun w hw hbars => ?_,
        .of_monitor h (by simp) fun _ => rfl⟩
      · rw [hm]
        exact (·.waits hp)
      · rw [hm]
        exact (·.waits hp)
      · rw [hm] at hbars
        refine hbars.waits (fun hpc => ?_) hp
        have hnot := htoken sent rfl
        obtain ⟨info, next, pc⟩ := w
        cases hpc
        rw [hw] at hnot
        cases hnot
  | monitorReads _ hm =>
      have hnot : ∀ call, c.monitor ≠ .waiting call := by simp [hm]
      refine ⟨k, h.monitors h.connected (fun hheld => ?_) (fun hfree => ?_) fun w _ hbars => ?_,
        .of_monitor h (by simp) fun _ => rfl⟩
      · obtain ⟨call, hw⟩ := hheld.waiting
        exact absurd hw (hnot call)
      · rw [hm] at hfree
        rw [read_snd]
        exact hfree.reads hring
      · obtain ⟨call, hw⟩ := hbars.waiting
        exact absurd hw (hnot call)
  | monitorStarts _ hm =>
      rcases h.held_or_free with ⟨call, hw⟩ | ⟨hfree, -⟩
      · cases hm.symm.trans hw
      · exact absurd hm (hfree.starting _)
  | monitorProcesses _ hm hp =>
      have hnot : ∀ call, c.monitor ≠ .waiting call := by simp [hm]
      refine ⟨k, h.monitors ?_ (fun hheld => ?_) (fun hfree => ?_) fun w _ hbars => ?_,
        .of_monitor h (processStep_writes hp) fun ⟨call, hw⟩ => absurd hw (hnot call)⟩
      · exact fun hr => h.connected ((shared_processStep hp).2.symm.trans hr)
      · obtain ⟨call, hw⟩ := hheld.waiting
        exact absurd hw (hnot call)
      · rw [hm] at hfree
        exact hfree.processes hp
      · obtain ⟨call, hw⟩ := hbars.waiting
        exact absurd hw (hnot call)
  | listener _ hl => exact h.listens hn hring hl
  | deliver _ hl => exact h.deliver (hexpects _ rfl) hl
  | eof => exact absurd rfl heof
  | dial _ hl =>
      have hat := h.listener
      rw [hl] at hat
      cases hat
  | readerStarts _ hb => exact absurd hb (h.readers _ _)
  | hashes _ _ hp =>
      exact ⟨k, h.hashes hfits hQ (fun i hi => hfail i (congrArg ClientMove.hashing hi)) hp⟩
  | replicates _ hp => exact absurd h.replication hp.not_idle

/-- A block that is the one of the replica. -/
theorem CompItem.Carries.seen {hash : List UInt8 → UInt64} {comp : CompItem}
    {replica : Image UInt8} {p : ℕ} (h : comp.Carries hash ok Q)
    (heq : comp.buffer = replica.read comp.hashInfo.offset.toNat comp.hashInfo.size.toNat)
    (hp : comp.hashInfo.weight p ≠ 0) : Q p (replica p) := by
  have hin : comp.hashInfo.offset.toNat ≤ p ∧
      p < comp.hashInfo.offset.toNat + comp.hashInfo.size.toNat := by
    by_contra hnot
    exact hp (if_neg hnot)
  obtain ⟨i, rfl⟩ := Nat.exists_eq_add_of_le hin.1
  refine h.work.cells i _ ?_
  rw [heq, Image.getElem?_read, if_pos (by omega)]

/-- Nothing is sent before the hashes come. -/
theorem Scans.early {k' : ClientStage} (h : Scans cfg ok Q k k' c c' m ps)
    (hk : k' = .called ∨ k' = .starting) : (k = .called ∨ k = .starting) ∧ ps = [] := by
  cases h with
  | passes _ hnext _ _ hnil =>
      cases hnext with
      | refl => exact ⟨hk, hnil (by rcases hk with rfl | rfl <;> rfl)⟩
      | started | compared | read | empty | sent => simp at hk
  | announced hk' => exact ⟨.inl hk', rfl⟩
  | hash _ hk' | completed _ hk' | ended _ hk' => simp [hk'] at hk
  | agrees hk' heq | differs hk' heq | block hk' heq =>
      rw [heq] at hk
      rcases hk' with rfl | rfl <;> simp at hk

/-- There is something to send if the ring is not empty. -/
theorem Scans.sending {k' : ClientStage} (h : Scans cfg ok Q k k' c c' m ps) (hk' : k' = .sending) :
    k = .sending ∨ k = .reading ∧ (∃ sent, m = .listener sent) ∧
      c.shared.ring.bufferInfo.length ≠ 0 := by
  subst hk'
  cases h with
  | passes _ hnext _ hleaves =>
      cases hnext with
      | refl => exact .inl rfl
      | read =>
          obtain ⟨hm, -, hlen⟩ := (hleaves (by simp)).2 rfl
          exact .inr ⟨rfl, hm, hlen rfl⟩
  | announced _ heq | hash _ heq | completed _ heq | ended _ heq => cases heq
  | agrees _ heq | differs _ heq | block _ heq => exact .inl heq.symm

/-- A scan that is over stays so. -/
theorem Scans.finished {k' : ClientStage} (h : Scans cfg ok Q .finished k' c c' m ps) :
    k' = .finished := by
  cases h with
  | passes _ hnext =>
      cases hnext
      rfl
  | announced heq | hash heq | completed heq | ended heq => cases heq
  | agrees _ heq | differs _ heq | block _ heq => exact heq

/-- Nobody has the token but `SendBuffer`. -/
theorem Listener.At.holdsToken {l : Listener} (h : l.At ok k) (hk : k ≠ .sending) :
    l.holdsToken = false := by
  cases h <;> first | rfl | exact absurd rfl hk

end Scanning

/-! ### What `SendBuffer` catches -/

section Caught
variable {P : ℕ} {cfg : ClientConfig} {c c' : Client} {m : ClientMove P} {ps : List Packet}
variable {g : Capture P} {ti : TargetInfo}

/-- How many writes have been captured, by where they are. -/
theorem Flow.length (h : Flow ti c g) : ∃ n, (c.windows = [] → n = 0) ∧
    g.captured.length = g.sent.length + n + c.shared.ring.bufferInfo.length := by
  obtain ⟨q, w, hw, hout, hflow⟩ := h.ring
  have hlen := congrArg List.length hflow
  rw [length_patches, List.length_append, length_patches, List.length_append,
    ← hout.refines.length_eq] at hlen
  refine ⟨(unsent w q).length, fun hnil => ?_, by omega⟩
  obtain rfl : w = none := Option.toList_eq_nil_iff.mp (hw.symm.trans hnil)
  rfl

/-- What has left the ring does not come back, and a read empties it. -/
theorem Flow.left_move (h : Flow ti c g) (hord : c.Orderly m) (hop : c.ringOp m ≠ some .reset)
    (hs : c.move cfg m = some (c', ps)) :
    g.captured.length + c'.shared.ring.bufferInfo.length ≤
        (g.after c m ps).captured.length + c.shared.ring.bufferInfo.length ∧
      (c.ringOp m = some .read → c'.shared.ring.bufferInfo.length = 0) := by
  obtain ⟨q, w, -, hout, -⟩ := h.ring
  rw [ring_move hs, Capture.after]
  cases hring : c.ringOp m with
  | none => simp
  | some op =>
      cases op with
      | put a =>
          have hput := (hout.put (hord.room a hring)).refines.length_eq
          have hold := hout.refines.length_eq
          simp only [WindowQueue.put, List.length_append, List.length_singleton] at hput
          simp only [Option.elim_some, ringStep, List.length_append, List.length_singleton]
          refine ⟨by omega, by simp⟩
      | read =>
          have hzero : (bdrBufferReadRoutine c.shared.ring).1.bufferInfo.length = 0 := by
            rw [read_fst hout.refines.flags]
          simp [ringStep, hzero]
      | reset => exact absurd hring hop

/-- The first `cut` writes that were captured: `SendBuffer` has taken them out of the ring, and at
the end they have been sent. -/
def Caught (c : Client) (g : Capture P) (cut : ℕ) : ClientStage → Prop
  | .sending => cut + c.shared.ring.bufferInfo.length ≤ g.captured.length
  | .finishing | .finished => cut ≤ g.sent.length
  | _ => True

theorem Caught.of_unread {k : ClientStage} {cut : ℕ} (hk : k.unread = true) : c.Caught g cut k := by
  cases k with
  | called | starting | comparing | draining | reading => trivial
  | sending | finishing | finished => cases hk

/-- **`SendBuffer` catches what was captured before it.** -/
theorem Caught.move {ok : HashInfo → Prop} {Q : ℕ → UInt8 → Prop} {k k' : ClientStage} {cut : ℕ}
    (h : c.Caught g cut k) (hscan : c.Scanning cfg ok Q k) (hcut : cut ≤ g.captured.length)
    (hflow : Flow cfg.targetInfo c g) (hord : c.Orderly m) (hs : c.move cfg m = some (c', ps))
    (hscan' : c'.Scanning cfg ok Q k') (hscans : Scans cfg ok Q k k' c c' m ps) :
    c'.Caught (g.after c m ps) cut k' := by
  have hop := (hscan.ringOp m).1
  obtain ⟨hleft, hzero⟩ := hflow.left_move hord hop hs
  have hsent := Capture.sent_after (g := g) hs hop
  obtain ⟨-, more, hcaptured, -⟩ := Capture.captured_after g hop ps
  have hgrows := congrArg List.length hcaptured
  rw [List.length_append] at hgrows
  have hmore : cut ≤ g.sent.length → cut ≤ (g.after c m ps).sent.length := by
    rw [hsent, List.length_append]
    omega
  cases hscans with
  | announced _ hk | hash _ hk | completed _ hk =>
      subst hk
      trivial
  | agrees hk hk' | differs hk hk' | block hk hk' =>
      subst hk'
      rcases hk with rfl | rfl <;> trivial
  | ended hk hk' =>
      subst hk hk'
      exact hmore h
  | passes _ hk _ hleaves =>
      -- no window is left when the listener leaves it, since the monitor is held
      have hdone : (k = .reading ∨ k = .sending) → k' = .finishing →
          cut + c'.shared.ring.bufferInfo.length ≤ (g.after c m ps).captured.length →
          cut ≤ (g.after c m ps).sent.length := by
        intro hk hk' hle
        obtain ⟨n, hn, hlen⟩ := (hflow.move hord hs).length
        have hmon := (hleaves (by rcases hk with rfl | rfl <;> simp [hk'])).1
        rw [hn ?_] at hlen
        · omega
        · have hw := hscan'.listener.window? (by simp [hk'])
          rcases hscan.held_or_free with ⟨call, hwait⟩ | ⟨-, hf⟩
          · simp [windows, hw, hmon, hwait, Monitor.window?]
          · rcases hk with rfl | rfl <;> simp at hf
      cases hk with
      | refl =>
          cases k with
          | called | starting | comparing | draining | reading => trivial
          | sending =>
              have : cut + c.shared.ring.bufferInfo.length ≤ g.captured.length := h
              show _ ≤ _
              omega
          | finishing | finished => exact hmore h
      | started | compared => trivial
      | read =>
          have := hzero ((hleaves (by simp)).2 rfl).2.1
          show _ ≤ _
          omega
      | empty =>
          have := hzero ((hleaves (by simp)).2 rfl).2.1
          exact hdone (.inl rfl) rfl (by omega)
      | sent =>
          have : cut + c.shared.ring.bufferInfo.length ≤ g.captured.length := h
          exact hdone (.inr rfl) rfl (by omega)

end Caught

end Bdr.Client
