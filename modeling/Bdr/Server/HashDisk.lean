import Bdr.Networking
import Bdr.Support.Device
import Bdr.Support.Pool
import Bdr.Support.Runs
import Mathlib.Algebra.Order.Group.Multiset

/-!
# Server — HashDisk

`HashDisk` hashes the replica block by block in a pipeline of goroutines: one generates the
offsets, and three pools of `numWorkers` read the blocks, hash them and send the hashes to the
client.  Each stage ends when the one before it has closed its channel; when the last pool has
returned, the server reports completion.

Every stage also returns when the scan is terminated, a reader returns at a read error, and a
sender when the connection is closed: the report of completion follows all the same.
-/

namespace Bdr.Server

structure WorkItem where
  offset : UInt64
  buffer : List UInt8
  deriving DecidableEq, Repr

/-- A hash to be sent; `failed` stands for the `err` of the source. -/
structure ResultItem where
  offset : UInt64
  size : UInt32
  hash : UInt64
  failed : Bool
  deriving DecidableEq, Repr

/-- The goroutine that generates the offsets. -/
inductive Generator where
  | loop (offset : UInt64)
  | sending (offset : UInt64)
  | done
  deriving DecidableEq, Repr

inductive Reader where
  | took (offset : UInt64)
  | reading (offset : UInt64)
  | sendingWork (work : WorkItem)
  | sendingError (result : ResultItem)
  deriving DecidableEq, Repr

inductive Hasher where
  | took (work : WorkItem)
  | sending (result : ResultItem)
  deriving DecidableEq, Repr

/-- `reporting` and `complaining` are about to send `ErrHash`, before and after the hash. -/
inductive Sender where
  | took (result : ResultItem)
  | reporting (result : ResultItem)
  | encoding (result : ResultItem)
  | complaining
  deriving DecidableEq, Repr

/-- How far `HashDisk` itself is: it looks at the server's state and resets the journal, announces
the scan, and waits for the senders. -/
inductive HashPhase where
  | starting
  | resetting
  | announcing
  | running
  | returned
  deriving DecidableEq, Repr

/-- What becomes of a packet that is sent. -/
inductive Sent where
  | ok
  | closed
  | failed
  deriving DecidableEq, Repr

/-- A run of `HashDisk`: its goroutines, and the channels `readTaskChan`, `workChan` and
`resultChan` with the pool that ranges over each. -/
structure HashDisk where
  phase : HashPhase
  terminated : Bool
  generator : Generator
  readers : Pool UInt64 Reader
  hashers : Pool WorkItem Hasher
  senders : Pool ResultItem Sender
  deriving DecidableEq, Repr

/-- What a scan is started with. -/
structure HashConfig where
  hash : List UInt8 → UInt64
  numWorkers : ℕ
  readSize : UInt64
  totalSize : UInt64

/-- What the server scans a target of the client's size with. -/
def hashConfig (hash : List UInt8 → UInt64) (numWorkers : ℕ) (target : Device) : HashConfig :=
  ⟨hash, numWorkers, UInt64.ofNat hashedSpaceBase, UInt64.ofNat target.size⟩

/-- A move of one goroutine, with the outcome of the read or of the packet it may involve. -/
inductive HashMove where
  | announce (sent : Sent)
  | generator
  | reader (i : ℕ) (failed : Bool)
  | closeWork
  | hasher (i : ℕ)
  | closeResults
  | sender (i : ℕ) (sent : Sent)
  | complete (sent : Sent)
  deriving DecidableEq, Repr

/-- The packet, if it reaches the client. -/
def Sent.deliver (o : Sent) (p : Packet) : List Packet := if o = .ok then [p] else []

namespace HashDisk

def start (numWorkers : ℕ) : HashDisk :=
  ⟨.announcing, false, .loop 0, .start numWorkers, .start numWorkers, .start numWorkers⟩

def terminate (h : HashDisk) : HashDisk := { h with terminated := true }

def setReader (h : HashDisk) (i : ℕ) (w : Worker Reader) : HashDisk :=
  { h with readers := h.readers.setWorker i w }

def setHasher (h : HashDisk) (i : ℕ) (w : Worker Hasher) : HashDisk :=
  { h with hashers := h.hashers.setWorker i w }

def setSender (h : HashDisk) (i : ℕ) (w : Worker Sender) : HashDisk :=
  { h with senders := h.senders.setWorker i w }

section Moves
variable (c : HashConfig) (target : Device) (h : HashDisk)

def announce : Sent → HashDisk
  | .closed => { h with phase := .returned }
  | _ => { h with phase := .running }

def moveGenerator : Option HashDisk :=
  match h.generator with
  | .loop offset =>
      if offset < c.totalSize ∧ h.terminated = false then
        some { h with generator := .sending offset }
      else some { h with generator := .done, readers := h.readers.close }
  | .sending offset =>
      (h.readers.send c.numWorkers offset).map fun readers =>
        { h with readers := readers, generator := .loop (offset + c.readSize) }
  | .done => none

/-- What a reader has read of the block at `offset`. -/
def readBlock (offset : UInt64) : List UInt8 :=
  target.bytes.read offset.toNat (min c.readSize.toNat (target.size - offset.toNat))

def moveReader (i : ℕ) (failed : Bool) : Option HashDisk :=
  match h.readers.busy? i with
  | none => (h.readers.receive .took i).map fun readers => { h with readers := readers }
  | some (.took offset) =>
      some (h.setReader i (if h.terminated then .done else .busy (.reading offset)))
  | some (.reading offset) =>
      some (h.setReader i
        -- after an error, and at the end of the disk, the reader returns
        (if failed then .busy (.sendingError ⟨offset, 0, 0, true⟩)
        else if readBlock c target offset = [] then .done
        else .busy (.sendingWork ⟨offset, readBlock c target offset⟩)))
  | some (.sendingWork work) =>
      (h.hashers.send c.numWorkers work).map fun hashers =>
        { h.setReader i .ranging with hashers := hashers }
  | some (.sendingError result) =>
      (h.senders.send c.numWorkers result).map fun senders =>
        { h.setReader i .done with senders := senders }

/-- The hash of what was read. -/
def result (work : WorkItem) : ResultItem :=
  ⟨work.offset, UInt32.ofNat work.buffer.length, c.hash work.buffer, false⟩

def moveHasher (i : ℕ) : Option HashDisk :=
  match h.hashers.busy? i with
  | none => (h.hashers.receive .took i).map fun hashers => { h with hashers := hashers }
  | some (.took work) =>
      some (h.setHasher i (if h.terminated then .done else .busy (.sending (result c work))))
  | some (.sending result) =>
      (h.senders.send c.numWorkers result).map fun senders =>
        { h.setHasher i .ranging with senders := senders }

def hashInfo (r : ResultItem) : HashInfo := ⟨r.offset, r.size, r.hash⟩

def moveSender (i : ℕ) (sent : Sent) : Option (HashDisk × List Packet) :=
  match h.senders.busy? i with
  | none => (h.senders.receive .took i).map fun senders => ({ h with senders := senders }, [])
  | some (.took result) =>
      some (h.setSender i
        (if h.terminated then .done
        else if result.failed then .busy (.reporting result)
        else .busy (.encoding result)), [])
  | some (.reporting result) =>
      -- the source goes on to send the hash of a block that it could not read
      some (h.setSender i (.busy (.encoding result)), sent.deliver .errHash)
  | some (.encoding result) =>
      some (h.setSender i
        (match sent with
        | .ok => .ranging
        | .closed => .done
        | .failed => .busy .complaining), sent.deliver (.payloadHash (hashInfo result)))
  | some .complaining => some (h.setSender i .ranging, sent.deliver .errHash)

/-- One move, and the packets it sends to the client. -/
def move : HashMove → Option (HashDisk × List Packet)
  | .announce sent =>
      if h.phase = .announcing then some (h.announce sent, sent.deliver .infoStartHashing) else none
  | .generator =>
      if h.phase = .running then (h.moveGenerator c).map (·, []) else none
  | .reader i failed =>
      if h.phase = .running then (h.moveReader c target i failed).map (·, []) else none
  | .closeWork =>
      if h.phase = .running ∧ h.readers.Finished ∧ h.hashers.closed = false then
        some ({ h with hashers := h.hashers.close }, [])
      else none
  | .hasher i => if h.phase = .running then (h.moveHasher c i).map (·, []) else none
  | .closeResults =>
      if h.phase = .running ∧ h.hashers.Finished ∧ h.senders.closed = false then
        some ({ h with senders := h.senders.close }, [])
      else none
  | .sender i sent => if h.phase = .running then h.moveSender i sent else none
  | .complete sent =>
      if h.phase = .running ∧ h.senders.Finished then
        some ({ h with phase := .returned }, sent.deliver .infoHashingCompleted)
      else none

end Moves

/-! ### Phases -/

section Phases
variable {c : HashConfig} {target : Device} {h h' : HashDisk}

theorem phase_moveGenerator (hm : h.moveGenerator c = some h') : h'.phase = h.phase := by
  unfold HashDisk.moveGenerator at hm
  split at hm
  · split at hm <;> cases hm <;> rfl
  · obtain ⟨_, -, rfl⟩ := Option.map_eq_some_iff.mp hm
    rfl
  · cases hm

theorem phase_moveReader {i : ℕ} {failed : Bool} (hm : h.moveReader c target i failed = some h') :
    h'.phase = h.phase := by
  unfold HashDisk.moveReader at hm
  split at hm
  · obtain ⟨_, -, rfl⟩ := Option.map_eq_some_iff.mp hm
    rfl
  · cases hm
    rfl
  · cases hm
    rfl
  · obtain ⟨_, -, rfl⟩ := Option.map_eq_some_iff.mp hm
    rfl
  · obtain ⟨_, -, rfl⟩ := Option.map_eq_some_iff.mp hm
    rfl

theorem phase_moveHasher {i : ℕ} (hm : h.moveHasher c i = some h') : h'.phase = h.phase := by
  unfold HashDisk.moveHasher at hm
  split at hm
  · obtain ⟨_, -, rfl⟩ := Option.map_eq_some_iff.mp hm
    rfl
  · cases hm
    rfl
  · obtain ⟨_, -, rfl⟩ := Option.map_eq_some_iff.mp hm
    rfl

theorem phase_moveSender {i : ℕ} {sent : Sent} {ps : List Packet}
    (hm : h.moveSender i sent = some (h', ps)) : h'.phase = h.phase := by
  unfold HashDisk.moveSender at hm
  split at hm
  · obtain ⟨_, -, heq⟩ := Option.map_eq_some_iff.mp hm
    cases heq
    rfl
  all_goals
    cases hm
    rfl

/-- The goroutines move while the scan runs. -/
theorem phase_pipeline {m : HashMove} {ps : List Packet} (ha : ∀ sent, m ≠ .announce sent)
    (he : ∀ sent, m ≠ .complete sent) (hm : h.move c target m = some (h', ps)) :
    h.phase = .running ∧ h'.phase = .running := by
  cases m with
  | announce sent => exact absurd rfl (ha sent)
  | complete sent => exact absurd rfl (he sent)
  | generator =>
      simp only [move, Option.ite_none_right_eq_some, Option.map_eq_some_iff, Prod.mk.injEq] at hm
      obtain ⟨hp, h', hm, rfl, -⟩ := hm
      exact ⟨hp, (phase_moveGenerator hm).trans hp⟩
  | reader i failed =>
      simp only [move, Option.ite_none_right_eq_some, Option.map_eq_some_iff, Prod.mk.injEq] at hm
      obtain ⟨hp, h', hm, rfl, -⟩ := hm
      exact ⟨hp, (phase_moveReader hm).trans hp⟩
  | closeWork | closeResults =>
      simp only [move, Option.ite_none_right_eq_some, Option.some.injEq, Prod.mk.injEq] at hm
      obtain ⟨⟨hp, -⟩, rfl, -⟩ := hm
      exact ⟨hp, hp⟩
  | hasher i =>
      simp only [move, Option.ite_none_right_eq_some, Option.map_eq_some_iff, Prod.mk.injEq] at hm
      obtain ⟨hp, h', hm, rfl, -⟩ := hm
      exact ⟨hp, (phase_moveHasher hm).trans hp⟩
  | sender i sent =>
      simp only [move, Option.ite_none_right_eq_some] at hm
      exact ⟨hm.1, (phase_moveSender hm.2).trans hm.1⟩

/-- The scan only goes on. -/
theorem phase_move {m : HashMove} {ps : List Packet} (hm : h.move c target m = some (h', ps)) :
    (h.phase = .announcing ∨ h.phase = .running) ∧
      (h'.phase = .running ∨ h'.phase = .returned) := by
  cases m with
  | announce sent =>
      simp only [move, Option.ite_none_right_eq_some, Option.some.injEq, Prod.mk.injEq] at hm
      obtain ⟨hp, rfl, -⟩ := hm
      cases sent <;> simp [announce, hp]
  | complete sent =>
      simp only [move, Option.ite_none_right_eq_some, Option.some.injEq, Prod.mk.injEq] at hm
      obtain ⟨⟨hp, -⟩, rfl, -⟩ := hm
      exact ⟨.inr hp, .inr rfl⟩
  | generator | reader | closeWork | hasher | closeResults | sender =>
      obtain ⟨hp, hp'⟩ := phase_pipeline (by simp) (by simp) hm
      exact ⟨.inr hp, .inl hp'⟩

end Phases

end HashDisk

end Bdr.Server
