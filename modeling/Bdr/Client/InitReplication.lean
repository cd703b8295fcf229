import Bdr.Client.Pause
import Bdr.Networking
import Bdr.Support.Pool

/-!
# Client — InitReplication

`InitReplication` sends the whole device to the server in a pipeline of goroutines: one generates
the blocks, and two pools of `numWorkers` read and send them.  When the senders have returned it
reports completion and lets the monitor go on.  A block that cannot be read is left out.
-/

namespace Bdr.Client

structure ReadItem where
  offset : UInt64
  size : UInt32
  deriving DecidableEq, Repr

/-- The goroutine that generates the blocks. -/
inductive BlockGenerator where
  | loop (offset : UInt64)
  | sending (item : ReadItem)
  | done
  deriving DecidableEq, Repr

/-- A reader, and the bytes it has read so far. -/
inductive BlockReader where
  | reading (item : ReadItem) (buf : List UInt8)
  | sending (block : ReplicationBlockInfo)
  deriving DecidableEq, Repr

/-- Where `InitReplication` itself is. -/
inductive ReplicationPhase where
  | idle
  | running
  | settingState
  | resuming (call : PauseCall)
  | returned
  deriving DecidableEq, Repr

/-- A run of `InitReplication`, with the channels `readChan` and `sendChan`. -/
structure InitReplication where
  phase : ReplicationPhase
  generator : BlockGenerator
  readers : Pool ReadItem BlockReader
  senders : Pool ReplicationBlockInfo ReplicationBlockInfo
  deriving DecidableEq, Repr

/-- A move of one goroutine of the pipeline, or of the function itself. -/
inductive ReplicationMove where
  | generator
  | reader (i : ℕ) (failed : Bool)
  | closeSend
  | sender (i : ℕ)
  | finish
  deriving DecidableEq, Repr

namespace InitReplication

/-- No full replication has been asked for. -/
def idle : InitReplication := ⟨.idle, .done, .start 0, .start 0⟩

def start (numWorkers : ℕ) : InitReplication :=
  ⟨.running, .loop 0, .start numWorkers, .start numWorkers⟩

section Moves
variable (numWorkers : ℕ) (diskSize : UInt64) (source : Image UInt8) (r : InitReplication)

/-- The block at `offset`, which ends at the end of the device. -/
def readItem (offset : UInt64) : ReadItem :=
  let size := UInt32.ofNat hashedSpaceBase
  if diskSize < offset + size.toUInt64 then ⟨offset, (diskSize - offset).toUInt32⟩
  else ⟨offset, size⟩

def moveGenerator : Option InitReplication :=
  match r.generator with
  | .loop offset =>
      if offset < diskSize then
        some { r with generator := .sending (readItem diskSize offset) }
      else some { r with generator := .done, readers := r.readers.close }
  | .sending item =>
      (r.readers.send numWorkers item).map fun readers =>
        { r with
          readers := readers
          generator := .loop (item.offset + UInt64.ofNat hashedSpaceBase) }
  | .done => none

def setReader (i : ℕ) (w : Worker BlockReader) : InitReplication :=
  { r with readers := r.readers.setWorker i w }

def moveReader (i : ℕ) (failed : Bool) : Option InitReplication :=
  match r.readers.busy? i with
  | none => (r.readers.receive (.reading · []) i).map fun readers => { r with readers := readers }
  | some (.reading item buf) =>
      -- the block is logged and left out
      if failed then some (r.setReader i .ranging)
      else if buf.length < item.size.toNat then
        some (r.setReader i
          (.busy (.reading item (buf ++ [source (item.offset.toNat + buf.length)]))))
      else some (r.setReader i (.busy (.sending ⟨item.offset, item.size, buf⟩)))
  | some (.sending block) =>
      (r.senders.send numWorkers block).map fun senders =>
        { r.setReader i .ranging with senders := senders }

/-- A sender, and the packet it sends. -/
def moveSender (i : ℕ) : Option (InitReplication × List Packet) :=
  match r.senders.busy? i with
  | none => (r.senders.receive id i).map fun senders => ({ r with senders := senders }, [])
  | some block =>
      some ({ r with senders := r.senders.setWorker i .ranging },
        [.payloadReplicationBlock block])

end Moves

end InitReplication

end Bdr.Client
