import Bdr.Networking
import Bdr.Support.Device
import Bdr.Support.Ops

/-!
# Journal — Journal

`user/journal/journal.go`.  A journal is a header of 64 bytes, a section of slots for buffer
writes and a section of slots for correct blocks, on a device of its own.  A slot holds an offset,
a size and data, and is free when its size is zero; how far a section is filled is not stored, but
found by `openJournal` as the first free slot.

The two sections are handled by pairs of functions that differ in the header fields they read.
Each pair is one definition over a `Section`, and each function of the source is that definition
at its section.  The source's `uint64` offsets are numbers here, reduced where the source's
arithmetic wraps; allocation always succeeds.
-/

namespace Bdr.Journal

def bdrMagic : UInt64 := 0x4244525F52504C43

def journalValidFlag : UInt64 := 1

inductive Error where
  | invalidMagic
  | invalidSize
  | ioFailure
  | noAvailableBufferWrite
  | noAvailableCorrectBlock
  deriving DecidableEq, Repr

/-- Why a call does not return its result: an error, a run-time panic, or the machine going down. -/
inductive Fault (ε : Type) where
  | err (e : ε)
  | panic
  | powerLoss
  deriving DecidableEq, Repr

/-! ### The header -/

structure Header where
  magic : UInt64
  bufWriteByteSize : UInt64
  bufWritesCount : UInt64
  bufWritesStartOffset : UInt64
  corrBlockByteSize : UInt64
  corrBlocksCount : UInt64
  corrBlocksStartOffset : UInt64
  flags : UInt64
  deriving DecidableEq, Repr

def getHeaderByteSize : UInt64 := 64

def verifyMagic (header : UInt64) : Bool := bdrMagic == header

namespace Header

def setValidFlag (h : Header) : Header := { h with flags := h.flags ||| journalValidFlag }

def setInvalidFlag (h : Header) : Header := { h with flags := h.flags &&& ~~~journalValidFlag }

def isValid (h : Header) : Bool := h.flags &&& journalValidFlag != 0

/-- The bytes `WriteHeader` writes. -/
def toBytes (h : Header) : List UInt8 :=
  be64 h.magic ++ be64 h.bufWriteByteSize ++ be64 h.bufWritesCount ++
    be64 h.bufWritesStartOffset ++ be64 h.corrBlockByteSize ++ be64 h.corrBlocksCount ++
    be64 h.corrBlocksStartOffset ++ be64 h.flags

/-- The fields `ReadHeader` takes out of the bytes it has read. -/
def ofBytes (bs : List UInt8) : Header where
  magic := word 0
  bufWriteByteSize := word 8
  bufWritesCount := word 16
  bufWritesStartOffset := word 24
  corrBlockByteSize := word 32
  corrBlocksCount := word 40
  corrBlocksStartOffset := word 48
  flags := word 56
where
  word (at_ : ℕ) : UInt64 := UInt64.ofNat (beNat ((bs.drop at_).take 8))

end Header

/-! ### Slots -/

/-- Where a section's slots begin, how long each is and how many there are. -/
structure Section where
  start : ℕ
  slot : ℕ
  count : ℕ
  deriving DecidableEq, Repr

/-- The byte offset of slot `index`, in `uint64` arithmetic. -/
def Section.offset (s : Section) (index : ℕ) : ℕ := (s.start + index * s.slot) % 2 ^ 64

def Header.bufWrites (h : Header) : Section :=
  ⟨h.bufWritesStartOffset.toNat, h.bufWriteByteSize.toNat, h.bufWritesCount.toNat⟩

def Header.corrBlocks (h : Header) : Section :=
  ⟨h.corrBlocksStartOffset.toNat, h.corrBlockByteSize.toNat, h.corrBlocksCount.toNat⟩

/-- An entry written into `buffer`; `none` where a slice is out of range. -/
def serialize (info : BlockInfo) (buffer : List UInt8) : Option (List UInt8) := do
  let buffer ← copyAt buffer 0 8 (be64 info.offset)
  let buffer ← copyAt buffer 8 12 (be32 info.size)
  if 0 < info.size ∧ 0 < info.data.length then
    let len := UInt32.ofNat info.data.length
    let dataSize := if len > info.size then info.size else len
    copyAt buffer 12 (12 + dataSize).toNat (info.data.take dataSize.toNat)
  else some buffer

def serializeCorrectBlockInfo : CorrectBlockInfo → List UInt8 → Option (List UInt8) := serialize

def serializeWriteInfo : WriteInfo → List UInt8 → Option (List UInt8) := serialize

/-- The entry `buffer` holds; `none` where a slice is out of range. -/
def deserialize (buffer : List UInt8) : Option BlockInfo := do
  let offset ← slice buffer 0 8
  let size ← slice buffer 8 12
  let info : BlockInfo := ⟨UInt64.ofNat (beNat offset), UInt32.ofNat (beNat size), []⟩
  if 0 < info.size then
    let data ← slice buffer 12 (12 + info.size).toNat
    some { info with data := padTake info.size.toNat 0 data }
  else some info

def deserializeCorrectBlockInfo : List UInt8 → Option CorrectBlockInfo := deserialize

def deserializeWriteInfo : List UInt8 → Option WriteInfo := deserialize

/-- An entry of size zero, which a cleared slot holds. -/
def invalidInfo : BlockInfo := ⟨0, 0, []⟩

def getInvalidCorrectBlock : CorrectBlockInfo := invalidInfo

def getInvalidWrite : WriteInfo := invalidInfo

end Bdr.Journal

/-! ### Journals -/

structure Bdr.Journal where
  disk : Device
  writeOffset : ℕ
  correctOffset : ℕ
  header : Journal.Header

namespace Bdr.Journal

/-- A method of a journal: what it returns, or why it does not, and the journal after it. -/
abbrev Op := EStateM (Fault Error) Journal

def orPanic {α : Type} : Option α → Op α
  | some a => pure a
  | none => throw .panic

def diskReadAt (off len : ℕ) : Op (List UInt8) := fun j =>
  match j.disk.readAt off len with
  | some bs => .ok bs j
  | none => .error (.err .ioFailure) j

def diskWriteAt (off : ℕ) (data : List UInt8) : Op Unit := fun j =>
  match j.disk.writeAt off data with
  | (d, .ok) => .ok () { j with disk := d }
  | (d, .failed) => .error (.err .ioFailure) { j with disk := d }
  | (d, .dead) => .error .powerLoss { j with disk := d }

def writeHeader : Op Unit := fun j => diskWriteAt 0 j.header.toBytes j

def invalidate : Op Unit := do
  modify fun j => { j with header := j.header.setInvalidFlag }
  writeHeader

def validate : Op Unit := do
  modify fun j => { j with header := j.header.setValidFlag }
  writeHeader

/-- `WriteCorrectBlock` and `WriteBufferWrite`. -/
def writeSlot (s : Section) (index : ℕ) (info : BlockInfo) : Op Unit := do
  if s.count ≤ index then throw (.err .invalidSize)
  let data ← orPanic (serialize info (List.replicate s.slot 0))
  diskWriteAt (s.offset index) data

/-- `ReadCorrectBlock` and `ReadBufferWrite`. -/
def readSlot (s : Section) (index : ℕ) : Op BlockInfo := do
  if s.count ≤ index then throw (.err .invalidSize)
  let data ← diskReadAt (s.offset index) s.slot
  orPanic (deserialize data)

/-- The first `n` slots of a section cleared. -/
def clearSlots (s : Section) (n : ℕ) : Op Unit := do
  let data ← orPanic (serialize invalidInfo (List.replicate s.slot 0))
  (List.range n).forM fun i => diskWriteAt (s.offset i) data

/-- `ClearCorrectBlockSectionTo` and `ClearWriteSectionTo`. -/
def clearSectionTo (s : Section) (n : ℕ) : Op Unit := do
  if s.count < n then throw (.err .invalidSize)
  clearSlots s n

/-- The search of `FindFirstAvailableBufferWrite` and `FindFirstAvailableCorrectBlock`, over the
slots still to look at. -/
def firstAvailable (s : Section) (e : Error) : List ℕ → Op ℕ
  | [] => throw (.err e)
  | i :: rest => do
      let info ← readSlot s i
      if info.isValid then firstAvailable s e rest else pure i

/-- Runs `f` on a section of the journal's header. -/
def onSection {α : Type} (s : Header → Section) (f : Section → Op α) : Op α := do
  f (s (← get).header)

def writeCorrectBlock (index : ℕ) (block : CorrectBlockInfo) : Op Unit :=
  onSection Header.corrBlocks (writeSlot · index block)

def writeBufferWrite (index : ℕ) (write : WriteInfo) : Op Unit :=
  onSection Header.bufWrites (writeSlot · index write)

def readCorrectBlock (index : ℕ) : Op CorrectBlockInfo :=
  onSection Header.corrBlocks (readSlot · index)

def readBufferWrite (index : ℕ) : Op WriteInfo :=
  onSection Header.bufWrites (readSlot · index)

def clearCorrectBlockSectionTo (correctBlockOff : ℕ) : Op Unit :=
  onSection Header.corrBlocks (clearSectionTo · correctBlockOff)

def clearWriteSectionTo (bufferWriteOff : ℕ) : Op Unit :=
  onSection Header.bufWrites (clearSectionTo · bufferWriteOff)

def clearCorrectBlockSection : Op Unit :=
  onSection Header.corrBlocks fun s => clearSlots s s.count

def clearWriteSection : Op Unit := onSection Header.bufWrites fun s => clearSlots s s.count

def findFirstAvailableBufferWrite : Op ℕ :=
  onSection Header.bufWrites fun s =>
    firstAvailable s .noAvailableBufferWrite (List.range s.count)

def findFirstAvailableCorrectBlock : Op ℕ :=
  onSection Header.corrBlocks fun s =>
    firstAvailable s .noAvailableCorrectBlock (List.range s.count)

def resetTo (bufferWriteOff correctBlockOff : ℕ) : Op Unit := do
  invalidate
  clearWriteSectionTo bufferWriteOff
  clearCorrectBlockSectionTo correctBlockOff
  modify fun j => { j with writeOffset := 0, correctOffset := 0 }

def reset : Op Unit := do
  invalidate
  clearWriteSection
  clearCorrectBlockSection
  modify fun j => { j with writeOffset := 0, correctOffset := 0 }

def initWithoutClearing : Op Unit := invalidate

def init : Op Unit := do
  clearWriteSection
  clearCorrectBlockSection
  invalidate

/-- The header `NewJournal` makes for a disk of `diskSize` bytes, in `uint64` arithmetic. -/
def newHeader (diskSize sectionBufWritesSize bufWriteByteSize corrBlockByteSize : UInt64) :
    Except Error Header :=
  let headerSize := getHeaderByteSize
  if sectionBufWritesSize > diskSize - headerSize ∨ sectionBufWritesSize = 0 then
    .error .invalidSize
  else if corrBlockByteSize = 0 ∨ bufWriteByteSize = 0 then .error .invalidSize
  else
    let sectionCorBlocksSize := diskSize - headerSize - sectionBufWritesSize
    .ok
      { magic := bdrMagic
        bufWriteByteSize := bufWriteByteSize
        bufWritesCount := sectionBufWritesSize / bufWriteByteSize
        bufWritesStartOffset := headerSize
        corrBlockByteSize := corrBlockByteSize
        corrBlocksCount := sectionCorBlocksSize / corrBlockByteSize
        corrBlocksStartOffset := headerSize + sectionBufWritesSize
        flags := 0 }

/-- `NewJournal` on a device.  Its offsets count every slot as filled, so that the first `ResetTo`
clears them all. -/
def newJournal (disk : Device) (sectionBufWritesSize bufWriteByteSize corrBlockByteSize : UInt64) :
    Except Error Journal :=
  (newHeader (UInt64.ofNat disk.size) sectionBufWritesSize bufWriteByteSize corrBlockByteSize).map
    fun header => ⟨disk, header.bufWritesCount.toNat, header.corrBlocksCount.toNat, header⟩

def readHeader (disk : Device) : Except (Fault Error) Header :=
  match disk.readAt 0 getHeaderByteSize.toNat with
  | some bs => .ok (Header.ofBytes bs)
  | none => .error (.err .ioFailure)

/-- The offsets `OpenJournal` looks for, once it has the header. -/
def findOffsets : Op (ℕ × ℕ) := do
  let firstWrite ← findFirstAvailableBufferWrite
  let firstBuffer ← findFirstAvailableCorrectBlock
  pure (firstWrite, firstBuffer)

def openJournal (disk : Device) : Except (Fault Error) Journal :=
  match readHeader disk with
  | .error e => .error e
  | .ok header =>
      if !verifyMagic header.magic then .error (.err .invalidMagic)
      else
        match findOffsets ⟨disk, 0, 0, header⟩ with
        | .ok (w, c) jrn => .ok { jrn with writeOffset := w, correctOffset := c }
        | .error e _ => .error e

end Bdr.Journal
