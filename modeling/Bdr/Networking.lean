import Bdr.Support.Bytes
import Bdr.Support.Image

/-!
# Networking

`user/networking/networking.go`: the sizes both daemons are built with, the payloads and the
packets.  `WriteInfo`, `CorrectBlockInfo` and `ReplicationBlockInfo` have the same three fields
and are one structure here; a packet carries its payload in its constructor.
-/

namespace Bdr

/-- Bytes of a hashed block. -/
def hashedSpaceBase : ℕ := 1024 * 256 * 1

/-- Bytes of a journaled buffer write, as the server lays them out. -/
def writeInfoSize : ℕ := 4108

/-- Bytes of a journaled correct block: offset, size and the hashed space. -/
def correctBlockByteSize : ℕ := 8 + 4 + hashedSpaceBase

/-- `KernelLogicalSectorSize`. -/
def kernelLogicalSectorSize : ℕ := 512

/-- An offset, a size and data: the payload of buffer writes, correct blocks and replication
blocks. -/
structure BlockInfo where
  offset : UInt64
  size : UInt32
  data : List UInt8
  deriving DecidableEq, Repr

abbrev WriteInfo := BlockInfo
abbrev CorrectBlockInfo := BlockInfo
abbrev ReplicationBlockInfo := BlockInfo

namespace BlockInfo

/-- `IsValid`: a slot of the journal is free when its size is zero. -/
def isValid (b : BlockInfo) : Bool := b.size ≠ 0

/-- `Data[:Size]` at `Offset`, the write a buffer write asks for. -/
def patch (b : BlockInfo) : Patch UInt8 := ⟨b.offset.toNat, b.data.take b.size.toNat⟩

end BlockInfo

/-- How often the `size` bytes from `offset` on cover `p`: once or not at all. -/
def covering (p offset size : ℕ) : ℕ := if offset ≤ p ∧ p < offset + size then 1 else 0

namespace BlockInfo

def weight (p : ℕ) (b : BlockInfo) : ℕ := covering p b.offset.toNat b.size.toNat

/-- The block lies on a device of `size` bytes, and what it holds for each is as `Q` says. -/
structure Carries (size : ℕ) (Q : ℕ → UInt8 → Prop) (b : BlockInfo) : Prop where
  length : b.data.length = b.size.toNat
  fits : b.offset.toNat + b.size.toNat ≤ size
  cells : ∀ i v, b.data[i]? = some v → Q (b.offset.toNat + i) v

section Carries
variable {size p : ℕ} {Q Q' : ℕ → UInt8 → Prop} {b : BlockInfo}

theorem Carries.mono (h : b.Carries size Q) (hQ : ∀ p v, Q p v → Q' p v) : b.Carries size Q' :=
  ⟨h.length, h.fits, fun i v hv => hQ _ _ (h.cells i v hv)⟩

/-- Written to a device, the block leaves what it holds where it lies. -/
theorem Carries.apply (h : b.Carries size Q) (m : Image UInt8) :
    b.weight p = 0 ∧ m.apply ⟨b.offset.toNat, b.data⟩ p = m p ∨
      b.weight p = 1 ∧ Q p (m.apply ⟨b.offset.toNat, b.data⟩ p) := by
  by_cases hp : b.offset.toNat ≤ p ∧ p < b.offset.toNat + b.size.toNat
  · refine .inr ⟨if_pos hp, ?_⟩
    obtain ⟨i, rfl⟩ := Nat.exists_eq_add_of_le hp.1
    have hi : i < b.data.length := by rw [h.length]; omega
    rw [Image.apply, Patch.get?_add, List.getElem?_eq_getElem hi]
    exact h.cells i _ (List.getElem?_eq_getElem hi)
  · refine .inl ⟨if_neg hp, Image.apply_of_not_covers ?_⟩
    rwa [Patch.Covers, h.length]

end Carries

end BlockInfo

/-- One more byte is read. -/
theorem cells_concat {Q : ℕ → UInt8 → Prop} {offset : ℕ} {buf : List UInt8} {v : UInt8}
    (h : ∀ i u, buf[i]? = some u → Q (offset + i) u) (hv : Q (offset + buf.length) v) (i : ℕ)
    (u : UInt8) (hu : (buf ++ [v])[i]? = some u) : Q (offset + i) u := by
  rcases Nat.lt_trichotomy i buf.length with hi | rfl | hi
  · rw [List.getElem?_append_left hi] at hu
    exact h i u hu
  · rw [List.getElem?_concat_length] at hu
    cases hu
    exact hv
  · rw [List.getElem?_eq_none (by simpa using Nat.succ_le_of_lt hi)] at hu
    cases hu

structure HashInfo where
  offset : UInt64
  size : UInt32
  hash : UInt64
  deriving DecidableEq, Repr

/-- How often the block of a hash covers `p`. -/
def HashInfo.weight (p : ℕ) (h : HashInfo) : ℕ := covering p h.offset.toNat h.size.toNat

/-- The hash is the one of a block of `m`, which lies on a device of `size` bytes. -/
structure HashInfo.Of (hash : List UInt8 → UInt64) (size : ℕ) (m : Image UInt8) (h : HashInfo) :
    Prop where
  fits : h.offset.toNat + h.size.toNat ≤ size
  hash : h.hash = hash (m.read h.offset.toNat h.size.toNat)

structure InitInfo where
  deviceSize : UInt64
  writeInfoSize : UInt32
  bufferByteSize : UInt64
  deriving DecidableEq, Repr

/-- `networking.Packet`, by `PacketType`. -/
inductive Packet where
  | cmdStartHashing
  | cmdStartFullScan
  | cmdStartFullReplication
  | infoHashingCompleted
  | infoStartHashing
  | infoInit (i : InitInfo)
  | infoReplicationCompleted
  | infoStartReplication
  | errInit
  | errInvalidSizes
  | errHash
  | errJournalCreate
  | errJournalOverflow
  | payloadBufferWrite (w : WriteInfo)
  | payloadHash (h : HashInfo)
  | payloadCorrectBlock (b : CorrectBlockInfo)
  | payloadReplicationBlock (r : ReplicationBlockInfo)
  deriving DecidableEq, Repr

/-- How often a packet of a recovery covers `p`. -/
def Packet.weight (p : ℕ) : Packet → ℕ
  | .payloadHash h => covering p h.offset.toNat h.size.toNat
  | .payloadCorrectBlock b => b.weight p
  | .payloadReplicationBlock b => b.weight p
  | _ => 0

/-- The buffer write a packet carries. -/
def Packet.bufferWrite? : Packet → Option WriteInfo
  | .payloadBufferWrite w => some w
  | _ => none

/-- What the buffer writes among the packets do to an image. -/
def writes (ps : List Packet) : List (Patch UInt8) :=
  (ps.filterMap Packet.bufferWrite?).map BlockInfo.patch

@[simp] theorem writes_nil : writes [] = [] := rfl

theorem exists_of_writes_ne {ps : List Packet} (h : writes ps ≠ []) :
    ∃ w, .payloadBufferWrite w ∈ ps := by
  obtain ⟨x, hx⟩ := List.exists_mem_of_ne_nil _ h
  obtain ⟨w, hw, -⟩ := List.mem_map.mp hx
  obtain ⟨p, hp, hpw⟩ := List.mem_filterMap.mp hw
  cases p with
  | payloadBufferWrite v => exact ⟨v, hp⟩
  | _ => cases hpw

@[simp] theorem writes_append (ps qs : List Packet) :
    writes (ps ++ qs) = writes ps ++ writes qs := by
  simp [writes]

@[simp] theorem writes_cons_bufferWrite (w : WriteInfo) (ps : List Packet) :
    writes (.payloadBufferWrite w :: ps) = w.patch :: writes ps := rfl

theorem writes_cons_of_ne {p : Packet} (h : ∀ w, p ≠ .payloadBufferWrite w) (ps : List Packet) :
    writes (p :: ps) = writes ps := by
  cases p <;> first | rfl | exact absurd rfl (h _)

end Bdr
