import Bdr.Support.Bytes
import Bdr.Support.Image

/-!
# Kern — the ring buffer

`kern/ring-buffer.c`.  The buffer is shared memory of `max_writes` slots, each a
`struct bdr_write_info`: a sector, a size and one page of data.  `buffer_info` holds the cursors:
`offset` and `length` delimit the writes not yet read, `last` is where the window handed out by
the last read begins.

`bdr_ring_buffer_put` reserves a slot under the lock (`reserve`) and fills it after the unlock
(`fill`); a put that meets the flag, or raises it, fills nothing.  The page size `P` is a
parameter.
-/

namespace Bdr.Kern

/-- `BDR_OVERFLOWN_BUFFER_FLAG`. -/
def bdrOverflownBufferFlag : UInt32 := 1

/-- `BDR_WRITE_INFO_SIZE`: two `u32` and a page. -/
def bdrWriteInfoSize (P : ℕ) : ℕ := 8 + P

/-- `BDR_WRITES_TO_BYTES`. -/
def bdrWritesToBytes (P n : ℕ) : ℕ := n * bdrWriteInfoSize P

/-- `struct bdr_buffer_info`. -/
structure BufferInfo where
  offset : ℕ
  length : ℕ
  last : ℕ
  flags : UInt32
  maxWrites : ℕ
  deriving DecidableEq, Repr

/-- `flags & BDR_OVERFLOWN_BUFFER_FLAG`. -/
def BufferInfo.overflown (bi : BufferInfo) : Bool := bi.flags &&& bdrOverflownBufferFlag ≠ 0

/-- `struct bdr_ring_buffer`. -/
structure RingBuffer where
  buffer : Image UInt8
  bufferInfo : BufferInfo

/-- The arguments of a `bdr_ring_buffer_put`, as its one caller `bdr_put_write_to_buffer` passes
them: the size is what is left of the segment, up to the end of its page. -/
structure Put (P : ℕ) where
  sector : UInt32
  size : UInt32
  page : List UInt8
  pageOffset : ℕ
  length : ℕ
  page_length : page.length = P
  pageOffset_le : pageOffset ≤ P
  size_eq : size.toNat = min length (P - pageOffset)

/-- The bytes the put is about: `size` bytes of the page. -/
def Put.data {P : ℕ} (a : Put P) : List UInt8 := (a.page.drop a.pageOffset).take a.size.toNat

/-- `bdr_ring_buffer_init`, over memory as `vmalloc` returns it; `none` is `-EINVAL`. -/
def bdrRingBufferInit (mem : Image UInt8) (maxWrites : ℕ) : Option RingBuffer :=
  if maxWrites = 0 then none else some ⟨mem, ⟨0, 0, 0, 0, maxWrites⟩⟩

/-- `bdr_ring_buffer_update_unsafe`. -/
def bdrRingBufferUpdateUnsafe (bi : BufferInfo) : BufferInfo :=
  let bi := { bi with length := bi.length + 1 }
  let bufferOffset := (bi.offset + bi.length) % bi.maxWrites
  if bufferOffset = bi.last then { bi with flags := bi.flags ||| bdrOverflownBufferFlag } else bi

/-- The part of `bdr_ring_buffer_put` under the lock: the new cursors, and the slot the put may
fill unless it returns `-ENOSPC`. -/
def reserve (bi : BufferInfo) : BufferInfo × Option ℕ :=
  if bi.overflown then (bi, none)
  else
    let bi' := bdrRingBufferUpdateUnsafe bi
    if bi'.overflown then (bi', none) else (bi', some ((bi.offset + bi.length) % bi.maxWrites))

/-- The part of `bdr_ring_buffer_put` after the unlock: sector, size and data of one slot. -/
def fill {P : ℕ} (mem : Image UInt8) (slot : ℕ) (a : Put P) : Image UInt8 :=
  let bufferOffset := slot * bdrWriteInfoSize P
  let copyLen := min a.length (P - a.pageOffset)
  ((mem.apply ⟨bufferOffset, le32 a.sector⟩).apply ⟨bufferOffset + 4, le32 a.size⟩).apply
    ⟨bufferOffset + 8, (a.page.drop a.pageOffset).take copyLen⟩

/-- `bdr_ring_buffer_put`, as one step; `false` is `-ENOSPC`. -/
def bdrRingBufferPut {P : ℕ} (rb : RingBuffer) (a : Put P) : RingBuffer × Bool :=
  match reserve rb.bufferInfo with
  | (bi, none) => (⟨rb.buffer, bi⟩, false)
  | (bi, some slot) => (⟨fill rb.buffer slot a, bi⟩, true)

/-- `bdr_ring_buffer_reset`. -/
def bdrRingBufferReset (rb : RingBuffer) : RingBuffer :=
  { rb with bufferInfo := { rb.bufferInfo with offset := 0, length := 0, last := 0, flags := 0 } }

/-- `bdr_buffer_read_routine`: the window of new writes, handed out unless the buffer is
overflown. -/
def bdrBufferReadRoutine (rb : RingBuffer) : RingBuffer × BufferInfo :=
  let bi := rb.bufferInfo
  if bi.overflown then (rb, bi)
  else
    ({ rb with bufferInfo :=
        { bi with
          last := bi.offset
          offset := (bi.offset + bi.length) % bi.maxWrites
          length := 0 } },
      bi)

/-- `bdr_ring_buffer_get_byte_size`. -/
def bdrRingBufferGetByteSize (P : ℕ) (rb : RingBuffer) : ℕ :=
  bdrWritesToBytes P rb.bufferInfo.maxWrites

/-- `struct bdr_target_info`, less the bitmap's size. -/
structure TargetInfo where
  pageSize : ℕ
  writeInfoSize : ℕ
  bufferByteSize : ℕ
  deriving DecidableEq, Repr

/-- `bdr_get_target_info`. -/
def bdrGetTargetInfo (P : ℕ) (rb : RingBuffer) : TargetInfo :=
  ⟨P, bdrWriteInfoSize P, bdrRingBufferGetByteSize P rb⟩

end Bdr.Kern
