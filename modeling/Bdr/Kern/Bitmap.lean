import Mathlib.Data.List.Basic

/-!
# Kern — bitmaps

`kern/bitmap.c`.  A bitmap of `max_bits` bits lies in whole words of memory, so that it has room
for a few bits more (`memoryBits`).  One bitmap keeps the minor numbers in use; each target has
another for the blocks that have been written while its ring buffer was full.
-/

namespace Bdr.Kern

/-- `struct bdr_bitmap`. -/
structure Bitmap where
  bits : ℕ → Bool
  maxBits : ℕ

/-- `-EINVAL`, `-ENOMEM`, `-ENOSPC` and `-EFAULT`, and what else a call of the kernel may return. -/
inductive Errno where
  | einval
  | enomem
  | enospc
  | efault
  | other (code : ℕ)
  deriving DecidableEq, Repr

namespace Bitmap

/-- The bits of the words that hold the bitmap: `BITS_TO_LONGS(max_bits)` of 64 bits. -/
def memoryBits (bm : Bitmap) : ℕ := (bm.maxBits + 63) / 64 * 64

/-- `set_bit`, where the bitmap has memory for the bit. -/
def setBit (bm : Bitmap) (bit : ℕ) : Bitmap :=
  { bm with bits := fun i => bm.bits i || (i == bit && bit < bm.memoryBits) }

/-- `clear_bit`. -/
def clearBit (bm : Bitmap) (bit : ℕ) : Bitmap :=
  { bm with bits := fun i => bm.bits i && i != bit }

/-- `memset` of the bitmap's words. -/
def clear (bm : Bitmap) : Bitmap :=
  { bm with bits := fun i => bm.bits i && !(i < bm.memoryBits) }

end Bitmap

/-- `bdr_bitmap_init`, where `allocated` says whether `kzalloc` succeeds. -/
def bdrBitmapInit (maxBits : UInt32) (allocated : Bool) : Except Errno Bitmap :=
  if maxBits = 0 then .error .einval
  else if allocated then .ok ⟨fun _ => false, maxBits.toNat⟩
  else .error .enomem

def bdrBitmapGetByteSize (bm : Bitmap) : ℕ := (bm.maxBits + 7) / 8

/-- `bdr_bitmap_allocate`: the first free bit, which is then set. -/
def bdrBitmapAllocate (bm : Bitmap) : Except Errno (Bitmap × ℕ) :=
  match (List.range bm.maxBits).find? fun bit => !bm.bits bit with
  | none => .error .enospc
  | some bit => .ok (bm.setBit bit, bit)

def bdrBitmapFree (bm : Bitmap) (bit : ℕ) : Bitmap :=
  if bm.maxBits ≤ bit then bm else bm.clearBit bit

/-- `BDR_BLOCK_SIZE_SHIFT`: blocks of 2048 sectors. -/
def bdrBlockSizeShift : ℕ := 11

def bdrBitmapSetSector (bm : Bitmap) (sector : ℕ) : Bitmap :=
  bm.setBit (sector >>> bdrBlockSizeShift)

/-- `bdr_chardev_read` of `count` bytes: the bits that are returned, and the bitmap after it.
`copied` says whether `copy_to_user` succeeds. -/
def bdrChardevRead (bm : Bitmap) (count : ℕ) (copied : Bool) :
    Except Errno (ℕ → Bool) × Bitmap :=
  if bdrBitmapGetByteSize bm ≠ count then (.error .einval, bm)
  else if copied then (.ok fun i => bm.bits i && i < 8 * count, bm.clear)
  else (.error .efault, bm)

/-- The bit has a place: it is one of the bitmap's, in its words, and in the bytes that a read
returns. -/
structure Bitmap.HasBit (bm : Bitmap) (bit : ℕ) : Prop where
  lt_maxBits : bit < bm.maxBits
  lt_memoryBits : bit < bm.memoryBits
  lt_bytes : bit < 8 * bdrBitmapGetByteSize bm

/-! ### Single bits -/

namespace Bitmap
variable {bm : Bitmap} {bit i : ℕ}

@[simp] theorem maxBits_setBit : (bm.setBit bit).maxBits = bm.maxBits := rfl

@[simp] theorem maxBits_clearBit : (bm.clearBit bit).maxBits = bm.maxBits := rfl

theorem maxBits_le_memoryBits (bm : Bitmap) : bm.maxBits ≤ bm.memoryBits := by
  unfold memoryBits
  omega

theorem bits_setBit_of_lt (h : bit < bm.memoryBits) :
    (bm.setBit bit).bits i = true ↔ bm.bits i = true ∨ i = bit := by
  simp [setBit, h]

theorem bits_setBit_mono (h : bm.bits i = true) : (bm.setBit bit).bits i = true := by
  simp [setBit, h]

theorem bits_clearBit : (bm.clearBit bit).bits i = true ↔ bm.bits i = true ∧ i ≠ bit := by
  simp [clearBit]

end Bitmap

theorem maxBits_bdrBitmapInit {maxBits : UInt32} {allocated : Bool} {bm : Bitmap}
    (h : bdrBitmapInit maxBits allocated = .ok bm) : bm.maxBits = maxBits.toNat := by
  unfold bdrBitmapInit at h
  split at h
  · cases h
  · split at h <;> cases h
    rfl

/-- The words and the bytes are rounded up from the bits. -/
theorem Bitmap.hasBit_iff {bm : Bitmap} {bit : ℕ} : bm.HasBit bit ↔ bit < bm.maxBits := by
  refine ⟨fun h => h.lt_maxBits,
    fun h => ⟨h, Nat.lt_of_lt_of_le h bm.maxBits_le_memoryBits, ?_⟩⟩
  unfold bdrBitmapGetByteSize
  omega

/-- A sector that has a bit is marked, and the next read returns the mark. -/
theorem Bitmap.HasBit.returned {bm : Bitmap} {sector : ℕ}
    (h : bm.HasBit (sector >>> bdrBlockSizeShift)) :
    ∃ returned, (bdrChardevRead (bdrBitmapSetSector bm sector) (bdrBitmapGetByteSize bm) true).1 =
      .ok returned ∧ returned (sector >>> bdrBlockSizeShift) = true := by
  have hbit : (bdrBitmapSetSector bm sector).bits (sector >>> bdrBlockSizeShift) = true :=
    (Bitmap.bits_setBit_of_lt h.lt_memoryBits).mpr (.inr rfl)
  have hsize : bdrBitmapGetByteSize (bdrBitmapSetSector bm sector) = bdrBitmapGetByteSize bm := rfl
  rw [bdrChardevRead, if_neg (not_not_intro hsize), if_pos rfl]
  exact ⟨_, rfl, by simp [hbit, h.lt_bytes]⟩

/-- The bit that is allocated was free, and is the only one that changes. -/
theorem bdrBitmapAllocate_ok {bm bm' : Bitmap} {bit : ℕ}
    (h : bdrBitmapAllocate bm = .ok (bm', bit)) :
    bit < bm.maxBits ∧ bm.bits bit = false ∧ bm' = bm.setBit bit := by
  unfold bdrBitmapAllocate at h
  split at h
  · cases h
  · rename_i b hfind
    cases h
    have hmem := List.mem_of_find?_eq_some hfind
    have hfree := List.find?_some hfind
    exact ⟨List.mem_range.mp hmem, by simpa using hfree, rfl⟩

end Bdr.Kern
