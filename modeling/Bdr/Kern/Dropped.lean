import Bdr.Kern.Bio
import Bdr.Kern.Bitmap
import Bdr.Kern.Overflow
import Bdr.Support.Runs

/-!
# Kern — dropped writes

What becomes of a write that the ring buffer has no room for.  `bdr_target_map` marks it in the
target's bitmap if it finds the buffer flagged: one bit for each segment, of the block the segment
begins in.  The segment that raises the flag, and those after it in the same bio, are not marked;
neither is the second block of a segment that crosses into one, nor a last block that the bitmap
has no bit for.

`owed` are the blocks of dropped segments that no successful `bdr_chardev_read` has returned yet.
-/

namespace Bdr.Kern

variable {P : ℕ}

/-- Bytes of a block. -/
def bdrBlockBytes : ℕ := kernelLogicalSectorSize * 2 ^ bdrBlockSizeShift

/-- The blocks that a segment touches. -/
def BioVec.blocks (v : BioVec P) : List ℕ :=
  let first := kernelLogicalSectorSize * v.sector / bdrBlockBytes
  let last := (kernelLogicalSectorSize * v.sector + v.length.toNat - 1) / bdrBlockBytes
  List.range' first (last + 1 - first)

/-- The segments of a bio that `bdr_submit_bio` cannot store. -/
def refused (rb : RingBuffer) : Bio P → List (BioVec P)
  | [] => []
  | v :: vs =>
      (if 0 < v.length ∧ (bdrRingBufferPut rb v.put).2 = false then [v] else []) ++
        refused (bdrPutWriteToBuffer rb v) vs

/-- `bdr_target_map` of a write, with what it does to the bitmap. -/
def mapWrite (rb : RingBuffer) (bm : Bitmap) (bio : Bio P) : RingBuffer × Bitmap :=
  if rb.bufferInfo.overflown then
    (rb, bio.foldl (fun bm v => bdrBitmapSetSector bm v.sector) bm)
  else (bdrSubmitBio rb bio, bm)

/-- The segments that `bdr_target_map` does not store. -/
def dropped (rb : RingBuffer) (bio : Bio P) : List (BioVec P) :=
  if rb.bufferInfo.overflown then bio else refused rb bio

theorem fst_mapWrite (rb : RingBuffer) (bm : Bitmap) (bio : Bio P) :
    (mapWrite rb bm bio).1 = bdrTargetMap rb bio := by
  unfold mapWrite bdrTargetMap
  split <;> rfl

/-! ### Runs -/

/-- The ring buffer and the bitmap of a target, and the blocks that are owed to the reader. -/
structure Marking where
  ring : RingBuffer
  bitmap : Bitmap
  owed : List ℕ

/-- A write bio; a read or a reset of the ring buffer; a read of the bitmap. -/
inductive MarkingMove (P : ℕ) where
  | map (sector : UInt64) (segs : List (Segment P))
  | read
  | reset
  | readBitmap (count : ℕ) (copied : Bool)

namespace Marking

def step (s : Marking) : MarkingMove P → Option Marking
  | .map sector segs =>
      let bio := bioForEachSegment sector segs
      let r := mapWrite s.ring s.bitmap bio
      some ⟨r.1, r.2, s.owed ++ (dropped s.ring bio).flatMap BioVec.blocks⟩
  | .read => some { s with ring := (bdrBufferReadRoutine s.ring).1 }
  | .reset => some { s with ring := bdrRingBufferReset s.ring }
  | .readBitmap count copied =>
      let r := bdrChardevRead s.bitmap count copied
      some { s with
        bitmap := r.2
        owed := match r.1 with
          | .ok returned => s.owed.filter fun b => !returned b
          | .error _ => s.owed }

/-- Every block that is owed is marked. -/
def Covered (s : Marking) : Prop := ∀ b ∈ s.owed, s.bitmap.bits b = true

/-- The bitmap has a bit for the block, and a read returns it. -/
def InRange (bm : Bitmap) (b : ℕ) : Prop := b < 8 * bdrBitmapGetByteSize bm

instance (bm : Bitmap) (b : ℕ) : Decidable (InRange bm b) := inferInstanceAs (Decidable (_ < _))

/-- What a bio may drop.  If it finds the ring flagged, each segment lies in one block; otherwise
the blocks of what does not fit are marked already. -/
def careful (s : Marking) : MarkingMove P → Prop
  | .map sector segs =>
      ∀ v ∈ dropped s.ring (bioForEachSegment sector segs), ∀ b ∈ v.blocks, InRange s.bitmap b ∧
        if s.ring.bufferInfo.overflown then b = v.sector >>> bdrBlockSizeShift
        else s.bitmap.bits b = true
  | .read | .reset | .readBitmap _ _ => True

instance (s : Marking) : (m : MarkingMove P) → Decidable (s.careful m)
  | .map _ _ => by
      unfold careful
      infer_instance
  | .read | .reset | .readBitmap _ _ => inferInstanceAs (Decidable True)

/-- Every block that is owed is marked, and a read will return it. -/
def Reported (s : Marking) : Prop := ∀ b ∈ s.owed, s.bitmap.bits b = true ∧ InRange s.bitmap b

/-! ### One step -/

section Marks
variable {bm : Bitmap} {bio : Bio P}

theorem maxBits_marks (bm : Bitmap) (bio : Bio P) :
    (bio.foldl (fun bm v => bdrBitmapSetSector bm v.sector) bm).maxBits = bm.maxBits := by
  induction bio generalizing bm with
  | nil => rfl
  | cons v vs ih => exact ih _

/-- Marking keeps what is marked. -/
theorem marks_mono {b : ℕ} (h : bm.bits b = true) :
    (bio.foldl (fun bm v => bdrBitmapSetSector bm v.sector) bm).bits b = true := by
  induction bio generalizing bm with
  | nil => exact h
  | cons v vs ih => exact ih (Bitmap.bits_setBit_mono h)

/-- The first block of each segment is marked. -/
theorem marks_first {v : BioVec P} (hv : v ∈ bio)
    (hb : v.sector >>> bdrBlockSizeShift < bm.memoryBits) :
    (bio.foldl (fun bm v => bdrBitmapSetSector bm v.sector) bm).bits
      (v.sector >>> bdrBlockSizeShift) = true := by
  induction bio generalizing bm with
  | nil => exact absurd hv List.not_mem_nil
  | cons u us ih =>
      rcases List.mem_cons.mp hv with rfl | hv
      · have hfirst :
            (bdrBitmapSetSector bm v.sector).bits (v.sector >>> bdrBlockSizeShift) = true :=
          (Bitmap.bits_setBit_of_lt hb).mpr (.inr rfl)
        rw [List.foldl_cons]
        exact marks_mono hfirst
      · exact ih hv hb

theorem InRange.lt_memoryBits {b : ℕ} (h : InRange bm b) : b < bm.memoryBits := by
  unfold InRange bdrBitmapGetByteSize at h
  unfold Bitmap.memoryBits
  omega

end Marks

section Step
variable {s s' : Marking}

theorem Reported.map (h : s.Reported) {sector : UInt64} {segs : List (Segment P)}
    (hok : s.careful (.map sector segs)) (hs : s.step (.map sector segs) = some s') :
    s'.Reported := by
  cases hs
  by_cases hf : s.ring.bufferInfo.overflown = true
  · -- flagged on entry: what is marked stays so, and each segment's block is marked
    have hbm : (mapWrite s.ring s.bitmap (bioForEachSegment sector segs)).2 =
        (bioForEachSegment sector segs).foldl (fun bm v => bdrBitmapSetSector bm v.sector)
          s.bitmap := by rw [mapWrite, if_pos hf]
    have hrange : ∀ b, InRange s.bitmap b →
        InRange (mapWrite s.ring s.bitmap (bioForEachSegment sector segs)).2 b := by
      intro b hb
      rwa [InRange, bdrBitmapGetByteSize, hbm, maxBits_marks]
    intro b hb
    rcases List.mem_append.mp hb with hb | hb
    · obtain ⟨hbit, hin⟩ := h b hb
      exact ⟨by rw [hbm]; exact marks_mono hbit, hrange b hin⟩
    · obtain ⟨v, hv, hvb⟩ := List.mem_flatMap.mp hb
      obtain ⟨hin, hone⟩ := hok v hv b hvb
      rw [if_pos hf] at hone
      rw [dropped, if_pos hf] at hv
      subst hone
      exact ⟨by rw [hbm]; exact marks_first hv hin.lt_memoryBits, hrange _ hin⟩
  · -- otherwise nothing is marked, and what is dropped was marked before
    have hbm : (mapWrite s.ring s.bitmap (bioForEachSegment sector segs)).2 = s.bitmap := by
      rw [mapWrite, if_neg hf]
    intro b hb
    simp only [hbm]
    rcases List.mem_append.mp hb with hb | hb
    · exact h b hb
    · obtain ⟨v, hv, hvb⟩ := List.mem_flatMap.mp hb
      obtain ⟨hin, hbit⟩ := hok v hv b hvb
      rw [if_neg hf] at hbit
      exact ⟨hbit, hin⟩

/-- A read that fails changes nothing, and one that succeeds returns what is owed. -/
theorem Reported.readBitmap (h : s.Reported) {count : ℕ} {copied : Bool}
    (hs : s.step (P := P) (.readBitmap count copied) = some s') : s'.Reported := by
  cases hs
  by_cases hcount : bdrBitmapGetByteSize s.bitmap ≠ count
  · simp only [bdrChardevRead, if_pos hcount]
    exact h
  · cases copied with
    | false =>
        simp only [bdrChardevRead, if_neg hcount, Bool.false_eq_true, if_false]
        exact h
    | true =>
        simp only [bdrChardevRead, if_neg hcount, if_true]
        intro b hb
        obtain ⟨hmem, hnot⟩ := List.mem_filter.mp hb
        obtain ⟨hbit, hin⟩ := h b hmem
        rw [InRange, not_not.mp hcount] at hin
        simp [hbit, hin] at hnot

theorem Reported.step (h : s.Reported) {m : MarkingMove P} (hok : s.careful m)
    (hs : s.step m = some s') : s'.Reported := by
  cases m with
  | map sector segs => exact h.map hok hs
  | read | reset =>
      cases hs
      exact h
  | readBitmap count copied => exact h.readBitmap hs

end Step

theorem bdrChardevRead_error {bm : Bitmap} {count : ℕ} {copied : Bool} {e : Errno}
    (h : (bdrChardevRead bm count copied).1 = .error e) :
    (bdrChardevRead bm count copied).2 = bm := by
  unfold bdrChardevRead at h ⊢
  split
  · rfl
  · rename_i hcount
    rw [if_neg hcount] at h
    split
    · rename_i hcopied
      rw [if_pos hcopied] at h
      cases h
    · rfl

/-- **The bitmap covers what is dropped** from a flagged ring, in segments that lie in one block,
and what does not fit into an unflagged one if it is marked already.  A read that fails loses
nothing. -/
theorem covered_of_careful {rb : RingBuffer} {bm : Bitmap} {moves : List (MarkingMove P)}
    {s : Marking} (hrun : Run step careful ⟨rb, bm, []⟩ moves s) :
    s.Covered ∧ ∀ count copied e, (bdrChardevRead s.bitmap count copied).1 = .error e →
      (bdrChardevRead s.bitmap count copied).2 = s.bitmap := by
  have h := hrun.invariant (I := Reported) (fun _ _ _ h hok hs => h.step hok hs)
    (fun b hb => absurd hb List.not_mem_nil)
  exact ⟨fun b hb => (h b hb).1, fun count copied e he => bdrChardevRead_error he⟩

/-! ### Two blocks -/

/-- A flagged ring of one slot, and a bitmap for two blocks. -/
def flaggedTarget : Marking := ⟨⟨fun _ => 0, ⟨0, 1, 0, 1, 1⟩⟩, ⟨fun _ => false, 2⟩, []⟩

theorem covered_of_careful_flaggedTarget : ∃ s,
    Run step careful flaggedTarget
      [.map 2048 [onesSegment], .readBitmap 1 false, .readBitmap 1 true, .map 5 [onesSegment]] s ∧
      s.owed = [0] ∧ s.Covered := by
  obtain ⟨s, hs, howed⟩ := exists_exec (P := fun s : Marking => decide (s.owed = [0]))
    (show (exec (guarded step careful) flaggedTarget
      [.map 2048 [onesSegment], .readBitmap 1 false, .readBitmap 1 true,
        .map 5 [onesSegment]]).any _ = true by decide +kernel)
  have hrun := Run.of_exec_guarded hs
  exact ⟨s, hrun, of_decide_eq_true howed, (covered_of_careful hrun).1⟩

/-- The write that raises the flag is dropped and not marked. -/
theorem not_covered_of_first : ∃ rb s, bdrRingBufferInit (fun _ => 0) 1 = some rb ∧
    exec step ⟨rb, ⟨fun _ => false, 2⟩, []⟩ [.map 0 [onesSegment]] = some s ∧
      s.ring.bufferInfo.overflown = true ∧ ¬ s.Covered := by
  refine ⟨_, _, rfl, rfl, by decide +kernel, fun h => ?_⟩
  have howed := h 0 (by decide +kernel)
  cases howed

end Marking

end Bdr.Kern
