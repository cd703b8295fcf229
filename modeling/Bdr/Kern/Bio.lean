import Bdr.Kern.Target

/-!
# Kern — the segments of a bio

How `bio_for_each_segment` walks a write bio, and what `bdr_put_write_to_buffer` makes of each
segment.  A segment lies inside one page, so that the splitting loop makes one round
(`bdrPutWriteToBuffer_eq_loop`) and a bio is captured by one put for each segment
(`bdrSubmitBio_eq_ringRun`).
-/

namespace Bdr.Kern

/-- A segment of a write bio: whole sectors, inside one page. -/
structure Segment (P : ℕ) where
  page : List UInt8
  offset : ℕ
  length : UInt32
  page_length : page.length = P
  length_le : offset + length.toNat ≤ P
  length_pos : 0 < length
  length_dvd : kernelLogicalSectorSize ∣ length.toNat

variable {P : ℕ}

namespace Segment

def bytes (v : Segment P) : List UInt8 := (v.page.drop v.offset).take v.length.toNat

theorem length_bytes (v : Segment P) : v.bytes.length = v.length.toNat := by
  have h := v.length_le
  simp only [bytes, List.length_take, List.length_drop, v.page_length]
  omega

/-- The segment at a sector of the device. -/
def bioVec (v : Segment P) (sector : ℕ) : BioVec P :=
  ⟨sector, v.page, v.offset, v.length, v.page_length, v.length_le⟩

end Segment

/-- `bio_for_each_segment`: the iterator's `bi_sector` moves on by the sectors of each segment. -/
def bioForEachSegment (sector : UInt64) : List (Segment P) → Bio P
  | [] => []
  | v :: vs => v.bioVec sector.toNat :: bioForEachSegment (sector + v.length.toUInt64 >>> 9) vs

/-- The bytes of a bio, in order. -/
def bioBytes (segs : List (Segment P)) : List UInt8 := segs.flatMap Segment.bytes

/-! ### The splitting loop -/

/-- What is put in a round of the loop. -/
def roundPut (page : List UInt8) (hpage : page.length = P) (segSec segLen : UInt32)
    (segPageOff : ℕ) (hoff : segPageOff ≤ P) : Put P where
  sector := segSec
  size := UInt32.ofNat (min segLen.toNat (P - segPageOff))
  page := page
  pageOffset := segPageOff
  length := segLen.toNat
  page_length := hpage
  pageOffset_le := hoff
  size_eq := by
    have := segLen.toNat_lt
    rw [UInt32.toNat_ofNat']
    exact Nat.mod_eq_of_lt (by omega)

/-- The loop of `bdr_put_write_to_buffer`, for at most `fuel` rounds. -/
def putLoop (page : List UInt8) (hpage : page.length = P) :
    (fuel : ℕ) → RingBuffer → (segSec segLen : UInt32) → (segPageOff : ℕ) → segPageOff ≤ P →
      RingBuffer
  | 0, rb, _, _, _, _ => rb
  | fuel + 1, rb, segSec, segLen, segPageOff, hoff =>
      if 0 < segLen then
        let a := roundPut page hpage segSec segLen segPageOff hoff
        match bdrRingBufferPut rb a with
        | (rb, false) => rb
        | (rb, true) => putLoop page hpage fuel rb (segSec + 1) (segLen - a.size) 0 (Nat.zero_le P)
      else rb

theorem roundPut_of_le {v : BioVec P} (hoff : v.offset ≤ P) :
    roundPut v.page v.page_length (UInt32.ofNat v.sector) v.length v.offset hoff = v.put := by
  have hle := v.length_le
  have hmin : min v.length.toNat (P - v.offset) = v.length.toNat := by omega
  simp only [roundPut, BioVec.put, hmin, UInt32.ofNat_toNat]

/-- **One round.**  Whatever the fuel beyond the first round, the loop puts a segment once. -/
theorem bdrPutWriteToBuffer_eq_loop (rb : RingBuffer) (v : BioVec P) (fuel : ℕ) :
    putLoop v.page v.page_length (fuel + 1) rb (UInt32.ofNat v.sector) v.length v.offset
      ((Nat.le_add_right _ _).trans v.length_le) = bdrPutWriteToBuffer rb v := by
  have hstop : ∀ (rb : RingBuffer) (sec : UInt32),
      putLoop v.page v.page_length fuel rb sec 0 0 (Nat.zero_le P) = rb := by
    intro rb sec
    cases fuel <;> rfl
  rw [putLoop, bdrPutWriteToBuffer]
  by_cases hv : 0 < v.length
  · rw [if_pos hv, if_pos hv]
    simp only [roundPut_of_le]
    split
    · rename_i heq
      rw [heq]
    · rename_i heq
      rw [heq, show v.put.size = v.length from rfl, UInt32.sub_self]
      exact hstop _ _
  · rw [if_neg hv, if_neg hv]

/-! ### A bio as puts -/

/-- The puts of a bio. -/
def bioPuts (sector : UInt64) (segs : List (Segment P)) : List (Put P) :=
  (bioForEachSegment sector segs).map BioVec.put

theorem bdrSubmitBio_eq_ringRun (rb : RingBuffer) (sector : UInt64) (segs : List (Segment P)) :
    bdrSubmitBio rb (bioForEachSegment sector segs) =
      ringRun rb ((bioPuts sector segs).map .put) := by
  induction segs generalizing rb sector with
  | nil => rfl
  | cons v vs ih =>
      have hput : bdrPutWriteToBuffer rb (v.bioVec sector.toNat) =
          (bdrRingBufferPut rb (v.bioVec sector.toNat).put).1 := if_pos v.length_pos
      rw [bioForEachSegment, bioPuts, bdrSubmitBio, List.foldl_cons, hput]
      exact ih _ _

theorem length_bioPuts (sector : UInt64) (segs : List (Segment P)) :
    (bioPuts sector segs).length = segs.length := by
  induction segs generalizing sector with
  | nil => rfl
  | cons v vs ih => exact congrArg (· + 1) (ih _)

theorem onesSegment_page_length : (List.replicate 4096 (1 : UInt8)).length = 4096 :=
  List.length_replicate

theorem onesSegment_length_le : 0 + (512 : UInt32).toNat ≤ 4096 := by decide

theorem onesSegment_length_pos : (0 : UInt32) < 512 := by decide

theorem onesSegment_length_dvd : kernelLogicalSectorSize ∣ (512 : UInt32).toNat := dvd_rfl

/-- A sector of ones, at the beginning of a page. -/
def onesSegment : Segment 4096 where
  page := List.replicate 4096 1
  offset := 0
  length := 512
  page_length := onesSegment_page_length
  length_le := onesSegment_length_le
  length_pos := onesSegment_length_pos
  length_dvd := onesSegment_length_dvd

end Bdr.Kern
