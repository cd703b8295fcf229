import Bdr.Client.Window
import Bdr.Kern.Bio
import Bdr.Kern.Overflow

/-!
# Client — the packets of a bio

A write bio is put into the ring segment by segment, and `ProcessBufferInfo` makes a packet of each
entry.  Sector numbers have 64 bits in the bio and 32 in the entry.  If every segment starts below
sector `2 ^ 32`, the packets, applied in order, do to a device what the bio does; otherwise the last
byte of the bio is written by none of them (`packets_of_bio_iff`).
-/

namespace Bdr.Client

open Kern

variable {P : ℕ}

/-- The sectors at which the segments of a bio start. -/
def segmentStarts (sector : ℕ) : List (Segment P) → List ℕ
  | [] => []
  | v :: vs => sector :: segmentStarts (sector + v.length.toNat / kernelLogicalSectorSize) vs

/-- The packets the client makes of the entries that the bio has put into `rb`, whatever is put
behind them before the ring is read (`as`) and after that (`bs`), have the effect of the bio on
every device. -/
def Faithful (rb : RingBuffer) (sector : UInt64) (segs : List (Segment P)) : Prop :=
  ∀ as bs : List (Put P),
    let later := ringRun (bdrSubmitBio rb (bioForEachSegment sector segs)) (as.map .put)
    later.bufferInfo.overflown = false →
    ∃ ws, decodeWindow (bdrGetTargetInfo P rb)
        (ringRun (bdrBufferReadRoutine later).1 (bs.map .put)).buffer
        (bdrBufferReadRoutine later).2 = some ws ∧
      ∀ m : Image UInt8,
        m.applyAll (((ws.drop rb.bufferInfo.length).take segs.length).map BlockInfo.patch) =
          m.apply ⟨kernelLogicalSectorSize * sector.toNat, bioBytes segs⟩

/-! ### One packet -/

/-- What a packet writes does not depend on the bytes past its size. -/
theorem patch_effective (w : WriteInfo) : (effective w).patch = w.patch := by
  simp only [effective, BlockInfo.patch, List.take_take, min_self]

/-- Where the packet of a put writes: the sector is the one of the entry. -/
theorem patch_writeInfo (a : Put P) :
    (writeInfo a).patch = ⟨kernelLogicalSectorSize * a.sector.toNat, a.data⟩ := by
  have hlt := a.sector.toNat_lt
  have hoff : (UInt64.ofNat kernelLogicalSectorSize * a.sector.toUInt64).toNat =
      kernelLogicalSectorSize * a.sector.toNat := by
    rw [UInt64.toNat_mul, UInt32.toNat_toUInt64, UInt64.toNat_ofNat']
    simp only [kernelLogicalSectorSize]
    omega
  rw [BlockInfo.patch, writeInfo, hoff, ← a.length_data, List.take_length]

theorem patch_bioVec (v : Segment P) (sector : ℕ) :
    (writeInfo (v.bioVec sector).put).patch =
      ⟨kernelLogicalSectorSize * (sector % 2 ^ 32), v.bytes⟩ := by
  have hsec : (v.bioVec sector).put.sector.toNat = sector % 2 ^ 32 := UInt32.toNat_ofNat'
  rw [patch_writeInfo, hsec]
  rfl

/-! ### All packets -/

/-- What the packets of a bio write: an entry keeps 32 bits of its sector. -/
def bioPatches (sector : ℕ) : List (Segment P) → List (Patch UInt8)
  | [] => []
  | v :: vs => ⟨kernelLogicalSectorSize * (sector % 2 ^ 32), v.bytes⟩ ::
      bioPatches (sector + v.length.toNat / kernelLogicalSectorSize) vs

/-- The iterator behind a segment.  That it wraps at `2 ^ 64` does not show in an entry. -/
theorem toNat_next_mod {v : Segment P} {sector : UInt64} {n : ℕ}
    (h : sector.toNat % 2 ^ 32 = n % 2 ^ 32) :
    (sector + v.length.toUInt64 >>> 9).toNat % 2 ^ 32 =
      (n + v.length.toNat / kernelLogicalSectorSize) % 2 ^ 32 := by
  have hshift : (v.length.toUInt64 >>> 9).toNat = v.length.toNat / kernelLogicalSectorSize := by
    rw [UInt64.toNat_shiftRight, UInt32.toNat_toUInt64]
    exact Nat.shiftRight_eq_div_pow _ 9
  rw [UInt64.toNat_add, hshift, Nat.mod_mod_of_dvd _ (by decide), Nat.add_mod, h, ← Nat.add_mod]

theorem patches_bioPuts {sector : UInt64} {n : ℕ} (h : sector.toNat % 2 ^ 32 = n % 2 ^ 32)
    (segs : List (Segment P)) :
    ((bioPuts sector segs).map fun a => (writeInfo a).patch) = bioPatches n segs := by
  induction segs generalizing sector n with
  | nil => rfl
  | cons v vs ih =>
      rw [bioPuts, bioForEachSegment, List.map_cons, List.map_cons, patch_bioVec, h, bioPatches]
      exact congrArg _ (ih (toNat_next_mod h))

/-- A segment is whole sectors, and not empty. -/
theorem segment_length (v : Segment P) :
    kernelLogicalSectorSize * (v.length.toNat / kernelLogicalSectorSize) = v.bytes.length ∧
      0 < v.bytes.length := by
  rw [v.length_bytes]
  exact ⟨Nat.mul_div_cancel' v.length_dvd, UInt32.lt_iff_toNat_lt.mp v.length_pos⟩

/-- Packets whose sectors have 32 bits tile the bio. -/
theorem applyAll_bioPatches (m : Image UInt8) {sector : ℕ} {segs : List (Segment P)}
    (h : ∀ s ∈ segmentStarts sector segs, s < 2 ^ 32) :
    m.applyAll (bioPatches sector segs) =
      m.apply ⟨kernelLogicalSectorSize * sector, bioBytes segs⟩ := by
  induction segs generalizing m sector with
  | nil => exact (Image.apply_torn_zero m ⟨kernelLogicalSectorSize * sector, []⟩).symm
  | cons v vs ih =>
      have hmod : sector % 2 ^ 32 = sector := Nat.mod_eq_of_lt (h sector List.mem_cons_self)
      calc m.applyAll (bioPatches sector (v :: vs))
          = (m.apply ⟨kernelLogicalSectorSize * sector, v.bytes⟩).applyAll
              (bioPatches (sector + v.length.toNat / kernelLogicalSectorSize) vs) := by
            rw [bioPatches, Image.applyAll_cons, hmod]
        _ = (m.apply ⟨kernelLogicalSectorSize * sector, v.bytes⟩).apply
              ⟨kernelLogicalSectorSize * sector + v.bytes.length, bioBytes vs⟩ := by
            rw [ih _ fun s hs => h s (List.mem_cons_of_mem _ hs), Nat.mul_add,
              (segment_length v).1]
        _ = m.apply ⟨kernelLogicalSectorSize * sector, bioBytes (v :: vs)⟩ :=
            (Image.apply_append m _ v.bytes (bioBytes vs)).symm

/-- Where a bio ends, from its first segment on. -/
theorem bio_end (sector : ℕ) (v : Segment P) (vs : List (Segment P)) :
    kernelLogicalSectorSize * sector + (bioBytes (v :: vs)).length =
      kernelLogicalSectorSize * (sector + v.length.toNat / kernelLogicalSectorSize) +
        (bioBytes vs).length := by
  rw [bioBytes, List.flatMap_cons, List.length_append, Nat.mul_add, (segment_length v).1]
  exact (Nat.add_assoc ..).symm

/-- The packets of a bio that starts at sector `2 ^ 32` or behind it end before the bio does. -/
theorem patch_end_of_wide {sector : ℕ} {segs : List (Segment P)} (h : 2 ^ 32 ≤ sector)
    {w : Patch UInt8} (hw : w ∈ bioPatches sector segs) :
    w.offset + w.data.length < kernelLogicalSectorSize * sector + (bioBytes segs).length := by
  induction segs generalizing sector with
  | nil => cases hw
  | cons v vs ih =>
      rcases List.mem_cons.mp hw with rfl | hw
      · have hmod : sector % 2 ^ 32 + 2 ^ 32 ≤ sector := by omega
        have hlen : v.bytes.length ≤ (bioBytes (v :: vs)).length := by
          rw [bioBytes, List.flatMap_cons, List.length_append]
          exact Nat.le_add_right _ _
        simp only [kernelLogicalSectorSize]
        omega
      · rw [bio_end]
        exact ih (h.trans (Nat.le_add_right _ _)) hw

/-- With a segment that starts at sector `2 ^ 32` or behind it, no packet reaches the end of the
bio: those before the segment end where it starts, and the others are too low. -/
theorem patch_end_of_start {sector : ℕ} {segs : List (Segment P)}
    (h : ∃ s ∈ segmentStarts sector segs, 2 ^ 32 ≤ s) {w : Patch UInt8}
    (hw : w ∈ bioPatches sector segs) :
    w.offset + w.data.length < kernelLogicalSectorSize * sector + (bioBytes segs).length := by
  induction segs generalizing sector with
  | nil => cases hw
  | cons v vs ih =>
      by_cases hs : 2 ^ 32 ≤ sector
      · exact patch_end_of_wide hs hw
      obtain ⟨s, hmem, hle⟩ := h
      rcases List.mem_cons.mp hmem with rfl | hmem
      · exact absurd hle hs
      rw [bio_end]
      rcases List.mem_cons.mp hw with rfl | hw
      · have hpos : 0 < (bioBytes vs).length := by
          cases vs with
          | nil => cases hmem
          | cons u us =>
              rw [bioBytes, List.flatMap_cons, List.length_append]
              exact Nat.add_pos_left (segment_length u).2 _
        have hmod : sector % 2 ^ 32 = sector := Nat.mod_eq_of_lt (Nat.lt_of_not_le hs)
        simp only [hmod, Nat.mul_add, (segment_length v).1]
        omega
      · exact ih ⟨s, hmem, hle⟩ hw

/-- On a device that does not hold the last byte of the bio, that byte is missing. -/
theorem exists_applyAll_ne {sector : ℕ} {segs : List (Segment P)}
    (h : ∃ s ∈ segmentStarts sector segs, 2 ^ 32 ≤ s) :
    ∃ m : Image UInt8, m.applyAll (bioPatches sector segs) ≠
      m.apply ⟨kernelLogicalSectorSize * sector, bioBytes segs⟩ := by
  have hpos : 0 < (bioBytes segs).length := by
    obtain ⟨s, hs, -⟩ := h
    cases segs with
    | nil => cases hs
    | cons v vs =>
        rw [bioBytes, List.flatMap_cons, List.length_append]
        exact Nat.add_pos_left (segment_length v).2 _
  obtain ⟨i, hi⟩ : ∃ i, (bioBytes segs).length = i + 1 := Nat.exists_eq_add_of_lt hpos |>.imp (by
    intro i hi
    omega)
  obtain ⟨x, hx⟩ : ∃ x, (bioBytes segs)[i]? = some x :=
    ⟨_, List.getElem?_eq_getElem (by omega)⟩
  have hne : x + 1 ≠ x := by simp
  refine ⟨fun _ => x + 1, fun heq => hne ?_⟩
  have hlast := congrFun heq (kernelLogicalSectorSize * sector + i)
  have hleft : Image.applyAll (fun _ => x + 1) (bioPatches sector segs)
      (kernelLogicalSectorSize * sector + i) = x + 1 := by
    rw [Image.applyAll_apply, Patch.last?_eq_none.mpr fun w hw hc => ?_, Option.getD_none]
    have hend := patch_end_of_start h hw
    have := hc.2
    omega
  rw [hleft, Image.apply, Patch.get?_add, hx] at hlast
  exact hlast

section Packets
variable {rb later : RingBuffer} {sector : UInt64} {segs : List (Segment P)} {as : List (Put P)}

/-- What the ring has been through, from the bio on. -/
theorem later_eq (hlater : later = ringRun (bdrSubmitBio rb (bioForEachSegment sector segs))
    (as.map .put)) : later = ringRun rb ((bioPuts sector segs ++ as).map .put) := by
  rw [hlater, bdrSubmitBio_eq_ringRun, List.map_append, ringRun_append]

theorem ne_reset_of_mem_puts {op : WindowOp (Put P)} (h : op ∈ as.map WindowOp.put) :
    op ≠ .reset := by
  obtain ⟨a, -, rfl⟩ := List.mem_map.mp h
  simp

/-- The packets of a bio that fits, as the puts it consists of. -/
theorem packets_of_puts {q : WindowQueue (Put P)} (hq : Refines rb q)
    (hlater : later = ringRun (bdrSubmitBio rb (bioForEachSegment sector segs)) (as.map .put))
    (hf : later.bufferInfo.overflown = false) (bs : List (Put P)) :
    ∃ ws, decodeWindow (bdrGetTargetInfo P rb)
        (ringRun (bdrBufferReadRoutine later).1 (bs.map .put)).buffer
        (bdrBufferReadRoutine later).2 = some ws ∧
      ((ws.drop rb.bufferInfo.length).take segs.length).map BlockInfo.patch =
        (bioPuts sector segs).map fun a => (writeInfo a).patch := by
  have hrun := later_eq hlater
  have hlast := hq.run (fun _ => ne_reset_of_mem_puts) (hrun ▸ hf)
  rw [← hrun] at hlast
  have hmax : later.bufferInfo.maxWrites = rb.bufferInfo.maxWrites := by
    rw [hrun, maxWrites_ringRun]
  have hdec := decodeWindow_of_read hlast hmax bs
  obtain ⟨ws, hws, hmap⟩ := Option.map_eq_some_iff.mp hdec
  refine ⟨ws, hws, ?_⟩
  -- the window is what was pending before the bio, the bio, and what came behind it
  have hpatch : ws.map BlockInfo.patch =
      (q.pending ++ (bioPuts sector segs ++ as)).map fun a => (writeInfo a).patch := by
    have hcomp : (fun a : Put P => (writeInfo a).patch) = BlockInfo.patch ∘ writeInfo := rfl
    rw [← WindowQueue.pending_run_puts, hcomp, ← List.map_map, ← hmap, List.map_map]
    exact List.map_congr_left fun w _ => (patch_effective w).symm
  rw [List.map_take, List.map_drop, hpatch, hq.length_eq, ← length_bioPuts sector segs]
  simp

/-- A ring that takes the bio captures it faithfully just when the sectors have 32 bits. -/
theorem faithful_iff {q : WindowQueue (Put P)} (hq : Refines rb q)
    (hfits : (bdrSubmitBio rb (bioForEachSegment sector segs)).bufferInfo.overflown = false) :
    Faithful rb sector segs ↔ ∀ s ∈ segmentStarts sector.toNat segs, s < 2 ^ 32 := by
  have hpatches : ((bioPuts sector segs).map fun a => (writeInfo a).patch) =
      bioPatches sector.toNat segs := patches_bioPuts rfl segs
  constructor
  · intro hfaithful
    by_contra hwide
    push Not at hwide
    obtain ⟨m, hm⟩ := exists_applyAll_ne hwide
    obtain ⟨ws, hws, heq⟩ := hfaithful [] [] hfits
    have hnone : bdrSubmitBio rb (bioForEachSegment sector segs) =
        ringRun (bdrSubmitBio rb (bioForEachSegment sector segs)) (([] : List (Put P)).map .put) :=
      rfl
    obtain ⟨ws', hws', hpackets⟩ := packets_of_puts hq hnone hfits []
    obtain rfl : ws = ws' := Option.some.inj (hws.symm.trans hws')
    exact hm (by rw [← hpatches, ← hpackets]; exact heq m)
  · intro h as bs later hf
    obtain ⟨ws, hws, hpackets⟩ := packets_of_puts hq rfl hf bs
    refine ⟨ws, hws, fun m => ?_⟩
    rw [hpackets, hpatches]
    exact applyAll_bioPatches m h

/-- **Capture is faithful below `2 ^ 32` sectors, and only there.**  Whatever the ring has been
through, the packets of a bio that fits into it, read later, have the effect of the bio just when
every segment starts below sector `2 ^ 32`. -/
theorem packets_of_bio_iff {mem : Image UInt8} {M : ℕ} {rb₀ : RingBuffer}
    (hinit : bdrRingBufferInit mem M = some rb₀) (ops : List (WindowOp (Put P)))
    (hfits : (bdrSubmitBio (ringRun rb₀ ops)
      (bioForEachSegment sector segs)).bufferInfo.overflown = false) :
    Faithful (ringRun rb₀ ops) sector segs ↔
      ∀ s ∈ segmentStarts sector.toNat segs, s < 2 ^ 32 := by
  obtain ⟨-, ⟨q, hq, -⟩ | ⟨hup, -⟩⟩ := (counted_init (P := P) hinit).run ops
  · exact faithful_iff hq hfits
  · rw [bdrSubmitBio_eq_ringRun, ringRun_of_overflown hup fun _ => ne_reset_of_mem_puts, hup]
      at hfits
    cases hfits

end Packets

/-! ### One sector -/

/-- A bio of fewer segments than there are slots fits into a new ring. -/
theorem fits_of_length_lt {mem : Image UInt8} {M : ℕ} {rb₀ : RingBuffer}
    (hinit : bdrRingBufferInit mem M = some rb₀) (sector : UInt64) {segs : List (Segment P)}
    (h : segs.length < M) :
    (bdrSubmitBio rb₀ (bioForEachSegment sector segs)).bufferInfo.overflown = false := by
  have hroom : (WindowQueue.empty : WindowQueue (Put P)).toList.length +
      (bioPuts sector segs).length < rb₀.bufferInfo.maxWrites := by
    rw [length_bioPuts, maxWrites_init hinit]
    simpa [WindowQueue.empty, WindowQueue.toList] using h
  rw [bdrSubmitBio_eq_ringRun]
  exact overflown_of_flags ((refines_init hinit).puts _ hroom).flags

theorem packets_of_bio_iff_onesSegment : ∃ rb₀, bdrRingBufferInit (fun _ => 0) 4 = some rb₀ ∧
    (bdrSubmitBio rb₀ (bioForEachSegment 7 [onesSegment, onesSegment])).bufferInfo.overflown =
      false ∧ Faithful rb₀ 7 [onesSegment, onesSegment] := by
  obtain ⟨rb₀, hinit⟩ : ∃ rb₀, bdrRingBufferInit (fun _ => 0) 4 = some rb₀ := ⟨_, rfl⟩
  have hfits := fits_of_length_lt hinit 7 (show [onesSegment, onesSegment].length < 4 by decide)
  exact ⟨rb₀, hinit, hfits, (packets_of_bio_iff hinit [] hfits).mpr (by decide)⟩

/-- The sector at two terabytes is replayed at the beginning of the device. -/
theorem not_faithful_of_wide : ∃ rb₀, bdrRingBufferInit (fun _ => 0) 4 = some rb₀ ∧
    (bdrSubmitBio rb₀ (bioForEachSegment 0x100000000 [onesSegment])).bufferInfo.overflown =
      false ∧ ¬ Faithful rb₀ 0x100000000 [onesSegment] := by
  obtain ⟨rb₀, hinit⟩ : ∃ rb₀, bdrRingBufferInit (fun _ => 0) 4 = some rb₀ := ⟨_, rfl⟩
  have hfits := fits_of_length_lt hinit 0x100000000 (show [onesSegment].length < 4 by decide)
  refine ⟨rb₀, hinit, hfits, fun h => ?_⟩
  have hstart := (faithful_iff (refines_init hinit) hfits).mp h 0x100000000 List.mem_cons_self
  exact absurd hstart (by decide)

end Bdr.Client
