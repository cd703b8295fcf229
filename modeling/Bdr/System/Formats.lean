import Bdr.System.Capacity

/-!
# System — Formats

A write passes through three records: the kernel's entry in the ring, with a page of data; the
client's packet, decoded with the sizes the kernel reports; and a slot of the journal, whose size
is a constant of the server, for pages of 4096 bytes.  An entry of up to 4096 bytes comes out of
the journal as it went into the ring, whatever the page size; a longer one, on a kernel with larger
pages, does not fit its slot and makes the server panic (`survivesFormats_iff`).
-/

namespace Bdr.System

open Kern Client Server Journal

variable {P : ℕ}

/-- The entry of the put `a`, decoded by the client from slot `i` of a window, is stored in a slot
of the journal and read back as it was. -/
def SurvivesFormats (rb : RingBuffer) (j : Journal) (i : ℕ) (a : Put P) : Prop :=
  let buffer := fill rb.buffer ((rb.bufferInfo.offset + i) % rb.bufferInfo.maxWrites) a
  ∃ w bytes, decodeSlot (bdrGetTargetInfo P rb) buffer rb.bufferInfo i = some w ∧
    serializeWriteInfo w (List.replicate j.header.bufWrites.slot 0) = some bytes ∧
    bytes.length = j.header.bufWrites.slot ∧ deserializeWriteInfo bytes = some (writeInfo a)

/-! ### The packet -/

theorem length_data_of_decodeSlot {ti : TargetInfo} {buf : Image UInt8} {bi : BufferInfo} {i : ℕ}
    {w : WriteInfo} (h : decodeSlot ti buf bi i = some w) : w.data.length = ti.pageSize := by
  simp only [decodeSlot] at h
  split at h
  · split at h
    · rename_i hlen
      cases h
      simp only [List.length_take, List.length_drop]
      omega
    · cases h
  · cases h

/-- The packet of an entry: its data is a page, of which the first bytes are the entry's. -/
theorem decodeSlot_of_fill {rb : RingBuffer} (hM : 0 < rb.bufferInfo.maxWrites) (i : ℕ)
    (a : Put P) :
    ∃ w, decodeSlot (bdrGetTargetInfo P rb)
        (fill rb.buffer ((rb.bufferInfo.offset + i) % rb.bufferInfo.maxWrites) a)
        rb.bufferInfo i = some w ∧ effective w = writeInfo a ∧ w.data.length = P := by
  have hpage : (bdrGetTargetInfo P rb).pageSize = P := rfl
  obtain ⟨w, hw, heff⟩ := decodeSlot_of_slotHolds hpage rfl (byteOffset_in_mapping P hM rfl i)
    (slotHolds_fill rb.buffer _ a)
  exact ⟨w, hw, heff, length_data_of_decodeSlot hw⟩

/-- How much of a packet is stored: all of the entry. -/
theorem dataSize_of_effective {w : WriteInfo} {a : Put P} (heff : effective w = writeInfo a)
    (hlen : w.data.length = P) (hP : bdrWriteInfoSize P < 2 ^ 32) :
    dataSize w = a.size.toNat := by
  have hsize : w.size = a.size := congrArg BlockInfo.size heff
  have hle := a.size_le
  rw [bdrWriteInfoSize] at hP
  rw [dataSize, hlen, hsize, Nat.mod_eq_of_lt (by omega)]
  omega

/-! ### The slot -/

/-- The journal's slots for buffer writes have the constant size. -/
theorem slot_createJournal {clientInfo : InitInfo} {disk : Device} {j : Journal}
    (h : createJournal clientInfo disk = .ok j) : j.header.bufWrites.slot = writeInfoSize := by
  rw [createJournal] at h
  split at h
  · cases h
  · rename_i jrn hnew
    obtain ⟨-, hslot, -⟩ := newJournal_eq_ok hnew
    split at h
    · rename_i j' hinit
      cases h
      obtain ⟨-, plan, rfl⟩ := invalidate_eq_ok hinit
      show jrn.header.bufWriteByteSize.toNat = writeInfoSize
      rw [hslot]
      rfl
    · cases h

section Agree
variable {rb : RingBuffer} {clientInfo : InitInfo} {disk : Device} {j : Journal}

theorem survivesFormats_of_le (hM : 0 < rb.bufferInfo.maxWrites) (hP : bdrWriteInfoSize P < 2 ^ 32)
    (hj : createJournal clientInfo disk = .ok j) (i : ℕ) {a : Put P}
    (hsize : a.size.toNat ≤ 4096) : SurvivesFormats rb j i a := by
  obtain ⟨w, hw, heff, hlen⟩ := decodeSlot_of_fill hM i a
  have hslot : j.header.bufWrites.slot = 4108 := slot_createJournal hj
  have hsz : w.size = a.size := congrArg BlockInfo.size heff
  have hds := dataSize_of_effective heff hlen hP
  have hle := a.size_le
  have hfit : 12 + w.size.toNat ≤ j.header.bufWrites.slot := by
    rw [hslot, hsz]
    omega
  refine ⟨w, entryBytes j.header.bufWrites.slot w, hw, ?_, length_entryBytes (by omega) w, ?_⟩
  · exact (serialize_replicate hfit).trans (if_pos (by omega))
  · refine (deserialize_entryBytes hfit).trans ((if_pos (by rw [hsz]; omega)).trans ?_)
    rw [← heff, readBack, effective, hds, hsz,
      padTake_of_length_le (by simp only [List.length_take, hlen]; omega), List.take_take, min_self]

/-- An entry of more bytes does not fit its slot. -/
theorem not_survivesFormats_of_large (hM : 0 < rb.bufferInfo.maxWrites)
    (hP : bdrWriteInfoSize P < 2 ^ 32) (hj : createJournal clientInfo disk = .ok j) (i : ℕ)
    {a : Put P} (hsize : 4096 < a.size.toNat) : ¬ SurvivesFormats rb j i a := by
  obtain ⟨w, hw, heff, hlen⟩ := decodeSlot_of_fill hM i a
  have hslot : j.header.bufWrites.slot = 4108 := slot_createJournal hj
  have hds := dataSize_of_effective heff hlen hP
  rintro ⟨w', bytes, hw', hs, -⟩
  obtain rfl : w = w' := Option.some.inj (hw.symm.trans hw')
  have hnone : serialize w (List.replicate j.header.bufWrites.slot 0) = none :=
    serialize_of_large (by omega) (by omega)
  exact absurd (hnone.symm.trans hs) (by simp)

/-- **The formats agree** on entries of up to 4096 bytes, and on no others. -/
theorem survivesFormats_iff (hM : 0 < rb.bufferInfo.maxWrites) (hP : bdrWriteInfoSize P < 2 ^ 32)
    (hj : createJournal clientInfo disk = .ok j) (i : ℕ) (a : Put P) :
    SurvivesFormats rb j i a ↔ a.size.toNat ≤ 4096 :=
  ⟨fun h => Nat.not_lt.mp fun hlt => not_survivesFormats_of_large hM hP hj i hlt h,
    survivesFormats_of_le hM hP hj i⟩

end Agree

/-! ### Two page sizes -/

/-- A ring of three entries, the first of which is new. -/
def threeSlotRing : RingBuffer := ⟨fun _ => 7, ⟨0, 1, 0, 0, 3⟩⟩

/-- A device for its journal. -/
def journalDisk : Device := ⟨32768, fun _ => 0, [], by decide⟩

theorem survivesFormats_iff_zeroSectorPut : ∃ j,
    createJournal (initInfo (bdrGetTargetInfo 4096 threeSlotRing) 0) journalDisk = .ok j ∧
      SurvivesFormats threeSlotRing j 0 (zeroSectorPut 8) := by
  obtain ⟨j, hj⟩ := createJournal_of_le (initInfo (bdrGetTargetInfo 4096 threeSlotRing) 0)
    journalDisk rfl (by decide) (by decide)
  exact ⟨j, hj, (survivesFormats_iff (by decide) (by decide) hj 0 _).mpr (by decide)⟩

/-- A put of a page of 8192 bytes. -/
def zeroPagePut : Put 8192 where
  sector := 0
  size := 8192
  page := List.replicate 8192 0
  pageOffset := 0
  length := 8192
  page_length := List.length_replicate
  pageOffset_le := Nat.zero_le _
  size_eq := by decide

/-- With pages of 8192 bytes, the entry of a whole page is longer than the slot. -/
theorem not_survivesFormats_zeroPagePut : ∃ j,
    createJournal (initInfo (bdrGetTargetInfo 8192 threeSlotRing) 0) journalDisk = .ok j ∧
      ¬ SurvivesFormats threeSlotRing j 0 zeroPagePut := by
  obtain ⟨j, hj⟩ := createJournal_of_le (initInfo (bdrGetTargetInfo 8192 threeSlotRing) 0)
    journalDisk rfl (by decide) (by decide)
  exact ⟨j, hj, not_survivesFormats_of_large (by decide) (by decide) hj 0 (by decide)⟩

end Bdr.System
