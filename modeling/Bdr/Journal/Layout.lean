import Bdr.Journal.Journal

/-!
# Journal — Layout

Where `NewJournal` puts the two sections on a disk, in the `uint64` arithmetic of the source.  The
test that accepts a layout subtracts the size of the header from the size of the disk; on a disk
with room for the header the sections follow each other inside it, and on a smaller one the
difference wraps around and nearly every layout is accepted (`newHeader_inOrder_iff`).
-/

namespace Bdr.Journal

namespace Header

def getBufWriteSectionByteSize (h : Header) : UInt64 := h.bufWriteByteSize * h.bufWritesCount

def getCorrBlockSectionByteSize (h : Header) : UInt64 := h.corrBlockByteSize * h.corrBlocksCount

/-- The header, the buffer writes and the correct blocks follow each other on a disk of `diskSize`
bytes, and the source's `uint64` products are the sizes of the sections. -/
structure InOrder (h : Header) (diskSize : UInt64) : Prop where
  header_le : getHeaderByteSize.toNat ≤ h.bufWrites.start
  bufWrites_le : h.bufWrites.start + h.bufWrites.count * h.bufWrites.slot ≤ h.corrBlocks.start
  corrBlocks_le : h.corrBlocks.start + h.corrBlocks.count * h.corrBlocks.slot ≤ diskSize.toNat
  bufWrites_size : h.getBufWriteSectionByteSize.toNat = h.bufWrites.count * h.bufWrites.slot
  corrBlocks_size : h.getCorrBlockSectionByteSize.toNat = h.corrBlocks.count * h.corrBlocks.slot

end Header

section New
variable {diskSize a b c : UInt64} {h : Header}

/-- A new journal has a header that was accepted. -/
theorem newHeader_of_newJournal {disk : Device} {j : Journal}
    (hok : newJournal disk a b c = .ok j) :
    ∃ h, newHeader (UInt64.ofNat disk.size) a b c = .ok h ∧
      j = ⟨disk, h.bufWrites.count, h.corrBlocks.count, h⟩ := by
  unfold newJournal at hok
  cases hh : newHeader (UInt64.ofNat disk.size) a b c with
  | error e => rw [hh] at hok; cases hok
  | ok h =>
      rw [hh] at hok
      cases hok
      exact ⟨h, rfl, rfl⟩

theorem newHeader_ok (hok : newHeader diskSize a b c = .ok h) :
    a ≤ diskSize - getHeaderByteSize ∧
      h = ⟨bdrMagic, b, a / b, getHeaderByteSize, c, (diskSize - getHeaderByteSize - a) / c,
        getHeaderByteSize + a, 0⟩ := by
  simp only [newHeader] at hok
  split at hok
  · cases hok
  · rename_i ha
    split at hok
    · cases hok
    · cases hok
      exact ⟨UInt64.not_lt.mp (not_or.mp ha).1, rfl⟩

/-- The sections of an accepted layout, when the header has room on the disk. -/
theorem sections_of_newHeader (hok : newHeader diskSize a b c = .ok h)
    (hsize : getHeaderByteSize ≤ diskSize) :
    64 + a.toNat ≤ diskSize.toNat ∧ h.bufWrites = ⟨64, b.toNat, a.toNat / b.toNat⟩ ∧
      h.corrBlocks =
        ⟨64 + a.toNat, c.toNat, (diskSize.toNat - 64 - a.toNat) / c.toNat⟩ := by
  obtain ⟨ha, rfl⟩ := newHeader_ok hok
  have h64 : getHeaderByteSize.toNat = 64 := rfl
  have hlt := diskSize.toNat_lt
  have hsub : (diskSize - getHeaderByteSize).toNat = diskSize.toNat - 64 :=
    UInt64.toNat_sub_of_le _ _ hsize
  have hle : 64 ≤ diskSize.toNat := UInt64.le_iff_toNat_le.mp hsize
  have hfit : a.toNat ≤ diskSize.toNat - 64 := hsub ▸ UInt64.le_iff_toNat_le.mp ha
  have hstart : (getHeaderByteSize + a).toNat = 64 + a.toNat := by
    rw [UInt64.toNat_add, h64]
    exact Nat.mod_eq_of_lt (by omega)
  refine ⟨by omega, ?_, ?_⟩
  · simp only [Header.bufWrites, UInt64.toNat_div, h64]
  · simp only [Header.corrBlocks, UInt64.toNat_div, UInt64.toNat_sub_of_le _ _ ha, hsub, hstart]

/-- A product that stays below `2 ^ 64` is the one the source computes. -/
theorem toNat_mul_of_le {x y : UInt64} {n : ℕ} (h : y.toNat * x.toNat ≤ n) (hn : n < 2 ^ 64) :
    (x * y).toNat = y.toNat * x.toNat := by
  rw [UInt64.toNat_mul, Nat.mul_comm]
  exact Nat.mod_eq_of_lt (by omega)

/-- With room for the header, an accepted layout fits the disk. -/
theorem inOrder_of_le (hok : newHeader diskSize a b c = .ok h)
    (hsize : getHeaderByteSize ≤ diskSize) : h.InOrder diskSize := by
  obtain ⟨hfit, hw, hc⟩ := sections_of_newHeader hok hsize
  have hlt := diskSize.toNat_lt
  have hdivw := Nat.div_mul_le_self a.toNat b.toNat
  have hdivc := Nat.div_mul_le_self (diskSize.toNat - 64 - a.toNat) c.toNat
  have hwle : h.bufWrites.count * h.bufWrites.slot ≤ a.toNat := by rw [hw]; exact hdivw
  have hcle : h.corrBlocks.count * h.corrBlocks.slot ≤ diskSize.toNat - 64 - a.toNat := by
    rw [hc]
    exact hdivc
  have hws : h.bufWrites.start = 64 := by rw [hw]
  have hcs : h.corrBlocks.start = 64 + a.toNat := by rw [hc]
  refine ⟨hws.ge, by omega, by omega, ?_, ?_⟩
  · exact toNat_mul_of_le hwle (by omega)
  · exact toNat_mul_of_le hcle (by omega)

/-- The header comes before sections that end inside the disk. -/
theorem Header.InOrder.headerSize_le (h' : h.InOrder diskSize) : getHeaderByteSize ≤ diskSize := by
  have h₁ := h'.header_le
  have h₂ := h'.bufWrites_le
  have h₃ := h'.corrBlocks_le
  exact UInt64.le_iff_toNat_le.mpr (by omega)

/-- **An accepted layout fits the disk** if the disk has room for the header, and only then. -/
theorem newHeader_inOrder_iff (hok : newHeader diskSize a b c = .ok h) :
    h.InOrder diskSize ↔ getHeaderByteSize ≤ diskSize :=
  ⟨Header.InOrder.headerSize_le, inOrder_of_le hok⟩

end New

/-- On a megabyte, half of it for writes. -/
theorem newHeader_inOrder_iff_megabyte : ∃ h, newHeader 1048576 524288 4108 262156 = .ok h ∧
    h.InOrder 1048576 := by
  obtain ⟨h, hok⟩ : ∃ h, newHeader 1048576 524288 4108 262156 = .ok h := ⟨_, rfl⟩
  exact ⟨h, hok, (newHeader_inOrder_iff hok).mpr (by decide)⟩

/-- On a disk of no bytes a layout is accepted, and its sections end far outside. -/
theorem not_inOrder_of_emptyDisk : ∃ h, newHeader 0 128 64 64 = .ok h ∧ ¬ h.InOrder 0 := by
  refine ⟨_, rfl, fun hin => ?_⟩
  have h := hin.corrBlocks_le
  simp only [Header.corrBlocks] at h
  exact absurd h (by decide)

end Bdr.Journal
