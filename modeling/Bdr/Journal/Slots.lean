import Bdr.Journal.Journal
import Mathlib.Data.List.GetD

/-!
# Journal — Slots

What the header and the slots of a journal hold, and what a read makes of it.  `entryBytes` is what
`serialize` leaves in a fresh slot and `readBack` what `deserialize` takes out of one; the two
agree as long as `12 + Size` does not wrap around in `uint32`, and up to the length of the data,
of which the source keeps the low 32 bits.
-/

namespace Bdr.Journal

/-! ### The header -/

@[simp] theorem Header.length_toBytes (h : Header) : h.toBytes.length = 64 := by
  simp [toBytes]

theorem Header.ofBytes_toBytes (h : Header) : Header.ofBytes h.toBytes = h := by
  simp (disch := simp) [ofBytes, ofBytes.word, toBytes, List.drop_append,
    List.drop_eq_nil_of_le, List.take_of_length_le]

theorem Header.isValid_setValidFlag (h : Header) : h.setValidFlag.isValid = true := by
  have : (h.flags ||| 1) &&& 1 = 1 := by
    apply UInt64.eq_of_toBitVec_eq
    ext i hi
    simpa using Or.inr
  simp [setValidFlag, isValid, journalValidFlag, this]

theorem Header.isValid_setInvalidFlag (h : Header) : h.setInvalidFlag.isValid = false := by
  have : h.flags &&& ~~~1 &&& 1 = 0 := by
    apply UInt64.eq_of_toBitVec_eq
    ext i hi
    simp only [UInt64.toBitVec_and, UInt64.toBitVec_not, BitVec.getElem_and, BitVec.getElem_not]
    cases h.flags.toBitVec[i] <;> simp
  simp [setInvalidFlag, isValid, journalValidFlag, this]

/-- Clearing the valid flag changes the last byte of the header only. -/
theorem Header.take_toBytes_setInvalidFlag (h : Header) {n : ℕ} (hn : n < 64) :
    h.setInvalidFlag.toBytes.take n = h.toBytes.take n := by
  have hflags : (h.flags &&& ~~~1).toNat / 256 = h.flags.toNat / 256 := by
    have h₁ : (~~~1 : UInt64).toNat = 2 ^ 64 - 2 := by decide
    have h₂ : (2 ^ 64 - 2) >>> 8 = 2 ^ 56 - 1 := by decide
    have h₃ := h.flags.toNat_lt
    rw [UInt64.toNat_and, h₁, ← Nat.shiftRight_eq_div_pow _ 8, Nat.shiftRight_and_distrib, h₂,
      Nat.and_two_pow_sub_one_eq_mod, Nat.shiftRight_eq_div_pow]
    omega
  have hlast : ∀ v : UInt64,
      be64 v = beBytes 7 (v.toNat / 256) ++ [UInt8.ofNat (v.toNat % 256)] :=
    fun v => beBytes_succ 7 v.toNat
  simp only [toBytes, setInvalidFlag, journalValidFlag, hlast h.flags, hlast (h.flags &&& ~~~1),
    hflags]
  have htake : ∀ (a b : List UInt8) (x y : UInt8), n ≤ (a ++ b).length →
      (a ++ (b ++ [x])).take n = (a ++ (b ++ [y])).take n := by
    intro a b x y hle
    rw [← List.append_assoc, ← List.append_assoc, List.take_append_of_le_length hle,
      List.take_append_of_le_length hle]
  refine htake _ _ _ _ ?_
  simp only [List.length_append, length_be64, length_beBytes]
  omega

/-! ### Entries -/

/-- How many bytes of its data `serialize` copies for an entry. -/
def dataSize (info : BlockInfo) : ℕ := min (info.data.length % 2 ^ 32) info.size.toNat

/-- A slot of `slot` bytes that holds the entry. -/
def entryBytes (slot : ℕ) (info : BlockInfo) : List UInt8 :=
  be64 info.offset ++ be32 info.size ++ padTake (slot - 12) 0 (info.data.take (dataSize info))

/-- The entry as it is read back. -/
def readBack (info : BlockInfo) : BlockInfo :=
  { info with data := padTake info.size.toNat 0 (info.data.take (dataSize info)) }

theorem length_entryBytes {slot : ℕ} (h : 12 ≤ slot) (info : BlockInfo) :
    (entryBytes slot info).length = slot := by
  simp only [entryBytes, List.length_append, length_be64, length_be32, length_padTake]
  omega

theorem dataSize_le_length (info : BlockInfo) : dataSize info ≤ info.data.length :=
  (Nat.min_le_left _ _).trans (Nat.mod_le _ _)

theorem dataSize_le_size (info : BlockInfo) : dataSize info ≤ info.size.toNat :=
  Nat.min_le_right _ _

theorem toNat_copied (info : BlockInfo) :
    (if UInt32.ofNat info.data.length > info.size then info.size
      else UInt32.ofNat info.data.length).toNat = dataSize info := by
  have hlen : (UInt32.ofNat info.data.length).toNat = info.data.length % 2 ^ 32 :=
    UInt32.toNat_ofNat'
  have hlt : UInt32.ofNat info.data.length > info.size ↔
      info.size.toNat < info.data.length % 2 ^ 32 := by
    rw [← hlen]
    exact UInt32.lt_iff_toNat_lt
  rw [dataSize, ← hlen]
  split
  · rename_i h
    rw [hlt] at h
    omega
  · rename_i h
    rw [hlt] at h
    omega

/-- The data of an entry, copied behind its offset and size. -/
theorem copyAt_data {slot n : ℕ} {a data : List UInt8} (ha : a.length = 12)
    (hn : n ≤ data.length) (hs : 12 + n ≤ slot) :
    copyAt (a ++ List.replicate (slot - 12) 0) 12 (12 + n) (data.take n) =
      some (a ++ padTake (slot - 12) 0 (data.take n)) := by
  have hlen : (data.take n).length = n := by simpa using hn
  have := copyAt_append (a := a) (b := List.replicate (slot - 12) 0) (n := n) (c := data.take n)
    hlen.le (by simp; omega)
  rw [ha] at this
  rw [this, padTake, List.take_of_length_le (l := data.take n) (by omega)]
  simp

/-- An entry in a fresh slot: its offset and size, and its data if it ends inside the slot. -/
theorem serialize_fresh {slot : ℕ} (h : 12 ≤ slot) (info : BlockInfo) :
    serialize info (List.replicate slot 0) =
      if 0 < info.size ∧ 0 < info.data.length then
        copyAt (be64 info.offset ++ be32 info.size ++ List.replicate (slot - 12) 0) 12
          ((12 + dataSize info) % 2 ^ 32) (info.data.take (dataSize info))
      else some (be64 info.offset ++ be32 info.size ++ List.replicate (slot - 12) 0) := by
  have h₁ : copyAt (List.replicate slot 0) 0 8 (be64 info.offset) =
      some (be64 info.offset ++ List.replicate (slot - 8) 0) := by
    simpa using copyAt_append (a := []) (b := List.replicate slot 0) (n := 8)
      (c := be64 info.offset) (by simp) (by simp; omega)
  have h₂ : copyAt (be64 info.offset ++ List.replicate (slot - 8) 0) 8 12 (be32 info.size) =
      some (be64 info.offset ++ be32 info.size ++ List.replicate (slot - 12) 0) := by
    have := copyAt_append (a := be64 info.offset) (b := List.replicate (slot - 8) 0) (n := 4)
      (c := be32 info.size) (by simp) (by simp; omega)
    simpa [Nat.sub_sub] using this
  have h12 : (12 : UInt32).toNat = 12 := rfl
  rw [serialize, h₁, Option.bind_eq_bind, Option.bind_some, h₂, Option.bind_some]
  simp only [UInt32.toNat_add, toNat_copied, h12]

/-- Nothing is copied for an entry without size or without data. -/
theorem dataSize_eq_zero {info : BlockInfo} (h : ¬ (0 < info.size ∧ 0 < info.data.length)) :
    dataSize info = 0 := by
  rcases Nat.eq_zero_or_pos info.data.length with hd | hd
  · simp [dataSize, hd]
  · have : info.size = 0 := by
      by_contra h0
      exact h ⟨UInt32.pos_iff_ne_zero.mpr h0, hd⟩
    simp [dataSize, this]

theorem serialize_replicate {slot : ℕ} {info : BlockInfo} (h : 12 + info.size.toNat ≤ slot) :
    serialize info (List.replicate slot 0) =
      if 12 + dataSize info < 2 ^ 32 then some (entryBytes slot info) else none := by
  have hcopy := dataSize_le_length info
  have hsize := dataSize_le_size info
  rw [serialize_fresh (by omega)]
  by_cases hne : 0 < info.size ∧ 0 < info.data.length
  · rw [if_pos hne]
    by_cases hw : 12 + dataSize info < 2 ^ 32
    · rw [if_pos hw, Nat.mod_eq_of_lt hw, entryBytes]
      exact copyAt_data (by simp) hcopy (by omega)
    · have hlt : (12 + dataSize info) % 2 ^ 32 < 12 := by
        have := info.size.toNat_lt
        omega
      rw [if_neg hw, copyAt, if_neg (by omega)]
  · have hz := dataSize_eq_zero hne
    rw [if_neg hne, if_pos (by omega)]
    simp [entryBytes, hz, padTake]

/-- An entry whose data ends behind the slot. -/
theorem serialize_of_large {slot : ℕ} {info : BlockInfo} (h12 : 12 ≤ slot)
    (h : slot < 12 + dataSize info) : serialize info (List.replicate slot 0) = none := by
  have hsize := dataSize_le_size info
  have hlt := info.size.toNat_lt
  have hne : 0 < info.size ∧ 0 < info.data.length := by
    by_contra h0
    rw [dataSize_eq_zero h0] at h
    omega
  rw [serialize_fresh h12, if_pos hne, copyAt, if_neg]
  simp only [List.length_append, length_be64, length_be32, List.length_replicate]
  -- the end is behind the slot or, wrapped around, before the data
  omega

/-- Whatever is stored in a fresh slot is the entry. -/
theorem serialize_eq_some {slot : ℕ} {info : BlockInfo} {bytes : List UInt8} (h12 : 12 ≤ slot)
    (h : serialize info (List.replicate slot 0) = some bytes) : bytes = entryBytes slot info := by
  by_cases hfit : 12 + dataSize info ≤ slot
  · rw [serialize_fresh h12] at h
    by_cases hne : 0 < info.size ∧ 0 < info.data.length
    · rw [if_pos hne] at h
      by_cases hw : 12 + dataSize info < 2 ^ 32
      · rw [Nat.mod_eq_of_lt hw, copyAt_data (by simp) (dataSize_le_length info) hfit] at h
        exact (Option.some.inj h).symm
      · have hsize := dataSize_le_size info
        have hlt := info.size.toNat_lt
        rw [copyAt, if_neg (by omega)] at h
        cases h
    · rw [if_neg hne] at h
      cases h
      simp [entryBytes, dataSize_eq_zero hne, padTake]
  · rw [serialize_of_large h12 (Nat.not_le.mp hfit)] at h
    cases h

/-- What a slot is cleared with. -/
theorem serialize_invalidInfo {slot : ℕ} (h : 12 ≤ slot) :
    serialize invalidInfo (List.replicate slot 0) = some (entryBytes slot invalidInfo) := by
  have h12 : 12 + invalidInfo.size.toNat ≤ slot := h
  rw [serialize_replicate h12]
  rfl

theorem deserialize_entryBytes {slot : ℕ} {info : BlockInfo} (h : 12 + info.size.toNat ≤ slot) :
    deserialize (entryBytes slot info) =
      if 12 + info.size.toNat < 2 ^ 32 then some (readBack info) else none := by
  have h₁ : slice (entryBytes slot info) 0 8 = some (be64 info.offset) := by
    simpa [entryBytes] using slice_append_middle [] (be64 info.offset)
      (be32 info.size ++ padTake (slot - 12) 0 (info.data.take (dataSize info)))
  have h₂ : slice (entryBytes slot info) 8 12 = some (be32 info.size) := by
    simpa [entryBytes] using slice_append_middle (be64 info.offset) (be32 info.size)
      (padTake (slot - 12) 0 (info.data.take (dataSize info)))
  rw [deserialize, h₁, Option.bind_eq_bind, Option.bind_some, h₂, Option.bind_some]
  simp only [ofNat_beNat_be64, ofNat_beNat_be32]
  have h12 : (12 : UInt32).toNat = 12 := rfl
  by_cases h0 : 0 < info.size
  · rw [if_pos h0, UInt32.toNat_add, h12]
    by_cases hw : 12 + info.size.toNat < 2 ^ 32
    · have h₃ : slice (entryBytes slot info) 12 (12 + info.size.toNat) =
          some (padTake info.size.toNat 0 (info.data.take (dataSize info))) := by
        rw [← take_padTake (show info.size.toNat ≤ slot - 12 by omega)]
        simpa [entryBytes] using slice_append_right (a := be64 info.offset ++ be32 info.size)
          (b := padTake (slot - 12) 0 (info.data.take (dataSize info)))
          (n := info.size.toNat) (by simp; omega)
      rw [if_pos hw, Nat.mod_eq_of_lt hw, h₃, Option.bind_some, readBack, padTake_padTake]
    · have := info.size.toNat_lt
      rw [if_neg hw, slice, if_neg (by omega), Option.bind_none]
  · have hz : info.size = 0 := by
      simpa [UInt32.pos_iff_ne_zero] using h0
    rw [if_neg h0, if_pos (by simp [hz])]
    simp [readBack, hz, padTake]

/-- An entry that can be decoded has as many bytes as its size says. -/
theorem length_data_of_deserialize {buffer : List UInt8} {info : BlockInfo}
    (h : deserialize buffer = some info) : info.data.length = info.size.toNat := by
  rw [deserialize] at h
  obtain ⟨offset, -, h⟩ := Option.bind_eq_some_iff.mp h
  obtain ⟨size, -, h⟩ := Option.bind_eq_some_iff.mp h
  simp only at h
  split at h
  · obtain ⟨data, -, h⟩ := Option.bind_eq_some_iff.mp h
    cases h
    simp
  · rename_i h0
    cases h
    have : UInt32.ofNat (beNat size) = 0 := by simpa [UInt32.pos_iff_ne_zero] using h0
    simp [this]

/-! ### Sections -/

namespace Section

/-- Slots that can hold an entry, inside bytes `lo` to `hi` of a device. -/
structure Within (s : Section) (lo hi : ℕ) : Prop where
  slot_ge : 12 ≤ s.slot
  lo_le : lo ≤ s.start
  le_hi : s.start + s.count * s.slot ≤ hi
  hi_lt : hi < 2 ^ 63

/-- What slot `i` holds. -/
def bytesAt (s : Section) (d : Device) (i : ℕ) : List UInt8 :=
  d.bytes.read (s.start + i * s.slot) s.slot

/-- The entry in slot `i`; `none` where decoding it panics. -/
def entryAt (s : Section) (d : Device) (i : ℕ) : Option BlockInfo := deserialize (s.bytesAt d i)

/-- The section holds the entries of `l`, and behind them free slots. -/
def Holds (s : Section) (d : Device) (l : List BlockInfo) : Prop :=
  ∀ i < s.count, s.bytesAt d i = entryBytes s.slot (l.getD i invalidInfo)

/-- Slot `n` is the first whose entry is not valid, and those before it can be decoded. -/
def Found (s : Section) (d : Device) (n : ℕ) : Prop :=
  n < s.count ∧ (∀ i < n, ∃ info, s.entryAt d i = some info ∧ info.isValid) ∧
    ∃ info, s.entryAt d n = some info ∧ info.isValid = false

/-- The slots from `n` on are free. -/
def FreeFrom (s : Section) (d : Device) (n : ℕ) : Prop :=
  ∀ i < s.count, n ≤ i → s.bytesAt d i = entryBytes s.slot invalidInfo

variable {s : Section} {lo hi : ℕ}

theorem slot_le (s : Section) {i : ℕ} (hi : i < s.count) :
    s.start + i * s.slot + s.slot ≤ s.start + s.count * s.slot := by
  have := Nat.mul_le_mul_right s.slot (Nat.succ_le_of_lt hi)
  rw [Nat.succ_mul] at this
  omega

theorem Within.offset_eq (h : s.Within lo hi) {i : ℕ} (hi : i < s.count) :
    s.offset i = s.start + i * s.slot := by
  have h₁ := s.slot_le hi
  have h₂ := h.le_hi
  have h₃ := h.hi_lt
  exact Nat.mod_eq_of_lt (by omega)

/-- Slots are apart. -/
theorem slot_apart (s : Section) {i k : ℕ} (h : i ≠ k) :
    s.start + i * s.slot + s.slot ≤ s.start + k * s.slot ∨
      s.start + k * s.slot + s.slot ≤ s.start + i * s.slot := by
  rcases Nat.lt_or_gt_of_ne h with hlt | hlt
  · have := Nat.mul_le_mul_right s.slot (Nat.succ_le_of_lt hlt)
    rw [Nat.succ_mul] at this
    omega
  · have := Nat.mul_le_mul_right s.slot (Nat.succ_le_of_lt hlt)
    rw [Nat.succ_mul] at this
    omega

theorem bytesAt_store_self {d : Device} {i : ℕ} {data : List UInt8} (hlen : data.length = s.slot)
    (hfit : s.start + i * s.slot + s.slot ≤ d.size) :
    s.bytesAt (d.store (s.start + i * s.slot) data) i = data := by
  have := d.read_store (s.start + i * s.slot) (show _ + data.length ≤ d.size by omega)
  rwa [hlen] at this

theorem bytesAt_store_ne {d : Device} {i k : ℕ} {data : List UInt8} (hlen : data.length = s.slot)
    (hne : k ≠ i) : s.bytesAt (d.store (s.start + i * s.slot) data) k = s.bytesAt d k := by
  refine (d.frame_store _ data).read ?_
  rw [hlen]
  exact s.slot_apart hne

/-- A section does not notice what changes outside it. -/
theorem bytesAt_frame {d d' : Device} {a b i : ℕ} (hw : s.Within lo hi)
    (hf : Device.Frame a b d d') (hab : b ≤ lo ∨ hi ≤ a) (hi : i < s.count) :
    s.bytesAt d' i = s.bytesAt d i := by
  have h₁ := s.slot_le hi
  have h₂ := hw.le_hi
  have h₃ := hw.lo_le
  exact hf.read (by omega)

theorem Holds.frame {d d' : Device} {l : List BlockInfo} {a b : ℕ} (h : s.Holds d l)
    (hw : s.Within lo hi) (hf : Device.Frame a b d d') (hab : b ≤ lo ∨ hi ≤ a) : s.Holds d' l :=
  fun i hi => (bytesAt_frame hw hf hab hi).trans (h i hi)

theorem FreeFrom.frame {d d' : Device} {n a b : ℕ} (h : s.FreeFrom d n) (hw : s.Within lo hi)
    (hf : Device.Frame a b d d') (hab : b ≤ lo ∨ hi ≤ a) : s.FreeFrom d' n :=
  fun i hi hn => (bytesAt_frame hw hf hab hi).trans (h i hi hn)

/-- What is found depends on the slots only. -/
theorem Found.congr {d d' : Device} {n : ℕ} (h : s.Found d n)
    (hb : ∀ i < s.count, s.bytesAt d' i = s.bytesAt d i) : s.Found d' n := by
  obtain ⟨hn, hall, hlast⟩ := h
  refine ⟨hn, fun i hi => ?_, ?_⟩
  · rw [entryAt, hb i (hi.trans hn)]
    exact hall i hi
  · rw [entryAt, hb n hn]
    exact hlast

theorem Holds.freeFrom {d : Device} {l : List BlockInfo} (h : s.Holds d l) :
    s.FreeFrom d l.length := by
  intro i hi hn
  rw [h i hi, List.getD_eq_default _ _ hn]

/-- One more entry, in the first free slot. -/
theorem Holds.snoc {d : Device} {l : List BlockInfo} (h : s.Holds d l) (hs : s.Within lo d.size)
    (e : BlockInfo) :
    s.Holds (d.store (s.start + l.length * s.slot) (entryBytes s.slot e)) (l ++ [e]) := by
  have hel := length_entryBytes hs.slot_ge e
  intro i hi
  rcases eq_or_ne i l.length with rfl | hne
  · rw [bytesAt_store_self hel ((s.slot_le hi).trans hs.le_hi)]
    simp
  · rw [bytesAt_store_ne hel hne, h i hi]
    rcases Nat.lt_or_gt_of_ne hne with hlt | hgt
    · rw [List.getD_append _ _ _ _ hlt]
    · rw [List.getD_eq_default l _ hgt.le, List.getD_eq_default (l ++ [e]) _ (by simp; omega)]

/-- The first free slot behind the entries, if there is one. -/
theorem Holds.found {d : Device} {l : List BlockInfo} (hl : s.Holds d l) (hs : s.Within lo hi)
    (hr : ∀ w ∈ l, w.isValid ∧ 12 + w.size.toNat ≤ s.slot ∧ 12 + w.size.toNat < 2 ^ 32)
    (hlen : l.length < s.count) : s.Found d l.length := by
  refine ⟨hlen, fun i hi => ?_, invalidInfo, ?_, rfl⟩
  · obtain ⟨hv, hfit, hw⟩ := hr l[i] (List.getElem_mem hi)
    refine ⟨readBack l[i], ?_, hv⟩
    rw [entryAt, hl i (hi.trans hlen), List.getD_eq_getElem l invalidInfo hi,
      deserialize_entryBytes hfit, if_pos hw]
  · have h12 : 12 + invalidInfo.size.toNat ≤ s.slot := hs.slot_ge
    rw [entryAt, hl.freeFrom l.length hlen le_rfl, deserialize_entryBytes h12]
    rfl

/-- What is free behind a slot stays so when the slot is written. -/
theorem FreeFrom.store {d : Device} {n : ℕ} (h : s.FreeFrom d n) (hs : 12 ≤ s.slot)
    (e : BlockInfo) :
    s.FreeFrom (d.store (s.start + n * s.slot) (entryBytes s.slot e)) (n + 1) := by
  intro i hi hn
  rw [bytesAt_store_ne (length_entryBytes hs e) (by omega)]
  exact h i hi (by omega)

theorem frame_store {d : Device} {i : ℕ} (hs : 12 ≤ s.slot) (hi : i < s.count) (e : BlockInfo) :
    Device.Frame s.start (s.start + s.count * s.slot) d
      (d.store (s.start + i * s.slot) (entryBytes s.slot e)) := by
  refine (d.frame_store _ _).mono (Nat.le_add_right _ _) ?_
  rw [length_entryBytes hs]
  exact s.slot_le hi

end Section

/-! ### Operations on slots -/

section Operations
variable {j : Journal} {s : Section} {lo : ℕ}

theorem diskWriteAt_apply {off : ℕ} {data : List UInt8} (hp : j.disk.plan = [])
    (h : off + data.length ≤ j.disk.size) :
    diskWriteAt off data j = .ok () { j with disk := j.disk.store off data } := by
  rw [diskWriteAt, Device.writeAt_of_le hp h]

theorem diskReadAt_apply {off len : ℕ} (h : off + len ≤ j.disk.size) :
    diskReadAt off len j = .ok (j.disk.bytes.read off len) j := by
  rw [diskReadAt, Device.readAt_of_le h]

theorem writeSlot_apply {i : ℕ} {info : BlockInfo} (hs : s.Within lo j.disk.size)
    (hp : j.disk.plan = []) (hi : i < s.count) (hfit : 12 + info.size.toNat ≤ s.slot) :
    writeSlot s i info j =
      if 12 + dataSize info < 2 ^ 32 then
        .ok () { j with disk := j.disk.store (s.start + i * s.slot) (entryBytes s.slot info) }
      else .error .panic j := by
  have hw : s.start + i * s.slot + (entryBytes s.slot info).length ≤ j.disk.size := by
    rw [length_entryBytes hs.slot_ge]
    exact (s.slot_le hi).trans hs.le_hi
  rw [writeSlot, if_neg (Nat.not_le.mpr hi), serialize_replicate hfit, hs.offset_eq hi]
  by_cases h : 12 + dataSize info < 2 ^ 32
  · rw [if_pos h, if_pos h]
    exact diskWriteAt_apply hp hw
  · rw [if_neg h, if_neg h]
    rfl

/-- An entry is stored in its slot, or there is a panic and nothing is. -/
theorem writeSlot_stores {i : ℕ} {info : BlockInfo} (hs : s.Within lo j.disk.size)
    (hp : j.disk.plan = []) (hi : i < s.count) :
    Ends (writeSlot s i info) j
      (fun _ j' => j' =
        { j with disk := j.disk.store (s.start + i * s.slot) (entryBytes s.slot info) })
      fun e j' => e = .panic ∧ j' = j := by
  cases hser : serialize info (List.replicate s.slot 0) with
  | none =>
      have hpanic : writeSlot s i info j = .error .panic j := by
        rw [writeSlot, if_neg (Nat.not_le.mpr hi), hser]
        rfl
      rw [Ends, hpanic]
      exact ⟨rfl, rfl⟩
  | some bytes =>
      obtain rfl := serialize_eq_some hs.slot_ge hser
      have hfit : s.start + i * s.slot + (entryBytes s.slot info).length ≤ j.disk.size := by
        rw [length_entryBytes hs.slot_ge]
        exact (s.slot_le hi).trans hs.le_hi
      have hok : writeSlot s i info j = .ok ()
          { j with disk := j.disk.store (s.start + i * s.slot) (entryBytes s.slot info) } := by
        rw [writeSlot, if_neg (Nat.not_le.mpr hi), hser, hs.offset_eq hi]
        exact diskWriteAt_apply hp hfit
      rw [Ends, hok]

theorem writeSlot_eq_ok {i : ℕ} {info : BlockInfo} {j' : Journal} (hs : s.Within lo j.disk.size)
    (hp : j.disk.plan = []) (hi : i < s.count) (h : writeSlot s i info j = .ok () j') :
    j' = { j with disk := j.disk.store (s.start + i * s.slot) (entryBytes s.slot info) } := by
  have hw : Ends (writeSlot s i info) j _ _ := writeSlot_stores hs hp hi
  rwa [Ends, h] at hw

/-- A slot the section does not have is refused. -/
theorem writeSlot_of_full {i : ℕ} {info : BlockInfo} (hi : s.count ≤ i) :
    writeSlot s i info j = .error (.err .invalidSize) j := by
  rw [writeSlot, if_pos hi]
  rfl

/-- An entry written behind those the section holds, if the end of its data does not wrap
around. -/
theorem writeSlot_ends {l : List BlockInfo} {info : BlockInfo} (hs : s.Within lo j.disk.size)
    (hp : j.disk.plan = []) (hl : s.Holds j.disk l) (hroom : l.length < s.count)
    (hfit : 12 + info.size.toNat ≤ s.slot) :
    Ends (writeSlot s l.length info) j
      (fun _ j' => ∃ d, j' = { j with disk := d } ∧ s.Holds d (l ++ [info]) ∧
        Device.Frame s.start (s.start + s.count * s.slot) j.disk d)
      fun _ _ => ¬ 12 + dataSize info < 2 ^ 32 := by
  rw [Ends, writeSlot_apply hs hp hroom hfit]
  by_cases h : 12 + dataSize info < 2 ^ 32
  · rw [if_pos h]
    exact ⟨_, rfl, hl.snoc hs info, Section.frame_store hs.slot_ge hroom info⟩
  · rw [if_neg h]
    exact h

theorem readSlot_apply {i : ℕ} (hs : s.Within lo j.disk.size) (hi : i < s.count) :
    readSlot s i j = orPanic (deserialize (s.bytesAt j.disk i)) j := by
  rw [readSlot, if_neg (Nat.not_le.mpr hi), hs.offset_eq hi]
  exact bind_of_ok (diskReadAt_apply ((s.slot_le hi).trans hs.le_hi))

/-- A slot that holds an entry gives it back, unless the end of its data wraps around. -/
theorem readSlot_of_bytesAt {i : ℕ} {info : BlockInfo} (hs : s.Within lo j.disk.size)
    (hi : i < s.count) (hfit : 12 + info.size.toNat ≤ s.slot)
    (h : s.bytesAt j.disk i = entryBytes s.slot info) :
    readSlot s i j = orPanic (if 12 + info.size.toNat < 2 ^ 32 then some (readBack info) else none)
      j := by
  rw [readSlot_apply hs hi, h, deserialize_entryBytes hfit]

theorem clearSlots_eq (hs : 12 ≤ s.slot) (n : ℕ) :
    clearSlots s n j = (List.range n).forM
      (fun i => diskWriteAt (s.offset i) (entryBytes s.slot invalidInfo)) j := by
  rw [clearSlots, serialize_invalidInfo hs]
  rfl

/-- Clearing touches the cleared slots only. -/
theorem clearSlots_succeeds {n : ℕ} (hs : s.Within lo j.disk.size) (hp : j.disk.plan = [])
    (hn : n ≤ s.count) :
    Succeeds (clearSlots s n) j fun _ j' => ∃ d, j' = { j with disk := d } ∧
      Device.Frame s.start (s.start + s.count * s.slot) j.disk d ∧
      ∀ i, s.bytesAt d i = if i < n then entryBytes s.slot invalidInfo else s.bytesAt j.disk i := by
  have hlen := length_entryBytes hs.slot_ge invalidInfo
  rw [Succeeds, Ends, clearSlots_eq hs.slot_ge]
  refine Ends.forM_range (I := fun k j' => ∃ d, j' = { j with disk := d } ∧
    Device.Frame s.start (s.start + s.count * s.slot) j.disk d ∧
    ∀ i, s.bytesAt d i = if i < k then entryBytes s.slot invalidInfo else s.bytesAt j.disk i)
    n ⟨j.disk, rfl, .refl .., fun i => by simp⟩ ?_
  rintro k _ hk ⟨d, rfl, hf, hd⟩
  have hle := s.slot_le (hk.trans_le hn)
  have hfit : s.start + k * s.slot + s.slot ≤ d.size := hf.size ▸ hle.trans hs.le_hi
  rw [Ends, hs.offset_eq (hk.trans_le hn), diskWriteAt_apply (hf.plan.trans hp) (by rwa [hlen])]
  refine ⟨_, rfl, hf.trans ((d.frame_store _ _).mono (by omega) (by omega)), fun i => ?_⟩
  rcases eq_or_ne i k with rfl | hne
  · rw [if_pos (Nat.lt_succ_self i)]
    exact Section.bytesAt_store_self hlen hfit
  · have hlt : i < k + 1 ↔ i < k := by omega
    simp only [hlt]
    exact (Section.bytesAt_store_ne hlen hne).trans (hd i)

/-- What `readSlot` has done when it returns. -/
theorem readSlot_eq_ok_iff {i : ℕ} {info : BlockInfo} {j' : Journal} :
    readSlot s i j = .ok info j' ↔ j' = j ∧ i < s.count ∧
      ∃ data, j.disk.readAt (s.offset i) s.slot = some data ∧ deserialize data = some info := by
  rw [readSlot]
  by_cases hi : s.count ≤ i
  · rw [if_pos hi]
    constructor
    · rintro ⟨⟩
    · rintro ⟨-, hlt, -⟩
      omega
  · rw [if_neg hi]
    constructor
    · intro h
      obtain ⟨data, j₁, hr, h'⟩ := bind_eq_ok.mp h
      rw [diskReadAt] at hr
      split at hr
      · rename_i bs hbs
        cases hr
        cases hd : deserialize data with
        | none => rw [hd] at h'; cases h'
        | some a => rw [hd] at h'; cases h'; exact ⟨rfl, Nat.not_le.mp hi, data, hbs, hd⟩
      · cases hr
    · rintro ⟨rfl, -, data, hr, hd⟩
      have hread : diskReadAt (s.offset i) s.slot j' = .ok data j' := by rw [diskReadAt, hr]
      refine (bind_of_ok hread).trans ?_
      rw [hd]
      rfl

theorem readSlot_eq_ok {i : ℕ} {info : BlockInfo} {j' : Journal}
    (h : readSlot s i j = .ok info j') : j' = j := (readSlot_eq_ok_iff.mp h).1

/-- The search returns one of the slots it was given and changes nothing. -/
theorem firstAvailable_eq_ok {e : Error} {is : List ℕ} {i : ℕ} {j' : Journal}
    (h : firstAvailable s e is j = .ok i j') : i ∈ is ∧ j' = j := by
  induction is with
  | nil => cases h
  | cons k is ih =>
      obtain ⟨info, j₁, hr, h'⟩ := bind_eq_ok.mp h
      obtain rfl := readSlot_eq_ok hr
      split at h'
      · exact ⟨List.mem_cons_of_mem k (ih h').1, (ih h').2⟩
      · cases h'
        exact ⟨List.mem_cons_self, rfl⟩

theorem firstAvailable_from {e : Error} (hs : s.Within lo j.disk.size) {n : ℕ} (m k : ℕ)
    (hm : k + m = s.count) :
    firstAvailable s e (List.range' k m) j = .ok n j ↔ k ≤ n ∧ n < s.count ∧
      (∀ i, k ≤ i → i < n → ∃ info, s.entryAt j.disk i = some info ∧ info.isValid) ∧
      ∃ info, s.entryAt j.disk n = some info ∧ info.isValid = false := by
  induction m generalizing k with
  | zero =>
      constructor
      · rintro ⟨⟩
      · rintro ⟨hk, hn, -⟩
        omega
  | succ m ih =>
      have hread : readSlot s k j = orPanic (s.entryAt j.disk k) j := readSlot_apply hs (by omega)
      rw [List.range'_succ, firstAvailable]
      cases hk : s.entryAt j.disk k with
      | none =>
          rw [hk] at hread
          rw [bind_of_error hread]
          constructor
          · rintro ⟨⟩
          · rintro ⟨hkn, -, hall, info, hinfo, -⟩
            rcases Nat.lt_or_eq_of_le hkn with hlt | rfl
            · obtain ⟨_, h, -⟩ := hall k le_rfl hlt
              rw [hk] at h
              cases h
            · rw [hk] at hinfo
              cases hinfo
      | some info =>
          rw [hk] at hread
          rw [bind_of_ok hread]
          cases hv : info.isValid with
          | true =>
              -- a valid entry: the search goes on behind it
              rw [if_pos rfl, ih (k + 1) (by omega)]
              constructor
              · rintro ⟨hkn, hn, hall, hinfo⟩
                refine ⟨by omega, hn, fun i hi hin => ?_, hinfo⟩
                rcases Nat.lt_or_eq_of_le hi with hlt | rfl
                · exact hall i hlt hin
                · exact ⟨info, hk, hv⟩
              · rintro ⟨hkn, hn, hall, info', hinfo', hv'⟩
                have hne : k ≠ n := by
                  rintro rfl
                  rw [hk] at hinfo'
                  cases hinfo'
                  rw [hv] at hv'
                  cases hv'
                exact ⟨by omega, hn, fun i hi hin => hall i (by omega) hin, info', hinfo', hv'⟩
          | false =>
              rw [if_neg (by decide)]
              constructor
              · rintro ⟨⟩
                exact ⟨le_rfl, by omega, fun i hi hin => absurd hin (Nat.not_lt.mpr hi), info, hk,
                  hv⟩
              · rintro ⟨hkn, -, hall, -⟩
                rcases Nat.lt_or_eq_of_le hkn with hlt | rfl
                · obtain ⟨_, h, h'⟩ := hall k le_rfl hlt
                  rw [hk] at h
                  cases h
                  rw [hv] at h'
                  cases h'
                · rfl

/-- **What the search finds**: the first slot whose entry is not valid, all slots before it being
readable. -/
theorem firstAvailable_iff {e : Error} (hs : s.Within lo j.disk.size) {n : ℕ} :
    firstAvailable s e (List.range s.count) j = .ok n j ↔ s.Found j.disk n := by
  rw [List.range_eq_range', firstAvailable_from hs s.count 0 (Nat.zero_add _), Section.Found]
  simp

end Operations

end Bdr.Journal
