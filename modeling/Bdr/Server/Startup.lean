import Bdr.Server.BoundedReset
import Bdr.Server.Replay

/-!
# Server — Startup

What `CheckJournal` does with whatever it finds on the journal device.  `OpenJournal` checks the
magic and nothing else: the slot sizes, the counts and the start offsets that drive its search, and
the `Size` of every entry it looks at, are taken as they are read.  `openDemands` are the buffers
it makes and the bounds `12+Size` it computes on the way.

Opening returns a journal or an error, without a demand that cannot be met, just when the slots that
are looked at can hold what they say they hold (`Readable`, `checkJournal_ends_iff`).  A header
written over slots that nobody has cleared is enough to make it panic.
-/

namespace Bdr.Journal

/-- What decoding asks for. -/
inductive Demand where
  | make (len : ℕ)
  | bound (size : UInt32)
  deriving DecidableEq, Repr

/-- A buffer is no larger than the device, and a bound does not wrap around. -/
def Demand.Met (diskSize : ℕ) : Demand → Prop
  | .make len => len ≤ diskSize
  | .bound size => 12 + size.toNat < 2 ^ 32

/-- The `Size` an encoded entry has. -/
def sizeField (buffer : List UInt8) : UInt32 := UInt32.ofNat (beNat ((buffer.drop 8).take 4))

/-- The demands of `deserialize`, once it has got the size. -/
def deserializeDemands (buffer : List UInt8) : List Demand :=
  if buffer.length < 12 then []
  else
    let size := sizeField buffer
    if 0 < size then [.make size.toNat, .bound size] else []

def readSlotDemands (s : Section) (index : ℕ) (j : Journal) : List Demand :=
  if s.count ≤ index then []
  else
    .make s.slot ::
      match j.disk.readAt (s.offset index) s.slot with
      | some data => deserializeDemands data
      | none => []

def firstAvailableDemands (s : Section) (j : Journal) : List ℕ → List Demand
  | [] => []
  | i :: rest =>
      readSlotDemands s i j ++
        match readSlot s i j with
        | .ok info _ => if info.isValid then firstAvailableDemands s j rest else []
        | .error _ _ => []

/-- The demands of `openJournal`. -/
def openDemands (disk : Device) : List Demand :=
  .make getHeaderByteSize.toNat ::
    match readHeader disk with
    | .error _ => []
    | .ok header =>
        if !verifyMagic header.magic then []
        else
          let j : Journal := ⟨disk, 0, 0, header⟩
          firstAvailableDemands header.bufWrites j (List.range header.bufWrites.count) ++
            match findFirstAvailableBufferWrite j with
            | .ok _ _ => firstAvailableDemands header.corrBlocks j
                (List.range header.corrBlocks.count)
            | .error _ _ => []

/-- Opening returns a journal or an error, and asks for nothing it should not. -/
def Opens (disk : Device) : Prop :=
  ((∃ j, openJournal disk = .ok j) ∨ ∃ e, openJournal disk = .error (.err e)) ∧
    ∀ x ∈ openDemands disk, x.Met disk.size

/-- The search gets to slot `i`: those before it have been read, and are not free. -/
def Section.Reached (s : Section) (d : Device) (i : ℕ) : Prop :=
  ∀ k < i, ∃ data, d.readAt (s.offset k) s.slot = some data ∧ sizeField data ≠ 0

/-- What is read of a slot is an entry that ends inside it. -/
def Section.Fits (s : Section) (data : List UInt8) : Prop :=
  12 + (sizeField data).toNat ≤ s.slot ∧ 12 + (sizeField data).toNat < 2 ^ 32

/-- The slots are no larger than the device, and those the search gets to, if they are on the
device, hold entries that end inside them. -/
structure Section.Decodable (s : Section) (d : Device) : Prop where
  slot_le : s.slot ≤ d.size
  fits : ∀ i < s.count, s.Reached d i → ∀ data, d.readAt (s.offset i) s.slot = some data →
    s.Fits data

/-- The search comes to a free slot. -/
def Section.HasFree (s : Section) (d : Device) : Prop :=
  ∃ i < s.count, s.Reached d i ∧
    ∃ data, d.readAt (s.offset i) s.slot = some data ∧ sizeField data = 0

/-- There is room for a header and, if it has the magic, the slots can be decoded: those for buffer
writes and, if one of them is free, those for correct blocks. -/
structure Readable (d : Device) : Prop where
  header_le : getHeaderByteSize.toNat ≤ d.size
  bufWrites : ∀ h, readHeader d = .ok h → h.magic = bdrMagic →
    0 < h.bufWrites.count → h.bufWrites.Decodable d
  corrBlocks : ∀ h, readHeader d = .ok h → h.magic = bdrMagic → h.bufWrites.HasFree d →
    0 < h.corrBlocks.count → h.corrBlocks.Decodable d

/-! ### One slot -/

/-- An entry that ends inside its buffer is decoded. -/
theorem deserialize_of_fits {buffer : List UInt8}
    (hfit : 12 + (sizeField buffer).toNat ≤ buffer.length)
    (hwrap : 12 + (sizeField buffer).toNat < 2 ^ 32) :
    ∃ info, deserialize buffer = some info ∧ info.size = sizeField buffer := by
  have h₁ : slice buffer 0 8 = some (buffer.take 8) := by
    rw [slice, if_pos ⟨by omega, by omega⟩, List.drop_zero]
  have h₂ : slice buffer 8 12 = some ((buffer.drop 8).take 4) := by
    rw [slice, if_pos ⟨by omega, by omega⟩]
  have h₃ : (12 + sizeField buffer).toNat = 12 + (sizeField buffer).toNat := by
    rw [UInt32.toNat_add]
    exact Nat.mod_eq_of_lt hwrap
  have h₄ : slice buffer 12 (12 + sizeField buffer).toNat =
      some ((buffer.drop 12).take (sizeField buffer).toNat) := by
    rw [h₃, slice, if_pos ⟨by omega, hfit⟩, Nat.add_sub_cancel_left]
  rw [deserialize, h₁, Option.bind_eq_bind, Option.bind_some, h₂, Option.bind_some]
  show ∃ info, (if 0 < sizeField buffer then _ else _) = some info ∧ _
  by_cases h0 : 0 < sizeField buffer
  · rw [if_pos h0]
    exact ⟨_, by rw [show UInt32.ofNat _ = sizeField buffer from rfl, h₄]; rfl, rfl⟩
  · rw [if_neg h0]
    exact ⟨_, rfl, rfl⟩

/-- Only an entry that ends inside its buffer is decoded. -/
theorem fits_of_deserialize {buffer : List UInt8} {info : BlockInfo}
    (h : deserialize buffer = some info) (hwrap : 12 + (sizeField buffer).toNat < 2 ^ 32) :
    12 + (sizeField buffer).toNat ≤ buffer.length := by
  have h12 : (12 + sizeField buffer).toNat = 12 + (sizeField buffer).toNat := by
    rw [UInt32.toNat_add]
    exact Nat.mod_eq_of_lt hwrap
  rw [deserialize] at h
  obtain ⟨offset, -, h⟩ := Option.bind_eq_some_iff.mp h
  obtain ⟨size, hsize, h⟩ := Option.bind_eq_some_iff.mp h
  obtain ⟨⟨-, hlen⟩, rfl⟩ := slice_eq_some.mp hsize
  change (if 0 < sizeField buffer then _ else _) = some info at h
  by_cases h0 : 0 < sizeField buffer
  · rw [if_pos h0] at h
    obtain ⟨data, hdata, -⟩ := Option.bind_eq_some_iff.mp h
    obtain ⟨⟨-, hle⟩, -⟩ := slice_eq_some.mp hdata
    change (12 + sizeField buffer).toNat ≤ _ at hle
    omega
  · have hz : (sizeField buffer).toNat = 0 := by
      simpa [UInt32.lt_iff_toNat_lt] using h0
    omega

section Slot
variable {s : Section} {j : Journal} {i : ℕ} {data : List UInt8}

theorem readSlot_of_readAt (hi : i < s.count)
    (hd : j.disk.readAt (s.offset i) s.slot = some data) :
    readSlot s i j = orPanic (deserialize data) j := by
  rw [readSlot, if_neg (Nat.not_le.mpr hi)]
  exact bind_of_ok (show diskReadAt (s.offset i) s.slot j = .ok data j by rw [diskReadAt, hd])

theorem readSlotDemands_of_readAt (hi : i < s.count)
    (hd : j.disk.readAt (s.offset i) s.slot = some data) :
    readSlotDemands s i j = .make s.slot :: deserializeDemands data := by
  rw [readSlotDemands, if_neg (Nat.not_le.mpr hi), hd]

/-- A slot behind the end of the device. -/
theorem readSlot_of_none (hi : i < s.count) (hd : j.disk.readAt (s.offset i) s.slot = none) :
    readSlot s i j = .error (.err .ioFailure) j ∧ readSlotDemands s i j = [.make s.slot] := by
  refine ⟨?_, by rw [readSlotDemands, if_neg (Nat.not_le.mpr hi), hd]⟩
  rw [readSlot, if_neg (Nat.not_le.mpr hi)]
  exact bind_of_error (by rw [diskReadAt, hd])

/-- An entry that ends inside its slot. -/
theorem readSlot_of_fits (hi : i < s.count) (hd : j.disk.readAt (s.offset i) s.slot = some data)
    (hf : s.Fits data) :
    (∃ info, readSlot s i j = .ok info j ∧ info.size = sizeField data) ∧
      ((∀ x ∈ readSlotDemands s i j, x.Met j.disk.size) ↔ s.slot ≤ j.disk.size) := by
  have hlen : data.length = s.slot := Device.length_of_readAt hd
  obtain ⟨hfit, hwrap⟩ := hf
  obtain ⟨info, hinfo, hsize⟩ := deserialize_of_fits (hlen ▸ hfit) hwrap
  refine ⟨⟨info, by rw [readSlot_of_readAt hi hd, hinfo]; rfl, hsize⟩, ?_⟩
  rw [readSlotDemands_of_readAt hi hd, List.forall_mem_cons, deserializeDemands,
    if_neg (by omega)]
  refine ⟨And.left, fun hslot => ⟨hslot, fun x hx => ?_⟩⟩
  by_cases h0 : 0 < sizeField data
  · simp only [if_pos h0, List.mem_cons, List.not_mem_nil, or_false] at hx
    rcases hx with rfl | rfl
    · exact (Nat.le_add_left _ 12).trans (hfit.trans hslot)
    · exact hwrap
  · simp only [if_neg h0, List.not_mem_nil] at hx

/-- An entry that does not end inside its slot makes decoding panic, or its bound wraps around. -/
theorem readSlot_of_not_fits (hi : i < s.count)
    (hd : j.disk.readAt (s.offset i) s.slot = some data) (hf : ¬ s.Fits data) :
    readSlot s i j = .error .panic j ∨ ∃ x ∈ readSlotDemands s i j, ¬ x.Met j.disk.size := by
  have hlen : data.length = s.slot := Device.length_of_readAt hd
  by_cases hwrap : 12 + (sizeField data).toNat < 2 ^ 32
  · left
    have hnone : deserialize data = none := by
      refine Option.eq_none_iff_forall_ne_some.mpr fun info h => hf ⟨?_, hwrap⟩
      rw [← hlen]
      exact fits_of_deserialize h hwrap
    rw [readSlot_of_readAt hi hd, hnone]
    rfl
  · by_cases h12 : data.length < 12
    · left
      have hnone : deserialize data = none := by
        refine Option.eq_none_iff_forall_ne_some.mpr fun info h => ?_
        rw [deserialize] at h
        obtain ⟨offset, -, h⟩ := Option.bind_eq_some_iff.mp h
        obtain ⟨size, hsize, -⟩ := Option.bind_eq_some_iff.mp h
        have := (slice_eq_some.mp hsize).1.2
        omega
      rw [readSlot_of_readAt hi hd, hnone]
      rfl
    · refine .inr ⟨.bound (sizeField data), ?_, hwrap⟩
      have h0 : 0 < sizeField data := UInt32.lt_iff_toNat_lt.mpr (by
        show 0 < (sizeField data).toNat
        omega)
      rw [readSlotDemands_of_readAt hi hd, deserializeDemands, if_neg h12]
      simp [h0]

end Slot

/-! ### The search -/

/-- The search returns a slot or an error, and asks for nothing it should not. -/
def Searched (s : Section) (e : Error) (j : Journal) (l : List ℕ) : Prop :=
  Ends (firstAvailable s e l) j (fun _ _ => True) (fun f _ => ∃ e', f = .err e') ∧
    ∀ x ∈ firstAvailableDemands s j l, x.Met j.disk.size

/-- What the search makes of slot `k`, with the slots of `l` still to come. -/
inductive Looked (s : Section) (e : Error) (j : Journal) (k : ℕ) (l : List ℕ) : Prop
  | behind (hread : j.disk.readAt (s.offset k) s.slot = none)
      (hfind : firstAvailable s e (k :: l) j = .error (.err .ioFailure) j)
      (hsearched : Searched s e j (k :: l) ↔ s.slot ≤ j.disk.size)
  | unfit {data : List UInt8} (hread : j.disk.readAt (s.offset k) s.slot = some data)
      (hfits : ¬ s.Fits data) (hsearched : ¬ Searched s e j (k :: l))
  | free {data : List UInt8} (hread : j.disk.readAt (s.offset k) s.slot = some data)
      (hfits : s.Fits data) (hsize : sizeField data = 0)
      (hfind : firstAvailable s e (k :: l) j = .ok k j)
      (hsearched : Searched s e j (k :: l) ↔ s.slot ≤ j.disk.size)
  | taken {data : List UInt8} (hread : j.disk.readAt (s.offset k) s.slot = some data)
      (hfits : s.Fits data) (hsize : sizeField data ≠ 0)
      (hfind : firstAvailable s e (k :: l) j = firstAvailable s e l j)
      (hsearched : Searched s e j (k :: l) ↔ s.slot ≤ j.disk.size ∧ Searched s e j l)

section Search
variable {s : Section} {j : Journal} {e : Error} {k : ℕ} {l : List ℕ}

theorem looked_of_none (hk : k < s.count) (hd : j.disk.readAt (s.offset k) s.slot = none) :
    Looked s e j k l := by
  obtain ⟨herr, hdem⟩ := readSlot_of_none hk hd
  have hfind : firstAvailable s e (k :: l) j = .error (.err .ioFailure) j := bind_of_error herr
  refine .behind hd hfind ?_
  rw [Searched, Ends, hfind, firstAvailableDemands, hdem, herr]
  simp [Demand.Met]

theorem looked_of_not_fits {data : List UInt8} (hk : k < s.count)
    (hd : j.disk.readAt (s.offset k) s.slot = some data) (hf : ¬ s.Fits data) :
    Looked s e j k l := by
  refine .unfit hd hf fun h => ?_
  obtain ⟨hends, hmet⟩ := h
  rcases readSlot_of_not_fits hk hd hf with hpanic | ⟨x, hx, hnot⟩
  · have hfind : firstAvailable s e (k :: l) j = .error .panic j := bind_of_error hpanic
    rw [Ends, hfind] at hends
    obtain ⟨e', he'⟩ := hends
    cases he'
  · exact hnot (hmet x (List.mem_append_left _ hx))

theorem looked_of_fits {data : List UInt8} (hk : k < s.count)
    (hd : j.disk.readAt (s.offset k) s.slot = some data) (hf : s.Fits data) :
    Looked s e j k l := by
  obtain ⟨⟨info, hok, hsize⟩, hdem⟩ := readSlot_of_fits hk hd hf
  have hfind : firstAvailable s e (k :: l) j =
      (if info.isValid then firstAvailable s e l else pure k) j := bind_of_ok hok
  have hvalid : info.isValid = true ↔ sizeField data ≠ 0 := by
    rw [← hsize]
    simp [BlockInfo.isValid]
  by_cases h0 : sizeField data = 0
  · have hv : ¬ info.isValid = true := fun h => hvalid.mp h h0
    rw [if_neg hv] at hfind
    refine .free hd hf h0 hfind ?_
    rw [Searched, Ends, hfind, firstAvailableDemands, hok, ← hdem]
    simp only [if_neg hv, List.append_nil]
    exact and_iff_right trivial
  · have hv := hvalid.mpr h0
    rw [if_pos hv] at hfind
    refine .taken hd hf h0 hfind ?_
    rw [Searched, Ends, hfind, firstAvailableDemands, hok, ← hdem, Searched, Ends]
    simp only [hv, if_true, List.forall_mem_append]
    exact and_left_comm

theorem looked (e : Error) (l : List ℕ) (hk : k < s.count) : Looked s e j k l := by
  cases hd : j.disk.readAt (s.offset k) s.slot with
  | none => exact looked_of_none hk hd
  | some data =>
      by_cases hf : s.Fits data
      · exact looked_of_fits hk hd hf
      · exact looked_of_not_fits hk hd hf

theorem Section.Reached.succ {d : Device} {data : List UInt8} (h : s.Reached d k)
    (hd : d.readAt (s.offset k) s.slot = some data) (hne : sizeField data ≠ 0) :
    s.Reached d (k + 1) := by
  intro i hi
  rcases Nat.lt_or_eq_of_le (Nat.le_of_lt_succ hi) with hlt | rfl
  · exact h i hlt
  · exact ⟨data, hd, hne⟩

/-- Nothing behind a slot that is free, or not on the device, is looked at. -/
theorem Section.Reached.le_of_stop {d : Device} {i : ℕ} (h : s.Reached d i)
    (hstop : ∀ data, d.readAt (s.offset k) s.slot = some data → sizeField data = 0) : i ≤ k := by
  by_contra hlt
  obtain ⟨data, hd, hne⟩ := h k (Nat.lt_of_not_le hlt)
  exact hne (hstop data hd)

/-- The search from slot `k` on, if it gets there. -/
theorem searched_iff (m k : ℕ) (hm : k + m = s.count) (hprev : s.Reached j.disk k) :
    Searched s e j (List.range' k m) ↔ (0 < m → s.slot ≤ j.disk.size) ∧
      ∀ i, k ≤ i → i < s.count → s.Reached j.disk i →
        ∀ data, j.disk.readAt (s.offset i) s.slot = some data → s.Fits data := by
  -- over the slots still to be looked at; those before `k` are taken
  induction m generalizing k with
  | zero =>
      refine iff_of_true ⟨⟨e, rfl⟩, by simp [firstAvailableDemands]⟩ ⟨by simp, fun i hk hi => ?_⟩
      omega
  | succ m ih =>
      rw [List.range'_succ]
      have hpos : (0 < m + 1 → s.slot ≤ j.disk.size) ↔ s.slot ≤ j.disk.size := by simp
      rw [hpos]
      have hk : k < s.count := by omega
      cases looked e (List.range' (k + 1) m) hk with
      | behind hread _ hsearched =>
          rw [hsearched]
          refine ⟨fun h => ⟨h, fun i hki _ hi data hd => ?_⟩, And.left⟩
          obtain rfl : i = k := (hi.le_of_stop fun _ h => by simp [hread] at h).antisymm hki
          simp [hread] at hd
      | unfit hread hfits hsearched =>
          exact iff_of_false hsearched fun h => hfits (h.2 k le_rfl hk hprev _ hread)
      | free hread hfits hsize _ hsearched =>
          rw [hsearched]
          refine ⟨fun h => ⟨h, fun i hki _ hi data hd => ?_⟩, And.left⟩
          have hle : i ≤ k := hi.le_of_stop fun data' h => by
            rw [hread] at h
            cases h
            exact hsize
          obtain rfl : i = k := hle.antisymm hki
          rw [hread] at hd
          cases hd
          exact hfits
      | taken hread hfits hsize _ hsearched =>
          rw [hsearched, ih (k + 1) (by omega) (hprev.succ hread hsize)]
          refine and_congr_right fun hslot => ⟨fun h i hki hi hreach data hd => ?_, fun h =>
            ⟨fun _ => hslot, fun i hki => h i (by omega)⟩⟩
          rcases Nat.lt_or_eq_of_le hki with hlt | rfl
          · exact h.2 i hlt hi hreach data hd
          · rw [hread] at hd
            cases hd
            exact hfits

/-- What a search that returns has found. -/
theorem found_iff (m k : ℕ) (hm : k + m = s.count) (hprev : s.Reached j.disk k)
    (hs : Searched s e j (List.range' k m)) :
    (∃ n, firstAvailable s e (List.range' k m) j = .ok n j) ↔ ∃ i, k ≤ i ∧ i < s.count ∧
      s.Reached j.disk i ∧
        ∃ data, j.disk.readAt (s.offset i) s.slot = some data ∧ sizeField data = 0 := by
  induction m generalizing k with
  | zero =>
      refine iff_of_false (by rintro ⟨n, ⟨⟩⟩) ?_
      rintro ⟨i, hk, hi, -⟩
      omega
  | succ m ih =>
      rw [List.range'_succ] at hs ⊢
      have hk : k < s.count := by omega
      cases looked e (List.range' (k + 1) m) hk with
      | behind hread hfind _ =>
          rw [hfind]
          refine iff_of_false (by rintro ⟨n, ⟨⟩⟩) ?_
          rintro ⟨i, hki, -, hi, data, hd, -⟩
          obtain rfl : i = k := (hi.le_of_stop fun _ h => by simp [hread] at h).antisymm hki
          simp [hread] at hd
      | unfit _ _ hsearched => exact absurd hs hsearched
      | free hread _ hsize hfind _ =>
          exact iff_of_true ⟨k, hfind⟩ ⟨k, le_rfl, hk, hprev, _, hread, hsize⟩
      | taken hread _ hsize hfind hsearched =>
          rw [hfind, ih (k + 1) (by omega) (hprev.succ hread hsize) (hsearched.mp hs).2]
          refine ⟨fun ⟨i, hki, h⟩ => ⟨i, by omega, h⟩, ?_⟩
          rintro ⟨i, hki, hi, hreach, data, hd, h0⟩
          rcases Nat.lt_or_eq_of_le hki with hlt | rfl
          · exact ⟨i, hlt, hi, hreach, data, hd, h0⟩
          · rw [hread] at hd
            cases hd
            exact absurd h0 hsize

/-- The search of a section returns just when what it looks at can be decoded. -/
theorem searched_iff_decodable :
    Searched s e j (List.range s.count) ↔ (0 < s.count → s.Decodable j.disk) := by
  rw [List.range_eq_range', searched_iff s.count 0 (Nat.zero_add _) (by rintro i ⟨⟩)]
  constructor
  · rintro ⟨hslot, hfits⟩ h0
    exact ⟨hslot h0, fun i => hfits i (Nat.zero_le i)⟩
  · intro h
    exact ⟨fun h0 => (h h0).slot_le, fun i _ hi => (h (by omega)).fits i hi⟩

theorem found_iff_hasFree (hs : Searched s e j (List.range s.count)) :
    (∃ n, firstAvailable s e (List.range s.count) j = .ok n j) ↔ s.HasFree j.disk := by
  rw [List.range_eq_range'] at hs ⊢
  rw [found_iff s.count 0 (Nat.zero_add _) (by rintro i ⟨⟩) hs]
  simp [Section.HasFree]

end Search

/-- The slots the search has passed have been read. -/
theorem readSlot_of_firstAvailable {s : Section} {j j' : Journal} {e : Error} {n : ℕ} (m k : ℕ)
    (h : firstAvailable s e (List.range' k m) j = .ok n j') :
    ∀ i, k ≤ i → i < n → ∃ info, readSlot s i j = .ok info j := by
  induction m generalizing k with
  | zero => cases h
  | succ m ih =>
      intro i hki hin
      rw [List.range'_succ, firstAvailable] at h
      obtain ⟨info, j₁, hr, h'⟩ := bind_eq_ok.mp h
      obtain rfl := readSlot_eq_ok hr
      split at h'
      · rcases Nat.lt_or_eq_of_le hki with hlt | rfl
        · exact ih (k + 1) h' i hlt hin
        · exact ⟨info, hr⟩
      · cases h'
        exact absurd hin (Nat.not_lt.mpr hki)

/-- What is read depends on the device. -/
theorem readSlot_congr {s : Section} {i : ℕ} {info : BlockInfo} {j j₁ : Journal}
    (h : readSlot s i j = .ok info j) (hd : j₁.disk = j.disk) :
    readSlot s i j₁ = .ok info j₁ := by
  obtain ⟨-, hi, data, hr, hinfo⟩ := readSlot_eq_ok_iff.mp h
  exact readSlot_eq_ok_iff.mpr ⟨rfl, hi, data, hd ▸ hr, hinfo⟩

/-! ### Opening -/

section Opens
variable {d : Device} {h : Header}

theorem opens_of_not_magic (hread : readHeader d = .ok h) (hm : h.magic ≠ bdrMagic) :
    Opens d ↔ getHeaderByteSize.toNat ≤ d.size := by
  have hv : verifyMagic h.magic = false := beq_eq_false_iff_ne.mpr hm.symm
  rw [Opens, openJournal, openDemands, hread]
  simp [hv, Demand.Met]

/-- Opening with the magic is searching the two sections, the second if the first has a free
slot. -/
theorem opens_of_magic (hread : readHeader d = .ok h) (hm : h.magic = bdrMagic) :
    Opens d ↔ getHeaderByteSize.toNat ≤ d.size ∧
      Searched h.bufWrites .noAvailableBufferWrite ⟨d, 0, 0, h⟩ (List.range h.bufWrites.count) ∧
        ((∃ n, firstAvailable h.bufWrites .noAvailableBufferWrite (List.range h.bufWrites.count)
            ⟨d, 0, 0, h⟩ = .ok n ⟨d, 0, 0, h⟩) →
          Searched h.corrBlocks .noAvailableCorrectBlock ⟨d, 0, 0, h⟩
            (List.range h.corrBlocks.count)) := by
  have hv : verifyMagic h.magic = true := beq_iff_eq.mpr hm.symm
  have hresult : ((∃ j, openJournal d = .ok j) ∨ ∃ e, openJournal d = .error (.err e)) ↔
      Ends findOffsets ⟨d, 0, 0, h⟩ (fun _ _ => True) fun f _ => ∃ e', f = .err e' := by
    rw [openJournal, hread, Ends]
    simp only [hv, Bool.not_true, Bool.false_eq_true, if_false]
    cases findOffsets ⟨d, 0, 0, h⟩ <;> simp
  rw [Opens, hresult, findOffsets, ends_bind, openDemands, hread]
  simp only [hv, Bool.not_true, Bool.false_eq_true, if_false, List.forall_mem_cons,
    List.forall_mem_append, ends_bind]
  unfold Searched
  have hw : findFirstAvailableBufferWrite ⟨d, 0, 0, h⟩ = firstAvailable h.bufWrites
    .noAvailableBufferWrite (List.range h.bufWrites.count) ⟨d, 0, 0, h⟩ := rfl
  rw [Ends, Ends, hw]
  cases hfw : firstAvailable h.bufWrites .noAvailableBufferWrite (List.range h.bufWrites.count)
      ⟨d, 0, 0, h⟩ with
  | error f j₁ =>
      constructor
      · rintro ⟨herr, hh, hdw, -⟩
        refine ⟨hh, ⟨herr, hdw⟩, ?_⟩
        rintro ⟨n, ⟨⟩⟩
      · rintro ⟨hh, ⟨herr, hdw⟩, -⟩
        exact ⟨herr, hh, hdw, by simp⟩
  | ok n j₁ =>
      obtain ⟨-, rfl⟩ := firstAvailable_eq_ok hfw
      constructor
      · rintro ⟨hc, hh, hdw, hdc⟩
        exact ⟨hh, ⟨trivial, hdw⟩, fun _ => ⟨hc, hdc⟩⟩
      · rintro ⟨hh, ⟨-, hdw⟩, hs⟩
        obtain ⟨hc, hdc⟩ := hs ⟨n, rfl⟩
        exact ⟨hc, hh, hdw, hdc⟩

/-- What can be decoded opens, and nothing else does. -/
theorem opens_iff_readable : Opens d ↔ Readable d := by
  by_cases hsize : getHeaderByteSize.toNat ≤ d.size
  swap
  · exact iff_of_false (fun h => hsize (h.2 _ List.mem_cons_self)) fun h => hsize h.header_le
  have hread : readHeader d = .ok (Header.ofBytes (d.bytes.read 0 getHeaderByteSize.toNat)) := by
    rw [readHeader, Device.readAt_of_le (by simpa using hsize)]
  generalize Header.ofBytes (d.bytes.read 0 getHeaderByteSize.toNat) = h at hread
  have hof : ∀ h', readHeader d = .ok h' → h' = h := fun h' hh => by
    rw [hread] at hh
    cases hh
    rfl
  by_cases hm : h.magic = bdrMagic
  · rw [opens_of_magic hread hm]
    constructor
    · rintro ⟨-, hw, hc⟩
      refine ⟨hsize, fun h' hh _ => ?_, fun h' hh _ hfree => ?_⟩
      · obtain rfl := hof h' hh
        exact searched_iff_decodable.mp hw
      · obtain rfl := hof h' hh
        exact searched_iff_decodable.mp (hc ((found_iff_hasFree hw).mpr hfree))
    · intro hd
      have hw : Searched h.bufWrites .noAvailableBufferWrite ⟨d, 0, 0, h⟩
          (List.range h.bufWrites.count) :=
        searched_iff_decodable.mpr (hd.bufWrites h hread hm)
      exact ⟨hsize, hw, fun hfound => searched_iff_decodable.mpr
        (hd.corrBlocks h hread hm ((found_iff_hasFree hw).mp hfound))⟩
  · rw [opens_of_not_magic hread hm]
    refine iff_of_true hsize ⟨hsize, fun h' hh hm' => ?_, fun h' hh hm' => ?_⟩
    · exact absurd (hof h' hh ▸ hm') hm
    · exact absurd (hof h' hh ▸ hm') hm

end Opens

end Bdr.Journal

/-! ### Copying the journal -/

namespace Bdr.Server

open Journal

section Copy
variable {I : Machine → Prop} {jrn : Journal}

/-- `x` keeps `I` and does not panic. -/
def Quiet (I : Machine → Prop) (x : ServerOp Unit) : Prop :=
  ∀ m, I m → Ends x m (fun _ => I) fun f m' => f ≠ .panic ∧ I m'

theorem Quiet.ignoreError {x : ServerOp Unit} (hx : Quiet I x) :
    Quiet I (Server.ignoreError x) := by
  intro m hm
  have h := hx m hm
  rw [Ends] at h ⊢
  rw [Server.ignoreError]
  cases hr : x m with
  | ok a m' => rw [hr] at h; exact h
  | error f m' =>
      rw [hr] at h
      cases f with
      | err e => exact h.2
      | panic => exact absurd rfl h.1
      | powerLoss => exact h

theorem quiet_targetWriteAt (step : ReplayStep) (off : ℕ) (data : List UInt8) :
    Quiet (fun m => m.journal = jrn) (targetWriteAt step off data) := by
  intro m hm
  rw [Ends, targetWriteAt]
  rcases m.target.writeAt off data with ⟨d, _ | _ | _⟩
  · exact hm
  · exact ⟨by simp, hm⟩
  · exact ⟨by simp, hm⟩

theorem diskWriteAt_ends (off : ℕ) (data : List UInt8) (j : Journal) :
    Ends (diskWriteAt off data) j (fun _ _ => True) fun f _ => f ≠ .panic := by
  rw [Ends, diskWriteAt]
  rcases j.disk.writeAt off data with ⟨d, _ | _ | _⟩
  · trivial
  · simp
  · simp

theorem quiet_invalidate (step : ReplayStep) :
    Quiet (fun _ => True) (onJournal step invalidate) := by
  intro m _
  have hinv : Ends invalidate m.journal (fun _ _ => True) fun f _ => f ≠ .panic := by
    rw [Ends, invalidate_eq, writeHeader]
    exact diskWriteAt_ends 0 _ { m.journal with header := m.journal.header.setInvalidFlag }
  rw [Ends] at hinv ⊢
  rw [onJournal]
  cases hr : invalidate m.journal with
  | ok a j => trivial
  | error f j =>
      rw [hr] at hinv
      cases f with
      | err e => exact ⟨by simp, trivial⟩
      | panic => exact absurd rfl hinv
      | powerLoss => exact ⟨by simp, trivial⟩

/-- A loop over slots that can be read. -/
theorem quiet_copy {n : ℕ} {step : ReplayStep} {s : Header → Section}
    {f : BlockInfo → ServerOp Unit}
    (hread : ∀ i < n, ∃ info, readSlot (s jrn.header) i jrn = .ok info jrn ∧
      Quiet (fun m => m.journal = jrn) (f info)) :
    Quiet (fun m => m.journal = jrn)
      ((List.range n).forM fun i => onJournal step (onSection s (readSlot · i)) >>= f) := by
  intro m hm
  refine Ends.forM_range (I := fun _ (m' : Machine) => m'.journal = jrn) n hm ?_
  intro i m' hi hm'
  obtain ⟨info, hr, hf⟩ := hread i hi
  have hon : onJournal step (onSection s (readSlot · i)) m' = .ok info m' := by
    have hsec : onSection s (readSlot · i) m'.journal = .ok info m'.journal := by
      rw [hm']
      exact hr
    rw [onJournal, hsec]
  rw [Ends, bind_of_ok hon]
  exact hf m' hm'

/-- Copying a journal whose slots can be read does not panic. -/
theorem copyJournalToReplica_ends (target : Device)
    (hw : ∀ i < jrn.writeOffset, ∃ info, readSlot jrn.header.bufWrites i jrn = .ok info jrn)
    (hc : ∀ i < jrn.correctOffset, ∃ info, readSlot jrn.header.corrBlocks i jrn = .ok info jrn) :
    Ends copyJournalToReplica ⟨target, jrn⟩ (fun _ _ => True) fun f _ => f ≠ .panic := by
  have hblocks : Quiet (fun m => m.journal = jrn) ((List.range jrn.correctOffset).forM fun i =>
      onJournal .copy (readCorrectBlock i) >>= fun b =>
        ignoreError (writeCorrectBlockToReplica b)) := by
    refine quiet_copy fun i hi => ?_
    obtain ⟨info, hr⟩ := hc i hi
    exact ⟨info, hr, (quiet_targetWriteAt _ _ _).ignoreError⟩
  have hwrites : Quiet (fun m => m.journal = jrn) ((List.range jrn.writeOffset).forM fun i =>
      onJournal .copy (readBufferWrite i) >>= fun w =>
        ignoreError (writeBufferWriteToReplica w)) := by
    refine quiet_copy fun i hi => ?_
    obtain ⟨info, hr⟩ := hw i hi
    obtain ⟨-, -, data, -, hinfo⟩ := readSlot_eq_ok_iff.mp hr
    refine ⟨info, hr, Quiet.ignoreError fun m hm => ?_⟩
    rw [Ends, writeBufferWriteToReplica,
      bind_of_ok (dataToWrite_of_length (length_data_of_deserialize hinfo) m)]
    exact quiet_targetWriteAt _ _ _ m hm
  refine Ends.get_bind (Ends.bind ((hblocks _ rfl).mono (fun _ _ => id) fun _ _ h => h.1) ?_)
  intro _ m₁ hm₁
  refine Ends.bind ((hwrites m₁ hm₁).mono (fun _ _ => id) fun _ _ h => h.1) ?_
  intro _ m₂ _
  exact ((quiet_invalidate .invalidate).ignoreError m₂ trivial).mono (fun _ _ => id)
    fun _ _ h => h.1

end Copy

/-- After opening, `CheckJournal` reads what the search has read. -/
theorem ends_of_opens {d : Device} (hd : Opens d) (target : Device) :
    Ends checkJournal ⟨target, d⟩ (fun _ _ => True) fun f _ => f ≠ .panic := by
  rcases hd.1 with ⟨jrn, hj⟩ | ⟨e, he⟩
  · obtain ⟨hdisk, -, -, hfw, hfc⟩ := openJournal_eq_ok hj
    rw [List.range_eq_range'] at hfw hfc
    have hcopy := copyJournalToReplica_ends target
      (fun i hi => by
        obtain ⟨info, hr⟩ := readSlot_of_firstAvailable _ _ hfw i (Nat.zero_le i) hi
        exact ⟨info, readSlot_congr hr hdisk⟩)
      (fun i hi => by
        obtain ⟨info, hr⟩ := readSlot_of_firstAvailable _ _ hfc i (Nat.zero_le i) hi
        exact ⟨info, readSlot_congr hr hdisk⟩)
    by_cases hv : jrn.header.isValid
    · rw [Ends] at hcopy
      cases hr : copyJournalToReplica ⟨target, jrn⟩ with
      | ok a m' => simp [Ends, checkJournal, hj, hv, hr]
      | error f m' =>
          rw [hr] at hcopy
          simpa [Ends, checkJournal, hj, hv, hr] using hcopy
    · simp [Ends, checkJournal, hj, hv]
  · simp [Ends, checkJournal, he]

/-- **What can be decoded opens, and nothing else does.**  For any device, opening returns a journal
or an error, no demand is out of bounds and `CheckJournal` does not panic, just when the slots that
are looked at can be decoded. -/
theorem checkJournal_ends_iff (d target : Device) :
    (Opens d ∧ Ends checkJournal ⟨target, d⟩ (fun _ _ => True) fun f _ => f ≠ .panic) ↔
      Readable d :=
  ⟨fun h => opens_iff_readable.mp h.1, fun h =>
    ⟨opens_iff_readable.mpr h, ends_of_opens (opens_iff_readable.mpr h) target⟩⟩

/-! ### Four slots -/

/-- A journal that has been cleared and holds one buffer write. -/
def clearedDisk : Device :=
  (({ fourSlotJournal with
      disk := ⟨116, fun _ => 0, [], fourSlotJournal_size_lt⟩ } : Journal).withHeader
    fourSlotJournal.header.setValidFlag).disk.store 64 (entryBytes 13 ⟨3, 1, [5]⟩)

theorem readable_clearedDisk : Readable clearedDisk := by
  have hread : readHeader clearedDisk = .ok fourSlotJournal.header.setValidFlag := by
    have hbytes : clearedDisk.bytes.read 0 64 = fourSlotJournal.header.setValidFlag.toBytes := by
      decide +kernel
    exact readHeader_of_stored (j := ⟨clearedDisk, 0, 0, _⟩) hbytes (by decide)
  have hfits : ∀ s : Section, (∀ i < s.count, s.offset i + s.slot ≤ clearedDisk.size ∧
      s.Fits (clearedDisk.bytes.read (s.offset i) s.slot)) →
      ∀ i < s.count, s.Reached clearedDisk i →
        ∀ data, clearedDisk.readAt (s.offset i) s.slot = some data → s.Fits data := by
    intro s h i hi _ data hd
    obtain ⟨hle, hf⟩ := h i hi
    rw [Device.readAt_of_le hle] at hd
    cases hd
    exact hf
  refine ⟨by decide, fun h hh _ _ => ⟨?_, ?_⟩, fun h hh _ _ _ => ⟨?_, ?_⟩⟩
  all_goals
    rw [hread] at hh
    cases hh
  · decide
  · exact hfits _ (by unfold Section.Fits; decide +kernel)
  · decide
  · exact hfits _ (by unfold Section.Fits; decide +kernel)

theorem checkJournal_ends_iff_clearedDisk : Readable clearedDisk ∧ Opens clearedDisk ∧
    Ends checkJournal ⟨clearedDisk, clearedDisk⟩ (fun _ _ => True) fun f _ => f ≠ .panic :=
  ⟨readable_clearedDisk, (checkJournal_ends_iff _ _).mpr readable_clearedDisk⟩

/-- A header written over slots full of sevens. -/
theorem not_opens_of_uncleared : ∃ j,
    newJournal fourSlotJournal.disk 26 13 13 = .ok fourSlotJournal ∧
      initWithoutClearing fourSlotJournal = .ok () j ∧ openJournal j.disk = .error .panic ∧
      checkJournal ⟨j.disk, j.disk⟩ = .error .panic ⟨j.disk, j.disk⟩ ∧ ¬ Opens j.disk := by
  have hinit := invalidate_apply (j := fourSlotJournal) rfl (by decide)
  have hopen : openJournal (fourSlotJournal.withHeader fourSlotJournal.header.setInvalidFlag).disk =
      .error .panic := rfl
  refine ⟨_, rfl, hinit, hopen, ?_, ?_⟩
  · simp only [checkJournal, hopen]
  · rintro ⟨⟨j, hj⟩ | ⟨e, he⟩, -⟩
    · rw [hopen] at hj
      cases hj
    · rw [hopen] at he
      cases he

end Bdr.Server
