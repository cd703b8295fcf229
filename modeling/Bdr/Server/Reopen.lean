import Bdr.Server.Journal

/-!
# Server — Reopen

Whether a journal filled by a scan is found again when the server is restarted.  A scan resets the
journal, appends what arrives and, when the client has completed, validates it (`journalScan`); at
the next start `openJournal` searches each section for its first free slot.

It finds the entries if each section has a free slot left, and if no entry's end wraps around in
`uint32` (`reopens_iff`): a section that a scan has filled to its last slot makes the whole
journal unreadable.
-/

namespace Bdr.Server

open Journal

/-- The journal's life in a scan, from `CreateJournal` to `Validate`. -/
def journalScan (as : List Append) : Op Unit := do
  initWithoutClearing
  let j ← get
  resetTo j.writeOffset j.correctOffset
  as.forM append
  validate

/-- The entry with its data cut or filled up to its size. -/
def padded (info : BlockInfo) : BlockInfo :=
  { info with data := padTake info.size.toNat 0 info.data }

/-- The entry can be read back: the end of its data does not wrap around in `uint32`, and what is
cut off because the length of the data does is zero. -/
def Storable (info : BlockInfo) : Prop :=
  12 + info.size.toNat < 2 ^ 32 ∧
    ∀ i < info.size.toNat, info.data.length % 2 ^ 32 ≤ i → info.data.getD i 0 = 0

/-- The scan completes, and the journal it leaves behind opens with its entries. -/
def Reopens (j : Journal) (as : List Append) : Prop :=
  ∃ j₁ j₂, journalScan as j = .ok () j₁ ∧ openJournal j₁.disk = .ok j₂ ∧
    j₂.header.isValid ∧ j₂.writeOffset = (bufferWrites as).length ∧
    j₂.correctOffset = (correctBlocks as).length ∧
    (∀ i w, (bufferWrites as)[i]? = some w → readBufferWrite i j₂ = .ok (padded w) j₂) ∧
    ∀ i b, (correctBlocks as)[i]? = some b → readCorrectBlock i j₂ = .ok (padded b) j₂

/-! ### Entries -/

theorem readBack_eq_padded_iff (info : BlockInfo) : readBack info = padded info ↔
    ∀ i < info.size.toNat, info.data.length % 2 ^ 32 ≤ i → info.data.getD i 0 = 0 := by
  -- byte by byte: below the copied length the two agree, behind it a byte was read back as zero
  have hbyte : ∀ i < info.size.toNat, (info.data.take (dataSize info)).getD i 0 =
      if info.data.length % 2 ^ 32 ≤ i then 0 else info.data.getD i 0 := by
    intro i hi
    simp only [List.getD_eq_getElem?_getD, List.getElem?_take, dataSize, lt_min_iff, hi, and_true]
    by_cases h : info.data.length % 2 ^ 32 ≤ i
    · rw [if_neg (Nat.not_lt.mpr h), if_pos h, Option.getD_none]
    · rw [if_pos (Nat.not_le.mp h), if_neg h]
  constructor
  · intro h i hi hle
    have hdata := congrArg (fun b : BlockInfo => b.data[i]?) h
    simp only [readBack, padded, getElem?_padTake, if_pos hi, hbyte i hi, if_pos hle,
      Option.some.injEq] at hdata
    exact hdata.symm
  · intro h
    rw [readBack, padded]
    congr 1
    refine List.ext_getElem? fun i => ?_
    rw [getElem?_padTake, getElem?_padTake]
    by_cases hi : i < info.size.toNat
    · rw [if_pos hi, if_pos hi, hbyte i hi]
      split
      · rename_i hle
        rw [h i hi hle]
      · rfl
    · rw [if_neg hi, if_neg hi]

/-- Of the slots a section holds, those with storable entries read back as they should. -/
theorem readSlot_eq_padded_iff {j : Journal} {s : Section} {lo : ℕ} {l : List BlockInfo}
    (hs : s.Within lo j.disk.size) (hl : s.Holds j.disk l) (hlen : l.length ≤ s.count) {i : ℕ}
    {w : BlockInfo} (hi : l[i]? = some w) (hfit : 12 + w.size.toNat ≤ s.slot) :
    readSlot s i j = .ok (padded w) j ↔ Storable w := by
  obtain ⟨hlt, rfl⟩ := List.getElem?_eq_some_iff.mp hi
  have hb := hl i (hlt.trans_le hlen)
  rw [List.getD_eq_getElem l invalidInfo hlt] at hb
  rw [readSlot_of_bytesAt hs (hlt.trans_le hlen) hfit hb, Storable, ← readBack_eq_padded_iff]
  by_cases hw : 12 + l[i].size.toNat < 2 ^ 32
  · rw [if_pos hw]
    simp only [hw, true_and]
    constructor
    · exact fun h => (EStateM.Result.ok.inj h).1
    · intro h
      rw [← h]
      rfl
  · rw [if_neg hw]
    simp only [hw, false_and, iff_false]
    rintro ⟨⟩

/-! ### The scan -/

section Scan
variable {disk : Device} {a b c : UInt64} {j : Journal}

/-- A scan on a new journal leaves a valid journal with its entries, if no append panics. -/
theorem journalScan_ends {as : List Append} (hnew : newJournal disk a b c = .ok j)
    (hplan : disk.plan = []) (hsize : 64 ≤ disk.size) (hb : 12 ≤ b.toNat) (hc : 12 ≤ c.toNat)
    (hfit : FitsIn j.header as) :
    Ends (journalScan as) j
      (fun _ j' => Contains j' (bufferWrites as) (correctBlocks as) ∧ HeaderStored j' ∧
        j'.header = j.header.setInvalidFlag.setInvalidFlag.setValidFlag)
      fun _ _ => ∃ e ∈ bufferWrites as ++ correctBlocks as, ¬ 12 + dataSize e < 2 ^ 32 := by
  obtain ⟨hl, rfl, -, hwo, hco⟩ := newJournal_ok hnew hsize hb hc
  have hinit : initWithoutClearing j = .ok () (j.withHeader j.header.setInvalidFlag) :=
    invalidate_apply hplan hsize
  rw [journalScan, Ends, bind_of_ok hinit]
  refine Ends.get_bind (Ends.bind (resetTo_succeeds (j := j.withHeader j.header.setInvalidFlag)
    ⟨hl.bufWrites, hl.corrBlocks⟩ hplan hwo.le hco.le ?_ ?_).ends ?_)
  · exact fun i hi hle => absurd (hwo.ge.trans hle) (Nat.not_le.mpr hi)
  · exact fun i hi hle => absurd (hco.ge.trans hle) (Nat.not_le.mpr hi)
  rintro _ j₂ ⟨hj₂, hs₂, hh₂, hsz₂⟩
  have hfit₂ : FitsIn j₂.header as := by
    rw [hh₂]
    exact ⟨hfit.writes, hfit.blocks, hfit.writes_le, hfit.blocks_le⟩
  refine (appends_ends hj₂ hfit₂).bind ?_
  rintro _ j₃ ⟨hj₃, hh₃, hf₃⟩
  rw [Ends, validate_apply hj₃.plan hj₃.layout.size_ge]
  refine ⟨hj₃.withHeader rfl rfl, headerStored_withHeader _ hj₃.layout.size_ge, ?_⟩
  show j₃.header.setValidFlag = _
  rw [hh₃, hh₂]
  rfl

/-- A journal that reopens has a free slot in each section, and entries that are storable. -/
theorem storable_of_reopens {as : List Append} (hnew : newJournal disk a b c = .ok j)
    (hplan : disk.plan = []) (hsize : 64 ≤ disk.size) (hb : 12 ≤ b.toNat) (hc : 12 ≤ c.toNat)
    (hfit : FitsIn j.header as) (h : Reopens j as) :
    (bufferWrites as).length < j.header.bufWrites.count ∧
      (correctBlocks as).length < j.header.corrBlocks.count ∧
      ∀ e ∈ bufferWrites as ++ correctBlocks as, Storable e := by
  have hscan := journalScan_ends hnew hplan hsize hb hc hfit
  obtain ⟨j₁, j₂, hrun, hopen, -, hwo, hco, hws, hbs⟩ := h
  rw [Ends, hrun] at hscan
  obtain ⟨hj₁, hs₁, hh₁⟩ := hscan
  obtain ⟨hdisk, hread, -, hfw, hfc⟩ := openJournal_eq_ok hopen
  have hwlt := List.mem_range.mp (firstAvailable_eq_ok hfw).1
  have hclt := List.mem_range.mp (firstAvailable_eq_ok hfc).1
  rw [readHeader_of_stored hs₁ hj₁.layout.size_ge] at hread
  -- the journal that was opened is the one the scan left
  obtain rfl : j₂ = j₁ := by
    obtain ⟨d₂, w₂, c₂, h₂⟩ := j₂
    obtain ⟨d₁, w₁, c₁, h₁⟩ := j₁
    obtain rfl : d₂ = d₁ := hdisk
    obtain rfl : h₁ = h₂ := Except.ok.inj hread
    obtain rfl : w₂ = w₁ := hwo.trans hj₁.writeOffset.symm
    obtain rfl : c₂ = c₁ := hco.trans hj₁.correctOffset.symm
    rfl
  rw [hwo] at hwlt
  rw [hco] at hclt
  have hl := hj₁.layout
  have hbuf : j₂.header.bufWrites = j.header.bufWrites := by rw [hh₁]; rfl
  have hcor : j₂.header.corrBlocks = j.header.corrBlocks := by rw [hh₁]; rfl
  refine ⟨hbuf ▸ hwlt, hcor ▸ hclt, fun e he => ?_⟩
  rcases List.mem_append.mp he with he | he
  · obtain ⟨i, hi⟩ := List.mem_iff_getElem?.mp he
    exact (readSlot_eq_padded_iff hl.bufWrites_within hj₁.writes hwlt.le hi
      (hbuf ▸ hfit.writes e he)).mp (hws i e hi)
  · obtain ⟨i, hi⟩ := List.mem_iff_getElem?.mp he
    exact (readSlot_eq_padded_iff hl.corrBlocks_within hj₁.blocks hclt.le hi
      (hcor ▸ hfit.blocks e he)).mp (hbs i e hi)

/-- A scan with storable entries that leaves a free slot in each section can be reopened. -/
theorem reopens_of_storable {as : List Append} (hnew : newJournal disk a b c = .ok j)
    (hplan : disk.plan = []) (hsize : 64 ≤ disk.size) (hb : 12 ≤ b.toNat) (hc : 12 ≤ c.toNat)
    (hfit : FitsIn j.header as) (hpos : ∀ e ∈ bufferWrites as ++ correctBlocks as, e.isValid)
    (hw : (bufferWrites as).length < j.header.bufWrites.count)
    (hbl : (correctBlocks as).length < j.header.corrBlocks.count)
    (hst : ∀ e ∈ bufferWrites as ++ correctBlocks as, Storable e) : Reopens j as := by
  have hscan := journalScan_ends hnew hplan hsize hb hc hfit
  have hmagic : j.header.magic = bdrMagic := (newJournal_ok hnew hsize hb hc).2.2.1
  have hgood : ∀ e ∈ bufferWrites as ++ correctBlocks as, 12 + dataSize e < 2 ^ 32 := by
    intro e he
    have h₁ := (hst e he).1
    have h₂ := dataSize_le_size e
    omega
  rw [Ends] at hscan
  cases hrun : journalScan as j with
  | error e j₁ =>
      rw [hrun] at hscan
      obtain ⟨e, he, hbad⟩ := hscan
      exact absurd (hgood e he) hbad
  | ok _ j₁ =>
      rw [hrun] at hscan
      obtain ⟨hj₁, hs₁, hh₁⟩ := hscan
      have hl := hj₁.layout
      have hbuf : j₁.header.bufWrites = j.header.bufWrites := by rw [hh₁]; rfl
      have hcor : j₁.header.corrBlocks = j.header.corrBlocks := by rw [hh₁]; rfl
      have hopen : openJournal j₁.disk = .ok j₁ :=
        openJournal_of_contains hj₁ hs₁ (by rw [hh₁]; exact hmagic)
          (fun e he => ⟨hpos e (List.mem_append_left _ he), hbuf ▸ hfit.writes e he,
            (hst e (List.mem_append_left _ he)).1⟩)
          (fun e he => ⟨hpos e (List.mem_append_right _ he), hcor ▸ hfit.blocks e he,
            (hst e (List.mem_append_right _ he)).1⟩)
          (hbuf ▸ hw) (hcor ▸ hbl)
      have hvalid : j₁.header.isValid := by
        rw [hh₁]
        exact Header.isValid_setValidFlag _
      refine ⟨j₁, j₁, hrun, hopen, hvalid, hj₁.writeOffset, hj₁.correctOffset, ?_, ?_⟩
      · intro i e hi
        have he := List.mem_of_getElem? hi
        exact (readSlot_eq_padded_iff hl.bufWrites_within hj₁.writes (hbuf ▸ hw.le) hi
          (hbuf ▸ hfit.writes e he)).mpr (hst e (List.mem_append_left _ he))
      · intro i e hi
        have he := List.mem_of_getElem? hi
        exact (readSlot_eq_padded_iff hl.corrBlocks_within hj₁.blocks (hcor ▸ hbl.le) hi
          (hcor ▸ hfit.blocks e he)).mpr (hst e (List.mem_append_right _ he))

/-- **When a journal reopens.**  After a scan on a new journal, with entries that fit their slots
and no more of them than slots, none of size zero, the server finds the journal valid with exactly
the scan's entries just when each section has a free slot left and every entry is storable. -/
theorem reopens_iff (as : List Append) (hnew : newJournal disk a b c = .ok j)
    (hplan : disk.plan = []) (hsize : 64 ≤ disk.size) (hb : 12 ≤ b.toNat) (hc : 12 ≤ c.toNat)
    (hfit : FitsIn j.header as) (hpos : ∀ e ∈ bufferWrites as ++ correctBlocks as, e.isValid) :
    Reopens j as ↔
      (bufferWrites as).length < j.header.bufWrites.count ∧
        (correctBlocks as).length < j.header.corrBlocks.count ∧
        ∀ e ∈ bufferWrites as ++ correctBlocks as, Storable e :=
  ⟨storable_of_reopens hnew hplan hsize hb hc hfit,
    fun ⟨hw, hbl, hst⟩ => reopens_of_storable hnew hplan hsize hb hc hfit hpos hw hbl hst⟩

end Scan

/-! ### Two small journals -/

/-- A device full of sevens. -/
def sevens (size : ℕ) (h : size < 2 ^ 63) : Device := ⟨size, fun _ => 7, [], h⟩

/-- Two slots of thirteen bytes in each section. -/
def roomyJournal : Journal :=
  ⟨sevens 116 (by decide), 2, 2, ⟨bdrMagic, 13, 2, 64, 13, 2, 90, 0⟩⟩

/-- One slot of thirteen bytes in each section. -/
def tightJournal : Journal :=
  ⟨sevens 90 (by decide), 1, 1, ⟨bdrMagic, 13, 1, 64, 13, 1, 77, 0⟩⟩

theorem reopens_iff_roomyJournal :
    newJournal (sevens 116 (by decide)) 26 13 13 = .ok roomyJournal ∧
      Reopens roomyJournal [.bufferWrite ⟨0, 1, [5]⟩, .correctBlock ⟨3, 1, [6]⟩] :=
  ⟨rfl, (reopens_iff [.bufferWrite ⟨0, 1, [5]⟩, .correctBlock ⟨3, 1, [6]⟩]
    (show newJournal (sevens 116 (by decide)) 26 13 13 = .ok roomyJournal from rfl) rfl (by decide)
    (by decide) (by decide) ⟨by decide, by decide, by decide, by decide⟩ (by decide)).mpr
    ⟨by decide, by decide, by simp [bufferWrites, correctBlocks, Storable]⟩⟩

/-- A buffer write in the only slot of its section: the journal does not reopen. -/
theorem not_reopens_tightJournal :
    newJournal (sevens 90 (by decide)) 13 13 13 = .ok tightJournal ∧
      FitsIn tightJournal.header [.bufferWrite ⟨0, 1, [5]⟩] ∧
      (∀ e ∈ bufferWrites [.bufferWrite ⟨0, 1, [5]⟩], e.isValid) ∧
      ¬ Reopens tightJournal [.bufferWrite ⟨0, 1, [5]⟩] := by
  have hfit : FitsIn tightJournal.header [.bufferWrite ⟨0, 1, [5]⟩] :=
    ⟨by decide, by decide, by decide, by decide⟩
  refine ⟨rfl, hfit, by decide, fun h => ?_⟩
  have := storable_of_reopens
    (show newJournal (sevens 90 (by decide)) 13 13 13 = .ok tightJournal from rfl) rfl (by decide)
    (by decide) (by decide) hfit h
  exact absurd this.1 (by decide)

end Bdr.Server
