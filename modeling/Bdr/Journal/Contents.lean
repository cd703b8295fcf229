import Bdr.Journal.Layout
import Bdr.Journal.Slots

/-!
# Journal — Contents

A journal as two lists of entries.  `Contains j ws bs` says that the buffer writes `ws` and the
correct blocks `bs` are what the slots of `j` hold, that its offsets count them and that the
remaining slots are free.  A layout that `newJournal` accepts on a device with room for the header
keeps the header and the sections apart; `resetTo` empties a journal whose slots behind the offsets
are free, and `openJournal` gives back a journal with room left in both sections.
-/

namespace Bdr.Journal

/-- The header, the buffer writes and the correct blocks follow each other on a device of `size`
bytes, in slots that can hold an entry. -/
structure Layout (h : Header) (size : ℕ) : Prop where
  bufWrites : h.bufWrites.Within 64 h.corrBlocks.start
  corrBlocks : h.corrBlocks.Within h.corrBlocks.start size

structure Contains (j : Journal) (ws bs : List BlockInfo) : Prop where
  layout : Layout j.header j.disk.size
  plan : j.disk.plan = []
  writeOffset : j.writeOffset = ws.length
  correctOffset : j.correctOffset = bs.length
  writes : j.header.bufWrites.Holds j.disk ws
  blocks : j.header.corrBlocks.Holds j.disk bs

/-- The device holds the journal's header. -/
def HeaderStored (j : Journal) : Prop := j.disk.bytes.read 0 64 = j.header.toBytes

namespace Layout
variable {h : Header} {size : ℕ}

theorem bufWrites_within (hl : Layout h size) : h.bufWrites.Within 64 size :=
  ⟨hl.bufWrites.slot_ge, hl.bufWrites.lo_le,
    hl.bufWrites.le_hi.trans ((Nat.le_add_right _ _).trans hl.corrBlocks.le_hi),
    hl.corrBlocks.hi_lt⟩

theorem corrBlocks_within (hl : Layout h size) : h.corrBlocks.Within 64 size :=
  ⟨hl.corrBlocks.slot_ge,
    hl.bufWrites.lo_le.trans ((Nat.le_add_right _ _).trans hl.bufWrites.le_hi),
    hl.corrBlocks.le_hi, hl.corrBlocks.hi_lt⟩

theorem size_ge (hl : Layout h size) : 64 ≤ size :=
  hl.bufWrites_within.lo_le.trans ((Nat.le_add_right _ _).trans hl.bufWrites_within.le_hi)

end Layout

/-! ### New journals -/

/-- What `newJournal` lays out on a device with room for the header. -/
theorem newJournal_ok {disk : Device} {a b c : UInt64} {j : Journal}
    (h : newJournal disk a b c = .ok j) (hsize : 64 ≤ disk.size) (hb : 12 ≤ b.toNat)
    (hc : 12 ≤ c.toNat) :
    Layout j.header disk.size ∧ j.disk = disk ∧ j.header.magic = bdrMagic ∧
      j.writeOffset = j.header.bufWrites.count ∧ j.correctOffset = j.header.corrBlocks.count := by
  have hlt := disk.size_lt
  have hd : (UInt64.ofNat disk.size).toNat = disk.size := by
    rw [UInt64.toNat_ofNat']
    exact Nat.mod_eq_of_lt (by omega)
  obtain ⟨hdr, hok, rfl⟩ := newHeader_of_newJournal h
  obtain ⟨hfit, hw, hcb⟩ := sections_of_newHeader hok
    (UInt64.le_iff_toNat_le.mpr (by rw [hd]; exact hsize))
  obtain ⟨-, rfl⟩ := newHeader_ok hok
  rw [hd] at hfit hcb
  have hdiv₁ := Nat.div_mul_le_self a.toNat b.toNat
  have hdiv₂ := Nat.div_mul_le_self (disk.size - 64 - a.toNat) c.toNat
  refine ⟨⟨?_, ?_⟩, rfl, rfl, rfl, rfl⟩
  · rw [hw, hcb]
    exact ⟨hb, le_rfl, by simp only; omega, by simp only; omega⟩
  · rw [hcb]
    exact ⟨hc, le_rfl, by simp only; omega, hlt⟩

theorem newJournal_eq_ok {disk : Device} {a b c : UInt64} {j : Journal}
    (h : newJournal disk a b c = .ok j) :
    j.disk = disk ∧ j.header.bufWriteByteSize = b ∧ j.header.bufWritesCount = a / b := by
  obtain ⟨hdr, hok, rfl⟩ := newHeader_of_newJournal h
  obtain ⟨-, rfl⟩ := newHeader_ok hok
  exact ⟨rfl, rfl, rfl⟩

/-- A device is large enough when the header and the buffer writes fit. -/
theorem newJournal_of_le {disk : Device} {a b c : UInt64} (h : 64 + a.toNat ≤ disk.size)
    (ha : a ≠ 0) (hb : b ≠ 0) (hc : c ≠ 0) : ∃ j, newJournal disk a b c = .ok j := by
  have hlt := disk.size_lt
  have hd : (UInt64.ofNat disk.size).toNat = disk.size := by
    rw [UInt64.toNat_ofNat']
    exact Nat.mod_eq_of_lt (by omega)
  have h64 : getHeaderByteSize.toNat = 64 := rfl
  have hle : a ≤ UInt64.ofNat disk.size - getHeaderByteSize := by
    rw [UInt64.le_iff_toNat_le,
      UInt64.toNat_sub_of_le _ _ (UInt64.le_iff_toNat_le.mpr (by omega)), hd, h64]
    omega
  have h₁ : ¬ (a > UInt64.ofNat disk.size - getHeaderByteSize ∨ a = 0) :=
    not_or.mpr ⟨UInt64.not_lt.mpr hle, ha⟩
  have h₂ : ¬ (c = 0 ∨ b = 0) := not_or.mpr ⟨hc, hb⟩
  exact ⟨_, by simp only [newJournal, newHeader, if_neg h₁, if_neg h₂]; rfl⟩

/-! ### Writing the header -/

/-- The journal with the header `h`, stored. -/
def withHeader (j : Journal) (h : Header) : Journal :=
  { j with header := h, disk := j.disk.store 0 h.toBytes }

section Flags
variable {j : Journal}

theorem writeHeader_apply (hp : j.disk.plan = []) (hsize : 64 ≤ j.disk.size) :
    writeHeader j = .ok () (j.withHeader j.header) :=
  diskWriteAt_apply hp (by simpa using hsize)

theorem invalidate_eq (j : Journal) :
    invalidate j = writeHeader { j with header := j.header.setInvalidFlag } :=
  bind_of_ok (f := fun _ => writeHeader) rfl

theorem validate_eq (j : Journal) :
    validate j = writeHeader { j with header := j.header.setValidFlag } :=
  bind_of_ok (f := fun _ => writeHeader) rfl

theorem invalidate_apply (hp : j.disk.plan = []) (hsize : 64 ≤ j.disk.size) :
    invalidate j = .ok () (j.withHeader j.header.setInvalidFlag) := by
  rw [invalidate_eq]
  exact writeHeader_apply (j := { j with header := j.header.setInvalidFlag }) hp hsize

theorem validate_apply (hp : j.disk.plan = []) (hsize : 64 ≤ j.disk.size) :
    validate j = .ok () (j.withHeader j.header.setValidFlag) := by
  rw [validate_eq]
  exact writeHeader_apply (j := { j with header := j.header.setValidFlag }) hp hsize

/-- What `writeHeader` has done when it returns, whatever was planned for the device. -/
theorem writeHeader_eq_ok {j' : Journal} (h : writeHeader j = .ok () j') :
    64 ≤ j.disk.size ∧ ∃ plan, j' = withHeader { j with disk := j.disk.replan plan } j.header := by
  have hlen : j.header.toBytes.length = 64 := Header.length_toBytes _
  have hne : j.header.toBytes ≠ [] := by
    intro h0
    simp [h0] at hlen
  rw [writeHeader, diskWriteAt] at h
  split at h
  · rename_i d hw
    cases h
    obtain ⟨hfit, plan, rfl⟩ := Device.writeAt_eq_ok hw hne
    exact ⟨by simpa [hlen] using hfit, plan, rfl⟩
  · cases h
  · cases h

theorem validate_eq_ok {j' : Journal} (h : validate j = .ok () j') :
    64 ≤ j.disk.size ∧ ∃ plan, j' =
      withHeader { j with disk := j.disk.replan plan } j.header.setValidFlag := by
  rw [validate_eq] at h
  exact writeHeader_eq_ok (j := { j with header := j.header.setValidFlag }) h

theorem invalidate_eq_ok {j' : Journal} (h : invalidate j = .ok () j') :
    64 ≤ j.disk.size ∧ ∃ plan, j' =
      withHeader { j with disk := j.disk.replan plan } j.header.setInvalidFlag := by
  rw [invalidate_eq] at h
  exact writeHeader_eq_ok (j := { j with header := j.header.setInvalidFlag }) h

theorem headerStored_withHeader (h : Header) (hsize : 64 ≤ j.disk.size) :
    HeaderStored (j.withHeader h) := by
  have := j.disk.read_store 0 (show 0 + h.toBytes.length ≤ j.disk.size by simpa using hsize)
  rwa [Header.length_toBytes] at this

theorem frame_withHeader (j : Journal) (h : Header) :
    Device.Frame 0 64 j.disk (j.withHeader h).disk := by
  simpa [withHeader] using j.disk.frame_store 0 h.toBytes

/-- Writing a header with the same sections leaves the entries. -/
theorem Contains.withHeader {ws bs : List BlockInfo} {h : Header} (hj : Contains j ws bs)
    (hw : h.bufWrites = j.header.bufWrites) (hb : h.corrBlocks = j.header.corrBlocks) :
    Contains (j.withHeader h) ws bs := by
  have hf := j.frame_withHeader h
  have hl : Layout h j.disk.size := ⟨by rw [hw, hb]; exact hj.layout.bufWrites,
    by rw [hb]; exact hj.layout.corrBlocks⟩
  refine ⟨hl, hj.plan, hj.writeOffset, hj.correctOffset, ?_, ?_⟩
  · exact Section.Holds.frame (hw ▸ hj.writes) hl.bufWrites_within hf (.inl le_rfl)
  · exact Section.Holds.frame (hb ▸ hj.blocks) hl.corrBlocks_within hf (.inl le_rfl)

theorem HeaderStored.frame {d : Device} {a b : ℕ} (h : HeaderStored j)
    (hf : Device.Frame a b j.disk d) (ha : 64 ≤ a) : HeaderStored { j with disk := d } :=
  (hf.read (.inl ha)).trans h

end Flags

/-! ### Resetting -/

section Reset
variable {j : Journal} {n m : ℕ}

theorem clearSectionTo_succeeds {s : Section} {lo : ℕ} (hs : s.Within lo j.disk.size)
    (hp : j.disk.plan = []) (hn : n ≤ s.count) (hfree : s.FreeFrom j.disk n) :
    Succeeds (clearSectionTo s n) j fun _ j' => ∃ d, j' = { j with disk := d } ∧
      Device.Frame s.start (s.start + s.count * s.slot) j.disk d ∧ s.Holds d [] := by
  rw [clearSectionTo, if_neg (Nat.not_lt.mpr hn)]
  refine Ends.mono (clearSlots_succeeds hs hp hn) ?_ fun _ _ => id
  rintro _ _ ⟨d, rfl, hf, hd⟩
  refine ⟨d, rfl, hf, fun i hi => ?_⟩
  rw [hd i]
  split
  · rfl
  · rename_i hin
    exact hfree i hi (Nat.not_lt.mp hin)

/-- **A bounded reset empties the journal** when the slots behind the bounds are free. -/
theorem resetTo_succeeds (hl : Layout j.header j.disk.size) (hp : j.disk.plan = [])
    (hn : n ≤ j.header.bufWrites.count) (hm : m ≤ j.header.corrBlocks.count)
    (hw : j.header.bufWrites.FreeFrom j.disk n) (hb : j.header.corrBlocks.FreeFrom j.disk m) :
    Succeeds (resetTo n m) j fun _ j' => Contains j' [] [] ∧ HeaderStored j' ∧
      j'.header = j.header.setInvalidFlag ∧ j'.disk.size = j.disk.size := by
  have hf₁ := j.frame_withHeader j.header.setInvalidFlag
  have hstored := headerStored_withHeader j.header.setInvalidFlag hl.size_ge
  refine Ends.bind (R := fun _ j₁ => j₁ = j.withHeader j.header.setInvalidFlag)
    (by rw [Ends, invalidate_apply hp hl.size_ge]) ?_
  rintro _ _ rfl
  refine Ends.bind (clearSectionTo_succeeds (j := j.withHeader j.header.setInvalidFlag)
    hl.bufWrites_within hp hn (hw.frame hl.bufWrites_within hf₁ (.inl le_rfl))) ?_
  rintro _ _ ⟨d₂, rfl, hf₂, hw₂⟩
  have hb₂ : j.header.corrBlocks.FreeFrom d₂ m :=
    (hb.frame hl.corrBlocks_within hf₁ (.inl le_rfl)).frame hl.corrBlocks hf₂
      (.inl hl.bufWrites.le_hi)
  have hl₂ : j.header.corrBlocks.Within 64 d₂.size := by
    rw [hf₂.size]
    exact hl.corrBlocks_within
  refine Ends.bind (clearSectionTo_succeeds
    (j := { j.withHeader j.header.setInvalidFlag with disk := d₂ }) hl₂ (hf₂.plan.trans hp) hm
    hb₂) ?_
  rintro _ _ ⟨d₃, rfl, hf₃, hb₃⟩
  have hsize : d₃.size = j.disk.size := hf₃.size.trans hf₂.size
  refine ⟨⟨?_, hf₃.plan.trans (hf₂.plan.trans hp), rfl, rfl, ?_, hb₃⟩, ?_, rfl, hsize⟩
  · rw [hsize]
    exact ⟨hl.bufWrites, hl.corrBlocks⟩
  · exact hw₂.frame hl.bufWrites hf₃ (.inr le_rfl)
  · exact (hstored.frame hf₂ hl.bufWrites.lo_le).frame hf₃ hl.corrBlocks_within.lo_le

end Reset

/-! ### Opening -/

theorem readHeader_of_stored {j : Journal} (hh : HeaderStored j) (hsize : 64 ≤ j.disk.size) :
    readHeader j.disk = .ok j.header := by
  have h64 : getHeaderByteSize.toNat = 64 := rfl
  rw [readHeader, h64, Device.readAt_of_le (by simpa using hsize), hh]
  simp only [Header.ofBytes_toBytes]

/-- What `openJournal` found out if it returns a journal. -/
theorem openJournal_eq_ok {d : Device} {j : Journal} (h : openJournal d = .ok j) :
    j.disk = d ∧ readHeader d = .ok j.header ∧ j.header.magic = bdrMagic ∧
      firstAvailable j.header.bufWrites .noAvailableBufferWrite
        (List.range j.header.bufWrites.count) ⟨d, 0, 0, j.header⟩ =
        .ok j.writeOffset ⟨d, 0, 0, j.header⟩ ∧
      firstAvailable j.header.corrBlocks .noAvailableCorrectBlock
        (List.range j.header.corrBlocks.count) ⟨d, 0, 0, j.header⟩ =
        .ok j.correctOffset ⟨d, 0, 0, j.header⟩ := by
  rw [openJournal] at h
  cases hr : readHeader d with
  | error e => rw [hr] at h; cases h
  | ok header =>
      simp only [hr] at h
      split at h
      · cases h
      · rename_i hm
        have hmagic : verifyMagic header.magic = true := by simpa using hm
        cases hf : findOffsets ⟨d, 0, 0, header⟩ with
        | error e j' => rw [hf] at h; cases h
        | ok wc j' =>
            obtain ⟨w, j₁, hw, h₁⟩ := bind_eq_ok.mp hf
            obtain ⟨c, j₂, hc, h₂⟩ := bind_eq_ok.mp h₁
            obtain ⟨-, rfl⟩ := firstAvailable_eq_ok hw
            obtain ⟨-, rfl⟩ := firstAvailable_eq_ok hc
            cases h₂
            rw [hf] at h
            cases h
            exact ⟨rfl, rfl, (beq_iff_eq.mp hmagic).symm, hw, hc⟩

/-- **When a journal opens**: its header is stored, and each section has a first slot that is
free. -/
theorem openJournal_iff {d : Device} {j : Journal} (hl : Layout j.header d.size) :
    openJournal d = .ok j ↔ j.disk = d ∧ readHeader d = .ok j.header ∧
      j.header.magic = bdrMagic ∧ j.header.bufWrites.Found d j.writeOffset ∧
      j.header.corrBlocks.Found d j.correctOffset := by
  constructor
  · intro h
    obtain ⟨hd, hr, hm, hw, hc⟩ := openJournal_eq_ok h
    exact ⟨hd, hr, hm,
      (firstAvailable_iff (j := ⟨d, 0, 0, j.header⟩) hl.bufWrites_within).mp hw,
      (firstAvailable_iff (j := ⟨d, 0, 0, j.header⟩) hl.corrBlocks_within).mp hc⟩
  · rintro ⟨rfl, hr, hm, hw, hc⟩
    have h₁ := (firstAvailable_iff (j := ⟨j.disk, 0, 0, j.header⟩)
      (e := .noAvailableBufferWrite) hl.bufWrites_within).mpr hw
    have h₂ := (firstAvailable_iff (j := ⟨j.disk, 0, 0, j.header⟩)
      (e := .noAvailableCorrectBlock) hl.corrBlocks_within).mpr hc
    have hfind : findOffsets ⟨j.disk, 0, 0, j.header⟩ =
        .ok (j.writeOffset, j.correctOffset) ⟨j.disk, 0, 0, j.header⟩ :=
      (bind_of_ok h₁).trans (bind_of_ok h₂)
    have hmagic : (!verifyMagic j.header.magic) = false := by simp [verifyMagic, hm]
    rw [openJournal, hr]
    simp only [hmagic, hfind, Bool.false_eq_true, if_false]

/-- **A journal with room left reopens as it was**: valid entries whose ends do not wrap around,
and a free slot in each section. -/
theorem openJournal_of_contains {j : Journal} {ws bs : List BlockInfo} (hj : Contains j ws bs)
    (hh : HeaderStored j) (hm : j.header.magic = bdrMagic)
    (hw : ∀ w ∈ ws, w.isValid ∧ 12 + w.size.toNat ≤ j.header.bufWrites.slot ∧
      12 + w.size.toNat < 2 ^ 32)
    (hb : ∀ b ∈ bs, b.isValid ∧ 12 + b.size.toNat ≤ j.header.corrBlocks.slot ∧
      12 + b.size.toNat < 2 ^ 32)
    (hwl : ws.length < j.header.bufWrites.count) (hbl : bs.length < j.header.corrBlocks.count) :
    openJournal j.disk = .ok j := by
  refine (openJournal_iff hj.layout).mpr
    ⟨rfl, readHeader_of_stored hh hj.layout.size_ge, hm, ?_, ?_⟩
  · rw [hj.writeOffset]
    exact hj.writes.found hj.layout.bufWrites_within hw hwl
  · rw [hj.correctOffset]
    exact hj.blocks.found hj.layout.corrBlocks_within hb hbl

/-! ### What only writes to the disk -/

section Keeps
variable {I : Journal → Prop} (hI : ∀ j d, I j → I { j with disk := d })
include hI

theorem diskWriteAt_keeps (off : ℕ) (data : List UInt8) : Keeps I (diskWriteAt off data) := by
  intro j hj
  rw [Ends, diskWriteAt]
  rcases j.disk.writeAt off data with ⟨d, _ | _ | _⟩ <;> exact hI j d hj

omit hI in
theorem orPanic_keeps {α : Type} (a : Option α) : Keeps I (orPanic a) := by
  cases a with
  | none => exact Keeps.throw _
  | some a => exact Keeps.pure a

theorem writeSlot_keeps (s : Section) (index : ℕ) (info : BlockInfo) :
    Keeps I (writeSlot s index info) := by
  have hwrite := Keeps.bind (orPanic_keeps (I := I) (serialize info (List.replicate s.slot 0)))
    fun data => diskWriteAt_keeps hI (s.offset index) data
  unfold writeSlot
  split
  · exact Keeps.bind (Keeps.throw _) fun _ => hwrite
  · exact hwrite

theorem clearSectionTo_keeps (s : Section) (n : ℕ) : Keeps I (clearSectionTo s n) := by
  have hclear : Keeps I (clearSlots s n) :=
    Keeps.bind (orPanic_keeps _) fun _ => Keeps.forM _ fun i _ => diskWriteAt_keeps hI _ _
  unfold clearSectionTo
  split
  · exact Keeps.bind (Keeps.throw _) fun _ => hclear
  · exact hclear

end Keeps

/-- However `resetTo` ends, the journal is marked invalid. -/
theorem resetTo_invalidates (n m : ℕ) (j : Journal) :
    Ends (resetTo n m) j (fun _ j' => j'.header = j.header.setInvalidFlag)
      fun _ j' => j'.header = j.header.setInvalidFlag := by
  have hinv : Ends invalidate j (fun _ j' => j'.header = j.header.setInvalidFlag)
      fun _ j' => j'.header = j.header.setInvalidFlag := by
    rw [Ends, invalidate_eq, writeHeader]
    exact diskWriteAt_keeps (fun _ _ h => h) 0 _ { j with header := j.header.setInvalidFlag } rfl
  refine hinv.bind fun _ j' hj' => ?_
  have hclear : ∀ s k, Keeps (fun j' => j'.header = j.header.setInvalidFlag)
      (onSection s (clearSectionTo · k)) := fun s k =>
    Keeps.get_bind fun _ => clearSectionTo_keeps (fun _ _ h => h) _ _
  refine ((hclear _ n).bind fun _ => (hclear _ m).bind fun _ => ?_) j' hj'
  exact Keeps.modify fun _ hj => hj

end Bdr.Journal
