import Bdr.Server.Reopen
import Mathlib.Data.UInt

/-!
# Journal — Table

A journal as a header and two arrays of entries.  `table j` is what `ReadHeader`,
`ReadBufferWrite` and `ReadCorrectBlock` return for `j`, index by index; a `Call` does to it what
the name of the call says, and nothing else (`Table.call`).

On a layout that `newJournal` accepts, the calls follow the table as long as what is stored can be
read back (`followsTable_iff`): the `uint32` sums in the encoder and the decoder wrap around for
slots of four gigabytes, and the entry is then lost or the call panics.
-/

namespace Bdr.Journal

open Server (padded Storable readBack_eq_padded_iff sevens)

/-- The calls that write to the journal. -/
inductive Call where
  | writeHeader
  | validate
  | invalidate
  | writeBufferWrite (index : ℕ) (write : WriteInfo)
  | writeCorrectBlock (index : ℕ) (block : CorrectBlockInfo)
  | clearWriteSectionTo (bufferWriteOff : ℕ)
  | clearCorrectBlockSectionTo (correctBlockOff : ℕ)
  | clearWriteSection
  | clearCorrectBlockSection

namespace Call

def op : Call → Op Unit
  | .writeHeader => Journal.writeHeader
  | .validate => Journal.validate
  | .invalidate => Journal.invalidate
  | .writeBufferWrite i w => Journal.writeBufferWrite i w
  | .writeCorrectBlock i b => Journal.writeCorrectBlock i b
  | .clearWriteSectionTo n => Journal.clearWriteSectionTo n
  | .clearCorrectBlockSectionTo n => Journal.clearCorrectBlockSectionTo n
  | .clearWriteSection => Journal.clearWriteSection
  | .clearCorrectBlockSection => Journal.clearCorrectBlockSection

/-- The index of the call is one of the section's. -/
def InRange (h : Header) : Call → Prop
  | .writeBufferWrite i _ => i < h.bufWrites.count
  | .writeCorrectBlock i _ => i < h.corrBlocks.count
  | .clearWriteSectionTo n => n ≤ h.bufWrites.count
  | .clearCorrectBlockSectionTo n => n ≤ h.corrBlocks.count
  | _ => True

/-- The entry is no larger than a slot has room for. -/
def Fits (h : Header) : Call → Prop
  | .writeBufferWrite _ w => 12 + w.size.toNat ≤ h.bufWrites.slot
  | .writeCorrectBlock _ b => 12 + b.size.toNat ≤ h.corrBlocks.slot
  | _ => True

/-- What the call stores, if anything, can be read back. -/
def Sound (h : Header) : Call → Prop
  | .writeBufferWrite i w => i < h.bufWrites.count → Storable w
  | .writeCorrectBlock i b => i < h.corrBlocks.count → Storable b
  | _ => True

end Call

/-! ### The table -/

/-- A header in memory, the header on the device, and an array of entries for each section, as the
reading functions return them. -/
structure Table where
  memory : Header
  header : Except (Fault Error) Header
  writes : ℕ → Except (Fault Error) WriteInfo
  blocks : ℕ → Except (Fault Error) CorrectBlockInfo

/-- What a call is for. -/
def Table.call (t : Table) : Call → Table
  | .writeHeader => { t with header := .ok t.memory }
  | .validate => { t with
      memory := t.memory.setValidFlag
      header := .ok t.memory.setValidFlag }
  | .invalidate => { t with
      memory := t.memory.setInvalidFlag
      header := .ok t.memory.setInvalidFlag }
  | .writeBufferWrite i w => { t with writes := Function.update t.writes i (.ok (padded w)) }
  | .writeCorrectBlock i b => { t with blocks := Function.update t.blocks i (.ok (padded b)) }
  | .clearWriteSectionTo n => { t with
      writes := fun i => if i < n then .ok invalidInfo else t.writes i }
  | .clearCorrectBlockSectionTo n => { t with
      blocks := fun i => if i < n then .ok invalidInfo else t.blocks i }
  | .clearWriteSection => { t with
      writes := fun i => if i < t.memory.bufWrites.count then .ok invalidInfo else t.writes i }
  | .clearCorrectBlockSection => { t with
      blocks := fun i => if i < t.memory.corrBlocks.count then .ok invalidInfo else t.blocks i }

/-- What a call returns. -/
def returned {α : Type} (x : Op α) (j : Journal) : Except (Fault Error) α :=
  match x j with
  | .ok a _ => .ok a
  | .error e _ => .error e

/-- What the journal reads back. -/
def table (j : Journal) : Table where
  memory := j.header
  header := readHeader j.disk
  writes i := returned (readBufferWrite i) j
  blocks i := returned (readCorrectBlock i) j

/-- Each call in turn does to the table what it is for; one that is out of range returns
`ErrInvalidSize`, and the journal with its device stays as it is. -/
def FollowsTable : Journal → List Call → Prop
  | _, [] => True
  | j, c :: cs =>
      (c.InRange j.header → ∃ j', c.op j = .ok () j' ∧ table j' = (table j).call c ∧
        FollowsTable j' cs) ∧
      (¬ c.InRange j.header → c.op j = .error (.err .invalidSize) j ∧ FollowsTable j cs)

/-! ### What a slot reads back -/

section Readings
variable {j : Journal} {s : Section} {lo i : ℕ}

theorem returned_readSlot (hs : s.Within lo j.disk.size) (i : ℕ) :
    returned (readSlot s i) j =
      if i < s.count then (deserialize (s.bytesAt j.disk i)).elim (.error .panic) .ok
      else .error (.err .invalidSize) := by
  split
  · rename_i hi
    rw [returned, readSlot_apply hs hi]
    cases deserialize (s.bytesAt j.disk i) <;> rfl
  · rename_i hi
    rw [returned, readSlot, if_pos (Nat.not_lt.mp hi)]
    rfl

/-- A slot with the same bytes reads the same. -/
theorem returned_congr {j' : Journal} (hs : s.Within lo j.disk.size)
    (hd : j'.disk.size = j.disk.size)
    (hb : i < s.count → s.bytesAt j'.disk i = s.bytesAt j.disk i) :
    returned (readSlot s i) j' = returned (readSlot s i) j := by
  have hs' : s.Within lo j'.disk.size := by rwa [hd]
  rw [returned_readSlot hs', returned_readSlot hs]
  split
  · rename_i hi
    rw [hb hi]
  · rfl

theorem returned_of_entryBytes {e : BlockInfo} (hs : s.Within lo j.disk.size) (hi : i < s.count)
    (hfit : 12 + e.size.toNat ≤ s.slot) (hb : s.bytesAt j.disk i = entryBytes s.slot e) :
    returned (readSlot s i) j =
      if 12 + e.size.toNat < 2 ^ 32 then .ok (readBack e) else .error .panic := by
  rw [returned_readSlot hs, if_pos hi, hb, deserialize_entryBytes hfit]
  split <;> rfl

theorem returned_of_cleared (hs : s.Within lo j.disk.size) (hi : i < s.count)
    (hb : s.bytesAt j.disk i = entryBytes s.slot invalidInfo) :
    returned (readSlot s i) j = .ok invalidInfo := by
  have h12 : 12 + invalidInfo.size.toNat ≤ s.slot := hs.slot_ge
  rw [returned_of_entryBytes hs hi h12 hb]
  rfl

/-- **What was stored is read back**, just when it is storable. -/
theorem returned_store_iff {e : BlockInfo} (hs : s.Within lo j.disk.size) (hi : i < s.count)
    (hfit : 12 + e.size.toNat ≤ s.slot) :
    returned (readSlot s i)
        { j with disk := j.disk.store (s.start + i * s.slot) (entryBytes s.slot e) } =
      .ok (padded e) ↔ Storable e := by
  have hb := Section.bytesAt_store_self (length_entryBytes hs.slot_ge e)
    ((s.slot_le hi).trans hs.le_hi)
  rw [returned_of_entryBytes
    (j := { j with disk := j.disk.store (s.start + i * s.slot) (entryBytes s.slot e) })
    hs hi hfit hb, Storable, ← readBack_eq_padded_iff]
  by_cases hw : 12 + e.size.toNat < 2 ^ 32
  · rw [if_pos hw]
    simp only [Except.ok.injEq, hw, true_and]
  · rw [if_neg hw]
    simp only [reduceCtorEq, hw, false_and]

theorem readings_store_iff {e : BlockInfo} (hs : s.Within lo j.disk.size) (hi : i < s.count)
    (hfit : 12 + e.size.toNat ≤ s.slot) :
    (fun k => returned (readSlot s k)
        { j with disk := j.disk.store (s.start + i * s.slot) (entryBytes s.slot e) }) =
      Function.update (fun k => returned (readSlot s k) j) i (.ok (padded e)) ↔ Storable e := by
  rw [← returned_store_iff hs hi hfit]
  constructor
  · intro h
    simpa using congrFun h i
  · intro h
    funext k
    rcases eq_or_ne k i with rfl | hne
    · rw [Function.update_self]
      exact h
    · rw [Function.update_of_ne hne]
      exact returned_congr hs rfl fun _ =>
        Section.bytesAt_store_ne (length_entryBytes hs.slot_ge e) hne

theorem readings_clear {d : Device} {n : ℕ} (hs : s.Within lo j.disk.size) (hn : n ≤ s.count)
    (hd : d.size = j.disk.size)
    (hb : ∀ i, s.bytesAt d i = if i < n then entryBytes s.slot invalidInfo
      else s.bytesAt j.disk i) :
    (fun k => returned (readSlot s k) { j with disk := d }) =
      fun k => if k < n then .ok invalidInfo else returned (readSlot s k) j := by
  have hs' : s.Within lo d.size := by rwa [hd]
  funext k
  by_cases hk : k < n
  · rw [if_pos hk]
    exact returned_of_cleared (j := { j with disk := d }) hs' (hk.trans_le hn)
      ((hb k).trans (if_pos hk))
  · rw [if_neg hk]
    exact returned_congr hs hd fun _ => (hb k).trans (if_neg hk)

end Readings

/-! ### What a call leaves alone -/

section Frames
variable {j : Journal} {d : Device} {h : Header}

theorem readHeader_frame {d' : Device} {a b : ℕ} (hf : Device.Frame a b d d') (ha : 64 ≤ a) :
    readHeader d' = readHeader d := by
  have h64 : getHeaderByteSize.toNat = 64 := rfl
  rw [readHeader, readHeader, h64, Device.readAt, Device.readAt, hf.size, hf.read (.inl ha)]

/-- The buffer writes change, and nothing else does. -/
theorem table_of_writes (hl : Layout j.header j.disk.size) (hf : Device.Frame
      j.header.bufWrites.start (j.header.bufWrites.start +
        j.header.bufWrites.count * j.header.bufWrites.slot) j.disk d) :
    table { j with disk := d } = { table j with
      writes := fun i => returned (readSlot j.header.bufWrites i) { j with disk := d } } := by
  have hh : readHeader d = readHeader j.disk := readHeader_frame hf hl.bufWrites_within.lo_le
  have hb : ∀ i, returned (readSlot j.header.corrBlocks i) { j with disk := d } =
      returned (readSlot j.header.corrBlocks i) j := fun i =>
    returned_congr hl.corrBlocks hf.size fun hi =>
      Section.bytesAt_frame hl.corrBlocks hf (.inl hl.bufWrites.le_hi) hi
  exact congr (congrArg (fun x y => Table.mk j.header x
    (fun i => returned (readSlot j.header.bufWrites i) { j with disk := d }) y) hh) (funext hb)

/-- The correct blocks change, and nothing else does. -/
theorem table_of_blocks (hl : Layout j.header j.disk.size) (hf : Device.Frame
      j.header.corrBlocks.start (j.header.corrBlocks.start +
        j.header.corrBlocks.count * j.header.corrBlocks.slot) j.disk d) :
    table { j with disk := d } = { table j with
      blocks := fun i => returned (readSlot j.header.corrBlocks i) { j with disk := d } } := by
  have hh : readHeader d = readHeader j.disk := readHeader_frame hf hl.corrBlocks_within.lo_le
  have hw : ∀ i, returned (readSlot j.header.bufWrites i) { j with disk := d } =
      returned (readSlot j.header.bufWrites i) j := fun i =>
    returned_congr hl.bufWrites_within hf.size fun hi =>
      Section.bytesAt_frame hl.bufWrites hf (.inr le_rfl) hi
  exact congr (congrArg (fun x y => Table.mk j.header x y
    fun i => returned (readSlot j.header.corrBlocks i) { j with disk := d }) hh) (funext hw)

/-- The header changes, and nothing else does. -/
theorem table_withHeader (hl : Layout j.header j.disk.size)
    (hw : h.bufWrites = j.header.bufWrites) (hb : h.corrBlocks = j.header.corrBlocks) :
    table (j.withHeader h) = { table j with memory := h, header := .ok h } := by
  have hf := j.frame_withHeader h
  have hh : readHeader (j.withHeader h).disk = .ok h :=
    readHeader_of_stored (headerStored_withHeader h hl.size_ge) hl.size_ge
  have hws : ∀ i, returned (readSlot h.bufWrites i) (j.withHeader h) =
      returned (readSlot j.header.bufWrites i) j := by
    intro i
    rw [hw]
    exact returned_congr (j := j) hl.bufWrites_within hf.size fun hi =>
      Section.bytesAt_frame hl.bufWrites_within hf (.inl le_rfl) hi
  have hbs : ∀ i, returned (readSlot h.corrBlocks i) (j.withHeader h) =
      returned (readSlot j.header.corrBlocks i) j := by
    intro i
    rw [hb]
    exact returned_congr (j := j) hl.corrBlocks_within hf.size fun hi =>
      Section.bytesAt_frame hl.corrBlocks_within hf (.inl le_rfl) hi
  exact congr (congr (congrArg (Table.mk h) hh) (funext hws)) (funext hbs)

end Frames

/-! ### One call -/

/-- A journal on a device whose writes succeed, with the sections of `h` laid out on it. -/
structure Ready (h : Header) (j : Journal) : Prop where
  plan : j.disk.plan = []
  layout : Layout j.header j.disk.size
  writes : j.header.bufWrites = h.bufWrites
  blocks : j.header.corrBlocks = h.corrBlocks

section Calls
variable {h : Header} {j : Journal}

theorem Ready.withHeader (hj : Ready h j) {h' : Header}
    (hw : h'.bufWrites = j.header.bufWrites) (hb : h'.corrBlocks = j.header.corrBlocks) :
    Ready h (j.withHeader h') where
  plan := hj.plan
  layout := ⟨by rw [Journal.withHeader, hw, hb]; exact hj.layout.bufWrites,
    by rw [Journal.withHeader, hb]; exact hj.layout.corrBlocks⟩
  writes := hw.trans hj.writes
  blocks := hb.trans hj.blocks

theorem Ready.withDisk (hj : Ready h j) {d : Device} {a b : ℕ} (hf : Device.Frame a b j.disk d) :
    Ready h { j with disk := d } where
  plan := hf.plan.trans hj.plan
  layout := by rw [hf.size]; exact hj.layout
  writes := hj.writes
  blocks := hj.blocks

/-- An entry that is stored in a slot of the section and can be read back. -/
theorem writeSlot_of_storable {s : Section} {lo i : ℕ} {e : BlockInfo}
    (hs : s.Within lo j.disk.size) (hp : j.disk.plan = []) (hi : i < s.count)
    (hfit : 12 + e.size.toNat ≤ s.slot) (he : Storable e) :
    writeSlot s i e j = .ok () { j with
      disk := j.disk.store (s.start + i * s.slot) (entryBytes s.slot e) } := by
  have h₁ := he.1
  have h₂ := dataSize_le_size e
  rw [writeSlot_apply hs hp hi hfit, if_pos (by omega)]

/-- The call has followed the table, to a journal that is ready for the next. -/
def Follows (h : Header) (j : Journal) (c : Call) : Prop :=
  ∃ j', c.op j = .ok () j' ∧ table j' = (table j).call c ∧ Ready h j'

theorem follows_writeBufferWrite (hj : Ready h j) {i : ℕ} {w : WriteInfo}
    (hi : i < j.header.bufWrites.count) (hfit : 12 + w.size.toNat ≤ j.header.bufWrites.slot)
    (hw : Storable w) : Follows h j (.writeBufferWrite i w) := by
  have hs := hj.layout.bufWrites_within
  have hf := Section.frame_store (d := j.disk) hs.slot_ge hi w
  refine ⟨_, writeSlot_of_storable hs hj.plan hi hfit hw, ?_, hj.withDisk hf⟩
  rw [table_of_writes hj.layout hf, (readings_store_iff hs hi hfit).mpr hw]
  rfl

theorem follows_writeCorrectBlock (hj : Ready h j) {i : ℕ} {b : CorrectBlockInfo}
    (hi : i < j.header.corrBlocks.count) (hfit : 12 + b.size.toNat ≤ j.header.corrBlocks.slot)
    (hb : Storable b) : Follows h j (.writeCorrectBlock i b) := by
  have hs := hj.layout.corrBlocks_within
  have hf := Section.frame_store (d := j.disk) hs.slot_ge hi b
  refine ⟨_, writeSlot_of_storable hs hj.plan hi hfit hb, ?_, hj.withDisk hf⟩
  rw [table_of_blocks hj.layout hf, (readings_store_iff hs hi hfit).mpr hb]
  rfl

theorem follows_header (hj : Ready h j) {c : Call} {h' : Header}
    (hop : c.op j = .ok () (j.withHeader h'))
    (hc : (table j).call c = { table j with memory := h', header := .ok h' })
    (hw : h'.bufWrites = j.header.bufWrites) (hb : h'.corrBlocks = j.header.corrBlocks) :
    Follows h j c :=
  ⟨_, hop, (table_withHeader hj.layout hw hb).trans hc.symm, hj.withHeader hw hb⟩

/-- The first slots of the buffer writes cleared. -/
theorem clearSlots_writes (hj : Ready h j) {n : ℕ} (hn : n ≤ j.header.bufWrites.count) :
    ∃ j', clearSlots j.header.bufWrites n j = .ok () j' ∧ table j' = { table j with
      writes := fun i => if i < n then .ok invalidInfo else (table j).writes i } ∧ Ready h j' := by
  have hs := hj.layout.bufWrites_within
  obtain ⟨_, _, hop, d, rfl, hf, hd⟩ := succeeds_iff.mp (clearSlots_succeeds hs hj.plan hn)
  refine ⟨_, hop, ?_, hj.withDisk hf⟩
  rw [table_of_writes hj.layout hf, readings_clear hs hn hf.size hd]
  rfl

/-- The first slots of the correct blocks cleared. -/
theorem clearSlots_blocks (hj : Ready h j) {n : ℕ} (hn : n ≤ j.header.corrBlocks.count) :
    ∃ j', clearSlots j.header.corrBlocks n j = .ok () j' ∧ table j' = { table j with
      blocks := fun i => if i < n then .ok invalidInfo else (table j).blocks i } ∧ Ready h j' := by
  have hs := hj.layout.corrBlocks_within
  obtain ⟨_, _, hop, d, rfl, hf, hd⟩ := succeeds_iff.mp (clearSlots_succeeds hs hj.plan hn)
  refine ⟨_, hop, ?_, hj.withDisk hf⟩
  rw [table_of_blocks hj.layout hf, readings_clear hs hn hf.size hd]
  rfl

/-- **A call in range follows the table** if what it stores can be read back. -/
theorem follows_of_sound (hj : Ready h j) {c : Call} (hin : c.InRange j.header)
    (hfit : c.Fits j.header) (hc : c.Sound j.header) : Follows h j c := by
  have hp := hj.plan
  have hsize := hj.layout.size_ge
  cases c with
  | writeHeader => exact follows_header hj (writeHeader_apply hp hsize) rfl rfl rfl
  | validate => exact follows_header hj (validate_apply hp hsize) rfl rfl rfl
  | invalidate => exact follows_header hj (invalidate_apply hp hsize) rfl rfl rfl
  | writeBufferWrite i w => exact follows_writeBufferWrite hj hin hfit (hc hin)
  | writeCorrectBlock i b => exact follows_writeCorrectBlock hj hin hfit (hc hin)
  | clearWriteSectionTo n =>
      obtain ⟨j', hop, ht, hj'⟩ := clearSlots_writes hj hin
      refine ⟨j', ?_, ht, hj'⟩
      show clearSectionTo j.header.bufWrites n j = _
      rw [clearSectionTo, if_neg (Nat.not_lt.mpr hin)]
      exact hop
  | clearCorrectBlockSectionTo n =>
      obtain ⟨j', hop, ht, hj'⟩ := clearSlots_blocks hj hin
      refine ⟨j', ?_, ht, hj'⟩
      show clearSectionTo j.header.corrBlocks n j = _
      rw [clearSectionTo, if_neg (Nat.not_lt.mpr hin)]
      exact hop
  | clearWriteSection => exact clearSlots_writes hj le_rfl
  | clearCorrectBlockSection => exact clearSlots_blocks hj le_rfl

/-- A call that follows the table has stored what can be read back. -/
theorem sound_of_follows (hj : Ready h j) {c : Call} (hfit : c.Fits j.header) {j' : Journal}
    (hop : c.op j = .ok () j') (ht : table j' = (table j).call c) : c.Sound j.header := by
  cases c with
  | writeBufferWrite i w =>
      intro hi
      have hs := hj.layout.bufWrites_within
      obtain rfl := writeSlot_eq_ok hs hj.plan hi hop
      exact (readings_store_iff hs hi hfit).mp (congrArg Table.writes ht)
  | writeCorrectBlock i b =>
      intro hi
      have hs := hj.layout.corrBlocks_within
      obtain rfl := writeSlot_eq_ok hs hj.plan hi hop
      exact (readings_store_iff hs hi hfit).mp (congrArg Table.blocks ht)
  | writeHeader | validate | invalidate | clearWriteSectionTo n | clearCorrectBlockSectionTo n
  | clearWriteSection | clearCorrectBlockSection => trivial

/-- A call out of range returns `ErrInvalidSize` and changes nothing. -/
theorem op_of_not_inRange {c : Call} (hc : ¬ c.InRange j.header) :
    c.op j = .error (.err .invalidSize) j := by
  cases c with
  | writeBufferWrite i w =>
      show writeSlot j.header.bufWrites i w j = _
      rw [writeSlot, if_pos (Nat.not_lt.mp hc)]
      rfl
  | writeCorrectBlock i b =>
      show writeSlot j.header.corrBlocks i b j = _
      rw [writeSlot, if_pos (Nat.not_lt.mp hc)]
      rfl
  | clearWriteSectionTo n =>
      show clearSectionTo j.header.bufWrites n j = _
      rw [clearSectionTo, if_pos (Nat.not_le.mp hc)]
      rfl
  | clearCorrectBlockSectionTo n =>
      show clearSectionTo j.header.corrBlocks n j = _
      rw [clearSectionTo, if_pos (Nat.not_le.mp hc)]
      rfl
  | writeHeader | validate | invalidate | clearWriteSection | clearCorrectBlockSection =>
      exact absurd trivial hc

end Calls

/-! ### Any sequence of calls -/

section Sequences
variable {h : Header} {j : Journal}

theorem Ready.fits_iff (hj : Ready h j) (c : Call) : c.Fits j.header ↔ c.Fits h := by
  cases c <;> simp only [Call.Fits, hj.writes, hj.blocks]

theorem Ready.sound_iff (hj : Ready h j) (c : Call) : c.Sound j.header ↔ c.Sound h := by
  cases c <;> simp only [Call.Sound, hj.writes, hj.blocks]

theorem followsTable_of_sound {cs : List Call} (hj : Ready h j) (hfit : ∀ c ∈ cs, c.Fits h)
    (hc : ∀ c ∈ cs, c.Sound h) : FollowsTable j cs := by
  induction cs generalizing j with
  | nil => trivial
  | cons c cs ih =>
      obtain ⟨hfit₁, hfit⟩ := List.forall_mem_cons.mp hfit
      obtain ⟨hc₁, hc⟩ := List.forall_mem_cons.mp hc
      refine ⟨fun hin => ?_, fun hout => ⟨op_of_not_inRange hout, ih hj hfit hc⟩⟩
      obtain ⟨j', hop, ht, hj'⟩ := follows_of_sound hj hin ((hj.fits_iff c).mpr hfit₁)
        ((hj.sound_iff c).mpr hc₁)
      exact ⟨j', hop, ht, ih hj' hfit hc⟩

theorem sound_of_followsTable {cs : List Call} (hj : Ready h j) (hfit : ∀ c ∈ cs, c.Fits h)
    (hcs : FollowsTable j cs) : ∀ c ∈ cs, c.Sound h := by
  induction cs generalizing j with
  | nil => exact fun c hc => absurd hc List.not_mem_nil
  | cons c cs ih =>
      obtain ⟨hfit₁, hfit⟩ := List.forall_mem_cons.mp hfit
      have hfit₁' := (hj.fits_iff c).mpr hfit₁
      obtain ⟨hin, hout⟩ := hcs
      by_cases hr : c.InRange j.header
      · obtain ⟨j₁, hop, ht, hcs⟩ := hin hr
        have hc := sound_of_follows hj hfit₁' hop ht
        -- the call has ended in one journal only, which is ready for the next
        obtain ⟨j₂, hop₂, -, hj₂⟩ := follows_of_sound hj hr hfit₁' hc
        obtain rfl : j₂ = j₁ := by
          rw [hop] at hop₂
          cases hop₂
          rfl
        exact List.forall_mem_cons.mpr ⟨(hj.sound_iff c).mp hc, ih hj₂ hfit hcs⟩
      · refine List.forall_mem_cons.mpr ⟨?_, ih hj hfit (hout hr).2⟩
        rw [← hj.sound_iff]
        cases c with
        | writeBufferWrite i w => exact fun hi => absurd hi hr
        | writeCorrectBlock i b => exact fun hi => absurd hi hr
        | writeHeader | validate | invalidate | clearWriteSectionTo n
        | clearCorrectBlockSectionTo n | clearWriteSection | clearCorrectBlockSection => trivial

end Sequences

section New
variable {disk : Device} {a b c : UInt64} {j : Journal}

theorem ready_of_newJournal (hnew : newJournal disk a b c = .ok j) (hplan : disk.plan = [])
    (hsize : 64 ≤ disk.size) (hb : 12 ≤ b.toNat) (hc : 12 ≤ c.toNat) : Ready j.header j := by
  obtain ⟨hl, rfl, -, -, -⟩ := newJournal_ok hnew hsize hb hc
  exact ⟨hplan, hl, rfl, rfl⟩

/-- **The journal is a header and two arrays.**  On a new journal, any sequence of calls with
entries no larger than their slots does to what is read back what the calls are for, and the calls
out of range are refused and change nothing, just when every entry stored is storable. -/
theorem followsTable_iff (calls : List Call) (hnew : newJournal disk a b c = .ok j)
    (hplan : disk.plan = []) (hsize : 64 ≤ disk.size) (hb : 12 ≤ b.toNat) (hc : 12 ≤ c.toNat)
    (hfit : ∀ call ∈ calls, call.Fits j.header) :
    FollowsTable j calls ↔ ∀ call ∈ calls, call.Sound j.header := by
  have hj := ready_of_newJournal hnew hplan hsize hb hc
  exact ⟨sound_of_followsTable hj hfit, followsTable_of_sound hj hfit⟩

end New

/-! ### Two journals -/

theorem followsTable_iff_roomyJournal :
    newJournal (sevens 116 (by decide)) 26 13 13 = .ok Server.roomyJournal ∧
      FollowsTable Server.roomyJournal [.validate, .writeBufferWrite 1 ⟨3, 1, [5, 6]⟩,
        .writeCorrectBlock 2 ⟨0, 1, [4]⟩, .clearCorrectBlockSection] :=
  ⟨rfl, (followsTable_iff [.validate, .writeBufferWrite 1 ⟨3, 1, [5, 6]⟩,
      .writeCorrectBlock 2 ⟨0, 1, [4]⟩, .clearCorrectBlockSection]
    (show newJournal (sevens 116 (by decide)) 26 13 13 = .ok Server.roomyJournal from rfl) rfl
    (by decide) (by decide) (by decide)
    (by simp [Call.Fits, Server.roomyJournal, Header.bufWrites, Header.corrBlocks])).mpr
    (by simp [Call.Sound, Server.roomyJournal, Header.corrBlocks, Storable])⟩

/-- One slot of four gigabytes for buffer writes, and one of thirteen bytes. -/
def hugeJournal : Journal :=
  ⟨sevens (64 + 2 ^ 32 + 13) (by decide), 1, 1, ⟨bdrMagic, 2 ^ 32, 1, 64, 13, 1, 64 + 2 ^ 32, 0⟩⟩

/-- A buffer write of the largest size the slot has room for: its end is zero in `uint32`, and
reading it back panics. -/
theorem not_followsTable_hugeJournal :
    newJournal (sevens (64 + 2 ^ 32 + 13) (by decide)) (2 ^ 32) (2 ^ 32) 13 = .ok hugeJournal ∧
      (∀ call ∈ [Call.writeBufferWrite 0 ⟨0, 2 ^ 32 - 12, []⟩], call.Fits hugeJournal.header) ∧
      ¬ FollowsTable hugeJournal [.writeBufferWrite 0 ⟨0, 2 ^ 32 - 12, []⟩] := by
  have hnew : newJournal (sevens (64 + 2 ^ 32 + 13) (by decide)) (2 ^ 32) (2 ^ 32) 13 =
      .ok hugeJournal := rfl
  have hfit : ∀ call ∈ [Call.writeBufferWrite 0 ⟨0, 2 ^ 32 - 12, []⟩],
      call.Fits hugeJournal.header := by
    intro call hc
    obtain rfl := List.mem_singleton.mp hc
    show 12 + (2 ^ 32 - 12 : UInt32).toNat ≤ (2 ^ 32 : UInt64).toNat
    decide
  refine ⟨hnew, hfit, fun h => ?_⟩
  have hj := ready_of_newJournal hnew rfl (by decide) (by decide) (by decide)
  have hs := sound_of_followsTable hj hfit h _ List.mem_cons_self
  exact absurd (hs (by decide)).1 (by decide)

end Bdr.Journal
