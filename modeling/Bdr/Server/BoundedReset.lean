import Bdr.Server.Journal
import Bdr.Support.Runs

/-!
# Server — BoundedReset

`ResetTo` clears the slots up to the offsets it is given, where `Reset` clears all of them.  With
the journal's own offsets the two do the same as long as the slots from the offsets on are free
(`Clearable`): a new journal counts every slot as filled, so that its first `ResetTo` is a full
one, and from then on an append, refused or not, leaves nothing behind the offsets.
-/

namespace Bdr.Server

open Journal

/-- What is done to a journal once it has been created: a scan is a `resetTo`, with the journal's
offsets, and what follows up to the next. -/
inductive ScanMove where
  | resetTo
  | append (a : Append)
  | validate
  | invalidate
  deriving DecidableEq, Repr

/-- The journal after a call that has to return. -/
def completed (x : Op Unit) (j : Journal) : Option Journal :=
  match x j with
  | .ok _ j' => some j'
  | .error _ _ => none

/-- The calls of an error-free run, where an append may be refused because its section is full. -/
def journalStep (j : Journal) : ScanMove → Option Journal
  | .resetTo => completed (resetTo j.writeOffset j.correctOffset) j
  | .append a =>
      match append a j with
      | .ok _ j' => some j'
      | .error (.err .invalidSize) j' => some j'
      | .error _ _ => none
  | .validate => completed validate j
  | .invalidate => completed invalidate j

/-- An appended entry is no larger than its slot. -/
def fitting (j : Journal) : ScanMove → Prop
  | .append (.bufferWrite w) => 12 + w.size.toNat ≤ j.header.bufWrites.slot
  | .append (.correctBlock b) => 12 + b.size.toNat ≤ j.header.corrBlocks.slot
  | .resetTo | .validate | .invalidate => True

instance (j : Journal) : (m : ScanMove) → Decidable (fitting j m)
  | .append (.bufferWrite _) | .append (.correctBlock _) => inferInstanceAs (Decidable (_ ≤ _))
  | .resetTo | .validate | .invalidate => inferInstanceAs (Decidable True)

/-- A laid-out journal whose slots from the offsets on are free. -/
structure Clearable (j : Journal) : Prop where
  layout : Layout j.header j.disk.size
  plan : j.disk.plan = []
  writes_le : j.writeOffset ≤ j.header.bufWrites.count
  blocks_le : j.correctOffset ≤ j.header.corrBlocks.count
  writes : j.header.bufWrites.FreeFrom j.disk j.writeOffset
  blocks : j.header.corrBlocks.FreeFrom j.disk j.correctOffset

theorem completed_eq_some {x : Op Unit} {j j' : Journal} :
    completed x j = some j' ↔ x j = .ok () j' := by
  unfold completed
  cases x j <;> simp

/-! ### Clearing what is clear -/

section Clear
variable {j : Journal} {s : Section} {lo n : ℕ}

/-- Writing into free slots what they hold. -/
theorem forM_clear_free (hs : s.Within lo j.disk.size) (hp : j.disk.plan = []) {is : List ℕ}
    (his : ∀ i ∈ is, i < s.count ∧ s.bytesAt j.disk i = entryBytes s.slot invalidInfo) :
    is.forM (fun i => diskWriteAt (s.offset i) (entryBytes s.slot invalidInfo)) j = .ok () j := by
  have hlen := length_entryBytes hs.slot_ge invalidInfo
  induction is with
  | nil => rfl
  | cons i is ih =>
      obtain ⟨⟨hi, hfree⟩, hrest⟩ := List.forall_mem_cons.mp his
      have hfit : s.start + i * s.slot + s.slot ≤ j.disk.size := (s.slot_le hi).trans hs.le_hi
      have hsame :
          j.disk.store (s.start + i * s.slot) (entryBytes s.slot invalidInfo) = j.disk := by
        rw [← hfree]
        exact j.disk.store_read hfit
      have hwrite : diskWriteAt (s.offset i) (entryBytes s.slot invalidInfo) j = .ok () j := by
        rw [hs.offset_eq hi, diskWriteAt_apply hp (by rwa [hlen]), hsame]
      exact (bind_of_ok hwrite).trans (ih hrest)

/-- Clearing up to `n` clears the whole section if the rest is free. -/
theorem clearSectionTo_eq (hs : s.Within lo j.disk.size) (hp : j.disk.plan = [])
    (hn : n ≤ s.count) (hfree : s.FreeFrom j.disk n) :
    clearSectionTo s n j = clearSlots s s.count j := by
  obtain ⟨_, j', hclear, d, rfl, hf, hd⟩ := succeeds_iff.mp (clearSlots_succeeds hs hp hn)
  obtain ⟨m, hm⟩ := Nat.exists_eq_add_of_le hn
  rw [clearSectionTo, if_neg (Nat.not_lt.mpr hn)]
  refine hclear.trans (.symm ?_)
  rw [clearSlots_eq hs.slot_ge] at hclear ⊢
  rw [hm, List.range_add]
  refine (congrFun List.forM_append j).trans ((bind_of_ok hclear).trans ?_)
  -- the slots from `n` on still hold what they are cleared with
  refine forM_clear_free (j := { j with disk := d }) (hf.size ▸ hs) (hf.plan.trans hp) ?_
  intro i hi
  obtain ⟨k, hk, rfl⟩ := List.mem_map.mp hi
  have hlt : n + k < s.count := by
    have := List.mem_range.mp hk
    omega
  refine ⟨hlt, ?_⟩
  rw [hd, if_neg (by omega)]
  exact hfree _ hlt (Nat.le_add_right n k)

end Clear

section Clearable
variable {j j' : Journal}

/-- **A bounded reset does what a full reset does.** -/
theorem Clearable.resetTo_eq (h : Clearable j) :
    resetTo j.writeOffset j.correctOffset j = reset j := by
  have hl := h.layout
  have hf₁ := j.frame_withHeader j.header.setInvalidFlag
  have hinv := invalidate_apply h.plan hl.size_ge
  have hw : clearSectionTo j.header.bufWrites j.writeOffset
      (j.withHeader j.header.setInvalidFlag) = clearSlots j.header.bufWrites
        j.header.bufWrites.count (j.withHeader j.header.setInvalidFlag) :=
    clearSectionTo_eq (j := j.withHeader _) hl.bufWrites_within h.plan h.writes_le
      (h.writes.frame hl.bufWrites_within hf₁ (.inl le_rfl))
  obtain ⟨_, j₂, hclear, d, rfl, hf₂, -⟩ := succeeds_iff.mp (clearSlots_succeeds
    (j := j.withHeader j.header.setInvalidFlag) hl.bufWrites_within h.plan le_rfl)
  have hb : clearSectionTo j.header.corrBlocks j.correctOffset
      { j.withHeader j.header.setInvalidFlag with disk := d } = clearSlots j.header.corrBlocks
        j.header.corrBlocks.count { j.withHeader j.header.setInvalidFlag with disk := d } := by
    have hwithin : j.header.corrBlocks.Within 64 d.size := by
      rw [hf₂.size]
      exact hl.corrBlocks_within
    exact clearSectionTo_eq hwithin (hf₂.plan.trans h.plan) h.blocks_le
      ((h.blocks.frame hl.corrBlocks_within hf₁ (.inl le_rfl)).frame hl.corrBlocks hf₂
        (.inl hl.bufWrites.le_hi))
  rw [resetTo, reset, bind_of_ok hinv, bind_of_ok hinv]
  refine (bind_of_ok (hw.trans hclear)).trans (.trans ?_ (bind_of_ok hclear).symm)
  exact bind_congr_left hb

/-- What lies behind the offsets reads back as invalid. -/
theorem Clearable.reads_invalid (h : Clearable j) :
    (∀ i < j.header.bufWrites.count, j.writeOffset ≤ i →
      readBufferWrite i j = .ok invalidInfo j) ∧
    ∀ i < j.header.corrBlocks.count, j.correctOffset ≤ i →
      readCorrectBlock i j = .ok invalidInfo j := by
  have hl := h.layout
  constructor
  · intro i hi hle
    refine readSlot_of_bytesAt hl.bufWrites_within hi ?_ (h.writes i hi hle)
    exact hl.bufWrites.slot_ge
  · intro i hi hle
    refine readSlot_of_bytesAt hl.corrBlocks_within hi ?_ (h.blocks i hi hle)
    exact hl.corrBlocks.slot_ge

/-! ### One call -/

theorem Clearable.withHeader {hd : Header} (h : Clearable j)
    (hw : hd.bufWrites = j.header.bufWrites) (hb : hd.corrBlocks = j.header.corrBlocks) :
    Clearable (j.withHeader hd) := by
  have hf := j.frame_withHeader hd
  have hl : Layout hd j.disk.size :=
    ⟨by rw [hw, hb]; exact h.layout.bufWrites, by rw [hb]; exact h.layout.corrBlocks⟩
  refine ⟨hl, h.plan, hw ▸ h.writes_le, hb ▸ h.blocks_le, ?_, ?_⟩
  · exact Section.FreeFrom.frame (hw ▸ h.writes) hl.bufWrites_within hf (.inl le_rfl)
  · exact Section.FreeFrom.frame (hb ▸ h.blocks) hl.corrBlocks_within hf (.inl le_rfl)

theorem Clearable.resetTo (h : Clearable j)
    (hr : Journal.resetTo j.writeOffset j.correctOffset j = .ok () j') : Clearable j' := by
  obtain ⟨_, j₁, h₁, hc, -⟩ := succeeds_iff.mp
    (resetTo_succeeds h.layout h.plan h.writes_le h.blocks_le h.writes h.blocks)
  rw [hr] at h₁
  cases h₁
  refine ⟨hc.layout, hc.plan, ?_, ?_, ?_, ?_⟩
  · rw [hc.writeOffset]
    exact Nat.zero_le _
  · rw [hc.correctOffset]
    exact Nat.zero_le _
  · rw [hc.writeOffset]
    exact hc.writes.freeFrom
  · rw [hc.correctOffset]
    exact hc.blocks.freeFrom

/-- An append leaves nothing behind the offset, and one that fails changes nothing. -/
theorem Clearable.bufferWrite (h : Clearable j) (w : WriteInfo) :
    Ends (writeBufferWriteToJournal w) j (fun _ => Clearable) fun _ j' => j' = j := by
  have hl := h.layout
  refine Ends.get_bind (Ends.bind
    (R := fun _ j₁ => Clearable { j₁ with writeOffset := j₁.writeOffset + 1 }) ?_ fun _ _ => id)
  by_cases hroom : j.writeOffset < j.header.bufWrites.count
  · have hf := Section.frame_store (d := j.disk) hl.bufWrites.slot_ge hroom w
    refine (writeSlot_stores hl.bufWrites_within h.plan hroom).mono ?_ fun _ _ he => he.2
    rintro _ _ rfl
    exact ⟨hl, h.plan, hroom, h.blocks_le, h.writes.store hl.bufWrites.slot_ge w,
      h.blocks.frame hl.corrBlocks hf (.inl hl.bufWrites.le_hi)⟩
  · have hfull : writeBufferWrite j.writeOffset w j = .error (.err .invalidSize) j :=
      writeSlot_of_full (Nat.not_lt.mp hroom)
    rw [Ends, hfull]

theorem Clearable.correctBlock (h : Clearable j) (b : CorrectBlockInfo) :
    Ends (writeCorrectBlockToJournal b) j (fun _ => Clearable) fun _ j' => j' = j := by
  have hl := h.layout
  refine Ends.get_bind (Ends.bind
    (R := fun _ j₁ => Clearable { j₁ with correctOffset := j₁.correctOffset + 1 }) ?_
    fun _ _ => id)
  by_cases hroom : j.correctOffset < j.header.corrBlocks.count
  · have hf := Section.frame_store (d := j.disk) hl.corrBlocks.slot_ge hroom b
    refine (writeSlot_stores hl.corrBlocks_within h.plan hroom).mono ?_ fun _ _ he => he.2
    rintro _ _ rfl
    exact ⟨hl, h.plan, h.writes_le, hroom, h.writes.frame hl.bufWrites hf (.inr le_rfl),
      h.blocks.store hl.corrBlocks.slot_ge b⟩
  · have hfull : writeCorrectBlock j.correctOffset b j = .error (.err .invalidSize) j :=
      writeSlot_of_full (Nat.not_lt.mp hroom)
    rw [Ends, hfull]

theorem Clearable.append (h : Clearable j) (a : Append) :
    Ends (Server.append a) j (fun _ => Clearable) fun _ j' => j' = j := by
  cases a with
  | bufferWrite w => exact h.bufferWrite w
  | correctBlock b => exact h.correctBlock b

theorem Clearable.step (h : Clearable j) {m : ScanMove} (hs : journalStep j m = some j') :
    Clearable j' := by
  cases m with
  | resetTo => exact h.resetTo (completed_eq_some.mp hs)
  | append a =>
      have happ := h.append a
      simp only [journalStep] at hs
      rw [Ends] at happ
      split at hs
      · rename_i ha
        rw [ha] at happ
        cases hs
        exact happ
      · rename_i ha
        rw [ha] at happ
        cases hs
        exact happ ▸ h
      · cases hs
  | validate =>
      have hv := completed_eq_some.mp hs
      rw [validate_apply h.plan h.layout.size_ge] at hv
      cases hv
      exact h.withHeader rfl rfl
  | invalidate =>
      have hv := completed_eq_some.mp hs
      rw [invalidate_apply h.plan h.layout.size_ge] at hv
      cases hv
      exact h.withHeader rfl rfl

end Clearable

/-- **The bounded reset equals the full reset.**  Whatever is done to a new journal, its offsets
stay inside its sections, the slots behind them read back as invalid, and `resetTo` with them leaves
the journal that `reset` would. -/
theorem resetTo_eq_reset {disk : Device} {a b c : UInt64} {j₀ j j' : Journal}
    {moves : List ScanMove} (hplan : disk.plan = []) (hsize : 64 ≤ disk.size) (hb : 12 ≤ b.toNat)
    (hc : 12 ≤ c.toNat) (hnew : newJournal disk a b c = .ok j₀)
    (hinit : initWithoutClearing j₀ = .ok () j) (hrun : Run journalStep fitting j moves j') :
    j'.writeOffset ≤ j'.header.bufWrites.count ∧ j'.correctOffset ≤ j'.header.corrBlocks.count ∧
      (∀ i < j'.header.bufWrites.count, j'.writeOffset ≤ i →
        ∃ info, readBufferWrite i j' = .ok info j' ∧ info.isValid = false) ∧
      (∀ i < j'.header.corrBlocks.count, j'.correctOffset ≤ i →
        ∃ info, readCorrectBlock i j' = .ok info j' ∧ info.isValid = false) ∧
      ∃ j'', resetTo j'.writeOffset j'.correctOffset j' = .ok () j'' ∧ reset j' = .ok () j'' := by
  obtain ⟨hl, rfl, -, hwo, hco⟩ := newJournal_ok hnew hsize hb hc
  have hstart : Clearable j₀ :=
    ⟨hl, hplan, hwo.le, hco.le, fun i hi hle => absurd (hwo.ge.trans hle) (Nat.not_le.mpr hi),
      fun i hi hle => absurd (hco.ge.trans hle) (Nat.not_le.mpr hi)⟩
  have hj : Clearable j := by
    rw [initWithoutClearing, invalidate_apply hplan hsize] at hinit
    cases hinit
    exact hstart.withHeader rfl rfl
  have h := hrun.invariant (I := Clearable) (fun _ _ _ h _ hs => h.step hs) hj
  obtain ⟨hws, hbs⟩ := h.reads_invalid
  obtain ⟨_, j'', hr, -⟩ := succeeds_iff.mp
    (resetTo_succeeds h.layout h.plan h.writes_le h.blocks_le h.writes h.blocks)
  exact ⟨h.writes_le, h.blocks_le, fun i hi hle => ⟨_, hws i hi hle, rfl⟩,
    fun i hi hle => ⟨_, hbs i hi hle, rfl⟩, j'', hr, h.resetTo_eq ▸ hr⟩

/-! ### Two slots of each kind -/

theorem fourSlotJournal_size_lt : 116 < 2 ^ 63 := by decide

/-- Four slots of thirteen bytes, on a device full of sevens. -/
def fourSlotJournal : Journal :=
  ⟨⟨116, fun _ => 7, [], fourSlotJournal_size_lt⟩, 2, 2, ⟨bdrMagic, 13, 2, 64, 13, 2, 90, 0⟩⟩

/-- The first scan fills the buffer writes and has one more refused, the second is shorter. -/
def twoScans : List ScanMove :=
  [.resetTo, .append (.bufferWrite ⟨0, 1, [1]⟩), .append (.bufferWrite ⟨1, 1, [2]⟩),
    .append (.bufferWrite ⟨2, 1, [3]⟩), .validate, .invalidate, .resetTo,
    .append (.correctBlock ⟨0, 1, [4]⟩)]

theorem resetTo_eq_reset_twoScans : ∃ j j',
    newJournal fourSlotJournal.disk 26 13 13 = .ok fourSlotJournal ∧
      initWithoutClearing fourSlotJournal = .ok () j ∧ Run journalStep fitting j twoScans j' ∧
      (j'.writeOffset = 0 ∧ j'.correctOffset = 1) ∧
      ∃ j'', resetTo j'.writeOffset j'.correctOffset j' = .ok () j'' ∧ reset j' = .ok () j'' := by
  have hnew : newJournal fourSlotJournal.disk 26 13 13 = .ok fourSlotJournal := rfl
  have hinit := invalidate_apply (j := fourSlotJournal) rfl (by decide)
  obtain ⟨j', hs, hat⟩ := exists_exec
    (P := fun j : Journal => decide (j.writeOffset = 0 ∧ j.correctOffset = 1))
    (show (exec (guarded journalStep fitting)
      (fourSlotJournal.withHeader fourSlotJournal.header.setInvalidFlag) twoScans).any _ = true by
        decide +kernel)
  have hrun := Run.of_exec_guarded hs
  obtain ⟨-, -, -, -, hreset⟩ :=
    resetTo_eq_reset rfl (by decide) (by decide) (by decide) hnew hinit hrun
  exact ⟨_, j', hnew, hinit, hrun, of_decide_eq_true hat, hreset⟩

end Bdr.Server
