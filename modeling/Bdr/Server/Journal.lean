import Bdr.Journal.Contents

/-!
# Server — Journal

What `user/server/server.go` does to the journal: `CreateJournal` for a client, and the appends of
`WriteBufferWriteToJournal` and `WriteCorrectBlockToJournal`.  An append to a journal with room
for it adds the entry to the list of its kind, or panics where the end of the entry's data wraps
around in `uint32`.
-/

namespace Bdr.Server

open Journal

/-- The journal for a client whose ring has `bufferByteSize` bytes. -/
def createJournal (clientInfo : InitInfo) (disk : Device) : Except (Fault Error) Journal :=
  match newJournal disk clientInfo.bufferByteSize (UInt64.ofNat writeInfoSize)
      (UInt64.ofNat correctBlockByteSize) with
  | .error e => .error (.err e)
  | .ok jrn =>
      match initWithoutClearing jrn with
      | .ok () jrn => .ok jrn
      | .error e _ => .error e

def writeCorrectBlockToJournal (correctBlock : CorrectBlockInfo) : Op Unit := do
  writeCorrectBlock (← get).correctOffset correctBlock
  modify fun j => { j with correctOffset := j.correctOffset + 1 }

def writeBufferWriteToJournal (bufferWrite : WriteInfo) : Op Unit := do
  writeBufferWrite (← get).writeOffset bufferWrite
  modify fun j => { j with writeOffset := j.writeOffset + 1 }

section Appends
variable {j : Journal} {ws bs : List BlockInfo}

theorem writeBufferWriteToJournal_ends {w : WriteInfo} (hj : Contains j ws bs)
    (hroom : ws.length < j.header.bufWrites.count)
    (hfit : 12 + w.size.toNat ≤ j.header.bufWrites.slot) :
    Ends (writeBufferWriteToJournal w) j
      (fun _ j' => Contains j' (ws ++ [w]) bs ∧ j'.header = j.header ∧
        Device.Frame 64 j.disk.size j.disk j'.disk)
      fun _ _ => ¬ 12 + dataSize w < 2 ^ 32 := by
  have hl := hj.layout
  have h := writeSlot_ends hl.bufWrites_within hj.plan hj.writes hroom hfit
  rw [← hj.writeOffset] at h
  refine h.bind (f := fun _ => modify fun j => { j with writeOffset := j.writeOffset + 1 }) ?_
  rintro _ _ ⟨d, rfl, hd, hf⟩
  have hlay : Layout j.header d.size := hf.size ▸ hl
  refine ⟨⟨hlay, hf.plan.trans hj.plan, ?_, hj.correctOffset, hd, ?_⟩, rfl,
    hf.mono hl.bufWrites.lo_le hl.bufWrites_within.le_hi⟩
  · simp [hj.writeOffset]
  · exact hj.blocks.frame hl.corrBlocks hf (.inl hl.bufWrites.le_hi)

theorem writeCorrectBlockToJournal_ends {b : CorrectBlockInfo} (hj : Contains j ws bs)
    (hroom : bs.length < j.header.corrBlocks.count)
    (hfit : 12 + b.size.toNat ≤ j.header.corrBlocks.slot) :
    Ends (writeCorrectBlockToJournal b) j
      (fun _ j' => Contains j' ws (bs ++ [b]) ∧ j'.header = j.header ∧
        Device.Frame 64 j.disk.size j.disk j'.disk)
      fun _ _ => ¬ 12 + dataSize b < 2 ^ 32 := by
  have hl := hj.layout
  have h := writeSlot_ends hl.corrBlocks_within hj.plan hj.blocks hroom hfit
  rw [← hj.correctOffset] at h
  refine h.bind (f := fun _ => modify fun j => { j with correctOffset := j.correctOffset + 1 }) ?_
  rintro _ _ ⟨d, rfl, hd, hf⟩
  have hlay : Layout j.header d.size := hf.size ▸ hl
  refine ⟨⟨hlay, hf.plan.trans hj.plan, hj.writeOffset, ?_, ?_, hd⟩, rfl,
    hf.mono hl.corrBlocks_within.lo_le hl.corrBlocks.le_hi⟩
  · simp [hj.correctOffset]
  · exact hj.writes.frame hl.bufWrites hf (.inr le_rfl)

end Appends

/-! ### Sequences of appends -/

/-- An append to the journal. -/
inductive Append where
  | bufferWrite (w : WriteInfo)
  | correctBlock (b : CorrectBlockInfo)
  deriving DecidableEq, Repr

def append : Append → Op Unit
  | .bufferWrite w => writeBufferWriteToJournal w
  | .correctBlock b => writeCorrectBlockToJournal b

/-- The buffer writes among the appends, in order. -/
def bufferWrites (as : List Append) : List WriteInfo :=
  as.filterMap fun
    | .bufferWrite w => some w
    | .correctBlock _ => none

/-- The correct blocks among the appends, in order. -/
def correctBlocks (as : List Append) : List CorrectBlockInfo :=
  as.filterMap fun
    | .bufferWrite _ => none
    | .correctBlock b => some b

@[simp] theorem bufferWrites_append (as bs : List Append) :
    bufferWrites (as ++ bs) = bufferWrites as ++ bufferWrites bs := List.filterMap_append

@[simp] theorem correctBlocks_append (as bs : List Append) :
    correctBlocks (as ++ bs) = correctBlocks as ++ correctBlocks bs := List.filterMap_append

/-- The entries of a scan fit the slots and are not more than there are slots. -/
structure FitsIn (h : Header) (as : List Append) : Prop where
  writes : ∀ w ∈ bufferWrites as, 12 + w.size.toNat ≤ h.bufWrites.slot
  blocks : ∀ b ∈ correctBlocks as, 12 + b.size.toNat ≤ h.corrBlocks.slot
  writes_le : (bufferWrites as).length ≤ h.bufWrites.count
  blocks_le : (correctBlocks as).length ≤ h.corrBlocks.count

/-- Appends to an empty journal add up, if none of them panics. -/
theorem appends_ends {j : Journal} {as : List Append} (hj : Contains j [] [])
    (hfit : FitsIn j.header as) :
    Ends (as.forM append) j
      (fun _ j' => Contains j' (bufferWrites as) (correctBlocks as) ∧ j'.header = j.header ∧
        Device.Frame 64 j.disk.size j.disk j'.disk)
      fun _ _ => ∃ e ∈ bufferWrites as ++ correctBlocks as, ¬ 12 + dataSize e < 2 ^ 32 := by
  refine Ends.forM (I := fun pre j' => Contains j' (bufferWrites pre) (correctBlocks pre) ∧
    j'.header = j.header ∧ Device.Frame 64 j.disk.size j.disk j'.disk) as ⟨hj, rfl, .refl ..⟩ ?_
  rintro pre x post j' rfl ⟨hj', hh, hf⟩
  cases x with
  | bufferWrite w =>
      have hsplit : bufferWrites (pre ++ .bufferWrite w :: post) =
          bufferWrites pre ++ w :: bufferWrites post := by simp [bufferWrites]
      have hmem : w ∈ bufferWrites (pre ++ .bufferWrite w :: post) := by simp [hsplit]
      have hroom := hfit.writes_le
      rw [hsplit, List.length_append, List.length_cons] at hroom
      refine (writeBufferWriteToJournal_ends hj' (by rw [hh]; omega)
        (by rw [hh]; exact hfit.writes w hmem)).mono ?_ ?_
      · rintro _ j'' ⟨h₁, h₂, h₃⟩
        refine ⟨?_, h₂.trans hh, hf.trans (hf.size ▸ h₃)⟩
        simpa [bufferWrites, correctBlocks] using h₁
      · exact fun _ _ hbad => ⟨w, List.mem_append_left _ hmem, hbad⟩
  | correctBlock b =>
      have hsplit : correctBlocks (pre ++ .correctBlock b :: post) =
          correctBlocks pre ++ b :: correctBlocks post := by simp [correctBlocks]
      have hmem : b ∈ correctBlocks (pre ++ .correctBlock b :: post) := by simp [hsplit]
      have hroom := hfit.blocks_le
      rw [hsplit, List.length_append, List.length_cons] at hroom
      refine (writeCorrectBlockToJournal_ends hj' (by rw [hh]; omega)
        (by rw [hh]; exact hfit.blocks b hmem)).mono ?_ ?_
      · rintro _ j'' ⟨h₁, h₂, h₃⟩
        refine ⟨?_, h₂.trans hh, hf.trans (hf.size ▸ h₃)⟩
        simpa [bufferWrites, correctBlocks] using h₁
      · exact fun _ _ hbad => ⟨b, List.mem_append_right _ hmem, hbad⟩

@[simp] theorem bufferWrites_map (ws : List WriteInfo) :
    bufferWrites (ws.map .bufferWrite) = ws := by
  induction ws with
  | nil => rfl
  | cons w ws ih => exact congrArg (w :: ·) ih

@[simp] theorem correctBlocks_map (ws : List WriteInfo) :
    correctBlocks (ws.map .bufferWrite) = [] := by
  induction ws with
  | nil => rfl
  | cons w ws ih => exact ih

theorem forM_map_append (ws : List WriteInfo) :
    (ws.map .bufferWrite).forM append = ws.forM writeBufferWriteToJournal := by
  induction ws with
  | nil => rfl
  | cons w ws ih => exact congrArg (fun x => writeBufferWriteToJournal w >>= fun _ => x) ih

end Bdr.Server
