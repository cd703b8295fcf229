import Bdr.Journal.Contents

/-!
# Server — Replay

How the server writes a journal to the replica: `writeJournalToReplica` at the end of a scan, and
`checkJournal`, which runs `copyJournalToReplica` when the server starts.  Both go through the
correct blocks and then through the buffer writes, read each from the journal and write it to the
target; they differ in what they do with an error.

The state is what the server holds: the target device and the journal.  When the machine goes down
the two devices are left (`Files`), and the server starts again from them.
-/

namespace Bdr.Server

open Journal

/-- What the server was doing to the journal or the replica when it failed. -/
inductive ReplayStep where
  | readCorrectBlock
  | writeCorrectBlock
  | readBufferWrite
  | writeBufferWrite
  | validate
  | invalidate
  | copy
  deriving DecidableEq, Repr

/-- An error of the replay: what failed, and why. -/
structure ReplayError where
  step : ReplayStep
  cause : Error
  deriving DecidableEq, Repr

/-- The server's target device and journal. -/
structure Machine where
  target : Device
  journal : Journal

abbrev ServerOp := EStateM (Fault ReplayError) Machine

/-- An operation on the journal, whose errors are reported as errors of `step`. -/
def onJournal {α : Type} (step : ReplayStep) (x : Op α) : ServerOp α := fun m =>
  match x m.journal with
  | .ok a j => .ok a { m with journal := j }
  | .error (.err e) j => .error (.err ⟨step, e⟩) { m with journal := j }
  | .error .panic j => .error .panic { m with journal := j }
  | .error .powerLoss j => .error .powerLoss { m with journal := j }

/-- `TargetDevFd.WriteAt`. -/
def targetWriteAt (step : ReplayStep) (off : ℕ) (data : List UInt8) : ServerOp Unit := fun m =>
  match m.target.writeAt off data with
  | (d, .ok) => .ok () { m with target := d }
  | (d, .failed) => .error (.err ⟨step, .ioFailure⟩) { m with target := d }
  | (d, .dead) => .error .powerLoss { m with target := d }

/-- A call whose error nobody looks at. -/
def ignoreError (x : ServerOp Unit) : ServerOp Unit := fun m =>
  match x m with
  | .error (.err _) m' => .ok () m'
  | r => r

/-- `Data[:Size]`. -/
def dataToWrite (w : WriteInfo) : ServerOp (List UInt8) :=
  match slice w.data 0 w.size.toNat with
  | some data => pure data
  | none => throw .panic

def writeCorrectBlockToReplica (correctBlock : CorrectBlockInfo) : ServerOp Unit :=
  targetWriteAt .writeCorrectBlock correctBlock.offset.toNat correctBlock.data

def writeBufferWriteToReplica (bufferWrite : WriteInfo) : ServerOp Unit := do
  let data ← dataToWrite bufferWrite
  targetWriteAt .writeBufferWrite bufferWrite.offset.toNat data

def writeJournalToReplica : ServerOp Unit := do
  ignoreError (onJournal .validate validate)
  let s ← get
  (List.range s.journal.correctOffset).forM fun i => do
    let correctBlock ← onJournal .readCorrectBlock (readCorrectBlock i)
    targetWriteAt .writeCorrectBlock correctBlock.offset.toNat correctBlock.data
  (List.range s.journal.writeOffset).forM fun i => do
    let bufferWrite ← onJournal .readBufferWrite (readBufferWrite i)
    let data ← dataToWrite bufferWrite
    targetWriteAt .writeBufferWrite bufferWrite.offset.toNat data
  onJournal .invalidate invalidate

def copyJournalToReplica : ServerOp Unit := do
  let s ← get
  (List.range s.journal.correctOffset).forM fun i => do
    let correctBlock ← onJournal .copy (readCorrectBlock i)
    ignoreError (writeCorrectBlockToReplica correctBlock)
  (List.range s.journal.writeOffset).forM fun i => do
    let bufferWrite ← onJournal .copy (readBufferWrite i)
    ignoreError (writeBufferWriteToReplica bufferWrite)
  ignoreError (onJournal .invalidate invalidate)

/-- The devices, which is what is left when the machine goes down. -/
structure Files where
  target : Device
  disk : Device

/-- `CheckJournal`, when the server starts. -/
def checkJournal : EStateM (Fault ReplayError) Files Unit := fun f =>
  match openJournal f.disk with
  -- a journal that cannot be opened is taken for none
  | .error (.err _) => .ok () f
  | .error .panic => .error .panic f
  | .error .powerLoss => .error .powerLoss f
  | .ok jrn =>
      if !jrn.header.isValid then .ok () f
      else
        match copyJournalToReplica ⟨f.target, jrn⟩ with
        | .ok () m => .ok () ⟨m.target, m.journal.disk⟩
        | .error e m => .error e ⟨m.target, m.journal.disk⟩

/-! ### What a replay does to the target -/

section Replay
variable (calm : Prop) (size : ℕ) (j : Journal)

/-- The server with the journal `j` and, on a target of `size` bytes on which no write fails, the
bytes `b`. -/
structure Holding (b : Image UInt8) (m : Machine) : Prop where
  journal : m.journal = j
  size : m.target.size = size
  sound : m.target.Sound calm
  bytes : m.target.bytes = b

/-- `x` writes `p` to the target, or the machine goes down in it. -/
def Writes (x : ServerOp Unit) (p : Patch UInt8) : Prop :=
  ∀ b m, Holding calm size j b m → Ends x m (fun _ => Holding calm size j (b.apply p))
    fun e m' => (e = .powerLoss ∧ ¬ calm) ∧ ∃ n, Holding calm size j (b.apply (p.torn n)) m'

end Replay

section Loops
variable {calm : Prop} {size : ℕ} {j : Journal} {b : Image UInt8} {m : Machine}

/-- Where the only fault is that the power fails, ignoring errors makes no difference. -/
theorem ends_ignoreError {x : ServerOp Unit} {Q : Unit → Machine → Prop} {E : Machine → Prop}
    (h : Ends x m Q fun e m' => (e = .powerLoss ∧ ¬ calm) ∧ E m') :
    Ends (ignoreError x) m Q fun e m' => (e = .powerLoss ∧ ¬ calm) ∧ E m' := by
  rw [Ends, Server.ignoreError]
  rw [Ends] at h
  cases hr : x m with
  | ok a m' => simpa only [hr] using h
  | error e m' =>
      rw [hr] at h
      obtain ⟨⟨rfl, hc⟩, hE⟩ := h
      exact ⟨⟨rfl, hc⟩, hE⟩

theorem targetWriteAt_writes (calm : Prop) (j : Journal) (step : ReplayStep) {p : Patch UInt8}
    (hfit : p.offset + p.data.length ≤ size) :
    Writes calm size j (targetWriteAt step p.offset p.data) p := by
  rintro b m ⟨hj, hsize, hs, hb⟩
  rw [← hsize] at hfit
  rw [Ends, targetWriteAt]
  rcases Device.writeAt_of_sound hs hfit with ⟨plan, hw, hs'⟩ | ⟨hc, n, plan, hw, hs'⟩
  · rw [hw]
    exact ⟨hj, hsize, hs',
      (Device.bytes_store (d := m.target.replan plan) hfit).trans (by rw [← hb]; rfl)⟩
  · rw [hw]
    have hfit' : p.offset + (p.data.take n).length ≤ (m.target.replan plan).size :=
      (Nat.add_le_add_left (List.length_take_le' _ _) _).trans hfit
    exact ⟨⟨rfl, hc⟩, n, hj, hsize, hs', (Device.bytes_store hfit').trans (by rw [← hb]; rfl)⟩

/-- A body that reads an entry and writes it. -/
theorem Writes.bind {α : Type} {x : ServerOp α} {f : α → ServerOp Unit} {a : α} {p : Patch UInt8}
    (hx : ∀ m, m.journal = j → x m = .ok a m) (hf : Writes calm size j (f a) p) :
    Writes calm size j (x >>= f) p := by
  intro b m hm
  rw [Ends, bind_of_ok (hx m hm.journal)]
  exact hf b m hm

theorem Writes.ignoreError {x : ServerOp Unit} {p : Patch UInt8} (hx : Writes calm size j x p) :
    Writes calm size j (ignoreError x) p :=
  fun b m hm => ends_ignoreError (hx b m hm)

/-- **A loop of writes** carries them all out, or goes down having touched nothing else. -/
theorem forM_writes {f : ℕ → ServerOp Unit} (ps : List (Patch UInt8))
    (hf : ∀ i p, ps[i]? = some p → Writes calm size j (f i) p) (hm : Holding calm size j b m) :
    Ends ((List.range ps.length).forM f) m (fun _ => Holding calm size j (b.applyAll ps))
      fun e m' => (e = .powerLoss ∧ ¬ calm) ∧
        ∃ b', Holding calm size j b' m' ∧ Image.Touched ps b b' := by
  have := Ends.forM_range (f := f) (I := fun k => Holding calm size j (b.applyAll (ps.take k)))
    (E := fun e m' => (e = .powerLoss ∧ ¬ calm) ∧
      ∃ b', Holding calm size j b' m' ∧ Image.Touched ps b b')
    ps.length (by simpa using hm) ?_
  · simpa using this
  intro i m' hi hI
  have hp : ps[i]? = some ps[i] := List.getElem?_eq_getElem hi
  refine (hf i ps[i] hp _ m' hI).mono ?_ ?_
  · intro _ m'' h
    rw [List.take_succ_eq_append_getElem hi, Image.applyAll_append]
    exact h
  · rintro e m'' ⟨he, n, h⟩
    refine ⟨he, _, h, ?_⟩
    have ht : Image.Touched ps b (b.applyAll (ps.take i)) :=
      (Image.touched_applyAll (ps.take i) b).mono (List.take_subset i ps)
    exact ht.apply (List.getElem_mem hi) fun q hq => hq.of_torn

end Loops

/-! ### The entries of a journal -/

/-- The entries in the first `n` slots of a section. -/
def entries (s : Section) (d : Device) (n : ℕ) : List BlockInfo :=
  (List.range n).map fun i => (s.entryAt d i).getD invalidInfo

/-- What a replay of the journal writes: the correct blocks, then the buffer writes. -/
def replayPatches (j : Journal) : List (Patch UInt8) :=
  (entries j.header.corrBlocks j.disk j.correctOffset).map BlockInfo.patch ++
    (entries j.header.bufWrites j.disk j.writeOffset).map BlockInfo.patch

section Entries
variable {j : Journal} {s : Section} {lo n : ℕ}

@[simp] theorem length_entries (s : Section) (d : Device) (n : ℕ) :
    (entries s d n).length = n := by simp [entries]

/-- The entries before the first free slot are read as they are. -/
theorem readSlot_entries (hs : s.Within lo j.disk.size) (hf : s.Found j.disk n) {i : ℕ}
    {e : BlockInfo} (hi : (entries s j.disk n)[i]? = some e) :
    readSlot s i j = .ok e j ∧ e.data.length = e.size.toNat := by
  obtain ⟨hn, hall, -⟩ := hf
  have hlt : i < n := by
    have := (List.getElem?_eq_some_iff.mp hi).1
    simpa using this
  obtain ⟨info, hinfo, -⟩ := hall i hlt
  have he : e = info := by
    simpa [entries, List.getElem?_range hlt, hinfo, eq_comm] using hi
  subst he
  refine ⟨?_, length_data_of_deserialize hinfo⟩
  rw [readSlot_apply hs (hlt.trans hn)]
  exact congrArg (fun o => orPanic o j) hinfo

theorem onJournal_of_ok {α : Type} {step : ReplayStep} {x : Op α} {a : α} {m : Machine}
    (hm : m.journal = j) (h : x j = .ok a j) : onJournal step x m = .ok a m := by
  subst hm
  rw [onJournal, h]

theorem dataToWrite_of_length {w : WriteInfo} (h : w.data.length = w.size.toNat) (m : Machine) :
    dataToWrite w m = .ok w.data m := by
  rw [dataToWrite, ← h, slice, if_pos ⟨Nat.zero_le _, le_rfl⟩]
  simp only [List.drop_zero, Nat.sub_zero, List.take_length]
  rfl

theorem patch_of_length {e : BlockInfo} (h : e.data.length = e.size.toNat) :
    e.patch = ⟨e.offset.toNat, e.data⟩ := by
  rw [BlockInfo.patch, ← h, List.take_length]

end Entries

/-! ### The two replays -/

/-- A journal that can be opened, with entries that fit a target of `size` bytes. -/
structure Replayable (size : ℕ) (j : Journal) : Prop where
  layout : Layout j.header j.disk.size
  writes : j.header.bufWrites.Found j.disk j.writeOffset
  blocks : j.header.corrBlocks.Found j.disk j.correctOffset
  fits : ∀ p ∈ replayPatches j, p.offset + p.data.length ≤ size

section Replays
variable {calm : Prop} {size : ℕ} {j : Journal} {b : Image UInt8} {m : Machine}

/-- **The two loops**, and what comes after them. -/
theorem replay_loops {f g : ℕ → ServerOp Unit} {x : ServerOp Unit} {Q : Unit → Machine → Prop}
    {E : Fault ReplayError → Machine → Prop}
    (hf : ∀ i e, (entries j.header.corrBlocks j.disk j.correctOffset)[i]? = some e →
      Writes calm size j (f i) e.patch)
    (hg : ∀ i e, (entries j.header.bufWrites j.disk j.writeOffset)[i]? = some e →
      Writes calm size j (g i) e.patch)
    (hm : Holding calm size j b m)
    (hx : ∀ m', Holding calm size j (b.applyAll (replayPatches j)) m' → Ends x m' Q E)
    (hE : ¬ calm → ∀ m' b', Holding calm size j b' m' → Image.Touched (replayPatches j) b b' →
      E .powerLoss m') :
    Ends (do
      (List.range j.correctOffset).forM f
      (List.range j.writeOffset).forM g
      x) m Q E := by
  have h₁ := forM_writes (f := f)
    ((entries j.header.corrBlocks j.disk j.correctOffset).map BlockInfo.patch)
    (fun i p hp => by
      obtain ⟨e, he, rfl⟩ := Option.map_eq_some_iff.mp (List.getElem?_map .. ▸ hp)
      exact hf i e he) hm
  rw [List.length_map, length_entries] at h₁
  refine (h₁.mono (fun _ _ h => h) ?_).bind fun _ m₁ hm₁ => ?_
  · rintro e m' ⟨⟨rfl, hc⟩, b', hb', ht⟩
    exact hE hc m' b' hb' (ht.mono (List.subset_append_left _ _))
  have h₂ := forM_writes (f := g)
    ((entries j.header.bufWrites j.disk j.writeOffset).map BlockInfo.patch)
    (fun i p hp => by
      obtain ⟨e, he, rfl⟩ := Option.map_eq_some_iff.mp (List.getElem?_map .. ▸ hp)
      exact hg i e he) hm₁
  rw [List.length_map, length_entries] at h₂
  refine (h₂.mono (fun _ _ h => h) ?_).bind fun _ m₂ hm₂ => ?_
  · rintro e m' ⟨⟨rfl, hc⟩, b', hb', ht⟩
    refine hE hc m' b' hb' (Image.Touched.trans ?_ (ht.mono (List.subset_append_right _ _)))
    exact (Image.touched_applyAll _ b).mono (List.subset_append_left _ _)
  · refine hx m₂ ?_
    rw [replayPatches, Image.applyAll_append]
    exact hm₂

variable (hr : Replayable size j)
include hr

/-- Reading a correct block and writing it to the replica, with or without a look at the error. -/
theorem correctBlock_writes (step : ReplayStep) {i : ℕ} {e : BlockInfo}
    (hi : (entries j.header.corrBlocks j.disk j.correctOffset)[i]? = some e) :
    Writes calm size j
        (onJournal step (readCorrectBlock i) >>= writeCorrectBlockToReplica) e.patch ∧
      Writes calm size j (onJournal step (readCorrectBlock i) >>= fun b =>
        ignoreError (writeCorrectBlockToReplica b)) e.patch := by
  obtain ⟨hread, hlen⟩ := readSlot_entries hr.layout.corrBlocks_within hr.blocks hi
  have hmem : e.patch ∈ replayPatches j :=
    List.mem_append_left _ (List.mem_map_of_mem (List.mem_of_getElem? hi))
  have hw : Writes calm size j (writeCorrectBlockToReplica e) e.patch := by
    have := targetWriteAt_writes calm j .writeCorrectBlock (hr.fits _ hmem)
    rwa [patch_of_length hlen] at this ⊢
  exact ⟨.bind (fun m hm => onJournal_of_ok hm hread) hw,
    .bind (fun m hm => onJournal_of_ok hm hread) hw.ignoreError⟩

/-- The same for a buffer write. -/
theorem bufferWrite_writes (step : ReplayStep) {i : ℕ} {e : BlockInfo}
    (hi : (entries j.header.bufWrites j.disk j.writeOffset)[i]? = some e) :
    Writes calm size j (onJournal step (readBufferWrite i) >>= writeBufferWriteToReplica) e.patch ∧
      Writes calm size j (onJournal step (readBufferWrite i) >>= fun w =>
        ignoreError (writeBufferWriteToReplica w)) e.patch := by
  obtain ⟨hread, hlen⟩ := readSlot_entries hr.layout.bufWrites_within hr.writes hi
  have hmem : e.patch ∈ replayPatches j :=
    List.mem_append_right _ (List.mem_map_of_mem (List.mem_of_getElem? hi))
  have hw : Writes calm size j (writeBufferWriteToReplica e) e.patch := by
    refine Writes.bind (fun m _ => dataToWrite_of_length hlen m) ?_
    have := targetWriteAt_writes calm j .writeBufferWrite (hr.fits _ hmem)
    rwa [patch_of_length hlen] at this ⊢
  exact ⟨.bind (fun m hm => onJournal_of_ok hm hread) hw,
    .bind (fun m hm => onJournal_of_ok hm hread) hw.ignoreError⟩

end Replays

end Bdr.Server
