import Bdr.Server.Replay

/-!
# Server — Redo

Replaying a journal is safe against crashes.  Once the journal is validated, the machine may go
down anywhere in `WriteJournalToReplica`, in the middle of a write to the target or of the last
write to the header; when the server starts again, `CheckJournal` finds the journal still valid and
copies all of it once more, and may itself be interrupted any number of times.

Between validation and the end the devices are in one of two conditions (`Safe`).  Either the
journal is as it was validated, and the target differs from what it was only where an entry is to
be written (`Pending`); or the journal is marked invalid, and the target is as the replay leaves it
(`Retired`).  A replay takes the first to the second, or ends in a crash in either.
-/

namespace Bdr.Server

open Journal

/-- The devices of the server. -/
def Machine.files (m : Machine) : Files := ⟨m.target, m.journal.disk⟩

/-- The devices when the machine is started again. -/
def Files.replan (f : Files) (p q : List Outcome) : Files := ⟨f.target.replan p, f.disk.replan q⟩

/-- Starts of the server, one for each pair of plans for the target and the journal's device. -/
def boots (plans : List (List Outcome × List Outcome)) (f : Files) : Files :=
  plans.foldl (fun f b => left checkJournal (f.replan b.1 b.2)) f

section Conditions
variable (calm : Prop) (size : ℕ) (j : Journal) (t : Image UInt8)

/-- Devices of the right sizes, on which no write fails. -/
structure Sane (f : Files) : Prop where
  target_size : f.target.size = size
  target_sound : f.target.Sound calm
  disk_size : f.disk.size = j.disk.size
  disk_sound : f.disk.Sound calm

/-- The journal is as it was validated, and the target touched by its replay at most. -/
structure Pending (f : Files) : Prop extends Sane calm size j f where
  disk : f.disk.bytes = j.disk.bytes
  target : Image.Touched (replayPatches j) t f.target.bytes

/-- The journal is marked invalid, and the target has been written. -/
structure Retired (f : Files) : Prop extends Sane calm size j f where
  disk : f.disk.bytes = (j.disk.store 0 j.header.setInvalidFlag.toBytes).bytes
  target : f.target.bytes = t.applyAll (replayPatches j)

def Safe (f : Files) : Prop := Pending calm size j t f ∨ Retired calm size j t f

end Conditions

section Redo
variable {calm : Prop} {size : ℕ} {j : Journal} {t : Image UInt8}

/-! ### Retiring the journal -/

theorem onJournal_invalidate (m : Machine) :
    onJournal .invalidate invalidate m =
      match m.journal.disk.writeAt 0 m.journal.header.setInvalidFlag.toBytes with
      | (d, .ok) => .ok () { m with
          journal := { m.journal with header := m.journal.header.setInvalidFlag, disk := d } }
      | (d, .failed) => .error (.err ⟨.invalidate, .ioFailure⟩) { m with
          journal := { m.journal with header := m.journal.header.setInvalidFlag, disk := d } }
      | (d, .dead) => .error .powerLoss { m with
          journal := { m.journal with header := m.journal.header.setInvalidFlag, disk := d } } := by
  have h : invalidate m.journal = diskWriteAt 0 m.journal.header.setInvalidFlag.toBytes
      { m.journal with header := m.journal.header.setInvalidFlag } := rfl
  rw [onJournal, h, diskWriteAt]
  rcases m.journal.disk.writeAt 0 m.journal.header.setInvalidFlag.toBytes with ⟨d, _ | _ | _⟩ <;>
    rfl

/-- A part of the invalid header, short of its last byte, is what the valid one has there. -/
theorem apply_torn_header (hh : HeaderStored j) {n : ℕ} (hn : n < 64) :
    j.disk.bytes.apply ⟨0, j.header.setInvalidFlag.toBytes.take n⟩ = j.disk.bytes := by
  have hread : j.header.toBytes.take n = j.disk.bytes.read 0 n := by
    rw [← hh, Image.take_read, min_eq_left (by omega)]
  rw [Header.take_toBytes_setInvalidFlag _ hn, hread, Image.apply_read_self]

/-- **The last write.**  With the target written, the header goes from valid to invalid; torn, it
is still the one or already the other. -/
theorem invalidate_retires (hh : HeaderStored j) (h64 : 64 ≤ j.disk.size) {m : Machine}
    (hm : m.journal.header = j.header) (hs : Sane calm size j m.files)
    (hd : m.journal.disk.bytes = j.disk.bytes)
    (ht : m.target.bytes = t.applyAll (replayPatches j)) :
    Ends (onJournal .invalidate invalidate) m (fun _ m' => Retired calm size j t m'.files)
      fun e m' => (e = .powerLoss ∧ ¬ calm) ∧ Safe calm size j t m'.files := by
  have hlen : j.header.setInvalidFlag.toBytes.length = 64 := Header.length_toBytes _
  have hfit : 0 + j.header.setInvalidFlag.toBytes.length ≤ m.journal.disk.size := by
    rw [hlen, Nat.zero_add]
    exact h64.trans hs.disk_size.ge
  have hbytes : (j.disk.store 0 j.header.setInvalidFlag.toBytes).bytes =
      j.disk.bytes.apply ⟨0, j.header.setInvalidFlag.toBytes⟩ :=
    Device.bytes_store (by rw [hlen, Nat.zero_add]; exact h64)
  rw [Ends, onJournal_invalidate, hm]
  rcases Device.writeAt_of_sound hs.disk_sound hfit with ⟨plan, hw, hs'⟩ | ⟨hc, n, plan, hw, hs'⟩
  · rw [show m.journal.disk.writeAt 0 j.header.setInvalidFlag.toBytes = _ from hw]
    refine ⟨⟨hs.target_size, hs.target_sound, hs.disk_size, hs'⟩, ?_, ht⟩
    rw [hbytes, ← hd]
    exact Device.bytes_store (d := m.journal.disk.replan plan) hfit
  · rw [show m.journal.disk.writeAt 0 j.header.setInvalidFlag.toBytes = _ from hw]
    have hfit' : 0 + (j.header.setInvalidFlag.toBytes.take n).length ≤
        (m.journal.disk.replan plan).size :=
      (Nat.add_le_add_left (List.length_take_le' _ _) _).trans hfit
    have hst := Device.bytes_store hfit'
    refine ⟨⟨rfl, hc⟩, ?_⟩
    by_cases hn : n < 64
    · refine .inl ⟨⟨hs.target_size, hs.target_sound, hs.disk_size, hs'⟩, ?_, ?_⟩
      · refine hst.trans ?_
        rw [show (m.journal.disk.replan plan).bytes = j.disk.bytes from hd, apply_torn_header hh hn]
      · show Image.Touched (replayPatches j) t m.target.bytes
        rw [ht]
        exact Image.touched_applyAll _ t
    · refine .inr ⟨⟨hs.target_size, hs.target_sound, hs.disk_size, hs'⟩, ?_, ht⟩
      refine hst.trans ?_
      rw [hbytes, List.take_of_length_le (by omega),
        show (m.journal.disk.replan plan).bytes = j.disk.bytes from hd]

/-! ### One replay -/

theorem replayPatches_congr {d : Device} (h : d.bytes = j.disk.bytes) :
    replayPatches { j with disk := d } = replayPatches j := by
  simp only [replayPatches, entries, Section.entryAt, Section.bytesAt, h]

/-- The same journal, whatever is planned for its device. -/
theorem Replayable.congr {d : Device} (hr : Replayable size j) (hb : d.bytes = j.disk.bytes)
    (hs : d.size = j.disk.size) : Replayable size { j with disk := d } where
  layout := by rw [hs]; exact hr.layout
  writes := hr.writes.congr fun i _ => by rw [Section.bytesAt, Section.bytesAt, hb]
  blocks := hr.blocks.congr fun i _ => by rw [Section.bytesAt, Section.bytesAt, hb]
  fits := by rw [replayPatches_congr hb]; exact hr.fits

section OneReplay
variable (hr : Replayable size j) (hh : HeaderStored j)
include hr hh

theorem replay_safe {f : Files} (hf : Pending calm size j t f) {g₁ g₂ : ℕ → ServerOp Unit}
    {x : ServerOp Unit}
    (h₁ : ∀ i e, (entries j.header.corrBlocks f.disk j.correctOffset)[i]? = some e →
      Writes calm size { j with disk := f.disk } (g₁ i) e.patch)
    (h₂ : ∀ i e, (entries j.header.bufWrites f.disk j.writeOffset)[i]? = some e →
      Writes calm size { j with disk := f.disk } (g₂ i) e.patch)
    (hx : ∀ m, Ends (onJournal .invalidate invalidate) m
        (fun _ m' => Retired calm size j t m'.files)
        (fun e m' => (e = .powerLoss ∧ ¬ calm) ∧ Safe calm size j t m'.files) →
      Ends x m (fun _ m' => Retired calm size j t m'.files)
        fun e m' => (e = .powerLoss ∧ ¬ calm) ∧ Safe calm size j t m'.files) :
    Ends (do
      (List.range j.correctOffset).forM g₁
      (List.range j.writeOffset).forM g₂
      x) ⟨f.target, { j with disk := f.disk }⟩ (fun _ m' => Retired calm size j t m'.files)
      fun e m' => (e = .powerLoss ∧ ¬ calm) ∧ Safe calm size j t m'.files := by
  have hps := replayPatches_congr hf.disk
  refine replay_loops (j := { j with disk := f.disk }) (b := f.target.bytes) h₁ h₂
    ⟨rfl, hf.target_size, hf.target_sound, rfl⟩ ?_ ?_
  · rintro m ⟨hj, hsz, hso, hb⟩
    have hdisk : m.journal.disk = f.disk := by rw [hj]
    refine hx m (invalidate_retires hh hr.layout.size_ge (by rw [hj]) ?_ ?_ ?_)
    · exact ⟨hsz, hso, by rw [Machine.files, hdisk]; exact hf.disk_size,
        by rw [Machine.files, hdisk]; exact hf.disk_sound⟩
    · rw [hdisk]
      exact hf.disk
    · rw [hb, hps]
      exact hf.target.applyAll_eq
  · rintro hc m b ⟨hj, hsz, hso, hb⟩ ht
    have hdisk : m.journal.disk = f.disk := by rw [hj]
    rw [hps] at ht
    refine ⟨⟨rfl, hc⟩, .inl ⟨⟨hsz, hso, ?_, ?_⟩, ?_, ?_⟩⟩
    · rw [Machine.files, hdisk]
      exact hf.disk_size
    · rw [Machine.files, hdisk]
      exact hf.disk_sound
    · rw [Machine.files, hdisk]
      exact hf.disk
    · rw [Machine.files, hb]
      exact hf.target.trans ht

theorem copyJournalToReplica_safe {f : Files} (hf : Pending calm size j t f) :
    Ends copyJournalToReplica ⟨f.target, { j with disk := f.disk }⟩
      (fun _ m' => Retired calm size j t m'.files)
      fun e m' => (e = .powerLoss ∧ ¬ calm) ∧ Safe calm size j t m'.files := by
  have hr' := hr.congr hf.disk hf.disk_size
  exact Ends.get_bind (replay_safe hr hh hf
    (fun i e hi => (correctBlock_writes hr' .copy hi).2)
    (fun i e hi => (bufferWrite_writes hr' .copy hi).2) fun m => ends_ignoreError)

/-- **A replay after validation** retires the journal, or the machine goes down in a safe
condition. -/
theorem writeJournalToReplica_safe {target : Device} {j₀ : Journal} (hv : validate j₀ = .ok () j)
    (hs : Sane calm size j ⟨target, j.disk⟩) :
    Ends writeJournalToReplica ⟨target, j₀⟩
      (fun _ m' => Retired calm size j target.bytes m'.files)
      fun e m' => (e = .powerLoss ∧ ¬ calm) ∧ Safe calm size j target.bytes m'.files := by
  have hvalid : ignoreError (onJournal .validate validate) ⟨target, j₀⟩ = .ok () ⟨target, j⟩ := by
    rw [ignoreError, onJournal]
    simp only [hv]
  rw [Ends, writeJournalToReplica, bind_of_ok hvalid]
  exact Ends.get_bind (replay_safe (f := ⟨target, j.disk⟩) hr hh
    ⟨hs, rfl, Image.Touched.refl _ _⟩
    (fun i e hi => (correctBlock_writes hr .readCorrectBlock hi).1)
    (fun i e hi => (bufferWrite_writes hr .readBufferWrite hi).1) fun m => id)

end OneReplay

/-! ### Starting again -/

theorem openJournal_of_pending (hr : Replayable size j) (hh : HeaderStored j)
    (hm : j.header.magic = bdrMagic) {f : Files} (hf : Pending calm size j t f) :
    openJournal f.disk = .ok { j with disk := f.disk } := by
  have hr' := hr.congr hf.disk hf.disk_size
  have hh' : HeaderStored { j with disk := f.disk } := by
    rw [HeaderStored, hf.disk]
    exact hh
  exact (openJournal_iff hr'.layout).mpr
    ⟨rfl, readHeader_of_stored hh' hr'.layout.size_ge, hm, hr'.writes, hr'.blocks⟩

theorem openJournal_of_retired (hr : Replayable size j) (hm : j.header.magic = bdrMagic)
    {f : Files} (hf : Retired calm size j t f) :
    openJournal f.disk = .ok { j with header := j.header.setInvalidFlag, disk := f.disk } := by
  have hl : Layout j.header.setInvalidFlag f.disk.size := by
    rw [hf.disk_size]
    exact ⟨hr.layout.bufWrites, hr.layout.corrBlocks⟩
  have hframe := j.frame_withHeader j.header.setInvalidFlag
  have hh' : HeaderStored { j with header := j.header.setInvalidFlag, disk := f.disk } := by
    rw [HeaderStored, hf.disk]
    exact headerStored_withHeader j.header.setInvalidFlag hr.layout.size_ge
  refine (openJournal_iff hl).mpr ⟨rfl, readHeader_of_stored hh' hl.size_ge, hm, ?_, ?_⟩
  · refine hr.writes.congr fun i hi => ?_
    refine Eq.trans ?_ (Section.bytesAt_frame hr.layout.bufWrites_within hframe (.inl le_rfl) hi)
    exact congrArg (fun b : Image UInt8 => b.read _ _) hf.disk
  · refine hr.blocks.congr fun i hi => ?_
    refine Eq.trans ?_ (Section.bytesAt_frame hr.layout.corrBlocks_within hframe (.inl le_rfl) hi)
    exact congrArg (fun b : Image UInt8 => b.read _ _) hf.disk

/-- **A start of the server** retires the journal if it has not been retired, or the machine goes
down once more in a safe condition. -/
theorem checkJournal_safe (hr : Replayable size j) (hh : HeaderStored j)
    (hm : j.header.magic = bdrMagic) (hv : j.header.isValid) {f : Files}
    (hf : Safe calm size j t f) :
    Ends checkJournal f (fun _ f' => Retired calm size j t f')
      fun e f' => (e = .powerLoss ∧ ¬ calm) ∧ Safe calm size j t f' := by
  rcases hf with hf | hf
  · have hcopy := copyJournalToReplica_safe hr hh hf
    rw [Ends] at hcopy ⊢
    rw [checkJournal, openJournal_of_pending hr hh hm hf]
    simp only [hv, Bool.not_true, Bool.false_eq_true, if_false]
    cases hc : copyJournalToReplica ⟨f.target, { j with disk := f.disk }⟩ with
    | ok _ m => simpa only [hc, Machine.files] using hcopy
    | error e m => simpa only [hc, Machine.files] using hcopy
  · rw [Ends, checkJournal, openJournal_of_retired hr hm hf]
    simp only [Header.isValid_setInvalidFlag, Bool.not_false, if_true]
    exact hf

theorem Safe.replan {f : Files} (hf : Safe False size j t f) {calm : Prop} {p q : List Outcome}
    (hp : NoFailure p ∧ (calm → p = [])) (hq : NoFailure q ∧ (calm → q = [])) :
    Safe calm size j t (f.replan p q) := by
  rcases hf with hf | hf
  · exact .inl ⟨⟨hf.target_size, hp, hf.disk_size, hq⟩, hf.disk, hf.target⟩
  · exact .inr ⟨⟨hf.target_size, hp, hf.disk_size, hq⟩, hf.disk, hf.target⟩

/-- Any number of interrupted starts leaves the devices in a safe condition. -/
theorem boots_safe (hr : Replayable size j) (hh : HeaderStored j) (hm : j.header.magic = bdrMagic)
    (hv : j.header.isValid) (plans : List (List Outcome × List Outcome)) {f : Files}
    (hplans : ∀ b ∈ plans, NoFailure b.1 ∧ NoFailure b.2) (hf : Safe False size j t f) :
    Safe False size j t (boots plans f) := by
  induction plans generalizing f with
  | nil => exact hf
  | cons b plans ih =>
      obtain ⟨hb, hplans⟩ := List.forall_mem_cons.mp hplans
      refine ih hplans ?_
      exact (checkJournal_safe hr hh hm hv
        (hf.replan ⟨hb.1, False.elim⟩ ⟨hb.2, False.elim⟩)).left (fun _ _ => .inr) fun _ _ h => h.2

end Redo

/-- **Redo.**  Let the journal have been validated and read back in full.  Wherever the machine
goes down in `WriteJournalToReplica`, and in however many starts after that, a start that is not
interrupted leaves on the target what `WriteJournalToReplica` leaves there uninterrupted. -/
theorem boots_redo (target : Device) {j₀ j : Journal} (hv : validate j₀ = .ok () j)
    (hl : Layout j.header j.disk.size) (hopen : openJournal j.disk = .ok j)
    (hfits : ∀ p ∈ replayPatches j, p.offset + p.data.length ≤ target.size)
    (htarget : NoFailure target.plan) (hdisk : NoFailure j.disk.plan)
    {plans : List (List Outcome × List Outcome)}
    (hplans : ∀ b ∈ plans, NoFailure b.1 ∧ NoFailure b.2) :
    ∃ m f, writeJournalToReplica
        ⟨target.replan [], { j₀ with disk := j₀.disk.replan [] }⟩ = .ok () m ∧
      checkJournal ((boots plans
        (left writeJournalToReplica ⟨target, j₀⟩).files).replan [] []) = .ok () f ∧
      f.target.bytes = m.target.bytes := by
  obtain ⟨h64, plan, hj⟩ := validate_eq_ok hv
  obtain ⟨-, -, hm, hwrites, hblocks⟩ := (openJournal_iff hl).mp hopen
  have hr : Replayable target.size j := ⟨hl, hwrites, hblocks, hfits⟩
  have hh : HeaderStored j := hj ▸ headerStored_withHeader j₀.header.setValidFlag h64
  have hvalid : j.header.isValid := by
    rw [hj]
    exact Header.isValid_setValidFlag _
  -- The run that is not interrupted starts from the same bytes, with nothing planned.
  have hv' : validate { j₀ with disk := j₀.disk.replan [] } =
      .ok () { j with disk := j.disk.replan [] } := by
    refine (validate_apply (j := { j₀ with disk := j₀.disk.replan [] }) rfl h64).trans ?_
    rw [hj]
    rfl
  have hcalm : Sane True target.size { j with disk := j.disk.replan [] }
      ⟨target.replan [], j.disk.replan []⟩ :=
    ⟨rfl, target.sound_replan_nil True, rfl, j.disk.sound_replan_nil True⟩
  have hrun := writeJournalToReplica_safe (hr.congr (d := j.disk.replan []) rfl rfl) hh hv' hcalm
  -- The run that may be goes down in a safe condition, or returns, which is one.
  have hsane : Sane False target.size j ⟨target, j.disk⟩ :=
    ⟨rfl, ⟨htarget, False.elim⟩, rfl, ⟨hdisk, False.elim⟩⟩
  have hcrash := writeJournalToReplica_safe hr hh hv hsane
  have hsafe : Safe False target.size j target.bytes
      (left writeJournalToReplica ⟨target, j₀⟩).files :=
    hcrash.left (P := fun m => Safe _ _ _ _ m.files) (fun _ _ => .inr) fun _ _ h => h.2
  have hlast := checkJournal_safe hr hh hm hvalid
    ((boots_safe hr hh hm hvalid plans hplans hsafe).replan
      (target.sound_replan_nil True) (target.sound_replan_nil True))
  obtain ⟨_, m, hm₁, hm₂⟩ := hrun.succeeds fun e s h => h.1.2 trivial
  obtain ⟨_, f, hf₁, hf₂⟩ := hlast.succeeds fun e s h => h.1.2 trivial
  refine ⟨m, f, hm₁, hf₁, hf₂.target.trans ?_⟩
  rw [← replayPatches_congr (d := j.disk.replan []) rfl]
  exact hm₂.target.symm

theorem pendingJournal_size_lt : 116 < 2 ^ 63 := by decide

/-- A journal of two slots a section, with a correct block and a buffer write at offset 3.  The
power is planned to fail when the header is written the second time. -/
def pendingJournal : Journal :=
  ⟨⟨116, Image.applyAll (fun _ => 0)
      [⟨64, entryBytes 13 ⟨3, 1, [5]⟩⟩, ⟨90, entryBytes 13 ⟨3, 1, [6]⟩⟩],
      [.done, .powerLoss 63], pendingJournal_size_lt⟩,
    1, 1, ⟨bdrMagic, 13, 2, 64, 13, 2, 90, 0⟩⟩

/-- Two starts are interrupted, the first in the middle of the last write. -/
theorem boots_redo_pendingJournal :
    ∃ m f, writeJournalToReplica ⟨⟨4, fun _ => 7, [], by decide⟩,
        { pendingJournal with disk := pendingJournal.disk.replan [] }⟩ = .ok () m ∧
      checkJournal ((boots [([], [.powerLoss 64]), ([.powerLoss 0], [])]
        (left writeJournalToReplica
          ⟨⟨4, fun _ => 7, [], by decide⟩, pendingJournal⟩).files).replan [] []) = .ok () f ∧
      f.target.bytes = m.target.bytes :=
  boots_redo ⟨4, fun _ => 7, [], by decide⟩
    (show validate pendingJournal = .ok () (withHeader
      { pendingJournal with disk := pendingJournal.disk.replan [.powerLoss 63] }
      pendingJournal.header.setValidFlag) from rfl)
    ⟨⟨by decide, by decide, by decide, by decide⟩, ⟨by decide, by decide, by decide, by decide⟩⟩
    rfl (by decide) (by simp [NoFailure])
    (by simp [NoFailure, pendingJournal, Device.replan, withHeader]) (by simp [NoFailure])

end Bdr.Server
