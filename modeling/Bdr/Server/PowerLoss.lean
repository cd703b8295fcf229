import Bdr.Server.Archive
import Bdr.Server.Journaling

/-!
# Server — a power loss

What a power loss leaves of a journal scan.  While the scan goes on, the journal on the device is
marked invalid (`Dormant`), and a write to a slot that is torn does not change that: when the
server is started again, `CheckJournal` leaves the replica as it is.  `Validate` writes the header
of `Invalidate` but for its last byte, so that a torn header is the old one or the new one; from
then on a replay is due (`Committed`), and however often it is interrupted, the last one completes
it.

* `Session.goesDown`: the devices when the power fails in a move;
* `restarted`: the replica after any number of starts that are interrupted and one that is not;
* `Session.Journaling.restarted`: in a scan that is the replica as it was, or with all that was
  received for the scan.
-/

namespace Bdr.Server

open Journal

/-! ### A journal that is not valid -/

/-- The device holds the header, which is not marked valid. -/
structure Dormant (j : Journal) : Prop where
  layout : Layout j.header j.disk.size
  stored : HeaderStored j
  invalid : j.header.setInvalidFlag = j.header

theorem setInvalidFlag_setInvalidFlag (h : Header) :
    h.setInvalidFlag.setInvalidFlag = h.setInvalidFlag := by
  simp [Header.setInvalidFlag, UInt64.and_assoc]

theorem setInvalidFlag_setValidFlag (h : Header) :
    h.setValidFlag.setInvalidFlag = h.setInvalidFlag := by
  have hflags : (h.flags ||| journalValidFlag) &&& ~~~journalValidFlag =
      h.flags &&& ~~~journalValidFlag := by
    apply UInt64.eq_of_toBitVec_eq
    ext i hi
    simp only [UInt64.toBitVec_and, UInt64.toBitVec_or, UInt64.toBitVec_not, BitVec.getElem_and,
      BitVec.getElem_or, BitVec.getElem_not]
    cases h.flags.toBitVec[i] <;> simp
  simp only [Header.setInvalidFlag, Header.setValidFlag, hflags]

section Dormant
variable {j : Journal}

theorem marked_of_stored (h : HeaderStored j) : marked j.disk = j.header.isValid := by
  rw [marked, show j.disk.bytes.read 0 64 = _ from h, Header.ofBytes_toBytes]

theorem Dormant.marked (h : Dormant j) : Server.marked j.disk = false := by
  rw [marked_of_stored h.stored, ← h.invalid]
  exact Header.isValid_setInvalidFlag _

theorem dormant_withHeader (hl : Layout j.header j.disk.size) :
    Dormant (j.withHeader j.header.setInvalidFlag) where
  layout := ⟨hl.bufWrites, hl.corrBlocks⟩
  stored := headerStored_withHeader _ hl.size_ge
  invalid := setInvalidFlag_setInvalidFlag _

/-- A device whose header has not changed. -/
theorem Dormant.setDisk (h : Dormant j) {d : Device} (hsize : d.size = j.disk.size)
    (hread : d.bytes.read 0 64 = j.disk.bytes.read 0 64) : Dormant { j with disk := d } where
  layout := by rw [hsize]; exact h.layout
  stored := hread.trans h.stored
  invalid := h.invalid

/-- What is written behind the header, or torn there, leaves it. -/
theorem Dormant.keeps_diskWriteAt {off : ℕ} (hoff : 64 ≤ off) (data : List UInt8) :
    Keeps Dormant (diskWriteAt off data) := by
  intro j h
  have hsize := j.disk.size_writeAt off data
  rw [Ends, diskWriteAt]
  rcases hw : j.disk.writeAt off data with ⟨d, r⟩
  rw [hw] at hsize
  obtain ⟨-, n, hn⟩ := Device.bytes_writeAt hw
  have hd : Dormant { j with disk := d } := by
    refine h.setDisk hsize ?_
    rw [hn]
    exact Image.read_apply_of_disjoint (.inr (by simpa [Patch.torn] using hoff))
  cases r <;> exact hd

/-- `Invalidate` writes what is there. -/
theorem Dormant.keeps_invalidate : Keeps Dormant Journal.invalidate := by
  intro j h
  have hsize := j.disk.size_writeAt 0 j.header.toBytes
  rw [Ends, invalidate_eq, h.invalid, writeHeader, diskWriteAt]
  rcases hw : j.disk.writeAt 0 j.header.toBytes with ⟨d, r⟩
  rw [hw] at hsize
  obtain ⟨-, n, hn⟩ := Device.bytes_writeAt hw
  have hd : Dormant { j with disk := d } := by
    refine h.setDisk hsize ?_
    have hread : j.header.toBytes.take n = j.disk.bytes.read 0 (min n 64) := by
      rw [← Image.take_read, show j.disk.bytes.read 0 64 = _ from h.stored]
    rw [hn, Patch.torn, hread, Image.apply_read_self]
  cases r <;> exact hd

section Slots
variable {s : Section} {hi : ℕ} (hs : s.Within 64 hi)
include hs

theorem offset_ge {i : ℕ} (hi : i < s.count) : 64 ≤ s.offset i := by
  rw [hs.offset_eq hi]
  exact hs.lo_le.trans (Nat.le_add_right _ _)

theorem Dormant.keeps_writeSlot (i : ℕ) (e : BlockInfo) : Keeps Dormant (writeSlot s i e) := by
  unfold writeSlot
  split
  · exact Keeps.throw _
  · rename_i hi
    exact (orPanic_keeps _).bind fun data =>
      keeps_diskWriteAt (offset_ge hs (Nat.not_le.mp hi)) data

theorem Dormant.keeps_clearSectionTo (n : ℕ) : Keeps Dormant (clearSectionTo s n) := by
  unfold clearSectionTo
  split
  · exact Keeps.throw _
  · rename_i hn
    refine (orPanic_keeps _).bind fun data => Keeps.forM _ fun i hi => ?_
    exact keeps_diskWriteAt
      (offset_ge hs ((List.mem_range.mp hi).trans_le (Nat.not_lt.mp hn))) data

end Slots

/-- An operation on a section of a dormant journal. -/
theorem Dormant.keeps_onSection {α : Type} {s : Header → Section} {f : Section → Op α}
    (hs : ∀ h size, Layout h size → (s h).Within 64 size)
    (hf : ∀ s hi, Section.Within s 64 hi → Keeps Dormant (f s)) : Keeps Dormant (onSection s f) :=
  fun j h => Ends.get_bind (hf _ _ (hs _ _ h.layout) j h)

theorem Dormant.keeps_resetTo (n m : ℕ) : Keeps Dormant (resetTo n m) := by
  refine keeps_invalidate.bind fun _ => Keeps.bind ?_ fun _ => Keeps.bind ?_ fun _ => ?_
  · exact keeps_onSection (fun _ _ hl => hl.bufWrites_within) fun s hi hs =>
      keeps_clearSectionTo hs n
  · exact keeps_onSection (fun _ _ hl => hl.corrBlocks_within) fun s hi hs =>
      keeps_clearSectionTo hs m
  · exact Keeps.modify fun _ h => ⟨h.layout, h.stored, h.invalid⟩

theorem Dormant.keeps_storePacket (p : Packet) : Keeps Dormant (storePacket p) := by
  have hcount : ∀ g : Journal → Journal, (∀ j, (g j).disk = j.disk ∧ (g j).header = j.header) →
      ∀ j, Dormant j → Dormant (g j) := by
    intro g hg j h
    obtain ⟨hd, hh⟩ := hg j
    exact ⟨by rw [hd, hh]; exact h.layout, by rw [HeaderStored, hd, hh]; exact h.stored,
      by rw [hh]; exact h.invalid⟩
  cases p with
  | payloadBufferWrite w =>
      refine Keeps.get_bind fun _ => Keeps.bind ?_ fun _ =>
        Keeps.modify (hcount _ fun _ => ⟨rfl, rfl⟩)
      exact keeps_onSection (fun _ _ hl => hl.bufWrites_within) fun s hi hs =>
        keeps_writeSlot hs _ w
  | payloadCorrectBlock b =>
      refine Keeps.get_bind fun _ => Keeps.bind ?_ fun _ =>
        Keeps.modify (hcount _ fun _ => ⟨rfl, rfl⟩)
      exact keeps_onSection (fun _ _ hl => hl.corrBlocks_within) fun s hi hs =>
        keeps_writeSlot hs _ b
  | _ => exact Keeps.pure ()

end Dormant

/-! ### Starting again -/

/-- The target when starts as planned have been interrupted, and one has not. -/
def restarted (plans : List (List Outcome × List Outcome)) (f : Files) : Image UInt8 :=
  (left checkJournal ((boots plans f).replan [] [])).target.bytes

theorem left_checkJournal_of_unmarked {f : Files} (h : marked f.disk = false) :
    left checkJournal f = f := by
  unfold left checkJournal
  cases hopen : openJournal f.disk with
  | error e => cases e <;> rfl
  | ok jrn =>
      obtain ⟨-, hread, -⟩ := openJournal_eq_ok hopen
      have hv : jrn.header.isValid = false := (isValid_of_readHeader hread).trans h
      simp only [hv, Bool.not_false, if_true]

/-- A journal that is not marked is left alone, and so is the target. -/
theorem restarted_of_unmarked (plans : List (List Outcome × List Outcome)) {f : Files}
    (h : marked f.disk = false) : restarted plans f = f.target.bytes := by
  have hboots : (boots plans f).target.bytes = f.target.bytes ∧
      marked (boots plans f).disk = false := by
    induction plans generalizing f with
    | nil => exact ⟨rfl, h⟩
    | cons b plans ih =>
        have hleft : left checkJournal (f.replan b.1 b.2) = f.replan b.1 b.2 :=
          left_checkJournal_of_unmarked h
        have := ih (f := f.replan b.1 b.2) h
        have hcons : boots (b :: plans) f =
            boots plans (left checkJournal (f.replan b.1 b.2)) := rfl
        rwa [hcons, hleft]
  have hmarked : marked ((boots plans f).replan [] []).disk = false := hboots.2
  rw [restarted, left_checkJournal_of_unmarked hmarked]
  exact hboots.1

/-- A valid journal is on its device, from which `ps` are to be written over `t`, or have been. -/
def Committed (size : ℕ) (t : Image UInt8) (ps : List (Patch UInt8)) (f : Files) : Prop :=
  ∃ j, Replayable size j ∧ HeaderStored j ∧ j.header.magic = bdrMagic ∧ j.header.isValid = true ∧
    replayPatches j = ps ∧ Safe False size j t f

theorem Committed.restarted {size : ℕ} {t : Image UInt8} {ps : List (Patch UInt8)} {f : Files}
    (h : Committed size t ps f) {plans : List (List Outcome × List Outcome)}
    (hplans : ∀ b ∈ plans, NoFailure b.1 ∧ NoFailure b.2) :
    Server.restarted plans f = t.applyAll ps := by
  obtain ⟨j, hr, hh, hm, hv, rfl, hsafe⟩ := h
  have hcalm : NoFailure [] ∧ (True → ([] : List Outcome) = []) :=
    ⟨by simp [NoFailure], fun _ => rfl⟩
  have hlast := checkJournal_safe hr hh hm hv
    ((boots_safe hr hh hm hv plans hplans hsafe).replan hcalm hcalm)
  obtain ⟨_, f', hf', hret⟩ := hlast.succeeds fun e s h => h.1.2 trivial
  rw [Server.restarted, left, hf']
  exact hret.target

/-! ### A replay that is interrupted -/

section Replay
variable {j : Journal}

/-- The header is the old one or the new one. -/
theorem apply_torn_validHeader (h : Dormant j) {n : ℕ} (hn : n < 64) :
    j.disk.bytes.apply ⟨0, j.header.setValidFlag.toBytes.take n⟩ = j.disk.bytes := by
  have htake : j.header.setValidFlag.toBytes.take n = j.header.toBytes.take n := by
    rw [← Header.take_toBytes_setInvalidFlag _ hn, setInvalidFlag_setValidFlag, h.invalid]
  have hread : j.header.toBytes.take n = j.disk.bytes.read 0 n := by
    rw [← show j.disk.bytes.read 0 64 = _ from h.stored, Image.take_read, min_eq_left hn.le]
  rw [htake, hread, Image.apply_read_self]

/-- The journal when it has been marked valid can be replayed as it could be opened before. -/
theorem replayable_withHeader (h : Dormant j) (hopen : openJournal j.disk = .ok j) {size : ℕ}
    (hfits : ∀ p ∈ replayPatches j, p.offset + p.data.length ≤ size) (plan : List Outcome) :
    let j' := withHeader { j with disk := j.disk.replan plan } j.header.setValidFlag
    Replayable size j' ∧ HeaderStored j' ∧ j'.header.magic = bdrMagic ∧
      j'.header.isValid = true ∧ replayPatches j' = replayPatches j := by
  intro j'
  obtain ⟨-, -, hm, hwrites, hblocks⟩ := (openJournal_iff h.layout).mp hopen
  have hframe : Device.Frame 0 64 (j.disk.replan plan) j'.disk :=
    frame_withHeader { j with disk := j.disk.replan plan } _
  have hw : ∀ i < j.header.bufWrites.count,
      j.header.bufWrites.bytesAt j'.disk i = j.header.bufWrites.bytesAt j.disk i := fun i hi =>
    Section.bytesAt_frame (d := j.disk.replan plan) h.layout.bufWrites_within hframe
      (.inl le_rfl) hi
  have hb : ∀ i < j.header.corrBlocks.count,
      j.header.corrBlocks.bytesAt j'.disk i = j.header.corrBlocks.bytesAt j.disk i := fun i hi =>
    Section.bytesAt_frame (d := j.disk.replan plan) h.layout.corrBlocks_within hframe
      (.inl le_rfl) hi
  have hps : replayPatches j' = replayPatches j := by
    have hentries : ∀ (s : Section) (n : ℕ), n < s.count →
        (∀ i < s.count, s.bytesAt j'.disk i = s.bytesAt j.disk i) →
        entries s j'.disk n = entries s j.disk n := fun s n hn hs =>
      List.map_congr_left fun i hi => by
        rw [Section.entryAt, Section.entryAt, hs i ((List.mem_range.mp hi).trans hn)]
    exact congrArg₂ (fun a b => a.map BlockInfo.patch ++ b.map BlockInfo.patch)
      (hentries _ _ hblocks.1 hb) (hentries _ _ hwrites.1 hw)
  exact ⟨⟨⟨h.layout.bufWrites, h.layout.corrBlocks⟩, hwrites.congr hw, hblocks.congr hb,
    by rw [hps]; exact hfits⟩, headerStored_withHeader _ h.layout.size_ge, hm,
    Header.isValid_setValidFlag _, hps⟩

theorem validate_of_ok {d : Device}
    (hw : j.disk.writeAt 0 j.header.setValidFlag.toBytes = (d, .ok)) :
    validate j = .ok () { j with header := j.header.setValidFlag, disk := d } := by
  rw [validate_eq, writeHeader, diskWriteAt]
  simp only [hw]

theorem validate_of_dead {d : Device}
    (hw : j.disk.writeAt 0 j.header.setValidFlag.toBytes = (d, .dead)) :
    validate j = .error .powerLoss { j with header := j.header.setValidFlag, disk := d } := by
  rw [validate_eq, writeHeader, diskWriteAt]
  simp only [hw]

/-- **`WriteJournalToReplica` goes down** before the journal is marked valid, and the target is as
it was; or after it, and a replay is due. -/
theorem left_writeJournalToReplica {target : Device} (h : Dormant j)
    (hopen : openJournal j.disk = .ok j)
    (hfits : ∀ p ∈ replayPatches j, p.offset + p.data.length ≤ target.size) {p q : List Outcome}
    (hp : NoFailure p) (hq : NoFailure q) :
    let f := (left writeJournalToReplica
      ⟨target.replan p, { j with disk := j.disk.replan q }⟩).files
    (f.target.bytes = target.bytes ∧ marked f.disk = false) ∨
      Committed target.size target.bytes (replayPatches j) f := by
  intro f
  have hlen : j.header.setValidFlag.toBytes.length = 64 := Header.length_toBytes _
  have hfit : 0 + j.header.setValidFlag.toBytes.length ≤ (j.disk.replan q).size := by
    rw [hlen, Nat.zero_add]
    exact h.layout.size_ge
  have hsound : (j.disk.replan q).Sound False := ⟨hq, False.elim⟩
  rcases Device.writeAt_of_sound hsound hfit with ⟨plan, hw, hs'⟩ | ⟨-, n, plan, hw, hs'⟩
  · -- the journal is valid
    right
    obtain ⟨hr, hh, hm, hv, hps⟩ := replayable_withHeader h hopen hfits plan
    have hsane : Sane False target.size
        (withHeader { j with disk := j.disk.replan plan } j.header.setValidFlag)
        ⟨target.replan p, (j.disk.replan plan).store 0 j.header.setValidFlag.toBytes⟩ :=
      ⟨rfl, ⟨hp, False.elim⟩, rfl, hs'⟩
    have hvalid := validate_of_ok (j := { j with disk := j.disk.replan q }) hw
    have hends := writeJournalToReplica_safe hr hh hvalid hsane
    exact ⟨_, hr, hh, hm, hv, hps, hends.left (P := fun m => Safe _ _ _ _ m.files)
      (fun _ _ => .inr) fun _ _ h => h.2⟩
  · have hf : f = ⟨target.replan p,
        (j.disk.replan plan).store 0 (j.header.setValidFlag.toBytes.take n)⟩ := by
      have hdown : ignoreError (onJournal .validate validate)
          ⟨target.replan p, { j with disk := j.disk.replan q }⟩ = .error .powerLoss
            ⟨target.replan p, { j with
              header := j.header.setValidFlag
              disk := (j.disk.replan plan).store 0 (j.header.setValidFlag.toBytes.take n) }⟩ := by
        rw [ignoreError, onJournal]
        simp only [validate_of_dead (j := { j with disk := j.disk.replan q }) hw]
        rfl
      show (left writeJournalToReplica _).files = _
      rw [left, writeJournalToReplica, bind_of_error hdown]
      rfl
    have hbytes : ((j.disk.replan plan).store 0 (j.header.setValidFlag.toBytes.take n)).bytes =
        j.disk.bytes.apply ⟨0, j.header.setValidFlag.toBytes.take n⟩ :=
      Device.bytes_store (d := j.disk.replan plan)
        ((Nat.add_le_add_left (List.length_take_le' _ _) _).trans hfit)
    by_cases hn : n < 64
    · left
      refine ⟨by rw [hf]; rfl, ?_⟩
      rw [hf, marked, hbytes, apply_torn_validHeader h hn]
      exact h.marked
    · right
      obtain ⟨hr, hh, hm, hv, hps⟩ := replayable_withHeader h hopen hfits plan
      have htake : j.header.setValidFlag.toBytes.take n = j.header.setValidFlag.toBytes :=
        List.take_of_length_le (by omega)
      refine ⟨_, hr, hh, hm, hv, hps, .inl ⟨?_, ?_, ?_⟩⟩
      · rw [hf]
        exact ⟨rfl, ⟨hp, False.elim⟩, rfl, hs'⟩
      · rw [hf, htake]
        rfl
      · rw [hf]
        exact Image.Touched.refl _ _

/-- The entries a section holds are read back, and written as they were received. -/
theorem map_patch_entries {s : Section} {l : List BlockInfo} {size : ℕ}
    (hl : s.Holds j.disk l) (hlen : l.length ≤ s.count) (hle : ∀ e ∈ l, Legible s size e) :
    (entries s j.disk l.length).map BlockInfo.patch = l.map BlockInfo.patch := by
  refine List.ext_getElem (by simp) fun i hi₁ hi₂ => ?_
  have hi : i < l.length := by simpa using hi₂
  have h := hle l[i] (List.getElem_mem hi)
  have hentry : s.entryAt j.disk i = some (readBack l[i]) := by
    rw [Section.entryAt, hl i (hi.trans_le hlen), List.getD_eq_getElem l invalidInfo hi,
      deserialize_entryBytes (h.dataSize_eq ▸ h.takes.slot), if_pos (h.dataSize_eq ▸ h.takes.bound)]
  simp [entries, hentry, h.patch_readBack.2]

theorem replayPatches_of_contains {ws bs : List BlockInfo} {size : ℕ} (hc : Contains j ws bs)
    (hw : ws.length ≤ j.header.bufWrites.count) (hb : bs.length ≤ j.header.corrBlocks.count)
    (hws : ∀ w ∈ ws, Legible j.header.bufWrites size w)
    (hbs : ∀ b ∈ bs, Legible j.header.corrBlocks size b) :
    replayPatches j = bs.map BlockInfo.patch ++ ws.map BlockInfo.patch := by
  rw [replayPatches, hc.writeOffset, hc.correctOffset, map_patch_entries hc.writes hw hws,
    map_patch_entries hc.blocks hb hbs]

/-- A replay that returns without an error leaves the journal marked invalid. -/
theorem dormant_of_writeJournalToReplica {m m' : Machine} (hc : Clearable m.journal)
    (h : writeJournalToReplica m = .ok () m') : Dormant m'.journal := by
  have hread (step : ReplayStep) (s : Header → Section) (i : ℕ) :
      Keeps (fun m : Machine => Clearable m.journal)
        (onJournal step (onSection s (readSlot · i))) :=
    Keeps.onJournal (Keeps.get_bind fun _ => readSlot_keeps Clearable _ i) step
  have hends : Ends writeJournalToReplica m (fun _ m' => Dormant m'.journal) fun _ _ => True := by
    refine ((Keeps.ignoreError (Keeps.onJournal Clearable.keeps_validate _) m hc).mono
      (fun _ _ => id) fun _ _ _ => trivial).bind fun _ m₁ h₁ => Ends.get_bind ?_
    refine ((Keeps.forM _ fun i _ => (hread _ _ i).bind fun b =>
      targetWriteAt_keeps (fun _ _ h => h) _ _ _) m₁ h₁ |>.mono
      (fun _ _ => id) fun _ _ _ => trivial).bind fun _ m₂ h₂ => ?_
    refine ((Keeps.forM _ fun i _ => (hread _ _ i).bind fun w =>
      writeBufferWriteToReplica_keeps (fun _ _ h => h) w) m₂ h₂ |>.mono
      (fun _ _ => id) fun _ _ _ => trivial).bind fun _ m₃ h₃ => ?_
    rw [Ends, onJournal, invalidate_apply h₃.plan h₃.layout.size_ge]
    exact dormant_withHeader h₃.layout
  rwa [Ends, h] at hends

end Replay

/-! ### The session goes down -/

/-- The machine with what is planned for its devices. -/
def Machine.replan (m : Machine) (p q : List Outcome) : Machine :=
  ⟨m.target.replan p, { m.journal with disk := m.journal.disk.replan q }⟩

theorem left_onJournal (step : ReplayStep) (x : Op Unit) (m : Machine) :
    left (onJournal step x) m = ⟨m.target, left x m.journal⟩ := by
  unfold left onJournal
  cases hx : x m.journal with
  | ok a j => rfl
  | error e j => cases e <;> rfl

theorem Dormant.left {x : Op Unit} (hx : Keeps Dormant x) {j : Journal} (h : Dormant j)
    (q : List Outcome) : Dormant (left x { j with disk := j.disk.replan q }) :=
  (hx _ (h.setDisk (d := j.disk.replan q) rfl rfl)).left (fun _ _ => id) fun _ _ => id

namespace Session

/-- What a move does to the devices. -/
def operating (s : Session) : SessionMove → ServerOp Unit
  | .handler _ =>
      if s.handler = .writingJournal ∧ s.state ≠ .destroyingReplica then writeJournalToReplica
      else pure ()
  | m => (s.operation m).getD (pure ())

/-- The devices when the power fails in a move, as planned for them, or right after it. -/
def goesDown (s : Session) (p q : List Outcome) (m : SessionMove) : Files :=
  (left (s.operating m) (s.machine.replan p q)).files

section GoesDown
variable {s s' : Session} {hash : List UInt8 → UInt64} {numWorkers : ℕ} {m : SessionMove}
variable {p q : List Outcome} {ps : List Packet}

theorem goesDown_of_pure (hd : Dormant s.machine.journal) (h : s.operating m = pure ()) :
    (s.goesDown p q m).target.bytes = s.machine.target.bytes ∧
      marked (s.goesDown p q m).disk = false := by
  rw [goesDown, h]
  exact ⟨rfl, hd.marked⟩

theorem goesDown_of_onJournal (hd : Dormant s.machine.journal) (step : ReplayStep) {x : Op Unit}
    (h : s.operating m = onJournal step x) (hx : Keeps Dormant x) :
    (s.goesDown p q m).target.bytes = s.machine.target.bytes ∧
      marked (s.goesDown p q m).disk = false := by
  rw [goesDown, h, left_onJournal]
  exact ⟨rfl, (hd.left hx q).marked⟩

theorem operation_writer_of_ne
    (h : ∀ w, s.writeQueue.busy? 0 ≠ some (.writing (.payloadBufferWrite w))) :
    s.operation .writer = none := by
  dsimp only [operation]
  split
  · rename_i w hw
    exact absurd hw (h w)
  · rfl

/-- A session that neither writes nor replays: what it appends to the journal or clears there may be
torn, but the target is left. -/
theorem goesDown_of_idle (hd : Dormant s.machine.journal)
    (hw : m = .writer → s.operation .writer = none) (hc : s.correctQueue.Idle)
    (hr : s.replicationQueue.workers = [])
    (hh : ∀ sent, m = .handler sent → s.handler ≠ .writingJournal) :
    (s.goesDown p q m).target.bytes = s.machine.target.bytes ∧
      marked (s.goesDown p q m).disk = false := by
  cases m with
  | receive packet => exact goesDown_of_pure hd rfl
  | hash mv => exact goesDown_of_pure hd rfl
  | handler sent => exact goesDown_of_pure hd (if_neg fun h => hh sent rfl h.1)
  | writer => exact goesDown_of_pure hd (by simp [operating, hw rfl])
  | corrector => exact goesDown_of_pure hd (by simp [operating, operation, hc.busy? 0])
  | replicator i =>
      exact goesDown_of_pure hd
        (by simp [operating, operation, (Pool.finished_of_workers hr).busy? i])
  | journaler sent =>
      cases hb : s.journalQueue.busy? 0 with
      | none => exact goesDown_of_pure hd (by simp [operating, operation, hb])
      | some task =>
          cases task with
          | storing packet =>
              exact goesDown_of_onJournal hd .copy
                (by simp [operating, operation, hb]) (Dormant.keeps_storePacket packet)
          | took | overflowing => exact goesDown_of_pure hd (by simp [operating, operation, hb])
  | startHash =>
      by_cases hp : s.hashDisk.phase = .resetting
      · exact goesDown_of_onJournal hd .copy
          (by simp [operating, operation, hp]; rfl) (Dormant.keeps_resetTo _ _)
      · exact goesDown_of_pure hd (by simp [operating, operation, hp])

/-- A session that only writes: the write at hand may be torn. -/
theorem OnlyWrites.goesDown (h : s.OnlyWrites) (hd : Dormant s.machine.journal) :
    ∃ ts rest n, ts.length ≤ 1 ∧ writes s.queued = ts ++ rest ∧
      (s.goesDown p q m).target.bytes = s.machine.target.bytes.applyAll (ts.map (·.torn n)) ∧
      marked (s.goesDown p q m).disk = false := by
  have hidle (hidle : (s.goesDown p q m).target.bytes = s.machine.target.bytes ∧
      marked (s.goesDown p q m).disk = false) : ∃ ts rest n, ts.length ≤ 1 ∧
        writes s.queued = ts ++ rest ∧
        (s.goesDown p q m).target.bytes = s.machine.target.bytes.applyAll (ts.map (·.torn n)) ∧
        marked (s.goesDown p q m).disk = false :=
    ⟨[], writes s.queued, 0, by simp, rfl, hidle⟩
  have hh : ∀ sent, m = .handler sent → s.handler ≠ .writingJournal := by
    rintro sent - hw
    rcases h.handler with hr | ⟨packet, hr⟩ <;> cases hr.symm.trans hw
  by_cases hm : m = .writer ∧ ∃ w, s.writeQueue.busy? 0 = some (.writing (.payloadBufferWrite w))
  · obtain ⟨rfl, w, hb⟩ := hm
    have hop : s.operating .writer = writeBufferWriteToReplica w := by
      simp [operating, operation, hb]
    by_cases hsize : w.size.toNat ≤ w.data.length
    · have hdata : dataToWrite w (s.machine.replan p q) =
          .ok (w.data.take w.size.toNat) (s.machine.replan p q) := by
        simp only [dataToWrite, slice, if_pos (⟨Nat.zero_le _, hsize⟩ : 0 ≤ _ ∧ _)]
        rfl
      have heq : writeBufferWriteToReplica w (s.machine.replan p q) =
          targetWriteAt .writeBufferWrite w.patch.offset w.patch.data (s.machine.replan p q) :=
        bind_of_ok hdata
      cases hw : (s.machine.target.replan p).writeAt w.patch.offset w.patch.data with
      | mk d r =>
          obtain ⟨-, n, hn⟩ := Device.bytes_writeAt hw
          have hf : s.goesDown p q .writer = ⟨d, s.machine.journal.disk.replan q⟩ := by
            rw [Session.goesDown, hop, left, heq, targetWriteAt]
            simp only [show (s.machine.replan p q).target.writeAt _ _ = _ from hw]
            cases r <;> rfl
          refine ⟨[w.patch], writes s.queued.tail, n, by simp, ?_, ?_, ?_⟩
          · simp [queued, hb, WriteTask.packet]
          · rw [hf]
            exact hn
          · rw [hf]
            exact hd.marked
    · -- the slice is out of range
      refine hidle ?_
      have hdata : dataToWrite w (s.machine.replan p q) = .error .panic (s.machine.replan p q) := by
        simp only [dataToWrite, slice, if_neg (fun h : 0 ≤ _ ∧ _ => hsize h.2)]
        rfl
      have heq : writeBufferWriteToReplica w (s.machine.replan p q) =
          .error .panic (s.machine.replan p q) := bind_of_error hdata
      rw [Session.goesDown, hop, left, heq]
      exact ⟨rfl, hd.marked⟩
  · refine hidle (goesDown_of_idle hd ?_ h.correct h.replication hh)
    rintro rfl
    exact operation_writer_of_ne fun w hb => hm ⟨rfl, w, hb⟩

/-- The journal stays marked invalid from one move to the next, if a replay returns without an
error. -/
theorem dormant_move (hd : Dormant s.machine.journal) (hc : Clearable s.machine.journal)
    (hok : ∀ sent, m = .handler sent → s.handler = .writingJournal →
      ∃ m', writeJournalToReplica s.machine = .ok () m')
    (hm : s.move hash numWorkers m = some (s', ps)) : Dormant s'.machine.journal := by
  cases move_cases hm with
  | @receive packet _ =>
      cases hp : IsControl packet with
      | false =>
          rcases receive_of_data hp s with ⟨queue, -, heq⟩ | ⟨-, heq⟩ <;> rw [heq] <;> exact hd
      | true => cases packet <;> first | exact hd | cases hp
  | handler ht =>
      cases moveHandler_cases ht with
      | enqueued hh he => exact machine_enqueue he ▸ hd
      | journalWritten hh hs hr =>
          obtain ⟨m', hm'⟩ := hok _ rfl hh
          obtain ⟨hx, -⟩ | ⟨e, hx, -⟩ := attempt_eq_some.mp hr
          · exact dormant_of_writeJournalToReplica hc hx
          · cases hm'.symm.trans hx
      | _ => exact hd
  | journaler ht =>
      rcases moveJournaler_cases ht with ⟨q, -, rfl, -⟩ | ⟨p, -, -, rfl⟩ |
        ⟨p, a, -, ha, ⟨-, rfl, -⟩ | ⟨-, rfl, -⟩⟩ | ⟨-, -, rfl⟩
      · exact hd
      · exact hd
      · exact attempt_of_ends (Dormant.keeps_storePacket p _ hd) ha
      · exact attempt_of_ends (Dormant.keeps_storePacket p _ hd) ha
      · exact hd
  | writer ht => exact (journal_moveWriter ht).1 ▸ hd
  | corrector ht => exact (journal_moveCorrector ht).1 ▸ hd
  | replicator ht => exact (journal_moveReplicator ht).1 ▸ hd
  | startHash ht =>
      rcases moveStartHash_cases ht with ⟨-, rfl⟩ | ⟨-, a, ha, rfl⟩
      · exact hd
      · exact attempt_of_ends (Dormant.keeps_resetTo _ _ _ hd) ha
  | hash _ => exact hd

/-- **A power loss in a journal scan.**  When the server has been started again, the replica is as
it was before the scan, or it has all that was received for the scan, the blocks and then the
writes, if the journal that is replayed can be opened again. -/
theorem Journaling.restarted {target : Device} {stage : HashStage} {todo : Multiset HashInfo}
    (h : s.Journaling hash numWorkers target stage todo ps) (hsound : Sound ⟨s, some ps⟩)
    (hd : Dormant s.machine.journal) (hps : ∀ p ∈ ps, Replayable target.size p)
    (hopen : s.handler = .writingJournal →
      openJournal s.machine.journal.disk = .ok s.machine.journal)
    (hp : NoFailure p) (hq : NoFailure q) {plans : List (List Outcome × List Outcome)}
    (hplans : ∀ b ∈ plans, NoFailure b.1 ∧ NoFailure b.2) :
    Server.restarted plans (s.goesDown p q m) = target.bytes ∨
      s.handler = .writingJournal ∧ Server.restarted plans (s.goesDown p q m) =
        (target.bytes.applyAll ((blocksOf ps).map BlockInfo.patch)).applyAll (writes ps) := by
  have htarget := h.target_eq
  by_cases hm : s.handler = .writingJournal ∧ ∃ sent, m = .handler sent
  · obtain ⟨hh, sent, rfl⟩ := hm
    have hc := hsound.clearable
    obtain ⟨-, hcontains, hws, hbs⟩ := h.contains hsound hh hps
    have hpatches := replayPatches_of_contains hcontains
      (hcontains.writeOffset ▸ hc.writes_le) (hcontains.correctOffset ▸ hc.blocks_le) hws hbs
    have hfits : ∀ p ∈ replayPatches s.machine.journal,
        p.offset + p.data.length ≤ s.machine.target.size := by
      rw [hpatches, htarget]
      intro p hp
      rcases List.mem_append.mp hp with hp | hp
      · obtain ⟨b, hb, rfl⟩ := List.mem_map.mp hp
        exact (hbs b hb).fits
      · obtain ⟨w, hw, rfl⟩ := List.mem_map.mp hp
        exact (hws w hw).fits
    have hop : s.operating (.handler sent) = writeJournalToReplica :=
      if_pos ⟨hh, by rw [h.state]; simp⟩
    have hleft := left_writeJournalToReplica hd (hopen hh) hfits hp hq
    rw [goesDown, hop, Machine.replan]
    rcases hleft with ⟨hbytes, hmarked⟩ | hcommitted
    · left
      rw [restarted_of_unmarked plans hmarked, hbytes, htarget]
    · right
      rw [hcommitted.restarted hplans, hpatches, Image.applyAll_append, htarget]
      exact ⟨hh, rfl⟩
  · left
    obtain ⟨hbytes, hmarked⟩ := goesDown_of_idle (p := p) (q := q) hd
      (fun _ => operation_writer_of_ne fun w hb => by simp [h.writer.busy? 0] at hb) h.correct
      h.replication fun sent hsent hh => hm ⟨hh, sent, hsent⟩
    rw [restarted_of_unmarked plans hmarked, hbytes, htarget]

end GoesDown

end Session

end Bdr.Server
