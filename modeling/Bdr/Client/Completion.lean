import Bdr.Client.Replication
import Bdr.Support.Runs

/-!
# Client — the end of a full replication

`InitReplication` with all that it may meet: the size of the device cannot be found out, a read
fails or ends early, the daemon is shut down, a packet cannot be encoded, the connection is replaced
by another.  In each case a block may be left out, and the word that the replication is complete is
sent all the same.

Every goroutine looks for the shutdown when it has received an item.  Apart from that the pipeline
is the one of `Client/InitReplication` (`pipeline`), whose account of the blocks on their way is
used here: what has been sent on the connection and what is on its way cover each byte once
(`Live.once`).
-/

namespace Bdr.Client

/-- A reader: it has received an item and is to look for the shutdown, or it is past that. -/
inductive ReaderStage where
  | took (item : ReadItem)
  | works (reader : BlockReader)
  deriving DecidableEq, Repr

/-- A sender: it has received a block and is to look for the shutdown, or it is in `SendPacket`. -/
inductive SenderStage where
  | took (block : ReplicationBlockInfo)
  | sends (block : ReplicationBlockInfo)
  deriving DecidableEq, Repr

/-- Where `InitReplication` itself is: it waits for the senders, reports completion, or is past
that. -/
inductive CompletionPhase where
  | running
  | completing
  | over
  deriving DecidableEq, Repr

/-- How a read goes on: with the next byte, with an error, or with `io.EOF`. -/
inductive ReadOutcome where
  | ok
  | failed
  | eof
  deriving DecidableEq, Repr

/-- `InitReplication` at work.  `sent` are its packets on the present connection; `seen` are the
contents that the source has had since it began. -/
structure Completion where
  source : Image UInt8
  seen : List (Image UInt8)
  terminated : Bool
  generator : BlockGenerator
  readers : Pool ReadItem ReaderStage
  senders : Pool ReplicationBlockInfo SenderStage
  phase : CompletionPhase
  sent : List Packet

/-- A move of one goroutine; the shutdown; a new connection; a write to the source. -/
inductive CompletionMove where
  | generator
  | reader (i : ℕ) (outcome : ReadOutcome)
  | closeSend
  | sender (i : ℕ) (encoded : Bool)
  | sendersDone
  | complete (encoded : Bool)
  | terminate
  | reconnect
  | write (w : Patch UInt8)
  deriving DecidableEq, Repr

namespace Completion

def start (numWorkers : ℕ) (source : Image UInt8) : Completion :=
  ⟨source, [source], false, .loop 0, .start numWorkers, .start numWorkers, .running, []⟩

section Moves
variable (numWorkers : ℕ) (diskSize : UInt64) (s : Completion)

def moveGenerator : Option Completion :=
  match s.generator with
  | .loop offset =>
      if offset < diskSize then
        if s.terminated then some { s with generator := .done, readers := s.readers.close }
        else some { s with generator := .sending (InitReplication.readItem diskSize offset) }
      else some { s with generator := .done, readers := s.readers.close }
  | .sending item =>
      (s.readers.send numWorkers item).map fun readers =>
        { s with
          readers := readers
          generator := .loop (item.offset + UInt64.ofNat hashedSpaceBase) }
  | .done => none

def setReader (i : ℕ) (w : Worker ReaderStage) : Completion :=
  { s with readers := s.readers.setWorker i w }

def setSender (i : ℕ) (w : Worker SenderStage) : Completion :=
  { s with senders := s.senders.setWorker i w }

def moveReader (i : ℕ) (outcome : ReadOutcome) : Option Completion :=
  match s.readers.busy? i with
  | none => (s.readers.receive .took i).map fun readers => { s with readers := readers }
  | some (.took item) =>
      if s.terminated then some (s.setReader i .done)
      else some (s.setReader i (.busy (.works (.reading item []))))
  | some (.works (.reading item buf)) =>
      match outcome with
      | .failed => some (s.setReader i .ranging)
      -- what has not been read stays zero
      | .eof => some (s.setReader i (.busy (.works (.sending ⟨item.offset, item.size,
          buf ++ List.replicate (item.size.toNat - buf.length) 0⟩))))
      | .ok =>
          if buf.length < item.size.toNat then
            some (s.setReader i (.busy (.works
              (.reading item (buf ++ [s.source (item.offset.toNat + buf.length)])))))
          else some (s.setReader i (.busy (.works (.sending ⟨item.offset, item.size, buf⟩))))
  | some (.works (.sending block)) =>
      (s.senders.send numWorkers block).map fun senders =>
        { s.setReader i .ranging with senders := senders }

def moveSender (i : ℕ) (encoded : Bool) : Option Completion :=
  match s.senders.busy? i with
  | none => (s.senders.receive .took i).map fun senders => { s with senders := senders }
  | some (.took block) =>
      if s.terminated then some (s.setSender i .done)
      else some (s.setSender i (.busy (.sends block)))
  | some (.sends block) =>
      if encoded then
        some { s.setSender i .ranging with sent := s.sent ++ [.payloadReplicationBlock block] }
      -- `SendPacket` tries again, unless the daemon is shut down
      else if s.terminated then some (s.setSender i .ranging)
      else some s

/-- `getDeviceSize` is the answer of `GetDeviceSize`; if there is none, the size stays zero. -/
def step (getDeviceSize : Option UInt64) : CompletionMove → Option Completion
  | .generator => s.moveGenerator numWorkers (getDeviceSize.getD 0)
  | .reader i outcome => s.moveReader numWorkers i outcome
  | .closeSend =>
      if s.readers.Finished ∧ s.senders.closed = false then
        some { s with senders := s.senders.close }
      else none
  | .sender i encoded => s.moveSender i encoded
  | .sendersDone =>
      if s.phase = .running ∧ s.senders.Finished then some { s with phase := .completing }
      else none
  | .complete encoded =>
      if s.phase = .completing then
        if encoded then
          some { s with phase := .over, sent := s.sent ++ [.infoReplicationCompleted] }
        else if s.terminated then some { s with phase := .over }
        else some s
      else none
  | .terminate => some { s with terminated := true }
  | .reconnect => some { s with sent := [] }
  | .write w => some { s with source := s.source.apply w, seen := s.source.apply w :: s.seen }

end Moves

/-! ### What completion says -/

/-- The byte has been on the source. -/
def Seen (s : Completion) (p : ℕ) (v : UInt8) : Prop := ∃ m ∈ s.seen, m p = v

/-- The blocks among the packets. -/
def blocks (ps : List Packet) : List ReplicationBlockInfo :=
  ps.filterMap fun
    | .payloadReplicationBlock b => some b
    | _ => none

/-- The blocks lie on a device of `size` bytes, cover each of them once, and hold what `Q` says. -/
structure Tiles (size : ℕ) (Q : ℕ → UInt8 → Prop) (bs : List ReplicationBlockInfo) : Prop where
  carries : ∀ b ∈ bs, b.Carries size Q
  once : ∀ p < size, (bs.map (BlockInfo.weight p)).sum = 1

/-- Whoever is told that the replication is complete has been sent the device. -/
def Truthful (size : ℕ) (s : Completion) : Prop :=
  ∀ before after, s.sent = before ++ .infoReplicationCompleted :: after →
    Tiles size s.Seen (blocks before)

/-- Reads succeed, and until `InitReplication` is past its report there is no shutdown and no other
connection. -/
def careful (s : Completion) : CompletionMove → Prop
  | .reader _ outcome => outcome = .ok
  | .terminate => s.phase = .over
  | .reconnect => s.phase = .over ∨ s.sent = []
  | _ => True

instance (s : Completion) : (m : CompletionMove) → Decidable (s.careful m)
  | .reader _ _ => inferInstanceAs (Decidable (_ = _))
  | .terminate => inferInstanceAs (Decidable (_ = _))
  | .reconnect => inferInstanceAs (Decidable (_ ∨ _))
  | .generator | .closeSend | .sender _ _ | .sendersDone | .complete _ | .write _ =>
      inferInstanceAs (Decidable True)

/-! ### The pipeline -/

end Completion

/-- A reader that has received an item has read nothing of it yet. -/
def ReaderStage.reader : ReaderStage → BlockReader
  | .took item => .reading item []
  | .works reader => reader

def SenderStage.block : SenderStage → ReplicationBlockInfo
  | .took block | .sends block => block

namespace Completion
variable {numWorkers i : ℕ} {size : UInt64} {s s' : Completion}

/-- The pipeline without the looks for a shutdown. -/
def pipeline (s : Completion) : InitReplication :=
  ⟨.running, s.generator, s.readers.map ReaderStage.reader, s.senders.map SenderStage.block⟩

/-- Nothing but the goroutines has moved. -/
structure Quiet (s s' : Completion) : Prop where
  source : s'.source = s.source
  seen : s'.seen = s.seen
  terminated : s'.terminated = s.terminated
  phase : s'.phase = s.phase

theorem quiet_moveGenerator (hs : s.moveGenerator numWorkers size = some s') :
    s.Quiet s' ∧ s'.sent = s.sent ∧ s'.senders.workers = s.senders.workers := by
  unfold moveGenerator at hs
  split at hs
  · split at hs
    · split at hs <;> cases hs <;> exact ⟨⟨rfl, rfl, rfl, rfl⟩, rfl, rfl⟩
    · cases hs
      exact ⟨⟨rfl, rfl, rfl, rfl⟩, rfl, rfl⟩
  · obtain ⟨readers, -, rfl⟩ := Option.map_eq_some_iff.mp hs
    exact ⟨⟨rfl, rfl, rfl, rfl⟩, rfl, rfl⟩
  · cases hs

theorem quiet_moveReader {outcome : ReadOutcome}
    (hs : s.moveReader numWorkers i outcome = some s') :
    s.Quiet s' ∧ s'.sent = s.sent ∧ s'.senders.workers = s.senders.workers := by
  unfold moveReader at hs
  split at hs
  · obtain ⟨readers, -, rfl⟩ := Option.map_eq_some_iff.mp hs
    exact ⟨⟨rfl, rfl, rfl, rfl⟩, rfl, rfl⟩
  · split at hs <;> cases hs <;> exact ⟨⟨rfl, rfl, rfl, rfl⟩, rfl, rfl⟩
  · split at hs
    · cases hs
      exact ⟨⟨rfl, rfl, rfl, rfl⟩, rfl, rfl⟩
    · cases hs
      exact ⟨⟨rfl, rfl, rfl, rfl⟩, rfl, rfl⟩
    · split at hs <;> cases hs <;> exact ⟨⟨rfl, rfl, rfl, rfl⟩, rfl, rfl⟩
  · obtain ⟨senders, hsend, rfl⟩ := Option.map_eq_some_iff.mp hs
    obtain ⟨-, rfl⟩ := Pool.send_eq_some.mp hsend
    exact ⟨⟨rfl, rfl, rfl, rfl⟩, rfl, rfl⟩

theorem pipeline_moveGenerator (ht : s.terminated = false)
    (hs : s.moveGenerator numWorkers size = some s') :
    s.pipeline.moveGenerator numWorkers size = some s'.pipeline := by
  unfold moveGenerator at hs
  unfold InitReplication.moveGenerator
  split at hs
  · rename_i offset hg
    rw [show s.pipeline.generator = .loop offset from hg]
    simp only [ht, Bool.false_eq_true, if_false] at hs
    split at hs
    · rename_i hlt
      cases hs
      exact if_pos hlt
    · rename_i hge
      cases hs
      exact if_neg hge
  · rename_i item hg
    obtain ⟨readers, hsend, rfl⟩ := Option.map_eq_some_iff.mp hs
    rw [show s.pipeline.generator = .sending item from hg]
    simp only [pipeline, Pool.send_map, hsend, Option.map_some]
  · cases hs

/-- A reader of the pipeline moves, or it has only looked for the shutdown. -/
theorem pipeline_moveReader (ht : s.terminated = false)
    (hs : s.moveReader numWorkers i .ok = some s') :
    s'.pipeline = s.pipeline ∨
      s.pipeline.moveReader numWorkers s.source i false = some s'.pipeline := by
  unfold moveReader at hs
  have hbusy := Pool.busy?_map ReaderStage.reader s.readers i
  split at hs
  · rename_i hb
    obtain ⟨readers, hr, rfl⟩ := Option.map_eq_some_iff.mp hs
    refine .inr ?_
    rw [hb] at hbusy
    have hmap := Pool.receive_map ReaderStage.reader ReaderStage.took s.readers i
    rw [hr] at hmap
    simp only [InitReplication.moveReader, pipeline, hbusy, Option.map_none]
    exact congrArg (Option.map _) hmap
  · rename_i item hb
    simp only [ht, Bool.false_eq_true, if_false] at hs
    cases hs
    refine .inl ?_
    simp only [pipeline, setReader,
      Pool.map_setWorker_of_eq (u := .works (.reading item [])) ReaderStage.reader hb rfl]
  · rename_i item buf hb
    simp only at hs
    rw [hb] at hbusy
    split at hs
    · rename_i hlt
      cases hs
      refine .inr ?_
      simp only [InitReplication.moveReader, pipeline, hbusy, Option.map_some, ReaderStage.reader,
        Bool.false_eq_true, if_false, if_pos hlt, setReader, Pool.map_setWorker]
      rfl
    · rename_i hge
      cases hs
      refine .inr ?_
      simp only [InitReplication.moveReader, pipeline, hbusy, Option.map_some, ReaderStage.reader,
        Bool.false_eq_true, if_false, if_neg hge, setReader, Pool.map_setWorker]
      rfl
  · rename_i block hb
    rw [hb] at hbusy
    obtain ⟨senders, hsend, rfl⟩ := Option.map_eq_some_iff.mp hs
    refine .inr ?_
    have hmap := Pool.send_map SenderStage.block numWorkers s.senders block
    rw [hsend] at hmap
    simp only [InitReplication.moveReader, pipeline, hbusy, Option.map_some, ReaderStage.reader,
      setReader, Pool.map_setWorker, hmap]
    rfl

/-- A sender receives a block, has sent one, or has only looked or tried. -/
theorem pipeline_moveSender {encoded : Bool} (ht : s.terminated = false)
    (hs : s.moveSender i encoded = some s') : s.Quiet s' ∧
    (s'.pipeline = s.pipeline ∧ s'.sent = s.sent ∨
      (∃ senders, s.pipeline.senders.receive id i = some senders ∧
        s'.pipeline = { s.pipeline with senders := senders } ∧ s'.sent = s.sent) ∨
      ∃ block, s.pipeline.senders.busy? i = some block ∧
        s'.pipeline = { s.pipeline with senders := s.pipeline.senders.setWorker i .ranging } ∧
          s'.sent = s.sent ++ [.payloadReplicationBlock block]) := by
  unfold moveSender at hs
  have hbusy := Pool.busy?_map SenderStage.block s.senders i
  split at hs
  · obtain ⟨senders, hr, rfl⟩ := Option.map_eq_some_iff.mp hs
    refine ⟨⟨rfl, rfl, rfl, rfl⟩, .inr (.inl ⟨_, ?_, rfl, rfl⟩)⟩
    have hmap := Pool.receive_map SenderStage.block SenderStage.took s.senders i
    rw [hr] at hmap
    exact hmap
  · rename_i block hb
    simp only [ht, Bool.false_eq_true, if_false] at hs
    cases hs
    refine ⟨⟨rfl, rfl, rfl, rfl⟩, .inl ⟨?_, rfl⟩⟩
    simp only [pipeline, setSender,
      Pool.map_setWorker_of_eq (u := .sends block) SenderStage.block hb rfl]
  · rename_i block hb
    rw [hb] at hbusy
    simp only [ht, Bool.false_eq_true, if_false] at hs
    split at hs
    · cases hs
      refine ⟨⟨rfl, rfl, rfl, rfl⟩, .inr (.inr ⟨block, hbusy, ?_, rfl⟩)⟩
      simp only [pipeline, setSender, Pool.map_setWorker]
      rfl
    · cases hs
      exact ⟨⟨rfl, rfl, rfl, rfl⟩, .inl ⟨rfl, rfl⟩⟩

/-! ### Until the report -/

section Blocks
variable {ps qs : List Packet} {n : ℕ} {Q Q' : ℕ → UInt8 → Prop} {bs : List ReplicationBlockInfo}

theorem blocks_append : blocks (ps ++ qs) = blocks ps ++ blocks qs := List.filterMap_append

theorem Tiles.mono (h : Tiles n Q bs) (hQ : ∀ p v, Q p v → Q' p v) : Tiles n Q' bs :=
  ⟨fun b hb => (h.carries b hb).mono hQ, h.once⟩

end Blocks

/-- While `InitReplication` is at work: what is on its way and what has been sent cover each byte
once. -/
structure Live (size : UInt64) (s : Completion) : Prop where
  terminated : s.terminated = false
  source : s.source ∈ s.seen
  copies : s.pipeline.Copies size s.Seen
  sent : ∀ q ∈ s.sent, ∃ b, q = .payloadReplicationBlock b ∧ b.Carries size.toNat s.Seen
  once : ∀ p < size.toNat,
    s.pipeline.weight p + ((blocks s.sent).map (BlockInfo.weight p)).sum = 1

namespace Live

/-- The goroutines move, and send nothing. -/
theorem of_quiet (h : s.Live size) (hq : s.Quiet s') (hsent : s'.sent = s.sent)
    (hcopies : s'.pipeline.Copies size s.Seen)
    (hw : ∀ p < size.toNat, s'.pipeline.weight p = s.pipeline.weight p) : s'.Live size := by
  have hseen : s'.Seen = s.Seen := by
    unfold Seen
    rw [hq.seen]
  refine ⟨hq.terminated.trans h.terminated, ?_, hseen ▸ hcopies, ?_, fun p hp => ?_⟩
  · rw [hq.source, hq.seen]
    exact h.source
  · rw [hsent, hseen]
    exact h.sent
  · rw [hsent, hw p hp]
    exact h.once p hp

theorem moveGenerator (h : s.Live size) (hd : size.toNat < 2 ^ 63)
    (hs : s.moveGenerator numWorkers size = some s') : s'.Live size := by
  obtain ⟨hq, hsent, -⟩ := quiet_moveGenerator hs
  obtain ⟨hcopies, hw⟩ := h.copies.moveGenerator hd (pipeline_moveGenerator h.terminated hs)
  exact h.of_quiet hq hsent hcopies hw

theorem moveReader (h : s.Live size) (hs : s.moveReader numWorkers i .ok = some s') :
    s'.Live size := by
  obtain ⟨hq, hsent, -⟩ := quiet_moveReader hs
  rcases pipeline_moveReader h.terminated hs with heq | hmove
  · exact h.of_quiet hq hsent (heq ▸ h.copies) fun p _ => by rw [heq]
  · obtain ⟨hcopies, hw⟩ := h.copies.moveReader (fun p => ⟨s.source, h.source, rfl⟩) hmove
    exact h.of_quiet hq hsent hcopies fun p _ => hw p

theorem moveSender {encoded : Bool} (h : s.Live size)
    (hs : s.moveSender i encoded = some s') : s'.Live size := by
  obtain ⟨hq, ⟨heq, hsent⟩ | ⟨senders, hr, heq, hsent⟩ | ⟨block, hb, heq, hsent⟩⟩ :=
    pipeline_moveSender h.terminated hs
  · exact h.of_quiet hq hsent (heq ▸ h.copies) fun p _ => by rw [heq]
  · obtain ⟨hcopies, hw⟩ := h.copies.receiveSend hr
    exact h.of_quiet hq hsent (heq ▸ hcopies) fun p _ => by rw [heq, hw]
  · obtain ⟨hcopies, hcarries, hw⟩ := h.copies.sendBlock hb
    have hseen : s'.Seen = s.Seen := by
      unfold Seen
      rw [hq.seen]
    refine ⟨hq.terminated.trans h.terminated, ?_, ?_, fun q hin => ?_, fun p hp => ?_⟩
    · rw [hq.source, hq.seen]
      exact h.source
    · rw [heq, hseen]
      exact hcopies
    · rw [hsent] at hin
      rw [hseen]
      rcases List.mem_append.mp hin with hin | hin
      · exact h.sent q hin
      · exact ⟨block, List.mem_singleton.mp hin, hcarries⟩
    · have honce := h.once p hp
      have hstep : s'.pipeline.weight p + block.weight p = s.pipeline.weight p := by
        rw [heq]
        exact hw p
      have hlast : blocks [.payloadReplicationBlock block] = [block] := rfl
      rw [hsent, blocks_append, hlast, List.map_append, List.sum_append, List.map_singleton,
        List.sum_singleton]
      omega

theorem closeSend (h : s.Live size) (hf : s.readers.Finished) :
    Live size { s with senders := s.senders.close } :=
  h.of_quiet ⟨rfl, rfl, rfl, rfl⟩ rfl
    (h.copies.closeSend ((Pool.finished_map _ _).mpr hf)) fun _ _ => rfl

theorem write (h : s.Live size) (w : Patch UInt8) :
    Live size { s with source := s.source.apply w, seen := s.source.apply w :: s.seen } := by
  have hseen (p : ℕ) (v : UInt8) (hv : s.Seen p v) :
      Seen { s with source := s.source.apply w, seen := s.source.apply w :: s.seen } p v := by
    obtain ⟨m, hm, hmv⟩ := hv
    exact ⟨m, List.mem_cons_of_mem _ hm, hmv⟩
  refine ⟨h.terminated, List.mem_cons_self, h.copies.mono hseen, fun q hq => ?_, h.once⟩
  obtain ⟨b, hb, hcarries⟩ := h.sent q hq
  exact ⟨b, hb, hcarries.mono hseen⟩

/-- When the senders have returned, every block has been sent. -/
theorem tiles (h : s.Live size) (hf : s.senders.Finished) :
    Tiles size.toNat s.Seen (blocks s.sent) := by
  refine ⟨fun b hb => ?_, fun p hp => ?_⟩
  · obtain ⟨q, hq, hqb⟩ := List.mem_filterMap.mp hb
    obtain ⟨b', rfl, hcarries⟩ := h.sent q hq
    cases hqb
    exact hcarries
  · have honce := h.once p hp
    rwa [h.copies.weight_of_finished ((Pool.finished_map _ _).mpr hf), Nat.zero_add] at honce

theorem not_completed (h : s.Live size) : .infoReplicationCompleted ∉ s.sent := by
  intro hin
  obtain ⟨b, hb, -⟩ := h.sent _ hin
  cases hb

theorem truthful (h : s.Live size) : s.Truthful size.toNat := by
  intro before after hsent
  refine absurd ?_ h.not_completed
  rw [hsent]
  exact List.mem_append_right _ List.mem_cons_self

end Live

/-! ### Runs -/

/-- Completion is reported truthfully, and behind the report the senders send nothing. -/
structure Honest (size : UInt64) (s : Completion) : Prop where
  live : s.phase ≠ .over → s.Live size
  finished : s.phase ≠ .running → s.senders.Finished
  truthful : s.Truthful size.toNat

theorem honest_start (hn : 0 < numWorkers) (source : Image UInt8) :
    (start numWorkers source).Honest size := by
  have hlive : (start numWorkers source).Live size := by
    refine ⟨rfl, List.mem_singleton_self _, ?_, fun q hq => absurd hq List.not_mem_nil,
      fun p _ => ?_⟩
    · have hcopies :
          (InitReplication.start numWorkers).Copies size (start numWorkers source).Seen :=
        InitReplication.copies_start hn
      simpa [pipeline, start, InitReplication.start] using hcopies
    · have hw : (InitReplication.start numWorkers).weight p = 1 := InitReplication.weight_start p
      simpa [pipeline, start, InitReplication.start, blocks] using hw
  exact ⟨fun _ => hlive, fun hne => absurd rfl hne, hlive.truthful⟩

namespace Honest

/-- The goroutines in front of the senders move. -/
theorem of_quiet (h : s.Honest size) (hq : s.Quiet s') (hsent : s'.sent = s.sent)
    (hworkers : s'.senders.workers = s.senders.workers) (hlive : s.Live size → s'.Live size) :
    s'.Honest size where
  live := fun hne => hlive (h.live (hq.phase ▸ hne))
  finished := fun hne => by
    rw [Pool.Finished, hworkers]
    exact h.finished (hq.phase ▸ hne)
  truthful := by
    unfold Truthful Seen
    rw [hsent, hq.seen]
    exact h.truthful

/-- The senders are done before `InitReplication` reports. -/
theorem sender {encoded : Bool} (h : s.Honest size) (hs : s.moveSender i encoded = some s') :
    s'.Honest size := by
  have hphase : s.phase = .running := by
    by_contra hne
    have hf := h.finished hne
    unfold moveSender at hs
    rw [hf.busy? i, hf.receive] at hs
    cases hs
  have hlive := h.live (by simp [hphase])
  have hq := (pipeline_moveSender hlive.terminated hs).1
  have hlive' := hlive.moveSender hs
  exact ⟨fun _ => hlive', fun hne => absurd (hq.phase.trans hphase) hne, hlive'.truthful⟩

/-- **The report.** -/
theorem complete (h : s.Honest size) (hphase : s.phase = .completing) :
    Honest size { s with phase := .over, sent := s.sent ++ [.infoReplicationCompleted] } where
  live := fun hne => absurd rfl hne
  finished := fun _ => h.finished (by simp [hphase])
  truthful := by
    intro before after hsent
    have hlive := h.live (by simp [hphase])
    have hbefore : s.sent = before :=
      ((List.append_cons_inj_of_notMem hlive.not_completed List.not_mem_nil).mp hsent).1
    rw [← hbefore]
    exact hlive.tiles (h.finished (by simp [hphase]))

theorem write (h : s.Honest size) (w : Patch UInt8) :
    Honest size { s with source := s.source.apply w, seen := s.source.apply w :: s.seen } where
  live := fun hne => (h.live hne).write w
  finished := h.finished
  truthful := fun before after hsent => (h.truthful before after hsent).mono
    fun _ _ ⟨m, hm, hv⟩ => ⟨m, List.mem_cons_of_mem _ hm, hv⟩

theorem step (h : s.Honest size) (hd : size.toNat < 2 ^ 63) {m : CompletionMove}
    (hok : s.careful m) (hs : s.step numWorkers (some size) m = some s') : s'.Honest size := by
  cases m with
  | generator =>
      obtain ⟨hq, hsent, hworkers⟩ := quiet_moveGenerator hs
      exact h.of_quiet hq hsent hworkers fun hl => hl.moveGenerator hd hs
  | reader i outcome =>
      obtain rfl : outcome = .ok := hok
      have hmove : s.moveReader numWorkers i .ok = some s' := hs
      obtain ⟨hq, hsent, hworkers⟩ := quiet_moveReader hmove
      exact h.of_quiet hq hsent hworkers fun hl => hl.moveReader hmove
  | closeSend =>
      obtain ⟨⟨hf, -⟩, heq⟩ := Option.ite_none_right_eq_some.mp hs
      cases heq
      exact h.of_quiet ⟨rfl, rfl, rfl, rfl⟩ rfl rfl fun hl => hl.closeSend hf
  | sender i encoded => exact h.sender hs
  | sendersDone =>
      obtain ⟨⟨hphase, hf⟩, heq⟩ := Option.ite_none_right_eq_some.mp hs
      cases heq
      have hlive := h.live (by simp [hphase])
      exact ⟨fun _ => { hlive with }, fun _ => hf, h.truthful⟩
  | complete encoded =>
      obtain ⟨hphase, heq⟩ := Option.ite_none_right_eq_some.mp hs
      cases encoded with
      | true =>
          cases heq
          exact h.complete hphase
      | false =>
          have ht := (h.live (by simp [hphase])).terminated
          simp only [ht, Bool.false_eq_true, if_false] at heq
          cases heq
          exact h
  | terminate =>
      cases hs
      exact ⟨fun hne => absurd hok hne, h.finished, h.truthful⟩
  | reconnect =>
      cases hs
      rcases hok with hover | hnil
      · exact ⟨fun hne => absurd hover hne, h.finished, fun before after hsent => by simp at hsent⟩
      · have hsame : { s with sent := [] } = s := by rw [← hnil]
        rw [hsame]
        exact h
  | write w =>
      cases hs
      exact h.write w

end Honest

/-- **Completion is honest**: if the size of the device is known, every read succeeds and neither a
shutdown nor another connection comes before the report, then the blocks that were sent before it on
its connection cover the device, each byte once, with what was on the source. -/
theorem truthful_of_careful {moves : List CompletionMove} {source : Image UInt8}
    (hn : 0 < numWorkers) (hd : size.toNat < 2 ^ 63)
    (hrun : Run (step numWorkers · (some size)) careful (start numWorkers source) moves s) :
    s.Truthful size.toNat :=
  (hrun.invariant (I := Honest size) (fun _ _ _ h hok hs => h.step hd hok hs)
    (honest_start hn source)).truthful

/-! ### A device of one byte -/

/-- The readers and the senders find their channels closed, and completion is reported. -/
def reports : List CompletionMove :=
  [.reader 0 .ok, .closeSend, .sender 0 true, .sendersDone, .complete true]

/-- The block is generated, read and sent. -/
def wholeDevice : List CompletionMove :=
  [.generator, .generator, .generator, .reader 0 .ok, .reader 0 .ok, .reader 0 .ok, .reader 0 .ok,
    .reader 0 .ok, .sender 0 true, .sender 0 true, .sender 0 true] ++ reports

theorem truthful_of_careful_wholeDevice : ∃ s,
    Run (step 1 · (some 1)) careful (start 1 fun _ => 7) wholeDevice s ∧
      s.sent = [.payloadReplicationBlock ⟨0, 1, [7]⟩, .infoReplicationCompleted] ∧
        Tiles 1 s.Seen [⟨0, 1, [7]⟩] := by
  obtain ⟨s, hs, hsent⟩ := exists_exec (P := fun s : Completion => decide (s.sent =
      [.payloadReplicationBlock ⟨0, 1, [7]⟩, .infoReplicationCompleted]))
    (show (exec (guarded (step 1 · (some 1)) careful) (start 1 fun _ => 7) wholeDevice).any _ =
      true by decide +kernel)
  have hrun := Run.of_exec_guarded hs
  have hsent := of_decide_eq_true hsent
  refine ⟨s, hrun, hsent, ?_⟩
  exact truthful_of_careful (by decide) (by decide) hrun [.payloadReplicationBlock ⟨0, 1, [7]⟩] []
    hsent

/-- The read of the block fails. -/
def failedRead : List CompletionMove :=
  [.generator, .generator, .generator, .reader 0 .ok, .reader 0 .ok, .reader 0 .failed] ++ reports

/-- The daemon is shut down before the block is generated. -/
def shutDown : List CompletionMove := [.terminate, .generator] ++ reports

/-- The size is not known, and there are no blocks. -/
def unknownSize : List CompletionMove := .generator :: reports

/-- Completion is reported for a device of one byte, and nothing has been sent. -/
def Misreports (getDeviceSize : Option UInt64) (moves : List CompletionMove) : Prop :=
  ∃ s, Run (step 1 · getDeviceSize) anyStep (start 1 fun _ => 7) moves s ∧
    s.sent = [.infoReplicationCompleted] ∧ ¬ s.Truthful 1

theorem misreports_of_exec {getDeviceSize : Option UInt64} {moves : List CompletionMove}
    (h : (exec (step 1 · getDeviceSize) (start 1 fun _ => 7) moves).any
      (fun s : Completion => decide (s.sent = [.infoReplicationCompleted])) = true) :
    Misreports getDeviceSize moves := by
  obtain ⟨s, hs, hsent⟩ := exists_exec h
  have hsent := of_decide_eq_true hsent
  refine ⟨s, .of_exec hs fun _ _ _ => trivial, hsent, fun htrue => ?_⟩
  have honce := (htrue [] [] hsent).once 0 Nat.one_pos
  simp [blocks] at honce

/-- Whether the read fails, the daemon is shut down or the size is not known. -/
theorem not_truthful_of_skipped : Misreports (some 1) failedRead ∧ Misreports (some 1) shutDown ∧
    Misreports none unknownSize :=
  ⟨misreports_of_exec (by decide +kernel), misreports_of_exec (by decide +kernel),
    misreports_of_exec (by decide +kernel)⟩

end Completion

end Bdr.Client
