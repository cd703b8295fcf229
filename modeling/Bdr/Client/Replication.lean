import Bdr.Client.Flow

/-!
# Client — every block of a full replication

`InitReplication` generates the blocks of the device, and passes each through two pools of
goroutines.  A block is on its way from the moment the generator comes to it until it is sent: the
blocks on their way cover every byte of the device once, but for those that have been sent
(`weight`), and nothing is left when the senders have returned.

A reader reads a block byte by byte, while applications go on writing to the device.  All that is
said of a byte is that it was on the device when it was read (`Q`).

Meanwhile the monitor is held by the controller: it goes on when `Resume` has been called at the
end.
-/

namespace Bdr.Client

open Kern

def ReadItem.weight (p : ℕ) (item : ReadItem) : ℕ := covering p item.offset.toNat item.size.toNat

/-- The item lies on a device of `size` bytes. -/
def ReadItem.Fits (size : ℕ) (item : ReadItem) : Prop :=
  item.offset.toNat + item.size.toNat ≤ size

def BlockReader.weight (p : ℕ) : BlockReader → ℕ
  | .reading item _ => item.weight p
  | .sending block => block.weight p

/-- What a reader has read so far. -/
def BlockReader.Carries (size : ℕ) (Q : ℕ → UInt8 → Prop) : BlockReader → Prop
  | .reading item buf => item.Fits size ∧ buf.length ≤ item.size.toNat ∧
      ∀ i v, buf[i]? = some v → Q (item.offset.toNat + i) v
  | .sending block => block.Carries size Q

/-- The bytes that the generator has not passed on. -/
def BlockGenerator.weight (p : ℕ) : BlockGenerator → ℕ
  | .loop offset => if offset.toNat ≤ p then 1 else 0
  | .sending item => if item.offset.toNat ≤ p then 1 else 0
  | .done => 0

def BlockGenerator.Ok (diskSize : UInt64) : BlockGenerator → Prop
  | .loop _ => True
  | .sending item => item.offset < diskSize ∧ item = InitReplication.readItem diskSize item.offset
  | .done => True

namespace InitReplication

/-- How often the blocks on their way cover `p`. -/
def weight (p : ℕ) (r : InitReplication) : ℕ :=
  r.generator.weight p + r.readers.weigh (ReadItem.weight p) (BlockReader.weight p) +
    r.senders.weigh (BlockInfo.weight p) (BlockInfo.weight p)

/-- The pipeline: what is in it is sound, and it is closed from the front. -/
structure Copies (diskSize : UInt64) (Q : ℕ → UInt8 → Prop) (r : InitReplication) : Prop where
  generator : r.generator.Ok diskSize
  readers : r.readers.All (ReadItem.Fits diskSize.toNat) (BlockReader.Carries diskSize.toNat Q)
  senders : r.senders.All (BlockInfo.Carries diskSize.toNat Q)
    (BlockInfo.Carries diskSize.toNat Q)
  readersSettled : r.readers.Settled
  sendersSettled : r.senders.Settled
  readersClosed : r.readers.closed = true → r.generator = .done
  sendersClosed : r.senders.closed = true → r.readers.Finished

section Pipeline
variable {diskSize offset : UInt64} {Q Q' : ℕ → UInt8 → Prop} {r r' : InitReplication}
variable {numWorkers i p : ℕ} {source : Image UInt8}

theorem Copies.mono (h : r.Copies diskSize Q) (hQ : ∀ p v, Q p v → Q' p v) :
    r.Copies diskSize Q' where
  generator := h.generator
  readers := ⟨h.readers.queue, fun t ht => by
    have := h.readers.workers t ht
    cases t with
    | reading item buf => exact ⟨this.1, this.2.1, fun i v hv => hQ _ _ (this.2.2 i v hv)⟩
    | sending block => exact this.mono hQ⟩
  senders := ⟨fun b hb => (h.senders.queue b hb).mono hQ,
    fun b hb => (h.senders.workers b hb).mono hQ⟩
  readersSettled := h.readersSettled
  sendersSettled := h.sendersSettled
  readersClosed := h.readersClosed
  sendersClosed := h.sendersClosed

theorem copies_start (hn : 0 < numWorkers) : (start numWorkers).Copies diskSize Q where
  generator := trivial
  readers := Pool.all_start numWorkers
  senders := Pool.all_start numWorkers
  readersSettled := Pool.settled_start hn
  sendersSettled := Pool.settled_start hn
  readersClosed := by rintro ⟨⟩
  sendersClosed := by rintro ⟨⟩

/-- At the start every byte is to be sent once. -/
theorem weight_start (p : ℕ) : (start numWorkers).weight p = 1 := by
  simp [weight, start, BlockGenerator.weight]

/-- The block at an offset reaches to the next one, or to the end of the device. -/
theorem size_readItem (hd : diskSize.toNat < 2 ^ 63) (ho : offset < diskSize) :
    (readItem diskSize offset).size.toNat =
      min hashedSpaceBase (diskSize.toNat - offset.toNat) := by
  have hlt := UInt64.lt_iff_toNat_lt.mp ho
  have hnext : (offset + (UInt32.ofNat hashedSpaceBase).toUInt64).toNat =
      offset.toNat + hashedSpaceBase := by
    rw [UInt64.toNat_add]
    simp only [hashedSpaceBase, UInt32.toNat_toUInt64, UInt32.toNat_ofNat']
    omega
  unfold readItem
  simp only [UInt64.lt_iff_toNat_lt, hnext]
  split
  · simp only [UInt64.toNat_toUInt32, UInt64.toNat_sub_of_le _ _ (UInt64.le_of_lt ho)]
    simp only [hashedSpaceBase] at *
    omega
  · simp only [hashedSpaceBase, UInt32.toNat_ofNat'] at *
    omega

theorem offset_readItem : (readItem diskSize offset).offset = offset := by
  simp only [readItem]
  split <;> rfl

/-- **The generator leaves no gap**, and its last block ends with the device. -/
theorem Copies.moveGenerator (h : r.Copies diskSize Q) (hd : diskSize.toNat < 2 ^ 63)
    (hs : r.moveGenerator numWorkers diskSize = some r') :
    r'.Copies diskSize Q ∧ ∀ p < diskSize.toNat, r'.weight p = r.weight p := by
  have hgen := h.generator
  have hclosed := h.readersClosed
  unfold InitReplication.moveGenerator at hs
  split at hs
  · rename_i offset hg
    split at hs
    · rename_i ho
      cases hs
      refine ⟨{ h with
        generator := ⟨by rwa [offset_readItem], by rw [offset_readItem]⟩
        readersClosed := fun hc => by cases hg.symm.trans (hclosed hc) }, fun p _ => ?_⟩
      simp only [weight, hg, BlockGenerator.weight, offset_readItem]
    · rename_i ho
      cases hs
      refine ⟨{ h with
        generator := trivial
        readers := h.readers.close
        readersSettled := h.readersSettled.close
        readersClosed := fun _ => rfl }, fun p hp => ?_⟩
      have hge : ¬ offset.toNat ≤ p := fun hle => ho (UInt64.lt_iff_toNat_lt.mpr (by omega))
      simp [weight, hg, BlockGenerator.weight, hge]
  · rename_i item hg
    obtain ⟨readers, hsend, rfl⟩ := Option.map_eq_some_iff.mp hs
    rw [hg] at hgen
    obtain ⟨hlt, hitem⟩ := hgen
    have hsize := size_readItem hd hlt
    rw [← hitem] at hsize
    have hlt' := UInt64.lt_iff_toNat_lt.mp hlt
    have hfits : item.Fits diskSize.toNat := by
      unfold ReadItem.Fits
      omega
    have hnot : readers.closed = false := by
      obtain ⟨⟨-, hc⟩, rfl⟩ := Pool.send_eq_some.mp hsend
      exact hc
    have hnext : (item.offset + UInt64.ofNat hashedSpaceBase).toNat =
        item.offset.toNat + hashedSpaceBase := by
      rw [UInt64.toNat_add]
      simp only [hashedSpaceBase, UInt64.toNat_ofNat']
      omega
    refine ⟨{ h with
      generator := trivial
      readers := h.readers.send hsend hfits
      readersSettled := h.readersSettled.send hsend
      readersClosed := fun hc => by cases hnot.symm.trans hc
      sendersClosed := fun hc => by
        obtain ⟨-, rfl⟩ := Pool.send_eq_some.mp hsend
        exact h.sendersClosed hc }, fun p hp => ?_⟩
    have hsplit : (BlockGenerator.loop (item.offset + UInt64.ofNat hashedSpaceBase)).weight p +
        item.weight p = (BlockGenerator.sending item).weight p := by
      simp only [BlockGenerator.weight, ReadItem.weight, covering, hnext, hsize]
      split_ifs <;> omega
    simp only [weight, Pool.weigh_send hsend, hg]
    omega
  · cases hs

theorem phase_moveGenerator (hs : r.moveGenerator numWorkers diskSize = some r') :
    r'.phase = r.phase := by
  unfold InitReplication.moveGenerator at hs
  split at hs
  · split at hs <;> cases hs <;> rfl
  · obtain ⟨readers, -, rfl⟩ := Option.map_eq_some_iff.mp hs
    rfl
  · cases hs

/-- What a reader does, if the device can be read. -/
theorem Copies.moveReader (h : r.Copies diskSize Q)
    (hQ : ∀ p, Q p (source p)) (hs : r.moveReader numWorkers source i false = some r') :
    r'.Copies diskSize Q ∧ ∀ p, r'.weight p = r.weight p := by
  unfold InitReplication.moveReader at hs
  split at hs
  · obtain ⟨readers, hr, rfl⟩ := Option.map_eq_some_iff.mp hs
    refine ⟨{ h with
      readers := h.readers.receive hr fun item hitem => ⟨hitem, Nat.zero_le _, by simp⟩
      readersSettled := h.readersSettled.receive hr
      readersClosed := fun hc => h.readersClosed ((Pool.closed_receive hr).symm.trans hc)
      sendersClosed := fun hc => ?_ }, fun p => ?_⟩
    · rw [(h.sendersClosed hc).receive] at hr
      cases hr
    · have := Pool.weigh_receive (g := ReadItem.weight p) (f := BlockReader.weight p) hr
        fun _ => rfl
      simp only [weight, this]
  · rename_i item buf hb
    obtain ⟨hfits, hlen, hcells⟩ := h.readers.of_busy? hb
    -- a reader at work is no finished one
    have hopen : ∀ w, r.senders.closed = true → (r.readers.setWorker i w).Finished := by
      intro w hc
      rw [(h.sendersClosed hc).busy? i] at hb
      cases hb
    simp only [Bool.false_eq_true, if_false] at hs
    split at hs
    · rename_i hlt
      cases hs
      refine ⟨{ h with
        readers := h.readers.setWorker ?_
        readersSettled := h.readersSettled.setWorker (by simp)
        sendersClosed := hopen _ }, fun p => ?_⟩
      · rintro _ ⟨⟩
        exact ⟨hfits, by simp; omega, cells_concat hcells (hQ _)⟩
      · have := Pool.weigh_setWorker (g := ReadItem.weight p) (f := BlockReader.weight p) hb
          (.busy (.reading item (buf ++ [source (item.offset.toNat + buf.length)])))
        simp only [Worker.weigh, BlockReader.weight] at this
        simp only [weight, setReader]
        omega
    · rename_i hge
      cases hs
      refine ⟨{ h with
        readers := h.readers.setWorker ?_
        readersSettled := h.readersSettled.setWorker (by simp)
        sendersClosed := hopen _ }, fun p => ?_⟩
      · rintro _ ⟨⟩
        exact ⟨Nat.le_antisymm hlen (Nat.le_of_not_lt hge), hfits, hcells⟩
      · have := Pool.weigh_setWorker (g := ReadItem.weight p) (f := BlockReader.weight p) hb
          (.busy (.sending ⟨item.offset, item.size, buf⟩))
        simp only [Worker.weigh, BlockReader.weight, BlockInfo.weight, ReadItem.weight] at this
        simp only [weight, setReader]
        omega
  · rename_i block hb
    obtain ⟨senders, hsend, rfl⟩ := Option.map_eq_some_iff.mp hs
    have hnot : senders.closed = false := by
      obtain ⟨⟨-, hc⟩, rfl⟩ := Pool.send_eq_some.mp hsend
      exact hc
    refine ⟨{ h with
      readers := h.readers.setWorker (by rintro _ ⟨⟩)
      senders := h.senders.send hsend (h.readers.of_busy? hb)
      readersSettled := h.readersSettled.setWorker (by simp)
      sendersSettled := h.sendersSettled.send hsend
      sendersClosed := fun hc => by cases hnot.symm.trans hc }, fun p => ?_⟩
    have := Pool.weigh_setWorker (g := ReadItem.weight p) (f := BlockReader.weight p) hb .ranging
    simp only [Worker.weigh, BlockReader.weight, add_zero] at this
    simp only [weight, setReader, Pool.weigh_send hsend]
    omega

theorem phase_moveReader (hs : r.moveReader numWorkers source i false = some r') :
    r'.phase = r.phase := by
  unfold InitReplication.moveReader at hs
  split at hs
  · obtain ⟨readers, -, rfl⟩ := Option.map_eq_some_iff.mp hs
    rfl
  · simp only [Bool.false_eq_true, if_false] at hs
    split at hs <;> cases hs <;> rfl
  · obtain ⟨senders, -, rfl⟩ := Option.map_eq_some_iff.mp hs
    rfl

theorem Copies.closeSend (h : r.Copies diskSize Q) (hf : r.readers.Finished) :
    Copies diskSize Q { r with senders := r.senders.close } :=
  { h with
    senders := h.senders.close
    sendersSettled := h.sendersSettled.close
    sendersClosed := fun _ => hf }

/-- A sender receives a block. -/
theorem Copies.receiveSend {senders : Pool ReplicationBlockInfo ReplicationBlockInfo}
    (h : r.Copies diskSize Q) (hr : r.senders.receive id i = some senders) :
    Copies diskSize Q { r with senders := senders } ∧
      ∀ p, weight p { r with senders := senders } = r.weight p := by
  refine ⟨{ h with
    senders := h.senders.receive hr fun _ => id
    sendersSettled := h.sendersSettled.receive hr
    sendersClosed := fun hc => h.sendersClosed ((Pool.closed_receive hr).symm.trans hc) },
    fun p => ?_⟩
  have := Pool.weigh_receive (g := BlockInfo.weight p) (f := BlockInfo.weight p) hr fun _ => rfl
  simp only [weight, this]

/-- A block that is sent is on its way no longer. -/
theorem Copies.sendBlock {block : ReplicationBlockInfo} (h : r.Copies diskSize Q)
    (hb : r.senders.busy? i = some block) :
    Copies diskSize Q { r with senders := r.senders.setWorker i .ranging } ∧
      block.Carries diskSize.toNat Q ∧
        ∀ p, weight p { r with senders := r.senders.setWorker i .ranging } + block.weight p =
          r.weight p := by
  refine ⟨{ h with
    senders := h.senders.setWorker (by rintro _ ⟨⟩)
    sendersSettled := h.sendersSettled.setWorker (by simp) }, h.senders.of_busy? hb, fun p => ?_⟩
  have := Pool.weigh_setWorker (g := BlockInfo.weight p) (f := BlockInfo.weight p) hb .ranging
  simp only [Worker.weigh, add_zero] at this
  simp only [weight]
  omega

/-- Nothing is on its way when the senders have returned. -/
theorem Copies.weight_of_finished (h : r.Copies diskSize Q) (hf : r.senders.Finished) (p : ℕ) :
    r.weight p = 0 := by
  obtain ⟨hc, hq⟩ := h.sendersSettled.finished hf
  have hfr := h.sendersClosed hc
  obtain ⟨hcr, hqr⟩ := h.readersSettled.finished hfr
  simp [weight, hf.weigh, hfr.weigh, hq, hqr, h.readersClosed hcr, BlockGenerator.weight]

end Pipeline

end InitReplication

/-! ### The client in a full replication -/

/-- The monitor is held until `Resume` has emptied the channel. -/
def Monitor.Gate (m : Monitor) (p : Pause) : ReplicationPhase → Prop
  | .running | .settingState | .resuming (.lock .running) | .resuming (.drain .running) => m.Held p
  | .resuming (.send .running) | .returned => m.Free p
  | .resuming _ | .idle => False

section Gate
variable {m : Monitor} {p : Pause} {phase : ReplicationPhase}

theorem Monitor.Gate.held_or_free (h : m.Gate p phase) :
    m.Held p ∨ m.Free p ∧ phase ≠ .running := by
  unfold Gate at h
  split at h
  · exact .inl h
  · exact .inl h
  · exact .inl h
  · exact .inl h
  · exact .inr ⟨h, by simp⟩
  · exact .inr ⟨h, by simp⟩
  · exact h.elim
  · exact h.elim

/-- A move of the monitor, held or free. -/
theorem Monitor.Gate.map {m' : Monitor} {p' : Pause} (h : m.Gate p phase)
    (hheld : m.Held p → m'.Held p') (hfree : m.Free p → m'.Free p') : m'.Gate p' phase := by
  unfold Gate at h ⊢
  split at h
  · exact hheld h
  · exact hheld h
  · exact hheld h
  · exact hheld h
  · exact hfree h
  · exact hfree h
  · exact h.elim
  · exact h.elim

/-- A step of `Resume`. -/
theorem Monitor.Gate.resumes {call : PauseCall} {r : Pause × (PauseCall ⊕ Bool)}
    (h : m.Gate p (.resuming call)) (hs : p.step call = some r) :
    m.Gate r.1 (r.2.elim .resuming fun _ => .returned) := by
  have hcall : call = .lock .running ∨ call = .drain .running ∨ call = .send .running := by
    cases call with
    | lock v | drain v | send v => cases v <;> first | exact h.elim | simp
    | rlock | receive | putBack | check | wait => exact h.elim
  rcases hcall with rfl | rfl | rfl
  · obtain ⟨-, heq⟩ := Option.ite_none_right_eq_some.mp hs
    cases heq
    exact h
  · cases hs
    -- the token is out of the channel: the monitor goes on when it looks again, or is told to
    rcases h with ⟨rfl, -⟩ | ⟨rfl, -⟩
    · exact ⟨by simp [Pause.take], by rintro _ ⟨⟩; exact .inl rfl, by rintro _ ⟨⟩,
        by rintro _ _ ⟨⟩⟩
    · exact ⟨by simp [Pause.take], by rintro _ ⟨⟩; exact .inr rfl, by rintro _ ⟨⟩,
        by rintro _ _ ⟨⟩⟩
  · obtain ⟨-, heq⟩ := Option.ite_none_right_eq_some.mp hs
    cases heq
    exact { show m.Free p from h with chan := by simp }

end Gate

/-- `Run` has started the goroutines, and `InitReplication` is at work or has returned. -/
structure Copying (cfg : ClientConfig) (Q : ℕ → UInt8 → Prop) (c : Client) : Prop where
  run : c.run = none
  listener : c.listener = .receiving
  connected : c.shared.state ≠ .reconnecting
  hashReaders : c.hashing.readers.workers = []
  hashing : c.hashing.Quiet
  copies : c.replication.Copies cfg.diskSize Q
  finished : c.replication.phase ≠ .running → c.replication.senders.Finished
  gate : c.monitor.Gate c.shared.pause c.replication.phase

/-- What a move sends: a block, the word that there are no more, or after that buffer writes. -/
inductive Sends (cfg : ClientConfig) (Q : ℕ → UInt8 → Prop) (c c' : Client) : List Packet → Prop
  | writes {ps : List Packet} (hps : ∀ p ∈ ps, ∃ w, p = .payloadBufferWrite w)
      (hphase : c.replication.phase = .running ∧ c'.replication.phase = .running ∧ ps = [] ∨
        c.replication.phase ≠ .running ∧ c'.replication.phase ≠ .running)
      (hw : ∀ p < cfg.diskSize.toNat, c'.replication.weight p = c.replication.weight p) :
      Sends cfg Q c c' ps
  | block {b : ReplicationBlockInfo} (hb : b.Carries cfg.diskSize.toNat Q)
      (hphase : c.replication.phase = .running) (hphase' : c'.replication.phase = .running)
      (hw : ∀ p, c'.replication.weight p + b.weight p = c.replication.weight p) :
      Sends cfg Q c c' [.payloadReplicationBlock b]
  | completed (hphase : c.replication.phase = .running) (hphase' : c'.replication.phase ≠ .running)
      (hw : ∀ p, c'.replication.weight p = c.replication.weight p) :
      Sends cfg Q c c' [.infoReplicationCompleted]

section Copying
variable {P : ℕ} {cfg : ClientConfig} {Q Q' : ℕ → UInt8 → Prop} {c c' : Client}
variable {m : ClientMove P} {ps : List Packet}

theorem Copying.mono (h : c.Copying cfg Q) (hQ : ∀ p v, Q p v → Q' p v) : c.Copying cfg Q' :=
  { h with copies := h.copies.mono hQ }

/-- The monitor is the only one to read the ring, and not while `InitReplication` runs. -/
theorem Copying.ringOp (h : c.Copying cfg Q) (m : ClientMove P) :
    c.ringOp m ≠ some .reset ∧
      (c.ringOp m = some .read → c.monitor = .reading ∧ c.replication.phase ≠ .running) := by
  cases m with
  | write a => simp [Client.ringOp]
  | run => simp [Client.ringOp, h.run]
  | monitor sent =>
      rcases h.gate.held_or_free with (⟨hm, -⟩ | ⟨hm, -⟩) | ⟨hfree, hphase⟩
      · simp [Client.ringOp, hm]
      · simp [Client.ringOp, hm]
      · cases hm : c.monitor with
        | reading => simp [Client.ringOp, hm, hphase]
        | waiting call => simp [Client.ringOp, hm]
        | starting call => exact absurd hm (hfree.starting call)
        | processing w => simp [Client.ringOp, hm]
  | listener sent => simp [Client.ringOp, h.listener]
  | hashing m =>
      rw [ringOp_hashes]
      · simp
      · rintro i failed call -
        rw [(Pool.finished_of_workers h.hashReaders).busy? i]
        simp
  | deliver | eof | dial | replication => simp [Client.ringOp]

theorem Copying.orderly (h : c.Copying cfg Q)
    (hroom : ∀ a, m = .write a → (bdrRingBufferPut c.shared.ring a).2 = true) : c.Orderly m where
  room a ha := hroom a (write_of_ringOp ha)
  alone hop := by
    have hread := ((h.ringOp m).2 (hop.resolve_right (h.ringOp m).1)).1
    simp [windows, h.listener, hread, Listener.window?, Monitor.window?]
  unpaused w hw hpc := by
    rcases h.gate.held_or_free with hheld | ⟨hfree, -⟩
    · rw [hw] at hheld
      rcases hheld with ⟨hm, -⟩ | ⟨hm, -⟩ <;> cases hm
    · rcases hfree.checking w _ hw hpc with h | h | h <;> cases h
  connected _ := h.connected

/-- A move of `InitReplication`. -/
theorem Copying.replicates {mv : ReplicationMove} (h : c.Copying cfg Q)
    (hd : cfg.diskSize.toNat < 2 ^ 63) (hfail : ∀ i, mv ≠ .reader i true)
    (hQ : c.replication.phase = .running → ∀ p, Q p (c.source p))
    (hs : ReplicationMoves cfg c mv ps c') : c'.Copying cfg Q ∧ Sends cfg Q c c' ps := by
  -- a goroutine of the pipeline moves, and `InitReplication` itself does not
  have hstays : ∀ r, c.replication.phase = .running → r.phase = c.replication.phase →
      r.Copies cfg.diskSize Q → (c.setReplication r).Copying cfg Q := fun r hp hphase hr =>
    { h with
      copies := hr
      finished := fun hnot => absurd (hphase.trans hp) hnot
      gate := by
        have hgate := h.gate
        rw [← hphase] at hgate
        exact hgate }
  cases hs with
  | generates hp hg =>
      obtain ⟨hcopies, hw⟩ := h.copies.moveGenerator hd hg
      have hphase := InitReplication.phase_moveGenerator hg
      exact ⟨hstays _ hp hphase hcopies, .writes (by simp) (.inl ⟨hp, hphase.trans hp, rfl⟩) hw⟩
  | @reads i failed r hp hr =>
      obtain rfl : failed = false := by
        cases failed with
        | false => rfl
        | true => exact absurd rfl (hfail i)
      obtain ⟨hcopies, hw⟩ := h.copies.moveReader (hQ hp) hr
      have hphase := InitReplication.phase_moveReader hr
      exact ⟨hstays _ hp hphase hcopies,
        .writes (by simp) (.inl ⟨hp, hphase.trans hp, rfl⟩) fun p _ => hw p⟩
  | closes hp hf hc =>
      exact ⟨hstays _ hp rfl (h.copies.closeSend hf),
        .writes (by simp) (.inl ⟨hp, hp, rfl⟩) fun _ _ => rfl⟩
  | receives hp hr =>
      obtain ⟨hcopies, hw⟩ := h.copies.receiveSend hr
      exact ⟨hstays _ hp rfl hcopies, .writes (by simp) (.inl ⟨hp, hp, rfl⟩) fun p _ => hw p⟩
  | sends hp hb =>
      obtain ⟨hcopies, hcarries, hw⟩ := h.copies.sendBlock hb
      exact ⟨hstays _ hp rfl hcopies, .block hcarries hp hp hw⟩
  | completes hp hf =>
      have hgate := h.gate
      rw [hp] at hgate
      exact ⟨{ h with copies := { h.copies with }, finished := fun _ => hf, gate := hgate },
        .completed hp (by simp [setReplication]) fun _ => rfl⟩
  | setsWriting hp =>
      have hgate := h.gate
      rw [hp] at hgate
      exact ⟨{ h with
          connected := by simp [setReplication, setShared]
          copies := { h.copies with }
          finished := fun _ => h.finished (by simp [hp])
          gate := hgate },
        .writes (by simp) (.inr ⟨by simp [hp], by simp [setReplication]⟩) fun _ _ => rfl⟩
  | @resumes call r hp hs =>
      have hgate := h.gate
      rw [hp] at hgate
      refine ⟨{ h with
          copies := { h.copies with }
          finished := fun _ => h.finished (by simp [hp])
          gate := hgate.resumes hs },
        .writes (by simp) (.inr ⟨by simp [hp], ?_⟩) fun _ _ => rfl⟩
      rcases r.2 with call' | b <;> simp [setReplication]

/-- `FullReplicate` has returned, and the goroutines begin. -/
theorem Commanding.copying (h : c.Commanding .fullReplicate) (hn : 0 < cfg.numWorkers)
    (hchan : c.shared.pause.stateChan = some .paused) :
    Copying cfg Q { c with run := none, replication := .start cfg.numWorkers } where
  run := rfl
  listener := h.listener
  connected := h.connected
  hashReaders := h.readers
  hashing := h.hashing
  copies := InitReplication.copies_start hn
  finished := fun hnot => absurd rfl hnot
  gate := .inl ⟨h.monitor, hchan⟩

/-- **One move of the client in a full replication.** -/
theorem Copying.move (h : c.Copying cfg Q) (hd : cfg.diskSize.toNat < 2 ^ 63)
    (hring : c.shared.ring.bufferInfo.overflown = false) (hm : m.ofListener = false)
    (hfail : ∀ i, m ≠ .replication (.reader i true))
    (hQ : c.replication.phase = .running → ∀ p, Q p (c.source p))
    (hs : c.move cfg m = some (c', ps)) : c'.Copying cfg Q ∧ Sends cfg Q c c' ps := by
  have hsame : c.replication.phase = .running ∧ c.replication.phase = .running ∧
      ([] : List Packet) = [] ∨
      c.replication.phase ≠ .running ∧ c.replication.phase ≠ .running := by
    by_cases hp : c.replication.phase = .running
    · exact .inl ⟨hp, hp, rfl⟩
    · exact .inr ⟨hp, hp⟩
  cases move_cases hs with
  | write a => exact ⟨{ h with }, .writes (by simp) hsame fun _ _ => rfl⟩
  | run hrun => cases h.run.symm.trans hrun
  | monitorWaits _ hmon hp =>
      have hgate := h.gate
      rw [hmon] at hgate
      exact ⟨{ h with gate := hgate.map (·.waits hp) (·.waits hp) },
        .writes (by simp) hsame fun _ _ => rfl⟩
  | monitorReads _ hmon =>
      have hgate := h.gate
      rw [hmon] at hgate
      rw [read_snd]
      refine ⟨{ h with gate := hgate.map ?_ (·.reads hring) },
        .writes (by simp) hsame fun _ _ => rfl⟩
      rintro (⟨hm, -⟩ | ⟨hm, -⟩) <;> cases hm
  | monitorStarts _ hmon =>
      rcases h.gate.held_or_free with hheld | ⟨hfree, -⟩
      · rw [hmon] at hheld
        rcases hheld with ⟨hm, -⟩ | ⟨hm, -⟩ <;> cases hm
      · exact absurd hmon (hfree.starting _)
  | monitorProcesses _ hmon hp =>
      have hgate := h.gate
      rw [hmon] at hgate
      have hnot : c.replication.phase ≠ .running := by
        rcases hgate.held_or_free with (⟨hm, -⟩ | ⟨hm, -⟩) | ⟨-, hnot⟩
        · cases hm
        · cases hm
        · exact hnot
      refine ⟨{ h with
        connected := fun hr => h.connected ((shared_processStep hp).2.symm.trans hr)
        gate := hgate.map ?_ (·.processes hp) },
        .writes (processStep_writes hp) (.inr ⟨hnot, hnot⟩) fun _ _ => rfl⟩
      rintro (⟨hm, -⟩ | ⟨hm, -⟩) <;> cases hm
  | readerStarts _ hb =>
      rw [(Pool.finished_of_workers h.hashReaders).busy? _] at hb
      cases hb
  | hashes _ _ hp =>
      obtain ⟨hquiet, rfl⟩ := h.hashing.move hp
      exact ⟨{ h with
        hashReaders := by
          rw [← h.hashReaders]
          exact congrArg Pool.workers (InitHashing.readers_move h.hashReaders hp)
        hashing := hquiet }, .writes (by simp) hsame fun _ _ => rfl⟩
  | replicates _ hp =>
      exact h.replicates hd (fun i hi => hfail i (congrArg ClientMove.replication hi)) hQ hp
  | listener | deliver | eof | dial => cases hm

end Copying

end Bdr.Client
