import Bdr.Server.Corrector

/-!
# Server — a journal scan

From `CmdStartHashing` on the server is in `StateHashing`: it leaves the replica alone while it
hashes it, and `HandleJournalPackets` appends what comes back to the journal.  At
`InfoHashingCompleted` the last of it is appended, and `WriteJournalToReplica` writes the correct
blocks and then the buffer writes (`writeJournalToReplica_of_contains`).

An entry that has been appended can be read back, if it has the bytes its size announces: it ends
inside its slot, or appending it would have failed.
-/

namespace Bdr.Server

open Journal

/-! ### The replay of a scan's entries -/

/-- The data of the entry ends inside a slot of the section. -/
structure Takes (s : Section) (e : BlockInfo) : Prop where
  slot : 12 + dataSize e ≤ s.slot
  bound : 12 + dataSize e < 2 ^ 32

/-- An entry of a section that is read back and written to a target of `size` bytes. -/
structure Legible (s : Section) (size : ℕ) (e : BlockInfo) : Prop where
  takes : Takes s e
  whole : e.size.toNat ≤ e.data.length
  length_lt : e.data.length < 2 ^ 32
  fits : e.patch.offset + e.patch.data.length ≤ size

section Entries
variable {s : Section} {j j' : Journal} {e : BlockInfo} {i lo size : ℕ}

/-- What has been stored ends inside its slot. -/
theorem takes_of_serialize {slot : ℕ} {bytes : List UInt8} (h12 : 12 ≤ slot)
    (h : serialize e (List.replicate slot 0) = some bytes) :
    12 + dataSize e ≤ slot ∧ 12 + dataSize e < 2 ^ 32 := by
  have hsize := dataSize_le_size e
  have hlt := e.size.toNat_lt
  have hbound : 12 + dataSize e < 2 ^ 32 := by
    by_contra hw
    have hne : 0 < e.size ∧ 0 < e.data.length := by
      by_contra h0
      rw [dataSize_eq_zero h0] at hw
      omega
    rw [serialize_fresh h12, if_pos hne, copyAt, if_neg (by omega)] at h
    cases h
  refine ⟨?_, hbound⟩
  by_contra hfit
  rw [serialize_of_large h12 (Nat.not_le.mp hfit)] at h
  cases h

theorem takes_of_writeSlot (h12 : 12 ≤ s.slot) (h : writeSlot s i e j = .ok () j') : Takes s e := by
  rw [writeSlot] at h
  split at h
  · cases h
  · obtain ⟨bytes, j₁, hser, -⟩ := bind_eq_ok.mp h
    cases hb : serialize e (List.replicate s.slot 0) with
    | none =>
        rw [hb] at hser
        cases hser
    | some bytes' =>
        obtain ⟨h₁, h₂⟩ := takes_of_serialize h12 hb
        exact ⟨h₁, h₂⟩

theorem Legible.dataSize_eq (h : Legible s size e) : dataSize e = e.size.toNat := by
  have := h.whole
  rw [dataSize, Nat.mod_eq_of_lt h.length_lt]
  omega

theorem Legible.data_readBack (h : Legible s size e) :
    (readBack e).data = e.data.take e.size.toNat := by
  have hlen : (e.data.take e.size.toNat).length = e.size.toNat := by
    rw [List.length_take]
    exact min_eq_left h.whole
  show padTake e.size.toNat 0 (e.data.take (dataSize e)) = _
  rw [h.dataSize_eq, padTake, List.take_of_length_le hlen.le, hlen]
  simp

/-- Reading back loses nothing that is written. -/
theorem Legible.patch_readBack (h : Legible s size e) :
    (readBack e).data.length = (readBack e).size.toNat ∧ (readBack e).patch = e.patch := by
  rw [BlockInfo.patch, BlockInfo.patch, h.data_readBack, List.length_take]
  refine ⟨min_eq_left h.whole, ?_⟩
  show (⟨_, (e.data.take e.size.toNat).take e.size.toNat⟩ : Patch UInt8) = _
  rw [List.take_take, min_self]
  rfl

theorem Legible.readSlot (h : Legible s size e) {l : List BlockInfo}
    (hs : s.Within lo j.disk.size) (hl : s.Holds j.disk l) (hlen : l.length ≤ s.count)
    (hi : l[i]? = some e) : readSlot s i j = .ok (readBack e) j := by
  have htake := h.takes
  have hsize := h.dataSize_eq
  obtain ⟨hlt, rfl⟩ := List.getElem?_eq_some_iff.mp hi
  have hb := hl i (hlt.trans_le hlen)
  rw [List.getD_eq_getElem l invalidInfo hlt] at hb
  rw [readSlot_of_bytesAt hs (hlt.trans_le hlen) (hsize ▸ htake.slot) hb,
    if_pos (hsize ▸ htake.bound)]
  rfl

end Entries

section Replay
variable {j : Journal} {ws bs : List BlockInfo} {size : ℕ} {m : Machine}

/-- One round of a loop of the replay: the entry is read, and written. -/
theorem Legible.writes {s : Section} {lo i : ℕ} {e : BlockInfo} {l : List BlockInfo}
    (h : Legible s size e) (hs : s.Within lo j.disk.size) (hl : s.Holds j.disk l)
    (hlen : l.length ≤ s.count) (hi : l[i]? = some e) (read : Op BlockInfo)
    (hread : read j = Journal.readSlot s i j) (step : ReplayStep) {f : BlockInfo → ServerOp Unit}
    (hf : ∀ e' : BlockInfo, e'.data.length = e'.size.toNat →
      e'.patch.offset + e'.patch.data.length ≤ size → Writes True size j (f e') e'.patch) :
    Writes True size j (onJournal step read >>= f) e.patch := by
  obtain ⟨hback, hpatch⟩ := h.patch_readBack
  have hw := hf (readBack e) hback (by rw [hpatch]; exact h.fits)
  rw [hpatch] at hw
  exact .bind (fun m hm => onJournal_of_ok hm (hread.trans (h.readSlot hs hl hlen hi))) hw

/-- **`WriteJournalToReplica` writes the correct blocks and then the buffer writes.** -/
theorem writeJournalToReplica_of_contains (hc : Contains m.journal ws bs)
    (hw : ws.length ≤ m.journal.header.bufWrites.count)
    (hb : bs.length ≤ m.journal.header.corrBlocks.count)
    (hws : ∀ w ∈ ws, Legible m.journal.header.bufWrites m.target.size w)
    (hbs : ∀ b ∈ bs, Legible m.journal.header.corrBlocks m.target.size b)
    (hplan : m.target.plan = []) :
    ∃ m', writeJournalToReplica m = .ok () m' ∧ m'.target.plan = [] ∧
      m'.target.size = m.target.size ∧ m'.target.bytes =
        (m.target.bytes.applyAll (bs.map BlockInfo.patch)).applyAll (ws.map BlockInfo.patch) := by
  have h64 := hc.layout.size_ge
  obtain ⟨target, j₀⟩ := m
  have hvalid : ignoreError (onJournal .validate validate) ⟨target, j₀⟩ =
      .ok () ⟨target, j₀.withHeader j₀.header.setValidFlag⟩ := by
    rw [ignoreError, onJournal]
    simp only [validate_apply hc.plan h64]
  have hcj : Contains (j₀.withHeader j₀.header.setValidFlag) ws bs := hc.withHeader rfl rfl
  generalize hj : j₀.withHeader j₀.header.setValidFlag = j at hvalid hcj
  have hbuf : j.header.bufWrites = j₀.header.bufWrites := by rw [← hj]; rfl
  have hcor : j.header.corrBlocks = j₀.header.corrBlocks := by rw [← hj]; rfl
  simp only [← hbuf, ← hcor] at hw hb hws hbs
  have hblocks : ∀ i p, (bs.map BlockInfo.patch)[i]? = some p →
      Writes True target.size j (onJournal .readCorrectBlock (readCorrectBlock i) >>=
        fun b => targetWriteAt .writeCorrectBlock b.offset.toNat b.data) p := by
    intro i p hp
    obtain ⟨b, hi, rfl⟩ := Option.map_eq_some_iff.mp (List.getElem?_map .. ▸ hp)
    refine (hbs b (List.mem_of_getElem? hi)).writes hcj.layout.corrBlocks_within hcj.blocks hb hi
      (readCorrectBlock i) rfl _ fun e hlen hfits => ?_
    have := targetWriteAt_writes True j .writeCorrectBlock hfits
    rwa [patch_of_length hlen] at this ⊢
  have hwrites : ∀ i p, (ws.map BlockInfo.patch)[i]? = some p →
      Writes True target.size j (onJournal .readBufferWrite (readBufferWrite i) >>=
        fun w => dataToWrite w >>= fun data =>
          targetWriteAt .writeBufferWrite w.offset.toNat data) p := by
    intro i p hp
    obtain ⟨w, hi, rfl⟩ := Option.map_eq_some_iff.mp (List.getElem?_map .. ▸ hp)
    refine (hws w (List.mem_of_getElem? hi)).writes hcj.layout.bufWrites_within hcj.writes hw hi
      (readBufferWrite i) rfl _ fun e hlen hfits => ?_
    refine .bind (fun m _ => dataToWrite_of_length hlen m) ?_
    have := targetWriteAt_writes True j .writeBufferWrite hfits
    rwa [patch_of_length hlen] at this ⊢
  have hstart : Holding True target.size j target.bytes ⟨target, j⟩ :=
    ⟨rfl, rfl, ⟨fun o ho => absurd (hplan ▸ ho) List.not_mem_nil, fun _ => hplan⟩, rfl⟩
  have hloops : Ends writeJournalToReplica ⟨target, j₀⟩
      (fun _ m' => m'.target.plan = [] ∧ m'.target.size = target.size ∧ m'.target.bytes =
        (target.bytes.applyAll (bs.map BlockInfo.patch)).applyAll (ws.map BlockInfo.patch))
      fun e _ => e = .powerLoss ∧ ¬ True := by
    rw [Ends, writeJournalToReplica, bind_of_ok hvalid]
    refine Ends.get_bind ?_
    have h₁ := forM_writes _ hblocks hstart
    rw [List.length_map, ← hcj.correctOffset] at h₁
    refine (h₁.mono (fun _ _ => id) fun _ _ he => he.1).bind fun _ m₁ hm₁ => ?_
    have h₂ := forM_writes _ hwrites hm₁
    rw [List.length_map, ← hcj.writeOffset] at h₂
    refine (h₂.mono (fun _ _ => id) fun _ _ he => he.1).bind fun _ m₂ hm₂ => ?_
    obtain ⟨rfl, hsize, hsound, hbytes⟩ := hm₂
    rw [Ends, onJournal, invalidate_apply hcj.plan hcj.layout.size_ge]
    exact ⟨hsound.2 trivial, hsize, hbytes⟩
  obtain ⟨⟨⟩, m', hm', hbytes⟩ := hloops.succeeds fun _ _ he => he.2 trivial
  exact ⟨m', hm', hbytes⟩

end Replay

/-! ### The session -/

/-- A packet that is appended to the journal. -/
def IsEntry (packet : Packet) : Prop :=
  (∃ w, packet = .payloadBufferWrite w) ∨ ∃ b, packet = .payloadCorrectBlock b

/-- The entry of the packet ends inside its slot. -/
def Stored (h : Header) : Packet → Prop
  | .payloadBufferWrite w => Takes h.bufWrites w
  | .payloadCorrectBlock b => Takes h.corrBlocks b
  | _ => True

theorem stored_of_attempt {j : Journal} {p : Packet} {r : Journal × Bool}
    (hl : Layout j.header j.disk.size) (ha : attempt (storePacket p) j = some r)
    (hok : r.2 = true) : Stored j.header p := by
  rcases attempt_eq_some.mp ha with ⟨hx, -⟩ | ⟨e, -, hno⟩
  · cases p with
    | payloadBufferWrite w =>
        obtain ⟨⟨⟩, j', hw, -⟩ := bind_eq_ok.mp
          (show (writeBufferWrite j.writeOffset w >>= _) j = .ok () r.1 from hx)
        exact takes_of_writeSlot hl.bufWrites.slot_ge hw
    | payloadCorrectBlock b =>
        obtain ⟨⟨⟩, j', hb, -⟩ := bind_eq_ok.mp
          (show (writeCorrectBlock j.correctOffset b >>= _) j = .ok () r.1 from hx)
        exact takes_of_writeSlot hl.corrBlocks.slot_ge hb
    | _ => trivial
  · simp [hok] at hno

/-- Where `HandleClient` may be in a journal scan. -/
def Handler.inJournalScan : Handler → Bool
  | .receiving | .enqueueing .journal _ | .drainingJournal _ | .awaitingHash
  | .writingJournal => true
  | _ => false

namespace Session

/-- `HandleJournalPackets` finds a slot for the packet at hand. -/
def findsSlot (s : Session) : SessionMove → Prop
  | .journaler _ =>
      match s.journalQueue.busy? 0 with
      | some (.storing p) => (attempt (storePacket p) s.machine.journal).any (·.2) = true
      | _ => True
  | _ => True

instance (s : Session) (m : SessionMove) : Decidable (s.findsSlot m) :=
  match m with
  | .journaler _ => by
      dsimp only [findsSlot]
      exact match s.journalQueue.busy? 0 with
        | some (.storing p) =>
            inferInstanceAs (Decidable ((attempt (storePacket p) _).any (·.2) = true))
        | some (.took _) | some .overflowing | none => isTrue trivial
  | .receive _ | .handler _ | .writer | .corrector | .replicator _ | .startHash | .hash _ =>
      isTrue trivial

/-- The session is in a journal scan, with `todo` still to be hashed, and has received `ps`. -/
structure Journaling (hash : List UInt8 → UInt64) (numWorkers : ℕ) (target : Device)
    (stage : HashStage) (todo : Multiset HashInfo) (ps : List Packet) (s : Session) : Prop where
  state : s.state = .hashing
  handler : s.handler.inJournalScan = true
  awaits : s.handler = .drainingJournal .startHashing ∨ s.handler = .awaitingHash →
    stage = .silent ∧ s.hashDisk.phase = .returned
  silent : stage = .silent → ps = [] ∧ waiting s = []
  busy : s.journalQueue.busy? 0 ≠ some .overflowing
  writer : s.writeQueue.Idle
  correct : s.correctQueue.Idle
  replication : s.replicationQueue.workers = []
  owes : s.hashDisk.Owes (hashConfig hash numWorkers target) target stage todo
  target_eq : s.machine.target = target
  stored : ∀ p ∈ ps, p ∈ waiting s ∨ Stored s.machine.journal.header p

section Journaling
variable {s s' : Session} {hash : List UInt8 → UInt64} {numWorkers : ℕ} {target : Device}
variable {stage : HashStage} {todo : Multiset HashInfo} {ps qs : List Packet} {m : SessionMove}
variable {sent : Sent}

/-- **`CmdStartHashing`.** -/
theorem Fresh.journaling (h : s.Fresh) (hq : s.journalQueue = .start 0)
    (hash : List UInt8 → UInt64) (numWorkers : ℕ) :
    (s.receive .cmdStartHashing).Journaling hash numWorkers s.machine.target .silent
        (tiling hash s.machine.target hashedSpaceBase) [] ∧
      Scanning [] (s.receive .cmdStartHashing) := by
  have hnil : pendingPackets s = [] := by
    rw [pendingPackets, hq]
    rfl
  refine ⟨{
    state := rfl
    handler := rfl
    awaits := fun _ => ⟨rfl, h.writes.hash⟩
    silent := fun _ => ⟨rfl, ?_⟩
    busy := ?_
    writer := h.writer
    correct := h.writes.correct
    replication := h.writes.replication
    owes := HashDisk.Owes.waiting h.writes.hash
    target_eq := rfl
    stored := by rintro p ⟨⟩ }, ?_⟩
  · simp [waiting, pendingPackets, Session.receive, hq, Handler.carried, Pool.close, Pool.start,
      Pool.busy?]
  · simp [Session.receive, hq, Pool.close, Pool.start, Pool.busy?]
  · refine Drainable.receive ⟨?_, canStore_of_nil hnil, .inl hnil⟩
    simp [hq, Pool.start, Pool.busy?]

/-- Where hashes have been announced, the journal has been reset. -/
theorem Journaling.wasReset (h : s.Journaling hash numWorkers target stage todo ps)
    (hs : stage ≠ .silent) : WasReset s := by
  have howes := h.owes
  cases howes with
  | waiting | silent => exact absurd rfl hs
  | hashing hp | completed hp => simp [WasReset, hp]

/-- What is received. -/
theorem Journaling.receive (h : s.Journaling hash numWorkers target stage todo ps)
    (hh : s.handler = .receiving) (hs : stage ≠ .silent) {packet : Packet}
    (hp : IsEntry packet ∨ packet = .infoHashingCompleted) :
    (s.receive packet).Journaling hash numWorkers target stage todo (ps ++ [packet]) ∧
      ((s.receive packet).handler.completing = true ↔ packet = .infoHashingCompleted) := by
  have hold : ∀ t : Session, t.machine = s.machine → (∀ p ∈ waiting s, p ∈ waiting t) →
      (packet ∈ waiting t ∨ Stored t.machine.journal.header packet) →
      ∀ p ∈ ps ++ [packet], p ∈ waiting t ∨ Stored t.machine.journal.header p := by
    intro t hm hw hlast p hp
    rcases List.mem_append.mp hp with hp | hp
    · rw [hm]
      exact (h.stored p hp).imp_left (hw p)
    · rw [List.mem_singleton.mp hp]
      exact hlast
  rcases hp with hp | rfl
  · have heq : s.receive packet = { s with handler := .enqueueing .journal packet } := by
      rcases hp with ⟨w, rfl⟩ | ⟨b, rfl⟩ <;> simp [Session.receive, route, h.state]
    have hw : waiting { s with handler := .enqueueing .journal packet } =
        waiting s ++ [packet] := by
      simp only [waiting, hh, Handler.carried, List.append_nil]
      rfl
    rw [heq]
    refine ⟨{ h with
      handler := rfl
      awaits := by simp
      silent := fun hs' => absurd hs' hs
      stored := hold _ rfl (fun p hp => ?_) (.inl ?_) }, ?_⟩
    · rw [hw]
      exact List.mem_append_left _ hp
    · rw [hw]
      exact List.mem_append_right _ (List.mem_singleton_self _)
    · rcases hp with ⟨w, rfl⟩ | ⟨b, rfl⟩ <;> simp [Handler.completing]
  · have hw : waiting (s.receive .infoHashingCompleted) = waiting s := by
      simp only [waiting, hh, Session.receive, Handler.carried]
      rfl
    exact ⟨{ h with
      handler := rfl
      awaits := by simp [Session.receive]
      silent := fun hs' => absurd hs' hs
      busy := h.busy
      stored := hold _ rfl (fun p hp => by rw [hw]; exact hp) (.inr trivial) },
      by simp [Session.receive, Handler.completing]⟩

/-- `HandleClient` goes on with what it has received, until it writes the journal. -/
theorem Journaling.moveHandler (h : s.Journaling hash numWorkers target stage todo ps)
    (hscan : Scanning ps s) (hn : 0 < numWorkers) (hne : s.handler ≠ .writingJournal)
    (hs : s.moveHandler numWorkers sent = some (s', qs)) :
    qs = [] ∧ s'.Journaling hash numWorkers target stage todo ps ∧
      (s'.handler.completing = true ↔ s.handler.completing = true) := by
  have hin := h.handler
  cases moveHandler_cases hs with
  | @enqueued queue p s₁ hh he =>
      rw [hh] at hin
      cases queue with
      | write | correct | replication => cases hin
      | journal =>
          obtain ⟨q, hq, rfl⟩ := Option.map_eq_some_iff.mp he
          obtain ⟨-, hq'⟩ := Pool.send_eq_some.mp hq
          -- the packet waits in the queue as it did in the hands of the handler
          have hb : q.busy? 0 = s.journalQueue.busy? 0 := by rw [← hq']; rfl
          have hw : waiting { s with journalQueue := q, handler := .receiving } = waiting s := by
            simp only [waiting, pendingPackets, hb, hh, Handler.carried, List.append_nil]
            rw [← hq']
            split <;> simp
          exact ⟨rfl, { h with
            handler := rfl
            awaits := by simp
            silent := fun hs => ⟨(h.silent hs).1, hw.trans (h.silent hs).2⟩
            busy := by rw [hb]; exact h.busy
            stored := fun p hp => by rw [hw]; exact h.stored p hp }, by
            simp [hh, Handler.completing]⟩
  | journalDrained hh hf =>
      obtain ⟨rfl, hp⟩ := h.awaits (.inl hh)
      obtain ⟨rfl, -⟩ := h.silent rfl
      have howes := h.owes
      refine ⟨rfl, { h with
        handler := rfl
        awaits := fun _ => ⟨rfl, hp⟩
        silent := fun _ => ⟨rfl, rfl⟩
        busy := by simp [Pool.start, Pool.busy?]
        owes := ?_
        stored := by rintro p ⟨⟩ }, by simp [hh, Handler.completing]⟩
      cases howes with
      | waiting hp => exact .waiting hp
      | silent hp' => rw [hp] at hp'; simp at hp'
  | scanDrained hh hf =>
      -- the queue is drained, and nothing waits: all of the scan has been stored
      have hfill := hscan.filling_of_collects (by rw [hh]; rfl)
      have hwait : waiting s = [] := by
        simp [waiting, pendingPackets, hf.busy? 0, hh, Handler.carried,
          (hfill.settled.finished hf).2]
      exact ⟨rfl, { h with
        handler := rfl
        awaits := by simp
        silent := fun hs => ⟨(h.silent hs).1, rfl⟩
        busy := by simp [Pool.start, Pool.busy?]
        stored := fun p hp => .inr ((h.stored p hp).resolve_left (by simp [hwait])) },
        by simp [hh, Handler.completing]⟩
  | hashStarted hh hp =>
      obtain ⟨rfl, -⟩ := h.awaits (.inr hh)
      obtain ⟨rfl, hwait⟩ := h.silent rfl
      have howes := h.owes
      have hw : waiting { s with
          hashDisk := { HashDisk.start numWorkers with phase := .starting }
          handler := .receiving } = waiting s := by
        simp only [waiting, hh, Handler.carried]
        rfl
      refine ⟨rfl, { h with
        handler := rfl
        awaits := by simp
        silent := fun _ => ⟨rfl, hw.trans hwait⟩
        owes := ?_
        stored := by rintro p ⟨⟩ }, by simp [hh, Handler.completing]⟩
      cases howes with
      | waiting => exact HashDisk.owes_start hn (.inl rfl)
      | silent => exact HashDisk.owes_start hn (.inl rfl)
  | journalSkipped hh | journalWritten hh => exact absurd hh hne
  | writingSet hh | replicationStarted hh | replicationEnded hh => rw [hh] at hin; cases hin

/-- `HandleJournalPackets` appends the packets. -/
theorem Journaling.moveJournaler (h : s.Journaling hash numWorkers target stage todo ps)
    (hc : Clearable s.machine.journal) (hslot : s.findsSlot (.journaler sent))
    (hs : s.moveJournaler sent = some (s', qs)) :
    qs = [] ∧ s'.Journaling hash numWorkers target stage todo ps ∧ s'.handler = s.handler := by
  rcases moveJournaler_cases hs with ⟨q, hq, rfl, rfl⟩ | ⟨p, hp, rfl, rfl⟩ |
    ⟨p, r, hp, hr, hcase⟩ | ⟨hp, -⟩
  · have hw : waiting { s with journalQueue := q } = waiting s :=
      congrArg (· ++ _) (pendingPackets_receive hq)
    exact ⟨rfl, { h with
      silent := fun hs => ⟨(h.silent hs).1, hw.trans (h.silent hs).2⟩
      busy := busy?_receive_ne hq
      stored := fun p hp => by rw [hw]; exact h.stored p hp }, rfl⟩
  · rw [if_neg (by simp [h.state])]
    have hw : waiting (s.setJournaler (.busy (.storing p))) = waiting s :=
      congrArg (· ++ _) (pendingPackets_took hp)
    exact ⟨rfl, { h with
      silent := fun hs => ⟨(h.silent hs).1, hw.trans (h.silent hs).2⟩
      busy := by simp [Session.setJournaler, Pool.busy?_setWorker hp]
      stored := fun p hp => by rw [hw]; exact h.stored p hp }, rfl⟩
  · have hok : r.2 = true := by simpa [findsSlot, hp, hr] using hslot
    have hhead := attempt_of_ends (storePacket_keeps p _ rfl) hr
    obtain ⟨-, rfl, rfl⟩ := hcase.resolve_right (by simp [hok])
    have hw : waiting s = p :: waiting ((s.setJournal r.1).setJournaler .ranging) := by
      simp [waiting, pendingPackets, hp, Session.setJournaler, Session.setJournal,
        Pool.busy?_setWorker hp]
    refine ⟨rfl, { h with
      silent := fun hs => absurd ((h.silent hs).2) (by simp [hw])
      busy := by simp [Session.setJournaler, Session.setJournal, Pool.busy?_setWorker hp]
      stored := fun p' hp' => ?_ }, rfl⟩
    rw [show ((s.setJournal r.1).setJournaler .ranging).machine.journal.header =
      s.machine.journal.header from hhead]
    rcases h.stored p' hp' with hmem | hst
    · rw [hw] at hmem
      rcases List.mem_cons.mp hmem with rfl | hmem
      · exact .inr (stored_of_attempt hc.layout hr hok)
      · exact .inl hmem
    · exact .inr hst
  · exact absurd hp h.busy

/-- What is received, and when the entries are appended. -/
theorem Journaling.orderly (h : s.Journaling hash numWorkers target stage todo ps)
    (hm : ∀ packet, m = .receive packet →
      stage ≠ .silent ∧ (IsEntry packet ∨ packet = .infoHashingCompleted)) :
    Server.orderly ⟨s, some ps⟩ m := by
  cases m with
  | receive packet =>
      obtain ⟨hs, (⟨w, rfl⟩ | ⟨b, rfl⟩) | rfl⟩ := hm packet rfl
      · trivial
      · trivial
      · exact fun _ => h.wasReset hs
  | journaler sent =>
      intro _ hst
      refine h.wasReset fun hs => ?_
      have hw := (h.silent hs).2
      unfold isStoring at hst
      split at hst
      · rename_i p hp
        simp [waiting, pendingPackets, hp] at hw
      · cases hst
  | handler | writer | corrector | replicator | startHash | hash => trivial

/-- The record of a scan that is not over. -/
theorem record_eq (hm : ∀ packet, m = .receive packet →
      IsEntry packet ∨ packet = .infoHashingCompleted)
    (hh : s.handler ≠ .settingWriting) :
    Collected.record ⟨s, some ps⟩ m = some (ps ++ received m) := by
  cases m with
  | receive packet =>
      obtain (⟨w, rfl⟩ | ⟨b, rfl⟩) | rfl := hm packet rfl <;> rfl
  | handler sent => simp [Collected.record, hh, received]
  | writer | corrector | journaler | replicator | startHash | hash =>
      simp [Collected.record, received]

/-- **One move of a session in a journal scan**, until it writes the journal to the replica. -/
theorem Journaling.move (h : s.Journaling hash numWorkers target stage todo ps)
    (hsound : Sound ⟨s, some ps⟩) (hn : 0 < numWorkers)
    (hm : ∀ packet, m = .receive packet →
      stage ≠ .silent ∧ (IsEntry packet ∨ packet = .infoHashingCompleted))
    (hne : ∀ sent, m = .handler sent → s.handler ≠ .writingJournal)
    (hslot : s.findsSlot m) (hd : ∀ mv, m = .hash mv → mv.Delivered)
    (hs : s.move hash numWorkers m = some (s', qs)) :
    ∃ stage' todo', s'.Journaling hash numWorkers target stage' todo' (ps ++ received m) ∧
      Sound ⟨s', some (ps ++ received m)⟩ ∧ Told stage todo stage' todo' qs ∧
      (s'.handler.completing = true ↔
        received m = [.infoHashingCompleted] ∨ s.handler.completing = true) := by
  have hset : s.handler ≠ .settingWriting := by
    intro hh
    have := h.handler
    rw [hh] at this
    cases this
  have hsound' : Sound ⟨s', some (ps ++ received m)⟩ := by
    have hstep : Collected.step hash numWorkers ⟨s, some ps⟩ m =
        some ⟨s', some (ps ++ received m)⟩ := by
      rw [Collected.step, hs, record_eq (fun packet hp => (hm packet hp).2) hset]
      rfl
    exact hsound.step (h.orderly hm) hstep
  -- what the journal holds has been seen to; there remains what the hashes are owed
  suffices hmove : ∃ stage' todo',
      s'.Journaling hash numWorkers target stage' todo' (ps ++ received m) ∧
      Told stage todo stage' todo' qs ∧ (s'.handler.completing = true ↔
        received m = [.infoHashingCompleted] ∨ s.handler.completing = true) by
    obtain ⟨stage', todo', h', htold, hcomp⟩ := hmove
    exact ⟨stage', todo', h', hsound', htold, hcomp⟩
  cases move_cases hs with
  | @receive packet hh =>
      obtain ⟨hst, hp⟩ := hm packet rfl
      obtain ⟨h', hcomp⟩ := h.receive hh hst hp
      exact ⟨stage, todo, h', .nothing, by rw [hcomp, hh]; simp [received, Handler.completing]⟩
  | handler hmv =>
      obtain ⟨rfl, h', hcomp⟩ := h.moveHandler (hsound.scanning ps rfl) hn (hne _ rfl) hmv
      exact ⟨stage, todo, by simpa [received] using h', .nothing, by simp [hcomp, received]⟩
  | journaler hmv =>
      obtain ⟨rfl, h', hh⟩ := h.moveJournaler hsound.clearable hslot hmv
      exact ⟨stage, todo, by simpa [received] using h', .nothing, by simp [hh, received]⟩
  | writer hmv =>
      obtain ⟨q, hq, rfl⟩ := moveWriter_of_idle h.writer hmv
      have h' : Journaling hash numWorkers target stage todo ps { s with writeQueue := q } :=
        { h with writer := hq }
      exact ⟨stage, todo, by simpa [received] using h', .nothing, by simp [received]⟩
  | corrector hmv =>
      obtain ⟨q, hq, rfl⟩ := moveCorrector_of_idle h.correct hmv
      have h' : Journaling hash numWorkers target stage todo ps { s with correctQueue := q } :=
        { h with correct := hq }
      exact ⟨stage, todo, by simpa [received] using h', .nothing, by simp [received]⟩
  | @replicator i _ hmv =>
      have hf := Pool.finished_of_workers h.replication
      simp [moveReplicator, hf.busy? i, hf.receive] at hmv
  | startHash hmv =>
      -- `HashDisk` resets the journal before it has sent anything
      have hnot : ¬ (s.handler = .drainingJournal .startHashing ∨ s.handler = .awaitingHash) := by
        intro hh
        simp [moveStartHash, (h.awaits hh).2] at hmv
      have hsilent : stage = .silent := by
        by_contra hst
        exact not_wasReset_of_startHash hmv (h.wasReset hst)
      obtain ⟨rfl, hwait⟩ := h.silent hsilent
      suffices h' : s'.Journaling hash numWorkers target stage todo [] ∧
          s'.handler = s.handler from
        ⟨stage, todo, h'.1, .nothing, by simp [h'.2, received]⟩
      rcases moveStartHash_cases hmv with ⟨hp, rfl⟩ | ⟨hp, r, hr, rfl⟩
      · rw [if_neg (by simp [h.state])]
        exact ⟨{ h with
          awaits := fun hh => absurd hh hnot
          owes := h.owes.setPhase (.inl hp) (.inl rfl) }, rfl⟩
      · exact ⟨{ h with
          awaits := fun hh => absurd hh hnot
          owes := h.owes.setPhase (.inr hp) (.inr rfl)
          stored := by rintro p ⟨⟩ }, rfl⟩
  | @hash mv h₁ ps' hmv =>
      -- the replica does not change in a journal scan, so that every hash is of the old one
      have hnot : ¬ (s.handler = .drainingJournal .startHashing ∨ s.handler = .awaitingHash) := by
        intro hh
        rw [HashDisk.move_of_returned (h.awaits hh).2] at hmv
        cases hmv
      rw [h.target_eq] at hmv
      obtain ⟨stage', todo', howes, htold⟩ := h.owes.move (whole_hashConfig _ _ _) (hd mv rfl) hmv
      have hsilent : stage' = .silent → stage = .silent := by
        cases htold <;> simp
      have h' : Journaling hash numWorkers target stage' todo' ps { s with hashDisk := h₁ } :=
        { h with
          awaits := fun hh => absurd hh hnot
          silent := fun hs => h.silent (hsilent hs)
          owes := howes }
      exact ⟨stage', todo', by simpa [received] using h', htold, by simp [received]⟩

/-- A packet of a scan whose entry can be replayed on a target of `size` bytes. -/
def Replayable (size : ℕ) : Packet → Prop
  | .payloadBufferWrite w => w.size.toNat ≤ w.data.length ∧ w.data.length < 2 ^ 32 ∧
      w.patch.offset + w.patch.data.length ≤ size
  | .payloadCorrectBlock b => b.Carries size fun _ _ => True
  | _ => True

/-- The journal has been written, and `HandleClient` is about to set `StateWriting`. -/
structure Replayed (s : Session) : Prop where
  handler : s.handler = .settingWriting
  writes : OnlyWrites { s with state := .writing, handler := .receiving }
  writer : s.writeQueue.Idle

/-- At the end of the scan all of it is in the journal, and can be read back. -/
theorem Journaling.contains (h : s.Journaling hash numWorkers target stage todo ps)
    (hsound : Sound ⟨s, some ps⟩) (hh : s.handler = .writingJournal)
    (hps : ∀ p ∈ ps, Replayable target.size p) :
    s.journalQueue = .start 0 ∧ Contains s.machine.journal (writesOf ps) (blocksOf ps) ∧
      (∀ w ∈ writesOf ps, Legible s.machine.journal.header.bufWrites target.size w) ∧
      ∀ b ∈ blocksOf ps, Legible s.machine.journal.header.corrBlocks target.size b := by
  have hstate := h.state
  obtain ⟨hq, hcontains⟩ : s.journalQueue = .start 0 ∧
      Contains s.machine.journal (writesOf ps) (blocksOf ps) := by
    cases hsound.scanning ps rfl with
    | writing _ hq _ hc =>
        exact ⟨hq, hc.resolve_right fun hover => by cases hstate.symm.trans hover.1⟩
    | filling hf => cases hh ▸ hf.handler
    | draining hh' | awaiting hh' | ended hh' => cases hh.symm.trans hh'
  have hwait : waiting s = [] := by
    rw [waiting, pendingPackets, hq, hh]
    rfl
  have hstored : ∀ p ∈ ps, Stored s.machine.journal.header p := fun p hp =>
    (h.stored p hp).resolve_left (by simp [hwait])
  refine ⟨hq, hcontains, fun w hw => ?_, fun b hb => ?_⟩
  · obtain ⟨p, hp, hpw⟩ := List.mem_filterMap.mp hw
    cases p <;> cases hpw
    obtain ⟨h₁, h₂, h₃⟩ := hps _ hp
    exact ⟨hstored _ hp, h₁, h₂, h₃⟩
  · obtain ⟨p, hp, hpb⟩ := List.mem_filterMap.mp hb
    cases p <;> cases hpb
    have hcarries : b.Carries target.size _ := hps _ hp
    refine ⟨hstored _ hp, hcarries.length.ge, hcarries.length ▸ b.size.toNat_lt, ?_⟩
    rw [patch_of_length hcarries.length, hcarries.length]
    exact hcarries.fits

/-- `WriteJournalToReplica` writes all that was received for the scan. -/
theorem Journaling.writesJournal (h : s.Journaling hash numWorkers target stage todo ps)
    (hsound : Sound ⟨s, some ps⟩) (hh : s.handler = .writingJournal) (hplan : target.plan = [])
    (hps : ∀ p ∈ ps, Replayable target.size p) :
    ∃ m, writeJournalToReplica s.machine = .ok () m ∧ m.target.plan = [] ∧
      m.target.size = target.size ∧ m.target.bytes =
        (target.bytes.applyAll ((blocksOf ps).map BlockInfo.patch)).applyAll (writes ps) := by
  have htarget := h.target_eq
  have hc := hsound.clearable
  obtain ⟨-, hcontains, hws, hbs⟩ := h.contains hsound hh hps
  rw [← htarget] at hplan hws hbs ⊢
  exact writeJournalToReplica_of_contains hcontains (hcontains.writeOffset ▸ hc.writes_le)
    (hcontains.correctOffset ▸ hc.blocks_le) hws hbs hplan

/-- **The end of the scan**: all of it is in the journal, and is written to the replica. -/
theorem Journaling.replays (h : s.Journaling hash numWorkers target .completed todo ps)
    (hsound : Sound ⟨s, some ps⟩) (hh : s.handler = .writingJournal) (hplan : target.plan = [])
    (hps : ∀ p ∈ ps, Replayable target.size p)
    (hs : s.moveHandler numWorkers sent = some (s', qs)) :
    qs = [] ∧ s'.Replayed ∧ s'.machine.target.plan = [] ∧ s'.machine.target.size = target.size ∧
      s'.machine.target.bytes = (target.bytes.applyAll ((blocksOf ps).map BlockInfo.patch)).applyAll
        (writes ps) := by
  have hstate := h.state
  obtain ⟨hq, -⟩ := h.contains hsound hh hps
  obtain ⟨m', hm', hplan', hsize', hbytes'⟩ := h.writesJournal hsound hh hplan hps
  have hreplay : attempt writeJournalToReplica s.machine = some (m', true) :=
    attempt_eq_some.mpr (.inl ⟨hm', rfl⟩)
  simp only [Session.moveHandler, hh] at hs
  simp only [handleJournalWriting, hstate, hreplay] at hs
  cases hs
  have howes := h.owes
  refine ⟨rfl, ⟨rfl, ⟨rfl, .inl rfl, h.correct, ?_, h.replication, ?_⟩, h.writer⟩, hplan',
    hsize', hbytes'⟩
  · show s.journalQueue.workers = []
    rw [hq]
    rfl
  · cases howes with
    | completed hp => exact hp

/-- Nothing else happens before `HandleClient` goes on. -/
theorem Replayed.move (h : s.Replayed) (hs : s.move hash numWorkers m = some (s', qs)) :
    qs = [] ∧ received m = [] ∧ (s' = { s with state := .writing, handler := .receiving } ∨
      (∀ sent, m ≠ .handler sent) ∧ s'.machine = s.machine ∧ s'.Replayed) := by
  have hh := h.handler
  cases move_cases hs with
  | receive hr => cases hh.symm.trans hr
  | handler hmv =>
      simp only [Session.moveHandler, hh] at hmv
      cases hmv
      exact ⟨rfl, rfl, .inl rfl⟩
  | writer hmv =>
      obtain ⟨q, hq, rfl⟩ := moveWriter_of_idle h.writer hmv
      exact ⟨rfl, rfl, .inr ⟨by simp, rfl, hh, { h.writes with }, hq⟩⟩
  | corrector hmv =>
      have hidle : s.correctQueue.Idle := h.writes.correct
      obtain ⟨q, hq, rfl⟩ := moveCorrector_of_idle hidle hmv
      exact ⟨rfl, rfl, .inr ⟨by simp, rfl, hh, { h.writes with correct := hq }, h.writer⟩⟩
  | journaler hmv =>
      have hf : s.journalQueue.Finished := Pool.finished_of_workers h.writes.journal
      simp [Session.moveJournaler, hf.busy? 0, hf.receive] at hmv
  | @replicator i _ hmv =>
      have hf : s.replicationQueue.Finished := Pool.finished_of_workers h.writes.replication
      simp [moveReplicator, hf.busy? i, hf.receive] at hmv
  | startHash hmv =>
      have hp : s.hashDisk.phase = .returned := h.writes.hash
      simp [moveStartHash, hp] at hmv
  | hash hmv =>
      rw [HashDisk.move_of_returned h.writes.hash] at hmv
      cases hmv

end Journaling

end Session

end Bdr.Server
