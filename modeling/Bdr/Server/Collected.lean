import Bdr.Server.Archive
import Bdr.Server.BoundedReset
import Bdr.Server.Overflow

/-!
# Server — Collected

Whether the journal of a scan holds what was received for it.  `CmdStartHashing` starts two
goroutines that move the journal's offsets: `HashDisk` clears the slots up to them and sets them to
zero, and `HandleJournalPackets` appends at them.  Nothing makes the second wait for the first: an
entry that is stored before the reset is erased by it, or, since the offsets of a new journal are
those of a full one, is taken for an overflow.  And `HandleJournalPackets` of the scan before may
find out about an overflow of its own when the state is that of the new scan already.

Where the first entry of a scan is stored after its reset, and the scan before leaves nothing that
cannot be stored, the journal is exact (`collected_of_orderly`).
-/

namespace Bdr

/-- The correct block a packet carries. -/
def Packet.correctBlock? : Packet → Option CorrectBlockInfo
  | .payloadCorrectBlock b => some b
  | _ => none

end Bdr

namespace Bdr.Server

open Journal

/-- The buffer writes among the packets, in order. -/
def writesOf (ps : List Packet) : List WriteInfo := ps.filterMap Packet.bufferWrite?

/-- The correct blocks among the packets, in order. -/
def blocksOf (ps : List Packet) : List CorrectBlockInfo := ps.filterMap Packet.correctBlock?

@[simp] theorem writesOf_append (ps qs : List Packet) :
    writesOf (ps ++ qs) = writesOf ps ++ writesOf qs := List.filterMap_append

@[simp] theorem blocksOf_append (ps qs : List Packet) :
    blocksOf (ps ++ qs) = blocksOf ps ++ blocksOf qs := List.filterMap_append

/-- There are more packets of a kind than its section has slots. -/
def Outnumbered (h : Header) (ps : List Packet) : Prop :=
  h.bufWrites.count < (writesOf ps).length ∨ h.corrBlocks.count < (blocksOf ps).length

/-- A session, and the packets received since the last `CmdStartHashing`, until the scan ends or
something else begins. -/
structure Collected where
  session : Session
  scan : Option (List Packet)

namespace Collected
variable (hash : List UInt8 → UInt64) (numWorkers : ℕ)

def record (w : Collected) : SessionMove → Option (List Packet)
  | .receive .cmdStartHashing => some []
  | .receive .cmdStartFullScan | .receive .infoStartReplication
  | .receive .infoReplicationCompleted => none
  | .receive p => w.scan.map (· ++ [p])
  | .handler _ => if w.session.handler = .settingWriting then none else w.scan
  | _ => w.scan

def step (w : Collected) (m : SessionMove) : Option Collected :=
  (w.session.move hash numWorkers m).map fun r => ⟨r.1, w.record m⟩

/-- When `InfoHashingCompleted` is handled, the journal holds what was received, or the server knows
of an overflow and there was more of a kind than there are slots. -/
def Exact (w : Collected) : Prop :=
  ∀ ps, w.scan = some ps → w.session.handler = .writingJournal →
    Contains w.session.machine.journal (writesOf ps) (blocksOf ps) ∨
      w.session.state = .journalOverflow ∧ Outnumbered w.session.machine.journal.header ps

end Collected

/-! ### Orderly runs -/

/-- `HandleJournalPackets` is about to store a packet. -/
def isStoring (s : Session) : Bool :=
  match s.journalQueue.busy? 0 with
  | some (.storing _) => true
  | _ => false

/-- What is left of the scan before can be stored, and its `HashDisk` does not come in between. -/
structure Drainable (s : Session) : Prop where
  busy : s.journalQueue.busy? 0 ≠ some .overflowing
  canStore : CanStore s
  reset : pendingPackets s = [] ∨ WasReset s

/-- A packet of a scan is stored, and the end of the scan received, after the scan has reset the
journal; and a scan begins when what is left of the one before can be stored. -/
def orderly (w : Collected) : SessionMove → Prop
  | .receive .cmdStartHashing => Drainable w.session
  | .receive .infoHashingCompleted => w.scan.isSome → WasReset w.session
  | .journaler _ => w.scan.isSome → isStoring w.session → WasReset w.session
  | _ => True

/-! ### Single calls -/

section Calls
variable {j : Journal} {ws bs : List BlockInfo}

theorem Clearable.keeps_validate : Keeps Clearable Journal.validate := by
  intro j h
  rw [Ends, validate_apply h.plan h.layout.size_ge]
  exact h.withHeader rfl rfl

theorem Clearable.keeps_invalidate : Keeps Clearable Journal.invalidate := by
  intro j h
  rw [Ends, invalidate_apply h.plan h.layout.size_ge]
  exact h.withHeader rfl rfl

/-- A replay marks the journal, and reads it. -/
theorem Clearable.keeps_writeJournalToReplica :
    Keeps (fun m : Machine => Clearable m.journal) writeJournalToReplica := by
  have htarget (step : ReplayStep) (off : ℕ) (data : List UInt8) :
      Keeps (fun m : Machine => Clearable m.journal) (targetWriteAt step off data) :=
    targetWriteAt_keeps (fun _ _ h => h) step off data
  have hread (step : ReplayStep) (s : Header → Section) (i : ℕ) :
      Keeps (fun m : Machine => Clearable m.journal)
        (onJournal step (onSection s (readSlot · i))) :=
    Keeps.onJournal (Keeps.get_bind fun _ => readSlot_keeps Clearable _ i) step
  refine (Keeps.ignoreError (Keeps.onJournal keeps_validate _)).bind fun _ =>
    Keeps.get_bind fun _ => ?_
  refine (Keeps.forM _ fun i _ => (hread _ _ i).bind fun b => htarget _ _ _).bind fun _ => ?_
  refine (Keeps.forM _ fun i _ => (hread _ _ i).bind fun w => ?_).bind fun _ =>
    Keeps.onJournal keeps_invalidate _
  exact writeBufferWriteToReplica_keeps (fun _ _ h => h) w

theorem Clearable.storePacket (h : Clearable j) {p : Packet} {r : Journal × Bool}
    (ha : attempt (Server.storePacket p) j = some r) : Clearable r.1 := by
  have herr : ∀ (_ : Fault Error) (j' : Journal), j' = j → Clearable j' := by
    rintro _ _ rfl
    exact h
  cases p with
  | payloadBufferWrite w => exact attempt_of_ends ((h.bufferWrite w).mono (fun _ _ => id) herr) ha
  | payloadCorrectBlock b =>
      exact attempt_of_ends ((h.correctBlock b).mono (fun _ _ => id) herr) ha
  | _ =>
      cases ha
      exact h

/-- A buffer write behind those the journal contains, or there is no slot for it. -/
theorem bufferWrite_of_contains (h : Contains j ws bs) (w : WriteInfo) :
    Ends (writeBufferWriteToJournal w) j (fun _ j' => Contains j' (ws ++ [w]) bs)
      fun e _ => e = .panic ∨ j.header.bufWrites.count ≤ ws.length := by
  have hl := h.layout
  refine Ends.get_bind ?_
  rw [h.writeOffset]
  by_cases hroom : ws.length < j.header.bufWrites.count
  · have hf := Section.frame_store (d := j.disk) hl.bufWrites.slot_ge hroom w
    refine Ends.bind ((writeSlot_stores hl.bufWrites_within h.plan hroom).mono
      (fun _ _ => id) fun _ _ he => .inl he.1) ?_
    rintro _ _ rfl
    refine ⟨hl, h.plan, ?_, h.correctOffset, h.writes.snoc hl.bufWrites_within w, ?_⟩
    · simp [h.writeOffset]
    · exact h.blocks.frame hl.corrBlocks hf (.inl hl.bufWrites.le_hi)
  · have hfull : writeBufferWrite ws.length w j = .error (.err .invalidSize) j :=
      writeSlot_of_full (Nat.not_lt.mp hroom)
    rw [Ends, bind_apply, hfull]
    exact .inr (Nat.not_lt.mp hroom)

theorem correctBlock_of_contains (h : Contains j ws bs) (b : CorrectBlockInfo) :
    Ends (writeCorrectBlockToJournal b) j (fun _ j' => Contains j' ws (bs ++ [b]))
      fun e _ => e = .panic ∨ j.header.corrBlocks.count ≤ bs.length := by
  have hl := h.layout
  refine Ends.get_bind ?_
  rw [h.correctOffset]
  by_cases hroom : bs.length < j.header.corrBlocks.count
  · have hf := Section.frame_store (d := j.disk) hl.corrBlocks.slot_ge hroom b
    refine Ends.bind ((writeSlot_stores hl.corrBlocks_within h.plan hroom).mono
      (fun _ _ => id) fun _ _ he => .inl he.1) ?_
    rintro _ _ rfl
    refine ⟨hl, h.plan, h.writeOffset, ?_, ?_, h.blocks.snoc hl.corrBlocks_within b⟩
    · simp [h.correctOffset]
    · exact h.writes.frame hl.bufWrites hf (.inr le_rfl)
  · have hfull : writeCorrectBlock bs.length b j = .error (.err .invalidSize) j :=
      writeSlot_of_full (Nat.not_lt.mp hroom)
    rw [Ends, bind_apply, hfull]
    exact .inr (Nat.not_lt.mp hroom)

/-- **A packet is stored behind the others, or there are more of its kind than slots.** -/
theorem storePacket_of_contains (h : Contains j ws bs) {p : Packet} {r : Journal × Bool}
    (ha : attempt (Server.storePacket p) j = some r) :
    r.2 = true ∧ Contains r.1 (ws ++ writesOf [p]) (bs ++ blocksOf [p]) ∨
      r.2 = false ∧ (j.header.bufWrites.count < (ws ++ writesOf [p]).length ∨
        j.header.corrBlocks.count < (bs ++ blocksOf [p]).length) := by
  cases p with
  | payloadBufferWrite w =>
      have hw : Ends (Server.storePacket (.payloadBufferWrite w)) j _ _ :=
        bufferWrite_of_contains h w
      rcases attempt_eq_some.mp ha with ⟨hx, hok⟩ | ⟨e, hx, hok⟩
      · rw [Ends, hx] at hw
        refine .inl ⟨hok, ?_⟩
        change Contains r.1 (ws ++ [w]) (bs ++ [])
        rwa [List.append_nil]
      · rw [Ends, hx] at hw
        refine .inr ⟨hok, .inl ?_⟩
        change _ < (ws ++ [w]).length
        rw [List.length_append]
        exact Nat.lt_succ_of_le (hw.resolve_left (by rintro ⟨⟩))
  | payloadCorrectBlock b =>
      have hb : Ends (Server.storePacket (.payloadCorrectBlock b)) j _ _ :=
        correctBlock_of_contains h b
      rcases attempt_eq_some.mp ha with ⟨hx, hok⟩ | ⟨e, hx, hok⟩
      · rw [Ends, hx] at hb
        refine .inl ⟨hok, ?_⟩
        change Contains r.1 (ws ++ []) (bs ++ [b])
        rwa [List.append_nil]
      · rw [Ends, hx] at hb
        refine .inr ⟨hok, .inr ?_⟩
        change _ < (bs ++ [b]).length
        rw [List.length_append]
        exact Nat.lt_succ_of_le (hb.resolve_left (by rintro ⟨⟩))
  | _ =>
      cases ha
      refine .inl ⟨rfl, ?_⟩
      change Contains j (ws ++ []) (bs ++ [])
      rwa [List.append_nil, List.append_nil]

/-- A reset of the journal, with the journal's own offsets. -/
theorem Clearable.attempt_resetTo (h : Clearable j) {r : Journal × Bool}
    (ha : attempt (Journal.resetTo j.writeOffset j.correctOffset) j = some r) :
    Clearable r.1 ∧ Contains r.1 [] [] := by
  obtain ⟨_, j', hr, hc, -⟩ := succeeds_iff.mp
    (resetTo_succeeds h.layout h.plan h.writes_le h.blocks_le h.writes h.blocks)
  rcases attempt_eq_some.mp ha with ⟨hx, -⟩ | ⟨e, hx, -⟩
  · rw [hr] at hx
    cases hx
    exact ⟨h.resetTo hr, hc⟩
  · rw [hr] at hx
    cases hx

end Calls

/-! ### While a scan is going on -/

/-- The packet `HandleClient` is about to send to the journal's queue. -/
def Handler.carried : Handler → List Packet
  | .enqueueing .journal p => [p]
  | _ => []

/-- `HandleClient` takes in packets, or waits for those of the scan to be stored. -/
def Handler.collects : Handler → Bool
  | .receiving | .enqueueing _ _ | .drainingJournal .hashingCompleted => true
  | _ => false

/-- The packets that are still to be stored. -/
def waiting (s : Session) : List Packet := pendingPackets s ++ s.handler.carried

/-- Nothing has been lost: what was stored since the reset and what is still to be stored are the
packets of the scan. -/
structure Gathering (ps : List Packet) (ws bs : List BlockInfo) (s : Session) : Prop where
  state : s.state = .hashing
  busy : s.journalQueue.busy? 0 ≠ some .overflowing
  contains : WasReset s → Contains s.machine.journal ws bs
  empty : ¬ WasReset s → ws = [] ∧ bs = []
  writes : ws ++ writesOf (waiting s) = writesOf ps
  blocks : bs ++ blocksOf (waiting s) = blocksOf ps

/-- A packet of the scan has found no slot. -/
structure Overfull (ps : List Packet) (s : Session) : Prop where
  reset : WasReset s
  state : s.state = .journalOverflow ∨ s.journalQueue.busy? 0 = some .overflowing
  outnumbered : Outnumbered s.machine.journal.header ps

structure Filling (ps : List Packet) (s : Session) : Prop where
  handler : s.handler.collects = true
  settled : s.journalQueue.Settled
  completing : s.handler = .drainingJournal .hashingCompleted → WasReset s
  content : (∃ ws bs, Gathering ps ws bs s) ∨ Overfull ps s

/-- The stages of a scan for which `ps` has been received. -/
inductive Scanning (ps : List Packet) (s : Session) : Prop where
  | draining (hh : s.handler = .drainingJournal .startHashing) (hps : ps = [])
      (hs : s.state = .hashing) (h : Drainable s)
  | awaiting (hh : s.handler = .awaitingHash) (hps : ps = []) (hs : s.state = .hashing)
      (hq : s.journalQueue = .start 1)
  | filling (h : Filling ps s)
  | writing (hh : s.handler = .writingJournal) (hq : s.journalQueue = .start 0)
      (hr : WasReset s) (h : Contains s.machine.journal (writesOf ps) (blocksOf ps) ∨
        s.state = .journalOverflow ∧ Outnumbered s.machine.journal.header ps)
  | ended (hh : s.handler = .settingWriting)

section Moves
variable {numWorkers : ℕ} {s s' : Session} {ps qs : List Packet} {sent : Sent}
variable {ws bs : List BlockInfo}

theorem pendingPackets_receive {q : Pool Packet JournalTask}
    (hq : s.journalQueue.receive .took 0 = some q) :
    pendingPackets { s with journalQueue := q } = pendingPackets s := by
  obtain ⟨hb, ⟨a, ha, hb'⟩ | ⟨hn, hn', hb'⟩⟩ := Pool.busy?_receive hq
  · simp only [pendingPackets, hb, hb', ha]
  · simp only [pendingPackets, hb, hb', hn, hn']

theorem pendingPackets_took {p : Packet} (hp : s.journalQueue.busy? 0 = some (.took p)) :
    pendingPackets (s.setJournaler (.busy (.storing p))) = pendingPackets s := by
  simp only [pendingPackets, hp, Session.setJournaler, Pool.busy?_setWorker hp,
    Pool.queue_setWorker]

theorem busy?_receive_ne {q : Pool Packet JournalTask}
    (hq : s.journalQueue.receive .took 0 = some q) : q.busy? 0 ≠ some .overflowing := by
  obtain ⟨-, ⟨a, -, hb⟩ | ⟨-, -, hb⟩⟩ := Pool.busy?_receive hq <;> simp [hb]

theorem not_wasReset_of_startHash (hm : s.moveStartHash = some s') : ¬ WasReset s := by
  rcases Session.moveStartHash_cases hm with ⟨hp, -⟩ | ⟨hp, -⟩
  · exact fun h => h.1 hp
  · exact fun h => h.2 hp

theorem wasReset_of_hash {m : HashMove} {c : HashConfig} {target : Device} {h' : HashDisk}
    (hm : s.hashDisk.move c target m = some (h', qs)) :
    WasReset s ∧ WasReset { s with hashDisk := h' } := by
  obtain ⟨hp, hp'⟩ := HashDisk.phase_move hm
  refine ⟨?_, ?_⟩
  · rcases hp with hp | hp <;> simp [WasReset, hp]
  · rcases hp' with hp' | hp' <;> simp [WasReset, hp']

/-! #### The scan before -/

theorem canStore_of_nil (h : pendingPackets s = []) : CanStore s :=
  ⟨s.machine.journal, by rw [h]; rfl⟩

theorem Drainable.moveJournaler (h : Drainable s) (hst : s.state = .hashing)
    (hm : s.moveJournaler sent = some (s', qs)) :
    Drainable s' ∧ s'.state = .hashing ∧ s'.handler = s.handler := by
  rcases Session.moveJournaler_cases hm with ⟨q, hq, rfl, -⟩ | ⟨p, hp, -, rfl⟩ |
    ⟨p, a, hp, ha, hcase⟩ | ⟨hp, -, rfl⟩
  · refine ⟨⟨busy?_receive_ne hq, h.canStore.receive hq, ?_⟩, hst, rfl⟩
    rw [pendingPackets_receive hq]
    exact h.reset
  · rw [if_neg (by simp [hst])]
    refine ⟨⟨?_, h.canStore.took hp, ?_⟩, hst, rfl⟩
    · simp [Session.setJournaler, Pool.busy?_setWorker hp]
    · rw [pendingPackets_took hp]
      exact h.reset
  · obtain ⟨hok, hcan⟩ := h.canStore.storing hp ha
    have hr : WasReset s := h.reset.resolve_left (by simp [pendingPackets, hp])
    rcases hcase with ⟨-, rfl, -⟩ | ⟨hno, -, -⟩
    · refine ⟨⟨?_, hcan, .inr hr⟩, hst, rfl⟩
      simp [Session.setJournaler, Session.setJournal, Pool.busy?_setWorker hp]
    · simp [hok] at hno
  · exact absurd hp h.busy

theorem Drainable.moveStartHash (h : Drainable s) (hm : s.moveStartHash = some s') :
    Drainable s' := by
  have hf := Session.frame_moveStartHash hm
  have hnil : pendingPackets s' = [] := by
    rw [pendingPackets, hf.journalQueue]
    exact h.reset.resolve_right (not_wasReset_of_startHash hm)
  exact ⟨by rw [hf.journalQueue]; exact h.busy, canStore_of_nil hnil, .inl hnil⟩

/-! #### Storing -/

/-- A packet that is stored moves from what waits to what the journal contains. -/
theorem Gathering.stored (h : Gathering ps ws bs s) {p : Packet} {j : Journal}
    (hp : s.journalQueue.busy? 0 = some (.storing p)) (hr : WasReset s)
    (hj : Contains j (ws ++ writesOf [p]) (bs ++ blocksOf [p])) :
    Gathering ps (ws ++ writesOf [p]) (bs ++ blocksOf [p])
      ((s.setJournal j).setJournaler .ranging) := by
  have hw : waiting s = [p] ++ waiting ((s.setJournal j).setJournaler .ranging) := by
    simp [waiting, pendingPackets, hp, Session.setJournaler, Session.setJournal,
      Pool.busy?_setWorker hp]
  refine ⟨h.state, ?_, fun _ => hj, fun hn => absurd hr hn, ?_, ?_⟩
  · simp [Session.setJournaler, Session.setJournal, Pool.busy?_setWorker hp]
  · rw [← h.writes, hw, writesOf_append, List.append_assoc]
  · rw [← h.blocks, hw, blocksOf_append, List.append_assoc]

/-- A packet that is not stored shows that there are too many. -/
theorem Gathering.refused (h : Gathering ps ws bs s) {p : Packet} {hd : Header}
    (hp : s.journalQueue.busy? 0 = some (.storing p))
    (hfull : hd.bufWrites.count < (ws ++ writesOf [p]).length ∨
      hd.corrBlocks.count < (bs ++ blocksOf [p]).length) : Outnumbered hd ps := by
  obtain ⟨rest, hw⟩ : ∃ rest, waiting s = [p] ++ rest := by
    refine ⟨s.journalQueue.queue ++ s.handler.carried, ?_⟩
    simp [waiting, pendingPackets, hp]
  refine hfull.imp (fun hlt => ?_) fun hlt => ?_
  · rw [← h.writes, hw, writesOf_append, ← List.append_assoc, List.length_append]
    exact Nat.lt_add_right _ hlt
  · rw [← h.blocks, hw, blocksOf_append, ← List.append_assoc, List.length_append]
    exact Nat.lt_add_right _ hlt

theorem Outnumbered.append {hd : Header} (h : Outnumbered hd ps) (qs : List Packet) :
    Outnumbered hd (ps ++ qs) := by
  refine h.imp (fun hlt => ?_) fun hlt => ?_
  · rw [writesOf_append, List.length_append]
    exact Nat.lt_add_right _ hlt
  · rw [blocksOf_append, List.length_append]
    exact Nat.lt_add_right _ hlt

theorem Filling.moveJournaler (h : Filling ps s) (hreset : isStoring s = true → WasReset s)
    (hm : s.moveJournaler sent = some (s', qs)) : Filling ps s' := by
  rcases Session.moveJournaler_cases hm with ⟨q, hq, rfl, -⟩ | ⟨p, hp, -, rfl⟩ |
    ⟨p, a, hp, ha, hcase⟩ | ⟨hp, -, rfl⟩
  · have hw : waiting { s with journalQueue := q } = waiting s :=
      congrArg (· ++ _) (pendingPackets_receive hq)
    refine ⟨h.handler, h.settled.receive hq, h.completing, ?_⟩
    rcases h.content with ⟨ws, bs, hg⟩ | ho
    · exact .inl ⟨ws, bs, hg.state, busy?_receive_ne hq, hg.contains, hg.empty,
        by rw [hw]; exact hg.writes, by rw [hw]; exact hg.blocks⟩
    · refine .inr ⟨ho.reset, .inl (ho.state.resolve_right ?_), ho.outnumbered⟩
      simp [(Pool.busy?_receive hq).1]
  · refine ⟨h.handler, h.settled.setWorker (by split <;> simp), h.completing, ?_⟩
    rcases h.content with ⟨ws, bs, hg⟩ | ho
    · rw [if_neg (by simp [hg.state])]
      have hw : waiting (s.setJournaler (.busy (.storing p))) = waiting s :=
        congrArg (· ++ _) (pendingPackets_took hp)
      refine .inl ⟨ws, bs, hg.state, ?_, hg.contains, hg.empty,
        by rw [hw]; exact hg.writes, by rw [hw]; exact hg.blocks⟩
      simp [Session.setJournaler, Pool.busy?_setWorker hp]
    · exact .inr ⟨ho.reset, .inl (ho.state.resolve_right (by simp [hp])), ho.outnumbered⟩
  · have hr : WasReset s := hreset (by simp [isStoring, hp])
    have hhead := attempt_of_ends (storePacket_keeps p _ rfl) ha
    have hset : ∀ w, w ≠ .done → (s.journalQueue.setWorker 0 w).Settled := fun w =>
      h.settled.setWorker
    rcases h.content with ⟨ws, bs, hg⟩ | ho
    · rcases storePacket_of_contains (hg.contains hr) ha with ⟨hok, hj⟩ | ⟨hno, hfull⟩
      · obtain ⟨-, rfl, -⟩ := hcase.resolve_right (by simp [hok])
        exact ⟨h.handler, hset _ (by simp), h.completing, .inl ⟨_, _, hg.stored hp hr hj⟩⟩
      · obtain ⟨-, rfl, -⟩ := hcase.resolve_left (by simp [hno])
        refine ⟨h.handler, hset _ (by simp), h.completing, .inr ⟨hr, .inr ?_, ?_⟩⟩
        · exact Pool.busy?_setWorker hp _
        · change Outnumbered a.1.header ps
          rw [hhead]
          exact hg.refused hp hfull
    · have hstate : s.state = .journalOverflow := ho.state.resolve_right (by simp [hp])
      have hout : Outnumbered a.1.header ps := hhead ▸ ho.outnumbered
      rcases hcase with ⟨-, rfl, -⟩ | ⟨-, rfl, -⟩
      · exact ⟨h.handler, hset _ (by simp), h.completing, .inr ⟨hr, .inl hstate, hout⟩⟩
      · exact ⟨h.handler, hset _ (by simp), h.completing, .inr ⟨hr, .inl hstate, hout⟩⟩
  · rcases h.content with ⟨ws, bs, hg⟩ | ho
    · exact absurd hp hg.busy
    · exact ⟨h.handler, h.settled.setWorker (by simp), h.completing,
        .inr ⟨ho.reset, .inl rfl, ho.outnumbered⟩⟩

/-! #### The reset, and what does not touch the journal -/

theorem Filling.moveStartHash (h : Filling ps s) (hc : Clearable s.machine.journal)
    (hm : s.moveStartHash = some s') : Filling ps s' := by
  have hnot := not_wasReset_of_startHash hm
  obtain ⟨ws, bs, hg⟩ := h.content.resolve_right fun ho => hnot ho.reset
  obtain ⟨rfl, rfl⟩ := hg.empty hnot
  have hcompleting : s.handler ≠ .drainingJournal .hashingCompleted := fun hs =>
    hnot (h.completing hs)
  rcases Session.moveStartHash_cases hm with ⟨-, rfl⟩ | ⟨-, a, ha, rfl⟩
  · rw [if_neg (by simp [hg.state])]
    refine ⟨h.handler, h.settled, fun hs => absurd hs hcompleting, .inl ⟨[], [], hg.state, hg.busy,
      fun hr => absurd rfl hr.2, fun _ => ⟨rfl, rfl⟩, hg.writes, hg.blocks⟩⟩
  · exact ⟨h.handler, h.settled, fun hs => absurd hs hcompleting, .inl ⟨[], [], hg.state, hg.busy,
      fun _ => (hc.attempt_resetTo ha).2, fun _ => ⟨rfl, rfl⟩, hg.writes, hg.blocks⟩⟩

/-- What a scan depends on. -/
structure Alike (s s' : Session) : Prop extends s.Frame s' where
  journal : s'.machine.journal = s.machine.journal
  reset : WasReset s' ↔ WasReset s

theorem Alike.pendingPackets (h : Alike s s') : pendingPackets s' = pendingPackets s := by
  rw [Server.pendingPackets, h.journalQueue]
  rfl

theorem Alike.waiting (h : Alike s s') : waiting s' = waiting s := by
  rw [Server.waiting, h.pendingPackets, h.handler]
  rfl

theorem Gathering.alike (h : Gathering ps ws bs s) (ha : Alike s s') : Gathering ps ws bs s' where
  state := ha.state.trans h.state
  busy := by rw [ha.journalQueue]; exact h.busy
  contains hr := by rw [ha.journal]; exact h.contains (ha.reset.mp hr)
  empty hn := h.empty fun hr => hn (ha.reset.mpr hr)
  writes := by rw [ha.waiting]; exact h.writes
  blocks := by rw [ha.waiting]; exact h.blocks

theorem Overfull.alike (h : Overfull ps s) (ha : Alike s s') : Overfull ps s' where
  reset := ha.reset.mpr h.reset
  state := by rw [ha.state, ha.journalQueue]; exact h.state
  outnumbered := by rw [ha.journal]; exact h.outnumbered

theorem Drainable.alike (h : Drainable s) (ha : Alike s s') : Drainable s' where
  busy := by rw [ha.journalQueue]; exact h.busy
  canStore := by rw [CanStore, ha.pendingPackets, ha.journal]; exact h.canStore
  reset := by rw [ha.pendingPackets, ha.reset]; exact h.reset

theorem Scanning.alike (h : Scanning ps s) (ha : Alike s s') : Scanning ps s' := by
  cases h with
  | draining hh hps hs h =>
      exact .draining (ha.handler.trans hh) hps (ha.state.trans hs) (h.alike ha)
  | awaiting hh hps hs hq =>
      exact .awaiting (ha.handler.trans hh) hps (ha.state.trans hs) (ha.journalQueue.trans hq)
  | filling h =>
      refine .filling ⟨by rw [ha.handler]; exact h.handler,
        by rw [ha.journalQueue]; exact h.settled,
        fun hs => ha.reset.mpr (h.completing (ha.handler.symm.trans hs)), ?_⟩
      exact h.content.imp (fun ⟨ws, bs, hg⟩ => ⟨ws, bs, hg.alike ha⟩) (·.alike ha)
  | writing hh hq hr h =>
      refine .writing (ha.handler.trans hh) (ha.journalQueue.trans hq) (ha.reset.mpr hr) ?_
      rw [ha.journal, ha.state]
      exact h
  | ended hh => exact .ended (ha.handler.trans hh)

/-! #### One move -/

theorem moveJournaler_start {n : ℕ} (hq : s.journalQueue = .start n) :
    s.moveJournaler sent = none := by
  have hb : s.journalQueue.busy? 0 = none := by
    rw [hq]
    cases n <;> rfl
  have hr : s.journalQueue.receive .took 0 = none := by
    rw [hq]
    cases n <;> rfl
  simp only [Session.moveJournaler, hb, hr, Option.map_none]

theorem Scanning.moveJournaler (h : Scanning ps s) (hreset : isStoring s = true → WasReset s)
    (hm : s.moveJournaler sent = some (s', qs)) : Scanning ps s' := by
  cases h with
  | draining hh hps hs h =>
      obtain ⟨hd, hs', hh'⟩ := h.moveJournaler hs hm
      exact .draining (hh'.trans hh) hps hs' hd
  | awaiting hh hps hs hq =>
      rw [moveJournaler_start hq] at hm
      cases hm
  | filling h => exact .filling (h.moveJournaler hreset hm)
  | writing hh hq hr h =>
      rw [moveJournaler_start hq] at hm
      cases hm
  | ended hh =>
      refine .ended (Eq.trans ?_ hh)
      rcases Session.moveJournaler_cases hm with ⟨q, -, rfl, -⟩ | ⟨p, -, -, rfl⟩ |
        ⟨p, a, -, -, ⟨-, rfl, -⟩ | ⟨-, rfl, -⟩⟩ | ⟨-, -, rfl⟩ <;> rfl

theorem Scanning.moveStartHash (h : Scanning ps s) (hc : Clearable s.machine.journal)
    (hm : s.moveStartHash = some s') : Scanning ps s' := by
  have hf := Session.frame_moveStartHash hm
  cases h with
  | draining hh hps hs h =>
      exact .draining (hf.handler.trans hh) hps (hf.state.trans hs) (h.moveStartHash hm)
  | awaiting hh hps hs hq =>
      exact .awaiting (hf.handler.trans hh) hps (hf.state.trans hs) (hf.journalQueue.trans hq)
  | filling h => exact .filling (h.moveStartHash hc hm)
  | writing hh hq hr h => exact absurd hr (not_wasReset_of_startHash hm)
  | ended hh => exact .ended (hf.handler.trans hh)

/-- The last packet of the scan has been stored. -/
theorem Filling.finished (h : Filling ps s) (hh : s.handler = .drainingJournal .hashingCompleted)
    (hf : s.journalQueue.Finished) :
    Contains s.machine.journal (writesOf ps) (blocksOf ps) ∨
      s.state = .journalOverflow ∧ Outnumbered s.machine.journal.header ps := by
  have hb := hf.busy? 0
  have hwait : waiting s = [] := by
    simp [waiting, pendingPackets, hb, hh, Handler.carried, (h.settled.finished hf).2]
  rcases h.content with ⟨ws, bs, hg⟩ | ho
  · have hws : ws = writesOf ps := by
      rw [← hg.writes, hwait]
      exact (List.append_nil ws).symm
    have hbs : bs = blocksOf ps := by
      rw [← hg.blocks, hwait]
      exact (List.append_nil bs).symm
    exact .inl (hws ▸ hbs ▸ hg.contains (h.completing hh))
  · exact .inr ⟨ho.state.resolve_right (by simp [hb]), ho.outnumbered⟩

/-- A packet that `HandleClient` has passed on waits in the queue. -/
theorem Filling.enqueue (h : Filling ps s) {queue : Queue} {p : Packet}
    (hh : s.handler = .enqueueing queue p) (he : s.enqueue p queue = some s') :
    Filling ps { s' with handler := .receiving } := by
  cases queue with
  | journal =>
      obtain ⟨q, hq, rfl⟩ := Option.map_eq_some_iff.mp he
      obtain ⟨-, hq'⟩ := Pool.send_eq_some.mp hq
      have hb : q.busy? 0 = s.journalQueue.busy? 0 := by rw [← hq']; rfl
      have hw : waiting { s with journalQueue := q, handler := .receiving } = waiting s := by
        simp only [waiting, pendingPackets, hb, hh, Handler.carried, List.append_nil]
        rw [← hq']
        split <;> simp
      refine ⟨rfl, h.settled.send hq, by rintro ⟨⟩, ?_⟩
      rcases h.content with ⟨ws, bs, hg⟩ | ho
      · exact .inl ⟨ws, bs, hg.state, by rw [hb]; exact hg.busy, hg.contains, hg.empty,
          by rw [hw]; exact hg.writes, by rw [hw]; exact hg.blocks⟩
      · exact .inr ⟨ho.reset, by rw [hb]; exact ho.state, ho.outnumbered⟩
  | write | correct | replication =>
      obtain ⟨q, -, rfl⟩ := Option.map_eq_some_iff.mp he
      refine ⟨rfl, h.settled, by rintro ⟨⟩,
        h.content.imp ?_ fun ho => ⟨ho.reset, ho.state, ho.outnumbered⟩⟩
      rintro ⟨ws, bs, hg⟩
      have hw := hg.writes
      have hb := hg.blocks
      simp only [waiting, hh, Handler.carried] at hw hb
      exact ⟨ws, bs, hg.state, hg.busy, hg.contains, hg.empty, hw, hb⟩

theorem Scanning.filling_of_collects (h : Scanning ps s) (hs : s.handler.collects = true) :
    Filling ps s := by
  cases h with
  | filling h => exact h
  | draining hh | awaiting hh | writing hh | ended hh =>
      rw [hh] at hs
      cases hs

theorem Scanning.moveHandler (h : Scanning ps s) (hne : s.handler ≠ .settingWriting)
    (hm : s.moveHandler numWorkers sent = some (s', qs)) : Scanning ps s' := by
  cases Session.moveHandler_cases hm with
  | enqueued hh he => exact .filling ((h.filling_of_collects (by rw [hh]; rfl)).enqueue hh he)
  | scanDrained hh hf =>
      have h := h.filling_of_collects (by rw [hh]; rfl)
      exact .writing rfl rfl (h.completing hh) (h.finished hh hf)
  | journalSkipped | journalWritten => exact .ended rfl
  | writingSet hh => exact absurd hh hne
  | journalDrained hh =>
      cases h with
      | draining _ hps hs => exact .awaiting rfl hps hs rfl
      | filling h => cases hh ▸ h.handler
      | awaiting hh' | writing hh' | ended hh' => cases hh.symm.trans hh'
  | hashStarted hh =>
      cases h with
      | awaiting _ hps hs hq =>
          subst hps
          refine .filling ⟨rfl, ?_, by rintro ⟨⟩, .inl ⟨[], [], hs, ?_, fun hr => absurd rfl hr.1,
            fun _ => ⟨rfl, rfl⟩, ?_, ?_⟩⟩
          · rw [hq]
            exact Pool.settled_start Nat.one_pos
          all_goals simp [hq, waiting, pendingPackets, Pool.start, Pool.busy?, Handler.carried]
      | filling h => cases hh ▸ h.handler
      | draining hh' | writing hh' | ended hh' => cases hh.symm.trans hh'
  | replicationStarted hh | replicationEnded hh =>
      cases h with
      | filling h => cases hh ▸ h.handler
      | draining hh' | awaiting hh' | writing hh' | ended hh' =>
          cases hh.symm.trans hh'

/-- What is received during a scan and belongs to it is passed on to the journal's queue. -/
theorem carried_of_route {queue : Queue} {p : Packet} (hr : route .hashing p = some queue) :
    writesOf (Handler.enqueueing queue p).carried = writesOf [p] ∧
      blocksOf (Handler.enqueueing queue p).carried = blocksOf [p] := by
  cases p <;> cases hr <;> exact ⟨rfl, rfl⟩

theorem nil_of_route {p : Packet} (hr : route .hashing p = none) :
    writesOf [p] = [] ∧ blocksOf [p] = [] := by
  cases p <;> first | exact ⟨rfl, rfl⟩ | cases hr

theorem Filling.receive (h : Filling ps s) (hs : s.handler = .receiving) {p : Packet}
    (hdata : Session.IsControl p = false) : Filling (ps ++ [p]) (s.receive p) := by
  have hwait : waiting s = pendingPackets s := by simp [waiting, hs, Handler.carried]
  rcases Session.receive_of_data hdata s with ⟨queue, hr, heq⟩ | ⟨hr, heq⟩
  · rw [heq]
    refine ⟨rfl, h.settled, by rintro ⟨⟩, ?_⟩
    rcases h.content with ⟨ws, bs, hg⟩ | ho
    · obtain ⟨hw, hb⟩ := carried_of_route (hg.state ▸ hr)
      refine .inl ⟨ws, bs, hg.state, hg.busy, hg.contains, hg.empty, ?_, ?_⟩
      · rw [writesOf_append, ← hg.writes, hwait, ← hw, List.append_assoc, ← writesOf_append]
        rfl
      · rw [blocksOf_append, ← hg.blocks, hwait, ← hb, List.append_assoc, ← blocksOf_append]
        rfl
    · exact .inr ⟨ho.reset, ho.state, ho.outnumbered.append [p]⟩
  · rw [heq]
    refine ⟨h.handler, h.settled, h.completing, ?_⟩
    rcases h.content with ⟨ws, bs, hg⟩ | ho
    · obtain ⟨hw, hb⟩ := nil_of_route (hg.state ▸ hr)
      refine .inl ⟨ws, bs, { hg with writes := ?_, blocks := ?_ }⟩
      · rw [writesOf_append, hw, List.append_nil]
        exact hg.writes
      · rw [blocksOf_append, hb, List.append_nil]
        exact hg.blocks
    · exact .inr ⟨ho.reset, ho.state, ho.outnumbered.append [p]⟩

/-- The end of the scan. -/
theorem Filling.complete (h : Filling ps s) (hs : s.handler = .receiving) (hr : WasReset s) :
    Filling (ps ++ [.infoHashingCompleted]) (s.receive .infoHashingCompleted) := by
  have hw : waiting (s.receive .infoHashingCompleted) = waiting s := by
    simp only [waiting, hs, Session.receive, Handler.carried]
    rfl
  refine ⟨rfl, h.settled.close, fun _ => hr, ?_⟩
  rcases h.content with ⟨ws, bs, hg⟩ | ho
  · refine .inl ⟨ws, bs, hg.state, hg.busy, hg.contains, hg.empty, ?_, ?_⟩
    · rw [hw, writesOf_append, hg.writes]
      exact (List.append_nil _).symm
    · rw [hw, blocksOf_append, hg.blocks]
      exact (List.append_nil _).symm
  · exact .inr ⟨ho.reset, ho.state, ho.outnumbered.append _⟩

theorem Drainable.receive (h : Drainable s) : Scanning [] (s.receive .cmdStartHashing) :=
  .draining rfl rfl rfl ⟨h.busy, h.canStore, h.reset⟩

end Moves

/-! ### Whole runs -/

section Runs
variable {hash : List UInt8 → UInt64} {numWorkers : ℕ} {s s' : Session} {qs : List Packet}

/-- **The journal can be cleared up to its offsets**, whatever the session does. -/
theorem clearable_move {m : SessionMove} (hc : Clearable s.machine.journal)
    (hm : s.move hash numWorkers m = some (s', qs)) : Clearable s'.machine.journal := by
  cases Session.move_cases hm with
  | @receive p _ =>
      cases hp : Session.IsControl p with
      | false =>
          rcases Session.receive_of_data hp s with ⟨queue, -, heq⟩ | ⟨-, heq⟩ <;> rw [heq] <;>
            exact hc
      | true => cases p <;> first | exact hc | cases hp
  | handler ht =>
      cases Session.moveHandler_cases ht with
      | enqueued hh he => exact Session.machine_enqueue he ▸ hc
      | journalWritten hh hs hr =>
          exact attempt_of_ends (Clearable.keeps_writeJournalToReplica _ hc) hr
      | _ => exact hc
  | journaler ht =>
      rcases Session.moveJournaler_cases ht with ⟨q, -, rfl, -⟩ | ⟨p, -, -, rfl⟩ |
        ⟨p, a, -, ha, ⟨-, rfl, -⟩ | ⟨-, rfl, -⟩⟩ | ⟨-, -, rfl⟩
      · exact hc
      · exact hc
      · exact hc.storePacket ha
      · exact hc.storePacket ha
      · exact hc
  | writer ht => exact (journal_moveWriter ht).1 ▸ hc
  | corrector ht => exact (journal_moveCorrector ht).1 ▸ hc
  | replicator ht => exact (journal_moveReplicator ht).1 ▸ hc
  | startHash ht =>
      rcases Session.moveStartHash_cases ht with ⟨-, rfl⟩ | ⟨-, a, ha, rfl⟩
      · exact hc
      · exact (hc.attempt_resetTo ha).1
  | hash _ => exact hc

/-- A session with its record, between two moves. -/
structure Sound (w : Collected) : Prop where
  clearable : Clearable w.session.machine.journal
  scanning : ∀ ps, w.scan = some ps → Scanning ps w.session

theorem Sound.exact {w : Collected} (h : Sound w) : w.Exact := by
  intro ps hps hh
  cases h.scanning ps hps with
  | writing _ _ _ h => exact h
  | filling h => cases hh ▸ h.handler
  | draining hh' | awaiting hh' | ended hh' => cases hh.symm.trans hh'

theorem alike_of_frame (hf : s.Frame s')
    (hj : s'.machine.journal = s.machine.journal ∧ s'.hashDisk = s.hashDisk) : Alike s s' :=
  ⟨hf, hj.1, by rw [WasReset, hj.2]; rfl⟩

theorem Sound.receive {w : Collected} (h : Sound w) {p : Packet}
    (hs : w.session.handler = .receiving) (hc : orderly w (.receive p)) :
    ∀ ps, w.record (.receive p) = some ps → Scanning ps (w.session.receive p) := by
  intro ps hps
  have hdata : Session.IsControl p = false → w.record (.receive p) = w.scan.map (· ++ [p]) := by
    intro hp
    cases p <;> first | rfl | cases hp
  cases hp : Session.IsControl p with
  | false =>
      rw [hdata hp] at hps
      obtain ⟨qs, hqs, rfl⟩ := Option.map_eq_some_iff.mp hps
      exact .filling (((h.scanning qs hqs).filling_of_collects (by rw [hs]; rfl)).receive hs hp)
  | true =>
      cases p with
      | cmdStartHashing =>
          cases hps
          exact Drainable.receive hc
      | infoHashingCompleted =>
          obtain ⟨qs, hqs, rfl⟩ := Option.map_eq_some_iff.mp hps
          have hf := (h.scanning qs hqs).filling_of_collects (by rw [hs]; rfl)
          exact .filling (hf.complete hs (hc (by simp [hqs])))
      | cmdStartFullScan | infoStartReplication | infoReplicationCompleted => cases hps
      | _ => cases hp

theorem Sound.step {w w' : Collected} (h : Sound w) {m : SessionMove} (hc : orderly w m)
    (hm : w.step hash numWorkers m = some w') : Sound w' := by
  obtain ⟨⟨s', qs⟩, hmove, rfl⟩ := Option.map_eq_some_iff.mp hm
  refine ⟨clearable_move h.clearable hmove, fun ps hps => ?_⟩
  cases Session.move_cases hmove with
  | receive hs => exact h.receive hs hc ps hps
  | handler hs' =>
      simp only [Collected.record, Option.ite_none_left_eq_some] at hps
      exact (h.scanning ps hps.2).moveHandler hps.1 hs'
  | journaler hs' =>
      exact (h.scanning ps hps).moveJournaler (hc (by simp [show w.scan = some ps from hps])) hs'
  | writer hs' =>
      exact (h.scanning ps hps).alike
        (alike_of_frame (Session.frame_moveWriter hs') (journal_moveWriter hs'))
  | corrector hs' =>
      exact (h.scanning ps hps).alike
        (alike_of_frame (Session.frame_moveCorrector hs') (journal_moveCorrector hs'))
  | replicator hs' =>
      exact (h.scanning ps hps).alike
        (alike_of_frame (Session.frame_moveReplicator hs') (journal_moveReplicator hs'))
  | startHash hs' => exact (h.scanning ps hps).moveStartHash h.clearable hs'
  | hash hs' =>
      obtain ⟨hr, hr'⟩ := wasReset_of_hash hs'
      exact (h.scanning ps hps).alike ⟨⟨rfl, rfl, rfl⟩, rfl, iff_of_true hr' hr⟩

theorem clearable_of_new {disk : Device} {a b c : UInt64} {j₀ j : Journal}
    (hplan : disk.plan = []) (hb : 12 ≤ b.toNat) (hc : 12 ≤ c.toNat)
    (hnew : newJournal disk a b c = .ok j₀) (hinit : initWithoutClearing j₀ = .ok () j) :
    Clearable j := by
  have hd := (newJournal_eq_ok hnew).1
  have hsize : 64 ≤ disk.size := by
    rw [← hd]
    exact (invalidate_eq_ok hinit).1
  obtain ⟨hl, rfl, -, hwo, hco⟩ := newJournal_ok hnew hsize hb hc
  have hstart : Clearable j₀ :=
    ⟨hl, hplan, hwo.le, hco.le, fun i hi hle => absurd (hwo.ge.trans hle) (Nat.not_le.mpr hi),
      fun i hi hle => absurd (hco.ge.trans hle) (Nat.not_le.mpr hi)⟩
  rw [initWithoutClearing, invalidate_apply hplan hsize] at hinit
  cases hinit
  exact hstart.withHeader rfl rfl

/-- **The journal of a scan holds what was received for it**, in order, or the server knows of an
overflow that is one: in every run in which the entries of a scan are stored after its reset of the
journal, and a scan begins when what is left of the one before can be stored. -/
theorem collected_of_orderly {disk target : Device} {a b c : UInt64} {j₀ j : Journal}
    {moves : List SessionMove} {w : Collected} (hplan : disk.plan = []) (hb : 12 ≤ b.toNat)
    (hc : 12 ≤ c.toNat) (hnew : newJournal disk a b c = .ok j₀)
    (hinit : initWithoutClearing j₀ = .ok () j)
    (hrun : Run (Collected.step hash numWorkers) orderly ⟨.start ⟨target, j⟩, none⟩ moves w) :
    w.Exact := by
  have hstart : Sound ⟨.start ⟨target, j⟩, none⟩ :=
    ⟨clearable_of_new hplan hb hc hnew hinit, nofun⟩
  exact (hrun.invariant (I := Sound) (fun _ _ _ h hm hs => h.step hm hs) hstart).exact

end Runs

/-! ### One slot of each kind -/

instance (s : Session) : Decidable (Drainable s) :=
  decidable_of_iff (s.journalQueue.busy? 0 ≠ some .overflowing ∧ CanStore s ∧
    (pendingPackets s = [] ∨ WasReset s))
    ⟨fun h => ⟨h.1, h.2.1, h.2.2⟩, fun h => ⟨h.busy, h.canStore, h.reset⟩⟩

instance (w : Collected) (m : SessionMove) : Decidable (orderly w m) :=
  match m with
  | .receive packet =>
      match packet with
      | .cmdStartHashing => inferInstanceAs (Decidable (Drainable w.session))
      | .infoHashingCompleted => inferInstanceAs (Decidable (_ → WasReset w.session))
      | .cmdStartFullScan | .cmdStartFullReplication | .infoStartHashing | .infoInit _
      | .infoReplicationCompleted | .infoStartReplication | .errInit | .errInvalidSizes | .errHash
      | .errJournalCreate | .errJournalOverflow | .payloadBufferWrite _ | .payloadHash _
      | .payloadCorrectBlock _ | .payloadReplicationBlock _ => isTrue trivial
  | .journaler _ => inferInstanceAs (Decidable (_ → _ → WasReset w.session))
  | .handler _ | .writer | .corrector | .replicator _ | .startHash | .hash _ => isTrue trivial

instance (h : Header) (ps : List Packet) : Decidable (Outnumbered h ps) :=
  inferInstanceAs (Decidable (_ ∨ _))

/-- A session with a new journal of one slot of each kind. -/
def newSession : Session :=
  .start ⟨tightMachine.target, tightJournal.withHeader tightJournal.header.setInvalidFlag⟩

/-- A scan with a buffer write and a correct block, which are stored after the reset. -/
def orderlyScan : List SessionMove :=
  [.receive .cmdStartHashing, .handler .ok, .handler .ok, .startHash, .startHash,
    .receive (.payloadBufferWrite ⟨0, 1, [5]⟩), .handler .ok,
    .receive (.payloadCorrectBlock ⟨0, 1, [6]⟩), .handler .ok,
    .journaler .ok, .journaler .ok, .journaler .ok, .journaler .ok, .journaler .ok, .journaler .ok,
    .receive .infoHashingCompleted, .journaler .ok, .handler .ok]

theorem collected_of_orderly_orderlyScan : ∃ w ps,
    Run (Collected.step (fun _ => 3) 1) orderly ⟨newSession, none⟩ orderlyScan w ∧
      w.scan = some ps ∧ w.session.handler = .writingJournal ∧ w.Exact := by
  obtain ⟨w, hw, hat⟩ := exists_exec
    (P := fun w : Collected => w.scan.isSome && decide (w.session.handler = .writingJournal))
    (show (exec (guarded (Collected.step (fun _ => 3) 1) orderly) ⟨newSession, none⟩
      orderlyScan).any _ = true by decide +kernel)
  obtain ⟨hscan, hh⟩ := Bool.and_eq_true_iff.mp hat
  obtain ⟨ps, hps⟩ := Option.isSome_iff_exists.mp hscan
  have hrun := Run.of_exec_guarded hw
  have hnew : newJournal (sevens 90 (by decide)) 13 13 13 = .ok tightJournal := rfl
  have hinit := invalidate_apply (j := tightJournal) rfl (by decide)
  exact ⟨w, ps, hrun, hps, of_decide_eq_true hh,
    collected_of_orderly rfl (by decide) (by decide) hnew hinit hrun⟩

/-- A write is stored before the reset: the offsets are those of a full journal. -/
def earlyWrite : List SessionMove :=
  [.receive .cmdStartHashing, .handler .ok, .handler .ok,
    .receive (.payloadBufferWrite ⟨0, 1, [5]⟩), .handler .ok,
    .journaler .ok, .journaler .ok, .journaler .ok, .journaler .ok, .startHash, .startHash,
    .receive .infoHashingCompleted, .journaler .ok, .handler .ok]

/-- In a second scan, which finds the journal empty, it is erased. -/
def erasedWrite : List SessionMove :=
  [.receive .cmdStartHashing, .handler .ok, .handler .ok, .startHash, .startHash,
    .receive .infoHashingCompleted, .journaler .ok, .handler .ok, .handler .ok, .handler .ok,
    .receive .cmdStartHashing, .handler .ok, .hash (.announce .ok), .hash .generator,
    .hash (.reader 0 false), .hash .closeWork, .hash (.hasher 0), .hash .closeResults,
    .hash (.sender 0 .ok), .hash (.complete .ok), .handler .ok,
    .receive (.payloadBufferWrite ⟨0, 1, [5]⟩), .handler .ok,
    .journaler .ok, .journaler .ok, .journaler .ok, .startHash, .startHash,
    .receive .infoHashingCompleted, .journaler .ok, .handler .ok]

/-- The journal misses a buffer write, although there are slots enough. -/
def fallsShort (w : Collected) : Bool :=
  decide (w.session.handler = .writingJournal) && w.scan.any fun ps =>
    decide (w.session.machine.journal.writeOffset ≠ (writesOf ps).length ∧
      ¬ Outnumbered w.session.machine.journal.header ps)

theorem not_exact_of_fallsShort {w : Collected} (h : fallsShort w = true) : ¬ w.Exact := by
  intro hw
  obtain ⟨hh, hscan⟩ := Bool.and_eq_true_iff.mp h
  obtain ⟨ps, hps, hat⟩ := (Option.any_eq_true _ _).mp hscan
  obtain ⟨hlen, hout⟩ := of_decide_eq_true hat
  rcases hw ps hps (of_decide_eq_true hh) with hc | ⟨-, ho⟩
  · exact hlen hc.writeOffset
  · exact hout ho

/-- An entry that is stored before the reset is lost: to an overflow that is none, or to the
reset. -/
theorem not_exact_of_early :
    (∃ w, exec (Collected.step (fun _ => 3) 1) ⟨newSession, none⟩ earlyWrite = some w ∧
      w.session.state = .journalOverflow ∧ ¬ w.Exact) ∧
    ∃ w, exec (Collected.step (fun _ => 3) 1) ⟨newSession, none⟩ erasedWrite = some w ∧
      w.session.state = .hashing ∧ ¬ w.Exact := by
  obtain ⟨w, hw, hat⟩ := exists_exec
    (P := fun w : Collected => decide (w.session.state = .journalOverflow) && fallsShort w)
    (show (exec (Collected.step (fun _ => 3) 1) ⟨newSession, none⟩ earlyWrite).any _ = true by
      decide +kernel)
  obtain ⟨w', hw', hat'⟩ := exists_exec
    (P := fun w : Collected => decide (w.session.state = .hashing) && fallsShort w)
    (show (exec (Collected.step (fun _ => 3) 1) ⟨newSession, none⟩ erasedWrite).any _ = true by
      decide +kernel)
  obtain ⟨hs, hshort⟩ := Bool.and_eq_true_iff.mp hat
  obtain ⟨hs', hshort'⟩ := Bool.and_eq_true_iff.mp hat'
  exact ⟨⟨w, hw, of_decide_eq_true hs, not_exact_of_fallsShort hshort⟩,
    w', hw', of_decide_eq_true hs', not_exact_of_fallsShort hshort'⟩

end Bdr.Server
