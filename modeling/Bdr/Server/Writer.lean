import Bdr.Server.HashTiling
import Bdr.Server.Session

/-!
# Server — the writer

`HandleWritePackets` writes the buffer writes to the replica, in the order in which `HandleClient`
passes them on, and tries each until it succeeds.  Between the two they are in the handler's hand,
in the queue or in the writer's hand (`queued`).

While the server is in `StateWriting` none is dropped: the replica is what it was at first with
those that are no longer on their way applied, and a part of the one that is being written
(`Wrote`).
-/

namespace Bdr.Server

open Journal

/-- The packet that the writer has in its hand. -/
def WriteTask.packet : WriteTask → Packet
  | .took packet | .writing packet => packet

/-- What `HandleClient` is about to pass on to the writer. -/
def Handler.toWriter : Handler → List Packet
  | .enqueueing .write packet => [packet]
  | _ => []

namespace Session

/-- The packets on their way to the replica, oldest first. -/
def queued (s : Session) : List Packet :=
  ((s.writeQueue.busy? 0).map WriteTask.packet).toList ++ s.writeQueue.queue ++ s.handler.toWriter

/-- The write that is being tried. -/
def trying (s : Session) : List (Patch UInt8) :=
  match s.writeQueue.busy? 0 with
  | some (.writing packet) => writes [packet]
  | _ => []

/-- The replica is `base` with `done` written to it, and a part of the write that is being tried. -/
def Wrote (base : Image UInt8) (done : List (Patch UInt8)) (s : Session) : Prop :=
  ∃ k, s.machine.target.bytes = (base.applyAll done).applyAll (s.trying.map (·.torn k))

section Writer
variable {s s' : Session} {base : Image UInt8} {done : List (Patch UInt8)}

theorem wrote_of_trying (h : s.trying = []) :
    s.Wrote base done ↔ s.machine.target.bytes = base.applyAll done := by
  simp [Wrote, h]

/-- What a write to the target leaves. -/
theorem attempt_targetWriteAt {step : ReplayStep} {off : ℕ} {data : List UInt8} {m : Machine}
    {r : Machine × Bool} (h : attempt (targetWriteAt step off data) m = some r) :
    ∃ d written, m.target.writeAt off data = (d, written) ∧ r.1 = { m with target := d } ∧
      (r.2 = true ↔ written = .ok) := by
  rw [attempt, targetWriteAt] at h
  cases hw : m.target.writeAt off data with
  | mk d written =>
      rw [hw] at h
      refine ⟨d, written, rfl, ?_⟩
      cases written with
      | ok =>
          cases h
          exact ⟨rfl, by simp⟩
      | failed =>
          cases h
          exact ⟨rfl, by simp⟩
      | dead => cases h

/-- A block that lies on a device that takes every write is written. -/
theorem attempt_of_fits {step : ReplayStep} {off : ℕ} {data : List UInt8} {m : Machine}
    {r : Machine × Bool} (hplan : m.target.plan = []) (hfits : off + data.length ≤ m.target.size)
    (h : attempt (targetWriteAt step off data) m = some r) :
    r.2 = true ∧ r.1 = { m with target := m.target.store off data } := by
  obtain ⟨d, written, hw, hr, hok⟩ := attempt_targetWriteAt h
  rw [Device.writeAt_of_le hplan hfits] at hw
  cases hw
  exact ⟨hok.mpr rfl, hr⟩

/-- A buffer write is a write of `Data[:Size]` to the target, or the server goes down. -/
theorem attempt_writeBufferWrite_eq {w : WriteInfo} {m : Machine} {r : Machine × Bool}
    (h : attempt (writeBufferWriteToReplica w) m = some r) :
    attempt (targetWriteAt .writeBufferWrite w.patch.offset w.patch.data) m = some r := by
  by_cases hsize : w.size.toNat ≤ w.data.length
  · have hdata : dataToWrite w m = .ok (w.data.take w.size.toNat) m := by
      simp only [dataToWrite, slice, if_pos (⟨Nat.zero_le _, hsize⟩ : 0 ≤ _ ∧ _)]
      rfl
    have heq : writeBufferWriteToReplica w m =
        targetWriteAt .writeBufferWrite w.patch.offset w.patch.data m := bind_of_ok hdata
    rwa [attempt, heq] at h
  · -- the slice is out of range
    have hdata : dataToWrite w m = .error .panic m := by
      simp only [dataToWrite, slice, if_neg (fun h : 0 ≤ _ ∧ _ => hsize h.2)]
      rfl
    have heq : writeBufferWriteToReplica w m = .error .panic m := by
      simp only [writeBufferWriteToReplica, Bind.bind, EStateM.bind, hdata]
    rw [attempt, heq] at h
    cases h

/-- What a buffer write does to the replica. -/
theorem attempt_writeBufferWrite {w : WriteInfo} {m : Machine} {r : Machine × Bool}
    (h : attempt (writeBufferWriteToReplica w) m = some r) :
    (r.2 = true → r.1.target.bytes = m.target.bytes.apply w.patch) ∧
      ∃ n, r.1.target.bytes = m.target.bytes.apply (w.patch.torn n) := by
  obtain ⟨d, written, hw, hr, hok⟩ := attempt_targetWriteAt (attempt_writeBufferWrite_eq h)
  obtain ⟨hwritten, hpart⟩ := Device.bytes_writeAt hw
  rw [hr]
  exact ⟨fun hret => hwritten (hok.mp hret), hpart⟩

/-- A move of the writer tries a write, or leaves those on their way as they are. -/
theorem moveWriter_queued (hstate : s.state = .writing) (hs : s.moveWriter = some s') :
    ((∀ w, s.writeQueue.busy? 0 ≠ some (.writing (.payloadBufferWrite w))) ∧
      s'.machine = s.machine ∧ writes s'.queued = writes s.queued) ∨
    ∃ w r, s.writeQueue.busy? 0 = some (.writing (.payloadBufferWrite w)) ∧
      attempt (writeBufferWriteToReplica w) s.machine = some r ∧ s'.machine = r.1 ∧
      (r.2 = true ∧ s'.trying = [] ∧ writes s.queued = w.patch :: writes s'.queued ∨
        r.2 = false ∧ s'.trying = s.trying ∧ s'.queued = s.queued) := by
  rcases moveWriter_cases hs with ⟨q, hq, rfl⟩ | ⟨p, hp, rfl⟩ | ⟨p, hp, hcases⟩
  · -- a packet goes from the queue into the writer's hand
    obtain ⟨hb, hcases⟩ := Pool.busy?_receive hq
    refine .inl ⟨by simp [hb], rfl, ?_⟩
    rcases hcases with ⟨a, hqueue, hb'⟩ | ⟨hqueue, hqueue', hb'⟩
    · simp [queued, hb, hb', hqueue, WriteTask.packet]
    · simp [queued, hb, hb', hqueue, hqueue']
  · -- it begins to try
    refine .inl ⟨by simp [hp], rfl, ?_⟩
    have hb' : (s.setWriter (.busy (.writing p))).writeQueue.busy? 0 = some (.writing p) :=
      Pool.busy?_setWorker hp _
    simp only [if_pos hstate, queued, hp, hb']
    rfl
  · have hb' : (s.setWriter .ranging).writeQueue.busy? 0 = none := Pool.busy?_setWorker hp _
    have hqueued : s.queued = p :: (s.setWriter .ranging).queued := by
      simp only [queued, hp, hb']
      rfl
    rcases hcases with ⟨hne, rfl⟩ | ⟨w, r, rfl, hr, rfl⟩
    · -- it is not a buffer write: there is nothing to do
      refine .inl ⟨fun w hw => ?_, rfl, ?_⟩
      · cases hp.symm.trans hw
        exact hne w rfl
      · rw [hqueued, writes_cons_of_ne hne]
    · refine .inr ⟨w, r, hp, hr, ?_⟩
      by_cases hret : r.2 = true
      · rw [if_pos hret]
        refine ⟨rfl, .inl ⟨hret, by simp [trying, hb'], ?_⟩⟩
        rw [hqueued, writes_cons_bufferWrite]
        rfl
      · rw [if_neg hret]
        exact ⟨rfl, .inr ⟨by simpa using hret, rfl, rfl⟩⟩

/-- Nothing is being tried. -/
theorem trying_of_ne (h : ∀ w, s.writeQueue.busy? 0 ≠ some (.writing (.payloadBufferWrite w))) :
    s.trying = [] := by
  unfold trying
  split
  · rename_i packet hp
    exact writes_cons_of_ne (fun w hw => h w (by rw [hp, hw])) []
  · rfl

/-- **Writes are applied in order.**  A move of the writer in `StateWriting` finishes the write that
is the oldest on its way, or leaves those on their way as they are. -/
theorem Wrote.moveWriter (h : s.Wrote base done) (hstate : s.state = .writing)
    (hs : s.moveWriter = some s') :
    ∃ done', s'.Wrote base done' ∧ done ++ writes s.queued = done' ++ writes s'.queued := by
  rcases moveWriter_queued hstate hs with ⟨hne, hm, hq⟩ | ⟨w, r, hb, hr, hm, hcases⟩
  · refine ⟨done, ⟨0, ?_⟩, by rw [hq]⟩
    rw [hm, (wrote_of_trying (trying_of_ne hne)).mp h, Image.applyAll_torn_zero]
  · have htrying : s.trying = [w.patch] := by simp [trying, hb]
    obtain ⟨k, hbytes⟩ := h
    rw [htrying] at hbytes
    obtain ⟨hok, n, hpart⟩ := attempt_writeBufferWrite hr
    rcases hcases with ⟨hret, htry', hq⟩ | ⟨-, htry', hq⟩
    · refine ⟨done ++ [w.patch], (wrote_of_trying htry').mpr ?_, by rw [hq]; simp⟩
      rw [hm, hok hret, hbytes, Image.applyAll_append]
      exact Image.apply_torn_apply _ _ _
    · refine ⟨done, ⟨max k n, ?_⟩, by rw [hq]⟩
      rw [htry', htrying, hm, hpart, hbytes]
      exact Image.apply_torn_torn _ _ _ _

/-- The writer finishes a write. -/
def finishes (s : Session) : Bool :=
  match s.writeQueue.busy? 0 with
  | some (.writing (.payloadBufferWrite w)) =>
      (attempt (writeBufferWriteToReplica w) s.machine).any (·.2)
  | _ => false

/-- **On a device that takes every write the writer never has to try again**, if the writes lie on
it. -/
theorem moveWriter_of_fits (hstate : s.state = .writing) (hplan : s.machine.target.plan = [])
    (hfits : ∀ w ∈ writes s.queued, w.offset + w.data.length ≤ s.machine.target.size)
    (hs : s.moveWriter = some s') :
    s.finishes = false ∧ s'.machine = s.machine ∧ writes s'.queued = writes s.queued ∨
      s.finishes = true ∧ ∃ w, writes s.queued = w :: writes s'.queued ∧
        s'.machine = { s.machine with target := s.machine.target.store w.offset w.data } := by
  rcases moveWriter_queued hstate hs with ⟨hne, hm, hq⟩ | ⟨w, r, hb, hr, hm, hcases⟩
  · refine .inl ⟨?_, hm, hq⟩
    unfold finishes
    split
    · rename_i w hw
      exact absurd hw (hne w)
    · rfl
  · have hmem : w.patch ∈ writes s.queued := by simp [queued, hb, WriteTask.packet]
    obtain ⟨hret, hr'⟩ := attempt_of_fits hplan (hfits _ hmem) (attempt_writeBufferWrite_eq hr)
    refine .inr ⟨by simp [finishes, hb, hr, hret], w.patch, ?_, by rw [hm, hr']⟩
    rcases hcases with ⟨-, -, hq⟩ | ⟨hfailed, -⟩
    · exact hq
    · cases hret.symm.trans hfailed

end Writer

/-! ### A session that only writes -/

/-- The session is in `StateWriting`, and has nothing to do but to write. -/
structure OnlyWrites (s : Session) : Prop where
  state : s.state = .writing
  handler : s.handler = .receiving ∨ ∃ packet, s.handler = .enqueueing .write packet
  correct : s.correctQueue.Idle
  journal : s.journalQueue.workers = []
  replication : s.replicationQueue.workers = []
  hash : s.hashDisk.phase = .returned

theorem onlyWrites_start (machine : Machine) : (start machine).OnlyWrites :=
  ⟨rfl, .inl rfl, Pool.all_start 1, rfl, rfl, rfl⟩

section OnlyWrites
variable {s s' : Session} {base : Image UInt8} {done : List (Patch UInt8)} {m : SessionMove}
variable {hash : List UInt8 → UInt64} {numWorkers : ℕ} {ps : List Packet}

theorem OnlyWrites.moveWriter (h : s.OnlyWrites) (hs : s.moveWriter = some s') :
    s'.OnlyWrites := by
  rcases moveWriter_cases hs with ⟨q, -, rfl⟩ | ⟨p, -, rfl⟩ | ⟨p, -, ⟨-, rfl⟩ | ⟨w, r, -, -, rfl⟩⟩
  · exact { h with }
  · exact { h with }
  · exact { h with }
  · split <;> exact { h with }

/-- The other goroutines pass the writes on, and do not touch the replica. -/
theorem OnlyWrites.passes (h : s.OnlyWrites) (hm : m ≠ .writer)
    (hw : ∀ packet, m = .receive packet → ∃ w, packet = .payloadBufferWrite w)
    (hs : s.move hash numWorkers m = some (s', ps)) :
    s'.OnlyWrites ∧ ps = [] ∧ s'.machine = s.machine ∧ s'.trying = s.trying ∧
      s.queued ++ received m = s'.queued := by
  cases m with
  | receive packet =>
      obtain ⟨w, rfl⟩ := hw packet rfl
      obtain ⟨hr, heq⟩ := Option.ite_none_right_eq_some.mp hs
      cases heq
      have hrecv : s.receive (.payloadBufferWrite w) =
          { s with handler := .enqueueing .write (.payloadBufferWrite w) } := by
        simp [Session.receive, route, h.state]
      rw [hrecv]
      refine ⟨{ h with handler := .inr ⟨_, rfl⟩ }, rfl, rfl, rfl, ?_⟩
      simp [queued, hr, Handler.toWriter, received]
  | handler sent =>
      simp only [Session.move, moveHandler] at hs
      rcases h.handler with hr | ⟨packet, hr⟩
      · rw [hr] at hs
        cases hs
      · rw [hr] at hs
        obtain ⟨t, ht, heq⟩ := Option.map_eq_some_iff.mp hs
        cases heq
        obtain ⟨q, hq, rfl⟩ := Option.map_eq_some_iff.mp ht
        obtain ⟨-, rfl⟩ := Pool.send_eq_some.mp hq
        refine ⟨{ h with handler := .inl rfl }, rfl, rfl, rfl, ?_⟩
        simp only [queued, hr, Handler.toWriter, received, List.append_nil, List.append_assoc]
        rfl
  | writer => exact absurd rfl hm
  | corrector =>
      obtain ⟨t, ht, heq⟩ := Option.map_eq_some_iff.mp hs
      cases heq
      rcases moveCorrector_cases ht with ⟨q, hq, rfl⟩ | ⟨p, hp, -⟩
      · exact ⟨{ h with correct := h.correct.receive hq }, rfl, rfl, rfl, List.append_nil _⟩
      · rw [h.correct.busy? 0] at hp
        cases hp
  | journaler sent =>
      have hf := Pool.finished_of_workers h.journal
      simp [Session.move, moveJournaler, hf.busy? 0, hf.receive] at hs
  | replicator i =>
      have hf := Pool.finished_of_workers h.replication
      simp [Session.move, moveReplicator, hf.busy? i, hf.receive] at hs
  | startHash => simp [Session.move, moveStartHash, h.hash] at hs
  | hash m => simp [Session.move, HashDisk.move_of_returned h.hash] at hs

/-- **A session that only writes goes on doing so**, as long as it receives buffer writes only: it
passes them on in order, and sends nothing. -/
theorem OnlyWrites.move (h : s.OnlyWrites) (hw : s.Wrote base done)
    (hm : ∀ packet, m = .receive packet → ∃ w, packet = .payloadBufferWrite w)
    (hs : s.move hash numWorkers m = some (s', ps)) :
    s'.OnlyWrites ∧ ps = [] ∧ ∃ done', s'.Wrote base done' ∧
      done ++ writes s.queued ++ writes (received m) = done' ++ writes s'.queued := by
  by_cases hmw : m = .writer
  · subst hmw
    obtain ⟨t, ht, heq⟩ := Option.map_eq_some_iff.mp hs
    cases heq
    obtain ⟨done', hw', heq⟩ := hw.moveWriter h.state ht
    exact ⟨h.moveWriter ht, rfl, done', hw', by simpa [received] using heq⟩
  · obtain ⟨hs', rfl, hmachine, htrying, hq⟩ := h.passes hmw hm hs
    refine ⟨hs', rfl, done, ?_, ?_⟩
    · rwa [Wrote, hmachine, htrying]
    · rw [← hq, writes_append, List.append_assoc]

/-- The number of writes that are finished in a move. -/
def wrote (s : Session) : SessionMove → ℕ
  | .writer => if s.finishes then 1 else 0
  | _ => 0

/-- **On a device that takes every write** each is written at once, in order. -/
theorem OnlyWrites.move_of_fits (h : s.OnlyWrites) (hplan : s.machine.target.plan = [])
    (hfits : ∀ w ∈ writes s.queued, w.offset + w.data.length ≤ s.machine.target.size)
    (hm : ∀ packet, m = .receive packet → ∃ w, packet = .payloadBufferWrite w)
    (hs : s.move hash numWorkers m = some (s', ps)) :
    s'.OnlyWrites ∧ ps = [] ∧ s'.machine.target.plan = [] ∧
      s'.machine.target.size = s.machine.target.size ∧ ∃ ws, ws.length = s.wrote m ∧
        s'.machine.target.bytes = s.machine.target.bytes.applyAll ws ∧
        writes s.queued ++ writes (received m) = ws ++ writes s'.queued := by
  by_cases hmw : m = .writer
  · subst hmw
    obtain ⟨t, ht, heq⟩ := Option.map_eq_some_iff.mp hs
    cases heq
    refine ⟨h.moveWriter ht, rfl, ?_⟩
    rcases moveWriter_of_fits h.state hplan hfits ht with ⟨hf, hmachine, hq⟩ | ⟨hf, w, hq, hmachine⟩
    · rw [hmachine]
      exact ⟨hplan, rfl, [], by simp [wrote, hf], rfl, by simp [received, hq]⟩
    · rw [hmachine]
      refine ⟨hplan, rfl, [w], by simp [wrote, hf], ?_, by simp [received, hq]⟩
      exact Device.bytes_store (hfits w (by simp [hq]))
  · obtain ⟨hs', rfl, hmachine, -, hq⟩ := h.passes hmw hm hs
    have hwrote : s.wrote m = 0 := by cases m <;> first | rfl | exact absurd rfl hmw
    rw [hmachine]
    exact ⟨hs', rfl, hplan, rfl, [], by simp [hwrote], rfl, by rw [← hq, writes_append]; rfl⟩

end OnlyWrites

end Session

end Bdr.Server
