import Bdr.Server.Session
import Bdr.Support.Runs

/-!
# Server — Overflow

What an overflow of the journal means for the replica.  `HandleJournalPackets` finds out that an
entry cannot be stored, tells the client and sets the state to `StateJournalOverflow`; the journal
is then short of an entry and must not be written to the replica.  But `HandleJournalWriting` looks
for `StateDestroyingReplica` only: when the client's `InfoHashingCompleted` comes all the same, the
journal is validated and written.

A journal that overflowed stays away from the replica in every run in which the client reports the
end of a scan only if all of it has been or can be stored, and in which nothing else is being
written to the replica while the scan is going on.
-/

namespace Bdr.Server

open Journal

/-- What is to be remembered of a scan with journal: the replica and the journal's mark when it
started, and whether an entry could not be stored and the journal has been marked since. -/
structure ScanRecord where
  image : Image UInt8
  valid : Bool
  overflowed : Bool
  marked : Bool

/-- A session, and what its present scan is remembered by. -/
structure Watched where
  session : Session
  scan : Option ScanRecord

namespace Watched
variable (hash : List UInt8 → UInt64) (numWorkers : ℕ)

/-- The record, with a note if `HandleJournalPackets` has just failed to store an entry. -/
def note (s : Session) (r : ScanRecord) : ScanRecord :=
  if s.journalQueue.busy? 0 = some .overflowing then { r with overflowed := true } else r

/-- The record, with a note if `WriteJournalToReplica` is about to mark the journal. -/
def mark (s : Session) (r : ScanRecord) : ScanRecord :=
  if s.handler = .writingJournal ∧ s.state ≠ .destroyingReplica then { r with marked := true }
  else r

/-- A new scan makes a new record. -/
def record (w : Watched) : SessionMove → Option ScanRecord
  | .receive .cmdStartHashing =>
      some ⟨w.session.machine.target.bytes, w.session.machine.journal.header.isValid, false, false⟩
  | .receive .cmdStartFullScan => none
  | .handler _ => w.scan.map (mark w.session)
  | _ => w.scan

def step (w : Watched) (m : SessionMove) : Option Watched :=
  (w.session.move hash numWorkers m).map fun r => ⟨r.1, (w.record m).map (note r.1)⟩

/-- The journal of a scan that overflowed has not been marked since the scan started, it is valid
only if it was then, and the replica is as it was. -/
def NotApplied (w : Watched) : Prop :=
  ∀ r, w.scan = some r → r.overflowed = true →
    w.session.machine.target.bytes = r.image ∧ r.marked = false ∧
      (w.session.machine.journal.header.isValid = true → r.valid = true)

end Watched

/-- Nothing is on its way to the replica. -/
structure AtRest (s : Session) : Prop where
  writer : s.writeQueue.All (fun _ => True) fun t => ∀ p, t ≠ .writing p
  corrector : s.correctQueue.All (fun _ => False) fun _ => False
  replicators : s.replicationQueue.Finished

/-- The packets that have not been stored yet. -/
def pendingPackets (s : Session) : List Packet :=
  match s.journalQueue.busy? 0 with
  | some (.took p) | some (.storing p) => p :: s.journalQueue.queue
  | _ => s.journalQueue.queue

/-- What is left of the scan can be stored. -/
def CanStore (s : Session) : Prop :=
  ∃ j, (pendingPackets s).forM storePacket s.machine.journal = .ok () j

/-- The scan has reset the journal. -/
def WasReset (s : Session) : Prop := s.hashDisk.phase ≠ .starting ∧ s.hashDisk.phase ≠ .resetting

instance (s : Session) : Decidable (CanStore s) :=
  decidable_of_iff ((match (pendingPackets s).forM storePacket s.machine.journal with
    | .ok _ _ => true
    | .error _ _ => false) = true) (by
      unfold CanStore
      split <;> simp_all)

instance (s : Session) : Decidable (WasReset s) := inferInstanceAs (Decidable (_ ∧ _))

/-- A scan starts when nothing is on its way to the replica, no replication starts or ends in it,
and it is reported complete only if all of it has been or can be stored. -/
def careful (w : Watched) : SessionMove → Prop
  | .receive .cmdStartHashing => AtRest w.session
  | .receive .infoHashingCompleted => ∀ r, w.scan = some r →
      r.overflowed = false ∧ WasReset w.session ∧ CanStore w.session
  | .receive .infoStartReplication | .receive .infoReplicationCompleted =>
      w.scan.isSome → w.session.journalQueue.workers = []
  | _ => True

/-! ### While a scan is going on -/

/-- A scan that is going on. -/
structure Open (r : ScanRecord) (s : Session) : Prop extends AtRest s where
  image : s.machine.target.bytes = r.image
  marked : r.marked = false
  valid : s.machine.journal.header.isValid = true → r.valid = true
  state : s.state = .hashing ∨ s.state = .journalOverflow ∧ r.overflowed = true
  overflowing : s.journalQueue.busy? 0 = some .overflowing → r.overflowed = true
  workers : s.handler ≠ .drainingJournal .startHashing → s.journalQueue.workers ≠ []
  handler : match s.handler with
    | .receiving | .awaitingHash | .drainingJournal _ => True
    | .enqueueing queue _ => queue = .journal ∨ queue = .replication
    | _ => False
  completing : s.handler = .drainingJournal .hashingCompleted →
    r.overflowed = false ∧ WasReset s ∧ CanStore s

/-- A scan that has ended: no goroutine feeds the journal. -/
structure Ended (r : ScanRecord) (s : Session) : Prop where
  overflowed : r.overflowed = false
  workers : s.journalQueue.workers = []
  handler : s.handler ≠ .drainingJournal .startHashing

theorem Open.note_eq {r : ScanRecord} {s : Session} (h : Open r s) : Watched.note s r = r := by
  unfold Watched.note
  split
  · rename_i hb
    obtain ⟨image, valid, overflowed, marked⟩ := r
    simp [show overflowed = true from h.overflowing hb]
  · rfl

theorem Ended.note_eq {r : ScanRecord} {s : Session} (h : Ended r s) : Watched.note s r = r := by
  unfold Watched.note
  rw [if_neg]
  simp [Pool.busy?, h.workers]

/-- The journal is not written while the scan is going on. -/
theorem Open.mark_eq {r : ScanRecord} {s : Session} (h : Open r s) : Watched.mark s r = r := by
  have hh := h.handler
  unfold Watched.mark
  rw [if_neg]
  rintro ⟨hs, -⟩
  rw [hs] at hh
  exact hh

theorem Ended.mark {r : ScanRecord} {s s₀ : Session} (h : Ended r s) :
    Ended (Watched.mark s₀ r) s := by
  unfold Watched.mark
  split
  · exact ⟨h.overflowed, h.workers, h.handler⟩
  · exact h

section Moves
variable {hash : List UInt8 → UInt64} {numWorkers : ℕ} {r : ScanRecord} {s s' : Session}
variable {ps : List Packet} {sent : Sent}

theorem Open.moveHandler (h : Open r s) (hm : s.moveHandler numWorkers sent = some (s', ps)) :
    Open r s' ∨ Ended r s' := by
  have hh := h.handler
  have hw := h.workers
  cases Session.moveHandler_cases hm with
  | enqueued hs he =>
      have hne := hw (by simp [hs])
      rw [hs] at hh
      rcases hh with rfl | rfl
      · obtain ⟨q, hq, rfl⟩ := Option.map_eq_some_iff.mp he
        obtain ⟨-, rfl⟩ := Pool.send_eq_some.mp hq
        exact .inl { h with
          overflowing := h.overflowing
          workers := fun _ => hne
          handler := trivial
          completing := by simp }
      · obtain ⟨q, hq, rfl⟩ := Option.map_eq_some_iff.mp he
        obtain ⟨-, rfl⟩ := Pool.send_eq_some.mp hq
        exact .inl { h with
          replicators := h.replicators
          workers := fun _ => hne
          handler := trivial
          completing := by simp }
  | journalDrained =>
      exact .inl { h with
        overflowing := by simp [Pool.start, Pool.busy?]
        workers := by simp [Pool.start]
        handler := trivial
        completing := by simp }
  | scanDrained hs => exact .inr ⟨(h.completing hs).1, by simp [Pool.start], by simp⟩
  | hashStarted hs =>
      exact .inl { h with
        workers := fun _ => hw (by simp [hs])
        handler := trivial
        completing := by simp }
  | journalSkipped hs | journalWritten hs | writingSet hs | replicationStarted hs
  | replicationEnded hs =>
      rw [hs] at hh
      exact hh.elim

theorem Open.moveWriter (h : Open r s) (hm : s.moveWriter = some s') : Open r s' := by
  have hne : s.state ≠ .writing := by rcases h.state with hs | ⟨hs, -⟩ <;> simp [hs]
  rcases Session.moveWriter_cases hm with ⟨q, hq, rfl⟩ | ⟨p, hp, rfl⟩ | ⟨p, hp, -⟩
  · exact { h with writer := h.writer.receive hq fun _ _ => by simp }
  · rw [if_neg hne]
    exact { h with writer := h.writer.setWorker (by rintro t ⟨⟩) }
  · exact absurd rfl (h.writer.of_busy? hp p)

theorem Open.moveCorrector (h : Open r s) (hm : s.moveCorrector = some s') : Open r s' := by
  rcases Session.moveCorrector_cases hm with ⟨q, hq, rfl⟩ | ⟨p, hp, -⟩
  · exact { h with corrector := h.corrector.receive hq fun _ => id }
  · exact (h.corrector.of_busy? hp).elim

theorem Open.moveReplicator (h : Open r s) {i : ℕ} (hm : s.moveReplicator i = some s') :
    Open r s' := by
  rcases Session.moveReplicator_cases hm with ⟨q, hq, -⟩ | ⟨p, hp, -⟩
  · rw [h.replicators.receive] at hq
    cases hq
  · rw [h.replicators.busy?] at hp
    cases hp

theorem storePacket_keeps {h : Header} (p : Packet) :
    Keeps (fun j => j.header = h) (storePacket p) := by
  cases p with
  | payloadBufferWrite w =>
      exact Keeps.get_bind fun _ =>
        (Keeps.get_bind fun _ => writeSlot_keeps (fun _ _ h => h) _ _ _).bind fun _ =>
          Keeps.modify fun _ hj => hj
  | payloadCorrectBlock b =>
      exact Keeps.get_bind fun _ =>
        (Keeps.get_bind fun _ => writeSlot_keeps (fun _ _ h => h) _ _ _).bind fun _ =>
          Keeps.modify fun _ hj => hj
  | _ => exact Keeps.pure ()

theorem Open.moveStartHash (h : Open r s) (hm : s.moveStartHash = some s') : Open r s' := by
  rcases Session.moveStartHash_cases hm with ⟨hp, rfl⟩ | ⟨hp, a, ha, rfl⟩
  · exact { h with completing := fun hs => absurd hp (h.completing hs).2.1.1 }
  · have hinv := attempt_of_ends (resetTo_invalidates _ _ _) ha
    exact { h with
      valid := fun hv => by
        have hv : a.1.header.isValid = true := hv
        rw [hinv, Header.isValid_setInvalidFlag] at hv
        cases hv
      completing := fun hs => absurd hp (h.completing hs).2.1.2 }

theorem Open.moveHash (h : Open r s) {m : HashMove} {c : HashConfig} {target : Device}
    {h' : HashDisk} (hm : s.hashDisk.move c target m = some (h', ps)) :
    Open r { s with hashDisk := h' } := by
  obtain ⟨-, hp⟩ := HashDisk.phase_move hm
  refine { h with completing := fun hs => ?_ }
  obtain ⟨hr, -, hst⟩ := h.completing hs
  exact ⟨hr,
    ⟨by rcases hp with hp | hp <;> simp [hp], by rcases hp with hp | hp <;> simp [hp]⟩, hst⟩

/-- The journaler stores what can be stored. -/
theorem CanStore.storing (h : CanStore s) {p : Packet} {a : Journal × Bool}
    (hp : s.journalQueue.busy? 0 = some (.storing p))
    (ha : attempt (storePacket p) s.machine.journal = some a) :
    a.2 = true ∧ CanStore ((s.setJournal a.1).setJournaler .ranging) := by
  obtain ⟨j, hj⟩ := h
  simp only [pendingPackets, hp] at hj
  obtain ⟨_, j₁, h₁, h₂⟩ := bind_eq_ok.mp hj
  rcases attempt_eq_some.mp ha with ⟨hx, hok⟩ | ⟨e, hx, -⟩
  · rw [hx] at h₁
    cases h₁
    refine ⟨hok, j, ?_⟩
    simp only [pendingPackets, Session.setJournaler, Session.setJournal,
      Pool.busy?_setWorker hp]
    exact h₂
  · rw [hx] at h₁
    cases h₁

theorem CanStore.receive (h : CanStore s) {q : Pool Packet JournalTask}
    (hq : s.journalQueue.receive .took 0 = some q) : CanStore { s with journalQueue := q } := by
  obtain ⟨hb, ⟨a, ha, hb'⟩ | ⟨hn, hn', hb'⟩⟩ := Pool.busy?_receive hq
  · simpa only [CanStore, pendingPackets, hb, hb', ha] using h
  · simpa only [CanStore, pendingPackets, hb, hb', hn, hn'] using h

theorem CanStore.took (h : CanStore s) {p : Packet}
    (hp : s.journalQueue.busy? 0 = some (.took p)) :
    CanStore (s.setJournaler (.busy (.storing p))) := by
  simpa only [CanStore, pendingPackets, hp, Session.setJournaler, Pool.busy?_setWorker hp,
    Pool.queue_setWorker] using h

/-- A move of `HandleJournalPackets`, which may find that an entry cannot be stored. -/
theorem Open.moveJournaler (h : Open r s) (hm : s.moveJournaler sent = some (s', ps)) :
    Open (Watched.note s' r) s' := by
  have hset : ∀ w, s.handler ≠ .drainingJournal .startHashing →
      (s.journalQueue.setWorker 0 w).workers ≠ [] := fun w hs => by
    simpa [Pool.setWorker] using h.workers hs
  rcases Session.moveJournaler_cases hm with ⟨q, hq, rfl, -⟩ | ⟨p, hp, -, rfl⟩ |
    ⟨p, a, hp, ha, ⟨hok, rfl, -⟩ | ⟨hok, rfl, -⟩⟩ | ⟨hp, -, rfl⟩
  · have h' : Open r { s with journalQueue := q } := { h with
      overflowing := fun hb => by
        obtain ⟨-, ⟨a, -, hb'⟩ | ⟨-, -, hb'⟩⟩ := Pool.busy?_receive hq <;> simp [hb'] at hb
      workers := fun _ => Pool.workers_ne_receive hq
      completing := fun hs => ⟨(h.completing hs).1, (h.completing hs).2.1,
        (h.completing hs).2.2.receive hq⟩ }
    rw [h'.note_eq]
    exact h'
  · have h' : Open r (s.setJournaler
        (if s.state = .journalOverflow then .ranging else .busy (.storing p))) := { h with
      overflowing := fun hb => by
        rw [Session.setJournaler, Pool.busy?_setWorker hp] at hb
        by_cases hst : s.state = .journalOverflow <;> simp [hst] at hb
      workers := hset _
      completing := fun hs => by
        obtain ⟨hr, hreset, hst⟩ := h.completing hs
        have hne : s.state ≠ .journalOverflow := by
          rcases h.state with hs | ⟨-, hov⟩
          · simp [hs]
          · simp [hr] at hov
        rw [if_neg hne]
        exact ⟨hr, hreset, hst.took hp⟩ }
    rw [h'.note_eq]
    exact h'
  · have hkeep := attempt_of_ends (storePacket_keeps p _ rfl) ha
    have h' : Open r ((s.setJournal a.1).setJournaler .ranging) := { h with
      valid := fun hv => h.valid (hkeep ▸ hv)
      overflowing := fun hb => by
        cases (Pool.busy?_setWorker hp .ranging).symm.trans hb
      workers := hset _
      completing := fun hs => ⟨(h.completing hs).1, (h.completing hs).2.1,
        ((h.completing hs).2.2.storing hp ha).2⟩ }
    rw [h'.note_eq]
    exact h'
  · have hkeep := attempt_of_ends (storePacket_keeps p _ rfl) ha
    have hb : ((s.setJournal a.1).setJournaler (.busy .overflowing)).journalQueue.busy? 0 =
        some .overflowing := Pool.busy?_setWorker hp _
    rw [Watched.note, if_pos hb]
    exact { h with
      valid := fun hv => h.valid (hkeep ▸ hv)
      state := h.state.imp_right fun hs => ⟨hs.1, rfl⟩
      overflowing := fun _ => rfl
      workers := hset _
      completing := fun hs => by
        -- what is left of the scan can be stored, so this entry could be
        have := ((h.completing hs).2.2.storing hp ha).1
        simp [hok] at this }
  · have hov := h.overflowing hp
    have h' : Open r { s.setJournaler .ranging with state := .journalOverflow } := { h with
      state := .inr ⟨rfl, hov⟩
      overflowing := fun _ => hov
      workers := hset _
      completing := fun hs => by cases hov.symm.trans (h.completing hs).1 }
    rw [h'.note_eq]
    exact h'

theorem Open.enqueueing (h : Open r s) (hs : s.handler = .receiving) {queue : Queue} {p : Packet}
    (hq : queue = .journal ∨ queue = .replication) :
    Open r { s with handler := .enqueueing queue p } :=
  { h with
    workers := fun _ => h.workers (by simp [hs])
    handler := hq
    completing := by simp }

/-- A packet that does not start a scan. -/
theorem Open.receive (h : Open r s) (hs : s.handler = .receiving) {p : Packet}
    (hstart : p ≠ .cmdStartHashing ∧ p ≠ .cmdStartFullScan)
    (hcompleted : p = .infoHashingCompleted → r.overflowed = false ∧ WasReset s ∧ CanStore s)
    (hrepl : p ≠ .infoStartReplication ∧ p ≠ .infoReplicationCompleted) :
    Open r (s.receive p) := by
  cases p with
  | cmdStartHashing => exact absurd rfl hstart.1
  | cmdStartFullScan => exact absurd rfl hstart.2
  | infoStartReplication => exact absurd rfl hrepl.1
  | infoReplicationCompleted => exact absurd rfl hrepl.2
  | infoHashingCompleted =>
      exact { h with
        overflowing := h.overflowing
        workers := fun _ => h.workers (by simp [hs])
        handler := trivial
        completing := fun _ => hcompleted rfl }
  | payloadBufferWrite w =>
      rcases h.state with hst | ⟨hst, -⟩
      · simpa only [Session.receive, route, hst] using h.enqueueing hs (.inl rfl)
      · simpa only [Session.receive, route, hst] using h
  | payloadCorrectBlock b =>
      rcases h.state with hst | ⟨hst, -⟩
      · simpa only [Session.receive, route, hst] using h.enqueueing hs (.inl rfl)
      · simpa only [Session.receive, route, hst] using h
  | payloadReplicationBlock b => exact h.enqueueing hs (.inr rfl)
  | _ => exact h

/-- The start of a scan. -/
theorem AtRest.receive (h : AtRest s) :
    Open (Watched.note (s.receive .cmdStartHashing)
      ⟨s.machine.target.bytes, s.machine.journal.header.isValid, false, false⟩)
      (s.receive .cmdStartHashing) := by
  unfold Watched.note
  split
  · exact ⟨⟨h.writer, h.corrector, h.replicators⟩, rfl, rfl, id, .inl rfl, fun _ => rfl,
      fun hs => absurd rfl hs, trivial, by simp [Session.receive]⟩
  · rename_i hb
    exact ⟨⟨h.writer, h.corrector, h.replicators⟩, rfl, rfl, id, .inl rfl, fun hb' => absurd hb' hb,
      fun hs => absurd rfl hs, trivial, by simp [Session.receive]⟩

theorem Ended.receive (h : Ended r s) {p : Packet} (hstart : p ≠ .cmdStartHashing) :
    Ended r (s.receive p) := by
  have henq : ∀ queue p, Ended r { s with handler := .enqueueing queue p } := fun _ _ =>
    ⟨h.overflowed, h.workers, by simp⟩
  cases p with
  | cmdStartHashing => exact absurd rfl hstart
  | cmdStartFullScan | infoHashingCompleted | infoReplicationCompleted | infoStartReplication =>
      exact ⟨h.overflowed, h.workers, by simp [Session.receive]⟩
  | payloadBufferWrite w | payloadCorrectBlock w | payloadReplicationBlock w =>
      rw [Session.receive]
      split
      · exact henq _ _
      · exact h
      all_goals simp
  | _ => exact h

theorem Ended.moveHandler (h : Ended r s) (hm : s.moveHandler numWorkers sent = some (s', ps)) :
    Ended r s' := by
  cases Session.moveHandler_cases hm with
  | @enqueued queue p s₁ hh he =>
      cases queue <;>
        (obtain ⟨q, hq, rfl⟩ := Option.map_eq_some_iff.mp he
         obtain ⟨-, rfl⟩ := Pool.send_eq_some.mp hq
         exact ⟨h.overflowed, h.workers, by simp⟩)
  | journalDrained hh => exact absurd hh h.handler
  | scanDrained => exact ⟨h.overflowed, by simp [Pool.start], by simp⟩
  | _ => exact ⟨h.overflowed, h.workers, by simp⟩

end Moves

theorem Ended.moveJournaler {r : ScanRecord} {s : Session} (h : Ended r s) (sent : Sent) :
    s.moveJournaler sent = none := by
  have hb : s.journalQueue.busy? 0 = none := by simp [Pool.busy?, h.workers]
  have hr : s.journalQueue.receive .took 0 = none := by simp [Pool.receive, h.workers]
  simp only [Session.moveJournaler, hb, hr, Option.map_none]

theorem Ended.frame {r : ScanRecord} {s s' : Session} (h : Ended r s) (hf : s.Frame s') :
    Ended r s' :=
  ⟨h.overflowed, by rw [hf.journalQueue]; exact h.workers, by rw [hf.handler]; exact h.handler⟩

/-! ### Whole runs -/

/-- The present scan is going on or has ended. -/
def Tracked (w : Watched) : Prop := ∀ r, w.scan = some r → Open r w.session ∨ Ended r w.session

section Runs
variable {hash : List UInt8 → UInt64} {numWorkers : ℕ} {w : Watched} {s' : Session}

theorem Tracked.notApplied (h : Tracked w) : w.NotApplied := by
  intro r hr hov
  rcases h r hr with ho | he
  · exact ⟨ho.image, ho.marked, ho.valid⟩
  · exact absurd (he.overflowed.symm.trans hov) Bool.false_ne_true

/-- A move that keeps the record. -/
theorem Tracked.keep {scan : Option ScanRecord} (h : ∀ r, scan = some r →
      Open (Watched.note s' r) s' ∨ Ended (Watched.note s' r) s') :
    Tracked ⟨s', scan.map (Watched.note s')⟩ := by
  rintro r' hr'
  obtain ⟨r, hr, rfl⟩ := Option.map_eq_some_iff.mp hr'
  exact h r hr

theorem Tracked.of_open_or_ended {r : ScanRecord} (h : Open r s' ∨ Ended r s') :
    Open (Watched.note s' r) s' ∨ Ended (Watched.note s' r) s' := by
  rcases h with h | h
  · rw [h.note_eq]
    exact .inl h
  · rw [h.note_eq]
    exact .inr h

theorem Tracked.receive (h : Tracked w) {p : Packet} (hs : w.session.handler = .receiving)
    (hc : careful w (.receive p)) :
    Tracked ⟨w.session.receive p, (w.record (.receive p)).map
      (Watched.note (w.session.receive p))⟩ := by
  by_cases h₁ : p = .cmdStartHashing
  · subst h₁
    rintro r ⟨⟩
    exact .inl (AtRest.receive hc)
  by_cases h₂ : p = .cmdStartFullScan
  · subst h₂
    rintro r ⟨⟩
  have hrec : w.record (.receive p) = w.scan := by
    cases p <;> first | rfl | exact absurd rfl h₁ | exact absurd rfl h₂
  rw [hrec]
  refine Tracked.keep fun r hr => Tracked.of_open_or_ended ?_
  rcases h r hr with ho | he
  · have hne := ho.workers (by simp [hs])
    refine .inl (ho.receive hs ⟨h₁, h₂⟩ ?_ ⟨?_, ?_⟩)
    · rintro rfl
      exact hc r hr
    · rintro rfl
      exact hne (hc (by simp [hr]))
    · rintro rfl
      exact hne (hc (by simp [hr]))
  · exact .inr (he.receive h₁)

theorem Tracked.step (h : Tracked w) {m : SessionMove} (hc : careful w m) {w' : Watched}
    (hm : w.step hash numWorkers m = some w') : Tracked w' := by
  obtain ⟨⟨s', ps⟩, hmove, rfl⟩ := Option.map_eq_some_iff.mp hm
  cases Session.move_cases hmove with
  | receive hs => exact h.receive hs hc
  | handler hs' =>
      refine Tracked.keep fun r' hr' => Tracked.of_open_or_ended ?_
      obtain ⟨r, hr, rfl⟩ := Option.map_eq_some_iff.mp hr'
      rcases h r hr with ho | he
      · rw [ho.mark_eq]
        exact ho.moveHandler hs'
      · exact .inr (he.moveHandler hs').mark
  | journaler hs' =>
      refine Tracked.keep fun r hr => ?_
      rcases h r hr with ho | he
      · exact .inl (ho.moveJournaler hs')
      · exact absurd hs' (by simp [he.moveJournaler])
  | writer hs' =>
      exact Tracked.keep fun r hr => Tracked.of_open_or_ended
        ((h r hr).imp (·.moveWriter hs') (·.frame (Session.frame_moveWriter hs')))
  | corrector hs' =>
      exact Tracked.keep fun r hr => Tracked.of_open_or_ended
        ((h r hr).imp (·.moveCorrector hs') (·.frame (Session.frame_moveCorrector hs')))
  | replicator hs' =>
      exact Tracked.keep fun r hr => Tracked.of_open_or_ended
        ((h r hr).imp (·.moveReplicator hs') (·.frame (Session.frame_moveReplicator hs')))
  | startHash hs' =>
      exact Tracked.keep fun r hr => Tracked.of_open_or_ended
        ((h r hr).imp (·.moveStartHash hs') (·.frame (Session.frame_moveStartHash hs')))
  | hash hs' =>
      exact Tracked.keep fun r hr => Tracked.of_open_or_ended
        ((h r hr).imp (·.moveHash hs') (·.frame ⟨rfl, rfl, rfl⟩))

/-- **An overflowed journal is not applied** in a run in which a scan starts when nothing is on its
way to the replica, no replication starts or ends in it, and it is reported complete only if all of
it has been or can be stored. -/
theorem overflowed_notApplied {machine : Machine} {moves : List SessionMove}
    (hrun : Run (Watched.step hash numWorkers) careful ⟨.start machine, none⟩ moves w) :
    w.NotApplied := by
  have h₀ : Tracked ⟨.start machine, none⟩ := by rintro r ⟨⟩
  exact (hrun.invariant (fun _ _ _ hw hc hm => hw.step hc hm) h₀).notApplied

/-- A scan in which the second buffer write finds no slot. -/
def overflowingScan : List SessionMove :=
  [.receive .cmdStartHashing, .handler .ok, .handler .ok, .startHash, .startHash,
    .receive (.payloadBufferWrite ⟨0, 1, [5]⟩), .handler .ok,
    .journaler .ok, .journaler .ok, .journaler .ok,
    .receive (.payloadBufferWrite ⟨0, 1, [6]⟩), .handler .ok,
    .journaler .ok, .journaler .ok, .journaler .ok]

theorem overflowed_notApplied_tightMachine : ∃ w r,
    Run (Watched.step (fun _ => 3) 1) careful ⟨.start tightMachine, none⟩ overflowingScan w ∧
      w.scan = some r ∧ r.overflowed = true ∧ w.NotApplied := by
  have hrest : AtRest (.start tightMachine) :=
    ⟨Pool.all_start 1, Pool.all_start 1, by simp [Session.start, Pool.start, Pool.Finished]⟩
  obtain ⟨w, hw, hov⟩ := exists_exec (show (exec (Watched.step (fun _ => 3) 1)
    ⟨.start tightMachine, none⟩ overflowingScan).any (fun w => w.scan.any (·.overflowed)) = true by
      decide +kernel)
  obtain ⟨r, hr, hov⟩ := (Option.any_eq_true _ _).mp hov
  have hrun := Run.of_exec_cons (show careful ⟨.start tightMachine, none⟩
    (.receive .cmdStartHashing) from hrest) hw (by simp [careful])
  exact ⟨w, r, hrun, hr, hov, overflowed_notApplied hrun⟩

/-- The client had already reported the end of the scan: half of the journal is applied. -/
theorem not_notApplied_tightMachine : ∃ moves w,
    exec (Watched.step (fun _ => 3) 1) ⟨.start tightMachine, none⟩ moves = some w ∧
      ¬ w.NotApplied := by
  obtain ⟨w, hw, hov⟩ := exists_exec (show (exec (Watched.step (fun _ => 3) 1)
    ⟨.start tightMachine, none⟩ (overflowingScan ++ [.journaler .ok,
      .receive .infoHashingCompleted, .journaler .ok, .handler .ok, .handler .ok])).any
    (fun w => w.scan.any fun r =>
      r.overflowed && w.session.machine.target.bytes 0 != r.image 0) = true by decide +kernel)
  obtain ⟨r, hr, hov⟩ := (Option.any_eq_true _ _).mp hov
  obtain ⟨hov, hne⟩ := Bool.and_eq_true_iff.mp hov
  exact ⟨_, w, hw, fun h => by simp [(h r hr hov).1] at hne⟩

end Runs

end Bdr.Server
