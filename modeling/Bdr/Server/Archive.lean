import Bdr.Server.Daemon
import Bdr.Server.Overflow

/-!
# Server — Archive

The journals of a server, from one start to the next.  A journal is valid from the moment its flag
is set on the disk to the moment the flag is cleared; in between it may be replayed at any time,
since the server may go down and find it when it starts.  The archive remembers what was recorded in
the journal when it was validated, and what has been written to the target since: the entries by a
replay, and buffer writes by `HandleWritePackets`.
-/

namespace Bdr.Server

open Journal

/-- The flag is set on the disk. -/
def marked (d : Device) : Bool := (Header.ofBytes (d.bytes.read 0 64)).isValid

/-- The read of a round of a replay. -/
def Round.read : Round → Option (Op BlockInfo)
  | .correctBlock i => some (readCorrectBlock i)
  | .bufferWrite i => some (readBufferWrite i)
  | _ => none

/-- What a round of a replay reads from the journal. -/
def Round.entry? (j : Journal) (r : Round) : Option BlockInfo :=
  r.read.bind fun x =>
    match x j with
    | .ok e _ => some e
    | .error _ _ => none

/-- What a round of a replay does with it. -/
def Round.apply : Round → BlockInfo → ServerOp Unit
  | .correctBlock _, e => writeCorrectBlockToReplica e
  | .bufferWrite _, e => writeBufferWriteToReplica e
  | _, _ => pure ()

/-- The correct blocks and buffer writes recorded in a journal. -/
def recorded (j : Journal) : List BlockInfo := (rounds j).filterMap (Round.entry? j)

/-- How many slots of a section are taken, from the first on. -/
def taken (s : Section) (j : Journal) : ℕ :=
  ((List.range s.count).takeWhile fun i =>
    match readSlot s i j with
    | .ok e _ => e.isValid
    | .error _ _ => false).length

/-- The journal on a disk, also if there is no free slot behind its entries, or one behind them
cannot be read. -/
def onDisk (d : Device) : Journal :=
  let header := Header.ofBytes (d.bytes.read 0 64)
  ⟨d, taken header.bufWrites ⟨d, 0, 0, header⟩, taken header.corrBlocks ⟨d, 0, 0, header⟩, header⟩

/-- A call returns without an error. -/
def succeeds (x : ServerOp Unit) (m : Machine) : Bool :=
  match x m with
  | .ok _ _ => true
  | .error _ _ => false

/-- A call returns an error. -/
def fails (x : ServerOp Unit) (m : Machine) : Bool :=
  match x m with
  | .error (.err _) _ => true
  | _ => false

/-- What a round has written to the target. -/
def Round.written? (m : Machine) (r : Round) : Option BlockInfo :=
  (r.entry? m.journal).filter fun e => succeeds (r.apply e) m

/-- A journal that has been validated: what is recorded in it, and what has been written to the
target since, by a replay and by `HandleWritePackets`. -/
structure Validated where
  entries : List BlockInfo
  written : List BlockInfo
  direct : List WriteInfo

/-- All of the journal has been written. -/
def Validated.Applied (v : Validated) : Prop := ∀ e ∈ v.entries, e ∈ v.written

instance (v : Validated) : Decidable v.Applied :=
  inferInstanceAs (Decidable (∀ e ∈ v.entries, e ∈ v.written))

/-- What `HandleWritePackets` is writing to the target. -/
def Session.writing? (s : Session) : Option WriteInfo :=
  match s.writeQueue.busy? 0 with
  | some (.writing (.payloadBufferWrite w)) => some w
  | _ => none

namespace Daemon
variable (d : Daemon)

/-- The device of the journal. -/
def disk : Device := d.session.machine.journal.disk

/-- The move marks the journal valid. -/
def validates : DaemonMove → Bool
  | .session (.handler _) =>
      match d.phase with
      | .replaying (.validate :: _) => true
      | _ => false
  | _ => false

/-- What a replay writes to the target in the move. -/
def replays : DaemonMove → Option BlockInfo
  | .session (.handler _) =>
      match d.phase with
      | .replaying (r :: _) => r.written? d.session.machine
      | _ => none
  | .copy =>
      match d.phase with
      | .copying (r :: _) => r.written? d.session.machine
      | _ => none
  | _ => none

/-- What `HandleWritePackets`, of this session or an earlier one, writes to the target in the
move. -/
def writes : DaemonMove → Option WriteInfo
  | .session .writer => d.session.writing?
  | .leftover i .writer => (d.leftovers[i]?).bind Session.writing?
  | _ => none

end Daemon

/-- The server, the journal that is valid on its disk, and those that were. -/
structure Archive where
  daemon : Daemon
  current : Option Validated
  retired : List Validated

namespace Archive

/-- A journal that is valid from the beginning counts as validated then, also one that
`OpenJournal` does not open. -/
def start (machine : Machine) : Archive where
  daemon := .down machine
  current :=
    match openJournal machine.journal.disk with
    | .ok j => if marked machine.journal.disk then some ⟨recorded j, [], []⟩ else none
    | .error _ =>
        if marked machine.journal.disk ∧ verifyMagic (onDisk machine.journal.disk).header.magic then
          some ⟨recorded (onDisk machine.journal.disk), [], []⟩
        else none
  retired := []

theorem current_start {machine : Machine} {v : Validated} (h : (start machine).current = some v) :
    marked machine.journal.disk = true ∧ v.direct = [] := by
  simp only [start] at h
  split at h
  · obtain ⟨hm, hv⟩ := Option.ite_none_right_eq_some.mp h
    exact ⟨hm, (congrArg Validated.direct (Option.some.inj hv)).symm⟩
  · obtain ⟨hm, hv⟩ := Option.ite_none_right_eq_some.mp h
    exact ⟨hm.1, (congrArg Validated.direct (Option.some.inj hv)).symm⟩

/-- What is known of the valid journal after a move that has led to `d'` and has left the flag
set. -/
def note (a : Archive) (m : DaemonMove) (d' : Daemon) : Option Validated :=
  if a.daemon.validates m then some ⟨recorded d'.session.machine.journal, [], []⟩
  else a.current.map fun v =>
    { v with
      written := v.written ++ (a.daemon.replays m).toList
      direct := v.direct ++ (a.daemon.writes m).toList }

def after (a : Archive) (m : DaemonMove) (d' : Daemon) : Archive where
  daemon := d'
  current := if marked d'.disk then a.note m d' else none
  retired := if marked d'.disk then a.retired else a.retired ++ a.current.toList

def step (hash : List UInt8 → UInt64) (numWorkers : ℕ) (a : Archive) (m : DaemonMove) :
    Option Archive :=
  (a.daemon.step hash numWorkers m).map (a.after m)

/-- Every journal that is retired has been applied. -/
def Honoured (a : Archive) : Prop := ∀ v ∈ a.retired, v.Applied

instance (a : Archive) : Decidable a.Honoured :=
  inferInstanceAs (Decidable (∀ v ∈ a.retired, v.Applied))

/-- No buffer write has been applied directly since the journal was validated. -/
def Exclusive (a : Archive) : Prop := ∀ v, a.current = some v → v.direct = []

end Archive

/-! ### Rounds -/

section Rounds
variable {j j' : Journal} {m m' : Machine} {r : Round} {e : BlockInfo}

/-- Reading an entry leaves the journal as it is. -/
theorem readSlot_keeps (I : Journal → Prop) (s : Section) (i : ℕ) : Keeps I (readSlot s i) := by
  have hread : Keeps I (diskReadAt (s.offset i) s.slot) := by
    intro j hj
    rw [Ends, diskReadAt]
    cases j.disk.readAt (s.offset i) s.slot <;> exact hj
  have := hread.bind fun data => orPanic_keeps (deserialize data)
  unfold readSlot
  split
  · exact Keeps.bind (Keeps.throw _) fun _ => this
  · exact this

theorem read_keeps {x : Op BlockInfo} (hr : r.read = some x) (I : Journal → Prop) :
    Keeps I x := by
  cases r with
  | validate | invalidate => cases hr
  | correctBlock i | bufferWrite i =>
      cases hr
      exact Keeps.get_bind fun _ => readSlot_keeps I _ i

theorem write_of_read {x : Op BlockInfo} (hr : r.read = some x) :
    ∃ step, r.write = (onJournal step x >>= r.apply) := by
  cases r with
  | validate | invalidate => cases hr
  | correctBlock i | bufferWrite i =>
      cases hr
      exact ⟨_, rfl⟩

theorem copy_of_read {x : Op BlockInfo} (hr : r.read = some x) :
    r.copy = (onJournal .copy x >>= fun e => ignoreError (r.apply e)) := by
  cases r with
  | validate | invalidate => cases hr
  | correctBlock i | bufferWrite i =>
      cases hr
      rfl

/-- An entry is read and passed on, or it is not and nothing has changed. -/
theorem read_bind_cases {x : Op BlockInfo} (hr : r.read = some x) (step : ReplayStep)
    (f : BlockInfo → ServerOp Unit) (m : Machine) :
    (∃ e, r.entry? m.journal = some e ∧ (onJournal step x >>= f) m = f e m) ∨
    ∃ g, (onJournal step x >>= f) m = .error g m := by
  have hk := read_keeps hr (· = m.journal) m.journal rfl
  unfold Ends at hk
  cases hx : x m.journal with
  | ok e j =>
      rw [hx] at hk
      refine .inl ⟨e, by simp [Round.entry?, hr, hx], bind_of_ok (onJournal_of_ok rfl ?_)⟩
      rw [hx, hk]
  | error g j =>
      rw [hx] at hk
      cases hk
      cases g <;> exact .inr ⟨_, bind_of_error (by rw [onJournal, hx])⟩

theorem onJournal_eq_ok {α : Type} {step : ReplayStep} {x : Op α} {u : α}
    (h : onJournal step x m = .ok u m') :
    ∃ j', x m.journal = .ok u j' ∧ m' = { m with journal := j' } := by
  unfold onJournal at h
  split at h <;> cases h
  exact ⟨_, ‹_›, rfl⟩

theorem targetWriteAt_keeps {I : Machine → Prop} (hI : ∀ m d, I m → I { m with target := d })
    (step : ReplayStep) (off : ℕ) (data : List UInt8) : Keeps I (targetWriteAt step off data) := by
  intro m hm
  rw [Ends, targetWriteAt]
  rcases m.target.writeAt off data with ⟨d, _ | _ | _⟩ <;> exact hI m d hm

theorem writeBufferWriteToReplica_keeps {I : Machine → Prop}
    (hI : ∀ m d, I m → I { m with target := d }) (w : WriteInfo) :
    Keeps I (writeBufferWriteToReplica w) := by
  refine Keeps.bind ?_ fun data => targetWriteAt_keeps hI _ _ data
  unfold dataToWrite
  split
  · exact Keeps.pure _
  · exact Keeps.throw _

theorem apply_keeps {I : Machine → Prop} (hI : ∀ m d, I m → I { m with target := d }) (r : Round)
    (e : BlockInfo) : Keeps I (r.apply e) := by
  cases r with
  | correctBlock i => exact targetWriteAt_keeps hI _ _ _
  | bufferWrite i => exact writeBufferWriteToReplica_keeps hI e
  | validate | invalidate => exact Keeps.pure ()

/-- A round leaves the journal alone, and returns only if it has written its entry. -/
def Round.Writes (r : Round) (x : ServerOp Unit) (m : Machine) : Prop :=
  Ends x m
    (fun _ m' => m'.journal = m.journal ∧
      ∃ e, r.entry? m.journal = some e ∧ r.written? m = some e)
    fun _ m' => m'.journal = m.journal

theorem writes_of_apply {x : ServerOp Unit} (he : r.entry? m.journal = some e)
    (hx : x m = r.apply e m ∨ x m = ignoreError (r.apply e) m ∧ fails (r.apply e) m = false) :
    r.Writes x m := by
  have hk := apply_keeps (I := fun m' => m'.journal = m.journal) (fun _ _ h => h) r e m rfl
  have hx' : x m = r.apply e m := by
    rcases hx with hx | ⟨hx, hf⟩
    · exact hx
    · rw [hx, ignoreError]
      split
      · rename_i hr
        simp [fails, hr] at hf
      · rfl
  unfold Round.Writes
  unfold Ends at hk ⊢
  rw [hx']
  cases hr : r.apply e m with
  | ok u m' =>
      rw [hr] at hk
      exact ⟨hk, e, he, by simp [Round.written?, he, succeeds, hr]⟩
  | error g m' =>
      rw [hr] at hk
      exact hk

theorem write_writes {x : Op BlockInfo} (hr : r.read = some x) (m : Machine) :
    r.Writes r.write m := by
  obtain ⟨step, hw⟩ := write_of_read hr
  rcases read_bind_cases hr step r.apply m with ⟨e, he, hx⟩ | ⟨g, hx⟩
  · exact writes_of_apply he (.inl (by rw [hw, hx]))
  · unfold Round.Writes
    rw [Ends, hw, hx]

theorem copy_writes {x : Op BlockInfo} (hr : r.read = some x)
    (hok : ∀ e ∈ r.entry? m.journal, fails (r.apply e) m = false) : r.Writes r.copy m := by
  rcases read_bind_cases hr .copy (fun e => ignoreError (r.apply e)) m with ⟨e, he, hx⟩ | ⟨g, hx⟩
  · exact writes_of_apply he (.inr ⟨by rw [copy_of_read hr, hx], hok e he⟩)
  · unfold Round.Writes
    rw [Ends, copy_of_read hr, hx]

/-- The last round is the one that retires the journal. -/
theorem rounds_eq_append {done rest : List Round} (h : rounds j = done ++ .invalidate :: rest) :
    rest = [] := by
  rcases List.eq_nil_or_concat rest with rfl | ⟨init, last, rfl⟩
  · rfl
  · have hmem : Round.invalidate ∈ (List.range j.correctOffset).map .correctBlock ++
        (List.range j.writeOffset).map .bufferWrite := by
      rw [rounds, ← List.append_assoc, List.concat_eq_append, ← List.cons_append,
        ← List.append_assoc] at h
      rw [(List.append_inj' h rfl).1]
      simp
    simp at hmem

end Rounds

theorem isValid_of_readHeader {d : Device} {h : Header} (hr : readHeader d = .ok h) :
    h.isValid = marked d := by
  unfold readHeader Device.readAt at hr
  split at hr
  · rename_i bs hbs
    split at hbs
    · cases hbs
      cases hr
      rfl
    · cases hbs
  · cases hr

/-! ### How far a replay is -/

/-- All that the rounds before `rest` have read is written. -/
structure Progress (v : Validated) (j : Journal) (rest : List Round) : Prop where
  entries : v.entries = recorded j
  written : ∃ done, rounds j = done ++ rest ∧ ∀ r ∈ done, ∀ e, r.entry? j = some e → e ∈ v.written

section Progress
variable {v v' : Validated} {j : Journal} {r : Round} {rest : List Round}

theorem Progress.start (h : v.entries = recorded j) : Progress v j (rounds j) :=
  ⟨h, [], rfl, by simp⟩

/-- What is left to do writes nothing. -/
theorem Progress.applied (h : Progress v j rest) (hrest : ∀ r ∈ rest, r.read = none) :
    v.Applied := by
  obtain ⟨done, heq, hdone⟩ := h.written
  intro e he
  rw [h.entries, recorded, heq] at he
  obtain ⟨r, hr, hre⟩ := List.mem_filterMap.mp he
  rcases List.mem_append.mp hr with hr | hr
  · exact hdone r hr e hre
  · simp [Round.entry?, hrest r hr] at hre

/-- One more entry is written. -/
theorem Progress.next (h : Progress v j (r :: rest)) (he : v'.entries = v.entries)
    (hsub : v.written ⊆ v'.written) (hr : ∀ e, r.entry? j = some e → e ∈ v'.written) :
    Progress v' j rest := by
  obtain ⟨done, heq, hdone⟩ := h.written
  refine ⟨he.trans h.entries, done ++ [r], by simp [heq], fun q hq e hqe => ?_⟩
  rcases List.mem_append.mp hq with hq | hq
  · exact hsub (hdone q hq e hqe)
  · rw [List.mem_singleton.mp hq] at hqe
    exact hr e hqe

theorem Progress.mono (h : Progress v j rest) (he : v'.entries = v.entries)
    (hsub : v.written ⊆ v'.written) : Progress v' j rest := by
  obtain ⟨done, heq, hdone⟩ := h.written
  exact ⟨he.trans h.entries, done, heq, fun r hr e hre => hsub (hdone r hr e hre)⟩

theorem Validated.Applied.mono (h : v.Applied) (he : v'.entries = v.entries)
    (hsub : v.written ⊆ v'.written) : v'.Applied := fun e hv => hsub (h e (he ▸ hv))

end Progress

/-! ### Who leaves the journal alone -/

section Journal
variable {hash : List UInt8 → UInt64} {numWorkers : ℕ} {s s' : Session} {ps : List Packet}
variable {m : SessionMove} {machine : Machine}

theorem journal_attempt {x : ServerOp Unit} {r : Machine × Bool}
    (hx : ∀ j, Keeps (fun m : Machine => m.journal = j) x) (hr : attempt x s.machine = some r) :
    r.1.journal = s.machine.journal :=
  attempt_of_ends (hx _ _ rfl) hr

theorem journal_moveWriter (h : s.moveWriter = some s') :
    s'.machine.journal = s.machine.journal ∧ s'.hashDisk = s.hashDisk := by
  rcases Session.moveWriter_cases h with ⟨q, -, rfl⟩ | ⟨p, -, rfl⟩ |
    ⟨p, -, ⟨-, rfl⟩ | ⟨w, r, -, hr, rfl⟩⟩
  · exact ⟨rfl, rfl⟩
  · exact ⟨rfl, rfl⟩
  · exact ⟨rfl, rfl⟩
  · have hj := journal_attempt (fun j => writeBufferWriteToReplica_keeps (fun _ _ h => h) w) hr
    split <;> exact ⟨hj, rfl⟩

theorem journal_moveCorrector (h : s.moveCorrector = some s') :
    s'.machine.journal = s.machine.journal ∧ s'.hashDisk = s.hashDisk := by
  rcases Session.moveCorrector_cases h with ⟨q, -, rfl⟩ | ⟨p, -, ⟨-, rfl⟩ | ⟨b, r, -, hr, rfl⟩⟩
  · exact ⟨rfl, rfl⟩
  · exact ⟨rfl, rfl⟩
  · exact ⟨journal_attempt (fun j => targetWriteAt_keeps (fun _ _ h => h) _ _ _) hr, rfl⟩

theorem journal_moveReplicator {i : ℕ} (h : s.moveReplicator i = some s') :
    s'.machine.journal = s.machine.journal ∧ s'.hashDisk = s.hashDisk := by
  rcases Session.moveReplicator_cases h with ⟨q, -, rfl⟩ | ⟨p, -, ⟨-, rfl⟩ | ⟨b, r, -, hr, rfl⟩⟩
  · exact ⟨rfl, rfl⟩
  · exact ⟨rfl, rfl⟩
  · exact ⟨journal_attempt (fun j => targetWriteAt_keeps (fun _ _ h => h) _ _ _) hr, rfl⟩

/-- What brings the server down in a write to the target leaves the journal alone. -/
theorem journal_wreck (h : s.wreck m = some machine)
    (hj : (∀ sent, m = .journaler sent → s.journalQueue.busy? 0 = none) ∧
      (m = .startHash → s.hashDisk.phase ≠ .resetting)) :
    machine.journal = s.machine.journal := by
  obtain ⟨x, hx, h⟩ := Option.bind_eq_some_iff.mp h
  have hk : Keeps (fun m : Machine => m.journal = s.machine.journal) x := by
    cases m with
    | receive p | handler sent | hash m => cases hx
    | writer =>
        simp only [Session.operation] at hx
        split at hx <;> cases hx
        exact writeBufferWriteToReplica_keeps (fun _ _ h => h) _
    | corrector =>
        simp only [Session.operation] at hx
        split at hx <;> cases hx
        exact targetWriteAt_keeps (fun _ _ h => h) _ _ _
    | replicator i =>
        simp only [Session.operation] at hx
        split at hx <;> cases hx
        exact targetWriteAt_keeps (fun _ _ h => h) _ _ _
    | journaler sent =>
        simp only [Session.operation, hj.1 sent rfl] at hx
        cases hx
    | startHash =>
        rw [Session.operation, if_neg (hj.2 rfl)] at hx
        cases hx
  have := hk s.machine rfl
  unfold Ends at this
  split at h
  · cases h
  · cases h
  · rename_i g m' _ hr
    cases h
    rw [hr] at this
    exact this

/-- `HandleClient` is writing the journal to the target, and nobody else uses it. -/
structure Still (s : Session) : Prop where
  handler : s.handler = .writingJournal
  workers : s.journalQueue.workers = []
  reset : WasReset s

theorem Still.busy? (h : Still s) : s.journalQueue.busy? 0 = none := by
  simp [Pool.busy?, h.workers]

theorem Still.of_frame (h : Still s) (hf : s.Frame s')
    (hj : s'.machine.journal = s.machine.journal ∧ s'.hashDisk = s.hashDisk) :
    Still s' ∧ s'.machine.journal = s.machine.journal :=
  ⟨⟨hf.handler.trans h.handler, by rw [hf.journalQueue, h.workers],
    by unfold WasReset; rw [hj.2]; exact h.reset⟩, hj.1⟩

theorem Still.move (h : Still s) (hm : s.move hash numWorkers m = some (s', ps))
    (hne : ∀ sent, m ≠ .handler sent) : Still s' ∧ s'.machine.journal = s.machine.journal := by
  cases Session.move_cases hm with
  | receive hs => cases h.handler.symm.trans hs
  | handler _ => exact absurd rfl (hne _)
  | writer hs => exact h.of_frame (Session.frame_moveWriter hs) (journal_moveWriter hs)
  | corrector hs => exact h.of_frame (Session.frame_moveCorrector hs) (journal_moveCorrector hs)
  | replicator hs => exact h.of_frame (Session.frame_moveReplicator hs) (journal_moveReplicator hs)
  | journaler ht =>
      simp [Session.moveJournaler, h.busy?, Pool.receive, h.workers] at ht
  | startHash hs =>
      rcases Session.moveStartHash_cases hs with ⟨hp, -⟩ | ⟨hp, -⟩
      · exact absurd hp h.reset.1
      · exact absurd hp h.reset.2
  | hash hd' =>
      obtain ⟨-, hp⟩ := HashDisk.phase_move hd'
      refine ⟨⟨h.handler, h.workers, ?_, ?_⟩, rfl⟩ <;> rcases hp with hp | hp <;> simp [hp]

/-- The queue of the journal is drained before the journal is written to the target. -/
def Drained (s : Session) : Prop := s.handler = .writingJournal → s.journalQueue.workers = []

theorem drained_of_ne (h : s.handler ≠ .writingJournal) : Drained s := fun hw => absurd hw h

theorem Drained.of_frame (h : Drained s) (hf : s.Frame s') : Drained s' := fun hw => by
  rw [hf.journalQueue]
  exact h (hf.handler ▸ hw)

theorem receive_ne_writingJournal (hs : s.handler = .receiving) (p : Packet) :
    (s.receive p).handler ≠ .writingJournal := by
  have hdata : Session.IsControl p = false → (s.receive p).handler ≠ .writingJournal := by
    intro hp
    rcases Session.receive_of_data hp s with ⟨queue, -, hr⟩ | ⟨-, hr⟩
    · simp [hr]
    · simp [hr, hs]
  cases p with
  | cmdStartHashing | cmdStartFullScan | infoHashingCompleted | infoReplicationCompleted
  | infoStartReplication => simp [Session.receive]
  | _ => exact hdata rfl

theorem drained_moveHandler {sent : Sent} (hm : s.moveHandler numWorkers sent = some (s', ps)) :
    Drained s' := by
  cases Session.moveHandler_cases hm with
  | scanDrained => exact fun _ => rfl
  | _ => exact drained_of_ne (by simp)

theorem Drained.move (h : Drained s) (hm : s.move hash numWorkers m = some (s', ps)) :
    Drained s' := by
  cases Session.move_cases hm with
  | receive hs => exact drained_of_ne (receive_ne_writingJournal hs _)
  | handler ht => exact drained_moveHandler ht
  | writer hs => exact h.of_frame (Session.frame_moveWriter hs)
  | corrector hs => exact h.of_frame (Session.frame_moveCorrector hs)
  | replicator hs => exact h.of_frame (Session.frame_moveReplicator hs)
  | journaler ht =>
      intro hw
      have hwork := h ((handler_moveJournaler ht) ▸ hw)
      simp [Session.moveJournaler, Pool.busy?, Pool.receive, hwork] at ht
  | startHash hs => exact h.of_frame (Session.frame_moveStartHash hs)
  | hash _ => exact h

end Journal

/-! ### What a move does to the archive -/

namespace Archive

/-- The server is running, and not replaying. -/
def Settled (p : Phase) : Prop :=
  match p with
  | .accepting | .greeting | .serving | .returning _ => True
  | _ => False

section After
variable {a : Archive} {m : DaemonMove} {d' : Daemon} {v v' : Validated}

theorem validates_of_settled (hp : Settled a.daemon.phase) : a.daemon.validates m = false := by
  unfold Daemon.validates
  split
  · split
    · rename_i hph
      rw [hph] at hp
      exact hp.elim
    · rfl
  · rfl

/-- A valid journal after a move that validated none. -/
theorem current_after (hv : a.daemon.validates m = false)
    (h : (a.after m d').current = some v') : ∃ v, a.current = some v ∧
      v' = { v with
        written := v.written ++ (a.daemon.replays m).toList
        direct := v.direct ++ (a.daemon.writes m).toList } := by
  simp only [after, note, hv, Bool.false_eq_true, if_false, Option.ite_none_right_eq_some] at h
  obtain ⟨v, hcur, rfl⟩ := Option.map_eq_some_iff.mp h.2
  exact ⟨v, hcur, rfl⟩

theorem marked_after (h : (a.after m d').current = some v') : marked d'.disk = true := by
  simp only [after, Option.ite_none_right_eq_some] at h
  exact h.1

theorem honoured_after (h : a.Honoured)
    (hv : marked d'.disk = false → ∀ v, a.current = some v → v.Applied) :
    (a.after m d').Honoured := by
  simp only [Honoured, after]
  split
  · exact h
  · rename_i hm
    intro v hmem
    rcases List.mem_append.mp hmem with hmem | hmem
    · exact h v hmem
    · exact hv (by simpa using hm) v (by simpa using hmem)

theorem applied_after (hv : a.daemon.validates m = false)
    (h : ∀ v, a.current = some v → v.Applied) (h' : (a.after m d').current = some v') :
    v'.Applied := by
  obtain ⟨v, hcur, rfl⟩ := current_after hv h'
  exact (h v hcur).mono rfl (List.subset_append_left _ _)

end After

end Archive

end Bdr.Server
