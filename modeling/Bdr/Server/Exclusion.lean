import Bdr.Server.Archive

/-!
# Server — Exclusion

While a journal is valid, no buffer write should be applied that a replay would overwrite with an
older entry.  `WriteJournalToReplica` marks the journal when the state is not `StateWriting`, so
that `HandleWritePackets` drops what it takes.  But when it returns an error the flag stays set, and
`HandleClient` goes on to `StateWriting` all the same; and a write that `HandleWritePackets` of this
session or an earlier one has begun is not waited for.
-/

namespace Bdr.Server

open Journal

namespace Archive

/-- `WriteJournalToReplica` does not fail, and no buffer write is on its way to the target when it
begins. -/
def excludes (a : Archive) : DaemonMove → Prop
  | .session (.handler _) =>
      match a.daemon.phase with
      | .serving => a.daemon.session.handler = .writingJournal →
          a.daemon.session.state ≠ .writing ∧ a.daemon.session.writing? = none ∧
            ∀ l ∈ a.daemon.leftovers, l.writing? = none
      | .replaying (r :: _) => fails r.write a.daemon.session.machine = false
      | _ => True
  | _ => True

instance (a : Archive) (m : DaemonMove) : Decidable (a.excludes m) := by
  unfold excludes
  split <;> try split
  all_goals infer_instance

/-- No buffer write is on its way to the target, nor will one be while `HandleClient` writes the
journal. -/
structure Barred (d : Daemon) : Prop where
  handler : d.session.handler = .writingJournal
  state : d.session.state ≠ .writing
  session : d.session.writing? = none
  leftovers : ∀ l ∈ d.leftovers, l.writing? = none

/-- A buffer write is applied directly only while no journal is valid. -/
structure Alone (a : Archive) : Prop where
  exclusive : a.Exclusive
  phase : match a.daemon.phase with
    | .down | .copying _ => a.daemon.leftovers = []
    | .accepting | .greeting => a.current = none ∨ a.daemon.leftovers = []
    | .serving | .returning _ => a.current = none
    | .replaying rest => Barred a.daemon ∧ .validate ∉ rest.tail ∧
        (.invalidate ∈ rest ∨ a.current = none ∧ .validate ∉ rest)

section Alone
variable {hash : List UInt8 → UInt64} {numWorkers : ℕ} {a : Archive} {d d' : Daemon}
variable {m : DaemonMove} {s s' : Session} {ps : List Packet}

/-- Without `StateWriting` the next buffer write is dropped. -/
theorem writing?_moveWriter (hs : s.state ≠ .writing) (hw : s.writing? = none)
    (hm : s.moveWriter = some s') : s'.writing? = none := by
  rcases Session.moveWriter_cases hm with ⟨q, hq, rfl⟩ | ⟨p, hp, rfl⟩ |
    ⟨p, hp, ⟨-, rfl⟩ | ⟨w, r, rfl, -⟩⟩
  · obtain ⟨-, ⟨b, -, hb⟩ | ⟨-, -, hb⟩⟩ := Pool.busy?_receive hq <;> simp [Session.writing?, hb]
  · simp [Session.writing?, Session.setWriter, if_neg hs, Pool.busy?_setWorker hp]
  · simp [Session.writing?, Session.setWriter, Pool.busy?_setWorker hp]
  · simp [Session.writing?, hp] at hw

theorem writing?_moveCorrector (hm : s.moveCorrector = some s') : s'.writing? = s.writing? := by
  rcases Session.moveCorrector_cases hm with ⟨q, -, rfl⟩ | ⟨p, -, ⟨-, rfl⟩ | ⟨b, r, -, -, rfl⟩⟩ <;>
    rfl

theorem Barred.session_move (h : Barred d) {k : SessionMove} (hne : ∀ sent, k ≠ .handler sent)
    (hm : d.session.move hash numWorkers k = some (s', ps)) : Barred { d with session := s' } := by
  have hframe : d.session.Frame s' → s'.writing? = none → Barred { d with session := s' } :=
    fun hf hw =>
      ⟨hf.handler.trans h.handler, by simpa only [hf.state] using h.state, hw, h.leftovers⟩
  cases Session.move_cases hm with
  | receive hs => cases h.handler.symm.trans hs
  | handler _ => exact absurd rfl (hne _)
  | writer hs =>
      exact hframe (Session.frame_moveWriter hs) (writing?_moveWriter h.state h.session hs)
  | corrector hs =>
      exact hframe (Session.frame_moveCorrector hs) ((writing?_moveCorrector hs).trans h.session)
  | replicator hs =>
      refine hframe (Session.frame_moveReplicator hs) ?_
      rcases Session.moveReplicator_cases hs with ⟨q, -, rfl⟩ |
        ⟨p, -, ⟨-, rfl⟩ | ⟨b, r, -, -, rfl⟩⟩ <;> exact h.session
  | journaler ht =>
      rcases Session.moveJournaler_cases ht with ⟨q, -, rfl, -⟩ | ⟨p, -, -, rfl⟩ |
        ⟨p, r, -, -, ⟨-, rfl, -⟩ | ⟨-, rfl, -⟩⟩ | ⟨-, -, rfl⟩
      · exact ⟨h.handler, h.state, h.session, h.leftovers⟩
      · exact ⟨h.handler, h.state, h.session, h.leftovers⟩
      · exact ⟨h.handler, h.state, h.session, h.leftovers⟩
      · exact ⟨h.handler, h.state, h.session, h.leftovers⟩
      · exact ⟨h.handler, by simp, h.session, h.leftovers⟩
  | startHash hs =>
      refine hframe (Session.frame_moveStartHash hs) ?_
      rcases Session.moveStartHash_cases hs with ⟨-, rfl⟩ | ⟨-, r, -, rfl⟩ <;> exact h.session
  | hash _ => exact ⟨h.handler, h.state, h.session, h.leftovers⟩

theorem Barred.leftover_move (h : Barred d) {i : ℕ} {k : SessionMove} {l l' : Session}
    (hk : k = .writer ∨ k = .corrector) (hl : d.leftovers[i]? = some l)
    (hm : (d.lend l).move hash numWorkers k = some (l', ps)) :
    Barred { d.setMachine l'.machine with leftovers := d.leftovers.set i l' } := by
  have hw : l.writing? = none := h.leftovers l (List.mem_of_getElem? hl)
  have hw' : l'.writing? = none := by
    rcases hk with rfl | rfl
    · obtain ⟨s₁, hs, heq⟩ := Option.map_eq_some_iff.mp hm
      cases heq
      exact writing?_moveWriter (s := d.lend l) h.state hw hs
    · obtain ⟨s₁, hs, heq⟩ := Option.map_eq_some_iff.mp hm
      cases heq
      exact (writing?_moveCorrector hs).trans hw
  refine ⟨h.handler, h.state, h.session, fun x hx => ?_⟩
  rcases List.mem_or_eq_of_mem_set hx with hx | rfl
  · exact h.leftovers x hx
  · exact hw'

theorem exclusive_after (h : a.Exclusive) (hw : a.current = none ∨ a.daemon.writes m = none) :
    (a.after m d').Exclusive := by
  intro v' hv'
  cases hval : a.daemon.validates m with
  | true =>
      simp only [after, note, hval, if_true, Option.ite_none_right_eq_some,
        Option.some.injEq] at hv'
      obtain ⟨-, rfl⟩ := hv'
      rfl
  | false =>
      obtain ⟨v, hcur, rfl⟩ := current_after hval hv'
      rcases hw with hw | hw
      · cases hw.symm.trans hcur
      · simp [h v hcur, hw]

theorem current_after_none (hv : a.daemon.validates m = false) (hcur : a.current = none) :
    (a.after m d').current = none := by
  simp [after, note, hv, hcur]

/-- A header that has been written clears the flag. -/
theorem marked_of_invalidate {j j' : Journal} (h : invalidate j = .ok () j') :
    marked j'.disk = false := by
  obtain ⟨hsize, plan, rfl⟩ := invalidate_eq_ok h
  have hstored : HeaderStored (withHeader { j with disk := j.disk.replan plan }
      j.header.setInvalidFlag) := headerStored_withHeader _ hsize
  unfold HeaderStored at hstored
  rw [marked, hstored, Header.ofBytes_toBytes]
  exact Header.isValid_setInvalidFlag _

/-- A move that applies no buffer write, or finds no valid journal, and what remains to be seen. -/
theorem Alone.of_phase (h : a.Alone) (hw : a.current = none ∨ a.daemon.writes m = none)
    (hp : match d'.phase with
      | .down | .copying _ => d'.leftovers = []
      | .accepting | .greeting => (a.after m d').current = none ∨ d'.leftovers = []
      | .serving | .returning _ => (a.after m d').current = none
      | .replaying rest => Barred d' ∧ .validate ∉ rest.tail ∧
          (.invalidate ∈ rest ∨ (a.after m d').current = none ∧ .validate ∉ rest)) :
    (a.after m d').Alone := ⟨exclusive_after h.exclusive hw, hp⟩

/-- A round of `WriteJournalToReplica`. -/
theorem Alone.write (h : a.Alone) {sent : Sent} (hok : a.excludes (.session (.handler sent)))
    {rest : List Round} (hp : a.daemon.phase = .replaying rest) :
    (a.after (.session (.handler sent)) (a.daemon.writeRound rest)).Alone := by
  have hphase := h.phase
  rw [hp] at hphase
  obtain ⟨hb, htail, hrest⟩ := hphase
  cases rest with
  | nil =>
      have hv : a.daemon.validates (.session (.handler sent)) = false := by
        simp [Daemon.validates, hp]
      have hcur : a.current = none := by simpa using hrest
      exact h.of_phase (.inl hcur) (current_after_none hv hcur)
  | cons r rest =>
      have hok : fails r.write a.daemon.session.machine = false := by
        simpa only [excludes, hp] using hok
      simp only [Daemon.writeRound]
      cases hr : r.write a.daemon.session.machine with
      | ok u machine =>
          refine h.of_phase (.inr rfl) ⟨⟨hb.handler, hb.state, hb.session, hb.leftovers⟩,
            fun hmem => htail (List.mem_of_mem_tail hmem), ?_⟩
          by_cases hinv : r = .invalidate
          · subst hinv
            have hm : marked machine.journal.disk = false := by
              obtain ⟨j', hj, rfl⟩ := onJournal_eq_ok hr
              exact marked_of_invalidate hj
            exact .inr ⟨if_neg (by simpa [Daemon.disk, Daemon.setMachine] using hm), htail⟩
          · rcases hrest with hrest | ⟨hcur, hval⟩
            · exact .inl ((List.mem_cons.mp hrest).resolve_left fun h => hinv h.symm)
            · refine .inr ⟨current_after_none ?_ hcur, htail⟩
              cases r <;> simp [Daemon.validates, hp] at hval ⊢
      | error g machine =>
          cases g with
          | err e => simp [fails, hr] at hok
          | panic | powerLoss => exact h.of_phase (.inr rfl) rfl

theorem Alone.session (h : a.Alone) {k : SessionMove} (hok : a.excludes (.session k))
    (hs : a.daemon.step hash numWorkers (.session k) = some d') :
    (a.after (.session k) d').Alone := by
  rcases Daemon.session_cases hs with ⟨⟨sent, rfl⟩, hp, hw, rfl⟩ | ⟨⟨sent, rfl⟩, rest, hp, rfl⟩ |
    ⟨hplain, hm⟩
  · have hok : a.daemon.session.handler = .writingJournal →
        a.daemon.session.state ≠ .writing ∧ a.daemon.session.writing? = none ∧
          ∀ l ∈ a.daemon.leftovers, l.writing? = none := by
      simpa only [excludes, hp] using hok
    obtain ⟨hst, hses, hl⟩ := hok hw
    exact h.of_phase (.inr rfl)
      ⟨⟨hw, hst, hses, hl⟩, by simp [rounds], .inl (by simp [rounds])⟩
  · exact h.write hok hp
  · have hphase := h.phase
    cases hp : a.daemon.phase with
    | down | copying rest | accepting | greeting => simp [Daemon.Plain, hp] at hplain
    | replaying rest =>
        rw [hp] at hphase
        obtain ⟨hb, htail, hrest⟩ := hphase
        have hne : ∀ sent, k ≠ .handler sent := by simpa only [Daemon.Plain, hp] using hplain
        have hv : a.daemon.validates (.session k) = false := by
          cases k <;> first | rfl | exact absurd rfl (hne _)
        have hw : a.daemon.writes (.session k) = none := by
          cases k <;> first | rfl | exact hb.session
        rcases Daemon.moveSession_cases hm with ⟨s, ps, hmove, rfl⟩ | ⟨machine, -, rfl⟩
        · have hb' := hb.session_move hne hmove
          refine h.of_phase (.inr hw) ?_
          simp only [hp] at hb' ⊢
          exact ⟨hb', htail, hrest.imp_right (·.imp_left (current_after_none hv))⟩
        · exact h.of_phase (.inr hw) rfl
    | serving | returning stage =>
        rw [hp] at hphase
        have hsettled : Settled a.daemon.phase := by rw [hp]; trivial
        have hv := validates_of_settled (m := .session k) hsettled
        rcases Daemon.moveSession_cases hm with ⟨s, ps, hmove, rfl⟩ | ⟨machine, -, rfl⟩
        · refine h.of_phase (.inl hphase) ?_
          simp only [hp]
          exact current_after_none hv hphase
        · exact h.of_phase (.inl hphase) rfl

theorem Alone.leftover (h : a.Alone) {i : ℕ} {k : SessionMove}
    (hs : a.daemon.step hash numWorkers (.leftover i k) = some d') :
    (a.after (.leftover i k) d').Alone := by
  simp only [Daemon.step, Option.ite_none_right_eq_some] at hs
  obtain ⟨hk, hs⟩ := hs
  obtain ⟨l, hl, hcase⟩ := Daemon.moveLeftover_cases hs
  have hne : a.daemon.leftovers ≠ [] := by
    rintro hnil
    simp [hnil] at hl
  have hv : a.daemon.validates (.leftover i k) = false := rfl
  have hphase := h.phase
  have hstop : ∀ machine, a.current = none ∨ a.daemon.writes (.leftover i k) = none →
      (a.after (.leftover i k) (.down machine)).Alone := fun machine hw => h.of_phase hw rfl
  cases hp : a.daemon.phase with
  | down | copying rest =>
      rw [hp] at hphase
      exact absurd hphase hne
  | accepting | greeting =>
      rw [hp] at hphase
      have hcur := hphase.resolve_right hne
      rcases hcase with ⟨l', ps, -, rfl⟩ | ⟨machine, -, rfl⟩
      · refine h.of_phase (.inl hcur) ?_
        simp only [Daemon.setMachine, hp]
        exact .inl (current_after_none hv hcur)
      · exact hstop machine (.inl hcur)
  | serving | returning stage =>
      rw [hp] at hphase
      rcases hcase with ⟨l', ps, -, rfl⟩ | ⟨machine, -, rfl⟩
      · refine h.of_phase (.inl hphase) ?_
        simp only [Daemon.setMachine, hp]
        exact current_after_none hv hphase
      · exact hstop machine (.inl hphase)
  | replaying rest =>
      rw [hp] at hphase
      obtain ⟨hb, htail, hrest⟩ := hphase
      have hw : a.daemon.writes (.leftover i k) = none := by
        rcases hk with rfl | rfl
        · simp [Daemon.writes, hl, hb.leftovers l (List.mem_of_getElem? hl)]
        · rfl
      rcases hcase with ⟨l', ps, hmove, rfl⟩ | ⟨machine, -, rfl⟩
      · have hb' := hb.leftover_move hk hl hmove
        refine h.of_phase (.inr hw) ?_
        simp only [Daemon.setMachine, hp] at hb' ⊢
        exact ⟨hb', htail, hrest.imp_right (·.imp_left (current_after_none hv))⟩
      · exact hstop machine (.inr hw)

theorem Alone.step (h : a.Alone) (hok : a.excludes m)
    (hs : a.daemon.step hash numWorkers m = some d') : (a.after m d').Alone := by
  have hphase := h.phase
  cases m with
  | boot =>
      simp only [Daemon.step, Option.ite_none_right_eq_some, Option.some.injEq] at hs
      obtain ⟨hp, rfl⟩ := hs
      rw [hp] at hphase
      refine h.of_phase (.inr rfl) ?_
      -- no session is there at a start, whatever `CheckJournal` finds
      rcases a.daemon.boot_cases with ⟨e, -, hb | hb⟩ | ⟨j, -, ⟨-, hb⟩ | ⟨-, hb⟩⟩
      · rw [hb]
        exact .inr hphase
      · rw [hb, hp]
        exact hphase
      · rw [hb]
        exact .inr hphase
      · rw [hb]
        exact hphase
  | copy =>
      simp only [Daemon.step] at hs
      split at hs
      · rename_i rest hp
        cases hs
        rw [hp] at hphase
        refine h.of_phase (.inr rfl) ?_
        cases rest with
        | nil => exact .inr hphase
        | cons r rest =>
            simp only [Daemon.copyRound]
            cases r.copy a.daemon.session.machine with
            | ok u machine => exact hphase
            | error g machine => rfl
      · cases hs
  | accept =>
      simp only [Daemon.step, Option.ite_none_right_eq_some, Option.some.injEq] at hs
      obtain ⟨hp, rfl⟩ := hs
      rw [hp] at hphase
      exact h.of_phase (.inr rfl) (hphase.imp_left (current_after_none rfl))
  | refuse =>
      simp only [Daemon.step, Option.ite_none_right_eq_some, Option.some.injEq] at hs
      obtain ⟨hp, rfl⟩ := hs
      rw [hp] at hphase
      exact h.of_phase (.inr rfl) (hphase.imp_left (current_after_none rfl))
  | greet info =>
      simp only [Daemon.step, Option.ite_none_right_eq_some, Option.some.injEq] at hs
      obtain ⟨hp, rfl⟩ := hs
      rw [hp] at hphase
      refine h.of_phase (.inr rfl) ?_
      rcases a.daemon.greet_cases info with ⟨k, hg⟩ | ⟨k, hg⟩ | ⟨j, j', hj, hg⟩
      · rw [hg]
        exact hphase.imp_left (current_after_none rfl)
      · rw [hg]
        rfl
      -- the new journal is marked invalid, which retires the one on the disk
      · rw [hg]
        exact if_neg (by simp [Daemon.disk, Session.start, marked_of_invalidate hj])
  | session k => exact h.session hok hs
  | hangUp =>
      simp only [Daemon.step, Option.ite_none_right_eq_some, Option.some.injEq] at hs
      obtain ⟨⟨hp, -⟩, rfl⟩ := hs
      rw [hp] at hphase
      exact h.of_phase (.inr rfl) (current_after_none rfl hphase)
  | wrapUp =>
      simp only [Daemon.step] at hs
      split at hs
      · rename_i stage hp
        rw [hp] at hphase
        have hcur : ∀ d', (a.after .wrapUp d').current = none := fun _ =>
          current_after_none rfl hphase
        cases stage with
        | replicationWg | journalWg =>
            simp only [Daemon.wrapUp, Option.ite_none_right_eq_some, Option.some.injEq] at hs
            obtain ⟨-, rfl⟩ := hs
            exact h.of_phase (.inr rfl) (hcur _)
        | hashWg =>
            simp only [Daemon.wrapUp, Option.ite_none_right_eq_some, Option.some.injEq] at hs
            obtain ⟨-, rfl⟩ := hs
            exact h.of_phase (.inr rfl) (.inl (hcur _))
      · cases hs
  | leftover i k => exact h.leftover hs
  | crash =>
      cases hs
      exact h.of_phase (.inr rfl) rfl

/-- **Replaying a valid journal is safe**: no buffer write has been applied directly since the
journal was validated, in a run in which `WriteJournalToReplica` does not fail and no buffer write
is on its way when it begins. -/
theorem exclusive_of_excludes {machine : Machine} {moves : List DaemonMove}
    (hrun : Run (Archive.step hash numWorkers) excludes (start machine) moves a) :
    a.Exclusive := by
  have hstart : (start machine).Alone :=
    ⟨fun v hv => (current_start hv).2, rfl⟩
  have halone : a.Alone := hrun.invariant (I := Alone) (fun _ _ _ h hok hs => by
    obtain ⟨d', hd', rfl⟩ := Option.map_eq_some_iff.mp hs
    exact h.step hok hd') hstart
  exact halone.exclusive

end Alone

/-- A target of one byte, and a device for a journal without room for entries.  `plan` is for the
latter. -/
def bareMachine (plan : List Outcome) : Machine :=
  { Daemon.freshMachine with journal.disk := (sevens 65 Daemon.freshMachine_size_lt).replan plan }

/-- `HashDisk` on one byte, with one worker of each kind. -/
def hashOneByte : List HashMove :=
  ([.announce .ok, .generator, .generator, .generator] : List HashMove) ++
    List.replicate 5 (HashMove.reader 0 false) ++ [HashMove.closeWork] ++
    List.replicate 4 (HashMove.hasher 0) ++ [HashMove.closeResults] ++
    List.replicate 4 (HashMove.sender 0 .ok) ++ [HashMove.complete .ok]

/-- A scan, up to the moment `WriteJournalToReplica` has marked the journal. -/
def scanToMark : List SessionMove :=
  ([.receive .cmdStartHashing, .handler .ok, .handler .ok, .startHash, .startHash] :
      List SessionMove) ++ hashOneByte.map SessionMove.hash ++
    ([.receive .infoHashingCompleted, .journaler .ok, .handler .ok, .handler .ok, .handler .ok] :
      List SessionMove)

/-- The journal cannot be retired, and a buffer write comes. -/
def writeAfterScan : List SessionMove :=
  [.handler .ok, .handler .ok, .receive (.payloadBufferWrite ⟨0, 1, [9]⟩), .handler .ok, .writer,
    .writer, .writer]

/-- A server that serves its first client. -/
def serve (moves : List SessionMove) : List DaemonMove :=
  [.boot, .accept, .greet ⟨1, 4108, 1⟩] ++ moves.map .session

/-! ### A reset of a journal without slots

`ResetTo` makes up a cleared slot of the section's size even if there is none to clear, so that the
runs below are not evaluated through it. -/

theorem clearSectionTo_zero {s : Section} (hs : 12 ≤ s.slot) (j : Journal) :
    clearSectionTo s 0 j = .ok () j := by
  rw [clearSectionTo, if_neg (Nat.not_lt_zero _)]
  exact clearSlots_eq hs 0

theorem resetTo_zero {j j' : Journal} (hw : 12 ≤ j.header.bufWrites.slot)
    (hb : 12 ≤ j.header.corrBlocks.slot) (h : invalidate j = .ok () j') :
    resetTo 0 0 j = .ok () { j' with writeOffset := 0, correctOffset := 0 } := by
  obtain ⟨-, plan, rfl⟩ := invalidate_eq_ok h
  exact (bind_of_ok h).trans ((bind_of_ok (clearSectionTo_zero hw _)).trans
    (bind_of_ok (clearSectionTo_zero hb _)))

/-- The move resets a journal that has no entries. -/
def resetsEmpty (a : Archive) : Bool :=
  a.daemon.phase = .serving && a.daemon.session.hashDisk.phase = .resetting &&
    a.daemon.session.machine.journal.writeOffset = 0 &&
    a.daemon.session.machine.journal.correctOffset = 0 &&
    12 ≤ a.daemon.session.machine.journal.header.bufWrites.slot &&
    12 ≤ a.daemon.session.machine.journal.header.corrBlocks.slot

def resetEmpty (a : Archive) : Option Archive :=
  match invalidate a.daemon.session.machine.journal with
  | .ok _ j => some (a.after (.session .startHash)
      { a.daemon with
        session := (a.daemon.session.setJournal
          { j with writeOffset := 0, correctOffset := 0 }).setPhase .announcing })
  | .error _ _ => none

theorem step_of_resetEmpty {hash : List UInt8 → UInt64} {numWorkers : ℕ} {a a' : Archive}
    (h : a.resetsEmpty = true) (ha : a.resetEmpty = some a') :
    step hash numWorkers a (.session .startHash) = some a' := by
  simp only [resetsEmpty, Bool.and_eq_true, decide_eq_true_eq] at h
  obtain ⟨⟨⟨⟨⟨hp, hh⟩, hw⟩, hb⟩, hws⟩, hbs⟩ := h
  unfold resetEmpty at ha
  split at ha
  · rename_i j hinv
    cases ha
    have hreset := resetTo_zero hws hbs hinv
    simp only [step, Daemon.step, hp, Daemon.moveSession, Session.move, Session.moveStartHash, hh,
      hw, hb, attempt, hreset, Option.map_some]
  · cases ha

/-- A run through such a move. -/
theorem any_exec_of_resetEmpty (st : Archive → DaemonMove → Option Archive)
    (hst : ∀ a a', a.resetsEmpty = true → a.resetEmpty = some a' →
      st a (.session .startHash) = some a')
    (a : Archive) (as bs : List DaemonMove) {P : Archive → Bool}
    (h : ((((exec st a as).filter resetsEmpty).bind resetEmpty).bind (exec st · bs)).any P = true) :
    (exec st a (as ++ .session .startHash :: bs)).any P = true := by
  obtain ⟨a₃, h₃, hP⟩ := (Option.any_eq_true _ _).mp h
  obtain ⟨a₂, h₂, h₃⟩ := Option.bind_eq_some_iff.mp h₃
  obtain ⟨a₁, h₁, h₂⟩ := Option.bind_eq_some_iff.mp h₂
  obtain ⟨h₁, hempty⟩ := Option.filter_eq_some_iff.mp h₁
  rw [exec_append, h₁, Option.bind_some, exec, hst a₁ a₂ hempty h₂, Option.bind_some, h₃]
  exact hP

/-- The scan up to its reset of the journal. -/
def scanToReset : List SessionMove :=
  [.receive .cmdStartHashing, .handler .ok, .handler .ok, .startHash]

/-- The scan from its reset on. -/
def resetToMark : List SessionMove :=
  hashOneByte.map .hash ++
    [.receive .infoHashingCompleted, .journaler .ok, .handler .ok, .handler .ok, .handler .ok]

theorem serve_scanToMark (moves : List SessionMove) : serve (scanToMark ++ moves) =
    serve scanToReset ++ .session .startHash :: (resetToMark ++ moves).map .session := rfl

theorem exclusive_of_excludes_bareMachine : ∃ a,
    Run (step (fun _ => 3) 1) excludes (start (bareMachine [])) (serve scanToMark) a ∧
      a.current.isSome ∧ a.Exclusive := by
  obtain ⟨a, ha, hr⟩ := exists_exec (P := fun a : Archive => a.current.isSome)
    (any_exec_of_resetEmpty (guarded (step (fun _ => 3) 1) excludes)
      (fun _ _ h ha => (if_pos trivial).trans (step_of_resetEmpty h ha)) (start (bareMachine []))
      (serve scanToReset) (resetToMark.map .session) (by decide +kernel))
  have hmoves : serve scanToReset ++ .session .startHash :: resetToMark.map .session =
      serve scanToMark := rfl
  rw [hmoves] at ha
  have hrun := Run.of_exec_guarded ha
  exact ⟨a, hrun, hr, exclusive_of_excludes hrun⟩

/-- The fourth time, the header cannot be written: the journal stays valid, and the next buffer
write is applied. -/
theorem not_exclusive_of_failed_invalidate : ∃ a,
    exec (step (fun _ => 3) 1) (start (bareMachine [.done, .done, .done, .short 0]))
      (serve (scanToMark ++ writeAfterScan)) = some a ∧
      marked a.daemon.disk = true ∧ a.daemon.session.machine.target.bytes 0 = 9 ∧
      ¬ a.Exclusive := by
  obtain ⟨a, ha, hr⟩ := exists_exec (P := fun a : Archive => marked a.daemon.disk &&
      decide (a.daemon.session.machine.target.bytes 0 = 9) &&
      a.current.any fun v => !v.direct.isEmpty)
    (any_exec_of_resetEmpty (step (fun _ => 3) 1) (fun _ _ => step_of_resetEmpty)
      (start (bareMachine [.done, .done, .done, .short 0])) (serve scanToReset)
      ((resetToMark ++ writeAfterScan).map .session) (by decide +kernel))
  rw [← serve_scanToMark] at ha
  simp only [Bool.and_eq_true, decide_eq_true_eq, Option.any_eq_true] at hr
  obtain ⟨⟨hm, h9⟩, v, hv, hd⟩ := hr
  refine ⟨a, ha, hm, h9, fun h => ?_⟩
  simp [h v hv] at hd

end Archive

end Bdr.Server
