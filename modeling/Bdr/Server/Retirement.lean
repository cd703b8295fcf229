import Bdr.Server.Archive

/-!
# Server — Retirement

A journal should be retired only when all of it has been written to the target.  It is not if a
write fails: `CopyJournalToReplica` takes no notice of it, and an error in `WriteJournalToReplica`
leaves the flag set, to be cleared by the next scan or the next client.  Nor is it if `CheckJournal`
cannot open the journal, and goes on without it: again the next client clears the flag.

It is in every run in which these do not happen, whenever the machine goes down.
-/

namespace Bdr.Server

open Journal

namespace Archive

/-- A replay is completed: the server opens a valid journal when it starts and finds all that is
recorded in it, and no write of a replay fails.  Nor does a scan reset the journal while it is
written to the target. -/
def completes (a : Archive) : DaemonMove → Prop
  | .boot =>
      match a.current, openJournal a.daemon.disk with
      | none, _ => True
      | some v, .ok j => recorded j = v.entries
      | some _, .error _ => False
  | .copy =>
      match a.daemon.phase with
      | .copying (r :: _) => ∀ e ∈ r.entry? a.daemon.session.machine.journal,
          fails (r.apply e) a.daemon.session.machine = false
      | _ => True
  | .session (.handler _) =>
      match a.daemon.phase with
      | .serving => a.daemon.session.handler = .writingJournal → WasReset a.daemon.session
      | .replaying (r :: _) => r ≠ .invalidate → fails r.write a.daemon.session.machine = false
      | _ => True
  | _ => True

instance (a : Archive) (m : DaemonMove) : Decidable (a.completes m) :=
  match m with
  | .boot => by
      dsimp only [completes]
      exact match a.current, openJournal a.daemon.disk with
        | none, _ => inferInstance
        | some v, .ok j => inferInstance
        | some _, .error _ => inferInstance
  | .copy => by
      dsimp only [completes]
      exact match a.daemon.phase with
        | .copying (_ :: _) => inferInstance
        | .copying [] | .down | .accepting | .greeting | .serving | .replaying _
        | .returning _ => inferInstance
  | .session (.handler _) => by
      dsimp only [completes]
      exact match a.daemon.phase with
        | .serving => inferInstance
        | .replaying (_ :: _) => inferInstance
        | .replaying [] | .down | .copying _ | .accepting | .greeting
        | .returning _ => inferInstance
  | .session (.receive _) | .session .writer | .session .corrector | .session (.journaler _)
  | .session (.replicator _) | .session .startHash | .session (.hash _)
  | .accept | .refuse | .greet _ | .hangUp | .wrapUp | .leftover _ _ | .crash => isTrue trivial

/-- A journal that is being replayed has been written as far as the replay has got, or already as a
whole; and outside of replays it has been written as a whole. -/
structure Kept (a : Archive) : Prop where
  honoured : a.Honoured
  marked : ∀ v, a.current = some v → marked a.daemon.disk = true
  drained : a.daemon.phase = .serving → Drained a.daemon.session
  progress : match a.daemon.phase with
    | .down => True
    | .copying rest => ∀ v, a.current = some v →
        Progress v a.daemon.session.machine.journal rest ∨ v.Applied
    | .replaying rest => Still a.daemon.session ∧
        (rest = .validate :: rounds a.daemon.session.machine.journal ∧
            (∀ v, a.current = some v → v.Applied) ∨
          .validate ∉ rest ∧ ∀ v, a.current = some v →
            Progress v a.daemon.session.machine.journal rest ∨ v.Applied)
    | _ => ∀ v, a.current = some v → v.Applied

section Kept
variable {hash : List UInt8 → UInt64} {numWorkers : ℕ} {a : Archive} {d' : Daemon}
variable {m : DaemonMove}

theorem Kept.applied (h : a.Kept) (hp : Settled a.daemon.phase) :
    ∀ v, a.current = some v → v.Applied := by
  have hprog := h.progress
  cases hph : a.daemon.phase <;> simp only [hph, Settled] at hp hprog <;> exact hprog

/-- A move, once all has been written. -/
theorem Kept.of_applied (h : a.Kept) (hv : a.daemon.validates m = false)
    (happ : ∀ v, a.current = some v → v.Applied)
    (hd : d'.phase = .serving → Drained d'.session)
    (hr : ∀ rest, d'.phase = .replaying rest → Still d'.session ∧
      (rest = .validate :: rounds d'.session.machine.journal ∨ .validate ∉ rest)) :
    (a.after m d').Kept where
  honoured := honoured_after h.honoured fun _ => happ
  marked := fun _ hv => marked_after hv
  drained := hd
  progress := by
    have happ' : ∀ v, (a.after m d').current = some v → v.Applied := fun v hv' =>
      applied_after hv happ hv'
    rw [show (a.after m d').daemon = d' from rfl]
    cases hph : d'.phase with
    | down => trivial
    | copying rest => exact fun v hv' => .inr (happ' v hv')
    | replaying rest =>
        obtain ⟨hs, hrest⟩ := hr rest hph
        exact ⟨hs, hrest.imp (⟨·, happ'⟩) (⟨·, fun v hv' => .inr (happ' v hv')⟩)⟩
    | accepting | greeting | serving | returning stage => exact happ'

/-- A move that leaves the disk alone and brings the server down. -/
theorem Kept.stops (h : a.Kept) (hp : d'.phase = .down) (hdisk : d'.disk = a.daemon.disk) :
    (a.after m d').Kept where
  honoured := honoured_after h.honoured fun hm v hv => by
    rw [hdisk, h.marked v hv] at hm
    cases hm
  marked := fun _ hv => marked_after hv
  drained := fun hs => by
    rw [show (a.after m d').daemon.phase = .down from hp] at hs
    cases hs
  progress := by
    rw [show (a.after m d').daemon.phase = .down from hp]
    trivial

/-- A replay goes on: what it has written is in the list. -/
theorem Kept.quiet (h : a.Kept) (hv : a.daemon.validates m = false)
    (hphase : d'.phase = a.daemon.phase)
    (hj : d'.session.machine.journal = a.daemon.session.machine.journal)
    (hstill : Still a.daemon.session → Still d'.session)
    (hd : d'.phase = .serving → Drained d'.session) : (a.after m d').Kept where
  honoured := honoured_after h.honoured fun hm v hcur => by
    rw [Daemon.disk, hj] at hm
    exact absurd (h.marked v hcur) (by rw [Daemon.disk, hm]; simp)
  marked := fun _ hv => marked_after hv
  drained := hd
  progress := by
    have hprog := h.progress
    have happ : (∀ v, a.current = some v → v.Applied) →
        ∀ v, (a.after m d').current = some v → v.Applied := fun hall _ =>
      applied_after hv hall
    have hgo : ∀ rest, (∀ v, a.current = some v →
          Progress v a.daemon.session.machine.journal rest ∨ v.Applied) →
        ∀ v, (a.after m d').current = some v →
          Progress v d'.session.machine.journal rest ∨ v.Applied := by
      intro rest hall v' hv'
      obtain ⟨v, hcur, rfl⟩ := current_after hv hv'
      rw [hj]
      exact (hall v hcur).imp (·.mono rfl (List.subset_append_left _ _))
        (·.mono rfl (List.subset_append_left _ _))
    rw [show (a.after m d').daemon = d' from rfl, hphase]
    cases hph : a.daemon.phase with
    | down => trivial
    | copying rest =>
        rw [hph] at hprog
        exact hgo rest hprog
    | replaying rest =>
        rw [hph] at hprog
        obtain ⟨hs, hprog⟩ := hprog
        refine ⟨hstill hs, hprog.imp (fun hp => ⟨?_, happ hp.2⟩) fun hp => ⟨hp.1, hgo rest hp.2⟩⟩
        rw [hj]
        exact hp.1
    | accepting | greeting | serving | returning stage =>
        rw [hph] at hprog
        exact happ hprog

theorem Kept.leftover (h : a.Kept) {i : ℕ} {k : SessionMove}
    (hs : a.daemon.step hash numWorkers (.leftover i k) = some d') :
    (a.after (.leftover i k) d').Kept := by
  simp only [Daemon.step, Option.ite_none_right_eq_some] at hs
  obtain ⟨hk, hs⟩ := hs
  obtain ⟨l, -, ⟨l', ps, hmove, rfl⟩ | ⟨machine, hw, rfl⟩⟩ := Daemon.moveLeftover_cases hs
  · have hj : l'.machine.journal = a.daemon.session.machine.journal := by
      rcases hk with rfl | rfl
      · obtain ⟨s₁, hs₁, heq⟩ := Option.map_eq_some_iff.mp hmove
        cases heq
        exact (journal_moveWriter hs₁).1
      · obtain ⟨s₁, hs₁, heq⟩ := Option.map_eq_some_iff.mp hmove
        cases heq
        exact (journal_moveCorrector hs₁).1
    exact h.quiet rfl rfl hj (fun hst => ⟨hst.handler, hst.workers, hst.reset⟩) h.drained
  · have hj : machine.journal = (a.daemon.lend l).machine.journal :=
      journal_wreck hw ⟨by rintro sent rfl; simp at hk, by rintro rfl; simp at hk⟩
    exact h.stops rfl (congrArg Journal.disk hj)

/-- `CheckJournal` begins to copy the journal that is valid on the disk. -/
theorem Kept.boot (h : a.Kept) (hok : a.completes .boot) (hp : a.daemon.phase = .down) :
    (a.after .boot a.daemon.boot).Kept := by
  have hopen : ∀ v, a.current = some v → ∃ j, openJournal a.daemon.disk = .ok j ∧
      recorded j = v.entries ∧ j.header.isValid = true := by
    intro v hv
    simp only [completes, hv] at hok
    cases hj : openJournal a.daemon.disk with
    | error e => simp [hj] at hok
    | ok j =>
        refine ⟨j, rfl, by simpa [hj] using hok, ?_⟩
        rw [isValid_of_readHeader (openJournal_eq_ok hj).2.1]
        exact h.marked v hv
  have hnone : ∀ d', d'.disk = a.daemon.disk → a.current = none → d'.phase = .accepting →
      (a.after .boot d').Kept := by
    intro d' hdisk hcur hph
    refine ⟨honoured_after h.honoured (by simp [hcur]), fun _ hv => marked_after hv,
      fun hs => ?_, ?_⟩
    · exact nomatch hph.symm.trans hs
    · rw [show (a.after .boot d').daemon.phase = .accepting from hph]
      intro v' hv'
      obtain ⟨v, hv, -⟩ := current_after rfl hv'
      exact nomatch hcur.symm.trans hv
  rcases a.daemon.boot_cases with ⟨e, hj, hb | hb⟩ | ⟨j, hj, ⟨hinv, hb⟩ | ⟨hval, hb⟩⟩
  · rw [hb]
    refine hnone _ rfl (Option.eq_none_iff_forall_not_mem.mpr fun v hv => ?_) rfl
    obtain ⟨j, hj', -⟩ := hopen v hv
    exact nomatch hj.symm.trans hj'
  · rw [hb]
    exact h.stops hp rfl
  · rw [hb]
    refine hnone _ rfl (Option.eq_none_iff_forall_not_mem.mpr fun v hv => ?_) rfl
    obtain ⟨j', hj', -, hval⟩ := hopen v hv
    cases hj.symm.trans hj'
    exact nomatch hinv.symm.trans hval
  · have hdisk : a.daemon.boot.disk = a.daemon.disk := by
      rw [hb]
      exact (openJournal_eq_ok hj).1
    refine ⟨honoured_after h.honoured fun hm v hv => ?_, fun _ hv => marked_after hv, ?_, ?_⟩
    · rw [hdisk, h.marked v hv] at hm
      cases hm
    · rw [hb]
      rintro ⟨⟩
    · rw [hb]
      intro v' hv'
      obtain ⟨v, hv, rfl⟩ := current_after rfl hv'
      obtain ⟨j', hj', hrec, -⟩ := hopen v hv
      cases hj.symm.trans hj'
      exact .inl (.start hrec.symm)

/-- A round of a replay that has written its entry, if it has one. -/
theorem Kept.entry (h : a.Kept) (hv : a.daemon.validates m = false) {r : Round} {rest : List Round}
    (hprog : ∀ v, a.current = some v →
      Progress v a.daemon.session.machine.journal (r :: rest) ∨ v.Applied)
    (hj : d'.session.machine.journal = a.daemon.session.machine.journal)
    (he : ∀ e, r.entry? a.daemon.session.machine.journal = some e → a.daemon.replays m = some e)
    (hp : d'.phase = .copying rest ∨
      d'.phase = .replaying rest ∧ Still d'.session ∧ .validate ∉ rest) :
    (a.after m d').Kept := by
  have hgo : ∀ v, (a.after m d').current = some v →
      Progress v d'.session.machine.journal rest ∨ v.Applied := by
    intro v' hv'
    obtain ⟨v, hcur, rfl⟩ := current_after hv hv'
    rw [hj]
    refine (hprog v hcur).imp (fun hp => hp.next rfl (List.subset_append_left _ _) fun e' he' => ?_)
      (·.mono rfl (List.subset_append_left _ _))
    simp [he e' he']
  refine ⟨honoured_after h.honoured fun hm v hcur => ?_, fun _ hv' => marked_after hv',
    fun hs => ?_, ?_⟩
  · rw [Daemon.disk, hj] at hm
    exact absurd (h.marked v hcur) (by rw [Daemon.disk, hm]; simp)
  · have hs : d'.phase = .serving := hs
    rcases hp with hp | ⟨hp, -⟩ <;> exact nomatch hp.symm.trans hs
  · rw [show (a.after m d').daemon = d' from rfl]
    rcases hp with hp | ⟨hp, hs, hval⟩
    · rw [hp]
      exact hgo
    · rw [hp]
      exact ⟨hs, .inr ⟨hval, hgo⟩⟩

/-- The last round of a replay finds all written. -/
theorem applied_of_last {rest : List Round}
    (hprog : ∀ v, a.current = some v →
      Progress v a.daemon.session.machine.journal (.invalidate :: rest) ∨ v.Applied) :
    ∀ v, a.current = some v → v.Applied := by
  intro v hcur
  rcases hprog v hcur with hp | hp
  · obtain ⟨done, heq, -⟩ := hp.written
    cases rounds_eq_append heq
    exact hp.applied (by simp [Round.read])
  · exact hp

/-- A round of `CopyJournalToReplica`. -/
theorem Kept.copy (h : a.Kept) (hok : a.completes .copy) {rest : List Round}
    (hp : a.daemon.phase = .copying rest) : (a.after .copy (a.daemon.copyRound rest)).Kept := by
  have hprog := h.progress
  rw [hp] at hprog
  have hv : a.daemon.validates .copy = false := rfl
  cases rest with
  | nil =>
      exact h.of_applied hv (fun v hcur => (hprog v hcur).elim (·.applied (by simp)) id)
        (by rintro ⟨⟩) (by rintro _ ⟨⟩)
  | cons r rest =>
      cases hread : r.read with
      | some x =>
          have hok : ∀ e ∈ r.entry? a.daemon.session.machine.journal,
              fails (r.apply e) a.daemon.session.machine = false := by
            simpa only [completes, hp] using hok
          have hw := copy_writes hread hok
          unfold Round.Writes Ends at hw
          simp only [Daemon.copyRound]
          cases hr : r.copy a.daemon.session.machine with
          | ok u machine =>
              rw [hr] at hw
              obtain ⟨hj, e, he, hwr⟩ := hw
              refine h.entry hv hprog hj (fun e' he' => ?_) (.inl rfl)
              cases he.symm.trans he'
              simpa only [Daemon.replays, hp] using hwr
          | error g machine =>
              rw [hr] at hw
              exact h.stops rfl (congrArg Journal.disk hw)
      | none =>
          cases r with
          | correctBlock i | bufferWrite i => cases hread
          | validate => exact h.entry hv hprog rfl (by simp [Round.entry?, hread]) (.inl rfl)
          | invalidate =>
              have happ := applied_of_last hprog
              simp only [Daemon.copyRound]
              cases hr : Round.copy .invalidate a.daemon.session.machine with
              | ok u machine => exact h.of_applied hv happ (by rintro ⟨⟩) (by rintro _ ⟨⟩)
              | error g machine => exact h.of_applied hv happ (by rintro ⟨⟩) (by rintro _ ⟨⟩)

/-- The server goes down once all has been written. -/
theorem Kept.down_of_applied (h : a.Kept) (happ : ∀ v, a.current = some v → v.Applied)
    (machine : Machine) : (a.after m (.down machine)).Kept :=
  ⟨honoured_after h.honoured fun _ => happ, fun _ hv => marked_after hv, by rintro ⟨⟩, trivial⟩

/-- The journal is marked valid, and the replay begins. -/
theorem Kept.validate (h : a.Kept) {sent : Sent} {rest : List Round}
    (hp : a.daemon.phase = .replaying (.validate :: rest)) (hs : Still a.daemon.session)
    (hrest : rest = rounds a.daemon.session.machine.journal)
    (happ : ∀ v, a.current = some v → v.Applied)
    (hok : fails (Round.write .validate) a.daemon.session.machine = false) :
    (a.after (.session (.handler sent)) (a.daemon.writeRound (.validate :: rest))).Kept := by
  have hk := write_validate_keeps _ _ a.daemon.session.machine ⟨rfl, rfl⟩
  simp only [Daemon.writeRound]
  unfold Ends at hk
  cases hr : Round.write .validate a.daemon.session.machine with
  | ok u machine =>
      rw [hr] at hk
      have hrounds : rounds machine.journal = rest := by rw [hrest, rounds, rounds, hk.1, hk.2]
      refine ⟨honoured_after h.honoured fun _ => happ, fun _ hv => marked_after hv, by rintro ⟨⟩,
        ⟨hs.handler, hs.workers, hs.reset⟩, .inr ⟨by simp [hrest, rounds], fun v hv => ?_⟩⟩
      simp only [after, note, Daemon.validates, hp, if_true, Option.ite_none_right_eq_some,
        Option.some.injEq] at hv
      obtain ⟨-, rfl⟩ := hv
      rw [← hrounds]
      exact .inl (.start rfl)
  | error g machine =>
      cases g with
      | err e => simp [fails, hr] at hok
      | panic | powerLoss => exact h.down_of_applied happ machine

/-- A round of `WriteJournalToReplica`. -/
theorem Kept.write (h : a.Kept) {sent : Sent} (hok : a.completes (.session (.handler sent)))
    {rest : List Round} (hp : a.daemon.phase = .replaying rest) :
    (a.after (.session (.handler sent)) (a.daemon.writeRound rest)).Kept := by
  have hprog := h.progress
  rw [hp] at hprog
  obtain ⟨hs, hprog⟩ := hprog
  cases rest with
  | nil =>
      have hv : a.daemon.validates (.session (.handler sent)) = false := by
        simp [Daemon.validates, hp]
      refine h.of_applied hv (fun v hcur => ?_)
        (fun _ => drained_of_ne (by simp [Daemon.writeRound])) (by rintro _ ⟨⟩)
      rcases hprog with ⟨heq, -⟩ | ⟨-, hprog⟩
      · cases heq
      · exact (hprog v hcur).elim (·.applied (by simp)) id
  | cons r rest =>
      have hok : r ≠ .invalidate → fails r.write a.daemon.session.machine = false := by
        simpa only [completes, hp] using hok
      have hval : r ≠ .validate → a.daemon.validates (.session (.handler sent)) = false := by
        intro hr
        cases r <;> simp [Daemon.validates, hp] at hr ⊢
      rcases hprog with ⟨heq, happ⟩ | ⟨hnot, hprog⟩
      · cases heq
        exact h.validate hp hs rfl happ (hok (by simp))
      · obtain ⟨hne, hnot'⟩ : r ≠ .validate ∧ .validate ∉ rest := by
          simpa [eq_comm] using hnot
        have hv := hval hne
        cases hread : r.read with
        | none =>
            cases r with
            | correctBlock i | bufferWrite i => cases hread
            | validate => exact absurd rfl hne
            | invalidate =>
                have happ := applied_of_last hprog
                simp only [Daemon.writeRound]
                cases hr : Round.write .invalidate a.daemon.session.machine with
                | ok u machine =>
                    refine h.of_applied hv happ (by rintro ⟨⟩) ?_
                    rintro _ ⟨⟩
                    exact ⟨⟨hs.handler, hs.workers, hs.reset⟩, .inr hnot'⟩
                | error g machine =>
                    cases g with
                    | err e =>
                        exact h.of_applied hv happ (fun _ => drained_of_ne (by simp))
                          (by rintro _ ⟨⟩)
                    | panic | powerLoss => exact h.down_of_applied happ machine
        | some x =>
            have hw := write_writes hread a.daemon.session.machine
            unfold Round.Writes Ends at hw
            simp only [Daemon.writeRound]
            cases hr : r.write a.daemon.session.machine with
            | ok u machine =>
                rw [hr] at hw
                obtain ⟨hj, e, he, hwr⟩ := hw
                refine h.entry hv hprog hj (fun e' he' => ?_)
                  (.inr ⟨rfl, ⟨hs.handler, hs.workers, hs.reset⟩, hnot'⟩)
                cases he.symm.trans he'
                simpa only [Daemon.replays, hp] using hwr
            | error g machine =>
                rw [hr] at hw
                cases g with
                | err e =>
                    have := hok (by rintro rfl; cases hread)
                    simp [fails, hr] at this
                | panic | powerLoss => exact h.stops rfl (congrArg Journal.disk hw)

/-- A move of the session, while the journal is not written to the target. -/
theorem Kept.session (h : a.Kept) {k : SessionMove} (hok : a.completes (.session k))
    (hs : a.daemon.step hash numWorkers (.session k) = some d') :
    (a.after (.session k) d').Kept := by
  rcases Daemon.session_cases hs with ⟨⟨sent, rfl⟩, hp, hw, rfl⟩ | ⟨⟨sent, rfl⟩, rest, hp, rfl⟩ |
    ⟨hplain, hm⟩
  · have hsettled : Settled a.daemon.phase := by rw [hp]; trivial
    refine h.of_applied (validates_of_settled hsettled) (h.applied hsettled) (by rintro ⟨⟩) ?_
    rintro _ ⟨⟩
    refine ⟨⟨hw, h.drained hp hw, ?_⟩, .inl rfl⟩
    have hok : a.daemon.session.handler = .writingJournal → WasReset a.daemon.session := by
      simpa only [completes, hp] using hok
    exact hok hw
  · exact h.write hok hp
  · cases hp : a.daemon.phase with
    | down | copying rest | accepting | greeting => simp [Daemon.Plain, hp] at hplain
    | replaying rest =>
        have hne : ∀ sent, k ≠ .handler sent := by simpa only [Daemon.Plain, hp] using hplain
        have hstill : Still a.daemon.session := by
          have := h.progress
          rw [hp] at this
          exact this.1
        have hv : a.daemon.validates (.session k) = false := by
          cases k <;> first | rfl | exact absurd rfl (hne _)
        rcases Daemon.moveSession_cases hm with ⟨s, ps, hmove, rfl⟩ | ⟨machine, hw, rfl⟩
        · obtain ⟨hst, hj⟩ := hstill.move hmove hne
          refine h.quiet hv rfl hj (fun _ => hst) fun hserv => ?_
          cases hp.symm.trans hserv
        · exact h.stops rfl (congrArg Journal.disk
            (journal_wreck hw ⟨fun _ _ => hstill.busy?, fun _ => hstill.reset.2⟩))
    | serving | returning stage =>
        have hsettled : Settled a.daemon.phase := by rw [hp]; trivial
        have hv := validates_of_settled (m := .session k) hsettled
        have happ := h.applied hsettled
        rcases Daemon.moveSession_cases hm with ⟨s, ps, hmove, rfl⟩ | ⟨machine, -, rfl⟩
        · refine h.of_applied hv happ (fun hserv => (h.drained hserv).move hmove) fun rest hr => ?_
          cases hp.symm.trans hr
        · exact h.down_of_applied happ machine

theorem Kept.step (h : a.Kept) (hok : a.completes m)
    (hs : a.daemon.step hash numWorkers m = some d') : (a.after m d').Kept := by
  have hsettled : ∀ {p}, a.daemon.phase = p → Settled p → (d'.phase = .serving →
      Drained d'.session) → (∀ rest, d'.phase ≠ .replaying rest) → (a.after m d').Kept := by
    rintro p rfl hset hd hr
    exact h.of_applied (validates_of_settled hset) (h.applied hset) hd fun rest hph =>
      absurd hph (hr rest)
  cases m with
  | boot =>
      simp only [Daemon.step, Option.ite_none_right_eq_some, Option.some.injEq] at hs
      obtain ⟨hp, rfl⟩ := hs
      exact h.boot hok hp
  | copy =>
      simp only [Daemon.step] at hs
      split at hs
      · rename_i rest hp
        cases hs
        exact h.copy hok hp
      · cases hs
  | accept =>
      simp only [Daemon.step, Option.ite_none_right_eq_some, Option.some.injEq] at hs
      obtain ⟨hp, rfl⟩ := hs
      exact hsettled hp trivial (by rintro ⟨⟩) (by rintro _ ⟨⟩)
  | refuse =>
      simp only [Daemon.step, Option.ite_none_right_eq_some, Option.some.injEq] at hs
      obtain ⟨hp, rfl⟩ := hs
      exact hsettled hp trivial (by rintro ⟨⟩) (by rintro _ ⟨⟩)
  | greet info =>
      simp only [Daemon.step, Option.ite_none_right_eq_some, Option.some.injEq] at hs
      obtain ⟨hp, rfl⟩ := hs
      refine hsettled hp trivial ?_ ?_
      · rcases a.daemon.greet_cases info with ⟨m, hg⟩ | ⟨m, hg⟩ | ⟨j, j', -, hg⟩ <;> rw [hg]
        · rintro ⟨⟩
        · rintro ⟨⟩
        · exact fun _ => drained_of_ne (by simp [Session.start])
      · rcases a.daemon.greet_cases info with ⟨m, hg⟩ | ⟨m, hg⟩ | ⟨j, j', -, hg⟩ <;> rw [hg] <;>
          rintro _ ⟨⟩
  | session k => exact h.session hok hs
  | hangUp =>
      simp only [Daemon.step, Option.ite_none_right_eq_some, Option.some.injEq] at hs
      obtain ⟨⟨hp, -⟩, rfl⟩ := hs
      exact hsettled hp trivial (by rintro ⟨⟩) (by rintro _ ⟨⟩)
  | wrapUp =>
      simp only [Daemon.step] at hs
      split at hs
      · rename_i stage hp
        cases stage <;>
          (simp only [Daemon.wrapUp, Option.ite_none_right_eq_some, Option.some.injEq] at hs
           obtain ⟨-, rfl⟩ := hs
           exact hsettled hp trivial (by rintro ⟨⟩) (by rintro _ ⟨⟩))
      · cases hs
  | leftover i k => exact h.leftover hs
  | crash =>
      cases hs
      exact h.stops rfl rfl

end Kept

end Archive

end Bdr.Server
