import Bdr.Server.PowerLoss
import Bdr.System.JournalScan

/-!
# System — a power loss during a journal scan

The journal is there so that a replica that is brought up to date is never half old and half new.
The server's machine may go down at any moment of a journal scan, in the middle of any write to the
target or to the journal, and in any number of starts after that.  When it has come up again, the
replica is the one from before the scan, or the source as it was at one moment
(`JournalScan.restarted_eq`).

The journal that is replayed has to be one that `OpenJournal` reads back in full: with no slot left
free in a section it finds none (`half_replayed_of_full`).
-/

namespace Bdr.System

open Client Server Kern

variable {P : ℕ}

namespace JournalScan

section Step
variable {cfg : Config} {target : Device} {n : ℕ} {t t' : JournalScan P} {m : Move P}

/-- The journal between two moves. -/
structure Laid (t : JournalScan P) : Prop where
  clearable : Clearable t.session.machine.journal
  dormant : Dormant t.session.machine.journal

/-- A replay in a scan returns without an error. -/
theorem Stage.writesJournal (h : Stage cfg target n t) (hplan : target.plan = [])
    (hsize : target.size = cfg.client.diskSize.toNat) (hP : P < 2 ^ 32)
    (hfits : t.captured.Fits cfg) (hh : t.session.handler = .writingJournal) :
    ∃ m', writeJournalToReplica t.session.machine = .ok () m' := by
  obtain ⟨cut, received, h, -, hr, hj, hsound⟩ := h.of_writingJournal hh
  have hps := replayable_completed (replayable_of_receivable h hsize hP hfits hr)
  obtain ⟨m', hm', -⟩ := hj.writesJournal hsound hh hplan hps
  exact ⟨m', hm'⟩

theorem Laid.step (hl : Laid t) (h : Invariant cfg target n t) (hplan : target.plan = [])
    (hsize : target.size = cfg.client.diskSize.toNat) (hP : P < 2 ^ 32)
    (hm : t.careful cfg target.bytes m) (hs : t.step cfg m = some t') : Laid t' := by
  cases m with
  | client m =>
      obtain ⟨u, hu, rfl⟩ := Option.map_eq_some_iff.mp hs
      obtain ⟨c, ps, toClient, -, -, rfl⟩ := Captured.step_client hu
      exact ⟨hl.clearable, hl.dormant⟩
  | server m =>
      obtain ⟨u, hu, rfl⟩ := Option.map_eq_some_iff.mp hs
      obtain ⟨ps, hserver⟩ := Captured.serverStep hu
      exact ⟨clearable_move hl.clearable hserver.move,
        Session.dormant_move hl.dormant hl.clearable
          (fun _ _ hh => h.stage.writesJournal hplan hsize hP h.fits hh) hserver.move⟩
  | disconnect | reconnect => exact hm.elim

end Step

section Restart
variable {cfg : Config} {target : Device} {n : ℕ} {t : JournalScan P}

/-- The replica is the source as it was after `ws`, at least `n`, with a part of the next write. -/
def IsSource (n size : ℕ) (t : JournalScan P) (replica : Image UInt8) : Prop :=
  ∃ ws ts k, n ≤ ws.length ∧ ts.length ≤ 1 ∧ ws ++ ts <+: patches t.capture.captured ∧
    ∀ p < size, replica p = t.capture.base.applyAll (ws ++ ts.map (·.torn k)) p

theorem isSource_of_corrected {cut : ℕ} {received later : List Packet}
    (h : Exchange cfg target .finished .completed 0 cut received
      (t.captured.behind (.infoHashingCompleted :: later))) (hn : n ≤ cut)
    {us ts rest : List (Patch UInt8)} (hlater : writes later = us ++ ts ++ rest)
    (hts : ts.length ≤ 1) {k : ℕ} {replica : Image UInt8}
    (hreplica : replica =
      ((corrected target.bytes received).applyAll (writes received ++ us)).applyAll
        (ts.map (·.torn k))) : IsSource n target.size t replica := by
  obtain ⟨hcut, hsent, more, hflow⟩ := captured_eq h
  have hlen : cut ≤ (writes received ++ us).length := by
    rw [List.length_append]
    exact hcut.trans (Nat.le_add_right _ _)
  have hcaptured : patches t.capture.captured =
      (writes received ++ us) ++ (ts ++ (rest ++ writes t.toServer ++ more)) := by
    rw [hflow, hsent, hlater]
    simp only [List.append_assoc]
  refine ⟨writes received ++ us, ts, k, hn.trans hlen, hts,
    ⟨rest ++ writes t.toServer ++ more, by rw [hcaptured]; simp only [List.append_assoc]⟩,
    fun p hp => ?_⟩
  have hsame := corrected_applyAll h hcaptured hlen p hp
  calc replica p
      = ((corrected target.bytes received).applyAll (writes received ++ us)).applyAll
          (ts.map (·.torn k)) p := by rw [hreplica]
    _ = (t.capture.base.applyAll (writes received ++ us)).applyAll (ts.map (·.torn k)) p := by
        rw [Image.applyAll_apply _ (ts.map _), Image.applyAll_apply _ (ts.map _), hsame]
    _ = t.capture.base.applyAll (writes received ++ us ++ ts.map (·.torn k)) p := by
        rw [Image.applyAll_append _ (writes received ++ us)]

/-- **At every stage** the replica comes back as it was, or as the source was. -/
theorem Stage.restarted (h : Stage cfg target n t) (hl : Laid t)
    (hsize : target.size = cfg.client.diskSize.toNat) (hP : P < 2 ^ 32)
    (hfits : t.captured.Fits cfg)
    (hopen : t.session.handler = .writingJournal →
      Journal.openJournal t.session.machine.journal.disk = .ok t.session.machine.journal)
    {p q : List Outcome} (hp : NoFailure p) (hq : NoFailure q)
    {plans : List (List Outcome × List Outcome)}
    (hplans : ∀ b ∈ plans, NoFailure b.1 ∧ NoFailure b.2) (m : SessionMove) :
    restarted plans (t.session.goesDown p q m) = target.bytes ∨
      IsSource n target.size t (restarted plans (t.session.goesDown p q m)) := by
  have hidle : ∀ {s : Session}, s.writeQueue.Idle → m = .writer → s.operation .writer = none :=
    fun hw _ => Session.operation_writer_of_ne fun w hb => by simp [hw.busy? 0] at hb
  have hnone : writes [] = ([] ++ [] ++ [] : List (Patch UInt8)) := rfl
  cases h with
  | begins h =>
      obtain ⟨hbytes, hmarked⟩ := Session.goesDown_of_idle (p := p) (q := q) (m := m) hl.dormant
        (hidle h.session.writer) h.session.writes.correct h.session.writes.replication
        fun _ _ hh => by cases hh.symm.trans h.session.handler
      left
      rw [restarted_of_unmarked plans hmarked, hbytes]
      exact congrArg Device.bytes h.target_eq
  | scanning h hn hs hsound hnot hr =>
      have hps := replayable_of_receivable h hsize hP hfits hr
      rcases hs.restarted hsound hl.dormant hps hopen hp hq hplans (m := m) with heq | ⟨hh, -⟩
      · exact .inl heq
      · rw [hh] at hnot
        cases hnot
  | @ending cut received later h hn hr he =>
      have hps := replayable_of_receivable h hsize hP hfits hr
      cases he with
      | completing hs hsound hh hlater =>
          subst hlater
          rcases hs.restarted hsound hl.dormant (replayable_completed hps) hopen hp hq hplans
            (m := m) with heq | ⟨-, heq⟩
          · exact .inl heq
          · refine .inr (isSource_of_corrected (k := 0) h hn hnone (by simp) ?_)
            rw [heq, blocksOf_completed, writes_completed, List.append_nil]
            rfl
      | replayed hs hplan hsz hbytes hlater =>
          subst hlater
          obtain ⟨hbytes', hmarked⟩ := Session.goesDown_of_idle (p := p) (q := q) (m := m)
            hl.dormant (hidle hs.writer) hs.writes.correct hs.writes.replication
            fun _ _ hh => by cases hh.symm.trans hs.handler
          refine .inr (isSource_of_corrected (k := 0) h hn hnone (by simp) ?_)
          rw [restarted_of_unmarked plans hmarked, hbytes', hbytes, List.append_nil]
          rfl
      | @writing ws hs hplan hsz hbytes hlater =>
          obtain ⟨ts, rest, k, hts, hqueued, hbytes', hmarked⟩ :=
            hs.goesDown (p := p) (q := q) (m := m) hl.dormant
          have hlater' : writes later = ws ++ ts ++ rest := by
            rw [hlater, hqueued, List.append_assoc]
          refine .inr (isSource_of_corrected (k := k) h hn hlater' hts ?_)
          rw [restarted_of_unmarked plans hmarked, hbytes', hbytes, Image.applyAll_append]

end Restart

theorem fullJournal_size_lt : 92 < 2 ^ 63 := by decide

/-- A replica of two bytes, and one slot in each section of the journal. -/
def fullMachine : Machine :=
  let header : Journal.Header := ⟨Journal.bdrMagic, 14, 1, 64, 14, 1, 78, 0⟩
  ⟨⟨2, fun _ => 7, [], pairMachine_size_lt⟩,
    Journal.withHeader ⟨sevens 92 fullJournal_size_lt, 1, 1, header⟩ header⟩

/-- The source holds a five and a six: the block of the two is in the journal, which is to be
replayed. -/
def journalsPair : List (Cue 4096) :=
  List.flatten [
    FullScan.compares journalStarts ⟨0, 2, 7 + 256 * 7⟩ 6,
    List.replicate 6 (.client (.listener true)),
    [.receive, .server (.handler .ok)],
    List.replicate 3 (.server (.journaler .ok)),
    [.receive, .server (.journaler .ok), .server (.handler .ok)]]

/-- A section without a free slot is not read back: the replica is left with the five and its old
seven, which is what neither side ever held. -/
theorem half_replayed_of_full : ∃ (moves : List (Move 4096)) (t : JournalScan 4096),
    Run (FullScan.step twoBytesConfig)
      (fun t m => t.careful twoBytesConfig fullMachine.target.bytes m ∧ ordered t m)
      (.start (.start (some .startHashing) Traced.fourSlots fun p => if p = 0 then 5 else 6)
        fullMachine) moves t ∧
    (restarted [] (t.session.goesDown [.powerLoss 1] [] (.handler .ok))).read 0 2 = [5, 7] ∧
    fullMachine.target.bytes.read 0 2 = [7, 7] ∧ t.client.source.read 0 2 = [5, 6] := by
  obtain ⟨t, ht, hd⟩ := exists_exec (P := fun t : JournalScan 4096 =>
      (restarted [] (t.session.goesDown [.powerLoss 1] [] (.handler .ok))).read 0 2 = [5, 7] ∧
        fullMachine.target.bytes.read 0 2 = [7, 7] ∧ t.client.source.read 0 2 = [5, 6])
    (show (exec (FullScan.follow twoBytesConfig (fun t m =>
        t.careful twoBytesConfig fullMachine.target.bytes m ∧ ordered t m))
      (.start (.start (some .startHashing) Traced.fourSlots fun p => if p = 0 then 5 else 6)
        fullMachine) journalsPair).any _ = true by decide +kernel)
  obtain ⟨moves, hrun⟩ := FullScan.exists_run ht
  exact ⟨moves, t, hrun, of_decide_eq_true hd⟩

end JournalScan

end Bdr.System
