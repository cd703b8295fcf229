import Bdr.Server.HashTiling
import Bdr.Support.Pipeline

/-!
# Server — HashDisk returns

`HandleClient` waits for `HashDisk` before it starts another scan.  A scan may be terminated at any
moment, its readers return at a read error and its senders when the connection is closed, and the
stages before a stage that has returned wait for good.  `HashDisk` waits for the senders alone, and
unless the server goes down they return: as long as one of them does not, a goroutine of the
pipeline can go on (`HashDisk.Ticking.progress`), and there is only so much to do (`HashDisk.work`).

What brings the server down is a goroutine that sends on a closed channel (`HashDisk.ClosedSend`; in
the model it waits).  The channels are closed when the pool that feeds them has returned, but
`resultChan` is fed by the hashers and, where a read fails, by the readers; it is closed when the
hashers have returned, which they do at once when the scan is terminated
(`HashDisk.closedSend_of_run`).
-/

namespace Bdr.Server

/-- A move of one goroutine, on the target as it is then, or the end of the scan. -/
inductive HashAction where
  | move (target : Device) (m : HashMove)
  | terminate

def HashAction.isMove : HashAction → Bool
  | .move _ _ => true
  | .terminate => false

namespace HashDisk

def act (c : HashConfig) (h : HashDisk) : HashAction → Option HashDisk
  | .move target m => (h.move c target m).map Prod.fst
  | .terminate => some h.terminate

/-- A goroutine is about to send on a channel that is closed, which brings the server down. -/
def ClosedSend (h : HashDisk) : Prop :=
  (∃ offset, h.generator = .sending offset ∧ h.readers.closed = true) ∨
    (∃ i item, h.readers.busy? i = some (.sendingWork item) ∧ h.hashers.closed = true) ∨
    (∃ i result, h.readers.busy? i = some (.sendingError result) ∧ h.senders.closed = true) ∨
    ∃ i result, h.hashers.busy? i = some (.sending result) ∧ h.senders.closed = true

/-! ### What is left to be done -/

/-- The moves that are left to a result in the hands of a sender. -/
def senderWork : Sender → ℕ
  | .complaining => 1
  | .encoding _ => 2
  | .reporting _ => 3
  | .took _ => 4

def hasherWork : Hasher → ℕ
  | .sending _ => 6
  | .took _ => 7

def readerWork : Reader → ℕ
  | .sendingWork _ | .sendingError _ => 9
  | .reading _ => 10
  | .took _ => 11

/-- The blocks that are still to be generated. -/
def blocksFrom (c : HashConfig) (off : ℕ) : ℕ :=
  (blockOffsets c.readSize.toNat c.totalSize.toNat off).length

def generatorWork (c : HashConfig) : Generator → ℕ
  | .loop offset => 14 * blocksFrom c offset.toNat + 1
  | .sending offset => 14 * (blocksFrom c (offset.toNat + c.readSize.toNat) + 1)
  | .done => 0

def phaseWork : HashPhase → ℕ
  | .starting => 4
  | .resetting => 3
  | .announcing => 2
  | .running => 1
  | .returned => 0

/-- The moves that are left to a scan, at most. -/
def work (c : HashConfig) (h : HashDisk) : ℕ :=
  phaseWork h.phase + generatorWork c h.generator + h.readers.cost (fun _ => 12) readerWork +
    h.hashers.cost (fun _ => 8) hasherWork + h.senders.cost (fun _ => 5) senderWork

/-- The generator is at a block of the device, and has closed the channel when it has returned. -/
structure Ticking (c : HashConfig) (h : HashDisk) : Prop where
  sending : ∀ offset, h.generator = .sending offset → offset < c.totalSize
  done : h.generator = .done → h.readers.closed = true

/-- The offsets of the blocks do not wrap. -/
structure Bounded (c : HashConfig) : Prop where
  readSize_pos : 0 < c.readSize.toNat
  total_le : c.totalSize.toNat + c.readSize.toNat ≤ 2 ^ 64

section Work
variable {c : HashConfig} {target : Device} {h h' : HashDisk} {i : ℕ}

theorem ticking_start (c : HashConfig) (n : ℕ) : (start n).Ticking c :=
  ⟨by rintro _ ⟨⟩, by rintro ⟨⟩⟩

theorem work_start (c : HashConfig) (n : ℕ) :
    (start n).work c = 14 * blocksFrom c 0 + 3 * n + 6 := by
  simp only [work, start, phaseWork, generatorWork, Pool.cost_start, UInt64.toNat_zero]
  omega

theorem Ticking.moveGenerator (ht : h.Ticking c) (hb : Bounded c)
    (hm : h.moveGenerator c = some h') : h'.Ticking c ∧ h'.work c < h.work c := by
  unfold HashDisk.moveGenerator at hm
  split at hm
  · rename_i offset hg
    split at hm
    · rename_i hlt
      cases hm
      refine ⟨⟨by rintro _ ⟨⟩; exact hlt.1, by rintro ⟨⟩⟩, ?_⟩
      have hoff : blocksFrom c offset.toNat =
          blocksFrom c (offset.toNat + c.readSize.toNat) + 1 := by
        rw [blocksFrom, blockOffsets_of_lt hb.readSize_pos (UInt64.lt_iff_toNat_lt.mp hlt.1)]
        rfl
      simp only [work, hg, generatorWork, hoff]
      omega
    · cases hm
      refine ⟨⟨by rintro _ ⟨⟩, fun _ => rfl⟩, ?_⟩
      have := h.readers.cost_close_le (g := fun _ => 12) (f := readerWork)
      simp only [work, hg, generatorWork]
      omega
  · rename_i offset hg
    obtain ⟨readers, hs, rfl⟩ := Option.map_eq_some_iff.mp hm
    refine ⟨⟨by rintro _ ⟨⟩, by rintro ⟨⟩⟩, ?_⟩
    have hlt := UInt64.lt_iff_toNat_lt.mp (ht.sending offset hg)
    have hnext : (offset + c.readSize).toNat = offset.toNat + c.readSize.toNat := by
      have := hb.total_le
      rw [UInt64.toNat_add]
      exact Nat.mod_eq_of_lt (by omega)
    have := Pool.cost_send (g := fun _ => 12) (f := readerWork) hs
    simp only [work, hg, generatorWork, hnext, this]
    omega
  · cases hm

/-- A goroutine has less to do. -/
theorem work_setReader {t : Reader} {w : Worker Reader} (hb : h.readers.busy? i = some t)
    (hw : w.cost readerWork ≤ readerWork t) : (h.setReader i w).work c < h.work c := by
  have := Pool.cost_setWorker (g := fun _ => 12) (f := readerWork) hb w
  simp only [work, setReader]
  omega

theorem work_setHasher {t : Hasher} {w : Worker Hasher} (hb : h.hashers.busy? i = some t)
    (hw : w.cost hasherWork ≤ hasherWork t) : (h.setHasher i w).work c < h.work c := by
  have := Pool.cost_setWorker (g := fun _ => 8) (f := hasherWork) hb w
  simp only [work, setHasher]
  omega

theorem work_setSender {t : Sender} {w : Worker Sender} (hb : h.senders.busy? i = some t)
    (hw : w.cost senderWork ≤ senderWork t) : (h.setSender i w).work c < h.work c := by
  have := Pool.cost_setWorker (g := fun _ => 5) (f := senderWork) hb w
  simp only [work, setSender]
  omega

theorem Ticking.moveReader (ht : h.Ticking c) {failed : Bool}
    (hm : h.moveReader c target i failed = some h') : h'.Ticking c ∧ h'.work c < h.work c := by
  unfold HashDisk.moveReader at hm
  split at hm
  · obtain ⟨readers, hr, rfl⟩ := Option.map_eq_some_iff.mp hm
    refine ⟨⟨ht.sending, fun hg => (Pool.closed_receive hr).trans (ht.done hg)⟩, ?_⟩
    have := Pool.cost_receive (g := fun _ => 12) (f := readerWork) hr (by simp [readerWork])
    simp only [work]
    omega
  · rename_i offset hb
    cases hm
    refine ⟨⟨ht.sending, ht.done⟩, work_setReader hb ?_⟩
    split <;> simp [Worker.cost, readerWork]
  · rename_i offset hb
    cases hm
    refine ⟨⟨ht.sending, ht.done⟩, work_setReader hb ?_⟩
    split
    · simp [Worker.cost, readerWork]
    · split <;> simp [Worker.cost, readerWork]
  · rename_i item hb
    obtain ⟨hashers, hs, rfl⟩ := Option.map_eq_some_iff.mp hm
    refine ⟨⟨ht.sending, ht.done⟩, ?_⟩
    have h₁ := Pool.cost_setWorker (g := fun _ => 12) (f := readerWork) hb .ranging
    have h₂ := Pool.cost_send (g := fun _ => 8) (f := hasherWork) hs
    simp only [work, setReader, readerWork, Worker.cost] at h₁ ⊢
    omega
  · rename_i result hb
    obtain ⟨senders, hs, rfl⟩ := Option.map_eq_some_iff.mp hm
    refine ⟨⟨ht.sending, ht.done⟩, ?_⟩
    have h₁ := Pool.cost_setWorker (g := fun _ => 12) (f := readerWork) hb .done
    have h₂ := Pool.cost_send (g := fun _ => 5) (f := senderWork) hs
    simp only [work, setReader, readerWork, Worker.cost] at h₁ ⊢
    omega

theorem Ticking.moveHasher (ht : h.Ticking c) (hm : h.moveHasher c i = some h') :
    h'.Ticking c ∧ h'.work c < h.work c := by
  unfold HashDisk.moveHasher at hm
  split at hm
  · obtain ⟨hashers, hr, rfl⟩ := Option.map_eq_some_iff.mp hm
    refine ⟨⟨ht.sending, ht.done⟩, ?_⟩
    have := Pool.cost_receive (g := fun _ => 8) (f := hasherWork) hr (by simp [hasherWork])
    simp only [work]
    omega
  · rename_i item hb
    cases hm
    refine ⟨⟨ht.sending, ht.done⟩, work_setHasher hb ?_⟩
    split <;> simp [Worker.cost, hasherWork]
  · rename_i result hb
    obtain ⟨senders, hs, rfl⟩ := Option.map_eq_some_iff.mp hm
    refine ⟨⟨ht.sending, ht.done⟩, ?_⟩
    have h₁ := Pool.cost_setWorker (g := fun _ => 8) (f := hasherWork) hb .ranging
    have h₂ := Pool.cost_send (g := fun _ => 5) (f := senderWork) hs
    simp only [work, setHasher, hasherWork, Worker.cost] at h₁ ⊢
    omega

theorem Ticking.moveSender (ht : h.Ticking c) {sent : Sent} {ps : List Packet}
    (hm : h.moveSender i sent = some (h', ps)) : h'.Ticking c ∧ h'.work c < h.work c := by
  unfold HashDisk.moveSender at hm
  split at hm
  · obtain ⟨senders, hr, heq⟩ := Option.map_eq_some_iff.mp hm
    cases heq
    refine ⟨⟨ht.sending, ht.done⟩, ?_⟩
    have := Pool.cost_receive (g := fun _ => 5) (f := senderWork) hr (by simp [senderWork])
    simp only [work]
    omega
  · rename_i result hb
    cases hm
    refine ⟨⟨ht.sending, ht.done⟩, work_setSender hb ?_⟩
    split
    · simp [Worker.cost]
    · split <;> simp [Worker.cost, senderWork]
  · rename_i result hb
    cases hm
    exact ⟨⟨ht.sending, ht.done⟩, work_setSender hb le_rfl⟩
  · rename_i result hb
    cases hm
    refine ⟨⟨ht.sending, ht.done⟩, work_setSender hb ?_⟩
    cases sent <;> simp [Worker.cost, senderWork]
  · rename_i hb
    cases hm
    exact ⟨⟨ht.sending, ht.done⟩, work_setSender hb le_rfl⟩

/-- **Every move brings the scan nearer to its end.** -/
theorem Ticking.move (ht : h.Ticking c) (hb : Bounded c) {m : HashMove} {ps : List Packet}
    (hm : h.move c target m = some (h', ps)) : h'.Ticking c ∧ h'.work c < h.work c := by
  cases m with
  | announce sent =>
      obtain ⟨hp, heq⟩ := Option.ite_none_right_eq_some.mp hm
      cases heq
      cases sent with
      | ok | failed | closed =>
          exact ⟨⟨ht.sending, ht.done⟩, by simp [work, announce, hp, phaseWork]⟩
  | generator =>
      obtain ⟨-, hm⟩ := Option.ite_none_right_eq_some.mp hm
      obtain ⟨h₁, hg, heq⟩ := Option.map_eq_some_iff.mp hm
      cases heq
      exact ht.moveGenerator hb hg
  | reader i failed =>
      obtain ⟨-, hm⟩ := Option.ite_none_right_eq_some.mp hm
      obtain ⟨h₁, hr, heq⟩ := Option.map_eq_some_iff.mp hm
      cases heq
      exact ht.moveReader hr
  | closeWork =>
      obtain ⟨⟨-, -, hc⟩, heq⟩ := Option.ite_none_right_eq_some.mp hm
      cases heq
      have := Pool.cost_close (g := fun _ => 8) (f := hasherWork) hc
      refine ⟨⟨ht.sending, ht.done⟩, ?_⟩
      simp only [work]
      omega
  | hasher i =>
      obtain ⟨-, hm⟩ := Option.ite_none_right_eq_some.mp hm
      obtain ⟨h₁, hr, heq⟩ := Option.map_eq_some_iff.mp hm
      cases heq
      exact ht.moveHasher hr
  | closeResults =>
      obtain ⟨⟨-, -, hc⟩, heq⟩ := Option.ite_none_right_eq_some.mp hm
      cases heq
      have := Pool.cost_close (g := fun _ => 5) (f := senderWork) hc
      refine ⟨⟨ht.sending, ht.done⟩, ?_⟩
      simp only [work]
      omega
  | sender i sent =>
      obtain ⟨-, hm⟩ := Option.ite_none_right_eq_some.mp hm
      exact ht.moveSender hm
  | complete sent =>
      obtain ⟨⟨hp, -⟩, heq⟩ := Option.ite_none_right_eq_some.mp hm
      cases heq
      exact ⟨⟨ht.sending, ht.done⟩, by simp [work, hp, phaseWork]⟩

end Work

/-! ### A goroutine can always go on -/

section Progress
variable {c : HashConfig} {h : HashDisk}

/-- A sender that has a result goes on with it. -/
theorem moveSender_of_busy {i : ℕ} {t : Sender} (hb : h.senders.busy? i = some t) (sent : Sent) :
    ∃ r, h.moveSender i sent = some r := by
  unfold moveSender
  cases t <;> simp [hb]

/-- A hasher goes on with what it has, if there is room for the result. -/
theorem moveHasher_of_busy {i : ℕ} {t : Hasher} (hb : h.hashers.busy? i = some t)
    (hroom : ∀ a, ∃ p, h.senders.send c.numWorkers a = some p) :
    ∃ h', h.moveHasher c i = some h' := by
  unfold moveHasher
  cases t with
  | took work => simp [hb]
  | sending result =>
      obtain ⟨p, hp⟩ := hroom result
      simp [hb, hp]

theorem moveReader_of_busy {i : ℕ} {t : Reader} (hb : h.readers.busy? i = some t)
    (hroom : ∀ a, ∃ p, h.senders.send c.numWorkers a = some p)
    (hroom' : ∀ a, ∃ p, h.hashers.send c.numWorkers a = some p) (target : Device) :
    ∃ h', h.moveReader c target i false = some h' := by
  unfold moveReader
  cases t with
  | took offset | reading offset => simp [hb]
  | sendingWork item =>
      obtain ⟨p, hp⟩ := hroom' item
      simp [hb, hp]
  | sendingError result =>
      obtain ⟨p, hp⟩ := hroom result
      simp [hb, hp]

theorem Ticking.moveGenerator_of_open (ht : h.Ticking c) (hc : h.readers.closed = false)
    (hroom : ∀ a, ∃ p, h.readers.send c.numWorkers a = some p) :
    ∃ h', h.moveGenerator c = some h' := by
  unfold HashDisk.moveGenerator
  cases hg : h.generator with
  | loop offset =>
      dsimp only
      split
      · exact ⟨_, rfl⟩
      · exact ⟨_, rfl⟩
  | sending offset =>
      obtain ⟨p, hp⟩ := hroom offset
      simp [hp]
  | done =>
      rw [ht.done hg] at hc
      cases hc

/-- **A scan does not wait for itself**: as long as it has not returned, a goroutine can go on.
Looked for from the last stage to the first, each stage that has nothing to do has an empty channel,
on which the stage before can send. -/
theorem Ticking.progress (ht : h.Ticking c) (hn : 0 < c.numWorkers)
    (hp : h.phase = .announcing ∨ h.phase = .running) (target : Device) :
    ∃ m r, h.move c target m = some r := by
  rcases hp with hp | hp
  · exact ⟨.announce .ok, _, if_pos hp⟩
  by_cases hfs : h.senders.Finished
  · exact ⟨.complete .ok, _, if_pos ⟨hp, hfs⟩⟩
  rcases Pool.awake hfs .took with ⟨i, t, hb⟩ | ⟨i, p, hb, hr⟩ | ⟨hq, hc⟩
  · obtain ⟨r, hr⟩ := moveSender_of_busy hb .ok
    exact ⟨.sender i .ok, r, (if_pos hp).trans hr⟩
  · exact ⟨.sender i .ok, ({ h with senders := p }, []),
      (if_pos hp).trans (by simp [HashDisk.moveSender, hb, hr])⟩
  have hroom := Pool.send_of_nil hq hc hn
  by_cases hfh : h.hashers.Finished
  · exact ⟨.closeResults, _, if_pos ⟨hp, hfh, hc⟩⟩
  rcases Pool.awake hfh .took with ⟨i, t, hb⟩ | ⟨i, p, hb, hr⟩ | ⟨hq', hc'⟩
  · obtain ⟨h', hm⟩ := moveHasher_of_busy hb hroom
    exact ⟨.hasher i, (h', []), (if_pos hp).trans (by rw [hm]; rfl)⟩
  · exact ⟨.hasher i, ({ h with hashers := p }, []),
      (if_pos hp).trans (by simp [HashDisk.moveHasher, hb, hr])⟩
  have hroom' := Pool.send_of_nil hq' hc' hn
  by_cases hfr : h.readers.Finished
  · exact ⟨.closeWork, _, if_pos ⟨hp, hfr, hc'⟩⟩
  rcases Pool.awake hfr .took with ⟨i, t, hb⟩ | ⟨i, p, hb, hr⟩ | ⟨hq'', hc''⟩
  · obtain ⟨h', hm⟩ := moveReader_of_busy hb hroom hroom' target
    exact ⟨.reader i false, (h', []), (if_pos hp).trans (by rw [hm]; rfl)⟩
  · exact ⟨.reader i false, ({ h with readers := p }, []),
      (if_pos hp).trans (by simp [HashDisk.moveReader, hb, hr])⟩
  · obtain ⟨h', hm⟩ := ht.moveGenerator_of_open hc'' (Pool.send_of_nil hq'' hc'' hn)
    exact ⟨.generator, (h', []), (if_pos hp).trans (by rw [hm]; rfl)⟩

end Progress

/-! ### Whole runs -/

section Runs
variable {c : HashConfig} {h h' : HashDisk}

theorem Ticking.act (ht : h.Ticking c) (hb : Bounded c) {a : HashAction}
    (hs : h.act c a = some h') :
    h'.Ticking c ∧ h'.work c + (if a.isMove then 1 else 0) ≤ h.work c := by
  cases a with
  | move target m =>
      obtain ⟨⟨h₁, ps⟩, hm, rfl⟩ := Option.map_eq_some_iff.mp hs
      obtain ⟨ht', hlt⟩ := ht.move hb hm
      exact ⟨ht', hlt⟩
  | terminate =>
      cases hs
      exact ⟨⟨ht.sending, ht.done⟩, le_rfl⟩

end Runs

/-! ### Closed channels -/

/-- A channel is closed when those who range over the one before have returned, and a hasher
returns when its channel is closed or the scan terminated. -/
structure Wired (h : HashDisk) : Prop where
  readers : h.readers.closed = true → h.generator = .done
  hashers : h.hashers.closed = true → h.readers.Finished
  senders : h.senders.closed = true → h.hashers.Finished
  early : .done ∈ h.hashers.workers → h.terminated = true ∨ h.hashers.closed = true
  workers : h.hashers.workers ≠ []

section Closed
variable {c : HashConfig} {target : Device} {h h' : HashDisk} {i : ℕ}

theorem wired_start {n : ℕ} (hn : 0 < n) : (start n).Wired where
  readers := by rintro ⟨⟩
  hashers := by rintro ⟨⟩
  senders := by rintro ⟨⟩
  early hd := by simp [start, Pool.start] at hd
  workers := by
    simp only [start, Pool.start, ne_eq, List.replicate_eq_nil_iff]
    omega

theorem moveReader_of_finished (hf : h.readers.Finished) (failed : Bool) :
    h.moveReader c target i failed = none := by
  simp [moveReader, hf.busy? i, hf.receive]

theorem moveHasher_of_finished (hf : h.hashers.Finished) : h.moveHasher c i = none := by
  simp [moveHasher, hf.busy? i, hf.receive]

theorem Wired.moveGenerator (hw : h.Wired) (hm : h.moveGenerator c = some h') : h'.Wired := by
  unfold HashDisk.moveGenerator at hm
  split at hm
  · rename_i offset hg
    have hopen : h.readers.closed ≠ true := fun hc => by cases hg.symm.trans (hw.readers hc)
    split at hm
    · cases hm
      exact { hw with readers := fun hc => absurd hc hopen }
    · cases hm
      exact { hw with readers := fun _ => rfl }
  · rename_i offset hg
    obtain ⟨readers, hs, rfl⟩ := Option.map_eq_some_iff.mp hm
    obtain ⟨⟨-, hc⟩, rfl⟩ := Pool.send_eq_some.mp hs
    exact { hw with
      readers := fun hc' => by cases hc.symm.trans hc'
      hashers := hw.hashers }
  · cases hm

theorem Wired.moveReader (hw : h.Wired) {failed : Bool}
    (hm : h.moveReader c target i failed = some h') : h'.Wired := by
  -- a reader goes on, so that `workChan` is open
  have hopen : h.hashers.closed ≠ true := by
    intro hc
    rw [moveReader_of_finished (hw.hashers hc)] at hm
    cases hm
  unfold HashDisk.moveReader at hm
  split at hm
  · obtain ⟨readers, hr, rfl⟩ := Option.map_eq_some_iff.mp hm
    exact { hw with
      readers := fun hc => hw.readers ((Pool.closed_receive hr).symm.trans hc)
      hashers := fun hc => absurd hc hopen }
  · cases hm
    exact { hw with hashers := fun hc => absurd hc hopen }
  · cases hm
    exact { hw with hashers := fun hc => absurd hc hopen }
  · obtain ⟨hashers, hs, rfl⟩ := Option.map_eq_some_iff.mp hm
    obtain ⟨-, rfl⟩ := Pool.send_eq_some.mp hs
    exact { hw with
      hashers := fun hc => absurd hc hopen
      senders := hw.senders }
  · obtain ⟨senders, hs, rfl⟩ := Option.map_eq_some_iff.mp hm
    obtain ⟨⟨-, hc⟩, rfl⟩ := Pool.send_eq_some.mp hs
    exact { hw with
      hashers := fun hc => absurd hc hopen
      senders := fun hc' => by cases hc.symm.trans hc' }

theorem Wired.moveHasher (hw : h.Wired) (hm : h.moveHasher c i = some h') : h'.Wired := by
  -- a hasher goes on, so that `resultChan` is open
  have hopen : h.senders.closed ≠ true := by
    intro hc
    rw [moveHasher_of_finished (hw.senders hc)] at hm
    cases hm
  unfold HashDisk.moveHasher at hm
  split at hm
  · obtain ⟨hashers, hr, rfl⟩ := Option.map_eq_some_iff.mp hm
    have hclosed := Pool.closed_receive hr
    refine { hw with
      hashers := fun hc => hw.hashers (hclosed.symm.trans hc)
      senders := fun hc => absurd hc hopen
      early := fun hd => ?_
      workers := Pool.workers_ne_receive hr }
    obtain ⟨-, ⟨a, q, -, rfl⟩ | ⟨-, hc, rfl⟩⟩ := Pool.receive_cases hr
    · rcases List.mem_or_eq_of_mem_set hd with hd | hd
      · exact hw.early hd
      · cases hd
    · exact .inr hc
  · rename_i item hb
    cases hm
    refine { hw with
      senders := fun hc => absurd hc hopen
      early := fun hd => ?_
      workers := by simpa [setHasher, Pool.setWorker] using hw.workers }
    rcases List.mem_or_eq_of_mem_set hd with hd | hd
    · exact hw.early hd
    · split at hd
      · rename_i hterm
        exact .inl hterm
      · cases hd
  · rename_i result hb
    obtain ⟨senders, hs, rfl⟩ := Option.map_eq_some_iff.mp hm
    obtain ⟨⟨-, hc⟩, rfl⟩ := Pool.send_eq_some.mp hs
    refine { hw with
      senders := fun hc' => by cases hc.symm.trans hc'
      early := fun hd => ?_
      workers := by simpa [setHasher, Pool.setWorker] using hw.workers }
    rcases List.mem_or_eq_of_mem_set hd with hd | hd
    · exact hw.early hd
    · cases hd

theorem Wired.moveSender (hw : h.Wired) {sent : Sent} {ps : List Packet}
    (hm : h.moveSender i sent = some (h', ps)) : h'.Wired := by
  unfold HashDisk.moveSender at hm
  split at hm
  · obtain ⟨senders, hr, heq⟩ := Option.map_eq_some_iff.mp hm
    cases heq
    exact { hw with senders := fun hc => hw.senders ((Pool.closed_receive hr).symm.trans hc) }
  all_goals
    cases hm
    exact { hw with senders := hw.senders }

theorem Wired.move (hw : h.Wired) {m : HashMove} {ps : List Packet}
    (hm : h.move c target m = some (h', ps)) : h'.Wired := by
  cases m with
  | announce sent =>
      obtain ⟨-, heq⟩ := Option.ite_none_right_eq_some.mp hm
      cases heq
      cases sent <;> exact { hw with }
  | generator =>
      obtain ⟨-, hm⟩ := Option.ite_none_right_eq_some.mp hm
      obtain ⟨h₁, hg, heq⟩ := Option.map_eq_some_iff.mp hm
      cases heq
      exact hw.moveGenerator hg
  | reader i failed =>
      obtain ⟨-, hm⟩ := Option.ite_none_right_eq_some.mp hm
      obtain ⟨h₁, hr, heq⟩ := Option.map_eq_some_iff.mp hm
      cases heq
      exact hw.moveReader hr
  | closeWork =>
      obtain ⟨⟨-, hf, -⟩, heq⟩ := Option.ite_none_right_eq_some.mp hm
      cases heq
      exact { hw with
        hashers := fun _ => hf
        senders := hw.senders
        early := fun _ => .inr rfl
        workers := hw.workers }
  | hasher i =>
      obtain ⟨-, hm⟩ := Option.ite_none_right_eq_some.mp hm
      obtain ⟨h₁, hr, heq⟩ := Option.map_eq_some_iff.mp hm
      cases heq
      exact hw.moveHasher hr
  | closeResults =>
      obtain ⟨⟨-, hf, -⟩, heq⟩ := Option.ite_none_right_eq_some.mp hm
      cases heq
      exact { hw with senders := fun _ => hf }
  | sender i sent =>
      obtain ⟨-, hm⟩ := Option.ite_none_right_eq_some.mp hm
      exact hw.moveSender hm
  | complete sent =>
      obtain ⟨-, heq⟩ := Option.ite_none_right_eq_some.mp hm
      cases heq
      exact { hw with }

theorem Wired.act (hw : h.Wired) {a : HashAction} (hs : h.act c a = some h') : h'.Wired := by
  cases a with
  | move target m =>
      obtain ⟨⟨h₁, ps⟩, hm, rfl⟩ := Option.map_eq_some_iff.mp hs
      exact hw.move hm
  | terminate =>
      cases hs
      exact { hw with early := fun _ => .inl rfl }

/-- Only a reader that reports a read error may find its channel closed. -/
theorem Wired.closedSend (hw : h.Wired) (hc : h.ClosedSend) : h.terminated = true ∧
    ∃ i result, h.readers.busy? i = some (.sendingError result) ∧ h.senders.closed = true := by
  rcases hc with ⟨offset, hg, hc⟩ | ⟨i, item, hb, hc⟩ | ⟨i, result, hb, hc⟩ | ⟨i, result, hb, hc⟩
  · cases hg.symm.trans (hw.readers hc)
  · cases hb.symm.trans ((hw.hashers hc).busy? i)
  · refine ⟨?_, i, result, hb, hc⟩
    obtain ⟨w, hmem⟩ := List.exists_mem_of_ne_nil _ hw.workers
    have hf := hw.senders hc
    refine (hw.early (hf w hmem ▸ hmem)).resolve_right fun hc' => ?_
    cases hb.symm.trans ((hw.hashers hc').busy? i)
  · cases hb.symm.trans ((hw.senders hc).busy? i)

/-- **No goroutine of a scan sends on a closed channel**, unless the scan has been terminated and a
read has failed. -/
theorem closedSend_of_run {actions : List HashAction} (hn : 0 < c.numWorkers)
    (hrun : Run (HashDisk.act c) anyStep (start c.numWorkers) actions h) (hc : h.ClosedSend) :
    h.terminated = true ∧ ∃ i result,
      h.readers.busy? i = some (.sendingError result) ∧ h.senders.closed = true :=
  (hrun.invariant (I := Wired) (fun _ _ _ hi _ hs => hi.act hs) (wired_start hn)).closedSend hc

end Closed

theorem twoBytes_size_lt : 2 < 2 ^ 63 := by decide

def twoBytes : Device := ⟨2, fun _ => 7, [], twoBytes_size_lt⟩

/-- Two blocks of a byte, and a goroutine of each kind. -/
def twoBlocks : HashConfig := ⟨fun _ => 3, 1, 1, 2⟩

/-- The first block has been read and the second is being read when the scan is terminated.  The
hasher returns, and `resultChan` is closed; then the read fails. -/
def terminatedRead : List HashAction :=
  List.flatten [
    [.move twoBytes (.announce .ok)],
    List.replicate 3 (.move twoBytes .generator),
    List.replicate 4 (.move twoBytes (.reader 0 false)),
    [.move twoBytes .generator],
    List.replicate 2 (.move twoBytes (.reader 0 false)),
    [.terminate, .move twoBytes (.hasher 0), .move twoBytes (.hasher 0),
      .move twoBytes .closeResults, .move twoBytes (.reader 0 true)]]

/-- The reader sends the error on `resultChan`, which is closed. -/
theorem closedSend_of_run_terminatedRead : ∃ h,
    Run (act twoBlocks) anyStep (start 1) terminatedRead h ∧ h.ClosedSend ∧
    (h.terminated = true ∧ ∃ i result,
      h.readers.busy? i = some (.sendingError result) ∧ h.senders.closed = true) := by
  obtain ⟨h, hexec, hd⟩ := exists_exec (P := fun h : HashDisk =>
      h.readers.busy? 0 = some (.sendingError ⟨1, 0, 0, true⟩) ∧ h.senders.closed = true)
    (show (exec (act twoBlocks) (start 1) terminatedRead).any _ = true by decide +kernel)
  obtain ⟨hb, hc⟩ := of_decide_eq_true hd
  have hrun : Run (act twoBlocks) anyStep (start 1) terminatedRead h :=
    Run.of_exec hexec fun _ _ _ => trivial
  have hsend : h.ClosedSend := .inr (.inr (.inl ⟨0, _, hb, hc⟩))
  exact ⟨h, hrun, hsend, closedSend_of_run Nat.one_pos hrun hsend⟩

end HashDisk

end Bdr.Server
