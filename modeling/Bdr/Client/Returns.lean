import Bdr.Client.Replication
import Bdr.Client.Resync
import Bdr.Server.HashTiling
import Bdr.Support.Pipeline

/-!
# Client — its pipelines return

The listener waits for `InitHashing` when it has closed `hashChan`, and does not receive anything
before it has returned.  `InitReplication` holds the monitor until it has returned.  Both are
pipelines of pools: a goroutine of them can go on as long as the last stage has not returned, and
they have only so much to do.

`SendPacket` repeats `Encode` until it succeeds, however long the connection is down.  An attempt
that fails leaves the goroutine where it is; there may be any number of them, and they are not
counted with what there is to do.  A client that is shut down, which makes `SendPacket` give up, and
a reader of `InitHashing` that cannot read its block and calls `StartHashing`, are left out here.
-/

namespace Bdr.Client

/-! ### InitHashing -/

/-- A read of the source, as it is then, or a move of another goroutine.  If not `encoded`, it is an
attempt of `SendPacket` in which `Encode` fails. -/
structure HashingAction where
  source : Image UInt8
  move : HashingMove
  encoded : Bool

/-- The read does not fail. -/
def HashingAction.Reads (a : HashingAction) : Prop := ∀ i, a.move ≠ .reader i true

namespace InitHashing

def act (hash : List UInt8 → UInt64) (numWorkers : ℕ) (h : InitHashing) (a : HashingAction) :
    Option InitHashing :=
  (h.move hash numWorkers a.source a.move).bind fun r =>
    if a.encoded then some r.1 else if r.2 ≠ [] then some h else none

def comparerWork : Comparer → ℕ
  | .sending _ => 1
  | .took _ => 2

def hasherWork : HashWorker → ℕ
  | .sending _ => 4
  | .took _ => 5

/-- A block is read byte by byte. -/
def readerWork : HashReader → ℕ
  | .sendingWork _ => 7
  | .reading info buf => info.size.toNat - buf.length + 8
  | .took info => info.size.toNat + 9
  | .starting _ => 0

/-- The moves that are left to the pipeline, at most. -/
def work (h : InitHashing) : ℕ :=
  h.readers.cost (fun info => info.size.toNat + 10) readerWork +
    h.workers.cost (fun _ => 6) hasherWork + h.comparers.cost (fun _ => 3) comparerWork

/-- The channel that the listener feeds is closed, and no reader is in `StartHashing`. -/
structure Draining (h : InitHashing) : Prop where
  closed : h.readers.closed = true
  reads : h.readers.All (fun _ => True) fun t => ∀ call, t ≠ .starting call

section Draining
variable {hash : List UInt8 → UInt64} {numWorkers : ℕ} {source : Image UInt8} {h h' : InitHashing}
variable {i : ℕ}

/-- A goroutine has less to do. -/
theorem work_setReader {t : HashReader} {w : Worker HashReader} (hb : h.readers.busy? i = some t)
    (hw : w.cost readerWork ≤ readerWork t) : (h.setReader i w).work < h.work := by
  have := Pool.cost_setWorker (g := fun info : HashInfo => info.size.toNat + 10)
    (f := readerWork) hb w
  simp only [work, setReader]
  omega

theorem work_setHasher {t : HashWorker} {w : Worker HashWorker} (hb : h.workers.busy? i = some t)
    (hw : w.cost hasherWork ≤ hasherWork t) : (h.setHasher i w).work < h.work := by
  have := Pool.cost_setWorker (g := fun _ => 6) (f := hasherWork) hb w
  simp only [work, setHasher]
  omega

theorem work_setComparer {t : Comparer} {w : Worker Comparer} (hb : h.comparers.busy? i = some t)
    (hw : w.cost comparerWork ≤ comparerWork t) : (h.setComparer i w).work < h.work := by
  have := Pool.cost_setWorker (g := fun _ => 3) (f := comparerWork) hb w
  simp only [work, setComparer]
  omega

theorem Draining.setReader (hd : h.Draining) {w : Worker HashReader}
    (hw : ∀ t, w = .busy t → ∀ call, t ≠ .starting call) : (h.setReader i w).Draining :=
  ⟨hd.closed, hd.reads.setWorker hw⟩

theorem Draining.moveReader (hd : h.Draining)
    (hm : h.moveReader numWorkers source i false = some h') : h'.Draining ∧ h'.work < h.work := by
  unfold InitHashing.moveReader at hm
  split at hm
  · obtain ⟨readers, hr, rfl⟩ := Option.map_eq_some_iff.mp hm
    refine ⟨⟨(Pool.closed_receive hr).trans hd.closed,
      hd.reads.receive hr fun _ _ call => by simp⟩, ?_⟩
    have := Pool.cost_receive (g := fun info : HashInfo => info.size.toNat + 10)
      (f := readerWork) hr (by simp [readerWork])
    simp only [work]
    omega
  · rename_i info hb
    cases hm
    refine ⟨hd.setReader ?_, work_setReader hb ?_⟩
    · rintro t ⟨⟩ call
      simp
    · simp [Worker.cost, readerWork]
  · rename_i info buf hb
    cases hm
    refine ⟨hd.setReader ?_, work_setReader hb ?_⟩
    · rintro t ⟨⟩ call
      simp only [Bool.false_eq_true, if_false]
      split <;> simp
    · simp only [Bool.false_eq_true, if_false, Worker.cost]
      split
      · simp only [readerWork, List.length_append, List.length_singleton]
        omega
      · simp [readerWork]
  · rename_i item hb
    obtain ⟨workers, hs, rfl⟩ := Option.map_eq_some_iff.mp hm
    refine ⟨⟨hd.closed, hd.reads.setWorker (by rintro t ⟨⟩)⟩, ?_⟩
    have h₁ := Pool.cost_setWorker (g := fun info : HashInfo => info.size.toNat + 10)
      (f := readerWork) hb .ranging
    have h₂ := Pool.cost_send (g := fun _ => 6) (f := hasherWork) hs
    simp only [work, InitHashing.setReader, readerWork, Worker.cost] at h₁ ⊢
    omega
  · cases hm

theorem Draining.moveHasher (hd : h.Draining) (hm : h.moveHasher hash numWorkers i = some h') :
    h'.Draining ∧ h'.work < h.work := by
  unfold InitHashing.moveHasher at hm
  split at hm
  · obtain ⟨workers, hr, rfl⟩ := Option.map_eq_some_iff.mp hm
    refine ⟨⟨hd.closed, hd.reads⟩, ?_⟩
    have := Pool.cost_receive (g := fun _ => 6) (f := hasherWork) hr (by simp [hasherWork])
    simp only [work]
    omega
  · rename_i item hb
    cases hm
    exact ⟨⟨hd.closed, hd.reads⟩, work_setHasher hb le_rfl⟩
  · rename_i comp hb
    obtain ⟨comparers, hs, rfl⟩ := Option.map_eq_some_iff.mp hm
    refine ⟨⟨hd.closed, hd.reads⟩, ?_⟩
    have h₁ := Pool.cost_setWorker (g := fun _ => 6) (f := hasherWork) hb .ranging
    have h₂ := Pool.cost_send (g := fun _ => 3) (f := comparerWork) hs
    simp only [work, setHasher, hasherWork, Worker.cost] at h₁ ⊢
    omega

theorem Draining.moveComparer (hd : h.Draining) {ps : List Packet}
    (hm : h.moveComparer i = some (h', ps)) : h'.Draining ∧ h'.work < h.work := by
  unfold InitHashing.moveComparer at hm
  split at hm
  · obtain ⟨comparers, hr, heq⟩ := Option.map_eq_some_iff.mp hm
    cases heq
    refine ⟨⟨hd.closed, hd.reads⟩, ?_⟩
    have := Pool.cost_receive (g := fun _ => 3) (f := comparerWork) hr (by simp [comparerWork])
    simp only [work]
    omega
  · rename_i comp hb
    cases hm
    refine ⟨⟨hd.closed, hd.reads⟩, work_setComparer hb ?_⟩
    split <;> simp [Worker.cost, comparerWork]
  · rename_i block hb
    cases hm
    exact ⟨⟨hd.closed, hd.reads⟩, work_setComparer hb le_rfl⟩

/-- **Every move brings the pipeline nearer to its end.** -/
theorem Draining.move (hd : h.Draining) {m : HashingMove} (hreads : ∀ i, m ≠ .reader i true)
    {ps : List Packet} (hm : h.move hash numWorkers source m = some (h', ps)) :
    h'.Draining ∧ h'.work < h.work := by
  cases m with
  | reader i failed =>
      obtain rfl : failed = false := by
        cases failed with
        | false => rfl
        | true => exact absurd rfl (hreads i)
      obtain ⟨h₂, hr, heq⟩ := Option.map_eq_some_iff.mp hm
      cases heq
      exact hd.moveReader hr
  | closeWork =>
      obtain ⟨⟨-, hc⟩, heq⟩ := Option.ite_none_right_eq_some.mp hm
      cases heq
      have := Pool.cost_close (g := fun _ => 6) (f := hasherWork) hc
      refine ⟨⟨hd.closed, hd.reads⟩, ?_⟩
      simp only [work]
      omega
  | worker i =>
      obtain ⟨h₂, hr, heq⟩ := Option.map_eq_some_iff.mp hm
      cases heq
      exact hd.moveHasher hr
  | closeComp =>
      obtain ⟨⟨-, hc⟩, heq⟩ := Option.ite_none_right_eq_some.mp hm
      cases heq
      have := Pool.cost_close (g := fun _ => 3) (f := comparerWork) hc
      refine ⟨⟨hd.closed, hd.reads⟩, ?_⟩
      simp only [work]
      omega
  | comparer i => exact hd.moveComparer hm

theorem Draining.act (hd : h.Draining) {a : HashingAction} (ha : a.Reads)
    (hs : h.act hash numWorkers a = some h') :
    h'.Draining ∧ h'.work + (if a.encoded then 1 else 0) ≤ h.work := by
  obtain ⟨source, m, encoded⟩ := a
  obtain ⟨⟨h₁, ps⟩, hm, hs⟩ := Option.bind_eq_some_iff.mp hs
  cases encoded with
  | true =>
      cases hs
      exact hd.move ha hm
  | false =>
      obtain ⟨-, heq⟩ := Option.ite_none_right_eq_some.mp hs
      cases heq
      exact ⟨hd, le_rfl⟩

theorem moveComparer_of_busy {t : Comparer} (hb : h.comparers.busy? i = some t) :
    ∃ r, h.moveComparer i = some r := by
  unfold moveComparer
  cases t <;> simp [hb]

theorem moveHasher_of_busy {t : HashWorker} (hb : h.workers.busy? i = some t)
    (hroom : ∀ a, ∃ p, h.comparers.send numWorkers a = some p) (hash : List UInt8 → UInt64) :
    ∃ h', h.moveHasher hash numWorkers i = some h' := by
  unfold moveHasher
  cases t with
  | took item => simp [hb]
  | sending comp =>
      obtain ⟨p, hp⟩ := hroom comp
      simp [hb, hp]

theorem Draining.moveReader_of_busy (hd : h.Draining) {t : HashReader}
    (hb : h.readers.busy? i = some t) (hroom : ∀ a, ∃ p, h.workers.send numWorkers a = some p)
    (source : Image UInt8) : ∃ h', h.moveReader numWorkers source i false = some h' := by
  unfold InitHashing.moveReader
  cases t with
  | took info | reading info buf => simp [hb]
  | sendingWork item =>
      obtain ⟨p, hp⟩ := hroom item
      simp [hb, hp]
  | starting call => exact absurd rfl (hd.reads.of_busy? hb call)

/-- **The pipeline does not wait for itself**, and the listener does not wait for good. -/
theorem Draining.progress (hd : h.Draining) (hn : 0 < numWorkers)
    (hf : ¬ h.comparers.Finished) (hash : List UInt8 → UInt64) (source : Image UInt8) :
    ∃ m r, (∀ i, m ≠ .reader i true) ∧ h.move hash numWorkers source m = some r := by
  rcases Pool.awake hf .took with ⟨i, t, hb⟩ | ⟨i, p, hb, hr⟩ | ⟨hq, hc⟩
  · obtain ⟨r, hr⟩ := moveComparer_of_busy hb
    exact ⟨.comparer i, r, by simp, hr⟩
  · exact ⟨.comparer i, ({ h with comparers := p }, []), by simp,
      by simp [InitHashing.move, InitHashing.moveComparer, hb, hr]⟩
  have hroom := Pool.send_of_nil hq hc hn
  by_cases hfw : h.workers.Finished
  · exact ⟨.closeComp, _, by simp, if_pos ⟨hfw, hc⟩⟩
  rcases Pool.awake hfw .took with ⟨i, t, hb⟩ | ⟨i, p, hb, hr⟩ | ⟨hq', hc'⟩
  · obtain ⟨h', hm⟩ := moveHasher_of_busy hb hroom hash
    exact ⟨.worker i, (h', []), by simp, by rw [InitHashing.move, hm]; rfl⟩
  · exact ⟨.worker i, ({ h with workers := p }, []), by simp,
      by simp [InitHashing.move, InitHashing.moveHasher, hb, hr]⟩
  have hroom' := Pool.send_of_nil hq' hc' hn
  by_cases hfr : h.readers.Finished
  · exact ⟨.closeWork, _, by simp, if_pos ⟨hfr, hc'⟩⟩
  rcases Pool.awake hfr .took with ⟨i, t, hb⟩ | ⟨i, p, hb, hr⟩ | ⟨-, hc''⟩
  · obtain ⟨h', hm⟩ := hd.moveReader_of_busy hb hroom' source
    exact ⟨.reader i false, (h', []), by simp, by rw [InitHashing.move, hm]; rfl⟩
  · exact ⟨.reader i false, ({ h with readers := p }, []), by simp,
      by simp [InitHashing.move, InitHashing.moveReader, hb, hr]⟩
  · cases hc''.symm.trans hd.closed

/-- **`InitHashing` returns** when its channel has been closed, wherever its goroutines are, unless
`Encode` fails for ever: besides the attempts in which it fails they make at most so many moves, and
until the last stage has returned one of them can make the next. -/
theorem returns_of_draining {actions : List HashingAction} (hn : 0 < numWorkers)
    (hd : h.Draining) (hrun : Run (act hash numWorkers) (fun _ a => a.Reads) h actions h') :
    actions.countP HashingAction.encoded ≤ h.work ∧ (h'.comparers.Finished ∨ ∀ source, ∃ m r,
      (∀ i, m ≠ .reader i true) ∧ h'.move hash numWorkers source m = some r) := by
  have hd' : h'.Draining := hrun.invariant (fun _ _ _ hi ha hs => (hi.act ha hs).1) hd
  refine ⟨?_, ?_⟩
  · have := hrun.countP_le (I := Draining) (w := work) HashingAction.encoded hd
      (fun _ _ _ hi ha hs => (hi.act ha hs).1) fun _ _ _ hi ha hs => (hi.act ha hs).2
    omega
  · by_cases hf : h'.comparers.Finished
    · exact .inl hf
    · exact .inr (hd'.progress hn hf hash)

end Draining

/-- A hash of a byte is in the channel, which is closed. -/
def oneHash : InitHashing := { start 1 with readers := ⟨[⟨0, 1, 7⟩], true, [.ranging]⟩ }

/-- The byte is read, its hash compared, and the block sent at the second attempt. -/
def comparesOne : List HashingAction :=
  List.flatten [
    List.replicate 5 ⟨fun _ => 5, .reader 0 false, true⟩,
    List.replicate 3 ⟨fun _ => 5, .worker 0, true⟩,
    List.replicate 2 ⟨fun _ => 5, .comparer 0, true⟩,
    [⟨fun _ => 5, .comparer 0, false⟩, ⟨fun _ => 5, .comparer 0, true⟩]]

theorem returns_of_draining_comparesOne : ∃ h,
    Run (act (fun _ => 3) 1) (fun _ a => a.Reads) oneHash comparesOne h ∧
    oneHash.Draining ∧ comparesOne.length = 12 ∧ comparesOne.countP HashingAction.encoded = 11 ∧
    (comparesOne.countP HashingAction.encoded ≤ oneHash.work ∧
      (h.comparers.Finished ∨ ∀ source, ∃ m r,
        (∀ i, m ≠ .reader i true) ∧ h.move (fun _ => 3) 1 source m = some r)) := by
  have hreads : ∀ a ∈ comparesOne, a.Reads := by
    intro a ha i
    simp only [comparesOne, List.flatten_cons, List.flatten_nil, List.append_nil, List.mem_append,
      List.mem_replicate, List.mem_cons, List.not_mem_nil, or_false] at ha
    obtain ⟨-, rfl⟩ | ⟨-, rfl⟩ | ⟨-, rfl⟩ | rfl | rfl := ha <;> simp
  obtain ⟨h, hexec, -⟩ := exists_exec (P := fun _ : InitHashing => true)
    (show (exec (act (fun _ => 3) 1) oneHash comparesOne).any _ = true by decide +kernel)
  have hrun : Run (act (fun _ => 3) 1) (fun _ a => a.Reads) oneHash comparesOne h :=
    Run.of_exec hexec fun a ha _ => hreads a ha
  have hd : oneHash.Draining := ⟨rfl, by simp [oneHash], by simp [oneHash]⟩
  exact ⟨h, hrun, hd, rfl, rfl, returns_of_draining Nat.one_pos hd hrun⟩

end InitHashing

/-! ### InitReplication -/

namespace InitReplication

/-- A block is read byte by byte. -/
def readerWork : BlockReader → ℕ
  | .sending _ => 3
  | .reading item buf => item.size.toNat - buf.length + 4

/-- The blocks that are still to be generated. -/
def blocksFrom (diskSize : UInt64) (off : ℕ) : ℕ :=
  (Server.blockOffsets hashedSpaceBase diskSize.toNat off).length

def generatorWork (diskSize : UInt64) : BlockGenerator → ℕ
  | .loop offset => (hashedSpaceBase + 7) * blocksFrom diskSize offset.toNat + 1
  | .sending item =>
      (hashedSpaceBase + 7) * (blocksFrom diskSize (item.offset.toNat + hashedSpaceBase) + 1)
  | .done => 0

def phaseWork : ReplicationPhase → ℕ
  | .running => 1
  | _ => 0

/-- The moves that are left to the pipeline, at most, and the one that ends it. -/
def work (diskSize : UInt64) (r : InitReplication) : ℕ :=
  generatorWork diskSize r.generator +
    r.readers.cost (fun item => item.size.toNat + 5) readerWork +
    r.senders.cost (fun _ => 2) (fun _ => 1) + phaseWork r.phase

/-- The generator is at a block of the device, and has closed the channel when it has returned. -/
structure Ticking (diskSize : UInt64) (r : InitReplication) : Prop where
  sending : ∀ item, r.generator = .sending item →
    item.offset < diskSize ∧ item.size.toNat ≤ hashedSpaceBase
  done : r.generator = .done → r.readers.closed = true

section Ticking
variable {numWorkers : ℕ} {diskSize : UInt64} {source : Image UInt8} {r r' : InitReplication}
variable {i : ℕ}

theorem ticking_start (diskSize : UInt64) (n : ℕ) : (start n).Ticking diskSize :=
  ⟨by rintro _ ⟨⟩, by rintro ⟨⟩⟩

theorem work_start (diskSize : UInt64) (n : ℕ) :
    (start n).work diskSize = (hashedSpaceBase + 7) * blocksFrom diskSize 0 + 2 * n + 4 := by
  simp only [work, start, generatorWork, Pool.cost_start, UInt64.toNat_zero, phaseWork]
  omega

theorem Ticking.moveGenerator (ht : r.Ticking diskSize) (hd : diskSize.toNat < 2 ^ 63)
    (hm : r.moveGenerator numWorkers diskSize = some r') :
    r'.Ticking diskSize ∧ r'.work diskSize < r.work diskSize := by
  have hbase : 0 < hashedSpaceBase := by decide
  unfold InitReplication.moveGenerator at hm
  split at hm
  · rename_i offset hg
    split at hm
    · rename_i hlt
      cases hm
      have hoff := UInt64.lt_iff_toNat_lt.mp hlt
      have hblocks : blocksFrom diskSize offset.toNat =
          blocksFrom diskSize (offset.toNat + hashedSpaceBase) + 1 := by
        rw [blocksFrom, Server.blockOffsets_of_lt hbase hoff, List.length_cons, blocksFrom]
      refine ⟨⟨?_, by rintro ⟨⟩⟩, ?_⟩
      · intro item heq
        obtain rfl : readItem diskSize offset = item := BlockGenerator.sending.inj heq
        refine ⟨by rwa [offset_readItem], ?_⟩
        rw [size_readItem hd hlt]
        exact Nat.min_le_left _ _
      · simp only [work, hg, generatorWork, offset_readItem, hblocks]
        omega
    · cases hm
      refine ⟨⟨by rintro _ ⟨⟩, fun _ => rfl⟩, ?_⟩
      have := r.readers.cost_close_le (g := fun item : ReadItem => item.size.toNat + 5)
        (f := readerWork)
      simp only [work, hg, generatorWork]
      omega
  · rename_i item hg
    obtain ⟨readers, hs, rfl⟩ := Option.map_eq_some_iff.mp hm
    obtain ⟨hlt, hsize⟩ := ht.sending item hg
    have hoff := UInt64.lt_iff_toNat_lt.mp hlt
    have hnext : (item.offset + UInt64.ofNat hashedSpaceBase).toNat =
        item.offset.toNat + hashedSpaceBase := by
      have hlt : hashedSpaceBase < 2 ^ 63 := by decide
      have hlit : (UInt64.ofNat hashedSpaceBase).toNat = hashedSpaceBase := by decide
      rw [UInt64.toNat_add, hlit]
      exact Nat.mod_eq_of_lt (by omega)
    have hcost := Pool.cost_send (g := fun item : ReadItem => item.size.toNat + 5)
      (f := readerWork) hs
    refine ⟨⟨by rintro _ ⟨⟩, by rintro ⟨⟩⟩, ?_⟩
    simp only [work, hg, generatorWork, hnext, hcost, Nat.mul_add, Nat.mul_one]
    omega
  · cases hm

theorem Ticking.moveReader (ht : r.Ticking diskSize) {failed : Bool}
    (hm : r.moveReader numWorkers source i failed = some r') :
    r'.Ticking diskSize ∧ r'.work diskSize < r.work diskSize := by
  have hset : ∀ {t : BlockReader} {w : Worker BlockReader}, r.readers.busy? i = some t →
      w.cost readerWork ≤ readerWork t →
      (r.setReader i w).Ticking diskSize ∧ (r.setReader i w).work diskSize < r.work diskSize := by
    intro t w hb hw
    have := Pool.cost_setWorker (g := fun item : ReadItem => item.size.toNat + 5)
      (f := readerWork) hb w
    refine ⟨⟨ht.sending, ht.done⟩, ?_⟩
    simp only [work, setReader]
    omega
  unfold InitReplication.moveReader at hm
  split at hm
  · obtain ⟨readers, hr, rfl⟩ := Option.map_eq_some_iff.mp hm
    refine ⟨⟨ht.sending, fun hg => (Pool.closed_receive hr).trans (ht.done hg)⟩, ?_⟩
    have := Pool.cost_receive (g := fun item : ReadItem => item.size.toNat + 5)
      (f := readerWork) hr (by simp [readerWork])
    simp only [work]
    omega
  · rename_i item buf hb
    split at hm
    · cases hm
      exact hset hb (by simp [Worker.cost, readerWork])
    · split at hm
      · cases hm
        refine hset hb ?_
        simp only [Worker.cost, readerWork, List.length_append, List.length_singleton]
        omega
      · cases hm
        exact hset hb (by simp [Worker.cost, readerWork])
  · rename_i block hb
    obtain ⟨senders, hs, rfl⟩ := Option.map_eq_some_iff.mp hm
    refine ⟨⟨ht.sending, ht.done⟩, ?_⟩
    have h₁ := Pool.cost_setWorker (g := fun item : ReadItem => item.size.toNat + 5)
      (f := readerWork) hb .ranging
    have h₂ := Pool.cost_send (g := fun _ => 2) (f := fun _ => 1) hs
    simp only [work, setReader, readerWork, Worker.cost] at h₁ ⊢
    omega

theorem Ticking.moveSender (ht : r.Ticking diskSize) {q : InitReplication × List Packet}
    (hm : r.moveSender i = some q) :
    q.1.Ticking diskSize ∧ q.1.work diskSize < r.work diskSize := by
  unfold InitReplication.moveSender at hm
  split at hm
  · obtain ⟨senders, hr, rfl⟩ := Option.map_eq_some_iff.mp hm
    refine ⟨⟨ht.sending, ht.done⟩, ?_⟩
    have := Pool.cost_receive (g := fun _ => 2) (f := fun _ => 1) hr (by simp)
    simp only [work]
    omega
  · rename_i block hb
    cases hm
    refine ⟨⟨ht.sending, ht.done⟩, ?_⟩
    have := Pool.cost_setWorker (g := fun _ => 2) (f := fun _ => 1) hb .ranging
    simp only [work, Worker.cost] at this ⊢
    omega

theorem moveReader_of_busy {t : BlockReader} (hb : r.readers.busy? i = some t)
    (hroom : ∀ a, ∃ p, r.senders.send numWorkers a = some p) (source : Image UInt8) :
    ∃ r', r.moveReader numWorkers source i false = some r' := by
  unfold moveReader
  cases t with
  | reading item buf =>
      simp only [hb, Bool.false_eq_true, if_false]
      split
      · exact ⟨_, rfl⟩
      · exact ⟨_, rfl⟩
  | sending block =>
      obtain ⟨p, hp⟩ := hroom block
      simp [hb, hp]

theorem Ticking.moveGenerator_of_open (ht : r.Ticking diskSize) (hc : r.readers.closed = false)
    (hroom : ∀ a, ∃ p, r.readers.send numWorkers a = some p) :
    ∃ r', r.moveGenerator numWorkers diskSize = some r' := by
  unfold InitReplication.moveGenerator
  cases hg : r.generator with
  | loop offset =>
      dsimp only
      split
      · exact ⟨_, rfl⟩
      · exact ⟨_, rfl⟩
  | sending item =>
      obtain ⟨p, hp⟩ := hroom item
      simp [hp]
  | done =>
      rw [ht.done hg] at hc
      cases hc

end Ticking

end InitReplication

section Replication
variable {P : ℕ} {cfg : ClientConfig} {c c' : Client}

/-- The other goroutines leave `InitReplication` alone, once `Run` has started it. -/
theorem replication_frame {m : ClientMove P} {ps : List Packet} (hrun : c.run = none)
    (hne : ∀ rm, m ≠ .replication rm) (hm : c.move cfg m = some (c', ps)) :
    c'.run = none ∧ c'.replication = c.replication := by
  cases move_cases hm with
  | run h => cases hrun.symm.trans h
  | replicates => exact absurd rfl (hne _)
  | listener _ h => cases h <;> exact ⟨hrun, rfl⟩
  | @deliver packet => cases packet <;> exact ⟨hrun, rfl⟩
  | dial => split <;> exact ⟨hrun, rfl⟩
  | write | monitorWaits | monitorReads | monitorStarts | monitorProcesses | eof | readerStarts
  | hashes => exact ⟨hrun, rfl⟩

/-- **Every move of `InitReplication` brings it nearer to its end.** -/
theorem replication_move {rm : ReplicationMove} {ps : List Packet} (hrun : c.run = none)
    (ht : c.replication.Ticking cfg.diskSize) (hd : cfg.diskSize.toNat < 2 ^ 63)
    (hp : c.replication.phase = .running)
    (hm : c.move cfg (.replication rm : ClientMove P) = some (c', ps)) :
    c'.run = none ∧ c'.replication.Ticking cfg.diskSize ∧
      c'.replication.work cfg.diskSize < c.replication.work cfg.diskSize := by
  cases move_cases hm with
  | replicates _ h =>
      cases h with
      | generates _ h => exact ⟨hrun, ht.moveGenerator hd h⟩
      | reads _ h => exact ⟨hrun, ht.moveReader h⟩
      | closes _ _ hc =>
          have := Pool.cost_close (g := fun _ : ReplicationBlockInfo => 2) (f := fun _ => 1) hc
          refine ⟨hrun, ⟨ht.sending, ht.done⟩, ?_⟩
          simp only [InitReplication.work, setReplication]
          omega
      | receives _ h =>
          have := Pool.cost_receive (g := fun _ : ReplicationBlockInfo => 2) (f := fun _ => 1) h
            (by simp)
          refine ⟨hrun, ⟨ht.sending, ht.done⟩, ?_⟩
          simp only [InitReplication.work, setReplication]
          omega
      | sends _ hb =>
          have := Pool.cost_setWorker (g := fun _ : ReplicationBlockInfo => 2) (f := fun _ => 1)
            hb .ranging
          refine ⟨hrun, ⟨ht.sending, ht.done⟩, ?_⟩
          simp only [InitReplication.work, setReplication, Worker.cost] at this ⊢
          omega
      | completes =>
          refine ⟨hrun, ⟨ht.sending, ht.done⟩, ?_⟩
          simp [InitReplication.work, setReplication, hp, InitReplication.phaseWork]
      | setsWriting hp' | resumes hp' => cases hp.symm.trans hp'

/-- **`InitReplication` does not wait for itself.** -/
theorem replication_progress (hrun : c.run = none) (hn : 0 < cfg.numWorkers)
    (ht : c.replication.Ticking cfg.diskSize) (hp : c.replication.phase = .running) :
    ∃ rm r, c.move cfg (.replication rm : ClientMove P) = some r := by
  suffices h : ∃ rm r, c.moveReplication cfg rm = some r by
    obtain ⟨rm, r, hr⟩ := h
    exact ⟨rm, r, (if_pos hrun).trans hr⟩
  by_cases hfs : c.replication.senders.Finished
  · exact ⟨.finish, _, by simp only [moveReplication, hp]; exact if_pos hfs⟩
  rcases Pool.awake hfs id with ⟨i, block, hb⟩ | ⟨i, p, hb, hr⟩ | ⟨hq, hc⟩
  · exact ⟨.sender i, _, by simp only [moveReplication, hp, InitReplication.moveSender, hb]; rfl⟩
  · exact ⟨.sender i, _, by
      simp only [moveReplication, hp, InitReplication.moveSender, hb, hr]; rfl⟩
  have hroom := Pool.send_of_nil hq hc hn
  by_cases hfr : c.replication.readers.Finished
  · exact ⟨.closeSend, _, by simp only [moveReplication, hp]; exact if_pos ⟨hfr, hc⟩⟩
  rcases Pool.awake hfr (.reading · []) with ⟨i, t, hb⟩ | ⟨i, p, hb, hr⟩ | ⟨hq', hc'⟩
  · obtain ⟨r, hm⟩ := InitReplication.moveReader_of_busy hb hroom c.source
    exact ⟨.reader i false, _, by simp only [moveReplication, hp, hm]; rfl⟩
  · exact ⟨.reader i false, _, by
      simp only [moveReplication, hp, InitReplication.moveReader, hb, hr]; rfl⟩
  · obtain ⟨r, hm⟩ := ht.moveGenerator_of_open hc' (Pool.send_of_nil hq' hc' hn)
    exact ⟨.generator, _, by simp only [moveReplication, hp, hm]; rfl⟩

def ClientMove.isReplication : ClientMove P → Bool
  | .replication _ => true
  | _ => false

/-- A move of the client.  If not `encoded`, it is an attempt of `SendPacket` in `InitReplication`
in which `Encode` fails. -/
structure ClientAction (P : ℕ) where
  move : ClientMove P
  encoded : Bool

def act (cfg : ClientConfig) (c : Client) (a : ClientAction P) : Option Client :=
  (c.move cfg a.move).bind fun r =>
    if a.encoded then some r.1
    else if a.move.isReplication ∧ r.2 ≠ [] then some c
    else none

/-- A move of `InitReplication` that is not an attempt in vain. -/
def ClientAction.replicates (a : ClientAction P) : Bool := a.move.isReplication && a.encoded

theorem replication_act (hd : cfg.diskSize.toNat < 2 ^ 63) {a : ClientAction P}
    (hi : c.run = none ∧ c.replication.Ticking cfg.diskSize) (hp : c.replication.phase = .running)
    (hs : act cfg c a = some c') :
    (c'.run = none ∧ c'.replication.Ticking cfg.diskSize) ∧
      c'.replication.work cfg.diskSize + (if a.replicates then 1 else 0) ≤
        c.replication.work cfg.diskSize := by
  obtain ⟨m, encoded⟩ := a
  obtain ⟨⟨c₁, ps⟩, hm, hs⟩ := Option.bind_eq_some_iff.mp hs
  cases encoded with
  | false =>
      obtain ⟨-, heq⟩ := Option.ite_none_right_eq_some.mp hs
      cases heq
      exact ⟨hi, by simp [ClientAction.replicates]⟩
  | true =>
      cases hs
      by_cases hr : ∃ rm, m = .replication rm
      · obtain ⟨rm, rfl⟩ := hr
        obtain ⟨hnone, ht, hlt⟩ := replication_move hi.1 hi.2 hd hp hm
        exact ⟨⟨hnone, ht⟩, hlt⟩
      · obtain ⟨hnone, heq⟩ := replication_frame hi.1 (fun rm hrm => hr ⟨rm, hrm⟩) hm
        have hnot : m.isReplication = false := by
          cases m with
          | replication rm => exact absurd ⟨rm, rfl⟩ hr
          | _ => rfl
        rw [heq]
        exact ⟨⟨hnone, hi.2⟩, by simp [ClientAction.replicates, hnot]⟩

/-- **`InitReplication` returns**, whatever the other goroutines of the client, the applications and
the server do meanwhile and whatever reads fail, unless `Encode` fails for ever: besides the
attempts in which it fails its goroutines make at most so many moves until it reports completion,
and before that one of them can make the next. -/
theorem replication_returns {actions : List (ClientAction P)} (hn : 0 < cfg.numWorkers)
    (hd : cfg.diskSize.toNat < 2 ^ 63) (hrun₀ : c.run = none)
    (hstart : c.replication = .start cfg.numWorkers)
    (hrun : Run (act cfg) (fun c _ => c.replication.phase = .running) c actions c') :
    actions.countP ClientAction.replicates ≤
        (hashedSpaceBase + 7) * InitReplication.blocksFrom cfg.diskSize 0 +
          2 * cfg.numWorkers + 4 ∧
      (c'.replication.phase = .running →
        ∃ rm r, c'.move cfg (.replication rm : ClientMove P) = some r) := by
  have hinit : c.run = none ∧ c.replication.Ticking cfg.diskSize :=
    ⟨hrun₀, hstart ▸ InitReplication.ticking_start _ _⟩
  refine ⟨?_, ?_⟩
  · have := hrun.countP_le (I := fun c => c.run = none ∧ c.replication.Ticking cfg.diskSize)
      (w := fun c => c.replication.work cfg.diskSize) ClientAction.replicates hinit
      (fun _ _ _ hi hp hs => (replication_act hd hi hp hs).1)
      fun _ _ _ hi hp hs => (replication_act hd hi hp hs).2
    rw [hstart, InitReplication.work_start] at this
    omega
  · have hinv := hrun.invariant
      (I := fun c => c.run = none ∧ c.replication.Ticking cfg.diskSize)
      (fun _ _ _ hi hp hs => (replication_act hd hi hp hs).1) hinit
    exact replication_progress hinv.1 hn hinv.2

end Replication

/-- A client that has just started a full replication of a byte. -/
def replicatesOne : Client :=
  { Client.start none Traced.fourSlots fun _ => 5 with replication := .start 1 }

/-- The byte is read and sent at the second attempt, an application writes meanwhile and the monitor
looks at the pause controller; then completion is reported. -/
def sendsOne : List (ClientAction 4096) :=
  List.flatten [
    List.replicate 3 ⟨.replication .generator, true⟩,
    [⟨.write Traced.ninePut, true⟩, ⟨.monitor true, true⟩],
    List.replicate 5 ⟨.replication (.reader 0 false), true⟩,
    [⟨.replication .closeSend, true⟩, ⟨.replication (.sender 0), true⟩,
      ⟨.replication (.sender 0), false⟩, ⟨.replication (.sender 0), true⟩,
      ⟨.replication (.sender 0), true⟩, ⟨.replication .finish, true⟩]]

theorem replication_returns_sendsOne : ∃ c,
    Run (act Traced.fourSlotsConfig) (fun c _ => c.replication.phase = .running) replicatesOne
      sendsOne c ∧
    c.replication.phase = .settingState ∧ sendsOne.countP ClientAction.replicates = 13 ∧
    (sendsOne.countP ClientAction.replicates ≤
        (hashedSpaceBase + 7) * InitReplication.blocksFrom Traced.fourSlotsConfig.diskSize 0 +
          2 * Traced.fourSlotsConfig.numWorkers + 4 ∧
      (c.replication.phase = .running → ∃ rm r,
        c.move Traced.fourSlotsConfig (.replication rm : ClientMove 4096) = some r)) := by
  obtain ⟨c, hexec, hd⟩ := exists_exec
    (P := fun c : Client => decide (c.replication.phase = .settingState))
    (show (exec (guarded (act Traced.fourSlotsConfig) (fun c _ => c.replication.phase = .running))
      replicatesOne sendsOne).any _ = true by decide +kernel)
  have hrun := Run.of_exec_guarded hexec
  exact ⟨c, hrun, of_decide_eq_true hd, by decide,
    replication_returns (by decide) (by decide) rfl rfl hrun⟩

end Bdr.Client
