import Bdr.Client.InitHashing
import Bdr.Networking

/-!
# Client — every hash of a scan

`InitHashing` takes the hashes of a scan, reads the blocks they are of, and sends those that differ.
A hash is on its way until a comparer has looked at it (`hashWeight`), and from then on, where the
hashes differ, the block is until it is sent (`blockWeight`).  No hash is lost, and no block is made
out of nothing: nothing is left when the comparers have returned.

A reader reads a block byte by byte, while applications go on writing to the device.  All that is
said of a byte is that it was on the device when it was read (`Q`).
-/

namespace Bdr.Client

/-- What has been read of the block that the hash is of. -/
structure WorkItem.Carries (ok : HashInfo → Prop) (Q : ℕ → UInt8 → Prop) (w : WorkItem) : Prop where
  info : ok w.hashInfo
  length : w.buffer.length = w.hashInfo.size.toNat
  cells : ∀ i v, w.buffer[i]? = some v → Q (w.hashInfo.offset.toNat + i) v

/-- The block has been read and hashed. -/
structure CompItem.Carries (hash : List UInt8 → UInt64) (ok : HashInfo → Prop)
    (Q : ℕ → UInt8 → Prop) (c : CompItem) : Prop where
  work : WorkItem.Carries ok Q ⟨c.hashInfo, c.buffer⟩
  hash : c.hash = hash c.buffer

section Goroutines
variable (hash : List UInt8 → UInt64) (size : ℕ) (ok : HashInfo → Prop) (Q : ℕ → UInt8 → Prop)

def HashReader.Carries : HashReader → Prop
  | .took h => ok h
  | .reading h buf => ok h ∧ buf.length ≤ h.size.toNat ∧
      ∀ i v, buf[i]? = some v → Q (h.offset.toNat + i) v
  | .sendingWork work => work.Carries ok Q
  | .starting _ => False

def HashWorker.Carries : HashWorker → Prop
  | .took work => work.Carries ok Q
  | .sending comp => comp.Carries hash ok Q

def Comparer.Carries : Comparer → Prop
  | .took comp => comp.Carries hash ok Q
  | .sending block => block.Carries size Q

end Goroutines

section Weights
variable (p : ℕ)

def HashReader.weight : HashReader → ℕ
  | .took h | .reading h _ => h.weight p
  | .sendingWork work => work.hashInfo.weight p
  | .starting _ => 0

def HashWorker.weight : HashWorker → ℕ
  | .took work => work.hashInfo.weight p
  | .sending comp => comp.hashInfo.weight p

/-- The hash that a comparer looks at. -/
def Comparer.hashWeight : Comparer → ℕ
  | .took comp => comp.hashInfo.weight p
  | .sending _ => 0

/-- The block that a comparer is about to send. -/
def Comparer.blockWeight : Comparer → ℕ
  | .took _ => 0
  | .sending block => block.weight p

end Weights

namespace InitHashing

/-- How often the hashes on their way cover `p`. -/
def hashWeight (p : ℕ) (h : InitHashing) : ℕ :=
  h.readers.weigh (HashInfo.weight p) (HashReader.weight p) +
    h.workers.weigh (fun work => work.hashInfo.weight p) (HashWorker.weight p) +
    h.comparers.weigh (fun comp => comp.hashInfo.weight p) (Comparer.hashWeight p)

/-- How often the blocks that are about to be sent cover `p`. -/
def blockWeight (p : ℕ) (h : InitHashing) : ℕ :=
  h.comparers.weigh (fun _ => 0) (Comparer.blockWeight p)

/-- The pipeline: what is in it is sound, and it is closed from the front. -/
structure Compares (hash : List UInt8 → UInt64) (size : ℕ) (ok : HashInfo → Prop)
    (Q : ℕ → UInt8 → Prop) (h : InitHashing) : Prop where
  readers : h.readers.All ok (HashReader.Carries ok Q)
  workers : h.workers.All (WorkItem.Carries ok Q) (HashWorker.Carries hash ok Q)
  comparers : h.comparers.All (CompItem.Carries hash ok Q) (Comparer.Carries hash size ok Q)
  readersSettled : h.readers.Settled
  workersSettled : h.workers.Settled
  comparersSettled : h.comparers.Settled
  workersClosed : h.workers.closed = true → h.readers.Finished
  comparersClosed : h.comparers.closed = true → h.workers.Finished

/-- What a move of the pipeline sends, and what it does to the hashes and blocks on their way. -/
inductive Progress (hash : List UInt8 → UInt64) (size : ℕ) (ok : HashInfo → Prop)
    (Q : ℕ → UInt8 → Prop) (h h' : InitHashing) : HashingMove → List Packet → Prop where
  | passes {m : HashingMove} (hw : ∀ p, h'.hashWeight p = h.hashWeight p)
      (hb : ∀ p, h'.blockWeight p = h.blockWeight p) : Progress hash size ok Q h h' m []
  | agrees {i : ℕ} {comp : CompItem} (hc : comp.Carries hash ok Q)
      (hbusy : h.comparers.busy? i = some (.took comp)) (heq : comp.hash = comp.hashInfo.hash)
      (hw : ∀ p, h'.hashWeight p + comp.hashInfo.weight p = h.hashWeight p)
      (hb : ∀ p, h'.blockWeight p = h.blockWeight p) : Progress hash size ok Q h h' (.comparer i) []
  | differs {i : ℕ} (comp : CompItem)
      (hw : ∀ p, h'.hashWeight p + comp.hashInfo.weight p = h.hashWeight p)
      (hb : ∀ p, h'.blockWeight p = h.blockWeight p + comp.hashInfo.weight p) :
      Progress hash size ok Q h h' (.comparer i) []
  | sends {i : ℕ} {block : CorrectBlockInfo} (hc : block.Carries size Q)
      (hw : ∀ p, h'.hashWeight p = h.hashWeight p)
      (hb : ∀ p, h'.blockWeight p + block.weight p = h.blockWeight p) :
      Progress hash size ok Q h h' (.comparer i) [.payloadCorrectBlock block]

section Pipeline
variable {hash : List UInt8 → UInt64} {size : ℕ} {ok : HashInfo → Prop} {Q Q' : ℕ → UInt8 → Prop}
variable {h h' : InitHashing} {numWorkers i p : ℕ} {source : Image UInt8}

theorem Compares.mono (hc : h.Compares hash size ok Q) (hQ : ∀ p v, Q p v → Q' p v) :
    h.Compares hash size ok Q' := by
  have hwork : ∀ w : WorkItem, w.Carries ok Q → w.Carries ok Q' := fun w hw =>
    ⟨hw.info, hw.length, fun i v hv => hQ _ _ (hw.cells i v hv)⟩
  have hcomp : ∀ c : CompItem, c.Carries hash ok Q → c.Carries hash ok Q' := fun c hc =>
    ⟨hwork _ hc.work, hc.hash⟩
  refine { hc with readers := ⟨hc.readers.queue, ?_⟩, workers := ⟨?_, ?_⟩, comparers := ⟨?_, ?_⟩ }
  · intro t ht
    have := hc.readers.workers t ht
    cases t with
    | took info => exact this
    | reading info buf => exact ⟨this.1, this.2.1, fun i v hv => hQ _ _ (this.2.2 i v hv)⟩
    | sendingWork work => exact hwork _ this
    | starting call => exact this
  · exact fun w hw => hwork w (hc.workers.queue w hw)
  · intro t ht
    have := hc.workers.workers t ht
    cases t with
    | took work => exact hwork _ this
    | sending comp => exact hcomp _ this
  · exact fun c hm => hcomp c (hc.comparers.queue c hm)
  · intro t ht
    have := hc.comparers.workers t ht
    cases t with
    | took comp => exact hcomp _ this
    | sending block => exact BlockInfo.Carries.mono this hQ

theorem compares_start (hn : 0 < numWorkers) : (start numWorkers).Compares hash size ok Q where
  readers := Pool.all_start numWorkers
  workers := Pool.all_start numWorkers
  comparers := Pool.all_start numWorkers
  readersSettled := Pool.settled_start hn
  workersSettled := Pool.settled_start hn
  comparersSettled := Pool.settled_start hn
  workersClosed := by rintro ⟨⟩
  comparersClosed := by rintro ⟨⟩

@[simp] theorem hashWeight_start (n p : ℕ) : (start n).hashWeight p = 0 := by
  simp [hashWeight, start]

@[simp] theorem blockWeight_start (n p : ℕ) : (start n).blockWeight p = 0 := by
  simp [blockWeight, start]

/-- When the comparers have returned, the stages before have. -/
theorem Compares.finished (hc : h.Compares hash size ok Q) (hf : h.comparers.Finished) :
    h.readers.Finished ∧ h.workers.Finished :=
  have hw := hc.comparersClosed (hc.comparersSettled.finished hf).1
  ⟨hc.workersClosed (hc.workersSettled.finished hw).1, hw⟩

/-- Nothing is on its way when the comparers have returned. -/
theorem Compares.weight_of_finished (hc : h.Compares hash size ok Q) (hf : h.comparers.Finished)
    (p : ℕ) : h.hashWeight p = 0 ∧ h.blockWeight p = 0 := by
  obtain ⟨hfr, hfw⟩ := hc.finished hf
  have hqr := (hc.readersSettled.finished hfr).2
  have hqw := (hc.workersSettled.finished hfw).2
  have hqc := (hc.comparersSettled.finished hf).2
  constructor
  · simp [hashWeight, hfr.weigh, hfw.weigh, hf.weigh, hqr, hqw, hqc]
  · simp [blockWeight, hf.weigh, hqc]

/-- The listener passes a hash on. -/
theorem Compares.enqueue (hc : h.Compares hash size ok Q) {cap : ℕ} {info : HashInfo}
    {readers : Pool HashInfo HashReader} (hok : ok info)
    (hs : h.readers.send cap info = some readers) :
    Compares hash size ok Q { h with readers := readers } ∧
      ∀ p, hashWeight p { h with readers := readers } = h.hashWeight p + info.weight p := by
  refine ⟨{ hc with
    readers := hc.readers.send hs hok
    readersSettled := hc.readersSettled.send hs
    workersClosed := fun hcl => ?_ }, fun p => ?_⟩
  · obtain ⟨-, rfl⟩ := Pool.send_eq_some.mp hs
    exact hc.workersClosed hcl
  · simp only [hashWeight, Pool.weigh_send hs]
    omega

theorem Compares.closeReaders (hc : h.Compares hash size ok Q) :
    Compares hash size ok Q { h with readers := h.readers.close } :=
  { hc with
    readers := hc.readers.close
    readersSettled := hc.readersSettled.close
    workersClosed := hc.workersClosed }

/-- A reader goes on to something else. -/
theorem hashWeight_setReader {t : HashReader} (hb : h.readers.busy? i = some t)
    (w : Worker HashReader) (p : ℕ) :
    (h.setReader i w).hashWeight p + t.weight p =
      h.hashWeight p + w.weigh (HashReader.weight p) := by
  have := Pool.weigh_setWorker (g := HashInfo.weight p) (f := HashReader.weight p) hb w
  simp only [hashWeight, setReader]
  omega

/-- What a reader does, if the device can be read. -/
theorem Compares.moveReader (hc : h.Compares hash size ok Q) (hQ : ∀ p, Q p (source p))
    (hm : h.moveReader numWorkers source i false = some h') :
    h'.Compares hash size ok Q ∧ (∀ p, h'.hashWeight p = h.hashWeight p) ∧
      h'.comparers = h.comparers := by
  unfold InitHashing.moveReader at hm
  -- the workers' channel is open while a reader moves
  have hopen : h.workers.closed = false := by
    by_contra hcl
    have hf := hc.workersClosed (by simpa using hcl)
    simp [hf.busy?, hf.receive] at hm
  have hne : h.workers.closed = true → ∀ pool : Pool HashInfo HashReader, pool.Finished := by
    rw [hopen]
    rintro ⟨⟩
  have hset : ∀ w : Worker HashReader, w ≠ .done → (∀ t, w = .busy t → t.Carries ok Q) →
      (h.setReader i w).Compares hash size ok Q := fun w hd hw =>
    { hc with
      readers := hc.readers.setWorker hw
      readersSettled := hc.readersSettled.setWorker hd
      workersClosed := fun hcl => hne hcl _ }
  split at hm
  · obtain ⟨readers, hr, rfl⟩ := Option.map_eq_some_iff.mp hm
    refine ⟨{ hc with
      readers := hc.readers.receive hr fun _ => id
      readersSettled := hc.readersSettled.receive hr
      workersClosed := fun hcl => hne hcl _ }, fun p => ?_, rfl⟩
    have := Pool.weigh_receive (g := HashInfo.weight p) (f := HashReader.weight p) hr fun _ => rfl
    simp only [hashWeight, this]
  · rename_i info hb
    have hok : ok info := hc.readers.of_busy? hb
    simp only [Bool.false_eq_true, if_false] at hm
    cases hm
    refine ⟨hset _ (by simp) ?_, fun p => ?_, rfl⟩
    · rintro _ ⟨⟩
      exact ⟨hok, Nat.zero_le _, by simp⟩
    · exact Nat.add_right_cancel (hashWeight_setReader hb _ p)
  · rename_i info buf hb
    obtain ⟨hok, hlen, hcells⟩ := hc.readers.of_busy? hb
    simp only [Bool.false_eq_true, if_false] at hm
    split at hm
    · rename_i hlt
      cases hm
      refine ⟨hset _ (by simp) ?_, fun p => ?_, rfl⟩
      · rintro _ ⟨⟩
        exact ⟨hok, by simp; omega, cells_concat hcells (hQ _)⟩
      · exact Nat.add_right_cancel (hashWeight_setReader hb _ p)
    · rename_i hge
      cases hm
      refine ⟨hset _ (by simp) ?_, fun p => ?_, rfl⟩
      · rintro _ ⟨⟩
        exact ⟨hok, Nat.le_antisymm hlen (Nat.le_of_not_lt hge), hcells⟩
      · exact Nat.add_right_cancel (hashWeight_setReader hb _ p)
  · rename_i work hb
    obtain ⟨workers, hs, rfl⟩ := Option.map_eq_some_iff.mp hm
    have hset' := hset .ranging (by simp) (by rintro _ ⟨⟩)
    refine ⟨{ hset' with
      workers := hc.workers.send hs (hc.readers.of_busy? hb)
      workersSettled := hc.workersSettled.send hs
      workersClosed := ?_
      comparersClosed := ?_ }, fun p => ?_, rfl⟩
    · obtain ⟨⟨-, hcl⟩, rfl⟩ := Pool.send_eq_some.mp hs
      exact fun hcl' => absurd (hcl.symm.trans hcl') Bool.false_ne_true
    · obtain ⟨-, rfl⟩ := Pool.send_eq_some.mp hs
      exact hc.comparersClosed
    · have := hashWeight_setReader hb .ranging p
      simp only [Worker.weigh, add_zero, HashReader.weight] at this
      rw [← this]
      simp only [hashWeight, setReader, Pool.weigh_send hs]
      omega
  · cases hm

/-- A worker goes on to something else. -/
theorem hashWeight_setHasher {t : HashWorker} (hb : h.workers.busy? i = some t)
    (w : Worker HashWorker) (p : ℕ) :
    (h.setHasher i w).hashWeight p + t.weight p =
      h.hashWeight p + w.weigh (HashWorker.weight p) := by
  have := Pool.weigh_setWorker (g := fun work : WorkItem => work.hashInfo.weight p)
    (f := HashWorker.weight p) hb w
  simp only [hashWeight, setHasher]
  omega

theorem Compares.moveHasher (hc : h.Compares hash size ok Q)
    (hm : h.moveHasher hash numWorkers i = some h') :
    h'.Compares hash size ok Q ∧ (∀ p, h'.hashWeight p = h.hashWeight p) ∧
      ∀ p, h'.blockWeight p = h.blockWeight p := by
  unfold InitHashing.moveHasher at hm
  have hopen : h.comparers.closed = false := by
    by_contra hcl
    have hf := hc.comparersClosed (by simpa using hcl)
    simp [hf.busy?, hf.receive] at hm
  have hne : h.comparers.closed = true → ∀ pool : Pool WorkItem HashWorker, pool.Finished := by
    rw [hopen]
    rintro ⟨⟩
  have hset : ∀ w : Worker HashWorker, w ≠ .done → (∀ t, w = .busy t → t.Carries hash ok Q) →
      (h.setHasher i w).Compares hash size ok Q := fun w hd hw =>
    { hc with
      workers := hc.workers.setWorker hw
      workersSettled := hc.workersSettled.setWorker hd
      comparersClosed := fun hcl => hne hcl _ }
  split at hm
  · obtain ⟨workers, hr, rfl⟩ := Option.map_eq_some_iff.mp hm
    refine ⟨{ hc with
      workers := hc.workers.receive hr fun _ => id
      workersSettled := hc.workersSettled.receive hr
      workersClosed := fun hcl => hc.workersClosed ((Pool.closed_receive hr).symm.trans hcl)
      comparersClosed := fun hcl => hne hcl _ }, fun p => ?_, fun _ => rfl⟩
    have := Pool.weigh_receive (g := fun work : WorkItem => work.hashInfo.weight p)
      (f := HashWorker.weight p) hr fun _ => rfl
    simp only [hashWeight, this]
  · rename_i work hb
    cases hm
    refine ⟨hset _ (by simp) ?_, fun p => ?_, fun _ => rfl⟩
    · rintro _ ⟨⟩
      exact ⟨hc.workers.of_busy? hb, rfl⟩
    · exact Nat.add_right_cancel (hashWeight_setHasher hb _ p)
  · rename_i comp hb
    obtain ⟨comparers, hs, rfl⟩ := Option.map_eq_some_iff.mp hm
    have hset' := hset .ranging (by simp) (by rintro _ ⟨⟩)
    refine ⟨{ hset' with
      comparers := hc.comparers.send hs (hc.workers.of_busy? hb)
      comparersSettled := hc.comparersSettled.send hs
      comparersClosed := ?_ }, fun p => ?_, fun p => ?_⟩
    · obtain ⟨⟨-, hcl⟩, rfl⟩ := Pool.send_eq_some.mp hs
      exact fun hcl' => absurd (hcl.symm.trans hcl') Bool.false_ne_true
    · have := hashWeight_setHasher hb .ranging p
      simp only [Worker.weigh, add_zero, HashWorker.weight] at this
      rw [← this]
      simp only [hashWeight, setHasher, Pool.weigh_send hs]
      omega
    · simp only [blockWeight, Pool.weigh_send hs, add_zero]

/-- A comparer goes on to something else. -/
theorem weight_setComparer {t : Comparer} (hb : h.comparers.busy? i = some t)
    (w : Worker Comparer) (p : ℕ) :
    (h.setComparer i w).hashWeight p + t.hashWeight p =
        h.hashWeight p + w.weigh (Comparer.hashWeight p) ∧
      (h.setComparer i w).blockWeight p + t.blockWeight p =
        h.blockWeight p + w.weigh (Comparer.blockWeight p) := by
  constructor
  · have := Pool.weigh_setWorker (g := fun comp : CompItem => comp.hashInfo.weight p)
      (f := Comparer.hashWeight p) hb w
    simp only [hashWeight, setComparer]
    omega
  · exact Pool.weigh_setWorker (g := fun _ => 0) hb w

/-- **What a comparer does with a hash**: if the block has another one, it will send the block. -/
theorem Compares.moveComparer (hc : h.Compares hash size ok Q)
    (hfits : ∀ info, ok info → info.offset.toNat + info.size.toNat ≤ size) {ps : List Packet}
    (hm : h.moveComparer i = some (h', ps)) :
    h'.Compares hash size ok Q ∧ Progress hash size ok Q h h' (.comparer i) ps := by
  unfold InitHashing.moveComparer at hm
  have hset : ∀ w : Worker Comparer, w ≠ .done → (∀ t, w = .busy t → t.Carries hash size ok Q) →
      (h.setComparer i w).Compares hash size ok Q := fun w hd hw =>
    { hc with
      comparers := hc.comparers.setWorker hw
      comparersSettled := hc.comparersSettled.setWorker hd }
  split at hm
  · obtain ⟨comparers, hr, heq⟩ := Option.map_eq_some_iff.mp hm
    cases heq
    refine ⟨{ hc with
      comparers := hc.comparers.receive hr fun _ => id
      comparersSettled := hc.comparersSettled.receive hr
      comparersClosed := fun hcl => hc.comparersClosed ((Pool.closed_receive hr).symm.trans hcl) },
      .passes (fun p => ?_) fun p => ?_⟩
    · have := Pool.weigh_receive (g := fun comp : CompItem => comp.hashInfo.weight p)
        (f := Comparer.hashWeight p) hr fun _ => rfl
      simp only [hashWeight, this]
    · exact Pool.weigh_receive hr fun _ => rfl
  · rename_i comp hb
    have hcarries : comp.Carries hash ok Q := hc.comparers.of_busy? hb
    by_cases heq : comp.hash = comp.hashInfo.hash
    · simp only [heq, ne_eq, not_true_eq_false, if_false] at hm
      cases hm
      have hweight := weight_setComparer hb .ranging
      exact ⟨hset _ (by simp) (by rintro _ ⟨⟩),
        .agrees hcarries hb heq (fun p => (hweight p).1) fun p => (hweight p).2⟩
    · simp only [ne_eq, heq, not_false_eq_true, if_true] at hm
      cases hm
      have hweight := weight_setComparer hb
        (.busy (.sending ⟨comp.hashInfo.offset, comp.hashInfo.size, comp.buffer⟩))
      refine ⟨hset _ (by simp) ?_, .differs comp (fun p => (hweight p).1)
        fun p => (hweight p).2⟩
      rintro _ ⟨⟩
      exact ⟨hcarries.work.length, hfits _ hcarries.work.info, hcarries.work.cells⟩
  · rename_i block hb
    cases hm
    have hweight := weight_setComparer hb .ranging
    exact ⟨hset _ (by simp) (by rintro _ ⟨⟩),
      .sends (hc.comparers.of_busy? hb) (fun p => (hweight p).1) fun p => (hweight p).2⟩

/-- **One move of the pipeline**, if the device can be read. -/
theorem Compares.move (hc : h.Compares hash size ok Q)
    (hfits : ∀ info, ok info → info.offset.toNat + info.size.toNat ≤ size)
    (hQ : ∀ p, Q p (source p)) {m : HashingMove} (hfail : ∀ i, m ≠ .reader i true)
    {ps : List Packet} (hm : h.move hash numWorkers source m = some (h', ps)) :
    h'.Compares hash size ok Q ∧ Progress hash size ok Q h h' m ps := by
  cases m with
  | reader i failed =>
      obtain ⟨h₁, hr, heq⟩ := Option.map_eq_some_iff.mp hm
      cases heq
      obtain rfl : failed = false := by
        cases failed with
        | false => rfl
        | true => exact absurd rfl (hfail i)
      obtain ⟨hc', hw, hcomp⟩ := hc.moveReader hQ hr
      exact ⟨hc', .passes hw fun p => by simp only [blockWeight, hcomp]⟩
  | closeWork =>
      obtain ⟨⟨hf, -⟩, heq⟩ := Option.ite_none_right_eq_some.mp hm
      cases heq
      exact ⟨{ hc with
        workers := hc.workers.close
        workersSettled := hc.workersSettled.close
        workersClosed := fun _ => hf }, .passes (fun _ => rfl) fun _ => rfl⟩
  | worker i =>
      obtain ⟨h₁, hr, heq⟩ := Option.map_eq_some_iff.mp hm
      cases heq
      obtain ⟨hc', hw, hb⟩ := hc.moveHasher hr
      exact ⟨hc', .passes hw hb⟩
  | closeComp =>
      obtain ⟨⟨hf, -⟩, heq⟩ := Option.ite_none_right_eq_some.mp hm
      cases heq
      exact ⟨{ hc with
        comparers := hc.comparers.close
        comparersSettled := hc.comparersSettled.close
        comparersClosed := fun _ => hf }, .passes (fun _ => rfl) fun _ => rfl⟩
  | comparer i => exact hc.moveComparer hfits hm

/-- A pipeline that is at its end does not move. -/
theorem Compares.move_of_finished (hc : h.Compares hash size ok Q) (hf : h.comparers.Finished)
    (m : HashingMove) : h.move hash numWorkers source m = none := by
  obtain ⟨hfr, hfw⟩ := hc.finished hf
  have hcw := (hc.workersSettled.finished hfw).1
  have hcc := (hc.comparersSettled.finished hf).1
  cases m with
  | reader i failed =>
      simp [InitHashing.move, InitHashing.moveReader, hfr.busy? i, hfr.receive]
  | closeWork => simp [InitHashing.move, hcw]
  | worker i => simp [InitHashing.move, InitHashing.moveHasher, hfw.busy? i, hfw.receive]
  | closeComp => simp [InitHashing.move, hcc]
  | comparer i => simp [InitHashing.move, InitHashing.moveComparer, hf.busy? i, hf.receive]

end Pipeline

end InitHashing

end Bdr.Client
