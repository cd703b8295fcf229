import Bdr.Client.Shared
import Bdr.Support.Pool

/-!
# Client — InitHashing

`InitHashing` compares the hashes that come from the server with the source in a pipeline of
goroutines: three pools of `numWorkers` read the blocks, hash them and send those that differ.
A stage ends when the one before it has closed its channel; the listener, which feeds the first
channel, waits for the last stage.

The bytes of a block are read one at a time, since the source may be written to in between.  A
reader that fails starts a new scan and goes on.
-/

namespace Bdr.Client

structure WorkItem where
  hashInfo : HashInfo
  buffer : List UInt8
  deriving DecidableEq, Repr

structure CompItem where
  hashInfo : HashInfo
  buffer : List UInt8
  hash : UInt64
  deriving DecidableEq, Repr

/-- A reader, and the bytes it has read so far. -/
inductive HashReader where
  | took (h : HashInfo)
  | reading (h : HashInfo) (buf : List UInt8)
  | starting (call : StartCall)
  | sendingWork (work : WorkItem)
  deriving DecidableEq, Repr

inductive HashWorker where
  | took (work : WorkItem)
  | sending (comp : CompItem)
  deriving DecidableEq, Repr

inductive Comparer where
  | took (comp : CompItem)
  | sending (block : CorrectBlockInfo)
  deriving DecidableEq, Repr

/-- The pools with the channels `hashChan`, `workChan` and `compChan`. -/
structure InitHashing where
  readers : Pool HashInfo HashReader
  workers : Pool WorkItem HashWorker
  comparers : Pool CompItem Comparer
  deriving DecidableEq, Repr

/-- A move of one goroutine; `failed` if a reader finds no `HashInfo` or cannot read the block. -/
inductive HashingMove where
  | reader (i : ℕ) (failed : Bool)
  | closeWork
  | worker (i : ℕ)
  | closeComp
  | comparer (i : ℕ)
  deriving DecidableEq, Repr

namespace InitHashing

/-- `InitHashing` on a new channel; none of its goroutines if it has only been made. -/
def start (numWorkers : ℕ) : InitHashing :=
  ⟨.start numWorkers, .start numWorkers, .start numWorkers⟩

def setReader (h : InitHashing) (i : ℕ) (w : Worker HashReader) : InitHashing :=
  { h with readers := h.readers.setWorker i w }

def setHasher (h : InitHashing) (i : ℕ) (w : Worker HashWorker) : InitHashing :=
  { h with workers := h.workers.setWorker i w }

def setComparer (h : InitHashing) (i : ℕ) (w : Worker Comparer) : InitHashing :=
  { h with comparers := h.comparers.setWorker i w }

section Moves
variable (hash : List UInt8 → UInt64) (numWorkers : ℕ) (source : Image UInt8) (h : InitHashing)

/-- A reader, but for its `StartHashing`. -/
def moveReader (i : ℕ) (failed : Bool) : Option InitHashing :=
  match h.readers.busy? i with
  | none => (h.readers.receive .took i).map fun readers => { h with readers := readers }
  | some (.took info) =>
      some (h.setReader i (.busy (if failed then .starting .resetting else .reading info [])))
  | some (.reading info buf) =>
      some (h.setReader i (.busy
        (if failed then .starting .resetting
        else if buf.length < info.size.toNat then
          .reading info (buf ++ [source (info.offset.toNat + buf.length)])
        else .sendingWork ⟨info, buf⟩)))
  | some (.sendingWork work) =>
      (h.workers.send numWorkers work).map fun workers =>
        { h.setReader i .ranging with workers := workers }
  | some (.starting _) => none

def moveHasher (i : ℕ) : Option InitHashing :=
  match h.workers.busy? i with
  | none => (h.workers.receive .took i).map fun workers => { h with workers := workers }
  | some (.took work) =>
      some (h.setHasher i (.busy (.sending ⟨work.hashInfo, work.buffer, hash work.buffer⟩)))
  | some (.sending comp) =>
      (h.comparers.send numWorkers comp).map fun comparers =>
        { h.setHasher i .ranging with comparers := comparers }

/-- `SendCorrectBlock` sends the blocks whose hashes differ. -/
def moveComparer (i : ℕ) : Option (InitHashing × List Packet) :=
  match h.comparers.busy? i with
  | none =>
      (h.comparers.receive .took i).map fun comparers => ({ h with comparers := comparers }, [])
  | some (.took comp) =>
      some (h.setComparer i
        (if comp.hash ≠ comp.hashInfo.hash then
          .busy (.sending ⟨comp.hashInfo.offset, comp.hashInfo.size, comp.buffer⟩)
        else .ranging), [])
  | some (.sending block) => some (h.setComparer i .ranging, [.payloadCorrectBlock block])

/-- One move, and the packets it sends to the server. -/
def move : HashingMove → Option (InitHashing × List Packet)
  | .reader i failed => (h.moveReader numWorkers source i failed).map (·, [])
  | .closeWork =>
      if h.readers.Finished ∧ h.workers.closed = false then
        some ({ h with workers := h.workers.close }, [])
      else none
  | .worker i => (h.moveHasher hash numWorkers i).map (·, [])
  | .closeComp =>
      if h.workers.Finished ∧ h.comparers.closed = false then
        some ({ h with comparers := h.comparers.close }, [])
      else none
  | .comparer i => h.moveComparer i

end Moves

/-! ### Nothing to compare -/

/-- No block can come out of the pipeline: the last stage has ended, or there is nothing in it. -/
def Quiet (h : InitHashing) : Prop :=
  h.comparers.Finished ∨ h.readers.Idle ∧ h.workers.Idle ∧ h.comparers.Idle

instance (h : InitHashing) : Decidable h.Quiet := inferInstanceAs (Decidable (_ ∨ _))

theorem quiet_start (n : ℕ) : (start n).Quiet :=
  .inr ⟨Pool.all_start n, Pool.all_start n, Pool.all_start n⟩

section Quiet
variable {hash : List UInt8 → UInt64} {numWorkers : ℕ} {source : Image UInt8} {h h' : InitHashing}

theorem Quiet.closeReaders (hq : h.Quiet) : Quiet { h with readers := h.readers.close } :=
  hq.imp_right fun ⟨hr, hw⟩ => ⟨hr.close, hw⟩

theorem Quiet.setReader (hq : h.Quiet) {i : ℕ} {t : HashReader}
    (hb : h.readers.busy? i = some t) (w : Worker HashReader) : (h.setReader i w).Quiet := by
  rcases hq with hf | ⟨hr, -⟩
  · exact .inl hf
  · rw [hr.busy? i] at hb
    cases hb

theorem Quiet.moveReader (hq : h.Quiet) {i : ℕ} {failed : Bool}
    (hm : h.moveReader numWorkers source i failed = some h') : h'.Quiet := by
  unfold InitHashing.moveReader at hm
  split at hm
  · obtain ⟨readers, hr, rfl⟩ := Option.map_eq_some_iff.mp hm
    exact hq.imp_right fun ⟨hi, hw⟩ => ⟨hi.receive hr, hw⟩
  · rename_i hb
    cases hm
    exact hq.setReader hb _
  · rename_i hb
    cases hm
    exact hq.setReader hb _
  · rename_i hb
    obtain ⟨workers, -, rfl⟩ := Option.map_eq_some_iff.mp hm
    rcases hq with hf | ⟨hr, -⟩
    · exact .inl hf
    · rw [hr.busy? i] at hb
      cases hb
  · cases hm

theorem Quiet.moveHasher (hq : h.Quiet) {i : ℕ}
    (hm : h.moveHasher hash numWorkers i = some h') : h'.Quiet := by
  unfold InitHashing.moveHasher at hm
  split at hm
  · obtain ⟨workers, hr, rfl⟩ := Option.map_eq_some_iff.mp hm
    exact hq.imp_right fun ⟨hi, hw, hc⟩ => ⟨hi, hw.receive hr, hc⟩
  · rename_i hb
    cases hm
    rcases hq with hf | ⟨-, hw, -⟩
    · exact .inl hf
    · rw [hw.busy? i] at hb
      cases hb
  · rename_i hb
    obtain ⟨comparers, hs, rfl⟩ := Option.map_eq_some_iff.mp hm
    obtain ⟨-, rfl⟩ := Pool.send_eq_some.mp hs
    rcases hq with hf | ⟨-, hw, -⟩
    · exact .inl hf
    · rw [hw.busy? i] at hb
      cases hb

theorem Quiet.moveComparer (hq : h.Quiet) {i : ℕ} {ps : List Packet}
    (hm : h.moveComparer i = some (h', ps)) : h'.Quiet ∧ ps = [] := by
  have hb : h.comparers.busy? i = none := by
    rcases hq with hf | ⟨-, -, hc⟩
    · exact hf.busy? i
    · exact hc.busy? i
  simp only [InitHashing.moveComparer, hb] at hm
  obtain ⟨comparers, hr, heq⟩ := Option.map_eq_some_iff.mp hm
  cases heq
  refine ⟨?_, rfl⟩
  rcases hq with hf | ⟨hr', hw, hc⟩
  · rw [hf.receive] at hr
    cases hr
  · exact .inr ⟨hr', hw, hc.receive hr⟩

/-- **Nothing comes out of a quiet pipeline**, and it stays quiet. -/
theorem Quiet.move (hq : h.Quiet) {m : HashingMove} {ps : List Packet}
    (hm : h.move hash numWorkers source m = some (h', ps)) : h'.Quiet ∧ ps = [] := by
  cases m with
  | reader i failed =>
      obtain ⟨h₁, h₁m, heq⟩ := Option.map_eq_some_iff.mp hm
      cases heq
      exact ⟨hq.moveReader h₁m, rfl⟩
  | closeWork =>
      simp only [InitHashing.move, Option.ite_none_right_eq_some, Option.some.injEq,
        Prod.mk.injEq] at hm
      obtain ⟨-, rfl, rfl⟩ := hm
      exact ⟨hq.imp_right fun ⟨hr, hw, hc⟩ => ⟨hr, hw.close, hc⟩, rfl⟩
  | worker i =>
      obtain ⟨h₁, h₁m, heq⟩ := Option.map_eq_some_iff.mp hm
      cases heq
      exact ⟨hq.moveHasher h₁m, rfl⟩
  | closeComp =>
      simp only [InitHashing.move, Option.ite_none_right_eq_some, Option.some.injEq,
        Prod.mk.injEq] at hm
      obtain ⟨-, rfl, rfl⟩ := hm
      exact ⟨hq.imp id fun ⟨hr, hw, hc⟩ => ⟨hr, hw, hc.close⟩, rfl⟩
  | comparer i => exact hq.moveComparer hm

end Quiet

/-- Without readers the first stage stays as it is. -/
theorem readers_move {hash : List UInt8 → UInt64} {numWorkers : ℕ} {source : Image UInt8}
    {h h' : InitHashing} {m : HashingMove} {ps : List Packet} (hr : h.readers.workers = [])
    (hm : h.move hash numWorkers source m = some (h', ps)) : h'.readers = h.readers := by
  have hf := Pool.finished_of_workers hr
  cases m with
  | reader i failed => simp [InitHashing.move, InitHashing.moveReader, hf.busy? i, hf.receive] at hm
  | closeWork | closeComp =>
      obtain ⟨-, heq⟩ := Option.ite_none_right_eq_some.mp hm
      cases heq
      rfl
  | worker i =>
      obtain ⟨h₁, hw, heq⟩ := Option.map_eq_some_iff.mp hm
      cases heq
      simp only [moveHasher] at hw
      split at hw
      · obtain ⟨workers, -, rfl⟩ := Option.map_eq_some_iff.mp hw
        rfl
      · cases hw
        rfl
      · obtain ⟨comparers, -, rfl⟩ := Option.map_eq_some_iff.mp hw
        rfl
  | comparer i =>
      simp only [InitHashing.move, moveComparer] at hm
      split at hm
      · obtain ⟨comparers, -, heq⟩ := Option.map_eq_some_iff.mp hm
        cases heq
        rfl
      · cases hm
        rfl
      · cases hm
        rfl

/-- What the pipeline sends. -/
theorem move_sends {hash : List UInt8 → UInt64} {numWorkers : ℕ} {source : Image UInt8}
    {h h' : InitHashing} {m : HashingMove} {ps : List Packet}
    (hm : h.move hash numWorkers source m = some (h', ps)) :
    ps = [] ∨ ∃ block, ps = [.payloadCorrectBlock block] := by
  cases m with
  | reader i failed =>
      obtain ⟨h', -, heq⟩ := Option.map_eq_some_iff.mp hm
      cases heq
      exact .inl rfl
  | worker i =>
      obtain ⟨h', -, heq⟩ := Option.map_eq_some_iff.mp hm
      cases heq
      exact .inl rfl
  | closeWork | closeComp =>
      simp only [InitHashing.move, Option.ite_none_right_eq_some, Option.some.injEq,
        Prod.mk.injEq] at hm
      exact .inl hm.2.2.symm
  | comparer i =>
      simp only [InitHashing.move, InitHashing.moveComparer] at hm
      split at hm
      · obtain ⟨comparers, -, heq⟩ := Option.map_eq_some_iff.mp hm
        cases heq
        exact .inl rfl
      · cases hm
        exact .inl rfl
      · rename_i block _
        cases hm
        exact .inr ⟨block, rfl⟩

end InitHashing

end Bdr.Client
