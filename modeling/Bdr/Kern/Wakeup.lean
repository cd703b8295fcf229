import Bdr.Kern.Overflow
import Bdr.Kern.Target
import Bdr.Support.Runs
import Bdr.Support.WaitQueue

/-!
# Kern — the wait queue

`BDR_CMD_READ_BUFFER_INFO_WAIT` and `BDR_CMD_GET_BUFFER_INFO_WAIT` sleep on `bdr_wait_queue` until
there are new writes; `bdr_submit_bio` wakes the queue up when it has put all segments of a bio.
The queue is one for all targets of the driver, and the condition is read without the lock.

A call sleeps over new writes only while a `bdr_submit_bio` is under way, which is going to wake it
up (`empty_of_asleep`).  An overflow is no exception: the put that overflows the buffer counts
itself in its length, and so the `bdr_submit_bio` it belongs to wakes the readers up to see it.
-/

namespace Bdr.Kern

variable {P : ℕ}

/-- An ioctl that waits: the target of its device file, and whether it is the one that reads. -/
structure WaitCall where
  target : ℕ
  reads : Bool
  deriving DecidableEq, Repr

/-- Where a call of `bdr_target_map` for a write is. -/
inductive Mapping (P : ℕ) where
  | checking (bio : Bio P)
  | putting (rest : Bio P)
  | submitting

/-- The call is in `bdr_submit_bio`. -/
def Mapping.captures : Mapping P → Bool
  | .putting _ => true
  | _ => false

/-- The devices of the driver: the ring buffers of its targets, the ioctls that wait, the writes
that are being mapped, each with its target, and what the ioctls have returned. -/
structure Devices (P : ℕ) where
  rings : List RingBuffer
  waiting : List (WaitCall × Waiting)
  mapping : List (ℕ × Mapping P)
  returned : List (WaitCall × BufferInfo)

inductive DevicesMove (P : ℕ) where
  | map (target : ℕ) (bio : Bio P)
  | mapper (i : ℕ)
  | wait (call : WaitCall)
  | waiter (i : ℕ) (signal : Bool)
  | read (target : ℕ)
  | reset (target : ℕ)

namespace Devices

def start (rings : List RingBuffer) : Devices P := ⟨rings, [], [], []⟩

/-- `rb->buffer_info.length != 0`. -/
def hasWrites (rings : List RingBuffer) (call : WaitCall) : Bool :=
  match rings[call.target]? with
  | some rb => rb.bufferInfo.length ≠ 0
  | none => false

/-- `wake_up_interruptible`. -/
def wakeUp (d : Devices P) : Devices P :=
  { d with waiting := d.waiting.map fun w => (w.1, w.2.wake) }

section Moves
variable (d : Devices P)

/-- A step of `bdr_target_map`, from one operation on the ring buffer to the next. -/
def moveMapper (i : ℕ) : Option (Devices P) :=
  (d.mapping[i]?).bind fun (target, pc) =>
    (d.rings[target]?).bind fun rb =>
      match pc with
      | .checking bio =>
          let pc := if rb.bufferInfo.overflown then .submitting else .putting bio
          some { d with mapping := d.mapping.set i (target, pc) }
      | .putting (v :: rest) =>
          some { d with
            rings := d.rings.set target (bdrPutWriteToBuffer rb v)
            mapping := d.mapping.set i (target, .putting rest) }
      | .putting [] => some { d with mapping := d.mapping.set i (target, .submitting) }.wakeUp
      | .submitting => none

/-- A step of an ioctl: it waits, and then looks at the buffer or reads it. -/
def moveWaiter (i : ℕ) (signal : Bool) : Option (Devices P) :=
  (d.waiting[i]?).bind fun (call, pc) =>
    (d.rings[call.target]?).bind fun rb =>
      if pc = .through then
        some { d with
          rings := if call.reads then d.rings.set call.target (bdrBufferReadRoutine rb).1
            else d.rings
          waiting := d.waiting.eraseIdx i
          returned := d.returned ++ [(call, rb.bufferInfo)] }
      else (pc.step (hasWrites d.rings call) signal).map fun pc' =>
        { d with waiting := d.waiting.set i (call, pc') }

def step : DevicesMove P → Option (Devices P)
  | .map target bio =>
      if target < d.rings.length then
        some { d with mapping := d.mapping ++ [(target, .checking bio)] }
      else none
  | .mapper i => d.moveMapper i
  | .wait call =>
      if call.target < d.rings.length then
        some { d with waiting := d.waiting ++ [(call, .testing)] }
      else none
  | .waiter i signal => d.moveWaiter i signal
  | .read target => (d.rings[target]?).map fun rb =>
      { d with rings := d.rings.set target (bdrBufferReadRoutine rb).1 }
  | .reset target => (d.rings[target]?).map fun rb =>
      { d with rings := d.rings.set target (bdrRingBufferReset rb) }

end Moves

/-! ### Nobody sleeps over new writes -/

/-- A `bdr_submit_bio` is under way. -/
def Captures (d : Devices P) : Prop := ∃ w ∈ d.mapping, w.2.captures = true

/-- What holds between two moves: the buffers are as their callers have left them, and a call that
sleeps over new writes is going to be woken up. -/
structure Attends (d : Devices P) : Prop where
  counted : ∀ rb ∈ d.rings, ∃ u, Counted P rb u
  attended : Attended (hasWrites d.rings) d.Captures d.waiting

theorem counted_put {rb : RingBuffer} (h : ∃ u, Counted P rb u) (v : BioVec P) :
    ∃ u, Counted P (bdrPutWriteToBuffer rb v) u := by
  obtain ⟨u, h⟩ := h
  unfold bdrPutWriteToBuffer
  split
  · exact ⟨_, h.step (.put v.put)⟩
  · exact ⟨u, h⟩

/-- A read that leaves new writes behind has met an overflow, and left them all. -/
theorem length_of_read {rb : RingBuffer}
    (h : (bdrBufferReadRoutine rb).1.bufferInfo.length ≠ 0) : rb.bufferInfo.length ≠ 0 := by
  by_cases ho : rb.bufferInfo.overflown = true
  · rwa [read_of_overflown ho] at h
  · unfold bdrBufferReadRoutine at h
    rw [if_neg ho] at h
    exact absurd rfl h

theorem hasWrites_set {rings : List RingBuffer} {target : ℕ} {rb rb' : RingBuffer}
    (hrb : rings[target]? = some rb) {call : WaitCall}
    (h : hasWrites (rings.set target rb') call = true) :
    hasWrites rings call = true ∨ call.target = target ∧ rb'.bufferInfo.length ≠ 0 := by
  by_cases ht : call.target = target
  · have hlt := (List.getElem?_eq_some_iff.mp hrb).1
    exact .inr ⟨ht, by simpa [hasWrites, ht, List.getElem?_set_self hlt] using h⟩
  · refine .inl ?_
    unfold hasWrites at h ⊢
    rwa [List.getElem?_set_ne (Ne.symm ht)] at h

section Steps
variable {d d' : Devices P}

theorem Attends.ring (h : d.Attends) {target : ℕ} {rb : RingBuffer}
    (hrb : d.rings[target]? = some rb) : ∃ u, Counted P rb u :=
  h.counted rb (List.mem_of_getElem? hrb)

/-- **A buffer changes.**  Either there are no more new writes in it than before, or a
`bdr_submit_bio` is under way. -/
theorem Attends.setRing (h : d.Attends) {target : ℕ} {rb rb' : RingBuffer}
    (hrb : d.rings[target]? = some rb) (hcounted : ∃ u, Counted P rb' u)
    {mapping : List (ℕ × Mapping P)} {returned : List (WaitCall × BufferInfo)}
    (hlen : rb'.bufferInfo.length ≠ 0 →
      rb.bufferInfo.length ≠ 0 ∨ ∃ w ∈ mapping, w.2.captures = true)
    (hcaptures : d.Captures → ∃ w ∈ mapping, w.2.captures = true) :
    Attends ⟨d.rings.set target rb', d.waiting, mapping, returned⟩ where
  counted := by
    intro r hr
    rcases List.mem_or_eq_of_mem_set hr with hr | rfl
    · exact h.counted r hr
    · exact hcounted
  attended := by
    refine h.attended.change (fun call hc => ?_) hcaptures
    rcases hasWrites_set hrb hc with hc | ⟨rfl, hne⟩
    · exact .inl hc
    · exact (hlen hne).imp_left fun hne => by simpa [hasWrites, hrb] using hne

/-- A move of one `bdr_target_map` leaves the others under way. -/
theorem captures_set {mapping : List (ℕ × Mapping P)} {i target : ℕ} {pc pc' : Mapping P}
    (hi : mapping[i]? = some (target, pc)) (hpc : pc.captures = true → pc'.captures = true)
    (h : ∃ w ∈ mapping, w.2.captures = true) :
    ∃ w ∈ mapping.set i (target, pc'), w.2.captures = true := by
  obtain ⟨hlt, hget⟩ := List.getElem?_eq_some_iff.mp hi
  obtain ⟨w, hw, hc⟩ := h
  obtain ⟨j, hj, rfl⟩ := List.getElem_of_mem hw
  by_cases hij : i = j
  · subst hij
    rw [hget] at hc
    exact ⟨_, List.mem_set hlt _, hpc hc⟩
  · refine ⟨_, List.mem_iff_getElem.mpr ⟨j, by simpa using hj, ?_⟩, hc⟩
    exact List.getElem_set_ne hij _

theorem Attends.moveMapper (h : d.Attends) {i : ℕ} (hstep : d.moveMapper i = some d') :
    d'.Attends := by
  obtain ⟨⟨target, pc⟩, hi, hstep⟩ := Option.bind_eq_some_iff.mp hstep
  obtain ⟨rb, hrb, hstep⟩ := Option.bind_eq_some_iff.mp hstep
  have hlt := (List.getElem?_eq_some_iff.mp hi).1
  match pc, hi, hstep with
  | .checking bio, hi, rfl =>
      exact ⟨h.counted, h.attended.mono (captures_set hi (fun hc => by cases hc))⟩
  | .putting (v :: rest), hi, rfl =>
      -- the put may be the first of new writes: this call is the one that wakes the readers up
      exact h.setRing hrb (counted_put (h.ring hrb) v)
        (fun _ => .inr ⟨_, List.mem_set hlt _, rfl⟩) (captures_set hi fun _ => rfl)
  | .putting [], hi, rfl => exact ⟨h.counted, Attended.wake _ _ _⟩

theorem Attends.moveWaiter (h : d.Attends) {i : ℕ} {signal : Bool}
    (hstep : d.moveWaiter i signal = some d') : d'.Attends := by
  obtain ⟨⟨call, pc⟩, hi, hstep⟩ := Option.bind_eq_some_iff.mp hstep
  obtain ⟨rb, hrb, hstep⟩ := Option.bind_eq_some_iff.mp hstep
  by_cases hpc : pc = .through
  · obtain rfl := Option.some_inj.mp ((if_pos hpc).symm.trans hstep)
    cases call.reads with
    | false => exact ⟨h.counted, h.attended.eraseIdx i⟩
    | true =>
        have hread : Attends { d with rings := d.rings.set call.target _ } :=
          h.setRing hrb ((h.ring hrb).imp' _ fun u hu => hu.step .read)
            (fun hne => .inl (length_of_read hne)) id
        exact ⟨hread.counted, hread.attended.eraseIdx i⟩
  · obtain ⟨pc', hnext, rfl⟩ := Option.map_eq_some_iff.mp ((if_neg hpc).symm.trans hstep)
    exact ⟨h.counted, h.attended.step hnext⟩

theorem Attends.step (h : d.Attends) {m : DevicesMove P} (hstep : d.step m = some d') :
    d'.Attends := by
  cases m with
  | map target bio =>
      obtain ⟨-, ⟨⟩⟩ := Option.ite_none_right_eq_some.mp hstep
      refine ⟨h.counted, h.attended.mono ?_⟩
      rintro ⟨w, hw, hc⟩
      exact ⟨w, List.mem_append_left _ hw, hc⟩
  | mapper i => exact h.moveMapper hstep
  | wait call =>
      obtain ⟨-, ⟨⟩⟩ := Option.ite_none_right_eq_some.mp hstep
      exact ⟨h.counted, h.attended.append (by simp)⟩
  | waiter i signal => exact h.moveWaiter hstep
  | read target =>
      obtain ⟨rb, hrb, rfl⟩ := Option.map_eq_some_iff.mp hstep
      exact h.setRing hrb ((h.ring hrb).imp' _ fun u hu => hu.step .read)
        (fun hne => .inl (length_of_read hne)) id
  | reset target =>
      obtain ⟨rb, hrb, rfl⟩ := Option.map_eq_some_iff.mp hstep
      exact h.setRing hrb ((h.ring hrb).imp' _ fun u hu => hu.step .reset)
        (fun hne => absurd rfl hne) id

end Steps

theorem attends_start {rings : List RingBuffer}
    (hinit : ∀ rb ∈ rings, ∃ mem maxWrites, bdrRingBufferInit mem maxWrites = some rb) :
    (start rings : Devices P).Attends where
  counted := by
    intro rb hrb
    obtain ⟨mem, maxWrites, h⟩ := hinit rb hrb
    exact ⟨_, counted_init h⟩
  attended := Attended.nil _ _

/-- **No wake-up is lost.**  Whatever the order of the writes, reads, resets and signals, a call
that sleeps while no `bdr_submit_bio` is under way sleeps over an empty buffer, which has not
overflown either. -/
theorem empty_of_asleep {rings : List RingBuffer}
    (hinit : ∀ rb ∈ rings, ∃ mem maxWrites, bdrRingBufferInit mem maxWrites = some rb)
    {moves : List (DevicesMove P)} {d : Devices P} (hrun : Run step anyStep (start rings) moves d)
    (hidle : ¬ d.Captures) {call : WaitCall} (hcall : (call, .asleep) ∈ d.waiting)
    {rb : RingBuffer} (hrb : d.rings[call.target]? = some rb) :
    rb.bufferInfo.length = 0 ∧ rb.bufferInfo.overflown = false := by
  have hd : d.Attends :=
    hrun.invariant (I := Attends) (fun _ _ _ h _ hs => h.step hs) (attends_start hinit)
  have hlen : rb.bufferInfo.length = 0 := by
    by_contra hne
    exact hidle (hd.attended _ hcall rfl (by simpa [hasWrites, hrb] using hne))
  refine ⟨hlen, ?_⟩
  obtain ⟨u, -, ⟨q, hq, -⟩ | ⟨-, hne⟩⟩ := hd.ring hrb
  · exact overflown_of_flags hq.flags
  · exact absurd hlen hne

/-! ### Two devices -/

/-- Readers of two targets fall asleep, the second between its two tests of the condition and a
wake-up that is not about it; then it goes back to sleep. -/
def twoReaders : List (DevicesMove 4096) :=
  [.wait ⟨0, true⟩, .wait ⟨1, true⟩, .waiter 0 false, .waiter 1 false, .map 0 Target.fiveBio,
    .waiter 0 false, .waiter 1 false, .waiter 0 false, .mapper 0, .mapper 0, .mapper 0,
    .waiter 1 false, .waiter 1 false, .waiter 1 false, .waiter 0 false, .waiter 0 false,
    .waiter 0 false]

def twoTargets : List RingBuffer := [Writers.fourSlots, Writers.fourSlots]

theorem init_twoTargets :
    ∀ rb ∈ twoTargets, ∃ mem maxWrites, bdrRingBufferInit mem maxWrites = some rb := by
  intro rb hrb
  obtain rfl : rb = Writers.fourSlots := by simpa [twoTargets] using hrb
  exact ⟨fun _ => 0, 4, rfl⟩

theorem empty_of_asleep_twoReaders : ∃ d rb, Run step anyStep (start twoTargets) twoReaders d ∧
    d.returned.length = 1 ∧ (⟨1, true⟩, .asleep) ∈ d.waiting ∧ d.rings[1]? = some rb ∧
    rb.bufferInfo.length = 0 ∧ rb.bufferInfo.overflown = false := by
  obtain ⟨d, hd, hcheck⟩ := exists_exec
    (P := fun d : Devices 4096 => decide (d.returned.length = 1 ∧ (⟨1, true⟩, .asleep) ∈ d.waiting ∧
      ∀ w ∈ d.mapping, w.2.captures = false))
    (show (exec step (start twoTargets) twoReaders).any _ = true by decide +kernel)
  obtain ⟨hreturned, hasleep, hidle⟩ := of_decide_eq_true hcheck
  have hrun : Run step anyStep (start twoTargets) twoReaders d :=
    Run.of_exec hd fun _ _ _ => trivial
  have hrings : (exec step (start twoTargets) twoReaders).map (·.rings.length) = some 2 := by
    decide +kernel
  have hlt : 1 < d.rings.length := by
    rw [hd] at hrings
    exact (Option.some_inj.mp hrings).ge
  refine ⟨d, d.rings[1], hrun, hreturned, hasleep, List.getElem?_eq_getElem hlt, ?_⟩
  refine empty_of_asleep init_twoTargets hrun ?_ hasleep (List.getElem?_eq_getElem hlt)
  rintro ⟨w, hw, hc⟩
  rw [hidle w hw] at hc
  cases hc

end Devices

end Bdr.Kern
