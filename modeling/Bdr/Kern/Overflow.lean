import Bdr.Kern.Slots

/-!
# Kern — how full the ring buffer is

What the callers of the ring buffer have seen of it: how many writes the last read handed out, and
how many have been put since (`Usage`).  As long as the buffer is not flagged these are the two
stretches of slots that the cursors keep apart, and a put is refused when they fill all slots but
one (`Counted.put_fails_iff`); once it is flagged nothing but a reset changes it, and its length
is not zero.
-/

namespace Bdr.Kern

/-- The writes of the window handed out last, and those put since. -/
structure Usage where
  window : ℕ
  pending : ℕ
  deriving DecidableEq, Repr

variable {P : ℕ}

/-- The usage after a call, by what the call returned. -/
def Usage.step (rb : RingBuffer) (u : Usage) : WindowOp (Put P) → Usage
  | .put a => if (bdrRingBufferPut rb a).2 then { u with pending := u.pending + 1 } else u
  | .read =>
      let bi := (bdrBufferReadRoutine rb).2
      if bi.overflown then u else ⟨bi.length, 0⟩
  | .reset => ⟨0, 0⟩

def usage (rb : RingBuffer) (u : Usage) : List (WindowOp (Put P)) → Usage
  | [] => u
  | op :: ops => usage (ringStep rb op) (u.step rb op) ops

/-- The buffer holds as many writes as the usage says, or it is flagged and says that there are
writes. -/
def Counted (P : ℕ) (rb : RingBuffer) (u : Usage) : Prop :=
  0 < rb.bufferInfo.maxWrites ∧
    ((∃ q : WindowQueue (Put P), Refines rb q ∧ q.window.length = u.window ∧
        q.pending.length = u.pending) ∨
      rb.bufferInfo.overflown = true ∧ rb.bufferInfo.length ≠ 0)

section Counted
variable {rb : RingBuffer} {u : Usage}

theorem length_toList (q : WindowQueue (Put P)) :
    q.toList.length = q.window.length + q.pending.length := List.length_append

theorem counted_init {mem : Image UInt8} {M : ℕ} (h : bdrRingBufferInit mem M = some rb) :
    Counted P rb ⟨0, 0⟩ :=
  ⟨(refines_init (P := P) h).maxWrites_pos, .inl ⟨.empty, refines_init h, rfl, rfl⟩⟩

/-- A put that raises the flag has counted its write. -/
theorem length_of_full {q : WindowQueue (Put P)} (h : Refines rb q)
    (hr : q.toList.length + 1 = rb.bufferInfo.maxWrites) (a : Put P) :
    (bdrRingBufferPut rb a).1.bufferInfo.length ≠ 0 := by
  simp only [put_of_full h hr, bdrRingBufferUpdateUnsafe]
  split <;> simp

theorem read_of_overflown (h : rb.bufferInfo.overflown = true) :
    bdrBufferReadRoutine rb = (rb, rb.bufferInfo) := by
  simp only [bdrBufferReadRoutine, h, if_true]

theorem Counted.step (h : Counted P rb u) (op : WindowOp (Put P)) :
    Counted P (ringStep rb op) (u.step rb op) := by
  obtain ⟨hM, h⟩ := h
  refine ⟨by rwa [maxWrites_ringStep], ?_⟩
  rcases h with ⟨q, hq, hw, hp⟩ | ⟨hf, hn⟩
  · cases op with
    | put a =>
        by_cases hr : q.toList.length + 1 = rb.bufferInfo.maxWrites
        · refine .inr ⟨?_, length_of_full hq hr a⟩
          rw [ringStep, put_of_full hq hr]
          exact (overflown_update_iff hq).mpr hr
        · refine .inl ⟨q.put a, hq.put hr a, ?_⟩
          simp [Usage.step, put_of_room hq hr, WindowQueue.put, hw, hp]
    | read =>
        refine .inl ⟨q.read, hq.read, ?_⟩
        simp [Usage.step, read_snd, overflown_of_flags hq.flags, WindowQueue.read, hq.length_eq]
    | reset => exact .inl ⟨.empty, refines_reset hM, rfl, rfl⟩
  · cases op with
    | put a =>
        rw [ringStep, put_of_overflown hf]
        exact .inr ⟨hf, hn⟩
    | read =>
        rw [ringStep, read_of_overflown hf]
        exact .inr ⟨hf, hn⟩
    | reset => exact .inl ⟨.empty, refines_reset hM, rfl, rfl⟩

theorem Counted.run (h : Counted P rb u) (ops : List (WindowOp (Put P))) :
    Counted P (ringRun rb ops) (usage rb u ops) := by
  induction ops generalizing rb u with
  | nil => exact h
  | cons op ops ih => exact ih (h.step op)

/-- **The exact capacity**, for a caller: a put on an unflagged buffer is refused just when window
and pending writes are one less than there are slots. -/
theorem Counted.put_fails_iff (h : Counted P rb u) (hf : rb.bufferInfo.overflown = false)
    (a : Put P) :
    (bdrRingBufferPut rb a).2 = false ↔ u.window + u.pending = rb.bufferInfo.maxWrites - 1 := by
  obtain ⟨hM, ⟨q, hq, hw, hp⟩ | ⟨hf', -⟩⟩ := h
  · have hlen := length_toList q
    by_cases hr : q.toList.length + 1 = rb.bufferInfo.maxWrites
    · simp only [put_of_full hq hr, true_iff]
      omega
    · simp only [put_of_room hq hr, Bool.true_eq_false, false_iff]
      omega
  · cases hf.symm.trans hf'

/-- A put that is refused raises the flag and changes no slot. -/
theorem Counted.put_fails (h : Counted P rb u) (hf : rb.bufferInfo.overflown = false) {a : Put P}
    (ha : (bdrRingBufferPut rb a).2 = false) :
    (bdrRingBufferPut rb a).1.bufferInfo.overflown = true ∧
      (bdrRingBufferPut rb a).1.buffer = rb.buffer := by
  obtain ⟨hM, ⟨q, hq, -⟩ | ⟨hf', -⟩⟩ := h
  · by_cases hr : q.toList.length + 1 = rb.bufferInfo.maxWrites
    · rw [put_of_full hq hr]
      exact ⟨(overflown_update_iff hq).mpr hr, rfl⟩
    · rw [put_of_room hq hr] at ha
      cases ha
  · cases hf.symm.trans hf'

theorem Counted.length_ne (h : Counted P rb u) (hf : rb.bufferInfo.overflown = true) :
    rb.bufferInfo.length ≠ 0 := by
  obtain ⟨-, ⟨q, hq, -⟩ | ⟨-, hn⟩⟩ := h
  · cases hf.symm.trans (overflown_of_flags hq.flags)
  · exact hn

end Counted

end Bdr.Kern
