import Bdr.Kern.RingBuffer
import Bdr.Support.WindowQueue

/-!
# Kern — the ring buffer's slots and cursors

The cursors keep two stretches of slots apart: the window handed out by the last read, and the
writes pending since.  Laid end to end from `last` on, modulo `max_writes`, they are shorter than
the buffer, so no two of their positions share a slot (`slot_injOn`) and the slot after them is
free.  The flag goes up exactly when that slot would be the last free one
(`overflown_update_iff`).

`Refines rb q` says that the buffer holds the queue `q` this way.  Every put, read and reset of
an unflagged buffer follows the queue's (`Refines.put`, `Refines.read`, `refines_reset`), and a
put that is refused changes no byte.
-/

namespace Bdr.Kern
open Bdr

section Slots
variable {P : ℕ}

/-! ### One slot -/

/-- Slot `k` holds the sector, the size and the data of `a`. -/
def SlotHolds (mem : Image UInt8) (k : ℕ) (a : Put P) : Prop :=
  mem.read (k * bdrWriteInfoSize P) 4 = le32 a.sector ∧
  mem.read (k * bdrWriteInfoSize P + 4) 4 = le32 a.size ∧
  mem.read (k * bdrWriteInfoSize P + 8) a.size.toNat = a.data

theorem Put.size_le (a : Put P) : a.size.toNat ≤ P - a.pageOffset := a.size_eq ▸ min_le_right _ _

theorem Put.length_data (a : Put P) : a.data.length = a.size.toNat := by
  have h := a.size_le
  simp only [Put.data, List.length_take, List.length_drop, a.page_length]
  omega

/-- The slot's data bytes, as `fill` copies them, are the put's. -/
theorem fill_eq (mem : Image UInt8) (k : ℕ) (a : Put P) :
    fill mem k a = ((mem.apply ⟨k * bdrWriteInfoSize P, le32 a.sector⟩).apply
      ⟨k * bdrWriteInfoSize P + 4, le32 a.size⟩).apply ⟨k * bdrWriteInfoSize P + 8, a.data⟩ := by
  rw [fill, Put.data, a.size_eq]

/-- A fill changes only its own slot. -/
theorem fill_frame {mem : Image UInt8} {k p : ℕ} {a : Put P}
    (h : p < k * bdrWriteInfoSize P ∨ k * bdrWriteInfoSize P + bdrWriteInfoSize P ≤ p) :
    fill mem k a p = mem p := by
  have hs := a.size_le
  unfold bdrWriteInfoSize at h
  rw [fill_eq, Image.apply_of_not_covers, Image.apply_of_not_covers, Image.apply_of_not_covers]
  all_goals
    simp only [Patch.Covers, length_le32, a.length_data, bdrWriteInfoSize]
    omega

theorem slotHolds_fill (mem : Image UInt8) (k : ℕ) (a : Put P) : SlotHolds (fill mem k a) k a := by
  rw [fill_eq]
  refine ⟨?_, ?_, ?_⟩
  · rw [Image.read_apply_of_disjoint, Image.read_apply_of_disjoint]
    · simpa using Image.read_apply_self mem ⟨k * bdrWriteInfoSize P, le32 a.sector⟩
    · right; simp
    · right; simp
  · rw [Image.read_apply_of_disjoint]
    · simpa using Image.read_apply_self (mem.apply ⟨k * bdrWriteInfoSize P, le32 a.sector⟩)
        ⟨k * bdrWriteInfoSize P + 4, le32 a.size⟩
    · right; simp
  · have h := Image.read_apply_self ((mem.apply ⟨k * bdrWriteInfoSize P, le32 a.sector⟩).apply
      ⟨k * bdrWriteInfoSize P + 4, le32 a.size⟩) ⟨k * bdrWriteInfoSize P + 8, a.data⟩
    rwa [a.length_data] at h

/-- What a slot holds depends on its own bytes only. -/
theorem SlotHolds.congr {mem mem' : Image UInt8} {k : ℕ} {a : Put P} (h : SlotHolds mem k a)
    (hm : ∀ p, k * bdrWriteInfoSize P ≤ p → p < k * bdrWriteInfoSize P + bdrWriteInfoSize P →
      mem' p = mem p) : SlotHolds mem' k a := by
  have hs := a.size_le
  have read_eq : ∀ d len, d + len ≤ 8 + P →
      mem'.read (k * bdrWriteInfoSize P + d) len = mem.read (k * bdrWriteInfoSize P + d) len := by
    intro d len hd
    refine List.map_congr_left fun i hi => hm _ (by omega) ?_
    have hi' := List.mem_range.mp hi
    unfold bdrWriteInfoSize
    omega
  obtain ⟨h₁, h₂, h₃⟩ := h
  exact ⟨(read_eq 0 4 (by omega)).trans h₁, (read_eq 4 4 (by omega)).trans h₂,
    (read_eq 8 _ (by omega)).trans h₃⟩

/-- `p` is a byte of slot `k`. -/
def InSlot (P k p : ℕ) : Prop :=
  k * bdrWriteInfoSize P ≤ p ∧ p < k * bdrWriteInfoSize P + bdrWriteInfoSize P

/-- Distinct slots do not overlap. -/
theorem slot_disjoint {W k k' p : ℕ} (hk : k ≠ k') (h₁ : k * W ≤ p) (h₂ : p < k * W + W) :
    p < k' * W ∨ k' * W + W ≤ p := by
  rcases Nat.lt_or_gt_of_ne hk with h | h
  · left
    have := Nat.mul_le_mul_right W (Nat.succ_le_of_lt h)
    rw [Nat.succ_mul] at this
    omega
  · right
    have := Nat.mul_le_mul_right W (Nat.succ_le_of_lt h)
    rw [Nat.succ_mul] at this
    omega

/-! ### A stretch of slots -/

/-- From slot `start` on, modulo `M`, the slots hold `l`. -/
def Holds (mem : Image UInt8) (M start : ℕ) (l : List (Put P)) : Prop :=
  ∀ i a, l[i]? = some a → SlotHolds mem ((start + i) % M) a

/-- Positions less than `M` apart have different slots. -/
theorem slot_injOn {M start i j : ℕ} (hi : i < M) (hj : j < M)
    (h : (start + i) % M = (start + j) % M) : i = j := by
  have h' : i ≡ j [MOD M] := Nat.ModEq.add_left_cancel' start h
  exact Nat.ModEq.eq_of_lt_of_lt h' hi hj

/-- A fill past the end of a stretch leaves it. -/
theorem Holds.fill {mem : Image UInt8} {M start k : ℕ} {l : List (Put P)} (h : Holds mem M start l)
    (hk : l.length ≤ k) (hM : k < M) (a : Put P) :
    Holds (fill mem ((start + k) % M) a) M start l := by
  intro i b hi
  have hl : i < l.length := (List.getElem?_eq_some_iff.mp hi).1
  refine (h i b hi).congr fun p h₁ h₂ => fill_frame (slot_disjoint (fun e => ?_) h₁ h₂)
  have := slot_injOn (by omega) hM e
  omega

theorem Holds.snoc {mem : Image UInt8} {M start : ℕ} {l : List (Put P)} (h : Holds mem M start l)
    (hM : l.length < M) (a : Put P) :
    Holds (Kern.fill mem ((start + l.length) % M) a) M start (l ++ [a]) := by
  intro i b hi
  rw [List.getElem?_append] at hi
  split at hi
  · exact h.fill le_rfl hM a i b hi
  · rename_i hl
    have e : i = l.length := by
      have := (List.getElem?_eq_some_iff.mp hi).1
      simp at this
      omega
    subst e
    simp only [Nat.sub_self, List.getElem?_cons_zero, Option.some.injEq] at hi
    exact hi ▸ slotHolds_fill mem _ a

/-- The tail of a stretch, from its own start. -/
theorem Holds.drop {mem : Image UInt8} {M start : ℕ} {l l' : List (Put P)}
    (h : Holds mem M start (l ++ l')) : Holds mem M ((start + l.length) % M) l' := by
  intro i a hi
  have := h (l.length + i) a
    (by rw [List.getElem?_append_right (by omega), Nat.add_sub_cancel_left]; exact hi)
  rwa [Nat.mod_add_mod, Nat.add_assoc]

theorem Holds.left {mem : Image UInt8} {M start : ℕ} {l l' : List (Put P)}
    (h : Holds mem M start (l ++ l')) : Holds mem M start l := by
  intro i a hi
  refine h i a ?_
  rw [List.getElem?_append_left (List.getElem?_eq_some_iff.mp hi).1]
  exact hi

end Slots

/-! ### The cursors -/

section Cursors
variable {P : ℕ}

/-- The buffer holds the queue: the window from `last` on, the pending writes after it. -/
structure Refines (rb : RingBuffer) (q : WindowQueue (Put P)) : Prop where
  flags : rb.bufferInfo.flags = 0
  last_lt : rb.bufferInfo.last < rb.bufferInfo.maxWrites
  offset_eq : rb.bufferInfo.offset =
    (rb.bufferInfo.last + q.window.length) % rb.bufferInfo.maxWrites
  length_eq : rb.bufferInfo.length = q.pending.length
  room : q.toList.length < rb.bufferInfo.maxWrites
  holds : Holds rb.buffer rb.bufferInfo.maxWrites rb.bufferInfo.last q.toList

theorem Refines.maxWrites_pos {rb : RingBuffer} {q : WindowQueue (Put P)} (h : Refines rb q) :
    0 < rb.bufferInfo.maxWrites := h.last_lt.trans_le' (Nat.zero_le _)

theorem overflown_of_flags {bi : BufferInfo} (h : bi.flags = 0) : bi.overflown = false := by
  simp [BufferInfo.overflown, h]

/-- **The exact capacity.**  On an unflagged buffer the update raises the flag exactly when
window and pending writes already fill all slots but one. -/
theorem overflown_update_iff {rb : RingBuffer} {q : WindowQueue (Put P)} (h : Refines rb q) :
    (bdrRingBufferUpdateUnsafe rb.bufferInfo).overflown ↔
      q.toList.length + 1 = rb.bufferInfo.maxWrites := by
  obtain ⟨hf, hl, ho, hn, hr, -⟩ := h
  have hlen : q.toList.length = q.window.length + q.pending.length := List.length_append
  have hmod : (rb.bufferInfo.offset + (rb.bufferInfo.length + 1)) % rb.bufferInfo.maxWrites =
      (rb.bufferInfo.last + (q.toList.length + 1)) % rb.bufferInfo.maxWrites := by
    rw [ho, hn, hlen, Nat.mod_add_mod]
    congr 1
    omega
  have key : (rb.bufferInfo.last + (q.toList.length + 1)) % rb.bufferInfo.maxWrites =
      rb.bufferInfo.last ↔ q.toList.length + 1 = rb.bufferInfo.maxWrites := by
    constructor
    · intro e
      by_contra hne
      have e' : (rb.bufferInfo.last + (q.toList.length + 1)) % rb.bufferInfo.maxWrites =
          (rb.bufferInfo.last + 0) % rb.bufferInfo.maxWrites := by
        rw [e, Nat.add_zero, Nat.mod_eq_of_lt hl]
      have := slot_injOn (by omega) (by omega) e'
      omega
    · intro e
      rw [e, Nat.add_mod_right, Nat.mod_eq_of_lt hl]
  unfold bdrRingBufferUpdateUnsafe
  simp only [hmod, key]
  split
  · rename_i e; simp [BufferInfo.overflown, hf, bdrOverflownBufferFlag, e]
  · rename_i e; simp [BufferInfo.overflown, hf, e]

/-- The update of an unflagged buffer that does not raise the flag. -/
theorem update_of_not_overflown {bi : BufferInfo}
    (h : (bdrRingBufferUpdateUnsafe bi).overflown = false) (hf : bi.flags = 0) :
    bdrRingBufferUpdateUnsafe bi = { bi with length := bi.length + 1 } := by
  unfold bdrRingBufferUpdateUnsafe at h ⊢
  simp only at h ⊢
  split
  · rename_i e
    simp [e, BufferInfo.overflown, hf, bdrOverflownBufferFlag] at h
  · rfl

/-- The slot a put of an unflagged buffer may fill is the one after the queue. -/
theorem reserve_of_room {rb : RingBuffer} {q : WindowQueue (Put P)} (h : Refines rb q)
    (hr : q.toList.length + 1 ≠ rb.bufferInfo.maxWrites) :
    reserve rb.bufferInfo = ({ rb.bufferInfo with length := rb.bufferInfo.length + 1 },
      some ((rb.bufferInfo.last + q.toList.length) % rb.bufferInfo.maxWrites)) := by
  have hu : (bdrRingBufferUpdateUnsafe rb.bufferInfo).overflown = false := by
    rw [Bool.eq_false_iff, ne_eq, overflown_update_iff h]
    exact hr
  have hlen : q.toList.length = q.window.length + q.pending.length := List.length_append
  rw [reserve, overflown_of_flags h.flags]
  simp only [Bool.false_eq_true, if_false, hu]
  rw [update_of_not_overflown hu h.flags, h.offset_eq, h.length_eq, hlen, Nat.mod_add_mod,
    Nat.add_assoc]

/-- A reservation in a full buffer raises the flag and gets no slot. -/
theorem reserve_of_full {rb : RingBuffer} {q : WindowQueue (Put P)} (h : Refines rb q)
    (hr : q.toList.length + 1 = rb.bufferInfo.maxWrites) :
    reserve rb.bufferInfo = (bdrRingBufferUpdateUnsafe rb.bufferInfo, none) := by
  have hu : (bdrRingBufferUpdateUnsafe rb.bufferInfo).overflown = true :=
    (overflown_update_iff h).mpr hr
  rw [reserve, overflown_of_flags h.flags]
  simp only [Bool.false_eq_true, if_false, hu, if_true]

/-- A put of a full buffer raises the flag and fills nothing. -/
theorem put_of_full {rb : RingBuffer} {q : WindowQueue (Put P)} (h : Refines rb q)
    (hr : q.toList.length + 1 = rb.bufferInfo.maxWrites) (a : Put P) :
    bdrRingBufferPut rb a = (⟨rb.buffer, bdrRingBufferUpdateUnsafe rb.bufferInfo⟩, false) := by
  rw [bdrRingBufferPut, reserve_of_full h hr]

/-- A put of a flagged buffer changes nothing. -/
theorem put_of_overflown {rb : RingBuffer} (h : rb.bufferInfo.overflown = true) (a : Put P) :
    bdrRingBufferPut rb a = (rb, false) := by
  rw [bdrRingBufferPut, reserve, h]
  rfl

theorem put_of_room {rb : RingBuffer} {q : WindowQueue (Put P)} (h : Refines rb q)
    (hr : q.toList.length + 1 ≠ rb.bufferInfo.maxWrites) (a : Put P) :
    bdrRingBufferPut rb a =
      (⟨fill rb.buffer ((rb.bufferInfo.last + q.toList.length) % rb.bufferInfo.maxWrites) a,
        { rb.bufferInfo with length := rb.bufferInfo.length + 1 }⟩, true) := by
  rw [bdrRingBufferPut, reserve_of_room h hr]

/-- **A put follows the queue's.** -/
theorem Refines.put {rb : RingBuffer} {q : WindowQueue (Put P)} (h : Refines rb q)
    (hr : q.toList.length + 1 ≠ rb.bufferInfo.maxWrites) (a : Put P) :
    Refines (bdrRingBufferPut rb a).1 (q.put a) := by
  rw [put_of_room h hr]
  have hroom := h.room
  refine ⟨h.flags, h.last_lt, h.offset_eq, ?_, ?_, ?_⟩
  · simp [WindowQueue.put, h.length_eq]
  · simp only [WindowQueue.toList_put, List.length_append, List.length_singleton]
    omega
  · rw [WindowQueue.toList_put]
    exact h.holds.snoc hroom a

/-- A put changes no byte of a slot that holds something of the queue. -/
theorem Refines.put_frame {rb : RingBuffer} {q : WindowQueue (Put P)} (h : Refines rb q)
    (a : Put P) {i p : ℕ} (hi : i < q.toList.length)
    (hp : InSlot P ((rb.bufferInfo.last + i) % rb.bufferInfo.maxWrites) p) :
    (bdrRingBufferPut rb a).1.buffer p = rb.buffer p := by
  have hroom := h.room
  by_cases hr : q.toList.length + 1 = rb.bufferInfo.maxWrites
  · rw [put_of_full h hr]
  · rw [put_of_room h hr]
    refine fill_frame (slot_disjoint (fun e => ?_) hp.1 hp.2)
    have := slot_injOn (by omega) hroom e
    omega

/-- A read returns the cursors it found. -/
theorem read_snd (rb : RingBuffer) : (bdrBufferReadRoutine rb).2 = rb.bufferInfo := by
  unfold bdrBufferReadRoutine
  simp only
  split <;> rfl

theorem read_fst {rb : RingBuffer} (h : rb.bufferInfo.flags = 0) :
    (bdrBufferReadRoutine rb).1 = { rb with bufferInfo := { rb.bufferInfo with
      last := rb.bufferInfo.offset
      offset := (rb.bufferInfo.offset + rb.bufferInfo.length) % rb.bufferInfo.maxWrites
      length := 0 } } := by
  simp only [bdrBufferReadRoutine, overflown_of_flags h, Bool.false_eq_true, if_false]

/-- **A read follows the queue's.** -/
theorem Refines.read {rb : RingBuffer} {q : WindowQueue (Put P)} (h : Refines rb q) :
    Refines (bdrBufferReadRoutine rb).1 q.read := by
  have hlen : q.toList.length = q.window.length + q.pending.length := List.length_append
  have hroom := h.room
  have hpos : 0 < rb.bufferInfo.maxWrites := by omega
  rw [read_fst h.flags]
  refine ⟨h.flags, h.offset_eq ▸ Nat.mod_lt _ hpos, ?_, rfl, ?_, ?_⟩
  · simp [WindowQueue.read, h.length_eq]
  · rw [WindowQueue.toList_read]; simp only; omega
  · rw [WindowQueue.toList_read]
    simp only [h.offset_eq]
    exact h.holds.drop

theorem refines_reset {rb : RingBuffer} (h : 0 < rb.bufferInfo.maxWrites) :
    Refines (P := P) (bdrRingBufferReset rb) .empty :=
  ⟨rfl, h, by simp [bdrRingBufferReset, WindowQueue.empty], rfl, h,
    fun i a hi => by simp [WindowQueue.empty, WindowQueue.toList] at hi⟩

theorem maxWrites_init {mem : Image UInt8} {M : ℕ} {rb : RingBuffer}
    (h : bdrRingBufferInit mem M = some rb) : rb.bufferInfo.maxWrites = M := by
  unfold bdrRingBufferInit at h
  split at h
  · cases h
  · cases h; rfl

theorem refines_init {mem : Image UInt8} {M : ℕ} {rb : RingBuffer}
    (h : bdrRingBufferInit mem M = some rb) : Refines (P := P) rb .empty := by
  unfold bdrRingBufferInit at h
  split at h
  · cases h
  · cases h
    exact ⟨rfl, by simp only; omega, by simp [WindowQueue.empty], rfl,
      by simp only [WindowQueue.empty, WindowQueue.toList, List.append_nil, List.length_nil]; omega,
      fun i a hi => by simp [WindowQueue.empty, WindowQueue.toList] at hi⟩

end Cursors

/-! ### Runs of puts, reads and resets -/

section Runs
variable {P : ℕ}

/-- One operation on the buffer. -/
def ringStep (rb : RingBuffer) : WindowOp (Put P) → RingBuffer
  | .put a => (bdrRingBufferPut rb a).1
  | .read => (bdrBufferReadRoutine rb).1
  | .reset => bdrRingBufferReset rb

/-- The operations in turn. -/
def ringRun (rb : RingBuffer) (ops : List (WindowOp (Put P))) : RingBuffer := ops.foldl ringStep rb

@[simp] theorem ringRun_nil (rb : RingBuffer) : ringRun (P := P) rb [] = rb := rfl

@[simp] theorem ringRun_cons (rb : RingBuffer) (op : WindowOp (Put P))
    (ops : List (WindowOp (Put P))) : ringRun rb (op :: ops) = ringRun (ringStep rb op) ops := rfl

theorem ringRun_append (rb : RingBuffer) (ops ops' : List (WindowOp (Put P))) :
    ringRun rb (ops ++ ops') = ringRun (ringRun rb ops) ops' := List.foldl_append ..

theorem maxWrites_reserve (bi : BufferInfo) : (reserve bi).1.maxWrites = bi.maxWrites := by
  unfold reserve bdrRingBufferUpdateUnsafe
  simp only
  split_ifs <;> rfl

theorem maxWrites_ringStep (rb : RingBuffer) (op : WindowOp (Put P)) :
    (ringStep rb op).bufferInfo.maxWrites = rb.bufferInfo.maxWrites := by
  cases op with
  | put a =>
      have h := maxWrites_reserve rb.bufferInfo
      simp only [ringStep, bdrRingBufferPut]
      split <;> (rename_i e; rw [e] at h; exact h)
  | read => simp only [ringStep, bdrBufferReadRoutine]; split <;> rfl
  | reset => rfl

theorem maxWrites_ringRun (rb : RingBuffer) (ops : List (WindowOp (Put P))) :
    (ringRun rb ops).bufferInfo.maxWrites = rb.bufferInfo.maxWrites := by
  induction ops generalizing rb with
  | nil => rfl
  | cons op ops ih => rw [ringRun_cons, ih, maxWrites_ringStep]

theorem last_reserve (bi : BufferInfo) : (reserve bi).1.last = bi.last := by
  unfold reserve bdrRingBufferUpdateUnsafe
  simp only
  split_ifs <;> rfl

theorem last_ringRun_puts (rb : RingBuffer) (as : List (Put P)) :
    (ringRun rb (as.map .put)).bufferInfo.last = rb.bufferInfo.last := by
  induction as generalizing rb with
  | nil => rfl
  | cons a as ih =>
      have h := last_reserve rb.bufferInfo
      rw [List.map_cons, ringRun_cons, ih, ringStep, bdrRingBufferPut]
      split <;> (rename_i e; rw [e] at h; exact h)

/-- Without a reset a flagged buffer stays as it is. -/
theorem ringRun_of_overflown {rb : RingBuffer} (h : rb.bufferInfo.overflown = true)
    {ops : List (WindowOp (Put P))} (hops : ∀ op ∈ ops, op ≠ .reset) : ringRun rb ops = rb := by
  induction ops with
  | nil => rfl
  | cons op ops ih =>
      have hs : ringStep rb op = rb := by
        cases op with
        | put a => rw [ringStep, put_of_overflown h]
        | read => simp only [ringStep, bdrBufferReadRoutine, h, if_true]
        | reset => exact absurd rfl (hops _ List.mem_cons_self)
      rw [ringRun_cons, hs]
      exact ih fun op' h' => hops op' (List.mem_cons_of_mem _ h')

/-- One operation of an unflagged buffer follows the queue's, or raises the flag and changes no
byte. -/
theorem Refines.step {rb : RingBuffer} {q : WindowQueue (Put P)} (h : Refines rb q)
    (op : WindowOp (Put P)) :
    Refines (ringStep rb op) (q.step op) ∨
      ((∃ a, op = .put a) ∧ (ringStep rb op).bufferInfo.overflown = true ∧
        (ringStep rb op).buffer = rb.buffer) := by
  cases op with
  | put a =>
      by_cases hr : q.toList.length + 1 = rb.bufferInfo.maxWrites
      · refine .inr ⟨⟨a, rfl⟩, ?_, ?_⟩
        · rw [ringStep, put_of_full h hr]; exact (overflown_update_iff h).mpr hr
        · rw [ringStep, put_of_full h hr]
      · exact .inl (h.put hr a)
  | read => exact .inl h.read
  | reset => exact .inl (refines_reset h.maxWrites_pos)

/-- **A run that ends unflagged follows the queue's.** -/
theorem Refines.run {rb : RingBuffer} {q : WindowQueue (Put P)} (h : Refines rb q)
    {ops : List (WindowOp (Put P))} (hops : ∀ op ∈ ops, op ≠ .reset)
    (hf : (ringRun rb ops).bufferInfo.overflown = false) :
    Refines (ringRun rb ops) (q.run ops) := by
  induction ops generalizing rb q with
  | nil => exact h
  | cons op ops ih =>
      have htail : ∀ op' ∈ ops, op' ≠ .reset := fun op' h' => hops op' (List.mem_cons_of_mem _ h')
      rcases h.step op with hs | ⟨-, ho, -⟩
      · exact ih hs htail hf
      · rw [ringRun_cons, ringRun_of_overflown ho htail, ho] at hf
        cases hf

/-- As many puts as there is room for. -/
theorem Refines.puts {rb : RingBuffer} {q : WindowQueue (Put P)} (h : Refines rb q)
    (as : List (Put P)) (hroom : q.toList.length + as.length < rb.bufferInfo.maxWrites) :
    Refines (ringRun rb (as.map .put)) (q.run (as.map .put)) := by
  induction as generalizing rb q with
  | nil => exact h
  | cons a as ih =>
      have hm : (bdrRingBufferPut rb a).1.bufferInfo.maxWrites = rb.bufferInfo.maxWrites :=
        maxWrites_ringStep rb (.put a)
      rw [List.length_cons] at hroom
      refine ih (h.put (by omega) a) ?_
      show (q.put a).toList.length + as.length < (bdrRingBufferPut rb a).1.bufferInfo.maxWrites
      rw [WindowQueue.toList_put, List.length_append, List.length_singleton, hm]
      omega

/-- **No put touches the queue.**  Whatever is put, and whether or not the flag goes up, the
window and the pending writes stay in their slots. -/
theorem Refines.holds_puts {rb : RingBuffer} {q : WindowQueue (Put P)} (h : Refines rb q)
    (as : List (Put P)) :
    Holds (ringRun rb (as.map .put)).buffer rb.bufferInfo.maxWrites rb.bufferInfo.last
      q.toList := by
  induction as generalizing rb q with
  | nil => exact h.holds
  | cons a as ih =>
      rcases h.step (.put a) with hs | ⟨-, ho, hb⟩
      · have hr : q.toList.length + 1 ≠ rb.bufferInfo.maxWrites := fun e => by
          have := hs.flags
          rw [ringStep, put_of_full h e] at this
          have hov := (overflown_update_iff h).mpr e
          rw [overflown_of_flags this] at hov
          cases hov
        have hl : (ringStep rb (.put a)).bufferInfo.last = rb.bufferInfo.last := by
          rw [ringStep, put_of_room h hr]
        have := ih hs
        rw [maxWrites_ringStep, hl, WindowQueue.step, WindowQueue.toList_put] at this
        exact this.left
      · rw [List.map_cons, ringRun_cons, ringRun_of_overflown ho, hb]
        · exact h.holds
        · rintro op hop rfl
          obtain ⟨b, -, e⟩ := List.mem_map.mp hop
          cases e

end Runs

end Bdr.Kern
