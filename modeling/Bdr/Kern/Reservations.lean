import Bdr.Kern.Slots
import Bdr.Support.Runs

/-!
# Kern — reservations

`bdr_ring_buffer_put` takes the lock only to move the cursors.  Its slot is reserved from then on
and filled after the unlock, while other writers reserve, a reader reads and a recovery resets the
buffer.  A `Writers` state is the buffer with the reservations that are still to be filled.

The cursors are published before the data: a read may hand out a slot that is not filled yet, and
after a reset an old writer may fill a slot that a new one has been given.  As long as neither a
read nor a reset comes between a reservation and its fill, the buffer follows the one whose puts
are one step (`Tidy`), and every window is finished when it is handed out and stays so
(`finished_of_careful`).
-/

namespace Bdr.Kern

/-- A slot that has been reserved, and the put that is to fill it. -/
structure Reservation (P : ℕ) where
  slot : ℕ
  put : Put P

/-- The buffer and the writers between reservation and fill.  `reserved` are the puts that have
reserved a slot since the last read or reset, in the order of their positions; `handed` is the last
window that was read unflagged since the last reset, with the puts that reserved its positions. -/
structure Writers (P : ℕ) where
  ring : RingBuffer
  filling : List (Reservation P)
  reserved : List (Put P)
  handed : Option (BufferInfo × List (Put P))

/-- A writer reserves a slot, or fills the one it has reserved; a read; a reset. -/
inductive RingMove (P : ℕ) where
  | reserve (a : Put P)
  | fill (i : ℕ)
  | read
  | reset

namespace Writers
variable {P : ℕ}

/-- Nobody writes yet. -/
def start (rb : RingBuffer) : Writers P := ⟨rb, [], [], none⟩

def step (s : Writers P) : RingMove P → Option (Writers P)
  | .reserve a =>
      match reserve s.ring.bufferInfo with
      | (bi, none) => some { s with ring := { s.ring with bufferInfo := bi } }
      | (bi, some slot) =>
          some { s with
            ring := { s.ring with bufferInfo := bi }
            filling := s.filling ++ [⟨slot, a⟩]
            reserved := s.reserved ++ [a] }
  | .fill i =>
      s.filling[i]?.map fun r =>
        { s with
          ring := { s.ring with buffer := fill s.ring.buffer r.slot r.put }
          filling := s.filling.eraseIdx i }
  | .read =>
      let r := bdrBufferReadRoutine s.ring
      some
        (if r.2.overflown then { s with ring := r.1 }
        else { s with
          ring := r.1
          reserved := []
          handed := some (r.2, s.reserved) })
  | .reset =>
      some { s with
        ring := bdrRingBufferReset s.ring
        reserved := []
        handed := none }

/-- The slots of the window that was handed out hold the puts that reserved them. -/
def Finished (s : Writers P) : Prop :=
  ∀ info puts, s.handed = some (info, puts) →
    puts.length = info.length ∧ Holds s.ring.buffer info.maxWrites info.offset puts

/-- Neither a read nor a reset comes between a reservation and its fill. -/
def careful (s : Writers P) : RingMove P → Prop
  | .read | .reset => s.filling = []
  | _ => True

instance (s : Writers P) : (m : RingMove P) → Decidable (s.careful m)
  | .read | .reset => inferInstanceAs (Decidable (s.filling = []))
  | .reserve _ | .fill _ => inferInstanceAs (Decidable True)

/-- A put without interruption is `bdr_ring_buffer_put`. -/
theorem ring_reserve_fill {s : Writers P} (hs : s.filling = []) (a : Put P) :
    ∃ s₁, s.step (.reserve a) = some s₁ ∧
      ((bdrRingBufferPut s.ring a).2 = false ∧ s₁.ring = (bdrRingBufferPut s.ring a).1 ∨
        ∃ s₂, s₁.step (.fill 0) = some s₂ ∧ s₂.ring = (bdrRingBufferPut s.ring a).1 ∧
          s₂.filling = []) := by
  simp only [step, bdrRingBufferPut]
  rcases hr : reserve s.ring.bufferInfo with ⟨bi, _ | slot⟩
  · exact ⟨_, rfl, .inl ⟨rfl, rfl⟩⟩
  · exact ⟨_, rfl, .inr ⟨_, by simp [hs]; rfl, rfl, by simp⟩⟩

/-! ### The buffer whose puts are one step -/

/-- `rb` is the buffer as it would be if every put were one step: it holds the queue `q`, and a
slot that differs is still to be filled.  The cursors agree until the flag goes up. -/
structure Tidy (rb : RingBuffer) (q : WindowQueue (Put P)) (s : Writers P) : Prop where
  refines : Refines rb q
  last : s.ring.bufferInfo.last = rb.bufferInfo.last
  maxWrites : s.ring.bufferInfo.maxWrites = rb.bufferInfo.maxWrites
  cursors : s.ring.bufferInfo.overflown = false → s.ring.bufferInfo = rb.bufferInfo
  reserved : s.reserved = q.pending
  handed : ∀ info puts, s.handed = some (info, puts) → puts = q.window ∧
    puts.length = info.length ∧ info.offset = rb.bufferInfo.last ∧
    info.maxWrites = rb.bufferInfo.maxWrites
  window : Holds s.ring.buffer rb.bufferInfo.maxWrites rb.bufferInfo.last q.window
  slots : ∀ i a, q.toList[i]? = some a →
    SlotHolds s.ring.buffer ((rb.bufferInfo.last + i) % rb.bufferInfo.maxWrites) a ∨
      ⟨(rb.bufferInfo.last + i) % rb.bufferInfo.maxWrites, a⟩ ∈ s.filling
  filling : ∀ r ∈ s.filling, ∃ i, q.window.length ≤ i ∧ q.toList[i]? = some r.put ∧
    r.slot = (rb.bufferInfo.last + i) % rb.bufferInfo.maxWrites

section Tidy
variable {rb : RingBuffer} {q : WindowQueue (Put P)} {s s' : Writers P}

theorem tidy_start {mem : Image UInt8} {M : ℕ} (h : bdrRingBufferInit mem M = some rb) :
    Tidy rb .empty (start (P := P) rb) where
  refines := refines_init h
  last := rfl
  maxWrites := rfl
  cursors _ := rfl
  reserved := rfl
  handed := by rintro _ _ ⟨⟩
  window := fun i a hi => by simp [WindowQueue.empty] at hi
  slots := fun i a hi => by simp [WindowQueue.empty, WindowQueue.toList] at hi
  filling := fun r hr => by simp [start] at hr

theorem Tidy.finished (h : Tidy rb q s) : s.Finished := by
  intro info puts hh
  obtain ⟨rfl, hlen, hoff, hmax⟩ := h.handed info puts hh
  rw [hoff, hmax]
  exact ⟨hlen, h.window⟩

/-- With nothing to fill, the memory is that of the other buffer. -/
theorem Tidy.holds (h : Tidy rb q s) (hs : s.filling = []) :
    Holds s.ring.buffer rb.bufferInfo.maxWrites rb.bufferInfo.last q.toList := by
  intro i a hi
  rcases h.slots i a hi with hh | hin
  · exact hh
  · rw [hs] at hin
    cases hin

/-- The cursors after a reservation that gets no slot. -/
theorem Tidy.refused (h : Tidy rb q s) (hc : (reserve s.ring.bufferInfo).1.overflown = true) :
    Tidy rb q { s with ring := { s.ring with
      bufferInfo := (Kern.reserve s.ring.bufferInfo).1 } } where
  refines := h.refines
  last := (last_reserve _).trans h.last
  maxWrites := (maxWrites_reserve _).trans h.maxWrites
  cursors := fun hf => absurd (hc.symm.trans hf) (by decide)
  reserved := h.reserved
  handed := h.handed
  window := h.window
  slots := h.slots
  filling := h.filling

/-- A reservation goes to the slot after the queue. -/
theorem Tidy.reserve (h : Tidy rb q s) (hr : q.toList.length + 1 ≠ rb.bufferInfo.maxWrites)
    (a : Put P) :
    Tidy (bdrRingBufferPut rb a).1 (q.put a) { s with
      ring := { s.ring with
        bufferInfo := { rb.bufferInfo with length := rb.bufferInfo.length + 1 } }
      filling := s.filling ++
        [⟨(rb.bufferInfo.last + q.toList.length) % rb.bufferInfo.maxWrites, a⟩]
      reserved := s.reserved ++ [a] } := by
  have hrefines := h.refines.put hr a
  rw [put_of_room h.refines hr] at hrefines ⊢
  refine ⟨hrefines, rfl, rfl, fun _ => rfl, ?_, h.handed, h.window, ?_, ?_⟩
  · rw [h.reserved]
    rfl
  · intro i b hi
    rw [WindowQueue.toList_put, List.getElem?_append] at hi
    split at hi
    · exact (h.slots i b hi).imp_right (List.mem_append_left _)
    · rename_i hlt
      have hlen := (List.getElem?_eq_some_iff.mp hi).1
      have hi' : i = q.toList.length := by
        simp at hlen
        omega
      subst hi'
      simp only [Nat.sub_self, List.getElem?_cons_zero, Option.some.injEq] at hi
      subst hi
      exact .inr (List.mem_append_right _ List.mem_cons_self)
  · intro r hin
    rcases List.mem_append.mp hin with hin | hin
    · obtain ⟨i, hw, hi, hslot⟩ := h.filling r hin
      refine ⟨i, hw, ?_, hslot⟩
      rw [WindowQueue.toList_put,
        List.getElem?_append_left (List.getElem?_eq_some_iff.mp hi).1]
      exact hi
    · obtain rfl := List.mem_singleton.mp hin
      refine ⟨q.toList.length, ?_, by simp, rfl⟩
      simp [WindowQueue.put, WindowQueue.toList]

theorem Tidy.fill (h : Tidy rb q s) {i : ℕ} {r : Reservation P} (hr : s.filling[i]? = some r) :
    Tidy rb q { s with
      ring := { s.ring with buffer := Kern.fill s.ring.buffer r.slot r.put }
      filling := s.filling.eraseIdx i } := by
  obtain ⟨hlt, hget⟩ := List.getElem?_eq_some_iff.mp hr
  obtain ⟨k, hw, hk, hslot⟩ := h.filling r (List.mem_of_getElem? hr)
  have hkM : k < rb.bufferInfo.maxWrites :=
    (List.getElem?_eq_some_iff.mp hk).1.trans h.refines.room
  refine ⟨h.refines, h.last, h.maxWrites, h.cursors, h.reserved, h.handed, ?_, ?_, ?_⟩
  · rw [hslot]
    exact h.window.fill hw hkM r.put
  · intro m a hm
    have hmM := (List.getElem?_eq_some_iff.mp hm).1.trans h.refines.room
    rcases eq_or_ne m k with rfl | hne
    · -- the slot of this reservation: it holds the put now
      rw [hk, Option.some.injEq] at hm
      subst hm
      rw [hslot]
      exact .inl (slotHolds_fill ..)
    · have hslots : (rb.bufferInfo.last + m) % rb.bufferInfo.maxWrites ≠ r.slot := by
        rw [hslot]
        exact fun e => hne (slot_injOn hmM hkM e)
      rcases h.slots m a hm with hh | hin
      · exact .inl (hh.congr fun p h₁ h₂ => fill_frame (slot_disjoint hslots h₁ h₂))
      · refine .inr ((List.mem_eraseIdx_iff_getElem?).mpr ?_)
        obtain ⟨n, hn⟩ := List.mem_iff_getElem?.mp hin
        refine ⟨n, fun e => hslots ?_, hn⟩
        subst e
        rw [hr, Option.some.injEq] at hn
        rw [hn]
  · exact fun r' hin => h.filling r' (List.mem_of_mem_eraseIdx hin)

theorem Tidy.read (h : Tidy rb q s) (hs : s.filling = [])
    (hc : s.ring.bufferInfo = rb.bufferInfo) :
    Tidy (bdrBufferReadRoutine rb).1 q.read { s with
      ring := (bdrBufferReadRoutine s.ring).1
      reserved := []
      handed := some ((bdrBufferReadRoutine s.ring).2, s.reserved) } := by
  have hf := h.refines.flags
  have hmem := h.holds hs
  have hoff := h.refines.offset_eq
  have hrefines := h.refines.read
  rw [read_fst hf] at hrefines ⊢
  have hfs : s.ring.bufferInfo.flags = 0 := by rw [hc, hf]
  have hdrop : Holds s.ring.buffer rb.bufferInfo.maxWrites rb.bufferInfo.offset q.pending := by
    rw [hoff]
    exact hmem.drop
  rw [read_fst hfs, read_snd]
  refine ⟨hrefines, by rw [hc], by rw [hc], fun _ => by rw [hc], rfl, ?_, hdrop, ?_, ?_⟩
  · rintro info puts ⟨⟩
    rw [hc]
    exact ⟨h.reserved, by rw [h.reserved, h.refines.length_eq], rfl, rfl⟩
  · intro i a hi
    rw [WindowQueue.toList_read] at hi
    exact .inl (hdrop i a hi)
  · intro r hin
    rw [hs] at hin
    cases hin

theorem Tidy.reset (h : Tidy rb q s) (hs : s.filling = []) :
    Tidy (bdrRingBufferReset rb) .empty { s with
      ring := bdrRingBufferReset s.ring
      reserved := []
      handed := none } where
  refines := refines_reset h.refines.maxWrites_pos
  last := rfl
  maxWrites := h.maxWrites
  cursors := fun _ => by simp only [bdrRingBufferReset, h.maxWrites]
  reserved := rfl
  handed := by rintro _ _ ⟨⟩
  window := fun i a hi => by simp [WindowQueue.empty] at hi
  slots := fun i a hi => by simp [WindowQueue.empty, WindowQueue.toList] at hi
  filling := fun r hin => by simp [hs] at hin

/-- **A careful step keeps the buffers together.** -/
theorem Tidy.step (h : Tidy rb q s) {m : RingMove P} (hok : s.careful m)
    (hs : s.step m = some s') : ∃ rb' q', Tidy rb' q' s' := by
  cases m with
  | reserve a =>
      cases hov : s.ring.bufferInfo.overflown with
      | true =>
          have hres : Kern.reserve s.ring.bufferInfo = (s.ring.bufferInfo, none) := by
            rw [Kern.reserve, if_pos hov]
          simp only [Writers.step, hres] at hs
          cases hs
          exact ⟨rb, q, h⟩
      | false =>
          have hc := h.cursors hov
          by_cases hr : q.toList.length + 1 = rb.bufferInfo.maxWrites
          · have hres := reserve_of_full h.refines hr
            have hfull := h.refused
              (by rw [hc, hres]; exact (overflown_update_iff h.refines).mpr hr)
            rw [hc, hres] at hfull
            simp only [Writers.step, hc, hres] at hs
            cases hs
            exact ⟨rb, q, hfull⟩
          · simp only [Writers.step, hc, reserve_of_room h.refines hr] at hs
            cases hs
            exact ⟨_, _, h.reserve hr a⟩
  | fill i =>
      obtain ⟨r, hr, rfl⟩ := Option.map_eq_some_iff.mp hs
      exact ⟨rb, q, h.fill hr⟩
  | read =>
      cases hs
      cases hov : s.ring.bufferInfo.overflown with
      | true =>
          rw [read_snd, if_pos hov]
          have hread : (bdrBufferReadRoutine s.ring).1 = s.ring := by
            simp only [bdrBufferReadRoutine, hov, if_true]
          rw [hread]
          exact ⟨rb, q, h⟩
      | false =>
          rw [read_snd, hov, if_neg (by decide), ← read_snd s.ring]
          exact ⟨_, _, h.read hok (h.cursors hov)⟩
  | reset =>
      cases hs
      exact ⟨_, _, h.reset hok⟩

end Tidy

/-- **Windows are finished if reads and resets wait for the writers.**  Whatever the writers do,
as long as no read and no reset comes between a reservation and its fill, the slots of the window
last handed out hold, from its read to the next read or reset, the puts that reserved them. -/
theorem finished_of_careful {mem : Image UInt8} {M : ℕ} {rb : RingBuffer}
    (h : bdrRingBufferInit mem M = some rb) {moves : List (RingMove P)} {s : Writers P}
    (hrun : Run step careful (start rb) moves s) : s.Finished := by
  have hinv : ∃ rb' q, Tidy rb' q s :=
    hrun.invariant (I := fun s => ∃ rb' q, Tidy rb' q s)
      (fun _ _ _ ⟨_, _, ht⟩ hok hs => ht.step hok hs) ⟨rb, .empty, tidy_start h⟩
  obtain ⟨rb', q, ht⟩ := hinv
  exact ht.finished

/-! ### Four slots -/

theorem sectorPut_page_length : (List.replicate 4096 (5 : UInt8)).length = 4096 :=
  List.length_replicate

theorem sectorPut_pageOffset_le : 0 ≤ 4096 := by decide

theorem sectorPut_size_eq : (512 : UInt32).toNat = min 512 (4096 - 0) := by decide

/-- A write of fives to sector `sector`. -/
def sectorPut (sector : UInt32) : Put 4096 :=
  ⟨sector, 512, List.replicate 4096 5, 0, 512, sectorPut_page_length, sectorPut_pageOffset_le,
    sectorPut_size_eq⟩

/-- A buffer of four slots, all zero. -/
def fourSlots : RingBuffer := ⟨fun _ => 0, ⟨0, 0, 0, 0, 4⟩⟩

/-- Two writers fill their slots in the other order; a read follows, and a third writer. -/
def twoWriters : List (RingMove 4096) :=
  [.reserve (sectorPut 3), .reserve (sectorPut 9), .fill 1, .fill 0, .read, .reserve (sectorPut 7)]

theorem finished_of_careful_twoWriters :
    bdrRingBufferInit (fun _ => 0) 4 = some fourSlots ∧
      ∃ s, Run step careful (start fourSlots) twoWriters s ∧
        (s.handed.map fun w => w.2.length) = some 2 ∧ s.Finished := by
  obtain ⟨s, hs, hlen⟩ := exists_exec (P := fun s : Writers 4096 =>
      decide ((s.handed.map fun w => w.2.length) = some 2))
    (show (exec (guarded step careful) (start fourSlots) twoWriters).any _ = true by
      decide +kernel)
  have hinit : bdrRingBufferInit (fun _ => 0) 4 = some fourSlots := rfl
  have hrun := Run.of_exec_guarded hs
  exact ⟨hinit, s, hrun, of_decide_eq_true hlen, finished_of_careful hinit hrun⟩

/-- A read between reservation and fill hands out a slot with whatever was there before. -/
theorem not_finished_of_early_read :
    bdrRingBufferInit (fun _ => 0) 4 = some fourSlots ∧
      ∃ s, exec step (start fourSlots) [.reserve (sectorPut 9), .read] = some s ∧ ¬ s.Finished := by
  refine ⟨rfl, _, rfl, fun h => ?_⟩
  have hslot := (h _ _ rfl).2 0 (sectorPut 9) rfl
  exact absurd hslot.1 (by decide)

/-- A reset between reservation and fill: the old writer fills the slot after the new one, and the
window that is read then holds the old write. -/
theorem not_finished_of_early_reset :
    ∃ s, exec step (start fourSlots) [.reserve (sectorPut 3), .reset, .reserve (sectorPut 9),
      .fill 1, .fill 0, .read] = some s ∧ s.filling = [] ∧ ¬ s.Finished := by
  refine ⟨_, rfl, rfl, fun h => ?_⟩
  have hslot := (h _ _ rfl).2 0 (sectorPut 9) rfl
  exact absurd hslot.1 (by decide)

end Writers

end Bdr.Kern
