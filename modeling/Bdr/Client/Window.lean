import Mathlib.Data.List.Induction
import Bdr.Kern.Slots
import Bdr.Networking

/-!
# Client — the window of new writes

`ProcessBufferInfo` walks the slots of a `BufferInfo` through the mapped buffer and decodes each
into a `WriteInfo` (`decodeSlot`).  A slot that holds a put decodes to that put's sector, size
and data (`decodeSlot_of_slotHolds`), so a window read from an unflagged buffer decodes to the
puts since the read before it (`window_refines_queue`), and goes on doing so until the next read:
the bytes after a slot's `size` may be stale, and nothing looks at them.
-/

namespace Bdr.Client
open Bdr Bdr.Kern

/-- `GetBufferInfoByteOffset`. -/
def getBufferInfoByteOffset (ti : TargetInfo) (bi : BufferInfo) (off : ℕ) : ℕ :=
  ((bi.offset + off) % bi.maxWrites) * ti.writeInfoSize

/-- The loop body of `ProcessBufferInfo` up to the packet: slot `i` of the window, read from the
mapped buffer.  `none` where the slice is out of range or a field cannot be read. -/
def decodeSlot (ti : TargetInfo) (buf : Image UInt8) (bi : BufferInfo) (i : ℕ) :
    Option WriteInfo :=
  let bufBegin := getBufferInfoByteOffset ti bi i
  let bufEnd := bufBegin + ti.writeInfoSize
  -- c.Buf is mapped with BufferByteSize bytes
  if bufEnd ≤ ti.bufferByteSize then
    let data := buf.read bufBegin (bufEnd - bufBegin)
    if 8 + ti.pageSize ≤ data.length then
      let sector := UInt32.ofNat (leNat (data.take 4))
      some ⟨UInt64.ofNat kernelLogicalSectorSize * sector.toUInt64,
        UInt32.ofNat (leNat ((data.drop 4).take 4)), (data.drop 8).take ti.pageSize⟩
    else none
  else none

/-- Every slot of the window, in order. -/
def decodeWindow (ti : TargetInfo) (buf : Image UInt8) (bi : BufferInfo) :
    Option (List WriteInfo) :=
  (List.range bi.length).mapM (decodeSlot ti buf bi)

/-- The entries of a window are its slots, one by one. -/
theorem decodeWindow_eq_some {ti : TargetInfo} {buf : Image UInt8} {bi : BufferInfo}
    {ws : List WriteInfo} (h : decodeWindow ti buf bi = some ws) :
    ws.length = bi.length ∧ ∀ i, i < bi.length → decodeSlot ti buf bi i = ws[i]? := by
  unfold decodeWindow at h
  generalize bi.length = n at h ⊢
  induction n generalizing ws with
  | zero =>
      cases h
      exact ⟨rfl, fun i hi => absurd hi (Nat.not_lt_zero i)⟩
  | succ n ih =>
      rw [List.range_succ, List.mapM_append] at h
      obtain ⟨vs, hvs, h⟩ := Option.bind_eq_some_iff.mp h
      obtain ⟨us, hus, h⟩ := Option.bind_eq_some_iff.mp h
      cases h
      rw [List.mapM_cons] at hus
      obtain ⟨w, hw, hus⟩ := Option.bind_eq_some_iff.mp hus
      cases hus
      obtain ⟨hl, hi⟩ := ih hvs
      refine ⟨by simp [hl], fun i hin => ?_⟩
      rcases Nat.lt_succ_iff_lt_or_eq.mp hin with hlt | rfl
      · rw [List.getElem?_append_left (hl ▸ hlt)]
        exact hi i hlt
      · rw [hw, List.getElem?_append_right hl.le]
        simp [hl]

/-- The write with the bytes past its size left out. -/
def effective (w : WriteInfo) : WriteInfo := { w with data := w.data.take w.size.toNat }

/-- The write a put stands for. -/
def writeInfo {P : ℕ} (a : Put P) : WriteInfo :=
  ⟨UInt64.ofNat kernelLogicalSectorSize * a.sector.toUInt64, a.size, a.data⟩

section
variable {P : ℕ}

/-- **A slot decodes to the put it holds.** -/
theorem decodeSlot_of_slotHolds {ti : TargetInfo} {buf : Image UInt8} {bi : BufferInfo} {i : ℕ}
    {a : Put P} (hp : ti.pageSize = P) (hw : ti.writeInfoSize = bdrWriteInfoSize P)
    (hb : getBufferInfoByteOffset ti bi i + ti.writeInfoSize ≤ ti.bufferByteSize)
    (h : SlotHolds buf ((bi.offset + i) % bi.maxWrites) a) :
    ∃ w, decodeSlot ti buf bi i = some w ∧ effective w = writeInfo a := by
  obtain ⟨h₁, h₂, h₃⟩ := h
  have hs := a.size_le
  have hoff : getBufferInfoByteOffset ti bi i =
      ((bi.offset + i) % bi.maxWrites) * bdrWriteInfoSize P := by
    rw [getBufferInfoByteOffset, hw]
  rw [← hoff] at h₁ h₂ h₃
  have hlen : 8 + ti.pageSize ≤ (buf.read (getBufferInfoByteOffset ti bi i)
      ti.writeInfoSize).length := by
    rw [Image.length_read, hp, hw, bdrWriteInfoSize]
  have hd : decodeSlot ti buf bi i = some ⟨UInt64.ofNat kernelLogicalSectorSize *
      (UInt32.ofNat (leNat (buf.read (getBufferInfoByteOffset ti bi i) 4))).toUInt64,
      UInt32.ofNat (leNat (buf.read (getBufferInfoByteOffset ti bi i + 4) 4)),
      buf.read (getBufferInfoByteOffset ti bi i + 8) P⟩ := by
    simp only [decodeSlot, Nat.add_sub_cancel_left]
    rw [if_pos hb, if_pos hlen]
    simp only [Image.take_read, Image.drop_read, hp, hw, bdrWriteInfoSize, Nat.add_sub_cancel_left,
      min_self]
    rw [show min 4 (8 + P) = 4 by omega, show min 4 (8 + P - 4) = 4 by omega]
  refine ⟨_, hd, ?_⟩
  rw [h₁, h₂, ofNat_leNat_le32, ofNat_leNat_le32]
  -- the data past the size may be stale
  simp only [effective, writeInfo, Image.take_read]
  rw [min_eq_left (by omega), h₃]

/-- A stretch of slots decodes to the puts it holds. -/
theorem decodeWindow_of_holds {ti : TargetInfo} {buf : Image UInt8} {bi : BufferInfo}
    {l : List (Put P)} (hp : ti.pageSize = P) (hw : ti.writeInfoSize = bdrWriteInfoSize P)
    (hb : ∀ i, i < bi.length →
      getBufferInfoByteOffset ti bi i + ti.writeInfoSize ≤ ti.bufferByteSize)
    (hl : bi.length = l.length) (h : Holds buf bi.maxWrites bi.offset l) :
    (decodeWindow ti buf bi).map (·.map effective) = some (l.map writeInfo) := by
  have hslot : ∀ i a, l[i]? = some a →
      ∃ w, decodeSlot ti buf bi i = some w ∧ effective w = writeInfo a := fun i a hi =>
    decodeSlot_of_slotHolds hp hw
      (hb i (hl ▸ (List.getElem?_eq_some_iff.mp hi).1)) (h i a hi)
  rw [decodeWindow, hl]
  clear h hb hl
  induction l using List.reverseRecOn with
  | nil => rfl
  | append_singleton l a ih =>
      have ih' := ih fun i b hi => hslot i b
        (by rw [List.getElem?_append_left (List.getElem?_eq_some_iff.mp hi).1]; exact hi)
      obtain ⟨w, hw₁, hw₂⟩ := hslot l.length a (by simp)
      obtain ⟨ws, hws, hmap⟩ := Option.map_eq_some_iff.mp ih'
      rw [List.length_append, List.length_singleton, List.range_succ, List.mapM_append, hws]
      simp [hw₁, hw₂, hmap]

/-- Every slot the client looks at lies inside the mapping. -/
theorem byteOffset_in_mapping (P : ℕ) {rb : RingBuffer} {bi : BufferInfo}
    (hM : 0 < rb.bufferInfo.maxWrites) (hbi : bi.maxWrites = rb.bufferInfo.maxWrites) (i : ℕ) :
    getBufferInfoByteOffset (bdrGetTargetInfo P rb) bi i +
      (bdrGetTargetInfo P rb).writeInfoSize ≤ (bdrGetTargetInfo P rb).bufferByteSize := by
  have hlt : (bi.offset + i) % bi.maxWrites < rb.bufferInfo.maxWrites :=
    hbi ▸ Nat.mod_lt _ (hbi ▸ hM)
  have := Nat.mul_le_mul_right (bdrWriteInfoSize P) (Nat.succ_le_of_lt hlt)
  rw [Nat.succ_mul] at this
  exact this

/-- The slots a read is about to hand out decode to the pending puts. -/
theorem decodeWindow_of_refines {rb₀ rb : RingBuffer} {q : WindowQueue (Put P)} (h : Refines rb q)
    (hM : rb.bufferInfo.maxWrites = rb₀.bufferInfo.maxWrites) :
    (decodeWindow (bdrGetTargetInfo P rb₀) rb.buffer rb.bufferInfo).map (·.map effective) =
      some (q.pending.map writeInfo) := by
  have hmap := byteOffset_in_mapping P (hM ▸ h.maxWrites_pos) hM
  refine decodeWindow_of_holds rfl rfl (fun i _ => hmap i) h.length_eq ?_
  rw [h.offset_eq]
  exact h.holds.drop

/-- The window that a read hands out decodes to the puts that were pending, whatever is put after
the read. -/
theorem decodeWindow_of_read {rb₀ rb : RingBuffer} {q : WindowQueue (Put P)} (h : Refines rb q)
    (hM : rb.bufferInfo.maxWrites = rb₀.bufferInfo.maxWrites) (as : List (Put P)) :
    (decodeWindow (bdrGetTargetInfo P rb₀)
      (ringRun (bdrBufferReadRoutine rb).1 (as.map .put)).buffer
      (bdrBufferReadRoutine rb).2).map (·.map effective) = some (q.pending.map writeInfo) := by
  have hmap := byteOffset_in_mapping P (hM ▸ h.maxWrites_pos) hM
  have hholds := h.read.holds_puts as
  rw [WindowQueue.toList_read, read_fst h.flags] at hholds
  rw [read_snd, read_fst h.flags]
  exact decodeWindow_of_holds rfl rfl (fun i _ => hmap i) h.length_eq hholds

/-- **The ring buffer refines a queue read in windows.**  Whatever was put and read since the
buffer was initialised, a read that is not flagged hands out slots that decode to the puts since
the read before it, in order, and they do so whatever is put until the next read; every slot of
the window lies in the mapping, and no put touches a slot of the window or a pending slot. -/
theorem window_refines_queue {M : ℕ} {mem : Image UInt8} {rb₀ : RingBuffer}
    (h₀ : bdrRingBufferInit mem M = some rb₀) (ops : List (WindowOp (Put P)))
    (hops : ∀ op ∈ ops, op ≠ .reset) (hf : (ringRun rb₀ ops).bufferInfo.overflown = false)
    (as : List (Put P)) :
    let bi := (bdrBufferReadRoutine (ringRun rb₀ ops)).2
    let now := ringRun (bdrBufferReadRoutine (ringRun rb₀ ops)).1 (as.map .put)
    (decodeWindow (bdrGetTargetInfo P rb₀) now.buffer bi).map (·.map effective) =
        some ((WindowQueue.empty.run ops).pending.map writeInfo) ∧
      (∀ i, i < bi.length → getBufferInfoByteOffset (bdrGetTargetInfo P rb₀) bi i +
        (bdrGetTargetInfo P rb₀).writeInfoSize ≤ M * bdrWriteInfoSize P) ∧
      ∀ (a : Put P) (i p : ℕ),
        (i < bi.length ∧ InSlot P ((bi.offset + i) % M) p ∨
          i < now.bufferInfo.length ∧ InSlot P ((now.bufferInfo.offset + i) % M) p) →
        (bdrRingBufferPut now a).1.buffer p = now.buffer p := by
  intro bi now
  have hM₀ : rb₀.bufferInfo.maxWrites = M := maxWrites_init h₀
  have hR := (refines_init h₀).run hops hf
  have hR₁ := hR.read
  have hM : (ringRun rb₀ ops).bufferInfo.maxWrites = M := (maxWrites_ringRun rb₀ ops).trans hM₀
  have hbi : bi = (ringRun rb₀ ops).bufferInfo := read_snd _
  have hmax : (bdrBufferReadRoutine (ringRun rb₀ ops)).1.bufferInfo.maxWrites = M := by
    rw [read_fst hR.flags]; exact hM
  have hlast : (bdrBufferReadRoutine (ringRun rb₀ ops)).1.bufferInfo.last = bi.offset := by
    rw [hbi, read_fst hR.flags]
  have hlen : bi.length = (WindowQueue.empty.run ops).pending.length := by rw [hbi, hR.length_eq]
  have hmap := byteOffset_in_mapping P (hM₀ ▸ hM ▸ hR.maxWrites_pos)
    (show bi.maxWrites = rb₀.bufferInfo.maxWrites by rw [hbi, hM, hM₀])
  refine ⟨decodeWindow_of_read hR (hM.trans hM₀.symm) as, fun i _ => ?_, ?_⟩
  · rw [← hM₀]
    exact hmap i
  · intro a i p hp
    by_cases hov : now.bufferInfo.overflown = true
    · rw [put_of_overflown hov]
    · have hR₂ := hR₁.run (show ∀ op ∈ as.map WindowOp.put, op ≠ .reset by simp)
        (Bool.eq_false_iff.mpr hov)
      have hw : ((WindowQueue.empty.run ops).read.run (as.map .put)).window =
          (WindowQueue.empty.run ops).pending := WindowQueue.window_run_puts _ as
      have hM₂ : now.bufferInfo.maxWrites = M := (maxWrites_ringRun _ _).trans hmax
      have hl₂ : now.bufferInfo.last = bi.offset := (last_ringRun_puts _ as).trans hlast
      have hcat : ((WindowQueue.empty.run ops).read.run (as.map .put)).toList.length =
          bi.length + now.bufferInfo.length := by
        rw [WindowQueue.toList, List.length_append, hw, hlen, hR₂.length_eq]
      rcases hp with ⟨hi, hp⟩ | ⟨hi, hp⟩
      · exact hR₂.put_frame a (i := i) (by omega) (by rwa [hl₂, hM₂])
      · refine hR₂.put_frame a (i := bi.length + i) (by omega) ?_
        rw [hR₂.offset_eq, hw, ← hlen, hM₂, Nat.mod_add_mod, Nat.add_assoc] at hp
        rw [hM₂]
        exact hp

end

/-- A put of the first sector of a page of zeros. -/
def zeroSectorPut (sector : UInt32) : Put 4096 where
  sector := sector
  size := 512
  page := List.replicate 4096 0
  pageOffset := 0
  length := 512
  page_length := List.length_replicate
  pageOffset_le := by decide
  size_eq := by decide

/-- One put, a read, and a second put before the window is decoded. -/
theorem window_refines_queue_three :
    ∃ rb₀, bdrRingBufferInit (fun _ => 7) 3 = some rb₀ ∧
      (decodeWindow (bdrGetTargetInfo 4096 rb₀)
        (ringRun (bdrBufferReadRoutine (ringRun rb₀ [.put (zeroSectorPut 8)])).1
          ([zeroSectorPut 9].map .put)).buffer
        (bdrBufferReadRoutine (ringRun rb₀ [.put (zeroSectorPut 8)])).2).map (·.map effective) =
      some [writeInfo (zeroSectorPut 8)] :=
  ⟨⟨fun _ => 7, ⟨0, 0, 0, 0, 3⟩⟩, rfl,
    (window_refines_queue (show bdrRingBufferInit (fun _ => 7) 3 = _ from rfl)
      [.put (zeroSectorPut 8)] (by simp) rfl [zeroSectorPut 9]).1⟩

end Bdr.Client
