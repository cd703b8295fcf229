import Bdr.Client.Client
import Bdr.Kern.Overflow

/-!
# Client — who uses the ring

What a move of the client does to the ring buffer: an application's write is put into it, the
monitor and the listener read it, and whoever starts a recovery resets it.  The other moves leave it
alone (`ring_move`).

The ring holds the writes that were put since the last reset, or it is flagged (`RingOk`).  A window
that has been read stays in its slots until the ring is read again or reset (`Guards`).
-/

namespace Bdr.Client

open Kern

variable {P : ℕ}

/-- A step of a command resets the ring. -/
def StartCall.ringOp : StartCall → Option (WindowOp (Put P))
  | .resetting => some .reset
  | _ => none

/-- What a move does to the ring. -/
def ringOp (c : Client) : ClientMove P → Option (WindowOp (Put P))
  | .write a => some (.put a)
  | .run => c.run.bind fun r => r.2.ringOp
  | .monitor _ =>
      match c.monitor with
      | .reading => some .read
      | .starting call => call.ringOp
      | _ => none
  | .listener _ =>
      match c.listener with
      | .reading => some .read
      | .starting _ call => call.ringOp
      | _ => none
  | .hashing (.reader i _) =>
      match c.hashing.readers.busy? i with
      | some (.starting call) => call.ringOp
      | _ => none
  | _ => none

section Move
variable {cfg : ClientConfig} {c c' : Client} {ps : List Packet} {s s' : Shared}

/-- The pipeline of `InitHashing` does not use the ring, but where a reader starts a scan. -/
theorem ringOp_hashes {m : HashingMove} (hnot : ∀ i failed call, m = .reader i failed →
    c.hashing.readers.busy? i ≠ some (.starting call)) :
    c.ringOp (P := P) (.hashing m) = none := by
  cases m with
  | reader i failed =>
      simp only [ringOp]
      split
      · rename_i call hb
        exact absurd hb (hnot i failed call rfl)
      · rfl
  | closeWork | worker | closeComp | comparer => rfl

theorem ring_startStep {command : Command} {call : StartCall} {next : Option StartCall}
    (h : s.startStep command call = some (s', ps, next)) :
    s'.ring = (call.ringOp (P := P)).elim s.ring (ringStep s.ring) := by
  cases call with
  | resetting | settingState | sending =>
      cases h
      rfl
  | pausing call =>
      obtain ⟨r, -, heq⟩ := Option.map_eq_some_iff.mp h
      cases heq
      rfl

/-- `ProcessBufferInfo` changes neither the state nor the ring. -/
theorem shared_processStep {ti : TargetInfo} {mainLoop sent : Bool} {w : Window}
    {next : Option Window} (h : s.processStep ti mainLoop sent w = some (s', ps, next)) :
    s'.ring = s.ring ∧ s'.state = s.state := by
  unfold Shared.processStep at h
  split at h
  · cases h
    exact ⟨rfl, rfl⟩
  · obtain ⟨r, -, heq⟩ := Option.map_eq_some_iff.mp h
    cases heq
    exact ⟨rfl, rfl⟩
  · obtain ⟨r, -, heq⟩ := Option.map_eq_some_iff.mp h
    cases heq
    exact ⟨rfl, rfl⟩
  · split at h <;> cases h <;> exact ⟨rfl, rfl⟩
  · cases h
    exact ⟨rfl, rfl⟩

/-- **What a move does to the ring.** -/
theorem ring_move {m : ClientMove P} (h : c.move cfg m = some (c', ps)) :
    c'.shared.ring = (c.ringOp m).elim c.shared.ring (ringStep c.shared.ring) := by
  cases move_cases h with
  | write a => rfl
  | run hrun hs =>
      simp only [ringOp, hrun, Option.bind_some]
      exact ring_startStep hs
  | monitorWaits _ hm _ | monitorReads _ hm =>
      simp only [ringOp, hm]
      rfl
  | monitorStarts _ hm hs =>
      simp only [ringOp, hm]
      exact ring_startStep hs
  | monitorProcesses _ hm hs =>
      simp only [ringOp, hm]
      exact (shared_processStep hs).1
  | listener _ h =>
      obtain hl | hl | hl | hl | hl | ⟨hl, hs⟩ | hl | ⟨hl, hs⟩ | hl | ⟨hl, hs⟩ | ⟨hl, hs⟩ |
        ⟨hl, hs⟩ := h
      all_goals simp only [ringOp, hl]
      all_goals first | exact ring_startStep hs | exact (shared_processStep hs).1 | rfl
  | @deliver packet _ _ => cases packet <;> rfl
  | eof => rfl
  | dial => split <;> rfl
  | readerStarts _ hb hs =>
      simp only [ringOp, hb]
      exact ring_startStep hs
  | @hashes m _ _ _ hnot _ =>
      rw [ringOp_hashes hnot]
      rfl
  | replicates _ h => cases h <;> rfl

/-- Only an application puts into the ring. -/
theorem write_of_ringOp {m : ClientMove P} {a : Put P} (h : c.ringOp m = some (.put a)) :
    m = .write a := by
  have hcall : ∀ call : StartCall, call.ringOp ≠ some (WindowOp.put a) := by
    intro call hc
    cases call <;> cases hc
  cases m with
  | write b =>
      cases h
      rfl
  | run =>
      obtain ⟨r, -, hr⟩ := Option.bind_eq_some_iff.mp h
      exact absurd hr (hcall r.2)
  | monitor | listener =>
      simp only [ringOp] at h
      split at h <;> first | exact absurd h (hcall _) | cases h
  | hashing m =>
      by_cases hnot : ∀ i failed call, m = .reader i failed →
          c.hashing.readers.busy? i ≠ some (.starting call)
      · rw [ringOp_hashes hnot] at h
        cases h
      · push Not at hnot
        obtain ⟨i, failed, call, rfl, hb⟩ := hnot
        simp only [ringOp, hb] at h
        exact absurd h (hcall call)
  | deliver | eof | dial | replication => cases h

/-- A command does not lead to `StateReconnecting`, and has left it when it sends its packet. -/
theorem reconnecting_startStep {command : Command} {call : StartCall} {next : Option StartCall}
    (h : s.startStep command call = some (s', ps, next)) (hr : s'.state = .reconnecting) :
    s.state = .reconnecting ∧ next ≠ some .sending ∧ (next = none → call = .sending) := by
  cases call with
  | resetting | sending =>
      cases h
      exact ⟨hr, by simp, by simp⟩
  | settingState =>
      cases h
      cases command <;> cases hr
  | pausing call =>
      obtain ⟨⟨p, r⟩, -, heq⟩ := Option.map_eq_some_iff.mp h
      cases heq
      cases r <;> exact ⟨hr, by simp, by simp⟩

/-- The moves of the listener, those of the connection included. -/
def ClientMove.ofListener : ClientMove P → Bool
  | .listener _ | .deliver _ | .eof | .dial => true
  | _ => false

/-- The other goroutines leave the listener where it is, and none of them leads to
`StateReconnecting`. -/
theorem listener_move {m : ClientMove P} (h : c.move cfg m = some (c', ps))
    (hm : m.ofListener = false) : c'.listener = c.listener ∧
      (c'.shared.state = .reconnecting → c.shared.state = .reconnecting) := by
  cases move_cases h with
  | write | monitorWaits | monitorReads | hashes => exact ⟨rfl, id⟩
  | run _ hs | monitorStarts _ _ hs | readerStarts _ _ hs =>
      exact ⟨rfl, fun hr => (reconnecting_startStep hs hr).1⟩
  | monitorProcesses _ _ hs => exact ⟨rfl, fun hr => (shared_processStep hs).2.symm.trans hr⟩
  | replicates _ h =>
      cases h with
      | setsWriting => exact ⟨rfl, by rintro ⟨⟩⟩
      | _ => exact ⟨rfl, id⟩
  | listener | deliver | eof | dial => cases hm

end Move

/-! ### What the ring holds -/

/-- The ring holds the writes of a queue, or it is flagged and says that there are writes. -/
def RingOk (P : ℕ) (rb : RingBuffer) : Prop :=
  0 < rb.bufferInfo.maxWrites ∧
    ((∃ q : WindowQueue (Put P), Refines rb q) ∨
      rb.bufferInfo.overflown = true ∧ rb.bufferInfo.length ≠ 0)

section RingOk
variable {rb : RingBuffer} {bi : BufferInfo}

theorem ringOk_iff : RingOk P rb ↔ ∃ u, Counted P rb u := by
  constructor
  · rintro ⟨hM, ⟨q, hq⟩ | h⟩
    · exact ⟨⟨q.window.length, q.pending.length⟩, hM, .inl ⟨q, hq, rfl, rfl⟩⟩
    · exact ⟨⟨0, 0⟩, hM, .inr h⟩
  · rintro ⟨u, hM, ⟨q, hq, -⟩ | h⟩
    · exact ⟨hM, .inl ⟨q, hq⟩⟩
    · exact ⟨hM, .inr h⟩

theorem RingOk.step (h : RingOk P rb) (op : WindowOp (Put P)) : RingOk P (ringStep rb op) := by
  obtain ⟨u, hu⟩ := ringOk_iff.mp h
  exact ringOk_iff.mpr ⟨_, hu.step op⟩

/-- What the client knows of the ring does not change. -/
theorem target_ringStep (op : WindowOp (Put P)) :
    bdrGetTargetInfo P (ringStep rb op) = bdrGetTargetInfo P rb := by
  simp only [bdrGetTargetInfo, bdrRingBufferGetByteSize, maxWrites_ringStep]

/-- The window is the one the ring has handed out last, or the ring is flagged: either way a put
does not touch its slots. -/
def Guards (P : ℕ) (rb : RingBuffer) (bi : BufferInfo) : Prop :=
  rb.bufferInfo.maxWrites = bi.maxWrites ∧
    ((∃ q : WindowQueue (Put P), Refines rb q ∧ rb.bufferInfo.last = bi.offset ∧
        q.window.length = bi.length) ∨
      rb.bufferInfo.overflown = true)

/-- A read that is not flagged hands out a window. -/
theorem guards_read (h : RingOk P rb) (hf : rb.bufferInfo.overflown = false) :
    Guards P (bdrBufferReadRoutine rb).1 rb.bufferInfo := by
  obtain ⟨-, ⟨q, hq⟩ | ⟨hf', -⟩⟩ := h
  · refine ⟨maxWrites_ringStep (P := P) rb .read, .inl ⟨q.read, hq.read, ?_, hq.length_eq.symm⟩⟩
    rw [read_fst hq.flags]
  · cases hf.symm.trans hf'

theorem Guards.put (h : Guards P rb bi) (a : Put P) : Guards P (bdrRingBufferPut rb a).1 bi := by
  obtain ⟨hM, h⟩ := h
  refine ⟨(maxWrites_ringStep rb (.put a)).trans hM, ?_⟩
  rcases h with ⟨q, hq, hl, hw⟩ | hf
  · rcases hq.step (.put a) with h' | ⟨-, hf, -⟩
    · exact .inl ⟨_, h', (last_ringRun_puts rb [a]).trans hl, hw⟩
    · exact .inr hf
  · exact .inr (by rwa [put_of_overflown hf])

/-- What is in the slots of a window that the ring guards survives a put. -/
theorem Guards.decodeSlot_put {ti : TargetInfo} (h : Guards P rb bi)
    (hti : ti.writeInfoSize = bdrWriteInfoSize P) (a : Put P) {i : ℕ} (hi : i < bi.length) :
    decodeSlot ti (bdrRingBufferPut rb a).1.buffer bi i = decodeSlot ti rb.buffer bi i := by
  obtain ⟨hM, ⟨q, hq, hl, hw⟩ | hf⟩ := h
  · have hread : (bdrRingBufferPut rb a).1.buffer.read (getBufferInfoByteOffset ti bi i)
        ti.writeInfoSize = rb.buffer.read (getBufferInfoByteOffset ti bi i) ti.writeInfoSize := by
      refine List.map_congr_left fun j hj => ?_
      have hlen : i < q.toList.length := by
        rw [WindowQueue.toList, List.length_append]
        omega
      refine hq.put_frame a hlen ?_
      have hj' := List.mem_range.mp hj
      rw [InSlot, hl, hM, getBufferInfoByteOffset, hti]
      omega
    simp only [decodeSlot, Nat.add_sub_cancel_left, hread]
  · rw [put_of_overflown hf]

end RingOk

/-! ### Noticing an overflow -/

/-- `MonitorChanges` and `SendBuffer`, when they read `rb`, start a scan. -/
def Notices (rb : RingBuffer) : Prop :=
  ∀ (cfg : ClientConfig) (c : Client) (sent : Bool), c.shared.ring = rb →
    (c.monitor = .reading →
      c.moveMonitor cfg sent = some (c.setMonitor (.starting .resetting), [])) ∧
    (c.listener = .reading →
      c.moveListener cfg sent = some (c.setListener (.starting .overflow .resetting), []))

/-- The test for new writes comes first, and a flagged ring that has some passes it. -/
theorem notices_of_overflown {rb : RingBuffer} (hf : rb.bufferInfo.overflown = true)
    (hn : rb.bufferInfo.length ≠ 0) : Notices rb := by
  rintro cfg c sent rfl
  have hread := read_of_overflown hf
  constructor
  · intro hm
    simp only [moveMonitor, hm, hread, if_neg hn, hf, if_true]
    rfl
  · intro hl
    simp only [moveListener, hl, hread, if_neg hn, hf, if_true]
    rfl

/-- **Overflow is exact, fail-stop and noticed.**  Whatever has been put, read and reset, a put on
the unflagged ring fails just when the window handed out last and the pending writes fill all slots
but one, and then raises the flag and changes no slot.  On the flagged ring, whatever follows but a
reset, every put fails and every read returns the same cursors, which the client takes for an
overflow. -/
theorem overflow_exact {mem : Image UInt8} {M : ℕ} {rb₀ : RingBuffer}
    (hinit : bdrRingBufferInit mem M = some rb₀) (ops : List (WindowOp (Put P))) :
    ((ringRun rb₀ ops).bufferInfo.overflown = false → ∀ a : Put P,
      ((bdrRingBufferPut (ringRun rb₀ ops) a).2 = false ↔
        (usage rb₀ ⟨0, 0⟩ ops).window + (usage rb₀ ⟨0, 0⟩ ops).pending = M - 1) ∧
      ((bdrRingBufferPut (ringRun rb₀ ops) a).2 = false →
        (bdrRingBufferPut (ringRun rb₀ ops) a).1.bufferInfo.overflown = true ∧
        (bdrRingBufferPut (ringRun rb₀ ops) a).1.buffer = (ringRun rb₀ ops).buffer)) ∧
    ((ringRun rb₀ ops).bufferInfo.overflown = true →
      ∀ later : List (WindowOp (Put P)), (∀ op ∈ later, op ≠ .reset) →
        (∀ a : Put P, bdrRingBufferPut (ringRun rb₀ (ops ++ later)) a =
          (ringRun rb₀ (ops ++ later), false)) ∧
        (ringRun rb₀ (ops ++ later)).buffer = (ringRun rb₀ ops).buffer ∧
        (bdrBufferReadRoutine (ringRun rb₀ (ops ++ later))).2 = (ringRun rb₀ ops).bufferInfo ∧
        (ringRun rb₀ ops).bufferInfo.length ≠ 0 ∧ Notices (ringRun rb₀ (ops ++ later))) := by
  have hc := (counted_init (P := P) hinit).run ops
  have hM : (ringRun rb₀ ops).bufferInfo.maxWrites = M :=
    (maxWrites_ringRun rb₀ ops).trans (maxWrites_init hinit)
  constructor
  · intro hf a
    exact ⟨hM ▸ hc.put_fails_iff hf a, hc.put_fails hf⟩
  · intro hf later hlater
    have hn := hc.length_ne hf
    rw [ringRun_append, ringRun_of_overflown hf hlater]
    exact ⟨put_of_overflown hf, rfl, read_snd _, hn, notices_of_overflown hf hn⟩

/-- A ring of one slot refuses its first write. -/
theorem overflow_exact_oneSlot : ∃ rb₀, bdrRingBufferInit (fun _ => 0) 1 = some rb₀ ∧
    ∀ a : Put 4096, (bdrRingBufferPut rb₀ a).2 = false ∧ Notices (bdrRingBufferPut rb₀ a).1 := by
  obtain ⟨rb₀, hinit⟩ : ∃ rb₀, bdrRingBufferInit (fun _ => 0) 1 = some rb₀ := ⟨_, rfl⟩
  refine ⟨rb₀, hinit, fun a => ?_⟩
  have hf : rb₀.bufferInfo.overflown = false := by
    cases hinit
    rfl
  obtain ⟨hput, -⟩ := overflow_exact (P := 4096) hinit []
  obtain ⟨hiff, hflag⟩ := hput hf a
  have hfail : (bdrRingBufferPut rb₀ a).2 = false := hiff.mpr rfl
  obtain ⟨-, hlater⟩ := overflow_exact (P := 4096) hinit [.put a]
  obtain ⟨-, -, -, -, hnotice⟩ := hlater (hflag hfail).1 [] (by simp)
  exact ⟨hfail, hnotice⟩

end Bdr.Client
