import Bdr.Client.Ring

/-!
# Client — the writes on their way out

The writes that were captured since the ring was reset leave the client in the order they were
captured.  At every moment they are, oldest first, those that have been sent, those of the window
that some goroutine is still sending, and those pending in the ring (`Flow`).

That is so as long as the client is orderly (`Orderly`): the ring does not overflow, it is neither
read nor reset while a window is being sent, and no goroutine leaves its window before the end.
-/

namespace Bdr.Client

open Kern

variable {P : ℕ}

/-- What the writes do to an image. -/
def patches (as : List (Put P)) : List (Patch UInt8) := as.map fun a => (writeInfo a).patch

@[simp] theorem patches_nil : patches ([] : List (Put P)) = [] := rfl

@[simp] theorem patches_cons (a : Put P) (as : List (Put P)) :
    patches (a :: as) = (writeInfo a).patch :: patches as := rfl

@[simp] theorem patches_append (as bs : List (Put P)) :
    patches (as ++ bs) = patches as ++ patches bs := List.map_append

@[simp] theorem length_patches (as : List (Put P)) : (patches as).length = as.length :=
  List.length_map _

/-- The bytes past the size of a write do not matter. -/
theorem patch_of_effective {w : WriteInfo} {a : Put P} (h : effective w = writeInfo a) :
    w.patch = (writeInfo a).patch := by
  rw [← h]
  simp [BlockInfo.patch, effective]

/-- What has happened since the ring was reset: the source then, the writes that were captured, and
those that were sent. -/
structure Capture (P : ℕ) where
  base : Image UInt8
  captured : List (Put P)
  sent : List (Patch UInt8)

/-- What has happened after a move that sends `ps`. -/
def Capture.after (g : Capture P) (c : Client) (m : ClientMove P) (ps : List Packet) : Capture P :=
  match c.ringOp m with
  | some .reset => ⟨c.source, [], []⟩
  | some (.put a) => { g with captured := g.captured ++ [a] }
  | some .read | none => { g with sent := g.sent ++ writes ps }

/-! ### The window -/

def Monitor.window? : Monitor → Option Window
  | .processing w => some w
  | _ => none

def Listener.window? : Listener → Option Window
  | .processing w => some w
  | _ => none

/-- The windows that are being sent, by the listener or by the monitor. -/
def windows (c : Client) : List Window := c.listener.window?.toList ++ c.monitor.window?.toList

/-- What is known of the entry that `ProcessBufferInfo` is at. -/
def Processing.Holds (window : List (Put P)) (i : ℕ) : Processing → Prop
  | .looping => i ≤ window.length
  | .checking _ | .decoding => i < window.length
  | .encoding wi | .refused wi => ∃ a, window[i]? = some a ∧ wi.patch = (writeInfo a).patch

/-- The window is the one the ring has handed out. -/
structure Window.Of (w : Window) (rb : RingBuffer) (q : WindowQueue (Put P)) : Prop where
  offset : w.info.offset = rb.bufferInfo.last
  length : w.info.length = q.window.length
  maxWrites : w.info.maxWrites = rb.bufferInfo.maxWrites
  holds : w.pc.Holds q.window w.next

/-- The writes of the window that have not been sent. -/
def unsent (w : Option Window) (q : WindowQueue (Put P)) : List (Put P) :=
  w.elim [] fun w => q.window.drop w.next

/-- The ring holds `q`, and `w` is the window that is being sent. -/
structure Outgoing (rb : RingBuffer) (q : WindowQueue (Put P)) (w : Option Window) : Prop where
  refines : Refines rb q
  window : ∀ w' ∈ w, w'.Of rb q

/-- **The captured writes**, oldest first: sent, in the window, pending. -/
structure Flow (ti : TargetInfo) (c : Client) (g : Capture P) : Prop where
  target : ti = bdrGetTargetInfo P c.shared.ring
  source : c.source = g.base.applyAll (patches g.captured)
  ring : ∃ (q : WindowQueue (Put P)) (w : Option Window), c.windows = w.toList ∧
    Outgoing c.shared.ring q w ∧
    patches g.captured = g.sent ++ patches (unsent w q ++ q.pending)

/-- The client is orderly in a move. -/
structure Orderly (c : Client) (m : ClientMove P) : Prop where
  room : ∀ a, c.ringOp m = some (.put a) → (bdrRingBufferPut c.shared.ring a).2 = true
  alone : c.ringOp m = some .read ∨ c.ringOp m = some .reset → c.windows = []
  unpaused : ∀ w, c.monitor = .processing w → w.pc ≠ .checking (.putBack .paused)
  connected : c.windows ≠ [] → c.shared.state ≠ .reconnecting

/-! ### What a move does -/

section Move
variable {cfg : ClientConfig} {c c' : Client} {ps : List Packet} {m : ClientMove P}

theorem writes_startStep {s s' : Shared} {command : Command} {call : StartCall}
    {next : Option StartCall} (h : s.startStep command call = some (s', ps, next)) :
    writes ps = [] := by
  rcases startStep_packet h with ⟨rfl, -⟩ | ⟨-, rfl, -⟩
  · rfl
  · cases command <;> rfl

/-- Only an application writes to the source. -/
theorem source_move (h : c.move cfg m = some (c', ps)) :
    c'.source = match c.ringOp m with
      | some (.put a) => c.source.apply (writeInfo a).patch
      | _ => c.source := by
  by_cases hm : ∃ a, m = .write a
  · obtain ⟨a, rfl⟩ := hm
    cases h
    rfl
  · have hput : ∀ a, c.ringOp m ≠ some (.put a) := fun a ha => hm ⟨a, write_of_ringOp ha⟩
    have hsource : c'.source = c.source := by
      cases move_cases h with
      | write a => exact absurd ⟨a, rfl⟩ hm
      | listener _ h => cases h <;> rfl
      | @deliver packet _ _ => cases packet <;> rfl
      | dial => split <;> rfl
      | replicates _ h => cases h <;> rfl
      | _ => rfl
    rw [hsource]
    split
    · rename_i a hop
      exact absurd hop (hput a)
    · rfl

/-- But for a reset, what is sent is added to what has been sent. -/
theorem Capture.sent_after {g : Capture P} (h : c.move cfg m = some (c', ps))
    (hop : c.ringOp m ≠ some .reset) : (g.after c m ps).sent = g.sent ++ writes ps := by
  unfold Capture.after
  split
  · rename_i hreset
    exact absurd hreset hop
  · rename_i a hput
    cases write_of_ringOp hput
    cases h
    simp
  · rfl
  · rfl

/-- What has been captured is an earlier write, or the one that is made. -/
theorem Capture.mem_captured_after {g : Capture P} {a : Put P}
    (h : a ∈ (g.after c m ps).captured) : a ∈ g.captured ∨ m = .write a := by
  unfold Capture.after at h
  split at h
  · cases h
  · rename_i b hput
    rcases List.mem_append.mp h with h | h
    · exact .inl h
    · rw [List.mem_singleton.mp h]
      exact .inr (write_of_ringOp hput)
  · exact .inl h
  · exact .inl h

/-- But for a reset, what has been captured stays, and writes may come after it. -/
theorem Capture.captured_after (g : Capture P) (hop : c.ringOp m ≠ some .reset)
    (ps : List Packet) :
    (g.after c m ps).base = g.base ∧ ∃ more, (g.after c m ps).captured = g.captured ++ more ∧
      (c.ringOp m = some .read → more = []) := by
  unfold Capture.after
  split
  · rename_i hreset
    exact absurd hreset hop
  · rename_i a hput
    exact ⟨rfl, [a], rfl, fun hread => by cases hput.symm.trans hread⟩
  · exact ⟨rfl, [], (List.append_nil _).symm, fun _ => rfl⟩
  · exact ⟨rfl, [], (List.append_nil _).symm, fun _ => rfl⟩

/-- A step of `ProcessBufferInfo` by the listener or by the monitor. -/
structure Processes (cfg : ClientConfig) (c : Client) (m : ClientMove P) (ps : List Packet)
    (c' : Client) (w : Window) (next : Option Window) : Prop where
  step : ∃ (mainLoop sent : Bool),
    c.shared.processStep cfg.targetInfo mainLoop sent w = some (c'.shared, ps, next) ∧
      (mainLoop = true → c.monitor = .processing w)
  op : c.ringOp m = none
  windows : ∃ l r, c.windows = l ++ w :: r ∧ c'.windows = l ++ next.toList ++ r

/-- What a read of the ring gives a goroutine to send. -/
def readWindow (rb : RingBuffer) : Option Window :=
  if rb.bufferInfo.length = 0 then none
  else if rb.bufferInfo.overflown then none
  else some ⟨rb.bufferInfo, 0, .looping⟩

/-- The other moves send no buffer writes, and only a read of the ring brings a window. -/
structure Idles (c : Client) (m : ClientMove P) (ps : List Packet) (c' : Client) : Prop where
  writes : writes ps = []
  windows : c.ringOp m ≠ some .read → c'.windows = c.windows
  read : c.ringOp m = some .read → c.windows = [] →
    c'.windows = (readWindow c.shared.ring).toList

/-- Where nothing is read, sent or begun to be sent. -/
theorem Idles.of_eq (hps : Bdr.writes ps = []) (hop : c.ringOp m ≠ some .read)
    (hl : c'.listener.window? = c.listener.window?) (hm : c'.monitor.window? = c.monitor.window?) :
    Idles c m ps c' :=
  ⟨hps, fun _ => by rw [Client.windows, Client.windows, hl, hm], fun h => absurd h hop⟩

theorem StartCall.ringOp_ne_read (call : StartCall) :
    call.ringOp ≠ some (WindowOp.read : WindowOp (Put P)) := by
  cases call <;> simp [StartCall.ringOp]

theorem window?_read (rb : RingBuffer) (m : Monitor) (l : Listener)
    (hm : m = if (bdrBufferReadRoutine rb).2.length = 0 then .waiting .check
      else if (bdrBufferReadRoutine rb).2.overflown then .starting .resetting
      else .processing ⟨(bdrBufferReadRoutine rb).2, 0, .looping⟩)
    (hl : l = if (bdrBufferReadRoutine rb).2.length = 0 then .settingWriting
      else if (bdrBufferReadRoutine rb).2.overflown then .starting .overflow .resetting
      else .processing ⟨(bdrBufferReadRoutine rb).2, 0, .looping⟩) :
    m.window? = readWindow rb ∧ l.window? = readWindow rb := by
  rw [read_snd] at hm hl
  unfold readWindow
  subst hm hl
  split
  · exact ⟨rfl, rfl⟩
  · split <;> exact ⟨rfl, rfl⟩

/-- What the listener does to its window. -/
theorem listener_flows {sent : Bool} (h : ListenerMove cfg c ps c') :
    (∃ w next, Processes (P := P) cfg c (.listener sent) ps c' w next) ∨
      Idles (P := P) c (.listener sent) ps c' := by
  cases h with
  | enqueued hl _ | started hl _ | compared hl _ | ended hl _ | setWriting hl =>
      refine .inr (.of_eq rfl (by simp [ringOp, hl]) ?_ rfl)
      rw [hl]
      rfl
  | completed hl =>
      refine .inr (.of_eq rfl (by simp [ringOp, hl]) ?_ rfl)
      rw [hl]
      rfl
  | @resume call r hl _ =>
      refine .inr (.of_eq rfl (by simp [ringOp, hl]) ?_ rfl)
      rw [hl]
      cases r.2 <;> rfl
  | start hl hs | restarted hl hs | reconnected hl hs =>
      refine .inr (.of_eq (writes_startStep hs) ?_ ?_ rfl)
      · simp only [ringOp, hl]
        exact StartCall.ringOp_ne_read _
      · rw [hl]
        rfl
  | read hl =>
      refine .inr ⟨rfl, fun hop => absurd (by simp [ringOp, hl]) hop, fun _ hw => ?_⟩
      have hm : c.monitor.window? = none := by
        simpa [windows, hl, Listener.window?] using hw
      have hread := (window?_read c.shared.ring _ _ rfl rfl).2
      simp only [windows, setListener, setShared, hm, hread, Option.toList_none, List.append_nil]
  | @process w s _ next sent hl hs =>
      refine .inl ⟨w, next, ⟨⟨false, sent, hs, by simp⟩, by simp [ringOp, hl],
        [], c.monitor.window?.toList, by simp [windows, hl, Listener.window?], ?_⟩⟩
      cases next <;> rfl

theorem move_flows (h : c.move cfg m = some (c', ps)) :
    (∃ w next, Processes cfg c m ps c' w next) ∨ Idles c m ps c' := by
  cases move_cases h with
  | write a => exact .inr (.of_eq rfl (by simp [ringOp]) rfl rfl)
  | @run command call s ps next hrun hs =>
      refine .inr (.of_eq (writes_startStep hs) ?_ rfl rfl)
      simp only [ringOp, hrun, Option.bind_some]
      exact StartCall.ringOp_ne_read call
  | @monitorWaits _ call r _ hm hs =>
      refine .inr (.of_eq rfl (by simp [ringOp, hm]) rfl ?_)
      rw [hm]
      cases r.2 <;> rfl
  | monitorReads _ hm =>
      refine .inr ⟨rfl, fun hop => absurd (by simp [ringOp, hm]) hop, fun _ hw => ?_⟩
      have hl : c.listener.window? = none := by
        simpa [windows, hm, Monitor.window?] using hw
      have hread := (window?_read c.shared.ring _ _ rfl rfl).1
      simp only [windows, setMonitor, setShared, hl, hread, Option.toList_none, List.nil_append]
  | @monitorStarts _ call s ps next _ hm hs =>
      refine .inr (.of_eq (writes_startStep hs) ?_ rfl ?_)
      · simp only [ringOp, hm]
        exact StartCall.ringOp_ne_read call
      · rw [hm]
        cases next <;> rfl
  | @monitorProcesses sent w s ps next _ hm hs =>
      refine .inl ⟨w, next, ⟨⟨true, sent, hs, fun _ => hm⟩, by simp [ringOp, hm],
        c.listener.window?.toList, [], by simp [windows, hm, Monitor.window?], ?_⟩⟩
      rw [List.append_nil]
      cases next <;> rfl
  | listener _ h => exact listener_flows h
  | @deliver packet _ hl =>
      refine .inr (.of_eq rfl (by simp [ringOp]) ?_ ?_)
      · cases packet <;> simp [deliver, setListener, closeHashQueue, setHashing, hl,
          Listener.window?]
      · cases packet <;> rfl
  | eof _ hl =>
      refine .inr (.of_eq rfl (by simp [ringOp]) ?_ rfl)
      rw [hl]
      rfl
  | dial _ hl hps =>
      obtain ⟨info, rfl⟩ := hps
      refine .inr (.of_eq rfl (by simp [ringOp]) ?_ ?_)
      · rw [hl]
        split <;> rfl
      · split <;> rfl
  | @readerStarts i _ call s ps next _ hb hs =>
      refine .inr (.of_eq (writes_startStep hs) ?_ rfl rfl)
      simp only [ringOp, hb]
      exact StartCall.ringOp_ne_read call
  | hashes _ hnot hs =>
      refine .inr (.of_eq ?_ (by simp [ringOp_hashes hnot]) rfl rfl)
      rcases InitHashing.move_sends hs with rfl | ⟨block, rfl⟩ <;> rfl
  | replicates _ h =>
      cases h <;> exact .inr (.of_eq rfl (by simp [ringOp]) rfl rfl)

end Move

/-! ### The flow is kept -/

section Flow
variable {cfg : ClientConfig} {c c' : Client} {ps : List Packet} {m : ClientMove P}
variable {rb : RingBuffer} {q : WindowQueue (Put P)} {w : Window} {g : Capture P}

/-- The entry at hand is the put that the queue has there. -/
theorem Outgoing.decodeSlot (h : Outgoing rb q (some w)) (hi : w.next < q.window.length)
    {wi : WriteInfo}
    (hd : Client.decodeSlot (bdrGetTargetInfo P rb) rb.buffer w.info w.next = some wi) :
    ∃ a, q.window[w.next]? = some a ∧ wi.patch = (writeInfo a).patch := by
  have hof := h.window w rfl
  have hget : q.toList[w.next]? = some q.window[w.next] := by
    rw [WindowQueue.toList, List.getElem?_append_left hi, List.getElem?_eq_getElem hi]
  have hslot := h.refines.holds w.next _ hget
  rw [← hof.offset, ← hof.maxWrites] at hslot
  have hmap := byteOffset_in_mapping P h.refines.maxWrites_pos hof.maxWrites w.next
  obtain ⟨wi', hwi, heff⟩ := decodeSlot_of_slotHolds rfl rfl hmap hslot
  cases hwi.symm.trans hd
  exact ⟨_, List.getElem?_eq_getElem hi, patch_of_effective heff⟩

/-- A step of `ProcessBufferInfo` sends the entry it is at, and leaves its window only at the
end. -/
theorem Outgoing.process {s s' : Shared} {mainLoop sent : Bool} {next : Option Window}
    (h : Outgoing s.ring q (some w))
    (hs : s.processStep (bdrGetTargetInfo P s.ring) mainLoop sent w = some (s', ps, next))
    (hpause : mainLoop = true → w.pc ≠ .checking (.putBack .paused))
    (hconn : s.state ≠ .reconnecting) :
    Outgoing s'.ring q next ∧
      patches (unsent (some w) q) = writes ps ++ patches (unsent next q) := by
  rw [(shared_processStep hs).1]
  obtain ⟨hoff, hlen, hmax, hholds⟩ := h.window w rfl
  obtain ⟨info, i, pc⟩ := w
  have hstay : ∀ pc', Processing.Holds q.window i pc' →
      Outgoing s.ring q (some ⟨info, i, pc'⟩) ∧ patches (unsent (some ⟨info, i, pc⟩) q) =
        writes [] ++ patches (unsent (some ⟨info, i, pc'⟩) q) := by
    intro pc' hpc
    refine ⟨⟨h.refines, ?_⟩, rfl⟩
    rintro _ ⟨⟩
    exact ⟨hoff, hlen, hmax, hpc⟩
  cases pc with
  | looping =>
      cases hs
      simp only at hlen
      by_cases hi : i < info.length
      · simp only [if_pos hi]
        exact hstay _ (show i < q.window.length by rwa [← hlen])
      · simp only [if_neg hi]
        refine ⟨⟨h.refines, by rintro _ ⟨⟩⟩, ?_⟩
        simp [unsent, List.drop_eq_nil_of_le (show q.window.length ≤ i by omega)]
  | checking call =>
      obtain ⟨⟨p, r⟩, hp, heq⟩ := Option.map_eq_some_iff.mp hs
      cases heq
      cases r with
      | inl call' => exact hstay _ hholds
      | inr paused =>
          -- the monitor would leave its window if it found the controller paused
          have hgo : (paused && mainLoop) = false := by
            by_contra hgo
            obtain ⟨rfl, rfl⟩ : paused = true ∧ mainLoop = true := by simpa using hgo
            exact hpause rfl (congrArg Processing.checking (Pause.putBack_of_step hp))
          simp only [hgo, Bool.false_eq_true, if_false]
          exact hstay _ hholds
  | decoding =>
      obtain ⟨wi, hwi, heq⟩ := Option.map_eq_some_iff.mp hs
      cases heq
      exact hstay _ (h.decodeSlot hholds hwi)
  | encoding wi =>
      simp only [Shared.processStep] at hs
      split at hs
      · cases hs
        obtain ⟨a, ha, hpatch⟩ := hholds
        obtain ⟨hi, rfl⟩ := List.getElem?_eq_some_iff.mp ha
        refine ⟨⟨h.refines, ?_⟩, ?_⟩
        · rintro _ ⟨⟩
          exact ⟨hoff, hlen, hmax, hi⟩
        · simp only [unsent, Option.elim_some, List.drop_eq_getElem_cons hi, patches_cons,
            writes_cons_bufferWrite, hpatch]
          rfl
      · cases hs
        exact hstay _ hholds
  | refused wi =>
      simp only [Shared.processStep, if_neg hconn] at hs
      cases hs
      exact hstay _ hholds

/-- A read hands the pending writes out. -/
theorem Outgoing.read (h : Outgoing rb q none) :
    Outgoing (bdrBufferReadRoutine rb).1 q.read (readWindow rb) ∧
      unsent (readWindow rb) q.read = q.pending := by
  have hf := overflown_of_flags h.refines.flags
  simp only [readWindow, hf, Bool.false_eq_true, if_false]
  split
  · rename_i hzero
    refine ⟨⟨h.refines.read, by rintro _ ⟨⟩⟩, ?_⟩
    rw [List.length_eq_zero_iff.mp (h.refines.length_eq.symm.trans hzero)]
    rfl
  · refine ⟨⟨h.refines.read, ?_⟩, rfl⟩
    rintro _ ⟨⟩
    rw [read_fst h.refines.flags]
    exact ⟨rfl, h.refines.length_eq, rfl, Nat.zero_le _⟩

/-- A put that is taken goes behind the pending writes. -/
theorem Outgoing.put {w : Option Window} (h : Outgoing rb q w) {a : Put P}
    (ha : (bdrRingBufferPut rb a).2 = true) :
    Outgoing (bdrRingBufferPut rb a).1 (q.put a) w := by
  have hr : q.toList.length + 1 ≠ rb.bufferInfo.maxWrites := by
    intro hr
    rw [put_of_full h.refines hr] at ha
    cases ha
  refine ⟨h.refines.put hr a, fun w' hw' => ?_⟩
  rw [put_of_room h.refines hr]
  exact { h.window w' hw' with }

/-- **The captured writes leave in order**, one move of the client. -/
theorem Flow.move (h : Flow cfg.targetInfo c g) (hm : c.Orderly m)
    (hs : c.move cfg m = some (c', ps)) : Flow cfg.targetInfo c' (g.after c m ps) := by
  obtain ⟨htarget, hsource, q, w, hw, hout, hflow⟩ := h
  have hring := ring_move hs
  have hsrc := source_move hs
  refine ⟨?_, ?_, ?_⟩
  · rw [hring]
    cases c.ringOp m with
    | none => exact htarget
    | some op => exact htarget.trans (target_ringStep op).symm
  · rw [hsrc, Capture.after]
    cases c.ringOp m with
    | none => exact hsource
    | some op =>
        cases op with
        | put a =>
            simp only [patches_append, Image.applyAll_append, ← hsource]
            rfl
        | read => exact hsource
        | reset => rfl
  · rcases move_flows hs with ⟨w', next, hp⟩ | hi
    · obtain ⟨⟨mainLoop, sent, hstep, hmain⟩, hop, l, r, hwin, hwin'⟩ := hp
      -- the window is the only one
      obtain ⟨rfl, rfl, rfl⟩ : l = [] ∧ r = [] ∧ w = some w' := by
        cases w with
        | none => simp [hwin] at hw
        | some v =>
            rw [hwin] at hw
            cases l with
            | nil => simpa [eq_comm, and_comm] using hw
            | cons u l => simp at hw
      have hconn := hm.connected (by rw [hwin]; simp)
      rw [htarget] at hstep
      obtain ⟨hout', hsent⟩ := hout.process hstep (fun hb => hm.unpaused w' (hmain hb)) hconn
      refine ⟨q, next, by simpa using hwin', hout', ?_⟩
      simp only [Capture.after, hop]
      rw [hflow, patches_append, hsent]
      simp
    · cases hop : c.ringOp m with
      | none =>
          refine ⟨q, w, (hi.windows (by simp [hop])).trans hw, ?_, ?_⟩
          · rw [hring, hop]
            exact hout
          · simpa [Capture.after, hop, hi.writes] using hflow
      | some op =>
          cases op with
          | put a =>
              refine ⟨q.put a, w, (hi.windows (by simp [hop])).trans hw, ?_, ?_⟩
              · rw [hring, hop]
                exact hout.put (hm.room a hop)
              · simp only [Capture.after, hop, patches_append, hflow, WindowQueue.put]
                simp [unsent]
          | read =>
              have hnone := hm.alone (.inl hop)
              obtain rfl : w = none := Option.toList_eq_nil_iff.mp (hw.symm.trans hnone)
              obtain ⟨hout', hunsent⟩ := hout.read
              refine ⟨q.read, _, hi.read hop hnone, ?_, ?_⟩
              · rw [hring, hop]
                exact hout'
              · rw [hunsent]
                simp only [Capture.after, hop, hi.writes, WindowQueue.read, List.append_nil]
                exact hflow
          | reset =>
              have hnone := hm.alone (.inr hop)
              refine ⟨.empty, none, (hi.windows (by simp [hop])).trans hnone, ⟨?_, ?_⟩, ?_⟩
              · rw [hring, hop]
                exact refines_reset hout.refines.maxWrites_pos
              · rintro _ ⟨⟩
              · simp [Capture.after, hop, unsent, WindowQueue.empty]

end Flow

/-! ### The monitor and the controller -/

/-- The controller holds the monitor: it is paused, or the monitor has found it so. -/
def Monitor.Held (m : Monitor) (p : Pause) : Prop :=
  m = .waiting .check ∧ p.stateChan = some .paused ∨ m = .waiting .wait ∧ p.stateChan = none

/-- The controller does not hold the monitor, and the monitor is not about to start a scan. -/
structure Monitor.Free (m : Monitor) (p : Pause) : Prop where
  chan : p.stateChan ≠ some .paused
  waiting : ∀ call, m = .waiting call → call = .check ∨ call = .wait
  starting : ∀ call, m ≠ .starting call
  checking : ∀ w call, m = .processing w → w.pc = .checking call →
    call = .rlock ∨ call = .receive ∨ call = .putBack .running

section Monitor
variable {p : Pause} {call : PauseCall} {r : Pause × (PauseCall ⊕ Bool)}

theorem Monitor.Held.waits (h : Held (.waiting call) p) (hs : p.step call = some r) :
    Held (r.2.elim .waiting fun _ => .reading) r.1 := by
  rcases h with ⟨hm, hp⟩ | ⟨hm, hp⟩
  · cases hm
    simp only [Pause.step, hp] at hs
    cases hs
    exact .inr ⟨rfl, rfl⟩
  · cases hm
    simp only [Pause.step, hp] at hs
    cases hs

theorem Monitor.Free.waits (h : Free (.waiting call) p) (hs : p.step call = some r) :
    Free (r.2.elim .waiting fun _ => .reading) r.1 := by
  have hchan := h.chan
  have hread : ∀ p' : Pause, p'.stateChan = none → Free .reading p' := fun p' hp' =>
    ⟨by simp [hp'], by rintro _ ⟨⟩, by rintro _ ⟨⟩, by rintro _ _ ⟨⟩⟩
  rcases h.waiting call rfl with rfl | rfl
  · simp only [Pause.step] at hs
    split at hs
    · rename_i hp
      exact absurd hp hchan
    · cases hs
      exact hread _ rfl
    · rename_i hp
      cases hs
      exact hread _ hp
  · simp only [Pause.step] at hs
    split at hs
    · rename_i hp
      exact absurd hp hchan
    · cases hs
      exact hread _ rfl
    · cases hs

/-- A ring that is not flagged gives the monitor a window, or nothing. -/
theorem Monitor.Free.reads {bi : BufferInfo} (h : Free .reading p) (hf : bi.overflown = false) :
    Free (if bi.length = 0 then .waiting .check else if bi.overflown then .starting .resetting
      else .processing ⟨bi, 0, .looping⟩) p := by
  simp only [hf, Bool.false_eq_true, if_false]
  split
  · exact ⟨h.chan, by rintro _ ⟨⟩; exact .inl rfl, by rintro _ ⟨⟩, by rintro _ _ ⟨⟩⟩
  · exact ⟨h.chan, by rintro _ ⟨⟩, by rintro _ ⟨⟩, by rintro _ _ ⟨⟩ ⟨⟩⟩

/-- `IsPaused` finds that the controller is not paused. -/
theorem Monitor.Free.processes {ti : TargetInfo} {s s' : Shared} {ps : List Packet} {sent : Bool}
    {w : Window} {next : Option Window} (h : Free (.processing w) s.pause)
    (hs : s.processStep ti true sent w = some (s', ps, next)) :
    Free (next.elim (.waiting .check) .processing) s'.pause := by
  have hdone : ∀ p' : Pause, p'.stateChan ≠ some .paused → Free (.waiting .check) p' :=
    fun p' hp' => ⟨hp', by rintro _ ⟨⟩; exact .inl rfl, by rintro _ ⟨⟩, by rintro _ _ ⟨⟩⟩
  have hgo : ∀ (p' : Pause) (w' : Window), p'.stateChan ≠ some .paused →
      (∀ call, w'.pc = .checking call →
        call = .rlock ∨ call = .receive ∨ call = .putBack .running) → Free (.processing w') p' := by
    intro p' w' hp' hw'
    refine ⟨hp', by rintro _ ⟨⟩, by rintro _ ⟨⟩, ?_⟩
    rintro _ call ⟨⟩ hcall
    exact hw' call hcall
  have hchan := h.chan
  obtain ⟨info, i, pc⟩ := w
  cases pc with
  | looping =>
      cases hs
      split
      · refine hgo _ _ hchan ?_
        rintro _ ⟨⟩
        exact .inl rfl
      · exact hdone _ hchan
  | checking call =>
      obtain ⟨⟨p, r⟩, hp, heq⟩ := Option.map_eq_some_iff.mp hs
      cases heq
      rcases h.checking _ call rfl rfl with rfl | rfl | rfl
      · obtain ⟨-, heq⟩ := Option.ite_none_right_eq_some.mp hp
        cases heq
        refine hgo _ _ hchan ?_
        rintro _ ⟨⟩
        exact .inr (.inl rfl)
      · simp only [Pause.step] at hp
        split at hp
        · rename_i v hv
          cases hp
          refine hgo _ _ (by simp [Pause.take]) ?_
          rintro _ ⟨⟩
          cases v with
          | running => exact .inr (.inr rfl)
          | paused => exact absurd hv hchan
        · cases hp
          exact hgo _ _ hchan (by rintro _ ⟨⟩)
      · obtain ⟨-, heq⟩ := Option.ite_none_right_eq_some.mp hp
        cases heq
        exact hgo _ _ (by simp) (by rintro _ ⟨⟩)
  | decoding =>
      obtain ⟨wi, -, heq⟩ := Option.map_eq_some_iff.mp hs
      cases heq
      exact hgo _ _ hchan (by rintro _ ⟨⟩)
  | encoding wi =>
      simp only [Shared.processStep] at hs
      split at hs <;> cases hs <;> exact hgo _ _ hchan (by rintro _ ⟨⟩)
  | refused wi =>
      simp only [Shared.processStep] at hs
      split at hs <;> cases hs
      · exact hdone _ hchan
      · exact hgo _ _ hchan (by rintro _ ⟨⟩)

end Monitor

/-! ### A command under way -/

/-- The controller is paused when a command sets the state. -/
def StartCall.Ready (p : Pause) : StartCall → Prop
  | .resetting => True
  | .pausing call => call = .lock .paused ∨ call = .drain .paused ∨ call = .send .paused
  | .settingState | .sending => p.stateChan = some .paused

/-- `Run` is in its command, and has not started the goroutines. -/
structure Commanding (command : Command) (c : Client) : Prop where
  run : ∃ call, c.run = some (command, call) ∧ call.Ready c.shared.pause
  monitor : c.monitor = .waiting .check
  listener : c.listener = .receiving
  connected : c.shared.state ≠ .reconnecting
  readers : c.hashing.readers.workers = []
  hashing : c.hashing.Quiet
  replication : c.replication = .idle

section Commanding
variable {command : Command} {cfg : ClientConfig} {c c' : Client} {m : ClientMove P}
variable {ps : List Packet}

theorem commanding_start (command : Command) (ring : RingBuffer) (source : Image UInt8) :
    (start (some command) ring source).Commanding command where
  run := ⟨.resetting, rfl, trivial⟩
  monitor := rfl
  listener := rfl
  connected := by simp [start]
  readers := rfl
  hashing := InitHashing.quiet_start 0
  replication := rfl

theorem ready_startStep {s s' : Shared} {call : StartCall} {next : Option StartCall}
    (h : call.Ready s.pause) (hs : s.startStep command call = some (s', ps, next)) :
    ∀ call' ∈ next, call'.Ready s'.pause := by
  cases call with
  | resetting =>
      cases hs
      rintro _ ⟨⟩
      exact .inl rfl
  | settingState =>
      cases hs
      rintro _ ⟨⟩
      exact h
  | sending =>
      cases hs
      rintro _ ⟨⟩
  | pausing call =>
      obtain ⟨r, hr, heq⟩ := Option.map_eq_some_iff.mp hs
      cases heq
      rcases h with rfl | rfl | rfl
      · obtain ⟨-, heq⟩ := Option.ite_none_right_eq_some.mp hr
        cases heq
        rintro _ ⟨⟩
        exact .inr (.inl rfl)
      · cases hr
        rintro _ ⟨⟩
        exact .inr (.inr rfl)
      · obtain ⟨-, heq⟩ := Option.ite_none_right_eq_some.mp hr
        cases heq
        rintro _ ⟨⟩
        rfl

/-- **Nothing but the command moves**: it goes on, or it sends its packet and returns. -/
theorem Commanding.move (h : c.Commanding command) (hs : c.move cfg m = some (c', ps)) :
    (c'.Commanding command ∧ ps = []) ∨
      c.shared.pause.stateChan = some .paused ∧ ps = [command.packet] ∧
        (m = .run ∧ c.run = some (command, .sending)) ∧
        c' = { c with
          run := none
          replication := if command = .fullReplicate then .start cfg.numWorkers
            else c.replication } := by
  obtain ⟨call, hrun, hready⟩ := h.run
  have hbusy : c.run ≠ none := by simp [hrun]
  cases move_cases hs with
  | write a => exact .inl ⟨{ h with }, rfl⟩
  | @run command' call' s ps next hrun' hstep =>
      cases hrun.symm.trans hrun'
      rcases startStep_packet hstep with ⟨rfl, call', rfl⟩ | ⟨rfl, rfl, rfl, rfl⟩
      · refine .inl ⟨{ h with
          run := ⟨call', rfl, ready_startStep hready hstep call' rfl⟩
          connected := fun hr => h.connected (reconnecting_startStep hstep hr).1
          replication := ?_ }, rfl⟩
        simp only [reduceCtorEq, false_and, if_false]
        exact h.replication
      · refine .inr ⟨hready, rfl, ⟨rfl, hrun⟩, ?_⟩
        simp [setShared]
  | monitorWaits hnone | monitorReads hnone | monitorStarts hnone | monitorProcesses hnone
  | listener hnone | deliver hnone | eof hnone | dial hnone | readerStarts hnone | hashes hnone
  | replicates hnone => exact absurd hnone hbusy

theorem Commanding.windows (h : c.Commanding command) : c.windows = [] := by
  simp [Client.windows, h.listener, h.monitor, Listener.window?, Monitor.window?]

theorem Commanding.orderly (h : c.Commanding command)
    (hroom : ∀ a, m = .write a → (bdrRingBufferPut c.shared.ring a).2 = true) : c.Orderly m where
  room a ha := hroom a (write_of_ringOp ha)
  alone _ := h.windows
  unpaused w hw := by cases h.monitor.symm.trans hw
  connected hne := absurd h.windows hne

end Commanding

end Bdr.Client
