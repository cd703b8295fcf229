import Bdr.Client.Client
import Bdr.Support.Runs

/-!
# Client — Resync

Which windows of the ring the client's writes come from.  When `StartHashing` has sent its command
the writes captured before it are covered by the scan: no entry of a window read before may follow
the command, and until the scan is over the monitor must not send any.  The client relies on the
pause controller for that: the monitor looks at it before it reads the ring, and again before each
entry of its window.

This is not enough.  The monitor may be anywhere between that look and its `Encode` when the
listener, which has lost the connection, sends the command on a new one; and it may look at the
controller at the moment in which the listener's own `IsPaused` has taken the token out.  In runs
in which neither happens there is no stale write: while a scan is under way the controller is
`Shut`, and the monitor waits.
-/

namespace Bdr.Client

open Kern

/-! ### The calls of the goroutines -/

def StartCall.call : StartCall → Option PauseCall
  | .pausing call => some call
  | _ => none

/-- The command has emptied the channel, and has not sent its packet. -/
def StartCall.shutting : StartCall → Bool
  | .pausing (.send _) | .settingState | .sending => true
  | _ => false

def Window.call (w : Window) : Option PauseCall :=
  match w.pc with
  | .checking call => some call
  | _ => none

def Monitor.call : Monitor → Option PauseCall
  | .waiting call => some call
  | .starting call => call.call
  | .processing w => w.call
  | .reading => none

def Monitor.shutting : Monitor → Bool
  | .starting call => call.shutting
  | _ => false

/-- The monitor is in `WaitIfPaused`. -/
def Monitor.waits : Monitor → Bool
  | .waiting _ => true
  | _ => false

theorem Monitor.exists_of_waits {m : Monitor} (h : m.waits = true) : ∃ call, m = .waiting call := by
  cases m with
  | waiting call => exact ⟨call, rfl⟩
  | _ => cases h

/-- The function of the controller the monitor may be in. -/
def Monitor.kind : Monitor → PauseKind
  | .starting _ => .pause
  | .processing _ => .isPaused
  | .waiting _ | .reading => .waitIfPaused

def Listener.call : Listener → Option PauseCall
  | .processing w => w.call
  | .resuming call => some call
  | .starting _ call => call.call
  | _ => none

def Listener.shutting : Listener → Bool
  | .starting _ call => call.shutting
  | _ => false

/-- The listener is about to send its command. -/
def Listener.sends : Listener → Bool
  | .starting _ .sending => true
  | _ => false

/-- The function of the controller the listener may be in. -/
def Listener.kind : Listener → PauseKind
  | .starting _ _ => .pause
  | .resuming _ => .resume
  | _ => .isPaused

def runCall (c : Client) : Option PauseCall := c.run.bind fun r => r.2.call

def runShutting (c : Client) : Bool := c.run.any fun r => r.2.shutting

/-- The calls of the pause controller that are under way. -/
def calls (c : Client) : List PauseCall :=
  c.monitor.call.toList ++ (c.listener.call.toList ++ c.runCall.toList)

/-- A step of a goroutine as far as the controller is concerned: it goes on in its call, and if it
has emptied the channel for `Pause` the controller is shut. -/
structure PauseStep (p : Pause) (o : Option PauseCall) (sh : Bool) (p' : Pause)
    (o' : Option PauseCall) (sh' : Bool) : Prop where
  goes : Pause.Goes p o p' o'
  shut : ∀ rest, p.Locks (o.toList ++ rest) → (sh = true → p.Shut (o.toList ++ rest)) →
    sh' = true → p'.Shut (o'.toList ++ rest)

section Steps
variable {cfg : ClientConfig} {c c' : Client} {ps : List Packet} {s s' : Shared}

theorem startStep_pauses {command : Command} {call : StartCall} {next : Option StartCall}
    (h : s.startStep command call = some (s', ps, next))
    (hk : ∀ pc ∈ call.call, pc.kind = .pause) :
    PauseStep s.pause call.call call.shutting s'.pause (next.bind StartCall.call)
      (next.any StartCall.shutting) ∧ ∀ call' ∈ next, ∀ pc ∈ call'.call, pc.kind = .pause := by
  cases call with
  | resetting =>
      cases h
      refine ⟨⟨.stay ?_, fun _ _ _ => by rintro ⟨⟩⟩, ?_⟩
      · rintro _ ⟨⟩
        rfl
      · rintro _ ⟨⟩ _ ⟨⟩
        rfl
  | settingState =>
      cases h
      refine ⟨⟨.stay (by rintro _ ⟨⟩), fun _ _ hs _ => hs rfl⟩, ?_⟩
      rintro _ ⟨⟩ _ ⟨⟩
  | sending =>
      cases h
      exact ⟨⟨.stay (by rintro _ ⟨⟩), fun _ _ _ => by rintro ⟨⟩⟩, by rintro _ ⟨⟩⟩
  | pausing call =>
      obtain ⟨⟨p', r⟩, hp, heq⟩ := Option.map_eq_some_iff.mp h
      cases heq
      have hkind : call.kind = .pause := hk call rfl
      cases r with
      | inl call' =>
          refine ⟨⟨.next hp, fun rest hl hs hs' => ?_⟩, ?_⟩
          · -- the channel is empty once `Pause` is about to send
            cases call with
            | drain v =>
                cases v with
                | running => cases hkind
                | paused => exact Pause.shut_drain hl hp
            | lock v => cases (Option.ite_none_right_eq_some.mp hp).2; cases hs'
            | send v => cases (Option.ite_none_right_eq_some.mp hp).2
            | _ => cases hkind
          · rintro _ ⟨⟩ _ ⟨⟩
            exact (Pause.kind_step hp).trans hkind
      | inr b =>
          refine ⟨⟨.ret hp (by rintro _ ⟨⟩), fun rest hl hs _ => ?_⟩, by rintro _ ⟨⟩ _ ⟨⟩⟩
          -- only the last step of `Pause` returns, and it had emptied the channel
          cases call with
          | send v =>
              refine Pause.Shut.step (hs rfl) (by simp) hp
          | lock v => cases (Option.ite_none_right_eq_some.mp hp).2
          | drain v => cases hp
          | _ => cases hkind

theorem processStep_pauses {ti : TargetInfo} {mainLoop sent : Bool} {w : Window}
    {next : Option Window} (h : s.processStep ti mainLoop sent w = some (s', ps, next))
    (hk : ∀ pc ∈ w.call, pc.kind = .isPaused) :
    Pause.Goes s.pause w.call s'.pause (next.bind Window.call) ∧
      ∀ w' ∈ next, ∀ pc ∈ w'.call, pc.kind = .isPaused := by
  obtain ⟨info, i, pc⟩ := w
  cases pc with
  | looping =>
      simp only [Shared.processStep] at h
      cases h
      split
      · refine ⟨.stay ?_, ?_⟩
        · rintro _ ⟨⟩
          rfl
        · rintro _ ⟨⟩ _ ⟨⟩
          rfl
      · exact ⟨.stay (by rintro _ ⟨⟩), by rintro _ ⟨⟩⟩
  | checking call =>
      obtain ⟨⟨p', r⟩, hp, heq⟩ := Option.map_eq_some_iff.mp h
      cases heq
      cases r with
      | inl call' =>
          refine ⟨.next hp, ?_⟩
          rintro _ ⟨⟩ _ ⟨⟩
          exact (Pause.kind_step hp).trans (hk call rfl)
      | inr b =>
          dsimp only
          split
          · exact ⟨.ret hp (by rintro _ ⟨⟩), by rintro _ ⟨⟩⟩
          · exact ⟨.ret hp (by rintro _ ⟨⟩), by rintro _ ⟨⟩ _ ⟨⟩⟩
  | decoding =>
      obtain ⟨wi, -, heq⟩ := Option.map_eq_some_iff.mp h
      cases heq
      exact ⟨.stay (by rintro _ ⟨⟩), by rintro _ ⟨⟩ _ ⟨⟩⟩
  | encoding wi =>
      simp only [Shared.processStep] at h
      split at h <;> cases h <;> exact ⟨.stay (by rintro _ ⟨⟩), by rintro _ ⟨⟩ _ ⟨⟩⟩
  | refused wi =>
      simp only [Shared.processStep] at h
      cases h
      split
      · exact ⟨.stay (by rintro _ ⟨⟩), by rintro _ ⟨⟩⟩
      · exact ⟨.stay (by rintro _ ⟨⟩), by rintro _ ⟨⟩ _ ⟨⟩⟩

end Steps

/-! ### Runs -/

/-- The commands that start a scan among the packets. -/
def scans (ps : List Packet) : ℕ :=
  ps.countP fun p => p = .cmdStartHashing ∨ p = .cmdStartFullScan

/-- A client, how many scans it has started, whether the monitor has been resumed since the last
was, and what both of these were when the monitor and the listener last read the ring. -/
structure Traced where
  client : Client
  epoch : ℕ
  resumed : Bool
  monitorRead : ℕ × Bool
  listenerRead : ℕ

namespace Traced

/-- A client that has not started a scan. -/
def start (c : Client) : Traced := ⟨c, 0, true, (0, true), 0⟩

section Step
variable {P : ℕ} (cfg : ClientConfig) (t : Traced)

/-- `Resume` is about to empty the channel. -/
def Resumes : ClientMove P → Bool
  | .listener _ => t.client.listener = .resuming (.drain .running)
  | _ => false

def readByMonitor : ClientMove P → ℕ × Bool
  | .monitor _ => if t.client.monitor = .reading then (t.epoch, t.resumed) else t.monitorRead
  | _ => t.monitorRead

def readByListener : ClientMove P → ℕ
  | .listener _ => if t.client.listener = .reading then t.epoch else t.listenerRead
  | _ => t.listenerRead

/-- What is recorded of a move. -/
def after (m : ClientMove P) (r : Client × List Packet) : Traced where
  client := r.1
  epoch := t.epoch + scans r.2
  resumed := scans r.2 = 0 && (t.resumed || t.Resumes m)
  monitorRead := t.readByMonitor m
  listenerRead := t.readByListener m

def step (m : ClientMove P) : Option Traced := (t.client.move cfg m).map (t.after m)

/-- Whoever makes the move has read its window after the last command, and if it is the monitor
after the `Resume` that followed. -/
def Fresh : ClientMove P → Prop
  | .monitor _ => t.monitorRead = (t.epoch, true)
  | .listener _ => t.listenerRead = t.epoch
  | _ => False

/-- The next buffer write, whoever sends it, is not a stale one. -/
def NoStale (P : ℕ) : Prop :=
  ∀ (m : ClientMove P) c ps w, t.client.move cfg m = some (c, ps) → .payloadBufferWrite w ∈ ps →
    t.Fresh m

/-- The listener sends its command only when the monitor is in `WaitIfPaused`; during a scan the
monitor does not look at the channel while a call of the listener has the token; the server reports
completion only of a scan it was asked for; and no reader fails. -/
def careful : ClientMove P → Prop
  | .listener _ => t.client.listener.sends = true → t.client.monitor.waits = true
  | .monitor _ => t.client.monitor = .waiting .check → t.resumed = false →
      t.client.listener.call.any PauseCall.holds = false
  | .deliver packet => packet = .infoHashingCompleted → t.resumed = false
  | .hashing (.reader _ failed) => failed = false
  | _ => True

instance : (m : ClientMove P) → Decidable (t.careful m)
  | .listener _ => inferInstanceAs (Decidable (_ → _))
  | .monitor _ => inferInstanceAs (Decidable (_ → _ → _))
  | .deliver _ => inferInstanceAs (Decidable (_ → _))
  | .hashing (.reader _ _) => inferInstanceAs (Decidable (_ = _))
  | .hashing .closeWork | .hashing (.worker _) | .hashing .closeComp | .hashing (.comparer _)
  | .run | .eof | .dial | .replication _ | .write _ => inferInstanceAs (Decidable True)

end Step

/-- The listener is finishing a scan, and has not resumed the monitor. -/
def finishing : Listener → Bool
  | .draining .hashingCompleted | .reading | .processing _ | .settingWriting
  | .resuming (.lock _) | .resuming (.drain _) => true
  | _ => false

/-- No reader of `InitHashing` is starting a scan. -/
def NoneFails (h : InitHashing) : Prop :=
  h.readers.All (fun _ => True) fun r => ∀ call, r ≠ .starting call

theorem noneFails_start (n : ℕ) : NoneFails (.start n) := Pool.all_start n

/-- What holds throughout. -/
structure Sync (t : Traced) : Prop where
  idle : t.client.replication.phase = .idle
  readers : NoneFails t.client.hashing
  monitorKind : ∀ call ∈ t.client.monitor.call, call.kind = t.client.monitor.kind
  listenerKind : ∀ call ∈ t.client.listener.call, call.kind = t.client.listener.kind
  run : ∀ command call, t.client.run = some (command, call) → command ≠ .fullReplicate ∧
    (∀ pc ∈ call.call, pc.kind = .pause) ∧ t.client.monitor = .waiting .check ∧
    t.client.listener = .receiving
  locks : t.client.shared.pause.Locks t.client.calls
  shut : (t.resumed = false ∨ t.client.monitor.shutting = true ∨
    t.client.listener.shutting = true ∨ t.client.runShutting = true) →
    t.client.shared.pause.Shut t.client.calls
  blocked : t.resumed = false → ∃ call, t.client.monitor = .waiting call
  finishing : Traced.finishing t.client.listener = true → t.resumed = false
  monitorFresh : ∀ w, t.client.monitor = .processing w → t.monitorRead = (t.epoch, true)
  listenerFresh : ∀ w, t.client.listener = .processing w → t.listenerRead = t.epoch

section Preserved
variable {cfg : ClientConfig} {t : Traced} {c' : Client} {ps : List Packet} {sent : Bool}

/-- A goroutine takes a step in its place among the calls. -/
theorem slot {p p' : Pause} {o o' : Option PauseCall} {sh sh' : Bool} {rest : List PauseCall}
    (other : Prop) (hl : p.Locks (o.toList ++ rest)) (hs : PauseStep p o sh p' o' sh')
    (hk : o ≠ some (.drain .running)) (h : other ∨ sh = true → p.Shut (o.toList ++ rest)) :
    p'.Locks (o'.toList ++ rest) ∧ (other ∨ sh' = true → p'.Shut (o'.toList ++ rest)) := by
  refine ⟨hl.goes hs.goes, ?_⟩
  rintro (ho | hsh)
  · exact (h (.inl ho)).goes hk hs.goes
  · exact hs.shut rest hl (fun hsh => h (.inr hsh)) hsh

theorem ne_drain_running {o : Option PauseCall} {k : PauseKind} (h : ∀ call ∈ o, call.kind = k)
    (hk : k ≠ .resume) : o ≠ some (.drain .running) := by
  rintro rfl
  exact hk (h _ rfl).symm

/-- A step that shuts nothing. -/
theorem pauseStep_of_goes {p p' : Pause} {o o' : Option PauseCall} (h : Pause.Goes p o p' o') :
    PauseStep p o false p' o' false :=
  ⟨h, fun _ _ _ => by rintro ⟨⟩⟩

/-- The monitor goes on, and sends no command. -/
theorem Sync.setMonitor (h : Sync t) {s : Shared} {m : Monitor} (r : ℕ × Bool)
    (hrun : t.client.run = none)
    (hs : PauseStep t.client.shared.pause t.client.monitor.call t.client.monitor.shutting s.pause
      m.call m.shutting)
    (hne : t.client.monitor.call ≠ some (.drain .running))
    (hk : ∀ call ∈ m.call, call.kind = m.kind)
    (hb : t.resumed = false → ∃ call, m = .waiting call)
    (hf : ∀ w, m = .processing w → r = (t.epoch, true)) :
    Sync { t with client := (t.client.setShared s).setMonitor m, monitorRead := r } := by
  obtain ⟨hl, hshut⟩ := slot (t.resumed = false ∨ t.client.listener.shutting = true ∨
    t.client.runShutting = true) h.locks hs hne fun ho => h.shut (by tauto)
  exact { h with
    monitorKind := hk
    run := fun command call hr => by cases hrun.symm.trans hr
    locks := hl
    shut := fun ho => hshut (by
      change t.resumed = false ∨ m.shutting = true ∨ t.client.listener.shutting = true ∨
        t.client.runShutting = true at ho
      tauto)
    blocked := hb
    monitorFresh := hf }

/-- A waiting monitor that goes on. -/
theorem Sync.moveWaiting (h : Sync t) (hrun : t.client.run = none) {call : PauseCall}
    {r : Pause × (PauseCall ⊕ Bool)} (hm : t.client.monitor = .waiting call)
    (hc : call = .check → t.resumed = false → t.client.listener.call.any PauseCall.holds = false)
    (hs : t.client.shared.pause.step call = some r) :
    Sync { t with
      client := (t.client.setShared { t.client.shared with pause := r.1 }).setMonitor
        (r.2.elim .waiting fun _ => .reading) } := by
  obtain ⟨p', r⟩ := r
  have hkind : call.kind = .waitIfPaused := by
    have := h.monitorKind call (by rw [hm]; rfl)
    rwa [hm] at this
  refine h.setMonitor t.monitorRead hrun ?_ (by rw [hm]; rintro ⟨⟩; cases hkind) ?_ ?_ ?_
  · rw [hm]
    cases r with
    | inl call' => exact pauseStep_of_goes (.next hs)
    | inr b => exact pauseStep_of_goes (.ret hs (by rintro _ ⟨⟩))
  · cases r with
    | inl call' =>
        rintro _ ⟨⟩
        exact (Pause.kind_step hs).trans hkind
    | inr b => rintro _ ⟨⟩
  · intro hres
    have hshut := h.shut (.inl hres)
    rw [calls, hm] at hshut
    have hr := hshut.waits hkind (fun hcheck call' hin => ?_) hs
    · subst hr
      exact ⟨.wait, rfl⟩
    · have hrc : t.client.runCall = none := by rw [runCall, hrun]; rfl
      rw [hrc, Option.toList_none, List.append_nil] at hin
      have hnone := hc hcheck hres
      rw [show t.client.listener.call = some call' from Option.mem_toList.mp hin] at hnone
      exact hnone
  · cases r with
    | inl call' => rintro w ⟨⟩
    | inr b => rintro w ⟨⟩

/-- The monitor runs only when it has been resumed. -/
theorem Sync.resumed (h : Sync t) (hm : ∀ call, t.client.monitor ≠ .waiting call) :
    t.resumed = true := by
  by_contra hres
  obtain ⟨call, hw⟩ := h.blocked (by simpa using hres)
  exact hm call hw

theorem scans_of_plain {ps : List Packet} (h : ∀ p ∈ ps, ∃ w, p = .payloadBufferWrite w) :
    scans ps = 0 := by
  refine List.countP_eq_zero.mpr fun p hp => ?_
  obtain ⟨w, rfl⟩ := h p hp
  simp

/-- The monitor reads the ring: it has been resumed. -/
theorem Sync.monitorReads (h : Sync t) (hrun : t.client.run = none)
    (hm : t.client.monitor = .reading) :
    Sync { t with
      client := (t.client.setShared
        { t.client.shared with ring := (bdrBufferReadRoutine t.client.shared.ring).1 }).setMonitor
        (if (bdrBufferReadRoutine t.client.shared.ring).2.length = 0 then .waiting .check
        else if (bdrBufferReadRoutine t.client.shared.ring).2.overflown then .starting .resetting
        else .processing ⟨(bdrBufferReadRoutine t.client.shared.ring).2, 0, .looping⟩)
      monitorRead := (t.epoch, t.resumed) } := by
  have hres := h.resumed (by rw [hm]; rintro _ ⟨⟩)
  have hcall : t.client.monitor.call = none := by rw [hm]; rfl
  have hsh : t.client.monitor.shutting = false := by rw [hm]; rfl
  refine h.setMonitor _ hrun ?_ (by rw [hcall]; rintro ⟨⟩) ?_ (by rw [hres]; rintro ⟨⟩)
    (fun _ _ => by rw [hres])
  · rw [hcall, hsh]
    split
    · refine pauseStep_of_goes (.stay ?_)
      rintro _ ⟨⟩
      rfl
    · split <;> exact pauseStep_of_goes (.stay (by rintro _ ⟨⟩))
  · split
    · rintro _ ⟨⟩
      rfl
    · split <;> rintro _ ⟨⟩

/-- The monitor has sent the command: it will wait. -/
theorem Sync.monitorSends (h : Sync t) (hrun : t.client.run = none)
    (hm : t.client.monitor = .starting .sending) :
    Sync { t with
      client := (t.client.setShared t.client.shared).setMonitor (.waiting .check)
      epoch := t.epoch + 1
      resumed := false } := by
  have hres := h.resumed (by rw [hm]; rintro _ ⟨⟩)
  have hshut := h.shut (.inr (.inl (by rw [hm]; rfl)))
  have hl := h.locks
  rw [calls, hm] at hshut hl
  have hfirst : ∀ call ∈ (Monitor.waiting .check).call, call.isFirst = true := by
    rintro _ ⟨⟩
    rfl
  exact {
    idle := h.idle
    readers := h.readers
    monitorKind := by
      rintro _ ⟨⟩
      rfl
    listenerKind := h.listenerKind
    run := fun command call hr => by cases hrun.symm.trans hr
    locks := hl.first hfirst
    shut := fun _ => hshut.first hfirst
    blocked := fun _ => ⟨.check, rfl⟩
    finishing := fun _ => rfl
    monitorFresh := by rintro w ⟨⟩
    listenerFresh := fun w hw => by
      -- the listener has no window: the monitor runs
      have hf := h.finishing (by rw [show t.client.listener = _ from hw]; rfl)
      cases hf.symm.trans hres }

theorem Sync.moveMonitor (h : Sync t) {P : ℕ}
    (hok : t.careful (.monitor sent : ClientMove P)) (hrun : t.client.run = none)
    (hmove : t.client.moveMonitor cfg sent = some (c', ps)) :
    Sync (t.after (.monitor sent : ClientMove P) (c', ps)) := by
  rcases moveMonitor_cases hmove with ⟨call, r, hm, hs, rfl, rfl⟩ | ⟨hm, rfl, rfl⟩ |
    ⟨call, s, next, hm, hs, rfl⟩ | ⟨w, s, next, hm, hs, rfl⟩
  · have := h.moveWaiting hrun hm (fun hc => hok (by rw [hm, hc])) hs
    simpa [after, scans, readByMonitor, readByListener, Resumes, hm] using this
  · have := h.monitorReads hrun hm
    simpa [after, scans, readByMonitor, readByListener, Resumes, hm] using this
  · have hres := h.resumed (by rw [hm]; rintro _ ⟨⟩)
    have hkind : ∀ pc ∈ call.call, pc.kind = .pause := by
      have := h.monitorKind
      rwa [hm] at this
    rcases startStep_packet hs with ⟨rfl, call', rfl⟩ | ⟨rfl, rfl, rfl, rfl⟩
    · obtain ⟨hstep, hk⟩ := startStep_pauses hs hkind
      have hstep' : PauseStep t.client.shared.pause t.client.monitor.call t.client.monitor.shutting
          s.pause (Monitor.starting call').call (Monitor.starting call').shutting := by
        rw [hm]
        exact hstep
      have := h.setMonitor t.monitorRead hrun hstep'
        (by rw [hm]; exact ne_drain_running hkind (by simp)) (hk call' rfl)
        (by rw [hres]; rintro ⟨⟩) (by rintro w ⟨⟩)
      simpa [after, scans, readByMonitor, readByListener, Resumes, hm] using this
    · have := h.monitorSends hrun hm
      simpa [after, scans, readByMonitor, readByListener, Resumes, hm, Command.packet] using this
  · have hres := h.resumed (by rw [hm]; rintro _ ⟨⟩)
    have hkind : ∀ pc ∈ w.call, pc.kind = .isPaused := by
      have := h.monitorKind
      rwa [hm] at this
    obtain ⟨hgoes, hk⟩ := processStep_pauses hs hkind
    have h0 := scans_of_plain (processStep_writes hs)
    have hne : t.client.monitor.call ≠ some (.drain .running) := by
      rw [hm]
      exact ne_drain_running hkind (by simp)
    have hfresh : ∀ w', next.elim (.waiting .check) .processing = Monitor.processing w' →
        t.monitorRead = (t.epoch, true) := fun _ _ => h.monitorFresh w hm
    have hblocked : t.resumed = false → ∃ call, next.elim (.waiting .check) .processing =
        Monitor.waiting call := by
      rw [hres]
      rintro ⟨⟩
    suffices hset : Sync { t with
        client := (t.client.setShared s).setMonitor (next.elim (.waiting .check) .processing) } by
      simpa [after, h0, readByMonitor, readByListener, Resumes, hm] using hset
    cases next with
    | some w' =>
        refine h.setMonitor _ hrun ?_ hne (hk w' rfl) hblocked hfresh
        rw [hm]
        exact pauseStep_of_goes hgoes
    | none =>
        refine h.setMonitor _ hrun ?_ hne ?_ hblocked hfresh
        · rw [hm]
          refine pauseStep_of_goes (hgoes.first ?_)
          rintro _ ⟨⟩
          rfl
        · rintro _ ⟨⟩
          rfl

/-- The listener goes on, and neither sends a command nor resumes the monitor. -/
theorem Sync.setListener (h : Sync t) {s : Shared} {l : Listener} {hh : InitHashing} (r : ℕ)
    (hrun : t.client.run = none)
    (hs : PauseStep t.client.shared.pause t.client.listener.call t.client.listener.shutting s.pause
      l.call l.shutting)
    (hne : t.client.listener.call ≠ some (.drain .running))
    (hk : ∀ call ∈ l.call, call.kind = l.kind)
    (hf : Traced.finishing l = true → t.resumed = false)
    (hr : ∀ w, l = .processing w → r = t.epoch)
    (hread : NoneFails hh) :
    Sync { t with
      client := ((t.client.setShared s).setHashing hh).setListener l
      listenerRead := r } := by
  have hperm : ∀ o : Option PauseCall,
      (t.client.monitor.call.toList ++ (o.toList ++ t.client.runCall.toList)).Perm
        (o.toList ++ (t.client.monitor.call.toList ++ t.client.runCall.toList)) :=
    fun o => List.perm_append_comm_assoc ..
  obtain ⟨hl, hshut⟩ := slot (t.resumed = false ∨ t.client.monitor.shutting = true ∨
    t.client.runShutting = true) (h.locks.perm (hperm _)) hs hne
    fun ho => (h.shut (by tauto)).perm (hperm _)
  exact { h with
    readers := hread
    listenerKind := hk
    run := fun command call hr => by cases hrun.symm.trans hr
    locks := hl.perm (hperm _).symm
    shut := fun ho => (hshut (by
      change t.resumed = false ∨ t.client.monitor.shutting = true ∨ l.shutting = true ∨
        t.client.runShutting = true at ho
      tauto)).perm (hperm _).symm
    finishing := hf
    listenerFresh := hr }

/-- `Resume` empties the channel. -/
theorem Sync.resumes (h : Sync t) (hrun : t.client.run = none) {p' : Pause}
    (hl : t.client.listener = .resuming (.drain .running))
    (hs : t.client.shared.pause.step (.drain .running) = some (p', .inl (.send .running))) :
    Sync { t with
      client := (t.client.setShared { t.client.shared with pause := p' }).setListener
        (.resuming (.send .running))
      resumed := true } := by
  obtain ⟨call, hm⟩ := h.blocked (h.finishing (by rw [hl]; rfl))
  have hlocks := h.locks.perm (List.perm_append_comm_assoc ..)
  rw [hl] at hlocks
  have hlocks' := (hlocks.goes (.next hs)).perm (List.perm_append_comm_assoc ..)
  exact { h with
    listenerKind := by
      rintro _ ⟨⟩
      rfl
    run := fun command call hr => by cases hrun.symm.trans hr
    locks := hlocks'
    shut := fun ho => by
      have hms : t.client.monitor.shutting = false := by rw [hm]; rfl
      have hrs : t.client.runShutting = false := by rw [runShutting, hrun]; rfl
      change true = false ∨ t.client.monitor.shutting = true ∨ false = true ∨
        t.client.runShutting = true at ho
      simp [hms, hrs] at ho
    blocked := by rintro ⟨⟩
    finishing := by rintro ⟨⟩
    listenerFresh := by rintro w ⟨⟩ }

/-- The listener has sent the command while the monitor waits. -/
theorem Sync.listenerSends (h : Sync t) (hrun : t.client.run = none) {k : Restart}
    {hh : InitHashing} (hl : t.client.listener = .starting k .sending) {call : PauseCall}
    (hm : t.client.monitor = .waiting call)
    (hread : NoneFails hh) :
    Sync { t with
      client := ((t.client.setShared t.client.shared).setHashing hh).setListener .receiving
      epoch := t.epoch + 1
      resumed := false } := by
  have hshut := h.shut (.inr (.inr (.inl (by rw [hl]; rfl))))
  have hlocks := h.locks
  rw [calls, hl] at hshut hlocks
  exact {
    idle := h.idle
    readers := hread
    monitorKind := h.monitorKind
    listenerKind := by rintro _ ⟨⟩
    run := fun command call hr => by cases hrun.symm.trans hr
    locks := hlocks
    shut := fun _ => hshut
    blocked := fun _ => ⟨call, hm⟩
    finishing := by rintro ⟨⟩
    monitorFresh := fun w hw => by cases hm.symm.trans hw
    listenerFresh := by rintro w ⟨⟩ }

/-- What is recorded of a move that neither sends a command nor resumes the monitor. -/
theorem after_of_quiet {P : ℕ} {m : ClientMove P} (h0 : scans ps = 0) (hres : t.Resumes m = false) :
    t.after m (c', ps) = { t with
      client := c'
      monitorRead := t.readByMonitor m
      listenerRead := t.readByListener m } := by
  simp [after, h0, hres]

/-- What is recorded of a move that sends the command of a scan. -/
theorem after_of_scan {P : ℕ} {m : ClientMove P} (h1 : scans ps = 1) :
    t.after m (c', ps) = { t with
      client := c'
      epoch := t.epoch + 1
      resumed := false
      monitorRead := t.readByMonitor m
      listenerRead := t.readByListener m } := by
  simp [after, h1]

/-- A step of the listener without a call of the controller. -/
theorem Sync.setPlain (h : Sync t) {s : Shared} {l : Listener} {hh : InitHashing} (r : ℕ)
    (hrun : t.client.run = none) (hp : s.pause = t.client.shared.pause)
    (hc : t.client.listener.call = none) (hc' : l.call = none) (hsh : l.shutting = false)
    (hf : Traced.finishing l = true → t.resumed = false)
    (hr : ∀ w, l = .processing w → r = t.epoch) (hread : NoneFails hh) :
    Sync { t with
      client := ((t.client.setShared s).setHashing hh).setListener l
      listenerRead := r } := by
  refine h.setListener r hrun ?_ (by rw [hc]; rintro ⟨⟩) (by rw [hc']; rintro _ ⟨⟩) hf hr hread
  rw [hp, hc, hc', hsh]
  exact ⟨.stay (by rintro _ ⟨⟩), fun _ _ _ => by rintro ⟨⟩⟩

theorem Sync.moveListener (h : Sync t) {P : ℕ}
    (hok : t.careful (.listener sent : ClientMove P)) (hrun : t.client.run = none)
    (hmove : t.client.moveListener cfg sent = some (c', ps)) :
    Sync (t.after (.listener sent : ClientMove P) (c', ps)) := by
  have hfin : Traced.finishing t.client.listener = true → t.resumed = false := h.finishing
  have hnoRes : ∀ {l : Listener}, t.client.listener = l → l ≠ .resuming (.drain .running) →
      t.Resumes (.listener sent : ClientMove P) = false := by
    intro l hl hne
    simpa [Resumes, hl] using hne
  have hnoRead : ∀ {l : Listener}, t.client.listener = l → l ≠ .reading →
      t.readByListener (.listener sent : ClientMove P) = t.listenerRead := by
    intro l hl hne
    simp [readByListener, hl, hne]
  cases moveListener_cases hmove with
  | enqueued hl hs =>
      rw [after_of_quiet rfl (hnoRes hl (by simp)), hnoRead hl (by simp)]
      exact h.setPlain _ hrun rfl (by rw [hl]; rfl) rfl rfl (by rintro ⟨⟩) (by rintro w ⟨⟩)
        (h.readers.send hs trivial)
  | started hl hf =>
      rw [after_of_quiet rfl (hnoRes hl (by simp)), hnoRead hl (by simp)]
      exact h.setPlain _ hrun rfl (by rw [hl]; rfl) rfl rfl (by rintro ⟨⟩) (by rintro w ⟨⟩)
        (noneFails_start _)
  | compared hl hf =>
      rw [after_of_quiet rfl (hnoRes hl (by simp)), hnoRead hl (by simp)]
      rw [hl] at hfin
      exact h.setPlain _ hrun rfl (by rw [hl]; rfl) rfl rfl hfin (by rintro w ⟨⟩) h.readers
  | ended hl hf =>
      rw [after_of_quiet rfl (hnoRes hl (by simp)), hnoRead hl (by simp)]
      exact h.setPlain _ hrun rfl (by rw [hl]; rfl) rfl rfl (by rintro ⟨⟩) (by rintro w ⟨⟩)
        h.readers
  | read hl =>
      -- the window of `SendBuffer` is of the present epoch
      have hread : t.readByListener (.listener sent : ClientMove P) = t.epoch := by
        simp [readByListener, hl]
      rw [after_of_quiet rfl (hnoRes hl (by simp)), hread]
      rw [hl] at hfin
      refine h.setPlain _ hrun rfl (by rw [hl]; rfl) ?_ ?_ (fun _ => hfin rfl) (fun _ _ => rfl)
        h.readers
      · split
        · rfl
        · split <;> rfl
      · split
        · rfl
        · split <;> rfl
  | @process w s _ next _ hl hs =>
      -- the call of `IsPaused` takes the token out and puts it back
      have hkind : ∀ pc ∈ w.call, pc.kind = .isPaused := by
        have := h.listenerKind
        rwa [hl] at this
      obtain ⟨hgoes, hk⟩ := processStep_pauses hs hkind
      have h0 := scans_of_plain (processStep_writes hs)
      have hne : t.client.listener.call ≠ some (.drain .running) := by
        rw [hl]
        exact ne_drain_running hkind (by simp)
      rw [after_of_quiet h0 (hnoRes hl (by simp)), hnoRead hl (by simp)]
      rw [hl] at hfin
      cases next with
      | some w' =>
          refine h.setListener _ hrun ?_ hne (hk w' rfl) (fun _ => hfin rfl)
            (fun _ _ => h.listenerFresh w hl) h.readers
          rw [hl]
          exact pauseStep_of_goes hgoes
      | none =>
          refine h.setListener _ hrun ?_ hne (by rintro _ ⟨⟩) (fun _ => hfin rfl)
            (by rintro w ⟨⟩) h.readers
          rw [hl]
          exact pauseStep_of_goes hgoes
  | setWriting hl =>
      rw [after_of_quiet rfl (hnoRes hl (by simp)), hnoRead hl (by simp)]
      rw [hl] at hfin
      refine h.setListener _ hrun ?_ (by rw [hl]; rintro ⟨⟩) ?_ (fun _ => hfin rfl)
        (by rintro w ⟨⟩) h.readers
      · rw [hl]
        refine pauseStep_of_goes (.stay ?_)
        rintro _ ⟨⟩
        rfl
      · rintro _ ⟨⟩
        rfl
  | @resume call r hl hs =>
      obtain ⟨p', r⟩ := r
      have hkind : call.kind = .resume := by
        have := h.listenerKind call (by rw [hl]; rfl)
        rwa [hl] at this
      rw [hl] at hfin
      cases call with
      | lock v =>
          obtain rfl : v = .running := by cases v <;> first | rfl | cases hkind
          obtain ⟨-, heq⟩ := Option.ite_none_right_eq_some.mp hs
          cases heq
          rw [after_of_quiet rfl (hnoRes hl (by simp)), hnoRead hl (by simp)]
          refine h.setListener _ hrun ?_ (by rw [hl]; rintro ⟨⟩) ?_ (fun _ => hfin rfl)
            (by rintro w ⟨⟩) h.readers
          · rw [hl]
            exact pauseStep_of_goes (.next hs)
          · rintro _ ⟨⟩
            rfl
      | drain v =>
          -- `Resume` takes effect here: the monitor may read from now on
          obtain rfl : v = .running := by cases v <;> first | rfl | cases hkind
          cases hs
          have := h.resumes hrun hl rfl
          simpa [after, scans, readByMonitor, readByListener, Resumes, hl] using this
      | send v =>
          obtain rfl : v = .running := by cases v <;> first | rfl | cases hkind
          obtain ⟨-, heq⟩ := Option.ite_none_right_eq_some.mp hs
          cases heq
          rw [after_of_quiet rfl (hnoRes hl (by simp)), hnoRead hl (by simp)]
          refine h.setListener _ hrun ?_ (by rw [hl]; rintro ⟨⟩) (by rintro _ ⟨⟩) (by rintro ⟨⟩)
            (by rintro w ⟨⟩) h.readers
          rw [hl]
          exact pauseStep_of_goes (.ret hs (by rintro _ ⟨⟩))
      | _ => cases hkind
  | completed hl =>
      rw [after_of_quiet rfl (hnoRes hl (by simp)), hnoRead hl (by simp)]
      exact h.setPlain _ hrun rfl (by rw [hl]; rfl) rfl rfl (by rintro ⟨⟩) (by rintro w ⟨⟩)
        (noneFails_start _)
  | @start k call call' s _ hl hs =>
      have hkind : ∀ pc ∈ call.call, pc.kind = .pause := by
        have := h.listenerKind
        rwa [hl] at this
      obtain ⟨hstep, hk⟩ := startStep_pauses hs hkind
      rcases startStep_packet hs with ⟨rfl, -⟩ | ⟨-, -, hn, -⟩
      · rw [after_of_quiet rfl (hnoRes hl (by simp)), hnoRead hl (by simp)]
        refine h.setListener _ hrun ?_ ?_ (hk call' rfl) (by rintro ⟨⟩) (by rintro w ⟨⟩) h.readers
        · rw [hl]
          exact hstep
        · rw [hl]
          exact ne_drain_running hkind (by simp)
      · cases hn
  | restarted hl hs =>
      -- the command begins a new epoch, with the monitor in `WaitIfPaused`
      rcases startStep_packet hs with ⟨-, call', hn⟩ | ⟨rfl, rfl, -, rfl⟩
      · cases hn
      · obtain ⟨call, hm⟩ := Monitor.exists_of_waits (hok (by rw [hl]; rfl))
        rw [after_of_scan rfl, hnoRead hl (by simp)]
        exact h.listenerSends hrun hl hm (noneFails_start 0)
  | reconnected hl hs =>
      -- likewise, on the new connection
      rcases startStep_packet hs with ⟨-, call', hn⟩ | ⟨rfl, rfl, -, rfl⟩
      · cases hn
      · obtain ⟨call, hm⟩ := Monitor.exists_of_waits (hok (by rw [hl]; rfl))
        rw [after_of_scan rfl, hnoRead hl (by simp)]
        exact h.listenerSends hrun hl hm h.readers

theorem Sync.moveRun (h : Sync t) {P : ℕ} (hmove : t.client.moveRun cfg = some (c', ps)) :
    Sync (t.after (.run : ClientMove P) (c', ps)) := by
  obtain ⟨command, call, s, next, hrun, hs, rfl⟩ := moveRun_cases hmove
  obtain ⟨hc, hkind, hm, hl⟩ := h.run command call hrun
  obtain ⟨hstep, hk⟩ := startStep_pauses hs hkind
  have hrc : t.client.runCall = call.call := by rw [runCall, hrun]; rfl
  have hrs : t.client.runShutting = call.shutting := by rw [runShutting, hrun]; rfl
  have hperm : ∀ o : Option PauseCall,
      (t.client.monitor.call.toList ++ (t.client.listener.call.toList ++ o.toList)).Perm
        (o.toList ++ (t.client.monitor.call.toList ++ t.client.listener.call.toList)) :=
    fun o => by
      rw [← List.append_assoc]
      exact List.perm_append_comm
  have hlocks := h.locks
  have hshut₀ := h.shut
  rw [calls, hrc] at hlocks hshut₀
  rw [hrs] at hshut₀
  obtain ⟨hlocks', hshut⟩ := slot (t.resumed = false ∨ t.client.monitor.shutting = true ∨
    t.client.listener.shutting = true) (hlocks.perm (hperm _)) hstep
    (ne_drain_running hkind (by simp)) fun ho => (hshut₀ (by tauto)).perm (hperm _)
  rcases startStep_packet hs with ⟨rfl, call', rfl⟩ | ⟨rfl, rfl, rfl, rfl⟩
  · rw [after_of_quiet rfl rfl]
    exact { h with
      idle := h.idle
      run := by
        rintro _ _ ⟨⟩
        exact ⟨hc, hk call' rfl, hm, hl⟩
      locks := hlocks'.perm (hperm _).symm
      shut := fun ho => (hshut (by
        change t.resumed = false ∨ t.client.monitor.shutting = true ∨
          t.client.listener.shutting = true ∨ call'.shutting = true at ho
        rw [Option.any_some]
        tauto)).perm (hperm _).symm }
  · have h1 : scans [command.packet] = 1 := by
      cases command <;> first | rfl | exact absurd rfl hc
    rw [after_of_scan h1]
    exact {
      idle := by simpa [hc] using h.idle
      readers := h.readers
      monitorKind := h.monitorKind
      listenerKind := h.listenerKind
      run := by rintro _ _ ⟨⟩
      locks := hlocks
      shut := fun _ => hshut₀ (.inr (.inr (.inr rfl)))
      blocked := fun _ => ⟨.check, hm⟩
      finishing := fun _ => rfl
      monitorFresh := fun w hw => by cases hm.symm.trans hw
      listenerFresh := fun w hw => by cases hl.symm.trans hw }

/-- A packet from the server. -/
theorem Sync.deliver (h : Sync t) {P : ℕ} {packet : Packet}
    (hok : t.careful (.deliver packet : ClientMove P)) (hrun : t.client.run = none)
    (hl : t.client.listener = .receiving) :
    Sync (t.after (.deliver packet : ClientMove P) (t.client.deliver packet, [])) := by
  rw [after_of_quiet rfl rfl]
  have hset : ∀ {l : Listener} {hh : InitHashing}, l.call = none → l.shutting = false →
      (Traced.finishing l = true → t.resumed = false) → (∀ w, l ≠ .processing w) →
      NoneFails hh → Sync { t with client := (t.client.setHashing hh).setListener l } := by
    intro l hh hc hsh hf hw hread
    exact h.setPlain t.listenerRead hrun rfl (by rw [hl]; rfl) hc hsh hf
      (fun w hp => absurd hp (hw w)) hread
  cases packet with
  | infoStartHashing => exact hset rfl rfl (by rintro ⟨⟩) (by simp) h.readers.close
  | payloadHash info => exact hset rfl rfl (by rintro ⟨⟩) (by simp) h.readers
  | infoHashingCompleted => exact hset rfl rfl (fun _ => hok rfl) (by simp) h.readers.close
  | errJournalOverflow => exact hset rfl rfl (by rintro ⟨⟩) (by simp) h.readers.close
  | errInit | errInvalidSizes | errJournalCreate =>
      exact hset rfl rfl (by rintro ⟨⟩) (by simp) h.readers
  | _ => exact h

/-- The connection is lost, or there is a new one. -/
theorem Sync.eof (h : Sync t) {P : ℕ} (hrun : t.client.run = none)
    (hmove : t.client.eof = some c') : Sync (t.after (.eof : ClientMove P) (c', [])) := by
  obtain ⟨hl, heq⟩ := Option.ite_none_right_eq_some.mp hmove
  cases heq
  rw [after_of_quiet rfl rfl]
  exact h.setPlain _ hrun rfl (by rw [hl]; rfl) rfl rfl (by rintro ⟨⟩) (by rintro w ⟨⟩)
          h.readers

theorem Sync.dial (h : Sync t) {P : ℕ} (hrun : t.client.run = none)
    (hmove : t.client.dial cfg = some (c', ps)) :
    Sync (t.after (.dial : ClientMove P) (c', ps)) := by
  unfold Client.dial at hmove
  split at hmove
  · rename_i past hl
    cases hmove
    rw [after_of_quiet rfl rfl]
    split
    · exact h.setPlain _ hrun rfl (by rw [hl]; rfl) rfl rfl (by rintro ⟨⟩) (by rintro w ⟨⟩)
          h.readers
    · exact h.setPlain _ hrun rfl (by rw [hl]; rfl) rfl rfl (by rintro ⟨⟩) (by rintro w ⟨⟩)
          h.readers
  · cases hmove

/-- A pipeline whose readers do not fail. -/
theorem NoneFails.move {hash : List UInt8 → UInt64} {n : ℕ} {source : Image UInt8}
    {h h' : InitHashing} (hn : NoneFails h) {m : HashingMove}
    (hok : ∀ i failed, m = .reader i failed → failed = false)
    (hm : h.move hash n source m = some (h', ps)) : NoneFails h' := by
  cases m with
  | reader i failed =>
      obtain rfl := hok i failed rfl
      obtain ⟨h₁, hread, heq⟩ := Option.map_eq_some_iff.mp hm
      cases heq
      unfold InitHashing.moveReader at hread
      split at hread
      · obtain ⟨readers, hr, rfl⟩ := Option.map_eq_some_iff.mp hread
        exact Pool.All.receive hn hr (by simp)
      · cases hread
        exact Pool.All.setWorker hn (by simp)
      · cases hread
        refine Pool.All.setWorker hn ?_
        rintro _ ⟨⟩
        simp only [Bool.false_eq_true, if_false]
        split <;> simp
      · obtain ⟨workers, -, rfl⟩ := Option.map_eq_some_iff.mp hread
        exact Pool.All.setWorker hn (by simp)
      · cases hread
  | closeWork | closeComp =>
      simp only [InitHashing.move, Option.ite_none_right_eq_some, Option.some.injEq,
        Prod.mk.injEq] at hm
      obtain ⟨-, rfl, -⟩ := hm
      exact hn
  | worker i =>
      obtain ⟨h₁, hwork, heq⟩ := Option.map_eq_some_iff.mp hm
      cases heq
      unfold InitHashing.moveHasher at hwork
      split at hwork
      · obtain ⟨workers, -, rfl⟩ := Option.map_eq_some_iff.mp hwork
        exact hn
      · cases hwork
        exact hn
      · obtain ⟨comparers, -, rfl⟩ := Option.map_eq_some_iff.mp hwork
        exact hn
  | comparer i =>
      simp only [InitHashing.move, InitHashing.moveComparer] at hm
      split at hm
      · obtain ⟨comparers, -, heq⟩ := Option.map_eq_some_iff.mp hm
        cases heq
        exact hn
      · cases hm
        exact hn
      · cases hm
        exact hn

/-- Readers that do not fail start no scan. -/
theorem moveHashing_of_noneFails {c : Client} (hn : NoneFails c.hashing) {m : HashingMove} :
    c.moveHashing cfg m =
      (c.hashing.move cfg.hash cfg.numWorkers c.source m).map fun r => (c.setHashing r.1, r.2) := by
  cases m with
  | reader i failed =>
      simp only [Client.moveHashing]
      split
      · rename_i call hb
        exact absurd rfl (hn.of_busy? hb call)
      · rfl
  | _ => rfl

theorem Sync.moveHashing (h : Sync t) {P : ℕ} {m : HashingMove}
    (hok : t.careful (.hashing m : ClientMove P)) (hrun : t.client.run = none)
    (hmove : t.client.moveHashing cfg m = some (c', ps)) :
    Sync (t.after (.hashing m : ClientMove P) (c', ps)) := by
  rw [moveHashing_of_noneFails h.readers] at hmove
  obtain ⟨⟨hh, qs⟩, hm, heq⟩ := Option.map_eq_some_iff.mp hmove
  cases heq
  have h0 : scans qs = 0 := by
    rcases InitHashing.move_sends hm with rfl | ⟨block, rfl⟩ <;> rfl
  rw [after_of_quiet h0 rfl]
  have hread : NoneFails hh := h.readers.move (fun i failed hf => by subst hf; exact hok) hm
  exact { h with
    readers := hread
    run := fun command call hr => by cases hrun.symm.trans hr }

theorem Sync.step (h : Sync t) {P : ℕ} {m : ClientMove P} {t' : Traced} (hok : t.careful m)
    (hs : t.step cfg m = some t') : Sync t' := by
  obtain ⟨⟨c', ps⟩, hmove, rfl⟩ := Option.map_eq_some_iff.mp hs
  cases m with
  | run => exact h.moveRun hmove
  | write a =>
      cases hmove
      rw [after_of_quiet rfl rfl]
      exact { h with }
  | monitor sent =>
      obtain ⟨hr, hm⟩ := Option.ite_none_right_eq_some.mp hmove
      exact h.moveMonitor hok hr hm
  | listener sent =>
      obtain ⟨hr, hm⟩ := Option.ite_none_right_eq_some.mp hmove
      exact h.moveListener hok hr hm
  | deliver packet =>
      obtain ⟨hr, hm⟩ := Option.ite_none_right_eq_some.mp hmove
      obtain ⟨hl, heq⟩ := Option.ite_none_right_eq_some.mp hm
      cases heq
      exact h.deliver hok hr hl
  | eof =>
      obtain ⟨hr, hm⟩ := Option.ite_none_right_eq_some.mp hmove
      obtain ⟨c₁, heof, heq⟩ := Option.map_eq_some_iff.mp hm
      cases heq
      exact h.eof hr heof
  | dial =>
      obtain ⟨hr, hm⟩ := Option.ite_none_right_eq_some.mp hmove
      exact h.dial hr hm
  | hashing m =>
      obtain ⟨hr, hm⟩ := Option.ite_none_right_eq_some.mp hmove
      exact h.moveHashing hok hr hm
  | replication m =>
      obtain ⟨hr, hm⟩ := Option.ite_none_right_eq_some.mp hmove
      simp [Client.moveReplication, h.idle] at hm

theorem sync_start {command : Option Command} (hc : command ≠ some .fullReplicate)
    (ring : RingBuffer) (source : Image UInt8) : Sync (.start (.start command ring source)) where
  idle := rfl
  readers := noneFails_start 0
  monitorKind := by
    rintro _ ⟨⟩
    rfl
  listenerKind := by rintro _ ⟨⟩
  run := by
    intro command' call hr
    obtain ⟨c, rfl, heq⟩ := Option.map_eq_some_iff.mp hr
    cases heq
    exact ⟨fun h => hc (by rw [h]), by rintro _ ⟨⟩, rfl, rfl⟩
  locks := by
    cases command <;> exact Pause.locks_new.first (o := some .check) (by
      rintro _ ⟨⟩
      rfl)
  shut := by
    cases command with
    | none => rintro (h | h | h | h) <;> cases h
    | some command => rintro (h | h | h | h) <;> cases h
  blocked := by rintro ⟨⟩
  finishing := by rintro ⟨⟩
  monitorFresh := by rintro w ⟨⟩
  listenerFresh := by rintro w ⟨⟩

end Preserved

/-- **No stale write across a resync.**  If the listener sends `CmdStartHashing` only when the
monitor is in `WaitIfPaused`, and during a scan the monitor does not look at the pause controller
while a call of the listener has its token, then every buffer write comes from a window that was
read after the last command: by `SendBuffer`, or by the monitor after the `Resume` that followed.
Besides, the client has not been started with `-fullreplicate`, no read of `InitHashing` fails, and
the server reports the completion of a scan only while it is under way. -/
theorem noStale_of_careful {cfg : ClientConfig} {P : ℕ} {command : Option Command}
    (hc : command ≠ some .fullReplicate) {ring : RingBuffer} {source : Image UInt8}
    {moves : List (ClientMove P)} {t : Traced}
    (hrun : Run (Traced.step cfg) Traced.careful (.start (.start command ring source)) moves t) :
    t.NoStale cfg P := by
  have h := hrun.invariant (I := Sync) (fun _ _ _ h => h.step) (sync_start hc ring source)
  intro m c ps w hmove hw
  cases m with
  | run =>
      obtain ⟨command, call, s, next, -, hs, -⟩ := moveRun_cases hmove
      rcases startStep_packet hs with ⟨rfl, -⟩ | ⟨-, rfl, -⟩
      · simp at hw
      · cases command <;> simp [Command.packet] at hw
  | monitor sent =>
      have hm := (Option.ite_none_right_eq_some.mp hmove).2
      rcases moveMonitor_cases hm with ⟨call, r, -, -, rfl, -⟩ | ⟨-, rfl, -⟩ |
        ⟨call, s, next, -, hs, -⟩ | ⟨win, s, next, hm, -, -⟩
      · simp at hw
      · simp at hw
      · rcases startStep_packet hs with ⟨rfl, -⟩ | ⟨-, rfl, -⟩ <;> simp [Command.packet] at hw
      · exact h.monitorFresh win hm
  | listener sent =>
      cases moveListener_cases (Option.ite_none_right_eq_some.mp hmove).2 with
      | process hl hs => exact h.listenerFresh _ hl
      | start hl hs =>
          rcases startStep_packet hs with ⟨rfl, -⟩ | ⟨-, rfl, -⟩ <;> simp [Command.packet] at hw
      | restarted hl hs =>
          rcases startStep_packet hs with ⟨rfl, -⟩ | ⟨-, rfl, -⟩ <;> simp [Command.packet] at hw
      | reconnected hl hs =>
          rcases startStep_packet hs with ⟨rfl, -⟩ | ⟨-, rfl, -⟩ <;> simp [Command.packet] at hw
      | _ => simp at hw
  | deliver packet =>
      have hm := (Option.ite_none_right_eq_some.mp hmove).2
      cases (Option.ite_none_right_eq_some.mp hm).2
      simp at hw
  | eof =>
      obtain ⟨c₁, -, heq⟩ := Option.map_eq_some_iff.mp (Option.ite_none_right_eq_some.mp hmove).2
      cases heq
      simp at hw
  | dial =>
      have hm := (Option.ite_none_right_eq_some.mp hmove).2
      unfold Client.dial at hm
      split at hm
      · cases hm
        simp at hw
      · cases hm
  | hashing m =>
      have hm := (Option.ite_none_right_eq_some.mp hmove).2
      rw [moveHashing_of_noneFails h.readers] at hm
      obtain ⟨⟨hh, qs⟩, hpipe, heq⟩ := Option.map_eq_some_iff.mp hm
      cases heq
      rcases InitHashing.move_sends hpipe with rfl | ⟨block, rfl⟩ <;> simp at hw
  | replication m =>
      have hm := (Option.ite_none_right_eq_some.mp hmove).2
      simp [Client.moveReplication, h.idle] at hm
  | write a =>
      cases hmove
      simp at hw

/-- A ring of four slots. -/
def fourSlots : RingBuffer := ⟨fun _ => 0, ⟨0, 0, 0, 0, 4⟩⟩

def fourSlotsConfig : ClientConfig :=
  ⟨fun bs => UInt64.ofNat (leNat bs), 1, bdrGetTargetInfo 4096 fourSlots, 1⟩

theorem ninePut_page_length : (9 :: List.replicate 4095 (0 : UInt8)).length = 4096 := by
  rw [List.length_cons, List.length_replicate]

theorem ninePut_pageOffset_le : 0 ≤ 4096 := by decide

theorem ninePut_size_eq : (1 : UInt32).toNat = min 1 (4096 - 0) := by decide

/-- A nine is written to the first byte. -/
def ninePut : Put 4096 where
  sector := 0
  size := 1
  page := 9 :: List.replicate 4095 0
  pageOffset := 0
  length := 1
  page_length := ninePut_page_length
  pageOffset_le := ninePut_pageOffset_le
  size_eq := ninePut_size_eq

/-- The entry that the listener is about to send. -/
def atHand? : Listener → Option WriteInfo
  | .processing ⟨_, _, .encoding w⟩ => some w
  | _ => none

/-- `SendBuffer` is about to send the write that was captured during the scan. -/
theorem noStale_of_careful_sendBuffer : ∃ t,
    Run (Traced.step fourSlotsConfig) Traced.careful
      (.start (.start (some .startHashing) fourSlots fun _ => 5))
      (List.replicate 6 .run ++ [.write ninePut, .deliver .infoHashingCompleted] ++
        List.replicate 7 (.listener true)) t ∧
    (atHand? t.client.listener).map effective = some (writeInfo ninePut) ∧
    t.NoStale fourSlotsConfig 4096 := by
  obtain ⟨t, ht, hl⟩ := exists_exec (show (exec
    (guarded (Traced.step fourSlotsConfig) Traced.careful)
    (.start (.start (some .startHashing) fourSlots fun _ => 5))
    (List.replicate 6 .run ++ [.write ninePut, .deliver .infoHashingCompleted] ++
      List.replicate 7 (.listener true))).any (fun t =>
        (atHand? t.client.listener).map effective = some (writeInfo ninePut)) = true by
          decide +kernel)
  have hrun := Run.of_exec_guarded ht
  exact ⟨t, hrun, of_decide_eq_true hl, noStale_of_careful (by simp) hrun⟩

/-- The monitor cannot send an entry of its window, since the connection is lost; before it tries
again the listener connects and sends `CmdStartHashing`. -/
theorem not_noStale_of_reconnect : ∃ (moves : List (ClientMove 4096)) (t : Traced),
    exec (Traced.step fourSlotsConfig) (.start (.start none fourSlots fun _ => 5)) moves = some t ∧
      ¬ t.NoStale fourSlotsConfig 4096 := by
  obtain ⟨t, ht, hd⟩ := exists_exec (show (exec (Traced.step fourSlotsConfig)
    (.start (.start none fourSlots fun _ => 5))
    ([.write ninePut] ++ List.replicate 6 (.monitor true) ++ [.monitor false, .monitor false, .eof,
      .dial] ++ List.replicate 6 (.listener true))).any (fun t => t.epoch = 1 ∧
        t.monitorRead = (0, true) ∧
        (t.client.move fourSlotsConfig (.monitor true : ClientMove 4096)).any
          (fun r => writes r.2 = [⟨0, [9]⟩]) = true) = true by decide +kernel)
  obtain ⟨he, hr, hm⟩ := of_decide_eq_true hd
  obtain ⟨⟨c, ps⟩, hm, hps⟩ := (Option.any_eq_true _ _).mp hm
  refine ⟨_, t, ht, fun h => ?_⟩
  have hne : writes ps ≠ [] := by
    rw [of_decide_eq_true hps]
    simp
  obtain ⟨w, hw⟩ := exists_of_writes_ne hne
  have hfresh : t.monitorRead = (t.epoch, true) := h _ c ps w hm hw
  rw [hr, he] at hfresh
  cases hfresh

end Traced

end Bdr.Client
