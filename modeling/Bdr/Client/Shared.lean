import Bdr.Client.Pause
import Bdr.Client.Window

/-!
# Client — what the goroutines share

The goroutines of the client share its state, the controller that pauses the monitor, and the ring
buffer.  Two functions that several of them call work on these alone: the commands that start a
recovery (`StartHashing`, `FullScan`, `FullReplicate`) and `ProcessBufferInfo`.  A step of either is
one operation on what is shared, or one packet sent.

`SendPacket` tries until the packet is sent; the `Encode` of `ProcessBufferInfo` may fail, and it
then looks at the state before it tries again.
-/

namespace Bdr.Client

open Kern

/-- `State` of `user/client/client.go`. -/
inductive ClientState where
  | hashing
  | writing
  | replicating
  | reconnecting
  deriving DecidableEq, Repr

structure Shared where
  state : ClientState
  pause : Pause
  ring : RingBuffer

/-! ### Commands -/

/-- `StartHashing`, `FullScan` and `FullReplicate`, which differ in the state and the packet. -/
inductive Command where
  | startHashing
  | fullScan
  | fullReplicate
  deriving DecidableEq, Repr

def Command.packet : Command → Packet
  | .startHashing => .cmdStartHashing
  | .fullScan => .cmdStartFullScan
  | .fullReplicate => .infoStartReplication

def Command.state : Command → ClientState
  | .startHashing => .hashing
  | .fullScan => .hashing
  | .fullReplicate => .replicating

/-- Where a goroutine is in a command. -/
inductive StartCall where
  | resetting
  | pausing (call : PauseCall)
  | settingState
  | sending
  deriving DecidableEq, Repr

/-- One step of a command, and the packet it sends; it returns when there is nowhere to go on. -/
def Shared.startStep (s : Shared) (command : Command) :
    StartCall → Option (Shared × List Packet × Option StartCall)
  | .resetting =>
      some ({ s with ring := bdrRingBufferReset s.ring }, [], some (.pausing (.lock .paused)))
  | .pausing call =>
      (s.pause.step call).map fun r => ({ s with pause := r.1 }, [],
        match r.2 with
        | .inl call => some (.pausing call)
        | .inr _ => some .settingState)
  | .settingState => some ({ s with state := command.state }, [], some .sending)
  | .sending => some (s, [command.packet], none)

/-! ### ProcessBufferInfo -/

/-- Where `ProcessBufferInfo` is with an entry. -/
inductive Processing where
  | looping
  | checking (call : PauseCall)
  | decoding
  | encoding (w : WriteInfo)
  | refused (w : WriteInfo)
  deriving DecidableEq, Repr

/-- A goroutine in `ProcessBufferInfo`: its window, and the entry it is at. -/
structure Window where
  info : BufferInfo
  next : ℕ
  pc : Processing
  deriving DecidableEq, Repr

/-- One step of `ProcessBufferInfo`; it returns when there is no window to go on with. -/
def Shared.processStep (ti : TargetInfo) (s : Shared) (mainLoop sent : Bool) (w : Window) :
    Option (Shared × List Packet × Option Window) :=
  match w.pc with
  | .looping =>
      some (s, [],
        if w.next < w.info.length then some { w with pc := .checking .rlock } else none)
  | .checking call =>
      (s.pause.step call).map fun r => ({ s with pause := r.1 }, [],
        match r.2 with
        | .inl call => some { w with pc := .checking call }
        -- a pause stops the monitor only: the listener sends its window while the monitor waits
        | .inr paused => if paused && mainLoop then none else some { w with pc := .decoding })
  | .decoding =>
      (decodeSlot ti s.ring.buffer w.info w.next).map fun wi =>
        (s, [], some { w with pc := .encoding wi })
  | .encoding wi =>
      if sent then
        some (s, [.payloadBufferWrite wi], some { w with next := w.next + 1, pc := .looping })
      else some (s, [], some { w with pc := .refused wi })
  | .refused wi =>
      -- the window was taken from the ring: what is left of it is lost
      some (s, [], if s.state = .reconnecting then none else some { w with pc := .encoding wi })

/-! ### What a step sends -/

section Sends
variable {s s' : Shared} {ps : List Packet}

/-- A step of a command sends its packet at the end, or nothing. -/
theorem startStep_packet {command : Command} {call : StartCall} {next : Option StartCall}
    (h : s.startStep command call = some (s', ps, next)) :
    ps = [] ∧ (∃ call', next = some call') ∨
      call = .sending ∧ ps = [command.packet] ∧ next = none ∧ s' = s := by
  cases call with
  | resetting => cases h; exact .inl ⟨rfl, _, rfl⟩
  | pausing call =>
      obtain ⟨⟨p, r⟩, -, heq⟩ := Option.map_eq_some_iff.mp h
      cases heq
      refine .inl ⟨rfl, ?_⟩
      cases r with
      | inl call' => exact ⟨_, rfl⟩
      | inr b => exact ⟨_, rfl⟩
  | settingState => cases h; exact .inl ⟨rfl, _, rfl⟩
  | sending => cases h; exact .inr ⟨rfl, rfl, rfl, rfl⟩

/-- `ProcessBufferInfo` sends buffer writes. -/
theorem processStep_writes {ti : TargetInfo} {mainLoop sent : Bool} {w : Window}
    {next : Option Window} (h : s.processStep ti mainLoop sent w = some (s', ps, next)) :
    ∀ p ∈ ps, ∃ w, p = .payloadBufferWrite w := by
  unfold Shared.processStep at h
  split at h
  · cases h; simp
  · obtain ⟨r, -, heq⟩ := Option.map_eq_some_iff.mp h
    cases heq
    simp
  · obtain ⟨r, -, heq⟩ := Option.map_eq_some_iff.mp h
    cases heq
    simp
  · split at h <;> cases h <;> simp
  · cases h; simp

end Sends

end Bdr.Client
