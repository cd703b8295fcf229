import Mathlib.Data.List.Basic

/-!
# Support — WaitQueue

Threads that wait for a condition on a wait queue.  A thread tests the condition, puts itself on the
queue, tests once more and goes to sleep; whoever makes a condition true wakes the queue up
afterwards.  A wake-up takes a thread off the queue wherever it is by then, so that one which comes
between the second test and the sleep is not lost.

`Attended c owed ws` says that a thread sleeps although its condition `c` holds only while a wake-up
is owed.  Each rule says what keeps it: a step of a thread, a wake-up, and a change of the condition
by somebody who owes a wake-up.
-/

namespace Bdr

/-- Where a thread is in `wait_event_interruptible`: before the first test, before it is on the
queue, on the queue before the second test, in `schedule`, or done. -/
inductive Waiting where
  | testing
  | queueing
  | queued (woken : Bool)
  | asleep
  | through
  deriving DecidableEq, Repr

namespace Waiting

/-- A step, with what the condition is and whether a signal is pending. -/
def step (cond signal : Bool) : Waiting → Option Waiting
  | .testing => some (if cond then .through else .queueing)
  | .queueing => some (if signal then .through else .queued false)
  | .queued woken => some (if cond then .through else if woken then .queueing else .asleep)
  | .asleep => if signal then some .queueing else none
  | .through => none

/-- A wake-up of the queue. -/
def wake : Waiting → Waiting
  | .queued _ => .queued true
  | .asleep => .queueing
  | w => w

@[simp] theorem wake_ne_asleep (w : Waiting) : w.wake ≠ .asleep := by
  cases w <;> simp [wake]

/-- A thread goes to sleep after it has found that the condition does not hold. -/
theorem cond_of_asleep {cond signal : Bool} {w : Waiting} (h : w.step cond signal = some .asleep) :
    cond = false := by
  cases w with
  | testing => cases cond <;> cases h
  | queueing => cases signal <;> cases h
  | queued woken => cases cond <;> cases woken <;> cases h; rfl
  | asleep => cases signal <;> cases h
  | through => cases h

end Waiting

/-- Who sleeps although its condition holds is owed a wake-up. -/
def Attended {κ : Type*} (c : κ → Bool) (owed : Prop) (ws : List (κ × Waiting)) : Prop :=
  ∀ w ∈ ws, w.2 = .asleep → c w.1 = true → owed

namespace Attended
variable {κ : Type*} {c c' : κ → Bool} {owed owed' : Prop} {ws : List (κ × Waiting)}

theorem nil (c : κ → Bool) (owed : Prop) : Attended c owed [] := by rintro w ⟨⟩

/-- **After a wake-up** nobody sleeps. -/
theorem wake (c : κ → Bool) (owed : Prop) (ws : List (κ × Waiting)) :
    Attended c owed (ws.map fun w => (w.1, w.2.wake)) := by
  rintro w hw hs -
  obtain ⟨v, -, rfl⟩ := List.mem_map.mp hw
  exact absurd hs (Waiting.wake_ne_asleep _)

/-- **The condition changes**: whoever makes it true owes a wake-up. -/
theorem change (h : Attended c owed ws) (hc : ∀ k, c' k = true → c k = true ∨ owed')
    (ho : owed → owed') : Attended c' owed' ws := by
  intro w hw hs hcond
  rcases hc w.1 hcond with hold | hnow
  · exact ho (h w hw hs hold)
  · exact hnow

theorem mono (h : Attended c owed ws) (ho : owed → owed') : Attended c owed' ws :=
  h.change (fun _ => .inl) ho

theorem append (h : Attended c owed ws) {w : κ × Waiting} (hw : w.2 ≠ .asleep) :
    Attended c owed (ws ++ [w]) := by
  intro v hv hs hcond
  rcases List.mem_append.mp hv with hv | hv
  · exact h v hv hs hcond
  · rw [List.mem_singleton.mp hv] at hs
    exact absurd hs hw

/-- **A thread makes a step** on what it finds. -/
theorem step (h : Attended c owed ws) {i : ℕ} {k : κ} {v v' : Waiting} {signal : Bool}
    (hv : v.step (c k) signal = some v') : Attended c owed (ws.set i (k, v')) := by
  intro w hw hs hcond
  rcases List.mem_or_eq_of_mem_set hw with hw | rfl
  · exact h w hw hs hcond
  · obtain rfl : v' = .asleep := hs
    rw [Waiting.cond_of_asleep hv] at hcond
    cases hcond

theorem eraseIdx (h : Attended c owed ws) (i : ℕ) : Attended c owed (ws.eraseIdx i) :=
  fun w hw => h w (List.mem_of_mem_eraseIdx hw)

end Attended

end Bdr
