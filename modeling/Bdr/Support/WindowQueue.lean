import Mathlib.Data.List.Basic

/-!
# Support — WindowQueue

A queue read in windows.  Elements are put at the back; a read hands out everything pending as
one window, and the window stays with the reader until the next read.
-/

namespace Bdr

/-- The window last handed out, and what was put since. -/
structure WindowQueue (α : Type*) where
  window : List α
  pending : List α

/-- An operation on the queue. -/
inductive WindowOp (α : Type*) where
  | put (a : α)
  | read
  | reset

namespace WindowQueue
variable {α : Type*}

def empty : WindowQueue α := ⟨[], []⟩

def put (q : WindowQueue α) (a : α) : WindowQueue α := { q with pending := q.pending ++ [a] }

def read (q : WindowQueue α) : WindowQueue α := ⟨q.pending, []⟩

/-- Everything in the queue, oldest first. -/
def toList (q : WindowQueue α) : List α := q.window ++ q.pending

def step (q : WindowQueue α) : WindowOp α → WindowQueue α
  | .put a => q.put a
  | .read => q.read
  | .reset => empty

def run (q : WindowQueue α) (ops : List (WindowOp α)) : WindowQueue α := ops.foldl step q

@[simp] theorem toList_put (q : WindowQueue α) (a : α) : (q.put a).toList = q.toList ++ [a] := by
  simp [toList, put]

@[simp] theorem toList_read (q : WindowQueue α) : q.read.toList = q.pending := by
  simp [toList, read]

@[simp] theorem run_nil (q : WindowQueue α) : q.run [] = q := rfl

@[simp] theorem run_cons (q : WindowQueue α) (op : WindowOp α) (ops : List (WindowOp α)) :
    q.run (op :: ops) = (q.step op).run ops := rfl

/-- Puts leave the window with its reader. -/
theorem window_run_puts (q : WindowQueue α) (as : List α) :
    (q.run (as.map .put)).window = q.window := by
  induction as generalizing q with
  | nil => rfl
  | cons a as ih => exact ih (q.put a)

theorem pending_run_puts (q : WindowQueue α) (as : List α) :
    (q.run (as.map .put)).pending = q.pending ++ as := by
  induction as generalizing q with
  | nil => simp
  | cons a as ih =>
      refine (ih (q.put a)).trans ?_
      simp [put]

end WindowQueue

end Bdr
