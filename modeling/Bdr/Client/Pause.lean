import Mathlib.Data.List.Basic

/-!
# Client — Pause

`user/pause/pause.go`: the controller that pauses the monitor.  Its state is kept as a token in a
channel of one; `Pause` and `Resume` replace the token under a lock, `IsPaused` takes it out and
puts it back, and `WaitIfPaused`, which takes no lock, keeps what it receives.

A call is modelled by where it is, and a step is one operation on the channel or on the lock.
The termination channel of the waiter is not modelled.

Two facts about the calls under way hold throughout: the lock is held by those that are past it
(`Locks`), and from the moment `Pause` has emptied the channel until `Resume` does, the token that
says so is in the channel or in the hands of a call (`Shut`).
-/

namespace Bdr.Client

inductive PauseState where
  | running
  | paused
  deriving DecidableEq, Repr

/-- `PauseController`: the channel, and who holds the lock. -/
structure Pause where
  stateChan : Option PauseState
  locked : Bool
  readers : ℕ
  deriving DecidableEq, Repr

/-- Where a call is. -/
inductive PauseCall where
  /-- `Pause` and `Resume`, which send `v`. -/
  | lock (v : PauseState)
  | drain (v : PauseState)
  | send (v : PauseState)
  /-- `IsPaused`. -/
  | rlock
  | receive
  | putBack (v : PauseState)
  /-- `WaitIfPaused`, and `waitUntilResumed` in it. -/
  | check
  | wait
  deriving DecidableEq, Repr

namespace Pause

def new : Pause := ⟨none, false, 0⟩

def take (p : Pause) : Pause := { p with stateChan := none }

/-- One step of a call, after which it goes on or returns. -/
def step (p : Pause) : PauseCall → Option (Pause × (PauseCall ⊕ Bool))
  | .lock v =>
      if p.locked = false ∧ p.readers = 0 then some ({ p with locked := true }, .inl (.drain v))
      else none
  | .drain v => some (p.take, .inl (.send v))
  | .send v =>
      if p.stateChan = none then some ({ p with stateChan := some v, locked := false }, .inr false)
      else none
  | .rlock =>
      if p.locked = false then some ({ p with readers := p.readers + 1 }, .inl .receive) else none
  | .receive =>
      match p.stateChan with
      | some v => some (p.take, .inl (.putBack v))
      | none => some ({ p with readers := p.readers - 1 }, .inr false)
  | .putBack v =>
      if p.stateChan = none then
        some ({ p with stateChan := some v, readers := p.readers - 1 }, .inr (v = .paused))
      else none
  | .check =>
      match p.stateChan with
      | some .paused => some (p.take, .inl .wait)
      | some .running => some (p.take, .inr false)
      | none => some (p, .inr false)
  | .wait =>
      match p.stateChan with
      | some .paused => some (p.take, .inl .wait)
      | some .running => some (p.take, .inr false)
      | none => none

end Pause

/-! ### The calls under way -/

/-- The function a call is of. -/
inductive PauseKind where
  | pause
  | resume
  | isPaused
  | waitIfPaused
  deriving DecidableEq, Repr

namespace PauseCall

def kind : PauseCall → PauseKind
  | .lock .paused | .drain .paused | .send .paused => .pause
  | .lock .running | .drain .running | .send .running => .resume
  | .rlock | .receive | .putBack _ => .isPaused
  | .check | .wait => .waitIfPaused

/-- The call holds the lock. -/
def writes : PauseCall → Bool
  | .drain _ | .send _ => true
  | _ => false

/-- The call holds the lock for reading. -/
def reads : PauseCall → Bool
  | .receive | .putBack _ => true
  | _ => false

/-- The call has not done anything yet. -/
def isFirst : PauseCall → Bool
  | .lock _ | .rlock | .check => true
  | _ => false

/-- The call has the token of a paused controller. -/
def holds : PauseCall → Bool
  | .wait | .putBack .paused | .send .paused => true
  | _ => false

end PauseCall

namespace Pause
variable {p p' : Pause} {call call' : PauseCall} {rest : List PauseCall} {r : PauseCall ⊕ Bool}

/-- A call that goes on is still of the same function. -/
theorem kind_step (h : p.step call = some (p', .inl call')) : call'.kind = call.kind := by
  cases call with
  | lock v =>
      obtain ⟨-, heq⟩ := Option.ite_none_right_eq_some.mp h
      cases heq
      cases v <;> rfl
  | drain v =>
      cases h
      cases v <;> rfl
  | send v => cases (Option.ite_none_right_eq_some.mp h).2
  | rlock =>
      obtain ⟨-, heq⟩ := Option.ite_none_right_eq_some.mp h
      cases heq
      rfl
  | receive =>
      simp only [step] at h
      split at h <;> cases h
      rfl
  | putBack v => cases (Option.ite_none_right_eq_some.mp h).2
  | check | wait =>
      simp only [step] at h
      split at h <;> cases h
      rfl

/-- `IsPaused` says so when it puts the token back. -/
theorem putBack_of_step (h : p.step call = some (p', .inr true)) : call = .putBack .paused := by
  cases call with
  | lock v | send v | rlock => cases (Option.ite_none_right_eq_some.mp h).2
  | drain v => cases h
  | putBack v =>
      obtain ⟨-, heq⟩ := Option.ite_none_right_eq_some.mp h
      cases v with
      | paused => rfl
      | running => cases heq
  | receive | check | wait =>
      simp only [step] at h
      split at h <;> cases h

/-- The lock is held by the calls that are past it. -/
structure Locks (p : Pause) (calls : List PauseCall) : Prop where
  locked : p.locked.toNat = calls.countP PauseCall.writes
  readers : p.readers = calls.countP PauseCall.reads
  excl : p.locked = true → p.readers = 0

theorem locks_new : new.Locks [] := ⟨rfl, rfl, by rintro ⟨⟩⟩

theorem Locks.perm {calls calls' : List PauseCall} (h : p.Locks calls) (hp : calls.Perm calls') :
    p.Locks calls' :=
  ⟨h.locked.trans (hp.countP_eq _), h.readers.trans (hp.countP_eq _), h.excl⟩

/-- A call that holds the lock is the only one past it. -/
theorem Locks.alone (h : p.Locks (call :: rest)) (hw : call.writes = true) :
    ∀ call' ∈ rest, call'.writes = false ∧ call'.reads = false := by
  have hl := h.locked
  rw [List.countP_cons, if_pos hw] at hl
  have hlocked : p.locked = true := by
    cases hp : p.locked with
    | true => rfl
    | false => rw [hp, Bool.toNat_false] at hl; omega
  have hr := h.readers
  rw [h.excl hlocked, List.countP_cons] at hr
  rw [hlocked, Bool.toNat_true] at hl
  intro call' hin
  have hw₀ : rest.countP PauseCall.writes = 0 := by omega
  have hr₀ : rest.countP PauseCall.reads = 0 := by omega
  exact ⟨by simpa using List.countP_eq_zero.mp hw₀ call' hin,
    by simpa using List.countP_eq_zero.mp hr₀ call' hin⟩

theorem Locks.step (h : p.Locks (call :: rest)) (hs : p.step call = some (p', r)) :
    p'.Locks (r.getLeft?.toList ++ rest) := by
  obtain ⟨hl, hr, he⟩ := h
  simp only [List.countP_cons] at hl hr
  cases call with
  | lock v =>
      obtain ⟨⟨hfree, hnone⟩, heq⟩ := Option.ite_none_right_eq_some.mp hs
      cases heq
      refine ⟨?_, by simpa [List.countP_cons, PauseCall.reads] using hr, fun _ => hnone⟩
      simp only [hfree, PauseCall.writes, Bool.toNat_false, Bool.false_eq_true, if_false] at hl
      simp only [Sum.getLeft?, Option.toList, List.cons_append, List.nil_append, List.countP_cons,
        PauseCall.writes, if_true, Bool.toNat_true]
      omega
  | drain v =>
      cases hs
      exact ⟨by simpa [List.countP_cons, PauseCall.writes, take] using hl,
        by simpa [List.countP_cons, PauseCall.reads, take] using hr, he⟩
  | send v =>
      obtain ⟨-, heq⟩ := Option.ite_none_right_eq_some.mp hs
      cases heq
      refine ⟨?_, by simpa [List.countP_cons, PauseCall.reads] using hr, by rintro ⟨⟩⟩
      have : p.locked.toNat ≤ 1 := Bool.toNat_le _
      simp only [PauseCall.writes, if_true] at hl
      simp only [Bool.toNat_false, Sum.getLeft?, Option.toList, List.nil_append]
      omega
  | rlock =>
      obtain ⟨hfree, heq⟩ := Option.ite_none_right_eq_some.mp hs
      cases heq
      refine ⟨by simpa [List.countP_cons, PauseCall.writes] using hl,
        by simpa [List.countP_cons, PauseCall.reads] using hr, ?_⟩
      intro hl'
      cases hfree.symm.trans hl'
  | receive =>
      simp only [Pause.step] at hs
      split at hs
      · cases hs
        exact ⟨by simpa [List.countP_cons, PauseCall.writes, take] using hl,
          by simpa [List.countP_cons, PauseCall.reads, take] using hr, he⟩
      · cases hs
        refine ⟨by simpa [List.countP_cons, PauseCall.writes] using hl, ?_, fun hl' => ?_⟩
        · simp only [PauseCall.reads, if_true] at hr
          simp [hr]
        · simp [he hl']
  | putBack v =>
      obtain ⟨-, heq⟩ := Option.ite_none_right_eq_some.mp hs
      cases heq
      refine ⟨by simpa [List.countP_cons, PauseCall.writes] using hl, ?_, fun hl' => ?_⟩
      · simp only [PauseCall.reads, if_true] at hr
        simp [hr]
      · simp [he hl']
  | check | wait =>
      simp only [Pause.step] at hs
      split at hs <;> cases hs <;>
        exact ⟨by simpa [List.countP_cons, PauseCall.writes, take] using hl,
          by simpa [List.countP_cons, PauseCall.reads, take] using hr, he⟩

/-- The controller is paused: its token is in the channel or in the hands of a call, and no other
is about. -/
structure Shut (p : Pause) (calls : List PauseCall) : Prop where
  token : p.stateChan ≠ some .running
  others : ∀ call ∈ calls, call ≠ .putBack .running ∧ call ≠ .send .running
  held : p.stateChan = some .paused ∨ ∃ call ∈ calls, call.holds = true

theorem Shut.perm {calls calls' : List PauseCall} (h : p.Shut calls) (hp : calls.Perm calls') :
    p.Shut calls' :=
  ⟨h.token, fun call hin => h.others call (hp.mem_iff.mpr hin),
    h.held.imp_right fun ⟨call, hin, hh⟩ => ⟨call, hp.mem_iff.mp hin, hh⟩⟩

/-- `Pause` empties the channel. -/
theorem shut_drain (hl : p.Locks (.drain .paused :: rest))
    (hs : p.step (.drain .paused) = some (p', r)) : p'.Shut (r.getLeft?.toList ++ rest) := by
  have halone := hl.alone rfl
  cases hs
  refine ⟨by simp [take], fun call hin => ?_, .inr ⟨.send .paused, by simp, rfl⟩⟩
  rcases List.mem_cons.mp hin with rfl | hin
  · simp
  · obtain ⟨hw, hr⟩ := halone call hin
    constructor
    · rintro rfl
      cases hr
    · rintro rfl
      cases hw

/-- A paused controller stays so until `Resume` empties the channel. -/
theorem Shut.step (h : p.Shut (call :: rest)) (hc : call ≠ .drain .running)
    (hs : p.step call = some (p', r)) : p'.Shut (r.getLeft?.toList ++ rest) := by
  obtain ⟨ht, ho, hh⟩ := h
  have hrest : ∀ call' ∈ rest, call' ≠ .putBack .running ∧ call' ≠ .send .running :=
    fun call' hin => ho call' (List.mem_cons_of_mem call hin)
  have hcall := ho call List.mem_cons_self
  -- what the call was holding, if it was not the token
  have hheld : call.holds = false → p.stateChan = some .paused ∨
      ∃ call ∈ rest, call.holds = true := by
    intro hf
    refine hh.imp_right ?_
    rintro ⟨call', hin, hholds⟩
    rcases List.mem_cons.mp hin with rfl | hin
    · cases hf.symm.trans hholds
    · exact ⟨call', hin, hholds⟩
  have hon : ∀ {call' : PauseCall}, call' ≠ .putBack .running ∧ call' ≠ .send .running →
      ∀ call'' ∈ call' :: rest, call'' ≠ .putBack .running ∧ call'' ≠ .send .running := by
    intro call' hcall' call'' hin
    rcases List.mem_cons.mp hin with rfl | hin
    · exact hcall'
    · exact hrest _ hin
  cases call with
  | lock v =>
      obtain ⟨-, heq⟩ := Option.ite_none_right_eq_some.mp hs
      cases heq
      exact ⟨ht, hon (by simp), (hheld rfl).imp_right fun ⟨c, hin, hc⟩ =>
        ⟨c, List.mem_cons_of_mem _ hin, hc⟩⟩
  | drain v =>
      cases hs
      cases v with
      | running => exact absurd rfl hc
      | paused => exact ⟨by simp [take], hon (by simp), .inr ⟨_, List.mem_cons_self, rfl⟩⟩
  | send v =>
      obtain ⟨-, heq⟩ := Option.ite_none_right_eq_some.mp hs
      cases heq
      cases v with
      | running => exact absurd rfl hcall.2
      | paused => exact ⟨by simp, hrest, .inl rfl⟩
  | rlock =>
      obtain ⟨-, heq⟩ := Option.ite_none_right_eq_some.mp hs
      cases heq
      exact ⟨ht, hon (by simp), (hheld rfl).imp_right fun ⟨c, hin, hc⟩ =>
        ⟨c, List.mem_cons_of_mem _ hin, hc⟩⟩
  | receive =>
      simp only [Pause.step] at hs
      split at hs
      · rename_i v hv
        cases hs
        cases v with
        | running => exact absurd hv ht
        | paused => exact ⟨by simp [take], hon (by simp), .inr ⟨_, List.mem_cons_self, rfl⟩⟩
      · cases hs
        exact ⟨ht, hrest, hheld rfl⟩
  | putBack v =>
      obtain ⟨-, heq⟩ := Option.ite_none_right_eq_some.mp hs
      cases heq
      cases v with
      | running => exact absurd rfl hcall.1
      | paused => exact ⟨by simp, hrest, .inl rfl⟩
  | check =>
      simp only [Pause.step] at hs
      split at hs
      · cases hs
        exact ⟨by simp [take], hon (by simp), .inr ⟨_, List.mem_cons_self, rfl⟩⟩
      · rename_i hv
        exact absurd hv ht
      · cases hs
        exact ⟨ht, hrest, hheld rfl⟩
  | wait =>
      simp only [Pause.step] at hs
      split at hs
      · cases hs
        exact ⟨by simp [take], hon (by simp), .inr ⟨_, List.mem_cons_self, rfl⟩⟩
      · rename_i hv
        exact absurd hv ht
      · cases hs

/-- A goroutine goes on: to the next step of the call it is in, or to the first of another. -/
inductive Goes : Pause → Option PauseCall → Pause → Option PauseCall → Prop where
  | next {p p' : Pause} {call call' : PauseCall} (h : p.step call = some (p', .inl call')) :
      Goes p (some call) p' (some call')
  | ret {p p' : Pause} {call : PauseCall} {b : Bool} {o : Option PauseCall}
      (h : p.step call = some (p', .inr b)) (ho : ∀ call' ∈ o, call'.isFirst = true) :
      Goes p (some call) p' o
  | stay {p : Pause} {o : Option PauseCall} (ho : ∀ call' ∈ o, call'.isFirst = true) :
      Goes p none p o

/-- A goroutine that is out of its call may begin another. -/
theorem Goes.first {o o' : Option PauseCall} (h : Goes p o p' none)
    (ho : ∀ call' ∈ o', call'.isFirst = true) : Goes p o p' o' := by
  cases h with
  | ret hs _ => exact .ret hs ho
  | stay _ => exact .stay ho

theorem isFirst_cases (h : call.isFirst = true) : call.writes = false ∧ call.reads = false ∧
    call.holds = false ∧ call ≠ .putBack .running ∧ call ≠ .send .running := by
  cases call <;> first | exact ⟨rfl, rfl, rfl, by simp, by simp⟩ | cases h

theorem Locks.first {o : Option PauseCall} (h : p.Locks rest)
    (ho : ∀ call' ∈ o, call'.isFirst = true) : p.Locks (o.toList ++ rest) := by
  cases o with
  | none => exact h
  | some call =>
      obtain ⟨hw, hr, -⟩ := isFirst_cases (ho call rfl)
      exact ⟨by simpa [List.countP_cons, hw] using h.locked,
        by simpa [List.countP_cons, hr] using h.readers, h.excl⟩

theorem Shut.first {o : Option PauseCall} (h : p.Shut rest)
    (ho : ∀ call' ∈ o, call'.isFirst = true) : p.Shut (o.toList ++ rest) := by
  cases o with
  | none => exact h
  | some call =>
      obtain ⟨-, -, -, hne⟩ := isFirst_cases (ho call rfl)
      refine ⟨h.token, fun call' hin => ?_, h.held.imp_right ?_⟩
      · rcases List.mem_cons.mp hin with rfl | hin
        · exact hne
        · exact h.others call' hin
      · rintro ⟨call', hin, hh⟩
        exact ⟨call', List.mem_cons_of_mem _ hin, hh⟩

theorem Locks.goes {o o' : Option PauseCall} (h : p.Locks (o.toList ++ rest))
    (hg : Goes p o p' o') : p'.Locks (o'.toList ++ rest) := by
  cases hg with
  | next hs => exact Locks.step h hs
  | ret hs ho => exact (Locks.step h hs).first ho
  | stay ho => exact Locks.first h ho

theorem Shut.goes {o o' : Option PauseCall} (h : p.Shut (o.toList ++ rest))
    (ho : o ≠ some (.drain .running)) (hg : Goes p o p' o') : p'.Shut (o'.toList ++ rest) := by
  cases hg with
  | next hs => exact Shut.step h (fun hc => ho (by rw [hc])) hs
  | ret hs hf => exact (Shut.step h (fun hc => ho (by rw [hc])) hs).first hf
  | stay hf => exact Shut.first h hf

/-- **`WaitIfPaused` does not return from a paused controller**, unless another call has taken the
token when it looks. -/
theorem Shut.waits (h : p.Shut (call :: rest)) (hk : call.kind = .waitIfPaused)
    (hrest : call = .check → ∀ call' ∈ rest, call'.holds = false)
    (hs : p.step call = some (p', r)) : r = .inl .wait := by
  cases call with
  | check =>
      simp only [Pause.step] at hs
      split at hs
      · cases hs
        rfl
      · rename_i hv
        exact absurd hv h.token
      · rename_i hv
        rcases h.held with hp | ⟨call', hin, hh⟩
        · cases hv.symm.trans hp
        · rcases List.mem_cons.mp hin with rfl | hin
          · cases hh
          · cases (hrest rfl call' hin).symm.trans hh
  | wait =>
      simp only [Pause.step] at hs
      split at hs
      · cases hs
        rfl
      · rename_i hv
        exact absurd hv h.token
      · cases hs
  | lock v | drain v | send v => cases v <;> cases hk
  | rlock | receive | putBack v => cases hk

end Pause

end Bdr.Client
