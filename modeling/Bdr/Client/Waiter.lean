import Mathlib.Data.List.Perm.Basic
import Bdr.Client.Pause
import Bdr.Support.Runs

/-!
# Client — Waiter

The pause controller with any number of goroutines in `Pause`, `Resume` and `IsPaused`, and one
waiter that calls `WaitIfPaused` again and again, operation by operation: a call lets go of the lock
in a step of its own.

There is never more than one token, in the channel or taken out by `IsPaused`, and it is what the
latest `Pause` or `Resume` has sent (`Agrees.token`).  Only the waiter takes a token for good: if
the token of a `Pause` is gone then the waiter waits (`Agrees.shut`), and if it waits after a
`Resume` then the token that wakes it is there (`Agrees.woken`).

The waiter takes an empty channel for a running controller, and the channel of a paused one is empty
while `IsPaused` has the token in hand or another call is about to send.
-/

namespace Bdr.Client

/-- Where a call of `Pause`, `Resume` or `IsPaused` is: the operation it does next. -/
inductive PauseOp where
  /-- `Pause` and `Resume`, which send `v`. -/
  | lock (v : PauseState)
  | drain (v : PauseState)
  | send (v : PauseState)
  | unlock (v : PauseState)
  /-- `IsPaused`, which returns `b`. -/
  | rlock
  | receive
  | putBack (v : PauseState)
  | runlock (b : Bool)
  deriving DecidableEq, Repr

namespace Pause

/-- One operation, after which the call goes on or returns. -/
def op (p : Pause) : PauseOp → Option (Pause × (PauseOp ⊕ Bool))
  | .lock v =>
      if p.locked = false ∧ p.readers = 0 then some ({ p with locked := true }, .inl (.drain v))
      else none
  | .drain v => some (p.take, .inl (.send v))
  | .send v =>
      if p.stateChan = none then some ({ p with stateChan := some v }, .inl (.unlock v)) else none
  | .unlock _ => some ({ p with locked := false }, .inr false)
  | .rlock =>
      if p.locked = false then some ({ p with readers := p.readers + 1 }, .inl .receive) else none
  | .receive =>
      match p.stateChan with
      | some v => some (p.take, .inl (.putBack v))
      | none => some (p, .inl (.runlock false))
  | .putBack v =>
      if p.stateChan = none then
        some ({ p with stateChan := some v }, .inl (.runlock (v = .paused)))
      else none
  | .runlock b => some ({ p with readers := p.readers - 1 }, .inr b)

end Pause

/-! ### The system -/

/-- Where the waiter is: between its calls, about to look, or in `waitUntilResumed`. -/
inductive Waiter where
  | idle
  | check
  | wait
  deriving DecidableEq, Repr

/-- The controller, the calls under way in no particular order, and the waiter.  `last` is what the
`Pause` or `Resume` that returned last has sent; `released` says whether, at some moment of the
waiter's call, that was no `Pause`; `returns` is this for each call that has returned. -/
structure PauseSystem where
  pause : Pause
  callers : List PauseOp
  waiter : Waiter
  last : Option PauseState
  released : Bool
  returns : List Bool
  deriving DecidableEq, Repr

/-- A goroutine begins a call or goes on with it; the waiter begins one or looks into the
channel. -/
inductive PauseMove where
  | pause
  | resume
  | isPaused
  | go (i : ℕ)
  | waitIfPaused
  | look
  deriving DecidableEq, Repr

namespace PauseSystem

def start : PauseSystem := ⟨.new, [], .idle, none, false, []⟩

/-- A `Pause` or `Resume` is over when it has let go of the lock. -/
def returned (s : PauseSystem) : PauseOp → PauseSystem
  | .unlock v => { s with last := some v, released := s.released || v != .paused }
  | _ => s

/-- The waiter has looked: it goes on to wait, or returns. -/
def looked (s : PauseSystem) : Pause × (PauseCall ⊕ Bool) → PauseSystem
  | (p, .inl _) => { s with pause := p, waiter := .wait }
  | (p, .inr _) => { s with pause := p, waiter := .idle, returns := s.returns ++ [s.released] }

def step (s : PauseSystem) : PauseMove → Option PauseSystem
  | .pause => some { s with callers := .lock .paused :: s.callers }
  | .resume => some { s with callers := .lock .running :: s.callers }
  | .isPaused => some { s with callers := .rlock :: s.callers }
  | .go i =>
      s.callers[i]?.bind fun o =>
        (s.pause.op o).map fun
          | (p, .inl o') => { s with pause := p, callers := o' :: s.callers.eraseIdx i }
          | (p, .inr _) => { s with pause := p, callers := s.callers.eraseIdx i }.returned o
  | .waitIfPaused =>
      if s.waiter = .idle then
        some { s with waiter := .check, released := s.last != some .paused }
      else none
  | .look =>
      match s.waiter with
      | .idle => none
      | .check => (s.pause.step .check).map s.looked
      | .wait => (s.pause.step .wait).map s.looked

end PauseSystem

/-! ### The lock and the token -/

namespace PauseOp

/-- The call holds the lock. -/
def writes : PauseOp → Bool
  | .drain _ | .send _ | .unlock _ => true
  | _ => false

/-- The call holds the lock for reading. -/
def reads : PauseOp → Bool
  | .receive | .putBack _ | .runlock _ => true
  | _ => false

/-- The call has taken the token out of the channel and is to put it back. -/
def inHand : PauseOp → Bool
  | .putBack _ => true
  | _ => false

/-- The call is to send: a token of its own, or the one that it has taken out. -/
def away : PauseOp → Bool
  | .send _ | .putBack _ => true
  | _ => false

/-- What a `Pause` or `Resume` sends that has emptied the channel. -/
def value : PauseOp → Option PauseState
  | .send v | .unlock v => some v
  | _ => none

end PauseOp

namespace Pause
variable {p p' : Pause} {o o' : PauseOp} {ops ops' rest : List PauseOp} {waits : Bool}
  {last last' : Option PauseState} {v : PauseState}

/-- The tokens there are. -/
def tokens (p : Pause) (ops : List PauseOp) : ℕ :=
  p.stateChan.toList.length + ops.countP PauseOp.inHand

/-- There is a token `v`. -/
def Token (p : Pause) (ops : List PauseOp) (v : PauseState) : Prop :=
  p.stateChan = some v ∨ .putBack v ∈ ops

/-- The latest `Pause` or `Resume` sends `v`: the one that has emptied the channel, or if there is
none the one that returned last. -/
def Latest (ops : List PauseOp) (last : Option PauseState) (v : PauseState) : Prop :=
  (∃ o ∈ ops, o.value = some v) ∨ (∀ o ∈ ops, o.value = none) ∧ last = some v

/-- The lock is held by the calls that are past it, and the channel has room for whoever sends. -/
structure Guarded (p : Pause) (ops : List PauseOp) : Prop where
  locked : p.locked.toNat = ops.countP PauseOp.writes
  readers : p.readers = ops.countP PauseOp.reads
  excl : p.locked = true → p.readers = 0
  sends : ∀ v, .send v ∈ ops → p.stateChan = none
  tokens : p.tokens ops ≤ 1

/-- The token is that of the latest `Pause` or `Resume`; the waiter has it if it is that of a
`Pause` and gone, and it is there for the waiter if it is that of a `Resume`. -/
structure Agrees (p : Pause) (ops : List PauseOp) (waits : Bool) (last : Option PauseState) :
    Prop where
  token : ∀ v, p.Token ops v → Latest ops last v
  shut : Latest ops last .paused → p.Token ops .paused ∨ .send .paused ∈ ops ∨ waits = true
  woken : waits = true → Latest ops last .paused ∨ p.Token ops .running ∨ .send .running ∈ ops

theorem Guarded.perm (h : p.Guarded ops) (hp : ops.Perm ops') : p.Guarded ops' where
  locked := h.locked.trans (hp.countP_eq _)
  readers := h.readers.trans (hp.countP_eq _)
  excl := h.excl
  sends := fun v hin => h.sends v (hp.mem_iff.mpr hin)
  tokens := by
    have := h.tokens
    rwa [Pause.tokens, hp.countP_eq] at this

theorem Agrees.congr (h : p.Agrees ops waits last) (ht : ∀ v, p'.Token ops' v ↔ p.Token ops v)
    (hl : ∀ v, Latest ops' last' v ↔ Latest ops last v)
    (hs : ∀ v, .send v ∈ ops' ↔ .send v ∈ ops) : p'.Agrees ops' waits last' where
  token := fun v hv => (hl v).mpr (h.token v ((ht v).mp hv))
  shut := fun hv => by
    rw [ht, hs]
    exact h.shut ((hl _).mp hv)
  woken := fun hw => by
    rw [hl, ht, hs]
    exact h.woken hw

theorem Agrees.perm (h : p.Agrees ops waits last) (hp : ops.Perm ops') :
    p.Agrees ops' waits last :=
  h.congr (fun v => by simp only [Token, hp.mem_iff]) (fun v => by simp only [Latest, hp.mem_iff])
    fun v => hp.mem_iff.symm

/-- A call that holds the lock is the only one past it. -/
theorem Guarded.alone (h : p.Guarded (o :: rest)) (hw : o.writes = true) :
    ∀ o' ∈ rest, o'.writes = false ∧ o'.reads = false := by
  have hl := h.locked
  have hr := h.readers
  rw [List.countP_cons, if_pos hw] at hl
  have hlocked : p.locked = true := by
    cases hp : p.locked with
    | true => rfl
    | false => rw [hp, Bool.toNat_false] at hl; omega
  rw [h.excl hlocked, List.countP_cons] at hr
  rw [hlocked, Bool.toNat_true] at hl
  intro o' hin
  have hw₀ : rest.countP PauseOp.writes = 0 := by omega
  have hr₀ : rest.countP PauseOp.reads = 0 := by omega
  exact ⟨by simpa using List.countP_eq_zero.mp hw₀ o' hin,
    by simpa using List.countP_eq_zero.mp hr₀ o' hin⟩

theorem Guarded.quiet (h : p.Guarded (o :: rest)) (hw : o.writes = true) (ho : o' ∈ rest) :
    o'.value = none ∧ o'.inHand = false := by
  obtain ⟨hwrites, hreads⟩ := h.alone hw o' ho
  cases o' with
  | lock v | rlock | receive | runlock b => exact ⟨rfl, rfl⟩
  | drain v | send v | unlock v => cases hwrites
  | putBack v => cases hreads

/-- Nobody is about to send while a call holds the lock for reading. -/
theorem Guarded.not_send (h : p.Guarded (o :: rest)) (hr : o.reads = true) :
    .send v ∉ rest := by
  intro hin
  have hperm : (o :: rest).Perm (.send v :: o :: rest.erase (.send v)) :=
    ((List.perm_cons_erase hin).cons o).trans (.swap _ _ _)
  cases hr.symm.trans ((h.perm hperm).alone rfl o List.mem_cons_self).2

/-- The call that has emptied the channel is the latest. -/
theorem Guarded.latest_iff (h : p.Guarded (o :: rest)) (hw : o.writes = true)
    {w : PauseState} : Latest (o' :: rest) last w ↔
      o'.value = some w ∨ o'.value = none ∧ last = some w := by
  constructor
  · rintro (⟨x, hx, hval⟩ | ⟨hnone, hlast⟩)
    · rcases List.mem_cons.mp hx with rfl | hx
      · exact .inl hval
      · cases (h.quiet hw hx).1.symm.trans hval
    · exact .inr ⟨hnone o' List.mem_cons_self, hlast⟩
  · rintro (hval | ⟨hnone, hlast⟩)
    · exact .inl ⟨o', List.mem_cons_self, hval⟩
    · refine .inr ⟨fun x hx => ?_, hlast⟩
      rcases List.mem_cons.mp hx with rfl | hx
      · exact hnone
      · exact (h.quiet hw hx).1

theorem Guarded.token_iff (h : p.Guarded (o :: rest)) (hw : o.writes = true)
    (ho' : o'.inHand = false) {q : Pause} : q.Token (o' :: rest) v ↔ q.stateChan = some v := by
  refine or_iff_left fun hin => ?_
  rcases List.mem_cons.mp hin with rfl | hin
  · cases ho'
  · cases (h.quiet hw hin).2

theorem Guarded.send_mem_iff (h : p.Guarded (o :: rest)) (hw : o.writes = true) :
    .send v ∈ o' :: rest ↔ o' = .send v := by
  constructor
  · intro hin
    rcases List.mem_cons.mp hin with rfl | hin
    · rfl
    · cases (h.quiet hw hin).1
  · rintro rfl
    exact List.mem_cons_self

/-- There is only one latest. -/
theorem Guarded.latest_unique (h : p.Guarded ops) {w : PauseState} (hv : Latest ops last v)
    (hw : Latest ops last w) : v = w := by
  rcases hv with ⟨x, hx, hval⟩ | ⟨hnone, hlast⟩
  · obtain ⟨rest, hperm⟩ : ∃ rest, ops.Perm (x :: rest) :=
      ⟨_, List.perm_cons_erase hx⟩
    have hwrites : x.writes = true := by cases x <;> first | rfl | cases hval
    have hw' : Latest (x :: rest) last w := by
      simpa only [Latest, hperm.mem_iff] using hw
    rcases ((h.perm hperm).latest_iff hwrites).mp hw' with hval' | ⟨hnone, -⟩
    · exact Option.some.inj (hval.symm.trans hval')
    · cases hnone.symm.trans hval
  · rcases hw with ⟨x, hx, hval⟩ | ⟨-, hlast'⟩
    · cases (hnone x hx).symm.trans hval
    · exact Option.some.inj (hlast.symm.trans hlast')

/-! ### One operation -/

/-- The calls under way behind an operation. -/
def goOn (r : PauseOp ⊕ Bool) (rest : List PauseOp) : List PauseOp := r.getLeft?.toList ++ rest

@[simp] theorem goOn_inl : goOn (.inl o) rest = o :: rest := rfl

@[simp] theorem goOn_inr {b : Bool} : goOn (.inr b) rest = rest := rfl

theorem countP_cons_toNat (f : PauseOp → Bool) :
    (o :: rest).countP f = rest.countP f + (f o).toNat := by
  rw [List.countP_cons]
  cases f o <;> rfl

variable {r : PauseOp ⊕ Bool}

/-- An operation that sends nothing and leaves the lock to those that have it. -/
theorem Guarded.next (h : p.Guarded (o :: rest)) (hchan : p.stateChan = none → p'.stateChan = none)
    (hlock : p'.locked = p.locked ∧ p'.readers = p.readers)
    (ho : o'.writes = o.writes ∧ o'.reads = o.reads)
    (hsend : ∀ v, o' = .send v → p'.stateChan = none)
    (htokens : p'.stateChan.toList.length + o'.inHand.toNat ≤
      p.stateChan.toList.length + o.inHand.toNat) : p'.Guarded (o' :: rest) where
  locked := by
    rw [hlock.1, h.locked, countP_cons_toNat, countP_cons_toNat, ho.1]
  readers := by
    rw [hlock.2, h.readers, countP_cons_toNat, countP_cons_toNat, ho.2]
  excl := by
    rw [hlock.1, hlock.2]
    exact h.excl
  sends := fun v hin => by
    rcases List.mem_cons.mp hin with rfl | hin
    · exact hsend v rfl
    · exact hchan (h.sends v (List.mem_cons_of_mem _ hin))
  tokens := by
    have ht := h.tokens
    rw [Pause.tokens, countP_cons_toNat] at ht ⊢
    omega

theorem Guarded.op (h : p.Guarded (o :: rest)) (hs : p.op o = some (p', r)) :
    p'.Guarded (goOn r rest) := by
  have hsends : ∀ v, .send v ∈ rest → p.stateChan = none :=
    fun v hin => h.sends v (List.mem_cons_of_mem _ hin)
  have hl := h.locked
  have hr := h.readers
  have ht := h.tokens
  rw [countP_cons_toNat] at hl hr
  rw [Pause.tokens, countP_cons_toNat] at ht
  cases o with
  | lock v =>
      obtain ⟨⟨hfree, hnone⟩, heq⟩ := Option.ite_none_right_eq_some.mp hs
      cases heq
      rw [hfree] at hl
      refine ⟨?_, hr.trans (countP_cons_toNat _).symm, fun _ => hnone, fun w hin => ?_, ?_⟩
      · rw [goOn_inl, countP_cons_toNat, Nat.eq_zero_of_add_eq_zero_right hl.symm]
        rfl
      · exact hsends w (List.mem_of_ne_of_mem (by simp) hin)
      · rwa [goOn_inl, Pause.tokens, countP_cons_toNat]
  | drain v =>
      cases hs
      exact h.next (fun _ => rfl) ⟨rfl, rfl⟩ ⟨rfl, rfl⟩ (fun _ _ => rfl) (Nat.zero_le _)
  | send v =>
      obtain ⟨-, heq⟩ := Option.ite_none_right_eq_some.mp hs
      cases heq
      -- nobody else is past the lock, so that there is no other token
      have hhand : rest.countP PauseOp.inHand = 0 :=
        List.countP_eq_zero.mpr fun x hx => by simp [(h.quiet rfl hx).2]
      refine ⟨hl.trans (countP_cons_toNat _).symm, hr.trans (countP_cons_toNat _).symm, h.excl,
        fun w hin => ?_, ?_⟩
      · cases (h.quiet rfl (List.mem_of_ne_of_mem (by simp) hin)).1
      · rw [goOn_inl, Pause.tokens, countP_cons_toNat, hhand]
        exact Nat.le_refl _
  | unlock v =>
      cases hs
      have hle := Bool.toNat_le p.locked
      simp only [PauseOp.writes, Bool.toNat_true] at hl
      refine ⟨?_, hr, (nomatch ·), hsends, ht⟩
      rw [goOn_inr, Bool.toNat_false]
      omega
  | rlock =>
      obtain ⟨hfree, heq⟩ := Option.ite_none_right_eq_some.mp hs
      cases heq
      refine ⟨hl.trans (countP_cons_toNat _).symm, ?_, fun hl' => ?_, fun w hin => ?_, ?_⟩
      · rw [goOn_inl, countP_cons_toNat, hr]
        rfl
      · cases hfree.symm.trans hl'
      · exact hsends w (List.mem_of_ne_of_mem (by simp) hin)
      · rwa [goOn_inl, Pause.tokens, countP_cons_toNat]
  | receive =>
      simp only [Pause.op] at hs
      split at hs
      · rename_i v hv
        cases hs
        refine h.next (fun _ => rfl) ⟨rfl, rfl⟩ ⟨rfl, rfl⟩ (fun _ _ => rfl) ?_
        rw [hv]
        exact Nat.le_refl _
      · cases hs
        exact h.next id ⟨rfl, rfl⟩ ⟨rfl, rfl⟩ (fun _ he => nomatch he) (Nat.le_refl _)
  | putBack v =>
      obtain ⟨hempty, heq⟩ := Option.ite_none_right_eq_some.mp hs
      cases heq
      refine ⟨hl.trans (countP_cons_toNat _).symm, hr.trans (countP_cons_toNat _).symm, h.excl,
        fun w hin => ?_, ?_⟩
      · exact absurd (List.mem_of_ne_of_mem (by simp) hin) (h.not_send rfl)
      · rw [hempty] at ht
        rw [goOn_inl, Pause.tokens, countP_cons_toNat]
        simp only [PauseOp.inHand, Bool.toNat_true, Option.toList, List.length_nil] at ht
        simp only [PauseOp.inHand, Bool.toNat_false, Option.toList, List.length_singleton]
        omega
  | runlock b =>
      cases hs
      refine ⟨hl, ?_, fun hl' => ?_, hsends, ht⟩
      · rw [goOn_inr, hr]
        rfl
      · rw [h.excl hl']

/-- What is behind an operation, where `last` is counted as of the call's return. -/
def lastAfter (last : Option PauseState) : PauseOp → Option PauseState
  | .unlock v => some v
  | _ => last

theorem Agrees.op (h : p.Agrees (o :: rest) waits last) (hg : p.Guarded (o :: rest))
    (hs : p.op o = some (p', r)) : p'.Agrees (goOn r rest) waits (lastAfter last o) := by
  cases o with
  | lock v | rlock =>
      obtain ⟨-, heq⟩ := Option.ite_none_right_eq_some.mp hs
      cases heq
      exact h.congr (fun w => by simp [Token]) (fun w => by simp [Latest, PauseOp.value, lastAfter])
        fun w => by simp
  | drain v =>
      cases hs
      -- the channel is empty, and the call is about to send
      have hlatest {w : PauseState} : Latest (.send v :: rest) last w ↔ v = w :=
        (hg.latest_iff rfl).trans (by simp [PauseOp.value])
      have hsend {w : PauseState} : .send w ∈ .send v :: rest ↔ v = w :=
        (hg.send_mem_iff rfl).trans (by simp)
      refine ⟨fun w hw => ?_, fun hp => .inr (.inl (hsend.mpr (hlatest.mp hp))), fun _ => ?_⟩
      · cases (hg.token_iff rfl rfl).mp hw
      · cases v with
        | paused => exact .inl (hlatest.mpr rfl)
        | running => exact .inr (.inr (hsend.mpr rfl))
  | send v =>
      obtain ⟨-, heq⟩ := Option.ite_none_right_eq_some.mp hs
      cases heq
      have hlatest {w : PauseState} : Latest (.unlock v :: rest) last w ↔ v = w :=
        (hg.latest_iff rfl).trans (by simp [PauseOp.value])
      have htoken {w : PauseState} :
          Token { p with stateChan := some v } (.unlock v :: rest) w ↔ v = w :=
        (hg.token_iff rfl rfl).trans (by simp)
      refine ⟨fun w hw => hlatest.mpr (htoken.mp hw), fun hp => .inl (htoken.mpr (hlatest.mp hp)),
        fun _ => ?_⟩
      cases v with
      | paused => exact .inl (hlatest.mpr rfl)
      | running => exact .inr (.inl (htoken.mpr rfl))
  | unlock v =>
      cases hs
      have hrest : ∀ x ∈ rest, x.value = none := fun x hx => (hg.quiet rfl hx).1
      have hnone (w : PauseState) : ¬ ∃ x ∈ rest, x.value = some w := by
        rintro ⟨x, hx, hval⟩
        cases (hrest x hx).symm.trans hval
      refine h.congr (fun w => by simp [Token]) (fun w => ?_) fun w => by simp
      rw [hg.latest_iff rfl, goOn_inr, Latest, or_iff_right (hnone w)]
      simpa [PauseOp.value, lastAfter] using fun _ => hrest
  | receive =>
      simp only [Pause.op] at hs
      split at hs
      · rename_i v hv
        cases hs
        refine h.congr (fun w => ?_) (fun w => by simp [Latest, PauseOp.value, lastAfter])
          fun w => by simp
        simp [Token, take, hv, eq_comm]
      · cases hs
        exact h.congr (fun w => by simp [Token])
          (fun w => by simp [Latest, PauseOp.value, lastAfter]) fun w => by simp
  | putBack v =>
      obtain ⟨hempty, heq⟩ := Option.ite_none_right_eq_some.mp hs
      cases heq
      refine h.congr (fun w => ?_) (fun w => by simp [Latest, PauseOp.value, lastAfter])
        fun w => by simp
      simp [Token, hempty, eq_comm]
  | runlock b =>
      cases hs
      exact h.congr (fun w => by simp [Token]) (fun w => by simp [Latest, PauseOp.value, lastAfter])
        fun w => by simp

/-- A call that begins. -/
theorem Guarded.begins (h : p.Guarded ops) (hw : o.writes = false) (hr : o.reads = false)
    (ho : o.inHand = false) : p.Guarded (o :: ops) where
  locked := by rw [countP_cons_toNat, hw, h.locked]; rfl
  readers := by rw [countP_cons_toNat, hr, h.readers]; rfl
  excl := h.excl
  sends := fun v hin => by
    rcases List.mem_cons.mp hin with rfl | hin
    · cases hw
    · exact h.sends v hin
  tokens := by
    rw [Pause.tokens, countP_cons_toNat, ho]
    exact h.tokens

theorem Agrees.begins (h : p.Agrees ops waits last) (hv : o.value = none)
    (ho : o.inHand = false) : p.Agrees (o :: ops) waits last := by
  refine h.congr (fun w => or_congr_right ?_) (fun w => by simp [Latest, hv]) fun w => ?_
  · refine ⟨fun hin => List.mem_of_ne_of_mem ?_ hin, List.mem_cons_of_mem o⟩
    rintro rfl
    cases ho
  · refine ⟨fun hin => List.mem_of_ne_of_mem ?_ hin, List.mem_cons_of_mem o⟩
    rintro rfl
    cases hv

/-! ### The waiter -/

theorem Guarded.take (h : p.Guarded ops) : p.take.Guarded ops where
  locked := h.locked
  readers := h.readers
  excl := h.excl
  sends := fun _ _ => rfl
  tokens := by
    have ht := h.tokens
    unfold Pause.tokens at ht ⊢
    simp only [Pause.take, Option.toList, List.length_nil]
    omega

theorem Token.of_take (h : p.take.Token ops v) : p.Token ops v :=
  h.imp_left fun h => nomatch h

/-- The waiter takes the token of a `Pause`, and waits. -/
theorem Agrees.take_paused (h : p.Agrees ops waits last) (hchan : p.stateChan = some .paused) :
    p.take.Agrees ops true last where
  token := fun v hv => h.token v hv.of_take
  shut := fun _ => .inr (.inr rfl)
  woken := fun _ => .inl (h.token _ (.inl hchan))

/-- The waiter takes the token of a `Resume`, and returns. -/
theorem Agrees.take_running (h : p.Agrees ops waits last) (hg : p.Guarded ops)
    (hchan : p.stateChan = some .running) : p.take.Agrees ops false last where
  token := fun v hv => h.token v hv.of_take
  shut := fun hp => nomatch hg.latest_unique hp (h.token _ (.inl hchan))
  woken := (nomatch ·)

end Pause

/-! ### Runs -/

namespace PauseSystem
variable {s s' : PauseSystem} {moves : List PauseMove}

/-- The lock and the token are in order, and while the waiter's call is not released the controller
is paused. -/
structure Orderly (s : PauseSystem) : Prop where
  guarded : s.pause.Guarded s.callers
  agrees : s.pause.Agrees s.callers (s.waiter == .wait) s.last
  shut : s.waiter ≠ .idle → s.released = false → s.last = some .paused

theorem orderly_start : start.Orderly where
  guarded := ⟨rfl, rfl, fun _ => rfl, fun _ _ => rfl, Nat.zero_le _⟩
  agrees := by
    refine ⟨fun v hv => ?_, fun hp => ?_, (nomatch ·)⟩
    · rcases hv with hv | hv <;> cases hv
    · rcases hp with ⟨o, ho, -⟩ | ⟨-, hlast⟩
      · cases ho
      · cases hlast
  shut := fun h => absurd rfl h

namespace Orderly

theorem begins (h : s.Orderly) {o : PauseOp} (hw : o.writes = false) (hr : o.reads = false)
    (hv : o.value = none) (ho : o.inHand = false) :
    Orderly { s with callers := o :: s.callers } :=
  ⟨h.guarded.begins hw hr ho, h.agrees.begins hv ho, h.shut⟩

theorem go (h : s.Orderly) {i : ℕ} (hs : s.step (.go i) = some s') : s'.Orderly := by
  obtain ⟨o, hget, hop⟩ := Option.bind_eq_some_iff.mp hs
  obtain ⟨⟨p, r⟩, hp, heq⟩ := Option.map_eq_some_iff.mp hop
  have hperm : s.callers.Perm (o :: s.callers.eraseIdx i) := by
    obtain ⟨hi, rfl⟩ := List.getElem?_eq_some_iff.mp hget
    exact (List.getElem_cons_eraseIdx_perm hi).symm
  have hg := h.guarded.perm hperm
  have hguarded := hg.op hp
  have hagrees := (h.agrees.perm hperm).op hg hp
  cases r with
  | inl o' =>
      cases heq
      have hlast : Pause.lastAfter s.last o = s.last := by
        cases o with
        | unlock v => cases hp
        | lock v | drain v | send v | rlock | receive | putBack v | runlock b => rfl
      rw [hlast] at hagrees
      exact ⟨hguarded, hagrees, h.shut⟩
  | inr b =>
      cases heq
      cases o with
      | unlock v =>
          refine ⟨hguarded, hagrees, fun _ hr => ?_⟩
          have hv : (v != .paused) = false := (Bool.or_eq_false_iff.mp hr).2
          exact congrArg some (by simpa using hv)
      | lock v | drain v | send v | rlock | receive | putBack v | runlock b =>
          exact ⟨hguarded, hagrees, h.shut⟩

end Orderly

/-- What the waiter finds: the token of a `Pause`, that of a `Resume`, or nothing. -/
theorem look_cases (hs : s.step .look = some s') :
    (s.pause.stateChan = some .paused ∧ s.waiter ≠ .idle ∧
      s' = { s with pause := s.pause.take, waiter := .wait }) ∨
    (s.pause.stateChan = some .running ∧ s.waiter ≠ .idle ∧
      s' = { s with
        pause := s.pause.take, waiter := .idle, returns := s.returns ++ [s.released] }) ∨
    (s.pause.stateChan = none ∧ s.waiter = .check ∧
      s' = { s with waiter := .idle, returns := s.returns ++ [s.released] }) := by
  cases hwaiter : s.waiter with
  | idle => simp [step, hwaiter] at hs
  | check | wait =>
      simp only [step, hwaiter, Pause.step] at hs
      split at hs
      · rename_i hchan
        cases hs
        exact .inl ⟨hchan, by simp, rfl⟩
      · rename_i hchan
        cases hs
        exact .inr (.inl ⟨hchan, by simp, rfl⟩)
      · rename_i hchan
        cases hs <;> exact .inr (.inr ⟨hchan, rfl, rfl⟩)

/-- Only a look makes the waiter return. -/
theorem returns_step {m : PauseMove} (hs : s.step m = some s') :
    s'.returns = s.returns ∨
      m = .look ∧ s'.waiter = .idle ∧ s'.returns = s.returns ++ [s.released] := by
  cases m with
  | pause | resume | isPaused =>
      cases hs
      exact .inl rfl
  | go i =>
      obtain ⟨o, -, hop⟩ := Option.bind_eq_some_iff.mp hs
      obtain ⟨⟨p, r⟩, -, rfl⟩ := Option.map_eq_some_iff.mp hop
      cases r with
      | inl o' => exact .inl rfl
      | inr b => cases o <;> exact .inl rfl
  | waitIfPaused =>
      obtain ⟨-, heq⟩ := Option.ite_none_right_eq_some.mp hs
      cases heq
      exact .inl rfl
  | look =>
      rcases look_cases hs with ⟨-, -, rfl⟩ | ⟨-, -, rfl⟩ | ⟨-, -, rfl⟩
      · exact .inl rfl
      · exact .inr ⟨rfl, rfl, rfl⟩
      · exact .inr ⟨rfl, rfl, rfl⟩

namespace Orderly

theorem look (h : s.Orderly) (hs : s.step .look = some s') : s'.Orderly := by
  rcases look_cases hs with ⟨hchan, hne, rfl⟩ | ⟨hchan, -, rfl⟩ | ⟨-, hcheck, rfl⟩
  · exact ⟨h.guarded.take, h.agrees.take_paused hchan, fun _ => h.shut hne⟩
  · exact ⟨h.guarded.take, h.agrees.take_running h.guarded hchan, fun hne => absurd rfl hne⟩
  · have hagrees := h.agrees
    rw [hcheck] at hagrees
    exact ⟨h.guarded, hagrees, fun hne => absurd rfl hne⟩

theorem step (h : s.Orderly) {m : PauseMove} (hs : s.step m = some s') : s'.Orderly := by
  cases m with
  | pause | resume | isPaused =>
      cases hs
      exact h.begins rfl rfl rfl rfl
  | go i => exact h.go hs
  | waitIfPaused =>
      obtain ⟨hidle, heq⟩ := Option.ite_none_right_eq_some.mp hs
      cases heq
      refine ⟨h.guarded, ?_, fun _ hr => by simpa using hr⟩
      have hagrees := h.agrees
      rw [hidle] at hagrees
      exact hagrees
  | look => exact h.look hs

theorem of_run {ok : PauseSystem → PauseMove → Prop}
    (hrun : Run PauseSystem.step ok PauseSystem.start moves s) : s.Orderly :=
  hrun.invariant (fun _ _ _ h _ hs => h.step hs) orderly_start

/-- Whoever sends finds the channel empty. -/
theorem stateChan_of_away (h : s.Orderly) {o : PauseOp} (ho : o ∈ s.callers)
    (haway : o.away = true) : s.pause.stateChan = none := by
  cases o with
  | send v => exact h.guarded.sends v ho
  | putBack v =>
      have htokens := h.guarded.tokens
      have hhand : 0 < s.callers.countP PauseOp.inHand := List.countP_pos_iff.mpr ⟨_, ho, rfl⟩
      unfold Pause.tokens at htokens
      have hempty : s.pause.stateChan.toList.length = 0 := by omega
      simpa using hempty
  | lock v | drain v | unlock v | rlock | receive | runlock b => cases haway

end Orderly

/-- **One token, room for whoever sends, and no wake-up is lost**, with any number of callers: there
is at most one token, in the channel or taken out of it; a call that is to send finds the channel
empty; and if the last `Pause` or `Resume` that returned is a `Resume` and none is behind its drain,
which is so in particular if none is under way, a waiter that waits is woken by a token that is in
the channel or about to be put back. -/
theorem woken_of_run (hrun : Run step anyStep start moves s) :
    s.pause.tokens s.callers ≤ 1 ∧
      (∀ o ∈ s.callers, o.away = true → s.pause.stateChan = none) ∧
      ((∀ o ∈ s.callers, o.value = none) → s.last = some .running → s.waiter = .wait →
        s.pause.stateChan = some .running ∨ .putBack .running ∈ s.callers) := by
  have h := Orderly.of_run hrun
  refine ⟨h.guarded.tokens, fun o ho haway => h.stateChan_of_away ho haway,
    fun hnone hlast hwait => ?_⟩
  rcases h.agrees.woken (by rw [hwait]; rfl) with hpaused | htoken | hsend
  · rcases hpaused with ⟨o, ho, hval⟩ | ⟨-, hlast'⟩
    · cases (hnone o ho).symm.trans hval
    · cases hlast.symm.trans hlast'
  · exact htoken
  · cases hnone _ hsend

/-- When the waiter looks no `Resume` has still to return, and when it looks for the first time no
token is out of the channel. -/
def careful (s : PauseSystem) : PauseMove → Prop
  | .look => .unlock .running ∉ s.callers ∧
      (s.waiter = .check → ∀ o ∈ s.callers, o.away = false)
  | _ => True

instance (s : PauseSystem) : (m : PauseMove) → Decidable (s.careful m)
  | .look => inferInstanceAs (Decidable (_ ∧ _))
  | .pause | .resume | .isPaused | .go _ | .waitIfPaused => inferInstanceAs (Decidable True)

/-- A look that makes the waiter return. -/
theorem Orderly.released_of_look (h : s.Orderly) (hok : s.careful .look)
    (hs : s.step .look = some s') : s'.waiter = .idle → s.released = true := by
  intro hidle
  by_contra hr
  have hr : s.released = false := Bool.not_eq_true _ ▸ hr
  rcases look_cases hs with ⟨-, -, rfl⟩ | ⟨hchan, hne, rfl⟩ | ⟨hchan, hcheck, rfl⟩
  · cases hidle
  · -- the token is that of the latest, which is a `Pause`
    have hlast := h.shut hne hr
    rcases h.agrees.token _ (.inl hchan) with ⟨o, ho, hval⟩ | ⟨-, hlast'⟩
    · cases o with
      | unlock v =>
          cases hval
          exact hok.1 ho
      | send v => cases hchan.symm.trans (h.guarded.sends v ho)
      | lock v | drain v | rlock | receive | putBack v | runlock b => cases hval
    · cases hlast.symm.trans hlast'
  · -- the channel is empty, and nobody has the token
    have hlast := h.shut (by rw [hcheck]; simp) hr
    have haway := hok.2 hcheck
    have hlatest : Pause.Latest s.callers s.last .paused := by
      by_cases hsome : ∃ o ∈ s.callers, o.value ≠ none
      · obtain ⟨o, ho, hval⟩ := hsome
        refine .inl ⟨o, ho, ?_⟩
        cases o with
        | unlock v =>
            cases v with
            | paused => rfl
            | running => exact absurd ho hok.1
        | send v => cases haway _ ho
        | lock v | drain v | rlock | receive | putBack v | runlock b => exact absurd rfl hval
      · refine .inr ⟨fun o ho => ?_, hlast⟩
        by_contra hval
        exact hsome ⟨o, ho, hval⟩
    rcases h.agrees.shut hlatest with (hin | hin) | hin | hwait
    · cases hchan.symm.trans hin
    · cases haway _ hin
    · cases haway _ hin
    · rw [hcheck] at hwait
      cases hwait

/-- **A paused waiter stays paused**: a call of `WaitIfPaused` returns only if at some moment of it
the `Pause` or `Resume` that returned last was no `Pause`, provided that its first look does not
meet a token that is out of the channel, and no look a `Resume` that has sent and not returned. -/
theorem released_of_careful (hrun : Run step careful start moves s) :
    ∀ b ∈ s.returns, b = true := by
  have hkept (s : PauseSystem) (m : PauseMove) (s' : PauseSystem)
      (h : s.Orderly ∧ ∀ b ∈ s.returns, b = true) (hok : s.careful m)
      (hs : s.step m = some s') : s'.Orderly ∧ ∀ b ∈ s'.returns, b = true := by
    refine ⟨h.1.step hs, ?_⟩
    rcases returns_step hs with heq | ⟨rfl, hidle, heq⟩
    · rw [heq]
      exact h.2
    · intro b hb
      rw [heq] at hb
      rcases List.mem_append.mp hb with hb | hb
      · exact h.2 b hb
      · rw [List.mem_singleton.mp hb]
        exact h.1.released_of_look hok hs hidle
  exact (hrun.invariant hkept ⟨orderly_start, fun b hb => nomatch hb⟩).2

/-! ### A pause and a look -/

/-- A `Pause`, from the lock to its release. -/
def onePause : List PauseMove := [.pause, .go 0, .go 0, .go 0, .go 0]

/-- The waiter takes the token of the `Pause` and waits; a `Resume`; then `IsPaused` has the token
of it in hand. -/
def wakeUp : List PauseMove :=
  onePause ++ [.waitIfPaused, .look, .resume, .go 0, .go 0, .go 0, .go 0, .isPaused, .go 0, .go 0]

theorem woken_of_run_wakeUp : ∃ s, Run step anyStep start wakeUp s ∧ s.waiter = .wait ∧
    s.pause.stateChan = none ∧ .putBack .running ∈ s.callers ∧ s.pause.tokens s.callers ≤ 1 := by
  obtain ⟨s, hs, hcheck⟩ := exists_exec (P := fun s : PauseSystem =>
      decide (s.waiter = .wait ∧ s.last = some .running ∧ s.pause.stateChan = none ∧
        ∀ o ∈ s.callers, o.value = none))
    (show (exec step start wakeUp).any _ = true by decide)
  obtain ⟨hwait, hlast, hchan, hnone⟩ := of_decide_eq_true hcheck
  have hrun : Run step anyStep start wakeUp s := .of_exec hs fun _ _ _ => trivial
  obtain ⟨htokens, -, hwoken⟩ := woken_of_run hrun
  refine ⟨s, hrun, hwait, hchan, ?_, htokens⟩
  rcases hwoken hnone hlast hwait with hin | hin
  · cases hchan.symm.trans hin
  · exact hin

theorem released_of_careful_wakeUp : ∃ s,
    Run step careful start (wakeUp ++ [.go 0, .go 0, .look]) s ∧ s.returns.length = 1 ∧
      ∀ b ∈ s.returns, b = true := by
  obtain ⟨s, hs, hlength⟩ := exists_exec (P := fun s : PauseSystem => decide (s.returns.length = 1))
    (show (exec (guarded step careful) start (wakeUp ++ [.go 0, .go 0, .look])).any _ = true by
      decide)
  have hrun := Run.of_exec_guarded hs
  exact ⟨s, hrun, of_decide_eq_true hlength, released_of_careful hrun⟩

/-- `IsPaused` has the token in hand when the waiter looks: the call begins behind a `Pause`, there
is no `Resume`, and it returns. -/
theorem not_released_of_isPaused : ∃ s,
    Run step anyStep start (onePause ++ [.isPaused, .go 0, .go 0, .waitIfPaused, .look]) s ∧
      s.last = some .paused ∧ s.callers = [.putBack .paused] ∧ s.waiter = .idle ∧
        s.returns = [false] := by
  obtain ⟨s, hs, hcheck⟩ := exists_exec (P := fun s : PauseSystem =>
      decide (s.last = some .paused ∧ s.callers = [.putBack .paused] ∧ s.waiter = .idle ∧
        s.returns = [false]))
    (show (exec step start
      (onePause ++ [.isPaused, .go 0, .go 0, .waitIfPaused, .look])).any _ = true by decide)
  exact ⟨s, .of_exec hs fun _ _ _ => trivial, of_decide_eq_true hcheck⟩

end PauseSystem

end Bdr.Client
