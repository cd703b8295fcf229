import Mathlib.Algebra.Order.BigOperators.Group.List
import Mathlib.Algebra.Order.Group.Nat
import Mathlib.Data.Nat.Cast.Basic
import Bdr.Support.Pool
import Bdr.Support.Runs

/-!
# Support — Pipeline

Pools in a row, each of which feeds the next: why they do not wait for one another for good, and how
long they can go on.

* `Pool.awake`: a goroutine of a pool that is not finished can go on, unless the channel is empty
  and open, so that the stage before can send on it;
* `Pool.Stirs`: the goroutine that `Pool.awake` finds, and where else there is one;
* `Pool.Goes`: what a goroutine that ranges over the channel does, and what stays as it is;
* `Pool.cost g f`: the moves that are left to a pool, where `g` and `f` say how many an item and a
  task may still take in this stage and the next ones;
* `Run.countP_le`: a run whose actions use up a measure is bounded by it.
-/

namespace Bdr

/-! ### Progress -/

namespace Pool
variable {α τ : Type*} {p p' : Pool α τ} {i cap : ℕ} {t : τ} {a : α} {enter : α → τ}

theorem receive_cons {q : List α} (hi : p.workers[i]? = some .ranging) (hq : p.queue = a :: q)
    (enter : α → τ) : ∃ p', p.receive enter i = some p' :=
  ⟨{ p with queue := q, workers := p.workers.set i (.busy (enter a)) }, by
    unfold receive
    rw [hi, hq]⟩

theorem receive_closed (hi : p.workers[i]? = some .ranging) (hc : p.closed = true)
    (enter : α → τ) : ∃ p', p.receive enter i = some p' := by
  cases hq : p.queue with
  | nil =>
      refine ⟨p.setWorker i .done, ?_⟩
      unfold receive
      rw [hi, hq]
      exact if_pos hc
  | cons a q => exact receive_cons hi hq enter

theorem send_of_nil (hq : p.queue = []) (hc : p.closed = false) (hcap : 0 < cap) (a : α) :
    ∃ p', p.send cap a = some p' :=
  ⟨_, send_eq_some.mpr ⟨⟨by rwa [hq], hc⟩, rfl⟩⟩

/-- **A pool that is not finished** is busy, or can receive, or waits for the stage before. -/
theorem awake (hf : ¬ p.Finished) (enter : α → τ) : (∃ i t, p.busy? i = some t) ∨
    (∃ i p', p.busy? i = none ∧ p.receive enter i = some p') ∨
      p.queue = [] ∧ p.closed = false := by
  simp only [Finished, not_forall] at hf
  obtain ⟨w, hw, hne⟩ := hf
  obtain ⟨i, hi⟩ := List.getElem?_of_mem hw
  cases w with
  | busy t => exact .inl ⟨i, t, busy?_eq_some.mpr hi⟩
  | done => exact absurd rfl hne
  | ranging =>
      have hb : p.busy? i = none := by simp [busy?, hi]
      cases hc : p.closed with
      | true =>
          obtain ⟨p', hp'⟩ := receive_closed hi hc enter
          exact .inr (.inl ⟨i, p', hb, hp'⟩)
      | false =>
          cases hq : p.queue with
          | nil => exact .inr (.inr ⟨rfl, rfl⟩)
          | cons a q =>
              obtain ⟨p', hp'⟩ := receive_cons hi hq enter
              exact .inr (.inl ⟨i, p', hb, hp'⟩)

/-- Goroutine `i` is busy, or can receive. -/
def Stirs (enter : α → τ) (i : ℕ) (p : Pool α τ) : Prop :=
  (∃ t, p.busy? i = some t) ∨ ∃ p', p.receive enter i = some p'

theorem Stirs.lt (h : p.Stirs enter i) : i < p.workers.length := by
  rcases h with ⟨t, ht⟩ | ⟨p', hp'⟩
  · exact (List.getElem?_eq_some_iff.mp (busy?_eq_some.mp ht)).1
  · exact (List.getElem?_eq_some_iff.mp (receive_cases hp').1).1

/-- A pool whose channel is closed goes on until it is finished. -/
theorem stirs_of_closed (hc : p.closed = true) (hf : ¬ p.Finished) (enter : α → τ) :
    ∃ i, p.Stirs enter i := by
  rcases awake hf enter with ⟨i, t, ht⟩ | ⟨i, p', -, hp'⟩ | ⟨-, ho⟩
  · exact ⟨i, .inl ⟨t, ht⟩⟩
  · exact ⟨i, .inr ⟨p', hp'⟩⟩
  · cases hc.symm.trans ho

/-- A pool on whose channel a send waits goes on, if it is attended. -/
theorem Attended.stirs (h : p.Attended cap) (hcap : 0 < cap) (hs : p.send cap a = none)
    (enter : α → τ) : ∃ i, p.Stirs enter i := by
  have hrelieved : p.Relieved cap enter a := h.relieved hcap
  rcases hrelieved with ⟨p', hp'⟩ | ⟨i, t, ht⟩ | ⟨i, p₁, _, hp₁, -⟩
  · cases hs.symm.trans hp'
  · exact ⟨i, .inl ⟨t, ht⟩⟩
  · exact ⟨i, .inr ⟨p₁, hp₁⟩⟩

/-! ### What a goroutine leaves as it is -/

/-- One goroutine receives, or goes on with what it has, if any does. -/
inductive Goes (enter : α → τ) (p : Pool α τ) : Pool α τ → Prop where
  | same : Goes enter p p
  | receive {i : ℕ} {p' : Pool α τ} (h : p.receive enter i = some p') : Goes enter p p'
  | set {i : ℕ} {w : Worker τ} (hw : w ≠ .done) : Goes enter p (p.setWorker i w)

/-- At most `cap` items are queued, for at most `n` goroutines. -/
structure Within (cap n : ℕ) (p : Pool α τ) : Prop where
  queue : p.queue.length ≤ cap
  workers : p.workers.length ≤ n

/-- The channel is open, and no goroutine has returned; there may be none. -/
structure Open (p : Pool α τ) : Prop where
  not_closed : p.closed = false
  not_done : .done ∉ p.workers

section Goes
variable {n : ℕ}

theorem within_start {k : ℕ} (h : k ≤ n) : (start k : Pool α τ).Within cap n :=
  ⟨Nat.zero_le cap, by simpa [start] using h⟩

theorem Within.goes (h : p.Within cap n) (hg : p.Goes enter p') : p'.Within cap n := by
  cases hg with
  | same => exact h
  | set hw => exact ⟨h.queue, by simpa [Pool.setWorker] using h.workers⟩
  | receive hr =>
      obtain ⟨-, ⟨a, q, hq, rfl⟩ | ⟨-, -, rfl⟩⟩ := receive_cases hr
      · have hle := h.queue
        rw [hq, List.length_cons] at hle
        exact ⟨Nat.le_of_succ_le hle, by simpa using h.workers⟩
      · exact ⟨h.queue, by simpa [Pool.setWorker] using h.workers⟩

theorem Within.send (h : p.Within cap n) (hs : p.send cap a = some p') : p'.Within cap n := by
  obtain ⟨⟨hlt, -⟩, rfl⟩ := send_eq_some.mp hs
  refine ⟨?_, h.workers⟩
  rw [List.length_append]
  exact hlt

theorem Within.close (h : p.Within cap n) : p.close.Within cap n := ⟨h.queue, h.workers⟩

theorem open_start (n : ℕ) : (start n : Pool α τ).Open := ⟨rfl, by simp [start]⟩

theorem closed_goes (hg : p.Goes enter p') : p'.closed = p.closed := by
  cases hg with
  | same => rfl
  | set hw => rfl
  | receive hr => exact closed_receive hr

theorem Open.goes (h : p.Open) (hg : p.Goes enter p') : p'.Open := by
  refine ⟨(closed_goes hg).trans h.not_closed, fun hd => ?_⟩
  cases hg with
  | same => exact h.not_done hd
  | set hw =>
      rcases List.mem_or_eq_of_mem_set hd with hd | hd
      · exact h.not_done hd
      · exact hw hd.symm
  | receive hr =>
      obtain ⟨-, ⟨a, q, -, rfl⟩ | ⟨-, hc, rfl⟩⟩ := receive_cases hr
      · rcases List.mem_or_eq_of_mem_set hd with hd | hd
        · exact h.not_done hd
        · cases hd
      · cases h.not_closed.symm.trans hc

theorem Open.send (h : p.Open) (hs : p.send cap a = some p') : p'.Open := by
  obtain ⟨-, rfl⟩ := send_eq_some.mp hs
  exact ⟨h.not_closed, h.not_done⟩

theorem Open.attended (h : p.Open) (hw : p.Within cap n) (hne : p.workers ≠ []) :
    p.Attended cap :=
  ⟨⟨hne, fun hd => absurd hd h.not_done⟩, h.not_closed, hw.queue⟩

end Goes

end Pool

/-! ### What is left to be done -/

/-- The moves that are left to a goroutine, where a task takes `f`. -/
def Worker.cost {τ : Type*} (f : τ → ℕ) : Worker τ → ℕ
  | .ranging => 1
  | .busy t => f t + 1
  | .done => 0

namespace Pool
variable {α τ : Type*} {p p' : Pool α τ} {i cap : ℕ} {t : τ} {a : α} {enter : α → τ}
variable {g : α → ℕ} {f : τ → ℕ}

/-- The moves that are left to the pool, and the one that closes its channel. -/
def cost (g : α → ℕ) (f : τ → ℕ) (p : Pool α τ) : ℕ :=
  (p.queue.map g).sum + (p.workers.map (Worker.cost f)).sum + (!p.closed).toNat

@[simp] theorem cost_start (n : ℕ) : (start n : Pool α τ).cost g f = n + 1 := by
  simp [cost, start, Worker.cost]

theorem sum_cost_set {l : List (Worker τ)} {v w : Worker τ} (h : l[i]? = some v) :
    ((l.set i w).map (Worker.cost f)).sum + v.cost f =
      (l.map (Worker.cost f)).sum + w.cost f := by
  induction l generalizing i with
  | nil => simp at h
  | cons u l ih =>
      cases i with
      | zero =>
          obtain rfl : u = v := by simpa using h
          simp only [List.set_cons_zero, List.map_cons, List.sum_cons]
          omega
      | succ i =>
          have := ih (by simpa using h)
          simp only [List.set_cons_succ, List.map_cons, List.sum_cons]
          omega

/-- Goroutine `i` goes on to something else. -/
theorem cost_setWorker (h : p.busy? i = some t) (w : Worker τ) :
    (p.setWorker i w).cost g f + (f t + 1) = p.cost g f + w.cost f := by
  have := sum_cost_set (f := f) (w := w) (busy?_eq_some.mp h)
  rw [show (Worker.busy t).cost f = f t + 1 from rfl] at this
  simp only [cost, setWorker]
  omega

/-- An item takes more moves in the channel than in a goroutine's hands. -/
theorem cost_receive (h : p.receive enter i = some p') (henter : ∀ a, f (enter a) < g a) :
    p'.cost g f < p.cost g f := by
  obtain ⟨hw, ⟨a, q, hq, rfl⟩ | ⟨-, -, rfl⟩⟩ := receive_cases h
  · have := sum_cost_set (f := f) (w := .busy (enter a)) hw
    have := henter a
    simp only [Worker.cost, cost, hq, List.map_cons, List.sum_cons] at *
    omega
  · have := sum_cost_set (f := f) (w := .done) hw
    simp only [Worker.cost, cost, setWorker] at *
    omega

theorem cost_send (h : p.send cap a = some p') : p'.cost g f = p.cost g f + g a := by
  obtain ⟨-, rfl⟩ := send_eq_some.mp h
  simp only [cost, List.map_append, List.sum_append, List.map_cons, List.map_nil, List.sum_cons,
    List.sum_nil]
  omega

theorem cost_close (h : p.closed = false) : p.close.cost g f + 1 = p.cost g f := by
  simp [cost, close, h]

/-- A pool that holds so many items and goroutines has so much to do. -/
theorem Within.cost_le {n G F : ℕ} (h : p.Within cap n) (hg : ∀ a, g a ≤ G) (hf : ∀ t, f t ≤ F) :
    p.cost g f ≤ cap * G + n * (F + 1) + 1 := by
  have hqueue : (p.queue.map g).sum ≤ p.queue.length * G := by
    simpa using List.sum_le_card_nsmul (p.queue.map g) G (by simpa using fun a _ => hg a)
  have hworker (w : Worker τ) : w.cost f ≤ F + 1 := by
    cases w with
    | ranging => exact Nat.succ_le_succ (Nat.zero_le F)
    | busy t => exact Nat.succ_le_succ (hf t)
    | done => exact Nat.zero_le _
  have hworkers : (p.workers.map (Worker.cost f)).sum ≤ p.workers.length * (F + 1) := by
    simpa using List.sum_le_card_nsmul (p.workers.map (Worker.cost f)) (F + 1)
      (by simpa using fun w _ => hworker w)
  have h₁ := Nat.mul_le_mul_right G h.queue
  have h₂ := Nat.mul_le_mul_right (F + 1) h.workers
  have hopen : (!p.closed).toNat ≤ 1 := Bool.toNat_le _
  unfold cost
  omega

theorem cost_close_le (p : Pool α τ) : p.close.cost g f ≤ p.cost g f := by
  simp [cost, close]

end Pool

/-! ### Bounded runs -/

/-- **A run that uses up a measure**: the actions that count take at least one each. -/
theorem Run.countP_le {σ α : Type*} {step : σ → α → Option σ} {ok : σ → α → Prop} {I : σ → Prop}
    {w : σ → ℕ} {s s' : σ} {as : List α} (h : Run step ok s as s') (counts : α → Bool) (hs : I s)
    (hI : ∀ s a s', I s → ok s a → step s a = some s' → I s')
    (hw : ∀ s a s', I s → ok s a → step s a = some s' →
      w s' + (if counts a then 1 else 0) ≤ w s) : w s' + as.countP counts ≤ w s := by
  induction h with
  | refl => simp
  | more ha h _ ih =>
      have h₁ := ih (hI _ _ _ hs ha h)
      have h₂ := hw _ _ _ hs ha h
      rw [List.countP_cons]
      omega

end Bdr
