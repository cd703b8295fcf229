import Mathlib.Algebra.BigOperators.Group.List.Basic

/-!
# Support — Pool

A pool of goroutines that range over one channel.  Each of them receives an item, is busy with it
(`τ` says how far it has got), and comes back for the next one; when the channel is closed and
empty the loop ends and the goroutine is done.  A goroutine may also return before that, which is
what a pipeline of pools has to reckon with.

* `All P Q`: what the queued items and those in the workers' hands satisfy (`Idle`: there are none);
* `weigh g f`: what is in the pool, summed up in any commutative monoid, so that a pipeline can be
  shown to lose and to duplicate nothing;
* `map f`: the same goroutines with less told of each;
* `Settled`: no goroutine has returned early, so that a finished pool is an empty one;
* `Attended`: the channel is open besides, so that a send does not wait for good.
-/

namespace Bdr

/-- A goroutine of a pool. -/
inductive Worker (τ : Type*) where
  | ranging
  | busy (t : τ)
  | done
  deriving DecidableEq, Repr

/-- A channel and the goroutines that range over it. -/
structure Pool (α τ : Type*) where
  queue : List α
  closed : Bool
  workers : List (Worker τ)
  deriving DecidableEq, Repr

def Worker.isBusy {τ : Type*} : Worker τ → Bool
  | .busy _ => true
  | _ => false

/-- What the goroutine is busy with weighs. -/
def Worker.weigh {τ M : Type*} [Zero M] (f : τ → M) : Worker τ → M
  | .busy t => f t
  | _ => 0

def Worker.map {τ υ : Type*} (f : τ → υ) : Worker τ → Worker υ
  | .ranging => .ranging
  | .busy t => .busy (f t)
  | .done => .done

namespace Pool
variable {α τ : Type*}

/-- `n` goroutines on a new channel. -/
def start (n : ℕ) : Pool α τ := ⟨[], false, List.replicate n .ranging⟩

/-- What goroutine `i` is busy with. -/
def busy? (p : Pool α τ) (i : ℕ) : Option τ :=
  match p.workers[i]? with
  | some (.busy t) => some t
  | _ => none

def setWorker (p : Pool α τ) (i : ℕ) (w : Worker τ) : Pool α τ :=
  { p with workers := p.workers.set i w }

@[simp] theorem queue_setWorker (p : Pool α τ) (i : ℕ) (w : Worker τ) :
    (p.setWorker i w).queue = p.queue := rfl

@[simp] theorem closed_setWorker (p : Pool α τ) (i : ℕ) (w : Worker τ) :
    (p.setWorker i w).closed = p.closed := rfl

/-- Goroutine `i` receives an item, or its loop ends. -/
def receive (enter : α → τ) (p : Pool α τ) (i : ℕ) : Option (Pool α τ) :=
  match p.workers[i]?, p.queue with
  | some .ranging, a :: q =>
      some { p with queue := q, workers := p.workers.set i (.busy (enter a)) }
  | some .ranging, [] => if p.closed then some (p.setWorker i .done) else none
  | _, _ => none

/-- A send on the channel, which has room for `cap` items. -/
def send (cap : ℕ) (p : Pool α τ) (a : α) : Option (Pool α τ) :=
  if p.queue.length < cap ∧ p.closed = false then some { p with queue := p.queue ++ [a] } else none

def close (p : Pool α τ) : Pool α τ := { p with closed := true }

/-- Every goroutine has returned. -/
def Finished (p : Pool α τ) : Prop := ∀ w ∈ p.workers, w = .done

instance [DecidableEq τ] (p : Pool α τ) : Decidable p.Finished :=
  inferInstanceAs (Decidable (∀ w ∈ p.workers, w = .done))

variable {p p' : Pool α τ} {i cap : ℕ} {t : τ} {a : α} {enter : α → τ}

theorem busy?_eq_some : p.busy? i = some t ↔ p.workers[i]? = some (.busy t) := by
  unfold busy?
  split <;> simp_all

theorem busy?_setWorker (h : p.busy? i = some t) (w : Worker τ) :
    (p.setWorker i w).busy? i = match w with
      | .busy u => some u
      | _ => none := by
  obtain ⟨hi, -⟩ := List.getElem?_eq_some_iff.mp (busy?_eq_some.mp h)
  simp only [busy?, setWorker, List.getElem?_set_self hi]
  cases w <;> rfl

theorem receive_cases (h : p.receive enter i = some p') :
    p.workers[i]? = some .ranging ∧
      ((∃ a q, p.queue = a :: q ∧
          p' = { p with queue := q, workers := p.workers.set i (.busy (enter a)) }) ∨
        p.queue = [] ∧ p.closed = true ∧ p' = p.setWorker i .done) := by
  unfold receive at h
  split at h
  · rename_i a q hw hq
    exact ⟨hw, .inl ⟨a, q, hq, (Option.some.inj h).symm⟩⟩
  · rename_i hw hq
    split at h
    · rename_i hc
      exact ⟨hw, .inr ⟨hq, hc, (Option.some.inj h).symm⟩⟩
    · cases h
  · cases h

/-- What goroutine `i` has in its hands after receiving, and what is left in the channel. -/
theorem busy?_receive (h : p.receive enter i = some p') : p.busy? i = none ∧
    ((∃ a, p.queue = a :: p'.queue ∧ p'.busy? i = some (enter a)) ∨
      p.queue = [] ∧ p'.queue = [] ∧ p'.busy? i = none) := by
  obtain ⟨hw, hcases⟩ := receive_cases h
  obtain ⟨hi, -⟩ := List.getElem?_eq_some_iff.mp hw
  refine ⟨by simp [busy?, hw], ?_⟩
  obtain ⟨a, q, hq, rfl⟩ | ⟨hq, -, rfl⟩ := hcases
  · exact .inl ⟨a, hq, by simp [busy?, List.getElem?_set_self hi]⟩
  · exact .inr ⟨hq, hq, by simp [busy?, setWorker, List.getElem?_set_self hi]⟩

theorem workers_ne_receive (h : p.receive enter i = some p') : p'.workers ≠ [] := by
  obtain ⟨hw, hcases⟩ := receive_cases h
  have : p.workers ≠ [] := by
    rintro h0
    simp [h0] at hw
  obtain ⟨a, q, -, rfl⟩ | ⟨-, -, rfl⟩ := hcases <;> simpa [setWorker] using this

theorem send_eq_some : p.send cap a = some p' ↔
    (p.queue.length < cap ∧ p.closed = false) ∧ { p with queue := p.queue ++ [a] } = p' := by
  unfold send
  split <;> simp_all

theorem closed_receive (h : p.receive enter i = some p') : p'.closed = p.closed := by
  obtain ⟨-, ⟨a, q, -, rfl⟩ | ⟨-, -, rfl⟩⟩ := receive_cases h <;> rfl

theorem finished_of_workers (h : p.workers = []) : p.Finished := by simp [Finished, h]

theorem Finished.busy? (h : p.Finished) (i : ℕ) : p.busy? i = none := by
  unfold Pool.busy?
  split
  · rename_i hw
    cases h _ (List.mem_of_getElem? hw)
  · rfl

theorem Finished.receive (h : p.Finished) (enter : α → τ) (i : ℕ) : p.receive enter i = none := by
  cases hr : p.receive enter i with
  | none => rfl
  | some p' => cases h _ (List.mem_of_getElem? (receive_cases hr).1)

/-! ### What the pool holds -/

/-- The queued items satisfy `P`, and what the goroutines are busy with `Q`. -/
structure All (P : α → Prop) (Q : τ → Prop) (p : Pool α τ) : Prop where
  queue : ∀ a ∈ p.queue, P a
  workers : ∀ t, .busy t ∈ p.workers → Q t

section All
variable {P : α → Prop} {Q : τ → Prop}

theorem all_start (n : ℕ) : (start n : Pool α τ).All P Q :=
  ⟨by simp [start], fun t ht => by simp [start] at ht⟩

theorem All.of_busy? (h : p.All P Q) (ht : p.busy? i = some t) : Q t :=
  h.workers t (List.mem_of_getElem? (busy?_eq_some.mp ht))

theorem All.setWorker (h : p.All P Q) {w : Worker τ} (hw : ∀ t, w = .busy t → Q t) :
    (p.setWorker i w).All P Q := by
  refine ⟨h.queue, fun t ht => ?_⟩
  rcases List.mem_or_eq_of_mem_set ht with ht | ht
  · exact h.workers t ht
  · exact hw t ht.symm

theorem All.receive (h : p.All P Q) (hr : p.receive enter i = some p')
    (henter : ∀ a, P a → Q (enter a)) : p'.All P Q := by
  obtain ⟨-, ⟨a, q, hq, rfl⟩ | ⟨-, -, rfl⟩⟩ := receive_cases hr
  · have ha := h.queue
    rw [hq] at ha
    refine ⟨fun b hb => ha b (List.mem_cons_of_mem a hb), ?_⟩
    refine (All.setWorker h (i := i) (w := .busy (enter a)) ?_).workers
    rintro t ⟨⟩
    exact henter a (ha a List.mem_cons_self)
  · exact h.setWorker (by rintro t ⟨⟩)

theorem All.send (h : p.All P Q) (hs : p.send cap a = some p') (ha : P a) : p'.All P Q := by
  obtain ⟨-, rfl⟩ := send_eq_some.mp hs
  refine ⟨fun b hb => ?_, h.workers⟩
  rcases List.mem_append.mp hb with hb | hb
  · exact h.queue b hb
  · exact List.mem_singleton.mp hb ▸ ha

theorem All.close (h : p.All P Q) : p.close.All P Q := ⟨h.queue, h.workers⟩

end All

/-- Nothing is queued, and no goroutine is busy. -/
abbrev Idle (p : Pool α τ) : Prop := p.All (fun _ => False) fun _ => False

instance (p : Pool α τ) : Decidable p.Idle :=
  decidable_of_iff (p.queue.isEmpty = true ∧ ∀ w ∈ p.workers, w.isBusy = false) <| by
    constructor
    · rintro ⟨hq, hw⟩
      refine ⟨by simp [List.isEmpty_iff.mp hq], fun t ht => ?_⟩
      cases hw _ ht
    · rintro ⟨hq, hw⟩
      refine ⟨List.isEmpty_iff.mpr (List.eq_nil_iff_forall_not_mem.mpr hq), fun w hin => ?_⟩
      cases w with
      | busy t => exact (hw t hin).elim
      | ranging | done => rfl

theorem Idle.busy? (h : p.Idle) (i : ℕ) : p.busy? i = none := by
  cases hb : p.busy? i with
  | none => rfl
  | some t => exact (All.of_busy? h hb).elim

theorem Idle.receive (h : p.Idle) (hr : p.receive enter i = some p') : p'.Idle :=
  All.receive h hr fun _ => id

/-! ### What the pool weighs -/

section Weigh
variable {M : Type*} [AddCommMonoid M] {g : α → M} {f : τ → M}

/-- The sum of what is queued and of what the goroutines are busy with. -/
def weigh (g : α → M) (f : τ → M) (p : Pool α τ) : M :=
  (p.queue.map g).sum + (p.workers.map (Worker.weigh f)).sum

@[simp] theorem weigh_start (n : ℕ) : (start n : Pool α τ).weigh g f = 0 := by
  simp [weigh, start, Worker.weigh]

theorem sum_set {l : List (Worker τ)} {v w : Worker τ} (h : l[i]? = some v) :
    ((l.set i w).map (Worker.weigh f)).sum + v.weigh f =
      (l.map (Worker.weigh f)).sum + w.weigh f := by
  induction l generalizing i with
  | nil => simp at h
  | cons u l ih =>
      cases i with
      | zero =>
          obtain rfl : u = v := by simpa using h
          simp only [List.set_cons_zero, List.map_cons, List.sum_cons]
          rw [add_right_comm, add_comm (w.weigh f), add_right_comm]
      | succ i =>
          have := ih (by simpa using h)
          simp only [List.set_cons_succ, List.map_cons, List.sum_cons, add_assoc, this]

/-- Goroutine `i` goes on to something else. -/
theorem weigh_setWorker (h : p.busy? i = some t) (w : Worker τ) :
    (p.setWorker i w).weigh g f + f t = p.weigh g f + w.weigh f := by
  have := sum_set (f := f) (w := w) (busy?_eq_some.mp h)
  simp only [weigh, setWorker, add_assoc] at this ⊢
  rw [show f t = (Worker.busy t).weigh f from rfl, this]

/-- An item received is in the goroutine's hands. -/
theorem weigh_receive (h : p.receive enter i = some p') (henter : ∀ a, f (enter a) = g a) :
    p'.weigh g f = p.weigh g f := by
  obtain ⟨hw, ⟨a, q, hq, rfl⟩ | ⟨-, -, rfl⟩⟩ := receive_cases h
  · have := sum_set (f := f) (w := .busy (enter a)) hw
    simp only [Worker.weigh, add_zero] at this
    simp only [weigh, hq, List.map_cons, List.sum_cons, this, henter]
    rw [add_comm (g a), add_assoc, add_comm (g a)]
  · have := sum_set (f := f) (w := .done) hw
    simp only [Worker.weigh, add_zero] at this
    simp only [weigh, setWorker, this]

theorem weigh_send (h : p.send cap a = some p') : p'.weigh g f = p.weigh g f + g a := by
  obtain ⟨-, rfl⟩ := send_eq_some.mp h
  simp only [weigh, List.map_append, List.sum_append, List.map_cons, List.map_nil, List.sum_cons,
    List.sum_nil, add_zero]
  exact add_right_comm ..

@[simp] theorem weigh_close (p : Pool α τ) : p.close.weigh g f = p.weigh g f := rfl

/-- A pool that is finished weighs what is queued. -/
theorem Finished.weigh (h : p.Finished) : p.weigh g f = (p.queue.map g).sum := by
  have : p.workers.map (Worker.weigh f) = p.workers.map fun _ => 0 :=
    List.map_congr_left fun w hw => by rw [h w hw]; rfl
  simp [Pool.weigh, this]

end Weigh

/-! ### Another account of what the goroutines do -/

section Map
variable {υ : Type*} (f : τ → υ)

/-- The pool, with `f` of what each goroutine is busy with. -/
def map (p : Pool α τ) : Pool α υ := { p with workers := p.workers.map (Worker.map f) }

@[simp] theorem map_start (n : ℕ) : (start n : Pool α τ).map f = start n := by
  simp [map, start, Worker.map]

theorem busy?_map (p : Pool α τ) (i : ℕ) : (p.map f).busy? i = (p.busy? i).map f := by
  simp only [busy?, map, List.getElem?_map]
  rcases p.workers[i]? with _ | _ | t | _ <;> rfl

theorem map_setWorker (p : Pool α τ) (i : ℕ) (w : Worker τ) :
    (p.setWorker i w).map f = (p.map f).setWorker i (w.map f) := by
  simp [map, setWorker, List.map_set]

/-- A goroutine goes on, and nothing of it is told. -/
theorem map_setWorker_of_eq {u : τ} (h : p.busy? i = some t) (hu : f u = f t) :
    (p.setWorker i (.busy u)).map f = p.map f := by
  have hw : (p.map f).workers[i]? = some (.busy (f u)) := by
    simp [map, busy?_eq_some.mp h, Worker.map, hu]
  obtain ⟨hi, hget⟩ := List.getElem?_eq_some_iff.mp hw
  have hset : (p.map f).workers.set i (.busy (f u)) = (p.map f).workers := by
    rw [← hget, List.set_getElem_self]
  rw [map_setWorker]
  exact congrArg (Pool.mk p.queue p.closed) hset

theorem receive_map (enter : α → τ) (p : Pool α τ) (i : ℕ) :
    (p.map f).receive (fun a => f (enter a)) i = (p.receive enter i).map (Pool.map f) := by
  unfold receive
  rw [show (p.map f).workers[i]? = p.workers[i]?.map (Worker.map f) from List.getElem?_map ..,
    show (p.map f).queue = p.queue from rfl, show (p.map f).closed = p.closed from rfl]
  rcases p.workers[i]? with _ | _ | t | _
  · rfl
  · cases p.queue with
    | nil =>
        simp only [Option.map_some, Worker.map]
        split
        · rw [Option.map_some, map_setWorker]
          rfl
        · rfl
    | cons a q => simp [map, Worker.map, List.map_set]
  · rfl
  · rfl

theorem send_map (cap : ℕ) (p : Pool α τ) (a : α) :
    (p.map f).send cap a = (p.send cap a).map (Pool.map f) := by
  unfold send
  split <;> rename_i h
  · rw [if_pos (show p.queue.length < cap ∧ p.closed = false from h)]
    rfl
  · rw [if_neg (show ¬ (p.queue.length < cap ∧ p.closed = false) from h)]
    rfl

theorem finished_map (p : Pool α τ) : (p.map f).Finished ↔ p.Finished := by
  simp only [Finished, map, List.forall_mem_map]
  refine forall₂_congr fun w _ => ?_
  cases w <;> simp [Worker.map]

end Map

/-! ### Returning early -/

/-- There are goroutines, and one has returned only because its loop has ended. -/
structure Settled (p : Pool α τ) : Prop where
  workers_ne : p.workers ≠ []
  of_done : .done ∈ p.workers → p.closed = true ∧ p.queue = []

theorem settled_start {n : ℕ} (hn : 0 < n) : (start n : Pool α τ).Settled :=
  ⟨by simp [start]; omega, fun h => by simp [start] at h⟩

theorem Settled.setWorker (h : p.Settled) {w : Worker τ} (hw : w ≠ .done) :
    (p.setWorker i w).Settled := by
  refine ⟨by simpa [Pool.setWorker] using h.workers_ne, fun hd => ?_⟩
  rcases List.mem_or_eq_of_mem_set hd with hd | hd
  · exact h.of_done hd
  · exact absurd hd.symm hw

theorem Settled.receive (h : p.Settled) (hr : p.receive enter i = some p') : p'.Settled := by
  obtain ⟨-, ⟨a, q, hq, rfl⟩ | ⟨hq, hc, rfl⟩⟩ := receive_cases hr
  · refine ⟨by simpa using h.workers_ne, fun hd => ?_⟩
    rcases List.mem_or_eq_of_mem_set hd with hd | hd
    · have := (h.of_done hd).2
      rw [hq] at this
      cases this
    · cases hd
  · exact ⟨by simpa [Pool.setWorker] using h.workers_ne, fun _ => ⟨hc, hq⟩⟩

theorem Settled.send (h : p.Settled) (hs : p.send cap a = some p') : p'.Settled := by
  obtain ⟨⟨-, hc⟩, rfl⟩ := send_eq_some.mp hs
  refine ⟨h.workers_ne, fun hd => ?_⟩
  have := (h.of_done hd).1
  rw [hc] at this
  cases this

theorem Settled.close (h : p.Settled) : p.close.Settled :=
  ⟨h.workers_ne, fun hd => ⟨rfl, (h.of_done hd).2⟩⟩

/-- **A pool that no goroutine has left early is empty when it is finished.** -/
theorem Settled.finished (h : p.Settled) (hf : p.Finished) : p.closed = true ∧ p.queue = [] := by
  obtain ⟨w, hw⟩ := List.exists_mem_of_ne_nil _ h.workers_ne
  exact h.of_done (hf w hw ▸ hw)

/-! ### Waiting for good -/

/-- The channel is open and within its capacity, and no goroutine has returned. -/
structure Attended (cap : ℕ) (p : Pool α τ) : Prop extends Settled p where
  not_closed : p.closed = false
  length_le : p.queue.length ≤ cap

theorem attended_start {n : ℕ} (hn : 0 < n) : (start n : Pool α τ).Attended cap :=
  ⟨settled_start hn, rfl, Nat.zero_le cap⟩

theorem Attended.setWorker (h : p.Attended cap) {w : Worker τ} (hw : w ≠ .done) :
    (p.setWorker i w).Attended cap :=
  ⟨h.toSettled.setWorker hw, h.not_closed, h.length_le⟩

theorem Attended.receive (h : p.Attended cap) (hr : p.receive enter i = some p') :
    p'.Attended cap := by
  refine ⟨h.toSettled.receive hr, (closed_receive hr).trans h.not_closed, ?_⟩
  rcases (busy?_receive hr).2 with ⟨a, hq, -⟩ | ⟨-, hq, -⟩
  · have hle := h.length_le
    rw [hq, List.length_cons] at hle
    omega
  · simp [hq]

theorem Attended.send (h : p.Attended cap) (hs : p.send cap a = some p') : p'.Attended cap := by
  refine ⟨h.toSettled.send hs, ?_, ?_⟩
  · obtain ⟨⟨-, hc⟩, rfl⟩ := send_eq_some.mp hs
    exact hc
  · obtain ⟨⟨hlt, -⟩, rfl⟩ := send_eq_some.mp hs
    rw [List.length_append, List.length_singleton]
    exact hlt

theorem Attended.not_done (h : p.Attended cap) : .done ∉ p.workers := by
  intro hd
  have hc := (h.of_done hd).1
  rw [h.not_closed] at hc
  cases hc

/-- A send finds room, or a goroutine is busy, or it makes room when it receives. -/
def Relieved (cap : ℕ) (enter : α → τ) (a : α) (p : Pool α τ) : Prop :=
  (∃ p', p.send cap a = some p') ∨ (∃ i t, p.busy? i = some t) ∨
    ∃ i p₁ p', p.receive enter i = some p₁ ∧ p₁.send cap a = some p'

/-- **A send on a channel that is attended does not wait for good**, unless all goroutines do. -/
theorem Attended.relieved (h : p.Attended cap) (hcap : 0 < cap) : p.Relieved cap enter a := by
  by_cases hlt : p.queue.length < cap
  · exact .inl ⟨_, send_eq_some.mpr ⟨⟨hlt, h.not_closed⟩, rfl⟩⟩
  obtain ⟨w, hw⟩ := List.exists_mem_of_ne_nil _ h.workers_ne
  obtain ⟨i, hi⟩ := List.getElem?_of_mem hw
  cases w with
  | busy t => exact .inr (.inl ⟨i, t, busy?_eq_some.mpr hi⟩)
  | done => exact absurd hw h.not_done
  | ranging =>
      have hle := h.length_le
      cases hq : p.queue with
      | nil => simp [hq, hcap] at hlt
      | cons b q =>
          rw [hq, List.length_cons] at hle
          have hr : p.receive enter i =
              some { p with queue := q, workers := p.workers.set i (.busy (enter b)) } := by
            unfold Pool.receive
            rw [hi, hq]
          exact .inr (.inr ⟨i, _, _, hr, send_eq_some.mpr ⟨⟨hle, h.not_closed⟩, rfl⟩⟩)

end Pool

end Bdr
