import Mathlib.Data.List.Basic

/-!
# Support — Ops

Rules of pre- and postconditions for programs that keep a state and may fail, the state being kept
at the failure (`EStateM`).  `Ends x s Q E` says how `x` ends from `s`: with a value and a state
that satisfy `Q`, or with a fault and a state that satisfy `E`; `Succeeds x s Q` leaves out the
fault.  The loops of the source are `forM`s, whose rule takes an invariant on what the loop has
been through.
-/

namespace Bdr

variable {ε σ α β : Type}

/-- How `x` ends from `s`. -/
def Ends (x : EStateM ε σ α) (s : σ) (Q : α → σ → Prop) (E : ε → σ → Prop) : Prop :=
  match x s with
  | .ok a s' => Q a s'
  | .error e s' => E e s'

/-- `x` returns from `s`, in a state that satisfies `Q`. -/
def Succeeds (x : EStateM ε σ α) (s : σ) (Q : α → σ → Prop) : Prop := Ends x s Q fun _ _ => False

/-- The state `x` leaves behind, whether it returned or failed. -/
def left (x : EStateM ε σ α) (s : σ) : σ :=
  match x s with
  | .ok _ s' => s'
  | .error _ s' => s'

section Rules
variable {x : EStateM ε σ α} {f : α → EStateM ε σ β} {s : σ}
variable {Q R : α → σ → Prop} {S : β → σ → Prop} {E E' : ε → σ → Prop}

theorem succeeds_iff : Succeeds x s Q ↔ ∃ a s', x s = .ok a s' ∧ Q a s' := by
  unfold Succeeds Ends
  cases x s <;> simp

theorem Succeeds.ends (h : Succeeds x s Q) : Ends x s Q E := by
  obtain ⟨a, s', hx, hQ⟩ := succeeds_iff.mp h
  simpa only [Ends, hx] using hQ

theorem Ends.mono (h : Ends x s R E) (hQ : ∀ a s', R a s' → Q a s')
    (hE : ∀ e s', E e s' → E' e s') : Ends x s Q E' := by
  unfold Ends at *
  cases hx : x s with
  | ok a s' => exact hQ a s' (by simpa only [hx] using h)
  | error e s' => exact hE e s' (by simpa only [hx] using h)

theorem Ends.succeeds (h : Ends x s Q E) (hE : ∀ e s', ¬ E e s') :
    ∃ a s', x s = .ok a s' ∧ Q a s' :=
  succeeds_iff.mp (h.mono (fun _ _ => id) hE)

theorem Ends.left {P : σ → Prop} (h : Ends x s Q E) (hQ : ∀ a s', Q a s' → P s')
    (hE : ∀ e s', E e s' → P s') : P (left x s) := by
  unfold Ends at h
  unfold Bdr.left
  cases hx : x s with
  | ok a s' => exact hQ a s' (by simpa only [hx] using h)
  | error e s' => exact hE e s' (by simpa only [hx] using h)

theorem Ends.pure {a : α} (h : Q a s) : Ends (Pure.pure a : EStateM ε σ α) s Q E := h

theorem bind_apply (x : EStateM ε σ α) (f : α → EStateM ε σ β) (s : σ) :
    (x >>= f) s = match x s with
      | .ok a s' => f a s'
      | .error e s' => .error e s' := rfl

theorem bind_of_ok {a : α} {s' : σ} (h : x s = .ok a s') : (x >>= f) s = f a s' := by
  rw [bind_apply, h]

theorem bind_of_error {e : ε} {s' : σ} (h : x s = .error e s') : (x >>= f) s = .error e s' := by
  rw [bind_apply, h]

theorem bind_congr_left {y : EStateM ε σ α} (h : x s = y s) : (x >>= f) s = (y >>= f) s := by
  rw [bind_apply, bind_apply, h]

theorem bind_eq_ok {b : β} {s'' : σ} :
    (x >>= f) s = .ok b s'' ↔ ∃ a s', x s = .ok a s' ∧ f a s' = .ok b s'' := by
  rw [bind_apply]
  cases x s <;> simp

theorem ends_bind : Ends (x >>= f) s S E ↔ Ends x s (fun a s' => Ends (f a) s' S E) E := by
  rw [Ends, Ends, bind_apply]
  cases x s <;> exact Iff.rfl

theorem Ends.bind (hx : Ends x s R E) (hf : ∀ a s', R a s' → Ends (f a) s' S E) :
    Ends (x >>= f) s S E :=
  ends_bind.mpr (hx.mono hf fun _ _ => id)

theorem Ends.get_bind {g : σ → EStateM ε σ β} (h : Ends (g s) s S E) : Ends (get >>= g) s S E := h

end Rules

/-! ### Loops -/

section Loops
variable {f : α → EStateM ε σ PUnit} {s : σ} {E : ε → σ → Prop}

theorem Ends.forM_from {I : List α → σ → Prop} (todo done : List α) (h₀ : I done s)
    (hstep : ∀ pre a post s, done ++ todo = pre ++ a :: post → I pre s →
      Ends (f a) s (fun _ => I (pre ++ [a])) E) :
    Ends (todo.forM f) s (fun _ => I (done ++ todo)) E := by
  induction todo generalizing done s with
  | nil => exact Ends.pure (by simpa using h₀)
  | cons a todo ih =>
      refine (hstep done a todo s rfl h₀).bind fun _ s' h' => ?_
      have := ih (done ++ [a]) h' fun pre b post s hs => hstep pre b post s (by simpa using hs)
      simpa using this

/-- The rule of a loop over a list: an invariant on the elements the loop has been through. -/
theorem Ends.forM {I : List α → σ → Prop} (l : List α) (h₀ : I [] s)
    (hstep : ∀ pre a post s, l = pre ++ a :: post → I pre s →
      Ends (f a) s (fun _ => I (pre ++ [a])) E) :
    Ends (l.forM f) s (fun _ => I l) E :=
  Ends.forM_from l [] h₀ hstep

/-- The rule of a counting loop: an invariant on the number of rounds. -/
theorem Ends.forM_range {f : ℕ → EStateM ε σ PUnit} {I : ℕ → σ → Prop} (n : ℕ) (h₀ : I 0 s)
    (hstep : ∀ i s, i < n → I i s → Ends (f i) s (fun _ => I (i + 1)) E) :
    Ends ((List.range n).forM f) s (fun _ => I n) E := by
  have := Ends.forM (I := fun pre => I pre.length) (f := f) (E := E) (List.range n) h₀
    fun pre i post s hl hI => ?_
  · simpa using this
  · have hlen : n = pre.length + (post.length + 1) := by simpa using congrArg List.length hl
    have hi : (List.range n)[pre.length]? = some i := by simp [hl]
    rw [List.getElem?_range (by omega), Option.some.injEq] at hi
    simpa [hi] using hstep pre.length s (by omega) hI

end Loops

/-! ### What a program leaves alone -/

/-- `x` keeps `I`, whether it returns or fails. -/
def Keeps (I : σ → Prop) (x : EStateM ε σ α) : Prop := ∀ s, I s → Ends x s (fun _ => I) fun _ => I

section Keeps
variable {I : σ → Prop} {x : EStateM ε σ α} {f : α → EStateM ε σ β}

theorem Keeps.pure (a : α) : Keeps I (Pure.pure a : EStateM ε σ α) := fun _ hs => hs

theorem Keeps.throw (e : ε) : Keeps I (throw e : EStateM ε σ α) := fun _ hs => hs

theorem Keeps.modify {g : σ → σ} (h : ∀ s, I s → I (g s)) :
    Keeps I (modify g : EStateM ε σ PUnit) := fun s hs => h s hs

theorem Keeps.bind (hx : Keeps I x) (hf : ∀ a, Keeps I (f a)) : Keeps I (x >>= f) :=
  fun s hs => (hx s hs).bind fun a s' hs' => hf a s' hs'

theorem Keeps.get_bind {g : σ → EStateM ε σ β} (h : ∀ s, Keeps I (g s)) : Keeps I (get >>= g) :=
  fun s hs => Ends.get_bind (h s s hs)

theorem Keeps.forM {f : α → EStateM ε σ PUnit} (l : List α) (h : ∀ a ∈ l, Keeps I (f a)) :
    Keeps I (l.forM f) := by
  intro s hs
  refine Ends.forM (I := fun _ => I) l hs ?_
  rintro pre a post s rfl hs
  exact h a (by simp) s hs

end Keeps

end Bdr
