import Mathlib.Logic.Relation

/-!
# Support — Runs

Labelled runs of a step function.  A goroutine, a device or a whole system is a step function
`step : σ → α → Option σ`: an action a state does not allow is `none`.  A run performs a list of
actions (`Run`), possibly only those a guard admits at the state they are performed in; what
holds at first and is kept by every admitted step holds wherever a run ends (`Run.invariant`).
-/

namespace Bdr

section
variable {σ α : Type*}

/-- The actions `as` lead from `s` to `s'`, and `ok` admits each at the state it is performed in. -/
inductive Run (step : σ → α → Option σ) (ok : σ → α → Prop) : σ → List α → σ → Prop where
  | refl (s : σ) : Run step ok s [] s
  | more {s s₁ s' : σ} {a : α} {as : List α} (ha : ok s a) (h : step s a = some s₁)
      (t : Run step ok s₁ as s') : Run step ok s (a :: as) s'

/-- Every action is admitted. -/
def anyStep (_ : σ) (_ : α) : Prop := True

namespace Run
variable {step : σ → α → Option σ} {ok : σ → α → Prop}

/-- **The invariant rule.** -/
theorem invariant {I : σ → Prop} (hI : ∀ s a s', I s → ok s a → step s a = some s' → I s')
    {s s' : σ} {as : List α} (h : Run step ok s as s') (hs : I s) : I s' := by
  induction h with
  | refl => exact hs
  | more ha h _ ih => exact ih (hI _ _ _ hs ha h)

theorem trans {s s₁ s' : σ} {as bs : List α} (h₁ : Run step ok s as s₁)
    (h₂ : Run step ok s₁ bs s') : Run step ok s (as ++ bs) s' := by
  induction h₁ with
  | refl => exact h₂
  | more ha h _ ih => exact .more ha h (ih h₂)

theorem mono {ok' : σ → α → Prop} (hok : ∀ s a, ok s a → ok' s a) {s s' : σ} {as : List α}
    (h : Run step ok s as s') : Run step ok' s as s' := by
  induction h with
  | refl => exact .refl _
  | more ha h _ ih => exact .more (hok _ _ ha) h ih

end Run

/-- The state the actions lead to, if each is allowed in turn. -/
def exec (step : σ → α → Option σ) : σ → List α → Option σ
  | s, [] => some s
  | s, a :: as => (step s a).bind fun s₁ => exec step s₁ as

theorem exec_append (step : σ → α → Option σ) (s : σ) (as bs : List α) :
    exec step s (as ++ bs) = (exec step s as).bind fun s₁ => exec step s₁ bs := by
  induction as generalizing s with
  | nil => rfl
  | cons a as ih =>
      rw [List.cons_append, exec, exec, Option.bind_assoc]
      exact congrArg _ (funext ih)

/-- Actions that are admitted anywhere make a run of wherever they lead. -/
theorem Run.of_exec {step : σ → α → Option σ} {ok : σ → α → Prop} {s s' : σ} {as : List α}
    (h : exec step s as = some s') (hok : ∀ a ∈ as, ∀ s, ok s a) : Run step ok s as s' := by
  induction as generalizing s with
  | nil => cases h; exact .refl _
  | cons a as ih =>
      rw [exec] at h
      obtain ⟨s₁, hs, ht⟩ := Option.bind_eq_some_iff.mp h
      obtain ⟨ha, has⟩ := List.forall_mem_cons.mp hok
      exact .more (ha s) hs (ih ht has)

theorem Run.of_exec_cons {step : σ → α → Option σ} {ok : σ → α → Prop} {s s' : σ} {a : α}
    {as : List α} (ha : ok s a) (h : exec step s (a :: as) = some s')
    (hok : ∀ b ∈ as, ∀ s, ok s b) : Run step ok s (a :: as) s' := by
  rw [exec] at h
  obtain ⟨s₁, hs, ht⟩ := Option.bind_eq_some_iff.mp h
  exact .more ha hs (.of_exec ht hok)

/-- A step that checks the guard. -/
def guarded (step : σ → α → Option σ) (ok : σ → α → Prop) [∀ s a, Decidable (ok s a)] (s : σ)
    (a : α) : Option σ :=
  if ok s a then step s a else none

theorem Run.of_exec_guarded {step : σ → α → Option σ} {ok : σ → α → Prop}
    [∀ s a, Decidable (ok s a)] {s s' : σ} {as : List α}
    (h : exec (guarded step ok) s as = some s') : Run step ok s as s' := by
  induction as generalizing s with
  | nil => cases h; exact .refl _
  | cons a as ih =>
      rw [exec] at h
      obtain ⟨s₁, hs, ht⟩ := Option.bind_eq_some_iff.mp h
      obtain ⟨ha, hs⟩ := Option.ite_none_right_eq_some.mp hs
      exact .more ha hs (ih ht)

/-- A run leads wherever the actions of a machine lead all of whose steps are steps of this one. -/
theorem Run.exists_of_exec {β : Type*} {step : σ → α → Option σ} {ok : σ → α → Prop}
    {next : σ → β → Option σ}
    (hnext : ∀ s b s', next s b = some s' → ∃ a, ok s a ∧ step s a = some s') {s s' : σ}
    {bs : List β} (h : exec next s bs = some s') : ∃ as, Run step ok s as s' := by
  induction bs generalizing s with
  | nil => cases h; exact ⟨[], .refl _⟩
  | cons b bs ih =>
      rw [exec] at h
      obtain ⟨s₁, hs, ht⟩ := Option.bind_eq_some_iff.mp h
      obtain ⟨a, ha, hstep⟩ := hnext s b s₁ hs
      obtain ⟨as, hrun⟩ := ih ht
      exact ⟨a :: as, .more ha hstep hrun⟩

/-- A check of where the actions lead. -/
theorem exists_exec {step : σ → α → Option σ} {s : σ} {as : List α} {P : σ → Bool}
    (h : (exec step s as).any P = true) : ∃ s', exec step s as = some s' ∧ P s' = true := by
  cases hs : exec step s as with
  | none => simp [hs] at h
  | some s' => exact ⟨s', rfl, by simpa [hs] using h⟩

end

end Bdr
