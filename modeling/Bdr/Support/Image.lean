import Mathlib.Algebra.Group.Nat.Defs
import Mathlib.Data.List.Basic
import Mathlib.Order.Basic

/-!
# Support — Image

An image assigns a cell to every offset; a patch is a list of cells at an offset.  What a list
of patches leaves at an offset is the last patch to cover it, and the image's own cell where
none does (`applyAll_apply`).  Two facts follow, and recovery by replay rests on them:

* images that differ only where some patch lands become equal once all the patches are applied
  (`applyAll_congr`), however the differing cells came about (`Touched`);
* a cell read at any moment of the log, brought forward by the whole log, is the log's final
  cell (`settle`): either a patch covers the offset, or no prefix of the log changed it.
-/

namespace Bdr

/-- A cell at every offset. -/
abbrev Image (α : Type*) := ℕ → α

/-- `data` at `offset`. -/
structure Patch (α : Type*) where
  offset : ℕ
  data : List α
  deriving DecidableEq, Repr

namespace Patch
variable {α : Type*}

/-- The cell the patch puts at `p`, if it covers `p`. -/
def get? (w : Patch α) (p : ℕ) : Option α :=
  if w.offset ≤ p then w.data[p - w.offset]? else none

/-- The patch covers `p`. -/
def Covers (w : Patch α) (p : ℕ) : Prop := w.offset ≤ p ∧ p < w.offset + w.data.length

instance (w : Patch α) (p : ℕ) : Decidable (w.Covers p) := inferInstanceAs (Decidable (_ ∧ _))

theorem get?_eq_none {w : Patch α} {p : ℕ} : w.get? p = none ↔ ¬ w.Covers p := by
  unfold get? Covers
  split
  · rw [List.getElem?_eq_none_iff]; omega
  · simp only [true_iff]; omega

theorem get?_isSome {w : Patch α} {p : ℕ} : (w.get? p).isSome ↔ w.Covers p := by
  rw [← not_iff_not, ← get?_eq_none, Option.not_isSome_iff_eq_none]

/-- The patch's own cells, by their index. -/
theorem get?_add (w : Patch α) (i : ℕ) : w.get? (w.offset + i) = w.data[i]? := by
  simp [get?]

/-- The first `n` cells of the patch: what a write cut short after `n` cells leaves. -/
def torn (w : Patch α) (n : ℕ) : Patch α := ⟨w.offset, w.data.take n⟩

theorem Covers.of_torn {w : Patch α} {n p : ℕ} (h : (w.torn n).Covers p) : w.Covers p := by
  simp only [Covers, torn, List.length_take] at h ⊢
  omega

end Patch

namespace Image
variable {α : Type*}

/-- The image with the patch written over it. -/
def apply (m : Image α) (w : Patch α) : Image α := fun p => (w.get? p).getD (m p)

/-- The image with the patches written over it, first to last. -/
def applyAll (m : Image α) (ws : List (Patch α)) : Image α := ws.foldl apply m

/-- `len` cells from `off` on. -/
def read (m : Image α) (off len : ℕ) : List α := (List.range len).map fun i => m (off + i)

@[simp] theorem length_read (m : Image α) (off len : ℕ) : (m.read off len).length = len := by
  simp [read]

@[simp] theorem getElem?_read (m : Image α) (off len i : ℕ) :
    (m.read off len)[i]? = if i < len then some (m (off + i)) else none := by
  simp only [read, List.getElem?_map]
  split
  · rename_i h; simp [h]
  · rename_i h; simp [List.getElem?_eq_none (l := List.range len) (i := i) (by simpa using h)]

@[simp] theorem applyAll_nil (m : Image α) : m.applyAll [] = m := rfl

@[simp] theorem applyAll_cons (m : Image α) (w : Patch α) (ws : List (Patch α)) :
    m.applyAll (w :: ws) = (m.apply w).applyAll ws := rfl

theorem applyAll_append (m : Image α) (ws vs : List (Patch α)) :
    m.applyAll (ws ++ vs) = (m.applyAll ws).applyAll vs := List.foldl_append ..

theorem apply_of_not_covers {m : Image α} {w : Patch α} {p : ℕ} (h : ¬ w.Covers p) :
    m.apply w p = m p := by
  rw [apply, Patch.get?_eq_none.mpr h, Option.getD_none]

/-- A write that reaches no cell of a range leaves what the range reads. -/
theorem read_apply_of_disjoint {m : Image α} {w : Patch α} {off len : ℕ}
    (h : w.offset + w.data.length ≤ off ∨ off + len ≤ w.offset) :
    (m.apply w).read off len = m.read off len := by
  refine List.map_congr_left fun i hi => apply_of_not_covers fun hc => ?_
  have hi' := List.mem_range.mp hi
  obtain ⟨h₁, h₂⟩ := hc
  omega

/-- A range reads a write that fills it. -/
theorem read_apply_self (m : Image α) (w : Patch α) :
    (m.apply w).read w.offset w.data.length = w.data := by
  apply List.ext_getElem?
  intro i
  rw [getElem?_read]
  split
  · rename_i h; rw [apply, Patch.get?_add, List.getElem?_eq_getElem h]; rfl
  · rename_i h; exact (List.getElem?_eq_none (by omega)).symm

/-- Writing what is there changes nothing. -/
theorem apply_read_self (m : Image α) (off len : ℕ) : m.apply ⟨off, m.read off len⟩ = m := by
  funext p
  by_cases h : Patch.Covers ⟨off, m.read off len⟩ p
  · obtain ⟨h₁, h₂⟩ := h
    simp only [length_read] at h₁ h₂
    obtain ⟨i, rfl⟩ := Nat.exists_eq_add_of_le h₁
    have hi : i < len := by omega
    have hget := Patch.get?_add (⟨off, m.read off len⟩ : Patch α) i
    simp only [getElem?_read, if_pos hi] at hget
    rw [apply, hget, Option.getD_some]
  · exact apply_of_not_covers h

/-- A patch in two parts. -/
theorem apply_append (m : Image α) (off : ℕ) (a b : List α) :
    m.apply ⟨off, a ++ b⟩ = (m.apply ⟨off, a⟩).apply ⟨off + a.length, b⟩ := by
  funext p
  simp only [apply, Patch.get?]
  by_cases hp : off ≤ p
  · obtain ⟨i, rfl⟩ := Nat.exists_eq_add_of_le hp
    rw [if_pos hp, if_pos hp, Nat.add_sub_cancel_left]
    by_cases hi : a.length ≤ i
    · rw [if_pos (by omega), List.getElem?_append_right hi, List.getElem?_eq_none hi,
        Option.getD_none, show off + i - (off + a.length) = i - a.length by omega]
    · rw [if_neg (by omega), List.getElem?_append_left (by omega), Option.getD_none]
  · rw [if_neg hp, if_neg hp, if_neg (by omega), Option.getD_none, Option.getD_none]

/-- A patch hides what was written inside it. -/
theorem apply_apply_of_covers {m : Image α} {v w : Patch α} (h : ∀ p, v.Covers p → w.Covers p) :
    (m.apply v).apply w = m.apply w := by
  funext p
  by_cases hw : w.Covers p
  · obtain ⟨u, hu⟩ := Option.isSome_iff_exists.mp (Patch.get?_isSome.mpr hw)
    simp only [apply, hu, Option.getD_some]
  · rw [apply_of_not_covers hw, apply_of_not_covers fun hv => hw (h p hv), apply_of_not_covers hw]

/-- An attempt that wrote nothing. -/
@[simp] theorem apply_torn_zero (m : Image α) (w : Patch α) : m.apply (w.torn 0) = m := by
  refine funext fun p => apply_of_not_covers ?_
  simp only [Patch.Covers, Patch.torn, List.take_zero, List.length_nil]
  omega

theorem applyAll_torn_zero (m : Image α) (ws : List (Patch α)) :
    m.applyAll (ws.map (·.torn 0)) = m := by
  induction ws with
  | nil => rfl
  | cons w ws ih => rw [List.map_cons, applyAll_cons, apply_torn_zero, ih]

/-- The whole patch, after an attempt at it. -/
theorem apply_torn_apply (m : Image α) (w : Patch α) (k : ℕ) :
    (m.apply (w.torn k)).apply w = m.apply w := apply_apply_of_covers fun _ => Patch.Covers.of_torn

/-- Two attempts at a patch, cut short, leave what the longer one does. -/
theorem apply_torn_torn (m : Image α) (w : Patch α) (k n : ℕ) :
    (m.apply (w.torn k)).apply (w.torn n) = m.apply (w.torn (max k n)) := by
  rcases Nat.le_total k n with h | h
  · rw [Nat.max_eq_right h]
    refine apply_apply_of_covers fun p hp => ?_
    simp only [Patch.Covers, Patch.torn, List.length_take] at hp ⊢
    omega
  · rw [Nat.max_eq_left h]
    funext p
    by_cases hn : (w.torn n).Covers p
    · have hk : (w.torn k).get? p = (w.torn n).get? p := by
        obtain ⟨h₁, h₂⟩ := hn
        obtain ⟨i, rfl⟩ := Nat.exists_eq_add_of_le h₁
        simp only [Patch.torn, List.length_take] at h₁ h₂
        have hget := Patch.get?_add (w.torn k) i
        have hget' := Patch.get?_add (w.torn n) i
        simp only [Patch.torn] at hget hget' ⊢
        rw [hget, hget', List.getElem?_take_of_lt (by omega), List.getElem?_take_of_lt (by omega)]
      simp only [apply, hk]
      cases (w.torn n).get? p <;> rfl
    · rw [apply_of_not_covers hn]

theorem take_read (m : Image α) (off len n : ℕ) :
    (m.read off len).take n = m.read off (min n len) := by
  simp [read, ← List.map_take, List.take_range]

theorem drop_read (m : Image α) (off len n : ℕ) :
    (m.read off len).drop n = m.read (off + n) (len - n) := by
  apply List.ext_getElem?
  intro i
  rw [List.getElem?_drop, getElem?_read, getElem?_read, Nat.add_assoc]
  exact if_congr (by omega) rfl rfl

end Image

/-! ### The last patch to cover an offset -/

namespace Patch
variable {α : Type*}

/-- The cell the last patch covering `p` puts there. -/
def last? : List (Patch α) → ℕ → Option α
  | [], _ => none
  | w :: ws, p => (last? ws p).or (w.get? p)

theorem last?_eq_none {ws : List (Patch α)} {p : ℕ} :
    last? ws p = none ↔ ∀ w ∈ ws, ¬ w.Covers p := by
  induction ws with
  | nil => simp [last?]
  | cons w ws ih => simp [last?, Option.or_eq_none_iff, ih, get?_eq_none, and_comm]

theorem last?_take_eq_none {ws : List (Patch α)} {p : ℕ} (h : last? ws p = none) (n : ℕ) :
    last? (ws.take n) p = none :=
  last?_eq_none.mpr fun w hw => last?_eq_none.mp h w (List.mem_of_mem_take hw)

end Patch

namespace Image
variable {α : Type*}

/-- **What a list of patches leaves at an offset.** -/
theorem applyAll_apply (m : Image α) (ws : List (Patch α)) (p : ℕ) :
    m.applyAll ws p = (Patch.last? ws p).getD (m p) := by
  induction ws generalizing m with
  | nil => rfl
  | cons w ws ih =>
      rw [applyAll_cons, ih, Patch.last?]
      cases Patch.last? ws p with
      | none => rfl
      | some v => rfl

/-- Images that agree wherever no patch lands become equal. -/
theorem applyAll_congr {m m' : Image α} {ws : List (Patch α)}
    (h : ∀ p, Patch.last? ws p = none → m p = m' p) : m.applyAll ws = m'.applyAll ws := by
  funext p
  rw [applyAll_apply, applyAll_apply]
  cases hl : Patch.last? ws p with
  | none => exact h p hl
  | some v => rfl

/-- `m'` differs from `m` only where a patch of `ws` lands. -/
def Touched (ws : List (Patch α)) (m m' : Image α) : Prop :=
  ∀ p, Patch.last? ws p = none → m' p = m p

theorem Touched.refl (ws : List (Patch α)) (m : Image α) : Touched ws m m := fun _ _ => rfl

theorem Touched.trans {ws : List (Patch α)} {m m' m'' : Image α} (h : Touched ws m m')
    (h' : Touched ws m' m'') : Touched ws m m'' :=
  fun p hp => (h' p hp).trans (h p hp)

theorem Touched.mono {ws vs : List (Patch α)} {m m' : Image α} (h : Touched ws m m')
    (hs : ws ⊆ vs) : Touched vs m m' := by
  intro p hp
  refine h p (Patch.last?_eq_none.mpr fun w hw => ?_)
  exact Patch.last?_eq_none.mp hp w (hs hw)

/-- A write that lands inside a patch of `ws`. -/
theorem Touched.apply {ws : List (Patch α)} {m m' : Image α} {v w : Patch α}
    (h : Touched ws m m') (hw : w ∈ ws) (hv : ∀ p, v.Covers p → w.Covers p) :
    Touched ws m (m'.apply v) := fun p hp => by
  rw [apply_of_not_covers fun hc => Patch.last?_eq_none.mp hp w hw (hv p hc), h p hp]

/-- **Replay repairs whatever it overwrites.** -/
theorem Touched.applyAll_eq {ws : List (Patch α)} {m m' : Image α} (h : Touched ws m m') :
    m'.applyAll ws = m.applyAll ws := applyAll_congr h

theorem touched_applyAll (ws : List (Patch α)) (m : Image α) : Touched ws m (m.applyAll ws) :=
  fun p hp => by rw [applyAll_apply, hp]; rfl

/-- **A cell of some moment, brought forward.**  A cell read after a prefix of the log, with the
whole log applied over it, is the cell the whole log leaves. -/
theorem settle {m : Image α} {ws : List (Patch α)} {p t : ℕ} {v : α}
    (h : v = m.applyAll (ws.take t) p) : (Patch.last? ws p).getD v = m.applyAll ws p := by
  rw [applyAll_apply]
  cases hl : Patch.last? ws p with
  | some u => rfl
  | none => rw [h, applyAll_apply, Patch.last?_take_eq_none hl]; rfl

/-- The cell was at `p` at some moment up to the `n`th patch of the log. -/
def Past (m : Image α) (log : List (Patch α)) (n p : ℕ) (v : α) : Prop :=
  ∃ t ≤ n, v = m.applyAll (log.take t) p

theorem past_now (m : Image α) (log : List (Patch α)) (p : ℕ) :
    Past m log log.length p (m.applyAll log p) :=
  ⟨log.length, Nat.le_refl _, by rw [List.take_length]⟩

/-- What was there at some moment stays so as the log goes on. -/
theorem Past.mono {m : Image α} {log : List (Patch α)} {n n' p : ℕ} {v : α} (h : Past m log n p v)
    (hlog : n ≤ log.length) (hn : n ≤ n') (more : List (Patch α)) :
    Past m (log ++ more) n' p v := by
  obtain ⟨t, ht, hv⟩ := h
  exact ⟨t, Nat.le_trans ht hn,
    by rw [hv, List.take_append_of_le_length (Nat.le_trans ht hlog)]⟩

/-- **A fuzzy snapshot is made sharp by the log.**  If every cell of an image was there at some
moment up to the `n`th patch, the first `n` patches make of it what they make of the image they
began with. -/
theorem Past.applyAll {m r : Image α} {log : List (Patch α)} {n p : ℕ}
    (h : Past m log n p (r p)) : r.applyAll (log.take n) p = m.applyAll (log.take n) p := by
  obtain ⟨t, ht, hv⟩ := h
  rw [applyAll_apply]
  refine settle (t := t) ?_
  rw [hv, List.take_take, Nat.min_eq_left ht]

end Image

end Bdr
