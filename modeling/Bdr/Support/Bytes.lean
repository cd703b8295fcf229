import Mathlib.Data.Nat.ModEq
import Mathlib.Tactic.Ring

/-!
# Support — Bytes

Fixed-width byte orders, and slices of a byte list.  `leBytes k n` is the `k` bytes of `n`, least
significant first, and `beBytes k n` the same bytes most significant first; `leNat` and `beNat`
read them back, modulo `256 ^ k`.

A slice expression of the source is bounds-checked: `slice` and `copyAt` are `none` where the
source panics.
-/

namespace Bdr

/-- The `k` low bytes of `n`, least significant first. -/
def leBytes : ℕ → ℕ → List UInt8
  | 0, _ => []
  | k + 1, n => UInt8.ofNat (n % 256) :: leBytes k (n / 256)

/-- The number whose bytes these are, least significant first. -/
def leNat : List UInt8 → ℕ
  | [] => 0
  | b :: bs => b.toNat + 256 * leNat bs

/-- The `k` low bytes of `n`, most significant first. -/
def beBytes (k n : ℕ) : List UInt8 := (leBytes k n).reverse

/-- The number whose bytes these are, most significant first. -/
def beNat (bs : List UInt8) : ℕ := leNat bs.reverse

@[simp] theorem length_leBytes (k n : ℕ) : (leBytes k n).length = k := by
  induction k generalizing n with
  | zero => rfl
  | succ k ih => simp [leBytes, ih]

@[simp] theorem length_beBytes (k n : ℕ) : (beBytes k n).length = k := by simp [beBytes]

theorem leNat_leBytes (k n : ℕ) : leNat (leBytes k n) = n % 256 ^ k := by
  induction k generalizing n with
  | zero => simp [leBytes, leNat, Nat.mod_one]
  | succ k ih =>
      have hb : (UInt8.ofNat (n % 256)).toNat = n % 256 := by
        rw [UInt8.toNat_ofNat']
        exact Nat.mod_eq_of_lt (Nat.mod_lt n (by decide))
      rw [leBytes, leNat, ih, hb, pow_succ', Nat.mod_mul]

theorem beNat_beBytes (k n : ℕ) : beNat (beBytes k n) = n % 256 ^ k := by
  rw [beNat, beBytes, List.reverse_reverse, leNat_leBytes]

/-- The low byte comes last. -/
theorem beBytes_succ (k n : ℕ) :
    beBytes (k + 1) n = beBytes k (n / 256) ++ [UInt8.ofNat (n % 256)] := by
  simp [beBytes, leBytes]

/-! ### Words -/

/-- `binary.LittleEndian` on a `uint32`. -/
def le32 (v : UInt32) : List UInt8 := leBytes 4 v.toNat

/-- `binary.BigEndian.PutUint32`. -/
def be32 (v : UInt32) : List UInt8 := beBytes 4 v.toNat

/-- `binary.BigEndian.PutUint64`. -/
def be64 (v : UInt64) : List UInt8 := beBytes 8 v.toNat

@[simp] theorem length_le32 (v : UInt32) : (le32 v).length = 4 := length_leBytes ..
@[simp] theorem length_be32 (v : UInt32) : (be32 v).length = 4 := length_beBytes ..
@[simp] theorem length_be64 (v : UInt64) : (be64 v).length = 8 := length_beBytes ..

@[simp] theorem ofNat_leNat_le32 (v : UInt32) : UInt32.ofNat (leNat (le32 v)) = v := by
  rw [le32, leNat_leBytes, Nat.mod_eq_of_lt (by simpa using v.toNat_lt), UInt32.ofNat_toNat]

@[simp] theorem ofNat_beNat_be32 (v : UInt32) : UInt32.ofNat (beNat (be32 v)) = v := by
  rw [be32, beNat_beBytes, Nat.mod_eq_of_lt (by simpa using v.toNat_lt), UInt32.ofNat_toNat]

@[simp] theorem ofNat_beNat_be64 (v : UInt64) : UInt64.ofNat (beNat (be64 v)) = v := by
  rw [be64, beNat_beBytes, Nat.mod_eq_of_lt (by simpa using v.toNat_lt), UInt64.ofNat_toNat]

/-! ### Slices -/

section Slices
variable {α : Type*}

/-- `b[lo:hi]`. -/
def slice (b : List α) (lo hi : ℕ) : Option (List α) :=
  if lo ≤ hi ∧ hi ≤ b.length then some ((b.drop lo).take (hi - lo)) else none

/-- `copy(b[lo:hi], src)`: as many cells as both sides have. -/
def copyAt (b : List α) (lo hi : ℕ) (src : List α) : Option (List α) :=
  if lo ≤ hi ∧ hi ≤ b.length then
    some (b.take lo ++ src.take (hi - lo) ++ b.drop (lo + (src.take (hi - lo)).length))
  else none

/-- The first `n` cells of `l`, made up to `n` with `d`. -/
def padTake (n : ℕ) (d : α) (l : List α) : List α := l.take n ++ List.replicate (n - l.length) d

@[simp] theorem length_padTake (n : ℕ) (d : α) (l : List α) : (padTake n d l).length = n := by
  simp only [padTake, List.length_append, List.length_take, List.length_replicate]
  omega

theorem padTake_of_length_le {n : ℕ} {d : α} {l : List α} (h : n ≤ l.length) :
    padTake n d l = l.take n := by
  simp [padTake, Nat.sub_eq_zero_of_le h]

theorem getElem?_padTake (n : ℕ) (d : α) (l : List α) (i : ℕ) :
    (padTake n d l)[i]? = if i < n then some (l.getD i d) else none := by
  simp only [padTake, List.getElem?_append, List.length_take, List.getElem?_take,
    List.getElem?_replicate, List.getD_eq_getElem?_getD]
  by_cases hn : i < n
  · by_cases hl : i < l.length
    · simp [hn, hl]
    · have h₁ : ¬ i < min n l.length := by omega
      have h₂ : i - min n l.length < n - l.length := by omega
      simp [hn, h₁, h₂, List.getElem?_eq_none (show l.length ≤ i by omega)]
  · have h₁ : ¬ i < min n l.length := by omega
    have h₂ : ¬ i - min n l.length < n - l.length := by omega
    simp [hn, h₁, h₂]

theorem copyAt_append {a b c : List α} {n : ℕ} (hc : c.length ≤ n) (hn : n ≤ b.length) :
    copyAt (a ++ b) a.length (a.length + n) c = some (a ++ c ++ b.drop c.length) := by
  have h : a.length ≤ a.length + n ∧ a.length + n ≤ (a ++ b).length := by
    simp [hn]
  rw [copyAt, if_pos h, Nat.add_sub_cancel_left, List.take_of_length_le hc, List.take_left,
    List.drop_append]
  simp

theorem take_padTake {n m : ℕ} (h : n ≤ m) (d : α) (l : List α) :
    (padTake m d l).take n = padTake n d l := by
  refine List.ext_getElem? fun i => ?_
  rw [List.getElem?_take, getElem?_padTake, getElem?_padTake]
  by_cases hi : i < n
  · rw [if_pos hi, if_pos hi, if_pos (hi.trans_le h)]
  · rw [if_neg hi, if_neg hi]

@[simp] theorem padTake_padTake (n : ℕ) (d : α) (l : List α) :
    padTake n d (padTake n d l) = padTake n d l := by
  rw [padTake_of_length_le (length_padTake n d l).ge, take_padTake le_rfl]

theorem slice_eq_some {b c : List α} {lo hi : ℕ} :
    slice b lo hi = some c ↔ (lo ≤ hi ∧ hi ≤ b.length) ∧ (b.drop lo).take (hi - lo) = c := by
  rw [slice, Option.ite_none_right_eq_some, Option.some.injEq]

theorem slice_append_right {a b : List α} {n : ℕ} (hn : n ≤ b.length) :
    slice (a ++ b) a.length (a.length + n) = some (b.take n) := by
  have h : a.length ≤ a.length + n ∧ a.length + n ≤ (a ++ b).length := by
    simp [hn]
  rw [slice, if_pos h]
  simp

theorem slice_append_middle (a b c : List α) :
    slice (a ++ b ++ c) a.length (a.length + b.length) = some b := by
  rw [List.append_assoc, slice_append_right (by simp), List.take_left]

end Slices

end Bdr
