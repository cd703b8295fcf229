import Bdr.Support.Image

/-!
# Support — Device

A block device as a file: a fixed size, its bytes, and positioned reads and writes.  A negative
`int64` offset is refused, a read or a write past the end fails, and such a write leaves behind
the part that fits.

`plan` says what becomes of the writes to come: each is carried out, or fails, or the power fails
in it, after the first `n` bytes.  With nothing planned every write is carried out.  What a write
that returned has written is durable; the `Sync` calls of the source are not modelled apart.
-/

namespace Bdr

/-- What becomes of a write to a device. -/
inductive Outcome where
  | done
  | short (n : ℕ)
  | powerLoss (n : ℕ)
  deriving DecidableEq, Repr

/-- What a write to a device returns, if it returns. -/
inductive Written where
  | ok
  | failed
  | dead
  deriving DecidableEq, Repr

/-- No write fails while the machine is up. -/
def NoFailure (plan : List Outcome) : Prop := ∀ o ∈ plan, ∀ n, o ≠ .short n

structure Device where
  size : ℕ
  bytes : Image UInt8
  plan : List Outcome
  size_lt : size < 2 ^ 63

namespace Device

/-- `ReadAt` into a buffer of `len` bytes that has to be filled. -/
def readAt (d : Device) (off len : ℕ) : Option (List UInt8) :=
  if off < 2 ^ 63 ∧ (len = 0 ∨ off + len ≤ d.size) then some (d.bytes.read off len) else none

/-- The device after the part of `data` that fits has been written at `off`. -/
def store (d : Device) (off : ℕ) (data : List UInt8) : Device :=
  { d with bytes := d.bytes.apply ⟨off, data.take (d.size - off)⟩ }

/-- `WriteAt`.  Of no bytes there is nothing to ask the device for. -/
def writeAt (d : Device) (off : ℕ) (data : List UInt8) : Device × Written :=
  if 2 ^ 63 ≤ off then (d, .failed)
  else if data = [] then (d, .ok)
  else
    match d.plan with
    | .short n :: plan => ({ d with plan := plan }.store off (data.take n), .failed)
    | .powerLoss n :: plan => ({ d with plan := plan }.store off (data.take n), .dead)
    | _ => ({ d with plan := d.plan.tail }.store off data,
        if off + data.length ≤ d.size then .ok else .failed)

/-- No write is planned to fail, though the power may, unless it is `calm`. -/
def Sound (calm : Prop) (d : Device) : Prop := NoFailure d.plan ∧ (calm → d.plan = [])

/-- The device with another plan: the machine has been started again. -/
def replan (d : Device) (plan : List Outcome) : Device := { d with plan := plan }

theorem sound_replan_nil (d : Device) (calm : Prop) : (d.replan []).Sound calm :=
  ⟨by simp [replan, NoFailure], fun _ => rfl⟩

@[simp] theorem size_store (d : Device) (off : ℕ) (data : List UInt8) :
    (d.store off data).size = d.size := rfl

@[simp] theorem plan_store (d : Device) (off : ℕ) (data : List UInt8) :
    (d.store off data).plan = d.plan := rfl

@[simp] theorem store_nil (d : Device) (off : ℕ) : d.store off [] = d := by
  have : d.bytes.apply ⟨off, []⟩ = d.bytes := funext fun p =>
    Image.apply_of_not_covers (by simp only [Patch.Covers, List.length_nil]; omega)
  simp only [store, List.take_nil, this]

theorem bytes_store {d : Device} {off : ℕ} {data : List UInt8} (h : off + data.length ≤ d.size) :
    (d.store off data).bytes = d.bytes.apply ⟨off, data⟩ := by
  simp only [store]
  rw [List.take_of_length_le (by omega)]

/-- Writing what is there changes nothing. -/
theorem store_read {d : Device} {off len : ℕ} (h : off + len ≤ d.size) :
    d.store off (d.bytes.read off len) = d := by
  have hbytes : (d.store off (d.bytes.read off len)).bytes = d.bytes := by
    rw [bytes_store (by rwa [Image.length_read]), Image.apply_read_self]
  calc d.store off (d.bytes.read off len)
      = { d with bytes := (d.store off (d.bytes.read off len)).bytes } := rfl
    _ = d := by rw [hbytes]

theorem readAt_of_le {d : Device} {off len : ℕ} (h : off + len ≤ d.size) :
    d.readAt off len = some (d.bytes.read off len) := by
  have := d.size_lt
  exact if_pos ⟨by omega, .inr h⟩

theorem length_of_readAt {d : Device} {off len : ℕ} {data : List UInt8}
    (h : d.readAt off len = some data) : data.length = len := by
  obtain ⟨-, h⟩ := Option.ite_none_right_eq_some.mp h
  cases h
  exact Image.length_read ..

/-- A write that fits a device with nothing planned. -/
theorem writeAt_of_le {d : Device} {off : ℕ} {data : List UInt8} (hp : d.plan = [])
    (h : off + data.length ≤ d.size) : d.writeAt off data = (d.store off data, .ok) := by
  have := d.size_lt
  have hd : ({ d with plan := [] } : Device) = d := by rw [← hp]
  rw [writeAt, if_neg (by omega)]
  split
  · rename_i hnil
    rw [hnil, store_nil]
  · simp [hp, hd]

/-- A write that returned has been carried out. -/
theorem writeAt_eq_ok {d d' : Device} {off : ℕ} {data : List UInt8}
    (h : d.writeAt off data = (d', .ok)) (hne : data ≠ []) :
    off + data.length ≤ d.size ∧ ∃ plan, d' = (d.replan plan).store off data := by
  rw [writeAt, if_neg hne] at h
  split at h
  · cases h
  · split at h
    · cases h
    · cases h
    · by_cases hfit : off + data.length ≤ d.size
      · rw [if_pos hfit] at h
        cases h
        exact ⟨hfit, d.plan.tail, rfl⟩
      · rw [if_neg hfit] at h
        cases h

@[simp] theorem size_writeAt (d : Device) (off : ℕ) (data : List UInt8) :
    (d.writeAt off data).1.size = d.size := by
  unfold writeAt
  split
  · rfl
  · split
    · rfl
    · split <;> rfl

/-- A write that returns has been carried out, and one that fails has left a part of it. -/
theorem bytes_writeAt {d d' : Device} {off : ℕ} {data : List UInt8} {r : Written}
    (h : d.writeAt off data = (d', r)) :
    (r = .ok → d'.bytes = d.bytes.apply ⟨off, data⟩) ∧
      ∃ n, d'.bytes = d.bytes.apply (Patch.torn ⟨off, data⟩ n) := by
  have hnone : ∃ n, d.bytes = d.bytes.apply (Patch.torn ⟨off, data⟩ n) :=
    ⟨0, (Image.apply_torn_zero _ _).symm⟩
  have hpart : ∀ (plan : List Outcome) (n : ℕ),
      ∃ k, (({ d with plan := plan } : Device).store off (data.take n)).bytes =
        d.bytes.apply (Patch.torn ⟨off, data⟩ k) := fun plan n =>
    ⟨min (d.size - off) n, by simp only [store, Patch.torn, List.take_take]⟩
  unfold writeAt at h
  split at h
  · cases h
    exact ⟨by rintro ⟨⟩, hnone⟩
  · split at h
    · rename_i hnil
      cases h
      subst hnil
      refine ⟨fun _ => funext fun p => (Image.apply_of_not_covers ?_).symm, hnone⟩
      simp only [Patch.Covers, List.length_nil]
      omega
    · split at h
      · cases h
        exact ⟨by rintro ⟨⟩, hpart _ _⟩
      · cases h
        exact ⟨by rintro ⟨⟩, hpart _ _⟩
      · cases h
        refine ⟨fun hok => ?_, ?_⟩
        · by_cases hfit : off + data.length ≤ d.size
          · exact bytes_store hfit
          · simp [hfit] at hok
        · have := hpart d.plan.tail data.length
          rwa [List.take_length] at this

/-- A write that fits a device on which no write fails: it is carried out, or the power fails after
a part of it. -/
theorem writeAt_of_sound {calm : Prop} {d : Device} {off : ℕ} {data : List UInt8}
    (hs : d.Sound calm) (h : off + data.length ≤ d.size) :
    (∃ plan, d.writeAt off data = ((d.replan plan).store off data, .ok) ∧
        (d.replan plan).Sound calm) ∨
      ¬ calm ∧ ∃ n plan, d.writeAt off data = ((d.replan plan).store off (data.take n), .dead) ∧
        (d.replan plan).Sound calm := by
  have hlt := d.size_lt
  obtain ⟨hs, hc⟩ := hs
  have htail : ∀ o plan, d.plan = o :: plan → (d.replan plan).Sound calm := fun o plan hp =>
    ⟨fun o' ho' => hs o' (hp ▸ List.mem_cons_of_mem o ho'),
      fun h => absurd (hc h) (by rw [hp]; exact List.cons_ne_nil o plan)⟩
  rw [writeAt, if_neg (by omega)]
  split
  · rename_i hnil
    exact .inl ⟨d.plan, by rw [hnil, store_nil]; rfl, hs, hc⟩
  · cases hp : d.plan with
    | nil => exact .inl ⟨[], by simp [replan], d.sound_replan_nil calm⟩
    | cons o plan =>
        cases o with
        | done => exact .inl ⟨plan, by simp [replan], htail _ _ hp⟩
        | short n => exact absurd rfl (hs (.short n) (by simp [hp]) n)
        | powerLoss n =>
            exact .inr ⟨fun h => absurd (hc h) (by simp [hp]), n, plan, by simp [replan],
              htail _ _ hp⟩

/-! ### Frames -/

/-- `d'` is `d` but for bytes `lo` to `hi`. -/
structure Frame (lo hi : ℕ) (d d' : Device) : Prop where
  size : d'.size = d.size
  plan : d'.plan = d.plan
  bytes : ∀ p, (p < lo ∨ hi ≤ p) → d'.bytes p = d.bytes p

theorem Frame.refl (lo hi : ℕ) (d : Device) : Frame lo hi d d := ⟨rfl, rfl, fun _ _ => rfl⟩

theorem Frame.trans {lo hi : ℕ} {d d' d'' : Device} (h : Frame lo hi d d')
    (h' : Frame lo hi d' d'') : Frame lo hi d d'' :=
  ⟨h'.size.trans h.size, h'.plan.trans h.plan, fun p hp => (h'.bytes p hp).trans (h.bytes p hp)⟩

theorem Frame.mono {lo hi lo' hi' : ℕ} {d d' : Device} (h : Frame lo hi d d') (hlo : lo' ≤ lo)
    (hhi : hi ≤ hi') : Frame lo' hi' d d' :=
  ⟨h.size, h.plan, fun p hp => h.bytes p (by omega)⟩

/-- A write changes the bytes it covers. -/
theorem frame_store (d : Device) (off : ℕ) (data : List UInt8) :
    Frame off (off + data.length) d (d.store off data) := by
  refine ⟨rfl, rfl, fun p hp => Image.apply_of_not_covers ?_⟩
  rintro ⟨h₁, h₂⟩
  simp only [List.length_take] at h₁ h₂
  omega

/-- What is read outside the bytes that changed is what was there. -/
theorem Frame.read {lo hi off len : ℕ} {d d' : Device} (h : Frame lo hi d d')
    (hoff : off + len ≤ lo ∨ hi ≤ off) : d'.bytes.read off len = d.bytes.read off len := by
  refine List.ext_getElem? fun i => ?_
  rw [Image.getElem?_read, Image.getElem?_read]
  by_cases hi : i < len
  · rw [if_pos hi, if_pos hi, h.bytes _ (by omega)]
  · rw [if_neg hi, if_neg hi]

theorem read_store {d : Device} (off : ℕ) {data : List UInt8} (h : off + data.length ≤ d.size) :
    (d.store off data).bytes.read off data.length = data := by
  rw [bytes_store h]
  exact Image.read_apply_self d.bytes ⟨off, data⟩

end Device

end Bdr
