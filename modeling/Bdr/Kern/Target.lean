import Bdr.Kern.Reservations
import Bdr.Networking

/-!
# Kern — the target

`bdr_target_map` of `kern/main.c`.  A write bio is captured first, segment by segment, and then
submitted to the underlying device, which applies it some time later.  A recovery resets the ring
buffer, and after that reads the underlying device byte by byte.

A write whose entry the reset has thrown away (or that was refused, because the buffer had
overflown) must be found on the device: it is, if it was applied before the reset
(`contained_of_careful`).  Nothing in the source waits for that.

The segments are those of `bio_for_each_segment`, each inside one page, and the target begins at
the first sector of the device, so that `dm_target_offset` leaves the sector as it is.
-/

namespace Bdr.Kern

/-- `struct bio_vec` with the sector of its iterator: a part of a page. -/
structure BioVec (P : ℕ) where
  sector : ℕ
  page : List UInt8
  offset : ℕ
  length : UInt32
  page_length : page.length = P
  length_le : offset + length.toNat ≤ P

/-- The segments of a write bio. -/
abbrev Bio (P : ℕ) := List (BioVec P)

namespace BioVec
variable {P : ℕ}

/-- What is put into the ring buffer: the sector is an `unsigned int` there. -/
def put (v : BioVec P) : Put P where
  sector := UInt32.ofNat v.sector
  size := v.length
  page := v.page
  pageOffset := v.offset
  length := v.length.toNat
  page_length := v.page_length
  pageOffset_le := (Nat.le_add_right _ _).trans v.length_le
  size_eq := by have := v.length_le; omega

/-- What is written to the underlying device. -/
def patch (v : BioVec P) : Patch UInt8 :=
  ⟨kernelLogicalSectorSize * v.sector, (v.page.drop v.offset).take v.length.toNat⟩

end BioVec

section Map
variable {P : ℕ}

/-- `bdr_put_write_to_buffer`.  A segment ends on its page, so that the loop makes one round. -/
def bdrPutWriteToBuffer (rb : RingBuffer) (v : BioVec P) : RingBuffer :=
  if 0 < v.length then (bdrRingBufferPut rb v.put).1 else rb

/-- `bdr_submit_bio`. -/
def bdrSubmitBio (rb : RingBuffer) (bio : Bio P) : RingBuffer := bio.foldl bdrPutWriteToBuffer rb

/-- `bdr_target_map` of a write, up to `submit_bio`. -/
def bdrTargetMap (rb : RingBuffer) (bio : Bio P) : RingBuffer :=
  if rb.bufferInfo.overflown then rb else bdrSubmitBio rb bio

/-- What the bio writes to the device. -/
def Bio.patches (bio : Bio P) : List (Patch UInt8) := bio.map BioVec.patch

/-- The bio writes the byte at `p`. -/
def Bio.Covers (bio : Bio P) (p : ℕ) : Prop := ∃ w ∈ bio.patches, w.Covers p

/-- With an unflagged buffer a segment is captured by one put, and what is put is what is written
to the device. -/
theorem bdrTargetMap_singleton {rb : RingBuffer} (h : rb.bufferInfo.overflown = false)
    {v : BioVec P} (hv : 0 < v.length) :
    bdrTargetMap rb [v] = (bdrRingBufferPut rb v.put).1 ∧ v.patch.data = v.put.data := by
  refine ⟨?_, rfl⟩
  rw [bdrTargetMap, h, if_neg (by decide)]
  exact if_pos hv

end Map

/-! ### Bios on their way -/

/-- A byte that a recovery has read: what had been lost by then, and what had been applied. -/
structure SourceRead (P : ℕ) where
  offset : ℕ
  value : UInt8
  lost : List (ℕ × Bio P)
  applied : List (ℕ × Bio P)

/-- The ring buffer and the underlying device.  A bio is numbered when it is mapped (`next`); then
it is `submitted` until it is `applied`.  It is `unread` as long as its entries have not been read,
or if they were refused, and `lost` if it was unread at a reset. -/
structure Target (P : ℕ) where
  ring : RingBuffer
  device : Image UInt8
  next : ℕ
  submitted : List (ℕ × Bio P)
  applied : List (ℕ × Bio P)
  unread : List (ℕ × Bio P)
  lost : List (ℕ × Bio P)
  reads : List (SourceRead P)

/-- A bio is mapped, or applied by the device; the buffer is read or reset; a recovery reads a byte
of the device. -/
inductive TargetMove (P : ℕ) where
  | map (bio : Bio P)
  | apply (i : ℕ)
  | read
  | reset
  | readSource (offset : ℕ)

namespace Target
variable {P : ℕ}

def start (rb : RingBuffer) (device : Image UInt8) : Target P := ⟨rb, device, 0, [], [], [], [], []⟩

def step (s : Target P) : TargetMove P → Option (Target P)
  | .map bio =>
      some { s with
        ring := bdrTargetMap s.ring bio
        next := s.next + 1
        submitted := s.submitted ++ [(s.next, bio)]
        unread := s.unread ++ [(s.next, bio)] }
  | .apply i =>
      s.submitted[i]?.map fun b =>
        { s with
          device := s.device.applyAll b.2.patches
          submitted := s.submitted.eraseIdx i
          applied := s.applied ++ [b] }
  | .read =>
      let r := bdrBufferReadRoutine s.ring
      -- an overflown buffer hands out nothing
      some { s with ring := r.1, unread := if r.2.overflown then s.unread else [] }
  | .reset =>
      some { s with
        ring := bdrRingBufferReset s.ring
        unread := []
        lost := s.lost ++ s.unread }
  | .readSource p =>
      some { s with reads := s.reads ++ [⟨p, s.device p, s.lost, s.applied⟩] }

/-- Every byte a recovery has read is what the bios applied by then make of the device, and those
that were lost and write the byte are among them. -/
def Contained (device : Image UInt8) (s : Target P) : Prop :=
  ∀ r ∈ s.reads,
    r.value = device.applyAll (r.applied.flatMap fun b => b.2.patches) r.offset ∧
      ∀ b ∈ r.lost, b.2.Covers r.offset → b ∈ r.applied

/-- The bios that a reset throws away have been applied. -/
def careful (s : Target P) : TargetMove P → Prop
  | .reset => ∀ b ∈ s.unread, ∀ c ∈ s.submitted, b.1 ≠ c.1
  | _ => True

instance (s : Target P) : (m : TargetMove P) → Decidable (s.careful m)
  | .reset => inferInstanceAs (Decidable (∀ b ∈ s.unread, ∀ c ∈ s.submitted, b.1 ≠ c.1))
  | .map _ | .apply _ | .read | .readSource _ => inferInstanceAs (Decidable True)

/-- Bios are submitted until they are applied, and lost only after that. -/
structure Kept (device : Image UInt8) (s : Target P) : Prop where
  device_eq : s.device = device.applyAll (s.applied.flatMap fun b => b.2.patches)
  unread : ∀ b ∈ s.unread, b ∈ s.submitted ∨ b ∈ s.applied
  lost : ∀ b ∈ s.lost, b ∈ s.applied
  contained : s.Contained device

section Kept
variable {device : Image UInt8} {s s' : Target P}

theorem kept_start (rb : RingBuffer) : Kept (P := P) device (start rb device) where
  device_eq := rfl
  unread := fun _ hb => absurd hb List.not_mem_nil
  lost := fun _ hb => absurd hb List.not_mem_nil
  contained := fun _ hr => absurd hr List.not_mem_nil

theorem Kept.step (h : Kept device s) {m : TargetMove P} (hok : s.careful m)
    (hs : s.step m = some s') : Kept device s' := by
  cases m with
  | map bio =>
      cases hs
      refine ⟨h.device_eq, fun b hb => ?_, h.lost, h.contained⟩
      rcases List.mem_append.mp hb with hb | hb
      · exact (h.unread b hb).imp_left (List.mem_append_left _)
      · exact .inl (List.mem_append_right _ hb)
  | apply i =>
      obtain ⟨b, hb, rfl⟩ := Option.map_eq_some_iff.mp hs
      refine ⟨?_, fun c hc => ?_, fun c hc => List.mem_append_left _ (h.lost c hc), h.contained⟩
      · simp only [List.flatMap_append, List.flatMap_singleton, Image.applyAll_append]
        rw [← h.device_eq]
      · rcases h.unread c hc with hin | hin
        · -- the one that is applied, or one that stays submitted
          obtain ⟨k, hk⟩ := List.mem_iff_getElem?.mp hin
          rcases eq_or_ne k i with rfl | hne
          · rw [hb, Option.some.injEq] at hk
            exact .inr (List.mem_append_right _ (List.mem_singleton.mpr hk.symm))
          · exact .inl (List.mem_eraseIdx_iff_getElem?.mpr ⟨k, hne, hk⟩)
        · exact .inr (List.mem_append_left _ hin)
  | read =>
      cases hs
      refine ⟨h.device_eq, fun b hb => ?_, h.lost, h.contained⟩
      simp only at hb
      split at hb
      · exact h.unread b hb
      · cases hb
  | reset =>
      cases hs
      refine ⟨h.device_eq, fun b hb => absurd hb List.not_mem_nil, fun b hb => ?_, h.contained⟩
      rcases List.mem_append.mp hb with hb | hb
      · exact h.lost b hb
      · exact (h.unread b hb).resolve_left fun hin => hok b hb b hin rfl
  | readSource p =>
      cases hs
      refine ⟨h.device_eq, h.unread, h.lost, fun r hr => ?_⟩
      rcases List.mem_append.mp hr with hr | hr
      · exact h.contained r hr
      · obtain rfl := List.mem_singleton.mp hr
        exact ⟨congrFun h.device_eq p, fun b hb _ => h.lost b hb⟩

end Kept

/-- **No write is lost if the reset waits for the device.**  Whatever is written, read and reset,
as long as the bios whose entries a reset throws away have been applied by then, every byte a
recovery reads contains every write to it that was lost from the ring. -/
theorem contained_of_careful {rb : RingBuffer} {device : Image UInt8} {moves : List (TargetMove P)}
    {s : Target P} (hrun : Run step careful (start rb device) moves s) : s.Contained device :=
  (hrun.invariant (I := Kept device) (fun _ _ _ h hok hs => h.step hok hs)
    (kept_start rb)).contained

/-! ### One bio -/

theorem fiveBio_length_le : 0 + (512 : UInt32).toNat ≤ 4096 := by decide

/-- A bio that fills the first sector of the device with fives. -/
def fiveBio : Bio 4096 :=
  [⟨0, List.replicate 4096 5, 0, 512, Writers.sectorPut_page_length, fiveBio_length_le⟩]

theorem contained_of_careful_fiveBio : ∃ s,
    Run step careful (start Writers.fourSlots fun _ => 0)
      [.map fiveBio, .apply 0, .reset, .map fiveBio, .readSource 0] s ∧
      s.lost.length = 1 ∧ s.Contained fun _ => 0 := by
  obtain ⟨s, hs, hlen⟩ := exists_exec (P := fun s : Target 4096 => decide (s.lost.length = 1))
    (show (exec (guarded step careful) (start Writers.fourSlots fun _ => 0)
      [.map fiveBio, .apply 0, .reset, .map fiveBio, .readSource 0]).any _ = true by
        decide +kernel)
  have hrun := Run.of_exec_guarded hs
  exact ⟨s, hrun, of_decide_eq_true hlen, contained_of_careful hrun⟩

/-- The bio is captured, the reset throws its entry away, the recovery reads the byte, and only then
the device applies the bio. -/
theorem not_contained_of_late_apply : ∃ s,
    exec step (start Writers.fourSlots fun _ => 0)
      [.map fiveBio, .reset, .readSource 0, .apply 0] = some s ∧ s.device 0 = 5 ∧
      ¬ s.Contained fun _ => 0 := by
  refine ⟨_, rfl, rfl, fun h => ?_⟩
  have hin := (h _ List.mem_cons_self).2 (0, fiveBio) List.mem_cons_self
    ⟨_, List.mem_cons_self, by decide +kernel⟩
  exact absurd hin List.not_mem_nil

end Target

end Bdr.Kern
