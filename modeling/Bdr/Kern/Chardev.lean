import Bdr.Kern.Reservations
import Bdr.Kern.Construction

/-!
# Kern — the character device

`bdr_chardev_mmap` and `bdr_chardev_ioctl` of `kern/main.c`: what userspace can make the kernel do
with the ring buffer's memory.  Slots are longer than pages, so that the memory is the bytes of all
slots rounded up to pages, and the loop that maps it goes over those bytes page by page.

A store of `bdr_ring_buffer_put` lies in a slot, whatever the cursors are.  The other two accesses
are not checked: the test value goes to any offset that is asked for, and the whole buffer is mapped
also into a shorter range of addresses.  `Access.Asked` says what has to be asked for;
`inBounds_of_asked` is for any interleaving of the writers and of the calls of userspace.
-/

namespace Bdr.Kern

/-! ### Mapping the buffer -/

/-- `PAGE_ALIGN`. -/
def pageAlign (P n : ℕ) : ℕ := (n + (P - 1)) / P * P

/-- The bytes that `bdr_ring_buffer_init` allocates. -/
def bdrRingBufferAlloc (P maxWrites : ℕ) : ℕ := pageAlign P (bdrWritesToBytes P maxWrites)

/-- `struct vm_area_struct`: the range of addresses that is asked for, in whole pages. -/
structure VmArea (P : ℕ) where
  vmStart : ℕ
  vmEnd : ℕ
  start_le_end : vmStart ≤ vmEnd
  dvd_start : P ∣ vmStart
  dvd_end : P ∣ vmEnd

/-- A call of `remap_pfn_range`: the page of the buffer at `offset` gets the address. -/
structure Remap where
  address : ℕ
  offset : ℕ
  deriving DecidableEq, Repr

/-- The loop of `bdr_chardev_mmap`, from `offset` on, with what `remap_pfn_range` answers. -/
def remapPages (P rbSize vmStart : ℕ) (remapPfnRange : ℕ → Option Errno) :
    ℕ → ℕ → List Remap × Option Errno
  | 0, _ => ([], none)
  | fuel + 1, offset =>
      if offset < rbSize then
        match remapPfnRange offset with
        | some e => ([⟨vmStart + offset, offset⟩], some e)
        | none =>
            let rest := remapPages P rbSize vmStart remapPfnRange fuel (offset + P)
            (⟨vmStart + offset, offset⟩ :: rest.1, rest.2)
      else ([], none)

/-- `bdr_chardev_mmap`: the calls of `remap_pfn_range` and the error, if there is one.  The buffer
is there as long as the context is.  A range that is too short is only warned of: `mapped_size` is
not used behind that. -/
def bdrChardevMmap (P : ℕ) (bc : Option RingBuffer) (vma : VmArea P)
    (remapPfnRange : ℕ → Option Errno) : List Remap × Option Errno :=
  match bc with
  | none => ([], some .einval)
  | some rb =>
      let rbSize := bdrRingBufferGetByteSize P rb
      remapPages P rbSize vma.vmStart remapPfnRange rbSize 0

/-! ### Commands -/

/-- The commands of `bdr_chardev_ioctl`. -/
inductive Ioctl where
  | getBufferInfo
  | getTargetInfo
  | getStatus
  | getBufferInfoWait
  | readBufferInfo
  | readBufferInfoWait
  | resetBuffer
  | writeTestValue (offset : UInt32)
  | unknown (cmd : UInt32)
  deriving DecidableEq, Repr

/-- `enum bdr_status`. -/
inductive Status where
  | active
  | overflowing
  | stopped
  deriving DecidableEq, Repr

/-- What a command copies to the user. -/
inductive Reply where
  | bufferInfo (info : BufferInfo)
  | targetInfo (info : TargetInfo)
  | status (status : Status)
  | nothing

/-- `-EFAULT` where the copy to or from the user fails. -/
def copying (copied : Bool) (r : Reply) : Except Errno Reply :=
  if copied then .ok r else .error .efault

/-- `-ENOTTY`. -/
def enotty : Errno := .other 25

/-- `bdr_chardev_ioctl`, once a command that waits goes on.  `copied` says whether the copy to or
from the user succeeds: a window whose copy fails has been read nevertheless. -/
def bdrChardevIoctl (P : ℕ) (rb : RingBuffer) (status : Status) (copied : Bool) :
    Ioctl → RingBuffer × Except Errno Reply
  | .getBufferInfo | .getBufferInfoWait => (rb, copying copied (.bufferInfo rb.bufferInfo))
  | .getTargetInfo => (rb, copying copied (.targetInfo (bdrGetTargetInfo P rb)))
  | .getStatus => (rb, copying copied (.status status))
  | .readBufferInfo | .readBufferInfoWait =>
      let r := bdrBufferReadRoutine rb
      (r.1, copying copied (.bufferInfo r.2))
  | .resetBuffer => (bdrRingBufferReset rb, .ok .nothing)
  | .writeTestValue offset =>
      if copied then ({ rb with buffer := rb.buffer.apply ⟨offset.toNat, [0xAA]⟩ }, .ok .nothing)
      else (rb, .error .efault)
  | .unknown _ => (rb, .error enotty)

/-- `wait_event_interruptible` goes on when there are new writes, or when a signal comes. -/
def Ioctl.goesOn (rb : RingBuffer) (signal : Bool) : Ioctl → Bool
  | .getBufferInfoWait | .readBufferInfoWait => rb.bufferInfo.length != 0 || signal
  | _ => true

/-! ### Runs -/

/-- What the kernel does to the memory of the buffer or to the addresses of the user. -/
inductive Access (P : ℕ) where
  | put (slot : ℕ) (a : Put P)
  | test (offset : UInt32)
  | mmap (vma : VmArea P) (calls : List Remap) (err : Option Errno)

/-- The buffer, the puts that have a slot and have still to fill it, and what has been accessed. -/
structure Chardev (P : ℕ) where
  ring : RingBuffer
  filling : List (Reservation P)
  accesses : List (Access P)

/-- A writer reserves a slot or fills the one it has; a command and a mapping of userspace. -/
inductive ChardevMove (P : ℕ) where
  | reserve (a : Put P)
  | fill (i : ℕ)
  | ioctl (cmd : Ioctl) (status : Status) (copied signal : Bool)
  | mmap (vma : VmArea P) (remapPfnRange : ℕ → Option Errno)

namespace Chardev
variable {P : ℕ}

def start (rb : RingBuffer) : Chardev P := ⟨rb, [], []⟩

def step (s : Chardev P) : ChardevMove P → Option (Chardev P)
  | .reserve a =>
      let r := reserve s.ring.bufferInfo
      some { s with
        ring := { s.ring with bufferInfo := r.1 }
        filling := s.filling ++ (r.2.map fun slot => ⟨slot, a⟩).toList }
  | .fill i =>
      s.filling[i]?.map fun r =>
        { ring := { s.ring with buffer := fill s.ring.buffer r.slot r.put }
          filling := s.filling.eraseIdx i
          accesses := s.accesses ++ [.put r.slot r.put] }
  | .ioctl cmd status copied signal =>
      if cmd.goesOn s.ring signal then
        some { s with
          ring := (bdrChardevIoctl P s.ring status copied cmd).1
          accesses := s.accesses ++ match cmd with
            | .writeTestValue offset => if copied then [.test offset] else []
            | _ => [] }
      else none
  | .mmap vma remapPfnRange =>
      let r := bdrChardevMmap P (some s.ring) vma remapPfnRange
      some { s with accesses := s.accesses ++ [.mmap vma r.1 r.2] }

end Chardev

namespace Access
variable {P : ℕ}

/-- The stores to the buffer: those of a put are `fill`'s. -/
def stores : Access P → List (Patch UInt8)
  | .put slot a =>
      [⟨slot * bdrWriteInfoSize P, le32 a.sector⟩, ⟨slot * bdrWriteInfoSize P + 4, le32 a.size⟩,
        ⟨slot * bdrWriteInfoSize P + 8,
          (a.page.drop a.pageOffset).take (min a.length (P - a.pageOffset))⟩]
  | .test offset => [⟨offset.toNat, [0xAA]⟩]
  | .mmap _ _ _ => []

/-- Every store lies in the memory of a buffer of `maxWrites` slots.  A page that is mapped lies in
the range that was asked for and in the memory, and without an error every slot is mapped. -/
def InBounds (maxWrites : ℕ) (x : Access P) : Prop :=
  (∀ w ∈ x.stores, ∀ p, w.Covers p → p < bdrRingBufferAlloc P maxWrites) ∧
    match x with
    | .mmap vma calls err =>
        (∀ c ∈ calls, c.address = vma.vmStart + c.offset ∧ c.address + P ≤ vma.vmEnd ∧
          c.offset + P ≤ bdrRingBufferAlloc P maxWrites) ∧
        (err = none → ∀ slot < maxWrites, ∀ p, InSlot P slot p →
          ∃ c ∈ calls, c.offset ≤ p ∧ p < c.offset + P)
    | .put _ _ | .test _ => True

/-- What userspace has to ask for: an offset in the memory, and a range that the slots fit into. -/
def Asked (maxWrites : ℕ) : Access P → Prop
  | .put _ _ => True
  | .test offset => offset.toNat < bdrRingBufferAlloc P maxWrites
  | .mmap vma _ _ => bdrWritesToBytes P maxWrites ≤ vma.vmEnd - vma.vmStart

instance (maxWrites : ℕ) : (x : Access P) → Decidable (x.Asked maxWrites)
  | .put _ _ => inferInstanceAs (Decidable True)
  | .test _ => inferInstanceAs (Decidable (_ < _))
  | .mmap _ _ _ => inferInstanceAs (Decidable (_ ≤ _))

end Access

/-! ### Pages and slots -/

section Pages
variable {P : ℕ}

theorem le_pageAlign (hP : 0 < P) (n : ℕ) : n ≤ pageAlign P n := by
  have h := Nat.lt_div_mul_add hP (a := n + (P - 1))
  unfold pageAlign
  omega

/-- A page that begins in front of the end lies in front of the next boundary. -/
theorem add_le_of_lt {off n : ℕ} (hoff : P ∣ off) (hn : P ∣ n) (h : off < n) : off + P ≤ n := by
  obtain ⟨i, rfl⟩ := hoff
  obtain ⟨j, rfl⟩ := hn
  have hij : i < j := lt_of_mul_lt_mul_left h (Nat.zero_le P)
  calc P * i + P = P * (i + 1) := (Nat.mul_succ P i).symm
    _ ≤ P * j := Nat.mul_le_mul_left P hij

theorem add_le_pageAlign (hP : 0 < P) {off n : ℕ} (hoff : P ∣ off) (h : off < n) :
    off + P ≤ pageAlign P n :=
  add_le_of_lt hoff (Dvd.intro_left _ rfl) (h.trans_le (le_pageAlign hP n))

/-- A slot's bytes are among the bytes of all slots. -/
theorem InSlot.lt_writesToBytes {slot maxWrites p : ℕ} (hslot : slot < maxWrites)
    (hp : InSlot P slot p) : p < bdrWritesToBytes P maxWrites := by
  calc p < slot * bdrWriteInfoSize P + bdrWriteInfoSize P := hp.2
    _ = (slot + 1) * bdrWriteInfoSize P := (Nat.succ_mul _ _).symm
    _ ≤ maxWrites * bdrWriteInfoSize P := Nat.mul_le_mul_right _ hslot

/-- A put stores into its slot only. -/
theorem inSlot_of_covers {slot p : ℕ} {a : Put P} {w : Patch UInt8}
    (hw : w ∈ (Access.put slot a).stores) (hp : w.Covers p) : InSlot P slot p := by
  have hpage := a.page_length
  simp only [Access.stores, List.mem_cons, List.not_mem_nil, or_false] at hw
  unfold InSlot bdrWriteInfoSize
  unfold bdrWriteInfoSize at hw
  rcases hw with rfl | rfl | rfl
  all_goals
    simp only [Patch.Covers, length_le32, List.length_take, List.length_drop] at hp
    omega

/-- Every slot that is given out is one of the buffer's. -/
theorem slot_lt_of_reserve {bi bi' : BufferInfo} {slot : ℕ} (hpos : 0 < bi.maxWrites)
    (h : reserve bi = (bi', some slot)) : slot < bi.maxWrites := by
  unfold reserve at h
  split at h
  · cases h
  · simp only at h
    split at h
    · cases h
    · cases h
      exact Nat.mod_lt _ hpos

variable {rbSize vmStart : ℕ} {remapPfnRange : ℕ → Option Errno}

/-- Each call of the loop is for a page that begins in the bytes of the slots. -/
theorem mem_remapPages {fuel offset : ℕ} (hoff : P ∣ offset) {c : Remap}
    (hc : c ∈ (remapPages P rbSize vmStart remapPfnRange fuel offset).1) :
    c.address = vmStart + c.offset ∧ P ∣ c.offset ∧ c.offset < rbSize := by
  induction fuel generalizing offset with
  | zero => exact absurd hc List.not_mem_nil
  | succ fuel ih =>
      rw [remapPages] at hc
      split at hc
      · rename_i hlt
        split at hc
        · obtain rfl := List.mem_singleton.mp hc
          exact ⟨rfl, hoff, hlt⟩
        · rcases List.mem_cons.mp hc with rfl | hc
          · exact ⟨rfl, hoff, hlt⟩
          · exact ih (Nat.dvd_add hoff dvd_rfl) hc
      · exact absurd hc List.not_mem_nil

/-- A loop without an error has mapped every byte from its offset on. -/
theorem covered_of_remapPages (hP : 0 < P) {fuel offset : ℕ} (hfuel : rbSize ≤ offset + fuel)
    (herr : (remapPages P rbSize vmStart remapPfnRange fuel offset).2 = none) {p : ℕ}
    (hoff : offset ≤ p) (hp : p < rbSize) :
    ∃ c ∈ (remapPages P rbSize vmStart remapPfnRange fuel offset).1,
      c.offset ≤ p ∧ p < c.offset + P := by
  induction fuel generalizing offset with
  | zero => omega
  | succ fuel ih =>
      rw [remapPages, if_pos (hoff.trans_lt hp)] at herr ⊢
      split
      · rename_i e hremap
        simp [hremap] at herr
      · rename_i hremap
        simp only [hremap] at herr
        -- the byte is in this page or in a later one
        by_cases hthis : p < offset + P
        · exact ⟨_, List.mem_cons_self, hoff, hthis⟩
        · obtain ⟨c, hc, hcp⟩ := ih (by omega) herr (Nat.le_of_not_lt hthis)
          exact ⟨c, List.mem_cons_of_mem _ hc, hcp⟩

/-- A proper call of `bdr_chardev_mmap`. -/
theorem inBounds_mmap (hP : 0 < P) {rb : RingBuffer} {vma : VmArea P}
    (remapPfnRange : ℕ → Option Errno)
    (hasked : bdrWritesToBytes P rb.bufferInfo.maxWrites ≤ vma.vmEnd - vma.vmStart) :
    (Access.mmap vma (bdrChardevMmap P (some rb) vma remapPfnRange).1
      (bdrChardevMmap P (some rb) vma remapPfnRange).2).InBounds rb.bufferInfo.maxWrites := by
  refine ⟨fun w hw => absurd hw List.not_mem_nil, fun c hc => ?_, fun herr slot hslot p hp => ?_⟩
  · obtain ⟨haddr, hdvd, hlt⟩ := mem_remapPages (dvd_zero P) hc
    have hlength : P ∣ vma.vmEnd - vma.vmStart := Nat.dvd_sub vma.dvd_end vma.dvd_start
    have hpage := add_le_of_lt hdvd hlength (hlt.trans_le hasked)
    have hle := vma.start_le_end
    exact ⟨haddr, by omega, add_le_pageAlign hP hdvd hlt⟩
  · exact covered_of_remapPages hP (Nat.le_add_left _ _) herr (Nat.zero_le p)
      (InSlot.lt_writesToBytes hslot hp)

end Pages

theorem buffer_bdrBufferReadRoutine (rb : RingBuffer) :
    (bdrBufferReadRoutine rb).1.buffer = rb.buffer := by
  simp only [bdrBufferReadRoutine]
  split <;> rfl

/-! ### One step -/

namespace Chardev
variable {P : ℕ} {mem : Image UInt8} {maxWrites : ℕ} {s s' : Chardev P}

/-- The buffer is what the accesses have made of the memory that `vmalloc` returned, the slots that
are reserved are the buffer's, and what was asked for properly is in bounds. -/
structure Bounded (mem : Image UInt8) (maxWrites : ℕ) (s : Chardev P) : Prop where
  maxWrites_eq : s.ring.bufferInfo.maxWrites = maxWrites
  maxWrites_pos : 0 < maxWrites
  buffer_eq : s.ring.buffer = mem.applyAll (s.accesses.flatMap Access.stores)
  filling : ∀ r ∈ s.filling, r.slot < maxWrites
  accesses : ∀ x ∈ s.accesses, x.Asked maxWrites → x.InBounds maxWrites

theorem bounded_start {rb : RingBuffer} (h : bdrRingBufferInit mem maxWrites = some rb) :
    Bounded mem maxWrites (start (P := P) rb) := by
  unfold bdrRingBufferInit at h
  split at h
  · cases h
  · rename_i hne
    cases h
    exact ⟨rfl, Nat.pos_of_ne_zero hne, rfl, fun r hr => absurd hr List.not_mem_nil,
      fun x hx => absurd hx List.not_mem_nil⟩

namespace Bounded

/-- One more access. -/
theorem access (h : Bounded mem maxWrites s) (ring : RingBuffer) {x : Access P}
    (hmax : ring.bufferInfo.maxWrites = s.ring.bufferInfo.maxWrites)
    (hbuffer : ring.buffer = s.ring.buffer.applyAll x.stores)
    (hx : x.Asked maxWrites → x.InBounds maxWrites) :
    Bounded mem maxWrites { s with ring := ring, accesses := s.accesses ++ [x] } where
  maxWrites_eq := hmax.trans h.maxWrites_eq
  maxWrites_pos := h.maxWrites_pos
  buffer_eq := by
    rw [hbuffer, h.buffer_eq, List.flatMap_append, Image.applyAll_append, List.flatMap_singleton]
  filling := h.filling
  accesses := fun y hy => by
    rcases List.mem_append.mp hy with hy | hy
    · exact h.accesses y hy
    · obtain rfl := List.mem_singleton.mp hy
      exact hx

/-- The cursors move, and nothing is accessed. -/
theorem cursors (h : Bounded mem maxWrites s) (ring : RingBuffer)
    (hmax : ring.bufferInfo.maxWrites = s.ring.bufferInfo.maxWrites)
    (hbuffer : ring.buffer = s.ring.buffer) : Bounded mem maxWrites { s with ring := ring } :=
  ⟨hmax.trans h.maxWrites_eq, h.maxWrites_pos, hbuffer.trans h.buffer_eq, h.filling, h.accesses⟩

theorem reserve (h : Bounded mem maxWrites s) {a : Put P}
    (hs : s.step (.reserve a) = some s') : Bounded mem maxWrites s' := by
  cases hs
  have hmax := maxWrites_reserve s.ring.bufferInfo
  refine { h.cursors { s.ring with bufferInfo := (Kern.reserve s.ring.bufferInfo).1 } hmax rfl with
    filling := fun r hr => ?_ }
  rcases List.mem_append.mp hr with hr | hr
  · exact h.filling r hr
  · obtain ⟨slot, hslot, rfl⟩ := Option.map_eq_some_iff.mp (Option.mem_toList.mp hr)
    have hlt := slot_lt_of_reserve (h.maxWrites_eq ▸ h.maxWrites_pos) (Prod.ext rfl hslot)
    exact hlt.trans_eq h.maxWrites_eq

theorem fill (h : Bounded mem maxWrites s) (hP : 0 < P) {i : ℕ}
    (hs : s.step (.fill i) = some s') : Bounded mem maxWrites s' := by
  obtain ⟨r, hr, rfl⟩ := Option.map_eq_some_iff.mp hs
  have hslot : r.slot < maxWrites := h.filling r (List.mem_of_getElem? hr)
  have hin : (Access.put r.slot r.put).InBounds maxWrites := by
    refine ⟨fun w hw p hp => ?_, trivial⟩
    exact (InSlot.lt_writesToBytes hslot (inSlot_of_covers hw hp)).trans_le (le_pageAlign hP _)
  have hdone := h.access { s.ring with buffer := Kern.fill s.ring.buffer r.slot r.put } rfl rfl
    fun _ => hin
  exact { hdone with filling := fun q hq => h.filling q (List.mem_of_mem_eraseIdx hq) }

theorem ioctl (h : Bounded mem maxWrites s) {cmd : Ioctl} {status : Status}
    {copied signal : Bool} (hs : s.step (.ioctl cmd status copied signal) = some s') :
    Bounded mem maxWrites s' := by
  obtain ⟨-, hs⟩ := Option.ite_none_right_eq_some.mp hs
  cases hs
  cases cmd with
  | writeTestValue offset =>
      cases copied with
      | false => simpa [bdrChardevIoctl] using h
      | true =>
          -- the byte that is asked for is the one that is stored
          refine h.access { s.ring with buffer := _ } rfl rfl fun hasked => ?_
          refine ⟨fun w hw p hp => ?_, trivial⟩
          obtain rfl := List.mem_singleton.mp hw
          obtain rfl : p = offset.toNat := Nat.le_antisymm (Nat.lt_succ_iff.mp hp.2) hp.1
          exact hasked
  | readBufferInfo | readBufferInfoWait =>
      have hread := maxWrites_ringStep s.ring (.read : WindowOp (Put P))
      simpa [bdrChardevIoctl, ringStep] using h.cursors _ hread (buffer_bdrBufferReadRoutine s.ring)
  | resetBuffer =>
      simpa [bdrChardevIoctl] using h.cursors (bdrRingBufferReset s.ring) rfl rfl
  | getBufferInfo | getBufferInfoWait | getTargetInfo | getStatus | unknown cmd =>
      simpa [bdrChardevIoctl] using h

theorem mmap (h : Bounded mem maxWrites s) (hP : 0 < P) {vma : VmArea P}
    {remapPfnRange : ℕ → Option Errno} (hs : s.step (.mmap vma remapPfnRange) = some s') :
    Bounded mem maxWrites s' := by
  cases hs
  refine h.access s.ring rfl rfl fun hasked => ?_
  have hmax := h.maxWrites_eq
  subst hmax
  exact inBounds_mmap hP remapPfnRange hasked

theorem step (h : Bounded mem maxWrites s) (hP : 0 < P) {m : ChardevMove P}
    (hs : s.step m = some s') : Bounded mem maxWrites s' := by
  cases m with
  | reserve a => exact h.reserve hs
  | fill i => exact h.fill hP hs
  | ioctl cmd status copied signal => exact h.ioctl hs
  | mmap vma remapPfnRange => exact h.mmap hP hs

end Bounded

/-- **Accesses to the ring stay in bounds**, whatever the interleaving of the writers with the
commands and mappings of userspace: each store of a put lies in the memory of the buffer, and so
does a test value whose offset does; a range that is as long as the slots holds all pages that are
mapped into it, all of them are the buffer's, and without an error every slot is mapped. -/
theorem inBounds_of_asked {rb : RingBuffer} {moves : List (ChardevMove P)} (hP : 0 < P)
    (hinit : bdrRingBufferInit mem maxWrites = some rb)
    (hrun : Run step anyStep (start rb) moves s) :
    s.ring.buffer = mem.applyAll (s.accesses.flatMap Access.stores) ∧
      ∀ x ∈ s.accesses, x.Asked maxWrites → x.InBounds maxWrites := by
  have h := hrun.invariant (I := Bounded mem maxWrites) (fun _ _ _ h _ hs => h.step hP hs)
    (bounded_start hinit)
  exact ⟨h.buffer_eq, h.accesses⟩

/-! ### Two slots, and one -/

theorem onesPut_page_length : (List.replicate 4096 (1 : UInt8)).length = 4096 :=
  List.length_replicate

theorem onesPut_pageOffset_le : 0 ≤ 4096 := Nat.zero_le 4096

/-- A page of ones. -/
def onesPut : Put 4096 where
  sector := 0
  size := 4096
  page := List.replicate 4096 1
  pageOffset := 0
  length := 4096
  page_length := onesPut_page_length
  pageOffset_le := onesPut_pageOffset_le
  size_eq := rfl

/-- A range of `pages` pages. -/
def pagesArea (pages : ℕ) : VmArea 4096 :=
  ⟨65536, 65536 + 4096 * pages, Nat.le_add_right _ _, by decide,
    Nat.dvd_add (by decide) (Dvd.intro _ rfl)⟩

/-- A put, a test value in the last byte of the buffer's memory, and a mapping of three pages. -/
def properMoves : List (ChardevMove 4096) :=
  [.reserve onesPut, .fill 0, .ioctl (.writeTestValue 12287) .active true false,
    .mmap (pagesArea 3) fun _ => none]

theorem inBounds_of_asked_properMoves : ∃ rb s, bdrRingBufferInit (fun _ => 0) 2 = some rb ∧
    Run step anyStep (start rb) properMoves s ∧ s.accesses.length = 3 ∧
      ∀ x ∈ s.accesses, x.InBounds 2 := by
  obtain ⟨s, hs, hasked⟩ := exists_exec
    (P := fun s : Chardev 4096 =>
      decide (s.accesses.length = 3) && decide (∀ x ∈ s.accesses, x.Asked 2))
    (show (exec step (start ⟨fun _ => 0, ⟨0, 0, 0, 0, 2⟩⟩) properMoves).any _ = true by
      decide +kernel)
  rw [Bool.and_eq_true] at hasked
  obtain ⟨hlength, hall⟩ := hasked
  have hrun : Run step anyStep _ properMoves s := .of_exec hs fun _ _ _ => trivial
  refine ⟨_, s, rfl, hrun, of_decide_eq_true hlength, fun x hx => ?_⟩
  exact (inBounds_of_asked (by decide) rfl hrun).2 x hx (of_decide_eq_true hall x hx)

/-- The byte behind the memory of a buffer of one slot, and one page for its two. -/
def uncheckedMoves : List (ChardevMove 4096) :=
  [.ioctl (.writeTestValue 8192) .active true false, .mmap (pagesArea 1) fun _ => none]

/-- The test value is stored behind the memory; the second page is mapped behind the range. -/
theorem not_inBounds_of_unchecked : ∃ rb s, bdrRingBufferInit (fun _ => 0) 1 = some rb ∧
    Run step anyStep (start rb) uncheckedMoves s ∧ bdrRingBufferAlloc 4096 1 = 8192 ∧
      s.accesses = [.test 8192, .mmap (pagesArea 1) [⟨65536, 0⟩, ⟨69632, 4096⟩] none] ∧
        (pagesArea 1).vmEnd = 69632 ∧ ∀ x ∈ s.accesses, ¬ x.InBounds 1 := by
  refine ⟨_, _, rfl, .of_exec rfl fun _ _ _ => trivial, rfl, rfl, rfl, fun x hx => ?_⟩
  rcases List.mem_cons.mp hx with rfl | hx
  · intro h
    exact absurd (h.1 _ List.mem_cons_self 8192 (by decide)) (by decide)
  · obtain rfl := List.mem_singleton.mp hx
    intro h
    exact absurd (h.2.1 ⟨69632, 4096⟩ (by decide)).2.1 (by decide)

end Chardev

end Bdr.Kern
