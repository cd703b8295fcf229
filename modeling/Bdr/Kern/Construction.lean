import Mathlib.Data.List.Nodup
import Bdr.Kern.RingBuffer
import Bdr.Kern.Bitmap
import Bdr.Support.Runs

/-!
# Kern — construction and destruction

`bdr_target_ctr` and `bdr_target_dtr` of `kern/main.c`.  The constructor acquires one resource after
the other and, where a call fails, jumps to a label from which on those it has are released; its
result is the error code it has then.  What the kernel answers (`Answers`) is given; every call may
fail.

The error code is set wherever a call fails but one: when the third argument is not a positive
number it is still the zero of the call before, and the device mapper takes a target without a
context for a good one.  With a good third argument the resources are consistent over any history
(`consistent_of_careful`).
-/

namespace Bdr.Kern

/-! ### The third argument -/

/-- `isspace`: tab to carriage return, the blank and the blank that does not break. -/
def isSpace (c : Char) : Bool := (9 ≤ c.toNat && c.toNat ≤ 13) || c.toNat == 32 || c.toNat == 160

/-- The value of a digit, if it is one of the base. -/
def digitValue (base : ℕ) (c : Char) : Option ℕ :=
  let v :=
    if c.isDigit then c.toNat - 48
    else if 'a' ≤ c.toLower ∧ c.toLower ≤ 'f' then c.toLower.toNat - 87
    else base
  if v < base then some v else none

/-- `_parse_integer`: the number that the digits at the beginning make. -/
def parseInteger (base : ℕ) : List Char → ℕ → ℕ
  | [], acc => acc
  | c :: cs, acc =>
      match digitValue base c with
      | some d => parseInteger base cs (acc * base + d)
      | none => acc

/-- `simple_strtoull` with base zero: hexadecimal behind `0x`, octal behind `0`. -/
def simpleStrtoull : List Char → ℕ
  | '0' :: x :: d :: cs =>
      if x.toLower = 'x' ∧ (digitValue 16 d).isSome then parseInteger 16 (d :: cs) 0
      else parseInteger 8 (x :: d :: cs) 0
  | '0' :: cs => parseInteger 8 cs 0
  | cs => parseInteger 10 cs 0

/-- `sscanf(arg, "%iu", &max_writes)`: the integer at the beginning, as an `unsigned int`; what
follows it does not matter. -/
def scanMaxWrites (arg : String) : Option UInt32 :=
  match arg.toList.dropWhile isSpace with
  | '-' :: d :: cs => if d.isDigit then some (0 - UInt32.ofNat (simpleStrtoull (d :: cs))) else none
  | d :: cs => if d.isDigit then some (UInt32.ofNat (simpleStrtoull (d :: cs))) else none
  | [] => none

/-! ### Resources -/

/-- What a target holds; `node` is the device of `device_create`. -/
inductive Resource where
  | context
  | device
  | name
  | ring
  | minor
  | node
  | cdev
  | bitmap
  deriving DecidableEq, Repr

def Resource.all : List Resource :=
  [.context, .device, .name, .ring, .minor, .node, .cdev, .bitmap]

theorem Resource.mem_all (r : Resource) : r ∈ Resource.all := by
  cases r <;> decide

inductive ResourceEvent where
  | acquire (r : Resource)
  | release (r : Resource)
  deriving DecidableEq, Repr

/-- `struct bdr_context`. -/
structure Context where
  device : String
  chardevName : String
  ringBuf : RingBuffer
  minor : ℕ
  overflowBm : Bitmap

/-- What the kernel answers to the calls of the constructor: whether `kzalloc`, `kstrdup` and the
`kzalloc` of the bitmap succeed, the error of the others if they fail, the memory that `vmalloc`
returns, and the sectors of the device. -/
structure Answers where
  kzalloc : Bool
  dmGetDevice : Option Errno
  kstrdup : Bool
  vmalloc : Option (Image UInt8)
  deviceCreate : Option Errno
  cdevAdd : Option Errno
  bitmapAlloc : Bool
  getCapacity : UInt64

namespace Answers

/-- `bdr_ring_buffer_init` with the memory there is. -/
def ringBufferInit (k : Answers) (maxWrites : UInt32) : Except Errno RingBuffer :=
  match k.vmalloc with
  | none => if maxWrites = 0 then .error .einval else .error .enomem
  | some mem =>
      match bdrRingBufferInit mem maxWrites.toNat with
      | none => .error .einval
      | some rb => .ok rb

/-- The bits of the overflow bitmap: an `unsigned long` that is passed as an `unsigned int`. -/
def numBlocks (k : Answers) : UInt32 := UInt32.ofNat (k.getCapacity.toNat >>> bdrBlockSizeShift)

end Answers

/-- What a call of the constructor leaves: the error code, `none` for zero; `ti->private`, if it was
set; the minor numbers; what has been acquired and released. -/
structure Constructed where
  ret : Option Errno
  ctx : Option Context
  minors : Bitmap
  events : List ResourceEvent

/-- `bdr_chardev_init`. -/
def bdrChardevInit (minors : Bitmap) (k : Answers) :
    Except Errno ℕ × Bitmap × List ResourceEvent :=
  match bdrBitmapAllocate minors with
  | .error _ => (.error .enomem, minors, [])
  | .ok (minors, minor) =>
      match k.deviceCreate with
      | some e => (.error e, bdrBitmapFree minors minor, [.acquire .minor, .release .minor])
      | none =>
          match k.cdevAdd with
          | some e =>
              (.error e, bdrBitmapFree minors minor,
                [.acquire .minor, .acquire .node, .release .node, .release .minor])
          | none => (.ok minor, minors, [.acquire .minor, .acquire .node, .acquire .cdev])

/-- `bdr_chardev_destroy`. -/
def bdrChardevDestroy (minors : Bitmap) (minor : ℕ) : Bitmap × List ResourceEvent :=
  (bdrBitmapFree minors minor, [.release .minor, .release .node, .release .cdev])

section Labels
variable (ret : Option Errno) (minors : Bitmap) (events : List ResourceEvent)

def errGetDev : Constructed := ⟨ret, none, minors, events ++ [.release .context]⟩

def errName : Constructed := errGetDev ret minors (events ++ [.release .device])

def errScanfBuffer : Constructed := errName ret minors (events ++ [.release .name])

def errChardev : Constructed := errScanfBuffer ret minors (events ++ [.release .ring])

def errBitmap (minor : ℕ) : Constructed :=
  let r := bdrChardevDestroy minors minor
  errChardev ret r.1 (events ++ r.2)

end Labels

/-- `bdr_target_ctr`. -/
def bdrTargetCtr (minors : Bitmap) (argv : List String) (k : Answers) : Constructed :=
  match argv with
  | [path, chardevName, writes] =>
      if !k.kzalloc then ⟨some .enomem, none, minors, []⟩
      else
        match k.dmGetDevice with
        | some e => errGetDev (some e) minors [.acquire .context]
        | none =>
            if !k.kstrdup then
              errName (some .enomem) minors [.acquire .context, .acquire .device]
            else
              let events : List ResourceEvent :=
                [.acquire .context, .acquire .device, .acquire .name]
              match scanMaxWrites writes with
              -- the error code is the zero of `dm_get_device`
              | none => errScanfBuffer none minors events
              | some maxWrites =>
                  if maxWrites = 0 then errScanfBuffer none minors events
                  else
                    match k.ringBufferInit maxWrites with
                    | .error e => errScanfBuffer (some e) minors events
                    | .ok ringBuf =>
                        let events := events ++ [.acquire .ring]
                        match bdrChardevInit minors k with
                        | (.error e, minors, evs) => errChardev (some e) minors (events ++ evs)
                        | (.ok minor, minors, evs) =>
                            match bdrBitmapInit k.numBlocks k.bitmapAlloc with
                            | .error e => errBitmap (some e) minors (events ++ evs) minor
                            | .ok bm =>
                                ⟨none, some ⟨path, chardevName, ringBuf, minor, bm⟩, minors,
                                  events ++ evs ++ [.acquire .bitmap]⟩
  | _ => ⟨some .einval, none, minors, []⟩

/-- `bdr_target_dtr` of a target with a context. -/
def bdrTargetDtr (minors : Bitmap) (bc : Context) : Bitmap × List ResourceEvent :=
  let r := bdrChardevDestroy minors bc.minor
  (r.1, r.2 ++ [.release .device, .release .ring, .release .bitmap, .release .name,
    .release .context])

/-! ### One call -/

namespace Constructed

/-- The context is what the arguments and the kernel's answers say, and its minor is taken. -/
def Initialised (argv : List String) (k : Answers) (r : Constructed) (bc : Context) : Prop :=
  ∃ writes maxWrites, argv = [bc.device, bc.chardevName, writes] ∧
    scanMaxWrites writes = some maxWrites ∧ k.ringBufferInit maxWrites = .ok bc.ringBuf ∧
      bdrBitmapInit k.numBlocks k.bitmapAlloc = .ok bc.overflowBm ∧ r.minors.bits bc.minor = true

/-- Each resource has been acquired once and is held. -/
def Held (events : List ResourceEvent) : Prop :=
  ∀ x, events.count (.acquire x) = 1 ∧ events.count (.release x) = 0

/-- Each resource that has been acquired has been released once. -/
def Unwound (events : List ResourceEvent) : Prop :=
  ∀ x, events.count (.acquire x) ≤ 1 ∧ events.count (.release x) = events.count (.acquire x)

instance (events : List ResourceEvent) : Decidable (Held events) :=
  decidable_of_iff (∀ x ∈ Resource.all, _) ⟨fun h x => h x x.mem_all, fun h x _ => h x⟩

instance (events : List ResourceEvent) : Decidable (Unwound events) :=
  decidable_of_iff (∀ x ∈ Resource.all, _) ⟨fun h x => h x x.mem_all, fun h x _ => h x⟩

/-- A zero is returned only for an initialised context that holds all its resources; with an error
nothing is held. -/
def Sound (argv : List String) (k : Answers) (r : Constructed) : Prop :=
  (r.ret = none → ∃ bc, r.ctx = some bc ∧ Initialised argv k r bc ∧ Held r.events) ∧
    (r.ret ≠ none → r.ctx = none ∧ Unwound r.events)

/-- Nothing is left of the call. -/
structure Undone (minors : Bitmap) (r : Constructed) : Prop where
  ctx_eq : r.ctx = none
  minors_eq : r.minors = minors
  unwound : Unwound r.events

/-- The target has its context, with a minor that was free. -/
structure Built (minors : Bitmap) (argv : List String) (k : Answers) (r : Constructed)
    (bc : Context) : Prop where
  ret_eq : r.ret = none
  ctx_eq : r.ctx = some bc
  minors_eq : r.minors = minors.setBit bc.minor
  minor_lt : bc.minor < minors.maxBits
  minor_free : minors.bits bc.minor = false
  initialised : Initialised argv k r bc
  held : Held r.events

end Constructed

/-- Where the third argument is looked at, it is a number other than zero. -/
def Sized (argv : List String) (k : Answers) : Prop :=
  match argv with
  | [_, _, writes] =>
      (k.kzalloc && k.dmGetDevice.isNone && k.kstrdup) = true →
        (scanMaxWrites writes).any (· != 0) = true
  | _ => True

instance (argv : List String) (k : Answers) : Decidable (Sized argv k) := by
  unfold Sized
  split <;> infer_instance

section Call
variable {minors : Bitmap} {k : Answers}

/-- Freeing undoes an allocation. -/
theorem bdrBitmapFree_setBit {bit : ℕ} (hlt : bit < minors.maxBits)
    (hfree : minors.bits bit = false) : bdrBitmapFree (minors.setBit bit) bit = minors := by
  rw [bdrBitmapFree, Bitmap.maxBits_setBit, if_neg (Nat.not_le.mpr hlt)]
  have hbits : ((minors.setBit bit).clearBit bit).bits = minors.bits := by
    funext i
    by_cases hi : i = bit
    · simp [Bitmap.clearBit, hi, hfree]
    · simp [Bitmap.clearBit, Bitmap.setBit, bne, beq_false_of_ne hi]
  exact congrArg (Bitmap.mk · minors.maxBits) hbits

/-- What `bdr_chardev_init` has acquired and released where it fails. -/
def chardevFailures : List (List ResourceEvent) :=
  [[], [.acquire .minor, .release .minor],
    [.acquire .minor, .acquire .node, .release .node, .release .minor]]

/-- The character device is there with a minor that was free, or what had been acquired for it has
been released. -/
theorem bdrChardevInit_cases (minors : Bitmap) (k : Answers) :
    (∃ e evs, bdrChardevInit minors k = (.error e, minors, evs) ∧
      evs ∈ chardevFailures) ∨
    ∃ minor, minor < minors.maxBits ∧ minors.bits minor = false ∧
      bdrChardevInit minors k =
        (.ok minor, minors.setBit minor, [.acquire .minor, .acquire .node, .acquire .cdev]) := by
  unfold bdrChardevInit
  cases halloc : bdrBitmapAllocate minors with
  | error e => exact .inl ⟨_, _, rfl, by decide⟩
  | ok r =>
      obtain ⟨minors', minor⟩ := r
      obtain ⟨hlt, hfree, rfl⟩ := bdrBitmapAllocate_ok halloc
      cases hdev : k.deviceCreate with
      | some e => exact .inl ⟨e, _, by simp only [bdrBitmapFree_setBit hlt hfree]; rfl, by decide⟩
      | none =>
          cases hadd : k.cdevAdd with
          | some e =>
              exact .inl ⟨e, _, by simp only [bdrBitmapFree_setBit hlt hfree]; rfl, by decide⟩
          | none => exact .inr ⟨minor, hlt, hfree, rfl⟩

namespace Constructed
variable {ret : Option Errno}

/-! Each label undoes what has been acquired where it is jumped to. -/

theorem undone_errGetDev : Undone minors (errGetDev ret minors [.acquire .context]) :=
  ⟨rfl, rfl, show Unwound [.acquire .context, .release .context] by decide⟩

theorem undone_errName :
    Undone minors (errName ret minors [.acquire .context, .acquire .device]) :=
  ⟨rfl, rfl, show Unwound [.acquire .context, .acquire .device, .release .device,
    .release .context] by decide⟩

theorem undone_errScanfBuffer :
    Undone minors (errScanfBuffer ret minors [.acquire .context, .acquire .device,
      .acquire .name]) :=
  ⟨rfl, rfl, show Unwound [.acquire .context, .acquire .device, .acquire .name, .release .name,
    .release .device, .release .context] by decide⟩

theorem undone_errChardev {evs : List ResourceEvent} (h : evs ∈ chardevFailures) :
    Undone minors (errChardev ret minors
      ([.acquire .context, .acquire .device, .acquire .name] ++ [.acquire .ring] ++ evs)) := by
  refine ⟨rfl, rfl, ?_⟩
  rcases List.mem_cons.mp h with rfl | h
  · exact show Unwound [.acquire .context, .acquire .device, .acquire .name, .acquire .ring,
      .release .ring, .release .name, .release .device, .release .context] by decide
  rcases List.mem_cons.mp h with rfl | h
  · exact show Unwound [.acquire .context, .acquire .device, .acquire .name, .acquire .ring,
      .acquire .minor, .release .minor, .release .ring, .release .name, .release .device,
      .release .context] by decide
  cases List.mem_singleton.mp h
  exact show Unwound [.acquire .context, .acquire .device, .acquire .name, .acquire .ring,
    .acquire .minor, .acquire .node, .release .node, .release .minor, .release .ring,
    .release .name, .release .device, .release .context] by decide

theorem undone_errBitmap {minor : ℕ} (hlt : minor < minors.maxBits)
    (hfree : minors.bits minor = false) :
    Undone minors (errBitmap ret (minors.setBit minor)
      ([.acquire .context, .acquire .device, .acquire .name] ++ [.acquire .ring] ++
        [.acquire .minor, .acquire .node, .acquire .cdev]) minor) :=
  ⟨rfl, bdrBitmapFree_setBit hlt hfree, show Unwound [.acquire .context, .acquire .device,
    .acquire .name, .acquire .ring, .acquire .minor, .acquire .node, .acquire .cdev,
    .release .minor, .release .node, .release .cdev, .release .ring, .release .name,
    .release .device, .release .context] by decide⟩

/-- **What a call of the constructor does.**  Either nothing is left of it, and it returned zero
only for a bad third argument, or the target has its context. -/
theorem bdrTargetCtr_cases (minors : Bitmap) (argv : List String) (k : Answers) :
    (Undone minors (bdrTargetCtr minors argv k) ∧
      ((bdrTargetCtr minors argv k).ret = none → ¬ Sized argv k)) ∨
    ∃ bc, Built minors argv k (bdrTargetCtr minors argv k) bc := by
  have hnothing {e : Errno} : Undone minors ⟨some e, none, minors, []⟩ :=
    ⟨rfl, rfl, show Unwound [] by decide⟩
  -- one call after the other; each that fails is a way out
  unfold bdrTargetCtr
  split
  case h_2 => exact .inl ⟨hnothing, fun h => nomatch h⟩
  rename_i path chardevName writes
  cases hk : k.kzalloc with
  | false => exact .inl ⟨hnothing, fun h => nomatch h⟩
  | true =>
  cases hg : k.dmGetDevice with
  | some e => exact .inl ⟨undone_errGetDev, fun h => nomatch h⟩
  | none =>
  cases hn : k.kstrdup with
  | false => exact .inl ⟨undone_errName, fun h => nomatch h⟩
  | true =>
  have hsized (h : Sized [path, chardevName, writes] k) :
      (scanMaxWrites writes).any (· != 0) = true := h (by simp [hk, hg, hn])
  cases hscan : scanMaxWrites writes with
  | none => exact .inl ⟨undone_errScanfBuffer, fun _ h => by simpa [hscan] using hsized h⟩
  | some maxWrites =>
  by_cases hzero : maxWrites = 0
  · subst hzero
    exact .inl ⟨undone_errScanfBuffer, fun _ h => by simpa [hscan] using hsized h⟩
  simp only [Bool.not_true, Bool.false_eq_true, if_false, if_neg hzero]
  cases hring : k.ringBufferInit maxWrites with
  | error e => exact .inl ⟨undone_errScanfBuffer, fun h => nomatch h⟩
  | ok ringBuf =>
  rcases bdrChardevInit_cases minors k with ⟨e, evs, hdev, hevs⟩ | ⟨minor, hlt, hfree, hdev⟩
  · rw [hdev]
    exact .inl ⟨undone_errChardev hevs, fun h => nomatch h⟩
  · rw [hdev]
    cases hbm : bdrBitmapInit k.numBlocks k.bitmapAlloc with
    | error e => exact .inl ⟨undone_errBitmap hlt hfree, fun h => nomatch h⟩
    | ok bm =>
        have hset : (minors.setBit minor).bits minor = true :=
          (Bitmap.bits_setBit_of_lt (hlt.trans_le minors.maxBits_le_memoryBits)).mpr (.inr rfl)
        have hheld : Held [.acquire .context, .acquire .device, .acquire .name, .acquire .ring,
            .acquire .minor, .acquire .node, .acquire .cdev, .acquire .bitmap] := by decide
        exact .inr ⟨⟨path, chardevName, ringBuf, minor, bm⟩, rfl, rfl, rfl, hlt, hfree,
          ⟨writes, maxWrites, rfl, hscan, hring, hbm, hset⟩, hheld⟩

/-- A call whose third argument is good where it is looked at. -/
theorem sound_bdrTargetCtr {argv : List String} (h : Sized argv k) :
    Sound argv k (bdrTargetCtr minors argv k) := by
  rcases bdrTargetCtr_cases minors argv k with ⟨hundone, hret⟩ | ⟨bc, hbuilt⟩
  · exact ⟨fun h0 => absurd h (hret h0), fun _ => ⟨hundone.ctx_eq, hundone.unwound⟩⟩
  · exact ⟨fun _ => ⟨bc, hbuilt.ctx_eq, hbuilt.initialised, hbuilt.held⟩,
      fun hne => absurd hbuilt.ret_eq hne⟩

end Constructed

end Call

/-! ### Histories -/

/-- `BDR_MAX_DEVICES`. -/
def bdrMaxDevices : UInt32 := 64

/-- `bdr_minor_bitmap`, and `ti->private` of the targets that the device mapper has, those whose
constructor returned zero. -/
structure Driver where
  minors : Bitmap
  targets : List (Option Context)

inductive DriverMove where
  | ctr (argv : List String) (k : Answers)
  | dtr (target : ℕ)

namespace Driver

/-- `bdr_target_dtr` of a target without a context is no step: it dereferences a null pointer. -/
def step (d : Driver) : DriverMove → Option Driver
  | .ctr argv k =>
      let r := bdrTargetCtr d.minors argv k
      some ⟨r.minors, if r.ret = none then r.ctx :: d.targets else d.targets⟩
  | .dtr target =>
      match d.targets[target]? with
      | some (some bc) => some ⟨(bdrTargetDtr d.minors bc).1, d.targets.eraseIdx target⟩
      | _ => none

/-- The contexts of the targets. -/
def live (d : Driver) : List Context := d.targets.filterMap id

/-- The minors that are taken are those of the contexts, each of one. -/
structure Consistent (d : Driver) : Prop where
  bits_iff : ∀ i, d.minors.bits i = true ↔ i ∈ d.live.map Context.minor
  nodup : (d.live.map Context.minor).Nodup

/-- A constructor is called with a third argument that is good where it is looked at. -/
def careful (_ : Driver) : DriverMove → Prop
  | .ctr argv k => Sized argv k
  | .dtr _ => True

instance (d : Driver) : (m : DriverMove) → Decidable (d.careful m)
  | .ctr _ _ => inferInstanceAs (Decidable (Sized _ _))
  | .dtr _ => inferInstanceAs (Decidable True)

/-- What every history keeps: consistent minors within the bitmap, and a context for each target. -/
structure Good (d : Driver) : Prop extends Consistent d where
  lt_maxBits : ∀ bc ∈ d.live, bc.minor < d.minors.maxBits
  isSome : ∀ t ∈ d.targets, t.isSome

section Step
variable {d d' : Driver}

open Constructed in
theorem Good.ctr (h : d.Good) {argv : List String} {k : Answers} (hsized : Sized argv k)
    (hs : d.step (.ctr argv k) = some d') : d'.Good := by
  cases hs
  rcases bdrTargetCtr_cases d.minors argv k with ⟨hundone, hret⟩ | ⟨bc, hbuilt⟩
  · -- nothing has changed
    have hne : (bdrTargetCtr d.minors argv k).ret ≠ none := fun h0 => hret h0 hsized
    simp only [if_neg hne, hundone.minors_eq]
    exact h
  · -- one context more, with a minor that no other has
    have hlive : (⟨d.minors.setBit bc.minor, some bc :: d.targets⟩ : Driver).live =
        bc :: d.live := rfl
    have hmem := hbuilt.minor_lt.trans_le d.minors.maxBits_le_memoryBits
    simp only [if_pos hbuilt.ret_eq, hbuilt.minors_eq, hbuilt.ctx_eq]
    refine ⟨⟨fun i => ?_, ?_⟩, ?_, ?_⟩
    · rw [hlive, List.map_cons, List.mem_cons, Bitmap.bits_setBit_of_lt hmem, h.bits_iff, or_comm]
    · rw [hlive, List.map_cons, List.nodup_cons]
      refine ⟨fun hin => ?_, h.nodup⟩
      have hset := (h.bits_iff _).mpr hin
      rw [hbuilt.minor_free] at hset
      cases hset
    · rw [hlive]
      exact List.forall_mem_cons.mpr ⟨hbuilt.minor_lt, h.lt_maxBits⟩
    · exact List.forall_mem_cons.mpr ⟨rfl, h.isSome⟩

/-- The contexts around the one that goes. -/
theorem live_eraseIdx {target : ℕ} {bc : Context} (h : d.targets[target]? = some (some bc)) :
    ∃ before after, d.live = before ++ bc :: after ∧
      (d.targets.eraseIdx target).filterMap id = before ++ after := by
  obtain ⟨hlt, hbc⟩ := List.getElem?_eq_some_iff.mp h
  have htargets : d.targets = d.targets.take target ++ some bc :: d.targets.drop (target + 1) := by
    rw [← hbc, List.getElem_cons_drop, List.take_append_drop]
  refine ⟨(d.targets.take target).filterMap id, (d.targets.drop (target + 1)).filterMap id, ?_, ?_⟩
  · conv_lhs => rw [live, htargets]
    rw [List.filterMap_append]
    rfl
  · rw [List.eraseIdx_eq_take_drop_succ, List.filterMap_append]

theorem Good.dtr (h : d.Good) {target : ℕ} (hs : d.step (.dtr target) = some d') : d'.Good := by
  simp only [Driver.step] at hs
  split at hs
  case h_2 => cases hs
  rename_i bc htarget
  cases hs
  obtain ⟨before, after, hlive, hlive'⟩ := live_eraseIdx htarget
  have hlt : bc.minor < d.minors.maxBits := h.lt_maxBits bc (by rw [hlive]; simp)
  have hfree : (bdrTargetDtr d.minors bc).1 = d.minors.clearBit bc.minor :=
    if_neg (Nat.not_le.mpr hlt)
  -- the minor that goes is that of no other context
  have hnodup := h.nodup
  rw [hlive, List.map_append, List.map_cons, List.nodup_middle, List.nodup_cons,
    ← List.map_append] at hnodup
  refine ⟨⟨fun i => ?_, ?_⟩, fun bc' hbc' => ?_, fun t ht => ?_⟩
  · have hi : i ∈ d.live.map Context.minor ↔
        i = bc.minor ∨ i ∈ (before ++ after).map Context.minor := by
      simp only [hlive, List.map_append, List.map_cons, List.mem_append, List.mem_cons]
      tauto
    rw [live, hlive', hfree, Bitmap.bits_clearBit, h.bits_iff, hi]
    constructor
    · rintro ⟨heq | hin, hne⟩
      · exact absurd heq hne
      · exact hin
    · intro hin
      exact ⟨.inr hin, fun heq => hnodup.1 (heq ▸ hin)⟩
  · rw [live, hlive']
    exact hnodup.2
  · rw [live, hlive'] at hbc'
    rw [hfree, Bitmap.maxBits_clearBit]
    refine h.lt_maxBits bc' ?_
    rw [hlive, List.mem_append, List.mem_cons]
    rcases List.mem_append.mp hbc' with hb | ha
    · exact .inl hb
    · exact .inr (.inr ha)
  · exact h.isSome t (List.mem_of_mem_eraseIdx ht)

theorem Good.step (h : d.Good) {m : DriverMove} (hok : d.careful m) (hs : d.step m = some d') :
    d'.Good := by
  cases m with
  | ctr argv k => exact h.ctr hok hs
  | dtr target => exact h.dtr hs

end Step

/-- **Resources are consistent over every history** of constructors and destructors, whichever calls
of the kernel fail, if the third argument is good where it is looked at. -/
theorem consistent_of_careful {minors : Bitmap} {moves : List DriverMove} {d : Driver}
    (hinit : bdrBitmapInit bdrMaxDevices true = .ok minors)
    (hrun : Run step careful ⟨minors, []⟩ moves d) :
    d.Consistent ∧ (∀ t ∈ d.targets, t.isSome) ∧
      (∀ argv k, Sized argv k → (bdrTargetCtr d.minors argv k).Sound argv k) ∧
      ∀ bc x, (bdrTargetDtr d.minors bc).2.count (.release x) = 1 := by
  have hstart : Good ⟨minors, []⟩ := by
    cases hinit
    refine ⟨⟨fun i => ?_, List.nodup_nil⟩, fun bc hbc => ?_, fun t ht => ?_⟩
    · simp [live]
    · exact absurd hbc List.not_mem_nil
    · exact absurd ht List.not_mem_nil
  have hgood := hrun.invariant (I := Good) (fun _ _ _ h hok hs => h.step hok hs) hstart
  refine ⟨hgood.toConsistent, hgood.isSome, fun argv k h => Constructed.sound_bdrTargetCtr h,
    fun bc x => ?_⟩
  cases x <;> rfl

/-- What is not a number is undone like an error, but zero is returned. -/
theorem bdrTargetCtr_of_noNumber (minors : Bitmap) (path chardevName : String) {writes : String}
    {k : Answers} (hk : k.kzalloc = true) (hg : k.dmGetDevice = none) (hn : k.kstrdup = true)
    (hscan : scanMaxWrites writes = none) :
    (bdrTargetCtr minors [path, chardevName, writes] k).ret = none ∧
      (bdrTargetCtr minors [path, chardevName, writes] k).ctx = none := by
  simp only [bdrTargetCtr, hk, hg, hn, hscan, Bool.not_true, Bool.false_eq_true, if_false]
  exact ⟨rfl, rfl⟩

/-! ### Two devices -/

/-- Every call succeeds, over a device of a mebibyte. -/
def allGood : Answers := ⟨true, none, true, some fun _ => 0, none, none, true, 2048⟩

/-- Two targets, a third that finds no room for its bitmap, and the first of them is removed. -/
def twoDevices : List DriverMove :=
  [.ctr ["/dev/sda", "bdr0", "64"] allGood, .ctr ["/dev/sdb", "bdr1", "0x40"] allGood,
    .ctr ["/dev/sdc", "bdr2", "64"] { allGood with bitmapAlloc := false }, .dtr 1]

theorem consistent_of_careful_twoDevices : ∃ d,
    Run step careful ⟨⟨fun _ => false, 64⟩, []⟩ twoDevices d ∧
      d.live.map Context.minor = [1] ∧ d.Consistent := by
  obtain ⟨d, hd, hminor⟩ := exists_exec
    (P := fun d : Driver => decide (d.live.map Context.minor = [1]))
    (show (exec (guarded step careful) ⟨⟨fun _ => false, 64⟩, []⟩ twoDevices).any _ = true by
      decide +kernel)
  have hrun := Run.of_exec_guarded hd
  exact ⟨d, hrun, of_decide_eq_true hminor, (consistent_of_careful rfl hrun).1⟩

/-- A third argument that is no number: zero is returned, and there is no context. -/
theorem not_sound_of_noNumber : ∃ minors, bdrBitmapInit bdrMaxDevices true = .ok minors ∧
    (bdrTargetCtr minors ["/dev/sda", "bdr0", "many"] allGood).ret = none ∧
      (bdrTargetCtr minors ["/dev/sda", "bdr0", "many"] allGood).ctx = none ∧
        ¬ (bdrTargetCtr minors ["/dev/sda", "bdr0", "many"] allGood).Sound
          ["/dev/sda", "bdr0", "many"] allGood := by
  have hscan : scanMaxWrites "many" = none := by decide +kernel
  obtain ⟨minors, hminors⟩ : ∃ minors, bdrBitmapInit bdrMaxDevices true = .ok minors := ⟨_, rfl⟩
  obtain ⟨hret, hctx⟩ :=
    bdrTargetCtr_of_noNumber (k := allGood) minors "/dev/sda" "bdr0" rfl rfl rfl hscan
  refine ⟨minors, hminors, hret, hctx, fun h => ?_⟩
  obtain ⟨bc, hbc, -⟩ := h.1 hret
  rw [hctx] at hbc
  cases hbc

end Driver

/-! ### The bits of the overflow bitmap

The blocks are counted by a shift, which leaves out a last block that is not whole, and the count is
cut to 32 bits.  The bit of a sector is found by the same shift and is not checked. -/

section Blocks
variable {minors : Bitmap} {argv : List String} {k : Answers} {bc : Context}

theorem maxBits_of_ctx (h : (bdrTargetCtr minors argv k).ctx = some bc) :
    bc.overflowBm.maxBits = k.numBlocks.toNat := by
  rcases Constructed.bdrTargetCtr_cases minors argv k with ⟨hundone, -⟩ | ⟨bc', hbuilt⟩
  · rw [hundone.ctx_eq] at h
    cases h
  · obtain rfl := Option.some.inj (h.symm.trans hbuilt.ctx_eq)
    obtain ⟨-, -, -, -, -, hbm, -⟩ := hbuilt.initialised
    exact maxBits_bdrBitmapInit hbm

/-- Every sector has its bit exactly where the blocks are whole and few enough. -/
theorem forall_hasBit_iff (h : (bdrTargetCtr minors argv k).ctx = some bc) :
    (∀ sector < k.getCapacity.toNat, bc.overflowBm.HasBit (sector >>> bdrBlockSizeShift)) ↔
      k.getCapacity.toNat % 2 ^ bdrBlockSizeShift = 0 ∧
        k.getCapacity.toNat >>> bdrBlockSizeShift < 2 ^ 32 := by
  have hmax : bc.overflowBm.maxBits = k.getCapacity.toNat / 2048 % 2 ^ 32 := by
    rw [maxBits_of_ctx h, Answers.numBlocks, UInt32.toNat_ofNat', Nat.shiftRight_eq_div_pow]
    rfl
  simp only [Bitmap.hasBit_iff, hmax, Nat.shiftRight_eq_div_pow, bdrBlockSizeShift]
  norm_num only
  constructor
  · intro hall
    -- the last sector is the one that may have no bit
    rcases Nat.eq_zero_or_pos k.getCapacity.toNat with hzero | hpos
    · simp [hzero]
    · have hlast := hall (k.getCapacity.toNat - 1) (by omega)
      omega
  · rintro ⟨hwhole, hfew⟩ sector hsector
    rw [Nat.mod_eq_of_lt hfew]
    omega

/-- **The overflow bitmap has a bit for every sector** of a device of whole blocks, fewer than
`2³²`, and of no other: the bit is one of the bitmap's, in its words and in the bytes that a read
returns, and a read after `bdr_bitmap_set_sector` finds it set. -/
theorem hasBit_iff_wholeBlocks (h : (bdrTargetCtr minors argv k).ctx = some bc) :
    (∀ sector < k.getCapacity.toNat, bc.overflowBm.HasBit (sector >>> bdrBlockSizeShift) ∧
      ∃ returned, (bdrChardevRead (bdrBitmapSetSector bc.overflowBm sector)
        (bdrBitmapGetByteSize bc.overflowBm) true).1 = .ok returned ∧
          returned (sector >>> bdrBlockSizeShift) = true) ↔
      k.getCapacity.toNat % 2 ^ bdrBlockSizeShift = 0 ∧
        k.getCapacity.toNat >>> bdrBlockSizeShift < 2 ^ 32 := by
  rw [← forall_hasBit_iff h]
  exact ⟨fun hall sector hsector => (hall sector hsector).1, fun hall sector hsector =>
    ⟨hall sector hsector, (hall sector hsector).returned⟩⟩

/-- The last sector of a device of a mebibyte. -/
theorem hasBit_iff_wholeBlocks_last : ∃ bc,
    (bdrTargetCtr ⟨fun _ => false, 64⟩ ["/dev/sda", "bdr0", "64"] Driver.allGood).ctx = some bc ∧
      bc.overflowBm.HasBit (2047 >>> bdrBlockSizeShift) := by
  have hsome : ((bdrTargetCtr ⟨fun _ => false, 64⟩ ["/dev/sda", "bdr0", "64"]
      Driver.allGood).ctx).isSome = true := by decide +kernel
  obtain ⟨bc, hbc⟩ := Option.isSome_iff_exists.mp hsome
  have hall := (hasBit_iff_wholeBlocks hbc).mpr ⟨by decide, by decide⟩
  exact ⟨bc, hbc, (hall 2047 (by decide)).1⟩

/-- A device of 64 blocks and a sector: the constructor succeeds, and the bit of the last sector
lies behind the bitmap's one word. -/
theorem not_hasBit_of_partBlock : ∃ bc,
    (bdrTargetCtr ⟨fun _ => false, 64⟩ ["/dev/sda", "bdr0", "64"]
      { Driver.allGood with getCapacity := 131073 }).ret = none ∧
    (bdrTargetCtr ⟨fun _ => false, 64⟩ ["/dev/sda", "bdr0", "64"]
      { Driver.allGood with getCapacity := 131073 }).ctx = some bc ∧
    131072 >>> bdrBlockSizeShift = 64 ∧ bc.overflowBm.maxBits = 64 ∧
      bc.overflowBm.memoryBits = 64 ∧ 8 * bdrBitmapGetByteSize bc.overflowBm = 64 ∧
        ¬ bc.overflowBm.HasBit (131072 >>> bdrBlockSizeShift) := by
  have hsome : ((bdrTargetCtr ⟨fun _ => false, 64⟩ ["/dev/sda", "bdr0", "64"]
      { Driver.allGood with getCapacity := 131073 }).ctx).isSome = true := by decide +kernel
  obtain ⟨bc, hbc⟩ := Option.isSome_iff_exists.mp hsome
  have hmax : bc.overflowBm.maxBits = 64 := (maxBits_of_ctx hbc).trans (by decide)
  refine ⟨bc, by decide +kernel, hbc, rfl, hmax, ?_, ?_, fun h => ?_⟩
  · rw [Bitmap.memoryBits, hmax]
  · rw [bdrBitmapGetByteSize, hmax]
  · have hlt := h.lt_maxBits
    rw [hmax] at hlt
    exact absurd hlt (by decide)

end Blocks

end Bdr.Kern
