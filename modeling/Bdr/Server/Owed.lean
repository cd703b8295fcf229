import Bdr.Server.HashTiling
import Mathlib.Algebra.BigOperators.Group.Multiset.Basic

/-!
# Server — the hashes a scan owes

What is left of a scan: the hashes that `HashDisk` has still to send (`HashDisk.held`).  They are of
blocks of the replica that do not overlap, so that they cover a byte at most once; at the start they
cover every byte of it.

The replica may change while it is hashed, where a full scan writes correct blocks to it.
`HashDisk` does not see that as long as the blocks it has still to read stay as they were
(`HashDisk.move_congr`).
-/

namespace Bdr.Server

/-- How often the hashes cover `p`. -/
def hashWeight (p : ℕ) (hs : Multiset HashInfo) : ℕ := (hs.map (HashInfo.weight p)).sum

section Weight
variable (p : ℕ)

@[simp] theorem hashWeight_zero : hashWeight p 0 = 0 := rfl

@[simp] theorem hashWeight_add (hs ks : Multiset HashInfo) :
    hashWeight p (hs + ks) = hashWeight p hs + hashWeight p ks := by
  simp [hashWeight]

@[simp] theorem hashWeight_singleton (h : HashInfo) : hashWeight p {h} = h.weight p := by
  simp [hashWeight]

end Weight

/-! ### The blocks of the replica -/

section Tiling
variable {hash : List UInt8 → UInt64} {target : Device} {off p : ℕ}

theorem toNat_blockHash (hash : List UInt8 → UInt64) (h : off < target.size) :
    (blockHash hash target hashedSpaceBase off).offset.toNat = off ∧
      (blockHash hash target hashedSpaceBase off).size.toNat =
        min hashedSpaceBase (target.size - off) := by
  have hlt := target.size_lt
  have hbase : hashedSpaceBase < 2 ^ 32 := by decide
  constructor
  · rw [blockHash, UInt64.toNat_ofNat']
    exact Nat.mod_eq_of_lt (by omega)
  · rw [blockHash, UInt32.toNat_ofNat']
    exact Nat.mod_eq_of_lt (by omega)

theorem lt_of_mem_blockOffsets {r total start : ℕ} (hr : 0 < r)
    (h : off ∈ blockOffsets r total start) : off < total := by
  obtain ⟨i, hi, rfl⟩ := List.mem_range'.mp h
  have hle := (Nat.le_div_iff_mul_le hr).mp (Nat.succ_le_of_lt hi)
  rw [Nat.succ_mul, Nat.mul_comm] at hle
  omega

/-- The blocks from `off` on cover what follows it once. -/
theorem hashWeight_blocks (hash : List UInt8 → UInt64) (target : Device) (off p : ℕ) :
    hashWeight p ((blockOffsets hashedSpaceBase target.size off).map
      (blockHash hash target hashedSpaceBase) : List HashInfo) =
      if off ≤ p ∧ p < target.size then 1 else 0 := by
  have hbase : 0 < hashedSpaceBase := by decide
  by_cases hlt : off < target.size
  · obtain ⟨hoff, hsize⟩ := toNat_blockHash hash hlt
    have ih := hashWeight_blocks hash target (off + hashedSpaceBase) p
    rw [blockOffsets_of_lt hbase hlt, List.map_cons, ← Multiset.cons_coe, ← Multiset.singleton_add,
      hashWeight_add, hashWeight_singleton, ih, HashInfo.weight, hoff, hsize, covering]
    split_ifs <;> omega
  · rw [blockOffsets_of_le hbase (Nat.le_of_not_lt hlt)]
    rw [if_neg (by omega)]
    rfl
termination_by target.size - off
decreasing_by
  have : 0 < hashedSpaceBase := by decide
  omega

/-- **The hashes of a scan cover every byte once.** -/
theorem hashWeight_tiling (hash : List UInt8 → UInt64) (target : Device) (p : ℕ) :
    hashWeight p (tiling hash target hashedSpaceBase) = if p < target.size then 1 else 0 := by
  simpa [tiling] using hashWeight_blocks hash target 0 p

/-- They are hashes of blocks of the replica. -/
theorem of_mem_tiling {info : HashInfo} (h : info ∈ tiling hash target hashedSpaceBase) :
    info.Of hash target.size target.bytes := by
  obtain ⟨off, hoff, rfl⟩ := List.mem_map.mp h
  have hlt := lt_of_mem_blockOffsets (by decide) hoff
  obtain ⟨ho, hs⟩ := toNat_blockHash hash hlt
  refine ⟨by omega, ?_⟩
  rw [ho, hs]
  rfl

end Tiling

/-! ### A scan that is not disturbed -/

/-- No read fails, and what is sent reaches the client. -/
def HashMove.Delivered : HashMove → Prop
  | .announce sent | .complete sent => sent = .ok
  | m => m.Clean

instance (m : HashMove) : Decidable m.Delivered :=
  match m with
  | .announce sent | .complete sent | .sender _ sent => inferInstanceAs (Decidable (sent = .ok))
  | .reader _ failed => inferInstanceAs (Decidable (failed = false))
  | .generator | .closeWork | .hasher _ | .closeResults => isTrue trivial

namespace HashDisk

section Moves
variable {c : HashConfig} {target target' : Device} {h h' : HashDisk} {m : HashMove}
variable {ps : List Packet}

/-- What a scan sends in a move, and what it then still has to send. -/
inductive Emits (c : HashConfig) (target : Device) (h h' : HashDisk) : List Packet → Prop
  | announced (hp : h.phase = .announcing) (hp' : h'.phase = .running)
      (ho : h'.Orderly c target) (hh : h'.held c target = h.held c target) :
      Emits c target h h' [.infoStartHashing]
  | passes (hp : h.phase = .running) (hp' : h'.phase = .running) (ho : h'.Orderly c target)
      (hh : h'.held c target = h.held c target) : Emits c target h h' []
  | hash {info : HashInfo} (hp : h.phase = .running) (hp' : h'.phase = .running)
      (ho : h'.Orderly c target) (hh : h'.held c target + {info} = h.held c target) :
      Emits c target h h' [.payloadHash info]
  | completed (hp : h.phase = .running) (hp' : h'.phase = .returned)
      (hh : h.held c target = 0) : Emits c target h h' [.infoHashingCompleted]

/-- **One move of a scan that is not disturbed.** -/
theorem Orderly.emits (ho : h.Orderly c target) (hw : Whole c target) (hd : m.Delivered)
    (hm : h.move c target m = some (h', ps)) : Emits c target h h' ps := by
  have hpipe : m.Clean → (∀ sent, m ≠ .announce sent) → (∀ sent, m ≠ .complete sent) →
      Emits c target h h' ps := by
    intro hc ha he
    obtain ⟨hp, hp'⟩ := phase_pipeline ha he hm
    obtain ⟨ho', hh, rfl | ⟨info, rfl⟩⟩ := ho.move hw hc ha he hm
    · exact .passes hp hp' ho' (by simpa [hashInfos] using hh)
    · exact .hash hp hp' ho' hh
  cases m with
  | announce sent =>
      cases hd
      obtain ⟨hp, heq⟩ := Option.ite_none_right_eq_some.mp hm
      cases heq
      exact .announced hp rfl { ho with } rfl
  | complete sent =>
      cases hd
      obtain ⟨⟨hp, hf⟩, heq⟩ := Option.ite_none_right_eq_some.mp hm
      cases heq
      exact .completed hp rfl (ho.held_eq_zero hf)
  | generator | reader | closeWork | hasher | closeResults | sender =>
      exact hpipe hd (by simp) (by simp)

/-- A block that is about to be read is one of those that are owed. -/
theorem one_le_hashWeight (c : HashConfig) (target : Device) {i : ℕ} {offset : UInt64} {p : ℕ}
    (hb : h.readers.busy? i = some (.reading offset))
    (hp : (block c target offset).weight p = 1) : 1 ≤ hashWeight p (h.held c target) := by
  have hheld := congrArg (hashWeight p) (held_setReader c target hb .ranging)
  rw [hashWeight_add, hashWeight_add, heldReader, hashWeight_singleton, hp] at hheld
  simp only [Worker.weigh, hashWeight_zero] at hheld
  omega

/-- A scan does the same on a target that agrees with the other one on what is read. -/
theorem move_congr (hagree : ∀ i offset, h.readers.busy? i = some (.reading offset) →
    readBlock c target offset = readBlock c target' offset) (m : HashMove) :
    h.move c target m = h.move c target' m := by
  cases m with
  | reader i failed =>
      simp only [HashDisk.move, HashDisk.moveReader]
      cases hb : h.readers.busy? i with
      | none => rfl
      | some t =>
          cases t with
          | reading offset => simp only [hagree i offset hb]
          | took | sendingWork | sendingError => rfl
  | announce | generator | closeWork | hasher | closeResults | sender | complete => rfl

end Moves

end HashDisk

/-- How far a scan is, as the client gets to know. -/
inductive HashStage where
  | silent
  | hashing
  | completed
  deriving DecidableEq, Repr

/-- The hashes of `target` that are still to be sent.  A scan that has not begun owes them all. -/
inductive HashDisk.Owes (c : HashConfig) (target : Device) (h : HashDisk) :
    HashStage → Multiset HashInfo → Prop
  | waiting (hp : h.phase = .returned) :
      Owes c target h .silent (tiling c.hash target c.readSize.toNat)
  | silent (hp : h.phase = .starting ∨ h.phase = .resetting ∨ h.phase = .announcing)
      (ho : h.Orderly c target)
      (hh : h.held c target = tiling c.hash target c.readSize.toNat) :
      Owes c target h .silent (tiling c.hash target c.readSize.toNat)
  | hashing (hp : h.phase = .running) (ho : h.Orderly c target) :
      Owes c target h .hashing (h.held c target)
  | completed (hp : h.phase = .returned) : Owes c target h .completed 0

/-- What the client is told in a move. -/
inductive Told : HashStage → Multiset HashInfo → HashStage → Multiset HashInfo → List Packet → Prop
  | announced {todo : Multiset HashInfo} : Told .silent todo .hashing todo [.infoStartHashing]
  | nothing {stage : HashStage} {todo : Multiset HashInfo} : Told stage todo stage todo []
  | hash {todo : Multiset HashInfo} {info : HashInfo} :
      Told .hashing (todo + {info}) .hashing todo [.payloadHash info]
  | completed : Told .hashing 0 .completed 0 [.infoHashingCompleted]

section Told
variable {stage stage' : HashStage} {todo todo' : Multiset HashInfo} {ps : List Packet}

theorem Told.mem {info : HashInfo} (h : Told stage todo stage' todo' ps)
    (hi : info ∈ todo') : info ∈ todo := by
  cases h with
  | announced | nothing => exact hi
  | hash => exact Multiset.mem_add.mpr (.inl hi)
  | completed => exact hi

/-- A hash that is sent is no longer owed. -/
theorem Told.weight (h : Told stage todo stage' todo' ps) (p : ℕ) :
    hashWeight p todo' + (ps.map (Packet.weight p)).sum = hashWeight p todo := by
  cases h with
  | announced | nothing | completed => simp [Packet.weight]
  | hash => simp [Packet.weight, HashInfo.weight]

end Told

section Owes
variable {c : HashConfig} {target : Device} {h h' : HashDisk} {stage : HashStage}
variable {todo : Multiset HashInfo}

theorem HashDisk.owes_start {n : ℕ} (hn : 0 < n) {phase : HashPhase}
    (hp : phase = .starting ∨ phase = .resetting ∨ phase = .announcing) :
    HashDisk.Owes c target { HashDisk.start n with phase := phase } .silent
      (tiling c.hash target c.readSize.toNat) := by
  have ho : (HashDisk.start n).Orderly c target := HashDisk.orderly_start hn
  refine .silent hp { ho with } ?_
  simp [HashDisk.held, HashDisk.start, HashDisk.heldGenerator, tiling]

theorem HashDisk.Owes.eq_zero (h₁ : h.Owes c target .completed todo) : todo = 0 := by
  cases h₁
  rfl

/-- The scan goes on before it has announced itself. -/
theorem HashDisk.Owes.setPhase (h₁ : h.Owes c target stage todo)
    (hp : h.phase = .starting ∨ h.phase = .resetting) {phase : HashPhase}
    (hp' : phase = .resetting ∨ phase = .announcing) :
    HashDisk.Owes c target { h with phase := phase } stage todo := by
  cases h₁ with
  | silent _ ho hh => exact .silent (.inr hp') { ho with } hh
  | waiting hr | completed hr => rw [hr] at hp; simp at hp
  | hashing hr => rw [hr] at hp; simp at hp

/-- **What the client is told is what was owed.** -/
theorem HashDisk.Owes.move (h₁ : h.Owes c target stage todo) (hw : HashDisk.Whole c target)
    {m : HashMove} (hd : m.Delivered) {ps : List Packet}
    (hm : h.move c target m = some (h', ps)) :
    ∃ stage' todo', h'.Owes c target stage' todo' ∧ Told stage todo stage' todo' ps := by
  cases h₁ with
  | waiting hp | completed hp =>
      rw [HashDisk.move_of_returned hp] at hm
      cases hm
  | silent hp ho hh =>
      cases ho.emits hw hd hm with
      | announced _ hp' ho' hh' => exact ⟨_, _, .hashing hp' ho', by rw [hh', hh]; exact .announced⟩
      | passes hr | hash hr | completed hr => rw [hr] at hp; simp at hp
  | hashing hp ho =>
      cases ho.emits hw hd hm with
      | announced hr => rw [hr] at hp; cases hp
      | passes _ hp' ho' hh => exact ⟨_, _, .hashing hp' ho', by rw [hh]; exact .nothing⟩
      | hash _ hp' ho' hh => exact ⟨_, _, .hashing hp' ho', by rw [← hh]; exact .hash⟩
      | completed _ hp' hh => exact ⟨_, _, .completed hp', by rw [hh]; exact .completed⟩

end Owes

/-- The blocks of a target of the same size and with the same bytes, where they are still owed. -/
theorem readBlock_eq {hash : List UInt8 → UInt64} {n : ℕ} {target target' : Device} {h : HashDisk}
    (hsize : target'.size = target.size)
    (ho : h.Orderly (hashConfig hash n target) target)
    (hagree : ∀ p, 1 ≤ hashWeight p (h.held (hashConfig hash n target) target) →
      target'.bytes p = target.bytes p) (i : ℕ) (offset : UInt64)
    (hb : h.readers.busy? i = some (.reading offset)) :
    HashDisk.readBlock (hashConfig hash n target) target' offset =
      HashDisk.readBlock (hashConfig hash n target) target offset := by
  have hlt : offset.toNat < target.size := ho.reads.of_busy? hb
  have hread : (hashConfig hash n target).readSize.toNat = hashedSpaceBase :=
    show (UInt64.ofNat hashedSpaceBase).toNat = hashedSpaceBase by decide
  obtain ⟨hoff, hlen⟩ := toNat_blockHash hash hlt
  simp only [HashDisk.readBlock, hsize, hread]
  refine List.map_congr_left fun j hj => hagree _ (HashDisk.one_le_hashWeight _ _ hb ?_)
  have hj := List.mem_range.mp hj
  rw [HashDisk.block, hread, HashInfo.weight, show (hashConfig hash n target).hash = hash from rfl,
    hoff, hlen]
  exact if_pos ⟨Nat.le_add_right _ _, Nat.add_lt_add_left hj _⟩

/-- A scan of a target that may have changed, but not where hashes are still owed. -/
theorem HashDisk.Owes.move_eq {hash : List UInt8 → UInt64} {n : ℕ} {target target' : Device}
    {h : HashDisk} {stage : HashStage} {todo : Multiset HashInfo}
    (h₁ : h.Owes (hashConfig hash n target) target stage todo) (hsize : target'.size = target.size)
    (hagree : ∀ p, 1 ≤ hashWeight p todo → target'.bytes p = target.bytes p) (m : HashMove) :
    h.move (hashConfig hash n target') target' m = h.move (hashConfig hash n target) target m := by
  rw [hashConfig, hsize]
  change h.move (hashConfig hash n target) target' m = _
  cases h₁ with
  | waiting hp | completed hp =>
      rw [HashDisk.move_of_returned hp, HashDisk.move_of_returned hp]
  | silent _ ho hh =>
      rw [← hh] at hagree
      exact HashDisk.move_congr (readBlock_eq hsize ho hagree) m
  | hashing _ ho => exact HashDisk.move_congr (readBlock_eq hsize ho hagree) m

end Bdr.Server
