import Bdr.Server.HashDisk

/-!
# Server — HashTiling

When a report of completion can be trusted.  As long as no stage returns early (the scan is not
terminated, no read fails and every hash is sent) nothing is lost in the pipeline: the offsets
still to be generated, the blocks in the hands of the pools and the hashes sent add up to the
blocks of the replica (`held`).  A pool that is finished is then empty, and so is every stage
before it, so that at the end the hashes sent are the blocks of the replica, each once.
-/

namespace Bdr.Server

/-! ### The blocks of a device -/

/-- Where the blocks of `readSize` bytes from `off` on start. -/
def blockOffsets (readSize total off : ℕ) : List ℕ :=
  List.range' off ((total - off + readSize - 1) / readSize) readSize

theorem blockOffsets_of_lt {r total off : ℕ} (hr : 0 < r) (h : off < total) :
    blockOffsets r total off = off :: blockOffsets r total (off + r) := by
  have hn : (total - off + r - 1) / r = (total - (off + r) + r - 1) / r + 1 := by
    rcases Nat.lt_or_ge total (off + r) with hlt | hge
    · have h₀ : (total - (off + r) + r - 1) / r = 0 := Nat.div_eq_of_lt (by omega)
      rw [h₀, show total - off + r - 1 = total - off - 1 + r by omega, Nat.add_div_right _ hr,
        Nat.div_eq_of_lt (by omega)]
    · rw [show total - off + r - 1 = total - (off + r) + r - 1 + r by omega,
        Nat.add_div_right _ hr]
  rw [blockOffsets, hn, List.range'_succ]
  rfl

theorem blockOffsets_of_le {r total off : ℕ} (hr : 0 < r) (h : total ≤ off) :
    blockOffsets r total off = [] := by
  have : (total - off + r - 1) / r = 0 := Nat.div_eq_of_lt (by omega)
  rw [blockOffsets, this, List.range'_zero]

/-- The hash of the block at `off`. -/
def blockHash (hash : List UInt8 → UInt64) (target : Device) (r off : ℕ) : HashInfo :=
  ⟨UInt64.ofNat off, UInt32.ofNat (min r (target.size - off)),
    hash (target.bytes.read off (min r (target.size - off)))⟩

/-- The hashes of the blocks of the replica. -/
def tiling (hash : List UInt8 → UInt64) (target : Device) (r : ℕ) : List HashInfo :=
  (blockOffsets r target.size 0).map (blockHash hash target r)

/-- The hashes among the packets. -/
def hashInfos (packets : List Packet) : List HashInfo :=
  packets.filterMap fun
    | .payloadHash h => some h
    | _ => none

theorem hashInfos_append (ps qs : List Packet) :
    hashInfos (ps ++ qs) = hashInfos ps ++ hashInfos qs :=
  List.filterMap_append ..

/-- No read fails, and no hash fails to be sent. -/
def HashMove.Clean : HashMove → Prop
  | .reader _ failed => failed = false
  | .sender _ sent => sent = .ok
  | _ => True

namespace HashDisk

/-! ### What the pipeline holds -/

section Held
variable (c : HashConfig) (target : Device)

/-- The hash a block will be sent with, if all goes well. -/
def block (offset : UInt64) : HashInfo := blockHash c.hash target c.readSize.toNat offset.toNat

def heldGenerator : Generator → Multiset HashInfo
  | .loop offset | .sending offset =>
      ((blockOffsets c.readSize.toNat target.size offset.toNat).map
        (blockHash c.hash target c.readSize.toNat) : Multiset HashInfo)
  | .done => 0

def heldReader : Reader → Multiset HashInfo
  | .took offset | .reading offset => {block c target offset}
  | .sendingWork work => {hashInfo (result c work)}
  | .sendingError r => {hashInfo r}

def heldHasher : Hasher → Multiset HashInfo
  | .took work => {hashInfo (result c work)}
  | .sending r => {hashInfo r}

def heldSender : Sender → Multiset HashInfo
  | .took r | .reporting r | .encoding r => {hashInfo r}
  | .complaining => 0

/-- The hashes that are still to be sent. -/
def held (h : HashDisk) : Multiset HashInfo :=
  heldGenerator c target h.generator +
    h.readers.weigh (fun offset => {block c target offset}) (heldReader c target) +
    h.hashers.weigh (fun work => {hashInfo (result c work)}) (heldHasher c) +
    h.senders.weigh (fun r => {hashInfo r}) heldSender

end Held

/-! ### No stage returns early -/

/-- How the pipeline is as long as no stage has returned early. -/
structure Orderly (c : HashConfig) (target : Device) (h : HashDisk) : Prop where
  calm : h.terminated = false
  generator : ∀ offset, h.generator = .sending offset → offset.toNat < target.size
  readers : h.readers.Settled
  hashers : h.hashers.Settled
  senders : h.senders.Settled
  readers_closed : h.readers.closed = true → h.generator = .done
  hashers_closed : h.hashers.closed = true → h.readers.Finished
  senders_closed : h.senders.closed = true → h.hashers.Finished
  reads : h.readers.All (fun offset => offset.toNat < target.size) fun
    | .took offset | .reading offset => offset.toNat < target.size
    | .sendingWork _ => True
    | .sendingError _ => False
  hashes : h.hashers.All (fun _ => True) fun
    | .took _ => True
    | .sending r => r.failed = false
  results : h.senders.All (fun r => r.failed = false) fun
    | .took r | .encoding r => r.failed = false
    | _ => False

/-- A scan of the whole target, in blocks of a size that keeps the offsets in `uint64`. -/
structure Whole (c : HashConfig) (target : Device) : Prop where
  totalSize : c.totalSize.toNat = target.size
  readSize_pos : 0 < c.readSize.toNat
  readSize_lt : c.readSize.toNat < 2 ^ 63

section Moves
variable {c : HashConfig} {target : Device} {h h' : HashDisk}

theorem orderly_start {n : ℕ} (hn : 0 < n) : Orderly c target (start n) where
  calm := rfl
  generator := by rintro offset ⟨⟩
  readers := Pool.settled_start hn
  hashers := Pool.settled_start hn
  senders := Pool.settled_start hn
  readers_closed := by rintro ⟨⟩
  hashers_closed := by rintro ⟨⟩
  senders_closed := by rintro ⟨⟩
  reads := Pool.all_start n
  hashes := Pool.all_start n
  results := Pool.all_start n

theorem Orderly.moveGenerator (ho : Orderly c target h) (hw : Whole c target)
    (hm : h.moveGenerator c = some h') :
    Orderly c target h' ∧ held c target h' = held c target h := by
  have hsize := target.size_lt
  unfold HashDisk.moveGenerator at hm
  cases hg : h.generator with
  | loop offset =>
      simp only [hg] at hm
      split at hm
      · rename_i hlt
        cases hm
        refine ⟨{ ho with generator := ?_, readers_closed := ?_ },
          by simp [held, heldGenerator, hg]⟩
        · rintro _ ⟨⟩
          rw [← hw.totalSize]
          exact UInt64.lt_iff_toNat_lt.mp hlt.1
        · intro hc
          rw [ho.readers_closed hc] at hg
          cases hg
      · rename_i hge
        cases hm
        have hle : target.size ≤ offset.toNat := by
          rw [← hw.totalSize]
          exact Nat.le_of_not_lt fun hlt => hge ⟨UInt64.lt_iff_toNat_lt.mpr hlt, ho.calm⟩
        refine ⟨{ ho with
          generator := by rintro _ ⟨⟩
          readers := ho.readers.close
          readers_closed := fun _ => rfl
          reads := ho.reads.close }, ?_⟩
        simp [held, heldGenerator, hg, blockOffsets_of_le hw.readSize_pos hle]
  | sending offset =>
      simp only [hg] at hm
      obtain ⟨readers, hs, rfl⟩ := Option.map_eq_some_iff.mp hm
      have hlt := ho.generator offset hg
      obtain ⟨⟨-, hc⟩, hq⟩ := Pool.send_eq_some.mp hs
      refine ⟨{ ho with
        generator := by rintro _ ⟨⟩
        readers := ho.readers.send hs
        readers_closed := ?_
        hashers_closed := ?_
        reads := ho.reads.send hs hlt }, ?_⟩
      · intro hc'
        rw [← hq] at hc'
        rw [show h.readers.closed = true from hc'] at hc
        cases hc
      · intro hc'
        rw [← hq]
        exact ho.hashers_closed hc'
      · have hadd : (offset + c.readSize).toNat = offset.toNat + c.readSize.toNat := by
          have := hw.readSize_lt
          rw [UInt64.toNat_add]
          omega
        simp only [held, heldGenerator, hg, hadd, Pool.weigh_send hs,
          blockOffsets_of_lt hw.readSize_pos hlt, List.map_cons, ← Multiset.cons_coe,
          ← Multiset.singleton_add]
        rw [show blockHash c.hash target c.readSize.toNat offset.toNat = block c target offset
          from rfl]
        ac_rfl
  | done => simp [hg] at hm

/-- A reader goes on to something else. -/
theorem held_setReader (c : HashConfig) (target : Device) {i : ℕ} {t : Reader}
    (hb : h.readers.busy? i = some t) (w : Worker Reader) :
    held c target (h.setReader i w) + heldReader c target t =
      held c target h + w.weigh (heldReader c target) := by
  have := Pool.weigh_setWorker (g := fun offset => {block c target offset})
    (f := heldReader c target) hb w
  simp only [held, setReader] at this ⊢
  rw [add_right_comm _ _ (heldReader c target t), add_right_comm _ _ (heldReader c target t),
    add_assoc (heldGenerator c target h.generator), this]
  ac_rfl

theorem Orderly.setReader (ho : Orderly c target h) (hopen : h.hashers.closed = false) {i : ℕ}
    {w : Worker Reader} (hd : w ≠ .done) (hw : ∀ t, w = .busy t → match t with
      | .took offset | .reading offset => offset.toNat < target.size
      | .sendingWork _ => True
      | .sendingError _ => False) : Orderly c target (h.setReader i w) :=
  { ho with
    readers := ho.readers.setWorker hd
    hashers_closed := fun hc => absurd (hopen.symm.trans hc) Bool.false_ne_true
    reads := ho.reads.setWorker hw }

theorem Orderly.moveReader (ho : Orderly c target h) (hw : Whole c target) {i : ℕ}
    (hm : h.moveReader c target i false = some h') :
    Orderly c target h' ∧ held c target h' = held c target h := by
  unfold HashDisk.moveReader at hm
  have hopen : h.hashers.closed = false := by
    by_contra hc
    have hf := ho.hashers_closed (by simpa using hc)
    simp [hf.busy?, hf.receive] at hm
  cases hb : h.readers.busy? i with
  | none =>
      simp only [hb] at hm
      obtain ⟨readers, hr, rfl⟩ := Option.map_eq_some_iff.mp hm
      refine ⟨{ ho with
        readers := ho.readers.receive hr
        readers_closed := fun hc => ho.readers_closed (Pool.closed_receive hr ▸ hc)
        hashers_closed := fun hc => absurd (hopen.symm.trans hc) Bool.false_ne_true
        reads := ho.reads.receive hr fun _ => id }, ?_⟩
      have := Pool.weigh_receive (g := fun offset => {block c target offset})
        (f := heldReader c target) hr fun _ => rfl
      simp only [held, this]
  | some t =>
      have ht := ho.reads.of_busy? hb
      have hheld := held_setReader c target hb
      cases t with
      | took offset =>
          simp only [hb, ho.calm, Bool.false_eq_true, if_false] at hm
          cases hm
          refine ⟨ho.setReader hopen (by simp) ?_, add_right_cancel (hheld _)⟩
          rintro _ ⟨⟩
          exact ht
      | reading offset =>
          have hlen : (readBlock c target offset).length =
              min c.readSize.toNat (target.size - offset.toNat) := by simp [readBlock]
          have hne : readBlock c target offset ≠ [] := by
            intro h0
            have := hw.readSize_pos
            have : offset.toNat < target.size := ht
            rw [h0, List.length_nil] at hlen
            omega
          simp only [hb, Bool.false_eq_true, if_false, hne] at hm
          cases hm
          refine ⟨ho.setReader hopen (by simp) (by rintro _ ⟨⟩; trivial), ?_⟩
          refine add_right_cancel ((hheld _).trans ?_)
          simp only [Worker.weigh, heldReader, hashInfo, result, block, blockHash, hlen,
            UInt64.ofNat_toNat]
          rfl
      | sendingWork work =>
          simp only [hb] at hm
          obtain ⟨hashers, hs, rfl⟩ := Option.map_eq_some_iff.mp hm
          obtain ⟨⟨-, -⟩, hq⟩ := Pool.send_eq_some.mp hs
          have ho' := ho.setReader hopen (i := i) (w := .ranging) (by simp) (by rintro _ ⟨⟩)
          refine ⟨{ ho' with
            hashers := ho.hashers.send hs
            hashers_closed := ?_
            senders_closed := ?_
            hashes := ho.hashes.send hs trivial }, ?_⟩
          · rw [← hq]
            exact fun hc => absurd (hopen.symm.trans hc) Bool.false_ne_true
          · rw [← hq]
            exact ho.senders_closed
          · rw [← add_zero (held c target h), ← show Worker.ranging.weigh (heldReader c target) = 0
              from rfl, ← hheld]
            simp only [held, HashDisk.setReader, Pool.weigh_send hs, heldReader]
            ac_rfl
      | sendingError r => exact ht.elim

/-- A hasher goes on to something else. -/
theorem held_setHasher (c : HashConfig) (target : Device) {i : ℕ} {t : Hasher}
    (hb : h.hashers.busy? i = some t) (w : Worker Hasher) :
    held c target (h.setHasher i w) + heldHasher c t =
      held c target h + w.weigh (heldHasher c) := by
  have := Pool.weigh_setWorker (g := fun work => {hashInfo (result c work)})
    (f := heldHasher c) hb w
  simp only [held, setHasher] at this ⊢
  rw [add_right_comm _ _ (heldHasher c t), add_assoc _ _ (heldHasher c t), this]
  ac_rfl

theorem Orderly.setHasher (ho : Orderly c target h) (hopen : h.senders.closed = false) {i : ℕ}
    {w : Worker Hasher} (hd : w ≠ .done) (hw : ∀ t, w = .busy t → match t with
      | .took _ => True
      | .sending r => r.failed = false) : Orderly c target (h.setHasher i w) :=
  { ho with
    hashers := ho.hashers.setWorker hd
    senders_closed := fun hc => absurd (hopen.symm.trans hc) Bool.false_ne_true
    hashes := ho.hashes.setWorker hw }

theorem Orderly.moveHasher (ho : Orderly c target h) {i : ℕ} (hm : h.moveHasher c i = some h') :
    Orderly c target h' ∧ held c target h' = held c target h := by
  unfold HashDisk.moveHasher at hm
  have hopen : h.senders.closed = false := by
    by_contra hc
    have hf := ho.senders_closed (by simpa using hc)
    simp [hf.busy?, hf.receive] at hm
  cases hb : h.hashers.busy? i with
  | none =>
      simp only [hb] at hm
      obtain ⟨hashers, hr, rfl⟩ := Option.map_eq_some_iff.mp hm
      have := Pool.weigh_receive (g := fun work => {hashInfo (result c work)})
        (f := heldHasher c) hr fun _ => rfl
      refine ⟨{ ho with
        hashers := ho.hashers.receive hr
        hashers_closed := fun hc => ho.hashers_closed (Pool.closed_receive hr ▸ hc)
        senders_closed := fun hc => absurd (hopen.symm.trans hc) Bool.false_ne_true
        hashes := ho.hashes.receive hr fun _ => id }, by simp only [held, this]⟩
  | some t =>
      have ht := ho.hashes.of_busy? hb
      have hheld := held_setHasher c target hb
      cases t with
      | took work =>
          simp only [hb, ho.calm, Bool.false_eq_true, if_false] at hm
          cases hm
          refine ⟨ho.setHasher hopen (by simp) ?_, add_right_cancel (hheld _)⟩
          rintro _ ⟨⟩
          rfl
      | sending r =>
          simp only [hb] at hm
          obtain ⟨senders, hs, rfl⟩ := Option.map_eq_some_iff.mp hm
          obtain ⟨-, hq⟩ := Pool.send_eq_some.mp hs
          have ho' := ho.setHasher hopen (i := i) (w := .ranging) (by simp) (by rintro _ ⟨⟩)
          refine ⟨{ ho' with
            senders := ho.senders.send hs
            senders_closed := ?_
            results := ho.results.send hs ht }, ?_⟩
          · rw [← hq]
            exact fun hc => absurd (hopen.symm.trans hc) Bool.false_ne_true
          · rw [← add_zero (held c target h), ← show Worker.ranging.weigh (heldHasher c) = 0
              from rfl, ← hheld]
            simp only [held, HashDisk.setHasher, Pool.weigh_send hs, heldHasher]
            ac_rfl

/-- A sender goes on to something else. -/
theorem held_setSender (c : HashConfig) (target : Device) {i : ℕ} {t : Sender}
    (hb : h.senders.busy? i = some t) (w : Worker Sender) :
    held c target (h.setSender i w) + heldSender t = held c target h + w.weigh heldSender := by
  have := Pool.weigh_setWorker (g := fun r => {hashInfo r}) (f := heldSender) hb w
  simp only [held, setSender] at this ⊢
  rw [add_assoc _ _ (heldSender t), this, ← add_assoc]

theorem Orderly.setSender (ho : Orderly c target h) {i : ℕ} {w : Worker Sender} (hd : w ≠ .done)
    (hw : ∀ t, w = .busy t → match t with
      | .took r | .encoding r => r.failed = false
      | _ => False) : Orderly c target (h.setSender i w) :=
  { ho with
    senders := ho.senders.setWorker hd
    results := ho.results.setWorker hw }

theorem Orderly.moveSender (ho : Orderly c target h) {i : ℕ} {ps : List Packet}
    (hm : h.moveSender i .ok = some (h', ps)) :
    Orderly c target h' ∧ held c target h' + hashInfos ps = held c target h ∧
      (ps = [] ∨ ∃ info, ps = [.payloadHash info]) := by
  unfold HashDisk.moveSender at hm
  cases hb : h.senders.busy? i with
  | none =>
      simp only [hb] at hm
      obtain ⟨senders, hr, heq⟩ := Option.map_eq_some_iff.mp hm
      cases heq
      have := Pool.weigh_receive (g := fun r => {hashInfo r}) (f := heldSender) hr fun _ => rfl
      refine ⟨{ ho with
        senders := ho.senders.receive hr
        senders_closed := fun hc => ho.senders_closed (Pool.closed_receive hr ▸ hc)
        results := ho.results.receive hr fun _ => id }, ?_, .inl rfl⟩
      simp only [held, this, hashInfos, List.filterMap_nil, Multiset.coe_nil, add_zero]
  | some t =>
      have ht := ho.results.of_busy? hb
      have hheld := held_setSender c target hb
      cases t with
      | took r =>
          simp only [hb, ho.calm, Bool.false_eq_true, if_false, show r.failed = false from ht] at hm
          cases hm
          refine ⟨ho.setSender (by simp) ?_, ?_, .inl rfl⟩
          · rintro _ ⟨⟩
            exact ht
          · exact (add_zero _).trans (add_right_cancel (hheld _))
      | encoding r =>
          simp only [hb] at hm
          cases hm
          exact ⟨ho.setSender (by simp) (by rintro _ ⟨⟩), (hheld _).trans (add_zero _),
            .inr ⟨_, rfl⟩⟩
      | reporting r => exact ht.elim
      | complaining => exact ht.elim

/-- A pipeline whose last stage is finished holds nothing. -/
theorem Orderly.held_eq_zero (ho : Orderly c target h) (hf : h.senders.Finished) :
    held c target h = 0 := by
  obtain ⟨hsc, hsq⟩ := ho.senders.finished hf
  have hhf := ho.senders_closed hsc
  obtain ⟨hhc, hhq⟩ := ho.hashers.finished hhf
  have hrf := ho.hashers_closed hhc
  obtain ⟨hrc, hrq⟩ := ho.readers.finished hrf
  simp [held, ho.readers_closed hrc, heldGenerator, hrf.weigh, hhf.weigh, hf.weigh, hrq, hhq, hsq]

/-- **Nothing is lost in the pipeline**: what a goroutine no longer holds it has sent. -/
theorem Orderly.move (ho : Orderly c target h) (hw : Whole c target) {m : HashMove}
    (hc : m.Clean) (ha : ∀ sent, m ≠ .announce sent) (he : ∀ sent, m ≠ .complete sent)
    {ps : List Packet} (hm : h.move c target m = some (h', ps)) :
    Orderly c target h' ∧ held c target h' + hashInfos ps = held c target h ∧
      (ps = [] ∨ ∃ info, ps = [.payloadHash info]) := by
  have hnil : ∀ {h' : HashDisk}, Orderly c target h' ∧ held c target h' = held c target h →
      Orderly c target h' ∧ held c target h' + hashInfos [] = held c target h ∧
        (([] : List Packet) = [] ∨ ∃ info, ([] : List Packet) = [.payloadHash info]) :=
    fun h => ⟨h.1, by simpa [hashInfos] using h.2, .inl rfl⟩
  cases m with
  | announce sent => exact absurd rfl (ha sent)
  | complete sent => exact absurd rfl (he sent)
  | generator =>
      simp only [HashDisk.move, Option.ite_none_right_eq_some, Option.map_eq_some_iff,
        Prod.mk.injEq] at hm
      obtain ⟨-, h', hm, rfl, rfl⟩ := hm
      exact hnil (ho.moveGenerator hw hm)
  | reader i failed =>
      obtain rfl : failed = false := hc
      simp only [HashDisk.move, Option.ite_none_right_eq_some, Option.map_eq_some_iff,
        Prod.mk.injEq] at hm
      obtain ⟨-, h', hm, rfl, rfl⟩ := hm
      exact hnil (ho.moveReader hw hm)
  | closeWork =>
      simp only [HashDisk.move, Option.ite_none_right_eq_some, Option.some.injEq,
        Prod.mk.injEq] at hm
      obtain ⟨⟨-, hf, -⟩, rfl, rfl⟩ := hm
      exact hnil ⟨{ ho with
        hashers := ho.hashers.close
        hashers_closed := fun _ => hf
        hashes := ho.hashes.close }, rfl⟩
  | hasher i =>
      simp only [HashDisk.move, Option.ite_none_right_eq_some, Option.map_eq_some_iff,
        Prod.mk.injEq] at hm
      obtain ⟨-, h', hm, rfl, rfl⟩ := hm
      exact hnil (ho.moveHasher hm)
  | closeResults =>
      simp only [HashDisk.move, Option.ite_none_right_eq_some, Option.some.injEq,
        Prod.mk.injEq] at hm
      obtain ⟨⟨-, hf, -⟩, rfl, rfl⟩ := hm
      exact hnil ⟨{ ho with
        senders := ho.senders.close
        senders_closed := fun _ => hf
        results := ho.results.close }, rfl⟩
  | sender i sent =>
      obtain rfl : sent = .ok := hc
      simp only [HashDisk.move, Option.ite_none_right_eq_some] at hm
      exact ho.moveSender hm.2

end Moves

end HashDisk

/-! ### Whole scans -/

/-- A move of a goroutine of the scan, or its termination by the server. -/
inductive HashEvent where
  | move (m : HashMove)
  | terminate
  deriving DecidableEq, Repr

section Scan
variable (c : HashConfig) (target : Device)

/-- A scan and the packets it has sent. -/
def scanStep (s : HashDisk × List Packet) : HashEvent → Option (HashDisk × List Packet)
  | .move m => (s.1.move c target m).map fun r => (r.1, s.2 ++ r.2)
  | .terminate => some (s.1.terminate, s.2)

end Scan

/-- Nothing makes a stage of the scan return early. -/
def undisturbed (s : HashDisk × List Packet) : HashEvent → Prop
  | .move m => m.Clean
  | .terminate => s.1.phase = .returned

/-- The blocks of the replica are held or sent; all are sent if completion is reported. -/
def Accounts (c : HashConfig) (target : Device) (s : HashDisk × List Packet) : Prop :=
  (s.1.phase ≠ .returned ∧ .infoHashingCompleted ∉ s.2 ∧ s.1.Orderly c target ∧
    s.1.held c target + hashInfos s.2 = tiling c.hash target c.readSize.toNat) ∨
  s.1.phase = .returned ∧ (.infoHashingCompleted ∈ s.2 →
    (hashInfos s.2 : Multiset HashInfo) = tiling c.hash target c.readSize.toNat)

section Scan
variable {c : HashConfig} {target : Device}

theorem accounts_start (hn : 0 < c.numWorkers) : Accounts c target (.start c.numWorkers, []) := by
  refine .inl ⟨by simp [HashDisk.start], by simp, HashDisk.orderly_start hn, ?_⟩
  simp [HashDisk.held, HashDisk.start, HashDisk.heldGenerator, hashInfos, tiling]

/-- A scan that has returned moves no more. -/
theorem HashDisk.move_of_returned {h : HashDisk} (hret : h.phase = .returned) (m : HashMove) :
    h.move c target m = none := by
  cases m <;> simp [HashDisk.move, hret]

/-- A move of a scan that is not disturbed. -/
theorem Accounts.move (hw : HashDisk.Whole c target) {h h' : HashDisk} {ps qs : List Packet}
    (ha : Accounts c target (h, ps)) {m : HashMove} (hc : m.Clean)
    (hm : h.move c target m = some (h', qs)) : Accounts c target (h', ps ++ qs) := by
  rcases ha with ⟨-, hps, ho, ht⟩ | ⟨hret, -⟩
  · cases m with
    | announce sent =>
        simp only [HashDisk.move, Option.ite_none_right_eq_some, Option.some.injEq,
          Prod.mk.injEq] at hm
        obtain ⟨-, rfl, rfl⟩ := hm
        cases sent with
        | closed => exact .inr ⟨rfl, fun hin => absurd (by simpa [Sent.deliver] using hin) hps⟩
        | ok | failed =>
            refine .inl ⟨by simp [HashDisk.announce], by simpa [Sent.deliver] using hps,
              { ho with }, ?_⟩
            rw [hashInfos_append]
            simpa [HashDisk.announce, HashDisk.held, Sent.deliver, hashInfos] using ht
    | complete sent =>
        simp only [HashDisk.move, Option.ite_none_right_eq_some, Option.some.injEq,
          Prod.mk.injEq] at hm
        obtain ⟨⟨-, hf⟩, rfl, rfl⟩ := hm
        refine .inr ⟨rfl, fun _ => ?_⟩
        rw [ho.held_eq_zero hf, zero_add] at ht
        rw [← ht, hashInfos_append]
        cases sent <;> simp [Sent.deliver, hashInfos]
    | generator | reader | closeWork | hasher | closeResults | sender =>
        obtain ⟨ho', hheld, hqs⟩ := ho.move hw hc (by simp) (by simp) hm
        have hrun := HashDisk.phase_pipeline (by simp) (by simp) hm
        refine .inl ⟨by simp [hrun], ?_, ho', ?_⟩
        · rcases hqs with rfl | ⟨info, rfl⟩ <;> simpa using hps
        · simp only at ht hheld ⊢
          rw [← ht, ← hheld, hashInfos_append, ← Multiset.coe_add]
          ac_rfl
  · rw [HashDisk.move_of_returned hret] at hm
    cases hm

theorem whole_hashConfig (hash : List UInt8 → UInt64) (n : ℕ) (target : Device) :
    HashDisk.Whole (hashConfig hash n target) target := by
  have hlt := target.size_lt
  refine ⟨?_, show 0 < (UInt64.ofNat hashedSpaceBase).toNat by decide,
    show (UInt64.ofNat hashedSpaceBase).toNat < 2 ^ 63 by decide⟩
  rw [hashConfig, UInt64.toNat_ofNat']
  exact Nat.mod_eq_of_lt (by omega)

/-- **Completion is honest when the scan is not disturbed.**  If no read fails, no hash fails to be
sent and the scan is not terminated before it returns, a report of completion comes after the
hashes of the blocks of the replica, each once. -/
theorem completed_tiles {hash : List UInt8 → UInt64} {numWorkers : ℕ} (hn : 0 < numWorkers)
    (target : Device) {events : List HashEvent} {s : HashDisk × List Packet}
    (hrun : Run (scanStep (hashConfig hash numWorkers target) target) undisturbed
      (.start numWorkers, []) events s)
    (hs : .infoHashingCompleted ∈ s.2) :
    (hashInfos s.2).Perm (tiling hash target hashedSpaceBase) := by
  have hw := whole_hashConfig hash numWorkers target
  have h₀ : Accounts (hashConfig hash numWorkers target) target (.start numWorkers, []) :=
    accounts_start hn
  have hinv := hrun.invariant (I := Accounts (hashConfig hash numWorkers target) target) ?_ h₀
  · rcases hinv with ⟨-, hnot, -⟩ | ⟨-, hall⟩
    · exact absurd hs hnot
    · exact Multiset.coe_eq_coe.mp (hall hs)
  · rintro ⟨h, ps⟩ (m | _) s' hI hok hstep
    · obtain ⟨⟨h', qs⟩, hm, rfl⟩ := Option.map_eq_some_iff.mp hstep
      exact hI.move hw hok hm
    · cases hstep
      rcases hI with ⟨hnot, -⟩ | hret
      · exact absurd hok hnot
      · exact .inr hret

/-- A device of one byte. -/
def oneByte : Device := ⟨1, fun _ => 7, [], by decide⟩

/-- Its one block goes through a pipeline of one goroutine a stage. -/
def oneByteScan : List HashEvent :=
  [.move (.announce .ok), .move .generator, .move .generator, .move .generator,
    .move (.reader 0 false), .move (.reader 0 false), .move (.reader 0 false),
    .move (.reader 0 false), .move (.reader 0 false), .move .closeWork,
    .move (.hasher 0), .move (.hasher 0), .move (.hasher 0), .move (.hasher 0), .move .closeResults,
    .move (.sender 0 .ok), .move (.sender 0 .ok), .move (.sender 0 .ok), .move (.sender 0 .ok),
    .move (.complete .ok)]

theorem completed_tiles_oneByte : ∃ s,
    Run (scanStep (hashConfig (fun _ => 3) 1 oneByte) oneByte) undisturbed (.start 1, [])
      oneByteScan s ∧ .infoHashingCompleted ∈ s.2 ∧
      (hashInfos s.2).Perm (tiling (fun _ => 3) oneByte hashedSpaceBase) := by
  have hrun := Run.of_exec (show exec (scanStep (hashConfig (fun _ => 3) 1 oneByte) oneByte)
    (.start 1, []) oneByteScan = some _ from rfl)
    (show ∀ e ∈ oneByteScan, ∀ s, undisturbed s e by
      simp [oneByteScan, undisturbed, HashMove.Clean])
  exact ⟨_, hrun, by decide, completed_tiles (by decide) oneByte hrun (by decide)⟩

/-- A scan that is terminated before its first block reports completion all the same. -/
theorem not_tiled_of_terminate : ∃ events s,
    exec (scanStep (hashConfig (fun _ => 3) 1 oneByte) oneByte) (.start 1, []) events = some s ∧
      .infoHashingCompleted ∈ s.2 ∧
      ¬ (hashInfos s.2).Perm (tiling (fun _ => 3) oneByte hashedSpaceBase) :=
  ⟨[.move (.announce .ok), .terminate, .move .generator, .move (.reader 0 false), .move .closeWork,
    .move (.hasher 0), .move .closeResults, .move (.sender 0 .ok), .move (.complete .ok)], _, rfl,
    by decide, by decide⟩

end Scan

end Bdr.Server
