import Bdr.Client.Scan
import Bdr.Server.Collected
import Bdr.Server.Owed
import Bdr.System.Replication

/-!
# System — the exchange of a scan

In a scan the server sends the hashes of its blocks, and the client answers with the blocks that
differ, while applications go on writing to the source.  A byte of the device is first covered by a
hash that is still to be compared (`hashWeight`) and then, if the hashes differ, by a block on its
way to the server (`blockWeight`), never by both.  When it is covered by neither, it is on the
replica, with the blocks that the server has received, as it was on the source at some moment since
the ring was reset (`Exchange.cover`).

What the server does with the blocks is left open here: it may write them to the replica at once or
collect them in the journal.  It must not change a byte of the replica that is still to be hashed.
-/

namespace Bdr.System

open Client Server Kern
open Replication (Seen)

variable {P : ℕ}

/-! ### The packets on their way -/

/-- The hashes on their way to the client, and the word that there are no more (`more` is false). -/
inductive Hashes (ok : HashInfo → Prop) : Bool → List Packet → Prop
  | nil : Hashes ok true []
  | hash {more : Bool} {ps : List Packet} {info : HashInfo} (hok : ok info)
      (h : Hashes ok more ps) : Hashes ok more (.payloadHash info :: ps)
  | completed : Hashes ok false [.infoHashingCompleted]

/-- What is on its way to the client, by how far the client and the server are. -/
inductive Down (ok : HashInfo → Prop) : ClientStage → HashStage → List Packet → Prop
  | silent : Down ok .called .silent []
  | announced {stage : HashStage} {ps : List Packet} (hs : stage ≠ .silent)
      (h : Hashes ok (stage = .hashing) ps) : Down ok .called stage (.infoStartHashing :: ps)
  | hashing {k : ClientStage} {stage : HashStage} {ps : List Packet}
      (hk : k = .starting ∨ k = .comparing) (hs : stage ≠ .silent)
      (h : Hashes ok (stage = .hashing) ps) : Down ok k stage ps
  | completed {k : ClientStage} (hk : k = .draining ∨ k.reads = false) : Down ok k .completed []

/-- A correct block or a buffer write. -/
def IsData (size : ℕ) (Q : ℕ → UInt8 → Prop) (packet : Packet) : Prop :=
  (∃ b, packet = .payloadCorrectBlock b ∧ b.Carries size Q) ∨ ∃ w, packet = .payloadBufferWrite w

/-- What is on its way to the server.  `InfoHashingCompleted` comes behind the first `cut` buffer
writes, of which the server has received `n`. -/
inductive Up (ok : Packet → Prop) (cut n : ℕ) : ClientStage → List Packet → Prop
  | running {k : ClientStage} {ps : List Packet} (hk : k ≠ .finished) (h : ∀ p ∈ ps, ok p) :
      Up ok cut n k ps
  | ended {ps qs : List Packet} (h : ∀ p ∈ ps, ok p)
      (hq : ∀ p ∈ qs, ∃ w, p = .payloadBufferWrite w) (hn : cut ≤ n + (writes ps).length) :
      Up ok cut n .finished (ps ++ .infoHashingCompleted :: qs)

section Streams
variable {ok : HashInfo → Prop} {more : Bool} {ps qs : List Packet} {packet : Packet}
variable {k : ClientStage} {stage : HashStage}

theorem Hashes.head (h : Hashes ok more (packet :: ps)) :
    (∃ info, packet = .payloadHash info ∧ ok info ∧ Hashes ok more ps) ∨
      packet = .infoHashingCompleted ∧ more = false ∧ ps = [] := by
  cases h with
  | hash hok h => exact .inl ⟨_, rfl, hok, h⟩
  | completed => exact .inr ⟨rfl, rfl, rfl⟩

theorem Hashes.send {info : HashInfo} (h : Hashes ok true ps) (hok : ok info) :
    Hashes ok true (ps ++ [.payloadHash info]) := by
  generalize hm : true = more at h
  induction h with
  | nil => exact .hash hok .nil
  | hash hok' _ ih => exact .hash hok' (ih hm)
  | completed => cases hm

theorem Hashes.complete (h : Hashes ok true ps) :
    Hashes ok false (ps ++ [.infoHashingCompleted]) := by
  generalize hm : true = more at h
  induction h with
  | nil => exact .completed
  | hash hok' _ ih => exact .hash hok' (ih hm)
  | completed => cases hm

theorem Down.of_silent (h : Down ok k .silent ps) : k = .called ∧ ps = [] := by
  cases h with
  | silent => exact ⟨rfl, rfl⟩
  | announced hs | hashing _ hs => exact absurd rfl hs

/-- What the server says next goes behind what is on its way. -/
theorem Down.told {stage' : HashStage} {todo todo' : Multiset HashInfo}
    (h : Down ok k stage ps) (ht : Told stage todo stage' todo' qs)
    (hok : ∀ info ∈ todo, ok info) : Down ok k stage' (ps ++ qs) := by
  cases ht with
  | announced =>
      cases h with
      | silent => exact .announced (by simp) (by simpa using .nil)
      | announced hs | hashing _ hs => exact absurd rfl hs
  | nothing => simpa using h
  | hash =>
      have hinfo := hok _ (Multiset.mem_add.mpr (.inr (Multiset.mem_singleton_self _)))
      cases h with
      | announced hs h => exact .announced hs (by simpa using Hashes.send (by simpa using h) hinfo)
      | hashing hk hs h =>
          exact .hashing hk hs (by simpa using Hashes.send (by simpa using h) hinfo)
  | completed =>
      cases h with
      | announced hs h =>
          exact .announced (by simp) (by simpa using Hashes.complete (by simpa using h))
      | hashing hk hs h =>
          exact .hashing hk (by simp) (by simpa using Hashes.complete (by simpa using h))

end Streams

/-! ### What has been compared -/

/-- The replica with the correct blocks among the packets. -/
def corrected (replica : Image UInt8) (ps : List Packet) : Image UInt8 :=
  replica.applyAll ((blocksOf ps).map BlockInfo.patch)

/-- Every byte is covered by a hash that is still to be compared (`hw`), by a block that is still to
be received (`bw`), or is as `Q` says. -/
structure Ledger (size : ℕ) (Q : ℕ → UInt8 → Prop) (replica : Image UInt8) (hw bw : ℕ → ℕ)
    (received : List Packet) : Prop where
  once : ∀ p, hw p + bw p ≤ 1
  apart : ∀ b ∈ blocksOf received, ∀ p, b.weight p = 1 → hw p = 0
  cover : ∀ p < size, hw p = 0 → bw p = 0 → Q p (corrected replica received p)

section Ledger
variable {size : ℕ} {Q Q' : ℕ → UInt8 → Prop} {replica : Image UInt8} {hw hw' bw bw' w : ℕ → ℕ}
variable {received : List Packet}

/-- A byte outside of the block stays. -/
theorem apply_patch_of_weight {b : BlockInfo} {p : ℕ} (h : b.weight p ≠ 1) (m : Image UInt8) :
    m.apply b.patch p = m p := by
  refine Image.apply_of_not_covers fun hc => h (if_pos ⟨hc.1, hc.2.trans_le ?_⟩)
  simp only [BlockInfo.patch, List.length_take]
  omega

theorem applyAll_of_weight {bs : List CorrectBlockInfo} {p : ℕ} (h : ∀ b ∈ bs, b.weight p ≠ 1)
    (replica : Image UInt8) : replica.applyAll (bs.map BlockInfo.patch) p = replica p := by
  induction bs generalizing replica with
  | nil => rfl
  | cons b bs ih =>
      rw [List.map_cons, Image.applyAll_cons, ih fun b' hb => h b' (List.mem_cons_of_mem _ hb)]
      exact apply_patch_of_weight (h b List.mem_cons_self) replica

theorem corrected_concat_block (b : CorrectBlockInfo) :
    corrected replica (received ++ [.payloadCorrectBlock b]) =
      (corrected replica received).apply b.patch := by
  simp only [corrected, blocksOf_append, List.map_append, Image.applyAll_append]
  rfl

theorem Ledger.mono (h : Ledger size Q replica hw bw received) (hQ : ∀ p v, Q p v → Q' p v) :
    Ledger size Q' replica hw bw received :=
  { h with cover := fun p hp h₁ h₂ => hQ _ _ (h.cover p hp h₁ h₂) }

theorem Ledger.congr (h : Ledger size Q replica hw bw received) (h₁ : ∀ p, hw' p = hw p)
    (h₂ : ∀ p, bw' p = bw p) : Ledger size Q replica hw' bw' received := by
  rwa [show hw' = hw from funext h₁, show bw' = bw from funext h₂]

/-- What is still to be hashed is not covered by a block. -/
theorem Ledger.corrected_eq (h : Ledger size Q replica hw bw received) {p : ℕ} (hp : hw p ≠ 0) :
    corrected replica received p = replica p :=
  applyAll_of_weight (fun b hb hone => hp (h.apart b hb p hone)) replica

/-- The hashes of a block differ: the block is on its way. -/
theorem Ledger.differs (h : Ledger size Q replica hw bw received) (h₁ : ∀ p, hw' p + w p = hw p)
    (h₂ : ∀ p, bw' p = bw p + w p) : Ledger size Q replica hw' bw' received where
  once p := by
    have := h.once p
    have := h₁ p
    have := h₂ p
    omega
  apart b hb p hone := by
    have := h.apart b hb p hone
    have := h₁ p
    omega
  cover p hp hzero hzero' := by
    have := h₁ p
    have := h₂ p
    exact h.cover p hp (by omega) (by omega)

/-- **The hashes of a block agree**: the replica is as it should be there. -/
theorem Ledger.agrees (h : Ledger size Q replica hw bw received) (h₁ : ∀ p, hw' p + w p = hw p)
    (h₂ : ∀ p, bw' p = bw p) (hQ : ∀ p, w p ≠ 0 → Q p (replica p)) :
    Ledger size Q replica hw' bw' received where
  once p := by
    have := h.once p
    have := h₁ p
    have := h₂ p
    omega
  apart b hb p hone := by
    have := h.apart b hb p hone
    have := h₁ p
    omega
  cover p hp hzero hzero' := by
    have hsum := h₁ p
    by_cases hw : w p = 0
    · have := h₂ p
      exact h.cover p hp (by omega) (by omega)
    · rw [h.corrected_eq (p := p) (by omega)]
      exact hQ p hw

/-- A block is received. -/
theorem Ledger.receiveBlock (h : Ledger size Q replica hw bw received) {b : CorrectBlockInfo}
    (hb : b.Carries size Q) (h₂ : ∀ p, bw' p + b.weight p = bw p) :
    Ledger size Q replica hw bw' (received ++ [.payloadCorrectBlock b]) where
  once p := by
    have := h.once p
    have := h₂ p
    omega
  apart b' hb' p hone := by
    rw [blocksOf_append] at hb'
    rcases List.mem_append.mp hb' with hb' | hb'
    · exact h.apart b' hb' p hone
    · cases List.mem_singleton.mp hb'
      have := h.once p
      have := h₂ p
      omega
  cover p hp hzero hzero' := by
    have := h₂ p
    rw [corrected_concat_block, patch_of_length hb.length]
    rcases hb.apply (p := p) (corrected replica received) with ⟨hw, heq⟩ | ⟨-, hQ⟩
    · rw [heq]
      exact h.cover p hp hzero (by omega)
    · exact hQ

/-- A buffer write is received. -/
theorem Ledger.receiveWrite (h : Ledger size Q replica hw bw received) (v : WriteInfo) :
    Ledger size Q replica hw bw (received ++ [.payloadBufferWrite v]) := by
  have hblocks : blocksOf (received ++ [.payloadBufferWrite v]) = blocksOf received := by
    rw [blocksOf_append]
    exact List.append_nil _
  exact ⟨h.once, by rw [hblocks]; exact h.apart, by
    unfold corrected
    rw [hblocks]
    exact h.cover⟩

end Ledger

/-! ### The invariant -/

namespace Captured
variable (t : Captured P)

/-- How often the hashes that are still to be compared cover `p`. -/
def hashWeight (k : ClientStage) (todo : Multiset HashInfo) (p : ℕ) : ℕ :=
  Server.hashWeight p todo + (t.toClient.map (Packet.weight p)).sum + t.client.hashWeight k p

/-- How often the blocks that are still to be received cover `p`. -/
def blockWeight (k : ClientStage) (p : ℕ) : ℕ :=
  t.client.blockWeight k p + (t.toServer.map (Packet.weight p)).sum

end Captured

/-- A scan between the moment the server has received the command and the moment it receives
`InfoHashingCompleted`: the hashes are of `target`, no byte of a block is younger than the `cut`th
write, and the server has received `received`. -/
structure Exchange (cfg : Config) (target : Device) (k : ClientStage) (stage : HashStage)
    (todo : Multiset HashInfo) (cut : ℕ) (received : List Packet) (t : Captured P) : Prop where
  connected : t.system.connected = true
  flow : Flow cfg.client.targetInfo t.client t.capture
  scanning : t.client.Scanning cfg.client (HashInfo.Of cfg.serverHash target.size target.bytes)
    (Seen t.capture cut) k
  cut_le : cut ≤ t.capture.captured.length
  unread : k.unread = true → cut = t.capture.captured.length
  caught : t.client.Caught t.capture cut k
  owed : ∀ info ∈ todo, info.Of cfg.serverHash target.size target.bytes
  down : Down (HashInfo.Of cfg.serverHash target.size target.bytes) k stage t.toClient
  early : k = .called ∨ k = .starting → t.toServer = [] ∧ received = []
  up : Up (IsData target.size (Seen t.capture cut)) cut (writes received).length k t.toServer
  ledger : Ledger target.size (Seen t.capture cut) target.bytes (t.hashWeight k todo)
    (t.blockWeight k) received
  sent : t.capture.sent = writes received ++ writes t.toServer

/-! ### The client moves -/

/-- The block that a comparer has is the one of the replica if the hashes agree. -/
def NoCollision (cfg : Config) (replica : Image UInt8) (c : Client) (i : ℕ) : Prop :=
  match c.hashing.comparers.busy? i with
  | some (.took comp) =>
      cfg.client.hash comp.buffer = cfg.serverHash
        (replica.read comp.hashInfo.offset.toNat comp.hashInfo.size.toNat) →
      comp.buffer = replica.read comp.hashInfo.offset.toNat comp.hashInfo.size.toNat
  | _ => True

instance (cfg : Config) (replica : Image UInt8) (c : Client) (i : ℕ) :
    Decidable (NoCollision cfg replica c i) := by
  dsimp only [NoCollision]
  exact match c.hashing.comparers.busy? i with
    | some (.took _) => inferInstance
    | some (.sending _) | none => inferInstance

/-- The ring takes every write, which lies on the device, the device can be read, and no two blocks
that are compared have the same hash unless they are equal. -/
def Captured.attentive (cfg : Config) (replica : Image UInt8) (t : Captured P) :
    ClientMove P → Prop
  | .write a => (bdrRingBufferPut t.client.shared.ring a).2 = true ∧
      (writeInfo a).patch.offset + (writeInfo a).patch.data.length ≤ cfg.client.diskSize.toNat
  | .hashing (.reader _ failed) => failed = false
  | .hashing (.comparer i) => NoCollision cfg replica t.client i
  | _ => True

instance (cfg : Config) (replica : Image UInt8) (t : Captured P) (m : ClientMove P) :
    Decidable (t.attentive cfg replica m) :=
  match m with
  | .write _ => inferInstanceAs (Decidable (_ ∧ _))
  | .hashing (.reader _ failed) => inferInstanceAs (Decidable (failed = false))
  | .hashing (.comparer i) => inferInstanceAs (Decidable (NoCollision cfg replica t.client i))
  | .hashing .closeWork | .hashing (.worker _) | .hashing .closeComp | .run | .monitor _
  | .listener _ | .deliver _ | .eof | .dial | .replication _ => isTrue trivial

section Client
variable {cfg : Config} {target : Device} {k k' : ClientStage} {stage : HashStage}
variable {todo : Multiset HashInfo} {cut : ℕ} {received : List Packet} {t t' : Captured P}
variable {m : ClientMove P} {ok : HashInfo → Prop} {Q : ℕ → UInt8 → Prop} {ps : List Packet}

theorem IsData.mono {size : ℕ} {Q' : ℕ → UInt8 → Prop} {packet : Packet}
    (h : IsData size Q packet) (hQ : ∀ p v, Q p v → Q' p v) : IsData size Q' packet :=
  h.imp_left fun ⟨b, hp, hb⟩ => ⟨b, hp, hb.mono hQ⟩

/-- A packet that the client receives is one that it may receive now. -/
theorem Down.expects (h : Down ok k stage ps) {packet : Packet} {qs : List Packet}
    (hps : ps = packet :: qs) (hk : k ≠ .starting) : Expects ok k packet := by
  subst hps
  cases h with
  | announced => exact .startHashing
  | hashing hk' _ h =>
      obtain rfl := hk'.resolve_left hk
      rcases h.head with ⟨info, rfl, hok, -⟩ | ⟨rfl, -⟩
      · exact .hash hok
      · exact .completed

/-- What a move leaves on its way to the client, where it does not receive anything. -/
theorem Inbox.toClient_eq {s : System} {toClient : List Packet} (h : s.Inbox toClient m)
    (hconn : s.connected = true) (hm : ∀ packet, m ≠ .deliver packet) :
    toClient = s.toClient := by
  cases m with
  | deliver packet => exact absurd rfl (hm packet)
  | eof => cases hconn.symm.trans h.1
  | dial => exact h.elim
  | write | run | monitor | listener | hashing | replication => exact h

/-- The packets of the server go one by one. -/
theorem Down.scans {ccfg : ClientConfig} {c c' : Client} {s : System} {toClient : List Packet}
    (h : Down ok k stage s.toClient) (hconn : s.connected = true) (hin : s.Inbox toClient m)
    (hs : Scans ccfg ok Q k k' c c' m ps) : Down ok k' stage toClient := by
  cases hs with
  | passes hm hnext =>
      rw [hin.toClient_eq hconn hm]
      cases hnext with
      | refl => exact h
      | started =>
          generalize hps : s.toClient = qs at h
          cases h with
          | hashing _ hs h => exact .hashing (.inr rfl) hs h
          | completed hk => simp [ClientStage.reads] at hk
      | compared | read | empty | sent =>
          generalize hps : s.toClient = qs at h
          cases h with
          | hashing hk => simp at hk
          | completed => exact .completed (.inr rfl)
  | announced hk hk' =>
      subst hk hk'
      rw [show s.toClient = _ from hin] at h
      cases h with
      | announced hs h => exact .hashing (.inl rfl) hs h
      | hashing hk => simp at hk
  | hash hk hk' =>
      subst hk hk'
      rw [show s.toClient = _ from hin] at h
      cases h with
      | hashing hk hs h =>
          rcases h.head with ⟨_, heq, -, h⟩ | ⟨heq, -⟩
          · exact .hashing (.inr rfl) hs h
          · cases heq
  | completed hk hk' =>
      subst hk hk'
      rw [show s.toClient = _ from hin] at h
      cases h with
      | hashing hk hs h =>
          rcases h.head with ⟨_, heq, -⟩ | ⟨-, hmore, rfl⟩
          · cases heq
          · cases stage with
            | completed => exact .completed (.inl rfl)
            | silent => exact absurd rfl hs
            | hashing => simp at hmore
  | agrees _ hk' | differs _ hk' | block _ hk' =>
      subst hk'
      rw [hin.toClient_eq hconn (by simp)]
      exact h
  | ended hk hk' =>
      subst hk hk'
      rw [hin.toClient_eq hconn (by simp)]
      generalize hps : s.toClient = qs at h
      cases h with
      | hashing hk => simp at hk
      | completed => exact .completed (.inr rfl)

/-- What a move does to the hashes and blocks on their way. -/
theorem Captured.weights_of_scans {ccfg : ClientConfig} {c : Client} {toClient : List Packet}
    (t' : Captured P) (h : Scans ccfg ok Q k k' t.client c m ps) (hconn : t.system.connected = true)
    (hin : t.system.Inbox toClient m) (hc : t'.client = c)
    (hto : t'.toServer = t.toServer ++ ps) (hfrom : t'.toClient = toClient)
    (todo : Multiset HashInfo) :
    (∀ p, t'.hashWeight k' todo p = t.hashWeight k todo p ∧
        t'.blockWeight k' p = t.blockWeight k p) ∨
      (∃ i comp, m = .hashing (.comparer i) ∧ comp.Carries ccfg.hash ok Q ∧
        t.client.hashing.comparers.busy? i = some (.took comp) ∧ comp.hash = comp.hashInfo.hash ∧
        ∀ p, t'.hashWeight k' todo p + comp.hashInfo.weight p = t.hashWeight k todo p ∧
          t'.blockWeight k' p = t.blockWeight k p) ∨
      ∃ w : ℕ → ℕ, ∀ p, t'.hashWeight k' todo p + w p = t.hashWeight k todo p ∧
        t'.blockWeight k' p = t.blockWeight k p + w p := by
  have hsame : (∀ packet, m ≠ .deliver packet) → ∀ p,
      (t'.toClient.map (Packet.weight p)).sum = (t.toClient.map (Packet.weight p)).sum := by
    intro hm p
    rw [hfrom, hin.toClient_eq hconn hm]
  simp only [Captured.hashWeight, Captured.blockWeight, hc, hto, List.map_append, List.sum_append]
  cases h with
  | passes hm _ hps _ _ hw hb =>
      refine .inl fun p => ?_
      have := hsame hm p
      have := hw p
      have := hb p
      have := Replication.sum_weight_of_writes hps p
      omega
  | announced hk hk' =>
      subst hk hk'
      refine .inl fun p => ?_
      rw [hfrom, show t.toClient = _ from hin]
      simp [Client.hashWeight, Client.blockWeight, ClientStage.compares, Packet.weight]
  | hash hk hk' hw hb =>
      refine .inl fun p => ?_
      rw [hfrom, show t.toClient = _ from hin]
      have := hw p
      have := hb p
      simp only [List.map_cons, List.sum_cons, Packet.weight, List.map_nil, List.sum_nil]
      unfold HashInfo.weight at *
      omega
  | completed hk hk' hw hb =>
      refine .inl fun p => ?_
      rw [hfrom, show t.toClient = _ from hin]
      have := hw p
      have := hb p
      simp only [List.map_cons, List.sum_cons, Packet.weight, List.map_nil, List.sum_nil]
      omega
  | agrees hk hk' hcomp hbusy heq hw hb =>
      -- the hash is done with, and no block comes of it
      refine .inr (.inl ⟨_, _, rfl, hcomp, hbusy, heq, fun p => ?_⟩)
      have := hsame (by simp) p
      have := hw p
      have := hb p
      simp only [List.map_nil, List.sum_nil]
      omega
  | @differs i comp hk hk' hw hb =>
      -- the weight of the hash becomes that of the block
      refine .inr (.inr ⟨fun p => comp.hashInfo.weight p, fun p => ?_⟩)
      have := hsame (by simp) p
      have := hw p
      have := hb p
      simp only [List.map_nil, List.sum_nil]
      omega
  | block hk hk' hcarries hw hb =>
      refine .inl fun p => ?_
      have := hsame (by simp) p
      have := hw p
      have := hb p
      simp only [List.map_cons, List.sum_cons, Packet.weight, List.map_nil, List.sum_nil]
      omega
  | ended hk hk' hw hb =>
      subst hk hk'
      refine .inl fun p => ?_
      have := hsame (by simp) p
      have := hw p
      have := hb p
      simp only [List.map_cons, List.sum_cons, Packet.weight, List.map_nil, List.sum_nil,
        Client.hashWeight, Client.blockWeight, ClientStage.compares] at *
      simp only [Bool.false_eq_true, if_false, if_true] at *
      omega

/-- What the client sends goes behind what is on its way. -/
theorem Up.scans {ccfg : ClientConfig} {c c' : Client} {n : ℕ} {qs : List Packet}
    (h : Up (IsData ccfg.diskSize.toNat Q) cut n k ps) (hs : Scans ccfg ok Q k k' c c' m qs)
    (hcaught : k = .finishing → cut ≤ n + (writes ps).length) :
    Up (IsData ccfg.diskSize.toNat Q) cut n k' (ps ++ qs) := by
  have hgoes : k' = k → (∀ p ∈ qs, ∃ w, p = .payloadBufferWrite w) →
      Up (IsData ccfg.diskSize.toNat Q) cut n k' (ps ++ qs) := by
    rintro rfl hqs
    cases h with
    | running hk h =>
        exact .running hk fun p hp => (List.mem_append.mp hp).elim (h p) fun hp => .inr (hqs p hp)
    | ended h hq hn =>
        rw [List.append_assoc, List.cons_append]
        exact .ended h (fun p hp => (List.mem_append.mp hp).elim (hq p) (hqs p)) hn
  have hruns : ∀ {k₁ : ClientStage}, k ≠ .finished → k₁ ≠ .finished →
      (∀ p ∈ qs, IsData ccfg.diskSize.toNat Q p) →
      Up (IsData ccfg.diskSize.toNat Q) cut n k₁ (ps ++ qs) := by
    intro k₁ hk hk₁ hqs
    cases h with
    | running _ h => exact .running hk₁ fun p hp => (List.mem_append.mp hp).elim (h p) (hqs p)
    | ended => exact absurd rfl hk
  cases hs with
  | passes _ hnext hqs =>
      cases hnext with
      | refl => exact hgoes rfl hqs
      | started | compared | read | empty | sent =>
          exact hruns (by simp) (by simp) fun p hp => .inr (hqs p hp)
  | announced hk hk' | hash hk hk' | completed hk hk' =>
      exact hruns (by simp [hk]) (by simp [hk']) (by simp)
  | agrees hk hk' | differs hk hk' =>
      exact hruns (by rcases hk with rfl | rfl <;> simp)
        (by rcases hk with rfl | rfl <;> simp [hk']) (by simp)
  | block hk hk' hc =>
      refine hruns (by rcases hk with rfl | rfl <;> simp)
        (by rcases hk with rfl | rfl <;> simp [hk']) fun p hp => ?_
      exact .inl ⟨_, List.mem_singleton.mp hp, hc⟩
  | ended hk hk' =>
      subst hk'
      cases h with
      | running _ h => exact .ended h (by simp) (hcaught hk)
      | ended => cases hk

theorem Up.mono {n : ℕ} {ok' : Packet → Prop} {ok : Packet → Prop} (h : Up ok cut n k ps)
    (hok : ∀ p, ok p → ok' p) : Up ok' cut n k ps := by
  cases h with
  | running hk h => exact .running hk fun p hp => hok p (h p hp)
  | ended h hq hn => exact .ended (fun p hp => hok p (h p hp)) hq hn

/-- The cut does not matter before the end. -/
theorem Up.recut {n cut' : ℕ} {ok : Packet → Prop} (h : Up ok cut n k ps)
    (hcut : cut' = cut ∨ k.unread = true) : Up ok cut' n k ps := by
  cases h with
  | running hk h => exact .running hk h
  | ended h hq hn =>
      rcases hcut with rfl | hk
      · exact .ended h hq hn
      · cases hk

/-- **The client moves**: the hashes and the blocks stay on their way, and every byte that none of
them covers any more is as it was on the source at some moment. -/
theorem Exchange.clientMoves (h : Exchange cfg target k stage todo cut received t)
    (hsize : target.size = cfg.client.diskSize.toNat) (hn : 0 < cfg.client.numWorkers)
    (hm : t.attentive cfg target.bytes m)
    (htoken : ∀ sent, m = .monitor sent → t.client.listener.holdsToken = false)
    (hs : t.step cfg (.client m) = some t') :
    ∃ k' cut' ps, Exchange cfg target k' stage todo cut' received t' ∧ t'.session = t.session ∧
      Scans cfg.client (HashInfo.Of cfg.serverHash target.size target.bytes) (Seen t.capture cut)
        k k' t.client t'.client m ps ∧
      (k'.unread = false → cut' = cut) := by
  obtain ⟨c, ps, toClient, hmove, hin, rfl⟩ := Captured.step_client hs
  -- what the client may do
  have hroom : ∀ a, m = .write a → (bdrRingBufferPut t.client.shared.ring a).2 = true := by
    rintro a rfl
    exact hm.1
  have hord := h.scanning.orderly hroom
  have hring : t.client.shared.ring.bufferInfo.overflown = false := by
    obtain ⟨q, w, -, hout, -⟩ := h.flow.ring
    exact overflown_of_flags hout.refines.flags
  have hfail : ∀ i, m ≠ .hashing (.reader i true) := by
    rintro i rfl
    cases hm
  have heof : m ≠ .eof := by
    rintro rfl
    cases h.connected.symm.trans hin.1
  have hexpects : ∀ packet, m = .deliver packet →
      Expects (HashInfo.Of cfg.serverHash target.size target.bytes) k packet := by
    rintro packet rfl
    refine h.down.expects hin fun hk => ?_
    obtain ⟨-, hmove⟩ := Option.ite_none_right_eq_some.mp hmove
    obtain ⟨hl, -⟩ := Option.ite_none_right_eq_some.mp hmove
    have hat := h.scanning.listener
    subst hk
    rw [hl] at hat
    cases hat
  have hnow : k.reads = true → ∀ p, Seen t.capture cut p (t.client.source p) := by
    intro hk p
    have hpast := Image.past_now t.capture.base (patches t.capture.captured) p
    rw [← h.flow.source] at hpast
    rwa [Seen, h.unread (ClientStage.unread_of_reads hk), ← length_patches]
  obtain ⟨k', hscan', hscans⟩ := h.scanning.move hn (fun info hok => hsize ▸ hok.fits) hring htoken
    hfail heof hexpects hnow hmove
  have hop := (h.scanning.ringOp m).1
  have hflow' := h.flow.move hord hmove
  have hcaught' := h.caught.move h.scanning h.cut_le h.flow hord hmove hscan' hscans
  obtain ⟨hbase, more, hmore, -⟩ := Capture.captured_after t.capture hop ps
  have hlen := congrArg List.length hmore
  rw [List.length_append] at hlen
  have hcutle := h.cut_le
  -- the cut is at the last write until `SendBuffer` reads the ring
  obtain ⟨cut', hunread', hcut', hle, hle'⟩ : ∃ cut',
      (k'.unread = true → cut' = (t.capture.after t.client m ps).captured.length) ∧
      (cut' = cut ∨ k'.unread = true) ∧ cut ≤ cut' ∧
      cut' ≤ (t.capture.after t.client m ps).captured.length := by
    by_cases hk : k'.unread = true
    · exact ⟨_, fun _ => rfl, .inr hk, by omega, le_rfl⟩
    · exact ⟨cut, fun hk' => absurd hk' hk, .inl rfl, le_rfl, by omega⟩
  have hmono : ∀ p v, Seen t.capture cut p v → Seen (t.capture.after t.client m ps) cut' p v := by
    intro p v hv
    rw [Seen, hbase, hmore, patches_append]
    exact hv.mono (by rw [length_patches]; exact hcutle) hle _
  have hsent' := Capture.sent_after (g := t.capture) hmove hop
  have hto : push t.system.connected t.system.toServer ps = t.toServer ++ ps := by
    rw [h.connected, push_true]
  refine ⟨k', cut', ps, ⟨h.connected, hflow', hscan'.mono hmono, hle', hunread', ?_, h.owed,
    h.down.scans h.connected hin hscans, ?_, ?_, ?_, ?_⟩, rfl, hscans,
    fun hk => hcut'.resolve_right (by simp [hk])⟩
  · rcases hcut' with rfl | hk
    · exact hcaught'
    · exact .of_unread hk
  · -- nothing is sent before the hashes come
    intro hk
    obtain ⟨hk₀, rfl⟩ := hscans.early hk
    obtain ⟨hnil, hrec⟩ := h.early hk₀
    exact ⟨hto.trans (by rw [hnil]; rfl), hrec⟩
  · have hup := h.up
    rw [hsize] at hup
    have hfin : k = .finishing → cut ≤ (writes received).length + (writes t.toServer).length := by
      rintro rfl
      have : cut ≤ t.capture.sent.length := h.caught
      rwa [h.sent, List.length_append] at this
    have hup' := (hup.scans hscans hfin).recut hcut'
    rw [← hsize] at hup'
    show Up _ _ _ _ (push t.system.connected t.system.toServer ps)
    rw [hto]
    exact hup'.mono fun p hp => hp.mono hmono
  · have hledger := h.ledger.mono hmono
    rcases Captured.weights_of_scans
        ⟨⟨c, t.session, push t.system.connected t.toServer ps, toClient, t.system.connected⟩,
          t.capture.after t.client m ps⟩ hscans h.connected hin rfl hto rfl todo with
      hw | ⟨i, comp, rfl, hcomp, hbusy, heq, hw⟩ | ⟨w, hw⟩
    · exact hledger.congr (fun p => (hw p).1) fun p => (hw p).2
    · -- the hashes agree, and so do the blocks
      refine hledger.agrees (fun p => (hw p).1) (fun p => (hw p).2) fun p hp => hmono _ _ ?_
      have hcollision : NoCollision cfg target.bytes t.client i := hm
      simp only [NoCollision, hbusy] at hcollision
      exact hcomp.seen (hcollision (by rw [← hcomp.hash, heq, hcomp.work.info.hash])) hp
    · exact hledger.differs (fun p => (hw p).1) fun p => (hw p).2
  · show (t.capture.after t.client m ps).sent = _ ++ writes (push t.system.connected _ ps)
    rw [hsent', h.sent, hto, writes_append, List.append_assoc]

/-- The writes that were captured lie on the device. -/
def Captured.Fits (cfg : Config) (t : Captured P) : Prop :=
  ∀ w ∈ patches t.capture.captured, w.offset + w.data.length ≤ cfg.client.diskSize.toNat

theorem Captured.Fits.clientMoves {replica : Image UInt8} (h : t.Fits cfg)
    (hm : t.attentive cfg replica m) (hs : t.step cfg (.client m) = some t') : t'.Fits cfg := by
  obtain ⟨c, ps, toClient, -, -, rfl⟩ := Captured.step_client hs
  intro w hw
  obtain ⟨a, ha, rfl⟩ := List.mem_map.mp hw
  rcases Capture.mem_captured_after ha with ha | rfl
  · exact h _ (List.mem_map_of_mem ha)
  · exact hm.2

/-- After the scan the client goes on as before, whatever the server has received. -/
theorem Exchange.clientMoves_finished (h : Exchange cfg target .finished stage todo cut received
      (t.behind ps)) (hsize : target.size = cfg.client.diskSize.toNat)
    (hn : 0 < cfg.client.numWorkers) (hm : t.attentive cfg target.bytes m)
    (hs : t.step cfg (.client m) = some t') :
    Exchange cfg target .finished stage todo cut received (t'.behind ps) ∧
      t'.session = t.session := by
  have hconn : t.system.connected = true := h.connected
  have hs' : (t.behind ps).step cfg (.client m) = some (t'.behind ps) := by
    rw [Captured.step_behind hconn, hs, Option.map_some]
  obtain ⟨k', cut', qs, h', hsession, hscans, hcut⟩ := h.clientMoves hsize hn hm
    (fun _ _ => h.scanning.listener.holdsToken (by simp)) hs'
  obtain rfl := hscans.finished
  obtain rfl := hcut rfl
  exact ⟨h', hsession⟩

end Client

/-! ### The server moves -/

section Server
variable {cfg : Config} {target : Device} {k : ClientStage} {stage stage' : HashStage}
variable {todo todo' : Multiset HashInfo} {cut : ℕ} {received : List Packet} {t t' : Captured P}
variable {m : SessionMove} {ps : List Packet}

/-- The server leaves the client as it is. -/
theorem Exchange.of_server {received' : List Packet}
    (h : Exchange cfg target k stage todo cut received t) (hs : Captured.ServerStep cfg t m t' ps)
    (howed : ∀ info ∈ todo', info ∈ todo)
    (hdown : Down (HashInfo.Of cfg.serverHash target.size target.bytes) k stage' t'.toClient)
    (hearly : k = .called ∨ k = .starting → t'.toServer = [] ∧ received' = [])
    (hup : Up (IsData target.size (Seen t.capture cut)) cut (writes received').length k t'.toServer)
    (hledger : Ledger target.size (Seen t.capture cut) target.bytes (t'.hashWeight k todo')
      (t'.blockWeight k) received')
    (hsent : t.capture.sent = writes received' ++ writes t'.toServer) :
    Exchange cfg target k stage' todo' cut received' t' where
  connected := hs.connected.trans h.connected
  flow := by rw [hs.client, hs.capture]; exact h.flow
  scanning := by rw [hs.client, hs.capture]; exact h.scanning
  cut_le := by rw [hs.capture]; exact h.cut_le
  unread := by rw [hs.capture]; exact h.unread
  caught := by rw [hs.client, hs.capture]; exact h.caught
  owed info hi := h.owed info (howed info hi)
  down := hdown
  early := hearly
  up := by rw [hs.capture]; exact hup
  ledger := by rw [hs.capture]; exact hledger
  sent := by rw [hs.capture]; exact hsent

/-- **The server goes on**, and sends a hash or nothing. -/
theorem Exchange.told (h : Exchange cfg target k stage todo cut received t)
    (hs : Captured.ServerStep cfg t m t' ps) (hrecv : Session.received m = [])
    (ht : Told stage todo stage' todo' ps) :
    Exchange cfg target k stage' todo' cut received t' := by
  have hto : t'.toServer = t.toServer := by
    rw [hs.toServer, hrecv]
    rfl
  have hfrom : t'.toClient = t.toClient ++ ps := by rw [hs.toClient, h.connected, push_true]
  refine h.of_server hs (fun info => ht.mem) ?_ (hto ▸ h.early) (hto ▸ h.up)
    (h.ledger.congr (fun p => ?_) fun p => ?_) (hto ▸ h.sent)
  · rw [hfrom]
    exact h.down.told ht h.owed
  · have := ht.weight p
    simp only [Captured.hashWeight, hfrom, hs.client, List.map_append, List.sum_append]
    omega
  · simp only [Captured.blockWeight, hto, hs.client]

/-- Data that is received. -/
theorem Exchange.takes (h : Exchange cfg target k stage todo cut received t) {packet : Packet}
    (hs : Captured.ServerStep cfg t (.receive packet) t' [])
    (hdata : IsData target.size (Seen t.capture cut) packet)
    (hup : Up (IsData target.size (Seen t.capture cut)) cut
      (writes (received ++ [packet])).length k t'.toServer) :
    Exchange cfg target k stage todo cut (received ++ [packet]) t' := by
  have hto : t.toServer = packet :: t'.toServer := hs.toServer
  have hfrom : t'.toClient = t.toClient := by rw [hs.toClient, push_nil]
  refine h.of_server hs (fun _ => id) (hfrom ▸ h.down) (fun hk => ?_) hup ?_ ?_
  · cases hto.symm.trans (h.early hk).1
  · have hhash : ∀ p, t'.hashWeight k todo p = t.hashWeight k todo p := by
      intro p
      rw [Captured.hashWeight, Captured.hashWeight, hfrom, hs.client]
    have hblock : ∀ p, t'.blockWeight k p + packet.weight p = t.blockWeight k p := by
      intro p
      rw [Captured.blockWeight, Captured.blockWeight, hto, hs.client, List.map_cons, List.sum_cons]
      omega
    rcases hdata with ⟨b, rfl, hb⟩ | ⟨w, rfl⟩
    · exact (h.ledger.receiveBlock hb hblock).congr hhash fun _ => rfl
    · exact (h.ledger.receiveWrite w).congr hhash hblock
  · rw [h.sent, hto, ← writes_append, ← writes_append, List.append_assoc]
    rfl

/-- **The end of a scan**: every byte is as it was on the source at some moment before the last of
the writes that were received. -/
theorem Exchange.ended (h : Exchange cfg target k stage todo cut received t)
    (hto : t.toServer = .infoHashingCompleted :: ps) (hdone : stage = .completed → todo = 0) :
    k = .finished ∧ stage = .completed ∧ t.toClient = [] ∧
      (∀ p ∈ ps, ∃ w, p = .payloadBufferWrite w) ∧ cut ≤ (writes received).length ∧
      ∀ p < target.size, Seen t.capture cut p (corrected target.bytes received p) := by
  have hnot : ∀ Q, ¬ IsData target.size Q .infoHashingCompleted := by
    rintro Q (⟨b, hb, -⟩ | ⟨w, hw⟩)
    · cases hb
    · cases hw
  have hup := h.up
  rw [hto] at hup
  generalize hqs : Packet.infoHashingCompleted :: ps = qs at hup
  cases hup with
  | running _ hok => exact absurd (hok _ (by rw [← hqs]; exact List.mem_cons_self)) (hnot _)
  | @ended ps' qs' hok hq hn =>
      cases ps' with
      | cons p ps' =>
          obtain ⟨rfl, -⟩ := List.cons.inj hqs
          exact absurd (hok _ List.mem_cons_self) (hnot _)
      | nil =>
          obtain ⟨-, rfl⟩ := List.cons.inj hqs
          have hdown := h.down
          generalize hfrom : t.toClient = toClient at hdown
          cases hdown with
          | hashing hk => simp at hk
          | completed =>
              refine ⟨rfl, rfl, rfl, hq, hn, fun p hp => h.ledger.cover p hp ?_ ?_⟩
              · simp [Captured.hashWeight, hfrom, hdone rfl, Client.hashWeight,
                  ClientStage.compares]
              · simp [Captured.blockWeight, hto, Client.blockWeight, ClientStage.compares,
                  Packet.weight, Replication.sum_weight_of_writes hq]

/-- **The server receives** a block or a write, or the word that the scan is over. -/
theorem Exchange.receives (h : Exchange cfg target k stage todo cut received t) {packet : Packet}
    (hs : Captured.ServerStep cfg t (.receive packet) t' []) :
    IsData target.size (Seen t.capture cut) packet ∧
        Exchange cfg target k stage todo cut (received ++ [packet]) t' ∨
      packet = .infoHashingCompleted := by
  have hto : t.toServer = packet :: t'.toServer := hs.toServer
  have hup := h.up
  rw [hto] at hup
  generalize hqs : packet :: t'.toServer = qs at hup
  cases hup with
  | running hk hok =>
      subst hqs
      have hdata := hok packet List.mem_cons_self
      exact .inl ⟨hdata, h.takes hs hdata
        (.running hk fun p hp => hok p (List.mem_cons_of_mem _ hp))⟩
  | @ended ps qs hok hq hn =>
      cases ps with
      | cons p ps =>
          obtain ⟨rfl, hrest⟩ := List.cons.inj hqs
          have hdata := hok packet List.mem_cons_self
          refine .inl ⟨hdata, h.takes hs hdata ?_⟩
          rw [hrest]
          refine .ended (fun p hp => hok p (List.mem_cons_of_mem _ hp)) hq ?_
          rw [writes_append, List.length_append, add_assoc, ← List.length_append, ← writes_append]
          exact hn
      | nil => exact .inr (List.cons.inj hqs).1

theorem Captured.Fits.serverMoves (h : t.Fits cfg) (hs : Captured.ServerStep cfg t m t' ps) :
    t'.Fits cfg := by
  rw [Captured.Fits, hs.capture]
  exact h

/-- What the server is doing does not matter. -/
theorem Exchange.congr (h : Exchange cfg target k stage todo cut received t)
    (hclient : t'.client = t.client) (hto : t'.toServer = t.toServer)
    (hfrom : t'.toClient = t.toClient) (hconn : t'.system.connected = t.system.connected)
    (hcapture : t'.capture = t.capture) : Exchange cfg target k stage todo cut received t' := by
  obtain ⟨⟨c, s, out, inbox, b⟩, g⟩ := t
  obtain ⟨⟨c', s', out', inbox', b'⟩, g'⟩ := t'
  cases hclient
  cases hto
  cases hfrom
  cases hconn
  cases hcapture
  exact { h with }

end Server

end Bdr.System
