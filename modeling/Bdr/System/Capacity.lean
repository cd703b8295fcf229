import Bdr.Client.Window
import Bdr.Server.Journal

/-!
# System — Capacity

Whether the journal can take what the ring buffer hands out at the end of a scan.  The client
reports the ring's size in bytes, `max_writes` records of `8 + 4096` bytes; the server divides it
by the size of its own record, 4108 bytes.  A window that is not flagged has at most
`max_writes - 1` writes, and every such length is reached, so the journal is large enough for
rings of up to 1027 writes and for no others (`holdsBatches_iff`).
-/

namespace Bdr.System

open Kern Client Server Journal

/-- The payload of `SendInitPacket`. -/
def initInfo (ti : TargetInfo) (deviceSize : UInt64) : InitInfo :=
  ⟨deviceSize, UInt32.ofNat ti.writeInfoSize, UInt64.ofNat ti.bufferByteSize⟩

/-- A batch of buffer writes stored in a freshly reset journal. -/
def storeBatch (ws : List WriteInfo) : Op Unit := do
  let j ← get
  resetTo j.writeOffset j.correctOffset
  ws.forM writeBufferWriteToJournal

/-- The journal laid out for a ring of `M` writes holds every window the ring hands out after a
reset without the flag: it has a slot for each write, and the batch `SendBuffer` makes of the
window can be stored. -/
def HoldsBatches (M : ℕ) : Prop :=
  ∀ (mem : Image UInt8) (rb₀ : RingBuffer) (deviceSize : UInt64) (disk : Device) (j : Journal)
    (pre post : List (WindowOp (Put 4096))),
    bdrRingBufferInit mem M = some rb₀ → disk.plan = [] →
    createJournal (initInfo (bdrGetTargetInfo 4096 rb₀) deviceSize) disk = .ok j →
    (∀ op ∈ post, op ≠ .reset) →
    let rb := ringRun rb₀ (pre ++ .reset :: post)
    let bi := (bdrBufferReadRoutine rb).2
    bi.overflown = false →
      bi.length ≤ j.header.bufWritesCount.toNat ∧
        ∀ ws, decodeWindow (bdrGetTargetInfo 4096 rb₀) rb.buffer bi = some ws →
          ∃ j', storeBatch ws j = .ok () j'

/-! ### The layout -/

theorem createJournal_ok {clientInfo : InitInfo} {disk : Device} {j : Journal}
    (hp : disk.plan = []) (h : createJournal clientInfo disk = .ok j) :
    64 ≤ disk.size ∧ ∃ jrn, newJournal disk clientInfo.bufferByteSize (UInt64.ofNat writeInfoSize)
      (UInt64.ofNat correctBlockByteSize) = .ok jrn ∧ jrn.disk = disk ∧
      j = jrn.withHeader jrn.header.setInvalidFlag := by
  rw [createJournal] at h
  split at h
  · cases h
  · rename_i jrn hnew
    obtain ⟨hd, -⟩ := newJournal_eq_ok hnew
    cases hi : initWithoutClearing jrn with
    | error e j' => rw [hi] at h; cases h
    | ok _ j' =>
        rw [hi] at h
        cases h
        have hpj : jrn.disk.plan = [] := by rw [hd, hp]
        have hsize := (invalidate_eq_ok hi).1
        refine ⟨hd ▸ hsize, jrn, hnew, hd, ?_⟩
        have := invalidate_apply hpj hsize
        rw [show invalidate jrn = initWithoutClearing jrn from rfl, hi] at this
        exact (EStateM.Result.ok.inj this).2

theorem toNat_bufferByteSize {M : ℕ} (hM : M < 2 ^ 32) {rb : RingBuffer}
    (hrb : rb.bufferInfo.maxWrites = M) (deviceSize : UInt64) :
    (initInfo (bdrGetTargetInfo 4096 rb) deviceSize).bufferByteSize.toNat = M * 4104 := by
  simp only [initInfo, bdrGetTargetInfo, bdrRingBufferGetByteSize, bdrWritesToBytes,
    bdrWriteInfoSize, hrb, UInt64.toNat_ofNat']
  omega

/-- The number of slots for buffer writes in a journal laid out for a ring of `M` writes. -/
theorem bufWritesCount_createJournal {M : ℕ} (hM : M < 2 ^ 32) {mem : Image UInt8}
    {rb : RingBuffer} (h₀ : bdrRingBufferInit mem M = some rb) {deviceSize : UInt64}
    {disk : Device} {j : Journal} (hp : disk.plan = [])
    (h : createJournal (initInfo (bdrGetTargetInfo 4096 rb) deviceSize) disk = .ok j) :
    j.header.bufWritesCount.toNat = M * 4104 / 4108 := by
  obtain ⟨-, jrn, hnew, -, rfl⟩ := createJournal_ok hp h
  have hbytes := toNat_bufferByteSize hM (maxWrites_init h₀) deviceSize
  have hcount : (jrn.withHeader jrn.header.setInvalidFlag).header.bufWritesCount = _ :=
    (newJournal_eq_ok hnew).2.2
  rw [hcount, UInt64.toNat_div, hbytes]
  rfl

theorem createJournal_of_le (clientInfo : InitInfo) (disk : Device) (hp : disk.plan = [])
    (hsize : 64 + clientInfo.bufferByteSize.toNat ≤ disk.size)
    (hne : clientInfo.bufferByteSize ≠ 0) : ∃ j, createJournal clientInfo disk = .ok j := by
  obtain ⟨jrn, hnew⟩ := newJournal_of_le (b := UInt64.ofNat writeInfoSize)
    (c := UInt64.ofNat correctBlockByteSize) hsize hne (by decide) (by decide)
  obtain ⟨hd, -⟩ := newJournal_eq_ok hnew
  have hi : initWithoutClearing jrn = .ok () (jrn.withHeader jrn.header.setInvalidFlag) :=
    invalidate_apply (by rw [hd, hp]) (by rw [hd]; omega)
  refine ⟨jrn.withHeader jrn.header.setInvalidFlag, ?_⟩
  rw [createJournal, hnew]
  simp only [hi]

/-! ### Windows -/

/-- After a reset, an unflagged ring follows the queue. -/
theorem refines_after_reset {M : ℕ} {mem : Image UInt8} {rb₀ : RingBuffer}
    (h₀ : bdrRingBufferInit mem M = some rb₀) {pre post : List (WindowOp (Put 4096))}
    (hpost : ∀ op ∈ post, op ≠ .reset)
    (hf : (ringRun rb₀ (pre ++ .reset :: post)).bufferInfo.overflown = false) :
    Refines (ringRun rb₀ (pre ++ .reset :: post)) (WindowQueue.empty.run post) := by
  have hpos : 0 < (ringRun rb₀ pre).bufferInfo.maxWrites := by
    rw [maxWrites_ringRun]
    exact (refines_init (P := 4096) h₀).maxWrites_pos
  rw [ringRun_append, ringRun_cons] at hf ⊢
  exact (refines_reset hpos).run hpost hf

/-- A ring of more than 1027 writes hands out windows for which the journal has no room. -/
theorem not_holdsBatches {M : ℕ} (hM : 1027 < M) (h32 : M < 2 ^ 32) : ¬ HoldsBatches M := by
  intro h
  let rb₀ : RingBuffer := ⟨fun _ => 0, ⟨0, 0, 0, 0, M⟩⟩
  let disk : Device := ⟨64 + M * 4104, fun _ => 0, [], by omega⟩
  have h₀ : bdrRingBufferInit (fun _ => 0) M = some rb₀ := by
    rw [bdrRingBufferInit, if_neg (by omega)]
  have hbytes := toNat_bufferByteSize h32 (show rb₀.bufferInfo.maxWrites = M from rfl) 0
  have hne : (initInfo (bdrGetTargetInfo 4096 rb₀) 0).bufferByteSize ≠ 0 := by
    intro h0
    rw [h0, UInt64.toNat_zero] at hbytes
    omega
  obtain ⟨j, hj⟩ := createJournal_of_le (initInfo (bdrGetTargetInfo 4096 rb₀) 0) disk rfl
    (by rw [hbytes]) hne
  have hcount := bufWritesCount_createJournal h32 h₀ rfl hj
  -- `M - 1` puts after the reset: all slots but one are taken, and the flag is down
  have hreset : Refines (P := 4096) (bdrRingBufferReset rb₀) .empty :=
    refines_reset (show 0 < M by omega)
  have hR := hreset.puts (List.replicate (M - 1) (zeroSectorPut 0)) (by
    rw [List.length_replicate]
    show 0 + (M - 1) < M
    omega)
  obtain ⟨hle, -⟩ := h _ rb₀ 0 disk j [] ((List.replicate (M - 1) (zeroSectorPut 0)).map .put) h₀
    rfl hj (by simp) (by rw [read_snd]; exact overflown_of_flags hR.flags)
  have hlen : (bdrBufferReadRoutine (ringRun rb₀
      ([] ++ .reset :: (List.replicate (M - 1) (zeroSectorPut 0)).map .put))).2.length = M - 1 := by
    rw [read_snd, List.nil_append, ringRun_cons]
    refine hR.length_eq.trans ?_
    rw [WindowQueue.pending_run_puts, WindowQueue.empty, List.nil_append, List.length_replicate]
  rw [hlen, hcount] at hle
  omega

/-! ### Small rings -/

/-- The writes of a window fit the server's slots. -/
theorem size_le_of_decodeWindow {ti : TargetInfo} {buf : Image UInt8} {bi : BufferInfo}
    {l : List (Put 4096)} {ws : List WriteInfo} (hw : decodeWindow ti buf bi = some ws)
    (h : (decodeWindow ti buf bi).map (·.map effective) = some (l.map writeInfo)) :
    ws.length = l.length ∧ ∀ w ∈ ws, w.size.toNat ≤ 4096 := by
  rw [hw, Option.map_some, Option.some.injEq] at h
  refine ⟨by simpa using congrArg List.length h, fun w hmem => ?_⟩
  have : effective w ∈ l.map writeInfo := h ▸ List.mem_map_of_mem hmem
  obtain ⟨a, -, ha⟩ := List.mem_map.mp this
  have hsize : w.size = a.size := by
    have := congrArg BlockInfo.size ha
    exact this.symm
  rw [hsize]
  exact a.size_le.trans (Nat.sub_le _ _)

theorem storeBatch_succeeds {clientInfo : InitInfo} {disk : Device} {j : Journal}
    (hp : disk.plan = []) (h : createJournal clientInfo disk = .ok j) {ws : List WriteInfo}
    (hlen : ws.length ≤ j.header.bufWritesCount.toNat) (hsize : ∀ w ∈ ws, w.size.toNat ≤ 4096) :
    ∃ j', storeBatch ws j = .ok () j' := by
  obtain ⟨h64, jrn, hnew, hd, rfl⟩ := createJournal_ok hp h
  obtain ⟨hl, -, -, hwo, hco⟩ := newJournal_ok hnew h64 (by decide) (by decide)
  rw [← hd] at hl hp
  have hslot : jrn.header.bufWrites.slot = 4108 := by
    rw [Header.bufWrites, (newJournal_eq_ok hnew).2.1]
    rfl
  suffices hs : Succeeds (storeBatch ws) (jrn.withHeader jrn.header.setInvalidFlag)
      fun _ _ => True by
    obtain ⟨_, j', hj', -⟩ := succeeds_iff.mp hs
    exact ⟨j', hj'⟩
  refine Ends.get_bind (Ends.bind (resetTo_succeeds (j := jrn.withHeader _)
    ⟨hl.bufWrites, hl.corrBlocks⟩ hp hwo.le hco.le ?_ ?_) ?_)
  · exact fun i hi hle => absurd (hwo.ge.trans hle) (Nat.not_le.mpr hi)
  · exact fun i hi hle => absurd (hco.ge.trans hle) (Nat.not_le.mpr hi)
  rintro _ j₂ ⟨hj₂, -, hh₂, -⟩
  have hfit : FitsIn j₂.header (ws.map .bufferWrite) := by
    rw [hh₂]
    refine ⟨fun w hw => ?_, by simp, by rw [bufferWrites_map]; exact hlen, by simp⟩
    rw [bufferWrites_map] at hw
    have := hsize w hw
    show 12 + w.size.toNat ≤ jrn.header.bufWrites.slot
    omega
  have happ := appends_ends hj₂ hfit
  rw [forM_map_append] at happ
  refine happ.mono (fun _ _ _ => trivial) ?_
  rintro _ _ ⟨e, he, hbad⟩
  rw [bufferWrites_map, correctBlocks_map, List.append_nil] at he
  have h₁ := hsize e he
  have h₂ := dataSize_le_size e
  omega

/-- **The journal can hold what the ring delivers, for rings of up to 1027 writes**: a window of
`M - 1` writes fits the `4104 M / 4108` slots exactly when `M ≤ 1027`. -/
theorem holdsBatches_iff {M : ℕ} (hM : 1 ≤ M) (h32 : M < 2 ^ 32) : HoldsBatches M ↔ M ≤ 1027 := by
  constructor
  · intro h
    by_contra hlt
    exact not_holdsBatches (Nat.not_le.mp hlt) h32 h
  · intro hle mem rb₀ deviceSize disk j pre post h₀ hp hj hpost rb bi hf
    have hbi : bi = rb.bufferInfo := read_snd rb
    rw [hbi] at hf
    have hR := refines_after_reset h₀ hpost hf
    have hmax : rb.bufferInfo.maxWrites = M := by rw [maxWrites_ringRun, maxWrites_init h₀]
    have hroom : _ < rb.bufferInfo.maxWrites := hR.room
    have hlen : bi.length = (WindowQueue.empty.run post).pending.length := by
      rw [hbi]
      exact hR.length_eq
    have htotal : (WindowQueue.empty.run post).toList.length =
        (WindowQueue.empty.run post).window.length +
          (WindowQueue.empty.run post).pending.length := List.length_append
    have hcount := bufWritesCount_createJournal h32 h₀ hp hj
    have hfits : bi.length ≤ j.header.bufWritesCount.toNat := by
      rw [hcount, hlen]
      omega
    refine ⟨hfits, fun ws hws => ?_⟩
    have hdec := decodeWindow_of_refines hR
      (show rb.bufferInfo.maxWrites = rb₀.bufferInfo.maxWrites from maxWrites_ringRun ..)
    rw [← hbi] at hdec
    obtain ⟨hl, hsize⟩ := size_le_of_decodeWindow hws hdec
    exact storeBatch_succeeds hp hj (by rwa [hl, ← hlen]) hsize

theorem holdsBatches_1027 : HoldsBatches 1027 :=
  (holdsBatches_iff (by decide) (by decide)).mpr le_rfl

/-- The smallest ring whose windows overflow the journal. -/
theorem not_holdsBatches_1028 : ¬ HoldsBatches 1028 := not_holdsBatches (by decide) (by decide)

end Bdr.System
