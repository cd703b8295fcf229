import Bdr.Client.Flow

/-!
# Client — the records it sends

A buffer write that the client sends has all its bytes: `ProcessBufferInfo` sends a page with every
record, and the kernel has put no more than a page into a slot.  Whoever reads `Data[:Size]` finds
what was captured.
-/

namespace Bdr.Client

open Kern

variable {P : ℕ}

/-- The write has the bytes that its size announces, and no more than a page. -/
structure Whole (P : ℕ) (w : WriteInfo) : Prop where
  size_le : w.size.toNat ≤ w.data.length
  length_le : w.data.length ≤ P

/-- The record that `ProcessBufferInfo` is about to send is whole. -/
def Processing.Whole (P : ℕ) : Processing → Prop
  | .encoding wi | .refused wi => Client.Whole P wi
  | _ => True

/-- The records in the hands of the client's goroutines are whole. -/
def Records (P : ℕ) (c : Client) : Prop := ∀ w ∈ c.windows, w.pc.Whole P

/-- The buffer writes among the packets are whole. -/
def WholeWrites (P : ℕ) (ps : List Packet) : Prop :=
  ∀ wi, Packet.payloadBufferWrite wi ∈ ps → Whole P wi

section Records
variable {cfg : ClientConfig} {c c' : Client} {ps qs : List Packet} {m : ClientMove P}
variable {rb : RingBuffer} {q : WindowQueue (Put P)} {w : Window} {g : Capture P}

theorem WholeWrites.append (h : WholeWrites P ps) (h' : WholeWrites P qs) :
    WholeWrites P (ps ++ qs) := fun wi hwi => (List.mem_append.mp hwi).elim (h wi) (h' wi)

/-- Packets that carry no writes. -/
theorem wholeWrites_of_nil (h : writes ps = []) : WholeWrites P ps := by
  intro wi hwi
  obtain ⟨l, r, rfl⟩ := List.append_of_mem hwi
  simp at h

/-- The entry at hand has all its bytes. -/
theorem Outgoing.whole (h : Outgoing rb q (some w)) (hi : w.next < q.window.length)
    {wi : WriteInfo}
    (hd : Client.decodeSlot (bdrGetTargetInfo P rb) rb.buffer w.info w.next = some wi) :
    Whole P wi := by
  have hof := h.window w rfl
  have hget : q.toList[w.next]? = some q.window[w.next] := by
    rw [WindowQueue.toList, List.getElem?_append_left hi, List.getElem?_eq_getElem hi]
  have hslot := h.refines.holds w.next _ hget
  rw [← hof.offset, ← hof.maxWrites] at hslot
  have hmap := byteOffset_in_mapping P h.refines.maxWrites_pos hof.maxWrites w.next
  obtain ⟨wi', hwi, heff⟩ := decodeSlot_of_slotHolds rfl rfl hmap hslot
  cases hwi.symm.trans hd
  refine ⟨?_, ?_⟩
  · have hsize : wi.size = q.window[w.next].size := congrArg BlockInfo.size heff
    have hdata : wi.data.take wi.size.toNat = q.window[w.next].data :=
      congrArg BlockInfo.data heff
    have hlen := congrArg List.length hdata
    rw [Put.length_data, ← hsize, List.length_take] at hlen
    omega
  · simp only [Client.decodeSlot] at hd
    obtain ⟨-, hd⟩ := Option.ite_none_right_eq_some.mp hd
    obtain ⟨-, hd⟩ := Option.ite_none_right_eq_some.mp hd
    rw [← Option.some.inj hd]
    exact List.length_take_le _ _

/-- A step of `ProcessBufferInfo` sends the record it has, or decodes the next one. -/
theorem Outgoing.processWhole {s s' : Shared} {mainLoop sent : Bool} {next : Option Window}
    (h : Outgoing s.ring q (some w)) (hw : w.pc.Whole P)
    (hs : s.processStep (bdrGetTargetInfo P s.ring) mainLoop sent w = some (s', ps, next)) :
    (∀ w' ∈ next, w'.pc.Whole P) ∧ WholeWrites P ps := by
  have hnil : WholeWrites P [] := by rintro wi ⟨⟩
  have hholds := (h.window w rfl).holds
  obtain ⟨info, i, pc⟩ := w
  cases pc with
  | looping =>
      cases hs
      refine ⟨fun w' hw' => ?_, hnil⟩
      dsimp only at hw'
      split at hw' <;> cases hw'
      trivial
  | checking call =>
      obtain ⟨⟨p, r⟩, -, heq⟩ := Option.map_eq_some_iff.mp hs
      cases heq
      refine ⟨fun w' hw' => ?_, hnil⟩
      cases r with
      | inl call' =>
          cases hw'
          trivial
      | inr paused =>
          dsimp only at hw'
          split at hw' <;> cases hw'
          trivial
  | decoding =>
      obtain ⟨wi, hwi, heq⟩ := Option.map_eq_some_iff.mp hs
      cases heq
      refine ⟨fun w' hw' => ?_, hnil⟩
      cases hw'
      exact h.whole hholds hwi
  | encoding wi =>
      simp only [Shared.processStep] at hs
      split at hs
      · cases hs
        refine ⟨fun w' hw' => by cases hw'; trivial, fun wi' hwi' => ?_⟩
        cases List.mem_singleton.mp hwi'
        exact hw
      · cases hs
        exact ⟨fun w' hw' => by cases hw'; exact hw, hnil⟩
  | refused wi =>
      cases hs
      refine ⟨fun w' hw' => ?_, hnil⟩
      dsimp only at hw'
      split at hw' <;> cases hw'
      exact hw

/-- **What the client sends has all its bytes.** -/
theorem Records.move (h : Records P c) (hf : Flow cfg.targetInfo c g) (hm : c.Orderly m)
    (hs : c.move cfg m = some (c', ps)) : Records P c' ∧ WholeWrites P ps := by
  rcases move_flows hs with ⟨w', next, hp⟩ | hi
  · obtain ⟨⟨mainLoop, sent, hstep, -⟩, -, l, r, hwin, hwin'⟩ := hp
    obtain ⟨q, v, hv, hout, -⟩ := hf.ring
    rw [hwin] at hv
    -- the window is the only one
    obtain ⟨rfl, rfl, rfl⟩ : l = [] ∧ r = [] ∧ v = some w' := by
      cases v with
      | none => simp at hv
      | some v =>
          cases l with
          | nil => simpa [eq_comm, and_comm] using hv
          | cons u l => simp at hv
    rw [hf.target] at hstep
    obtain ⟨hnext, hps⟩ := hout.processWhole (h w' (by rw [hwin]; simp)) hstep
    refine ⟨fun u hu => hnext u ?_, hps⟩
    rw [hwin'] at hu
    simpa [eq_comm] using hu
  · refine ⟨?_, wholeWrites_of_nil hi.writes⟩
    by_cases hop : c.ringOp m = some .read
    · intro u hu
      rw [hi.read hop (hm.alone (.inl hop)), readWindow] at hu
      split at hu
      · cases hu
      · split at hu
        · cases hu
        · cases List.mem_singleton.mp hu
          trivial
    · rw [Records, hi.windows hop]
      exact h

end Records

end Bdr.Client
