import Bdr.System.Exchange

/-!
# System — how a scan begins

`Run` resets the ring, holds the monitor and sends the command; the server, which has received
nothing before, receives it.  The client cannot tell whether it has been received
(`Captured.step_behind`): until then it is where it would be if the server had received it and not
answered yet.
-/

namespace Bdr.System

open Client Server Kern
open Replication (Seen)

variable {P : ℕ}

/-- `Run` is about to send the command. -/
structure Opening (command : Command) (cfg : Config) (t : Captured P) : Prop where
  connected : t.system.connected = true
  toClient : t.toClient = []
  toServer : t.toServer = []
  flow : Flow cfg.client.targetInfo t.client t.capture
  client : t.client.Commanding command
  sent : t.capture.sent = []

/-- The server has received nothing: the command is still to be sent, or on its way. -/
structure Begins (command : Command) (cfg : Config) (target : Device) (t : Captured P) : Prop where
  session : t.session.Fresh
  target_eq : t.session.machine.target = target
  stage : Opening command cfg t ∨ ∃ t₀ cut, t = t₀.behind [command.packet] ∧
    Exchange cfg target .called .silent (tiling cfg.serverHash target hashedSpaceBase) cut [] t₀

section Begins
variable {command : Command} {cfg : Config} {target : Device} {t t' : Captured P}

theorem begins_start {mem : Image UInt8} {M : ℕ} {rb : RingBuffer}
    (hrb : bdrRingBufferInit mem M = some rb) (hti : cfg.client.targetInfo = bdrGetTargetInfo P rb)
    (source : Image UInt8) (machine : Machine) :
    Begins command cfg machine.target
      (.start (P := P) (.start (some command) rb source) machine) where
  session := Session.fresh_start machine
  target_eq := rfl
  stage := .inl {
    connected := rfl
    toClient := rfl
    toServer := rfl
    flow := ⟨hti, rfl, .empty, none, rfl, ⟨refines_init hrb, by rintro _ ⟨⟩⟩, rfl⟩
    client := commanding_start command rb source
    sent := rfl }

/-- The whole replica is still to be hashed. -/
theorem ledger_start (cfg : Config) (target : Device) (Q : ℕ → UInt8 → Prop)
    (hto : t.toServer = []) (hfrom : t.toClient = []) :
    Ledger target.size Q target.bytes
      (t.hashWeight .called (tiling cfg.serverHash target hashedSpaceBase)) (t.blockWeight .called)
      [] := by
  have hhash : ∀ p, t.hashWeight .called (tiling cfg.serverHash target hashedSpaceBase) p =
      if p < target.size then 1 else 0 := by
    intro p
    simp [Captured.hashWeight, hashWeight_tiling, hfrom, Client.hashWeight, ClientStage.compares]
  have hblock : ∀ p, t.blockWeight .called p = 0 := by
    intro p
    simp [Captured.blockWeight, hto, Client.blockWeight, ClientStage.compares]
  refine ⟨fun p => ?_, by rintro b ⟨⟩, fun p hp hzero => ?_⟩
  · rw [hhash, hblock]
    split <;> simp
  · rw [hhash, if_pos hp] at hzero
    cases hzero

theorem Opening.clientMoves (h : Opening command cfg t) (hcommand : command ≠ .fullReplicate)
    (target : Device) {m : ClientMove P} (hm : t.attentive cfg target.bytes m)
    (hs : t.step cfg (.client m) = some t') :
    t'.session = t.session ∧ (Opening command cfg t' ∨
      ∃ t₀ cut, t' = t₀.behind [command.packet] ∧
        Exchange cfg target .called .silent (tiling cfg.serverHash target hashedSpaceBase) cut []
          t₀) := by
  obtain ⟨c, ps, toClient, hmove, hin, rfl⟩ := Captured.step_client hs
  have hroom : ∀ a, m = .write a → (bdrRingBufferPut t.client.shared.ring a).2 = true := by
    rintro a rfl
    exact hm.1
  have hord := h.client.orderly hroom
  obtain ⟨-, rfl⟩ := hin.of_receiving h.connected h.toClient h.client.listener hmove
  have hflow := h.flow.move hord hmove
  have hpush : push t.system.connected t.toServer ps = ps := by
    rw [h.connected, push_true, h.toServer, List.nil_append]
  refine ⟨rfl, ?_⟩
  rcases h.client.move hmove with ⟨hc, rfl⟩ | ⟨hchan, rfl, ⟨rfl, hrun⟩, rfl⟩
  · refine .inl ⟨h.connected, rfl, hpush, hflow, hc, ?_⟩
    show (t.capture.after t.client m []).sent = []
    by_cases hop : t.client.ringOp m = some .reset
    · simp [Capture.after, hop]
    · exact (Capture.sent_after hmove hop).trans (by simp [h.sent])
  · -- the command has returned
    have hop : t.client.ringOp (.run : ClientMove P) = none := by
      simp [Client.ringOp, hrun, StartCall.ringOp]
    have hwrites : writes [command.packet] = [] := by cases command <;> rfl
    have hcapture : t.capture.after t.client .run [command.packet] = t.capture := by
      simp only [Capture.after, hop, hwrites, List.append_nil]
    rw [if_neg hcommand] at hflow ⊢
    rw [hcapture] at hflow ⊢
    refine .inr ⟨⟨⟨{ t.client with run := none }, t.session, [], [], t.system.connected⟩,
      t.capture⟩, t.capture.captured.length, ?_, ?_⟩
    · rw [hpush]
      rfl
    · exact {
        connected := h.connected
        flow := hflow
        scanning := h.client.scanning hchan
        cut_le := le_rfl
        unread := fun _ => rfl
        caught := trivial
        owed := fun info => of_mem_tiling
        down := .silent
        early := fun _ => ⟨rfl, rfl⟩
        up := .running (by simp) (by rintro p ⟨⟩)
        ledger := ledger_start cfg target _ rfl rfl
        sent := h.sent }

/-- The client moves before the server has received the command. -/
theorem Begins.clientMoves (h : Begins command cfg target t) (hcommand : command ≠ .fullReplicate)
    (hsize : target.size = cfg.client.diskSize.toNat) (hn : 0 < cfg.client.numWorkers)
    {m : ClientMove P} (hm : t.attentive cfg target.bytes m)
    (hs : t.step cfg (.client m) = some t') : Begins command cfg target t' := by
  rcases h.stage with hopen | ⟨t₀, cut, rfl, hex⟩
  · obtain ⟨hsession, hstage⟩ := hopen.clientMoves hcommand target hm hs
    exact ⟨hsession ▸ h.session, hsession ▸ h.target_eq, hstage⟩
  · rw [Captured.step_behind hex.connected] at hs
    obtain ⟨t₁, hs₁, rfl⟩ := Option.map_eq_some_iff.mp hs
    obtain ⟨k, cut', ps, hex', hsession, -⟩ := hex.clientMoves hsize hn hm
      (fun _ _ => hex.scanning.listener.holdsToken (by simp)) hs₁
    obtain ⟨rfl, -⟩ := hex'.down.of_silent
    refine ⟨?_, ?_, .inr ⟨t₁, cut', rfl, hex'⟩⟩
    · exact hsession ▸ h.session
    · exact hsession ▸ h.target_eq

/-- **The server receives the command.** -/
theorem Begins.serverMoves (h : Begins command cfg target t) {m : SessionMove}
    (hs : t.step cfg (.server m) = some t') :
    t'.session.machine = t.session.machine ∧ (Begins command cfg target t' ∨
      m = .receive command.packet ∧ t'.session = t.session.receive command.packet ∧
        ∃ cut, Exchange cfg target .called .silent (tiling cfg.serverHash target hashedSpaceBase)
          cut [] t') := by
  obtain ⟨ps, hstep⟩ := Captured.serverStep hs
  have hmove := hstep.move
  by_cases hrecv : Session.received m = []
  · obtain ⟨rfl, hmachine, -, hfresh⟩ := h.session.waits hrecv hmove
    have hto : t'.toServer = t.toServer := by
      rw [hstep.toServer, hrecv]
      rfl
    have hfrom : t'.toClient = t.toClient := by rw [hstep.toClient, push_nil]
    refine ⟨hmachine, .inl ⟨hfresh, hmachine ▸ h.target_eq, ?_⟩⟩
    rcases h.stage with hopen | ⟨t₀, cut, rfl, hex⟩
    · exact .inl ⟨hstep.connected.trans hopen.connected, hfrom.trans hopen.toClient,
        hto.trans hopen.toServer, by rw [hstep.client, hstep.capture]; exact hopen.flow,
        by rw [hstep.client]; exact hopen.client, by rw [hstep.capture]; exact hopen.sent⟩
    · exact .inr ⟨_, cut, Captured.eq_behind hto,
        hex.congr hstep.client rfl hfrom hstep.connected hstep.capture⟩
  · cases m with
    | receive packet =>
        have hto : t.toServer = packet :: t'.toServer := hstep.toServer
        obtain ⟨-, heq⟩ := Option.ite_none_right_eq_some.mp hmove
        obtain ⟨hsession, rfl⟩ := Prod.mk.inj (Option.some.inj heq)
        rcases h.stage with hopen | ⟨t₀, cut, rfl, hex⟩
        · cases hto.symm.trans hopen.toServer
        · obtain ⟨rfl, htail⟩ : command.packet = packet ∧ t₀.toServer = t'.toServer :=
            List.cons.inj hto
          refine ⟨?_, .inr ⟨rfl, hsession.symm, cut, ?_⟩⟩
          · rw [← hsession]
            cases command <;> rfl
          · exact hex.congr hstep.client htail.symm (by rw [hstep.toClient, push_nil]; rfl)
              hstep.connected hstep.capture
    | handler | writer | corrector | journaler | replicator | startHash | hash =>
        exact absurd rfl hrecv

end Begins

end Bdr.System
