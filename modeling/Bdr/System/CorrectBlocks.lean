import Bdr.System.Recovery

/-!
# System — CorrectBlocks

Whether a correct block finds the server in a state in which it is taken.  The server has one
variable for its state, and the packets that start or end a recovery set it without looking at it:
when two recoveries overlap, the end of one takes the server to `StateWriting` while the blocks of
the other are still to come, and these are dropped.

As long as the client starts a recovery only when none is under way on the connection, and takes no
work over to a new connection, the blocks are taken.  There is then one scan at a time, and its
token is in one place: the command on its way to the server, `HandleClient`, `HashDisk`, the report
on its way to the client, or the listener that finishes the scan.
-/

namespace Bdr.System

open Client Server Kern

/-! ### The packets under way -/

/-- Every correct block among the packets comes when the server takes it. -/
def Taken : Bool → List Packet → Prop
  | _, [] => True
  | b, p :: ps => (∀ block, p = .payloadCorrectBlock block → b = true) ∧ Taken (modeAfter b p) ps

theorem modeAfter_mono {b b' : Bool} (hb : b = true → b' = true) (p : Packet) :
    modeAfter b p = true → modeAfter b' p = true := by
  cases p <;> first | exact hb | exact id

theorem foldl_modeAfter_mono {ps : List Packet} {b b' : Bool} (hb : b = true → b' = true) :
    ps.foldl modeAfter b = true → ps.foldl modeAfter b' = true := by
  induction ps generalizing b b' with
  | nil => exact hb
  | cons p ps ih => exact ih (modeAfter_mono hb p)

theorem Taken.mono {ps : List Packet} {b b' : Bool} (hb : b = true → b' = true)
    (h : Taken b ps) : Taken b' ps := by
  induction ps generalizing b b' with
  | nil => trivial
  | cons p ps ih => exact ⟨fun block hp => hb (h.1 block hp), ih (modeAfter_mono hb p) h.2⟩

theorem taken_append {ps qs : List Packet} {b : Bool} :
    Taken b (ps ++ qs) ↔ Taken b ps ∧ Taken (ps.foldl modeAfter b) qs := by
  induction ps generalizing b with
  | nil => simp [Taken]
  | cons p ps ih => simp [Taken, ih, and_assoc]

theorem foldl_modeAfter_of_plain {ps : List Packet} (h : ∀ p ∈ ps, Plain p) (b : Bool) :
    ps.foldl modeAfter b = b ∧ Taken b ps := by
  induction ps with
  | nil => exact ⟨rfl, trivial⟩
  | cons p ps ih =>
      have hp := h p List.mem_cons_self
      have hb : modeAfter b p = b := by cases p <;> first | rfl | cases hp
      obtain ⟨h₁, h₂⟩ := ih fun q hq => h q (List.mem_cons_of_mem p hq)
      rw [List.foldl_cons, Taken, hb]
      refine ⟨h₁, ?_, h₂⟩
      rintro block rfl
      cases hp

/-- No hash comes after a report of completion. -/
def Ordered (ps : List Packet) : Prop :=
  ∀ l l', ps = l ++ .infoHashingCompleted :: l' → ∀ h, .payloadHash h ∉ l'

theorem Ordered.tail {p : Packet} {ps : List Packet} (h : Ordered (p :: ps)) : Ordered ps :=
  fun l l' heq => h (p :: l) l' (by rw [heq]; rfl)

theorem Ordered.append {ps qs : List Packet} (h : Ordered ps)
    (hq : ∀ info, .payloadHash info ∈ qs →
      qs = [.payloadHash info] ∧ .infoHashingCompleted ∉ ps) : Ordered (ps ++ qs) := by
  intro l l' heq info hin
  by_cases hh : .payloadHash info ∈ qs
  · obtain ⟨rfl, hps⟩ := hq info hh
    have : Packet.infoHashingCompleted ∈ ps ++ [.payloadHash info] := by rw [heq]; simp
    simp [hps] at this
  · rcases List.append_eq_append_iff.mp heq with ⟨r, rfl, hr⟩ | ⟨r, rfl, hr⟩
    · exact hh (by rw [hr]; simp [hin])
    · cases r with
      | nil =>
          rw [List.nil_append] at hr
          exact hh (by rw [← hr]; simp [hin])
      | cons p r =>
          obtain ⟨rfl, rfl⟩ := List.cons.inj hr
          rcases List.mem_append.mp hin with hin | hin
          · exact h l r rfl info hin
          · exact hh hin

/-! ### Runs -/

/-- The recovery the client has started on the connection and not completed. -/
inductive Recovery where
  | none
  | scan
  | replication
  deriving DecidableEq, Repr

/-- A packet the client sends starts a recovery, or ends the present one. -/
def Recovery.note (r : Recovery) : Packet → Recovery
  | .cmdStartHashing | .cmdStartFullScan => .scan
  | .infoStartReplication => .replication
  | .infoHashingCompleted => if r = .scan then .none else r
  | .infoReplicationCompleted => if r = .replication then .none else r
  | _ => r

/-- A system, and the recovery that is under way. -/
structure Watched where
  system : System
  recovery : Recovery

section Watched
variable (cfg : Config) {P : ℕ}

def Watched.record (w : Watched) : Move P → Recovery
  | .client m => (sent cfg w.system.client m).foldl .note w.recovery
  | .reconnect _ => .none
  | _ => w.recovery

def Watched.step (w : Watched) (m : Move P) : Option Watched :=
  (w.system.step cfg m).map (⟨·, w.record cfg m⟩)

/-- A recovery is started only when none is under way on the connection, unless `ProcessBuffer`
starts the scan again; and the client connects again only when it takes no work of a recovery over
to the new connection. -/
def careful (w : Watched) : Move P → Prop
  | .client m => w.system.connected = true → ∀ p ∈ sent cfg w.system.client m, IsCommand p →
      w.recovery = .none ∨ Restarts w.system.client m
  | .reconnect _ => w.system.client.hashing.Quiet ∧ w.system.client.replication.phase ≠ .running
  | _ => True

instance (w : Watched) : (m : Move P) → Decidable (careful cfg w m)
  | .client _ => inferInstanceAs (Decidable (_ → ∀ p ∈ _, _ → _))
  | .reconnect _ => inferInstanceAs (Decidable (_ ∧ _))
  | .server _ | .disconnect => inferInstanceAs (Decidable True)

end Watched

/-- A correct block that `HandleClient` is about to receive is not dropped. -/
def Heard (s : System) : Prop :=
  ∀ block ps, s.session.handler = .receiving → s.toServer = .payloadCorrectBlock block :: ps →
    s.session.state = .hashing ∨ s.session.state = .destroyingReplica ∨
      s.session.state = .journalOverflow

/-- The scans that are under way, from the command to the end of `ProcessBuffer`. -/
def tokens (s : System) : ℕ :=
  s.toServer.countP IsScan + serverTokens s.session + s.toClient.count .infoHashingCompleted +
    (finishing s.client.listener).toNat

/-- Whether the server takes correct blocks once it has received what is under way. -/
def endMode (s : System) : Bool := s.toServer.foldl modeAfter (mode s.session)

/-- What the recovery under way says about the two sides. -/
structure Live (r : Recovery) (s : System) : Prop where
  tokens : System.tokens s ≤ if r = .scan then 1 else 0
  mode : r = .scan → endMode s = true
  running : s.client.replication.phase = .running → r = .replication
  hashes : ∀ h, .payloadHash h ∈ s.toClient → r = .scan
  enqueueing : ∀ h, s.client.listener = .enqueueing h → r = .scan
  quiet : r = .scan ∨ s.client.hashing.Quiet
  finishing : System.finishing s.client.listener = true → ∀ h, .payloadHash h ∉ s.toClient
  ordered : Ordered s.toClient

/-- What holds throughout. -/
structure Accord (w : Watched) : Prop where
  taken : Taken (System.mode w.system.session) w.system.toServer
  live : w.system.connected = true → Live w.recovery w.system

section Steps
variable {r : Recovery} {s : System} {c' : Client} {ps : List Packet} {P : ℕ} {m : ClientMove P}

theorem foldl_note_of_plain {ps : List Packet} (h : ∀ p ∈ ps, Plain p) (r : Recovery) :
    ps.foldl .note r = r := by
  induction ps with
  | nil => rfl
  | cons p ps ih =>
      have hp := h p List.mem_cons_self
      have hr : r.note p = r := by cases p <;> first | rfl | cases hp
      rw [List.foldl_cons, hr]
      exact ih fun q hq => h q (List.mem_cons_of_mem p hq)

theorem isScan_of_plain {p : Packet} (h : Plain p) : IsScan p = false := by
  cases p <;> first | rfl | cases h

/-- The client's packets after those under way. -/
theorem endMode_send (s : System) (c' : Client) (ps : List Packet) :
    endMode { s with client := c', toServer := s.toServer ++ ps } =
      ps.foldl modeAfter (endMode s) := by
  simp [endMode]

theorem tokens_send (s : System) (c' : Client) (ps : List Packet) :
    tokens { s with client := c', toServer := s.toServer ++ ps } +
        (finishing s.client.listener).toNat =
      tokens s + ps.countP IsScan + (finishing c'.listener).toNat := by
  simp only [tokens, List.countP_append]
  omega

theorem Keeps.finishing_le {c c' : Client} (h : Keeps c c') :
    (System.finishing c'.listener).toNat ≤ (System.finishing c.listener).toNat := by
  cases hf : System.finishing c'.listener with
  | false => exact Nat.zero_le _
  | true => rw [h.finishing hf]

/-- The client goes on, and sends packets that leave the recovery as it is. -/
theorem Live.keep (h : Live r s) (hk : Keeps s.client c') (hps : ∀ p ∈ ps, IsScan p = false)
    (hmode : r = .scan → ps.foldl modeAfter (endMode s) = true) :
    Live r { s with client := c', toServer := s.toServer ++ ps } where
  tokens := by
    have := tokens_send s c' ps
    rw [List.countP_eq_zero.mpr (by simpa using hps)] at this
    have := hk.finishing_le
    exact (by omega : _ ≤ System.tokens s).trans h.tokens
  mode := fun hr => (endMode_send s c' ps).trans (hmode hr)
  running := fun hr => h.running (hk.running hr)
  hashes := h.hashes
  enqueueing := fun info hl => h.enqueueing info (hk.enqueueing info hl)
  quiet := h.quiet.imp_right hk.quiet
  finishing := fun hf => h.finishing (hk.finishing hf)
  ordered := h.ordered

/-- What a recovery that is over says. -/
theorem Live.over (h : Live r s) (hs : r ≠ .scan) : System.tokens s = 0 ∧
    (∀ info, .payloadHash info ∉ s.toClient) ∧ s.client.hashing.Quiet := by
  refine ⟨?_, fun info hin => hs (h.hashes info hin), h.quiet.resolve_left hs⟩
  have := h.tokens
  rwa [if_neg hs, Nat.le_zero] at this

theorem Live.client (h : Live r s) (he : Effect m s.client c' ps)
    (hc : ∀ p ∈ ps, IsCommand p → r = .none ∨ Restarts s.client m) :
    Live (ps.foldl .note r) { s with client := c', toServer := s.toServer ++ ps } := by
  cases he with
  | plain hk hps =>
      rw [foldl_note_of_plain hps]
      refine h.keep hk (fun p hp => isScan_of_plain (hps p hp)) fun hr => ?_
      rw [(foldl_modeAfter_of_plain hps _).1]
      exact h.mode hr
  | enqueue info hl hl' hrep =>
      -- only a scan has hashes to compare
      have hr := h.enqueueing info hl
      subst hr
      have htok := tokens_send s c' []
      rw [hl, hl'] at htok
      exact {
        tokens := Nat.le_trans (Nat.le_of_eq htok) h.tokens
        mode := fun hr => (endMode_send s c' []).trans (h.mode hr)
        running := by rw [hrep]; exact h.running
        hashes := fun _ _ => rfl
        enqueueing := fun _ _ => rfl
        quiet := .inl rfl
        finishing := by rw [hl']; rintro ⟨⟩
        ordered := h.ordered }
  | correct block hk hq => exact h.keep hk (by simp [IsScan]) h.mode
  | completed hl hl' hq hrep =>
      have hfin : System.finishing s.client.listener = true := by rw [hl]; rfl
      have htok := tokens_send s c' [.infoHashingCompleted]
      rw [hl', hfin, show [Packet.infoHashingCompleted].countP IsScan = 0 from rfl] at htok
      have hr : r = .scan := by
        -- the listener that finishes has the token of a scan
        by_contra hr
        have := (h.over hr).1
        simp [System.tokens, hfin] at this
      subst hr
      have hle := h.tokens
      exact {
        tokens := by
          simp only [if_true, System.finishing, Bool.toNat_true, Bool.toNat_false] at htok hle
          simp only [List.foldl_cons, List.foldl_nil, Recovery.note, if_true]
          omega
        mode := by rintro ⟨⟩
        running := by
          intro hrun
          rw [hrep] at hrun
          cases h.running hrun
        hashes := fun info hin => absurd hin (h.finishing hfin info)
        enqueueing := by rw [hl']; rintro _ ⟨⟩
        quiet := .inr hq
        finishing := by rw [hl']; rintro ⟨⟩
        ordered := h.ordered }
  | replicated hk hrun hrun' =>
      -- no scan is under way beside a replication
      obtain rfl := h.running hrun
      obtain ⟨htok, hhash, hq⟩ := h.over (by simp)
      have : Live .replication { s with
          client := c'
          toServer := s.toServer ++ [.infoReplicationCompleted] } :=
        h.keep hk (by simp [IsScan]) (by rintro ⟨⟩)
      exact {
        tokens := this.tokens
        mode := by rintro ⟨⟩
        running := fun h => absurd h hrun'
        hashes := fun info hin => absurd hin (hhash info)
        enqueueing := fun info hl => by cases this.enqueueing info hl
        quiet := .inr (hk.quiet hq)
        finishing := this.finishing
        ordered := this.ordered }
  | scan command hne hk hre =>
      have hnote : [command.packet].foldl .note r = .scan := by
        cases command <;> first | rfl | exact absurd rfl hne
      have hscan : [command.packet].countP IsScan = 1 := by
        cases command <;> first | rfl | exact absurd rfl hne
      have htok := tokens_send s c' [command.packet]
      have hle := h.tokens
      have hfin := hk.finishing_le
      rw [hnote]
      exact {
        tokens := by
          -- nothing is under way, or the sender of the command has the only token
          rcases hc _ (List.mem_singleton.mpr rfl) (isCommand_packet command) with hr | hres
          · have := (h.over (by rw [hr]; simp)).1
            simp only [if_true]
            omega
          · obtain ⟨h₁, h₂⟩ := hre hres
            rw [h₁, h₂, hscan] at htok
            have hle : System.tokens s ≤ 1 := hle.trans (by split <;> simp)
            simp only [if_true, Bool.toNat_true, Bool.toNat_false] at htok ⊢
            omega
        mode := fun _ => by
          rw [endMode_send]
          cases command <;> first | rfl | exact absurd rfl hne
        running := by
          intro hrun
          rcases hc _ (List.mem_singleton.mpr rfl) (isCommand_packet command) with hr | hres
          · cases hr.symm.trans (h.running (hk.running hrun))
          · have hr := h.running (hk.running hrun)
            have := (h.over (by rw [hr]; simp)).1
            simp [System.tokens, (hre hres).1] at this
        hashes := fun _ _ => rfl
        enqueueing := fun _ _ => rfl
        quiet := .inl rfl
        finishing := fun hf => h.finishing (hk.finishing hf)
        ordered := h.ordered }
  | replicate hl hh hm =>
      have hr :=
        (hc _ (List.mem_singleton.mpr rfl) (isCommand_packet .fullReplicate)).resolve_right hm
      subst hr
      obtain ⟨htok, hhash, hq⟩ := h.over (by simp)
      have hsend := tokens_send s c' [.infoStartReplication]
      exact {
        tokens := by
          simp only [hl, htok, List.countP_singleton, IsScan] at hsend
          simp [Recovery.note] at hsend ⊢
          omega
        mode := by rintro ⟨⟩
        running := fun _ => rfl
        hashes := fun info hin => absurd hin (hhash info)
        enqueueing := fun info hl' => by cases h.enqueueing info (hl.symm.trans hl')
        quiet := .inr (by rw [hh]; exact hq)
        finishing := by rw [hl]; exact h.finishing
        ordered := h.ordered }

/-- A correct block is sent during a scan only. -/
theorem Live.taken (h : Live r s) (ht : Taken (System.mode s.session) s.toServer)
    (he : Effect m s.client c' ps) : Taken (System.mode s.session) (s.toServer ++ ps) := by
  refine taken_append.mpr ⟨ht, ?_⟩
  cases he with
  | plain hk hps => exact (foldl_modeAfter_of_plain hps _).2
  | enqueue => trivial
  | correct block hk hq => exact ⟨fun _ _ => h.mode (h.quiet.resolve_right hq), trivial⟩
  | completed => exact ⟨by rintro block ⟨⟩, trivial⟩
  | replicated => exact ⟨by rintro block ⟨⟩, trivial⟩
  | scan command =>
      refine ⟨fun block hb => ?_, trivial⟩
      cases command <;> cases hb
  | replicate => exact ⟨by rintro block ⟨⟩, trivial⟩

/-- The client is no further after a packet from the server, but for the scan it may finish. -/
theorem Live.deliver {p : Packet} (h : Live r s) (hp : s.toClient = p :: ps)
    (hl : s.client.listener = .receiving) :
    Live r { s with client := s.client.deliver p, toClient := ps } := by
  have hscan : ∀ info, .payloadHash info ∈ ps → r = .scan := fun info hin =>
    h.hashes info (by rw [hp]; exact List.mem_cons_of_mem p hin)
  have hord : Ordered ps := by
    have := h.ordered
    rw [hp] at this
    exact this.tail
  have hcount : System.tokens s = s.toServer.countP IsScan + serverTokens s.session +
      ps.count .infoHashingCompleted + if p = .infoHashingCompleted then 1 else 0 := by
    rw [System.tokens, hp, hl, List.count_cons]
    simp [System.finishing, Nat.add_assoc]
  -- a packet that does not make the listener finish a scan
  have key : ∀ c', System.finishing c'.listener = false →
      (∀ info, c'.listener = .enqueueing info → r = .scan) →
      c'.replication = s.client.replication → (s.client.hashing.Quiet → c'.hashing.Quiet) →
      Live r { s with client := c', toClient := ps } := by
    intro c' hf he hr hq
    exact {
      tokens := by
        refine Nat.le_trans ?_ h.tokens
        simp only [System.tokens, hf, Bool.toNat_false] at hcount ⊢
        omega
      mode := h.mode
      running := fun hrun => h.running (hr ▸ hrun)
      hashes := hscan
      enqueueing := he
      quiet := h.quiet.imp_right hq
      finishing := by rw [hf]; rintro ⟨⟩
      ordered := hord }
  have hclose : s.client.hashing.Quiet → s.client.closeHashQueue.hashing.Quiet :=
    InitHashing.Quiet.closeReaders
  have hsame : ∀ info, s.client.listener = .enqueueing info → r = .scan := by
    rw [hl]
    rintro info ⟨⟩
  cases p with
  | infoHashingCompleted =>
      exact {
        tokens := by
          refine Nat.le_trans (Nat.le_of_eq ?_) h.tokens
          rw [hcount, if_pos rfl]
          rfl
        mode := h.mode
        running := h.running
        hashes := hscan
        enqueueing := by rintro info ⟨⟩
        quiet := h.quiet.imp_right hclose
        finishing := fun _ => h.ordered [] ps (by rw [hp]; rfl)
        ordered := hord }
  | payloadHash info =>
      refine key _ rfl (fun _ _ => h.hashes info ?_) rfl id
      rw [hp]
      exact List.mem_cons_self
  | infoStartHashing => exact key _ rfl (by rintro info ⟨⟩) rfl hclose
  | errJournalOverflow => exact key _ rfl (by rintro info ⟨⟩) rfl hclose
  | errInit | errInvalidSizes | errJournalCreate => exact key _ rfl (by rintro info ⟨⟩) rfl id
  | _ => exact key s.client (by rw [hl]; rfl) hsame rfl id

theorem Live.server {t : Session} (h : Live r s) (he : ServerEffect s.session t ps) :
    Live r { s with session := t, toClient := s.toClient ++ ps } := by
  have htok := he.tokens
  have hle := h.tokens
  have hnew : ∀ info, .payloadHash info ∈ ps → r = .scan ∧
      System.finishing s.client.listener = false ∧ s.toClient.count .infoHashingCompleted = 0 := by
    intro info hin
    have hpos := (he.hashes info hin).2
    have hr : r = .scan := by
      by_contra hr
      have := (h.over hr).1
      simp only [System.tokens] at this
      omega
    rw [if_pos hr, System.tokens] at hle
    refine ⟨hr, ?_, by omega⟩
    cases hf : System.finishing s.client.listener with
    | false => rfl
    | true => rw [hf, Bool.toNat_true] at hle; omega
  exact {
    tokens := by
      refine Nat.le_trans ?_ hle
      simp only [System.tokens, List.count_append]
      omega
    mode := fun hr => foldl_modeAfter_mono he.mode (h.mode hr)
    running := h.running
    hashes := fun info hin =>
      (List.mem_append.mp hin).elim (h.hashes info) fun hin => (hnew info hin).1
    enqueueing := h.enqueueing
    quiet := h.quiet
    finishing := fun hf info hin => by
      rcases List.mem_append.mp hin with hin | hin
      · exact h.finishing hf info hin
      · rw [(hnew info hin).2.1] at hf
        cases hf
    ordered := h.ordered.append fun info hin =>
      ⟨(he.hashes info hin).1, List.count_eq_zero.mp (hnew info hin).2.2⟩ }

theorem Live.receive {p : Packet} (h : Live r s) (hp : s.toServer = p :: ps)
    (hr : s.session.handler = .receiving) :
    Live r { s with session := s.session.receive p, toServer := ps } where
  tokens := by
    refine Nat.le_trans (Nat.le_of_eq ?_) h.tokens
    simp only [System.tokens, hp, serverTokens_receive hr, List.countP_cons]
    cases IsScan p <;> simp
    omega
  mode := fun hs => by
    have := h.mode hs
    rwa [endMode, hp, List.foldl_cons, ← mode_receive hr] at this
  running := h.running
  hashes := h.hashes
  enqueueing := h.enqueueing
  quiet := h.quiet
  finishing := h.finishing
  ordered := h.ordered

end Steps

section Runs
variable {cfg : Config} {P : ℕ}

theorem accord_start (command : Option Command) (ring : RingBuffer) (source : Image UInt8)
    (machine : Machine) : Accord ⟨.start (.start command ring source) machine, .none⟩ where
  taken := trivial
  live := fun _ => {
    tokens := Nat.le_refl 0
    mode := by rintro ⟨⟩
    running := by rintro ⟨⟩
    hashes := by simp [start]
    enqueueing := by rintro info ⟨⟩
    quiet := .inr (InitHashing.quiet_start 0)
    finishing := by rintro ⟨⟩
    ordered := fun l l' heq => by simp [start] at heq }

/-- A move of the client. -/
theorem Accord.client {w w' : Watched} {m : ClientMove P} (h : Accord w)
    (hok : careful cfg w (.client m)) (hs : w.step cfg (.client m) = some w') : Accord w' := by
  obtain ⟨s', hstep, rfl⟩ := Option.map_eq_some_iff.mp hs
  obtain ⟨c, ps, toClient, hm, hin, rfl⟩ := step_client hstep
  have hsent : sent cfg w.system.client m = ps := by simp [sent, hm]
  simp only [careful, hsent] at hok
  simp only [Watched.record, hsent]
  have hgo : Effect m w.system.client c ps → toClient = w.system.toClient →
      Accord ⟨{ w.system with
        client := c
        toServer := push w.system.connected w.system.toServer ps
        toClient := toClient }, ps.foldl .note w.recovery⟩ := by
    rintro he rfl
    cases hc : w.system.connected with
    | false => exact ⟨h.taken, fun hc' => by simp [hc] at hc'⟩
    | true => exact ⟨(h.live hc).taken h.taken he, fun _ => (h.live hc).client he (hok hc)⟩
  cases m with
  | deliver packet =>
      obtain ⟨hl, heq⟩ := Option.ite_none_right_eq_some.mp (Option.ite_none_right_eq_some.mp hm).2
      cases heq
      rw [push_nil]
      exact ⟨h.taken, fun hc => (h.live hc).deliver hin hl⟩
  | eof =>
      obtain ⟨hc, rfl⟩ := hin
      rw [hc, push_false]
      exact ⟨h.taken, by rintro ⟨⟩⟩
  | dial => exact hin.elim
  | run => exact hgo (effect_move hm (by simp) (by simp) (by simp)) hin
  | monitor sent => exact hgo (effect_move hm (by simp) (by simp) (by simp)) hin
  | listener sent => exact hgo (effect_move hm (by simp) (by simp) (by simp)) hin
  | hashing m => exact hgo (effect_move hm (by simp) (by simp) (by simp)) hin
  | replication m => exact hgo (effect_move hm (by simp) (by simp) (by simp)) hin
  | write a => exact hgo (effect_move hm (by simp) (by simp) (by simp)) hin

/-- A move of the server. -/
theorem Accord.server {w w' : Watched} {m : SessionMove} (h : Accord w)
    (hs : w.step cfg (.server m : Move P) = some w') : Accord w' := by
  obtain ⟨s', hstep, rfl⟩ := Option.map_eq_some_iff.mp hs
  obtain ⟨t, ps, toServer, hm, hout, rfl⟩ := step_server hstep
  by_cases hr : ∃ packet, m = .receive packet
  · obtain ⟨packet, rfl⟩ := hr
    obtain ⟨hh, heq⟩ := Option.ite_none_right_eq_some.mp hm
    cases heq
    have htaken := h.taken
    rw [show w.system.toServer = packet :: toServer from hout] at htaken
    rw [push_nil]
    refine ⟨?_, fun hc => (h.live hc).receive hout hh⟩
    rw [show (Watched.mk _ _).system.session = w.system.session.receive packet from rfl,
      mode_receive hh]
    exact htaken.2
  · have he := serverEffect_move hm fun packet hp => hr ⟨packet, hp⟩
    have hto : toServer = w.system.toServer := by
      cases m <;> first | exact hout | exact absurd ⟨_, rfl⟩ hr
    subst hto
    refine ⟨h.taken.mono he.mode, fun hc => ?_⟩
    have hpush : push w.system.connected w.system.toClient ps = w.system.toClient ++ ps := by
      rw [show w.system.connected = true from hc, push_true]
    rw [hpush]
    exact (h.live hc).server he

theorem Accord.step {w w' : Watched} {m : Move P} (h : Accord w) (hok : careful cfg w m)
    (hs : w.step cfg m = some w') : Accord w' := by
  cases m with
  | client m => exact h.client hok hs
  | server m => exact h.server hs
  | disconnect =>
      cases hs
      exact ⟨h.taken, by rintro ⟨⟩⟩
  | reconnect machine =>
      obtain ⟨s', hstep, rfl⟩ := Option.map_eq_some_iff.mp hs
      obtain ⟨⟨c, ps⟩, hm, rfl⟩ := Option.map_eq_some_iff.mp hstep
      replace hm := (Option.ite_none_right_eq_some.mp hm).2
      obtain ⟨hq, hrun⟩ := hok
      have hfacts : c.hashing = w.system.client.hashing ∧
          c.replication = w.system.client.replication ∧ finishing c.listener = false ∧
          ∀ info, c.listener ≠ .enqueueing info := by
        unfold Client.dial at hm
        split at hm
        · cases hm
          split <;> exact ⟨rfl, rfl, rfl, by simp [setListener]⟩
        · cases hm
      obtain ⟨hh, hrep, hf, he⟩ := hfacts
      refine ⟨trivial, fun _ => ?_⟩
      exact {
        tokens := by simp [Watched.record, tokens, hf, Session.start, serverTokens, startsHash]
        mode := by rintro ⟨⟩
        running := fun h => absurd (hrep ▸ h) hrun
        hashes := by simp
        enqueueing := fun info hl => absurd hl (he info)
        quiet := .inr (hh ▸ hq)
        finishing := by rw [hf]; rintro ⟨⟩
        ordered := fun l l' heq => by simp at heq }

/-- **No correct block is dropped as long as recoveries do not overlap.**  If the client starts a
recovery only when none is under way on the connection (or `ProcessBuffer` starts the scan again)
and takes no work of one over to a new connection, then whenever a correct block reaches
`HandleClient` the server is in a state in which it is taken. -/
theorem heard_of_careful {command : Option Command} {ring : RingBuffer} {source : Image UInt8}
    {machine : Machine} {moves : List (Move P)} {w : Watched}
    (hrun : Run (Watched.step cfg) (careful cfg)
      ⟨.start (.start command ring source) machine, .none⟩ moves w) :
    Heard w.system := by
  have hinv := hrun.invariant (I := Accord) (fun _ _ _ => Accord.step)
    (accord_start command ring source machine)
  intro block ps hh hp
  have ht := hinv.taken
  rw [hp] at ht
  have hmode : mode w.system.session = true := ht.1 block rfl
  rw [mode, hh] at hmode
  cases hs : w.system.session.state <;> simp [TakesBlocks, hs] at hmode ⊢

/-- An empty ring of four slots. -/
def fourSlots : RingBuffer := ⟨fun _ => 0, ⟨0, 0, 0, 0, 4⟩⟩

/-- Both sides on a device of one byte, with one goroutine in each pool. -/
def oneByteConfig : Config where
  client := ⟨fun bs => UInt64.ofNat (leNat bs), 1, bdrGetTargetInfo 4096 fourSlots, 1⟩
  serverHash := fun bs => UInt64.ofNat (leNat bs)
  serverWorkers := 1

/-- The source holds a five. -/
def oneByteClient (command : Option Command) : Client := .start command fourSlots fun _ => 5

/-- The server hashes its one block. -/
def hashOneByte : List (Move 4096) :=
  [.server (.hash (.announce .ok)), .server (.hash .generator), .server (.hash .generator),
    .server (.hash (.reader 0 false)), .server (.hash (.reader 0 false)),
    .server (.hash (.reader 0 false)), .server (.hash (.reader 0 false)),
    .server (.hash (.hasher 0)), .server (.hash (.hasher 0)), .server (.hash (.hasher 0)),
    .server (.hash (.sender 0 .ok)), .server (.hash (.sender 0 .ok)),
    .server (.hash (.sender 0 .ok))]

/-- The client compares it, and sends its own. -/
def compareOneByte : List (Move 4096) :=
  [.client (.deliver .infoStartHashing), .client (.listener true),
    .client (.deliver (.payloadHash ⟨0, 1, 7⟩)), .client (.listener true),
    .client (.hashing (.reader 0 false)), .client (.hashing (.reader 0 false)),
    .client (.hashing (.reader 0 false)), .client (.hashing (.reader 0 false)),
    .client (.hashing (.reader 0 false)), .client (.hashing (.worker 0)),
    .client (.hashing (.worker 0)), .client (.hashing (.worker 0)),
    .client (.hashing (.comparer 0)), .client (.hashing (.comparer 0)),
    .client (.hashing (.comparer 0))]

/-- `HandleClient` receives the command, and `HashDisk` is about to announce the scan. -/
def startOneByte : List (Move 4096) :=
  [.server (.receive .cmdStartHashing), .server (.handler .ok), .server (.handler .ok),
    .server .startHash, .server .startHash]

/-- `InitReplication` sends the one block and reports completion. -/
def replicateOneByte : List (Move 4096) :=
  [.client (.replication .generator), .client (.replication .generator),
    .client (.replication .generator), .client (.replication (.reader 0 false)),
    .client (.replication (.reader 0 false)), .client (.replication (.reader 0 false)),
    .client (.replication (.reader 0 false)), .client (.replication (.reader 0 false)),
    .client (.replication .closeSend), .client (.replication (.sender 0)),
    .client (.replication (.sender 0)), .client (.replication (.sender 0)),
    .client (.replication .finish)]

theorem heard_of_careful_oneByte : ∃ w,
    Run (Watched.step oneByteConfig) (careful oneByteConfig)
      ⟨.start (oneByteClient (some .startHashing)) tightMachine, .none⟩
      (List.replicate 6 (.client .run) ++ startOneByte ++ hashOneByte ++ compareOneByte) w ∧
    w.system.toServer = [.payloadCorrectBlock ⟨0, 1, [5]⟩] ∧ Heard w.system := by
  obtain ⟨w, hw, hp⟩ := exists_exec (show (exec
    (guarded (Watched.step oneByteConfig) (careful oneByteConfig))
    ⟨.start (oneByteClient (some .startHashing)) tightMachine, .none⟩
    (List.replicate 6 (.client .run) ++ startOneByte ++ hashOneByte ++ compareOneByte)).any
    (fun w => w.system.toServer = [.payloadCorrectBlock ⟨0, 1, [5]⟩]) = true by decide +kernel)
  have hrun := Run.of_exec_guarded hw
  exact ⟨w, hrun, of_decide_eq_true hp, heard_of_careful hrun⟩

/-- The connection is lost during a full replication: the client connects again and starts a scan,
and then `InitReplication`, which has gone on, reports completion. -/
theorem not_heard_of_reconnect : ∃ (moves : List (Move 4096)) (s : System),
    exec (System.step oneByteConfig) (.start (oneByteClient (some .fullReplicate)) tightMachine)
      moves = some s ∧ ¬ Heard s := by
  obtain ⟨s, hs, hd⟩ := exists_exec (show (exec (System.step oneByteConfig)
    (.start (oneByteClient (some .fullReplicate)) tightMachine)
    (List.replicate 6 (.client .run) ++ [.disconnect, .client .eof, .reconnect tightMachine] ++
      List.replicate 6 (.client (.listener true)) ++ replicateOneByte ++ startOneByte ++
      hashOneByte ++ compareOneByte ++
      [.server (.receive (.payloadReplicationBlock ⟨0, 1, [5]⟩)), .server (.handler .ok),
        .server (.receive .infoReplicationCompleted), .server (.handler .ok)])).any
    (fun s => s.session.handler = .receiving ∧ s.session.state = .writing ∧
      s.toServer = [.payloadCorrectBlock ⟨0, 1, [5]⟩]) = true by decide +kernel)
  obtain ⟨hh, hw, hp⟩ := of_decide_eq_true hd
  refine ⟨_, s, hs, fun h => ?_⟩
  have := h _ _ hh hp
  simp [hw] at this

end Runs

end Bdr.System
