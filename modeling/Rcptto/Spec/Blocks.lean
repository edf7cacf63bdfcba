import Rcptto.Spec.Dialogue
import Rcptto.Spec.Failover

/-!
# What counts as a block

A signal of the kind `blocked` counts towards the quarantine of an identity. It should mean that
the mail server has refused to deal with the identity: with a reply 5xx, or in words that speak of
a block. From `MAIL FROM` on, that is how replies are classified. Before, every failure is reported
as a block, a dropped connection and a server that is busy included.

## Key results

- `Engine.classifyRCPT_blocked`, `Engine.classifyRCPT_soft`: how replies are classified
- `Engine.probeHost_blocks_iff`: the conversations that are reported rightly
- `Engine.blocked_iff`: the same for probes
- `Engine.busy_blocked`: servers that are busy, silent or gone, and are reported as blocks
-/

namespace Rcptto.Native

/-! ## Replies -/

/-- The server refuses: with a reply 5xx, or in words that speak of a block. -/
def Response.refuses : Response → Bool
  | .reply code msg _ => (500 ≤ code && code < 600) || keywordBlock msg
  | .failed _ _ => false

/-- The server is busy, silent or gone: a reply 4xx that does not speak of a block, a dropped
    connection or a time-out. -/
def Response.soft : Response → Bool
  | .reply code msg _ => 400 ≤ code && code < 500 && !keywordBlock msg
  | .failed _ _ => true

/-- The server has refused at some stage of the conversation: with its banner, or in answer to
    `EHLO`, `HELO`, `MAIL FROM` or `RCPT TO`. -/
def Server.Refuses (server : Server) (sent : List Command) : Prop :=
  ∃ stage, stage <+: sent ∧ .quit ∉ stage ∧ (server stage).refuses = true

/-- The kinds of signals that do not speak of a block. -/
def softKinds : List SignalKind := [.tempFail, .timeout, .connRefused]

namespace Engine

/-- A reply is classified as a block only if the server refuses. -/
theorem classifyRCPT_blocked {code : Int} {msg : String} {hcode : 100 ≤ code ∧ code ≤ 999}
    (h : (classifyRCPT code msg).signal = .blocked) :
    (Response.reply code msg hcode).refuses = true := by
  unfold classifyRCPT at h
  dsimp only at h
  split_ifs at h with _ _ _ hword hhard _
  · simp [Response.refuses, hword]
  · simp [Response.refuses, hhard]

/-- A reply 4xx that does not speak of a block is a temporary failure. -/
theorem classifyRCPT_soft {code : Int} {msg : String} {hcode : 100 ≤ code ∧ code ≤ 999}
    (h : (Response.reply code msg hcode).soft = true) :
    (classifyRCPT code msg).signal = .tempFail := by
  simp only [Response.soft, Bool.and_eq_true, decide_eq_true_eq, Bool.not_eq_true'] at h
  obtain ⟨⟨hlow, hhigh⟩, hword⟩ := h
  unfold classifyRCPT
  dsimp only
  rw [if_neg (by omega), if_neg (by omega), if_pos ⟨hlow, hhigh⟩, hword]
  rfl

/-! ## Conversations -/

variable {F : Type} [OfScientific F] {cfg : Config} {env : Env} {t : Task} {eg : Binding}
  {server : Server} {stage sent : List Command}

/-- The commands before the answer that has decided a conversation: none for the banner, `EHLO` and
    `HELO`, and then `MAIL FROM` if the sender was refused, and `RCPT TO` otherwise. -/
def lastStage (cfg : Config) (t : Task) (eg : Binding) (server : Server) : List Command :=
  match server.envelope (heloName cfg eg) with
  | none =>
    if ((server []).read 220).err then [] else [.ehlo (heloName cfg eg), .helo (heloName cfg eg)]
  | some sent =>
    let asked := sent ++ [.mailFrom (senderName cfg eg)]
    if (server asked).completed then asked ++ [.rcptTo t.email] else asked

/-- A block is reported only if the server has refused. Otherwise, a conversation that ends because
    the server is busy, silent or gone is reported as such. -/
def BlocksRightly (server : Server) (stage sent : List Command) (ss : List Signal) : Prop :=
  ((∃ sig ∈ ss, sig.kind = .blocked) → server.Refuses sent) ∧
    (¬ server.Refuses sent → (server stage).soft = true → ∀ sig ∈ ss, sig.kind ∈ softKinds)

/-- The server does not let the conversation get to `MAIL FROM`, and it has not refused. -/
def TurnsAway (cfg : Config) (t : Task) (eg : Binding) (server : Server) : Prop :=
  server.envelope (heloName cfg eg) = none ∧ ¬ server.Refuses (lastStage cfg t eg server)

theorem blocksRightly_signals_iff {kind : SignalKind} {code : Int} {detail : String} :
    BlocksRightly server stage sent (signals eg kind t code detail) ↔
      (kind = .blocked → server.Refuses sent) ∧
        (¬ server.Refuses sent → (server stage).soft = true → kind ∈ softKinds) := by
  simp [BlocksRightly, signals]

/-- The signals of a conversation that is decided by a reply to `MAIL FROM` or `RCPT TO`. -/
theorem blocksRightly_of_reply {code code' : Int} {msg detail : String}
    {hcode : 100 ≤ code ∧ code ≤ 999} (hreply : server stage = .reply code msg hcode)
    (hstage : stage <+: sent) (hquit : .quit ∉ stage) :
    BlocksRightly server stage sent
      (signals eg (classifyRCPT code msg).signal t code' detail) := by
  rw [blocksRightly_signals_iff]
  constructor
  · intro hkind
    exact ⟨stage, hstage, hquit, by rw [hreply]; exact classifyRCPT_blocked hkind⟩
  · intro _ hsoft
    rw [hreply] at hsoft
    simp [classifyRCPT_soft hsoft, softKinds]

/-- The signals of a conversation that is decided by a dropped connection or a time-out. -/
theorem blocksRightly_of_tempFail {code : Int} {detail : String} :
    BlocksRightly server stage sent (signals eg .tempFail t code detail) :=
  blocksRightly_signals_iff.mpr ⟨fun h => (by cases h), fun _ _ => List.mem_cons_self⟩

/-- The signals of a conversation that is reported as a block. -/
theorem blocksRightly_of_blocked {code : Int} {detail : String} :
    BlocksRightly server stage sent (signals eg .blocked t code detail) ↔ server.Refuses sent := by
  rw [blocksRightly_signals_iff]
  exact ⟨fun h => h.1 rfl, fun h => ⟨fun _ => h, fun hnot => absurd h hnot⟩⟩

/-- Which conversations are reported rightly. -/
theorem probeHost_blocks_iff (cfg : Config) (env : Env) (t : Task) (eg : Binding)
    (server : Server) :
    BlocksRightly server (lastStage cfg t eg server)
        ((probeHost (F := F) cfg env t eg).run { server := server }).2.sent
        ((probeHost (F := F) cfg env t eg).run { server := server }).1.2 ↔
      ¬ TurnsAway cfg t eg server := by
  cases henv : server.envelope (heloName cfg eg) with
  | none =>
    -- nothing was sent after the answer that has decided the conversation
    have haway : ¬ TurnsAway cfg t eg server ↔ server.Refuses (lastStage cfg t eg server) := by
      simp [TurnsAway, henv]
    rw [haway]
    rcases envelope_eq_none henv with hbanner | ⟨hbanner, hehlo, hhelo⟩
    · have hlast : lastStage cfg t eg server = [] := by simp [lastStage, henv, hbanner]
      rw [run_probeHost_of_banner cfg env t eg hbanner, hlast]
      exact blocksRightly_of_blocked
    · have hlast : lastStage cfg t eg server =
          [.ehlo (heloName cfg eg), .helo (heloName cfg eg)] := by
        simp [lastStage, henv, hbanner]
      rw [run_probeHost_of_helo env t hbanner hehlo hhelo, hlast]
      exact blocksRightly_of_blocked
  | some sent =>
    have hlet : ¬ TurnsAway cfg t eg server := fun h => by cases henv.symm.trans h.1
    refine iff_of_true ?_ hlet
    have hquit : .quit ∉ sent ++ [.mailFrom (senderName cfg eg)] := by
      have hgreetings : .quit ∉ sent := fun hmem => by simpa using Server.mem_envelope henv hmem
      simp [hgreetings]
    cases hmail : server (sent ++ [.mailFrom (senderName cfg eg)]) with
    | failed code hcode =>
      rw [run_probeHost_of_sender env t henv (run_mailFrom_of_failed hmail)]
      exact blocksRightly_of_tempFail
    | reply code msg hcode =>
      have hrun := run_mailFrom_of_reply hmail
      cases hok : (decide (code ≥ 200) && decide (code < 300)) with
      | false =>
        have hlast : lastStage cfg t eg server = sent ++ [.mailFrom (senderName cfg eg)] := by
          simp only [lastStage, henv, hmail, Response.completed]
          rw [if_neg (Bool.eq_false_iff.mp hok)]
        rw [hok] at hrun
        rw [run_probeHost_of_sender env t henv hrun, hlast]
        exact blocksRightly_of_reply hmail (List.prefix_refl _) hquit
      | true =>
        have hlast : lastStage cfg t eg server =
            sent ++ [.mailFrom (senderName cfg eg)] ++ [.rcptTo t.email] := by
          simp only [lastStage, henv, hmail, Response.completed]
          rw [if_pos hok]
        rw [hok] at hrun
        rcases run_probeHost_of_recipient (F := F) env t henv hrun with
          ⟨-, hp⟩ | ⟨code', msg', hcode', catchAll, rest, hreply, hp, -⟩
        · rw [hp]
          exact blocksRightly_of_tempFail
        · rw [hp, hlast]
          exact blocksRightly_of_reply hreply (List.prefix_append _ _) (by simpa using hquit)

/-! ## Probes -/

/-- A probe reports a block only if the server it has reached has refused, at some stage of the
    conversation, and reports a server that has not refused and is busy, silent or gone as such, if
    and only if the server does not turn the conversation away before `MAIL FROM` without having
    refused. -/
theorem blocked_iff (cfg : Config) (env : Env) (t : Task) (eg : Binding) :
    (((∃ sig ∈ (verify (F := F) cfg env t eg).signals, sig.kind = .blocked) →
        ∃ dialled server, reached cfg env t.mx [] = some (dialled, server) ∧
          server.Refuses (verify (F := F) cfg env t eg).sent) ∧
      ∀ dialled server, reached cfg env t.mx [] = some (dialled, server) →
        ¬ server.Refuses (verify (F := F) cfg env t eg).sent →
        (server (lastStage cfg t eg server)).soft = true →
        ∀ sig ∈ (verify (F := F) cfg env t eg).signals, sig.kind ∈ softKinds) ↔
    ∀ dialled server, reached cfg env t.mx [] = some (dialled, server) →
      ¬ TurnsAway cfg t eg server := by
  cases hreached : reached cfg env t.mx [] with
  | none =>
    -- without a conversation the only signal is that of the failed dials
    refine iff_of_true ⟨?_, by simp⟩ (by simp)
    rintro ⟨sig, hsig, hkind⟩
    have hkinds := (verify_of_none (F := F) t eg hreached).2.2.2
    have hmem := List.mem_map_of_mem (f := Signal.kind) hsig
    rw [hkinds, List.mem_singleton, hkind] at hmem
    cases hmem
  | some p =>
    obtain ⟨dialled, server⟩ := p
    rw [verify_of_some t eg hreached]
    have hprobe := probeHost_blocks_iff (F := F) cfg env t eg server
    constructor
    · rintro ⟨hblocked, hsoft⟩ _ _ hpair
      cases hpair
      refine hprobe.mp ⟨fun hsig => ?_, hsoft dialled server rfl⟩
      obtain ⟨_, _, hpair, hrefuses⟩ := hblocked hsig
      cases hpair
      exact hrefuses
    · intro h
      obtain ⟨hblocked, hsoft⟩ := hprobe.mpr (h dialled server rfl)
      refine ⟨fun hsig => ⟨dialled, server, rfl, hblocked hsig⟩, fun _ _ hpair => ?_⟩
      cases hpair
      exact hsoft

/-- A server that is busy. -/
def busyServer : Server := fun _ => .reply 421 "4.3.2 too busy" (by decide)

/-- A server that drops every connection. -/
def silentServer : Server := fun _ => .failed 0 (by decide)

/-- A server that is busy after its banner. -/
def slowServer : Server
  | [] => .reply 220 "ready" Response.ready_code
  | _ :: _ => .reply 451 "4.3.0 try again later" (by decide)

/-- The server never refuses and is busy, silent or gone when the conversation ends, and yet a
    block is reported. -/
def SoftBlock (server : Server) : Prop :=
  let env : Env := { network := fun _ => some server, now := 0, random := none }
  let t : Task :=
    { email := "u@example.com", normalized := "u@example.com", domain := "example.com",
      mx := ["mx.example.com"], provider := "custom" }
  let eg : Binding := { id := "a", helo := "", mailFrom := "", transport := {} }
  (∀ stage, (server stage).refuses = false) ∧
    (server (lastStage (new {}) t eg server)).soft = true ∧
    (verify (F := ℚ) (new {}) env t eg).signals.map (fun sig => (sig.kind, sig.egressID)) =
      [(.blocked, "a")]

/-- A busy, a silent and a slow server that refuse nothing are reported as blocks. -/
theorem busy_blocked : SoftBlock busyServer ∧ SoftBlock silentServer ∧ SoftBlock slowServer := by
  -- the answers do not depend on what was sent
  have hbusy : (busyServer []).refuses = false := by decide +kernel
  have hready : (slowServer []).refuses = false := by decide +kernel
  have hslow : (slowServer [.quit]).refuses = false := by decide +kernel
  refine ⟨⟨fun _ => hbusy, by decide +kernel, by decide +kernel⟩,
    ⟨fun _ => rfl, by decide +kernel, by decide +kernel⟩,
    ⟨fun stage => ?_, by decide +kernel, by decide +kernel⟩⟩
  cases stage with
  | nil => exact hready
  | cons => exact hslow

end Engine

end Rcptto.Native
