import Mathlib.Algebra.Order.Ring.Rat
import Rcptto.Native.Engine

/-!
# Honest rejections

An address is called undeliverable when the mail server has refused it. The engine also gets
there in another way: it classifies the answer to `MAIL FROM` like one to `RCPT TO`, so that
a server which refuses the sender condemns a recipient it was never asked about.

## Key results

- `Engine.run_probeHost_of_none`, `_of_sender`, `_of_recipient`: the conversations
- `Engine.probeHosts_eq`: a probe is the conversation with the first server reached
- `Engine.honest_iff`: undeliverable addresses have been refused, unless the sender has been
- `Engine.sender_refused`: an address that was not asked about and is undeliverable
-/

namespace Rcptto.Native

/-! ## The server's side -/

/-- The server lets a greeting pass. -/
def Response.accepted : Response → Bool
  | .reply code _ _ => code < 400
  | .failed _ _ => false

/-- A response is accepted if it could be read and its code is below 400. -/
theorem Response.accepted_eq (r : Response) :
    r.accepted = (!(r.read 0).err && (r.read 0).code < 400) := by
  cases r <;> simp [accepted, read]

/-- The commands before `MAIL FROM`, if the server lets the conversation get there. -/
def Server.envelope (server : Server) (helo : String) : Option (List Command) :=
  if ((server []).read 220).err then none
  else if (server [.ehlo helo]).accepted then some [.ehlo helo]
  else if (server [.ehlo helo, .helo helo]).accepted then some [.ehlo helo, .helo helo]
  else none

/-- Before `MAIL FROM` there are only greetings. -/
theorem Server.mem_envelope {server : Server} {helo : String} {sent : List Command} {cmd : Command}
    (h : server.envelope helo = some sent) (hcmd : cmd ∈ sent) :
    cmd = .ehlo helo ∨ cmd = .helo helo := by
  unfold envelope at h
  -- the banner, then `EHLO`, then `HELO`
  split at h
  · cases h
  split at h
  · cases h
    exact .inl (List.mem_singleton.mp hcmd)
  split at h
  · cases h
    exact List.mem_pair.mp hcmd
  · cases h

/-- A hard rejection that shows no sign of a policy. -/
def NoMailbox (code : Int) (msg : String) : Prop :=
  500 ≤ code ∧ code < 600 ∧ code ≠ 552 ∧ enhancedIsPolicy (enhancedStatus msg) = false ∧
    keywordBlock msg = false

/-- Only a hard rejection is classified as a missing mailbox. -/
theorem classifyRCPT_cases (code : Int) (msg : String) :
    NoMailbox code msg ∧
      classifyRCPT code msg = ⟨.undeliverable, .mailboxNotFound, .mailboxGone⟩ ∨
    ¬ NoMailbox code msg ∧ (classifyRCPT code msg).status ≠ .undeliverable ∧
      (classifyRCPT code msg).signal ≠ .mailboxGone := by
  unfold classifyRCPT NoMailbox
  dsimp only
  -- the ranges of codes in the order of the source
  split
  · exact .inr ⟨by omega, by simp, by simp⟩
  split
  · exact .inr ⟨by omega, by simp, by simp⟩
  split
  · refine .inr ⟨by omega, ?_⟩
    split <;> simp
  split
  · split
    · rename_i hpolicy
      refine .inr ⟨fun h => ?_, by simp, by simp⟩
      simp [h.2.2.2] at hpolicy
    · rename_i hcode hpolicy
      simp only [Bool.or_eq_true, not_or, Bool.not_eq_true] at hpolicy
      exact .inl ⟨⟨hcode.1, hcode.2, by omega, hpolicy⟩, rfl⟩
  · exact .inr ⟨by omega, by simp, by simp⟩

/-- Either part of the classification tells that there is no mailbox. -/
theorem noMailbox_of_classify {code : Int} {msg : String}
    (h : (classifyRCPT code msg).status = .undeliverable ∨
      (classifyRCPT code msg).signal = .mailboxGone) : NoMailbox code msg := by
  rcases classifyRCPT_cases code msg with ⟨hgone, -⟩ | ⟨-, hstatus, hsignal⟩
  · exact hgone
  · rcases h with h | h
    · exact absurd h hstatus
    · exact absurd h hsignal

namespace Session

@[simp] theorem run_greeting (s : Session) :
    greeting.run s = pure ((s.server s.sent).read 220, s) := rfl

@[simp] theorem run_command (c : Command) (s : Session) : (command c).run s =
    pure ((s.server (s.sent ++ [c])).read 0, { s with sent := s.sent ++ [c] }) := rfl

end Session

/-- The probe has found that the mailbox does not exist. -/
def Condemns {F : Type} (p : Verdict F × List Signal) : Prop :=
  p.1.status = .undeliverable ∨ ∃ sig ∈ p.2, sig.kind = .mailboxGone

namespace Engine

variable {F : Type} [OfScientific F] {cfg : Config} {env : Env} {t : Task} {eg : Binding}
  {server : Server} {sent : List Command}

/-! ## Conversations -/

/-- A verdict condemns the address by its status, or by its signal. -/
theorem condemns_iff {status : Status} {sub : SubStatus} {kind : SignalKind} {code code' : Int}
    {msg detail : String} {catchAll : Bool} :
    Condemns (F := F)
      (result env t eg status sub code msg catchAll, signals eg kind t code' detail) ↔
      status = .undeliverable ∨ kind = .mailboxGone := by
  simp [Condemns, result, signals]

/-- The name given in the greeting. -/
def heloName (cfg : Config) (eg : Binding) : String := firstNonEmpty [eg.helo, cfg.helo]

/-- The sender given in the envelope. -/
def senderName (cfg : Config) (eg : Binding) : String := firstNonEmpty [eg.mailFrom, cfg.mailFrom]

/-- A refused `EHLO` is followed by `HELO`. -/
theorem run_greet : (greet cfg eg).run { server := server } =
    if (server [.ehlo (heloName cfg eg)]).accepted then
      pure (true, { server := server, sent := [.ehlo (heloName cfg eg)] })
    else pure ((server [.ehlo (heloName cfg eg), .helo (heloName cfg eg)]).accepted,
      { server := server, sent := [.ehlo (heloName cfg eg), .helo (heloName cfg eg)] }) := by
  simp only [greet, StateT.run_bind, Session.run_command, pure_bind, Response.accepted_eq,
    List.nil_append, heloName]
  split
  · rfl
  · simp

/-- A banner that is not an error has the code 220. -/
theorem code_lt_of_banner {r : Response} (h : (r.read 220).err = false) :
    (r.read 220).code < 500 := by
  cases r with
  | reply code msg hcode =>
    have hcode : code = 220 := by simpa [Response.read] using h
    simp [Response.read, hcode]
  | failed => cases h

/-- A conversation that gets to `MAIL FROM`. -/
theorem run_greet_of_some (h : server.envelope (heloName cfg eg) = some sent) :
    ((server []).read 220).err = false ∧
    (greet cfg eg).run { server := server } = pure (true, { server := server, sent := sent }) := by
  unfold Server.envelope at h
  -- the banner, then `EHLO`, then `HELO`
  split at h
  · cases h
  · rename_i hbanner
    refine ⟨by simpa using hbanner, ?_⟩
    rw [run_greet]
    split at h
    · rename_i hehlo
      cases h
      rw [if_pos hehlo]
    · rename_i hehlo
      rw [if_neg hehlo]
      split at h
      · rename_i hhelo
        cases h
        rw [hhelo]
      · cases h

/-- A conversation that does not get to `MAIL FROM` has ended with the banner, or `EHLO` and `HELO`
    have both been refused. -/
theorem envelope_eq_none {helo : String} (h : server.envelope helo = none) :
    ((server []).read 220).err = true ∨
      ((server []).read 220).err = false ∧ (server [.ehlo helo]).accepted = false ∧
        (server [.ehlo helo, .helo helo]).accepted = false := by
  unfold Server.envelope at h
  -- the banner, then `EHLO`, then `HELO`
  split at h
  · next hbanner => exact .inl hbanner
  · next hbanner =>
    split at h
    · cases h
    · next hehlo =>
      split at h
      · cases h
      · next hhelo =>
        exact .inr ⟨Bool.eq_false_iff.mpr hbanner, Bool.eq_false_iff.mpr hehlo,
          Bool.eq_false_iff.mpr hhelo⟩

/-- A banner that is not the expected one ends the conversation. -/
theorem run_probeHost_of_banner (cfg : Config) (env : Env) (t : Task) (eg : Binding)
    (h : ((server []).read 220).err = true) :
    (probeHost (F := F) cfg env t eg).run { server := server } =
      pure
        ((result env t eg .unknown .blocked ((server []).read 220).code "greeting rejected" false,
          signals eg .blocked t ((server []).read 220).code "greeting"), { server := server }) := by
  simp only [probeHost, StateT.run_bind, Session.run_greeting, pure_bind]
  rw [if_pos (by simp [h])]
  rfl

/-- A server that refuses `EHLO` and `HELO` is left alone. -/
theorem run_probeHost_of_helo (env : Env) (t : Task) (hbanner : ((server []).read 220).err = false)
    (hehlo : (server [.ehlo (heloName cfg eg)]).accepted = false)
    (hhelo : (server [.ehlo (heloName cfg eg), .helo (heloName cfg eg)]).accepted = false) :
    (probeHost (F := F) cfg env t eg).run { server := server } =
      pure ((result env t eg .unknown .blocked 0 "helo rejected" false,
        signals eg .blocked t 0 "helo"),
        { server := server, sent := [.ehlo (heloName cfg eg), .helo (heloName cfg eg)] }) := by
  have hcode := code_lt_of_banner hbanner
  simp only [probeHost, StateT.run_bind, Session.run_greeting, pure_bind]
  rw [if_neg (by simp [hbanner, hcode]), StateT.run_bind, run_greet,
    if_neg (Bool.eq_false_iff.mp hehlo), hhelo]
  rfl

/-- A conversation that does not get to `MAIL FROM` is a block. -/
theorem run_probeHost_of_none (env : Env) (t : Task)
    (h : server.envelope (heloName cfg eg) = none) :
    ∃ code msg detail, ((probeHost (F := F) cfg env t eg).run { server := server }).1 =
      (result env t eg .unknown .blocked code msg false, signals eg .blocked t code detail) := by
  rcases envelope_eq_none h with hbanner | ⟨hbanner, hehlo, hhelo⟩
  · rw [run_probeHost_of_banner cfg env t eg hbanner]
    exact ⟨_, _, _, rfl⟩
  · rw [run_probeHost_of_helo env t hbanner hehlo hhelo]
    exact ⟨_, _, _, rfl⟩

/-- A server that does not take the sender is not asked about the recipient, and its answer is
    classified as if it had been. -/
theorem run_probeHost_of_sender (env : Env) (t : Task)
    (h : server.envelope (heloName cfg eg) = some sent)
    {code : Int} {msg : String}
    (hmail : (mailFrom cfg eg).run { server := server, sent := sent } =
      pure ((code, msg, false),
        { server := server, sent := sent ++ [.mailFrom (senderName cfg eg)] })) :
    (probeHost (F := F) cfg env t eg).run { server := server } =
      pure ((result env t eg (classifyRCPT code msg).status (classifyRCPT code msg).subStatus code
          msg false, signals eg (classifyRCPT code msg).signal t code msg),
        { server := server, sent := sent ++ [.mailFrom (senderName cfg eg)] }) := by
  obtain ⟨hbanner, hgreet⟩ := run_greet_of_some h
  have hcode := code_lt_of_banner hbanner
  simp only [probeHost, StateT.run_bind, Session.run_greeting, pure_bind]
  rw [if_neg (by simp [hbanner, hcode]), StateT.run_bind, hgreet, pure_bind]
  simp only [Bool.not_true, Bool.false_eq_true, if_false]
  rw [StateT.run_bind, hmail, pure_bind]
  rfl

/-- A server that takes the sender is asked about the recipient. If it does not answer, the
    conversation is over; if it accepts the recipient, it may be asked about a second one. -/
theorem run_probeHost_of_recipient (env : Env) (t : Task)
    (h : server.envelope (heloName cfg eg) = some sent)
    {code : Int} {msg : String}
    (hmail : (mailFrom cfg eg).run { server := server, sent := sent } =
      pure ((code, msg, true),
        { server := server, sent := sent ++ [.mailFrom (senderName cfg eg)] })) :
    let asked := sent ++ [.mailFrom (senderName cfg eg)] ++ [.rcptTo t.email]
    ((∃ code hcode, server asked = .failed code hcode) ∧
      (probeHost (F := F) cfg env t eg).run { server := server } =
        pure ((result env t eg .unknown .temporaryFailure 0 "rcpt io error" false,
          signals eg .tempFail t 0 "rcpt io"), { server := server, sent := asked })) ∨
    ∃ code msg hcode catchAll rest, server asked = .reply code msg hcode ∧
      (probeHost (F := F) cfg env t eg).run { server := server } =
        pure ((result env t eg (if catchAll then .risky else (classifyRCPT code msg).status)
            (if catchAll then .catchAll else (classifyRCPT code msg).subStatus) code msg catchAll,
          signals eg (classifyRCPT code msg).signal t code msg),
          { server := server, sent := asked ++ rest }) ∧
      (catchAll = false ∧ rest = [.quit] ∨
        (classifyRCPT code msg).status = .deliverable ∧ cfg.detectCatchAll = true ∧
          rest = [.rcptTo (randomLocalPart env.random ++ "@" ++ t.domain), .quit]) := by
  intro asked
  obtain ⟨hbanner, hgreet⟩ := run_greet_of_some h
  have hcode := code_lt_of_banner hbanner
  simp only [probeHost, StateT.run_bind, Session.run_greeting, pure_bind]
  rw [if_neg (by simp [hbanner, hcode]), StateT.run_bind, hgreet, pure_bind]
  simp only [Bool.not_true, Bool.false_eq_true, if_false]
  rw [StateT.run_bind, hmail, pure_bind]
  simp only [Bool.not_true, Bool.false_eq_true, if_false]
  rw [StateT.run_bind, Session.run_command, pure_bind]
  cases hasked : server asked with
  | failed code hcode =>
    left
    refine ⟨⟨code, hcode, rfl⟩, ?_⟩
    rw [if_pos (show ((server asked).read 0).err = true by rw [hasked]; rfl)]
    rfl
  | reply code msg hcode =>
    right
    simp only [asked] at hasked
    simp only [hasked, Response.read]
    rw [if_neg (by simp)]
    split
    · next hcheck =>
      simp only [Bool.and_eq_true, decide_eq_true_eq] at hcheck
      -- what the second answer is does not matter here, only that it was asked for
      obtain ⟨catchAll, hdetect⟩ : ∃ catchAll, (detectCatchAll env t.domain).run
          { server := server, sent := asked } = pure (catchAll, { server := server, sent := asked ++
            [.rcptTo (randomLocalPart env.random ++ "@" ++ t.domain)] }) := ⟨_, rfl⟩
      refine ⟨code, msg, hcode, catchAll, [_, .quit], rfl, ?_, .inr ⟨hcheck.1, hcheck.2, rfl⟩⟩
      rw [List.append_cons asked, StateT.run_bind, hdetect, pure_bind]
      rfl
    · exact ⟨code, msg, hcode, false, _, rfl, rfl, .inl ⟨rfl, rfl⟩⟩

/-- A connection that breaks off at `MAIL FROM`. -/
theorem run_mailFrom_of_failed {code : Int} {hcode : -99 ≤ code ∧ code < 100}
    (h : server (sent ++ [.mailFrom (senderName cfg eg)]) = .failed code hcode) :
    (mailFrom cfg eg).run { server := server, sent := sent } =
      pure ((0, "mail from io error", false),
        { server := server, sent := sent ++ [.mailFrom (senderName cfg eg)] }) := by
  rw [senderName] at h
  simp only [mailFrom, StateT.run_bind, Session.run_command, pure_bind, h]
  rfl

/-- A reply to `MAIL FROM`. -/
theorem run_mailFrom_of_reply {code : Int} {msg : String} {hcode : 100 ≤ code ∧ code ≤ 999}
    (h : server (sent ++ [.mailFrom (senderName cfg eg)]) = .reply code msg hcode) :
    (mailFrom cfg eg).run { server := server, sent := sent } =
      pure ((code, msg, code ≥ 200 && code < 300),
        { server := server, sent := sent ++ [.mailFrom (senderName cfg eg)] }) := by
  rw [senderName] at h
  simp only [mailFrom, StateT.run_bind, Session.run_command, pure_bind, h]
  rfl

/-- The server refuses the sender in words that would condemn a recipient. -/
def RejectsSender (cfg : Config) (eg : Binding) (server : Server) : Prop :=
  ∃ sent code msg hcode, server.envelope (heloName cfg eg) = some sent ∧
    server (sent ++ [.mailFrom (senderName cfg eg)]) = .reply code msg hcode ∧ NoMailbox code msg

/-- In a conversation with the commands `sent`, the server has answered `RCPT TO` for the
    address with a hard rejection. -/
def Refused (server : Server) (email : String) (sent : List Command) : Prop :=
  ∃ before after code msg hcode, sent = before ++ .rcptTo email :: after ∧
    server (before ++ [.rcptTo email]) = .reply code msg hcode ∧ 500 ≤ code ∧ code < 600

/-- The conversation condemns the address only if the server has refused it. -/
def Honest (server : Server) (email : String) (p : (Verdict F × List Signal) × Session) : Prop :=
  Condemns p.1 → Refused server email p.2.sent

/-- A conversation is honest if and only if the server does not refuse the sender. -/
theorem probeHost_honest_iff :
    Honest server t.email ((probeHost (F := F) cfg env t eg).run { server := server }) ↔
      ¬ RejectsSender cfg eg server := by
  cases henv : server.envelope (heloName cfg eg) with
  | none =>
    obtain ⟨code, msg, detail, hp⟩ := run_probeHost_of_none (F := F) env t henv
    have hspared : ¬ RejectsSender cfg eg server := by
      rintro ⟨sent, _, _, _, hsent, -⟩
      rw [henv] at hsent
      cases hsent
    refine iff_of_true (fun hcondemns => ?_) hspared
    rw [hp, condemns_iff] at hcondemns
    simp at hcondemns
  | some sent =>
    cases hmail : server (sent ++ [.mailFrom (senderName cfg eg)]) with
    | failed code hcode =>
      have hp := run_probeHost_of_sender (F := F) env t henv
        (run_mailFrom_of_failed hmail)
      have hspared : ¬ RejectsSender cfg eg server := by
        rintro ⟨sent', _, _, _, hsent, hreply, -⟩
        cases henv.symm.trans hsent
        cases hmail.symm.trans hreply
      refine iff_of_true (fun hcondemns => ?_) hspared
      rw [hp] at hcondemns
      exact absurd (noMailbox_of_classify (condemns_iff.mp hcondemns)).1 (by decide)
    | reply code msg hcode =>
      have hrejects : RejectsSender cfg eg server ↔ NoMailbox code msg := by
        constructor
        · rintro ⟨sent', _, _, _, hsent, hreply, hgone⟩
          cases henv.symm.trans hsent
          cases hmail.symm.trans hreply
          exact hgone
        · exact fun hgone => ⟨sent, code, msg, hcode, henv, hmail, hgone⟩
      have hrun := run_mailFrom_of_reply hmail
      rw [hrejects]
      cases hok : (decide (code ≥ 200) && decide (code < 300)) with
      | true =>
        -- the sender is accepted, and the recipient is asked about
        rw [hok] at hrun
        have hspared : ¬ NoMailbox code msg := by
          simp only [Bool.and_eq_true, decide_eq_true_eq] at hok
          exact fun hgone => absurd hgone.1 (by omega)
        refine iff_of_true (fun hcondemns => ?_) hspared
        rcases run_probeHost_of_recipient (F := F) env t henv hrun with
          ⟨-, hp⟩ | ⟨code', msg', hcode', catchAll, rest, hreply, hp, -⟩
        · rw [hp] at hcondemns
          rcases condemns_iff.mp hcondemns with hstatus | hkind
          · cases hstatus
          · cases hkind
        · rw [hp] at hcondemns ⊢
          have hgone : NoMailbox code' msg' := by
            apply noMailbox_of_classify
            rcases condemns_iff.mp hcondemns with hstatus | hkind
            · split at hstatus
              · cases hstatus
              · exact .inl hstatus
            · exact .inr hkind
          exact ⟨_, rest, code', msg', hcode', List.append_assoc _ _ _, hreply, hgone.1, hgone.2.1⟩
      | false =>
        rw [hok] at hrun
        have hp := run_probeHost_of_sender (F := F) env t henv hrun
        rw [hp]
        rcases classifyRCPT_cases code msg with ⟨hgone, hout⟩ | ⟨hspared, hstatus, hsignal⟩
        · -- the recipient is condemned without having been asked about
          refine iff_of_false (fun hhonest => ?_) (not_not_intro hgone)
          obtain ⟨before, after, _, _, _, hsent, -⟩ := hhonest (condemns_iff.mpr (by simp [hout]))
          have hmem : .rcptTo t.email ∈ sent ++ [.mailFrom (senderName cfg eg)] := by
            have hsent : sent ++ [.mailFrom (senderName cfg eg)] = _ := hsent
            rw [hsent]
            simp
          rcases List.mem_append.mp hmem with hmem | hmem
          · simpa using Server.mem_envelope henv hmem
          · simp at hmem
        · refine iff_of_true (fun hcondemns => ?_) hspared
          exact absurd (noMailbox_of_classify (condemns_iff.mp hcondemns)) hspared

/-! ## Probes -/

/-- The first server that a probe reaches, with the addresses dialled for it. -/
def reached (cfg : Config) (env : Env) : List String → List String → Option (List String × Server)
  | [], _ => none
  | host :: hosts, dialled =>
    match env.network (dialled ++ [joinHostPort host cfg.port]) with
    | none => reached cfg env hosts (dialled ++ [joinHostPort host cfg.port])
    | some server => some (dialled ++ [joinHostPort host cfg.port], server)

/-- The report of a conversation. -/
def conversation (cfg : Config) (env : Env) (t : Task) (eg : Binding) (dialled : List String)
    (server : Server) : Report F :=
  let p := (probeHost cfg env t eg).run { server := server }
  { verdict := p.1.1, signals := p.1.2, dialled := dialled, sent := p.2.sent }

/-- A probe that reaches nobody has dialled every host. -/
theorem probeHosts_of_none (t : Task) (eg : Binding) {hosts dialled : List String}
    (h : reached cfg env hosts dialled = none) :
    probeHosts (F := F) cfg env t eg hosts dialled =
      { verdict := result env t eg .unknown .noConnect 0 "" false
        signals := signals eg .connRefused t 0 "all mx unreachable"
        dialled := dialled ++ hosts.map (joinHostPort · cfg.port)
        sent := [] } := by
  -- by induction on the hosts that are left to dial
  induction hosts generalizing dialled with
  | nil => simp [probeHosts]
  | cons host hosts ih =>
    cases hdial : env.network (dialled ++ [joinHostPort host cfg.port]) with
    | none =>
      simp only [reached, hdial] at h
      simp only [probeHosts, hdial]
      rw [ih h]
      simp
    | some server =>
      simp only [reached, hdial] at h
      cases h

/-- A probe is the conversation with the first server reached. -/
theorem probeHosts_of_some (t : Task) (eg : Binding) {hosts dialled dialled' : List String}
    (h : reached cfg env hosts dialled = some (dialled', server)) :
    env.network dialled' = some server ∧
    probeHosts (F := F) cfg env t eg hosts dialled = conversation cfg env t eg dialled' server := by
  -- by induction on the hosts that are left to dial
  induction hosts generalizing dialled with
  | nil => cases h
  | cons host hosts ih =>
    cases hdial : env.network (dialled ++ [joinHostPort host cfg.port]) with
    | none =>
      simp only [reached, hdial] at h
      simp only [probeHosts, hdial]
      exact ih h
    | some server' =>
      simp only [reached, hdial] at h
      cases h
      refine ⟨hdial, ?_⟩
      simp only [probeHosts, hdial]
      rfl

/-- If a host can be reached, the verification is the conversation with its server. -/
theorem verify_of_some (t : Task) (eg : Binding) {dialled : List String}
    (h : reached cfg env t.mx [] = some (dialled, server)) :
    verify (F := F) cfg env t eg = conversation cfg env t eg dialled server := by
  unfold verify
  split
  · next hmx =>
    rw [List.length_eq_zero_iff.mp hmx] at h
    cases h
  · exact (probeHosts_of_some t eg h).2

/-- The probe condemns the address only if the server it has reached has refused it. -/
def Report.Honest (env : Env) (email : String) (r : Report F) : Prop :=
  Condemns (r.verdict, r.signals) →
    ∃ server, env.network r.dialled = some server ∧ Refused server email r.sent

/-- A probe condemns an address only if the server has answered `RCPT TO` for it with a hard
    rejection, if and only if the server reached does not refuse the sender in words that
    would condemn a recipient. -/
theorem honest_iff (cfg : Config) (env : Env) (t : Task) (eg : Binding) :
    (verify (F := F) cfg env t eg).Honest env t.email ↔ ∀ dialled server,
      reached cfg env t.mx [] = some (dialled, server) → ¬ RejectsSender cfg eg server := by
  -- without a conversation nothing is said that could be dishonest
  cases hreached : reached cfg env t.mx [] with
  | none =>
    refine iff_of_true (fun hcondemns => ?_) (by simp)
    unfold verify at hcondemns
    split at hcondemns
    · rw [condemns_iff] at hcondemns
      simp at hcondemns
    · rw [probeHosts_of_none t eg hreached, condemns_iff] at hcondemns
      simp at hcondemns
  | some p =>
    obtain ⟨dialled, server⟩ := p
    obtain ⟨hnetwork, -⟩ := probeHosts_of_some (F := F) t eg hreached
    rw [verify_of_some t eg hreached]
    have hhonest : (conversation (F := F) cfg env t eg dialled server).Honest env t.email ↔
        Honest server t.email ((probeHost (F := F) cfg env t eg).run { server := server }) := by
      simp [Report.Honest, conversation, hnetwork, Honest]
    rw [hhonest, probeHost_honest_iff]
    simp

/-- A server that refuses the sender. -/
def senderServer : Server
  | [] => .reply 220 "ready" (by decide)
  | [.ehlo _] => .reply 250 "hello" (by decide)
  | _ => .reply 550 "5.1.8 bad sender" (by decide)

/-- An address is undeliverable, and its mailbox gone, although the server was not asked about
    it. -/
theorem sender_refused :
    let env : Env := { network := fun _ => some senderServer, now := 0, random := none }
    let t : Task :=
      { email := "u@example.com", normalized := "u@example.com", domain := "example.com",
        mx := ["mx.example.com"], provider := "custom" }
    let eg : Binding := { id := "a", helo := "", mailFrom := "", transport := {} }
    let r := verify (F := ℚ) (new {}) env t eg
    r.verdict.status = .undeliverable ∧ r.signals.map (·.kind) = [.mailboxGone] ∧
      ¬ r.Honest env t.email := by
  intro env t eg r
  have hstatus : r.verdict.status = .undeliverable := by decide +kernel
  have hsent : r.sent = [.ehlo "localhost", .mailFrom "verify@localhost"] := by decide +kernel
  refine ⟨hstatus, by decide +kernel, fun hhonest => ?_⟩
  -- an honest verdict would have asked for the recipient
  obtain ⟨server, -, before, after, _, _, _, hsent', -⟩ := hhonest (.inl hstatus)
  have hmem : .rcptTo t.email ∈ r.sent := by
    rw [hsent']
    simp
  rw [hsent] at hmem
  simp at hmem

end Engine

end Rcptto.Native
