import Rcptto.ForStd.List
import Rcptto.Spec.Failover
import Rcptto.Spec.JobStore
import Rcptto.Spec.Provenance
import Rcptto.Spec.Remote

/-!
# What the flag of a probe counts

The engine marks a verdict as probed if the number of the last answer is not 0. Several exits of
the conversation give 0 after a connection has been made: a banner that cannot be read, a server
that refuses to be greeted, and an answer to the sender or to the recipient that does not come. The
control plane gives up the flag as well if the answer of an agent is lost. So the statistics of a
job count the verifications that have opened a connection exactly if none of them is silent in one
of these ways. A silent verification has an unknown verdict, which the cache does not keep.

## Key results

- `Engine.verify_probed_iff`: when the flag of the engine tells whether there was a connection
- `Verification.probed_iff`: the same for a call of `Verify`
- `Lookups.Runs.exists_origin`: the verification behind an answer
- `probed_counts_iff`: when the statistics of a job count the connections
- `helo_rejected_uncounted`: a server that refuses to be greeted
-/

namespace Rcptto.Native

variable {F : Type} [OfScientific F]

/-! ## The engine -/

namespace Engine

variable {cfg : Config} {env : Env} {t : Task} {eg : Binding} {server : Server}

/-- A conversation with this server ends without the number of an answer. -/
def Wordless (cfg : Config) (t : Task) (eg : Binding) (server : Server) : Prop :=
  match server.envelope (heloName cfg eg) with
  | none =>
    -- the greetings are refused, or there is no banner
    ((server []).read 220).err = false ∨ ((server []).read 220).code = 0
  | some sent =>
    match server (sent ++ [.mailFrom (senderName cfg eg)]) with
    | .failed _ _ => True
    | .reply code _ _ =>
      (200 ≤ code ∧ code < 300) ∧ ∃ code hcode,
        server (sent ++ [.mailFrom (senderName cfg eg)] ++ [.rcptTo t.email]) = .failed code hcode

/-- The dials of a probe get a connection. -/
def Connects (cfg : Config) (env : Env) (t : Task) (server : Server) : Prop :=
  ∃ k, FirstReached env (addresses cfg t.mx) k server

/-- What the conversation says about its number, and the status if there is none. -/
theorem probeHost_probed (env : Env) (t : Task) :
    let v := ((probeHost (F := F) cfg env t eg).run { server := server }).1.1
    Wordless cfg t eg server ∧ v.checks.smtp.probed = false ∧ v.status = .unknown ∨
      ¬ Wordless cfg t eg server ∧ v.checks.smtp.probed = true := by
  intro v
  unfold Wordless
  cases henv : server.envelope (heloName cfg eg) with
  | none =>
    -- of these two, only a rejected greeting has its number recorded
    rcases envelope_eq_none henv with hbanner | ⟨hbanner, hehlo, hhelo⟩
    · have hv : v = result env t eg .unknown .blocked ((server []).read 220).code
          "greeting rejected" false :=
        congrArg (fun p => p.1.1) (run_probeHost_of_banner (F := F) cfg env t eg hbanner)
      by_cases hcode : ((server []).read 220).code = 0
      · exact .inl ⟨.inr hcode, by simp [hv, result, hcode], by simp [hv, result]⟩
      · exact .inr ⟨by simp [hbanner, hcode], by simp [hv, result, hcode]⟩
    · have hv : v = result env t eg .unknown .blocked 0 "helo rejected" false :=
        congrArg (fun p => p.1.1) (run_probeHost_of_helo (F := F) env t hbanner hehlo hhelo)
      exact .inl ⟨.inl hbanner, by simp [hv, result], by simp [hv, result]⟩
  | some sent =>
    dsimp only
    cases hmail : server (sent ++ [.mailFrom (senderName cfg eg)]) with
    | failed code hcode =>
      have hv : v = result env t eg (classifyRCPT 0 "mail from io error").status
          (classifyRCPT 0 "mail from io error").subStatus 0 "mail from io error" false :=
        congrArg (fun p => p.1.1)
          (run_probeHost_of_sender (F := F) env t henv (run_mailFrom_of_failed hmail))
      refine .inl ⟨trivial, by simp [hv, result], ?_⟩
      rw [hv]
      exact (by decide : (classifyRCPT 0 "mail from io error").status = .unknown)
    | reply code msg hcode =>
      have hrun := run_mailFrom_of_reply hmail
      -- a reply has three digits
      have hne : code ≠ 0 := by omega
      cases hok : (decide (code ≥ 200) && decide (code < 300)) with
      | false =>
        rw [hok] at hrun
        have hv : v = result env t eg (classifyRCPT code msg).status
            (classifyRCPT code msg).subStatus code msg false :=
          congrArg (fun p => p.1.1) (run_probeHost_of_sender (F := F) env t henv hrun)
        refine .inr ⟨fun h => ?_, by simp [hv, result, hne]⟩
        simp only [Bool.and_eq_false_iff, decide_eq_false_iff_not] at hok
        omega
      | true =>
        rw [hok] at hrun
        simp only [Bool.and_eq_true, decide_eq_true_eq] at hok
        rcases run_probeHost_of_recipient (F := F) env t henv hrun with
          ⟨hfailed, hp⟩ | ⟨code', msg', hcode', catchAll, rest, hreply, hp, -⟩
        · have hv : v = result env t eg .unknown .temporaryFailure 0 "rcpt io error" false :=
            congrArg (fun p => p.1.1) hp
          exact .inl ⟨⟨hok, hfailed⟩, by simp [hv, result], by simp [hv, result]⟩
        · have hv : v.checks.smtp.probed = decide (code' ≠ 0) :=
            congrArg (fun p => p.1.1.checks.smtp.probed) hp
          refine .inr ⟨?_, by simp [hv]; omega⟩
          rintro ⟨-, _, _, hfailed⟩
          cases hreply.symm.trans hfailed

/-- The engine reaches the server that `Connects` describes. -/
theorem reached_iff_connects : (∃ dialled, reached cfg env t.mx [] = some (dialled, server)) ↔
    Connects cfg env t server := by
  have hlength : (addresses cfg t.mx).length = t.mx.length := List.length_map _
  simp only [reached_eq_some_iff, Connects, FirstReached, List.nil_append, hlength]
  constructor
  · rintro ⟨_, k, hk, rfl, hserver, hfailed⟩
    exact ⟨k, hk, hserver, hfailed⟩
  · rintro ⟨k, hk, hserver, hfailed⟩
    exact ⟨_, k, hk, rfl, hserver, hfailed⟩

/-- What a probe says about its connection: there is none, or the conversation is wordless and the
    verdict unknown, or the flag is set. -/
theorem verify_probed (cfg : Config) (env : Env) (t : Task) (eg : Binding) :
    let v := (verify (F := F) cfg env t eg).verdict
    (∀ server, ¬ Connects cfg env t server) ∧ v.checks.smtp.probed = false ∨
      ∃ server, (∀ server', Connects cfg env t server' ↔ server' = server) ∧
        (Wordless cfg t eg server ∧ v.checks.smtp.probed = false ∧ v.status = .unknown ∨
          ¬ Wordless cfg t eg server ∧ v.checks.smtp.probed = true) := by
  intro v
  simp only [← reached_iff_connects]
  -- either no host can be reached, or there is one conversation
  cases hreached : reached cfg env t.mx [] with
  | none =>
    refine .inl ⟨by simp, ?_⟩
    simp only [v, verify]
    split
    · rfl
    · rw [probeHosts_of_none t eg hreached]
      rfl
  | some p =>
    obtain ⟨dialled, server⟩ := p
    refine .inr ⟨server, by simp [eq_comm], ?_⟩
    have hv : v = ((probeHost (F := F) cfg env t eg).run { server := server }).1.1 :=
      congrArg (·.verdict) (verify_of_some (F := F) t eg hreached)
    rw [hv]
    exact probeHost_probed env t

/-- The flag of a probe tells whether there was a connection, if and only if the server reached is
    not wordless. -/
theorem verify_probed_iff (cfg : Config) (env : Env) (t : Task) (eg : Binding) :
    ((verify (F := F) cfg env t eg).verdict.checks.smtp.probed = true ↔
      ∃ server, Connects cfg env t server) ↔
    ∀ server, Connects cfg env t server → ¬ Wordless cfg t eg server := by
  rcases verify_probed (F := F) cfg env t eg with
    ⟨hnone, hprobed⟩ | ⟨server, hserver, ⟨hwordless, hprobed, -⟩ | ⟨hwordless, hprobed⟩⟩
  · simp [hnone, hprobed]
  · simp [hserver, hprobed, hwordless]
  · simp [hserver, hprobed, hwordless]

end Engine

/-! ## A call -/

namespace Query

variable {q : Query F} {t : Task} {eg : Binding} {key : String} {v : Verdict F}

/-- If the cache does not know its address, the call has this task probed with this binding. -/
def Probes (q : Query F) (t : Task) (eg : Binding) : Prop :=
  ∃ res, q.funnel = .ok res ∧ res.outcome = .inr t ∧
    (q.service.policy.lookup (Service.policyKey res t)).strategy ≠ .skip ∧
    (q.service.limiting = true → q.outside.wait = .ok ()) ∧ q.outside.binding = .ok eg

/-- A query probes for one task, with one identity. -/
theorem Probes.unique {t' : Task} {eg' : Binding} (h : q.Probes t eg) (h' : q.Probes t' eg') :
    t' = t ∧ eg' = eg := by
  obtain ⟨res, hfunnel, houtcome, -, -, hbinding⟩ := h
  obtain ⟨res', hfunnel', houtcome', -, -, hbinding'⟩ := h'
  cases hfunnel.symm.trans hfunnel'
  cases houtcome.symm.trans houtcome'
  cases hbinding.symm.trans hbinding'
  exact ⟨rfl, rfl⟩

/-- A call that has a task probed settles on what the engine answers. -/
theorem Probes.settle_eq {res : Pipeline.Result F} (h : q.Probes t eg)
    (hfunnel : q.funnel = .ok res) :
    (q.service.settle q.outside res).1 = .ok
      (match q.service.askEngine q.outside t eg with
        | none => Service.deferredVerdict res t q.outside.checkedAt
        | some (ev, _) => Service.merge res t ev) := by
  obtain ⟨res', hfunnel', houtcome, hskip, hwait, hbinding⟩ := h
  cases hfunnel.symm.trans hfunnel'
  -- without a limiter there is nothing to wait for
  have hwait : (if q.service.limiting then q.outside.wait else .ok ()) = .ok () := by
    cases hlimiting : q.service.limiting with
    | false => rfl
    | true => exact hwait hlimiting
  unfold Service.settle
  rw [houtcome]
  dsimp only
  rw [if_neg hskip, Service.probe, hwait, hbinding]
  dsimp only
  cases q.service.askEngine q.outside t eg <;> rfl

/-- The engine has the last word on the conversation. -/
theorem merge_smtp (res : Pipeline.Result F) (t : Task) (ev : Verdict F) :
    (Service.merge res t ev).checks.smtp = ev.checks.smtp := by
  unfold Service.merge
  dsimp only
  split <;> rfl

/-- A call that has nothing probed settles on a verdict without the flag. -/
theorem Settles.unprobed (hv : q.Settles key v) (h : ∀ t eg, ¬ q.Probes t eg) :
    v.checks.smtp = {} := by
  obtain ⟨res, hfunnel, -, hsettle⟩ := hv
  obtain ⟨hchecks, hverdict⟩ := Pipeline.run_unprobed hfunnel
  have hpair : q.service.settle q.outside res =
      (.ok v, (q.service.settle q.outside res).2) := Prod.ext hsettle rfl
  rcases q.service.settle_cases q.outside hpair with hv | ⟨t, ht, hcases⟩
  · exact hverdict v hv
  · -- a skip and a deferral keep the checks of the funnel
    rcases hcases with rfl | rfl | ⟨eg, ev, signals, hskip, hwait, hbinding, -, -⟩
    · exact hchecks
    · exact hchecks
    · exact absurd ⟨res, hfunnel, ht, hskip, hwait, hbinding⟩ (h t eg)

end Query

/-! ## Connections -/

/-- An engine that makes probes: its configuration, what it sees of the network, and the binding
    it probes with. -/
structure Prober where
  cfg : Engine.Config
  env : Engine.Env
  eg : Binding

/-- The engine that makes the probe of a call: that of the service, or that of the agent which
    serves the identity. The answer of an agent can get lost. -/
def Query.ProbedBy (q : Query F) (t : Task) (eg : Binding) (p : Prober) : Prop :=
  if q.service.remote eg.id then
    ∃ agent : Agent.Server, p.cfg = agent.engine ∧ p.eg = agent.binding ∧
      (q.outside.agent = none ∨
        q.outside.agent = some (agent.builtin agent.engine.detectCatchAll p.env t))
  else p = ⟨q.service.engine, q.outside.env, eg⟩

/-- A call of `Verify` with the engine that makes its probe, if it has one made. -/
structure Verification (F : Type) [OfScientific F] where
  query : Query F
  prober : Prober
  probedBy : ∀ t eg, query.Probes t eg → query.ProbedBy t eg prober

namespace Verification

variable {c : Verification F} {t : Task} {eg : Binding}

/-- The engine gets a connection to a mail server. -/
def Opens (c : Verification F) : Prop :=
  ∃ t eg server, c.query.Probes t eg ∧ Engine.Connects c.prober.cfg c.prober.env t server

/-- The answer of the agent that makes the probe is lost. -/
def Loses (c : Verification F) (eg : Binding) : Prop :=
  c.query.service.remote eg.id = true ∧ c.query.outside.agent = none

/-- The engine gets a connection, but no number comes back on it, or the answer of the engine is
    lost. -/
def Silent (c : Verification F) : Prop :=
  ∃ t eg server, c.query.Probes t eg ∧ Engine.Connects c.prober.cfg c.prober.env t server ∧
    (Engine.Wordless c.prober.cfg t c.prober.eg server ∨ c.Loses eg)

theorem Silent.opens (h : c.Silent) : c.Opens := by
  obtain ⟨t, eg, server, hprobes, hconnects, -⟩ := h
  exact ⟨t, eg, server, hprobes, hconnects⟩

/-- Whether a probe is silent is a matter of its server and its agent. -/
theorem silent_iff (h : c.query.Probes t eg) : c.Silent ↔
    ∃ server, Engine.Connects c.prober.cfg c.prober.env t server ∧
      (Engine.Wordless c.prober.cfg t c.prober.eg server ∨ c.Loses eg) := by
  constructor
  · rintro ⟨t', eg', server, hprobes, hrest⟩
    obtain ⟨rfl, rfl⟩ := h.unique hprobes
    exact ⟨server, hrest⟩
  · rintro ⟨server, hrest⟩
    exact ⟨t, eg, server, h, hrest⟩

/-- Whether a probe opens a conversation is a matter of its server. -/
theorem opens_iff (h : c.query.Probes t eg) :
    c.Opens ↔ ∃ server, Engine.Connects c.prober.cfg c.prober.env t server := by
  constructor
  · rintro ⟨t', eg', server, hprobes, hconnects⟩
    obtain ⟨rfl, rfl⟩ := h.unique hprobes
    exact ⟨server, hconnects⟩
  · rintro ⟨server, hconnects⟩
    exact ⟨t, eg, server, h, hconnects⟩

theorem not_opens (h : ∀ t eg, ¬ c.query.Probes t eg) : ¬ c.Opens := by
  rintro ⟨t, eg, -, hprobes, -⟩
  exact h t eg hprobes

/-- What the engine answers, unless the answer is lost. -/
theorem askEngine_cases (c : Verification F) (h : c.query.Probes t eg) :
    (c.Loses eg ∧ c.query.service.askEngine c.query.outside t eg = none) ∨
    (¬ c.Loses eg ∧ ∃ signals, c.query.service.askEngine c.query.outside t eg =
      some ((Engine.verify c.prober.cfg c.prober.env t c.prober.eg).verdict, signals)) := by
  have hprober := c.probedBy t eg h
  unfold Query.ProbedBy at hprober
  unfold Service.askEngine Loses
  -- a remote identity is probed by its agent, whose answer may be lost
  split at hprober
  · next hremote =>
    rw [if_pos hremote]
    obtain ⟨agent, hcfg, heg, hlost | hanswer⟩ := hprober
    · exact .inl ⟨⟨hremote, hlost⟩, hlost⟩
    · refine .inr ⟨by simp [hanswer],
        (agent.builtin (F := F) agent.engine.detectCatchAll c.prober.env t).2, ?_⟩
      rw [hanswer, hcfg, heg]
      rfl
  · next hlocal =>
    rw [if_neg hlocal, hprober]
    exact .inr ⟨fun hlost => hlocal hlost.1, _, rfl⟩

/-- The verdict that a call settles on has the flag if and only if the call has opened a connection
    and is not silent. If it is silent, the verdict is unknown. -/
theorem probed_iff (c : Verification F) {key : String} {v : Verdict F}
    (hv : c.query.Settles key v) :
    (v.checks.smtp.probed = true ↔ c.Opens ∧ ¬ c.Silent) ∧ (c.Silent → v.status = .unknown) := by
  by_cases hprobes : ∃ t eg, c.query.Probes t eg
  · obtain ⟨t, eg, hprobes⟩ := hprobes
    obtain ⟨res, hfunnel, -, hsettle⟩ := hv
    rw [hprobes.settle_eq hfunnel] at hsettle
    rw [silent_iff hprobes, opens_iff hprobes]
    rcases c.askEngine_cases hprobes with ⟨hlost, hask⟩ | ⟨hlost, signals, hask⟩
    · -- the service defers the address
      rw [hask] at hsettle
      cases hsettle
      have hchecks : ¬ (Service.deferredVerdict res t
          c.query.outside.checkedAt).checks.smtp.probed = true := by
        simp [Service.deferredVerdict, (Pipeline.run_unprobed hfunnel).1]
      refine ⟨iff_of_false hchecks ?_, fun _ => rfl⟩
      rintro ⟨⟨server, hconnects⟩, hsilent⟩
      exact hsilent ⟨server, hconnects, .inr hlost⟩
    · -- what can be silent is the conversation
      rw [hask] at hsettle
      cases hsettle
      simp only [Query.merge_smtp, hlost, or_false]
      rcases Engine.verify_probed (F := F) c.prober.cfg c.prober.env t c.prober.eg with
        ⟨hnone, hprobed⟩ | ⟨server, hserver, ⟨hwordless, hprobed, hunknown⟩ | ⟨hwordless, hprobed⟩⟩
      · simp [hnone, hprobed]
      · simp [hserver, hprobed, hwordless, Service.merge, hunknown]
      · simp [hserver, hprobed, hwordless]
  · have hnone : ∀ t eg, ¬ c.query.Probes t eg := fun t eg h => hprobes ⟨t, eg, h⟩
    refine ⟨?_, fun hsilent => absurd hsilent.opens (not_opens hnone)⟩
    rw [hv.unprobed hnone]
    simp [not_opens hnone]

end Verification

/-! ## Histories -/

/-- The call that has found out a verdict which a job records. -/
inductive Origin (events : List (LookupEvent F)) : Verdict F → Query F → Prop
  /-- A call returns the verdict that it has settled on. -/
  | settled {i : Nat} {l : Lookup F} {now : Int} {v : Verdict F}
    (h : .step i l now (.returns (.ok v)) ∈ events) (hfound : ∀ e, l.progress ≠ .found e) :
    Origin events v l.query
  /-- A call returns the verdict that it has read, which was put there by another one. -/
  | cached {i j : Nat} {l w : Lookup F} {now later readAt : Int} {e : CacheEntry F}
    {out : Stepped F}
    (h : .step i l now (.returns (.ok { e.verdict with cached := true })) ∈ events)
    (hfound : l.progress = .found e) (hwrite : .step j w later out ∈ events)
    (hputting : w.progress = .putting e.verdict readAt) (hkey : w.key = l.key) :
    Origin events { e.verdict with cached := true } w.query
  /-- A call returns an error, and the runner makes up a verdict. -/
  | failed {i : Nat} {l : Lookup F} {now : Int} {err : VerifyError} (email : String)
    (checkedAt : Int) (h : .step i l now (.returns (.error err)) ∈ events) :
    Origin events (outcome email checkedAt none) l.query
  /-- The same for an error of the funnel. -/
  | rejected {i : Nat} {q : Query F} {err : Pipeline.LookupError} (email : String)
    (checkedAt : Int) (h : .call i q ∈ events) (hfunnel : q.funnel = .error err) :
    Origin events (outcome email checkedAt none) q

section Runs

variable {ttl clock : Int} {events : List (LookupEvent F)} {s : Lookups F}

/-- Every step of a lookup in a run is sound at its time. -/
theorem Lookups.Runs.sound_of_mem (hpos : 0 < ttl) (h : Lookups.Runs ttl (.init F clock) events s)
    {i : Nat} {l : Lookup F} {now : Int} {out : Stepped F} (hmem : .step i l now out ∈ events) :
    ∃ earlier items items', (∀ event ∈ earlier, event ∈ events) ∧ l.Sound ttl earlier now ∧
      l.Next items now items' out := by
  obtain ⟨earlier, later, rfl⟩ := List.append_of_mem hmem
  obtain ⟨t, t', hearlier, ⟨-, hi, rfl, hout, -⟩, -⟩ := Run.split_cons h
  refine ⟨earlier, t.items, _, fun event => List.mem_append_left _,
    (Lookups.Runs.sound hpos hearlier).calls i l hi, l.next_cases (Prod.ext rfl hout.symm)⟩

/-- Every answer of a history has an origin. -/
theorem Lookups.Runs.exists_origin (hpos : 0 < ttl)
    (h : Lookups.Runs ttl (.init F clock) events s) {i : Nat} {l : Lookup F} {now : Int}
    {v : Verdict F} (hmem : .step i l now (.returns (.ok v)) ∈ events) :
    ∃ q, Origin events v q := by
  obtain ⟨earlier, items, items', hsub, hl, hnext⟩ := Lookups.Runs.sound_of_mem hpos h hmem
  cases hnext with
  | hit hp hlive =>
    have hkept := hl.progress
    rw [hp] at hkept
    obtain ⟨storedAt, ⟨j, w, later, out, hwrite, hputting, -, hkey, -⟩, -⟩ := hkept
    exact ⟨w.query, .cached hmem hp (hsub _ hwrite) hputting hkey⟩
  | answer hp hsettle _ => exact ⟨l.query, .settled hmem (by simp [hp])⟩
  | write hp => exact ⟨l.query, .settled hmem (by simp [hp])⟩

/-- A verdict has the flag if and only if the call that has found it out has opened a connection and
    is not silent. If it is silent, the verdict is unknown. -/
theorem Origin.probed_iff (hpos : 0 < ttl) (h : Lookups.Runs ttl (.init F clock) events s)
    {v : Verdict F} {c : Verification F} (ho : Origin events v c.query) :
    (v.checks.smtp.probed = true ↔ c.Opens ∧ ¬ c.Silent) ∧ (c.Silent → v.status = .unknown) := by
  obtain ⟨q, prober, probedBy⟩ := c
  cases ho with
  | @settled i l now v hmem hfound =>
    obtain ⟨earlier, items, items', -, hl, hnext⟩ := Lookups.Runs.sound_of_mem hpos h hmem
    have hsettle : (l.query.service.settle l.query.outside l.res).1 = .ok v := by
      have hprogress := hl.progress
      cases hnext with
      | hit hp _ => exact absurd hp (hfound _)
      | answer _ hsettle _ => exact hsettle
      | write hp =>
        rw [hp] at hprogress
        exact hprogress.1
    exact Verification.probed_iff _ ⟨l.res, hl.funnel, rfl, hsettle⟩
  | @cached i j l w now later readAt e out hmem hfound hwrite hputting hkey =>
    obtain ⟨earlier, items, items', -, hw, -⟩ := Lookups.Runs.sound_of_mem hpos h hwrite
    have hprogress := hw.progress
    rw [hputting] at hprogress
    have hiff := Verification.probed_iff ⟨w.query, prober, probedBy⟩ (v := e.verdict)
      ⟨w.res, hw.funnel, rfl, hprogress.1⟩
    exact hiff
  | @failed i l now err email checkedAt hmem =>
    obtain ⟨earlier, items, items', -, hl, hnext⟩ := Lookups.Runs.sound_of_mem hpos h hmem
    -- nothing was probed, since the service would have settled on a verdict
    have hnone : ∀ t eg, ¬ l.query.Probes t eg := by
      intro t eg hprobes
      cases hnext with
      | fail _ hsettle => cases (hprobes.settle_eq hl.funnel).symm.trans hsettle
    have hopens := Verification.not_opens (c := ⟨l.query, prober, probedBy⟩) hnone
    exact ⟨iff_of_false (by simp [outcome]) fun h => hopens h.1, fun _ => rfl⟩
  | @rejected i q err email checkedAt hmem hfunnel =>
    have hnone : ∀ t eg, ¬ q.Probes t eg := by
      rintro t eg ⟨res, hres, -⟩
      cases hfunnel.symm.trans hres
    have hopens := Verification.not_opens (c := ⟨q, prober, probedBy⟩) hnone
    exact ⟨iff_of_false (by simp [outcome]) fun h => hopens h.1, fun _ => rfl⟩

end Runs

/-! ## Jobs -/

omit [OfScientific F] in
/-- The statistics count the results that are marked as probed. -/
theorem JobStats.probed_ofResults (results : List (JobResult F)) :
    (ofResults results).probed = results.countP (·.verdict.checks.smtp.probed) := by
  rw [ofResults_eq]
  rfl

open Classical in
/-- The results of a job whose verification has opened a connection. A result from the cache counts
    as the verification that it comes from. -/
noncomputable def opened (job : List (JobResult F × Verification F)) : Nat :=
  job.countP fun r => r.2.Opens

/-- Each result of the job comes from its verification. -/
def Records (events : List (LookupEvent F)) (job : List (JobResult F × Verification F)) : Prop :=
  ∀ r ∈ job, Origin events r.1.verdict r.2.query

/-- The statistics of a job count the connections if and only if no verification is silent. -/
theorem stats_probed_iff {ttl clock : Int} {events : List (LookupEvent F)} {s : Lookups F}
    (hpos : 0 < ttl) (h : Lookups.Runs ttl (.init F clock) events s)
    {job : List (JobResult F × Verification F)} (hjob : Records events job) :
    (JobStats.ofResults (job.map (·.1))).probed = opened job ↔ ∀ r ∈ job, ¬ r.2.Silent := by
  classical
  have hprobed : ∀ r ∈ job, (r.1.verdict.checks.smtp.probed = true ↔ r.2.Opens ∧ ¬ r.2.Silent) :=
    fun r hr => ((hjob r hr).probed_iff hpos h).1
  rw [JobStats.probed_ofResults, List.countP_map, opened, List.countP_eq_countP_iff]
  · -- the counts agree if every probe that is opened is marked, since the marked ones are among
    -- them
    constructor
    · intro hall r hr hsilent
      have hflag := hall r hr (by simpa using hsilent.opens)
      exact ((hprobed r hr).mp hflag).2 hsilent
    · intro hsilent r hr hopens
      exact (hprobed r hr).mpr ⟨by simpa using hopens, hsilent r hr⟩
  · intro r hr hflag
    simpa using ((hprobed r hr).mp hflag).1

/-- For every network and every server, the flag of a probe tells whether a connection was made if
    and only if the server reached is not wordless. In every history of calls on a memory store
    each answer comes from a verification, and for every job the statistics count the results whose
    verification has opened a connection if and only if none of these is silent. The verdict of a
    silent one is unknown. -/
theorem probed_counts_iff {ttl clock : Int} {events : List (LookupEvent F)} {s : Lookups F}
    (hpos : 0 < ttl) (h : Lookups.Runs ttl (.init F clock) events s) :
    (∀ (cfg : Engine.Config) (env : Engine.Env) (t : Task) (eg : Binding),
      ((Engine.verify (F := F) cfg env t eg).verdict.checks.smtp.probed = true ↔
        ∃ server, Engine.Connects cfg env t server) ↔
      ∀ server, Engine.Connects cfg env t server → ¬ Engine.Wordless cfg t eg server) ∧
    (∀ i l now v, .step i l now (.returns (.ok v)) ∈ events → ∃ q, Origin events v q) ∧
    ∀ job, Records events job →
      ((JobStats.ofResults (job.map (·.1))).probed = opened job ↔ ∀ r ∈ job, ¬ r.2.Silent) ∧
      ∀ r ∈ job, r.2.Silent → r.1.verdict.status = .unknown := by
  refine ⟨Engine.verify_probed_iff, fun i l now v hmem => h.exists_origin hpos hmem, ?_⟩
  exact fun job hjob => ⟨stats_probed_iff hpos h hjob,
    fun r hr hsilent => ((hjob r hr).probed_iff hpos h).2 hsilent⟩

/-! ## A job with one address -/

/-- A verification by the engine of the service. -/
def Query.verification (q : Query F) (eg : Binding) (hbinding : q.outside.binding = .ok eg)
    (hlocal : q.service.remote eg.id = false) : Verification F where
  query := q
  prober := ⟨q.service.engine, q.outside.env, eg⟩
  probedBy := by
    rintro t eg' ⟨-, -, -, -, -, hbinding'⟩
    cases hbinding.symm.trans hbinding'
    rw [Query.ProbedBy, if_neg (by simp [hlocal])]

/-- The job of a call that is the only one. -/
theorem Verification.exists_job (c : Verification F) {ttl : Int} {status : Status} {flag : Bool}
    (hpos : 0 < ttl) (httl : c.query.service.cacheTTL = ttl)
    (hread : c.query.outside.readAt = 0) (hstored : c.query.outside.storedAt = 0)
    (hfunnel : ∃ res, c.query.funnel = .ok res)
    (hresult : (c.query.service.call c.query.outside c.query.email
      fun _ => none).result.toOption.map (fun v => (v.cached, v.status, v.checks.smtp.probed)) =
        some (false, status, flag)) :
    ∃ events s v, Lookups.Runs ttl (.init F 0) events s ∧ Records events [(⟨"", v⟩, c)] ∧
      v.status = status ∧ v.checks.smtp.probed = flag := by
  obtain ⟨res, hfunnel⟩ := hfunnel
  obtain ⟨v, hv, hfields⟩ := VerifyCall.exists_result hresult
  simp only [Prod.mk.injEq] at hfields
  have hidle : (Lookups.init F 0).calls 0 = none := rfl
  simp only [Service.call] at hv
  obtain ⟨events, p, hrun, -⟩ := Lookups.exists_runs_verify hidle hread hstored hfunnel hv rfl
  rw [httl] at hrun
  refine ⟨_, _, v, hrun, fun r hr => ?_, hfields.2⟩
  obtain rfl := List.mem_singleton.mp hr
  have hmem : LookupEvent.step 0 ⟨c.query, res, p⟩ 0 (.returns (.ok v)) ∈
      (.call 0 c.query :: events) ++ [.step 0 ⟨c.query, res, p⟩ 0 (.returns (.ok v))] := by
    simp
  refine Origin.settled hmem fun e hp => ?_
  -- a verdict that was read would be marked
  obtain ⟨earlier, items, items', -, -, hnext⟩ := Lookups.Runs.sound_of_mem hpos hrun hmem
  cases hnext with
  | hit _ _ => cases hfields.1
  | answer hp' _ _ => cases hp.symm.trans hp'
  | write hp' => cases hp.symm.trans hp'

/-- The binding of an identity without names of its own. -/
def plainBinding : Binding := { id := "w1", helo := "", mailFrom := "", transport := {} }

/-- A network in which every dial reaches this mail server. -/
def serverEnv (server : Server) : Engine.Env :=
  { network := fun _ => some server, now := 0, random := none }

/-- A call for `a@example.net`, for which this mail server is reached. -/
def serverQuery (server : Server) : Query ℚ where
  service := plainService
  outside := { plainOutside ℚ with binding := .ok plainBinding, env := serverEnv server }
  email := "a@example.net"

/-- The verification of that address. -/
def serverVerification (server : Server) : Verification ℚ :=
  (serverQuery server).verification plainBinding rfl rfl

/-- The funnel lets the address pass. -/
theorem serverQuery_probes (server : Server) :
    ∃ t, (serverQuery server).Probes t plainBinding ∧ t.mx = ["mx.example.net"] := by
  have hfunnel : (Pipeline.run defaultDisposableSet (plainOutside ℚ).resolver 0
      "a@example.net").toOption.bind (fun res : Pipeline.Result ℚ =>
        res.outcome.getRight?.map fun t =>
          ((Policy.default.lookup (Service.policyKey res t)).strategy, t.mx)) =
      some (.probe, ["mx.example.net"]) := by
    decide +kernel
  -- the evaluation has a task, so the run returns a result with one
  cases hres : Pipeline.run (F := ℚ) defaultDisposableSet (plainOutside ℚ).resolver 0
    "a@example.net" with
  | error err => simp [hres, Except.toOption] at hfunnel
  | ok res =>
    cases ht : res.outcome with
    | inl v => simp [hres, ht, Except.toOption] at hfunnel
    | inr t =>
      simp only [hres, ht, Except.toOption, Option.bind_some, Sum.getRight?_inr, Option.map_some,
        Option.some.injEq, Prod.mk.injEq] at hfunnel
      refine ⟨t, ⟨res, hres, ht, ?_, fun h => (by cases h), rfl⟩, hfunnel.2⟩
      exact fun hskip => absurd (hfunnel.1.symm.trans hskip) (by decide)

/-- The connection is made. -/
theorem serverVerification_opens (server : Server) : (serverVerification server).Opens := by
  obtain ⟨t, hprobes, hmx⟩ := serverQuery_probes server
  refine ⟨t, plainBinding, server, hprobes, 0, ?_, rfl, by simp⟩
  simp [Engine.addresses, hmx, serverVerification, Query.verification]

theorem serverVerification_funnel (server : Server) :
    ∃ res, (serverVerification server).query.funnel = .ok res := by
  obtain ⟨t, ⟨res, hfunnel, -⟩, -⟩ := serverQuery_probes server
  exact ⟨res, hfunnel⟩

/-- A server that accepts everything: the result of the job is counted. -/
theorem probed_counts_accepted : ∃ (events : List (LookupEvent ℚ)) (s : Lookups ℚ)
    (job : List (JobResult ℚ × Verification ℚ)),
    Lookups.Runs (24 * hour) (.init ℚ 0) events s ∧ Records events job ∧ job.length = 1 ∧
      (JobStats.ofResults (job.map (·.1))).probed = 1 ∧ opened job = 1 := by
  obtain ⟨events, s, v, hrun, hrecords, hstatus, hflag⟩ :
      ∃ events s v, Lookups.Runs (24 * hour) (.init ℚ 0) events s ∧
        Records events [(⟨"", v⟩, serverVerification Agent.openServer)] ∧
        v.status = .deliverable ∧ v.checks.smtp.probed = true :=
    (serverVerification Agent.openServer).exists_job (by decide) rfl rfl rfl
      (serverVerification_funnel _) (by decide +kernel)
  obtain ⟨hcount, hsilent⟩ := (probed_counts_iff (by decide) hrun).2.2 _ hrecords
  have hprobed : (JobStats.ofResults [(⟨"", v⟩ : JobResult ℚ)]).probed = 1 := by
    rw [JobStats.probed_ofResults]
    simp [hflag]
  refine ⟨events, s, _, hrun, hrecords, rfl, hprobed, ?_⟩
  rw [← hcount.mpr ?_]
  · exact hprobed
  · -- no result is silent, since that would leave its status unknown
    intro r hr hr'
    have hunknown := hsilent r hr hr'
    obtain rfl := List.mem_singleton.mp hr
    cases hstatus.symm.trans hunknown

/-- A server that is ready and refuses to be greeted. -/
def refusingServer : Server
  | [] => .reply 220 "ready" Response.ready_code
  | _ :: _ => .reply 502 "5.5.1 not here" (by decide)

/-- The connection is made and the server answers to everything. The verdict of the engine says
    that nothing was probed, and the statistics of a job do not count the address. -/
theorem helo_rejected_uncounted :
    (Engine.Connects (Engine.new {}) (serverEnv refusingServer) Agent.openTask refusingServer ∧
      (Engine.verify (F := ℚ) (Engine.new {}) (serverEnv refusingServer) Agent.openTask
        plainBinding).verdict.checks.smtp.probed = false) ∧
    ∃ (events : List (LookupEvent ℚ)) (s : Lookups ℚ) (job : List (JobResult ℚ × Verification ℚ)),
      Lookups.Runs (24 * hour) (.init ℚ 0) events s ∧ Records events job ∧ job.length = 1 ∧
        (JobStats.ofResults (job.map (·.1))).probed = 0 ∧ opened job = 1 := by
  refine ⟨⟨⟨0, by decide, rfl, by simp⟩, by decide +kernel⟩, ?_⟩
  obtain ⟨events, s, v, hrun, hrecords, hstatus, hflag⟩ :
      ∃ events s v, Lookups.Runs (24 * hour) (.init ℚ 0) events s ∧
        Records events [(⟨"", v⟩, serverVerification refusingServer)] ∧
        v.status = .unknown ∧ v.checks.smtp.probed = false :=
    (serverVerification refusingServer).exists_job (by decide) rfl rfl rfl
      (serverVerification_funnel _) (by decide +kernel)
  refine ⟨events, s, _, hrun, hrecords, rfl, ?_, ?_⟩
  · rw [JobStats.probed_ofResults]
    simp [hflag]
  · simp [opened, serverVerification_opens]

end Rcptto.Native
