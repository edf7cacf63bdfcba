import Rcptto.ForStd.Run
import Rcptto.Native.Engine
import Rcptto.Native.Limiter
import Rcptto.Native.Pipeline

/-!
# The verifier

`internal/verifier/verifier.go` with the policies of `internal/policy`, which an operator edits, and
the result cache of `internal/store/memory/memory.go`. `Service.Verify` runs the funnel, asks the
cache, and for an address that is neither rejected nor known probes it through an egress identity:
with the builtin engine, or with the agent of the identity if it lives on another machine.

What comes from outside during a call is in `Outside`: the answers of DNS, of the limiter, of
the egress provider and of an agent, and the clock. An agent may answer anything that decodes
into a response. `Outcome.calls` keeps what the service asked for, in order.
-/

namespace Rcptto.Native

/-! ## Policies -/

namespace Policy

/-- `policy.Strategy`; `unset` is the empty text. -/
inductive Strategy where
  | unset
  | probe
  | skip
  | statistical
  | other (text : String) (h : text ∉ ["", "probe", "skip", "statistical"])
  deriving DecidableEq

/-- `Rule`. -/
structure Rule where
  strategy : Strategy
  reason : String
  deriving DecidableEq

/-- `Set`. -/
structure Set where
  rules : String → Option Rule
  defRule : Rule

/-- `Set.Set`. -/
def Set.set (s : Set) (providerOrDomain : String) (r : Rule) : Set :=
  let key := toLower providerOrDomain
  if key = "default" then { s with defRule := r }
  else { s with rules := Function.update s.rules key (some r) }

/-- `New`, for a map that is iterated in this order. -/
def new (rules : List (String × Rule)) : Set :=
  rules.foldl (fun s kv => s.set kv.1 kv.2)
    { rules := fun _ => none
      defRule := { strategy := .probe, reason := "no policy configured; probe by default" } }

/-- `Default`. -/
def default : Set :=
  new [("gmail",
      { strategy := .skip
        reason := "Gmail throttles/blocks repeated SMTP probing; results are unreliable" }),
    ("yahoo",
      { strategy := .skip
        reason :=
          "Yahoo commonly accepts-then-bounces later; a probe verdict is not trustworthy" }),
    ("microsoft",
      { strategy := .skip
        reason := "Microsoft aggressively rate-limits and blocks unfamiliar probing IPs" }),
    ("microsoft365",
      { strategy := .skip
        reason := "Microsoft 365 inherits Microsoft's probing-hostile posture" })]

/-- `normalize`. -/
def normalize (r : Rule) : Rule :=
  if r.strategy = .unset then { r with strategy := .probe } else r

/-- `Lookup`. -/
def Set.lookup (s : Set) (providerOrDomain : String) : Rule :=
  match s.rules (toLower providerOrDomain) with
  | some r => normalize r
  | none => normalize s.defRule

/-- `policy.Strategy(text)`: any text is accepted. -/
def Strategy.ofString (text : String) : Strategy :=
  if hu : text = "" then unset
  else if hp : text = "probe" then probe
  else if hs : text = "skip" then skip
  else if ht : text = "statistical" then statistical
  else other text (by simp [hu, hp, hs, ht])

/-- `policyUpdateRequest`. -/
structure UpdateRequest where
  strategy : String
  reason : String
  deriving DecidableEq

/-- What `writeProblem` writes. -/
structure Problem where
  status : Nat
  code : String
  detail : String
  deriving DecidableEq

/-- `handleSetPolicy` of `internal/api/admin.go` with the `Set` of `policyAdapter`, for a server
    with or without policies and a body that decodes into a request or does not. -/
def handleSetPolicy (policy : Option Set) (provider : String) (body : Option UpdateRequest) :
    Except Problem Set :=
  match policy with
  | none =>
    .error ⟨501, "admin_disabled", "the policy admin API is not enabled on this server"⟩
  | some set =>
    match body with
    | none =>
      .error ⟨400, "invalid_request",
        "request body must be JSON of the form " ++
          "\x7b\"strategy\": \"probe|skip|statistical\", \"reason\": \"...\"\x7d"⟩
    | some req =>
      if req.strategy ∈ ["probe", "skip", "statistical"] then
        .ok (set.set provider ⟨.ofString req.strategy, req.reason⟩)
      else
        .error ⟨400, "invalid_strategy", "strategy must be one of: probe, skip, statistical"⟩

/-- The rule that `List` has under this key. -/
def Set.entry (s : Set) (key : String) : Option Rule :=
  if key = "default" then some (normalize s.defRule) else (s.rules key).map normalize

/-- `handlePolicySet` of `internal/web/web.go` with the `Set` of `webPolicyAdapter`: the policies,
    and the rule that is shown; without one the answer is 404. An error is a status and a text. -/
def handlePolicySet (policy : Option Set) (key strategy : String) :
    Except (Nat × String) (Set × Option Rule) :=
  match policy with
  | none => .error (501, "the policy dashboard is not enabled on this server")
  | some set =>
    if strategy ∈ ["probe", "skip", "statistical"] then
      let set := set.set key ⟨.ofString strategy, "dashboard edit"⟩
      .ok (set, set.entry key)
    else .error (400, "strategy must be one of: probe, skip, statistical")

end Policy

/-! ## The result cache -/

/-- `memory.entry`; no expiry is `none`. -/
structure CacheEntry (F : Type) where
  verdict : Verdict F
  expiresAt : Option Int

/-- `memory.ResultStore`. -/
abbrev ResultStore (F : Type) := String → Option (CacheEntry F)

namespace ResultStore

variable {F : Type}

/-- `Get`, which evicts an expired entry. -/
def get (s : ResultStore F) (key : String) (now : Int) : Option (Verdict F) × ResultStore F :=
  match s key with
  | none => (none, s)
  | some e =>
    if e.expiresAt.any (now > ·) then (none, Function.update s key none) else (some e.verdict, s)

/-- `Put`. -/
def put (s : ResultStore F) (key : String) (v : Verdict F) (ttl : Int) (now : Int) :
    ResultStore F :=
  Function.update s key
    (some { verdict := v, expiresAt := if ttl > 0 then some (now + ttl) else none })

end ResultStore

/-! ## The service -/

/-- `verifier.Service`: whether it has a cache and a limiter, its policies, its local engine,
    and which identities are served by an agent. The funnel is part of it through the set of
    disposable domains. -/
structure Service where
  disposable : String → Bool
  caching : Bool
  cacheTTL : Int
  policy : Policy.Set
  limiting : Bool
  engine : Engine.Config
  remote : String → Bool

/-- The defaulting of the time to live in `verifier.New`. -/
def Service.new (s : Service) : Service :=
  { s with cacheTTL := if s.cacheTTL = 0 then 24 * hour else s.cacheTTL }

/-- Why `limiter.Wait` fails: the wait is too long, or the context has ended. -/
inductive WaitError where
  | limiter (err : LimiterError)
  | ctx
  deriving DecidableEq

/-- What a call of `Verify` gets from outside. `agent` is what the agent of the chosen identity
    answers, if it answers. -/
structure Outside (F : Type) where
  resolver : Pipeline.Resolver
  readAt : Int
  checkedAt : Int
  storedAt : Int
  wait : Except WaitError Unit
  binding : Except EgressError Binding
  env : Engine.Env
  agent : Option (Verdict F × List Signal)

/-- The errors of `Verify`. -/
inductive VerifyError where
  | funnel (err : Pipeline.LookupError)
  | ctx
  deriving DecidableEq

/-- What the service asks of others during a call. -/
inductive ServiceCall where
  | wait (key : String)
  | binding (t : Task)
  | engine (remote : Bool) (t : Task) (eg : Binding)
  | emit (signals : List Signal)
  deriving DecidableEq

/-- What a call of `Verify` comes to: its result, the cache, and what was asked of others. -/
structure Outcome (F : Type) where
  result : Except VerifyError (Verdict F)
  cache : ResultStore F
  calls : List ServiceCall

namespace Service

variable {F : Type} [OfScientific F]

/-- `policyKey`. -/
def policyKey (res : Pipeline.Result F) (t : Task) : String :=
  if res.provider ≠ "" ∧ res.provider ≠ "custom" then res.provider else t.domain

/-- `destinationKey`. -/
def destinationKey (res : Pipeline.Result F) (t : Task) : String :=
  match res.mx with
  | host :: _ => if host ≠ "" then toLower host else toLower t.domain
  | [] => toLower t.domain

/-- `skipVerdict`. -/
def skipVerdict (res : Pipeline.Result F) (t : Task) (now : Int) : Verdict F where
  email := t.email
  normalized := t.normalized
  status := .risky
  subStatus := .providerSkipped
  confidence := 0.3
  checks := res.checks
  provider := res.provider
  engine := ""
  egressID := ""
  checkedAt := now

/-- `deferredVerdict`. -/
def deferredVerdict (res : Pipeline.Result F) (t : Task) (now : Int) : Verdict F where
  email := t.email
  normalized := t.normalized
  status := .unknown
  subStatus := .temporaryFailure
  confidence := 0.1
  checks := res.checks
  provider := res.provider
  engine := ""
  egressID := ""
  checkedAt := now

/-- `merge`. -/
def merge (res : Pipeline.Result F) (t : Task) (ev : Verdict F) : Verdict F :=
  let out := { ev with
    checks := { ev.checks with
      syntaxCheck := res.checks.syntaxCheck
      mx := res.checks.mx
      disposable := res.checks.disposable
      role := res.checks.role
      free := res.checks.free }
    normalized := if ev.normalized = "" then t.normalized else ev.normalized
    provider := if ev.provider = "" then res.provider else ev.provider }
  -- a role account is risky only if its mailbox exists
  if out.status = .deliverable ∧ res.checks.role = true then
    { out with status := .risky, subStatus := .roleAccount, confidence := 0.5 }
  else out

/-- `engineFor` and the call of the engine: its verdict and signals, if there is no error. The
    builtin engine never returns one. -/
def askEngine (s : Service) (o : Outside F) (t : Task) (eg : Binding) :
    Option (Verdict F × List Signal) :=
  if s.remote eg.id then o.agent
  else
    let r := Engine.verify s.engine o.env t eg
    some (r.verdict, r.signals)

/-- `probe`. -/
def probe (s : Service) (o : Outside F) (res : Pipeline.Result F) (t : Task) :
    Except VerifyError (Verdict F) × List ServiceCall :=
  let waited := if s.limiting then [.wait (destinationKey res t)] else []
  match if s.limiting then o.wait else .ok () with
  -- the end of the context is an error, a wait that is too long is a verdict
  | .error .ctx => (.error .ctx, waited)
  | .error (.limiter _) => (.ok (deferredVerdict res t o.checkedAt), waited)
  | .ok () =>
    let asked := waited ++ [.binding t]
    match o.binding with
    | .error _ => (.ok (deferredVerdict res t o.checkedAt), asked)
    | .ok eg =>
      let probed := asked ++ [.engine (s.remote eg.id) t eg]
      match s.askEngine o t eg with
      | none => (.ok (deferredVerdict res t o.checkedAt), probed)
      | some (ev, signals) => (.ok (merge res t ev), probed ++ [.emit signals])

/-- `cacheGet`. -/
def cacheGet (s : Service) (cache : ResultStore F) (key : String) (now : Int) :
    Option (Verdict F) × ResultStore F :=
  if !s.caching || key = "" then (none, cache) else cache.get key now

/-- `cachePut`. -/
def cachePut (s : Service) (cache : ResultStore F) (key : String) (v : Verdict F) (now : Int) :
    ResultStore F :=
  if !s.caching || key = "" then cache else cache.put key v s.cacheTTL now

/-- The key of a funnel result in the cache. -/
def cacheKey (res : Pipeline.Result F) : String :=
  match res.outcome with
  | .inl v => v.normalized
  | .inr t => t.normalized

/-- The part of `Verify` after a miss of the cache: the final verdict. -/
def settle (s : Service) (o : Outside F) (res : Pipeline.Result F) :
    Except VerifyError (Verdict F) × List ServiceCall :=
  match res.outcome with
  | .inl v => (.ok v, [])
  | .inr t =>
    -- every other strategy probes
    if (s.policy.lookup (policyKey res t)).strategy = .skip then
      (.ok (skipVerdict res t o.checkedAt), [])
    else s.probe o res t

/-- `Verify`. -/
def verify (s : Service) (o : Outside F) (email : String) (cache : ResultStore F) : Outcome F :=
  match Pipeline.run s.disposable o.resolver o.checkedAt email with
  | .error err => { result := .error (.funnel err), cache := cache, calls := [] }
  | .ok res =>
    let key := cacheKey res
    match s.cacheGet cache key o.readAt with
    | (some v, cache) => { result := .ok { v with cached := true }, cache := cache, calls := [] }
    | (none, cache) =>
      match s.settle o res with
      | (.error err, calls) => { result := .error err, cache := cache, calls := calls }
      | (.ok final, calls) =>
        -- an unknown verdict is worth another try and is not kept
        { result := .ok final
          cache := if final.status ≠ .unknown then s.cachePut cache key final o.storedAt else cache
          calls := calls }

end Service

/-! ## Histories -/

/-- A call of `Verify` with its result. -/
structure VerifyCall (F : Type) where
  service : Service
  outside : Outside F
  email : String
  result : Except VerifyError (Verdict F)

/-- One call of `Verify` on a cache. Between two calls anything about the service may be
    changed except its funnel. -/
def ResultStore.Step {F : Type} [OfScientific F] (disposable : String → Bool)
    (cache : ResultStore F) (c : VerifyCall F) (cache' : ResultStore F) : Prop :=
  c.service.disposable = disposable ∧
    let out := c.service.verify c.outside c.email cache
    out.result = c.result ∧ out.cache = cache'

/-- A history of calls. -/
abbrev ResultStore.Runs {F : Type} [OfScientific F] (disposable : String → Bool)
    (cache : ResultStore F) (calls : List (VerifyCall F)) (cache' : ResultStore F) : Prop :=
  Run (ResultStore.Step disposable) cache calls cache'

end Rcptto.Native
