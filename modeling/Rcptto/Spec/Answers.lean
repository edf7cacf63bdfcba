import Mathlib.Algebra.Order.Ring.Rat
import Rcptto.Spec.Engine
import Rcptto.Spec.Funnel

/-!
# Answers from the result cache

A verdict is kept under the key of its address, so a later call for an address with the same key
is answered with it. The cache holds nothing but verdicts that earlier calls settled on
(`ResultStore.Runs.stored`), and what an answer says of the address is what the funnel says of
the address of one of these calls.

## Key results

- `Service.verify_cases`: what a call can come to
- `ResultStore.Runs.answered`: every answer was settled on by this call or an earlier one
- `answer_of_key`: what an answer says of the address
-/

namespace Rcptto.Native

variable {F : Type} [OfScientific F]

/-! ## Where answers come from -/

/-- Everything in `cache` is in `cache'`. -/
def ResultStore.Sub (cache cache' : ResultStore F) : Prop :=
  ∀ key entry, cache key = some entry → cache' key = some entry

namespace Service

variable (s : Service) (o : Outside F) (email : String) (cache : ResultStore F)

omit [OfScientific F] in
/-- A lookup adds nothing to the cache. -/
theorem cacheGet_sub (key : String) (now : Int) : (s.cacheGet cache key now).2.Sub cache := by
  intro k entry h
  unfold cacheGet ResultStore.get at h
  split at h
  · exact h
  split at h
  · exact h
  split at h
  · -- an expired entry is evicted
    dsimp only at h
    rw [Function.update_apply] at h
    split at h
    · cases h
    · exact h
  · exact h

omit [OfScientific F] in
/-- A hit is an entry of the cache. -/
theorem cacheGet_eq_some {key : String} {now : Int} {v : Verdict F}
    (h : (s.cacheGet cache key now).1 = some v) : ∃ entry, cache key = some entry ∧
      entry.verdict = v := by
  unfold cacheGet ResultStore.get at h
  split at h
  · cases h
  split at h
  · cases h
  · next entry hentry =>
    split at h
    · cases h
    · exact ⟨entry, hentry, Option.some.inj h⟩

omit [OfScientific F] in
/-- A write adds an entry under its own key only. -/
theorem cachePut_eq_some {key k : String} {now : Int} {v : Verdict F} {entry : CacheEntry F}
    (h : s.cachePut cache key v now k = some entry) :
    cache k = some entry ∨ k = key ∧ entry.verdict = v := by
  unfold cachePut ResultStore.put at h
  split at h
  · exact .inl h
  · rw [Function.update_apply] at h
    split at h
    · next hk =>
      cases h
      exact .inr ⟨hk, rfl⟩
    · exact .inl h

section

variable {s o email cache} {res : Pipeline.Result F} {cache₁ : ResultStore F}

/-- A call whose funnel fails. -/
theorem verify_of_error {err : Pipeline.LookupError}
    (hrun : Pipeline.run (F := F) s.disposable o.resolver o.checkedAt email = .error err) :
    s.verify o email cache = { result := .error (.funnel err), cache := cache, calls := [] } := by
  unfold verify
  rw [hrun]

/-- A call that finds its address in the cache. -/
theorem verify_of_hit {v : Verdict F}
    (hrun : Pipeline.run s.disposable o.resolver o.checkedAt email = .ok res)
    (hget : s.cacheGet cache (cacheKey res) o.readAt = (some v, cache₁)) :
    s.verify o email cache =
      { result := .ok { v with cached := true }, cache := cache₁, calls := [] } := by
  unfold verify
  rw [hrun]
  dsimp only
  rw [hget]

/-- A call that does not find its address in the cache. -/
theorem verify_of_miss
    (hrun : Pipeline.run s.disposable o.resolver o.checkedAt email = .ok res)
    (hget : s.cacheGet cache (cacheKey res) o.readAt = (none, cache₁)) :
    s.verify o email cache =
      { result := (s.settle o res).1
        cache :=
          match (s.settle o res).1 with
          | .error _ => cache₁
          | .ok final =>
            if final.status ≠ .unknown then s.cachePut cache₁ (cacheKey res) final o.storedAt
            else cache₁
        calls := (s.settle o res).2 } := by
  unfold verify
  rw [hrun]
  dsimp only
  rw [hget]
  dsimp only
  -- an error is not cached, and neither is a verdict whose status is unknown
  cases s.settle o res with
  | mk result calls => cases result <;> rfl

end

/-- A call fails, answers from the cache, or settles on a verdict, which may be kept. -/
theorem verify_cases :
    ((s.verify o email cache).cache.Sub cache ∧
      ∃ err, (s.verify o email cache).result = .error err) ∨
    ∃ res, Pipeline.run s.disposable o.resolver o.checkedAt email = .ok res ∧
      (((s.verify o email cache).cache.Sub cache ∧
        ∃ entry, cache (cacheKey res) = some entry ∧
          (s.verify o email cache).result = .ok { entry.verdict with cached := true }) ∨
      ∃ final calls, (s.cacheGet cache (cacheKey res) o.readAt).1 = none ∧
        s.settle o res = (.ok final, calls) ∧ (s.verify o email cache).result = .ok final ∧
        ∀ key entry, (s.verify o email cache).cache key = some entry →
          cache key = some entry ∨
            key = cacheKey res ∧ entry.verdict = final ∧ final.status ≠ .unknown) := by
  cases hrun : Pipeline.run (F := F) s.disposable o.resolver o.checkedAt email with
  | error err =>
    left
    rw [verify_of_error hrun]
    exact ⟨fun key entry h => h, _, rfl⟩
  | ok res =>
    have hsub := s.cacheGet_sub cache (cacheKey res) o.readAt
    cases hget : s.cacheGet cache (cacheKey res) o.readAt with
    | mk hit cache₁ =>
      rw [hget] at hsub
      cases hit with
      | some v =>
        obtain ⟨entry, hentry, rfl⟩ := s.cacheGet_eq_some cache (congrArg Prod.fst hget)
        rw [verify_of_hit hrun hget]
        exact .inr ⟨res, rfl, .inl ⟨hsub, entry, hentry, rfl⟩⟩
      | none =>
        rw [verify_of_miss hrun hget]
        cases hsettle : s.settle o res with
        | mk result calls =>
          cases result with
          | error err => exact .inl ⟨hsub, err, rfl⟩
          | ok final =>
            refine .inr ⟨res, rfl, .inr ⟨final, calls, by rw [hget], hsettle, rfl, ?_⟩⟩
            intro key entry h
            -- only a verdict that is not `unknown` is put into the cache
            dsimp only at h
            split at h
            · next hstatus =>
              rcases s.cachePut_eq_some cache₁ h with h | ⟨hkey, hverdict⟩
              · exact .inl (hsub key entry h)
              · exact .inr ⟨hkey, hverdict, hstatus⟩
            · exact .inl (hsub key entry h)

/-- A probe ends in a deferral or with the verdict of an engine. -/
theorem probe_cases {res : Pipeline.Result F} {t : Task} {v : Verdict F} {calls : List ServiceCall}
    (h : s.probe o res t = (.ok v, calls)) :
    v = deferredVerdict res t o.checkedAt ∨
      ∃ eg ev signals, (s.limiting = true → o.wait = .ok ()) ∧ o.binding = .ok eg ∧
        s.askEngine o t eg = some (ev, signals) ∧ v = merge res t ev := by
  unfold probe at h
  dsimp only at h
  -- the limiter, the egress provider and the engine are asked in this order, and each of them can
  -- put the probe off
  split at h
  · cases h
  · cases h
    exact .inl rfl
  · next hwait =>
    split at h
    · cases h
      exact .inl rfl
    · next eg hbinding =>
      split at h
      · cases h
        exact .inl rfl
      · next ev signals hask =>
        cases h
        refine .inr ⟨eg, ev, signals, fun hlimiting => ?_, hbinding, hask, rfl⟩
        rwa [if_pos hlimiting] at hwait

/-- The verdict that a call settles on comes from the funnel, from a policy or from a probe. -/
theorem settle_cases {res : Pipeline.Result F} {v : Verdict F} {calls : List ServiceCall}
    (h : s.settle o res = (.ok v, calls)) :
    res.outcome = .inl v ∨ ∃ t, res.outcome = .inr t ∧
      (v = skipVerdict res t o.checkedAt ∨ v = deferredVerdict res t o.checkedAt ∨
        ∃ eg ev signals, (s.policy.lookup (policyKey res t)).strategy ≠ .skip ∧
          (s.limiting = true → o.wait = .ok ()) ∧ o.binding = .ok eg ∧
          s.askEngine o t eg = some (ev, signals) ∧ v = merge res t ev) := by
  unfold settle at h
  split at h
  · next houtcome =>
    cases h
    exact .inl houtcome
  · next t houtcome =>
    refine .inr ⟨t, houtcome, ?_⟩
    -- the policy can skip the address
    split at h
    · cases h
      exact .inl rfl
    · next hskip =>
      rcases s.probe_cases o h with hdeferred | ⟨eg, ev, signals, hprobe⟩
      · exact .inr (.inl hdeferred)
      · exact .inr (.inr ⟨eg, ev, signals, hskip, hprobe⟩)

end Service

namespace VerifyCall

/-- The funnel of a call. -/
def funnel (c : VerifyCall F) : Except Pipeline.LookupError (Pipeline.Result F) :=
  Pipeline.run c.service.disposable c.outside.resolver c.outside.checkedAt c.email

/-- The call asks the cache for this key. -/
def Asks (c : VerifyCall F) (key : String) : Prop :=
  ∃ res, c.funnel = .ok res ∧ Service.cacheKey res = key

/-- The verdict that the call settles on if the cache does not know the address. -/
def Settles (c : VerifyCall F) (key : String) (v : Verdict F) : Prop :=
  ∃ res calls, c.funnel = .ok res ∧ Service.cacheKey res = key ∧
    c.service.settle c.outside res = (.ok v, calls)

end VerifyCall

/-- The verdicts that are kept were settled on by the calls so far, and returned by them. -/
def ResultStore.Stored (calls : List (VerifyCall F)) (cache : ResultStore F) : Prop :=
  ∀ key entry, cache key = some entry →
    ∃ c ∈ calls, c.Settles key entry.verdict ∧ c.result = .ok entry.verdict

namespace ResultStore.Runs

variable {disposable : String → Bool} {cache' : ResultStore F} {calls : List (VerifyCall F)}

/-- Every entry of the cache is a verdict that an earlier call has settled on and returned. -/
theorem stored (h : ResultStore.Runs disposable (fun _ => none) calls cache') :
    ResultStore.Stored calls cache' := by
  refine Run.history (I := ResultStore.Stored) h (fun key entry hentry => by cases hentry) ?_
  rintro hist cache c _ - ih ⟨-, hresult, rfl⟩ key entry hentry
  have hold : cache key = some entry →
      ∃ a ∈ hist ++ [c], a.Settles key entry.verdict ∧ a.result = .ok entry.verdict := by
    intro h
    obtain ⟨a, ha, hsettles⟩ := ih key entry h
    exact ⟨a, List.mem_append_left _ ha, hsettles⟩
  -- the call fails, finds an entry, or settles on a verdict, which may be kept
  rcases c.service.verify_cases c.outside c.email cache with
    ⟨hsub, -⟩ | ⟨res, hrun, ⟨hsub, -⟩ | ⟨final, calls, -, hsettle, hfinal, hkept⟩⟩
  · exact hold (hsub key entry hentry)
  · exact hold (hsub key entry hentry)
  · rcases hkept key entry hentry with h | ⟨rfl, rfl, -⟩
    · exact hold h
    · exact ⟨c, by simp, ⟨res, calls, hrun, rfl, hsettle⟩, hresult ▸ hfinal⟩

/-- All calls of a run use the same list of disposable domains. -/
theorem disposable_eq {cache : ResultStore F} (h : ResultStore.Runs disposable cache calls cache') :
    ∀ c ∈ calls, c.service.disposable = disposable := by
  intro c hc
  obtain ⟨earlier, later, rfl⟩ := List.append_of_mem hc
  obtain ⟨-, -, -, ⟨hdisposable, -⟩, -⟩ := Run.split_cons h
  exact hdisposable

/-- Every answer is a verdict that this call settled on, or that an earlier call for the same key
    did. -/
theorem answered {earlier later : List (VerifyCall F)} {c : VerifyCall F} {v : Verdict F}
    (h : ResultStore.Runs disposable (fun _ => none) (earlier ++ c :: later) cache')
    (hv : c.result = .ok v) :
    ∃ key, c.Asks key ∧ (c.Settles key v ∨
      ∃ a ∈ earlier, ∃ v₀, a.Settles key v₀ ∧ v = { v₀ with cached := true }) := by
  obtain ⟨cache, cache₁, hearlier, ⟨-, hresult, -⟩, -⟩ := Run.split_cons h
  rw [hv] at hresult
  -- an error, a hit, or a verdict of this call itself
  rcases c.service.verify_cases c.outside c.email cache with
    ⟨-, err, herr⟩ | ⟨res, hrun, ⟨-, entry, hentry, hhit⟩ | ⟨final, calls, -, hsettle, hfinal, -⟩⟩
  · rw [herr] at hresult
    cases hresult
  · rw [hhit] at hresult
    cases hresult
    obtain ⟨a, ha, hsettles, -⟩ := stored hearlier _ entry hentry
    exact ⟨_, ⟨res, hrun, rfl⟩, .inr ⟨a, ha, _, hsettles, rfl⟩⟩
  · rw [hfinal] at hresult
    cases hresult
    exact ⟨_, ⟨res, hrun, rfl⟩, .inl ⟨res, calls, hrun, rfl, hsettle⟩⟩

end ResultStore.Runs

/-! ## What answers say -/

omit [OfScientific F] in
/-- A task has the address and the key of the funnel's result. -/
theorem Pipeline.Result.fields_of_task {res : Pipeline.Result F} {t : Task}
    (h : res.outcome = .inr t) :
    res.fields.email = t.email ∧ res.fields.normalized = t.normalized := by
  simp [Pipeline.Result.fields, Service.cacheKey, h]

/-- The key of a task is not empty. -/
theorem Pipeline.normalized_ne_empty_of_task {disposable : String → Bool} {r : Resolver}
    {now : Int} {email : String} {res : Pipeline.Result F} {t : Task}
    (hrun : Pipeline.run disposable r now email = .ok res) (ht : res.outcome = .inr t) :
    t.normalized ≠ "" := by
  obtain ⟨l, d, hparts⟩ := Pipeline.accepted_of_task hrun ht
  rw [← (Pipeline.Result.fields_of_task ht).2, (Pipeline.run_tells hrun).1]
  exact normalized_ne_empty _ hparts

/-- `merge` keeps the fields of the funnel but for the address and the key, which are the engine's.
    An empty key is replaced by that of the task. -/
theorem Service.merge_fields (res : Pipeline.Result F) (t : Task) (ev : Verdict F) :
    (Service.merge res t ev).fields =
      { res.fields with
        email := ev.email
        normalized := if ev.normalized = "" then t.normalized else ev.normalized } := by
  unfold Service.merge
  dsimp only
  split <;> rfl

/-- The verdict says of the address of the call what the funnel says of it, or it was sent by an
    agent, which chose `Email` and, unless it left it out, `Normalized`. -/
def VerifyCall.Says (disposable : String → Bool) (c : VerifyCall F) (v : Verdict F) : Prop :=
  v.fields = addressFields disposable c.email ∨
    ∃ eg ev signals, c.outside.binding = .ok eg ∧ c.service.remote eg.id = true ∧
      c.outside.agent = some (ev, signals) ∧
      v.fields =
        { addressFields disposable c.email with
          email := ev.email
          normalized :=
            if ev.normalized = "" then (addressFields disposable c.email).normalized
            else ev.normalized }

theorem VerifyCall.Asks.eq {c : VerifyCall F} {key : String} (h : c.Asks key) :
    key = (addressFields c.service.disposable c.email).normalized := by
  obtain ⟨res, hrun, rfl⟩ := h
  exact congrArg AddressFields.normalized (Pipeline.run_tells hrun).1

theorem VerifyCall.Settles.asks {c : VerifyCall F} {key : String} {v : Verdict F}
    (h : c.Settles key v) : c.Asks key := by
  obtain ⟨res, calls, hrun, hkey, -⟩ := h
  exact ⟨res, hrun, hkey⟩

/-- A verdict that a call settles on says what the funnel does, or what an agent has answered. -/
theorem VerifyCall.Settles.says {c : VerifyCall F} {key : String} {v : Verdict F}
    (h : c.Settles key v) : c.Says c.service.disposable v := by
  obtain ⟨res, calls, hrun, -, hsettle⟩ := h
  obtain ⟨hfields, hverdict⟩ := Pipeline.run_tells hrun
  -- from the funnel, a skip, a deferral, or an engine
  rcases c.service.settle_cases c.outside hsettle with hv | ⟨t, ht, hcases⟩
  · exact .inl (hverdict v hv).1
  obtain ⟨hemail, hnormalized⟩ := Pipeline.Result.fields_of_task ht
  rcases hcases with rfl | rfl | ⟨eg, ev, signals, -, -, hbinding, hask, rfl⟩
  · left
    rw [← hfields]
    exact AddressFields.ext hemail.symm hnormalized.symm rfl rfl rfl rfl
  · left
    rw [← hfields]
    exact AddressFields.ext hemail.symm hnormalized.symm rfl rfl rfl rfl
  · unfold Service.askEngine at hask
    split at hask
    · next hremote =>
      right
      refine ⟨eg, ev, signals, hbinding, hremote, hask, ?_⟩
      rw [Service.merge_fields, hfields, ← hnormalized, hfields]
    · left
      cases hask
      -- the builtin engine answers for the address of its task, whose key is not empty
      have hne := Pipeline.normalized_ne_empty_of_task hrun ht
      obtain ⟨⟨status, sub, code, msg, catchAll, -, hev⟩, -⟩ :=
        Engine.verify_report (F := F) c.service.engine c.outside.env t eg
      have hfirst : firstNonEmpty [t.normalized, t.email] = t.normalized := by
        rw [Engine.firstNonEmpty_pair, if_pos hne]
      rw [Service.merge_fields, hev, ← hfields]
      refine AddressFields.ext hemail.symm ?_ rfl rfl rfl rfl
      show (if firstNonEmpty [t.normalized, t.email] = "" then t.normalized
        else firstNonEmpty [t.normalized, t.email]) = res.fields.normalized
      rw [hfirst, if_neg hne, hnormalized]

/-- The funnel of the call gives the fields of its address. -/
def VerifyCall.Told (disposable : String → Bool) (c : VerifyCall F) : Prop :=
  ∃ res, c.funnel = .ok res ∧ res.fields = addressFields disposable c.email

/-- A call that gets through the funnel is told of its address. -/
theorem VerifyCall.Asks.told {c : VerifyCall F} {key : String} (h : c.Asks key) :
    c.Told c.service.disposable := by
  obtain ⟨res, hrun, -⟩ := h
  exact ⟨res, hrun, (Pipeline.run_tells hrun).1⟩

/-- In every history of calls that starts with an empty cache, an answer says what the funnel says
    of the address `a.email` of this call or, if it is marked as cached, of an earlier call. The
    two addresses have the same key, and unless that is `@gmail.com` they are akin. -/
theorem answer_of_key {disposable : String → Bool} {cache' : ResultStore F}
    {earlier later : List (VerifyCall F)} {c : VerifyCall F} {v : Verdict F}
    (h : ResultStore.Runs disposable (fun _ => none) (earlier ++ c :: later) cache')
    (hv : c.result = .ok v) :
    ∃ a, (a = c ∨ a ∈ earlier ∧ v.cached = true) ∧ a.Told disposable ∧ c.Told disposable ∧
      a.Says disposable v ∧
      (addressFields disposable a.email).normalized =
        (addressFields disposable c.email).normalized ∧
      ((addressFields disposable c.email).normalized ≠ "@gmail.com" →
        Akin disposable a.email c.email) := by
  have hall := ResultStore.Runs.disposable_eq h
  have hc : c.service.disposable = disposable := hall c (by simp)
  obtain ⟨key, hasks, hsettles | ⟨a, ha, v₀, hsettles, rfl⟩⟩ := ResultStore.Runs.answered h hv
  · -- the answer is the call's own
    refine ⟨c, .inl rfl, ?_⟩
    rw [← hc]
    exact ⟨hasks.told, hasks.told, hsettles.says, rfl, fun _ => .refl _ _⟩
  · -- the answer is that of the earlier call `a`, which asked for the same key
    have ha' : a.service.disposable = disposable := hall a (by simp [ha])
    have hkey : (addressFields disposable a.email).normalized =
        (addressFields disposable c.email).normalized := by
      have hkeyc := hasks.eq
      have hkeya := hsettles.asks.eq
      rw [hc] at hkeyc
      rw [ha'] at hkeya
      rw [← hkeya, hkeyc]
    have htold := hsettles.asks.told
    have hsays := hsettles.says
    rw [ha'] at htold hsays
    exact ⟨a, .inr ⟨ha, rfl⟩, htold, by rw [← hc]; exact hasks.told, hsays, hkey, akin_of_key hkey⟩

/-! ## Two calls in a row -/

/-- A call, with the result that it has on this cache. -/
def Service.call (s : Service) (o : Outside F) (email : String) (cache : ResultStore F) :
    VerifyCall F :=
  ⟨s, o, email, (s.verify o email cache).result⟩

/-- A call for `e` and then a call for `e'`. -/
def Service.calls (s : Service) (o : Outside F) (e e' : String) : List (VerifyCall F) :=
  [s.call o e fun _ => none, s.call o e' (s.verify o e fun _ => none).cache]

theorem Service.step_call (s : Service) (o : Outside F) (email : String) (cache : ResultStore F) :
    ResultStore.Step s.disposable cache (s.call o email cache) (s.verify o email cache).cache := by
  simp only [ResultStore.Step, Service.call, and_self]

theorem Service.runs_calls (s : Service) (o : Outside F) (e e' : String) :
    ResultStore.Runs s.disposable (fun _ => none) (s.calls o e e')
      (s.verify o e' (s.verify o e fun _ => none).cache).cache :=
  .cons (s.step_call o e _) (Run.singleton_iff.mpr (s.step_call o e' _))

/-- After a call for `e`, the answer to a call for `e'` differs in this field from what the funnel
    says of `e'`. -/
def Service.Mistaken {α : Type} (s : Service) (o : Outside F) (e e' : String)
    (field : AddressFields → α) : Prop :=
  ∃ c₁ c₂ cache v res, ResultStore.Runs s.disposable (fun _ => none) [c₁, c₂] cache ∧
    c₁.email = e ∧ c₂.email = e' ∧ c₁.outside = o ∧ c₂.outside = o ∧
    c₂.result = .ok v ∧ c₂.funnel = .ok res ∧ field v.fields ≠ field res.fields

/-- Whether that is so, by evaluation. -/
def Service.mistaken {α : Type} [DecidableEq α] (s : Service) (o : Outside F) (e e' : String)
    (field : AddressFields → α) : Bool :=
  let c := s.call o e' (s.verify o e fun _ => none).cache
  match c.result, c.funnel with
  | .ok v, .ok res => field v.fields ≠ field res.fields
  | _, _ => false

/-- The test finds mistakes only. -/
theorem Service.mistaken_sound {α : Type} [DecidableEq α] {s : Service} {o : Outside F}
    {e e' : String} {field : AddressFields → α} (h : s.mistaken o e e' field = true) :
    s.Mistaken o e e' field := by
  unfold Service.mistaken at h
  dsimp only at h
  split at h
  · next v res hresult hfunnel =>
    exact ⟨_, _, _, v, res, s.runs_calls o e e', rfl, rfl, rfl, rfl, hresult, hfunnel,
      of_decide_eq_true h⟩
  · cases h

/-- The default funnel and policies, a cache, no limiter and no agents. -/
def plainService : Service where
  disposable := defaultDisposableSet
  caching := true
  cacheTTL := 24 * hour
  policy := Policy.default
  limiting := false
  engine := Engine.new {}
  remote _ := false

/-- Every domain has a mail exchanger, and there is no egress identity. -/
def plainOutside (F : Type) : Outside F where
  resolver := { lookupMX := fun _ => .ok ["mx.example.net."], lookupHost := fun _ => none }
  readAt := 0
  checkedAt := 0
  storedAt := 0
  wait := .ok ()
  binding := .error .errNoEgress
  env := { network := fun _ => none, now := 0, random := none }
  agent := none

/-- An identity is handed out, and its agent answers with this verdict. -/
def agentOutside (ev : Verdict F) : Outside F :=
  { plainOutside F with
    binding := .ok { id := "w1", helo := "", mailFrom := "", transport := {} }
    agent := some (ev, []) }

/-- A verdict of an agent that answers for another address than the one it was asked about. -/
def strayVerdict : Verdict ℚ where
  email := "b@example.net"
  normalized := "b@example.net"
  status := .deliverable
  subStatus := .validMailbox
  confidence := 0.9
  checks := {}
  provider := ""
  engine := "builtin"
  egressID := "w1"
  checkedAt := 0

omit [OfScientific F] in
/-- A call whose result has a value under `f` has returned a verdict. -/
theorem VerifyCall.exists_result {α : Type} {c : VerifyCall F} {f : Verdict F → α} {a : α}
    (h : c.result.toOption.map f = some a) : ∃ v, c.result = .ok v ∧ f v = a := by
  cases hresult : c.result with
  | error err =>
    rw [hresult] at h
    cases h
  | ok v =>
    rw [hresult] at h
    exact ⟨v, rfl, Option.some.inj h⟩

/-- A call for `A@yahoo.com`, and a call for `a@yahoo.com` that is answered from the cache. -/
theorem answer_of_key_yahoo : ∃ (c₁ c₂ : VerifyCall ℚ) (v : Verdict ℚ),
    c₂.email = "a@yahoo.com" ∧ c₂.result = .ok v ∧ v.email = "A@yahoo.com" ∧
    ∃ a, (a = c₂ ∨ a ∈ [c₁] ∧ v.cached = true) ∧ a.Told defaultDisposableSet ∧
      c₂.Told defaultDisposableSet ∧ a.Says defaultDisposableSet v ∧
      (addressFields defaultDisposableSet a.email).normalized =
        (addressFields defaultDisposableSet c₂.email).normalized ∧
      ((addressFields defaultDisposableSet c₂.email).normalized ≠ "@gmail.com" →
        Akin defaultDisposableSet a.email c₂.email) := by
  have hemail : (plainService.call (plainOutside ℚ) "a@yahoo.com"
      (plainService.verify (plainOutside ℚ) "A@yahoo.com" fun _ => none).cache).result.toOption.map
        (·.email) = some "A@yahoo.com" := by
    decide +kernel
  obtain ⟨v, hv, hemail⟩ := VerifyCall.exists_result hemail
  exact ⟨_, _, v, rfl, hv, hemail,
    answer_of_key (plainService.runs_calls (plainOutside ℚ) "A@yahoo.com" "a@yahoo.com") hv⟩

/-- Each of the fields can be that of another address: `Email` and, at Gmail, `Role` that of a
    variant which came first; `Disposable` and `Free` that of the other domain of Gmail, if only
    one of them is listed; `Syntax` that of the text `@gmail.com`; and `Email` and `Normalized` what
    an agent sent. -/
theorem variant_answered :
    plainService.Mistaken (plainOutside ℚ) "A@yahoo.com" "a@yahoo.com" (·.email) ∧
    plainService.Mistaken (plainOutside ℚ) "info@gmail.com" "info+x@gmail.com" (·.role) ∧
    (∀ field ∈ [AddressFields.disposable, AddressFields.free],
      Service.Mistaken { plainService with disposable := (· = "googlemail.com") }
        (plainOutside ℚ) "a@gmail.com" "a@googlemail.com" field) ∧
    plainService.Mistaken (plainOutside ℚ) "@gmail.com" "+abc@gmail.com" (·.syntaxCheck) ∧
    ∀ field ∈ [AddressFields.email, AddressFields.normalized],
      Service.Mistaken { plainService with remote := fun _ => true }
        (agentOutside strayVerdict) "a@example.net" "a@example.net" field := by
  refine ⟨Service.mistaken_sound (by decide +kernel), Service.mistaken_sound (by decide +kernel),
    ?_, Service.mistaken_sound (by decide +kernel), ?_⟩
  · -- the list of disposable domains has one of the two domains of Gmail
    intro field hfield
    rcases List.mem_pair.mp hfield with rfl | rfl
    · exact Service.mistaken_sound (by decide +kernel)
    · exact Service.mistaken_sound (by decide +kernel)
  · intro field hfield
    rcases List.mem_pair.mp hfield with rfl | rfl
    · exact Service.mistaken_sound (by decide +kernel)
    · exact Service.mistaken_sound (by decide +kernel)

end Rcptto.Native
