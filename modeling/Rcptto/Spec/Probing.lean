import Rcptto.Native.ResultCache
import Rcptto.Spec.Buckets

/-!
# When a probe is spent

A probe costs reputation, so the service asks an engine only for an address that the funnel leaves
open, that the cache does not know, that the limiter lets through and for which there is an
identity, and everything that an engine reports is passed on. The policies have a say too, but the
only strategy that stops a probe is `skip`. An operator may also set `statistical`, which is
described as working without a live probe, and the addresses under such a rule are probed.

## Key results

- `Service.verify_calls`: what a call asks of others, in order
- `spendsRightly_iff`: the calls that spend probes as the policies say
- `statistical_probed`: an address is probed under a rule that says not to
-/

namespace Rcptto.Native

/-! ## What an operator can set -/

namespace Policy

/-- The strategies that `handleSetPolicy` accepts. -/
def settable : List Strategy := [.probe, .skip, .statistical]

/-- A strategy that a request may name is one of the three. -/
theorem normalize_ofString_mem {text : String} (reason : String)
    (h : text ∈ ["probe", "skip", "statistical"]) :
    (normalize ⟨.ofString text, reason⟩).strategy ∈ settable := by
  simp only [List.mem_cons, List.not_mem_nil, or_false] at h
  rcases h with rfl | rfl | rfl <;> simp [normalize, Strategy.ofString, settable]

/-- A rule that is set is found, or what was found before. -/
theorem lookup_set (s : Set) (providerOrDomain key : String) (r : Rule) :
    (s.set providerOrDomain r).lookup key = normalize r ∨
      (s.set providerOrDomain r).lookup key = s.lookup key := by
  unfold Set.set
  dsimp only
  -- the default is kept apart from the rules
  by_cases hdefault : toLower providerOrDomain = "default"
  · rw [if_pos hdefault]
    unfold Set.lookup
    dsimp only
    cases s.rules (toLower key) with
    | none => exact .inl rfl
    | some r' => exact .inr rfl
  · rw [if_neg hdefault]
    unfold Set.lookup
    dsimp only
    by_cases hkey : toLower key = toLower providerOrDomain
    · rw [hkey, Function.update_self]
      exact .inl rfl
    · rw [Function.update_of_ne hkey]
      exact .inr rfl

/-- A rule that is set brings its own strategy only. -/
theorem lookup_set_mem {s : Set} {r : Rule} {strategies : List Strategy}
    (hs : ∀ key, (s.lookup key).strategy ∈ strategies)
    (hr : (normalize r).strategy ∈ strategies) (providerOrDomain key : String) :
    ((s.set providerOrDomain r).lookup key).strategy ∈ strategies := by
  rcases lookup_set s providerOrDomain key r with hset | hset
  · rwa [hset]
  · rw [hset]
    exact hs key

/-- Any number of rules that are set bring their own strategies only. -/
theorem lookup_foldl_mem {strategies : List Strategy} (rules : List (String × Rule)) (s : Set)
    (hrules : ∀ kv ∈ rules, (normalize kv.2).strategy ∈ strategies)
    (hs : ∀ key, (s.lookup key).strategy ∈ strategies) (key : String) :
    ((rules.foldl (fun s kv => s.set kv.1 kv.2) s).lookup key).strategy ∈ strategies := by
  induction rules generalizing s with
  | nil => exact hs key
  | cons kv rules ih =>
    refine ih _ (fun kv' hkv' => hrules kv' (List.mem_cons_of_mem _ hkv')) ?_
    exact lookup_set_mem hs (hrules kv List.mem_cons_self) kv.1

theorem lookup_default (key : String) : (default.lookup key).strategy ∈ settable :=
  lookup_foldl_mem _ _ (by decide) (fun _ => List.mem_cons_self) key

/-- A request that is accepted sets one of the three strategies. -/
theorem lookup_of_handleSetPolicy {s s' : Set} {provider : String} {body : Option UpdateRequest}
    (hs : ∀ key, (s.lookup key).strategy ∈ settable)
    (h : handleSetPolicy (some s) provider body = .ok s') (key : String) :
    (s'.lookup key).strategy ∈ settable := by
  cases body with
  | none => cases h
  | some req =>
    unfold handleSetPolicy at h
    dsimp only at h
    -- an unknown strategy is refused
    split at h
    · next hmem =>
      obtain rfl := Except.ok.inj h
      exact lookup_set_mem hs (normalize_ofString_mem req.reason hmem) provider key
    · cases h

/-- A request of the dashboard leaves the strategies among the three. -/
theorem lookup_of_handlePolicySet {s s' : Set} {key strategy : String} {shown : Option Rule}
    (hs : ∀ key, (s.lookup key).strategy ∈ settable)
    (h : handlePolicySet (some s) key strategy = .ok (s', shown)) (key' : String) :
    (s'.lookup key').strategy ∈ settable := by
  unfold handlePolicySet at h
  dsimp only at h
  split at h
  · next hmem =>
    obtain ⟨rfl, -⟩ := Prod.mk.inj (Except.ok.inj h)
    exact lookup_set_mem hs (normalize_ofString_mem _ hmem) key key'
  · cases h

/-- An operator edits the policies, through the API or on the dashboard. -/
def Edit (s s' : Set) : Prop :=
  (∃ provider body, handleSetPolicy (some s) provider body = .ok s') ∨
    ∃ key strategy shown, handlePolicySet (some s) key strategy = .ok (s', shown)

/-- Whatever operators make of the default policies, the strategies are among the three. -/
theorem lookup_of_edits {s : Set} (h : Relation.ReflTransGen Edit default s) (key : String) :
    (s.lookup key).strategy ∈ settable := by
  induction h generalizing key with
  | refl => exact lookup_default key
  | tail _ hedit ih =>
    rcases hedit with ⟨provider, body, hset⟩ | ⟨key', strategy, shown, hset⟩
    · exact lookup_of_handleSetPolicy ih hset key
    · exact lookup_of_handlePolicySet ih hset key

end Policy

variable {F : Type} [OfScientific F]

/-! ## What a call asks of others -/

namespace Service

variable (s : Service) (o : Outside F) (email : String) (cache : ResultStore F)

/-- The limiter lets the probe through. -/
def Granted : Prop := s.limiting = true → o.wait = .ok ()

/-- The cache has no live entry for the task. -/
def Unknown (t : Task) : Prop :=
  s.caching = true → ∀ e, cache t.normalized = some e → e.expired o.readAt = true

/-- The funnel leaves the address open, and the cache does not know it. -/
structure Open (res : Pipeline.Result F) (t : Task) : Prop where
  run : Pipeline.run s.disposable o.resolver o.checkedAt email = .ok res
  task : res.outcome = .inr t
  unknown : s.Unknown o cache t

/-- The wait for the limiter. -/
def waits (res : Pipeline.Result F) (t : Task) : List ServiceCall :=
  if s.limiting then [.wait (destinationKey res t)] else []

/-- What is passed on after the engine was asked. -/
def reports (t : Task) (eg : Binding) : List ServiceCall :=
  match s.askEngine o t eg with
  | none => []
  | some (_, signals) => [.emit signals]

omit [OfScientific F] in
/-- A lookup misses if there is no cache, or no entry that is not expired. -/
theorem cacheGet_eq_none_iff {key : String} (hkey : key ≠ "") (now : Int) :
    (s.cacheGet cache key now).1 = none ↔
      (s.caching = true → ∀ e, cache key = some e → e.expired now = true) := by
  unfold cacheGet ResultStore.get
  -- without a cache every lookup misses
  cases s.caching with
  | false => simp
  | true =>
    simp only [Bool.not_true, Bool.false_or, decide_eq_true_eq, if_neg hkey, forall_const]
    cases hentry : cache key with
    | none => simp
    | some e =>
      simp only [Option.some.injEq, forall_eq', CacheEntry.expired]
      split <;> simp_all

/-- What a probe asks of others: the limiter, the egress provider, the engine, and then it passes
    on the signals. -/
theorem probe_calls (res : Pipeline.Result F) (t : Task) :
    (¬ s.Granted o ∧ (s.probe o res t).2 = s.waits res t) ∨
    (∃ err, o.binding = .error err ∧ (s.probe o res t).2 = s.waits res t ++ [.binding t]) ∨
    ∃ eg, s.Granted o ∧ o.binding = .ok eg ∧ (s.probe o res t).2 =
      s.waits res t ++ .binding t :: .engine (s.remote eg.id) t eg :: s.reports o t eg := by
  unfold probe
  dsimp only
  -- a wait that fails ends the probe, with an error or with a deferral
  split
  · next hwait => exact .inl ⟨fun hgranted => by simp_all [Granted], rfl⟩
  · next hwait => exact .inl ⟨fun hgranted => by simp_all [Granted], rfl⟩
  · next hwait =>
    have hgranted : s.Granted o := fun hlimiting => by rwa [if_pos hlimiting] at hwait
    right
    cases hbinding : o.binding with
    | error err => exact .inl ⟨err, rfl, rfl⟩
    | ok eg =>
      refine .inr ⟨eg, hgranted, rfl, ?_⟩
      unfold reports waits
      cases hask : s.askEngine o t eg with
      | none => simp [hask]
      | some answer => simp [hask]

/-- If the address is open, the calls are those of the probe. -/
theorem verify_calls_of_open {res : Pipeline.Result F} {t : Task}
    (h : s.Open o email cache res t) :
    (s.verify o email cache).calls =
      if (s.policy.lookup (policyKey res t)).strategy = .skip then []
      else (s.probe o res t).2 := by
  have hkey : cacheKey res = t.normalized := by rw [cacheKey, h.task]
  -- the funnel gives a task whose key is not in the cache
  have hmiss := (s.cacheGet_eq_none_iff cache (Pipeline.normalized_ne_empty_of_task h.run h.task)
    o.readAt).mpr h.unknown
  have hsettle : (s.settle o res).2 =
      if (s.policy.lookup (policyKey res t)).strategy = .skip then []
      else (s.probe o res t).2 := by
    unfold settle
    rw [h.task]
    dsimp only
    split <;> rfl
  have hget : s.cacheGet cache (cacheKey res) o.readAt = (none, _) :=
    Prod.ext (hkey ▸ hmiss) rfl
  rw [verify_of_miss h.run hget, hsettle]

/-- A call asks others only for an address that is open and not skipped. -/
theorem verify_calls :
    (s.verify o email cache).calls = [] ∨
    ∃ res t, s.Open o email cache res t ∧
      (s.policy.lookup (policyKey res t)).strategy ≠ .skip ∧
      (s.verify o email cache).calls = (s.probe o res t).2 := by
  cases hrun : Pipeline.run (F := F) s.disposable o.resolver o.checkedAt email with
  | error err =>
    left
    rw [verify_of_error hrun]
  | ok res =>
    cases houtcome : res.outcome with
    | inl v =>
      left
      cases hget : s.cacheGet cache (cacheKey res) o.readAt with
      | mk hit cache₁ =>
        cases hit with
        | some v => rw [verify_of_hit hrun hget]
        | none =>
          rw [verify_of_miss hrun hget]
          unfold settle
          rw [houtcome]
    | inr t =>
      by_cases hunknown : s.Unknown o cache t
      · have hopen : s.Open o email cache res t := ⟨hrun, houtcome, hunknown⟩
        rw [s.verify_calls_of_open o email cache hopen]
        split
        · exact .inl rfl
        · next hskip => exact .inr ⟨res, t, hopen, hskip, rfl⟩
      · -- a live entry is returned, and nobody is asked
        left
        have hkey : cacheKey res = t.normalized := by rw [cacheKey, houtcome]
        have hne := Pipeline.normalized_ne_empty_of_task hrun houtcome
        have hhit := (s.cacheGet_eq_none_iff cache hne o.readAt).not.mpr hunknown
        obtain ⟨v, hv⟩ := Option.ne_none_iff_exists'.mp hhit
        have hget : s.cacheGet cache (cacheKey res) o.readAt = (some v, _) :=
          Prod.ext (hkey ▸ hv) rfl
        rw [verify_of_hit hrun hget]

end Service

/-! ## Probes that are rightly spent -/

namespace ServiceCall

/-- The task that an identity is asked for. -/
def bound : ServiceCall → Option Task
  | binding t => some t
  | _ => none

/-- The engine that is asked, the task and the identity. -/
def probed : ServiceCall → Option (Bool × Task × Binding)
  | engine remote t eg => some (remote, t, eg)
  | _ => none

/-- The engine calls of a list. -/
theorem mem_filterMap_probed {calls : List ServiceCall} {remote : Bool} {t : Task} {eg : Binding} :
    (remote, t, eg) ∈ calls.filterMap probed ↔ engine remote t eg ∈ calls := by
  rw [List.mem_filterMap]
  constructor
  · rintro ⟨call, hcall, hprobed⟩
    cases call with
    | engine remote' t' eg' =>
      cases hprobed
      exact hcall
    | _ => cases hprobed
  · exact fun hmem => ⟨_, hmem, rfl⟩

/-- The signals that are passed on. -/
def emitted : ServiceCall → Option (List Signal)
  | emit signals => some signals
  | _ => none

end ServiceCall

namespace Service

/-- A probe of the task through the identity is allowed. -/
structure Allows (s : Service) (o : Outside F) (email : String) (cache : ResultStore F)
    (res : Pipeline.Result F) (t : Task) (eg : Binding) : Prop where
  isOpen : s.Open o email cache res t
  policy : (s.policy.lookup (policyKey res t)).strategy = .probe
  /-- The limiter was asked for the destination and let it through. -/
  granted : s.limiting = true →
    .wait (destinationKey res t) ∈ (s.verify o email cache).calls ∧ o.wait = .ok ()
  binding : o.binding = .ok eg

/-- A call of `Verify` spends probes where it is allowed, one for each identity that it gets, and
    the signals of each that returns without an error are passed on once. -/
structure SpendsRightly (s : Service) (o : Outside F) (email : String) (cache : ResultStore F) :
    Prop where
  allowed : ∀ remote t eg, .engine remote t eg ∈ (s.verify o email cache).calls →
    ∃ res, s.Allows o email cache res t eg
  one_each : ∀ eg, o.binding = .ok eg →
    (s.verify o email cache).calls.filterMap ServiceCall.probed =
      ((s.verify o email cache).calls.filterMap ServiceCall.bound).map
        fun t => (s.remote eg.id, t, eg)
  accounted : (s.verify o email cache).calls.filterMap ServiceCall.emitted =
    ((s.verify o email cache).calls.filterMap ServiceCall.probed).filterMap
      fun p => (s.askEngine o p.2.1 p.2.2).map (·.2)

/-- The call probes an address under a rule that is neither `probe` nor `skip`. -/
def Strays (s : Service) (o : Outside F) (email : String) (cache : ResultStore F) : Prop :=
  ∃ res t eg, s.Open o email cache res t ∧
    (s.policy.lookup (policyKey res t)).strategy ∉ [.probe, .skip] ∧ s.Granted o ∧
    o.binding = .ok eg

variable (s : Service) (o : Outside F) (email : String) (cache : ResultStore F)

/-- With policies that operators have set, the rule of a call that strays is `statistical`. -/
theorem strays_iff_statistical {s : Service} {o : Outside F} {email : String}
    {cache : ResultStore F}
    (hpolicy : Relation.ReflTransGen Policy.Edit Policy.default s.policy) :
    s.Strays o email cache ↔ ∃ res t eg, s.Open o email cache res t ∧
      (s.policy.lookup (policyKey res t)).strategy = .statistical ∧ s.Granted o ∧
      o.binding = .ok eg := by
  unfold Strays
  refine exists_congr fun res => exists_congr fun t => exists_congr fun eg =>
    and_congr_right fun _ => and_congr_left fun _ => ?_
  -- the three strategies are the only ones that a policy can have
  have hsettable := Policy.lookup_of_edits hpolicy (policyKey res t)
  constructor
  · intro hstrategy
    simp only [Policy.settable, List.mem_cons, List.not_mem_nil, or_false] at hsettable hstrategy
    tauto
  · intro hstrategy
    rw [hstrategy]
    decide

omit [OfScientific F] in
theorem mem_waits_iff {res : Pipeline.Result F} {t : Task} {call : ServiceCall} :
    call ∈ s.waits res t ↔ s.limiting = true ∧ call = .wait (destinationKey res t) := by
  unfold waits
  split <;> simp_all

omit [OfScientific F] in
/-- Asking the limiter does not count as a call of another kind. -/
theorem filterMap_waits {α : Type} {f : ServiceCall → Option α} (hf : ∀ key, f (.wait key) = none)
    (res : Pipeline.Result F) (t : Task) : (s.waits res t).filterMap f = [] := by
  rw [List.filterMap_eq_nil_iff]
  intro call hcall
  rw [(s.mem_waits_iff.mp hcall).2, hf]

/-- Reporting does not count as a call of another kind. -/
theorem filterMap_reports {α : Type} {f : ServiceCall → Option α}
    (hf : ∀ signals, f (.emit signals) = none) (t : Task) (eg : Binding) :
    (s.reports o t eg).filterMap f = [] := by
  unfold reports
  split
  · rfl
  · simp [hf]

/-- What is reported is what the engine has returned. -/
theorem emitted_reports (t : Task) (eg : Binding) :
    (s.reports o t eg).filterMap ServiceCall.emitted =
      ((s.askEngine o t eg).map (·.2)).toList := by
  unfold reports
  split
  · next hask => simp [hask]
  · next ev signals hask => simp [hask, ServiceCall.emitted]

/-- For each identity that a call gets it asks the engine once. -/
theorem probed_eq_bound {eg : Binding} (heg : o.binding = .ok eg) :
    (s.verify o email cache).calls.filterMap ServiceCall.probed =
      ((s.verify o email cache).calls.filterMap ServiceCall.bound).map
        fun t => (s.remote eg.id, t, eg) := by
  have hprobed (res : Pipeline.Result F) (t : Task) :=
    s.filterMap_waits (f := ServiceCall.probed) (fun _ => rfl) res t
  have hbound (res : Pipeline.Result F) (t : Task) :=
    s.filterMap_waits (f := ServiceCall.bound) (fun _ => rfl) res t
  rcases s.verify_calls o email cache with hcalls | ⟨res, t, -, -, hcalls⟩
  · rw [hcalls]
    rfl
  rw [hcalls]
  -- the wait fails, no identity is found, or the engine is asked
  rcases s.probe_calls o res t with ⟨-, hprobe⟩ | ⟨err, herr, -⟩ | ⟨eg', -, heg', hprobe⟩
  · rw [hprobe, hprobed, hbound]
    rfl
  · rw [heg] at herr
    cases herr
  · obtain rfl : eg = eg' := Except.ok.inj (heg.symm.trans heg')
    rw [hprobe, List.filterMap_append, List.filterMap_append, hprobed, hbound]
    show (s.remote eg.id, t, eg) :: (s.reports o t eg).filterMap ServiceCall.probed =
      (t :: (s.reports o t eg).filterMap ServiceCall.bound).map _
    rw [s.filterMap_reports o (fun _ => rfl), s.filterMap_reports o (fun _ => rfl)]
    rfl

/-- What a call passes on is what the engines that it asked report. -/
theorem emitted_eq_reported :
    (s.verify o email cache).calls.filterMap ServiceCall.emitted =
      ((s.verify o email cache).calls.filterMap ServiceCall.probed).filterMap
        fun p => (s.askEngine o p.2.1 p.2.2).map (·.2) := by
  have hprobed (res : Pipeline.Result F) (t : Task) :=
    s.filterMap_waits (f := ServiceCall.probed) (fun _ => rfl) res t
  have hemitted (res : Pipeline.Result F) (t : Task) :=
    s.filterMap_waits (f := ServiceCall.emitted) (fun _ => rfl) res t
  rcases s.verify_calls o email cache with hcalls | ⟨res, t, -, -, hcalls⟩
  · rw [hcalls]
    rfl
  rw [hcalls]
  -- the wait fails, no identity is found, or the engine is asked
  rcases s.probe_calls o res t with ⟨-, hprobe⟩ | ⟨err, -, hprobe⟩ | ⟨eg, -, -, hprobe⟩
  · rw [hprobe, hprobed, hemitted]
    rfl
  · rw [hprobe, List.filterMap_append, List.filterMap_append, hprobed, hemitted]
    rfl
  · rw [hprobe, List.filterMap_append, List.filterMap_append, hprobed, hemitted]
    show (s.reports o t eg).filterMap ServiceCall.emitted =
      ((s.remote eg.id, t, eg) :: (s.reports o t eg).filterMap ServiceCall.probed).filterMap _
    rw [s.emitted_reports, s.filterMap_reports o (fun _ => rfl)]
    cases hask : s.askEngine o t eg <;> simp [hask]

/-- An engine is asked for an address that is open and not skipped, after the limiter has let it
    through and an identity was handed out. -/
theorem engine_mem_calls_iff {remote : Bool} {t : Task} {eg : Binding} :
    .engine remote t eg ∈ (s.verify o email cache).calls ↔
      ∃ res, s.Open o email cache res t ∧
        (s.policy.lookup (policyKey res t)).strategy ≠ .skip ∧ s.Granted o ∧
        o.binding = .ok eg ∧ remote = s.remote eg.id := by
  have hwaits (res : Pipeline.Result F) (t' : Task) : .engine remote t eg ∉ s.waits res t' := by
    simp [s.mem_waits_iff]
  have hreports (t' : Task) (eg' : Binding) : .engine remote t eg ∉ s.reports o t' eg' := by
    unfold reports
    split <;> simp
  constructor
  · intro hmem
    rcases s.verify_calls o email cache with hcalls | ⟨res, t', hopen, hskip, hcalls⟩
    · rw [hcalls] at hmem
      cases hmem
    rw [hcalls] at hmem
    -- the probe was denied, got no identity, or asked an engine
    rcases s.probe_calls o res t' with ⟨-, hprobe⟩ | ⟨err, -, hprobe⟩ |
      ⟨eg', hgranted, hbinding, hprobe⟩
    · rw [hprobe] at hmem
      exact absurd hmem (hwaits res t')
    · rw [hprobe] at hmem
      simp [hwaits] at hmem
    · rw [hprobe] at hmem
      simp only [List.mem_append, List.mem_cons, hwaits, hreports, reduceCtorEq, false_or, or_false,
        ServiceCall.engine.injEq] at hmem
      obtain ⟨hremote, rfl, rfl⟩ := hmem
      exact ⟨res, hopen, hskip, hgranted, hbinding, hremote⟩
  · rintro ⟨res, hopen, hskip, hgranted, hbinding, rfl⟩
    rw [s.verify_calls_of_open o email cache hopen, if_neg hskip]
    rcases s.probe_calls o res t with ⟨hdenied, -⟩ | ⟨err, herr, -⟩ | ⟨eg', -, hbinding', hprobe⟩
    · exact absurd hgranted hdenied
    · rw [hbinding] at herr
      cases herr
    · obtain rfl : eg = eg' := Except.ok.inj (hbinding.symm.trans hbinding')
      rw [hprobe]
      simp

/-- The limiter is asked for the destination of an address that is open and not skipped. -/
theorem wait_mem_calls {res : Pipeline.Result F} {t : Task} (hopen : s.Open o email cache res t)
    (hskip : (s.policy.lookup (policyKey res t)).strategy ≠ .skip) (hlimiting : s.limiting = true) :
    .wait (destinationKey res t) ∈ (s.verify o email cache).calls := by
  have hmem : .wait (destinationKey res t) ∈ s.waits res t :=
    s.mem_waits_iff.mpr ⟨hlimiting, rfl⟩
  rw [s.verify_calls_of_open o email cache hopen, if_neg hskip]
  rcases s.probe_calls o res t with ⟨-, hprobe⟩ | ⟨err, -, hprobe⟩ | ⟨eg, -, -, hprobe⟩
  · rwa [hprobe]
  · rw [hprobe]
    exact List.mem_append_left _ hmem
  · rw [hprobe]
    exact List.mem_append_left _ hmem

end Service

open Service in
/-- A call spends probes rightly exactly if it does not probe an address under a rule that is
    neither `probe` nor `skip`. With policies that operators have made of the default ones, such a
    rule is `statistical`. -/
theorem spendsRightly_iff (s : Service) (o : Outside F) (email : String) (cache : ResultStore F) :
    (s.SpendsRightly o email cache ↔ ¬ s.Strays o email cache) ∧
    (Relation.ReflTransGen Policy.Edit Policy.default s.policy →
      (s.Strays o email cache ↔ ∃ res t eg, s.Open o email cache res t ∧
        (s.policy.lookup (policyKey res t)).strategy = .statistical ∧ s.Granted o ∧
        o.binding = .ok eg)) := by
  refine ⟨?_, strays_iff_statistical⟩
  constructor
  · rintro h ⟨res, t, eg, hopen, hstrategy, hgranted, hbinding⟩
    simp only [List.mem_cons, List.not_mem_nil, or_false, not_or] at hstrategy
    have hengine := (s.engine_mem_calls_iff o email cache).mpr
      ⟨res, hopen, hstrategy.2, hgranted, hbinding, rfl⟩
    obtain ⟨res', hallows⟩ := h.allowed _ t eg hengine
    obtain rfl : res = res' := Except.ok.inj (hopen.run.symm.trans hallows.isOpen.run)
    exact hstrategy.1 hallows.policy
  · intro hstrays
    -- only the first part depends on the rule
    refine ⟨?_, fun eg heg => s.probed_eq_bound o email cache heg,
      s.emitted_eq_reported o email cache⟩
    intro remote t eg hengine
    obtain ⟨res, hopen, hskip, hgranted, hbinding, -⟩ :=
      (s.engine_mem_calls_iff o email cache).mp hengine
    have hprobe : (s.policy.lookup (policyKey res t)).strategy = .probe := by
      -- the service stops at `skip`, and any other rule would make the call stray
      by_contra hprobe
      exact hstrays ⟨res, t, eg, hopen, by simp [hprobe, hskip], hgranted, hbinding⟩
    exact ⟨res, hopen, hprobe, fun hlimiting =>
      ⟨s.wait_mem_calls o email cache hopen hskip hlimiting, hgranted hlimiting⟩, hbinding⟩

/-- The policies after an operator has set `statistical` for everything without a rule. -/
def statisticalPolicy : Policy.Set := Policy.default.set "default" ⟨.statistical, "do not probe"⟩

/-- A service with these policies. -/
def statisticalService : Service := { plainService with policy := statisticalPolicy }

/-- An operator sets `statistical` for everything without a rule of its own, and the engine is
    asked for the next address in `example.net`, whose rule is this one. -/
theorem statistical_probed :
    Policy.handleSetPolicy (some Policy.default) "default" (some ⟨"statistical", "do not probe"⟩) =
      .ok statisticalPolicy ∧
    (∃ (res : Pipeline.Result ℚ) (t : Task) (eg : Binding),
      statisticalService.Open Web.openOutside "a@example.net" (fun _ => none) res t ∧
      (statisticalPolicy.lookup (Service.policyKey res t)).strategy = .statistical ∧
      .engine false t eg ∈
        (statisticalService.verify Web.openOutside "a@example.net" fun _ => none).calls) ∧
    ¬ statisticalService.SpendsRightly Web.openOutside "a@example.net" fun _ => none := by
  have hprobed : ((statisticalService.verify Web.openOutside "a@example.net"
      fun _ => none).calls.filterMap ServiceCall.probed).map (·.1) = [false] := by
    decide +kernel
  have hrule : (Pipeline.run (F := ℚ) statisticalService.disposable Web.openOutside.resolver
      Web.openOutside.checkedAt "a@example.net").toOption.map (fun res => res.outcome.getRight?.map
        fun t => (statisticalPolicy.lookup (Service.policyKey res t)).strategy) =
          some (some .statistical) := by
    decide +kernel
  obtain ⟨⟨remote, t, eg⟩, hsingle, rfl⟩ := List.map_eq_singleton_iff.mp hprobed
  have hengine : .engine false t eg ∈
      (statisticalService.verify Web.openOutside "a@example.net" fun _ => none).calls :=
    ServiceCall.mem_filterMap_probed.mp (hsingle ▸ List.mem_cons_self)
  obtain ⟨res, hopen, -⟩ := (statisticalService.engine_mem_calls_iff _ _ _).mp hengine
  have hstrategy :
      (statisticalPolicy.lookup (Service.policyKey res t)).strategy = .statistical := by
    simpa [hopen.run, hopen.task, Except.toOption] using hrule
  refine ⟨rfl, ⟨res, t, eg, hopen, hstrategy, hengine⟩, fun hrightly => ?_⟩
  obtain ⟨res', hallows⟩ := hrightly.allowed _ t eg hengine
  obtain rfl : res = res' := Except.ok.inj (hopen.run.symm.trans hallows.isOpen.run)
  have hpolicy := hallows.policy.symm.trans hstrategy
  cases hpolicy

end Rcptto.Native
