import Rcptto.Native.Lookups
import Rcptto.Spec.Answers

/-!
# Where cached verdicts come from

Calls of `Verify` run at the same time on one memory store. Whatever a call reads there was written
by a call that had settled on the verdict itself, under the same key, and unless it was written
within the time to live it is not returned. So a verdict that is marked as cached is one that was
found out recently, with one exception: the service passes on the mark of an agent as it is.

## Key results

- `Lookup.Sound.kept`: what a step of a call leaves in the store
- `cached_provenance`: a cached verdict was stored by an earlier call, within the time to live
- `agent_marks_cached`: an agent marks a verdict as cached
-/

namespace Rcptto.Native

variable {F : Type} [OfScientific F]

/-! ## What a call settles on -/

/-- The verdict that the call settles on if the cache has none under this key. -/
def Query.Settles (q : Query F) (key : String) (v : Verdict F) : Prop :=
  ∃ res, q.funnel = .ok res ∧ Service.cacheKey res = key ∧
    (q.service.settle q.outside res).1 = .ok v

/-- A query that gets through the funnel has a result of it. -/
theorem Query.exists_funnel {q : Query F} (h : q.funnel.toOption.isSome = true) :
    ∃ res, q.funnel = .ok res := by
  cases hfunnel : q.funnel with
  | error err => simp [hfunnel, Except.toOption] at h
  | ok res => exact ⟨res, rfl⟩

/-- The call has not found its address in the cache, and it passes on the answer of an agent that is
    marked as cached. -/
def Lookup.RelaysCached (l : Lookup F) : Prop :=
  (∀ e, l.progress ≠ .found e) ∧ ∃ t eg ev signals, l.res.outcome = .inr t ∧
    (l.query.service.policy.lookup (Service.policyKey l.res t)).strategy ≠ .skip ∧
    (l.query.service.limiting = true → l.query.outside.wait = .ok ()) ∧
    l.query.outside.binding = .ok eg ∧ l.query.service.remote eg.id = true ∧
    l.query.outside.agent = some (ev, signals) ∧ ev.cached = true

/-- `merge` takes the mark over from the verdict of the engine. -/
theorem Service.merge_cached (res : Pipeline.Result F) (t : Task) (ev : Verdict F) :
    (Service.merge res t ev).cached = ev.cached := by
  unfold Service.merge
  dsimp only
  split <;> rfl

/-- The engine of the server marks nothing as cached. -/
theorem Engine.verify_cached (cfg : Config) (env : Env) (t : Task) (eg : Binding) :
    (Engine.verify (F := F) cfg env t eg).verdict.cached = false := by
  obtain ⟨⟨status, sub, code, msg, catchAll, -, hverdict⟩, -⟩ :=
    Engine.verify_report (F := F) cfg env t eg
  rw [hverdict]
  rfl

/-- A verdict that a call settles on is marked as cached only if an agent did so. -/
theorem Lookup.relaysCached_of_settle {l : Lookup F} {v : Verdict F}
    (hfound : ∀ e, l.progress ≠ .found e) (hfunnel : l.query.funnel = .ok l.res)
    (hsettle : (l.query.service.settle l.query.outside l.res).1 = .ok v) (hv : v.cached = true) :
    l.RelaysCached := by
  have hpair : l.query.service.settle l.query.outside l.res =
      (.ok v, (l.query.service.settle l.query.outside l.res).2) := Prod.ext hsettle rfl
  rcases l.query.service.settle_cases l.query.outside hpair with hverdict | ⟨t, ht, hcases⟩
  · rw [Pipeline.run_cached hfunnel hverdict] at hv
    cases hv
  -- a skip, a deferral, or an engine: that of the server, which marks nothing, or an agent
  rcases hcases with rfl | rfl | ⟨eg, ev, signals, hskip, hwait, hbinding, hask, rfl⟩
  · cases hv
  · cases hv
  · rw [Service.merge_cached] at hv
    unfold Service.askEngine at hask
    split at hask
    · next hremote =>
      exact ⟨hfound, t, eg, ev, signals, ht, hskip, hwait, hbinding, hremote, hask, hv⟩
    · cases hask
      rw [Engine.verify_cached] at hv
      cases hv

/-! ## Steps of a call -/

/-- What the next step of a call can be: the store afterwards, and what it comes to. -/
inductive Lookup.Next (l : Lookup F) (items : ResultStore F) (now : Int) :
    ResultStore F → Stepped F → Prop
  | unasked (hp : l.progress = .looking) (hcaches : l.caches = false) :
    Next l items now items (.goesOn .missed)
  | absent (hp : l.progress = .looking) (hcaches : l.caches = true) (h : items l.key = none) :
    Next l items now items (.goesOn .missed)
  | read {e : CacheEntry F} (hp : l.progress = .looking) (hcaches : l.caches = true)
    (h : items l.key = some e) : Next l items now items (.goesOn (.found e))
  | expire {e : CacheEntry F} (hp : l.progress = .found e) (h : e.expired now = true) :
    Next l items now items (.goesOn (.expired e))
  | hit {e : CacheEntry F} (hp : l.progress = .found e) (h : e.expired now = false) :
    Next l items now items (.returns (.ok { e.verdict with cached := true }))
  | evict {e : CacheEntry F} (hp : l.progress = .expired e) :
    Next l items now (ResultCache.delete .memory items l.key e) (.goesOn .missed)
  | fail {err : VerifyError} (hp : l.progress = .missed)
    (h : (l.query.service.settle l.query.outside l.res).1 = .error err) :
    Next l items now items (.returns (.error err))
  | settle {v : Verdict F} (hp : l.progress = .missed)
    (h : (l.query.service.settle l.query.outside l.res).1 = .ok v) (hstatus : v.status ≠ .unknown)
    (hcaches : l.caches = true) : Next l items now items (.goesOn (.settled v))
  | answer {v : Verdict F} (hp : l.progress = .missed)
    (h : (l.query.service.settle l.query.outside l.res).1 = .ok v)
    (hkept : ¬ (v.status ≠ .unknown ∧ l.caches = true)) :
    Next l items now items (.returns (.ok v))
  | put {v : Verdict F} (hp : l.progress = .settled v) :
    Next l items now items (.goesOn (.putting v now))
  | write {v : Verdict F} {readAt : Int} (hp : l.progress = .putting v readAt) :
    Next l items now (items.put l.key v l.query.service.cacheTTL readAt) (.returns (.ok v))

/-- What a step of a call can do, read off from `next`. -/
theorem Lookup.next_cases (l : Lookup F) {items items' : ResultStore F} {now : Int}
    {out : Stepped F} (h : l.next items now = (items', out)) : l.Next items now items' out := by
  unfold Lookup.next at h
  -- by where the call stands; each branch of `next` is one case of `Next`
  cases hp : l.progress with
  | looking =>
    rw [hp] at h
    cases hcaches : l.caches with
    | false =>
      simp only [hcaches, Bool.false_eq_true, if_false] at h
      cases h
      exact .unasked hp hcaches
    | true =>
      simp only [hcaches, if_true] at h
      cases he : items l.key with
      | none =>
        rw [he] at h
        cases h
        exact .absent hp hcaches he
      | some e =>
        rw [he] at h
        cases h
        exact .read hp hcaches he
  | found e =>
    rw [hp] at h
    dsimp only at h
    split at h
    · next hexpired =>
      cases h
      exact .expire hp hexpired
    · next hexpired =>
      cases h
      exact .hit hp (by simpa using hexpired)
  | expired e =>
    rw [hp] at h
    cases h
    exact .evict hp
  | missed =>
    rw [hp] at h
    dsimp only at h
    split at h
    · next err hsettle =>
      cases h
      exact .fail hp hsettle
    · next v hsettle =>
      split at h
      · next hkept =>
        cases h
        -- a verdict whose status is unknown is not kept
        have hkept : v.status ≠ .unknown ∧ l.caches = true := by simpa using hkept
        exact .settle hp hsettle hkept.1 hkept.2
      · next hkept =>
        cases h
        exact .answer hp hsettle (by simpa using hkept)
  | settled v =>
    rw [hp] at h
    cases h
    exact .put hp
  | putting v readAt =>
    rw [hp] at h
    cases h
    exact .write hp

/-! ## The store -/

/-- In one of these events a call writes this verdict under this key. It has settled on it, and
    the time that its `Put` had read is `storedAt`. -/
def StoredIn (events : List (LookupEvent F)) (key : String) (v : Verdict F) (storedAt : Int) :
    Prop :=
  ∃ i l now out, .step i l now out ∈ events ∧ l.progress = .putting v storedAt ∧
    storedAt ≤ now ∧ l.key = key ∧ l.query.Settles key v ∧ v.status ≠ .unknown

/-- The entry was written in one of these events. -/
def Kept (ttl : Int) (events : List (LookupEvent F)) (key : String) (e : CacheEntry F) : Prop :=
  ∃ storedAt, StoredIn events key e.verdict storedAt ∧ e.expiresAt = some (storedAt + ttl)

theorem Kept.snoc {ttl : Int} {events : List (LookupEvent F)} {key : String} {e : CacheEntry F}
    (h : Kept ttl events key e) (event : LookupEvent F) : Kept ttl (events ++ [event]) key e := by
  obtain ⟨storedAt, ⟨i, l, now, out, hmem, hrest⟩, hexpires⟩ := h
  exact ⟨storedAt, ⟨i, l, now, out, List.mem_append_left _ hmem, hrest⟩, hexpires⟩

/-- What is known of a call from how far it has come. -/
def Progress.Sound (ttl : Int) (events : List (LookupEvent F)) (now : Int) (l : Lookup F) :
    Progress F → Prop
  | .looking | .missed => True
  | .found e | .expired e => Kept ttl events l.key e
  | .settled v =>
    (l.query.service.settle l.query.outside l.res).1 = .ok v ∧ v.status ≠ .unknown
  | .putting v readAt =>
    (l.query.service.settle l.query.outside l.res).1 = .ok v ∧ v.status ≠ .unknown ∧ readAt ≤ now

/-- What is known of a call. -/
structure Lookup.Sound (ttl : Int) (events : List (LookupEvent F)) (now : Int) (l : Lookup F) :
    Prop where
  cacheTTL : l.query.service.cacheTTL = ttl
  funnel : l.query.funnel = .ok l.res
  progress : l.progress.Sound ttl events now l

/-- Everything in the store was written by a call that settled on it, and the calls under way know
    nothing else from the store. -/
structure Lookups.Sound (ttl : Int) (events : List (LookupEvent F)) (s : Lookups F) : Prop where
  items : ∀ key e, s.items key = some e → Kept ttl events key e
  calls : ∀ i l, s.calls i = some l → l.Sound ttl events s.clock

section Steps

variable {ttl now : Int} {events : List (LookupEvent F)} {items : ResultStore F} {l : Lookup F}

/-- What a call knows stays true when something else happens. -/
theorem Progress.Sound.snoc {p : Progress F} (h : p.Sound ttl events now l)
    (event : LookupEvent F) {later : Int} (hle : now ≤ later) :
    p.Sound ttl (events ++ [event]) later l := by
  cases p with
  | looking => trivial
  | missed => trivial
  | found e => exact Kept.snoc h event
  | expired e => exact Kept.snoc h event
  | settled v => exact h
  | putting v readAt => exact ⟨h.1, h.2.1, h.2.2.trans hle⟩

theorem Lookup.Sound.snoc (h : l.Sound ttl events now) (event : LookupEvent F) {later : Int}
    (hle : now ≤ later) : l.Sound ttl (events ++ [event]) later :=
  ⟨h.cacheTTL, h.funnel, h.progress.snoc event hle⟩

omit [OfScientific F] in
/-- Deleting an entry leaves no other one than before. -/
theorem ResultCache.eq_of_delete {key k : String} {e entry : CacheEntry F}
    (h : ResultCache.delete .memory items key e k = some entry) : items k = some entry := by
  unfold ResultCache.delete at h
  split at h
  · rw [Function.update_apply] at h
    split at h
    · cases h
    · exact h
  · exact h

/-- A step of a call writes a verdict that the call has settled on, or nothing. -/
theorem Lookup.Sound.kept (hpos : 0 < ttl) (hl : l.Sound ttl events now)
    (hitems : ∀ key e, items key = some e → Kept ttl events key e) (i : Nat) (out : Stepped F)
    {key : String} {e : CacheEntry F} (he : (l.next items now).1 key = some e) :
    Kept ttl (events ++ [.step i l now out]) key e := by
  have hprogress := hl.progress
  have hold : items key = some e → Kept ttl (events ++ [.step i l now out]) key e :=
    fun h => (hitems key e h).snoc _
  obtain ⟨items', out', hnext⟩ : ∃ items' out', l.next items now = (items', out') := ⟨_, _, rfl⟩
  rw [hnext] at he
  cases l.next_cases hnext with
  | evict _ => exact hold (ResultCache.eq_of_delete he)
  | write hp =>
    rw [hp] at hprogress
    obtain ⟨hsettle, hstatus, hle⟩ := hprogress
    dsimp only [ResultStore.put] at he
    rw [Function.update_apply] at he
    split at he
    · -- the entry under the key of the call is the one that this step has written
      next hkey =>
      cases he
      refine ⟨_, ⟨i, l, now, out, by simp, hp, hle, hkey.symm, ?_, hstatus⟩, ?_⟩
      · exact ⟨l.res, hl.funnel, hkey.symm, hsettle⟩
      · rw [hl.cacheTTL]
        exact if_pos hpos
    · exact hold he
  | _ => exact hold he

/-- What a call knows after a step that it did not know before is what it has read. -/
theorem Lookup.Sound.goesOn (hl : l.Sound ttl events now)
    (hitems : ∀ key e, items key = some e → Kept ttl events key e) {p : Progress F}
    (hout : (l.next items now).2 = .goesOn p) : p.Sound ttl events now l := by
  have hprogress := hl.progress
  obtain ⟨items', hnext⟩ : ∃ items', l.next items now = (items', .goesOn p) :=
    ⟨_, Prod.ext rfl hout⟩
  -- the steps that return are excluded by `hout`
  cases l.next_cases hnext with
  | unasked _ _ => trivial
  | absent _ _ _ => trivial
  | read _ _ he => exact hitems _ _ he
  | expire hp _ =>
    rw [hp] at hprogress
    exact hprogress
  | evict _ => trivial
  | settle _ hsettle hstatus _ => exact ⟨hsettle, hstatus⟩
  | put hp =>
    rw [hp] at hprogress
    exact ⟨hprogress.1, hprogress.2, le_rfl⟩

end Steps

theorem Lookups.Sound.init (ttl clock : Int) : (Lookups.init F clock).Sound ttl [] where
  items _ _ h := by cases h
  calls _ _ h := by cases h

/-- One event keeps what is known. -/
theorem Lookups.Sound.step {ttl : Int} {events : List (LookupEvent F)} {s s' : Lookups F}
    {event : LookupEvent F} (hpos : 0 < ttl) (h : s.Sound ttl events)
    (httl : ∀ i q, event = .call i q → q.service.cacheTTL = ttl) (hstep : s.Step event s') :
    s'.Sound ttl (events ++ [event]) := by
  cases event with
  | tick now =>
    obtain ⟨hle, rfl⟩ := hstep
    exact ⟨fun key e he => (h.items key e he).snoc _, fun i l hl => (h.calls i l hl).snoc _ hle⟩
  | call i q =>
    cases hfunnel : q.funnel with
    | error err =>
      simp only [Lookups.Step, hfunnel] at hstep
      obtain ⟨-, rfl⟩ := hstep
      exact ⟨fun key e he => (h.items key e he).snoc _,
        fun j l hl => (h.calls j l hl).snoc _ le_rfl⟩
    | ok res =>
      simp only [Lookups.Step, hfunnel] at hstep
      obtain ⟨-, rfl⟩ := hstep
      refine ⟨fun key e he => (h.items key e he).snoc _, fun j l hl => ?_⟩
      dsimp only at hl
      rw [Function.update_apply] at hl
      split at hl
      · -- a new call knows nothing yet
        cases hl
        exact ⟨httl i q rfl, hfunnel, trivial⟩
      · exact (h.calls j l hl).snoc _ le_rfl
  | step i l now out =>
    obtain ⟨hi, rfl, hout, rfl⟩ := hstep
    -- the store changes as `kept` says, and of the calls only the one that makes the step
    have hl := h.calls i l hi
    refine ⟨fun key e he => hl.kept hpos h.items i out he, fun j l' hl' => ?_⟩
    dsimp only at hl'
    rw [Function.update_apply] at hl'
    split at hl'
    · cases out with
      | returns result => cases hl'
      | goesOn p =>
        cases hl'
        exact ⟨hl.cacheTTL, hl.funnel, (hl.goesOn h.items hout.symm).snoc _ le_rfl⟩
    · exact (h.calls j l' hl').snoc _ le_rfl

/-- In every execution all entries have been stored by earlier calls. -/
theorem Lookups.Runs.sound {ttl clock : Int} {events : List (LookupEvent F)} {s : Lookups F}
    (hpos : 0 < ttl) (h : Lookups.Runs ttl (.init F clock) events s) : s.Sound ttl events :=
  Run.history (I := fun events s => s.Sound ttl events) h (.init ttl clock)
    fun _ _ _ _ _ hsound hstep => hsound.step hpos hstep.1 hstep.2

/-! ## The steps of the store -/

/-- What the call writes after its `Put` has read the clock. -/
def Lookup.entry (l : Lookup F) (v : Verdict F) (readAt : Int) : CacheEntry F where
  verdict := v
  expiresAt :=
    if l.query.service.cacheTTL > 0 then some (readAt + l.query.service.cacheTTL) else none

/-- The call of the store that a call of `Verify` is in. -/
def Lookup.cacheCall (l : Lookup F) : Option (CacheCall F) :=
  match l.progress with
  | .looking | .missed | .settled _ => none
  | .found e => some (.read l.key e)
  | .expired e => some (.evict l.key e)
  | .putting v readAt => some (.put l.key (l.entry v readAt))

/-- The store with its own calls. -/
def Lookups.cache (s : Lookups F) : ResultCache F where
  items := s.items
  clock := s.clock
  calls := (·.bind Lookup.cacheCall) ∘ s.calls

/-- The step of the store in an event. -/
def LookupEvent.action : LookupEvent F → Option (CacheAction F)
  | tick now => some (.tick now)
  | call _ _ => none
  | step i l _ out =>
    match l.progress, out with
    | .looking, .goesOn (.found e) => some (.read i l.key (some e))
    | .looking, _ => if l.caches then some (.read i l.key none) else none
    | .found e, .returns _ => some (.hit i e.verdict)
    | .found _, .goesOn _ => some (.miss i)
    | .expired _, _ => some (.evict i true)
    | .missed, _ => none
    | .settled v, _ => some (.put i l.key v l.query.service.cacheTTL)
    | .putting v readAt, _ => some (.write i l.key (l.entry v readAt))

omit [OfScientific F] in
/-- To the cache a step of a call is a change of its entries and of one call. -/
theorem Lookups.cache_update (s : Lookups F) (items : ResultStore F) (i : Nat)
    (call : Option (Lookup F)) :
    Lookups.cache { s with items := items, calls := Function.update s.calls i call } =
      { s.cache with
        items := items
        calls := Function.update s.cache.calls i (call.bind Lookup.cacheCall) } := by
  simp [Lookups.cache, Function.comp_update]

/-- The event is a step of the store, or it leaves the store as it is. -/
def LookupEvent.Projects (event : LookupEvent F) (c c' : ResultCache F) : Prop :=
  match event.action with
  | none => c' = c
  | some a => c.Step .memory a c'

omit [OfScientific F] in
/-- A step of a call that is not at the cache does not exist for it. -/
theorem Lookups.cache_of_idle {s : Lookups F} {i : Nat} {call : Option (Lookup F)}
    (hbefore : s.cache.calls i = none) (hafter : call.bind Lookup.cacheCall = none) :
    Lookups.cache { s with calls := Function.update s.calls i call } = s.cache := by
  rw [s.cache_update s.items, hafter, ← hbefore, Function.update_eq_self]
  rfl

/-- Each step of a call is a step of the cache, or none. -/
theorem Lookup.Next.projects {s : Lookups F} {i : Nat} {l : Lookup F} {items : ResultStore F}
    {out : Stepped F} (hi : s.calls i = some l) (h : l.Next s.items s.clock items out) :
    (LookupEvent.step i l s.clock out).Projects s.cache
      (Lookups.cache
        { s with items := items, calls := Function.update s.calls i (out.after l) }) := by
  -- to the store a call is a `Get`, and then maybe a `Put`
  have hcall : s.cache.calls i = l.cacheCall := by simp [Lookups.cache, hi]
  unfold Lookup.cacheCall at hcall
  unfold LookupEvent.Projects LookupEvent.action
  cases h with
  | unasked hp hcaches =>
    simp only [hp, hcaches] at hcall ⊢
    exact Lookups.cache_of_idle hcall rfl
  | fail hp _ =>
    simp only [hp] at hcall ⊢
    exact Lookups.cache_of_idle hcall rfl
  | settle hp _ _ _ =>
    simp only [hp] at hcall ⊢
    exact Lookups.cache_of_idle hcall rfl
  | answer hp _ _ =>
    simp only [hp] at hcall ⊢
    exact Lookups.cache_of_idle hcall rfl
  | absent hp hcaches habsent =>
    simp only [hp, hcaches] at hcall ⊢
    exact ⟨hcall, habsent.symm, s.cache_update _ i _⟩
  | read hp _ he =>
    simp only [hp] at hcall ⊢
    exact ⟨hcall, he.symm, s.cache_update _ i _⟩
  | expire hp hexpired =>
    simp only [hp] at hcall ⊢
    exact ⟨_, _, hcall, hexpired, s.cache_update _ i _⟩
  | hit hp hlive =>
    simp only [hp] at hcall ⊢
    exact ⟨_, _, hcall, hlive, rfl, s.cache_update _ i _⟩
  | evict hp =>
    simp only [hp] at hcall ⊢
    exact ⟨_, _, hcall, s.cache_update _ i _⟩
  | put hp =>
    simp only [hp] at hcall ⊢
    exact ⟨hcall, s.cache_update _ i _⟩
  | write hp =>
    simp only [hp] at hcall ⊢
    exact ⟨hcall, s.cache_update _ i _⟩

/-- So is each step of the service. -/
theorem Lookups.Step.projects {s s' : Lookups F} {event : LookupEvent F} (h : s.Step event s') :
    event.Projects s.cache s'.cache := by
  -- a new call is not at the cache yet
  cases event with
  | tick now =>
    obtain ⟨hle, rfl⟩ := h
    exact ⟨hle, rfl⟩
  | call i q =>
    obtain ⟨hi, hs'⟩ := h
    have hidle : s.cache.calls i = none := by simp [Lookups.cache, hi]
    cases hfunnel : q.funnel with
    | error err => rw [hs', hfunnel]; rfl
    | ok res =>
      rw [hs', hfunnel]
      exact Lookups.cache_of_idle hidle rfl
  | step i l now out =>
    obtain ⟨hi, rfl, hout, rfl⟩ := h
    have hnext : l.next s.items s.clock = ((l.next s.items s.clock).1, out) :=
      Prod.ext rfl hout.symm
    exact (l.next_cases hnext).projects hi

/-- The calls of `Verify` take the store through steps of its own. -/
theorem Lookups.Runs.cache {ttl : Int} {s s' : Lookups F} {events : List (LookupEvent F)}
    (h : Lookups.Runs ttl s events s') :
    Run (ResultCache.Step .memory) s.cache (events.filterMap LookupEvent.action) s'.cache := by
  refine Run.project Lookups.cache LookupEvent.action ?_ ?_ h
  · intro a event b hstep hnone
    have hprojects := hstep.2.projects
    rwa [LookupEvent.Projects, hnone] at hprojects
  · intro a event b action hstep hsome
    have hprojects := hstep.2.projects
    rwa [LookupEvent.Projects, hsome] at hprojects

/-! ## Calls that nothing interrupts -/

/-- The store and the state of one call are replaced. -/
def Lookups.withCall (s : Lookups F) (i : Nat) (items : ResultStore F) (call : Option (Lookup F)) :
    Lookups F :=
  { s with items := items, calls := Function.update s.calls i call }

/-- The events are steps of calls that do not write. -/
def Writeless (events : List (LookupEvent F)) : Prop :=
  ∀ i l now out, .step i l now out ∈ events → ∀ v readAt, l.progress ≠ .putting v readAt

/-- Left alone, the call returns this result, and the store goes from `items` to `items'`. If it
    writes, then in its last step. -/
def Lookups.Completes (ttl : Int) (s : Lookups F) (i : Nat) (l : Lookup F) (items : ResultStore F)
    (result : Except VerifyError (Verdict F)) (items' : ResultStore F) : Prop :=
  ∃ events p, Lookups.Runs ttl (s.withCall i items (some l))
    (events ++ [.step i { l with progress := p } s.clock (.returns result)])
    (s.withCall i items' none) ∧ Writeless events

section Completes

variable {ttl : Int} {s : Lookups F} {i : Nat} {l : Lookup F} {items items' items'' : ResultStore F}
  {result : Except VerifyError (Verdict F)}

/-- A call takes its next step. -/
theorem Lookups.step_next {out : Stepped F} (h : l.next items s.clock = (items', out)) :
    (∀ i' q, LookupEvent.step i l s.clock out = .call i' q → q.service.cacheTTL = ttl) ∧
      (s.withCall i items (some l)).Step (.step i l s.clock out)
        (s.withCall i items' (out.after l)) := by
  refine ⟨by simp, Function.update_self .., rfl, (congrArg Prod.snd h).symm, ?_⟩
  simp [Lookups.withCall, h]

theorem Lookups.Completes.of_returns (h : l.next items s.clock = (items', .returns result)) :
    Lookups.Completes ttl s i l items result items' :=
  ⟨[], l.progress, Run.singleton_iff.mpr (Lookups.step_next h), by simp [Writeless]⟩

/-- A call completes if it does so after its next step. -/
theorem Lookups.Completes.of_goesOn {p : Progress F}
    (h : l.next items s.clock = (items', .goesOn p))
    (hl : ∀ v readAt, l.progress ≠ .putting v readAt)
    (hrest : Lookups.Completes ttl s i { l with progress := p } items' result items'') :
    Lookups.Completes ttl s i l items result items'' := by
  obtain ⟨events, p', hrun, hevents⟩ := hrest
  refine ⟨.step i l s.clock (.goesOn p) :: events, p', .cons (Lookups.step_next h) hrun, ?_⟩
  intro i' l' now out hmem
  rcases List.mem_cons.mp hmem with heq | hmem
  · cases heq
    exact hl
  · exact hevents i' l' now out hmem

end Completes

omit [OfScientific F] in
/-- `cachePut` for a call that uses the cache or not. -/
theorem Lookup.cachePut_eq (l : Lookup F) (items : ResultStore F) (v : Verdict F) (now : Int) :
    l.query.service.cachePut items l.key v now =
      if l.caches then items.put l.key v l.query.service.cacheTTL now else items := by
  unfold Service.cachePut Lookup.caches
  cases l.query.service.caching <;> by_cases hkey : l.key = "" <;> simp [hkey]

omit [OfScientific F] in
/-- `cacheGet` for a call that uses the cache or not. -/
theorem Lookup.cacheGet_eq (l : Lookup F) (items : ResultStore F) (now : Int) :
    l.query.service.cacheGet items l.key now =
      if l.caches then items.get l.key now else (none, items) := by
  unfold Service.cacheGet Lookup.caches
  cases l.query.service.caching <;> by_cases hkey : l.key = "" <;> simp [hkey]

/-- A call that the cache has no verdict for returns what it settles on, and the store has that
    afterwards unless its status is `unknown`. -/
theorem Lookups.completes_missed (ttl : Int) (s : Lookups F) (i : Nat) (q : Query F)
    (res : Pipeline.Result F) (items : ResultStore F) :
    Lookups.Completes ttl s i ⟨q, res, .missed⟩ items (q.service.settle q.outside res).1
      (match (q.service.settle q.outside res).1 with
        | .error _ => items
        | .ok v =>
          if v.status ≠ .unknown then q.service.cachePut items (Service.cacheKey res) v s.clock
          else items) := by
  cases hsettle : (q.service.settle q.outside res).1 with
  | error err => exact .of_returns (by simp [Lookup.next, hsettle])
  | ok v =>
    have hput : q.service.cachePut items (Service.cacheKey res) v s.clock = _ :=
      (Lookup.mk q res .missed).cachePut_eq items v s.clock
    dsimp only
    rw [hput]
    by_cases hkept : v.status ≠ .unknown ∧ (Lookup.mk q res .missed).caches = true
    · -- nothing happens between the two steps of `Put`, so it writes the time of the call
      have hnext : (Lookup.mk q res .missed).next items s.clock =
          (items, .goesOn (.settled v)) := by
        simp [Lookup.next, hsettle, hkept]
      have hclock : (Lookup.mk q res (.settled v)).next items s.clock =
          (items, .goesOn (.putting v s.clock)) := rfl
      rw [if_pos hkept.1, if_pos hkept.2]
      exact .of_goesOn hnext (by simp) (.of_goesOn hclock (by simp) (.of_returns rfl))
    · have hnext : (Lookup.mk q res .missed).next items s.clock = (items, .returns (.ok v)) := by
        simp [Lookup.next, hsettle, hkept]
      rw [← ite_and, if_neg hkept]
      exact .of_returns hnext

/-- A call that looks its address up takes the steps of `cacheGet`: it returns the verdict that is
    found, marked as cached, or goes on without one and with the store that `Get` leaves. -/
theorem Lookups.completes_get {ttl : Int} {s : Lookups F} {i : Nat} {q : Query F}
    {res : Pipeline.Result F} {items items' : ResultStore F} {hit : Option (Verdict F)}
    {result : Except VerifyError (Verdict F)}
    (hget : q.service.cacheGet s.items (Service.cacheKey res) s.clock = (hit, items))
    (hhit : ∀ v, hit = some v → result = .ok { v with cached := true } ∧ items' = items)
    (hmiss : hit = none → Lookups.Completes ttl s i ⟨q, res, .missed⟩ items result items') :
    Lookups.Completes ttl s i ⟨q, res, .looking⟩ s.items result items' := by
  have hsteps : q.service.cacheGet s.items (Service.cacheKey res) s.clock = _ :=
    (Lookup.mk q res .looking).cacheGet_eq s.items s.clock
  rw [hget] at hsteps
  by_cases hcaches : (Lookup.mk q res .looking).caches = true
  · rw [if_pos hcaches, Lookup.key, ResultStore.get] at hsteps
    cases he : s.items (Service.cacheKey res) with
    | none =>
      have hnext : (Lookup.mk q res .looking).next s.items s.clock =
          (s.items, .goesOn .missed) := by
        simp [Lookup.next, hcaches, Lookup.key, he]
      rw [he] at hsteps
      cases hsteps
      exact .of_goesOn hnext (by simp) (hmiss rfl)
    | some e =>
      have hnext : (Lookup.mk q res .looking).next s.items s.clock =
          (s.items, .goesOn (.found e)) := by
        simp [Lookup.next, hcaches, Lookup.key, he]
      simp only [he] at hsteps
      refine .of_goesOn hnext (by simp) ?_
      by_cases hexpired : e.expired s.clock = true
      · -- the entry is still the one that was read, so it is deleted
        have hdelete : ResultCache.delete .memory s.items (Service.cacheKey res) e =
            Function.update s.items (Service.cacheKey res) none := by
          simp [ResultCache.delete, he]
        have hfound : (Lookup.mk q res (.found e)).next s.items s.clock =
            (s.items, .goesOn (.expired e)) := by
          simp [Lookup.next, hexpired]
        have hevict : (Lookup.mk q res (.expired e)).next s.items s.clock =
            (Function.update s.items (Service.cacheKey res) none, .goesOn .missed) := by
          simp [Lookup.next, Lookup.key, hdelete]
        rw [CacheEntry.expired] at hexpired
        rw [if_pos hexpired] at hsteps
        cases hsteps
        exact .of_goesOn hfound (by simp) (.of_goesOn hevict (by simp) (hmiss rfl))
      · have hfound : (Lookup.mk q res (.found e)).next s.items s.clock =
            (s.items, .returns (.ok { e.verdict with cached := true })) := by
          simp [Lookup.next, hexpired]
        rw [CacheEntry.expired] at hexpired
        rw [if_neg hexpired] at hsteps
        cases hsteps
        obtain ⟨rfl, rfl⟩ := hhit _ rfl
        exact .of_returns hfound
  · have hnext : (Lookup.mk q res .looking).next s.items s.clock = (s.items, .goesOn .missed) := by
      simp [Lookup.next, hcaches]
    rw [if_neg hcaches] at hsteps
    cases hsteps
    exact .of_goesOn hnext (by simp) (hmiss rfl)

/-- A call that nothing interrupts is a call of `Service.verify` on the store. -/
theorem Lookups.completes_verify {s : Lookups F} {q : Query F} {res : Pipeline.Result F}
    (ttl : Int) (i : Nat) (hread : q.outside.readAt = s.clock)
    (hstored : q.outside.storedAt = s.clock) (hfunnel : q.funnel = .ok res) :
    Lookups.Completes ttl s i ⟨q, res, .looking⟩ s.items
      (q.service.verify q.outside q.email s.items).result
      (q.service.verify q.outside q.email s.items).cache := by
  cases hget : q.service.cacheGet s.items (Service.cacheKey res) q.outside.readAt with
  | mk hit items =>
    refine Lookups.completes_get (hread ▸ hget) ?_ ?_
    · rintro v rfl
      rw [Service.verify_of_hit hfunnel hget]
      exact ⟨rfl, rfl⟩
    · rintro rfl
      rw [Service.verify_of_miss hfunnel hget, hstored]
      exact Lookups.completes_missed ttl s i q res items

/-- The run of a call that nothing interrupts. -/
theorem Lookups.exists_runs_verify {items items' : ResultStore F} {clock : Int} {i : Nat}
    {calls : Nat → Option (Lookup F)} {q : Query F} {res : Pipeline.Result F}
    {result : Except VerifyError (Verdict F)} (hi : calls i = none)
    (hread : q.outside.readAt = clock) (hstored : q.outside.storedAt = clock)
    (hfunnel : q.funnel = .ok res)
    (hresult : (q.service.verify q.outside q.email items).result = result)
    (hcache : (q.service.verify q.outside q.email items).cache = items') : ∃ events p,
    Lookups.Runs q.service.cacheTTL ⟨items, clock, calls⟩
      ((.call i q :: events) ++ [.step i ⟨q, res, p⟩ clock (.returns result)])
      ⟨items', clock, calls⟩ ∧ Writeless events := by
  obtain ⟨events, p, hrun, hevents⟩ := Lookups.completes_verify (s := ⟨items, clock, calls⟩)
    q.service.cacheTTL i hread hstored hfunnel
  rw [hresult, hcache] at hrun
  -- the call is over, and its place is free again
  have hend : Lookups.withCall ⟨items, clock, calls⟩ i items' none = ⟨items', clock, calls⟩ := by
    rw [Lookups.withCall, ← hi, Function.update_eq_self]
  rw [hend] at hrun
  refine ⟨events, p, .cons ⟨?_, hi, ?_⟩ hrun, hevents⟩
  · rintro _ _ ⟨⟩
    rfl
  · rw [hfunnel]
    rfl

/-! ## Cached verdicts -/

/-- A verdict that is returned was read from an entry that has not expired, or the call has settled
    on it. -/
theorem Lookup.Sound.returns {ttl now : Int} {events : List (LookupEvent F)}
    {items : ResultStore F} {l : Lookup F} {v : Verdict F} (hl : l.Sound ttl events now)
    (hout : (l.next items now).2 = .returns (.ok v)) :
    (∃ e, Kept ttl events l.key e ∧ e.expired now = false ∧
      v = { e.verdict with cached := true }) ∨
      (∀ e, l.progress ≠ .found e) ∧
        (l.query.service.settle l.query.outside l.res).1 = .ok v := by
  have hprogress := hl.progress
  obtain ⟨items', hnext⟩ : ∃ items', l.next items now = (items', .returns (.ok v)) :=
    ⟨_, Prod.ext rfl hout⟩
  -- a call returns a hit, the answer of `settle`, or that answer after it was stored
  cases l.next_cases hnext with
  | hit hp hlive =>
    rw [hp] at hprogress
    exact .inl ⟨_, hprogress, hlive, rfl⟩
  | answer hp hsettle _ => exact .inr ⟨by simp [hp], hsettle⟩
  | write hp =>
    rw [hp] at hprogress
    exact .inr ⟨by simp [hp], hprogress.1⟩

/-- In every history of calls on an empty memory store, a verdict that is returned with the mark of
    the cache, but not with that of an agent, was stored under the key of the address by an earlier
    call, which had settled on it, and no longer ago than the time to live. -/
theorem cached_provenance {ttl clock now : Int} {earlier later : List (LookupEvent F)}
    {s : Lookups F} {i : Nat} {l : Lookup F} {v : Verdict F} (hpos : 0 < ttl)
    (h : Lookups.Runs ttl (.init F clock)
      (earlier ++ .step i l now (.returns (.ok v)) :: later) s)
    (hcached : v.cached = true) (hrelays : ¬ l.RelaysCached) :
    l.query.funnel = .ok l.res ∧ ∃ v₀ storedAt, StoredIn earlier l.key v₀ storedAt ∧
      now - ttl ≤ storedAt ∧ v = { v₀ with cached := true } ∧ v.status ≠ .unknown := by
  obtain ⟨t, t', hearlier, ⟨-, hi, rfl, hout, -⟩, -⟩ := Run.split_cons h
  have hl := (Lookups.Runs.sound hpos hearlier).calls i l hi
  refine ⟨hl.funnel, ?_⟩
  -- a hit, or an answer of `settle`, which is marked only if an agent has marked it
  rcases hl.returns hout.symm with
    ⟨e, ⟨storedAt, hstored, hexpires⟩, hlive, rfl⟩ | ⟨hfound, hsettle⟩
  · have hage : t.clock - ttl ≤ storedAt := by
      simp only [CacheEntry.expired, hexpires, Option.any_some, decide_eq_false_iff_not] at hlive
      omega
    have hstatus : e.verdict.status ≠ .unknown := by
      obtain ⟨-, -, -, -, -, -, -, -, -, hstatus⟩ := hstored
      exact hstatus
    exact ⟨e.verdict, storedAt, hstored, hage, rfl, hstatus⟩
  · exact absurd (Lookup.relaysCached_of_settle hfound hl.funnel hsettle hcached) hrelays

/-- Two calls for the same address, one after the other. -/
theorem Lookups.exists_runs_twice {q : Query F} {res : Pipeline.Result F} {clock : Int}
    {items : ResultStore F} {v : Verdict F} (hread : q.outside.readAt = clock)
    (hstored : q.outside.storedAt = clock) (hfunnel : q.funnel = .ok res)
    (hcache : (q.service.verify q.outside q.email fun _ => none).cache = items)
    (hresult : (q.service.verify q.outside q.email items).result = .ok v) :
    ∃ earlier p s, Lookups.Runs q.service.cacheTTL (.init F clock)
      (earlier ++ [.step 1 ⟨q, res, p⟩ clock (.returns (.ok v))]) s := by
  have hidle (i : Nat) : (Lookups.init F clock).calls i = none := rfl
  obtain ⟨events₁, p₁, hrun₁, -⟩ :=
    Lookups.exists_runs_verify (hidle 0) hread hstored hfunnel rfl hcache
  obtain ⟨events₂, p₂, hrun₂, -⟩ :=
    Lookups.exists_runs_verify (hidle 1) hread hstored hfunnel hresult rfl
  have hrun := Run.append hrun₁ hrun₂
  rw [← List.append_assoc] at hrun
  exact ⟨_, p₂, _, hrun⟩

/-- A call for `a@yahoo.com`, and then another one that is answered from the cache. -/
theorem cached_provenance_yahoo : ∃ (earlier : List (LookupEvent ℚ)) (l : Lookup ℚ) (v : Verdict ℚ)
    (s : Lookups ℚ),
    Lookups.Runs (24 * hour) (.init ℚ 0) (earlier ++ [.step 1 l 0 (.returns (.ok v))]) s ∧
    l.query.email = "a@yahoo.com" ∧ v.cached = true ∧ l.query.funnel = .ok l.res ∧
    ∃ v₀ storedAt, StoredIn earlier l.key v₀ storedAt ∧ 0 - 24 * hour ≤ storedAt ∧
      v = { v₀ with cached := true } ∧ v.status ≠ .unknown := by
  have hfunnel : (Query.mk plainService (plainOutside ℚ) "a@yahoo.com").funnel.toOption.isSome =
      true := by
    decide +kernel
  have hcached : (plainService.call (plainOutside ℚ) "a@yahoo.com"
      (plainService.verify (plainOutside ℚ) "a@yahoo.com" fun _ => none).cache).result.toOption.map
        (·.cached) = some true := by
    decide +kernel
  obtain ⟨res, hfunnel⟩ := Query.exists_funnel hfunnel
  obtain ⟨v, hv, hcached⟩ := VerifyCall.exists_result hcached
  -- the same address twice, one call after the other
  obtain ⟨earlier, p, s, hrun⟩ := Lookups.exists_runs_twice rfl rfl hfunnel rfl hv
  refine ⟨earlier, ⟨_, res, p⟩, v, s, hrun, rfl, hcached,
    cached_provenance (by decide) hrun hcached ?_⟩
  rintro ⟨-, t, eg, ev, signals, -, -, -, -, hremote, -⟩
  cases hremote

/-- What an agent sends if it could not tell and marks its verdict as cached. -/
def markedVerdict : Verdict ℚ :=
  { strayVerdict with
    email := "a@example.net"
    normalized := "a@example.net"
    status := .unknown
    subStatus := .temporaryFailure
    cached := true }

/-- A call whose probe is made by this agent. -/
def agentQuery : Query ℚ where
  service := { plainService with remote := fun _ => true }
  outside := agentOutside markedVerdict
  email := "a@example.net"

/-- The first of all calls returns a verdict that is marked as cached and that nobody has stored,
    and its status is `unknown`. -/
theorem agent_marks_cached : ∃ (earlier : List (LookupEvent ℚ)) (l : Lookup ℚ) (v : Verdict ℚ)
    (s : Lookups ℚ),
    Lookups.Runs (24 * hour) (.init ℚ 0) (earlier ++ [.step 0 l 0 (.returns (.ok v))]) s ∧
    l.query = agentQuery ∧ v.cached = true ∧ v.status = .unknown ∧
    ∀ key v₀ storedAt, ¬ StoredIn earlier key v₀ storedAt := by
  have hfunnel : agentQuery.funnel.toOption.isSome = true := by decide +kernel
  have hresult : (agentQuery.service.call agentQuery.outside agentQuery.email
      fun _ => none).result.toOption.map (fun v => (v.cached, v.status)) =
        some (true, .unknown) := by
    decide +kernel
  obtain ⟨res, hfunnel⟩ := Query.exists_funnel hfunnel
  obtain ⟨v, hv, hfields⟩ := VerifyCall.exists_result hresult
  have hidle : (Lookups.init ℚ 0).calls 0 = none := rfl
  obtain ⟨events, p, hrun, hwriteless⟩ :=
    Lookups.exists_runs_verify hidle rfl rfl hfunnel hv rfl
  obtain ⟨hcached, hstatus⟩ := Prod.mk.inj hfields
  refine ⟨_, _, v, _, hrun, rfl, hcached, hstatus, ?_⟩
  rintro key v₀ storedAt ⟨i, l, now, out, hmem, hputting, -⟩
  -- the call itself has written nothing yet
  rcases List.mem_cons.mp hmem with heq | hmem
  · cases heq
  · exact hwriteless i l now out hmem v₀ storedAt hputting

end Rcptto.Native
