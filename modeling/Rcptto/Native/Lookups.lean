import Rcptto.Native.ResultCache

/-!
# Concurrent calls of `Verify`

The workers of the jobs and the handlers of the API call `Service.Verify` of
`internal/verifier/verifier.go` at the same time on one memory store. A call makes its steps one
after the other: `Get` of the store reads an entry, tests whether it has expired and deletes it if
so; the verdict is settled on; `Put` reads the clock and then writes. Steps of other calls can come
between any two of them.
-/

namespace Rcptto.Native

/-- A call of `Verify`: the service as it is at that time, what the call gets from outside, and the
    address. -/
structure Query (F : Type) where
  service : Service
  outside : Outside F
  email : String

/-- How far a call has come. -/
inductive Progress (F : Type) where
  /-- The funnel is done, and the cache is to be asked. -/
  | looking
  /-- `Get` has read this entry. -/
  | found (e : CacheEntry F)
  /-- `Get` has found this entry expired and is to delete it. -/
  | expired (e : CacheEntry F)
  /-- The cache has no verdict. -/
  | missed
  /-- The call has settled on this verdict, which is to be kept. -/
  | settled (v : Verdict F)
  /-- `Put` has read the clock. -/
  | putting (v : Verdict F) (readAt : Int)

/-- A call under way, after the funnel. -/
structure Lookup (F : Type) where
  query : Query F
  res : Pipeline.Result F
  progress : Progress F

/-- What a step of a call comes to: the call goes on, or it returns. -/
inductive Stepped (F : Type) where
  | goesOn (progress : Progress F)
  | returns (result : Except VerifyError (Verdict F))

/-- The call after a step. -/
def Stepped.after {F : Type} (l : Lookup F) : Stepped F → Option (Lookup F)
  | goesOn progress => some { l with progress := progress }
  | returns _ => none

variable {F : Type} [OfScientific F]

/-- The funnel of a call. -/
def Query.funnel (q : Query F) : Except Pipeline.LookupError (Pipeline.Result F) :=
  Pipeline.run q.service.disposable q.outside.resolver q.outside.checkedAt q.email

namespace Lookup

/-- The key of a call in the cache. -/
def key (l : Lookup F) : String := Service.cacheKey l.res

/-- The call asks the cache and writes to it. -/
def caches (l : Lookup F) : Bool := l.query.service.caching && l.key ≠ ""

/-- The next step of a call on the store, at the time `now`. -/
def next (l : Lookup F) (items : ResultStore F) (now : Int) : ResultStore F × Stepped F :=
  match l.progress with
  | .looking =>
    match if l.caches then items l.key else none with
    | none => (items, .goesOn .missed)
    | some e => (items, .goesOn (.found e))
  | .found e =>
    -- the lock was given up, so the entry may have been replaced since
    if e.expired now then (items, .goesOn (.expired e))
    else (items, .returns (.ok { e.verdict with cached := true }))
  | .expired e => (ResultCache.delete .memory items l.key e, .goesOn .missed)
  | .missed =>
    match (l.query.service.settle l.query.outside l.res).1 with
    | .error err => (items, .returns (.error err))
    | .ok final =>
      -- a verdict that says nothing is not kept, so that the next call tries again
      if final.status ≠ .unknown && l.caches then (items, .goesOn (.settled final))
      else (items, .returns (.ok final))
  | .settled v => (items, .goesOn (.putting v now))
  | .putting v readAt =>
    (items.put l.key v l.query.service.cacheTTL readAt, .returns (.ok v))

end Lookup

/-- A memory store with its clock and the calls under way. -/
structure Lookups (F : Type) where
  items : ResultStore F
  clock : Int
  calls : Nat → Option (Lookup F)

/-- The clock moves on, a call begins, or a call makes its next step. The event of a step tells
    how far the call was, the time, and what the step came to. -/
inductive LookupEvent (F : Type) where
  | tick (now : Int)
  | call (i : Nat) (q : Query F)
  | step (i : Nat) (l : Lookup F) (now : Int) (out : Stepped F)

namespace Lookups

/-- The store before the first call. -/
def init (F : Type) (clock : Int) : Lookups F where
  items _ := none
  clock := clock
  calls _ := none

/-- One event. A call that fails in the funnel returns at once. -/
def Step (s : Lookups F) (event : LookupEvent F) (s' : Lookups F) : Prop :=
  match event with
  | .tick now => s.clock ≤ now ∧ s' = { s with clock := now }
  | .call i q => s.calls i = none ∧ s' =
      match q.funnel with
      | .error _ => s
      | .ok res => { s with calls := Function.update s.calls i (some ⟨q, res, .looking⟩) }
  | .step i l now out => s.calls i = some l ∧ now = s.clock ∧ out = (l.next s.items s.clock).2 ∧
      s' =
        { s with
          items := (l.next s.items s.clock).1
          calls := Function.update s.calls i (out.after l) }

/-- The calls of a service with this time to live, in any order. -/
abbrev Runs (ttl : Int) (s : Lookups F) (events : List (LookupEvent F)) (s' : Lookups F) : Prop :=
  Run (fun s event s' => (∀ i q, event = .call i q → q.service.cacheTTL = ttl) ∧
    s.Step event s') s events s'

end Lookups

end Rcptto.Native
