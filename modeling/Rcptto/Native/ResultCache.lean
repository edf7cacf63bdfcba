import Rcptto.ForStd.Run
import Rcptto.Native.Verifier

/-!
# The result store under concurrent calls

`ResultStore.Get` and `Put` of `internal/store/memory/memory.go` and
`internal/store/postgres/postgres.go`. `Put` reads the clock and then writes. `Get` reads the entry
and then tests whether it has expired, and if so it deletes it in a further step. Other calls can
come between any two of these steps.

The adapters differ in the last step. The memory adapter looks again and deletes only an entry with
the expiry that it has read. The statement of the Postgres adapter deletes whatever is there, and
its errors are ignored; an expiry is stored there in microseconds.
-/

namespace Rcptto.Native

/-- What the two adapters do differently. -/
structure CacheAdapter where
  /-- `Get` deletes only an entry with the expiry it has read. -/
  guarded : Bool
  /-- The expiry as it is stored. -/
  stored : Int → Int

/-- `memory.ResultStore`. -/
def CacheAdapter.memory : CacheAdapter where
  guarded := true
  stored t := t

/-- `postgres.ResultStore`; a time is sent to the database in microseconds. -/
def CacheAdapter.postgres : CacheAdapter where
  guarded := false
  stored t := t / 1000 * 1000

/-- The entry has expired at the time `now`. -/
def CacheEntry.expired {F : Type} (e : CacheEntry F) (now : Int) : Bool := e.expiresAt.any (now > ·)

/-- A call under way: a `Put` that has read the clock, a `Get` that has read an entry, or a `Get`
    that has found its entry expired. -/
inductive CacheCall (F : Type) where
  | put (key : String) (e : CacheEntry F)
  | read (key : String) (e : CacheEntry F)
  | evict (key : String) (e : CacheEntry F)

/-- A result store with its clock and the calls under way. -/
structure ResultCache (F : Type) where
  items : ResultStore F
  clock : Int
  calls : Nat → Option (CacheCall F)

/-- The steps of the calls, and of the clock. -/
inductive CacheAction (F : Type) where
  | tick (now : Int)
  | put (i : Nat) (key : String) (v : Verdict F) (ttl : Int)
  | write (i : Nat) (key : String) (e : CacheEntry F)
  | read (i : Nat) (key : String) (found : Option (CacheEntry F))
  | hit (i : Nat) (v : Verdict F)
  | miss (i : Nat)
  | evict (i : Nat) (ok : Bool)

namespace ResultCache

variable {F : Type}

/-- The entries after the `DELETE` of a `Get` that has read `e`. -/
def delete (ad : CacheAdapter) (items : ResultStore F) (key : String) (e : CacheEntry F) :
    ResultStore F :=
  -- a guarded adapter deletes the entry only if it expires when the one that was read did
  if !ad.guarded || (items key).any (·.expiresAt = e.expiresAt) then
    Function.update items key none
  else items

/-- One step. A `Get` that reads no entry returns at once; otherwise it returns with `hit`, or
    without a verdict after `evict`. -/
def Step (ad : CacheAdapter) (s : ResultCache F) (a : CacheAction F) (s' : ResultCache F) : Prop :=
  match a with
  | .tick now => s.clock ≤ now ∧ s' = { s with clock := now }
  | .put i key v ttl => s.calls i = none ∧ s' =
      { s with calls := Function.update s.calls i (some (.put key
          { verdict := v
            expiresAt := if ttl > 0 then some (ad.stored (s.clock + ttl)) else none })) }
  | .write i key e => s.calls i = some (.put key e) ∧ s' =
      { s with
        items := Function.update s.items key (some e)
        calls := Function.update s.calls i none }
  | .read i key found => s.calls i = none ∧ found = s.items key ∧ s' =
      { s with calls := Function.update s.calls i (found.map (.read key)) }
  | .hit i v => ∃ key e, s.calls i = some (.read key e) ∧ e.expired s.clock = false ∧
      v = e.verdict ∧ s' = { s with calls := Function.update s.calls i none }
  | .miss i => ∃ key e, s.calls i = some (.read key e) ∧ e.expired s.clock = true ∧ s' =
      { s with calls := Function.update s.calls i (some (.evict key e)) }
  | .evict i ok => ∃ key e, s.calls i = some (.evict key e) ∧ s' =
      { s with
        -- the error of the delete is ignored
        items := if ok then delete ad s.items key e else s.items
        calls := Function.update s.calls i none }

end ResultCache

/-- The call that a step belongs to. -/
def CacheAction.call {F : Type} : CacheAction F → Option Nat
  | tick _ => none
  | put i _ _ _ | write i _ _ | read i _ _ | hit i _ | miss i | evict i _ => some i

/-- The step writes an entry under this key. -/
def CacheAction.writes {F : Type} (key : String) : CacheAction F → Bool
  | write _ key' _ => key' = key
  | _ => false

end Rcptto.Native
