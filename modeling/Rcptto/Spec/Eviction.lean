import Mathlib.Algebra.Order.Ring.Rat
import Rcptto.ForStd.PartialMap
import Rcptto.Native.ResultCache

/-!
# Eviction of expired results

A `Get` that has found its entry expired deletes it later. With the guard of the memory adapter the
entry that it deletes has expired, whatever was written in between: it has the expiry that was read,
and the clock does not go back. The Postgres adapter has no guard and can delete an entry that is
fresh.

## Key results

- `ResultCache.step_kept`: an entry is there until it expires
- `ResultCache.fresh_kept`: a `Get` after a `Put` returns what was put
- `ResultCache.fresh_dropped`: the Postgres adapter drops a fresh entry
-/

namespace Rcptto.Native

/-- What has expired stays so. -/
theorem CacheEntry.expired_mono {F : Type} {e : CacheEntry F} {now later : Int} (hle : now ≤ later)
    (h : e.expired now = true) : e.expired later = true := by
  unfold expired at h ⊢
  cases he : e.expiresAt with
  | none => simp [he] at h
  | some at_ =>
    simp only [he, Option.any_some, decide_eq_true_eq] at h ⊢
    omega

namespace ResultCache

variable {F : Type} {ad : CacheAdapter} {s s' t : ResultCache F} {a : CacheAction F}

/-- A `DELETE` finds the entry that its `Get` has read, or none. -/
def Undisturbed (s : ResultCache F) : CacheAction F → Prop
  | .evict i _ => ∀ key e, s.calls i = some (.evict key e) →
    s.items key = none ∨ s.items key = some e
  | _ => True

/-- One step, undisturbed if the adapter has no guard. -/
def CarefulStep (ad : CacheAdapter) (s : ResultCache F) (a : CacheAction F)
    (s' : ResultCache F) : Prop :=
  (ad.guarded = false → s.Undisturbed a) ∧ s.Step ad a s'

/-! ## One step -/

/-- A step moves the clock on, or it is one of a call, which waits for a deletion afterwards only if
    its entry has expired. -/
theorem step_cases (h : s.Step ad a s') :
    (∃ now, a = .tick now ∧ s.clock ≤ now ∧ s' = { s with clock := now }) ∨
    ∃ j items c, a.call = some j ∧
      s' = { s with items := items, calls := Function.update s.calls j c } ∧
      ∀ key e, c = some (.evict key e) → e.expired s.clock = true := by
  cases a with
  | tick now =>
    obtain ⟨hle, rfl⟩ := h
    exact .inl ⟨now, rfl, hle, rfl⟩
  | put j key v ttl =>
    obtain ⟨-, rfl⟩ := h
    exact .inr ⟨j, _, _, rfl, rfl, by simp⟩
  | write j key e =>
    obtain ⟨-, rfl⟩ := h
    exact .inr ⟨j, _, _, rfl, rfl, by simp⟩
  | read j key found =>
    obtain ⟨-, -, rfl⟩ := h
    exact .inr ⟨j, _, _, rfl, rfl, by simp⟩
  | hit j v =>
    obtain ⟨key, e, -, -, -, rfl⟩ := h
    exact .inr ⟨j, _, _, rfl, rfl, by simp⟩
  | miss j =>
    -- the entry is deleted later, and was found to be expired now
    obtain ⟨key, e, -, hexpired, rfl⟩ := h
    refine .inr ⟨j, _, _, rfl, rfl, ?_⟩
    rintro _ _ ⟨⟩
    exact hexpired
  | evict j ok =>
    obtain ⟨key, e, -, rfl⟩ := h
    exact .inr ⟨j, _, _, rfl, rfl, by simp⟩

/-- The clock does not go back. -/
theorem clock_le (h : s.Step ad a s') : s.clock ≤ s'.clock := by
  rcases step_cases h with ⟨now, -, hle, rfl⟩ | ⟨j, items, c, -, rfl, -⟩
  · exact hle
  · exact le_rfl

/-- A step changes its own call only. -/
theorem calls_of_ne {i : Nat} (hi : a.call ≠ some i) (h : s.Step ad a s') :
    s'.calls i = s.calls i := by
  rcases step_cases h with ⟨now, -, -, rfl⟩ | ⟨j, items, c, hj, rfl, -⟩
  · rfl
  · have hne : i ≠ j := fun hij => hi (hij ▸ hj)
    exact Function.update_of_ne hne _ _

/-- How a step changes the entry under a key that it does not write. -/
theorem items_cases {key : String} (hwrites : a.writes key = false) (h : s.Step ad a s') :
    s'.items key = s.items key ∨
    ∃ i e, a = .evict i true ∧ s.calls i = some (.evict key e) ∧ s'.items key = none ∧
      (ad.guarded = true → ∃ e', s.items key = some e' ∧ e'.expiresAt = e.expiresAt) := by
  -- only `write` and `evict` touch the entries
  cases a with
  | tick now =>
    obtain ⟨-, rfl⟩ := h
    exact .inl rfl
  | put j key' v ttl =>
    obtain ⟨-, rfl⟩ := h
    exact .inl rfl
  | write j key' e =>
    obtain ⟨-, rfl⟩ := h
    have hne : key ≠ key' := by
      rintro rfl
      simp [CacheAction.writes] at hwrites
    exact .inl (Function.update_of_ne hne _ _)
  | read j key' found =>
    obtain ⟨-, -, rfl⟩ := h
    exact .inl rfl
  | hit j v =>
    obtain ⟨key', e, -, -, -, rfl⟩ := h
    exact .inl rfl
  | miss j =>
    obtain ⟨key', e, -, -, rfl⟩ := h
    exact .inl rfl
  | evict j ok =>
    obtain ⟨key', e, hcall, rfl⟩ := h
    cases ok with
    | false => exact .inl rfl
    | true =>
      simp only [if_true, delete]
      split
      · next hdelete =>
        by_cases hkey : key = key'
        · subst hkey
          refine .inr ⟨j, e, rfl, hcall, Function.update_self .., fun hguarded => ?_⟩
          rw [hguarded, Bool.not_true, Bool.false_or, Option.any_eq_true] at hdelete
          obtain ⟨e', he', heq⟩ := hdelete
          exact ⟨e', he', by simpa using heq⟩
        · exact .inl (Function.update_of_ne hkey _ _)
      · exact .inl rfl

/-- The entries that wait for their deletion have expired. -/
def Consistent (s : ResultCache F) : Prop :=
  ∀ i key e, s.calls i = some (.evict key e) → e.expired s.clock = true

/-- One step: an entry that waits for its deletion has expired. -/
theorem step_consistent (hs : s.Consistent) (h : s.Step ad a s') : s'.Consistent := by
  intro i key e hi
  rcases step_cases h with ⟨now, -, hle, rfl⟩ | ⟨j, items, c, -, rfl, hc⟩
  · exact CacheEntry.expired_mono hle (hs i key e hi)
  · rcases PartialMap.update_eq_some_iff.mp hi with ⟨-, hi⟩ | ⟨-, hi⟩
    · exact hc key e hi
    · exact hs i key e hi

/-- The entry is there, or it has expired. -/
def Kept (key : String) (e : CacheEntry F) (s : ResultCache F) : Prop :=
  s.items key = some e ∨ e.expired s.clock = true

/-- An entry is there until it expires, as long as nothing else is written. -/
theorem step_kept {key : String} {e : CacheEntry F} (hs : s.Consistent) (hkept : s.Kept key e)
    (hwrites : a.writes key = false) (h : CarefulStep ad s a s') : s'.Kept key e := by
  obtain ⟨hcareful, hstep⟩ := h
  rcases hkept with hitem | hexpired
  · rcases items_cases hwrites hstep with hsame | ⟨i, e', rfl, hcall, -, hguard⟩
    · exact .inl (hsame.trans hitem)
    · -- the deleted entry has the expiry of one that has expired
      have hexpired' : e'.expired s.clock = true := hs i key e' hcall
      have hsame : e.expiresAt = e'.expiresAt := by
        cases hguarded : ad.guarded with
        | true =>
          obtain ⟨e'', hitem', heq⟩ := hguard hguarded
          cases hitem.symm.trans hitem'
          exact heq
        | false =>
          rcases hcareful hguarded key e' hcall with hnone | hsome
          · cases hitem.symm.trans hnone
          · cases hitem.symm.trans hsome
            rfl
      refine .inr (CacheEntry.expired_mono (clock_le hstep) ?_)
      rw [CacheEntry.expired, hsame]
      exact hexpired'
  · exact .inr (CacheEntry.expired_mono (clock_le hstep) hexpired)

/-! ## Runs -/

theorem run_clock_le {as : List (CacheAction F)} (h : Run (CarefulStep ad) s as t) :
    s.clock ≤ t.clock :=
  h.invariant (P := fun u => s.clock ≤ u.clock) le_rfl
    fun _ _ _ _ hle hstep => hle.trans (clock_le hstep.2)

/-- In every run the entries that wait for their deletion have expired. -/
theorem run_consistent {as : List (CacheAction F)} (hs : s.Consistent)
    (h : Run (CarefulStep ad) s as t) : t.Consistent :=
  h.invariant hs fun _ _ _ _ hconsistent hstep => step_consistent hconsistent hstep.2

/-- An entry is there until it expires, in runs that do not write under its key. -/
theorem run_kept {key : String} {e : CacheEntry F} {as : List (CacheAction F)}
    (hs : s.Consistent) (hkept : s.Kept key e) (hwrites : ∀ b ∈ as, b.writes key = false)
    (h : Run (CarefulStep ad) s as t) : t.Kept key e :=
  (h.invariant (P := fun u => u.Consistent ∧ u.Kept key e) ⟨hs, hkept⟩
    fun _ b _ hb hu hstep => ⟨step_consistent hu.1 hstep.2,
      step_kept hu.1 hu.2 (hwrites b hb) hstep⟩).2

/-- A `Get` that has read an entry which has not expired returns it. -/
theorem hit_of_read {j : Nat} {key : String} {e : CacheEntry F}
    (hread : s.calls j = some (.read key e)) (ha : a.call = some j) (h : s.Step ad a t)
    (hfresh : e.expired t.clock = false) : a = .hit j e.verdict := by
  cases a with
  | tick now => cases ha
  | put i key' v ttl =>
    cases ha
    cases hread.symm.trans h.1
  | write i key' e' =>
    cases ha
    cases hread.symm.trans h.1
  | read i key' found =>
    cases ha
    cases hread.symm.trans h.1
  | hit i v =>
    cases ha
    obtain ⟨key', e', hcall, -, rfl, -⟩ := h
    cases hread.symm.trans hcall
    rfl
  | miss i =>
    cases ha
    obtain ⟨key', e', hcall, hexpired, rfl⟩ := h
    cases hread.symm.trans hcall
    -- the test has the clock of this step
    cases hfresh.symm.trans hexpired
  | evict i ok =>
    cases ha
    obtain ⟨key', e', hcall, -⟩ := h
    cases hread.symm.trans hcall

/-- A `Get` that begins after the last `Put` of its key was written, and tests while the entry has
    not expired, returns what was put. With the memory adapter this is so in every run, and with
    the Postgres adapter in every run in which each `DELETE` finds the entry that its `Get` has
    read, or none. -/
theorem fresh_kept (ad : CacheAdapter) {i j : Nat} {key : String} {e : CacheEntry F}
    {found : Option (CacheEntry F)} {before middle rest : List (CacheAction F)}
    (hidle : ∀ i, s.calls i = none)
    (hrun : Run (CarefulStep ad) s
      (before ++ .write i key e :: (middle ++ .read j key found :: (rest ++ [a]))) t)
    (hwrites : ∀ b ∈ middle, b.writes key = false) (hrest : ∀ b ∈ rest, b.call ≠ some j)
    (ha : a.call = some j) (hfresh : e.expired t.clock = false) :
    a = .hit j e.verdict := by
  obtain ⟨s₁, s₂, hbefore, hwrite, hafter⟩ := hrun.split_cons
  obtain ⟨s₃, s₄, hmiddle, hread, hget⟩ := hafter.split_cons
  obtain ⟨s₅, hwait, hlast⟩ := Run.snoc_iff.mp hget
  have hconsistent : s₂.Consistent := by
    have hstart : s.Consistent := fun i key e hi => by simp [hidle] at hi
    exact step_consistent (run_consistent hstart hbefore) hwrite.2
  have hwritten : s₂.items key = some e := by
    obtain ⟨-, -, rfl⟩ := hwrite
    exact Function.update_self ..
  -- the entry is still there when it is read, since it has not even expired at the end
  have hclock : s₃.clock ≤ t.clock :=
    (clock_le hread.2).trans ((run_clock_le hwait).trans (clock_le hlast.2))
  have hthere : s₃.items key = some e := by
    rcases run_kept hconsistent (.inl hwritten) hwrites hmiddle with hitem | hexpired
    · exact hitem
    · cases hfresh.symm.trans (CacheEntry.expired_mono hclock hexpired)
  have hcall : s₄.calls j = some (.read key e) := by
    obtain ⟨-, -, rfl, rfl⟩ := hread
    simp [hthere]
  have hcall' : s₅.calls j = some (.read key e) :=
    hwait.invariant (P := fun u => u.calls j = some (.read key e)) hcall
      fun _ b _ hb hu hstep => (calls_of_ne (hrest b hb) hstep.2).trans hu
  exact hit_of_read hcall' ha hlast.2 hfresh

/-- An empty store. -/
def empty : ResultCache F where
  items _ := none
  clock := 0
  calls _ := none

/-- A verdict about an address whose mailbox was created or removed at some time. -/
def mailbox (found : Bool) : Verdict ℚ where
  email := "user@example.com"
  normalized := "user@example.com"
  status := if found then .deliverable else .undeliverable
  subStatus := if found then .validMailbox else .mailboxNotFound
  confidence := 1
  checks := {}
  provider := "other"
  engine := "builtin"
  egressID := "a"
  checkedAt := 0

/-- A `Get` finds an expired entry, a `Put` replaces it, and the `Get` deletes what was put: the
    next `Get` finds nothing, although the entry would have been good for another 5 μs. -/
theorem fresh_dropped :
    let old : CacheEntry ℚ := { verdict := mailbox false, expiresAt := some 1000 }
    let new : CacheEntry ℚ := { verdict := mailbox true, expiresAt := some 7000 }
    ∃ t, Run (Step .postgres) empty
      [.put 0 "k" (mailbox false) 1000, .write 0 "k" old, .tick 2000, .read 1 "k" (some old),
        .miss 1, .put 2 "k" (mailbox true) 5000, .write 2 "k" new, .evict 1 true,
        .read 3 "k" none] t ∧
      new.expired t.clock = false := by
  intro old new
  refine ⟨_, .cons ⟨rfl, rfl⟩ (.cons ⟨rfl, rfl⟩ (.cons ⟨show (0 : Int) ≤ 2000 by decide, rfl⟩
    (.cons ⟨rfl, rfl, rfl⟩ (.cons ⟨"k", old, rfl, rfl, rfl⟩ (.cons ⟨rfl, rfl⟩ (.cons ⟨rfl, rfl⟩
      (.cons ⟨"k", old, rfl, rfl⟩ (.cons ⟨rfl, rfl, rfl⟩ (.nil _))))))))), rfl⟩

/-- The same calls with the memory adapter: the `Get` leaves alone what was put, and the next one
    finds it. -/
theorem fresh_kept_memory :
    let old : CacheEntry ℚ := { verdict := mailbox false, expiresAt := some 1000 }
    let new : CacheEntry ℚ := { verdict := mailbox true, expiresAt := some 7000 }
    ∃ a t, Run (CarefulStep .memory) empty
      ([.put 0 "k" (mailbox false) 1000, .write 0 "k" old, .tick 2000, .read 1 "k" (some old),
        .miss 1, .put 2 "k" (mailbox true) 5000] ++ .write 2 "k" new ::
          ([.evict 1 true] ++ .read 3 "k" (some new) :: ([] ++ [a]))) t ∧
      new.expired t.clock = false ∧ a = .hit 3 (mailbox true) := by
  intro old new
  have hrun : ∃ t, Run (CarefulStep .memory) empty
      ([.put 0 "k" (mailbox false) 1000, .write 0 "k" old, .tick 2000, .read 1 "k" (some old),
        .miss 1, .put 2 "k" (mailbox true) 5000] ++ .write 2 "k" new ::
          ([.evict 1 true] ++ .read 3 "k" (some new) :: ([] ++ [.hit 3 (mailbox true)]))) t ∧
      new.expired t.clock = false := by
    have hguarded : ∀ {P : Prop}, CacheAdapter.memory.guarded = false → P := fun h => by cases h
    exact ⟨_, .cons ⟨hguarded, rfl, rfl⟩ (.cons ⟨hguarded, rfl, rfl⟩
      (.cons ⟨hguarded, show (0 : Int) ≤ 2000 by decide, rfl⟩ (.cons ⟨hguarded, rfl, rfl, rfl⟩
        (.cons ⟨hguarded, "k", old, rfl, rfl, rfl⟩ (.cons ⟨hguarded, rfl, rfl⟩
          (.cons ⟨hguarded, rfl, rfl⟩ (.cons ⟨hguarded, "k", old, rfl, rfl⟩
            (.cons ⟨hguarded, rfl, rfl, rfl⟩
              (.cons ⟨hguarded, "k", new, rfl, rfl, rfl, rfl⟩ (.nil _)))))))))), rfl⟩
  obtain ⟨t, hrun, hfresh⟩ := hrun
  exact ⟨_, t, hrun, hfresh,
    fresh_kept .memory (fun _ => rfl) hrun (by simp [CacheAction.writes]) (by simp) rfl hfresh⟩

/-! ## Calls one after the other -/

/-- The table of calls after a call that was alone has returned. -/
theorem calls_of_idle {calls : Nat → Option (CacheCall F)} (hidle : ∀ i, calls i = none) (j : Nat)
    (o : Option (CacheCall F)) (i : Nat) :
    Function.update (Function.update calls j o) j none i = none := by
  rw [Function.update_idem]
  by_cases hij : i = j
  · rw [hij, Function.update_self]
  · rw [Function.update_of_ne hij, hidle]

/-- A `Get` that nothing interrupts is the atomic one. -/
theorem run_get (hidle : ∀ i, s.calls i = none) (key : String) :
    ∃ as t, Run (Step ad) s as t ∧ (∀ i, t.calls i = none) ∧
      t.items = (s.items.get key s.clock).2 ∧
      ∀ v, (s.items.get key s.clock).1 = some v ↔ .hit 0 v ∈ as := by
  -- nothing is stored, or an entry that is fresh, or one that has expired
  cases hitem : s.items key with
  | none =>
    refine ⟨[.read 0 key none], { s with calls := Function.update s.calls 0 none },
      Run.singleton_iff.mpr ⟨hidle 0, hitem.symm, rfl⟩, fun i => ?_, ?_, ?_⟩
    · by_cases hi : i = 0
      · simp [hi]
      · simp [Function.update_of_ne hi, hidle]
    · simp [ResultStore.get, hitem]
    · simp [ResultStore.get, hitem]
  | some e =>
    cases hexpired : e.expired s.clock with
    | false =>
      refine ⟨[.read 0 key (some e), .hit 0 e.verdict], { s with calls := _ },
        .cons ⟨hidle 0, hitem.symm, rfl⟩ (Run.singleton_iff.mpr
          ⟨key, e, rfl, hexpired, rfl, rfl⟩),
        calls_of_idle hidle 0 _, ?_, ?_⟩
      · rw [CacheEntry.expired] at hexpired
        simp [ResultStore.get, hitem, hexpired]
      · rw [CacheEntry.expired] at hexpired
        simp [ResultStore.get, hitem, hexpired, eq_comm]
    | true =>
      refine ⟨[.read 0 key (some e), .miss 0, .evict 0 true],
        { s with items := delete ad s.items key e, calls := _ },
        .cons ⟨hidle 0, hitem.symm, rfl⟩ (.cons ⟨key, e, rfl, hexpired, rfl⟩
          (Run.singleton_iff.mpr ⟨key, e, rfl, rfl⟩)), fun i => ?_, ?_, ?_⟩
      · rw [Function.update_idem]
        exact calls_of_idle hidle 0 _ i
      · rw [CacheEntry.expired] at hexpired
        simp [ResultStore.get, hitem, hexpired, delete]
      · rw [CacheEntry.expired] at hexpired
        simp [ResultStore.get, hitem, hexpired]

/-- A `Put` that nothing interrupts is the atomic one. -/
theorem run_put (hidle : ∀ i, s.calls i = none) (key : String) (v : Verdict F) (ttl : Int) :
    ∃ e t, Run (Step .memory) s [.put 0 key v ttl, .write 0 key e] t ∧ (∀ i, t.calls i = none) ∧
      t.items = s.items.put key v ttl s.clock :=
  ⟨_, { s with items := _, calls := _ },
    .cons ⟨hidle 0, rfl⟩ (Run.singleton_iff.mpr ⟨rfl, rfl⟩),
    calls_of_idle hidle 0 _, rfl⟩

end ResultCache

end Rcptto.Native
