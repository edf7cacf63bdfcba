import Rcptto.Native.Shutdown
import Rcptto.Spec.Persist
import Rcptto.Spec.RoundTrip

/-!
# What a graceful shutdown saves

The final write of `PersistLoop` begins when the signal comes, and nothing makes it wait for the
requests and jobs that still use the egress manager. What the store holds when `run` returns is
therefore the snapshot which that write took, and it is the manager's own at that moment only if
no call changed it in between.

## Key results

- `saveEgress_snapshot`: the rows after a write of a snapshot
- `Serving.Pending.step`: what a step keeps of the last snapshot taken
- `Serving.flushed`: what the store holds after the final write
- `Serving.flush_too_early`: a job loses the update it makes after that snapshot
-/

namespace Rcptto.Native

/-! ## The rows of a snapshot -/

section Rows

variable {F : Type} {store : String → Option (EgressState F)}

/-- Writing a snapshot replaces the rows of the pool and leaves the others. -/
theorem saveEgress_snapshot (m : Manager F) (id : String) :
    saveEgress store m.snapshot id = ((m.get? id).map (·.toEgressState)).or (store id) := by
  have hentry : ∀ st ∈ m.snapshot, ∃ r, m.get? st.id = some r ∧ r.toEgressState = st := by
    intro st hst
    rw [Manager.snapshot_eq_values] at hst
    obtain ⟨r, hr, rfl⟩ := List.mem_map.mp hst
    exact ⟨r, OrderedMap.mem_values.mp hr, rfl⟩
  -- an identity that is not listed keeps its row, and a listed one has one entry
  cases hr : m.get? id with
  | none =>
    refine PartialMap.upsert_of_forall_ne fun st hst hid => ?_
    obtain ⟨r, hget, -⟩ := hentry st hst
    rw [show st.id = id from hid, hr] at hget
    cases hget
  | some r =>
    have hid : r.toEgressState.id = id := m.pool.key_eq id r hr
    have hmem : r.toEgressState ∈ m.snapshot := by
      rw [Manager.snapshot_eq_values]
      exact List.mem_map_of_mem (OrderedMap.mem_values.mpr (by rwa [m.pool.key_eq id r hr]))
    have hrow := PartialMap.upsert_of_mem (m := store) hmem fun st hst hsame => by
      obtain ⟨r', hget, rfl⟩ := hentry st hst
      rw [show r'.toEgressState.id = id from Eq.trans hsame hid, hr] at hget
      cases hget
      rfl
    rw [hid] at hrow
    exact hrow

/-- The rows that hold a snapshot and nothing else. -/
def Manager.rows (m : Manager F) : String → Option (EgressState F) :=
  saveEgress (fun _ => none) m.snapshot

/-- Each row belongs to an identity of the pool. -/
def Manager.Owns (m : Manager F) (store : String → Option (EgressState F)) : Prop :=
  ∀ id, (store id).isSome → (m.get? id).isSome

theorem Manager.isSome_rows (m : Manager F) (id : String) :
    (m.rows id).isSome = (m.get? id).isSome := by
  rw [rows, saveEgress_snapshot, Option.or_none, Option.isSome_map]

/-- If there are no other rows, the snapshot is all that is left. -/
theorem Manager.Owns.saveEgress {m : Manager F} (h : m.Owns store) :
    saveEgress store m.snapshot = m.rows := by
  funext id
  rw [rows, saveEgress_snapshot, saveEgress_snapshot]
  -- a row without an identity would be an orphan
  cases hr : m.get? id with
  | some r => rfl
  | none =>
    have hnone : store id = none := by
      cases hrow : store id with
      | none => rfl
      | some st => exact absurd (h id (by rw [hrow]; rfl)) (by simp [hr])
    rw [hnone]

end Rows

variable {F : Type} [Add F] [Sub F] [Mul F] [OfScientific F] [LinearOrder F]

namespace Serving

variable {s t t' u : Serving F} {a : ServingAction F} {as : List (ServingAction F)}

/-! ## What a step does to the manager and to the store -/

/-- The manager changes in a call and when the flag is cleared. -/
theorem Step.manager (h : Step t a t') :
    (∃ caller e, a = .call caller e ∧ t.manager.Step e t'.manager) ∨
      t'.manager.pool = t.manager.pool := by
  obtain ⟨-, h⟩ := h
  -- only a call goes to the manager
  cases a with
  | call caller e =>
    obtain ⟨-, -, m', hstep, rfl⟩ := h
    exact .inl ⟨caller, e, rfl, hstep⟩
  | tick =>
    obtain ⟨-, rfl⟩ := h
    split <;> exact .inr rfl
  | saveEgress ok =>
    obtain ⟨final, states, -, rfl⟩ := h
    split <;> exact .inr rfl
  | signal =>
    cases h
    exact .inr rfl
  | snapshot | clearDirty =>
    obtain ⟨final, -, rfl⟩ := h
    exact .inr rfl
  | request | requestEnds | job | jobEnds | serverFails | shutdownFails | givesUp =>
    obtain ⟨-, rfl⟩ := h
    exact .inr rfl
  | flush | shutdown | drained | returns =>
    obtain ⟨-, -, rfl⟩ := h
    exact .inr rfl

/-- Identities stay in the pool. -/
theorem Step.isSome_get? {id : String} (h : Step t a t') (hid : (t.manager.get? id).isSome) :
    (t'.manager.get? id).isSome := by
  rcases h.manager with ⟨caller, e, rfl, hstep⟩ | hpool
  · obtain ⟨r, hr⟩ := Option.isSome_iff_exists.mp hid
    rw [hstep.get? hr]
    rfl
  · show (t'.manager.pool.get? id).isSome
    rwa [hpool]

theorem run_isSome_get? {id : String} (h : Run Step t as t') (hid : (t.manager.get? id).isSome) :
    (t'.manager.get? id).isSome :=
  h.invariant (P := fun t => (t.manager.get? id).isSome) hid fun _ _ _ _ hs hstep =>
    hstep.isSome_get? hs

/-- A run whose calls leave the snapshot alone leaves it alone. -/
theorem run_snapshot (h : Run Step t as t')
    (hquiet : ∀ caller e, .call caller e ∈ as → ¬ e.Alters) :
    t'.manager.snapshot = t.manager.snapshot := by
  refine h.invariant (P := fun u => u.manager.snapshot = t.manager.snapshot) rfl ?_
  intro u a u' hmem hu hstep
  -- a call that alters the snapshot is excluded, and nothing else touches the records
  rcases hstep.manager with ⟨caller, e, rfl, hcall⟩ | hpool
  · by_contra hne
    have hpre := hcall.1
    refine hquiet caller e hmem ⟨u'.manager, hpre ▸ hcall, ?_⟩
    rw [hpre, hu]
    exact hne
  · rw [← hu]
    unfold Manager.snapshot Manager.get?
    rw [hpool]

/-- The snapshot is the same in all the states of a run if and only if none of its calls alters
    it. -/
theorem run_snapshot_iff (h : Run Step t as t') :
    (∀ mid late v, as = mid ++ late → Run Step t mid v →
      v.manager.snapshot = t.manager.snapshot) ↔
    ∀ caller e, .call caller e ∈ as → ¬ e.Alters := by
  constructor
  · rintro hsame caller e hmem ⟨m', hstep, hne⟩
    obtain ⟨mid, late, rfl⟩ := List.append_of_mem hmem
    obtain ⟨v, v', hmid, hcall, -⟩ := h.split_cons
    have hbefore := hsame mid _ v rfl hmid
    have hafter := hsame (mid ++ [.call caller e]) late v' (by simp)
      (Run.snoc_iff.mpr ⟨v, hmid, hcall⟩)
    obtain ⟨-, -, -, m'', hstep', rfl⟩ := hcall
    -- the call has one result
    have hresult : m'' = m' := by
      have hexec := hstep'.2
      rw [← hstep'.1, hstep.2, Option.some.injEq, Prod.mk.injEq] at hexec
      exact hexec.1.symm
    rw [← hresult, hstep'.1] at hne
    exact hne (hafter.trans hbefore.symm)
  · rintro hquiet mid late v rfl hmid
    exact run_snapshot hmid fun caller e hmem => hquiet caller e (List.mem_append_left _ hmem)

/-! ## The last snapshot taken -/

/-- The execution took a snapshot at `u`, in a call of `Persist` that was the final one or not,
    and went on to `t`. -/
def TookAt (s : Serving F) (as : List (ServingAction F)) (final : Bool) (u t : Serving F) : Prop :=
  ∃ before after, as = before ++ .snapshot :: after ∧ Run Step s before u ∧
    u.loop = .persisting final .called ∧
    Run Step { u with loop := .persisting final (.taken u.manager.snapshot) } after t

theorem TookAt.snoc {final : Bool} (h : TookAt s as final u t) (hstep : Step t a t') :
    TookAt s (as ++ [a]) final u t' := by
  obtain ⟨before, after, rfl, hbefore, hloop, hafter⟩ := h
  refine ⟨before, after ++ [a], by simp, hbefore, hloop, ?_⟩
  exact hafter.append (Run.singleton_iff.mpr hstep)

/-- What is known of the snapshot in the hands of `PersistLoop`, or of the one it wrote last,
    while the rows of the store belong to the pool. -/
structure Pending (s : Serving F) (as : List (ServingAction F)) (t : Serving F) : Prop where
  owns : t.manager.Owns t.store
  taken : ∀ final states, t.loop = .persisting final (.taken states) → ∃ u,
    TookAt s as final u t ∧ u.manager.Owns t.store ∧ states = u.manager.snapshot
  written : ∀ final, t.loop = .persisting final .written → ∃ u,
    TookAt s as final u t ∧ t.store = u.manager.rows
  done : t.loop = .done true → ∃ u, TookAt s as true u t ∧ t.store = u.manager.rows

/-- A step that leaves `PersistLoop` and the store alone. -/
theorem Pending.frame (hp : Pending s as t) (hstep : Step t a t') (hloop : t'.loop = t.loop)
    (hstore : t'.store = t.store) : Pending s (as ++ [a]) t' where
  owns id hid := hstep.isSome_get? (hp.owns id (hstore ▸ hid))
  taken final states h := by
    obtain ⟨u, htook, howns, hstates⟩ := hp.taken final states (hloop ▸ h)
    exact ⟨u, htook.snoc hstep, hstore.symm ▸ howns, hstates⟩
  written final h := by
    obtain ⟨u, htook, hrows⟩ := hp.written final (hloop ▸ h)
    exact ⟨u, htook.snoc hstep, hstore.trans hrows⟩
  done h := by
    obtain ⟨u, htook, hrows⟩ := hp.done (hloop ▸ h)
    exact ⟨u, htook.snoc hstep, hstore.trans hrows⟩

/-- A step that begins a call of `Persist`, or ends one that failed or was not the final one. -/
theorem Pending.idle (hp : Pending s as t) (hstep : Step t a t') (hstore : t'.store = t.store)
    (hloop : t'.loop = .waiting ∨ t'.loop = .done false ∨
      ∃ final, t'.loop = .persisting final .called) : Pending s (as ++ [a]) t' where
  owns id hid := hstep.isSome_get? (hp.owns id (hstore ▸ hid))
  taken final states h := by
    rw [h] at hloop
    simp at hloop
  written final h := by
    rw [h] at hloop
    simp at hloop
  done h := by
    rw [h] at hloop
    simp at hloop

/-- A snapshot is taken. -/
theorem Pending.snapshot (hp : Pending s as t) (hrun : Run Step s as t)
    (hstep : Step t .snapshot t') : Pending s (as ++ [.snapshot]) t' := by
  obtain ⟨-, final, hloop, rfl⟩ := hstep
  refine ⟨hp.owns, ?_, fun _ h => (by cases h), fun h => by cases h⟩
  intro final' states h
  cases h
  exact ⟨t, ⟨as, [], rfl, hrun, hloop, .nil _⟩, hp.owns, rfl⟩

/-- The snapshot is written over the rows of the pool. -/
theorem Pending.saved (hp : Pending s as t) (hstep : Step t (.saveEgress true) t') :
    Pending s (as ++ [.saveEgress true]) t' := by
  have hstep' := hstep
  obtain ⟨-, final, states, hloop, rfl⟩ := hstep
  obtain ⟨u, htook, howns, rfl⟩ := hp.taken final states hloop
  have hrows : saveEgress t.store u.manager.snapshot = u.manager.rows := howns.saveEgress
  refine ⟨?_, fun _ _ h => (by cases h), ?_, fun h => by cases h⟩
  · -- what was in the pool when the snapshot was taken still is
    obtain ⟨before, after, -, -, -, hafter⟩ := htook
    intro id hid
    have hrow : (u.manager.rows id).isSome := hrows ▸ hid
    rw [Manager.isSome_rows] at hrow
    have hkept : (t.manager.get? id).isSome := run_isSome_get? hafter hrow
    exact hkept
  · intro final' h
    cases h
    exact ⟨u, htook.snoc hstep', hrows⟩

/-- One step keeps what is known of the last snapshot. -/
theorem Pending.step (hp : Pending s as t) (hrun : Run Step s as t) (hstep : Step t a t') :
    Pending s (as ++ [a]) t' := by
  have h := hstep.2
  cases a with
  | call caller e =>
    obtain ⟨-, -, m', -, rfl⟩ := h
    exact hp.frame hstep rfl rfl
  | signal =>
    cases h
    exact hp.frame hstep rfl rfl
  | request | requestEnds | job | jobEnds | serverFails | shutdownFails | givesUp =>
    obtain ⟨-, rfl⟩ := h
    exact hp.frame hstep rfl rfl
  | shutdown | drained | returns =>
    obtain ⟨-, -, rfl⟩ := h
    exact hp.frame hstep rfl rfl
  | tick =>
    obtain ⟨hloop, hnext⟩ := h
    by_cases hd : t.manager.dirty
    · rw [if_pos hd] at hnext
      subst hnext
      exact hp.idle hstep rfl (.inr (.inr ⟨false, rfl⟩))
    · rw [if_neg hd] at hnext
      subst hnext
      exact hp.frame hstep rfl rfl
  | flush =>
    obtain ⟨-, -, rfl⟩ := h
    exact hp.idle hstep rfl (.inr (.inr ⟨true, rfl⟩))
  | snapshot => exact hp.snapshot hrun hstep
  | saveEgress ok =>
    cases ok with
    | true => exact hp.saved hstep
    | false =>
      obtain ⟨final, states, -, rfl⟩ := h
      cases final with
      | true => exact hp.idle hstep rfl (.inr (.inl rfl))
      | false => exact hp.idle hstep rfl (.inl rfl)
  | clearDirty =>
    obtain ⟨final, hloop, rfl⟩ := h
    -- after the final write the loop is over, otherwise it waits for the next tick
    cases final with
    | false => exact hp.idle hstep rfl (.inl rfl)
    | true =>
      obtain ⟨u, htook, hrows⟩ := hp.written true hloop
      refine ⟨hp.owns, fun _ _ h => (by cases h), fun _ h => (by cases h), fun _ => ?_⟩
      exact ⟨u, htook.snoc hstep, hrows⟩

/-- In every execution from the start of `PersistLoop` on, over a store without rows of
    identities that are not in the pool: once the final write has succeeded, so also when `run`
    returns, the store holds the snapshot `u.manager.snapshot` which that write took. That has been
    the snapshot of the manager at every moment since then if and only if no call since then
    changed what a snapshot shows, and in that case the store holds the current one. -/
theorem flushed (h : Run Step s as t) (hstart : s.loop = .waiting)
    (howns : s.manager.Owns s.store) (hdone : t.loop = .done true) :
    ∃ before u after, as = before ++ .snapshot :: after ∧ Run Step s before u ∧
      u.loop = .persisting true .called ∧ t.store = u.manager.rows ∧
      ((∀ mid late v, after = mid ++ late →
        Run Step { u with loop := .persisting true (.taken u.manager.snapshot) } mid v →
          v.manager.snapshot = u.manager.snapshot) ↔
            ∀ caller e, .call caller e ∈ after → ¬ e.Alters) ∧
      ((∀ caller e, .call caller e ∈ after → ¬ e.Alters) → t.store = t.manager.rows) := by
  -- what the loop still has to write is tracked along the run
  have hpending : Pending s as t := by
    refine h.history ⟨howns, ?_, ?_, ?_⟩ fun as t a t' hrun hp hstep => hp.step hrun hstep
    all_goals simp [hstart]
  obtain ⟨u, ⟨before, after, hsplit, hbefore, hloop, hafter⟩, hrows⟩ := hpending.done hdone
  refine ⟨before, u, after, hsplit, hbefore, hloop, hrows, run_snapshot_iff hafter,
    fun hquiet => ?_⟩
  rw [hrows]
  unfold Manager.rows
  rw [run_snapshot hafter hquiet]

/-! ## Two executions -/

/-- A store that was never written. -/
def noRows : String → Option (EgressState ℚ) := fun _ => none

/-- A job is submitted. -/
def submission : List (ServingAction ℚ) := [.request, .job, .requestEnds]

/-- The signal comes, and `PersistLoop` makes its final write. -/
def finalWrite : List (ServingAction ℚ) :=
  [.signal, .flush, .snapshot, .saveEgress true, .clearDirty]

/-- The server drains, and `run` returns. -/
def finish : List (ServingAction ℚ) := [.shutdown, .drained, .returns]

/-- A job is submitted. -/
theorem run_submission (m : Manager ℚ) (store : String → Option (EgressState ℚ)) :
    Run Step { manager := m, store } submission { manager := m, store, jobs := 1 } :=
  .cons ⟨by simp, rfl, rfl⟩
    (.cons ⟨by simp, Nat.one_pos, rfl⟩ (.cons ⟨by simp, Nat.one_pos, rfl⟩ (.nil _)))

/-- The loop writes once more after the signal. -/
theorem run_finalWrite (m : Manager ℚ) (store : String → Option (EgressState ℚ)) :
    Run Step { manager := m, store, jobs := 1 } finalWrite
      { manager := { m with dirty := false }, store := saveEgress store m.snapshot,
        loop := .done true, signalled := true, jobs := 1 } := by
  refine .cons ⟨by simp, rfl⟩ (.cons ⟨by simp, rfl, rfl, rfl⟩ (.cons ⟨by simp, true, rfl, rfl⟩ ?_))
  exact .cons ⟨by simp, true, _, rfl, rfl⟩ (.cons ⟨by simp, true, rfl, rfl⟩ (.nil _))

/-- The server drains, and `run` returns. -/
theorem run_finish (m : Manager ℚ) (store : String → Option (EgressState ℚ)) :
    Run Step { manager := m, store, loop := .done true, signalled := true, jobs := 1 } finish
      { manager := m, store, loop := .done true, signalled := true, jobs := 1,
        drain := .returned false } :=
  .cons ⟨by simp, rfl, rfl, rfl⟩ (.cons ⟨by simp, rfl, rfl, rfl⟩
    (.cons ⟨by simp, rfl, ⟨true, rfl⟩, rfl⟩ (.nil _)))

/-- A job reports a block before the final write, which covers it. -/
theorem flushed_job : ∃ t,
    Run Step { manager := Manager.new soloConfig 0, store := noRows }
      (submission ++ .call .job (blockedEvent (Manager.new soloConfig 0)) :: finalWrite ++ finish)
      t ∧
    t.drain = .returned false ∧ t.store = t.manager.rows ∧
      (t.store "a").map (·.blockStreak) = some 1 := by
  let m₀ := Manager.new soloConfig 0
  have hcall : Step { manager := m₀, store := noRows, jobs := 1 } (.call .job (blockedEvent m₀))
      { manager := afterBlocked m₀, store := noRows, jobs := 1 } :=
    ⟨by simp, by simp, by simp, _, step_blockedEvent m₀, rfl⟩
  have hrun := (run_submission m₀ noRows).append (.cons hcall (run_finalWrite _ _))
    |>.append (run_finish _ _)
  refine ⟨_, hrun, rfl, ?_, by decide +kernel⟩
  obtain ⟨before, u, after, hsplit, -, -, -, -, hquiet⟩ :=
    flushed hrun rfl (fun _ h => by cases h) rfl
  refine hquiet fun caller e hmem => ?_
  -- the one call comes before the one snapshot
  have hcalls : (submission ++ [.call .job (blockedEvent m₀), .signal, .flush]) ++
      .snapshot :: .saveEgress true :: .clearDirty :: finish =
        before ++ .snapshot :: after := hsplit
  obtain ⟨-, -, hafter⟩ := (List.append_cons_inj_of_notMem (by simp [submission])
    (by simp [finish])).mp hcalls
  rw [← hafter] at hmem
  simp [finish] at hmem

/-- The state of the store when `run` returns is not the snapshot of that moment if a job goes on
    after the final write, or if the store has the row of an identity that is no longer
    configured. -/
theorem flush_too_early :
    (∃ t, Run Step { manager := Manager.new soloConfig 0, store := noRows }
        (submission ++ finalWrite ++
          .call .job (blockedEvent { Manager.new soloConfig 0 with dirty := false }) :: finish) t ∧
      t.drain = .returned false ∧ t.loop = .done true ∧ t.store ≠ t.manager.rows) ∧
    ∃ t, Run Step { manager := Manager.new soloConfig 0, store := (Manager.new pairConfig 0).rows }
        (submission ++ finalWrite ++ finish) t ∧
      t.drain = .returned false ∧ t.loop = .done true ∧ t.store ≠ t.manager.rows := by
  let m₀ := Manager.new soloConfig 0
  let m₁ : Manager ℚ := { m₀ with dirty := false }
  constructor
  · have hcall : Step
        { manager := m₁, store := saveEgress noRows m₀.snapshot, loop := .done true,
          signalled := true, jobs := 1 } (.call .job (blockedEvent m₁))
        { manager := afterBlocked m₁, store := saveEgress noRows m₀.snapshot, loop := .done true,
          signalled := true, jobs := 1 } :=
      ⟨by simp, by simp, by simp, _, step_blockedEvent m₁, rfl⟩
    have hrun := ((run_submission m₀ noRows).append (run_finalWrite _ _)).append
      (.cons hcall (run_finish _ _))
    refine ⟨_, hrun, rfl, rfl, fun h => ?_⟩
    have hstreak := congrArg (Option.map (·.blockStreak)) (congrFun h "a")
    exact absurd hstreak (by decide +kernel)
  · -- the row of `"b"` is neither updated nor removed
    have hrun := ((run_submission m₀ (Manager.new pairConfig 0).rows).append
      (run_finalWrite _ _)).append (run_finish _ _)
    refine ⟨_, hrun, rfl, rfl, fun h => ?_⟩
    have hrow := congrArg Option.isSome (congrFun h "b")
    exact absurd hrow (by decide +kernel)

end Serving

end Rcptto.Native
