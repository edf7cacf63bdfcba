import Rcptto.Native.Persist
import Rcptto.Spec.Breaker

/-!
# No lost reputation update

`PersistLoop` skips a tick when the dirty flag is not set, so the flag must be set whenever
the store is behind. Two paths break that. An operation between the snapshot of a `Persist`
and its last step sets a flag that the last step clears again. And a `Binding` that returns
`ErrNoEgress` has reconciled the pool before, which changes what a snapshot shows, but it
does not set the flag. `Durable.Undisturbed` says that an operation takes neither path.

## Key results

- `Manager.Step.dirty_or_snapshot`: the one way to change a snapshot without setting the flag
- `Durable.Current.step`: what a step keeps, if it is undisturbed
- `saved_of_clean`: with undisturbed steps only, the store of a clean manager is up to date
-/

namespace Rcptto.Native

variable {F : Type} [Add F] [Sub F] [Mul F] [OfScientific F] [LinearOrder F]

/-! ## The dirty flag -/

namespace Manager

variable {m m' : Manager F} {e : Event F}

omit [Add F] [Sub F] [Mul F] [OfScientific F] [LinearOrder F] in
/-- An update of one record that is not visible in its entry is not visible in a snapshot. -/
theorem snapshot_modify {k : String} {f : Record F → Record F} {hf : ∀ r, r.id = k → (f r).id = k}
    (hst : ∀ r, m.get? k = some r → (f r).toEgressState = r.toEgressState) :
    { m with pool := m.pool.modify k f hf }.snapshot = m.snapshot := by
  rw [← List.map_id m.snapshot]
  refine snapshot_eq_map rfl fun i r hr => ⟨if k = r.id then f r else r, ?_, ?_⟩
  · show (m.pool.modify k f hf).get? i = _
    rw [OrderedMap.get?_modify hr]
  · split
    · rename_i hk
      have hi : i = k := (m.pool.key_eq i r hr).symm.trans hk.symm
      exact hst r (hi ▸ hr)
    · rfl

omit [Add F] [Sub F] [Mul F] [OfScientific F] [LinearOrder F] in
/-- Reachability is not persisted. -/
theorem snapshot_setOnline (id : String) (online : Bool) :
    (m.setOnline id online).snapshot = m.snapshot := by
  unfold setOnline
  split
  · rfl
  · split
    · rfl
    · exact snapshot_modify fun _ _ => rfl

omit [Add F] [Sub F] [Mul F] [OfScientific F] [LinearOrder F] in
/-- A new spec for an identity of the pool is not visible: of the spec only the id is persisted,
    and it stays the same. -/
theorem snapshot_addIdentity (now : Int) {spec : Spec} {r : Record F}
    (h : m.get? spec.id = some r) : (m.addIdentity now spec).snapshot = m.snapshot := by
  unfold addIdentity
  rw [h]
  refine snapshot_modify fun r hr => ?_
  have hid : r.id = spec.id := m.pool.key_eq _ _ hr
  show { r.toEgressState with id := spec.id } = r.toEgressState
  rw [← hid]
  rfl

omit [LinearOrder F] in
/-- `Emit` sets the flag unless it skips every signal. -/
theorem emit_eq_or_dirty (now : Int) (signals : List Signal) :
    m.emit now signals = m ∨ (m.emit now signals).dirty = true := by
  induction signals using List.reverseRecOn with
  | nil => exact .inl rfl
  | append_singleton signals sig ih =>
    have hsnoc : m.emit now (signals ++ [sig]) = (m.emit now signals).emitSignal now sig := by
      simp [emit]
    rw [hsnoc]
    -- a signal of an unknown identity changes nothing, any other one sets the flag
    unfold emitSignal
    split
    · exact ih
    · exact .inr rfl

namespace Step

/-- An operation sets the flag, or it leaves the flag and the snapshot alone. The one
    exception is a `Binding` that fails: it leaves the flag alone and the reconciled pool
    behind. -/
theorem dirty_or_snapshot (h : m.Step e m') :
    m'.dirty = true ∨ m'.dirty = m.dirty ∧ (m'.snapshot = m.snapshot ∨
      e.ret = some (.error .errNoEgress) ∧
        m'.snapshot = (m.reconcileLocked e.now).snapshot) := by
  cases hop : e.op with
  | binding task =>
    rcases h.binding_cases hop with ⟨-, hret, rfl⟩ | ⟨b, r, -, -, -, rfl⟩
    · exact .inr ⟨rfl, .inr ⟨hret, snapshot_touchAll _ _ _⟩⟩
    · exact .inl rfl
  | emit signals =>
    obtain ⟨-, hexec⟩ := h
    simp only [hop, exec, Option.some.injEq, Prod.mk.injEq] at hexec
    obtain ⟨rfl, -⟩ := hexec
    rcases m.emit_eq_or_dirty e.now signals with hsame | hdirty
    · rw [hsame]
      exact .inr ⟨rfl, .inl rfl⟩
    · exact .inl hdirty
  | enable id | disable id reason | quarantine id reason =>
    obtain ⟨-, hexec⟩ := h
    simp only [hop, exec, Option.some.injEq, Prod.mk.injEq] at hexec
    obtain ⟨rfl, -⟩ := hexec
    -- an unknown identity is ignored
    first | unfold enable | unfold disable | unfold quarantine
    split
    · exact .inr ⟨rfl, .inl rfl⟩
    · exact .inl rfl
  | setOnline id online =>
    obtain ⟨-, hexec⟩ := h
    simp only [hop, exec, Option.some.injEq, Prod.mk.injEq] at hexec
    obtain ⟨rfl, -⟩ := hexec
    refine .inr ⟨?_, .inl (snapshot_setOnline id online)⟩
    unfold setOnline
    split
    · rfl
    · split <;> rfl
  | addIdentity spec =>
    obtain ⟨-, hexec⟩ := h
    simp only [hop, exec, Option.some.injEq, Prod.mk.injEq] at hexec
    obtain ⟨rfl, -⟩ := hexec
    cases hspec : m.get? spec.id with
    | some r =>
      refine .inr ⟨?_, .inl (snapshot_addIdentity e.now hspec)⟩
      unfold addIdentity
      rw [hspec]
    | none =>
      refine .inl ?_
      unfold addIdentity
      rw [hspec]
  | setThresholds q c =>
    obtain ⟨-, hexec⟩ := h
    simp only [hop, exec, Option.some.injEq, Prod.mk.injEq] at hexec
    obtain ⟨rfl, -⟩ := hexec
    exact .inr ⟨rfl, .inl rfl⟩
  | restore states =>
    obtain ⟨-, hexec⟩ := h
    simp only [hop, exec, Option.some.injEq, Prod.mk.injEq] at hexec
    obtain ⟨rfl, -⟩ := hexec
    exact .inl rfl

/-- No operation clears the flag. -/
theorem dirty_mono (h : m.Step e m') (hd : m.dirty = true) : m'.dirty = true := by
  rcases h.dirty_or_snapshot with hd' | ⟨hd', -⟩
  · exact hd'
  · rw [hd', hd]

end Step

end Manager

/-! ## Undisturbed steps -/

/-- The operation changes what a snapshot shows. -/
def Event.Alters (e : Event F) : Prop :=
  ∃ m', e.pre.Step e m' ∧ m'.snapshot ≠ e.pre.snapshot

namespace Durable

/-- An operation that changes what a snapshot shows comes neither between the snapshot of a
    `Persist` and its last step, nor from a `Binding` that fails on a clean manager. -/
def Undisturbed (s : Durable F) (a : PersistAction F) : Prop :=
  match a with
  | .call e => e.Alters →
      (∀ p ∈ s.persists, p = .called) ∧
        (e.ret = some (.error .errNoEgress) → s.manager.dirty = true)
  | _ => True

/-- An execution whose steps are all undisturbed. -/
abbrev UndisturbedRuns (s : Durable F) (as : List (PersistAction F)) (s' : Durable F) : Prop :=
  Run (fun s a s' => Undisturbed s a ∧ Step s a s') s as s'

/-- The snapshots under way are up to date, and so is the store once one is written, until
    the flag is set. -/
structure Current (s : Durable F) : Prop where
  taken : ∀ states, .taken states ∈ s.persists → states = s.manager.snapshot
  written : .written ∈ s.persists → s.saved = some s.manager.snapshot
  clean : s.succeeded = true → s.manager.dirty = false → s.saved = some s.manager.snapshot

variable {s s' : Durable F} {a : PersistAction F}

/-- A call to the manager keeps the store current, if it is undisturbed. -/
theorem Current.call {e : Event F} {m' : Manager F} (hs : s.Current)
    (hu : s.Undisturbed (.call e)) (h : s.manager.Step e m') :
    Current { s with manager := m' } := by
  by_cases hsnap : m'.snapshot = s.manager.snapshot
  · -- nothing to write: the flag may be set, but it is not cleared
    refine ⟨?_, ?_, ?_⟩
    · intro states hmem
      rw [hs.taken states hmem, hsnap]
    · intro hmem
      show s.saved = some m'.snapshot
      rw [hs.written hmem, hsnap]
    · intro hok hclean
      have hclean₀ : s.manager.dirty = false := by
        cases hd : s.manager.dirty with
        | false => rfl
        | true => exact (h.dirty_mono hd).symm.trans hclean
      show s.saved = some m'.snapshot
      rw [hs.clean hok hclean₀, hsnap]
  · -- the snapshot changes: no `Persist` has one in its hands, and the flag is set
    have hpre := h.1
    obtain ⟨hcalled, hfail⟩ := hu ⟨m', hpre ▸ h, hpre ▸ hsnap⟩
    have hdirty : m'.dirty = true := by
      rcases h.dirty_or_snapshot with hd | ⟨hd, hsame | ⟨hret, -⟩⟩
      · exact hd
      · exact absurd hsame hsnap
      · rw [hd, hfail hret]
    refine ⟨?_, ?_, ?_⟩
    · intro states hmem
      exact absurd (hcalled _ hmem) (by simp)
    · intro hmem
      exact absurd (hcalled _ hmem) (by simp)
    · intro _ hclean
      exact absurd (hdirty.symm.trans hclean) (by simp)

/-- An undisturbed step keeps the store current. -/
theorem Current.step (hs : s.Current) (hu : s.Undisturbed a) (h : s.Step a s') : s'.Current := by
  cases a with
  | call e =>
    obtain ⟨m', hstep, rfl⟩ := h
    exact hs.call hu hstep
  | tick | flush =>
    -- a new call of `Persist` has no snapshot yet
    have hnew : ({ s with persists := s.persists ++ [.called] } : Durable F).Current := by
      refine ⟨?_, ?_, hs.clean⟩
      · intro states hmem
        exact hs.taken states (by simpa using hmem)
      · intro hmem
        exact hs.written (by simpa using hmem)
    simp only [Step] at h
    first
      | subst h; exact hnew
      | subst h; split
        · exact hnew
        · exact hs
  | snapshot k =>
    obtain ⟨-, rfl⟩ := h
    refine ⟨?_, ?_, hs.clean⟩
    · intro states hmem
      rcases List.mem_or_eq_of_mem_set hmem with hmem | heq
      · exact hs.taken states hmem
      · cases heq
        rfl
    · intro hmem
      rcases List.mem_or_eq_of_mem_set hmem with hmem | heq
      · exact hs.written hmem
      · cases heq
  | saveEgress k ok =>
    obtain ⟨states, hk, rfl⟩ := h
    have hstates := hs.taken states (List.mem_of_getElem? hk)
    cases ok with
    | true =>
      -- what is written is the snapshot of the moment
      show Current { s with saved := some states, persists := s.persists.set k .written }
      refine ⟨?_, ?_, ?_⟩
      · intro states' hmem
        rcases List.mem_or_eq_of_mem_set hmem with hmem | heq
        · exact hs.taken states' hmem
        · cases heq
      · intro _
        exact congrArg some hstates
      · intro _ _
        exact congrArg some hstates
    | false =>
      refine ⟨?_, ?_, hs.clean⟩
      · intro states' hmem
        exact hs.taken states' (List.mem_of_mem_eraseIdx hmem)
      · intro hmem
        exact hs.written (List.mem_of_mem_eraseIdx hmem)
  | clearDirty k =>
    obtain ⟨hk, rfl⟩ := h
    have hsaved := hs.written (List.mem_of_getElem? hk)
    refine ⟨?_, ?_, ?_⟩
    · intro states hmem
      exact hs.taken states (List.mem_of_mem_eraseIdx hmem)
    · intro _
      exact hsaved
    · intro _ _
      exact hsaved

end Durable

/-- In every execution whose steps are all undisturbed: whenever the flag is clear after a
    successful `Persist`, the states last saved are the current snapshot. So a tick that
    `PersistLoop` skips has nothing to write. -/
theorem saved_of_clean (m : Manager F) {as : List (PersistAction F)} {s : Durable F}
    (h : Durable.UndisturbedRuns { manager := m } as s)
    (hok : s.succeeded = true) (hclean : s.manager.dirty = false) :
    s.saved = some s.manager.snapshot := by
  have hcurrent : s.Current := by
    refine h.invariant ⟨by simp, by simp, by simp⟩ ?_
    intro s a s' _ hs hstep
    exact hs.step hstep.1 hstep.2
  exact hcurrent.clean hok hclean

/-! ## Runs of `Persist` -/

/-- A tick on a dirty manager, up to the write of its snapshot. -/
theorem Durable.write_of_dirty {m : Manager F} (hd : m.dirty = true) :
    Durable.UndisturbedRuns { manager := m }
      [.tick, .snapshot 0, .saveEgress 0 true]
      { manager := m, saved := some m.snapshot, persists := [.written] } := by
  refine .cons ⟨trivial, rfl⟩ (.cons ⟨trivial, ?_, rfl⟩ ?_)
  · simp [hd]
  · refine .cons ⟨trivial, m.snapshot, ?_, ?_⟩ (.nil _)
    · simp [hd]
    · simp [hd]

/-- The event of an `Emit` with one `Blocked` signal. -/
def blockedEvent (m : Manager ℚ) : Event ℚ where
  pre := m
  now := 1
  op := .emit [gmailSignal .blocked]
  ret := none

/-- The manager after an `Emit` with one `Blocked` signal. -/
def afterBlocked (m : Manager ℚ) : Manager ℚ := m.emit 1 [gmailSignal .blocked]

theorem step_blockedEvent (m : Manager ℚ) : m.Step (blockedEvent m) (afterBlocked m) := ⟨rfl, rfl⟩

/-- A block that is reported and then written. -/
theorem saved_of_clean_blocked : ∃ as s,
    ({ manager := Manager.new soloConfig 0 } : Durable ℚ).UndisturbedRuns as s ∧
    s.saved = some s.manager.snapshot ∧ s.manager.snapshot.map (·.blockStreak) = [1] := by
  let m₀ := Manager.new soloConfig 0
  let m₁ := afterBlocked m₀
  let s : Durable ℚ :=
    { manager := { m₁ with dirty := false }, saved := some m₁.snapshot, succeeded := true }
  have hcall : Durable.Undisturbed { manager := m₀ } (.call (blockedEvent m₀)) :=
    fun _ => ⟨by simp, fun h => by cases h⟩
  have hrun : Durable.UndisturbedRuns { manager := m₀ } (.call (blockedEvent m₀) ::
      ([.tick, .snapshot 0, .saveEgress 0 true] ++ [.clearDirty 0])) s := by
    refine .cons ⟨hcall, m₁, step_blockedEvent m₀, rfl⟩ ?_
    refine (Durable.write_of_dirty (m := m₁) (by decide +kernel)).append ?_
    exact .cons ⟨trivial, rfl, rfl⟩ (.nil _)
  exact ⟨_, s, hrun, saved_of_clean m₀ hrun rfl rfl, by decide +kernel⟩

/-- An update is lost in both ways: a second `Blocked` signal arrives while the first one is
    being written, and the daily reset of a disabled identity is noticed by a `Binding` that
    finds nobody to probe with. -/
theorem update_lost :
    (∃ s, ({ manager := Manager.new soloConfig 0 } : Durable ℚ).Runs
        [.call (blockedEvent (Manager.new soloConfig 0)), .tick, .snapshot 0, .saveEgress 0 true,
          .call (blockedEvent (afterBlocked (Manager.new soloConfig 0))), .clearDirty 0] s ∧
      s.succeeded = true ∧ s.manager.dirty = false ∧ s.saved ≠ some s.manager.snapshot) ∧
    ∃ e₁ e₂ s, ({ manager := Manager.new soloConfig 0 } : Durable ℚ).Runs
        [.call e₁, .tick, .snapshot 0, .saveEgress 0 true, .clearDirty 0, .call e₂] s ∧
      e₁.op = .disable "a" "maintenance" ∧ e₂.op = .binding gmailTask ∧
      e₂.ret = some (.error .errNoEgress) ∧
      s.succeeded = true ∧ s.manager.dirty = false ∧ s.saved ≠ some s.manager.snapshot := by
  let m₀ := Manager.new soloConfig 0
  constructor
  · let m₁ := afterBlocked m₀
    let m₂ := afterBlocked m₁
    let s : Durable ℚ :=
      { manager := { m₂ with dirty := false }, saved := some m₁.snapshot, succeeded := true }
    refine ⟨s, .cons ⟨m₁, step_blockedEvent m₀, rfl⟩ ?_, rfl, rfl, ?_⟩
    · have hwrite := (Durable.write_of_dirty (m := m₁) (by decide +kernel)).mono
        fun _ _ _ h => h.2
      exact hwrite.append (.cons ⟨m₂, step_blockedEvent m₁, rfl⟩
        (.cons ⟨rfl, rfl⟩ (.nil _)))
    · intro h
      have hstreak := congrArg (Option.map fun states => states.map (·.blockStreak)) h
      exact absurd hstreak (by decide +kernel)
  · let m₁ := m₀.disable "a" "maintenance"
    let m₂ : Manager ℚ := { m₁ with dirty := false }
    -- a day later the counters of the disabled identity are reset, but it stays out
    have hbind : (m₂.exec (25 * hour) (.binding gmailTask)).map
        (fun p => (p.2, p.1.dirty, p.1.snapshot.map (·.lastReset))) =
        some (some (.error .errNoEgress), false, [24 * hour]) := by decide +kernel
    obtain ⟨⟨m₃, ret⟩, hexec, hres⟩ := Option.map_eq_some_iff.mp hbind
    simp only [Prod.mk.injEq] at hres
    obtain ⟨hret, hdirty, hreset⟩ := hres
    let e₁ : Event ℚ := { pre := m₀, now := 0, op := .disable "a" "maintenance", ret := none }
    let e₂ : Event ℚ := { pre := m₂, now := 25 * hour, op := .binding gmailTask, ret := ret }
    let s : Durable ℚ := { manager := m₃, saved := some m₁.snapshot, succeeded := true }
    refine ⟨e₁, e₂, s, .cons ⟨m₁, ⟨rfl, rfl⟩, rfl⟩ ?_, rfl, rfl, hret, rfl, hdirty, ?_⟩
    · have hwrite := (Durable.write_of_dirty (m := m₁) (by decide +kernel)).mono
        fun _ _ _ h => h.2
      exact hwrite.append (.cons ⟨rfl, rfl⟩ (.cons ⟨m₃, ⟨rfl, hexec⟩, rfl⟩ (.nil _)))
    · intro h
      have hsame : m₁.snapshot.map (·.lastReset) = m₃.snapshot.map (·.lastReset) :=
        congrArg (List.map (·.lastReset)) (Option.some.inj h)
      rw [hreset] at hsame
      exact absurd hsame (by decide +kernel)

end Rcptto.Native
