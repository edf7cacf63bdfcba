import Rcptto.Native.System
import Rcptto.Spec.Selection

/-!
# What one operation does to one identity

Identities only meet in the selection loop; every operation acts on each record on
its own. `Event.effect` says how, as a function of the event and the record, and
`Step.get?` proves it of every step of the manager. Invariants over executions are
derived from it and never unfold an operation again.

## Key results

- `Step.get?`: a registered identity's record becomes `e.effect r`
- `Step.get?_none`: an identity comes into being only by `AddIdentity`
- `Step.eligible_of_returns`: a returned identity was eligible after reconciliation
- `Step.tuning`: the tuning changes only by `SetThresholds`
-/

namespace Rcptto.Native

variable {F : Type} [Add F] [Sub F] [Mul F] [OfScientific F] [LinearOrder F]

/-! ## Effects -/

namespace Record

section Signal

/-! A signal moves health, a breaker, the block streak and, when it quarantines, the
state with its deadline. -/

variable {r : Record F} {t : Tuning F} {now : Int} {sig : Signal}

omit [LinearOrder F] in
/-- What a signal leaves alone. -/
private theorem applySignal_frame : (r.applySignal t now sig).spec = r.spec ∧
    (r.applySignal t now sig).warmupStage = r.warmupStage ∧
    (r.applySignal t now sig).usedToday = r.usedToday ∧
    (r.applySignal t now sig).lastReset = r.lastReset ∧
    (r.applySignal t now sig).online = r.online ∧
    (r.applySignal t now sig).quarantineReason = r.quarantineReason := by
  unfold applySignal
  -- a block can quarantine the identity, which is a case split of its own
  cases sig.kind with
  | blocked =>
    dsimp only
    split <;> simp [updateHealth, updateCircuit]
  | _ => simp [updateHealth, updateCircuit]

omit [LinearOrder F]

@[simp] theorem applySignal_spec : (r.applySignal t now sig).spec = r.spec := applySignal_frame.1

@[simp] theorem applySignal_online : (r.applySignal t now sig).online = r.online :=
  applySignal_frame.2.2.2.2.1

@[simp] theorem applySignal_warmupStage :
    (r.applySignal t now sig).warmupStage = r.warmupStage := applySignal_frame.2.1

@[simp] theorem applySignal_usedToday :
    (r.applySignal t now sig).usedToday = r.usedToday := applySignal_frame.2.2.1

@[simp] theorem applySignal_lastReset :
    (r.applySignal t now sig).lastReset = r.lastReset := applySignal_frame.2.2.2.1

@[simp] theorem applySignal_quarantineReason :
    (r.applySignal t now sig).quarantineReason = r.quarantineReason :=
  applySignal_frame.2.2.2.2.2

end Signal

/-- The effect of a batch of signals on a record: those of its own identity count. -/
def applySignals (r : Record F) (t : Tuning F) (now : Int) (signals : List Signal) : Record F :=
  signals.foldl (fun r sig => if sig.egressID = r.id then r.applySignal t now sig else r) r

/-- The effect of restored states on a record: those of its own identity count. -/
def restoreAll (r : Record F) (states : List (EgressState F)) : Record F :=
  states.foldl (fun r st => if st.id = r.id then r.restore st else r) r

omit [LinearOrder F] in
/-- Signals do not change the identity. -/
@[simp] theorem id_applySignals (r : Record F) (t : Tuning F) (now : Int) (signals : List Signal) :
    (r.applySignals t now signals).id = r.id := by
  induction signals generalizing r with
  | nil => rfl
  | cons sig signals ih =>
    rw [applySignals, List.foldl_cons]
    refine (ih _).trans ?_
    split <;> simp

omit [LinearOrder F] in
theorem applySignals_cons (r : Record F) (t : Tuning F) (now : Int) (sig : Signal)
    (signals : List Signal) : r.applySignals t now (sig :: signals) =
      (if sig.egressID = r.id then r.applySignal t now sig else r).applySignals t now signals := rfl

omit [LinearOrder F] in
theorem applySignals_append (r : Record F) (t : Tuning F) (now : Int) (s₁ s₂ : List Signal) :
    r.applySignals t now (s₁ ++ s₂) = (r.applySignals t now s₁).applySignals t now s₂ :=
  List.foldl_append ..

omit [LinearOrder F] in
/-- The last signal counts if it is for this identity. -/
theorem applySignals_snoc (r : Record F) (t : Tuning F) (now : Int) (signals : List Signal)
    (sig : Signal) : r.applySignals t now (signals ++ [sig]) =
      if sig.egressID = r.id then (r.applySignals t now signals).applySignal t now sig
      else r.applySignals t now signals := by
  rw [applySignals_append, applySignals_cons, id_applySignals]
  rfl

omit [LinearOrder F] in
/-- Frame rule: a part of the record that no signal writes is left as it was. -/
theorem applySignals_proj {α : Type*} (g : Record F → α) {t : Tuning F} {now : Int}
    (hsig : ∀ (r : Record F) sig, g (r.applySignal t now sig) = g r) (r : Record F)
    (signals : List Signal) : g (r.applySignals t now signals) = g r := by
  refine List.foldlRecOn (motive := fun r' => g r' = g r) signals _ rfl fun r' hr' sig _ => ?_
  split
  · exact (hsig r' sig).trans hr'
  · exact hr'

omit [Add F] [Sub F] [Mul F] [OfScientific F] [LinearOrder F] in
theorem restoreAll_cons (r : Record F) (st : EgressState F) (states : List (EgressState F)) :
    r.restoreAll (st :: states) =
      (if st.id = r.id then r.restore st else r).restoreAll states := rfl

omit [Add F] [Sub F] [Mul F] [OfScientific F] [LinearOrder F] in
/-- Rows for other identities leave a record as it is. -/
theorem restoreAll_of_notMem {r : Record F} {states : List (EgressState F)}
    (h : r.id ∉ states.map (·.id)) : r.restoreAll states = r := by
  induction states with
  | nil => rfl
  | cons st states ih =>
    simp only [List.map_cons, List.mem_cons, not_or] at h
    rw [restoreAll_cons, if_neg (Ne.symm h.1)]
    exact ih h.2

end Record

/-- The effect of an event on the record of a registered identity. -/
def Event.effect (e : Event F) (r : Record F) : Record F :=
  match e.op with
  | .binding task =>
    let r := (r.reconcile e.pre.warmupStages.length e.now).touch (destOf task) e.now
    if e.returns r.id then r.charge else r
  | .emit signals => r.applySignals e.pre.toTuning e.now signals
  | .enable id => if id = r.id then r.enable else r
  | .disable id reason => if id = r.id then r.disable reason else r
  | .quarantine id reason =>
    if id = r.id then r.quarantine (e.now + e.pre.quarantineCooldown) reason else r
  | .setOnline id online => if id = r.id then r.setOnline online else r
  | .addIdentity spec => if spec.id = r.id then r.setSpec spec else r
  | .setThresholds _ _ => r
  | .restore states => r.restoreAll states

section Binding

variable {e : Event F} {task : Task} (hop : e.op = .binding task) (r : Record F)

omit [LinearOrder F]

include hop

/-- The effect of a `Binding`: the record is reconciled and asked, and charged if it is returned. -/
theorem Event.effect_binding : e.effect r =
    if e.returns r.id then
      ((r.reconcile e.pre.warmupStages.length e.now).touch (destOf task) e.now).charge
    else (r.reconcile e.pre.warmupStages.length e.now).touch (destOf task) e.now := by
  simp only [effect, hop, Record.id_touch, Record.id_reconcile]

/-- A `Binding` reconciles a record; on top of that it writes breakers and the counter. -/
theorem Event.effect_binding_frame :
    (e.effect r).state = (r.reconcile e.pre.warmupStages.length e.now).state ∧
      (e.effect r).warmupStage = (r.reconcile e.pre.warmupStages.length e.now).warmupStage ∧
      (e.effect r).lastReset = (r.reconcile e.pre.warmupStages.length e.now).lastReset ∧
      (e.effect r).blockStreak = (r.reconcile e.pre.warmupStages.length e.now).blockStreak ∧
      (e.effect r).quarantinedUntil = r.quarantinedUntil := by
  rw [effect_binding hop]
  split <;> simp [Record.charge]

/-- A `Binding` counts as one probe of the identity that it returns. -/
theorem Event.effect_binding_usedToday : (e.effect r).usedToday =
    (r.reconcile e.pre.warmupStages.length e.now).usedToday +
      if e.returns r.id then 1 else 0 := by
  rw [effect_binding hop]
  split <;> simp [Record.charge]

end Binding

/-- The operation is `Restore`. -/
def Op.IsRestore : Op F → Prop
  | .restore _ => True
  | _ => False

omit [Add F] [Sub F] [Mul F] [OfScientific F] [LinearOrder F] in
instance : DecidablePred (Op.IsRestore (F := F))
  | .restore _ => .isTrue trivial
  | .binding _ | .emit _ | .enable _ | .disable _ _ | .quarantine _ _ | .setOnline _ _
  | .addIdentity _ | .setThresholds _ _ => .isFalse id

omit [LinearOrder F] in
/-- Frame rule: a part of the record that only reconciliation, charging and `Restore`
    write is left alone by every other operation. -/
theorem Event.effect_proj {α : Type*} (g : Record F → α) {e : Event F} {r : Record F}
    (hbind : ∀ task, e.op ≠ .binding task) (hrestore : ¬ e.op.IsRestore)
    (hsignal : ∀ (r : Record F) sig, g (r.applySignal e.pre.toTuning e.now sig) = g r)
    (henable : ∀ r : Record F, g r.enable = g r)
    (hdisable : ∀ (r : Record F) reason, g (r.disable reason) = g r)
    (hquarantine : ∀ (r : Record F) till reason, g (r.quarantine till reason) = g r)
    (honline : ∀ (r : Record F) online, g (r.setOnline online) = g r)
    (hspec : ∀ (r : Record F) spec, g (r.setSpec spec) = g r) : g (e.effect r) = g r := by
  unfold effect
  -- the operations on one identity all have the same shape, and are done together at the end
  cases hop : e.op with
  | binding task => exact absurd hop (hbind task)
  | restore states => rw [hop] at hrestore; exact absurd trivial hrestore
  | emit signals => exact Record.applySignals_proj g hsignal r signals
  | setThresholds quarantine circuit => rfl
  | _ =>
    dsimp only
    split
    · simp only [henable, hdisable, hquarantine, honline, hspec]
    · rfl

/-! ## The operations, identity by identity -/

namespace Manager

variable {m m' : Manager F} {now : Int} {i : String} {r : Record F}

section Pool

/-! Each of these operations looks an identity up and updates its record if it is there,
which is `modify` in either case. -/

omit [LinearOrder F] in
/-- A signal modifies the record of its identity, if there is one. -/
theorem pool_emitSignal {sig : Signal} : (m.emitSignal now sig).pool =
    m.pool.modify sig.egressID (·.applySignal m.toTuning now sig)
      fun r h => (r.id_applySignal _ _ _).trans h := by
  unfold emitSignal
  split
  · next h => exact (OrderedMap.modify_of_none h).symm
  · rfl

omit [Add F] [Sub F] [Mul F] [OfScientific F] [LinearOrder F]

/-- `Enable` modifies one record. -/
theorem pool_enable {id : String} : (m.enable id).pool =
    m.pool.modify id (·.enable) fun r h => r.id_enable.trans h := by
  unfold enable
  split
  · next h => exact (OrderedMap.modify_of_none h).symm
  · rfl

/-- `Disable` modifies one record. -/
theorem pool_disable {id reason : String} : (m.disable id reason).pool =
    m.pool.modify id (·.disable reason) fun r h => (r.id_disable _).trans h := by
  unfold disable
  split
  · next h => exact (OrderedMap.modify_of_none h).symm
  · rfl

/-- `Quarantine` modifies one record. -/
theorem pool_quarantine {id reason : String} : (m.quarantine now id reason).pool =
    m.pool.modify id (·.quarantine (now + m.quarantineCooldown) reason)
      fun r h => (r.id_quarantine _ _).trans h := by
  unfold quarantine
  split
  · next h => exact (OrderedMap.modify_of_none h).symm
  · rfl

/-- `SetOnline` modifies one record; it writes nothing if the flag is already right. -/
theorem pool_setOnline {id : String} {online : Bool} : (m.setOnline id online).pool =
    m.pool.modify id (·.setOnline online) fun r h => (r.id_setOnline _).trans h := by
  unfold setOnline
  split
  · next h => exact (OrderedMap.modify_of_none h).symm
  · next r h =>
    split
    · -- nothing is written when the flag is already right
      next hon =>
      apply OrderedMap.ext
      · intro k
        by_cases hk : k = id
        · subst hk
          change m.pool.get? k = some r at h
          rw [OrderedMap.get?_modify_self, h, Option.map_some, Record.setOnline, ← hon]
        · rw [OrderedMap.get?_modify_of_ne hk]
      · rfl
    · rfl

/-- `AddIdentity` gives a known identity its new spec. -/
theorem pool_addIdentity_of_some {spec : Spec} (h : m.get? spec.id = some r) :
    (m.addIdentity now spec).pool =
      m.pool.modify spec.id (·.setSpec spec) fun r _ => r.id_setSpec spec := by
  unfold addIdentity
  rw [h]

/-- An identity that is not known is added at the end of the pool. -/
theorem pool_addIdentity_of_none {spec : Spec} (h : m.get? spec.id = none) :
    (m.addIdentity now spec).pool = m.pool.push (.fresh spec now) := by
  unfold addIdentity
  rw [h]

end Pool

omit [LinearOrder F] in
@[simp] theorem emit_cons {sig : Signal} {signals : List Signal} :
    m.emit now (sig :: signals) = (m.emitSignal now sig).emit now signals := rfl

omit [LinearOrder F] in
@[simp] theorem toTuning_emitSignal {sig : Signal} :
    (m.emitSignal now sig).toTuning = m.toTuning := by
  unfold emitSignal; split <;> rfl

omit [LinearOrder F] in
@[simp] theorem toTuning_emit {signals : List Signal} :
    (m.emit now signals).toTuning = m.toTuning := by
  induction signals generalizing m with
  | nil => rfl
  | cons sig signals ih => rw [emit_cons, ih, toTuning_emitSignal]

omit [LinearOrder F] in
/-- What `Emit` makes of a record. -/
theorem get?_emit {signals : List Signal} (hr : m.get? i = some r) :
    (m.emit now signals).get? i = some (r.applySignals m.toTuning now signals) := by
  -- by induction on the signals: the first one is applied to the record if it is for this identity
  induction signals generalizing m r with
  | nil => exact hr
  | cons sig signals ih =>
    have hsig : (m.emitSignal now sig).get? i =
        some (if sig.egressID = r.id then r.applySignal m.toTuning now sig else r) := by
      rw [get?, pool_emitSignal, OrderedMap.get?_modify hr]
    rw [emit_cons, ih hsig, toTuning_emitSignal, Record.applySignals_cons]

omit [LinearOrder F] in
/-- `Emit` does not introduce an identity. -/
theorem get?_emit_none {signals : List Signal} (hr : m.get? i = none) :
    (m.emit now signals).get? i = none := by
  induction signals generalizing m with
  | nil => exact hr
  | cons sig signals ih =>
    rw [emit_cons]
    apply ih
    rw [get?, pool_emitSignal, OrderedMap.get?_modify_eq_none]
    exact hr

omit [Add F] [Sub F] [Mul F] [OfScientific F] [LinearOrder F] in
/-- `Restore` does not change the tuning. -/
@[simp] theorem toTuning_restore {states : List (EgressState F)} :
    (m.restore states).toTuning = m.toTuning := by
  change (states.foldl restoreState m).toTuning = _
  induction states generalizing m with
  | nil => rfl
  | cons st states ih => exact ih

omit [Add F] [Sub F] [Mul F] [OfScientific F] [LinearOrder F] in
/-- What `Restore` makes of a record. -/
theorem get?_restore {states : List (EgressState F)} (hr : m.get? i = some r) :
    (m.restore states).get? i = some (r.restoreAll states) := by
  change (states.foldl restoreState m).get? i = _
  -- by induction on the rows, as for the signals of `Emit`
  induction states generalizing m r with
  | nil => exact hr
  | cons st states ih =>
    have hst : (m.restoreState st).get? i = some (if st.id = r.id then r.restore st else r) := by
      simp only [get?, restoreState]
      rw [OrderedMap.get?_modify hr]
    rw [List.foldl_cons, ih hst, Record.restoreAll_cons]

omit [Add F] [Sub F] [Mul F] [OfScientific F] [LinearOrder F] in
/-- `Restore` does not introduce an identity. -/
theorem get?_restore_none {states : List (EgressState F)} (hr : m.get? i = none) :
    (m.restore states).get? i = none := by
  change (states.foldl restoreState m).get? i = _
  induction states generalizing m with
  | nil => exact hr
  | cons st states ih =>
    rw [List.foldl_cons]
    apply ih
    simp only [get?, restoreState]
    rw [OrderedMap.get?_modify_eq_none]
    exact hr

end Manager

/-! ## Steps -/

omit [Add F] [Sub F] [Mul F] [LinearOrder F] [OfScientific F] in
/-- The pool that the selection of `Binding` leaves behind. -/
theorem Manager.get?_touchAll_reconcileLocked (m : Manager F) (dest : String) (now : Int)
    (i : String) : ((m.reconcileLocked now).pool.touchAll dest now).get? i =
      (m.get? i).map fun r => (r.reconcile m.warmupStages.length now).touch dest now := by
  have hrec := m.get?_reconcileLocked now i
  rw [Manager.get?_touchAll]
  change (m.reconcileLocked now).pool.get? i = _ at hrec
  rw [hrec, Option.map_map]
  rfl

namespace Manager.Step

variable {m m' : Manager F} {e : Event F} {i : String} {r : Record F}

/-- Only `Binding` returns an identity. -/
theorem op_of_returns (h : m.Step e m') (hret : e.returns i = true) :
    ∃ task, e.op = .binding task := by
  obtain ⟨-, hexec⟩ := h
  unfold Event.returns at hret
  cases hop : e.op with
  | binding task => exact ⟨task, rfl⟩
  | _ =>
    simp only [hop, exec, Option.some.injEq, Prod.mk.injEq] at hexec
    rw [← hexec.2] at hret
    exact absurd hret Bool.false_ne_true

/-- A `Binding` step, with the cases of `binding_some`. -/
theorem binding_cases {task : Task} (h : m.Step e m') (hop : e.op = .binding task) :
    (m.reconcileLocked e.now).best (destOf task) e.now = none ∧
        e.ret = some (.error .errNoEgress) ∧
        m' = { m.reconcileLocked e.now with
          pool := (m.reconcileLocked e.now).pool.touchAll (destOf task) e.now } ∨
      ∃ b r, (m.reconcileLocked e.now).best (destOf task) e.now = some b ∧
        (m.reconcileLocked e.now).get? b = some r ∧ e.ret = some (.ok r.spec.toBinding) ∧
        m' = { m.reconcileLocked e.now with
          pool := ((m.reconcileLocked e.now).pool.touchAll (destOf task) e.now).modify b (·.charge)
            fun r h => r.id_charge.trans h
          dirty := true } := by
  obtain ⟨-, hexec⟩ := h
  rw [hop] at hexec
  simp only [exec, Option.map_eq_some_iff, Prod.exists, Prod.mk.injEq] at hexec
  obtain ⟨m'', ret, hb, rfl, hret⟩ := hexec
  rw [← hret]
  rcases binding_some hb with ⟨hbest, rfl, hm⟩ | ⟨b, r, hbest, hr, rfl, hm⟩
  · exact .inl ⟨hbest, rfl, hm⟩
  · exact .inr ⟨b, r, hbest, hr, rfl, hm⟩

/-- A returned identity was eligible for the destination after reconciliation. -/
theorem eligible_of_returns {task : Task} (h : m.Step e m') (hop : e.op = .binding task)
    (hret : e.returns i = true) :
    ∃ r, m.get? i = some r ∧
      (r.reconcile m.warmupStages.length e.now).Eligible m.toTuning (destOf task) e.now := by
  unfold Event.returns at hret
  rcases h.binding_cases hop with ⟨-, hr, -⟩ | ⟨b, r, hbest, hb, hr, -⟩
  · rw [hr] at hret
    exact absurd hret Bool.false_ne_true
  · rw [hr] at hret
    -- the binding carries the id of the record that was chosen
    have hbi : b = i := by
      have hid : r.spec.id = i := of_decide_eq_true hret
      rw [← hid]
      exact ((m.reconcileLocked e.now).pool.key_eq b r hb).symm
    subst hbi
    have hel := (List.mem_of_firstBest hbest).2
    rw [get?_reconcileLocked, Option.map_eq_some_iff] at hb
    obtain ⟨r₀, hr₀, rfl⟩ := hb
    have hget : (m.reconcileLocked e.now).pool.get? b =
        some (r₀.reconcile m.warmupStages.length e.now) := by
      have := m.get?_reconcileLocked e.now b
      rwa [hr₀] at this
    refine ⟨r₀, hr₀, ?_⟩
    rw [Pool.eligible, hget, Option.any_some, decide_eq_true_eq, toTuning_reconcileLocked] at hel
    exact hel

/-- An identity that is unknown, or not eligible after reconciliation, is not returned. -/
theorem not_returns_of_not_eligible (h : m.Step e m')
    (hnot : ∀ task r, e.op = .binding task → m.get? i = some r →
      ¬ (r.reconcile m.warmupStages.length e.now).Eligible m.toTuning (destOf task) e.now) :
    e.returns i = false := by
  cases hret : e.returns i with
  | false => rfl
  | true =>
    obtain ⟨task, hop⟩ := h.op_of_returns hret
    obtain ⟨r, hr, hel⟩ := h.eligible_of_returns hop hret
    exact absurd hel (hnot task r hop hr)

/-- What a step does to the record of a registered identity. -/
theorem get? (h : m.Step e m') (hr : m.get? i = some r) : m'.get? i = some (e.effect r) := by
  have hpre := h.1
  have hkey : r.id = i := m.pool.key_eq i r hr
  cases hop : e.op with
  | binding task =>
    simp only [Event.effect, hop, hpre, Record.id_touch, Record.id_reconcile, hkey]
    -- the record in the pool the selection leaves behind, before anything is charged
    have htouched := m.get?_touchAll_reconcileLocked (destOf task) e.now i
    rw [hr, Option.map_some] at htouched
    rcases h.binding_cases hop with ⟨-, hret, rfl⟩ | ⟨b, rb, -, hb, hret, rfl⟩
    · simp only [Event.returns, hret, Bool.false_eq_true, if_false]
      exact htouched
    · have hid : rb.spec.id = b := (m.reconcileLocked e.now).pool.key_eq b rb hb
      simp only [Event.returns, hret, Spec.toBinding, hid, decide_eq_true_eq]
      rw [Manager.get?, OrderedMap.get?_modify htouched, Record.id_touch, Record.id_reconcile, hkey]
  | emit signals =>
    obtain ⟨-, hexec⟩ := h
    simp only [hop, exec, Option.some.injEq, Prod.mk.injEq] at hexec
    rw [← hexec.1, get?_emit hr, Event.effect, hop, hpre]
  | restore states =>
    obtain ⟨-, hexec⟩ := h
    simp only [hop, exec, Option.some.injEq, Prod.mk.injEq] at hexec
    rw [← hexec.1, get?_restore hr, Event.effect, hop]
  | addIdentity spec =>
    obtain ⟨-, hexec⟩ := h
    simp only [hop, exec, Option.some.injEq, Prod.mk.injEq] at hexec
    simp only [Event.effect, hop]
    rw [← hexec.1]
    cases hspec : m.get? spec.id with
    | some r' => rw [Manager.get?, pool_addIdentity_of_some hspec, OrderedMap.get?_modify hr]
    | none =>
      have hne : i ≠ spec.id := by
        rintro rfl
        rw [hspec] at hr
        exact absurd hr (by simp)
      have hpush := OrderedMap.get?_push_of_ne (m := m.pool) (v := .fresh spec e.now) hne
      rw [Manager.get?, pool_addIdentity_of_none hspec, hpush, hkey, if_neg (Ne.symm hne)]
      exact hr
  | _ =>
    -- `SetThresholds` leaves the pool alone, the others update one record
    obtain ⟨-, hexec⟩ := h
    simp only [hop, exec, Option.some.injEq, Prod.mk.injEq] at hexec
    simp only [Event.effect, hop, hpre]
    rw [← hexec.1]
    first
      | exact hr
      | simp only [Manager.get?, pool_enable, pool_disable, pool_quarantine, pool_setOnline]
        rw [OrderedMap.get?_modify hr]

/-- An identity comes into being only by `AddIdentity`. -/
theorem get?_none (h : m.Step e m') (hr : m.get? i = none) :
    m'.get? i = match e.op with
      | .addIdentity spec => if spec.id = i then some (.fresh spec e.now) else none
      | _ => none := by
  cases hop : e.op with
  | binding task =>
    -- neither selecting nor charging adds an entry
    have htouched := m.get?_touchAll_reconcileLocked (destOf task) e.now i
    rw [hr, Option.map_none] at htouched
    rcases h.binding_cases hop with ⟨-, -, rfl⟩ | ⟨b, rb, -, -, -, rfl⟩
    · exact htouched
    · rw [Manager.get?, OrderedMap.get?_modify_eq_none]
      exact htouched
  | emit signals =>
    obtain ⟨-, hexec⟩ := h
    simp only [hop, exec, Option.some.injEq, Prod.mk.injEq] at hexec
    rw [← hexec.1]
    exact get?_emit_none hr
  | restore states =>
    obtain ⟨-, hexec⟩ := h
    simp only [hop, exec, Option.some.injEq, Prod.mk.injEq] at hexec
    rw [← hexec.1]
    exact get?_restore_none hr
  | addIdentity spec =>
    obtain ⟨-, hexec⟩ := h
    simp only [hop, exec, Option.some.injEq, Prod.mk.injEq] at hexec
    rw [← hexec.1]
    cases hspec : m.get? spec.id with
    | some r' =>
      have hne : spec.id ≠ i := by
        rintro rfl
        rw [hspec] at hr
        exact absurd hr (by simp)
      rw [Manager.get?, pool_addIdentity_of_some hspec, OrderedMap.get?_modify_of_ne (Ne.symm hne)]
      simp only [hne, if_false]
      exact hr
    | none =>
      rw [Manager.get?, pool_addIdentity_of_none hspec]
      by_cases hi : i = spec.id
      · subst hi
        simpa using OrderedMap.get?_push_self (m := m.pool) (v := .fresh spec e.now)
      · rw [OrderedMap.get?_push_of_ne (v := Record.fresh spec e.now) hi]
        simp only [Ne.symm hi, if_false]
        exact hr
  | _ =>
    obtain ⟨-, hexec⟩ := h
    simp only [hop, exec, Option.some.injEq, Prod.mk.injEq] at hexec
    rw [← hexec.1]
    first
      | exact hr
      | simp only [Manager.get?, pool_enable, pool_disable, pool_quarantine, pool_setOnline]
        rw [OrderedMap.get?_modify_eq_none]
        exact hr

/-- The record of an identity that was not there before is a fresh one. -/
theorem fresh_of_get?_none {r' : Record F} (h : m.Step e m') (hr : m.get? i = none)
    (hr' : m'.get? i = some r') :
    ∃ spec, e.op = .addIdentity spec ∧ spec.id = i ∧ r' = .fresh spec e.now := by
  rw [h.get?_none hr] at hr'
  split at hr'
  · next spec hop =>
    split at hr'
    · next hid =>
      rw [Option.some.injEq] at hr'
      exact ⟨spec, hop, hid, hr'.symm⟩
    · cases hr'
  · cases hr'

/-- The tuning changes only by `SetThresholds`, and then only in the two thresholds. -/
theorem tuning (h : m.Step e m') : m'.toTuning =
    match e.op with
    | .setThresholds quarantine circuit => (m.setThresholds quarantine circuit).toTuning
    | _ => m.toTuning := by
  -- `Emit` and `Restore` fold over the pool, so they have lemmas of their own
  cases hop : e.op with
  | binding task =>
    rcases h.binding_cases hop with ⟨-, -, rfl⟩ | ⟨b, rb, -, -, -, rfl⟩ <;> rfl
  | emit signals =>
    obtain ⟨-, hexec⟩ := h
    simp only [hop, exec, Option.some.injEq, Prod.mk.injEq] at hexec
    rw [← hexec.1]
    exact toTuning_emit
  | restore states =>
    obtain ⟨-, hexec⟩ := h
    simp only [hop, exec, Option.some.injEq, Prod.mk.injEq] at hexec
    rw [← hexec.1]
    exact toTuning_restore
  | setThresholds quarantine circuit =>
    obtain ⟨-, hexec⟩ := h
    simp only [hop, exec, Option.some.injEq, Prod.mk.injEq] at hexec
    rw [← hexec.1]
  | _ =>
    obtain ⟨-, hexec⟩ := h
    simp only [hop, exec, Option.some.injEq, Prod.mk.injEq] at hexec
    rw [← hexec.1]
    simp only [enable, disable, quarantine, setOnline, addIdentity]
    split <;> first | rfl | (split <;> rfl)

/-- What no operation ever changes. -/
theorem fixed_tuning (h : m.Step e m') : m'.circuitCooldown = m.circuitCooldown ∧
    m'.quarantineCooldown = m.quarantineCooldown ∧ m'.warmupStages = m.warmupStages ∧
    m'.activeDailyCap = m.activeDailyCap ∧ m'.alpha = m.alpha := by
  have htun := h.tuning
  cases hop : e.op <;> simp only [hop] at htun <;>
    simp only [htun, setThresholds, and_self]

end Manager.Step

/-! ## Clocks -/

section Clock

variable {start : Int} {es fs : List (Event F)} {e : Event F}

omit [Add F] [Sub F] [Mul F] [OfScientific F] [LinearOrder F]

theorem monotone_snoc : Monotone start (es ++ [e]) ↔
    Monotone start es ∧ ∀ a ∈ start :: es.map Event.now, a ≤ e.now := by
  rw [Monotone, Monotone, List.map_append, ← List.cons_append, List.pairwise_append]
  simp

theorem Monotone.start_le (h : Monotone start es) (he : e ∈ es) : start ≤ e.now :=
  (List.pairwise_cons.mp h).1 _ (List.mem_map_of_mem he)

/-- The part of an execution after an event, with the clock of that event. -/
theorem Monotone.after (h : Monotone start (es ++ e :: fs)) : Monotone e.now fs := by
  rw [Monotone, List.map_append, ← List.cons_append, List.pairwise_append] at h
  exact h.2.1

/-- The last event of an execution has its latest clock reading. -/
theorem Monotone.le_last {f : Event F} (h : Monotone e.now es)
    (hf : (e :: es).getLast? = some f) : ∀ a ∈ e.now :: es.map Event.now, a ≤ f.now := by
  -- the last event is the first one, or it is the end of `es`
  rcases List.eq_nil_or_concat es with rfl | ⟨init, last, rfl⟩
  · obtain rfl : e = f := by simpa using hf
    simp
  · rw [List.concat_eq_append] at h hf
    rw [← List.cons_append, List.getLast?_concat, Option.some.injEq] at hf
    subst hf
    intro a ha
    rw [List.concat_eq_append, List.map_append, ← List.cons_append, List.mem_append] at ha
    rcases ha with ha | ha
    · exact (monotone_snoc.mp h).2 a ha
    · exact Int.le_of_eq (by simpa using ha)

end Clock

end Rcptto.Native
