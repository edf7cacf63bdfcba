import Mathlib.Algebra.Order.Ring.Rat
import Rcptto.Spec.Step

/-!
# Reachable managers and the choice of `Binding`

A reachable manager comes from `New` by any sequence of operations. `Restore` writes
whatever stage the store returns into a record, so its states are assumed to have a
stage that is not negative; `Reachable.snapshot_stage` shows that `Snapshot` only
writes such states.

On reachable managers `capFor` never leaves the warm-up table, so no operation panics,
and `Binding` makes the best choice there is.

## Key results

- `Reachable.exec_isSome`: no operation panics
- `Reachable.binding_best`: `Binding` fails exactly when nobody is eligible, and
  otherwise charges the best eligible identity and nothing else
-/

namespace Rcptto.Native

variable {F : Type} [Add F] [Sub F] [Mul F] [OfScientific F] [LinearOrder F]

/-! ## The pool of a new manager -/

namespace Manager

variable {cfg : Config F} {start : Int} {i : String} {r : Record F}

omit [Add F] [Sub F] [Mul F] [OfScientific F] [LinearOrder F] in
/-- Of several identities with one id the last one is in the pool. -/
private theorem get?_foldl_push (specs : List Spec) (p : Pool F) :
    (specs.foldl (fun pool spec => pool.push (.fresh spec start)) p).get? i =
      ((specs.reverse.find? (·.id = i)).map (.fresh · start)).or (p.get? i) := by
  induction specs generalizing p with
  | nil => simp
  | cons spec specs ih =>
    rw [List.foldl_cons, ih, List.reverse_cons, List.find?_append]
    -- a later one replaces this one
    cases specs.reverse.find? (·.id = i) with
    | some s => simp
    | none =>
      by_cases hi : spec.id = i
      · subst hi
        simpa using OrderedMap.get?_push_self (m := p) (v := .fresh spec start)
      · have hne : i ≠ (Record.fresh spec start : Record F).id := Ne.symm hi
        simpa [hi] using OrderedMap.get?_push_of_ne hne

omit [Add F] [Sub F] [Mul F] [OfScientific F] [LinearOrder F] in
/-- All of them are in the order. -/
private theorem order_foldl_push (specs : List Spec) (p : Pool F) :
    (specs.foldl (fun pool spec => pool.push (.fresh spec start)) p).order =
      p.order ++ specs.map (·.id) := by
  induction specs generalizing p with
  | nil => simp
  | cons spec specs ih => simp [ih]

omit [Add F] [Sub F] [Mul F] in
/-- A configured identity starts with a fresh record; the last of several
    configurations of one id wins. -/
theorem get?_new : (new cfg start).get? i =
    (cfg.identities.reverse.find? (·.id = i)).map (.fresh · start) := by
  rw [get?, new, get?_foldl_push]
  simp

omit [Add F] [Sub F] [Mul F] in
@[simp] theorem order_new (cfg : Config F) (start : Int) :
    (new cfg start).pool.order = cfg.identities.map (·.id) := by
  rw [new, order_foldl_push]
  simp

omit [Add F] [Sub F] [Mul F] in
/-- The records of a new manager are fresh. -/
theorem exists_of_get?_new (h : (new cfg start).get? i = some r) :
    ∃ spec ∈ cfg.identities, spec.id = i ∧ r = .fresh spec start := by
  rw [get?_new, Option.map_eq_some_iff] at h
  obtain ⟨spec, hfind, rfl⟩ := h
  exact ⟨spec, by simpa using List.mem_of_find?_eq_some hfind,
    by simpa using List.find?_some hfind, rfl⟩

omit [Add F] [Sub F] [Mul F] [OfScientific F] [LinearOrder F] in
/-- There is a stage to begin with, whatever is configured. -/
@[simp] theorem warmupStages_tuningOf_ne_nil [OfScientific F] [LinearOrder F] :
    (tuningOf cfg).warmupStages ≠ [] := by
  unfold tuningOf
  dsimp only
  split_ifs with h
  · simp
  · exact h

end Manager

/-! ## Record invariants -/

omit [LinearOrder F] in
/-- An induction rule for effects: what every update of a record keeps, every event
    keeps. -/
theorem Event.effect_induction {P : Record F → Prop} (e : Event F) {r : Record F} (h : P r)
    (hexpire : ∀ r, P r → P (r.expire e.now))
    (hreset : ∀ r, P r → P (r.dailyReset e.pre.warmupStages.length))
    (htouch : ∀ r dest, P r → P (r.touch dest e.now))
    (hcharge : ∀ r, P r → P r.charge)
    (hsignal : ∀ r sig, P r → P (r.applySignal e.pre.toTuning e.now sig))
    (henable : ∀ r, P r → P r.enable)
    (hdisable : ∀ r reason, P r → P (r.disable reason))
    (hquarantine : ∀ r till reason, P r → P (r.quarantine till reason))
    (honline : ∀ r online, P r → P (r.setOnline online))
    (hspec : ∀ r spec, P r → P (r.setSpec spec))
    (hrestore : ∀ states, e.op = .restore states → ∀ st ∈ states, ∀ r, P r → P (r.restore st)) :
    P (e.effect r) := by
  unfold effect
  cases hop : e.op with
  | binding task =>
    dsimp only
    -- `Binding` reconciles the record, asks its breaker, and charges the one it returns
    have hrec := htouch _ (destOf task) (Record.reconcile_induction (hexpire r h) hreset)
    split
    · exact hcharge _ hrec
    · exact hrec
  | emit signals =>
    refine List.foldlRecOn signals _ h fun r hr sig _ => ?_
    split
    · exact hsignal _ _ hr
    · exact hr
  | restore states =>
    refine List.foldlRecOn states _ h fun r hr st hst => ?_
    split
    · exact hrestore states hop st hst _ hr
    · exact hr
  | enable id =>
    dsimp only
    split
    · exact henable _ h
    · exact h
  | disable id reason =>
    dsimp only
    split
    · exact hdisable _ _ h
    · exact h
  | quarantine id reason =>
    dsimp only
    split
    · exact hquarantine _ _ _ h
    · exact h
  | setOnline id online =>
    dsimp only
    split
    · exact honline _ _ h
    · exact h
  | addIdentity spec =>
    dsimp only
    split
    · exact hspec _ _ h
    · exact h
  | setThresholds quarantine circuit => exact h

/-! ## Reachability -/

/-- `Restore` is given states whose warm-up stage is not negative. -/
def Op.Admissible : Op F → Prop
  | .restore states => ∀ st ∈ states, 0 ≤ st.warmupStage
  | _ => True

/-- The managers that operations lead to from a new one. -/
def Reachable (m : Manager F) : Prop :=
  ∃ cfg start es, (Manager.new cfg start).Runs es m ∧ ∀ e ∈ es, e.op.Admissible

/-- An execution without `Restore`. -/
def NoRestore (es : List (Event F)) : Prop := ∀ e ∈ es, ¬ e.op.IsRestore

instance (es : List (Event F)) : Decidable (NoRestore es) :=
  inferInstanceAs (Decidable (∀ e ∈ es, ¬ e.op.IsRestore))

/-- A run without `Restore` leads to a reachable state. -/
theorem Manager.Runs.reachable {cfg : Config F} {start : Int} {es : List (Event F)} {m : Manager F}
    (h : (Manager.new cfg start).Runs es m) (hes : NoRestore es) : Reachable m := by
  refine ⟨cfg, start, es, h, fun e he => ?_⟩
  have hop := hes e he
  cases hc : e.op with
  | restore states =>
    rw [hc] at hop
    exact absurd trivial hop
  | _ => trivial

omit [Add F] [Sub F] [Mul F] [OfScientific F] [LinearOrder F] in
/-- The end of a quarantine does not make a stage negative. -/
private theorem Record.expire_warmupStage_nonneg {r : Record F} {now : Int}
    (h : 0 ≤ r.warmupStage) : 0 ≤ (r.expire now).warmupStage := by
  unfold expire
  split
  · exact Int.le_refl 0
  · exact h

omit [LinearOrder F] in
/-- No admissible event makes a stage negative. -/
private theorem Event.effect_warmupStage_nonneg {e : Event F} {r : Record F}
    (hop : e.op.Admissible) (h : 0 ≤ r.warmupStage) : 0 ≤ (e.effect r).warmupStage := by
  apply e.effect_induction (P := fun r => 0 ≤ r.warmupStage) h
  case hexpire => exact fun r hr => r.expire_warmupStage_nonneg hr
  case hreset =>
    intro r hr
    exact Int.le_trans hr Record.dailyReset_warmupStage_le.1
  case htouch => simp
  case hsignal => simp
  case henable => exact fun _ _ => Int.le_refl 0
  case hrestore =>
    intro states hstates st hst r _
    rw [hstates] at hop
    exact hop st hst
  -- the other updates do not write the stage
  all_goals
    intros
    assumption

namespace Reachable

variable {m m' : Manager F} {e : Event F} {i : String} {r : Record F}

theorem new (cfg : Config F) (start : Int) : Reachable (Manager.new cfg start) :=
  ⟨cfg, start, [], .nil _, by simp⟩

/-- An admissible event leads from a reachable state to another one. -/
theorem step (hm : Reachable m) (h : m.Step e m') (hop : e.op.Admissible) : Reachable m' := by
  obtain ⟨cfg, start, es, hrun, hes⟩ := hm
  refine ⟨cfg, start, es ++ [e], Run.snoc_iff.mpr ⟨m, hrun, h⟩, ?_⟩
  simpa [or_imp, forall_and] using ⟨hes, hop⟩

/-- An induction rule: what `New` establishes and every admissible step keeps. -/
theorem induction {P : Manager F → Prop} (hm : Reachable m)
    (hnew : ∀ cfg start, P (Manager.new cfg start))
    (hstep : ∀ m e m', P m → m.Step e m' → e.op.Admissible → P m') : P m := by
  obtain ⟨cfg, start, es, hrun, hes⟩ := hm
  exact hrun.invariant (hnew cfg start) fun a e b he ha h => hstep a e b ha h (hes e he)

/-- A reachable manager has a stage to begin with. -/
theorem warmupStages_ne_nil (hm : Reachable m) : m.warmupStages ≠ [] := by
  refine hm.induction (P := fun m => m.warmupStages ≠ []) (fun cfg _ => ?_) fun m e m' ih h _ => ?_
  · exact Manager.warmupStages_tuningOf_ne_nil
  · rw [h.fixed_tuning.2.2.1]
    exact ih

/-- The warm-up stage of an identity is never negative. -/
theorem warmupStage_nonneg (hm : Reachable m) (hr : m.get? i = some r) : 0 ≤ r.warmupStage := by
  suffices h : ∀ r, m.get? i = some r → 0 ≤ r.warmupStage from h r hr
  refine hm.induction (P := fun m => ∀ r, m.get? i = some r → 0 ≤ r.warmupStage)
    (fun cfg start r h => ?_) fun m e m' ih h hop r' hr' => ?_
  · obtain ⟨spec, -, -, rfl⟩ := Manager.exists_of_get?_new h
    exact Int.le_refl 0
  · cases hr : m.get? i with
    | some r =>
      rw [h.get? hr, Option.some.injEq] at hr'
      rw [← hr']
      exact Event.effect_warmupStage_nonneg hop (ih r hr)
    | none =>
      -- an identity that has just been added starts at stage 0
      obtain ⟨spec, -, -, rfl⟩ := h.fresh_of_get?_none hr hr'
      exact Int.le_refl 0

/-- `Snapshot` only writes states that `Restore` may be given. -/
theorem snapshot_stage (hm : Reachable m) : (Op.restore m.snapshot).Admissible := by
  intro st hst
  simp only [Manager.snapshot, List.mem_filterMap, Option.map_eq_some_iff] at hst
  obtain ⟨id, -, r, hr, rfl⟩ := hst
  exact hm.warmupStage_nonneg hr

end Reachable

/-! ## No panics -/

omit [Add F] [Sub F] [Mul F] [OfScientific F] [LinearOrder F] in
/-- `capFor` stays inside a warm-up table that has an entry, for a stage that is not
    negative. -/
theorem Record.capFor_isSome {t : Tuning F} {r : Record F} (ht : t.warmupStages ≠ [])
    (hr : 0 ≤ r.warmupStage) : (capFor t r).isSome := by
  have hlen : 0 < t.warmupStages.length := List.length_pos_iff.mpr ht
  unfold capFor stageAt
  dsimp only
  -- an identity that warms up uses the table, and any other the fixed cap
  split
  · split_ifs with hge hneg hneg
    · omega
    · simp; omega
    · omega
    · simp; omega
  · rfl

namespace Reachable

variable {m m' : Manager F} {e : Event F} {i : String} {r : Record F}

/-- `capFor` stays inside the warm-up table for every record `Binding` asks it about. -/
theorem capFor_isSome (hm : Reachable m) (now : Int)
    (hr : (m.reconcileLocked now).get? i = some r) : (Record.capFor m.toTuning r).isSome := by
  rw [Manager.get?_reconcileLocked, Option.map_eq_some_iff] at hr
  obtain ⟨r₀, hr₀, rfl⟩ := hr
  apply Record.capFor_isSome hm.warmupStages_ne_nil
  apply Record.reconcile_induction (P := fun r => 0 ≤ r.warmupStage)
  · exact r₀.expire_warmupStage_nonneg (hm.warmupStage_nonneg hr₀)
  · intro r hr
    exact Int.le_trans hr Record.dailyReset_warmupStage_le.1

theorem binding_isSome (hm : Reachable m) (now : Int) (task : Task) :
    (m.binding now task).isSome :=
  Manager.binding_isSome (fun _ _ hr => hm.capFor_isSome now hr) task

/-- No operation panics. -/
theorem exec_isSome (hm : Reachable m) (now : Int) (op : Op F) : (m.exec now op).isSome := by
  cases op with
  | binding task => simpa [Manager.exec] using hm.binding_isSome now task
  | _ => rfl

end Reachable

/-! ## The best choice -/

omit [Add F] [Sub F] [Mul F] [OfScientific F] [LinearOrder F] in
@[simp] theorem Record.toEgressState_touch {r : Record F} {dest : String} {now : Int} :
    (r.touch dest now).toEgressState = r.toEgressState := by
  simp [toEgressState]

namespace Manager

variable {m m' : Manager F} {dest i j b : String} {now : Int} {r rb : Record F} {task : Task}

omit [Add F] [Sub F] [Mul F] [OfScientific F] [LinearOrder F] in
/-- `Snapshot` of two managers with the same order and related records. -/
theorem snapshot_eq_map {f : EgressState F → EgressState F}
    (horder : m'.pool.order = m.pool.order)
    (hget : ∀ i r, m.get? i = some r → ∃ r', m'.get? i = some r' ∧
      r'.toEgressState = f r.toEgressState) : m'.snapshot = m.snapshot.map f := by
  rw [snapshot, snapshot, List.map_filterMap, horder]
  apply List.filterMap_congr
  intro id hid
  obtain ⟨r, hr⟩ : ∃ r, m.get? id = some r := OrderedMap.exists_of_mem_order hid
  obtain ⟨r', hr', hst⟩ := hget id r hr
  rw [hr', hr, Option.map_some, Option.map_some, Option.map_some, hst]

omit [Add F] [Sub F] [Mul F] [OfScientific F] [LinearOrder F] in
/-- Asking for eligibility is not visible in a snapshot. -/
theorem snapshot_touchAll (m : Manager F) (dest : String) (now : Int) :
    { m with pool := m.pool.touchAll dest now }.snapshot = m.snapshot := by
  have horder : (m.pool.touchAll dest now).order = m.pool.order := OrderedMap.order_mapInOrder
  rw [← List.map_id m.snapshot]
  refine snapshot_eq_map horder fun i r hr => ⟨r.touch dest now, ?_, Record.toEgressState_touch⟩
  change m.pool.get? i = some r at hr
  rw [get?, get?_touchAll, hr, Option.map_some]

omit [Add F] [Sub F] [Mul F] [OfScientific F] [LinearOrder F] in
/-- Charging a probe adds one to the counter of that identity in a snapshot. -/
theorem snapshot_charge
    (hpool : m'.pool = m.pool.modify b (·.charge) fun r h => r.id_charge.trans h) :
    m'.snapshot = m.snapshot.map fun st =>
      if st.id = b then { st with usedToday := st.usedToday + 1 } else st := by
  refine snapshot_eq_map (by rw [hpool]; rfl) fun i r hr => ?_
  refine ⟨if b = r.id then r.charge else r, ?_, ?_⟩
  · rw [get?, hpool, OrderedMap.get?_modify hr]
  · have hid : r.toEgressState.id = r.id := rfl
    by_cases hb : b = r.id
    · rw [if_pos hb, if_pos (hid.trans hb.symm)]
      rfl
    · rw [if_neg hb, if_neg fun h => hb (h.symm.trans hid)]

section Best

omit [Add F] [Sub F] [Mul F]

/-- Nobody is chosen exactly when nobody is eligible. -/
theorem best_eq_none : m.best dest now = none ↔
    ∀ id r, m.get? id = some r → ¬ r.Eligible m.toTuning dest now := by
  rw [best, List.firstBest_eq_none]
  constructor
  · intro h id r hr hel
    have hid := h id (OrderedMap.mem_order_of_get? hr)
    have hr' : m.pool.get? id = some r := hr
    simp [Pool.eligible, hr', hel] at hid
  · intro h id hid
    obtain ⟨r, hr⟩ := OrderedMap.exists_of_mem_order hid
    simp [Pool.eligible, hr, h id r hr]

/-- The chosen identity is eligible. -/
theorem eligible_of_best (h : m.best dest now = some b) (hb : m.get? b = some rb) :
    rb.Eligible m.toTuning dest now := by
  have hel := (List.mem_of_firstBest h).2
  have hb' : m.pool.get? b = some rb := hb
  rw [Pool.eligible, hb', Option.any_some, decide_eq_true_eq] at hel
  exact hel

/-- An identity beats another one by its score, or with equal scores by the probes of the day. -/
theorem beats_iff {p : Pool F} (dest : String) (hr : p.get? i = some r) (hb : p.get? b = some rb) :
    p.beats dest i b = true ↔ rb.score dest < r.score dest ∨
      r.score dest = rb.score dest ∧ r.usedToday < rb.usedToday := by
  simp [Pool.beats, hr, hb]

/-- Not both of two identities beat the other one. -/
private theorem beats_asymm {p : Pool F} {x y : String} (hxy : p.beats dest x y = true) :
    p.beats dest y x = false := by
  unfold Pool.beats at hxy ⊢
  cases hx : p.get? x with
  | none => simp
  | some rx =>
    cases hy : p.get? y with
    | none => simp
    | some ry =>
      simp only [hx, hy] at hxy
      grind

/-- Not beating is transitive among the identities of a pool. -/
private theorem beats_trans {p : Pool F} {x y z : String} (hx : x ∈ p.order) (hy : y ∈ p.order)
    (hz : z ∈ p.order) (hxy : p.beats dest x y = false) (hyz : p.beats dest y z = false) :
    p.beats dest x z = false := by
  obtain ⟨rx, hx⟩ := OrderedMap.exists_of_mem_order hx
  obtain ⟨ry, hy⟩ := OrderedMap.exists_of_mem_order hy
  obtain ⟨rz, hz⟩ := OrderedMap.exists_of_mem_order hz
  simp only [Pool.beats, hx, hy, hz] at hxy hyz ⊢
  grind

/-- Every other eligible identity has a lower score, the same score and more probes
    today, or both the same and a later place. -/
theorem best_le (h : m.best dest now = some b) (hb : m.get? b = some rb)
    (hr : m.get? i = some r) (hel : r.Eligible m.toTuning dest now) (hne : i ≠ b) :
    r.score dest < rb.score dest ∨
      (r.score dest = rb.score dest ∧ rb.usedToday < r.usedToday) ∨
      (r.score dest = rb.score dest ∧ r.usedToday = rb.usedToday ∧
        m.pool.order.idxOf b < m.pool.order.idxOf i) := by
  have hok : m.pool.eligible m.toTuning dest now i = true := by
    have hr' : m.pool.get? i = some r := hr
    simp [Pool.eligible, hr', hel]
  have hasymm : ∀ x y, m.pool.beats dest x y = true → m.pool.beats dest y x = false :=
    fun _ _ => beats_asymm
  have hspec := List.firstBest_spec hasymm (fun _ hx _ hy _ hz => beats_trans hx hy hz) h i
    (OrderedMap.mem_order_of_get? hr) hok hne
  -- `b` beats `i`, or neither beats the other and `b` was registered first
  rcases hspec with hbeats | ⟨hnot, hidx⟩
  · rw [beats_iff dest hb hr] at hbeats
    grind
  · have hle := mt (beats_iff dest hr hb).mpr (by simp [hnot])
    grind

end Best

end Manager

/-- What `Binding` does on a reachable manager: it never panics; it fails exactly when no
    identity is eligible for the destination after reconciliation, and then reconciles
    and nothing else; otherwise it returns an eligible identity that comes before every
    other eligible one by score, probes used today and registration order, and besides
    reconciling it charges that identity one probe. -/
theorem binding_best {m : Manager F} (hm : Reachable m) (now : Int) (task : Task) :
    ∃ m' ret, m.binding now task = some (m', ret) ∧
      (ret = .error .errNoEgress ↔ ∀ id r, (m.reconcileLocked now).get? id = some r →
        ¬ r.Eligible m.toTuning (destOf task) now) ∧
      (ret = .error .errNoEgress → m'.snapshot = (m.reconcileLocked now).snapshot) ∧
      ∀ b, ret = .ok b → ∃ rb, (m.reconcileLocked now).get? b.id = some rb ∧
        b = rb.spec.toBinding ∧ rb.Eligible m.toTuning (destOf task) now ∧
        (∀ id r, (m.reconcileLocked now).get? id = some r →
          r.Eligible m.toTuning (destOf task) now → id ≠ b.id →
          r.score (destOf task) < rb.score (destOf task) ∨
          (r.score (destOf task) = rb.score (destOf task) ∧ rb.usedToday < r.usedToday) ∨
          (r.score (destOf task) = rb.score (destOf task) ∧ r.usedToday = rb.usedToday ∧
            m.pool.order.idxOf b.id < m.pool.order.idxOf id)) ∧
        m'.snapshot = (m.reconcileLocked now).snapshot.map fun st =>
          if st.id = b.id then { st with usedToday := st.usedToday + 1 } else st := by
  obtain ⟨⟨m', ret⟩, hbind⟩ := Option.isSome_iff_exists.mp (hm.binding_isSome now task)
  refine ⟨m', ret, hbind, ?_⟩
  rcases Manager.binding_some hbind with ⟨hnone, rfl, rfl⟩ | ⟨b, rb, hbest, hb, rfl, rfl⟩
  · refine ⟨by simpa using Manager.best_eq_none.mp hnone, fun _ => ?_, fun b h => by cases h⟩
    exact Manager.snapshot_touchAll ..
  · have hid : rb.spec.id = b := (m.reconcileLocked now).pool.key_eq b rb hb
    have hel := Manager.eligible_of_best hbest hb
    refine ⟨⟨fun h => (by cases h), fun h => absurd hel (h b rb hb)⟩, fun h => (by cases h), ?_⟩
    rintro _ ⟨⟩
    -- the binding names the identity under which the record is filed
    have hbid : rb.spec.toBinding.id = b := hid
    simp only [hbid]
    refine ⟨rb, hb, rfl, hel, fun id r hr hr' hne => ?_, ?_⟩
    · simpa using Manager.best_le hbest hb hr hr' hne
    · rw [← (m.reconcileLocked now).snapshot_touchAll (destOf task) now]
      refine Manager.snapshot_charge ?_
      rfl

/-- Two identities that are active from the start, with the default tuning. -/
def pairConfig : Config ℚ where
  identities := [{ id := "a" }, { id := "b" }]
  healthAlpha := 0

/-- A task for the mailbox provider `gmail`. -/
def gmailTask : Task where
  email := "user@gmail.com"
  normalized := "user@gmail.com"
  domain := "gmail.com"
  provider := "gmail"
  mx := ["mx.gmail.com"]

/-- A signal about the identity `a` and the provider `gmail`. -/
def gmailSignal (kind : SignalKind) : Signal where
  kind := kind
  egressID := "a"
  destination := "gmail"
  code := 0
  detail := ""

/-- Two identities with equal scores: the first one is returned and charged. -/
theorem binding_best_pair : Reachable (Manager.new pairConfig 0) ∧
    ∃ m', (Manager.new pairConfig 0).binding 5 gmailTask =
        some (m', .ok { id := "a", helo := "", mailFrom := "", transport := {} }) ∧
      m'.snapshot = ((Manager.new pairConfig 0).reconcileLocked 5).snapshot.map fun st =>
        if st.id = "a" then { st with usedToday := st.usedToday + 1 } else st := by
  have hm := Reachable.new pairConfig 0
  obtain ⟨m', ret, hbind, -, -, hok⟩ := binding_best hm 5 gmailTask
  have hret : ((Manager.new pairConfig 0).binding 5 gmailTask).map Prod.snd =
      some (.ok { id := "a", helo := "", mailFrom := "", transport := {} }) := by
    decide +kernel
  rw [hbind, Option.map_some, Option.some.injEq] at hret
  obtain rfl : ret = _ := hret
  obtain ⟨rb, -, -, -, -, hsnap⟩ := hok _ rfl
  exact ⟨hm, m', hbind, hsnap⟩

end Rcptto.Native
