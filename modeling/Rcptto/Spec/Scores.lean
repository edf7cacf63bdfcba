import Rcptto.ForStd.Binary64
import Rcptto.Spec.Reachable
import Rcptto.Spec.RoundTrip

/-!
# Health scores in floating point

The scores of `internal/egress/health.go` are moving averages computed in `float64`, and
`Binding` compares them. They are compared here with the same manager run in exact arithmetic:
a pair of managers that get the same calls, whose snapshots are saved together and loaded
together, in any order and mixture and over any number of restarts.

## Key results

- `Near.observe`: one outcome keeps a score close to the exact one
- `Deployment.Tracks.step`: so does every step of the pair
- `score_tracks`: every score is in the unit interval and within `1 / (2 ^ 50 * α)` of the
  exact average, and an identity without a failure has the score one
- `binding_nearly_best`: no identity that could have been chosen is much better by the exact
  averages
-/

namespace Rcptto.Native

/-! ## One outcome -/

/-- A score and its exact counterpart are in the unit interval and at most `ε` apart; the score
    is one when the exact one is. -/
structure Near (ε : ℚ) (s : Binary64) (x : ℚ) : Prop where
  nonneg : 0 ≤ s.val
  le_one : s.val ≤ 1
  exact_nonneg : 0 ≤ x
  exact_le_one : x ≤ 1
  close : |s.val - x| ≤ ε
  one : x = 1 → s.val = 1

namespace Near

variable {ε x : ℚ} {s a : Binary64}

theorem newHealth (hε : 0 ≤ ε) :
    Near ε (Health.newHealth : Health Binary64).score (Health.newHealth : Health ℚ).score := by
  have hone : (Health.newHealth : Health Binary64).score.val = 1 := Binary64.val_one
  have hexact : (Health.newHealth : Health ℚ).score = 1 := by norm_num [Health.newHealth]
  constructor <;> simp [hone, hexact, hε]

/-- The weight that is left to the old score. -/
private theorem rest_bounds (hpos : 0 < a.val) (hle : a.val ≤ 1) :
    0 ≤ (1.0 - a).val ∧ (1.0 - a).val ≤ 1 ∧ |(1.0 - a).val - (1 - a.val)| ≤ 1 / 2 ^ 54 := by
  rw [Binary64.val_sub, Binary64.val_one]
  refine ⟨Binary64.val_round_nonneg (by linarith), Binary64.val_round_le_one ?_,
    Binary64.abs_val_round_sub_le_of_lt_one (by linarith) (by linarith)⟩
  norm_num
  linarith

/-- What is kept of the old score. -/
private theorem kept_bounds {c : Binary64} (hs₀ : 0 ≤ s.val) (hs₁ : s.val ≤ 1) (hc₀ : 0 ≤ c.val)
    (hc₁ : c.val ≤ 1) :
    0 ≤ (s * c).val ∧ (s * c).val ≤ c.val ∧ (s.val = 1 → (s * c).val = c.val) ∧
      |(s * c).val - s.val * c.val| ≤ 1 / 2 ^ 53 := by
  have hprod₀ : 0 ≤ s.val * c.val := mul_nonneg hs₀ hc₀
  have hprod : s.val * c.val ≤ c.val := mul_le_of_le_one_left hc₀ hs₁
  have herr := Binary64.abs_val_round_sub_le (s.val * c.val)
  rw [abs_of_nonneg hprod₀] at herr
  rw [Binary64.val_mul]
  -- `0` and the factor are floating-point numbers, so rounding does not leave the interval
  refine ⟨Binary64.val_round_nonneg hprod₀, Binary64.val_round_le c hprod, fun hone => ?_,
    herr.trans ?_⟩
  · rw [hone, one_mul, Binary64.round_val]
  · gcongr
    exact hprod.trans hc₁

/-- The weight of the outcome is added without an error. -/
private theorem val_target (good : Bool) (a : Binary64) :
    ((if good then (1.0 : Binary64) else 0.0) * a).val = if good then a.val else 0 := by
  rw [Binary64.val_mul]
  cases good with
  | true => simp [Binary64.round_val]
  | false =>
    have hzero : (Binary64.round 0).val = 0 := by decide +kernel
    simp [hzero]

/-- The rounded average, against the exact one: the new error is at most what the average
    forgets of the error before. -/
private theorem abs_round_sub_le {s x a c p t : ℚ} (hs₀ : 0 ≤ s) (hs₁ : s ≤ 1) (hle : a ≤ 1)
    (hrest : |c - (1 - a)| ≤ 1 / 2 ^ 54) (hkept : |p - s * c| ≤ 1 / 2 ^ 53)
    (hclose : |s - x| ≤ ε) (hε : 1 / 2 ^ 51 ≤ a * ε) (hsum₀ : 0 ≤ p + t)
    (hsum : p + t ≤ 1 + 1 / 2 ^ 54) :
    |(Binary64.round (p + t)).val - (x * (1 - a) + t)| ≤ ε := by
  have hround : |(Binary64.round (p + t)).val - (p + t)| ≤ (1 + 1 / 2 ^ 54) / 2 ^ 53 := by
    refine (Binary64.abs_val_round_sub_le (p + t)).trans ?_
    rw [abs_of_nonneg hsum₀]
    gcongr
  have hweight : |s * (c - (1 - a))| ≤ 1 / 2 ^ 54 := by
    rw [abs_mul, abs_of_nonneg hs₀]
    exact (mul_le_of_le_one_left (abs_nonneg _) hs₁).trans hrest
  have hold : |(s - x) * (1 - a)| ≤ ε * (1 - a) := by
    rw [abs_mul, abs_of_nonneg (by linarith : 0 ≤ 1 - a)]
    exact mul_le_mul_of_nonneg_right hclose (by linarith)
  -- the errors of the sum, of the product and of the weight, and the old error, which has become
  -- smaller
  calc |(Binary64.round (p + t)).val - (x * (1 - a) + t)|
      = |((Binary64.round (p + t)).val - (p + t)) + ((p - s * c) + s * (c - (1 - a)) +
          (s - x) * (1 - a))| := by congr 1; ring
    _ ≤ |(Binary64.round (p + t)).val - (p + t)| + (|p - s * c| + |s * (c - (1 - a))| +
          |(s - x) * (1 - a)|) := by
        refine (abs_add_le _ _).trans ?_
        gcongr
        exact abs_add_three _ _ _
    _ ≤ (1 + 1 / 2 ^ 54) / 2 ^ 53 + (1 / 2 ^ 53 + 1 / 2 ^ 54 + ε * (1 - a)) := by gcongr
    _ ≤ ε := by
        norm_num at hε ⊢
        linarith

/-- `observe` with the weight `a`, against the exact average with the same weight. -/
theorem observe {h : Health Binary64} {k : Health ℚ} (hnear : Near ε h.score k.score)
    (hpos : 0 < a.val) (hle : a.val ≤ 1) (hε : 1 / 2 ^ 51 ≤ a.val * ε) (good : Bool) :
    Near ε (h.observe good a).score (k.observe good a.val).score := by
  obtain ⟨hs₀, hs₁, hx₀, hx₁, hclose, hone⟩ := hnear
  obtain ⟨hc₀, hc₁, hrest⟩ := rest_bounds hpos hle
  obtain ⟨hp₀, hp₁, hp, hkept⟩ := kept_bounds hs₀ hs₁ hc₀ hc₁
  have hscore : (h.observe good a).score.val =
      (Binary64.round ((h.score * (1.0 - a)).val + if good then a.val else 0)).val := by
    rw [Health.observe, Binary64.val_add, val_target]
  have hexact : (k.observe good a.val).score =
      k.score * (1 - a.val) + if good then a.val else 0 := by
    cases good <;> norm_num [Health.observe]
  generalize (h.score * (1.0 - a)).val = p at *
  generalize (1.0 - a).val = c at *
  generalize h.score.val = s at *
  generalize k.score = x at *
  have ht : 0 ≤ (if good then a.val else 0) ∧ (if good then a.val else 0) ≤ a.val := by
    split <;> simp [hpos.le]
  constructor
  case nonneg =>
    rw [hscore]
    exact Binary64.val_round_nonneg (add_nonneg hp₀ ht.1)
  case le_one =>
    rw [hscore]
    apply Binary64.val_round_le_one
    linarith [(abs_le.mp hrest).2]
  case exact_nonneg =>
    rw [hexact]
    exact add_nonneg (mul_nonneg hx₀ (by linarith)) ht.1
  case exact_le_one =>
    rw [hexact]
    have : x * (1 - a.val) ≤ 1 - a.val := mul_le_of_le_one_left (by linarith) hx₁
    linarith
  case close =>
    rw [hscore, hexact]
    exact abs_round_sub_le hs₀ hs₁ hle hrest hkept hclose hε (add_nonneg hp₀ ht.1)
      (by linarith [(abs_le.mp hrest).2])
  case one =>
    rw [hscore, hexact]
    intro hsum
    apply Binary64.val_round_eq_one
    cases good with
    | false =>
      -- a failure leaves at most the rest of the weight
      simp only [Bool.false_eq_true, if_false, add_zero] at hsum
      have : x * (1 - a.val) ≤ 1 - a.val := mul_le_of_le_one_left (by linarith) hx₁
      linarith
    | true =>
      simp only [if_true] at hsum ⊢
      have hprod : (1 - x) * (1 - a.val) = 0 := by linarith
      rcases mul_eq_zero.mp hprod with hx | ha
      · rw [hp (hone (by linarith))]
        rwa [sub_sub_eq_add_sub] at hrest
      · -- the outcome has the whole weight
        have hc : c ≤ 1 / 2 ^ 54 := by linarith [(abs_le.mp hrest).2]
        rw [abs_le]
        constructor <;> linarith

end Near

/-! ## One record -/

section Outcome

variable {F : Type} [Add F] [Sub F] [Mul F] [OfScientific F]

/-- How a signal counts for the score: whether as a success, and with which weight. -/
def SignalKind.outcome (alpha : F) : SignalKind → Option (Bool × F)
  | .accepted | .mailboxGone => some (true, alpha)
  | .blocked => some (false, alpha)
  | .tempFail | .connRefused | .timeout => some (false, alpha * 0.5)
  | .other _ _ => none

/-- A signal with an outcome is observed with its weight, and any other one is not. -/
theorem Record.health_applySignal_eq (r : Record F) (t : Tuning F) (now : Int) (sig : Signal) :
    (r.applySignal t now sig).health =
      match sig.kind.outcome t.alpha with
      | some (good, weight) => (r.updateHealth sig.destination (·.observe good weight)).health
      | none => r.health := by
  unfold applySignal
  cases sig.kind with
  | blocked =>
    dsimp only
    split <;> rfl
  | _ => rfl

/-- Only signals and `Restore` write scores. -/
theorem Event.health_effect {e : Event F} (r : Record F) (hemit : ∀ signals, e.op ≠ .emit signals)
    (hrestore : ¬ e.op.IsRestore) : (e.effect r).health = r.health := by
  unfold effect
  -- a `Binding` reconciles, touches and charges, none of which writes a score
  cases hop : e.op with
  | emit signals => exact absurd hop (hemit signals)
  | restore states => rw [hop] at hrestore; exact absurd trivial hrestore
  | binding task =>
    dsimp only
    split <;> simp [Record.charge]
  | setThresholds quarantine circuit => rfl
  | _ =>
    dsimp only
    split <;> rfl

omit [Add F] [Sub F] [Mul F] in
theorem Record.score_reconcile (r : Record F) (stages : Nat) (now : Int) (dest : String) :
    (r.reconcile stages now).score dest = r.score dest := by
  rw [score, reconcile_health, score]

end Outcome

/-- The effective weight of an outcome for a configured `HealthAlpha`. -/
def effectiveAlpha (alpha : Binary64) : Binary64 :=
  (Manager.tuningOf { identities := [], healthAlpha := alpha }).alpha

/-- The weight in force is positive and at most one, whatever is configured. -/
theorem effectiveAlpha_bounds (alpha : Binary64) :
    0 < (effectiveAlpha alpha).val ∧ (effectiveAlpha alpha).val ≤ 1 := by
  have hdefault : 0 < (0.3 : Binary64).val ∧ (0.3 : Binary64).val ≤ 1 := by decide +kernel
  unfold effectiveAlpha Manager.tuningOf
  dsimp only
  split_ifs with h
  · exact hdefault
  · obtain ⟨hpos, hle⟩ := not_or.mp h
    rw [not_le, Binary64.lt_def, Binary64.val_zero] at hpos
    rw [gt_iff_lt, not_lt, Binary64.le_def, Binary64.val_one] at hle
    exact ⟨hpos, hle⟩

/-- The distance between a score and the exact average. -/
def drift (alpha : Binary64) : ℚ := 1 / (2 ^ 50 * (effectiveAlpha alpha).val)

theorem drift_nonneg (alpha : Binary64) : 0 ≤ drift alpha := by
  have := (effectiveAlpha_bounds alpha).1
  unfold drift
  positivity

/-- Each weight is large enough for the average to forget its rounding errors. -/
theorem exists_outcome {alpha : Binary64} {kind : SignalKind} {good : Bool} {weight : Binary64}
    (h : kind.outcome (effectiveAlpha alpha) = some (good, weight)) :
    kind.outcome (effectiveAlpha alpha).val = some (good, weight.val) ∧ 0 < weight.val ∧
      weight.val ≤ 1 ∧ 1 / 2 ^ 51 ≤ weight.val * drift alpha := by
  obtain ⟨hpos, hle⟩ := effectiveAlpha_bounds alpha
  have hfull : (effectiveAlpha alpha).val * drift alpha = 1 / 2 ^ 50 := by
    unfold drift
    field_simp
  -- the exact half and the rounded half are the same number
  have hhalf : (effectiveAlpha alpha).val * 0.5 = (effectiveAlpha alpha * 0.5).val := by
    rw [Binary64.val_mul_half]
    norm_num
    ring
  have hweight : weight = effectiveAlpha alpha ∨ weight = effectiveAlpha alpha * 0.5 := by
    cases kind <;> simp only [SignalKind.outcome, Option.some.injEq, Prod.mk.injEq,
      reduceCtorEq] at h <;> simp [h.2]
  refine ⟨?_, ?_⟩
  · cases kind <;> simp only [SignalKind.outcome, Option.some.injEq, Prod.mk.injEq,
      reduceCtorEq] at h ⊢ <;> simp [h.1, ← h.2, hhalf]
  · rcases hweight with rfl | rfl
    · refine ⟨hpos, hle, ?_⟩
      rw [hfull]
      norm_num
    · rw [Binary64.val_mul_half]
      refine ⟨by linarith, by linarith, ?_⟩
      rw [div_mul_eq_mul_div, hfull]
      norm_num

namespace Record

/-- The scores of two records, one of each arithmetic, are close. -/
structure Tracks (ε : ℚ) (r : Record Binary64) (k : Record ℚ) : Prop where
  id : k.id = r.id
  health : ∀ dest,
    Option.Rel (fun h i => Near ε h.score i.score) (r.health dest) (k.health dest)

namespace Tracks

variable {ε : ℚ} {r : Record Binary64} {k : Record ℚ}

theorem fresh (spec : Spec) (now : Int) :
    Tracks ε (Record.fresh spec now) (Record.fresh spec now) :=
  ⟨rfl, fun _ => .none⟩

/-- `healthFor`, which starts a score that is not there. -/
theorem getD (h : Tracks ε r k) (hε : 0 ≤ ε) (dest : String) :
    Near ε ((r.health dest).getD .newHealth).score ((k.health dest).getD .newHealth).score := by
  have hrel := h.health dest
  revert hrel
  generalize r.health dest = a
  generalize k.health dest = b
  rintro (hnear | _)
  · exact hnear
  · exact Near.newHealth hε

theorem score (h : Tracks ε r k) (hε : 0 ≤ ε) (dest : String) :
    Near ε (r.score dest) (k.score dest) := by
  rw [(score_eq_getD r dest).1, (score_eq_getD k dest).1]
  exact h.getD hε dest

/-- An update that keeps scores near keeps records tracking each other. -/
theorem health_updateHealth (h : Tracks ε r k) (hε : 0 ≤ ε) (d : String)
    {f : Health Binary64 → Health Binary64} {g : Health ℚ → Health ℚ}
    (hfg : ∀ h i, Near ε h.score i.score → Near ε (f h).score (g i).score) (dest : String) :
    Option.Rel (fun h i => Near ε h.score i.score) ((r.updateHealth d f).health dest)
      ((k.updateHealth d g).health dest) := by
  unfold updateHealth
  dsimp only
  by_cases hd : dest = d
  · subst hd
    rw [Function.update_self, Function.update_self]
    exact .some (hfg _ _ (h.getD hε dest))
  · rw [Function.update_of_ne hd, Function.update_of_ne hd]
    exact h.health dest

variable {alpha : Binary64}

/-- A signal keeps records tracking each other. -/
theorem applySignal (h : Tracks (drift alpha) r k) {t : Tuning Binary64} {u : Tuning ℚ}
    (ht : t.alpha = effectiveAlpha alpha) (hu : u.alpha = (effectiveAlpha alpha).val) (now : Int)
    (sig : Signal) : Tracks (drift alpha) (r.applySignal t now sig) (k.applySignal u now sig) := by
  refine ⟨by simp [h.id], fun dest => ?_⟩
  rw [health_applySignal_eq, health_applySignal_eq, ht, hu]
  -- both sides observe the same outcome with the same weight, or neither observes anything
  cases hout : sig.kind.outcome (effectiveAlpha alpha) with
  | some out =>
    obtain ⟨hexact, hpos, hle, hε⟩ := exists_outcome hout
    rw [hexact]
    exact h.health_updateHealth (drift_nonneg alpha) _
      (fun _ _ hnear => hnear.observe hpos hle hε out.1) dest
  | none =>
    have hexact : sig.kind.outcome (effectiveAlpha alpha).val = none := by
      cases hkind : sig.kind <;> rw [hkind] at hout <;> first | rfl | cases hout
    rw [hexact]
    exact h.health dest

/-- So do any number of signals. -/
theorem applySignals (h : Tracks (drift alpha) r k) {t : Tuning Binary64} {u : Tuning ℚ}
    (ht : t.alpha = effectiveAlpha alpha) (hu : u.alpha = (effectiveAlpha alpha).val) (now : Int)
    (signals : List Signal) :
    Tracks (drift alpha) (r.applySignals t now signals) (k.applySignals u now signals) := by
  induction signals generalizing r k with
  | nil => exact h
  | cons sig signals ih =>
    rw [applySignals_cons, applySignals_cons, h.id]
    apply ih
    split
    · exact h.applySignal ht hu now sig
    · exact h

end Tracks

end Record

/-- The scores of two rows of the store, one of each arithmetic, are close. -/
structure EgressState.Tracks (ε : ℚ) (st : EgressState Binary64) (sk : EgressState ℚ) : Prop where
  id : sk.id = st.id
  health : ∀ dest, Option.Rel (Near ε) (st.health dest) (sk.health dest)

namespace Record.Tracks

variable {ε : ℚ} {r : Record Binary64} {k : Record ℚ}

/-- Records that track each other have rows that do. -/
theorem toEgressState (h : Tracks ε r k) :
    EgressState.Tracks ε r.toEgressState k.toEgressState := by
  refine ⟨h.id, fun dest => ?_⟩
  have hrel := h.health dest
  simp only [Record.toEgressState]
  revert hrel
  generalize r.health dest = a
  generalize k.health dest = b
  rintro (hnear | _)
  · exact .some hnear
  · exact .none

/-- Rows that track each other restore records that do. -/
theorem restore (h : Tracks ε r k) {st : EgressState Binary64} {sk : EgressState ℚ}
    (hst : st.Tracks ε sk) : Tracks ε (r.restore st) (k.restore sk) := by
  refine ⟨h.id, fun dest => ?_⟩
  have hrel := hst.health dest
  simp only [Record.restore]
  revert hrel
  generalize st.health dest = a
  generalize sk.health dest = b
  rintro (hnear | _)
  · exact .some hnear
  · exact h.health dest

/-- So do any number of rows. -/
theorem restoreAll (h : Tracks ε r k) {states : List (EgressState Binary64)}
    {exacts : List (EgressState ℚ)} (hrows : List.Forall₂ (EgressState.Tracks ε) states exacts) :
    Tracks ε (r.restoreAll states) (k.restoreAll exacts) := by
  induction hrows generalizing r k with
  | nil => exact h
  | cons hst _ ih =>
    rw [restoreAll_cons, restoreAll_cons, h.id, hst.id]
    apply ih
    split
    · exact h.restore hst
    · exact h

end Record.Tracks

/-! ## Deployments -/

/-- The calls that change a manager, `Restore` apart. -/
inductive Call where
  | binding (t : Task)
  | emit (signals : List Signal)
  | enable (id : String)
  | disable (id reason : String)
  | quarantine (id reason : String)
  | setOnline (id : String) (online : Bool)
  | addIdentity (spec : Spec)
  | setThresholds (quarantine circuit : Int)

def Call.op {F : Type} : Call → Op F
  | .binding t => .binding t
  | .emit signals => .emit signals
  | .enable id => .enable id
  | .disable id reason => .disable id reason
  | .quarantine id reason => .quarantine id reason
  | .setOnline id online => .setOnline id online
  | .addIdentity spec => .addIdentity spec
  | .setThresholds q c => .setThresholds q c

/-- The configuration with the weight given in the arithmetic at hand. -/
def Config.withAlpha {F : Type} (cfg : Config Unit) (alpha : F) : Config F :=
  { cfg with healthAlpha := alpha }

/-- The manager of the running server, and the rows that managers before it and this one have
    written to the store. -/
structure Deployment (F : Type) where
  manager : Manager F
  rows : List (EgressState F)

inductive Deployment.Label where
  /-- The server is started again with an empty manager. -/
  | restart (cfg : Config Unit) (now : Int)
  | call (now : Int) (call : Call)
  /-- `Snapshot` is written to the store. -/
  | save
  /-- `Restore` of any rows that were written, by their places. -/
  | load (places : List Nat)

namespace Deployment

section Step

variable {F : Type} [Add F] [Sub F] [Mul F] [OfScientific F] [LinearOrder F]

/-- Deployments track each other when they start. -/
def boot (alpha : F) (cfg : Config Unit) (now : Int) : Deployment F where
  manager := .new (cfg.withAlpha alpha) now
  rows := []

/-- One step; `none` is a panic. -/
def step (alpha : F) (s : Deployment F) : Label → Option (Deployment F)
  | .restart cfg now => some { s with manager := .new (cfg.withAlpha alpha) now }
  | .call now call => (s.manager.exec now call.op).map fun p => { s with manager := p.1 }
  | .save => some { s with rows := s.rows ++ s.manager.snapshot }
  | .load places => some { s with manager := s.manager.restore (places.filterMap (s.rows[·]?)) }

end Step

/-- The scores of two deployments, one of each arithmetic, are close, in memory and in the
    store. -/
structure Tracks (alpha : Binary64) (s : Deployment Binary64) (k : Deployment ℚ) : Prop where
  alpha_eq : s.manager.alpha = effectiveAlpha alpha
  exact_alpha_eq : k.manager.alpha = (effectiveAlpha alpha).val
  order : k.manager.pool.order = s.manager.pool.order
  get? : ∀ i, Option.Rel (Record.Tracks (drift alpha)) (s.manager.get? i) (k.manager.get? i)
  rows : List.Forall₂ (EgressState.Tracks (drift alpha)) s.rows k.rows
  reachable : Reachable k.manager
  stages : ∀ st ∈ k.rows, 0 ≤ st.warmupStage

end Deployment

section Order

variable {F : Type} [Add F] [Sub F] [Mul F] [OfScientific F] [LinearOrder F]
  {m m' : Manager F} {e : Event F}

/-- Only `AddIdentity` of an identity that is not known extends the order. -/
theorem Manager.Step.order (h : m.Step e m') : m'.pool.order = m.pool.order ++
    match e.op with
    | .addIdentity spec => if (m.get? spec.id).isSome then [] else [spec.id]
    | _ => [] := by
  -- only `AddIdentity` makes the pool larger
  cases hop : e.op with
  | binding task =>
    rw [List.append_nil]
    have htouch :
        ((m.reconcileLocked e.now).pool.touchAll (destOf task) e.now).order = m.pool.order := by
      rw [Pool.touchAll, OrderedMap.order_mapInOrder, order_reconcileLocked]
    rcases h.binding_cases hop with ⟨-, -, rfl⟩ | ⟨b, rb, -, -, -, rfl⟩ <;> exact htouch
  | emit signals =>
    obtain ⟨-, hexec⟩ := h
    simp only [hop, exec, Option.some.injEq, Prod.mk.injEq] at hexec
    rw [← hexec.1, List.append_nil]
    clear hexec hop
    induction signals generalizing m with
    | nil => rfl
    | cons sig signals ih => rw [emit_cons, ih, pool_emitSignal]; rfl
  | restore states =>
    obtain ⟨-, hexec⟩ := h
    simp only [hop, exec, Option.some.injEq, Prod.mk.injEq] at hexec
    rw [← hexec.1, List.append_nil]
    exact order_restore m states
  | addIdentity spec =>
    obtain ⟨-, hexec⟩ := h
    simp only [hop, exec, Option.some.injEq, Prod.mk.injEq] at hexec
    rw [← hexec.1]
    dsimp only
    cases hspec : m.get? spec.id with
    | some r =>
      rw [pool_addIdentity_of_some hspec, Option.isSome_some, if_pos rfl, List.append_nil]
      rfl
    | none =>
      rw [pool_addIdentity_of_none hspec]
      rfl
  | _ =>
    obtain ⟨-, hexec⟩ := h
    simp only [hop, exec, Option.some.injEq, Prod.mk.injEq] at hexec
    rw [← hexec.1, List.append_nil]
    first
      | rfl
      | simp only [pool_enable, pool_disable, pool_quarantine, pool_setOnline]
        rfl

end Order

namespace Deployment

variable {alpha : Binary64} {s s' : Deployment Binary64} {k : Deployment ℚ}

namespace Tracks

/-- Managers that have just been created, over rows that are close. -/
theorem new (cfg : Config Unit) (now : Int) {rows : List (EgressState Binary64)}
    {exacts : List (EgressState ℚ)}
    (hrows : List.Forall₂ (EgressState.Tracks (drift alpha)) rows exacts)
    (hstages : ∀ st ∈ exacts, 0 ≤ st.warmupStage) :
    Tracks alpha { manager := .new (cfg.withAlpha alpha) now, rows := rows }
      { manager := .new (cfg.withAlpha (effectiveAlpha alpha).val) now, rows := exacts } where
  alpha_eq := rfl
  -- the weight in force is in range, so it is not replaced once more
  exact_alpha_eq := by
    obtain ⟨hpos, hle⟩ := effectiveAlpha_bounds alpha
    change (if (effectiveAlpha alpha).val ≤ 0.0 ∨ (effectiveAlpha alpha).val > 1.0 then (0.3 : ℚ)
      else (effectiveAlpha alpha).val) = _
    rw [if_neg]
    norm_num
    exact ⟨hpos, hle⟩
  order := by rw [Manager.order_new, Manager.order_new]; rfl
  get? i := by
    rw [Manager.get?_new, Manager.get?_new]
    change Option.Rel _ (Option.map _ (List.find? _ cfg.identities.reverse))
      (Option.map _ (List.find? _ cfg.identities.reverse))
    cases cfg.identities.reverse.find? (·.id = i) with
    | none => exact .none
    | some spec => exact .some (.fresh spec now)
  rows := hrows
  reachable := .new _ now
  stages := hstages

/-- The event of a call on either side. -/
private theorem record {r : Record Binary64} {q : Record ℚ} {c : Call}
    {e : Event Binary64} {f : Event ℚ} (h : Tracks alpha s k)
    (hrec : Record.Tracks (drift alpha) r q) (he : e.pre = s.manager) (hf : f.pre = k.manager)
    (hnow : f.now = e.now) (heop : e.op = c.op) (hfop : f.op = c.op)
    (hid : (f.effect q).id = (e.effect r).id) :
    Record.Tracks (drift alpha) (e.effect r) (f.effect q) := by
  cases c with
  | emit signals =>
    have heffect : e.effect r = r.applySignals e.pre.toTuning e.now signals := by
      simp only [Event.effect, heop, Call.op]
    have hexact : f.effect q = q.applySignals f.pre.toTuning e.now signals := by
      simp only [Event.effect, hfop, Call.op, hnow]
    rw [heffect, hexact]
    exact hrec.applySignals (by rw [he]; exact h.alpha_eq) (by rw [hf]; exact h.exact_alpha_eq) _ _
  | _ =>
    -- no other call writes scores
    refine ⟨hid, fun dest => ?_⟩
    rw [Event.health_effect r (by simp [heop, Call.op]) (by simp [heop, Call.op, Op.IsRestore]),
      Event.health_effect q (by simp [hfop, Call.op]) (by simp [hfop, Call.op, Op.IsRestore])]
    exact hrec.health dest

/-- The same identities are registered on both sides. -/
private theorem registered (h : Tracks alpha s k) (i : String) :
    s.manager.get? i = none ∧ k.manager.get? i = none ∨ ∃ r q, s.manager.get? i = some r ∧
      k.manager.get? i = some q ∧ Record.Tracks (drift alpha) r q := by
  have hrel := h.get? i
  revert hrel
  generalize s.manager.get? i = a
  generalize k.manager.get? i = b
  rintro (hrec | _)
  · exact .inr ⟨_, _, rfl, rfl, hrec⟩
  · exact .inl ⟨rfl, rfl⟩

/-- A call that returns on one side returns on the other. -/
private theorem call {now : Int} {c : Call} {m : Manager Binary64} {ret : Ret}
    (h : Tracks alpha s k) (hexec : s.manager.exec now c.op = some (m, ret)) :
    ∃ q ret', k.manager.exec now c.op = some (q, ret') ∧
      Tracks alpha { s with manager := m } { k with manager := q } := by
  obtain ⟨⟨q, ret'⟩, hexact⟩ := Option.isSome_iff_exists.mp (h.reachable.exec_isSome now c.op)
  let e : Event Binary64 := { pre := s.manager, now := now, op := c.op, ret := ret }
  let f : Event ℚ := { pre := k.manager, now := now, op := c.op, ret := ret' }
  have he : s.manager.Step e m := ⟨rfl, hexec⟩
  have hf : k.manager.Step f q := ⟨rfl, hexact⟩
  refine ⟨q, ret', hexact, ?_⟩
  constructor
  case alpha_eq => exact he.fixed_tuning.2.2.2.2.trans h.alpha_eq
  case exact_alpha_eq => exact hf.fixed_tuning.2.2.2.2.trans h.exact_alpha_eq
  case rows => exact h.rows
  case stages => exact h.stages
  case reachable => exact h.reachable.step hf (by cases c <;> trivial)
  -- a new identity is new to both managers
  case order =>
    change q.pool.order = m.pool.order
    rw [he.order, hf.order, h.order]
    cases c with
    | addIdentity spec =>
      rcases h.registered spec.id with ⟨hr, hq⟩ | ⟨r, r', hr, hq, -⟩ <;>
        simp only [e, f, Call.op, hr, hq] <;> rfl
    | _ => rfl
  -- an identity that both managers know, or that neither of them does
  case get? =>
    intro i
    change Option.Rel _ (m.get? i) (q.get? i)
    rcases h.registered i with ⟨hr, hq⟩ | ⟨r, r', hr, hq, hrec⟩
    · rw [he.get?_none hr, hf.get?_none hq]
      cases c with
      | addIdentity spec =>
        simp only [e, f, Call.op]
        split
        · exact .some (.fresh spec now)
        · exact .none
      | _ => exact .none
    · have hkey := m.pool.key_eq i _ (he.get? hr)
      have hkey' := q.pool.key_eq i _ (hf.get? hq)
      rw [he.get? hr, hf.get? hq]
      exact .some (h.record hrec rfl rfl rfl rfl rfl (hkey'.trans hkey.symm))

/-- Deployments that track each other have snapshots that do. -/
private theorem snapshot (h : Tracks alpha s k) :
    List.Forall₂ (EgressState.Tracks (drift alpha)) s.manager.snapshot k.manager.snapshot := by
  rw [Manager.snapshot, Manager.snapshot, h.order]
  induction s.manager.pool.order with
  | nil => exact .nil
  | cons i order ih =>
    rcases h.registered i with ⟨hr, hq⟩ | ⟨r, r', hr, hq, hrec⟩
    · simpa [hr, hq] using ih
    · simpa [hr, hq] using ⟨hrec.toEgressState, ih⟩

/-- The rows at the same places are close. -/
private theorem picked {rows : List (EgressState Binary64)} {exacts : List (EgressState ℚ)}
    (h : List.Forall₂ (EgressState.Tracks (drift alpha)) rows exacts) (places : List Nat) :
    List.Forall₂ (EgressState.Tracks (drift alpha)) (places.filterMap (rows[·]?))
      (places.filterMap (exacts[·]?)) := by
  induction places with
  | nil => exact .nil
  | cons n places ih =>
    have hlen := h.length_eq
    -- a place is in both lists or in neither
    by_cases hn : n < rows.length
    · have hn' : n < exacts.length := hlen ▸ hn
      have hrow : EgressState.Tracks (drift alpha) rows[n] exacts[n] :=
        List.Forall₂.get h hn hn'
      simpa [hn, hn'] using ⟨hrow, ih⟩
    · have hn' : ¬ n < exacts.length := hlen ▸ hn
      simpa [hn, hn'] using ih

/-- Every step of the one is a step of the other. -/
theorem step {l : Label} (h : Tracks alpha s k) (hstep : s.step alpha l = some s') :
    ∃ k', k.step (effectiveAlpha alpha).val l = some k' ∧ Tracks alpha s' k' := by
  -- a restart, a call, and writing and reading the rows
  cases l with
  | restart cfg now =>
    simp only [Deployment.step, Option.some.injEq] at hstep
    rw [← hstep]
    exact ⟨_, rfl, new cfg now h.rows h.stages⟩
  | call now c =>
    simp only [Deployment.step, Option.map_eq_some_iff, Prod.exists] at hstep
    obtain ⟨m, ret, hexec, rfl⟩ := hstep
    obtain ⟨q, ret', hexact, htracks⟩ := h.call hexec
    exact ⟨_, by simp only [Deployment.step, hexact, Option.map_some], htracks⟩
  | save =>
    simp only [Deployment.step, Option.some.injEq] at hstep
    rw [← hstep]
    refine ⟨_, rfl, { h with rows := ?_, stages := ?_ }⟩
    · exact List.rel_append h.rows h.snapshot
    · intro st hst
      rcases List.mem_append.mp hst with hold | hnew
      · exact h.stages st hold
      · exact h.reachable.snapshot_stage st hnew
  | load places =>
    simp only [Deployment.step, Option.some.injEq] at hstep
    rw [← hstep]
    refine ⟨_, rfl, ?_⟩
    have hpicked := picked h.rows places
    constructor
    case rows => exact h.rows
    case stages => exact h.stages
    case alpha_eq => exact (congrArg Tuning.alpha Manager.toTuning_restore).trans h.alpha_eq
    case exact_alpha_eq =>
      exact (congrArg Tuning.alpha Manager.toTuning_restore).trans h.exact_alpha_eq
    case order => rw [Manager.order_restore, Manager.order_restore, h.order]
    case get? =>
      intro i
      rcases h.registered i with ⟨hr, hq⟩ | ⟨r, r', hr, hq, hrec⟩
      · rw [Manager.get?_restore_none hr, Manager.get?_restore_none hq]
        exact .none
      · rw [Manager.get?_restore hr, Manager.get?_restore hq]
        exact .some (hrec.restoreAll hpicked)
    case reachable =>
      let f : Event ℚ :=
        { pre := k.manager, now := 0, op := .restore (places.filterMap (k.rows[·]?)), ret := none }
      refine h.reachable.step (e := f) ⟨rfl, rfl⟩ fun st hst => ?_
      obtain ⟨n, -, hn⟩ := List.mem_filterMap.mp hst
      exact h.stages st (List.mem_of_getElem? hn)

/-- Every run of the one is a run of the other. -/
theorem foldlM {labels : List Label} (h : Tracks alpha s k)
    (hrun : labels.foldlM (Deployment.step alpha) s = some s') :
    ∃ k', labels.foldlM (Deployment.step (effectiveAlpha alpha).val) k = some k' ∧
      Tracks alpha s' k' := by
  -- the two runs make the same steps
  induction labels generalizing s k with
  | nil =>
    obtain rfl : s = s' := by simpa using hrun
    exact ⟨k, rfl, h⟩
  | cons l labels ih =>
    simp only [List.foldlM_cons, Option.bind_eq_bind, Option.bind_eq_some_iff] at hrun ⊢
    obtain ⟨t, hstep, hrest⟩ := hrun
    obtain ⟨k₁, hexact, htracks⟩ := h.step hstep
    obtain ⟨k', hrun', htracks'⟩ := ih htracks hrest
    exact ⟨k', ⟨k₁, hexact, hrun'⟩, htracks'⟩

/-- An identity of the one is an identity of the other, with scores that are near. -/
theorem of_get? {i : String} {r : Record Binary64} (h : Tracks alpha s k)
    (hr : s.manager.get? i = some r) : ∃ q, k.manager.get? i = some q ∧
      ∀ dest, Near (drift alpha) (r.score dest) (q.score dest) := by
  rcases h.registered i with ⟨hnone, -⟩ | ⟨r', q, hr', hq, hrec⟩
  · rw [hnone] at hr
    cases hr
  · obtain rfl : r' = r := by rwa [hr', Option.some.injEq] at hr
    exact ⟨q, hq, fun dest => hrec.score (drift_nonneg alpha) dest⟩

theorem boot (alpha : Binary64) (cfg : Config Unit) (start : Int) :
    Tracks alpha (.boot alpha cfg start) (.boot (effectiveAlpha alpha).val cfg start) :=
  .new cfg start .nil (by simp)

end Tracks

end Deployment

/-- The scores of a server in `float64`, against the same calls, saves and loads in exact
    arithmetic: after any number of outcomes and restarts they are in the unit interval, have
    not drifted apart by more than `drift`, and an identity whose exact average is one, having
    seen no failure, has exactly the score one. -/
theorem score_tracks (alpha : Binary64) (cfg : Config Unit) (start : Int)
    (labels : List Deployment.Label) (s : Deployment Binary64)
    (h : labels.foldlM (Deployment.step alpha) (.boot alpha cfg start) = some s) :
    ∃ k, labels.foldlM (Deployment.step (effectiveAlpha alpha).val)
        (.boot (effectiveAlpha alpha).val cfg start) = some k ∧
      ∀ i r, s.manager.get? i = some r → ∃ q, k.manager.get? i = some q ∧
        ∀ dest, Near (drift alpha) (r.score dest) (q.score dest) := by
  obtain ⟨k, hexact, htracks⟩ := (Deployment.Tracks.boot alpha cfg start).foldlM h
  exact ⟨k, hexact, fun i r hr => htracks.of_get? hr⟩

/-- Two identities, with the default tuning. -/
def defaultPair : Config Unit where
  identities := [{ id := "a" }, { id := "b" }]
  healthAlpha := ()

/-- A success is saved, and comes back in a server that is then blocked. -/
def savedSuccess : List Deployment.Label :=
  [.call 1 (.emit [gmailSignal .accepted]), .save, .restart defaultPair 2, .load [0],
    .call 3 (.emit [gmailSignal .blocked, gmailSignal .tempFail])]

/-- A deployment with two identities that is saved, restarted and restored. -/
theorem score_tracks_savedSuccess : ∃ s k r q,
    savedSuccess.foldlM (Deployment.step 0.0) (.boot (0.0 : Binary64) defaultPair 0) = some s ∧
      savedSuccess.foldlM (Deployment.step (effectiveAlpha 0.0).val)
        (.boot (effectiveAlpha 0.0).val defaultPair 0) = some k ∧
      s.manager.get? "a" = some r ∧ k.manager.get? "a" = some q ∧
      Near (drift 0.0) (r.score "gmail") (q.score "gmail") := by
  have hget : ((savedSuccess.foldlM (Deployment.step (0.0 : Binary64))
      (.boot 0.0 defaultPair 0)).bind fun s => (s.manager.get? "a").map fun _ => ()) =
      some () := by decide +kernel
  obtain ⟨s, hs, hget⟩ := Option.bind_eq_some_iff.mp hget
  obtain ⟨r, hr, -⟩ := Option.map_eq_some_iff.mp hget
  obtain ⟨k, hk, hnear⟩ := score_tracks 0.0 defaultPair 0 savedSuccess s hs
  obtain ⟨q, hq, hscore⟩ := hnear "a" r hr
  exact ⟨s, k, r, q, hs, hk, hr, hq, hscore "gmail"⟩

/-- The choice of `Binding` is by the rounded scores. By the exact ones no identity that it
    could have chosen is better by more than twice the drift. -/
theorem binding_nearly_best (alpha : Binary64) (cfg : Config Unit) (start : Int)
    (labels : List Deployment.Label) (s : Deployment Binary64)
    (h : labels.foldlM (Deployment.step alpha) (.boot alpha cfg start) = some s) :
    ∃ k, labels.foldlM (Deployment.step (effectiveAlpha alpha).val)
        (.boot (effectiveAlpha alpha).val cfg start) = some k ∧
      ∀ now task m b, s.manager.binding now task = some (m, .ok b) →
        ∃ qb, k.manager.get? b.id = some qb ∧ ∀ i r, s.manager.get? i = some r →
          (r.reconcile s.manager.warmupStages.length now).Eligible s.manager.toTuning
            (destOf task) now →
          ∃ q, k.manager.get? i = some q ∧
            q.score (destOf task) ≤ qb.score (destOf task) + 2 * drift alpha := by
  obtain ⟨k, hexact, htracks⟩ := (Deployment.Tracks.boot alpha cfg start).foldlM h
  refine ⟨k, hexact, fun now task m b hbind => ?_⟩
  rcases Manager.binding_some hbind with ⟨-, hret, -⟩ | ⟨c, rc, hbest, hc, hret, -⟩
  · cases hret
  cases hret
  -- the record it chose, before reconciliation
  have hid : rc.spec.toBinding.id = c := (s.manager.reconcileLocked now).pool.key_eq c rc hc
  rw [hid]
  rw [Manager.get?_reconcileLocked, Option.map_eq_some_iff] at hc
  obtain ⟨rb, hrb, rfl⟩ := hc
  obtain ⟨qb, hqb, hchosen⟩ := htracks.of_get? hrb
  refine ⟨qb, hqb, fun i r hr hel => ?_⟩
  obtain ⟨q, hq, hnear⟩ := htracks.of_get? hr
  refine ⟨q, hq, ?_⟩
  have hle : r.score (destOf task) ≤ rb.score (destOf task) := by
    by_cases hi : i = c
    · subst hi
      rw [hr, Option.some.injEq] at hrb
      rw [hrb]
    · have hscores := Manager.best_le hbest (by rw [Manager.get?_reconcileLocked, hrb]; rfl)
        (by rw [Manager.get?_reconcileLocked, hr]; rfl) (by simpa using hel) hi
      simp only [Record.score_reconcile] at hscores
      rcases hscores with hlt | ⟨heq, -⟩ | ⟨heq, -⟩
      · exact hlt.le
      · exact heq.le
      · exact heq.le
  have h₁ := (abs_le.mp (hnear (destOf task)).close).1
  have h₂ := (abs_le.mp (hchosen (destOf task)).close).2
  rw [Binary64.le_def] at hle
  linarith

/-- The binding that the server of `savedSuccess` returns next, and whether `a` was eligible. -/
def nextBinding (s : Deployment Binary64) : Option (String × Bool) :=
  match s.manager.binding 4 gmailTask, s.manager.get? "a" with
  | some (_, .ok b), some r => some (b.id,
      decide ((r.reconcile s.manager.warmupStages.length 4).Eligible s.manager.toTuning "gmail" 4))
  | _, _ => none

/-- In it the identity that is returned is nearly the best. -/
theorem binding_nearly_best_savedSuccess : ∃ s k qb q,
    savedSuccess.foldlM (Deployment.step 0.0) (.boot (0.0 : Binary64) defaultPair 0) = some s ∧
      nextBinding s = some ("b", true) ∧
      savedSuccess.foldlM (Deployment.step (effectiveAlpha 0.0).val)
        (.boot (effectiveAlpha 0.0).val defaultPair 0) = some k ∧
      k.manager.get? "b" = some qb ∧ k.manager.get? "a" = some q ∧
      q.score "gmail" ≤ qb.score "gmail" + 2 * drift 0.0 := by
  have hnext : (savedSuccess.foldlM (Deployment.step (0.0 : Binary64))
      (.boot 0.0 defaultPair 0)).bind nextBinding = some ("b", true) := by decide +kernel
  obtain ⟨s, hs, hnext⟩ := Option.bind_eq_some_iff.mp hnext
  obtain ⟨k, hk, hbest⟩ := binding_nearly_best 0.0 defaultPair 0 savedSuccess s hs
  have hnext' := hnext
  unfold nextBinding at hnext'
  split at hnext'
  · next m b r hbind hr =>
    simp only [Option.some.injEq, Prod.mk.injEq, decide_eq_true_eq] at hnext'
    obtain ⟨qb, hqb, hall⟩ := hbest 4 gmailTask m b hbind
    obtain ⟨q, hq, hle⟩ := hall "a" r hr hnext'.2
    rw [hnext'.1] at hqb
    exact ⟨s, k, qb, q, hs, hnext, hk, hqb, hq, hle⟩
  · cases hnext'

end Rcptto.Native
