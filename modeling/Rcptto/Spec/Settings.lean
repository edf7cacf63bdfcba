import Mathlib.Algebra.Order.Ring.Rat
import Rcptto.ForStd.PartialMap
import Rcptto.Native.Settings
import Rcptto.Native.Startup
import Rcptto.Spec.Limiter
import Rcptto.Spec.Step

/-!
# The settings in force

Every value that reaches the limiter, the runner, the egress manager or the engine belongs to
settings that were activated at start-up or have passed `Validate` in a call of `Apply`. The
settings of start-up are not validated, so the caps hold from then on if and only if they hold at
the start. Calls of `Apply` that overlap can leave the store with the settings of one of them and
the components with those of another.

## Key results

- `SettingsManager.step_cases`: what one step does
- `SettingsManager.caps_hold_iff`: the caps hold in every state if and only if they hold at start
- `SettingsManager.in_step`: calls that do not overlap leave everything in step
- `SettingsManager.start_above_caps`, `SettingsManager.out_of_step`: where these fail
-/

namespace Rcptto.Native

variable {F : Type} [OfScientific F] [LT F] [DecidableLT F] [LE F] [DecidableLE F]

/-! ## Settings -/

/-- A chain of checks passes if the first one does and the rest of the chain. -/
private theorem check_eq_ok_iff {p : Prop} [Decidable p] {err : String}
    {rest : Except String Unit} :
    (if p then .error err else rest) = .ok () ↔ ¬ p ∧ rest = .ok () := by
  by_cases hp : p <;> simp [hp]

/-- The settings that `Validate` accepts. -/
theorem Settings.validate_eq_ok_iff {s : Settings F} : s.validate = .ok () ↔
    (¬ s.probeRate ≤ 0.0 ∧ ¬ s.probeRate > maxProbeRate) ∧
    (¬ s.probeBurst ≤ 0.0 ∧ ¬ s.probeBurst > maxProbeBurst) ∧
    (1 ≤ s.jobConcurrency ∧ s.jobConcurrency ≤ maxJobConcurrency) ∧
    (1 ≤ s.maxEmailsPerJob ∧ s.maxEmailsPerJob ≤ maxEmailsPerJobCeiling) ∧
    (1 ≤ s.quarantineThreshold ∧ s.quarantineThreshold ≤ maxThreshold) ∧
    (1 ≤ s.circuitThreshold ∧ s.circuitThreshold ≤ maxThreshold) := by
  simp only [validate, check_eq_ok_iff]
  constructor
  · rintro ⟨hrate, hrate', hburst, hburst', hjobs, hjobs', hemails, hemails', hquarantine,
      hcircuit, -⟩
    refine ⟨⟨hrate, hrate'⟩, ⟨hburst, hburst'⟩, ?_, ?_, ?_, ?_⟩ <;> omega
  · rintro ⟨⟨hrate, hrate'⟩, ⟨hburst, hburst'⟩, hjobs, hemails, hquarantine, hcircuit⟩
    refine ⟨hrate, hrate', hburst, hburst', ?_, ?_, ?_, ?_, ?_, ?_, trivial⟩ <;> omega

namespace SettingsManager

variable {m m' : SettingsManager F} {a : Action F}

/-! ## Steps -/

/-- What one step does. -/
theorem step_cases (h : m.Step a m') :
    (∃ i s, a = .apply i s ∧ m.calls i = none ∧
      (s.withDefaults.validate ≠ .ok () ∧ m' = m ∨
        s.withDefaults.validate = .ok () ∧ m' =
          { m with calls := Function.update m.calls i (some ⟨s.withDefaults, .save⟩) })) ∨
    (∃ i written s, a = .saveFails i written ∧ m.calls i = some ⟨s, .save⟩ ∧ m' =
      { m with
        store := if written then some s else m.store
        calls := Function.update m.calls i none }) ∨
    (∃ i s stage, a = .proceed i ∧ m.calls i = some ⟨s, stage⟩ ∧ m' =
      { m.write s stage with
        calls := Function.update m.calls i (stage.next.map fun stage => ⟨s, stage⟩) }) ∨
    (∃ limiter egress, a = .other limiter egress ∧ limiter.toPacing = m.limiter.toPacing ∧
      egress.toTuning = m.egress.toTuning ∧
      m' = { m with limiter := limiter, egress := egress }) := by
  -- one case for each action; those that cannot be carried out end at `cases h`
  cases a with
  | apply i s =>
    simp only [Step, exec] at h
    split at h
    · cases h
    · next hcall =>
      split at h
      · next hinvalid =>
        cases h
        exact .inl ⟨i, s, rfl, hcall, .inl ⟨by simp [hinvalid], rfl⟩⟩
      · next hvalid =>
        cases h
        exact .inl ⟨i, s, rfl, hcall, .inr ⟨hvalid, rfl⟩⟩
  | saveFails i written =>
    simp only [Step, exec] at h
    split at h
    · next hcall =>
      cases h
      exact .inr (.inl ⟨i, written, _, rfl, hcall, rfl⟩)
    · cases h
  | proceed i =>
    simp only [Step, exec] at h
    split at h
    · next hcall =>
      cases h
      exact .inr (.inr (.inl ⟨i, _, _, rfl, hcall, rfl⟩))
    · cases h
  | other limiter egress => exact .inr (.inr (.inr ⟨limiter, egress, rfl, h⟩))

section Others

variable {F D : Type} [OfScientific F] [LinearOrder F] [Add F] [Sub F] [Mul F] [Div F] [Zero D]
  [IntCast D] [LinearOrder D]

/-- A reservation at the limiter is a call by others. -/
theorem step_reserve (m : SettingsManager F) (u : Units F D) (key : String) (now : Int) :
    m.Step (.other (m.limiter.reserve u key now).2 m.egress)
      { m with limiter := (m.limiter.reserve u key now).2 } :=
  ⟨rfl, rfl, rfl⟩

omit [Div F] in
/-- So is every operation of the egress manager but the one that sets the thresholds. -/
theorem step_manager {m : SettingsManager F} {e : Event F} {egress : Manager F}
    (h : m.egress.Step e egress) (hop : ∀ q c, e.op ≠ .setThresholds q c) :
    m.Step (.other m.limiter egress) { m with egress := egress } := by
  refine ⟨rfl, ?_, rfl⟩
  rw [h.tuning]
  cases hcase : e.op with
  | setThresholds q c => exact absurd hcase (hop q c)
  | _ => rfl

end Others

/-! ## Caps -/

/-- The settings in force pass `Validate`, and nothing is above its cap. -/
structure Within (m : SettingsManager F) : Prop where
  current : m.current.validate = .ok ()
  rate : ¬ m.limiter.rate > Settings.maxProbeRate
  burst : ¬ m.limiter.burst > Settings.maxProbeBurst
  concurrency : (m.runner.concurrency : Int) ≤ Settings.maxJobConcurrency
  maxEmails : (m.runner.maxEmails : Int) ≤ Settings.maxEmailsPerJobCeiling
  quarantine : m.egress.quarantineThreshold ≤ Settings.maxThreshold
  circuit : m.egress.circuitThreshold ≤ Settings.maxThreshold

/-- Writing settings that pass `Validate` keeps within the caps. -/
theorem Within.write {s : Settings F} (h : m.Within) (hs : s.validate = .ok ())
    (stage : ApplyStage) : (m.write s stage).Within := by
  obtain ⟨⟨-, hrate⟩, ⟨-, hburst⟩, hjobs, hemails, hquarantine, hcircuit⟩ :=
    Settings.validate_eq_ok_iff.mp hs
  -- one target for each stage; the setters keep the old value instead of one that is not positive
  cases stage with
  | save => exact { h with }
  | current => exact { h with current := hs }
  | limiter =>
    refine { h with rate := ?_, burst := ?_ }
    · simp only [SettingsManager.write, Limiter.setRate]
      split
      · exact hrate
      · exact h.rate
    · simp only [SettingsManager.write, Limiter.setRate]
      split
      · exact hburst
      · exact h.burst
  | runner =>
    refine { h with concurrency := ?_, maxEmails := ?_ }
    · simp only [SettingsManager.write, Runner.setLimits]
      have := h.concurrency
      split <;> omega
    · simp only [SettingsManager.write, Runner.setLimits]
      have := h.maxEmails
      split <;> omega
  | egress =>
    refine { h with quarantine := ?_, circuit := ?_ }
    · simp only [SettingsManager.write, Manager.setThresholds]
      have := h.quarantine
      split <;> omega
    · simp only [SettingsManager.write, Manager.setThresholds]
      have := h.circuit
      split <;> omega
  | engine => exact { h with }

/-- Within the caps, with nothing under way that is not. -/
def Capped (m : SettingsManager F) : Prop :=
  m.Within ∧ ∀ i c, m.calls i = some c → c.settings.validate = .ok ()

/-- One step keeps the settings in force, and those that are being applied, within the caps. -/
theorem step_capped (h : m.Capped) (hstep : m.Step a m') : m'.Capped := by
  obtain ⟨hwithin, hcalls⟩ := h
  -- a call that begins, one whose save fails, one that goes on, or a call of someone else
  rcases step_cases hstep with ⟨i, s, -, -, ⟨-, rfl⟩ | ⟨hvalid, rfl⟩⟩ |
    ⟨i, written, s, -, -, rfl⟩ | ⟨i, s, stage, -, hcall, rfl⟩ |
    ⟨limiter, egress, -, hpacing, htuning, rfl⟩
  · exact ⟨hwithin, hcalls⟩
  · refine ⟨{ hwithin with }, fun j c hj => ?_⟩
    rcases PartialMap.update_eq_some_iff.mp hj with ⟨-, hc⟩ | ⟨-, hj⟩
    · cases hc
      exact hvalid
    · exact hcalls j c hj
  · refine ⟨{ hwithin with }, fun j c hj => ?_⟩
    rcases PartialMap.update_eq_some_iff.mp hj with ⟨-, hc⟩ | ⟨-, hj⟩
    · cases hc
    · exact hcalls j c hj
  · have hvalid := hcalls i _ hcall
    refine ⟨{ hwithin.write hvalid stage with }, fun j c hj => ?_⟩
    rcases PartialMap.update_eq_some_iff.mp hj with ⟨-, hc⟩ | ⟨-, hj⟩
    · obtain ⟨stage', -, rfl⟩ := Option.map_eq_some_iff.mp hc
      exact hvalid
    · exact hcalls j c hj
  · -- calls by others leave what is capped alone
    have hrate : limiter.rate = m.limiter.rate := congrArg Pacing.rate hpacing
    have hburst : limiter.burst = m.limiter.burst := congrArg Pacing.burst hpacing
    have hquarantine := congrArg Tuning.quarantineThreshold htuning
    have hcircuit := congrArg Tuning.circuitThreshold htuning
    refine ⟨{ hwithin with rate := ?_, burst := ?_, quarantine := ?_, circuit := ?_ }, hcalls⟩
    · rw [hrate]
      exact hwithin.rate
    · rw [hburst]
      exact hwithin.burst
    · rw [hquarantine]
      exact hwithin.quarantine
    · rw [hcircuit]
      exact hwithin.circuit

theorem run_capped {as : List (Action F)} (h : m.Capped) (hrun : Run Step m as m') : m'.Capped :=
  hrun.invariant h fun _ _ _ _ hcapped hstep => step_capped hcapped hstep

/-- Start-up ends within the caps if the settings it activates pass `Validate`. Only a rate that
    is not a positive number leaves the limiter with the one from the environment. -/
theorem start_within_iff (env : Environment F) (loaded : Loaded F) (store : Option (Settings F))
    (egress : Manager F) :
    (start env loaded store egress).Within ↔
      (env.started loaded).validate = .ok () ∧
      (¬ (env.started loaded).probeRate > 0.0 →
        ¬ env.limiter.rate > Settings.maxProbeRate) ∧
      (¬ (env.started loaded).probeBurst > 0.0 →
        ¬ env.limiter.burst > Settings.maxProbeBurst) := by
  constructor
  · intro h
    refine ⟨h.current, fun hrate => ?_, fun hburst => ?_⟩
    · have := h.rate
      simpa only [start, activate, List.foldl_cons, List.foldl_nil, write, Limiter.setRate,
        if_neg hrate] using this
    · have := h.burst
      simpa only [start, activate, List.foldl_cons, List.foldl_nil, write, Limiter.setRate,
        if_neg hburst] using this
  · rintro ⟨hvalid, hrate, hburst⟩
    obtain ⟨hrates, hbursts, hjobs, hemails, hquarantine, hcircuit⟩ :=
      Settings.validate_eq_ok_iff.mp hvalid
    refine ⟨hvalid, ?_, ?_, ?_, ?_, ?_, ?_⟩
    -- what is not a number passes `Validate`, and the limiter keeps what it had
    all_goals simp only [start, activate, List.foldl_cons, List.foldl_nil, write, Limiter.setRate,
      Runner.setLimits, Manager.setThresholds]
    · split
      · exact hrates.2
      · next hpos => exact hrate hpos
    · split
      · exact hbursts.2
      · next hpos => exact hburst hpos
    · rw [if_pos (by omega)]
      omega
    · rw [if_pos (by omega)]
      omega
    · rw [if_pos (by omega)]
      exact hquarantine.2
    · rw [if_pos (by omega)]
      exact hcircuit.2

/-- The caps hold in every state that the server can reach if and only if the settings it starts
    with pass `Validate` and leave the limiter within its caps. -/
theorem caps_hold_iff (env : Environment F) (loaded : Loaded F) (store : Option (Settings F))
    (egress : Manager F) :
    (∀ as t, Run Step (start env loaded store egress) as t → t.Within) ↔
      (env.started loaded).validate = .ok () ∧
      (¬ (env.started loaded).probeRate > 0.0 →
        ¬ env.limiter.rate > Settings.maxProbeRate) ∧
      (¬ (env.started loaded).probeBurst > 0.0 →
        ¬ env.limiter.burst > Settings.maxProbeBurst) := by
  rw [← start_within_iff env loaded store egress]
  constructor
  · intro h
    exact h [] _ (.nil _)
  · intro h as t hrun
    exact (run_capped ⟨h, fun i c hc => by cases hc⟩ hrun).1

/-- A rate from the environment, and a record in the store, that `Validate` refuses are in
    force after start-up. -/
theorem start_above_caps :
    let egress : Manager ℚ := startUp "" "" 0 [] []
    let fast := start (F := ℚ) { probeRate := some 1000 } .notFound none egress
    let saved : Settings ℚ := { Settings.default with jobConcurrency := 5000 }
    let wide := start {} (.found saved) (some saved) egress
    (fast.current.validate =
        .error "invalid setting: probe rate above 10/second per destination risks being blocked" ∧
      fast.limiter.rate = 1000) ∧
    (wide.current.validate =
        .error "invalid setting: job concurrency above 100 is not supported" ∧
      wide.runner.concurrency = 5000) ∧
    ¬ fast.Within ∧ ¬ wide.Within := by
  intro egress fast saved wide
  have hfast : fast.current.validate = .error
      "invalid setting: probe rate above 10/second per destination risks being blocked" := by
    decide +kernel
  have hwide : wide.current.validate =
      .error "invalid setting: job concurrency above 100 is not supported" := by
    decide +kernel
  refine ⟨⟨hfast, by decide +kernel⟩, ⟨hwide, by decide +kernel⟩, fun h => ?_, fun h => ?_⟩
  · cases hfast.symm.trans h.current
  · cases hwide.symm.trans h.current

/-! ## Agreement -/

/-- What a write of `Apply` has set has the values of these settings. -/
def Reflects (m : SettingsManager F) (s : Settings F) : ApplyStage → Prop
  | .save => m.store = some s
  | .current => m.current = s
  | .limiter => m.limiter.rate = s.probeRate ∧ m.limiter.burst = s.probeBurst
  | .runner => (m.runner.concurrency : Int) = s.jobConcurrency ∧
    (m.runner.maxEmails : Int) = s.maxEmailsPerJob
  | .egress => m.egress.quarantineThreshold = s.quarantineThreshold ∧
    m.egress.circuitThreshold = s.circuitThreshold
  | .engine => m.engine.detectCatchAll = s.detectCatchAll

/-- The settings are in the store, current, and in force in all components. -/
def InForce (m : SettingsManager F) (s : Settings F) : Prop := ∀ stage, m.Reflects s stage

/-- Settings that pass `Validate` and whose rate and burst are numbers. -/
def Sound (s : Settings F) : Prop :=
  s.validate = .ok () ∧ s.probeRate > 0.0 ∧ s.probeBurst > 0.0

/-- A write of sound settings has its effect. -/
theorem write_reflects {s : Settings F} (hs : Sound s) (stage : ApplyStage) :
    (m.write s stage).Reflects s stage := by
  obtain ⟨hvalid, hrate, hburst⟩ := hs
  obtain ⟨-, -, hjobs, hemails, hquarantine, hcircuit⟩ := Settings.validate_eq_ok_iff.mp hvalid
  -- sound settings are positive, so every setter takes them
  cases stage with
  | save => rfl
  | current => rfl
  | limiter => exact ⟨if_pos hrate, if_pos hburst⟩
  | runner =>
    simp only [Reflects, write, Runner.setLimits]
    rw [if_pos (by omega), if_pos (by omega)]
    omega
  | egress => exact ⟨if_pos (by omega), if_pos (by omega)⟩
  | engine => rfl

omit [LE F] [DecidableLE F] in
/-- A write changes nothing but its own component. -/
theorem write_reflects_of_ne {s s' : Settings F} {stage stage' : ApplyStage}
    (hne : stage' ≠ stage) : (m.write s stage).Reflects s' stage' ↔ m.Reflects s' stage' := by
  cases stage <;> cases stage' <;> first | exact absurd rfl hne | exact Iff.rfl

omit [OfScientific F] [LT F] [DecidableLT F] [LE F] [DecidableLE F] in
theorem reflects_calls {s : Settings F} {stage : ApplyStage} {calls : Nat → Option (ApplyCall F)} :
    ({ m with calls := calls } : SettingsManager F).Reflects s stage ↔ m.Reflects s stage := by
  cases stage <;> exact Iff.rfl

/-- The position of a write. -/
def rank : ApplyStage → Nat
  | .save => 0
  | .current => 1
  | .limiter => 2
  | .runner => 3
  | .egress => 4
  | .engine => 5

theorem rank_next {stage stage' : ApplyStage} (h : stage.next = some stage') :
    rank stage' = rank stage + 1 := by
  cases stage <;> cases h <;> rfl

theorem rank_injective : Function.Injective rank := by
  intro stage stage' h
  cases stage <;> cases stage' <;> first | rfl | cases h

theorem rank_le_of_next_eq_none {stage : ApplyStage} (h : stage.next = none)
    (stage' : ApplyStage) : rank stage' ≤ rank stage := by
  cases stage <;> cases h
  cases stage' <;> decide

/-- A step of calls that succeed with numbers, and of which none saves while another one is
    between its save and its end. -/
def Serial (m : SettingsManager F) : Action F → Prop
  | .apply _ s => Sound s.withDefaults
  | .saveFails _ _ => False
  | .proceed i => (m.calls i).map ApplyCall.stage = some .save →
    ∀ j c, m.calls j = some c → c.stage = .save
  | .other _ _ => True

/-- After the actions `hist`: a call that has saved is the only one, and what it has written is
    in force; if there is none, everything comes from one call, or no call has saved yet. -/
structure InStep (hist : List (Action F)) (m : SettingsManager F) : Prop where
  applied : ∀ i c, m.calls i = some c → Sound c.settings ∧
    ∃ s, .apply i s ∈ hist ∧ c.settings = s.withDefaults
  written : ∀ i c, m.calls i = some c → ∀ stage, rank stage < rank c.stage →
    m.Reflects c.settings stage
  alone : ∀ i c j c', m.calls i = some c → c.stage ≠ .save → m.calls j = some c' →
    c'.stage ≠ .save → i = j
  idle : (∀ i c, m.calls i = some c → c.stage = .save) →
    (∃ i s, .apply i s ∈ hist ∧ m.InForce s.withDefaults) ∨
    ∀ i s, .apply i s ∈ hist → m.calls i ≠ none

/-- A call that begins writes nothing. -/
theorem inStep_apply {hist : List (Action F)} {i : Nat} {s : Settings F} (h : InStep hist m)
    (hs : Sound s.withDefaults) (hfree : m.calls i = none) :
    InStep (hist ++ [.apply i s])
      { m with calls := Function.update m.calls i (some ⟨s.withDefaults, .save⟩) } where
  applied j c hj := by
    rcases PartialMap.update_eq_some_iff.mp hj with ⟨rfl, hc⟩ | ⟨-, hj⟩
    · cases hc
      exact ⟨hs, s, by simp, rfl⟩
    · obtain ⟨hsound, s', hmem, heq⟩ := h.applied j c hj
      exact ⟨hsound, s', by simp [hmem], heq⟩
  written j c hj stage hstage := by
    rcases PartialMap.update_eq_some_iff.mp hj with ⟨rfl, hc⟩ | ⟨-, hj⟩
    · cases hc
      exact absurd hstage (Nat.not_lt_zero _)
    · exact reflects_calls.mpr (h.written j c hj stage hstage)
  alone j c k c' hj hc hk hc' := by
    rcases PartialMap.update_eq_some_iff.mp hj with ⟨-, hnew⟩ | ⟨-, hj⟩
    · cases hnew
      exact absurd rfl hc
    · rcases PartialMap.update_eq_some_iff.mp hk with ⟨-, hnew⟩ | ⟨-, hk⟩
      · cases hnew
        exact absurd rfl hc'
      · exact h.alone j c k c' hj hc hk hc'
  idle hidle := by
    -- the new call has written nothing yet
    have hidle' : ∀ j c, m.calls j = some c → c.stage = .save := by
      intro j c hj
      have hne : j ≠ i := by
        rintro rfl
        cases hfree.symm.trans hj
      exact hidle j c ((Function.update_of_ne hne _ _).trans hj)
    rcases h.idle hidle' with ⟨j, s', hmem, hforce⟩ | hnone
    · exact .inl ⟨j, s', by simp [hmem], fun stage => reflects_calls.mpr (hforce stage)⟩
    · refine .inr fun j s' hmem => ?_
      show Function.update m.calls i _ j ≠ none
      by_cases hji : j = i
      · rw [hji, Function.update_self]
        simp
      · rw [Function.update_of_ne hji]
        simp only [List.mem_append, List.mem_singleton, Action.apply.injEq] at hmem
        rcases hmem with hmem | ⟨heq, -⟩
        · exact hnone j s' hmem
        · exact absurd heq hji

/-- A call that goes on writes its next target. -/
theorem inStep_proceed {hist : List (Action F)} {i : Nat} {s : Settings F} {stage : ApplyStage}
    (h : InStep hist m) (hcall : m.calls i = some ⟨s, stage⟩)
    (hserial : stage = .save → ∀ j c, m.calls j = some c → c.stage = .save) :
    InStep (hist ++ [.proceed i])
      { m.write s stage with
        calls := Function.update m.calls i (stage.next.map fun stage => ⟨s, stage⟩) } := by
  obtain ⟨hsound, s', hmem, hs'⟩ := h.applied i _ hcall
  -- no other call has saved
  have hothers : ∀ j c, j ≠ i → m.calls j = some c → c.stage = .save := by
    intro j c hji hj
    by_contra hc
    by_cases hstage : stage = .save
    · exact hc (hserial hstage j c hj)
    · exact hji (h.alone j c i _ hj hc hcall hstage)
  -- this call has written everything up to this write
  have hwritten : ∀ stage', rank stage' ≤ rank stage → (m.write s stage).Reflects s stage' := by
    intro stage' hle
    by_cases heq : stage' = stage
    · rw [heq]
      exact write_reflects hsound stage
    · have hlt : rank stage' < rank stage :=
        lt_of_le_of_ne hle fun hrank => heq (rank_injective hrank)
      exact (write_reflects_of_ne heq).mpr (h.written i _ hcall stage' hlt)
  refine ⟨fun j c hj => ?_, fun j c hj stage' hlt => ?_, fun j c k c' hj hc hk hc' => ?_,
    fun hidle => ?_⟩
  · rcases PartialMap.update_eq_some_iff.mp hj with ⟨rfl, hnew⟩ | ⟨-, hj⟩
    · obtain ⟨stage', -, rfl⟩ := Option.map_eq_some_iff.mp hnew
      exact ⟨hsound, s', by simp [hmem], hs'⟩
    · obtain ⟨hsound', s'', hmem', heq⟩ := h.applied j c hj
      exact ⟨hsound', s'', by simp [hmem'], heq⟩
  · rcases PartialMap.update_eq_some_iff.mp hj with ⟨rfl, hnew⟩ | ⟨hji, hj⟩
    · obtain ⟨next, hnext, rfl⟩ := Option.map_eq_some_iff.mp hnew
      rw [rank_next hnext] at hlt
      exact reflects_calls.mpr (hwritten stage' (Nat.lt_succ_iff.mp hlt))
    · rw [hothers j c hji hj] at hlt
      exact absurd hlt (Nat.not_lt_zero _)
  · rcases PartialMap.update_eq_some_iff.mp hj with ⟨rfl, -⟩ | ⟨hji, hj⟩
    · rcases PartialMap.update_eq_some_iff.mp hk with ⟨rfl, -⟩ | ⟨hki, hk⟩
      · rfl
      · exact absurd (hothers k c' hki hk) hc'
    · exact absurd (hothers j c hji hj) hc
  · -- the call has returned, since it would have saved otherwise
    have hnext : stage.next = none := by
      cases hnext : stage.next with
      | none => rfl
      | some next =>
        have hsave := hidle i ⟨s, next⟩ (by simp [hnext])
        have hrank := rank_next hnext
        rw [show next = .save from hsave] at hrank
        simp [rank] at hrank
    exact .inl ⟨i, s', by simp [hmem], fun stage' =>
      reflects_calls.mpr (hs' ▸ hwritten stage' (rank_le_of_next_eq_none hnext stage'))⟩

/-- Calls of others write nothing that `Apply` does. -/
theorem inStep_other {hist : List (Action F)} {limiter : Limiter F} {egress : Manager F}
    (h : InStep hist m) (hpacing : limiter.toPacing = m.limiter.toPacing)
    (htuning : egress.toTuning = m.egress.toTuning) :
    InStep (hist ++ [.other limiter egress]) { m with limiter := limiter, egress := egress } := by
  -- reservations and reports change neither the pacing nor the thresholds
  have hreflects : ∀ s stage, m.Reflects s stage →
      ({ m with limiter := limiter, egress := egress } : SettingsManager F).Reflects s stage := by
    intro s stage hreflects
    cases stage with
    | limiter =>
      show limiter.toPacing.rate = _ ∧ limiter.toPacing.burst = _
      rw [hpacing]
      exact hreflects
    | egress =>
      show egress.toTuning.quarantineThreshold = _ ∧ egress.toTuning.circuitThreshold = _
      rw [htuning]
      exact hreflects
    | save => exact hreflects
    | current => exact hreflects
    | runner => exact hreflects
    | engine => exact hreflects
  refine ⟨fun j c hj => ?_, fun j c hj stage hlt => hreflects _ _ (h.written j c hj stage hlt),
    h.alone, fun hidle => ?_⟩
  · obtain ⟨hsound, s', hmem, heq⟩ := h.applied j c hj
    exact ⟨hsound, s', by simp [hmem], heq⟩
  · rcases h.idle hidle with ⟨j, s', hmem, hforce⟩ | hnone
    · exact .inl ⟨j, s', by simp [hmem], fun stage => hreflects _ _ (hforce stage)⟩
    · refine .inr fun j s' hmem => hnone j s' ?_
      simpa using hmem

/-- One step, if calls are serial. -/
theorem step_inStep {hist : List (Action F)} (h : InStep hist m) (hserial : m.Serial a)
    (hstep : m.Step a m') : InStep (hist ++ [a]) m' := by
  rcases step_cases hstep with ⟨i, s, rfl, hfree, ⟨hinvalid, rfl⟩ | ⟨-, rfl⟩⟩ |
    ⟨i, written, s, rfl, -, rfl⟩ | ⟨i, s, stage, rfl, hcall, rfl⟩ |
    ⟨limiter, egress, rfl, hpacing, htuning, rfl⟩
  · exact absurd hserial.1 hinvalid
  · exact inStep_apply h hserial hfree
  · exact absurd hserial id
  · exact inStep_proceed h hcall fun hstage => hserial (by rw [hcall, hstage]; rfl)
  · exact inStep_other h hpacing htuning

/-- When all calls have returned, the store, `Current` and all components have the settings of
    one of them, if all have succeeded with numbers and none has saved while another one was
    between its save and its end. -/
theorem in_step {as : List (Action F)} (hidle : ∀ i, m.calls i = none)
    (hrun : Run (fun m a m' => m.Serial a ∧ m.Step a m') m as m')
    (hreturned : ∀ i, m'.calls i = none) (happlied : ∃ i s, .apply i s ∈ as) :
    ∃ i s, .apply i s ∈ as ∧ m'.InForce s.withDefaults := by
  have hstart : InStep [] m :=
    ⟨fun i c hc => by simp [hidle] at hc, fun i c hc => by simp [hidle] at hc,
      fun i c j c' hc => by simp [hidle] at hc, fun _ => .inr (by simp)⟩
  have hend : InStep as m' := hrun.history hstart fun _ _ _ _ _ hinStep hstep =>
    step_inStep hinStep hstep.1 hstep.2
  rcases hend.idle fun i c hc => by simp [hreturned] at hc with hforce | hnone
  · exact hforce
  · obtain ⟨i, s, hmem⟩ := happlied
    exact absurd (hreturned i) (hnone i s hmem)

/-! ## Scripts -/

/-- The actions of a script, one after the other. -/
def perform (m : SettingsManager F) : List (Action F) → Option (SettingsManager F)
  | [] => some m
  | a :: as => (m.exec a).bind (·.perform as)

/-- A script that can be carried out is a run. -/
theorem run_of_perform {as : List (Action F)} (h : m.perform as = some m') :
    Run Step m as m' := by
  induction as generalizing m with
  | nil =>
    cases h
    exact .nil _
  | cons a as ih =>
    obtain ⟨m₁, hexec, hrest⟩ := Option.bind_eq_some_iff.mp h
    refine .cons ?_ (ih hrest)
    cases a with
    | other limiter egress => cases hexec
    | _ => exact hexec

/-- The call that an action belongs to. -/
def Action.call : Action F → Option Nat
  | .apply i _ | .saveFails i _ | .proceed i => some i
  | .other _ _ => none

/-- A script leaves the calls alone that it does not name. -/
theorem calls_of_perform {as : List (Action F)} {i : Nat} (hi : ∀ a ∈ as, a.call ≠ some i)
    (h : m.perform as = some m') : m'.calls i = m.calls i := by
  refine (run_of_perform h).invariant (P := fun t => t.calls i = m.calls i) rfl ?_
  intro t a t' ha ht hstep
  have hne := hi a ha
  rw [← ht]
  -- a step changes the call that it names and no other
  rcases step_cases hstep with ⟨j, s, rfl, -, ⟨-, rfl⟩ | ⟨-, rfl⟩⟩ | ⟨j, written, s, rfl, -, rfl⟩ |
    ⟨j, s, stage, rfl, -, rfl⟩ | ⟨limiter, egress, rfl, -, -, rfl⟩
  · rfl
  · exact Function.update_of_ne (fun hij => hne (congrArg some hij.symm)) _ _
  · exact Function.update_of_ne (fun hij => hne (congrArg some hij.symm)) _ _
  · exact Function.update_of_ne (fun hij => hne (congrArg some hij.symm)) _ _
  · rfl

/-- The first call saves, the second one runs from its save to its end, and the first one goes
    on: the store has the settings of the second call and everything else those of the first. -/
theorem out_of_step :
    let egress : Manager ℚ := startUp "" "" 0 [] []
    let slow : Settings ℚ := { Settings.default with probeRate := 2 }
    let fast : Settings ℚ := { Settings.default with probeRate := 8 }
    let script : List (Action ℚ) :=
      [.apply 0 slow, .apply 1 fast, .proceed 0] ++ List.replicate 6 (.proceed 1) ++
        List.replicate 5 (.proceed 0)
    ∃ m', Run Step (start {} .notFound none egress) script m' ∧ (∀ i, m'.calls i = none) ∧
      m'.store = some fast ∧ m'.current = slow ∧ m'.limiter.rate = 2 ∧ ∀ s, ¬ m'.InForce s := by
  intro egress slow fast script
  have hperform : ((start {} .notFound none egress).perform script).map
      (fun m => ((m.store, m.current, m.limiter.rate), (m.calls 0).isNone, (m.calls 1).isNone)) =
        some ((some fast, slow, 2), true, true) := by
    decide +kernel
  obtain ⟨m', hm', heq⟩ := Option.map_eq_some_iff.mp hperform
  simp only [Prod.mk.injEq] at heq
  obtain ⟨⟨hstore, hcurrent, hrate⟩, hfirst, hsecond⟩ := heq
  refine ⟨m', run_of_perform hm', fun i => ?_, hstore, hcurrent, hrate, fun s hs => ?_⟩
  · -- only the first two calls are used
    match i with
    | 0 => exact Option.isNone_iff_eq_none.mp hfirst
    | 1 => exact Option.isNone_iff_eq_none.mp hsecond
    | i + 2 =>
      refine calls_of_perform (fun a ha => ?_) hm'
      have hcalls : ∀ c ∈ script.map Action.call, c = some 0 ∨ c = some 1 := by decide +kernel
      rcases hcalls _ (List.mem_map_of_mem ha) with hc | hc <;> simp [hc]
  · have hsave : m'.store = some s := hs .save
    have hcur : m'.current = s := hs .current
    rw [hstore, ← hcur, hcurrent] at hsave
    exact absurd hsave (by decide +kernel)

/-- The next write of a call that is alone. -/
theorem proceed_alone {i : Nat} {s : Settings F} {stage : ApplyStage}
    (h : m.calls = Function.update (fun _ => none) i (some ⟨s, stage⟩)) :
    ∃ m' : SettingsManager F, (m.Serial (.proceed i) ∧ m.Step (.proceed i) m') ∧
      m'.calls = Function.update (fun _ => none) i (stage.next.map fun stage => ⟨s, stage⟩) := by
  have hcall : m.calls i = some ⟨s, stage⟩ := by rw [h, Function.update_self]
  refine ⟨{ m.write s stage with
    calls := Function.update (fun _ => none) i (stage.next.map fun stage => ⟨s, stage⟩) },
    ⟨fun hsave j c hj => ?_, ?_⟩, rfl⟩
  · rw [h] at hj
    rcases PartialMap.update_eq_some_iff.mp hj with ⟨-, hc⟩ | ⟨-, hc⟩
    · cases hc
      simpa [hcall] using hsave
    · cases hc
  · simp [Step, exec, hcall, h]

/-- A call that is alone gets to its end. -/
theorem run_alone {i : Nat} {s : Settings F} {k : Nat} {stage : ApplyStage}
    (hk : rank stage + k = 5)
    (h : m.calls = Function.update (fun _ => none) i (some ⟨s, stage⟩)) :
    ∃ m', Run (fun m a m' => m.Serial a ∧ m.Step a m') m (List.replicate (k + 1) (.proceed i)) m' ∧
      ∀ j, m'.calls j = none := by
  obtain ⟨m₁, hstep, hcalls⟩ := proceed_alone h
  -- by induction on the number of stages that are left
  induction k generalizing m m₁ stage with
  | zero =>
    have hnext : stage.next = none := by
      cases stage <;> first | rfl | cases hk
    refine ⟨m₁, Run.singleton_iff.mpr hstep, fun j => ?_⟩
    rw [hcalls, hnext, Option.map_none, Function.update_eq_self_iff.mpr rfl]
  | succ k ih =>
    obtain ⟨stage', hnext⟩ : ∃ stage', stage.next = some stage' := by
      cases stage <;> first | exact ⟨_, rfl⟩ | (simp [rank] at hk)
    rw [hnext] at hcalls
    obtain ⟨m₂, hstep', hcalls'⟩ := proceed_alone hcalls
    obtain ⟨m', hrun, hreturned⟩ :=
      ih (by rw [rank_next hnext]; omega) hcalls m₂ hstep' hcalls'
    exact ⟨m', .cons hstep hrun, hreturned⟩

/-- One call after start-up. -/
theorem in_step_once :
    let egress : Manager ℚ := startUp "" "" 0 [] []
    let s : Settings ℚ := { Settings.default with probeRate := 2, detectCatchAll := false }
    let as : List (Action ℚ) := .apply 0 s :: List.replicate 6 (.proceed 0)
    ∃ m', Run (fun m a m' => m.Serial a ∧ m.Step a m') (start {} .notFound none egress) as m' ∧
      (∀ i, m'.calls i = none) ∧ m'.InForce s := by
  intro egress s as
  have hsound : Sound s.withDefaults := ⟨by decide +kernel, by decide +kernel, by decide +kernel⟩
  have hdefaults : s.withDefaults = s := by decide +kernel
  have hidle : (start {} .notFound none egress).calls = fun _ => none := rfl
  obtain ⟨m₁, hbegin, hcalls⟩ : ∃ m₁, (start {} .notFound none egress).Step (.apply 0 s) m₁ ∧
      m₁.calls = Function.update (fun _ => none) 0 (some ⟨s.withDefaults, .save⟩) :=
    ⟨{ start {} .notFound none egress with
        calls := Function.update (fun _ => none) 0 (some ⟨s.withDefaults, .save⟩) },
      by simp [Step, exec, hidle, hsound.1], rfl⟩
  -- the six writes of the call
  obtain ⟨m', hrun, hreturned⟩ := run_alone (k := 5) rfl hcalls
  have hall : Run (fun m a m' => m.Serial a ∧ m.Step a m') (start {} .notFound none egress) as m' :=
    .cons ⟨hsound, hbegin⟩ hrun
  obtain ⟨i, s', hmem, hforce⟩ := in_step (fun _ => rfl) hall hreturned ⟨0, s, List.mem_cons_self⟩
  have hs' : s' = s := by
    simp only [as, List.mem_cons, List.mem_replicate, reduceCtorEq, and_false, or_false,
      Action.apply.injEq] at hmem
    exact hmem.2
  rw [hs', hdefaults] at hforce
  exact ⟨m', hall, hreturned, hforce⟩

end SettingsManager

end Rcptto.Native
