import Rcptto.Spec.Settings

/-!
# Applying settings

`Apply` fills in defaults before it validates, so that a value of zero or below, which `Validate`
refuses, never gets there: it is replaced, and the call succeeds. Everything else about a call is
as it should be: an error leaves the settings in force alone, and a success installs what was
validated.

## Key results

- `SettingsManager.perform_script`: `Apply` as a run of its steps
- `Settings.withDefaults_eq_self_iff`: which settings are left as they are
- `SettingsManager.applies_exactly_iff`: when `Apply` refuses or installs exactly
-/

namespace Rcptto.Native

variable {F : Type} [OfScientific F] [LT F] [DecidableLT F] [LE F] [DecidableLE F]

/-! ## Defaults -/

namespace Settings

variable {s : Settings F}

/-- No number is zero or below. -/
structure Complete (s : Settings F) : Prop where
  probeRate : ¬ s.probeRate ≤ 0.0
  probeBurst : ¬ s.probeBurst ≤ 0.0
  jobConcurrency : 0 < s.jobConcurrency
  maxEmailsPerJob : 0 < s.maxEmailsPerJob
  quarantineThreshold : 0 < s.quarantineThreshold
  circuitThreshold : 0 < s.circuitThreshold

/-- `Validate` refuses what is not complete. -/
theorem complete_of_validate (h : s.validate = .ok ()) : s.Complete := by
  obtain ⟨hrate, hburst, hjobs, hemails, hquarantine, hcircuit⟩ := validate_eq_ok_iff.mp h
  exact ⟨hrate.1, hburst.1, hjobs.1, hemails.1, hquarantine.1, hcircuit.1⟩

omit [LT F] [DecidableLT F] in
/-- Complete settings have no defaults to fill in. -/
theorem Complete.withDefaults_eq (h : s.Complete) : s.withDefaults = s := by
  have hjobs := h.jobConcurrency
  have hemails := h.maxEmailsPerJob
  have hquarantine := h.quarantineThreshold
  have hcircuit := h.circuitThreshold
  rw [withDefaults, if_neg h.probeRate, if_neg h.probeBurst, if_neg (by omega), if_neg (by omega),
    if_neg (by omega), if_neg (by omega)]

/-- Of the settings that pass `Validate` with defaults filled in, those without a default are the
    ones that pass by themselves. -/
theorem withDefaults_eq_self_iff (h : s.withDefaults.validate = .ok ()) :
    s.withDefaults = s ↔ s.Complete := by
  constructor
  · intro heq
    rw [heq] at h
    exact complete_of_validate h
  · exact Complete.withDefaults_eq

end Settings

namespace SettingsManager

variable {m : SettingsManager F} {s : Settings F} {save : SaveOutcome}

/-! ## What a call does -/

/-- What `Apply` does: it refuses the settings, does not get them saved, or installs them. -/
theorem apply_cases (m : SettingsManager F) (s : Settings F) (save : SaveOutcome) :
    (∃ err, s.withDefaults.validate = .error err ∧ m.apply s save = (.error err, m)) ∨
    (∃ err written, s.withDefaults.validate = .ok () ∧ save = .failed err written ∧
      m.apply s save = (.error ("could not save settings: " ++ err),
        { m with store := if written then some s.withDefaults else m.store })) ∨
    s.withDefaults.validate = .ok () ∧ save = .saved ∧
      m.apply s save = (.ok (), (m.write s.withDefaults .save).activate s.withDefaults) := by
  unfold apply
  dsimp only
  cases hvalid : s.withDefaults.validate with
  | error err => exact .inl ⟨err, rfl, rfl⟩
  | ok _ =>
    cases save with
    | failed err written => exact .inr (.inl ⟨err, written, rfl, rfl, rfl⟩)
    | saved => exact .inr (.inr ⟨rfl, rfl, rfl⟩)

/-- The steps of a call that is alone. -/
def script (i : Nat) (s : Settings F) (save : SaveOutcome) : List (Action F) :=
  .apply i s ::
    match s.withDefaults.validate, save with
    | .error _, _ => []
    | .ok _, .failed _ written => [.saveFails i written]
    | .ok _, .saved => List.replicate 6 (.proceed i)

/-- `Apply` is what its steps come to if no other call is in between. -/
theorem perform_script {i : Nat} (h : m.calls i = none) :
    m.perform (script i s save) = some (m.apply s save).2 := by
  have hcalls : Function.update m.calls i none = m.calls := by
    rw [← h, Function.update_eq_self]
  -- the settings are refused, the save fails, or all stages follow
  rcases apply_cases m s save with ⟨err, hvalid, happly⟩ | ⟨err, written, hvalid, rfl, happly⟩ |
    ⟨hvalid, rfl, happly⟩
  · simp only [script, perform, exec, h, hvalid, happly, Option.bind_some]
  · simp only [script, perform, exec, h, hvalid, happly, Option.bind_some, Function.update_self,
      Function.update_idem, hcalls]
  · simp only [script, perform, exec, h, hvalid, happly, Option.bind_some, List.replicate,
      ApplyStage.next, Option.map_some, Option.map_none, Function.update_self,
      Function.update_idem, write, activate, List.foldl_cons, List.foldl_nil, hcalls]

/-- What was validated is in force after a success, if the rate and the burst are numbers. -/
theorem activate_inForce (hs : Sound s) : ((m.write s .save).activate s).InForce s := by
  intro stage
  have hreflects : (m.write s stage).Reflects s stage := write_reflects hs stage
  -- the other writes leave this component alone
  cases stage <;> exact hreflects

/-! ## Exactness -/

/-- The call succeeds if and only if the settings are valid and get saved. Then they are in the
    store and current as they were submitted. An error changes nothing but the store, and that
    only if the row was written nevertheless. -/
structure AppliesExactly (m : SettingsManager F) (s : Settings F) (save : SaveOutcome) : Prop where
  succeeds : (m.apply s save).1 = .ok () ↔ s.validate = .ok () ∧ save = .saved
  installs : (m.apply s save).1 = .ok () →
    (m.apply s save).2.store = some s ∧ (m.apply s save).2.current = s
  refuses : ∀ err, (m.apply s save).1 = .error err →
    (m.apply s save).2 = { m with store := (m.apply s save).2.store } ∧
    ((m.apply s save).2.store = m.store ∨
      s.withDefaults.validate = .ok () ∧ ∃ err, save = .failed err true)

/-- Settings that are refused are not applied at all. -/
theorem appliesExactly_of_refused {err : String} (h : s.withDefaults.validate = .error err)
    (happly : m.apply s save = (.error err, m)) : m.AppliesExactly s save := by
  have hinvalid : s.validate ≠ .ok () := by
    intro hvalid
    rw [(Settings.complete_of_validate hvalid).withDefaults_eq, hvalid] at h
    cases h
  refine ⟨?_, ?_, ?_⟩ <;> rw [happly]
  · simp [hinvalid]
  · simp
  · exact fun _ _ => ⟨rfl, .inl rfl⟩

/-- If the save fails, nothing but the store may have changed. -/
theorem appliesExactly_of_failed {err err' : String} {written : Bool}
    (h : s.withDefaults.validate = .ok ())
    (happly : m.apply s (.failed err written) =
      (.error err', { m with store := if written then some s.withDefaults else m.store })) :
    m.AppliesExactly s (.failed err written) := by
  refine ⟨?_, ?_, ?_⟩ <;> rw [happly]
  · simp
  · simp
  · refine fun _ _ => ⟨rfl, ?_⟩
    cases written with
    | true => exact .inr ⟨h, err, rfl⟩
    | false => exact .inl rfl

/-- Settings that get saved are the ones that were submitted if and only if they are complete. -/
theorem appliesExactly_saved_iff (h : s.withDefaults.validate = .ok ())
    (happly : m.apply s .saved =
      (.ok (), (m.write s.withDefaults .save).activate s.withDefaults)) :
    m.AppliesExactly s .saved ↔ s.Complete := by
  constructor
  · -- what is in the store has its defaults filled in
    intro hexact
    have hstore := (hexact.installs (by rw [happly])).1
    rw [happly] at hstore
    exact (Settings.withDefaults_eq_self_iff h).mp (Option.some.inj hstore)
  · intro hcomplete
    rw [hcomplete.withDefaults_eq] at h happly
    refine ⟨?_, ?_, ?_⟩ <;> rw [happly]
    · simp [h]
    · exact fun _ => ⟨rfl, rfl⟩
    · simp

/-- `Apply` refuses or installs exactly, unless it succeeds with settings that are not complete.
    On success, complete settings whose rate and burst are numbers are in force in all
    components. -/
theorem applies_exactly_iff (m : SettingsManager F) (s : Settings F) (save : SaveOutcome) :
    (m.AppliesExactly s save ↔
      (s.withDefaults.validate = .ok () → save = .saved → s.Complete)) ∧
    ((m.apply s save).1 = .ok () → s.Complete → s.probeRate > 0.0 → s.probeBurst > 0.0 →
      (m.apply s save).2.InForce s) := by
  -- the settings are refused, the save fails, or they are applied
  rcases apply_cases m s save with ⟨err, hvalid, happly⟩ | ⟨err, written, hvalid, rfl, happly⟩ |
    ⟨hvalid, rfl, happly⟩
  · refine ⟨iff_of_true (appliesExactly_of_refused hvalid happly) ?_, ?_⟩
    · simp [hvalid]
    · simp [happly]
  · refine ⟨iff_of_true (appliesExactly_of_failed hvalid happly) ?_, ?_⟩
    · simp
    · simp [happly]
  · refine ⟨?_, fun _ hcomplete hrate hburst => ?_⟩
    · rw [appliesExactly_saved_iff hvalid happly]
      simp [hvalid]
    · rw [hcomplete.withDefaults_eq] at hvalid happly
      rw [happly]
      exact activate_inForce ⟨hvalid, hrate, hburst⟩

/-- The server as it starts without settings in the store. -/
def started : SettingsManager ℚ := start {} .notFound none (startUp "" "" 0 [] [])

/-- A faster rate is installed as it is. -/
theorem applies_exactly_faster :
    let s : Settings ℚ := { Settings.default with probeRate := 2 }
    started.AppliesExactly s .saved ∧ (started.apply s .saved).2.InForce s := by
  intro s
  have hcomplete : s.Complete := Settings.complete_of_validate (by decide +kernel)
  exact ⟨(applies_exactly_iff started s .saved).1.mpr fun _ _ => hcomplete,
    (applies_exactly_iff started s .saved).2 (by decide +kernel) hcomplete (by decide +kernel)
      (by decide +kernel)⟩

/-- A rate of zero is not valid. The call succeeds, and a rate of one is installed. -/
theorem zero_replaced :
    let s : Settings ℚ := { Settings.default with probeRate := 0 }
    s.validate = .error "invalid setting: probe rate must be greater than zero" ∧
      (started.apply s .saved).1 = .ok () ∧
      (started.apply s .saved).2.store = some Settings.default ∧
      (started.apply s .saved).2.limiter.rate = 1 := by
  decide +kernel

end SettingsManager

end Rcptto.Native
