import Rcptto.ForStd.Run
import Rcptto.Native.Engine
import Rcptto.Native.Jobs
import Rcptto.Native.Limiter
import Rcptto.Native.Manager

/-!
# Runtime settings

`internal/settings/settings.go`, and the start-up of the settings and the `settingsManager` in
`cmd/rcptto-server/main.go`: the settings come from the environment, from the store and from the
dashboard, and are pushed into the limiter, the runner, the egress manager and the engine.

Rates are `float64` in the source, and the environment and the dashboard can supply any of its
values. Nothing is assumed about the comparisons of their type `F` here, so that `NaN`, which no
comparison accepts, is among them.

Several calls of `Apply` can be under way. Each of their writes is under a lock of its own, so
each is a step of the system.
-/

namespace Rcptto.Native

/-! ## Settings -/

/-- `Settings`. -/
structure Settings (F : Type) where
  probeRate : F
  probeBurst : F
  jobConcurrency : Int
  maxEmailsPerJob : Int
  detectCatchAll : Bool
  quarantineThreshold : Int
  circuitThreshold : Int
  deriving DecidableEq

namespace Settings

variable {F : Type} [OfScientific F]

/-- `MaxProbeRate`. -/
def maxProbeRate : F := 10.0

/-- `MaxProbeBurst`. -/
def maxProbeBurst : F := 50.0

/-- `MaxJobConcurrency`. -/
def maxJobConcurrency : Int := 100

/-- `MaxEmailsPerJobCeiling`. -/
def maxEmailsPerJobCeiling : Int := 1000000

/-- `MaxThreshold`. -/
def maxThreshold : Int := 50

/-- `Default`. -/
def default : Settings F where
  probeRate := 1.0
  probeBurst := 5.0
  jobConcurrency := 10
  maxEmailsPerJob := 100000
  detectCatchAll := true
  quarantineThreshold := 5
  circuitThreshold := 3

variable [LE F] [DecidableLE F]

/-- `WithDefaults`. -/
def withDefaults (s : Settings F) : Settings F where
  probeRate := if s.probeRate ≤ 0.0 then default.probeRate else s.probeRate
  probeBurst := if s.probeBurst ≤ 0.0 then default.probeBurst else s.probeBurst
  jobConcurrency := if s.jobConcurrency ≤ 0 then (default : Settings F).jobConcurrency
    else s.jobConcurrency
  maxEmailsPerJob := if s.maxEmailsPerJob ≤ 0 then (default : Settings F).maxEmailsPerJob
    else s.maxEmailsPerJob
  detectCatchAll := s.detectCatchAll
  quarantineThreshold := if s.quarantineThreshold ≤ 0 then
    (default : Settings F).quarantineThreshold else s.quarantineThreshold
  circuitThreshold := if s.circuitThreshold ≤ 0 then (default : Settings F).circuitThreshold
    else s.circuitThreshold

variable [LT F] [DecidableLT F]

/-- `Validate`; the error is its text, which starts with that of `ErrInvalid`. -/
def validate (s : Settings F) : Except String Unit :=
  if s.probeRate ≤ 0.0 then .error "invalid setting: probe rate must be greater than zero"
  else if s.probeRate > maxProbeRate then
    .error "invalid setting: probe rate above 10/second per destination risks being blocked"
  else if s.probeBurst ≤ 0.0 then
    .error "invalid setting: probe burst must be greater than zero"
  else if s.probeBurst > maxProbeBurst then
    .error "invalid setting: probe burst above 50 risks being blocked"
  else if s.jobConcurrency < 1 then
    .error "invalid setting: job concurrency must be at least 1"
  else if s.jobConcurrency > maxJobConcurrency then
    .error "invalid setting: job concurrency above 100 is not supported"
  else if s.maxEmailsPerJob < 1 then
    .error "invalid setting: maximum addresses per job must be at least 1"
  else if s.maxEmailsPerJob > maxEmailsPerJobCeiling then
    .error "invalid setting: maximum addresses per job above 1000000 is not supported"
  else if s.quarantineThreshold < 1 ∨ s.quarantineThreshold > maxThreshold then
    .error "invalid setting: quarantine threshold must be between 1 and 50"
  else if s.circuitThreshold < 1 ∨ s.circuitThreshold > maxThreshold then
    .error "invalid setting: circuit-breaker threshold must be between 1 and 50"
  else .ok ()

end Settings

/-! ## The settings manager -/

/-- The writes of `Apply`, in their order. -/
inductive ApplyStage where
  | save
  | current
  | limiter
  | runner
  | egress
  | engine
  deriving DecidableEq

/-- The write that comes after this one. -/
def ApplyStage.next : ApplyStage → Option ApplyStage
  | save => some current
  | current => some limiter
  | limiter => some runner
  | runner => some egress
  | egress => some engine
  | engine => none

/-- What `SaveSettings` comes to. If it returns an error, the row may have been written
    nevertheless. -/
inductive SaveOutcome where
  | saved
  | failed (err : String) (written : Bool)
  deriving DecidableEq

/-- A call of `Apply` that has passed `Validate`: its settings and the write it has come to. -/
structure ApplyCall (F : Type) where
  settings : Settings F
  stage : ApplyStage

/-- `settingsManager` with the components it holds, the settings in the store, and the calls of
    `Apply` that are under way. -/
structure SettingsManager (F : Type) where
  current : Settings F
  store : Option (Settings F)
  limiter : Limiter F
  runner : Runner
  egress : Manager F
  engine : Engine.Config
  calls : Nat → Option (ApplyCall F)

namespace SettingsManager

variable {F : Type} [OfScientific F] [LT F] [DecidableLT F]

/-- One write of `Apply`. -/
def write (m : SettingsManager F) (s : Settings F) : ApplyStage → SettingsManager F
  | .save => { m with store := some s }
  | .current => { m with current := s }
  | .limiter => { m with limiter := m.limiter.setRate s.probeRate s.probeBurst }
  | .runner => { m with runner := m.runner.setLimits s.jobConcurrency s.maxEmailsPerJob }
  | .egress => { m with egress := m.egress.setThresholds s.quarantineThreshold s.circuitThreshold }
  | .engine => { m with engine := m.engine.setDetectCatchAll s.detectCatchAll }

/-- `activate`. -/
def activate (m : SettingsManager F) (s : Settings F) : SettingsManager F :=
  [.current, .limiter, .runner, .egress, .engine].foldl (·.write s) m

/-- What happens to a settings manager: a call of `Apply` begins, a save fails (the row may have
    been written nevertheless), a call does its next write, or the limiter and the egress manager
    are called by others. -/
inductive Action (F : Type) where
  | apply (i : Nat) (s : Settings F)
  | saveFails (i : Nat) (written : Bool)
  | proceed (i : Nat)
  | other (limiter : Limiter F) (egress : Manager F)

variable [LE F] [DecidableLE F]

/-- `Apply`, for a call that is alone: its error, if there is one, and the manager afterwards. -/
def apply (m : SettingsManager F) (s : Settings F) (save : SaveOutcome) :
    Except String Unit × SettingsManager F :=
  let s := s.withDefaults
  -- the defaults are filled in before anything is validated
  match s.validate with
  | .error err => (.error err, m)
  | .ok _ =>
    match save with
    | .failed err written =>
      (.error ("could not save settings: " ++ err),
        { m with store := if written then some s else m.store })
    | .saved => (.ok (), (m.write s .save).activate s)

/-- The steps of `Apply`; a call that `Validate` refuses returns at once. -/
def exec (m : SettingsManager F) : Action F → Option (SettingsManager F)
  | .apply i s =>
    match m.calls i with
    | some _ => none
    | none =>
      match s.withDefaults.validate with
      | .error _ => some m
      | .ok _ => some { m with calls := Function.update m.calls i (some ⟨s.withDefaults, .save⟩) }
  | .saveFails i written =>
    match m.calls i with
    -- only the save can fail, and with it nothing is activated
    | some ⟨s, .save⟩ => some { m with
        store := if written then some s else m.store
        calls := Function.update m.calls i none }
    | _ => none
  | .proceed i =>
    match m.calls i with
    | some ⟨s, stage⟩ => some { m.write s stage with
        calls := Function.update m.calls i (stage.next.map fun stage => ⟨s, stage⟩) }
    | none => none
  | .other _ _ => none

/-- One step. The other calls of the limiter and of the egress manager leave alone what the
    settings determine. -/
def Step (m : SettingsManager F) (a : Action F) (m' : SettingsManager F) : Prop :=
  match a with
  | .other limiter egress =>
    limiter.toPacing = m.limiter.toPacing ∧ egress.toTuning = m.egress.toTuning ∧
      m' = { m with limiter := limiter, egress := egress }
  | a => m.exec a = some m'

end SettingsManager

/-! ## Start-up -/

/-- The environment of the server: the values of `RCPTTO_PROBE_RATE` and `RCPTTO_PROBE_BURST`
    if they are set to numbers, and the others. -/
structure Environment (F : Type) where
  probeRate : Option F := none
  probeBurst : Option F := none
  detectCatchAll : Bool := true
  helo : String := ""
  mailFrom : String := ""

/-- What `LoadSettings` returns. -/
inductive Loaded (F : Type) where
  | failed
  | notFound
  | found (s : Settings F)

section StartUp

variable {F : Type} [OfScientific F] [LE F] [DecidableLE F]

/-- `getenvFloat`. -/
def getenvFloat (value : Option F) (default : F) : F :=
  match value with
  | none => default
  | some f => if f ≤ 0.0 then default else f

/-- The settings of the environment: the starting point of `run`. -/
def Environment.settings (env : Environment F) : Settings F :=
  let current := (Settings.default : Settings F).withDefaults
  { current with
    probeRate := getenvFloat env.probeRate current.probeRate
    probeBurst := getenvFloat env.probeBurst current.probeBurst
    detectCatchAll := env.detectCatchAll }

/-- The settings that `run` activates. -/
def Environment.started (env : Environment F) : Loaded F → Settings F
  | .found saved => saved.withDefaults
  | _ => env.settings

/-- The limiter as `run` creates it. -/
def Environment.limiter (env : Environment F) : Limiter F :=
  Limiter.new { rate := getenvFloat env.probeRate 1.0, burst := getenvFloat env.probeBurst 5.0 }

variable [LT F] [DecidableLT F]

/-- The settings manager at the end of start-up; `store` is what is in the store. -/
def SettingsManager.start (env : Environment F) (loaded : Loaded F) (store : Option (Settings F))
    (egress : Manager F) : SettingsManager F :=
  let m : SettingsManager F :=
    { current := env.started loaded
      store := store
      limiter := env.limiter
      runner := Runner.new 0 0
      egress := egress
      engine := Engine.new
        { helo := env.helo, mailFrom := env.mailFrom, detectCatchAll := env.detectCatchAll }
      calls := fun _ => none }
  m.activate m.current

end StartUp

end Rcptto.Native
