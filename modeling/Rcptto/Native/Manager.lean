import Rcptto.ForStd.OrderedMap
import Rcptto.Native.Health

/-!
# The egress manager

`internal/egress/manager.go`: the pool of sending identities with its reputation
state, and the operations on it. Each operation holds the manager's lock for its
whole duration, so it is one atomic function here; an operation that reads the
clock takes the reading `now` as an argument.

`Binding` indexes the warm-up table with a stored stage and would panic on a
negative one. A panic is `none`, so `Manager.binding` and its helpers return
an `Option`; that no reachable manager panics is a theorem, not an assumption.

The `records` map and the `order` slice are one `OrderedMap`, whose fields say that
the slice lists exactly the keys of the map and that each record is filed under its
own `spec.ID`.
-/

namespace Rcptto.Native

/-- `dailyResetInterval`. -/
def dailyResetInterval : Int := 24 * hour

/-! ## Records -/

/-- `record`: one identity with its lifecycle and reputation state. -/
structure Record (F : Type) where
  spec : Spec
  state : State
  warmupStage : Int
  usedToday : Int
  lastReset : Int
  online : Bool
  blockStreak : Int
  quarantinedUntil : Int
  quarantineReason : String
  health : String → Option (Health F)
  circuits : String → Option Circuit

/-- The tuning fields of `Manager`, as `New` normalises them. -/
structure Tuning (F : Type) where
  alpha : F
  circuitThreshold : Int
  circuitCooldown : Int
  quarantineThreshold : Int
  quarantineCooldown : Int
  warmupStages : List Int
  activeDailyCap : Int

namespace Record

variable {F : Type}

/-- The key under which a record is filed. -/
def id (r : Record F) : String := r.spec.id

/-- The record that `New` and `AddIdentity` create. -/
def fresh (spec : Spec) (now : Int) : Record F where
  spec := spec
  state := if spec.warmUp then .warming else .active
  warmupStage := 0
  usedToday := 0
  lastReset := now
  online := true
  blockStreak := 0
  quarantinedUntil := 0
  quarantineReason := ""
  health _ := none
  circuits _ := none

/-- `healthFor(dest)` followed by an update of the score it returns. -/
def updateHealth [OfScientific F] (r : Record F) (dest : String) (f : Health F → Health F) :
    Record F :=
  { r with health := Function.update r.health dest (some (f ((r.health dest).getD .newHealth))) }

/-- `circuitFor(dest)` followed by an update of the breaker it returns. -/
def updateCircuit (r : Record F) (dest : String) (f : Circuit → Circuit) : Record F :=
  { r with circuits := Function.update r.circuits dest (some (f ((r.circuits dest).getD {}))) }

/-- `score(dest)`; unproven identities are optimistically eligible. -/
def score [OfScientific F] (r : Record F) (dest : String) : F :=
  match r.health dest with
  | some h => h.score
  | none => 1.0

/-- The body of the loop of `Emit`, for a record the signal belongs to. -/
def applySignal [Add F] [Sub F] [Mul F] [OfScientific F] (r : Record F) (t : Tuning F)
    (now : Int) (sig : Signal) : Record F :=
  let dest := sig.destination
  match sig.kind with
  -- the server has answered, so the identity is in good standing whatever it said of the mailbox
  | .accepted | .mailboxGone =>
    let r := r.updateHealth dest (·.observe true t.alpha)
    let r := r.updateCircuit dest (·.onSuccess)
    { r with blockStreak := 0 }
  -- greylisting weighs half, and is no failure of the destination
  | .tempFail => r.updateHealth dest (·.observe false (t.alpha * 0.5))
  | .blocked =>
    let r := r.updateHealth dest (·.observe false t.alpha)
    let r := r.updateCircuit dest (·.onFailure now t.circuitThreshold t.circuitCooldown)
    let r := { r with blockStreak := r.blockStreak + 1 }
    -- the streak counts over all destinations
    if r.blockStreak ≥ t.quarantineThreshold then
      { r with state := .quarantined, quarantinedUntil := now + t.quarantineCooldown }
    else r
  | .connRefused | .timeout =>
    let r := r.updateHealth dest (·.observe false (t.alpha * 0.5))
    r.updateCircuit dest (·.onFailure now t.circuitThreshold t.circuitCooldown)
  | .other _ _ => r

/-- The record update of `Enable`. -/
def enable (r : Record F) : Record F :=
  { r with state := .warming, warmupStage := 0, blockStreak := 0, quarantineReason := "" }

/-- The record update of `Disable`. -/
def disable (r : Record F) (reason : String) : Record F :=
  { r with state := .disabled, quarantineReason := reason }

/-- The record update of `Quarantine`. -/
def quarantine (r : Record F) (quarantinedUntil : Int) (reason : String) : Record F :=
  { r with state := .quarantined, quarantinedUntil := quarantinedUntil, quarantineReason := reason }

/-- `rec.usedToday++`. -/
def charge (r : Record F) : Record F := { r with usedToday := r.usedToday + 1 }

def setCircuits (r : Record F) (circuits : String → Option Circuit) : Record F :=
  { r with circuits := circuits }

def setOnline (r : Record F) (online : Bool) : Record F := { r with online := online }

def setSpec (r : Record F) (spec : Spec) : Record F := { r with spec := spec }

/-! ### Reconciliation -/

/-- The first half of the loop body of `reconcileLocked`: an expired quarantine
    re-enters warming, never straight to active. -/
def expire (r : Record F) (now : Int) : Record F :=
  if r.state = .quarantined ∧ now > r.quarantinedUntil then
    { r with state := .warming, warmupStage := 0, blockStreak := 0 }
  else r

/-- The body of the daily-reset loop, for a warm-up table of `stages` entries. -/
def dailyReset (r : Record F) (stages : Nat) : Record F :=
  let r := { r with usedToday := 0, lastReset := r.lastReset + dailyResetInterval }
  if r.state = .warming then
    -- the ramp ends behind the last stage of the table
    let r := { r with warmupStage := r.warmupStage + 1 }
    if (stages : Int) ≤ r.warmupStage then { r with state := .active } else r
  else r

/-- `for now.Sub(rec.lastReset) >= dailyResetInterval`, with a bound on the number of
    iterations. -/
def dailyResets (stages : Nat) (now : Int) : Nat → Record F → Record F
  | 0, r => r
  | n + 1, r =>
    if now - r.lastReset ≥ dailyResetInterval then
      dailyResets stages now n (r.dailyReset stages)
    else r

/-- The number of iterations of the daily-reset loop: each one moves `lastReset`
    forward by one interval. -/
def pendingResets (r : Record F) (now : Int) : Nat :=
  ((now - r.lastReset) / dailyResetInterval).toNat

/-- The loop body of `reconcileLocked`. -/
def reconcile (r : Record F) (stages : Nat) (now : Int) : Record F :=
  let r := r.expire now
  dailyResets stages now (r.pendingResets now) r

/-! ### Eligibility -/

/-- `if c := rec.circuits[dest]; c != nil && !c.allow(now)`: the answer of the
    breaker of `dest`, if there is one, and the record afterwards. -/
def allow (r : Record F) (dest : String) (now : Int) : Bool × Record F :=
  match r.circuits dest with
  | none => (true, r)
  | some c =>
    ((c.allow now).1, { r with circuits := Function.update r.circuits dest (c.allow now).2 })

/-- `stages[i]`, which panics outside the slice. -/
def stageAt (stages : List Int) (i : Int) : Option Int :=
  if i < 0 then none else stages[i.toNat]?

/-- `capFor`; a cap of zero means unlimited. -/
def capFor (t : Tuning F) (r : Record F) : Option Int :=
  if r.state = .warming then
    let len : Int := t.warmupStages.length
    -- a stage behind the table is clamped, one before it is not
    let stage := if r.warmupStage ≥ len then len - 1 else r.warmupStage
    stageAt t.warmupStages stage
  else some t.activeDailyCap

/-- `eligibleLocked`: whether the identity may probe `dest` now, and the record
    afterwards, since asking the breaker can move it to half-open. -/
def eligibleLocked (t : Tuning F) (r : Record F) (dest : String) (now : Int) :
    Option (Bool × Record F) :=
  if r.state = .disabled ∨ r.state = .quarantined then some (false, r)
  else if !r.online then some (false, r)
  else
    -- the breaker is asked before the cap, and may become half-open in vain
    let (ok, r) := r.allow dest now
    if !ok then some (false, r)
    else
      match capFor t r with
      | none => none
      | some limit => some (!(limit > 0 && r.usedToday ≥ limit), r)

/-! ### Persistence -/

/-- The entry of `Snapshot` for one record. Breakers, sample counts and
    reachability are not persisted. -/
def toEgressState (r : Record F) : EgressState F where
  id := r.id
  state := r.state.toString
  warmupStage := r.warmupStage
  usedToday := r.usedToday
  lastReset := r.lastReset
  blockStreak := r.blockStreak
  quarantinedUntil := r.quarantinedUntil
  quarantineReason := r.quarantineReason
  health dest := (r.health dest).map (·.score)

/-- The record update of `Restore`: scores are written over those already there, and
    an unset `LastReset` is not taken. -/
def restore (r : Record F) (st : EgressState F) : Record F :=
  { r with
    state := .ofString st.state
    warmupStage := st.warmupStage
    usedToday := st.usedToday
    blockStreak := st.blockStreak
    quarantinedUntil := st.quarantinedUntil
    quarantineReason := st.quarantineReason
    -- zero stands for the zero time of a row that has none
    lastReset := if st.lastReset ≠ 0 then st.lastReset else r.lastReset
    health := fun dest =>
      match st.health dest with
      | some score => some { score := score, samples := 0 }
      | none => r.health dest }

/-! ### The record updates keep the key -/

section Id

variable (r : Record F)

@[simp] theorem id_fresh (spec : Spec) (now : Int) : (fresh spec now : Record F).id = spec.id := rfl

/-- A signal keeps the identity. -/
@[simp] theorem id_applySignal [Add F] [Sub F] [Mul F] [OfScientific F] (t : Tuning F) (now : Int)
    (sig : Signal) : (r.applySignal t now sig).id = r.id := by
  unfold applySignal
  cases sig.kind with
  | blocked => dsimp only; split <;> rfl
  | _ => rfl

@[simp] theorem id_enable : r.enable.id = r.id := rfl

@[simp] theorem id_disable (reason : String) : (r.disable reason).id = r.id := rfl

@[simp] theorem id_quarantine (till : Int) (reason : String) :
    (r.quarantine till reason).id = r.id := rfl

@[simp] theorem id_charge : r.charge.id = r.id := rfl

@[simp] theorem id_setCircuits (circuits : String → Option Circuit) :
    (r.setCircuits circuits).id = r.id := rfl

@[simp] theorem id_setOnline (online : Bool) : (r.setOnline online).id = r.id := rfl

@[simp] theorem id_setSpec (spec : Spec) : (r.setSpec spec).id = spec.id := rfl

@[simp] theorem id_expire (now : Int) : (r.expire now).id = r.id := by
  unfold expire; split <;> rfl

@[simp] theorem id_dailyReset (stages : Nat) : (r.dailyReset stages).id = r.id := by
  simp only [dailyReset, apply_ite Record.id]
  simp only [id, ite_self]

/-- Any number of daily resets keep the identity. -/
@[simp] theorem id_dailyResets (stages : Nat) (now : Int) (n : Nat) :
    (dailyResets stages now n r).id = r.id := by
  induction n generalizing r with
  | zero => rfl
  | succ n ih =>
    unfold dailyResets
    split
    · rw [ih, id_dailyReset]
    · rfl

@[simp] theorem id_reconcile (stages : Nat) (now : Int) : (r.reconcile stages now).id = r.id := by
  simp [reconcile]

@[simp] theorem id_restore (st : EgressState F) : (r.restore st).id = r.id := rfl

end Id

end Record

/-! ## The manager -/

/-- The records of a manager, in registration order. -/
abbrev Pool (F : Type) := OrderedMap String (Record F) Record.id

/-- `Config`: the initial pool and the tuning, where zero values fall back to the
    defaults. The clock and the store are not part of the model's state. -/
structure Config (F : Type) where
  identities : List Spec
  healthAlpha : F
  circuitThreshold : Int := 0
  circuitCooldown : Int := 0
  quarantineThreshold : Int := 0
  quarantineCooldown : Int := 0
  warmupStages : List Int := []
  activeDailyCap : Int := 0

/-- `Manager`: the tuning, the pool, and whether it changed since the last write. -/
structure Manager (F : Type) extends Tuning F where
  pool : Pool F
  dirty : Bool

/-- The binding that `Binding` builds from the spec of the chosen record. -/
def Spec.toBinding (spec : Spec) : Binding where
  id := spec.id
  helo := spec.helo
  mailFrom := spec.mailFrom
  transport := spec.transport

/-- `destOf`: the provider class for known providers, otherwise the domain. -/
def destOf (t : Task) : String :=
  if t.provider ≠ "" ∧ t.provider ≠ "custom" then t.provider else t.domain

namespace Manager

variable {F : Type}

/-- The record of an identity, `m.records[id]`. -/
abbrev get? (m : Manager F) (id : String) : Option (Record F) := m.pool.get? id

section New

variable [OfScientific F] [LinearOrder F]

/-- The defaulting at the start of `New`. -/
def tuningOf (cfg : Config F) : Tuning F where
  alpha := if cfg.healthAlpha ≤ 0.0 ∨ cfg.healthAlpha > 1.0 then 0.3 else cfg.healthAlpha
  circuitThreshold := if cfg.circuitThreshold ≤ 0 then 3 else cfg.circuitThreshold
  circuitCooldown :=
    if cfg.circuitCooldown ≤ 0 then 15 * minute else cfg.circuitCooldown
  quarantineThreshold := if cfg.quarantineThreshold ≤ 0 then 5 else cfg.quarantineThreshold
  quarantineCooldown :=
    if cfg.quarantineCooldown ≤ 0 then hour else cfg.quarantineCooldown
  warmupStages := if cfg.warmupStages = [] then [50, 200, 1000, 5000] else cfg.warmupStages
  activeDailyCap := cfg.activeDailyCap

/-- `New`: the pool is seeded in configuration order. -/
def new (cfg : Config F) (start : Int) : Manager F where
  toTuning := tuningOf cfg
  pool := cfg.identities.foldl (fun pool spec => pool.push (.fresh spec start)) .empty
  dirty := false

end New

/-- `reconcileLocked`: daily resets, warm-up ramping and quarantine expiry. -/
def reconcileLocked (m : Manager F) (now : Int) : Manager F :=
  { m with
    pool := m.pool.mapInOrder (·.reconcile m.warmupStages.length now)
      fun r => r.id_reconcile _ _ }

section Selection

variable [OfScientific F] [LinearOrder F]

/-- `best == nil || score > bestScore || (score == bestScore && rec.usedToday <
    best.usedToday)`. -/
def improves (best : Option (Record F × F)) (r : Record F) (score : F) : Bool :=
  match best with
  | none => true
  | some (b, bestScore) =>
    score > bestScore || (score = bestScore && r.usedToday < b.usedToday)

/-- The loop of `selectLocked` over the rest of the registration order. It returns the
    pool as the breakers leave it, and the best record with its score. -/
def selectLoop (t : Tuning F) (dest : String) (now : Int) :
    List String → Pool F → Option (Record F × F) → Option (Pool F × Option (Record F × F))
  | [], pool, best => some (pool, best)
  | id :: ids, pool, best =>
    match pool.get? id with
    | none => none
    | some r =>
      match r.eligibleLocked t dest now with
      | none => none
      | some (ok, r') =>
        let pool := pool.modify id (·.setCircuits r'.circuits)
          fun r h => (r.id_setCircuits _).trans h
        let score := r'.score dest
        -- a tie goes to the identity that was used less, and then to the earlier one
        if ok && improves best r' score then selectLoop t dest now ids pool (some (r', score))
        else selectLoop t dest now ids pool best

/-- `selectLocked`. -/
def selectLocked (m : Manager F) (dest : String) (now : Int) :
    Option (Pool F × Option (Record F × F)) :=
  selectLoop m.toTuning dest now m.pool.order m.pool none

/-- `Binding`: reconcile, select the best eligible identity for the destination of
    the task, and charge it one probe. -/
def binding (m : Manager F) (now : Int) (t : Task) :
    Option (Manager F × Except EgressError Binding) :=
  let m := m.reconcileLocked now
  match m.selectLocked (destOf t) now with
  | none => none
  -- the breakers that were asked keep their answer, but nothing is marked as changed
  | some (pool, none) => some ({ m with pool := pool }, .error .errNoEgress)
  | some (pool, some (best, _)) =>
    some
      ({ m with
          pool := pool.modify best.id (·.charge) fun r h => r.id_charge.trans h
          dirty := true },
        .ok best.spec.toBinding)

end Selection

section Emit

variable [Add F] [Sub F] [Mul F] [OfScientific F]

/-- The loop body of `Emit`; a signal of an unknown identity is skipped. -/
def emitSignal (m : Manager F) (now : Int) (sig : Signal) : Manager F :=
  match m.get? sig.egressID with
  | none => m
  | some _ =>
    { m with
      pool := m.pool.modify sig.egressID (·.applySignal m.toTuning now sig)
        fun r h => (r.id_applySignal _ _ _).trans h
      dirty := true }

/-- `Emit`. -/
def emit (m : Manager F) (now : Int) (signals : List Signal) : Manager F :=
  signals.foldl (fun m sig => m.emitSignal now sig) m

end Emit

/-- `Enable`: back to warming, never straight to active. -/
def enable (m : Manager F) (id : String) : Manager F :=
  match m.get? id with
  | none => m
  | some _ =>
    { m with pool := m.pool.modify id (·.enable) fun r h => r.id_enable.trans h, dirty := true }

/-- `Disable`. -/
def disable (m : Manager F) (id reason : String) : Manager F :=
  match m.get? id with
  | none => m
  | some _ =>
    { m with
      pool := m.pool.modify id (·.disable reason) fun r h => (r.id_disable _).trans h
      dirty := true }

/-- `Quarantine`. -/
def quarantine (m : Manager F) (now : Int) (id reason : String) : Manager F :=
  match m.get? id with
  | none => m
  | some _ =>
    { m with
      pool := m.pool.modify id (·.quarantine (now + m.quarantineCooldown) reason)
        fun r h => (r.id_quarantine _ _).trans h
      dirty := true }

/-- `SetOnline`: reachability is separate from the lifecycle state. -/
def setOnline (m : Manager F) (id : String) (online : Bool) : Manager F :=
  match m.get? id with
  | none => m
  | some r =>
    -- not persisted, so that `dirty` stays as it is
    if r.online = online then m
    else
      { m with pool := m.pool.modify id (·.setOnline online) fun r h => (r.id_setOnline _).trans h }

/-- `AddIdentity`: an existing identity only has its metadata refreshed. -/
def addIdentity (m : Manager F) (now : Int) (spec : Spec) : Manager F :=
  match m.get? spec.id with
  | some _ => { m with pool := m.pool.modify spec.id (·.setSpec spec) fun r _ => r.id_setSpec spec }
  | none => { m with pool := m.pool.push (.fresh spec now), dirty := true }

/-- `SetThresholds`: a value that is not positive leaves the threshold alone. -/
def setThresholds (m : Manager F) (quarantine circuit : Int) : Manager F :=
  { m with
    quarantineThreshold := if quarantine > 0 then quarantine else m.quarantineThreshold
    circuitThreshold := if circuit > 0 then circuit else m.circuitThreshold }

/-- `Snapshot`: the persisted state of every listed identity. -/
def snapshot (m : Manager F) : List (EgressState F) :=
  m.pool.order.filterMap fun id => (m.get? id).map (·.toEgressState)

/-- The loop body of `Restore`; the state of an unknown identity is skipped. -/
def restoreState (m : Manager F) (st : EgressState F) : Manager F :=
  { m with pool := m.pool.modify st.id (·.restore st) fun r h => (r.id_restore st).trans h }

/-- `Restore`. -/
def restore (m : Manager F) (states : List (EgressState F)) : Manager F :=
  { states.foldl restoreState m with dirty := true }

end Manager

end Rcptto.Native
