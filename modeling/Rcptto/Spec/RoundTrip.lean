import Rcptto.Spec.Reachable
import Rcptto.Spec.Restart

/-!
# Snapshot and Restore

A snapshot leaves out the breakers, the sample counts and the reachability of an identity.
`Record.Sim` relates two records that differ in nothing else that an operation could tell:
the scores are the same, and so is every breaker as far as it is looked at. Every operation
respects the relation and returns the same on both sides, so two related managers cannot be
told apart by any further calls.

## Key results

- `Manager.Sim.exec`: the relation is a bisimulation for the operations of the manager
- `Manager.Sim.observe_eq`: related managers show the same results and snapshots for ever
- `restore_snapshot`: a manager restored from a snapshot is related to the one that wrote
  it, with its breakers closed and its identities online
-/

namespace Rcptto.Native

variable {F : Type}

/-! ## Breakers -/

namespace Circuit

/-- The breakers cannot be told apart: the deadline of one that is not open is never read. -/
structure Sim (c c' : Circuit) : Prop where
  state : c.state = c'.state
  failures : c.failures = c'.failures
  openUntil : c.state = .opened → c.openUntil = c'.openUntil

namespace Sim

variable {c c' : Circuit}

theorem refl (c : Circuit) : Sim c c := ⟨rfl, rfl, fun _ => rfl⟩

theorem onSuccess (c c' : Circuit) : Sim c.onSuccess c'.onSuccess := ⟨rfl, rfl, fun h => by cases h⟩

/-- A failure opens both breakers until the same time, or neither of them. -/
theorem onFailure (h : Sim c c') (now threshold cooldown : Int) :
    Sim (c.onFailure now threshold cooldown) (c'.onFailure now threshold cooldown) := by
  unfold Circuit.onFailure
  dsimp only
  rw [← h.state, ← h.failures]
  split
  · exact ⟨rfl, rfl, fun _ => rfl⟩
  · exact ⟨rfl, rfl, h.openUntil⟩

/-- Related breakers let the same probes through, and go to half-open together. -/
theorem allow (h : Sim c c') (now : Int) :
    (c.allow now).1 = (c'.allow now).1 ∧ Sim (c.allow now).2 (c'.allow now).2 := by
  unfold Circuit.allow
  rw [← h.state]
  -- only an open breaker looks at its deadline
  by_cases hs : c.state = .opened
  · rw [if_pos hs, if_pos hs, ← h.openUntil hs]
    split
    · exact ⟨rfl, rfl, h.failures, fun h => by cases h⟩
    · exact ⟨rfl, h⟩
  · rw [if_neg hs, if_neg hs]
    exact ⟨rfl, h⟩

end Sim

end Circuit

/-! ## Records -/

namespace Record

/-- `circuitFor(dest)`. -/
def circuitFor (r : Record F) (dest : String) : Circuit := (r.circuits dest).getD {}

/-- An update reaches the breaker of its own destination. -/
theorem circuitFor_updateCircuit (r : Record F) (dest d : String) (f : Circuit → Circuit) :
    (r.updateCircuit dest f).circuitFor d =
      if d = dest then f (r.circuitFor dest) else r.circuitFor d := by
  unfold circuitFor updateCircuit
  by_cases hd : d = dest
  · subst hd
    simp
  · simp [hd]

/-- A breaker that has not been created yet answers like a new one. -/
theorem allow_eq_circuitFor (r : Record F) (dest : String) (now : Int) :
    (r.allow dest now).1 = ((r.circuitFor dest).allow now).1 ∧
      ∀ d, (r.allow dest now).2.circuitFor d =
        if d = dest then ((r.circuitFor dest).allow now).2 else r.circuitFor d := by
  unfold allow circuitFor
  -- a destination without a breaker has a closed one, which lets every probe through
  cases hc : r.circuits dest with
  | none =>
    refine ⟨rfl, fun d => ?_⟩
    by_cases hd : d = dest
    · subst hd
      simp [hc, Circuit.allow]
    · simp [hd]
  | some c =>
    refine ⟨rfl, fun d => ?_⟩
    by_cases hd : d = dest
    · subst hd
      simp
    · simp [hd]

/-- The records cannot be told apart: they differ at most in sample counts, in breakers that
    have not been used, and in deadlines that have passed. -/
structure Sim (r s : Record F) : Prop where
  spec : r.spec = s.spec
  state : r.state = s.state
  warmupStage : r.warmupStage = s.warmupStage
  usedToday : r.usedToday = s.usedToday
  lastReset : r.lastReset = s.lastReset
  online : r.online = s.online
  blockStreak : r.blockStreak = s.blockStreak
  quarantinedUntil : r.quarantinedUntil = s.quarantinedUntil
  quarantineReason : r.quarantineReason = s.quarantineReason
  health : ∀ dest, (r.health dest).map (·.score) = (s.health dest).map (·.score)
  circuits : ∀ dest, (r.circuitFor dest).Sim (s.circuitFor dest)

namespace Sim

variable {r s : Record F}

theorem refl (r : Record F) : Sim r r := by
  constructor
  case circuits => exact fun _ => .refl _
  all_goals intros; rfl

/-- Related records have the same row in a snapshot. -/
theorem toEgressState (h : Sim r s) : r.toEgressState = s.toEgressState := by
  apply EgressState.ext
  case id => exact congrArg Spec.id h.spec
  case state => exact congrArg State.toString h.state
  case warmupStage => exact h.warmupStage
  case usedToday => exact h.usedToday
  case lastReset => exact h.lastReset
  case blockStreak => exact h.blockStreak
  case quarantinedUntil => exact h.quarantinedUntil
  case quarantineReason => exact h.quarantineReason
  case health => exact funext h.health

/-! ### Signals -/

/-- Related records stay related when a score is updated as a function of the score. -/
theorem updateHealth [OfScientific F] (h : Sim r s) (dest : String) {f : Health F → Health F}
    (hf : ∀ a b : Health F, a.score = b.score → (f a).score = (f b).score) :
    Sim (r.updateHealth dest f) (s.updateHealth dest f) := by
  refine { h with health := fun d => ?_ }
  unfold Record.updateHealth
  -- the sample counts may differ, but `f` makes equal scores of equal scores
  by_cases hd : d = dest
  · subst hd
    have hscore := h.health d
    simp only [Function.update_self, Option.map_some, Option.some.injEq]
    apply hf
    cases hr : r.health d <;> cases hs : s.health d <;> simp_all
  · simp only [Function.update_of_ne hd]
    exact h.health d

/-- Related records stay related when a breaker is updated in a way that respects the relation. -/
theorem updateCircuit (h : Sim r s) (dest : String) {f : Circuit → Circuit}
    (hf : ∀ c c' : Circuit, c.Sim c' → (f c).Sim (f c')) :
    Sim (r.updateCircuit dest f) (s.updateCircuit dest f) := by
  refine { h with circuits := fun d => ?_ }
  rw [circuitFor_updateCircuit, circuitFor_updateCircuit]
  split
  · exact hf _ _ (h.circuits dest)
  · exact h.circuits d

section Signal

variable [Add F] [Sub F] [Mul F] [OfScientific F]

/-- The new score is a function of the old one, whatever the number of samples. -/
private theorem observe_score {good : Bool} {alpha : F} {a b : Health F} (h : a.score = b.score) :
    (a.observe good alpha).score = (b.observe good alpha).score := by
  simp only [Health.observe, h]

/-- A signal is applied to both records in the same way. -/
theorem applySignal (h : Sim r s) (t : Tuning F) (now : Int) (sig : Signal) :
    Sim (r.applySignal t now sig) (s.applySignal t now sig) := by
  -- both counters that a failure moves are functions of related data
  have hfail : ∀ c c' : Circuit, c.Sim c' →
      (c.onFailure now t.circuitThreshold t.circuitCooldown).Sim
        (c'.onFailure now t.circuitThreshold t.circuitCooldown) := fun _ _ hc => hc.onFailure ..
  unfold Record.applySignal
  cases sig.kind with
  | accepted | mailboxGone =>
    have h' := (h.updateHealth sig.destination (f := (·.observe true t.alpha))
      fun _ _ => observe_score).updateCircuit sig.destination
        fun c c' _ => Circuit.Sim.onSuccess c c'
    exact { h' with blockStreak := rfl }
  | tempFail => exact h.updateHealth _ fun _ _ => observe_score
  | blocked =>
    have h' := (h.updateHealth sig.destination (f := (·.observe false t.alpha))
      fun _ _ => observe_score).updateCircuit sig.destination hfail
    have hstreak : r.blockStreak + 1 = s.blockStreak + 1 := by rw [h.blockStreak]
    -- the streaks are equal, so both records are quarantined or neither of them
    by_cases hq : s.blockStreak + 1 ≥ t.quarantineThreshold
    · simp only [Record.updateHealth, Record.updateCircuit, hstreak, hq, if_true]
      exact { h' with state := rfl, quarantinedUntil := rfl, blockStreak := rfl }
    · simp only [Record.updateHealth, Record.updateCircuit, hstreak, hq, if_false]
      exact { h' with blockStreak := rfl }
  | connRefused | timeout => exact (h.updateHealth _ fun _ _ => observe_score).updateCircuit _ hfail
  | other text htext => exact h

end Signal

/-! ### Reconciliation -/

/-- The quarantines of related records end together. -/
theorem expire (h : Sim r s) (now : Int) : Sim (r.expire now) (s.expire now) := by
  unfold Record.expire
  rw [← h.state, ← h.quarantinedUntil]
  split
  · exact { h with state := rfl, warmupStage := rfl, blockStreak := rfl, quarantinedUntil := rfl }
  · exact h

/-- One daily reset of related records. -/
theorem dailyReset (h : Sim r s) (stages : Nat) :
    Sim (r.dailyReset stages) (s.dailyReset stages) := by
  have hlast : r.lastReset + dailyResetInterval = s.lastReset + dailyResetInterval := by
    rw [h.lastReset]
  unfold Record.dailyReset
  dsimp only
  rw [← h.state, ← h.warmupStage]
  split_ifs <;>
    exact { h with usedToday := rfl, lastReset := hlast, warmupStage := rfl, state := rfl }

/-- Any number of daily resets: the loop looks at `lastReset` only, which is the same in both. -/
theorem dailyResets (h : Sim r s) (stages : Nat) (now : Int) (n : Nat) :
    Sim (Record.dailyResets stages now n r) (Record.dailyResets stages now n s) := by
  induction n generalizing r s with
  | zero => exact h
  | succ n ih =>
    unfold Record.dailyResets
    rw [← h.lastReset]
    split
    · exact ih (h.dailyReset stages)
    · exact h

/-- Related records are reconciled in the same way. -/
theorem reconcile (h : Sim r s) (stages : Nat) (now : Int) :
    Sim (r.reconcile stages now) (s.reconcile stages now) := by
  have h' := h.expire now
  unfold Record.reconcile
  dsimp only
  rw [pendingResets, pendingResets, ← h'.lastReset]
  exact h'.dailyResets stages now _

/-! ### Persistence -/

/-- Related records stay related when the same row is restored in both. -/
theorem restore (h : Sim r s) (st : EgressState F) : Sim (r.restore st) (s.restore st) where
  spec := h.spec
  state := rfl
  warmupStage := rfl
  usedToday := rfl
  lastReset := by simp only [Record.restore, h.lastReset]
  online := h.online
  blockStreak := rfl
  quarantinedUntil := rfl
  quarantineReason := rfl
  health dest := by
    have hscore := h.health dest
    simp only [Record.restore]
    -- a destination that the row does not mention keeps its score
    cases st.health dest with
    | none => exact hscore
    | some score => rfl
  circuits := h.circuits

/-! ### Eligibility -/

theorem capFor (h : Sim r s) (t : Tuning F) : Record.capFor t r = Record.capFor t s := by
  simp only [Record.capFor, h.state, h.warmupStage]

/-- Related records have the same score for every destination. -/
theorem score [OfScientific F] (h : Sim r s) (dest : String) : r.score dest = s.score dest := by
  have hscore := h.health dest
  unfold Record.score
  cases hr : r.health dest <;> cases hs : s.health dest <;> simp_all

/-- Related records let the same probes through. -/
theorem allow (h : Sim r s) (dest : String) (now : Int) :
    (r.allow dest now).1 = (s.allow dest now).1 ∧
      Sim (r.allow dest now).2 (s.allow dest now).2 := by
  obtain ⟨hr, hrc⟩ := r.allow_eq_circuitFor dest now
  obtain ⟨hs, hsc⟩ := s.allow_eq_circuitFor dest now
  obtain ⟨hok, hcirc⟩ := (h.circuits dest).allow now
  refine ⟨by rw [hr, hs, hok], ?_⟩
  have hcircuits : ∀ d,
      ((r.allow dest now).2.circuitFor d).Sim ((s.allow dest now).2.circuitFor d) := by
    intro d
    rw [hrc, hsc]
    split
    · exact hcirc
    · exact h.circuits d
  -- `allow` changes nothing but the breaker of the destination
  rw [allow_snd] at hcircuits ⊢
  rw [s.allow_snd] at hcircuits ⊢
  exact { h with circuits := hcircuits }

/-- Related records are eligible together. -/
theorem eligibleLocked (h : Sim r s) (t : Tuning F) (dest : String) (now : Int) :
    Option.Rel (fun a b => a.1 = b.1 ∧ Sim a.2 b.2) (r.eligibleLocked t dest now)
      (s.eligibleLocked t dest now) := by
  obtain ⟨hok, hrec⟩ := h.allow dest now
  unfold Record.eligibleLocked
  rw [← h.state, ← h.online]
  split
  · exact .some ⟨rfl, h⟩
  · split
    · exact .some ⟨rfl, h⟩
    · -- the breaker is asked last, and both breakers give the same answer
      generalize r.allow dest now = p at hok hrec ⊢
      generalize s.allow dest now = q at hok hrec ⊢
      obtain ⟨ok, r'⟩ := p
      obtain ⟨ok', s'⟩ := q
      obtain rfl : ok = ok' := hok
      dsimp only at hrec ⊢
      split
      · exact .some ⟨rfl, hrec⟩
      · rw [← hrec.capFor, ← hrec.usedToday]
        cases Record.capFor t r' with
        | none => exact .none
        | some limit => exact .some ⟨rfl, hrec⟩

end Sim

end Record

/-! ## Managers -/

namespace Manager

/-- The managers cannot be told apart by their operations and snapshots. -/
structure Sim (m n : Manager F) : Prop where
  tuning : m.toTuning = n.toTuning
  pool : OrderedMap.Rel Record.Sim m.pool n.pool

/-- The results of an operation cannot be told apart. -/
def ResultSim {α : Type} (x y : Manager F × α) : Prop := x.1.Sim y.1 ∧ x.2 = y.2

/-- The candidates of the selection loop cannot be told apart. -/
private def CandidateSim (a b : Record F × F) : Prop := a.1.Sim b.1 ∧ a.2 = b.2

namespace Sim

variable {m n : Manager F}

/-- Related managers have the same snapshot. -/
theorem snapshot (h : Sim m n) : m.snapshot = n.snapshot := by
  unfold Manager.snapshot Manager.get?
  rw [h.pool.order_eq]
  apply List.filterMap_congr
  intro id _
  have hrel := h.pool.get?_rel id
  -- both pools have the identity or neither has
  generalize m.pool.get? id = a at hrel ⊢
  generalize n.pool.get? id = b at hrel ⊢
  cases hrel with
  | none => rfl
  | some hrs => rw [Option.map_some, Option.map_some, hrs.toEgressState]

section Binding

variable [OfScientific F] [LinearOrder F]

omit [OfScientific F] in
/-- Whether a record is better than the best so far is the same on both sides. -/
private theorem improves_eq {best best' : Option (Record F × F)} {r s : Record F} (score : F)
    (hbest : Option.Rel CandidateSim best best') (h : r.Sim s) :
    improves best r score = improves best' s score := by
  cases hbest with
  | none => rfl
  | some hb => simp only [improves, hb.1.usedToday, hb.2, h.usedToday]

/-- The selection loops go through the same branches. -/
private theorem selectLoop_rel {p q : Pool F} {best best' : Option (Record F × F)} (t : Tuning F)
    (dest : String) (now : Int) (ids : List String) (h : OrderedMap.Rel Record.Sim p q)
    (hbest : Option.Rel CandidateSim best best') :
    Option.Rel (fun x y => OrderedMap.Rel Record.Sim x.1 y.1 ∧ Option.Rel CandidateSim x.2 y.2)
      (selectLoop t dest now ids p best) (selectLoop t dest now ids q best') := by
  induction ids generalizing p q best best' with
  | nil => exact .some ⟨h, hbest⟩
  | cons id ids ih =>
    unfold selectLoop
    have hrel := h.get?_rel id
    generalize hp : p.get? id = a at hrel ⊢
    generalize hq : q.get? id = b at hrel ⊢
    cases hrel with
    | none => exact .none
    | @some r s hrs =>
      dsimp only
      have hel := hrs.eligibleLocked t dest now
      generalize r.eligibleLocked t dest now = x at hel ⊢
      generalize s.eligibleLocked t dest now = y at hel ⊢
      cases hel with
      | none => exact .none
      | @some okr oks hok =>
        obtain ⟨ok, r'⟩ := okr
        obtain ⟨ok', s'⟩ := oks
        obtain ⟨rfl, hrs'⟩ : ok = ok' ∧ r'.Sim s' := hok
        dsimp only
        rw [hrs'.score, improves_eq _ hbest hrs']
        -- the records in the pools take over the breakers and nothing else
        have hpool : OrderedMap.Rel Record.Sim
            (p.modify id (·.setCircuits r'.circuits) fun r h => (r.id_setCircuits _).trans h)
            (q.modify id (·.setCircuits s'.circuits) fun r h => (r.id_setCircuits _).trans h) :=
          h.modify fun _ _ _ _ hvw => { hvw with circuits := hrs'.circuits }
        split
        · exact ih hpool (.some ⟨hrs', rfl⟩)
        · exact ih hpool hbest

/-- Related managers select related records, and the selection leaves related pools behind. -/
private theorem selectLocked_rel (h : Sim m n) (dest : String) (now : Int) :
    Option.Rel (fun x y => OrderedMap.Rel Record.Sim x.1 y.1 ∧ Option.Rel CandidateSim x.2 y.2)
      (m.selectLocked dest now) (n.selectLocked dest now) := by
  unfold selectLocked
  rw [← h.tuning, ← h.pool.order_eq]
  exact selectLoop_rel _ dest now _ h.pool .none

omit [OfScientific F] [LinearOrder F] in
/-- Related managers stay related when they are reconciled. -/
theorem reconcileLocked (h : Sim m n) (now : Int) :
    Sim (m.reconcileLocked now) (n.reconcileLocked now) := by
  have hstages : m.warmupStages = n.warmupStages := congrArg Tuning.warmupStages h.tuning
  refine ⟨h.tuning, ?_⟩
  simp only [Manager.reconcileLocked]
  refine h.pool.mapInOrder fun r s hrs => ?_
  rw [hstages]
  exact hrs.reconcile ..

/-- Related managers give out the same binding, and stay related. -/
theorem binding (h : Sim m n) (now : Int) (task : Task) :
    Option.Rel ResultSim (m.binding now task) (n.binding now task) := by
  have h₁ := h.reconcileLocked now
  have hsel := h₁.selectLocked_rel (destOf task) now
  unfold Manager.binding
  dsimp only
  generalize (m.reconcileLocked now).selectLocked (destOf task) now = x at hsel ⊢
  generalize (n.reconcileLocked now).selectLocked (destOf task) now = y at hsel ⊢
  cases hsel with
  | none => exact .none
  | @some a b hab =>
    obtain ⟨p, best⟩ := a
    obtain ⟨q, best'⟩ := b
    obtain ⟨hpool, hbest⟩ := hab
    dsimp only at hpool hbest ⊢
    -- no identity is eligible on either side, or the selected ones are related
    cases hbest with
    | none => exact .some ⟨⟨h₁.tuning, hpool⟩, rfl⟩
    | @some cr cs hc =>
      obtain ⟨r, score⟩ := cr
      obtain ⟨s, score'⟩ := cs
      have hspec : r.spec = s.spec := hc.1.spec
      -- the same identity is charged, and its binding comes from the spec
      refine .some ⟨⟨h₁.tuning, ?_⟩, ?_⟩
      · have hid : r.id = s.id := congrArg Spec.id hspec
        simp only [hid]
        exact hpool.modify fun _ _ _ _ hvw =>
          { hvw with usedToday := congrArg (· + 1) hvw.usedToday }
      · simp only [hspec]

end Binding

section Exec

variable [Add F] [Sub F] [Mul F] [OfScientific F]

/-- Related managers stay related when the same signals arrive. -/
theorem emit (h : Sim m n) (now : Int) (signals : List Signal) :
    Sim (m.emit now signals) (n.emit now signals) := by
  -- by induction on the signals, each of which changes one record
  induction signals generalizing m n with
  | nil => exact h
  | cons sig signals ih =>
    rw [emit_cons, emit_cons]
    apply ih
    refine ⟨by rw [toTuning_emitSignal, toTuning_emitSignal, h.tuning], ?_⟩
    rw [pool_emitSignal, pool_emitSignal]
    refine h.pool.modify fun r s _ _ hrs => ?_
    rw [h.tuning]
    exact hrs.applySignal ..

omit [Add F] [Sub F] [Mul F] [OfScientific F] in
/-- Related managers have related pools after the same rows are restored. -/
theorem restore (h : Sim m n) (states : List (EgressState F)) :
    OrderedMap.Rel Record.Sim (m.restore states).pool (n.restore states).pool := by
  change OrderedMap.Rel Record.Sim (states.foldl restoreState m).pool
    (states.foldl restoreState n).pool
  -- by induction on the rows, since each one changes both pools
  induction states generalizing m n with
  | nil => exact h.pool
  | cons st states ih =>
    rw [List.foldl_cons, List.foldl_cons]
    apply ih
    refine ⟨h.tuning, ?_⟩
    simp only [restoreState]
    exact h.pool.modify fun r s _ _ hrs => hrs.restore st

omit [Add F] [Sub F] [Mul F] [OfScientific F] in
/-- Related managers have related pools after the same identity is introduced. -/
theorem addIdentity (h : Sim m n) (now : Int) (spec : Spec) :
    OrderedMap.Rel Record.Sim (m.addIdentity now spec).pool (n.addIdentity now spec).pool := by
  -- related pools know the same identities, so both add it or both update it
  have hrel := h.pool.get?_rel spec.id
  cases hr : m.get? spec.id with
  | none =>
    cases hs : n.get? spec.id with
    | none =>
      rw [pool_addIdentity_of_none hr, pool_addIdentity_of_none hs]
      exact h.pool.push rfl (.refl _)
    | some s => simp only [hr, hs] at hrel; cases hrel
  | some r =>
    cases hs : n.get? spec.id with
    | none => simp only [hr, hs] at hrel; cases hrel
    | some s =>
      rw [pool_addIdentity_of_some hr, pool_addIdentity_of_some hs]
      exact h.pool.modify fun _ _ _ _ hvw => { hvw with spec := rfl }

/-- The tuning moves in step, so that after an operation only the pools are left to compare. -/
private theorem of_pool [LinearOrder F] {m' n' : Manager F} {now : Int} {op : Op F}
    (h : Sim m n) (hm : m.exec now op = some (m', none)) (hn : n.exec now op = some (n', none))
    (hpool : OrderedMap.Rel Record.Sim m'.pool n'.pool) :
    Option.Rel ResultSim (m.exec now op) (n.exec now op) := by
  have hm' := Manager.Step.tuning (e := ⟨m, now, op, none⟩) ⟨rfl, hm⟩
  have hn' := Manager.Step.tuning (e := ⟨n, now, op, none⟩) ⟨rfl, hn⟩
  rw [hm, hn]
  refine .some ⟨⟨?_, hpool⟩, rfl⟩
  rw [hm', hn']
  -- only `SetThresholds` changes the tuning, and it does so in the same way
  cases op with
  | setThresholds quarantine circuit =>
    simp only [setThresholds]
    rw [h.tuning]
  | _ => exact h.tuning

/-- Every operation returns the same on related managers and leaves related managers. -/
theorem exec [LinearOrder F] (h : Sim m n) (now : Int) (op : Op F) :
    Option.Rel ResultSim (m.exec now op) (n.exec now op) := by
  cases op with
  | binding task =>
    have hb := h.binding now task
    simp only [Manager.exec]
    -- both may panic, and then both do
    generalize m.binding now task = x at hb ⊢
    generalize n.binding now task = y at hb ⊢
    cases hb with
    | none => exact .none
    | some hres => exact .some ⟨hres.1, congrArg some hres.2⟩
  | emit signals => exact .some ⟨h.emit now signals, rfl⟩
  | restore states => exact h.of_pool rfl rfl (h.restore states)
  | addIdentity spec => exact h.of_pool rfl rfl (h.addIdentity now spec)
  | setThresholds quarantine circuit => exact h.of_pool rfl rfl h.pool
  | enable id =>
    refine h.of_pool rfl rfl ?_
    rw [pool_enable, pool_enable]
    exact h.pool.modify fun _ _ _ _ hrs =>
      { hrs with state := rfl, warmupStage := rfl, blockStreak := rfl, quarantineReason := rfl }
  | disable id reason =>
    refine h.of_pool rfl rfl ?_
    rw [pool_disable, pool_disable]
    exact h.pool.modify fun _ _ _ _ hrs => { hrs with state := rfl, quarantineReason := rfl }
  | quarantine id reason =>
    have hcool : m.quarantineCooldown = n.quarantineCooldown :=
      congrArg Tuning.quarantineCooldown h.tuning
    refine h.of_pool rfl rfl ?_
    rw [pool_quarantine, pool_quarantine]
    exact h.pool.modify fun _ _ _ _ hrs =>
      { hrs with
        state := rfl
        quarantinedUntil := congrArg (now + ·) hcool
        quarantineReason := rfl }
  | setOnline id online =>
    refine h.of_pool rfl rfl ?_
    rw [pool_setOnline, pool_setOnline]
    exact h.pool.modify fun _ _ _ _ hrs => { hrs with online := rfl }

end Exec

end Sim

/-! ## What callers see -/

section Observe

variable [Add F] [Sub F] [Mul F] [OfScientific F] [LinearOrder F]

/-- What callers see of an operation: its result, and the snapshot just before it. -/
def seen (e : Event F) : Ret × List (EgressState F) := (e.ret, e.pre.snapshot)

/-- What callers see of a script of calls: each operation, and the snapshot at the end. It is
    `none` if one of the calls panics. -/
def observe (m : Manager F) (calls : List (Int × Op F)) :
    Option (List (Ret × List (EgressState F)) × List (EgressState F)) :=
  (m.perform calls).map fun (es, m') => (es.map seen, m'.snapshot)

/-- A script of calls returns the same and shows the same snapshots on both sides. -/
theorem Sim.perform {m n : Manager F} (h : Sim m n) (calls : List (Int × Op F)) :
    Option.Rel (fun x y => x.1.map seen = y.1.map seen ∧ x.2.Sim y.2) (m.perform calls)
      (n.perform calls) := by
  -- by induction on the script: one call by `Sim.exec`, the rest by the relation after it
  induction calls generalizing m n with
  | nil => exact .some ⟨rfl, h⟩
  | cons call calls ih =>
    obtain ⟨now, op⟩ := call
    have hexec := h.exec now op
    unfold Manager.perform
    generalize m.exec now op = x at hexec ⊢
    generalize n.exec now op = y at hexec ⊢
    cases hexec with
    | none => exact .none
    | @some a b hab =>
      obtain ⟨m₁, ret⟩ := a
      obtain ⟨n₁, ret'⟩ := b
      obtain ⟨h₁, rfl⟩ : m₁.Sim n₁ ∧ ret = ret' := hab
      have hrest := ih h₁
      dsimp only
      generalize m₁.perform calls = x at hrest ⊢
      generalize n₁.perform calls = y at hrest ⊢
      cases hrest with
      | none => exact .none
      | some hes =>
        -- what a call has seen is the snapshot before it
        refine .some ⟨?_, hes.2⟩
        rw [List.map_cons, List.map_cons, hes.1, seen, seen, h.snapshot]

/-- Related managers cannot be told apart by any sequence of calls. -/
theorem Sim.observe_eq {m n : Manager F} (h : Sim m n) (calls : List (Int × Op F)) :
    m.observe calls = n.observe calls := by
  have hrel := h.perform calls
  unfold observe
  generalize m.perform calls = x at hrel ⊢
  generalize n.perform calls = y at hrel ⊢
  cases hrel with
  | none => rfl
  | some hxy => simp only [Option.map_some, hxy.1, hxy.2.snapshot]

end Observe

/-! ## Restoring a snapshot -/

/-- The specs of the pool in registration order. -/
def specs (m : Manager F) : List Spec := m.pool.values.map (·.spec)

theorem snapshot_eq_values (m : Manager F) : m.snapshot = m.pool.values.map (·.toEgressState) := by
  rw [snapshot, OrderedMap.values, List.map_filterMap]

/-- The rows of a snapshot are those of the identities of the pool. -/
theorem map_id_snapshot (m : Manager F) : m.snapshot.map (·.id) = m.pool.order := by
  rw [snapshot_eq_values, List.map_map]
  exact m.pool.map_key_values

theorem map_id_specs (m : Manager F) : m.specs.map (·.id) = m.pool.order := by
  rw [specs, List.map_map]
  exact m.pool.map_key_values

end Manager

/-- The record with its breakers closed and the identity online. -/
def Record.quiesce (r : Record F) : Record F :=
  { r with online := true, circuits := fun dest => (r.circuits dest).map (·.onSuccess) }

theorem Record.id_quiesce (r : Record F) : r.quiesce.id = r.id := rfl

/-- The manager with all breakers closed and all identities online. -/
def Manager.quiesce (m : Manager F) : Manager F :=
  { m with pool := m.pool.mapInOrder (·.quiesce) Record.id_quiesce }

theorem Record.quiesce_quiesce (r : Record F) : r.quiesce.quiesce = r.quiesce := by
  simp [quiesce, Function.comp_def, Circuit.onSuccess]

/-- The breakers of a quiescent record are as good as new. -/
theorem Record.circuitFor_quiesce (r : Record F) (dest : String) :
    (r.quiesce.circuitFor dest).Sim {} := by
  simp only [circuitFor, quiesce]
  cases r.circuits dest with
  | none => exact .refl _
  | some c => exact .onSuccess c {}

theorem Manager.get?_quiesce (m : Manager F) (i : String) :
    m.quiesce.get? i = (m.get? i).map (·.quiesce) := by
  rw [get?, quiesce, OrderedMap.get?_mapInOrder Record.quiesce_quiesce]

theorem Manager.order_quiesce (m : Manager F) : m.quiesce.pool.order = m.pool.order := by
  rw [quiesce, OrderedMap.order_mapInOrder]

/-- A fresh identity that is restored from the entry of a record cannot be told from that
    record, quiesced. -/
theorem Record.sim_restore (r : Record F) (start : Int) (hreset : r.lastReset ≠ 0) :
    r.quiesce.Sim ((fresh r.spec start).restore r.toEgressState) where
  spec := rfl
  state := (r.state.ofString_toString).symm
  warmupStage := rfl
  usedToday := rfl
  lastReset := by simp [restore, toEgressState, quiesce, hreset]
  online := rfl
  blockStreak := rfl
  quarantinedUntil := rfl
  quarantineReason := rfl
  -- the number of samples is not stored
  health dest := by
    simp only [restore, toEgressState, quiesce, fresh]
    cases r.health dest <;> rfl
  circuits := r.circuitFor_quiesce

namespace Manager

/-- `Restore` neither adds nor removes an identity. -/
theorem order_restore (m : Manager F) (states : List (EgressState F)) :
    (m.restore states).pool.order = m.pool.order := by
  change (states.foldl restoreState m).pool.order = _
  induction states generalizing m with
  | nil => rfl
  | cons st states ih => exact ih _

variable [OfScientific F] [LinearOrder F] {m : Manager F} {cfg : Config F} (start : Int)

/-- A manager built with the specs of another one has fresh records for its identities. -/
theorem get?_new_specs (hids : cfg.identities = m.specs) (i : String) :
    (new cfg start).get? i = (m.get? i).map fun r => .fresh r.spec start := by
  have horder : (new cfg start).pool.order = m.pool.order := by
    rw [order_new, hids, map_id_specs]
  cases hr : m.get? i with
  | none =>
    have hnot : i ∉ m.pool.order := by
      intro hi
      obtain ⟨r, hr'⟩ := OrderedMap.exists_of_mem_order hi
      exact absurd (hr.symm.trans hr') (by simp)
    rw [← horder, (new cfg start).pool.mem_order] at hnot
    simpa using hnot
  | some r =>
    have hi : i ∈ (new cfg start).pool.order := horder ▸ OrderedMap.mem_order_of_get? hr
    obtain ⟨r', hr'⟩ := OrderedMap.exists_of_mem_order hi
    obtain ⟨spec, hspec, hid, rfl⟩ := exists_of_get?_new hr'
    -- the spec is that of the only record filed under `i`
    rw [hids, specs, List.mem_map] at hspec
    obtain ⟨r'', hmem, rfl⟩ := hspec
    have hr'' := OrderedMap.mem_values.mp hmem
    rw [show r''.id = i from hid, ← get?, hr, Option.some.injEq] at hr''
    rw [get?, hr', ← hr'', Option.map_some]

/-- The restored manager is related to the one that wrote the snapshot, quiesced. -/
theorem sim_restore {p : List (EgressState F)} (hnodup : m.pool.order.Nodup)
    (hreset : ∀ st ∈ m.snapshot, st.lastReset ≠ 0) (hids : cfg.identities = m.specs)
    (htuning : tuningOf cfg = m.toTuning) (hp : p.Perm m.snapshot) :
    m.quiesce.Sim ((new cfg start).restore p) := by
  refine ⟨?_, ?_, fun i => ?_⟩
  · rw [toTuning_restore]
    exact htuning.symm
  · rw [order_restore, order_new, hids, map_id_specs, order_quiesce]
  · have hnew := get?_new_specs start hids i
    change Option.Rel _ (m.quiesce.get? i) (((new cfg start).restore p).get? i)
    rw [get?_quiesce]
    cases hr : m.get? i with
    | none =>
      rw [hr, Option.map_none] at hnew
      rw [get?_restore_none hnew]
      exact .none
    | some r =>
      rw [hr, Option.map_some] at hnew
      -- the entry of the record is in the list, and no other entry has its id
      have hmem : r.toEgressState ∈ m.snapshot := by
        rw [snapshot_eq_values]
        apply List.mem_map_of_mem
        rw [OrderedMap.mem_values, m.pool.key_eq i r hr]
        exact hr
      have hpnodup : (p.map (·.id)).Nodup := by
        rw [(hp.map _).nodup_iff, map_id_snapshot]
        exact hnodup
      have hid : r.toEgressState.id = (Record.fresh r.spec start : Record F).id := rfl
      rw [get?_restore hnew, Record.restoreAll_of_mem hpnodup (hp.mem_iff.mpr hmem) hid]
      exact .some (r.sim_restore start (hreset _ hmem))

end Manager

section RoundTrip

variable [Add F] [Sub F] [Mul F] [OfScientific F] [LinearOrder F] {m : Manager F}

/-- In a reachable state every admissible script runs to its end. -/
theorem Reachable.perform_isSome (hm : Reachable m) (calls : List (Int × Op F))
    (hcalls : ∀ call ∈ calls, call.2.Admissible) : (m.perform calls).isSome := by
  induction calls generalizing m with
  | nil => rfl
  | cons call calls ih =>
    obtain ⟨now, op⟩ := call
    rw [List.forall_mem_cons] at hcalls
    obtain ⟨⟨m', ret⟩, hexec⟩ := Option.isSome_iff_exists.mp (hm.exec_isSome now op)
    have hm' : Reachable m' := hm.step (e := ⟨m, now, op, ret⟩) ⟨rfl, hexec⟩ hcalls.1
    rw [Manager.perform, hexec]
    simpa using ih hm' hcalls.2

/-- A snapshot of a reachable manager, in any order, brings a new manager with the same specs
    and tuning back to the same snapshot. From then on no sequence of calls can tell it from
    the old one with its breakers closed and its identities online: every call returns the
    same, every snapshot is the same, and no call panics. -/
theorem restore_snapshot (hm : Reachable m) (hnodup : m.pool.order.Nodup)
    (hreset : ∀ st ∈ m.snapshot, st.lastReset ≠ 0) (cfg : Config F) (start : Int)
    (hids : cfg.identities = m.specs) (htuning : Manager.tuningOf cfg = m.toTuning)
    {p : List (EgressState F)} (hp : p.Perm m.snapshot) :
    ((Manager.new cfg start).restore p).snapshot = m.snapshot ∧
    ∀ calls, ((Manager.new cfg start).restore p).observe calls = m.quiesce.observe calls ∧
      ((∀ call ∈ calls, call.2.Admissible) →
        (((Manager.new cfg start).restore p).observe calls).isSome) := by
  have hsim := Manager.sim_restore start hnodup hreset hids htuning hp
  refine ⟨?_, fun calls => ⟨(hsim.observe_eq calls).symm, fun hcalls => ?_⟩⟩
  · rw [← hsim.snapshot]
    simpa using Manager.snapshot_eq_map (f := id) m.order_quiesce fun i r hr =>
      ⟨r.quiesce, by rw [Manager.get?_quiesce, hr, Option.map_some], rfl⟩
  · -- `Restore` was given entries of a snapshot, which have no negative stage
    have hadm : (Op.restore p).Admissible := fun st hst => hm.snapshot_stage st (hp.mem_iff.mp hst)
    have hn : Reachable ((Manager.new cfg start).restore p) :=
      (Reachable.new cfg start).step (e := ⟨Manager.new cfg start, start, .restore p, none⟩)
        ⟨rfl, rfl⟩ hadm
    simpa [Manager.observe] using hn.perform_isSome calls hcalls

/-- The breaker of `a` for `gmail` is open in the manager that writes the snapshot, which is
    restored back to front. -/
theorem restore_snapshot_pair :
    let m := (Manager.new pairConfig 5).emit 6 (List.replicate 3 (gmailSignal .blocked))
    let n := (Manager.new pairConfig 9).restore m.snapshot.reverse
    n.snapshot = m.snapshot ∧
      n.observe [(10, .binding gmailTask)] = m.quiesce.observe [(10, .binding gmailTask)] := by
  intro m n
  have hm : Reachable m := (Reachable.new pairConfig 5).step
    (e := ⟨Manager.new pairConfig 5, 6, .emit (List.replicate 3 (gmailSignal .blocked)), none⟩)
    ⟨rfl, rfl⟩ trivial
  have h := restore_snapshot hm (by decide +kernel) (by decide +kernel) pairConfig 9
    (by decide +kernel) (by rw [Manager.toTuning_emit]; rfl) m.snapshot.reverse_perm
  exact ⟨h.1, (h.2 _).1⟩

end RoundTrip

end Rcptto.Native
