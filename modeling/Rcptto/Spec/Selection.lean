import Rcptto.ForStd.FirstBest
import Rcptto.Spec.Reconcile

/-!
# Selection of an identity

What `eligibleLocked` decides, stated without its side effect (`Record.Eligible`),
what it leaves behind (`Record.touch`), and what the selection loop computes from
the two: the first best eligible identity of the registration order
(`selectLocked_some`). `Manager.binding_some` is the specification of `Binding` that
every later proof uses instead of its body.
-/

namespace Rcptto.Native

namespace Record

variable {F : Type} {r : Record F} {t : Tuning F} {dest : String} {now : Int}

/-! ## Eligibility -/

/-- The breaker of the destination lets a probe through: there is none, or it is not
    inside its cool-down. -/
def BreakerAllows (r : Record F) (dest : String) (now : Int) : Prop :=
  ∀ c ∈ r.circuits dest, ¬ (c.state = .opened ∧ now ≤ c.openUntil)

instance : Decidable (r.BreakerAllows dest now) :=
  inferInstanceAs (Decidable (∀ c ∈ r.circuits dest, ¬ (c.state = .opened ∧ now ≤ c.openUntil)))

/-- The identity has not used up its daily cap; a cap that is not positive is none. -/
def BelowCap (t : Tuning F) (r : Record F) : Prop :=
  ∀ limit ∈ capFor t r, limit > 0 → r.usedToday < limit

instance : Decidable (BelowCap t r) :=
  inferInstanceAs (Decidable (∀ limit ∈ capFor t r, limit > 0 → r.usedToday < limit))

/-- The identity is withdrawn from routing. -/
def Withdrawn (r : Record F) : Prop :=
  r.state = .disabled ∨ r.state = .quarantined

instance : Decidable r.Withdrawn :=
  inferInstanceAs (Decidable (_ ∨ _))

/-- The identity may be used for a probe of `dest` now. -/
structure Eligible (t : Tuning F) (r : Record F) (dest : String) (now : Int) : Prop where
  not_withdrawn : ¬ r.Withdrawn
  online : r.online = true
  breaker : r.BreakerAllows dest now
  below_cap : BelowCap t r

/-- The conditions for an identity to be eligible, as a conjunction. -/
theorem eligible_iff : Eligible t r dest now ↔
    ¬ r.Withdrawn ∧ r.online = true ∧ r.BreakerAllows dest now ∧ BelowCap t r :=
  ⟨fun ⟨h₁, h₂, h₃, h₄⟩ => ⟨h₁, h₂, h₃, h₄⟩, fun ⟨h₁, h₂, h₃, h₄⟩ => ⟨h₁, h₂, h₃, h₄⟩⟩

instance : Decidable (Eligible t r dest now) :=
  decidable_of_iff' _ eligible_iff

/-- The score for a destination is that of its health entry, and without one that of a new entry,
    which is one. -/
theorem score_eq_getD [OfScientific F] (r : Record F) (dest : String) :
    r.score dest = ((r.health dest).getD .newHealth).score ∧
      (Health.newHealth : Health F).score = 1.0 := by
  refine ⟨?_, rfl⟩
  unfold score
  cases r.health dest <;> rfl

/-- The record after its eligibility for `dest` has been asked for: unless the identity
    is withdrawn or offline, an expired breaker of `dest` is half-open. -/
def touch (r : Record F) (dest : String) (now : Int) : Record F :=
  if r.Withdrawn ∨ r.online = false then r else (r.allow dest now).2

/-- A record lets a probe through exactly if its breaker does. -/
theorem allow_fst (r : Record F) (dest : String) (now : Int) :
    (r.allow dest now).1 = decide (r.BreakerAllows dest now) := by
  unfold allow
  split
  · next hc => simp [BreakerAllows, hc]
  · next c hc =>
    by_cases hs : c.state = .opened
    · by_cases hn : now > c.openUntil <;> simp [BreakerAllows, Circuit.allow, hc, hs, hn]
    · simp [BreakerAllows, Circuit.allow, hc, hs]

theorem allow_snd (r : Record F) (dest : String) (now : Int) :
    (r.allow dest now).2 = { r with circuits := (r.allow dest now).2.circuits } := by
  unfold allow
  split <;> rfl

/-- `touch` writes nothing but breakers. -/
theorem touch_eq : r.touch dest now = { r with circuits := (r.touch dest now).circuits } := by
  unfold touch
  split
  · rfl
  · exact r.allow_snd dest now

@[simp] theorem touch_spec : (r.touch dest now).spec = r.spec := by rw [touch_eq]

@[simp] theorem id_touch : (r.touch dest now).id = r.id := by rw [touch_eq]; rfl

@[simp] theorem touch_state : (r.touch dest now).state = r.state := by rw [touch_eq]

@[simp] theorem touch_warmupStage : (r.touch dest now).warmupStage = r.warmupStage := by
  rw [touch_eq]

@[simp] theorem touch_usedToday : (r.touch dest now).usedToday = r.usedToday := by rw [touch_eq]

@[simp] theorem touch_lastReset : (r.touch dest now).lastReset = r.lastReset := by rw [touch_eq]

@[simp] theorem touch_online : (r.touch dest now).online = r.online := by rw [touch_eq]

@[simp] theorem touch_blockStreak : (r.touch dest now).blockStreak = r.blockStreak := by
  rw [touch_eq]

@[simp] theorem touch_quarantinedUntil :
    (r.touch dest now).quarantinedUntil = r.quarantinedUntil := by
  rw [touch_eq]

@[simp] theorem touch_quarantineReason :
    (r.touch dest now).quarantineReason = r.quarantineReason := by
  rw [touch_eq]

@[simp] theorem touch_health : (r.touch dest now).health = r.health := by rw [touch_eq]

@[simp] theorem touch_score [OfScientific F] {d : String} :
    (r.touch dest now).score d = r.score d := by
  simp [score]

@[simp] theorem capFor_touch : capFor t (r.touch dest now) = capFor t r := by
  simp [capFor]

@[simp] theorem withdrawn_touch : (r.touch dest now).Withdrawn ↔ r.Withdrawn := by
  simp [Withdrawn]

theorem touch_of_withdrawn_or_offline (h : r.Withdrawn ∨ r.online = false) :
    r.touch dest now = r := if_pos h

/-- Only the breaker of the destination asked for is written. -/
theorem touch_circuits_of_ne {d : String} (h : d ≠ dest) :
    (r.touch dest now).circuits d = r.circuits d := by
  unfold touch allow
  split
  · rfl
  · split
    · rfl
    · exact Function.update_of_ne h ..

/-- The breaker of the destination asked for, when the question gets that far. -/
theorem touch_circuits_self (h : ¬ (r.Withdrawn ∨ r.online = false)) :
    (r.touch dest now).circuits dest = (r.circuits dest).map fun c => (c.allow now).2 := by
  unfold touch allow
  rw [if_neg h]
  split
  · next hc => simp [hc]
  · next hc => simp [hc]

/-- A breaker that lets a probe through is not open any more and would let the next one through;
    otherwise it is unchanged. -/
private theorem allow_allow (c : Circuit) (now : Int) :
    (c.allow now).2.allow now = (true, (c.allow now).2) ∨ c.allow now = (false, c) := by
  unfold Circuit.allow
  by_cases hs : c.state = .opened
  · by_cases hn : now > c.openUntil
    · simp [hs, hn]
    · simp [hs, hn]
  · simp [hs]

/-- Asking again at the same time gives the same answer. -/
theorem breakerAllows_touch :
    (r.touch dest now).BreakerAllows dest now ↔ r.BreakerAllows dest now := by
  by_cases h : r.Withdrawn ∨ r.online = false
  · rw [touch_of_withdrawn_or_offline h]
  · unfold BreakerAllows
    rw [touch_circuits_self h]
    cases r.circuits dest with
    | none => simp
    | some c =>
      simp only [Option.map_some, Option.mem_def, Option.some.injEq, forall_eq', Circuit.allow]
      -- an open breaker whose time is over goes to half-open, and the answer is the same
      by_cases hs : c.state = .opened
      · by_cases hn : now > c.openUntil
        · simp [hs, hn]
        · simp [hs, hn]
      · simp [hs]

theorem eligible_touch : Eligible t (r.touch dest now) dest now ↔ Eligible t r dest now := by
  simp [eligible_iff, breakerAllows_touch, BelowCap]

/-- `touch` settles the breaker: a second one at the same time does nothing. -/
theorem touch_touch : (r.touch dest now).touch dest now = r.touch dest now := by
  by_cases h : r.Withdrawn ∨ r.online = false
  · rw [touch_of_withdrawn_or_offline h, touch_of_withdrawn_or_offline h]
  · have h' : ¬ ((r.touch dest now).Withdrawn ∨ (r.touch dest now).online = false) := by
      simpa using h
    -- everything but the breakers is the same anyway
    have hcirc : ((r.touch dest now).touch dest now).circuits = (r.touch dest now).circuits := by
      funext d
      by_cases hd : d = dest
      · subst hd
        rw [touch_circuits_self h', touch_circuits_self h]
        cases r.circuits d with
        | none => rfl
        | some c =>
          rcases allow_allow c now with hc | hc
          · simp [hc]
          · simp [hc]
      · rw [touch_circuits_of_ne hd]
    rw [touch_eq, hcirc]

/-- What `eligibleLocked` answers whenever it does not panic. -/
theorem eligibleLocked_some {ok : Bool} {r' : Record F}
    (h : eligibleLocked t r dest now = some (ok, r')) :
    ok = decide (Eligible t r dest now) ∧ r' = r.touch dest now := by
  -- one case for each return of the source, in its order
  unfold eligibleLocked at h
  simp only [eligible_iff, touch]
  by_cases hw : r.state = .disabled ∨ r.state = .quarantined
  · have hW : r.Withdrawn := hw
    simp only [hw, if_true, Option.some.injEq, Prod.mk.injEq] at h
    obtain ⟨rfl, rfl⟩ := h
    simp [hW]
  · have hW : ¬ r.Withdrawn := hw
    rw [if_neg hw] at h
    cases hon : r.online with
    | false =>
      simp only [hon, Bool.not_false, if_true, Option.some.injEq, Prod.mk.injEq] at h
      obtain ⟨rfl, rfl⟩ := h
      simp
    | true =>
      rw [hon, Bool.not_true, if_neg Bool.false_ne_true] at h
      have hok := r.allow_fst dest now
      have hrec := r.allow_snd dest now
      generalize r.allow dest now = p at h hok hrec ⊢
      obtain ⟨ok', r''⟩ := p
      dsimp only at h hok hrec ⊢
      -- the cap is read after the breaker was asked, which changes nothing it depends on
      have hcap : capFor t r'' = capFor t r := by rw [hrec]; rfl
      have hused : r''.usedToday = r.usedToday := by rw [hrec]
      subst hok
      by_cases hb : r.BreakerAllows dest now
      · simp only [hb, decide_true, Bool.not_true, Bool.false_eq_true, if_false, hcap] at h
        cases hlim : capFor t r with
        | none => simp [hlim] at h
        | some limit =>
          simp only [hlim, hused, Option.some.injEq, Prod.mk.injEq] at h
          obtain ⟨rfl, rfl⟩ := h
          have hcmp : (!decide (limit ≤ r.usedToday)) = decide (r.usedToday < limit) := by
            rw [← decide_not, decide_eq_decide]
            omega
          simp [hW, hb, BelowCap, hlim, hcmp]
      · simp only [hb, decide_false, Bool.not_false, if_true, Option.some.injEq, Prod.mk.injEq] at h
        obtain ⟨rfl, rfl⟩ := h
        simp [hW, hb]

/-- `eligibleLocked` panics only on an index outside the warm-up table. -/
theorem eligibleLocked_isSome (h : (capFor t r).isSome) (dest : String) (now : Int) :
    (eligibleLocked t r dest now).isSome := by
  unfold eligibleLocked
  split
  · rfl
  · split
    · rfl
    · -- only a stage without a cap makes the function fail, and asking the breaker does not change
      -- the stage
      have hrec := r.allow_snd dest now
      generalize r.allow dest now = p at hrec
      obtain ⟨ok, r'⟩ := p
      dsimp only at hrec ⊢
      have hcap : capFor t r' = capFor t r := by rw [hrec]; rfl
      obtain ⟨limit, hlim⟩ := Option.isSome_iff_exists.mp h
      rw [hcap, hlim]
      split <;> rfl

end Record

/-! ## The selection loop -/

section Loop

variable {F : Type} [OfScientific F] [LinearOrder F] {t : Tuning F} {dest : String} {now : Int}

/-- The identity `id` of a pool is eligible. -/
def Pool.eligible (p : Pool F) (t : Tuning F) (dest : String) (now : Int) (id : String) : Bool :=
  (p.get? id).any fun r => decide (r.Eligible t dest now)

/-- The identity `x` of a pool beats `b`: a higher score for the destination, or the
    same score and fewer probes today. -/
def Pool.beats (p : Pool F) (dest : String) (x b : String) : Bool :=
  match p.get? x, p.get? b with
  | some rx, some rb =>
    rx.score dest > rb.score dest || (rx.score dest = rb.score dest && rx.usedToday < rb.usedToday)
  | _, _ => false

/-- The pool after every identity has been asked for its eligibility. -/
def Pool.touchAll (p : Pool F) (dest : String) (now : Int) : Pool F :=
  p.mapInOrder (·.touch dest now) fun _ => Record.id_touch

/-- The candidate the loop keeps for the identity `id`. -/
private def candidate (p : Pool F) (dest : String) (now : Int) (id : String) :
    Option (Record F × F) :=
  (p.get? id).map fun r => (r.touch dest now, r.score dest)

omit [OfScientific F] [LinearOrder F] in
/-- The loop writes the breakers back that it has got from the record; that touches the record. -/
private theorem modify_circuits_eq_touch {p : Pool F} {id : String} {r : Record F}
    (h : p.get? id = some r) :
    p.modify id (·.setCircuits (r.touch dest now).circuits)
        (fun r hr => (r.id_setCircuits _).trans hr) =
      p.modify id (·.touch dest now) (fun _ hr => Record.id_touch.trans hr) := by
  apply OrderedMap.ext
  · intro k
    by_cases hk : k = id
    · subst hk
      rw [OrderedMap.get?_modify_self, OrderedMap.get?_modify_self, h, Option.map_some,
        Option.map_some, Record.setCircuits, ← Record.touch_eq]
    · rw [OrderedMap.get?_modify_of_ne hk, OrderedMap.get?_modify_of_ne hk]
  · rfl

/-- The comparison of the loop, on the candidates of two identities. -/
private theorem improves_candidate {p : Pool F} {id : String} {r : Record F} {best : Option String}
    (dest : String) (now : Int) (hr : p.get? id = some r) (hbest : ∀ b ∈ best, (p.get? b).isSome) :
    Manager.improves (best.bind (candidate p dest now)) (r.touch dest now) (r.score dest) =
      match best with
      | none => true
      | some b => p.beats dest id b := by
  cases best with
  | none => rfl
  | some b =>
    obtain ⟨rb, hb⟩ := Option.isSome_iff_exists.mp (hbest b rfl)
    simp [Manager.improves, candidate, Pool.beats, hr, hb]

/-- What the loop has computed when it returns: the rest of the pool is touched, and
    the best identity is the running best over the pool as it was at the start. The
    pool `p₀` is that of the start of the loop; the current one differs from it only by
    identities that have already been touched. -/
private theorem selectLoop_some (p₀ : Pool F) (ids : List String) (p : Pool F)
    (best : Option String) (hp : ∀ id, (p.get? id).map (·.touch dest now) =
      (p₀.get? id).map (·.touch dest now))
    (hbest : ∀ b ∈ best, (p₀.get? b).isSome) {res : Pool F × Option (Record F × F)}
    (h : Manager.selectLoop t dest now ids p (best.bind (candidate p₀ dest now)) = some res) :
    res.1 = p.modifyEach (·.touch dest now) (fun _ => Record.id_touch) ids ∧
      res.2 = (ids.foldl (List.pickBest (p₀.eligible t dest now) (p₀.beats dest)) best).bind
        (candidate p₀ dest now) := by
  induction ids generalizing p best with
  | nil =>
    simp only [Manager.selectLoop, Option.some.injEq] at h
    subst h
    exact ⟨rfl, rfl⟩
  | cons id ids ih =>
    rw [Manager.selectLoop] at h
    cases hr : p.get? id with
    | none => simp [hr] at h
    | some r =>
      obtain ⟨r₀, hr₀, htouch⟩ : ∃ r₀, p₀.get? id = some r₀ ∧
          r.touch dest now = r₀.touch dest now := by
        have := hp id
        rw [hr, Option.map_some, eq_comm, Option.map_eq_some_iff] at this
        obtain ⟨r₀, hr₀, ht⟩ := this
        exact ⟨r₀, hr₀, ht.symm⟩
      simp only [hr] at h
      cases hel : r.eligibleLocked t dest now with
      | none => simp [hel] at h
      | some okr =>
        obtain ⟨ok, r'⟩ := okr
        obtain ⟨hok, rfl⟩ := Record.eligibleLocked_some hel
        simp only [hel, modify_circuits_eq_touch hr] at h
        -- the identity is as eligible, and as good, as it was before being touched
        have hok₀ : ok = p₀.eligible t dest now id := by
          rw [hok, Pool.eligible, hr₀, Option.any_some, decide_eq_decide,
            ← Record.eligible_touch, htouch, Record.eligible_touch]
        have hscore : (r.touch dest now).score dest = r₀.score dest := by
          rw [htouch, Record.touch_score]
        have hcand : candidate p₀ dest now id =
            some (r.touch dest now, (r.touch dest now).score dest) := by
          rw [candidate, hr₀, Option.map_some, hscore, htouch]
        -- touching an identity once more makes no difference
        have hp' : ∀ k, ((p.modify id (·.touch dest now)
            (fun _ hr => Record.id_touch.trans hr)).get? k).map (·.touch dest now) =
            (p₀.get? k).map (·.touch dest now) := by
          intro k
          rw [← hp k]
          by_cases hk : k = id
          · subst hk
            simp [Function.comp_def, Record.touch_touch]
          · rw [OrderedMap.get?_modify_of_ne hk]
        have himp := improves_candidate dest now hr₀ hbest
        rw [← htouch, ← hscore] at himp
        rw [OrderedMap.modifyEach_cons, List.foldl_cons, List.pickBest.eq_def, ← hok₀]
        simp only [himp] at h
        -- the two ways to go on: with the old candidate, or with this identity
        have hsome : ∀ b ∈ some id, (p₀.get? b).isSome := by simp [hr₀]
        have hkeep := ih _ best hp' hbest
        have htake := ih _ (some id) hp' hsome
        rw [Option.bind_some, hcand] at htake
        cases ok with
        | false => exact hkeep (by simpa using h)
        | true =>
          cases best with
          | none => exact htake (by simpa using h)
          | some b =>
            cases hbeats : p₀.beats dest id b with
            | false => simpa [hbeats] using hkeep (by simpa [hbeats] using h)
            | true => simpa [hbeats] using htake (by simpa [hbeats] using h)

/-- The loop panics only on an index outside the warm-up table. -/
private theorem selectLoop_isSome (ids : List String) (p : Pool F) (best : Option (Record F × F))
    (hids : ∀ id ∈ ids, (p.get? id).isSome)
    (hcap : ∀ id r, p.get? id = some r → (Record.capFor t r).isSome) :
    (Manager.selectLoop t dest now ids p best).isSome := by
  induction ids generalizing p best with
  | nil => rfl
  | cons id ids ih =>
    obtain ⟨r, hr⟩ := Option.isSome_iff_exists.mp (hids id (by simp))
    obtain ⟨⟨ok, r'⟩, hel⟩ :=
      Option.isSome_iff_exists.mp (Record.eligibleLocked_isSome (hcap id r hr) dest now)
    obtain ⟨-, rfl⟩ := Record.eligibleLocked_some hel
    rw [Manager.selectLoop]
    simp only [hr, hel, modify_circuits_eq_touch hr]
    -- the touched pool has the same identities, with the same caps
    have hids' : ∀ k ∈ ids, ((p.modify id (·.touch dest now)
        (fun _ hr => Record.id_touch.trans hr)).get? k).isSome := by
      intro k hk
      rw [Option.isSome_iff_ne_none, ne_eq, OrderedMap.get?_modify_eq_none, ← ne_eq,
        ← Option.isSome_iff_ne_none]
      exact hids k (by simp [hk])
    have hcap' : ∀ k r', (p.modify id (·.touch dest now)
        (fun _ hr => Record.id_touch.trans hr)).get? k = some r' → (Record.capFor t r').isSome := by
      intro k r' hk
      by_cases hkid : k = id
      · subst hkid
        rw [OrderedMap.get?_modify_self, hr, Option.map_some, Option.some.injEq] at hk
        rw [← hk, Record.capFor_touch]
        exact hcap k r hr
      · rw [OrderedMap.get?_modify_of_ne hkid] at hk
        exact hcap k r' hk
    split
    · exact ih _ _ hids' hcap'
    · exact ih _ _ hids' hcap'

end Loop

/-! ## Binding -/

namespace Manager

variable {F : Type} {m m' : Manager F} {dest : String} {now : Int} {task : Task}

@[simp] theorem get?_reconcileLocked (m : Manager F) (now : Int) (id : String) :
    (m.reconcileLocked now).get? id = (m.get? id).map (·.reconcile m.warmupStages.length now) := by
  simp only [get?, reconcileLocked]
  rw [OrderedMap.get?_mapInOrder fun _ => Record.reconcile_idem]

@[simp] theorem toTuning_reconcileLocked : (m.reconcileLocked now).toTuning = m.toTuning := rfl

@[simp] theorem order_reconcileLocked : (m.reconcileLocked now).pool.order = m.pool.order := by
  simp only [reconcileLocked, OrderedMap.order_mapInOrder]

section

variable [OfScientific F] [LinearOrder F]

omit [OfScientific F] [LinearOrder F] in
@[simp] theorem get?_touchAll (p : Pool F) (id : String) :
    (p.touchAll dest now).get? id = (p.get? id).map (·.touch dest now) := by
  rw [Pool.touchAll, OrderedMap.get?_mapInOrder fun _ => Record.touch_touch]

/-- The identity the selection loop settles on. -/
def best (m : Manager F) (dest : String) (now : Int) : Option String :=
  m.pool.order.firstBest (m.pool.eligible m.toTuning dest now) (m.pool.beats dest)

/-- The result of a selection: all records are touched, and the best eligible one is returned. -/
theorem selectLocked_some {res : Pool F × Option (Record F × F)}
    (h : m.selectLocked dest now = some res) :
    res.1 = m.pool.touchAll dest now ∧
      res.2 = (m.best dest now).bind fun id =>
        (m.get? id).map fun r => (r.touch dest now, r.score dest) := by
  have hloop := selectLoop_some m.pool m.pool.order m.pool none (fun _ => rfl) (by simp) h
  exact hloop

theorem selectLocked_isSome (dest : String) (now : Int) (hcap : ∀ id r, m.get? id = some r →
    (Record.capFor m.toTuning r).isSome) : (m.selectLocked dest now).isSome :=
  selectLoop_isSome _ _ _ (fun id hid => (m.pool.mem_order id).mp hid) hcap

/-- What `Binding` does when it returns. The manager `m.reconcileLocked now` is the one
    it selects from; besides charging the chosen identity it only touches breakers. -/
theorem binding_some {ret : Except EgressError Binding}
    (h : m.binding now task = some (m', ret)) :
    let m₁ := m.reconcileLocked now
    (m₁.best (destOf task) now = none ∧ ret = .error .errNoEgress ∧
      m' = { m₁ with pool := m₁.pool.touchAll (destOf task) now }) ∨
    (∃ b r, m₁.best (destOf task) now = some b ∧ m₁.get? b = some r ∧
      ret = .ok r.spec.toBinding ∧
      m' = { m₁ with
        pool := (m₁.pool.touchAll (destOf task) now).modify b (·.charge)
          fun r h => r.id_charge.trans h
        dirty := true }) := by
  intro m₁
  rw [binding] at h
  cases hsel : m₁.selectLocked (destOf task) now with
  | none => simp [m₁, hsel] at h
  | some res =>
    obtain ⟨hpool, hbest⟩ := selectLocked_some hsel
    obtain ⟨pool, cand⟩ := res
    dsimp only at hpool hbest
    subst hpool hbest
    simp only [m₁] at hsel
    simp only [hsel] at h
    cases hb : m₁.best (destOf task) now with
    | none =>
      left
      simp only [m₁] at hb
      simp only [hb, Option.bind_none, Option.some.injEq, Prod.mk.injEq] at h
      exact ⟨rfl, h.2.symm, h.1.symm⟩
    | some b =>
      right
      -- the candidate is a copy of the record that is then charged in the pool
      have hmem := (List.mem_of_firstBest hb).1
      obtain ⟨r, hr⟩ := OrderedMap.exists_of_mem_order hmem
      have hid : (r.touch (destOf task) now).id = b :=
        Record.id_touch.trans (m₁.pool.key_eq b r hr)
      have hr' : (m.reconcileLocked now).get? b = some r := hr
      simp only [m₁] at hb
      simp only [hb, Option.bind_some, hr', Option.map_some, Option.some.injEq,
        Prod.mk.injEq] at h
      refine ⟨b, r, rfl, hr, ?_, ?_⟩
      · rw [← h.2, Record.touch_spec]
      · rw [← h.1]
        subst hid
        rfl

/-- `Binding` panics only on an index outside the warm-up table. -/
theorem binding_isSome (hcap : ∀ id r, (m.reconcileLocked now).get? id = some r →
    (Record.capFor m.toTuning r).isSome) (task : Task) : (m.binding now task).isSome := by
  obtain ⟨⟨pool, b⟩, hsel⟩ := Option.isSome_iff_exists.mp
    (selectLocked_isSome (m := m.reconcileLocked now) (destOf task) now hcap)
  unfold binding
  simp only [hsel]
  cases b <;> rfl

end

end Manager

end Rcptto.Native
