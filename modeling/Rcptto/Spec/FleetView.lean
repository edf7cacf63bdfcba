import Rcptto.ForStd.List
import Rcptto.Spec.Attribution
import Rcptto.Spec.Persist

/-!
# What the manager knows of the agents

The registry keeps what the agents say of themselves, and so does the manager, which is told only
when an agent goes online or offline. After each round of health checks the two agree on which
agents are online. An agent that stays online is not looked at again: if it reports another
address than before, the registry has the new one and the manager the old one.

A round is an execution in which each configured agent is checked once and at the end of which all
callbacks have returned. Anything else may happen in between, but for calls of `SetOnline` and
`AddIdentity`, which the server makes in the callback only.

## Key results

- `ControlPlane.Step.cases`, `ControlPlane.Step.quiet`: what a step can do
- `ControlPlane.Tracks.step`: what is known of one agent in the middle of a round
- `ControlPlane.Synced.round`, `ControlPlane.agrees_iff`: what a round does
- `ControlPlane.fleet_view_iff`: the two views agree after every round exactly if the agents are
  steady
- `ControlPlane.address_outdated`: an agent with a new address
-/

namespace Rcptto.Native

variable {F : Type}

/-! ## Operations on reachability and on specs -/

/-- The operation is a `SetOnline` or an `AddIdentity` for the identity `id`. -/
def Op.concerns (id : String) : Op F → Bool
  | .setOnline i _ => i == id
  | .addIdentity spec => spec.id == id
  | _ => false

/-- The operation is neither a `SetOnline` nor an `AddIdentity`. -/
def Op.indifferent : Op F → Bool
  | .setOnline _ _ | .addIdentity _ => false
  | _ => true

/-- An operation that is neither of the two concerns no identity. -/
theorem Op.concerns_of_indifferent {op : Op F} (h : op.indifferent = true) (id : String) :
    op.concerns id = false := by
  cases op <;> first | rfl | cases h

theorem Op.concerns_onChange {info : Agent.AgentInfo} {id : String} :
    (Agent.onChange (F := F) info).any (·.concerns id) = (info.id == id) := by
  unfold Agent.onChange
  cases info.online <;> simp [Op.concerns]

section Effect

variable [Add F] [Sub F] [Mul F] [OfScientific F]

/-- An operation that does not concern an identity leaves its reachability and its spec alone. -/
theorem Event.effect_of_concerns {e : Event F} {r : Record F} (h : e.op.concerns r.id = false) :
    (e.effect r).online = r.online ∧ (e.effect r).spec = r.spec := by
  unfold effect
  cases hop : e.op with
  | binding task =>
    dsimp only
    split <;> simp [Record.charge]
  | emit signals =>
    exact ⟨Record.applySignals_proj (·.online) (fun _ _ => Record.applySignal_online) r signals,
      Record.applySignals_proj (·.spec) (fun _ _ => Record.applySignal_spec) r signals⟩
  | restore states =>
    dsimp only
    refine List.foldlRecOn (motive := fun r' : Record F => r'.online = r.online ∧ r'.spec = r.spec)
      states _ ⟨rfl, rfl⟩ fun r' hr' st _ => ?_
    split
    · exact hr'
    · exact hr'
  | setThresholds quarantine circuit => exact ⟨rfl, rfl⟩
  | setOnline id online | addIdentity spec =>
    -- the two operations that concern the identity they name
    simp only [hop, Op.concerns, beq_eq_false_iff_ne, ne_eq] at h
    dsimp only
    rw [if_neg h]
    exact ⟨rfl, rfl⟩
  | enable id | disable id reason | quarantine id reason =>
    dsimp only
    split <;> exact ⟨rfl, rfl⟩

end Effect

/-! ## Health checks in the registry -/

namespace Agent.Registry

variable {r : Registry} {id i : String} {a : AgentState} {info : AgentInfo}
  {answer : Except String HealthResponse} {now : Int}

/-- A check does not change what is known of another agent. -/
theorem get?_check_of_ne (h : i ≠ id) : (r.check id answer now).1.get? i = r.get? i := by
  unfold check
  split
  · rfl
  · rw [OrderedMap.get?_modify_of_ne h]

theorem get?_check_self (h : r.get? id = some a) :
    (r.check id answer now).1.get? id = some (a.checked answer now) := by
  simp [check, h]

/-- A check reports an agent that has gone online or offline. -/
theorem check_snd (h : r.get? id = some a) : (r.check id answer now).2 =
    if a.online ≠ (a.checked answer now).online then some (a.checked answer now).info
    else none := by
  simp only [check, h]

/-- It reports the agent that was checked. -/
theorem id_of_check (h : (r.check id answer now).2 = some info) : info.id = id := by
  cases ha : r.get? id with
  | none => simp [check, ha] at h
  | some a =>
    rw [check_snd ha] at h
    -- only a change of the flag is reported
    split at h
    · cases h
      show (a.checked answer now).cfg.id = id
      rw [a.checked_cfg]
      exact r.key_eq id a ha
    · cases h

@[simp] theorem order_check : (r.check id answer now).1.order = r.order := by
  unfold check
  split <;> rfl

end Agent.Registry

/-! ## Rounds -/

namespace PlaneAction

/-- The agent that is checked. -/
def checks : PlaneAction F → Option String
  | .check id _ _ => some id
  | _ => none

/-- The action is part of a health check. -/
def isHealth : PlaneAction F → Bool
  | .check _ _ _ | .callback _ _ => true
  | _ => false

/-- The action is not a `SetOnline` or an `AddIdentity` outside of a callback. -/
def proper : PlaneAction F → Bool
  | .manage e => e.op.indifferent
  | _ => true

/-- What the agent `id` reports in a successful check. -/
def report (id : String) : PlaneAction F → Option Agent.HealthResponse
  | .check i (.ok health) _ => if i = id ∧ health.id = id then some health else none
  | _ => none

end PlaneAction

namespace ControlPlane

/-- All callbacks have returned. -/
def Idle (l : ControlPlane F) : Prop := ∀ ops ∈ l.callbacks, ops = []

/-- The callbacks with calls still to make for the agent `id`. -/
def pending (l : ControlPlane F) (id : String) : List (List (Op F)) :=
  l.callbacks.filter fun ops => ops.any (·.concerns id)

theorem Idle.pending {l : ControlPlane F} (h : l.Idle) (id : String) : l.pending id = [] := by
  refine List.filter_eq_nil_iff.mpr fun ops hops => ?_
  rw [h ops hops]
  simp

variable [Add F] [Sub F] [Mul F] [OfScientific F] [LinearOrder F]

/-- `CheckAll`, with whatever happens since the end of the one before. -/
structure Round (l : ControlPlane F) (as : List (PlaneAction F)) (l' : ControlPlane F) : Prop where
  runs : l.Runs as l'
  proper : ∀ a ∈ as, a.proper = true
  each : (as.filterMap PlaneAction.checks).Perm l.registry.order
  idle : l'.Idle

variable {l l' u u' : ControlPlane F} {as hist : List (PlaneAction F)} {b : PlaneAction F}
  {id : String} {a₀ : Agent.AgentState} {r₀ : Record F}

/-- What is not part of a health check leaves the registry and the callbacks alone and makes at
    most one call to the manager. -/
theorem Step.quiet (h : u.Step b u') (hb : b.isHealth = false) :
    u'.registry = u.registry ∧ u'.callbacks = u.callbacks ∧
      (u'.loop.manager = u.loop.manager ∨ ∃ e, u.loop.manager.Step e u'.loop.manager ∧
        (b.proper = true → e.op.indifferent = true)) := by
  unfold ControlPlane.Step at h
  -- probes and other calls of the manager; checks and callbacks are excluded
  cases b with
  | loop b =>
    obtain ⟨-, hloop, hregistry, hcallbacks⟩ := h
    refine ⟨hregistry, hcallbacks, ?_⟩
    cases b with
    | binding e =>
      obtain ⟨t, hop, hstep, -⟩ := hloop
      exact .inr ⟨e, hstep, fun _ => by rw [hop]; rfl⟩
    | verify k cfg env =>
      obtain ⟨t, b, -, hl⟩ := hloop
      exact .inl (by rw [hl])
    | emit k p e =>
      obtain ⟨-, hop, hstep, -⟩ := hloop
      exact .inr ⟨e, hstep, fun _ => by rw [hop]; rfl⟩
  | answer k response =>
    obtain ⟨t, b, -, -, rfl⟩ := h
    exact ⟨rfl, rfl, .inl rfl⟩
  | manage e =>
    obtain ⟨-, hstep, hl⟩ := h
    exact ⟨by rw [hl], by rw [hl], .inr ⟨e, hstep, id⟩⟩
  | check | callback => cases hb

/-- The three kinds of steps. -/
theorem Step.cases (h : u.Step b u') : b.isHealth = false ∨
    (∃ i answer now, b = .check i answer now ∧ u' = { u with
      registry := (u.registry.check i answer now).1
      callbacks := u.callbacks ++ (u.registry.check i answer now).2.toList.map Agent.onChange }) ∨
    ∃ k e rest, b = .callback k e ∧ u.callbacks[k]? = some (e.op :: rest) ∧
      u.loop.manager.Step e u'.loop.manager ∧ u'.registry = u.registry ∧
      u'.callbacks = u.callbacks.set k rest := by
  cases b with
  | loop | answer | manage => exact .inl rfl
  | check i answer now => exact .inr (.inl ⟨i, answer, now, rfl, h⟩)
  | callback k e =>
    obtain ⟨rest, hk, hcall, hl⟩ := h
    exact .inr (.inr ⟨k, e, rest, rfl, hk, hcall, by rw [hl], by rw [hl]⟩)

/-- Identities stay in the pool. -/
theorem Step.isSome_get? (h : u.Step b u') (hid : (u.loop.manager.get? id).isSome) :
    (u'.loop.manager.get? id).isSome := by
  obtain ⟨r, hr⟩ := Option.isSome_iff_exists.mp hid
  have hcall : ∀ e, u.loop.manager.Step e u'.loop.manager →
      (u'.loop.manager.get? id).isSome := by
    intro e hstep
    rw [hstep.get? hr]
    rfl
  -- no operation of the manager removes an identity
  rcases h.cases with hb | ⟨i, answer, now, -, rfl⟩ | ⟨k, e, rest, -, -, hstep, -⟩
  · rcases (h.quiet hb).2.2 with hmanager | ⟨e, hstep, -⟩
    · rw [hmanager]
      exact hid
    · exact hcall e hstep
  · exact hid
  · exact hcall e hstep

/-- Only health checks change the registry. -/
theorem Step.registry (h : u.Step b u') (hb : b.checks = none) : u'.registry = u.registry := by
  rcases h.cases with hb | ⟨i, answer, now, rfl, -⟩ | ⟨k, e, rest, -, -, -, hregistry, -⟩
  · exact (h.quiet hb).1
  · cases hb
  · exact hregistry

/-- The registry keeps its agents. -/
theorem Step.order (h : u.Step b u') : u'.registry.order = u.registry.order := by
  rcases h.cases with hb | ⟨i, answer, now, -, rfl⟩ | ⟨k, e, rest, -, -, -, hregistry, -⟩
  · rw [(h.quiet hb).1]
  · exact Agent.Registry.order_check
  · rw [hregistry]

/-! ## One agent in the middle of a round -/

/-- How far the news about an agent has come since the round began with `a₀` and `r₀`: its online
    state has not changed, or the callback is at its beginning, between its two calls, or done. -/
inductive Sync (a₀ : Agent.AgentState) (r₀ : Record F) (a : Agent.AgentState) (r : Record F) :
    List (List (Op F)) → Prop where
  | same (hsame : a.online = a₀.online) (honline : r.online = a.online)
      (hspec : r.spec = r₀.spec) : Sync a₀ r₀ a r []
  | called (hflip : a.online ≠ a₀.online) : Sync a₀ r₀ a r [Agent.onChange a.info]
  | between (hflip : a.online ≠ a₀.online) (ha : a.online = true) (hr : r.online = true) :
      Sync a₀ r₀ a r [[.addIdentity { id := a.cfg.id, ip := a.ip, helo := a.helo }]]
  | done (hflip : a.online ≠ a₀.online) (honline : r.online = a.online)
      (hspec : a.online = true → r.spec.ip = a.ip ∧ r.spec.helo = a.helo) : Sync a₀ r₀ a r []

omit [Add F] [Sub F] [Mul F] [OfScientific F] [LinearOrder F] in
/-- What is known of an agent depends on the reachability and the spec of its record only. -/
theorem Sync.congr {a : Agent.AgentState} {r r' : Record F} {ops : List (List (Op F))}
    (h : Sync a₀ r₀ a r ops) (honline : r'.online = r.online) (hspec : r'.spec = r.spec) :
    Sync a₀ r₀ a r' ops := by
  cases h with
  | same hsame hon hsp => exact .same hsame (honline.trans hon) (hspec.trans hsp)
  | called hflip => exact .called hflip
  | between hflip ha hr => exact .between hflip ha (honline.trans hr)
  | done hflip hon hsp => exact .done hflip (honline.trans hon) (hspec ▸ hsp)

/-- What is known of the agent `id` after the actions `hist` of a round. -/
def Tracks (id : String) (a₀ : Agent.AgentState) (r₀ : Record F) (hist : List (PlaneAction F))
    (u : ControlPlane F) : Prop :=
  ∃ a r, u.registry.get? id = some a ∧ u.loop.manager.get? id = some r ∧
    Sync a₀ r₀ a r (u.pending id) ∧
    (id ∉ hist.filterMap PlaneAction.checks → a.online = a₀.online ∧ u.pending id = [])

/-- A health check of another agent. -/
theorem Tracks.check_of_ne {i : String} {answer : Except String Agent.HealthResponse} {now : Int}
    (h : Tracks id a₀ r₀ hist u) (hstep : u.Step (.check i answer now) u') (hne : id ≠ i) :
    Tracks id a₀ r₀ (hist ++ [.check i answer now]) u' := by
  obtain ⟨a, r, ha, hr, hsync, hnew⟩ := h
  obtain rfl : u' = _ := hstep
  have hregistry : (u.registry.check i answer now).1.get? id = some a := by
    rw [← ha]
    exact Agent.Registry.get?_check_of_ne hne
  -- a callback that the check starts is for the other agent
  have hpending : ControlPlane.pending { u with
      registry := (u.registry.check i answer now).1
      callbacks := u.callbacks ++ (u.registry.check i answer now).2.toList.map Agent.onChange } id =
      u.pending id := by
    unfold ControlPlane.pending
    rw [List.filter_append, List.append_right_eq_self]
    refine List.filter_eq_nil_iff.mpr fun ops hops => ?_
    obtain ⟨info, hinfo, rfl⟩ := List.mem_map.mp hops
    rw [Op.concerns_onChange, Agent.Registry.id_of_check (Option.mem_toList.mp hinfo)]
    simpa using Ne.symm hne
  refine ⟨a, r, hregistry, hr, ?_, fun hmem => ?_⟩
  · rw [hpending]
    exact hsync
  · rw [hpending]
    exact hnew fun h => hmem (by simp [h])

/-- The health check of the agent, which is its first one in the round. -/
theorem Tracks.check_self {answer : Except String Agent.HealthResponse} {now : Int}
    (h : Tracks id a₀ r₀ hist u) (hstep : u.Step (.check id answer now) u')
    (hfirst : id ∉ hist.filterMap PlaneAction.checks) :
    Tracks id a₀ r₀ (hist ++ [.check id answer now]) u' := by
  obtain ⟨a, r, ha, hr, hsync, hnew⟩ := h
  obtain rfl : u' = _ := hstep
  obtain ⟨hsame, hnone⟩ := hnew hfirst
  rw [hnone] at hsync
  -- nothing is pending before the first check, so the manager agrees with the registry
  obtain ⟨honline, hspec⟩ : r.online = a₀.online ∧ r.spec = r₀.spec := by
    cases hsync with
    | same _ honline hspec => exact ⟨honline.trans hsame, hspec⟩
    | done hflip => exact absurd hsame hflip
  have hregistry : (u.registry.check id answer now).1.get? id = some (a.checked answer now) :=
    Agent.Registry.get?_check_self ha
  have hpending : ControlPlane.pending { u with
      registry := (u.registry.check id answer now).1
      callbacks := u.callbacks ++
        (u.registry.check id answer now).2.toList.map Agent.onChange } id =
      if a.online ≠ (a.checked answer now).online then
        [Agent.onChange (a.checked answer now).info] else [] := by
    have hid : (a.checked answer now).info.id = id := by
      show (a.checked answer now).cfg.id = id
      rw [a.checked_cfg]
      exact u.registry.key_eq id a ha
    unfold ControlPlane.pending at hnone ⊢
    rw [List.filter_append, hnone, List.nil_append, Agent.Registry.check_snd ha]
    split
    · simp [Op.concerns_onChange, hid]
    · rfl
  refine ⟨_, r, hregistry, hr, ?_, fun hmem => absurd (by simp [PlaneAction.checks]) hmem⟩
  rw [hpending]
  split
  · next hflip => exact .called fun h => hflip (hsame.trans h.symm)
  · next hflip =>
    have hkept : (a.checked answer now).online = a₀.online := by
      rw [← hsame]
      exact (not_not.mp hflip).symm
    exact .same hkept (honline.trans hkept.symm) hspec

/-- A call of a callback. -/
theorem Tracks.callback {k : Nat} {e : Event F} (h : Tracks id a₀ r₀ hist u)
    (hstep : u.Step (.callback k e) u') : Tracks id a₀ r₀ (hist ++ [.callback k e]) u' := by
  obtain ⟨a, r, ha, hr, hsync, hnew⟩ := h
  obtain ⟨rest, hk, hcall, hl⟩ := hstep
  have hregistry : u'.registry.get? id = some a := by
    rw [hl]
    exact ha
  have hpending : u'.pending id =
      (u.callbacks.set k rest).filter fun ops => ops.any (·.concerns id) := by
    rw [hl]
    rfl
  have hrid : r.id = id := u.loop.manager.pool.key_eq id r hr
  have hr' := hcall.get? hr
  have hsnoc : id ∉ (hist ++ [PlaneAction.callback k e]).filterMap PlaneAction.checks →
      id ∉ hist.filterMap PlaneAction.checks := fun hmem h => hmem (by simp [h])
  cases hmine : (e.op :: rest).any (·.concerns id) with
  | false =>
    -- the callback of another agent
    simp only [List.any_cons, Bool.or_eq_false_iff] at hmine
    have hkept : u'.pending id = u.pending id := by
      rw [hpending]
      exact List.filter_set_of_not hk (by simp [hmine]) hmine.2
    obtain ⟨honline, hspec⟩ := Event.effect_of_concerns (e := e) (r := r) (hrid ▸ hmine.1)
    rw [← hkept] at hsync hnew
    exact ⟨a, _, hregistry, hr', hsync.congr honline hspec, fun hmem => hnew (hsnoc hmem)⟩
  | true =>
    -- the one callback for this agent takes a step
    have hmem : e.op :: rest ∈ u.pending id :=
      List.mem_filter.mpr ⟨List.mem_of_getElem? hk, hmine⟩
    have hnext : ∀ ops, u.pending id = [ops] → e.op :: rest = ops ∧
        u'.pending id = [rest].filter fun ops => ops.any (·.concerns id) := by
      intro ops hops
      obtain ⟨heq, hset⟩ := List.filter_set_of_filter_eq hk hmine hops rest
      exact ⟨heq, hpending.trans hset⟩
    have hchecked : id ∈ hist.filterMap PlaneAction.checks := by
      by_contra hfirst
      rw [(hnew hfirst).2] at hmem
      cases hmem
    refine ⟨a, _, hregistry, hr', ?_, fun hmem => absurd hchecked (hsnoc hmem)⟩
    have hcfg : a.cfg.id = id := u.registry.key_eq id a ha
    generalize hops : u.pending id = ops at hsync hmem
    cases hsync with
    | same | done => cases hmem
    | called hflip =>
      obtain ⟨heq, hrest⟩ := hnext _ hops
      obtain ⟨hop, rfl⟩ := List.cons.inj heq
      have heffect : e.effect r = r.setOnline a.online := by
        unfold Event.effect
        rw [hop]
        exact if_pos (hcfg.trans hrid.symm)
      rw [hrest, heffect]
      cases honline : a.online with
      | false =>
        have hdone : Sync a₀ r₀ a (r.setOnline false) [] :=
          .done hflip honline.symm fun h => absurd (honline.symm.trans h) (by simp)
        simpa [Agent.AgentState.info, honline] using hdone
      | true =>
        have hbetween : Sync a₀ r₀ a (r.setOnline true) _ := .between hflip honline rfl
        simpa [Agent.AgentState.info, honline, Op.concerns, hcfg] using hbetween
    | between hflip honline hr =>
      obtain ⟨heq, hrest⟩ := hnext _ hops
      obtain ⟨hop, rfl⟩ := List.cons.inj heq
      have heffect : e.effect r =
          r.setSpec { id := a.cfg.id, ip := a.ip, helo := a.helo } := by
        unfold Event.effect
        rw [hop]
        exact if_pos (hcfg.trans hrid.symm)
      rw [hrest, heffect]
      exact .done hflip (hr.trans honline.symm) fun _ => ⟨rfl, rfl⟩

/-- One step of a round. No agent is checked twice. -/
theorem Tracks.step (h : Tracks id a₀ r₀ hist u) (hstep : u.Step b u') (hproper : b.proper = true)
    (hnodup : ((hist ++ [b]).filterMap PlaneAction.checks).Nodup) :
    Tracks id a₀ r₀ (hist ++ [b]) u' := by
  cases hb : b.isHealth with
  | false =>
    -- the manager may be called, but not with an operation that concerns the agent
    obtain ⟨hregistry, hcallbacks, hmanager⟩ := hstep.quiet hb
    obtain ⟨a, r, ha, hr, hsync, hnew⟩ := h
    obtain ⟨r', hr', honline, hspec⟩ : ∃ r', u'.loop.manager.get? id = some r' ∧
        r'.online = r.online ∧ r'.spec = r.spec := by
      rcases hmanager with hmanager | ⟨e, hcall, hop⟩
      · exact ⟨r, hmanager ▸ hr, rfl, rfl⟩
      · exact ⟨_, hcall.get? hr,
          Event.effect_of_concerns (Op.concerns_of_indifferent (hop hproper) _)⟩
    have hpending : u'.pending id = u.pending id := by
      unfold pending
      rw [hcallbacks]
    rw [← hregistry] at ha
    rw [← hpending] at hsync hnew
    exact ⟨a, r', ha, hr', hsync.congr honline hspec, fun hmem => hnew fun h => hmem (by simp [h])⟩
  | true =>
    cases b with
    | check i answer now =>
      by_cases hi : id = i
      · subst hi
        refine h.check_self hstep fun hmem => ?_
        rw [List.filterMap_append, List.nodup_append] at hnodup
        exact hnodup.2.2 id hmem id (by simp [PlaneAction.checks]) rfl
      · exact h.check_of_ne hstep hi
    | callback k e => exact h.callback hstep
    | loop | answer | manage => cases hb

/-! ## A round -/

/-- Between two rounds no callback is under way, and the manager knows which agents are online. -/
structure Synced (l : ControlPlane F) : Prop where
  idle : l.Idle
  nodup : l.registry.order.Nodup
  online : ∀ id a, l.registry.get? id = some a →
    ∃ r, l.loop.manager.get? id = some r ∧ r.online = a.online

/-- A round is over for an agent: if its online state has not changed, its spec has not either, and
    if it is newly online, it has the address and the name that it reported. -/
def Settled (a₀ : Agent.AgentState) (r₀ : Record F) (a : Agent.AgentState) (r : Record F) : Prop :=
  r.online = a.online ∧
    (a.online = a₀.online ∧ r.spec = r₀.spec ∨
      a.online ≠ a₀.online ∧ (a.online = true → r.spec.ip = a.ip ∧ r.spec.helo = a.helo))

/-- What a round does to one agent. -/
theorem Round.settled (h : l.Round as l') (hl : l.Synced) {r₀ : Record F}
    (ha₀ : l.registry.get? id = some a₀) (hr₀ : l.loop.manager.get? id = some r₀)
    (honline : r₀.online = a₀.online) :
    ∃ a r, l'.registry.get? id = some a ∧ l'.loop.manager.get? id = some r ∧
      Settled a₀ r₀ a r := by
  have hstart : Tracks id a₀ r₀ [] l := by
    refine ⟨a₀, r₀, ha₀, hr₀, ?_, fun _ => ⟨rfl, hl.idle.pending id⟩⟩
    rw [hl.idle.pending id]
    exact .same rfl honline rfl
  have hnodup : (as.filterMap PlaneAction.checks).Nodup := h.each.nodup_iff.mpr hl.nodup
  have hrestricted := h.runs.restrict (Q := fun _ b _ => b.proper = true)
    fun _ b _ hb _ => h.proper b hb
  -- the checks made so far are part of those of the round, so no agent occurs twice
  have htracks : (as.filterMap PlaneAction.checks).Nodup → Tracks id a₀ r₀ as l' := by
    refine hrestricted.history
      (I := fun hist u => (hist.filterMap PlaneAction.checks).Nodup → Tracks id a₀ r₀ hist u)
      (fun _ => hstart) ?_
    intro hist u b u' _ ih hstep hnodup
    refine (ih ?_).step hstep.2 hstep.1 hnodup
    rw [List.filterMap_append] at hnodup
    exact (List.nodup_append.mp hnodup).1
  obtain ⟨a, r, ha, hr, hsync, -⟩ := htracks hnodup
  rw [h.idle.pending id] at hsync
  refine ⟨a, r, ha, hr, ?_⟩
  cases hsync with
  | same hsame honline hspec => exact ⟨honline, .inl ⟨hsame, hspec⟩⟩
  | done hflip honline hspec => exact ⟨honline, .inr ⟨hflip, hspec⟩⟩

theorem Round.order (h : l.Round as l') : l'.registry.order = l.registry.order :=
  h.runs.invariant (P := fun u => u.registry.order = l.registry.order) rfl
    fun _ _ _ _ hu hstep => hstep.order.trans hu

/-- An agent of the registry after a round was there before. -/
theorem Round.exists_before {a : Agent.AgentState} (h : l.Round as l')
    (ha : l'.registry.get? id = some a) : ∃ a₀, l.registry.get? id = some a₀ := by
  have hmem : id ∈ l'.registry.order := OrderedMap.mem_order_of_get? ha
  rw [h.order] at hmem
  exact OrderedMap.exists_of_mem_order hmem

/-- After a round the manager knows again which agents are online. -/
theorem Synced.round (hl : l.Synced) (h : l.Round as l') : l'.Synced := by
  refine ⟨h.idle, h.order ▸ hl.nodup, fun id a ha => ?_⟩
  obtain ⟨a₀, ha₀⟩ := h.exists_before ha
  obtain ⟨r₀, hr₀, honline⟩ := hl.online id a₀ ha₀
  obtain ⟨a', r, ha', hr, hsettled⟩ := h.settled hl ha₀ hr₀ honline
  rw [ha] at ha'
  cases ha'
  exact ⟨r, hr, hsettled.1⟩

/-- The manager has the address and the name of the registry for every agent that is online. -/
def Agrees (l : ControlPlane F) : Prop :=
  ∀ id a r, l.registry.get? id = some a → l.loop.manager.get? id = some r → a.online = true →
    r.spec.ip = a.ip ∧ r.spec.helo = a.helo

/-- An agent that is online before and after has the same address and name. -/
def Steady (l l' : ControlPlane F) : Prop :=
  ∀ id a a', l.registry.get? id = some a → l'.registry.get? id = some a' →
    a.online = true → a'.online = true → a'.ip = a.ip ∧ a'.helo = a.helo

/-- If the two agree before a round, they agree after it exactly if the agents are steady. -/
theorem agrees_iff (hl : l.Synced) (hagrees : l.Agrees) (h : l.Round as l') :
    l'.Agrees ↔ l.Steady l' := by
  constructor
  · intro hagrees' id a₀ a ha₀ ha honline₀ honline
    obtain ⟨r₀, hr₀, hon⟩ := hl.online id a₀ ha₀
    obtain ⟨a', r, ha', hr, -, hspec⟩ := h.settled hl ha₀ hr₀ hon
    obtain rfl : a = a' := Option.some.inj (ha.symm.trans ha')
    -- the agent was not newly online, so the manager has what it had before
    obtain ⟨-, hspec⟩ := hspec.resolve_right fun h => h.1 (honline.trans honline₀.symm)
    obtain ⟨hip, hhelo⟩ := hagrees' id a r ha hr honline
    obtain ⟨hip₀, hhelo₀⟩ := hagrees id a₀ r₀ ha₀ hr₀ honline₀
    rw [← hip, ← hhelo, hspec]
    exact ⟨hip₀, hhelo₀⟩
  · intro hsteady id a r ha hr honline
    obtain ⟨a₀, ha₀⟩ := h.exists_before ha
    obtain ⟨r₀, hr₀, hon⟩ := hl.online id a₀ ha₀
    obtain ⟨a', r', ha', hr', -, hspec⟩ := h.settled hl ha₀ hr₀ hon
    obtain rfl : a = a' := Option.some.inj (ha.symm.trans ha')
    obtain rfl : r = r' := Option.some.inj (hr.symm.trans hr')
    rcases hspec with ⟨hsame, hspec⟩ | ⟨-, hnew⟩
    · have honline₀ : a₀.online = true := hsame.symm.trans honline
      obtain ⟨hip, hhelo⟩ := hsteady id a₀ a ha₀ ha honline₀ honline
      rw [hspec, hip, hhelo]
      exact hagrees id a₀ r₀ ha₀ hr₀ honline₀
    · exact hnew honline

/-! ## Reports -/

/-- The last successful check of the agent `id`. -/
def latest (id : String) (as : List (PlaneAction F)) : Option Agent.HealthResponse :=
  (as.filterMap (PlaneAction.report id)).getLast?

omit [Add F] [Sub F] [Mul F] [OfScientific F] [LinearOrder F] in
theorem latest_snoc_of_none (h : b.report id = none) :
    latest id (hist ++ [b]) = latest id hist := by
  simp [latest, h]

omit [Add F] [Sub F] [Mul F] [OfScientific F] [LinearOrder F] in
theorem latest_snoc_of_some {health : Agent.HealthResponse} (h : b.report id = some health) :
    latest id (hist ++ [b]) = some health := by
  simp [latest, h]

/-- The registry has what the agents that are online reported last. -/
def Reported (hist : List (PlaneAction F)) (u : ControlPlane F) : Prop :=
  ∀ id a, u.registry.get? id = some a → a.online = true →
    ∃ health, latest id hist = some health ∧ a.ip = health.ip ∧ a.helo = health.helo

/-- One step: what the registry has of an agent that is online is what the agent reported last. -/
theorem Reported.step (h : Reported hist u) (hstep : u.Step b u') : Reported (hist ++ [b]) u' := by
  intro id a ha honline
  cases b with
  | check i answer now =>
    obtain rfl : u' = _ := hstep
    by_cases hi : id = i
    · subst hi
      obtain ⟨a₀, ha₀⟩ : ∃ a₀, u.registry.get? id = some a₀ := by
        have hmem := OrderedMap.mem_order_of_get? ha
        rw [Agent.Registry.order_check] at hmem
        exact OrderedMap.exists_of_mem_order hmem
      obtain rfl : a = a₀.checked answer now :=
        Option.some.inj (ha.symm.trans (Agent.Registry.get?_check_self ha₀))
      cases answer with
      | error err => cases honline
      | ok health =>
        have hcfg : a₀.cfg.id = id := u.registry.key_eq id a₀ ha₀
        -- an agent that reports another id counts as offline
        by_cases hid : health.id = id
        · refine ⟨health, latest_snoc_of_some ?_, ?_⟩
          · simp [PlaneAction.report, hid]
          · simp [Agent.AgentState.checked, hid, hcfg]
        · simp [Agent.AgentState.checked, hid, hcfg] at honline
    · rw [latest_snoc_of_none]
      · exact h id a ((Agent.Registry.get?_check_of_ne hi).symm.trans ha) honline
      · cases answer with
        | error err => rfl
        | ok health => simp [PlaneAction.report, Ne.symm hi]
  | loop | answer | callback | manage =>
    rw [latest_snoc_of_none rfl]
    exact h id a (hstep.registry rfl ▸ ha) honline

/-! ## Snapshots -/

/-- The agents of the registry are in the pool, and callbacks call `SetOnline` and `AddIdentity`
    for them only. -/
structure Owned (u : ControlPlane F) : Prop where
  pool : ∀ id, id ∈ u.registry.order → (u.loop.manager.get? id).isSome
  calls : ∀ ops ∈ u.callbacks, ∀ op ∈ ops, (∃ id online, op = .setOnline id online) ∨
    ∃ spec, op = .addIdentity spec ∧ spec.id ∈ u.registry.order

omit [Add F] [Sub F] [Mul F] [OfScientific F] [LinearOrder F] in
/-- The callback sets the flag of an agent, and introduces it if it is online. -/
theorem Owned.calls_onChange {r : Agent.Registry} {i : String}
    {answer : Except String Agent.HealthResponse} {now : Int} {info : Agent.AgentInfo}
    (h : (r.check i answer now).2 = some info) :
    ∀ op ∈ Agent.onChange (F := F) info, (∃ id online, op = .setOnline id online) ∨
      ∃ spec, op = .addIdentity spec ∧ spec.id ∈ r.order := by
  have hmem : info.id ∈ r.order := by
    rw [Agent.Registry.id_of_check h]
    cases hr : r.get? i with
    | none => simp [Agent.Registry.check, hr] at h
    | some a => exact OrderedMap.mem_order_of_get? hr
  intro op hop
  -- the flag comes first, and the identity only if it is online
  rcases List.mem_cons.mp hop with rfl | hop
  · exact .inl ⟨_, _, rfl⟩
  · split at hop
    · exact .inr ⟨_, List.mem_singleton.mp hop, hmem⟩
    · cases hop

/-- One step: the pool knows all agents, and callbacks concern agents only. -/
theorem Owned.step (h : u.Owned) (hstep : u.Step b u') : u'.Owned := by
  have horder := hstep.order
  refine ⟨fun id hid => hstep.isSome_get? (h.pool id (horder ▸ hid)), ?_⟩
  rw [horder]
  -- no callback is started or run, a check starts one, or one of them makes its next call
  rcases hstep.cases with hb | ⟨i, answer, now, -, rfl⟩ | ⟨k, e, rest, -, hk, -, -, hcallbacks⟩
  · rw [(hstep.quiet hb).2.1]
    exact h.calls
  · intro ops hops
    rcases List.mem_append.mp hops with hops | hops
    · exact h.calls ops hops
    · obtain ⟨info, hinfo, rfl⟩ := List.mem_map.mp hops
      exact Owned.calls_onChange (Option.mem_toList.mp hinfo)
  · rw [hcallbacks]
    intro ops hops
    rcases List.mem_or_eq_of_mem_set hops with hops | rfl
    · exact h.calls ops hops
    · exact fun op hop => h.calls _ (List.mem_of_getElem? hk) op (List.mem_cons_of_mem _ hop)

/-- No part of a health check changes what a snapshot shows. -/
theorem Owned.snapshot (h : u.Owned) (hstep : u.Step b u') (hb : b.isHealth = true) :
    u'.loop.manager.snapshot = u.loop.manager.snapshot := by
  -- a check does not touch the manager, and neither of the two calls of a callback changes a
  -- snapshot of known agents
  cases b with
  | check i answer now =>
    obtain rfl : u' = _ := hstep
    rfl
  | callback k e =>
    obtain ⟨rest, hk, ⟨-, hexec⟩, -⟩ := hstep
    rcases h.calls _ (List.mem_of_getElem? hk) e.op List.mem_cons_self with
      ⟨id, online, hop⟩ | ⟨spec, hop, hspec⟩
    · simp only [hop, Manager.exec, Option.some.injEq, Prod.mk.injEq] at hexec
      rw [← hexec.1, Manager.snapshot_setOnline]
    · obtain ⟨r, hr⟩ := Option.isSome_iff_exists.mp (h.pool spec.id hspec)
      simp only [hop, Manager.exec, Option.some.injEq, Prod.mk.injEq] at hexec
      rw [← hexec.1, Manager.snapshot_addIdentity _ hr]
  | loop | answer | manage => cases hb

/-- So no step of a whole execution changes the snapshot unless it is one of the others. -/
theorem Owned.runs (h : u.Owned) (hruns : u.Runs as u') :
    Run (fun u b u' => (b.isHealth = true →
      u'.loop.manager.snapshot = u.loop.manager.snapshot) ∧ u.Step b u') u as u' := by
  induction hruns with
  | nil => exact .nil _
  | cons hstep _ ih => exact .cons ⟨h.snapshot hstep, hstep⟩ (ih (h.step hstep))

end ControlPlane

/-! ## Start-up -/

namespace Agent.Registry

variable {r r' : Registry} {cfgs : List AgentConfig}

/-- `NewRegistry` adds the configured agents in order, each once and offline. -/
theorem addAll_spec (h : addAll r cfgs = .ok r') (hnodup : r.order.Nodup)
    (hoffline : ∀ id a, r.get? id = some a → a.online = false) :
    r'.order = r.order ++ cfgs.map (·.id) ∧ r'.order.Nodup ∧
      ∀ id a, r'.get? id = some a → a.online = false := by
  induction cfgs generalizing r with
  | nil =>
    cases h
    exact ⟨by simp, hnodup, hoffline⟩
  | cons cfg cfgs ih =>
    unfold addAll at h
    split at h
    · cases h
    · split at h
      · cases h
      · next hnew =>
        -- an id that is there already would have been an error
        have hnotMem : cfg.id ∉ r.order := fun hmem => hnew ((r.mem_order cfg.id).mp hmem)
        have hspec := ih h (by simpa [List.nodup_append] using ⟨hnodup, fun x hx => by
          rintro rfl; exact hnotMem hx⟩) ?_
        · obtain ⟨horder, hrest⟩ := hspec
          exact ⟨by simpa using horder, hrest⟩
        · intro id a ha
          by_cases hid : id = cfg.id
          · subst hid
            have hself := OrderedMap.get?_push_self (m := r) (v := { cfg := cfg })
            cases ha.symm.trans hself
            rfl
          · rw [OrderedMap.get?_push_of_ne (v := ({ cfg := cfg } : AgentState)) hid] at ha
            exact hoffline id a ha

/-- A new registry has the configured agents, each once and offline. -/
theorem new_spec (h : new cfgs = .ok r) : r.order = cfgs.map (·.id) ∧ r.order.Nodup ∧
    ∀ id a, r.get? id = some a → a.online = false :=
  addAll_spec h List.nodup_nil (by simp)

end Agent.Registry

namespace Manager

variable {m : Manager F} {id i : String} {r : Record F}

theorem get?_setOnline {online : Bool} (h : m.get? id = some r) :
    (m.setOnline i online).get? id = some (if i = r.id then r.setOnline online else r) := by
  rw [get?, pool_setOnline, OrderedMap.get?_modify h]

/-- `AddIdentity` does not touch reachability. -/
theorem online_addIdentity (now : Int) (spec : Spec) (h : m.get? id = some r) :
    ∃ r', (m.addIdentity now spec).get? id = some r' ∧ r'.online = r.online := by
  -- a known identity keeps its flag, and a new one is not this one
  cases hspec : m.get? spec.id with
  | some r₁ =>
    rw [get?, pool_addIdentity_of_some hspec, OrderedMap.get?_modify h]
    exact ⟨_, rfl, by split <;> rfl⟩
  | none =>
    have hne : id ≠ spec.id := by
      rintro rfl
      rw [hspec] at h
      cases h
    rw [get?, pool_addIdentity_of_none hspec,
      OrderedMap.get?_push_of_ne (v := Record.fresh spec now) hne]
    exact ⟨r, h, rfl⟩

/-- After `AddIdentity` the identity is known. -/
theorem exists_addIdentity (m : Manager F) (now : Int) (spec : Spec) :
    ∃ r, (m.addIdentity now spec).get? spec.id = some r := by
  cases hspec : m.get? spec.id with
  | some r =>
    obtain ⟨r', hr', -⟩ := online_addIdentity now spec hspec
    exact ⟨r', hr'⟩
  | none =>
    rw [get?, pool_addIdentity_of_none hspec]
    exact ⟨_, OrderedMap.get?_push_self (m := m.pool) (v := .fresh spec now)⟩

/-- An agent that is registered, or was, stays out of routing. -/
theorem offline_registerAgent {agent : String × Int}
    (h : agent.1 = id ∨ ∃ r, m.get? id = some r ∧ r.online = false) :
    ∃ r, (m.registerAgent agent).get? id = some r ∧ r.online = false := by
  unfold registerAgent
  -- the agent itself is set offline, and another one keeps its flag
  by_cases hid : agent.1 = id
  · subst hid
    obtain ⟨r, hr⟩ := m.exists_addIdentity agent.2 (agentSpec agent.1)
    have hkey : r.id = agent.1 := (m.addIdentity agent.2 (agentSpec agent.1)).pool.key_eq _ r hr
    refine ⟨_, get?_setOnline hr, ?_⟩
    rw [if_pos hkey.symm]
    rfl
  · obtain ⟨r, hr, hoffline⟩ := h.resolve_left hid
    obtain ⟨r', hr', honline⟩ := online_addIdentity agent.2 (agentSpec agent.1) hr
    refine ⟨_, get?_setOnline hr', ?_⟩
    split
    · rfl
    · rw [honline, hoffline]

/-- The agents start offline. -/
theorem offline_registerAgents {agents : List (String × Int)}
    (h : id ∈ agents.map (·.1) ∨ ∃ r, m.get? id = some r ∧ r.online = false) :
    ∃ r, (agents.foldl registerAgent m).get? id = some r ∧ r.online = false := by
  induction agents generalizing m with
  | nil => exact h.resolve_left (by simp)
  | cons agent agents ih =>
    rw [List.foldl_cons]
    -- an agent that is registered twice is offline after the last time
    by_cases hmem : id ∈ agents.map (·.1)
    · exact ih (.inl hmem)
    · refine ih (.inr (offline_registerAgent ?_))
      rcases h with h | h
      · rw [List.map_cons, List.mem_cons] at h
        exact .inl (h.resolve_right hmem).symm
      · exact .inr h

end Manager

namespace ControlPlane

variable [OfScientific F] [LinearOrder F] {helo mailFrom : String} {start : Int}
  {states : List (EgressState F)} {agents : List (String × Int)} {registry : Agent.Registry}
  {cfgs : List Agent.AgentConfig}

/-- After start-up all configured agents are known to be offline. -/
theorem synced_startUp (hnew : Agent.Registry.new cfgs = .ok registry)
    (hagents : agents.map (·.1) = cfgs.map (·.id)) :
    Synced (startUp helo mailFrom start states agents registry) := by
  obtain ⟨horder, hnodup, hoffline⟩ := Agent.Registry.new_spec hnew
  refine ⟨fun ops hops => (by cases hops), hnodup, fun id a ha => ?_⟩
  have hmem : id ∈ registry.order := OrderedMap.mem_order_of_get? ha
  rw [horder, ← hagents] at hmem
  obtain ⟨r, hr, hoff⟩ := Manager.offline_registerAgents (.inl hmem)
  exact ⟨r, hr, hoff.trans (hoffline id a ha).symm⟩

/-- After start-up the pool knows all agents, and no callback is under way. -/
theorem owned_startUp (hnew : Agent.Registry.new cfgs = .ok registry)
    (hagents : agents.map (·.1) = cfgs.map (·.id)) :
    Owned (startUp helo mailFrom start states agents registry) := by
  refine ⟨fun id hid => ?_, fun ops hops => by cases hops⟩
  obtain ⟨a, ha⟩ := OrderedMap.exists_of_mem_order hid
  obtain ⟨r, hr, -⟩ := (synced_startUp hnew hagents).online id a ha
  rw [hr]
  rfl

end ControlPlane

namespace ControlPlane

variable [Add F] [Sub F] [Mul F] [OfScientific F] [LinearOrder F]

/-- A sequence of rounds is one execution. -/
theorem runs_flatten {l l' : ControlPlane F} {rounds : List (List (PlaneAction F))}
    (h : Run Round l rounds l') : l.Runs rounds.flatten l' := by
  induction h with
  | nil => exact .nil _
  | cons hround _ ih => exact hround.runs.append ih

/-- After start-up and any sequence of rounds: the manager has the record of each configured
    agent, with the online state of the registry. For an agent that is online the registry has
    what it reported in its last successful check. No part of a health check changes what a
    snapshot shows. And the manager has the reported address and name of every agent that is
    online, after each of the rounds, exactly if no agent that stays online over a round reports
    anything else than before. -/
theorem fleet_view_iff {helo mailFrom : String} {start : Int} {states : List (EgressState F)}
    {agents : List (String × Int)} {cfgs : List Agent.AgentConfig} {registry : Agent.Registry}
    {l₀ l : ControlPlane F} {rounds : List (List (PlaneAction F))}
    (hnew : Agent.Registry.new cfgs = .ok registry)
    (hagents : agents.map (·.1) = cfgs.map (·.id))
    (hstart : l₀ = startUp helo mailFrom start states agents registry)
    (h : Run Round l₀ rounds l) :
    (∀ cfg ∈ cfgs, ∃ a r, l.registry.get? cfg.id = some a ∧ l.loop.manager.get? cfg.id = some r ∧
      r.online = a.online ∧
      (a.online = true → ∃ health, latest cfg.id rounds.flatten = some health ∧
        a.ip = health.ip ∧ a.helo = health.helo)) ∧
    Run (fun u b u' => (b.isHealth = true →
      u'.loop.manager.snapshot = u.loop.manager.snapshot) ∧ u.Step b u') l₀ rounds.flatten l ∧
    (Run (fun l as l' => l'.Agrees ∧ l.Round as l') l₀ rounds l ↔
      Run (fun l as l' => l.Steady l' ∧ l.Round as l') l₀ rounds l) := by
  have hsynced : l₀.Synced := hstart ▸ synced_startUp hnew hagents
  have howned : l₀.Owned := hstart ▸ owned_startUp hnew hagents
  have hregistry : l₀.registry = registry := by rw [hstart]; rfl
  obtain ⟨horder, -, hoffline⟩ := Agent.Registry.new_spec hnew
  have hruns := runs_flatten h
  refine ⟨fun cfg hcfg => ?_, ?_, ?_⟩
  · have hlast : l.Synced := h.invariant hsynced fun _ _ _ _ hl hround => hl.round hround
    have hagent : cfg.id ∈ l.registry.order := by
      have hkept : l.registry.order = l₀.registry.order :=
        h.invariant (P := fun u => u.registry.order = l₀.registry.order) rfl
          fun _ _ _ _ hu hround => hround.order.trans hu
      rw [hkept, hregistry, horder]
      exact List.mem_map_of_mem hcfg
    have hreported : Reported rounds.flatten l := by
      refine hruns.history ?_ fun _ _ _ _ _ hr hstep => hr.step hstep
      intro id a ha honline
      rw [hregistry] at ha
      exact absurd (honline.symm.trans (hoffline id a ha)) (by simp)
    obtain ⟨a, ha⟩ := OrderedMap.exists_of_mem_order hagent
    obtain ⟨r, hr, honline⟩ := hlast.online cfg.id a ha
    exact ⟨a, r, ha, hr, honline, hreported cfg.id a ha⟩
  · exact howned.runs hruns
  · refine Run.restrict_iff (P := fun l : ControlPlane F => l.Synced ∧ l.Agrees) ⟨hsynced, ?_⟩
      (fun _ _ _ hl hagrees hround => ⟨hl.1.round hround, hagrees⟩)
      fun _ _ _ hl hround => agrees_iff hl.1 hl.2 hround
    -- no agent is online yet
    intro id a r ha _ honline
    rw [hregistry] at ha
    exact absurd (honline.symm.trans (hoffline id a ha)) (by simp)

/-! ## An agent with a new address -/

/-- The execution of a script, if it is a round. -/
def scriptedRound (l : ControlPlane F) (cs : List (PlaneCall F)) :
    Option (List (PlaneAction F) × ControlPlane F) :=
  (l.perform cs).filter fun (as, l') =>
    as.all (·.proper) && decide (as.filterMap PlaneAction.checks = l.registry.order) &&
      l'.callbacks.all List.isEmpty

/-- A script that checks each agent once and lets all callbacks return is a round. -/
theorem round_of_scriptedRound {l l' : ControlPlane F} {cs : List (PlaneCall F)}
    {as : List (PlaneAction F)} (h : l.scriptedRound cs = some (as, l')) : l.Round as l' := by
  obtain ⟨hperform, hround⟩ := Option.filter_eq_some_iff.mp h
  simp only [Bool.and_eq_true, List.all_eq_true, decide_eq_true_eq] at hround
  obtain ⟨⟨hproper, heach⟩, hidle⟩ := hround
  exact ⟨runs_of_perform hperform, hproper, .of_eq heach,
    fun ops hops => List.isEmpty_iff.mp (hidle ops hops)⟩

/-- The address of an agent in the registry, if it is online, and in the manager. -/
def addresses (l : ControlPlane F) (id : String) : Option String × Option String :=
  (((l.registry.get? id).filter (·.online)).map (·.ip), (l.loop.manager.get? id).map (·.spec.ip))

/-- The configuration of one agent. -/
def soloAgent : Agent.AgentConfig := ⟨"w1", "https://a.example.org", "secret"⟩

/-- The registry of one agent. -/
def soloRegistry : Agent.Registry := OrderedMap.empty.push { cfg := soloAgent }

/-- The server after start-up, with one agent configured. -/
def soloPlane : ControlPlane ℚ :=
  startUp "mx.example.org" "verify@example.org" 0 [] [("w1", 0)] soloRegistry

/-- The agent passes a health check with the address `ip`. -/
def reachedAt (ip : String) : PlaneCall ℚ :=
  .check "w1" (.ok { (agentAs "w1").handleHealth with ip := ip }) 0

/-- A round in which the agent goes online. -/
def goesOnline : List (PlaneCall ℚ) := [reachedAt "192.0.2.1", .callback 0 0, .callback 0 0]

/-- The agent is restarted with another address between two rounds. The registry has the new
    address, and the manager keeps the old one. -/
theorem address_outdated : ∃ rounds l, Run Round soloPlane rounds l ∧
    l.addresses "w1" = (some "192.0.2.9", some "192.0.2.1") ∧
    (latest "w1" rounds.flatten).map (·.ip) = some "192.0.2.9" := by
  have hrounds : ((soloPlane.scriptedRound goesOnline).bind fun q₁ =>
      (q₁.2.scriptedRound [reachedAt "192.0.2.9"]).map fun q₂ =>
        (q₂.2.addresses "w1", (latest "w1" [q₁.1, q₂.1].flatten).map (·.ip))) =
      some ((some "192.0.2.9", some "192.0.2.1"), some "192.0.2.9") := by decide +kernel
  obtain ⟨⟨as₁, l₁⟩, h₁, hrounds⟩ := Option.bind_eq_some_iff.mp hrounds
  obtain ⟨⟨as₂, l₂⟩, h₂, hview⟩ := Option.map_eq_some_iff.mp hrounds
  obtain ⟨haddresses, hlatest⟩ := Prod.mk.inj hview
  exact ⟨[as₁, as₂], l₂, .cons (round_of_scriptedRound h₁)
    (.cons (round_of_scriptedRound h₂) (.nil _)), haddresses, hlatest⟩

omit [Add F] [Sub F] [Mul F] [OfScientific F] [LinearOrder F] in
/-- An agent that is offline before a round, or has the same address and name after it, is
    steady. -/
theorem steady_of_order {l l' : ControlPlane F} {id : String} (horder : l.registry.order = [id])
    (h : (l.registry.get? id).map (·.online) = some false ∨
      (l.registry.get? id).map (fun a => (a.ip, a.helo)) =
        (l'.registry.get? id).map fun a => (a.ip, a.helo)) : l.Steady l' := by
  intro i a a' ha ha' honline _
  obtain rfl : i = id := by
    have hmem := OrderedMap.mem_order_of_get? ha
    rw [horder] at hmem
    exact List.mem_singleton.mp hmem
  -- an agent that was offline is not looked at
  rcases h with h | h
  · rw [ha, Option.map_some, honline] at h
    cases h
  · rw [ha, ha', Option.map_some, Option.map_some, Option.some.injEq, Prod.mk.injEq] at h
    exact ⟨h.1.symm, h.2.symm⟩

/-- The agent is reached twice under one address. -/
theorem fleet_view_iff_solo : ∃ rounds l, Run Round soloPlane rounds l ∧ l.Agrees ∧
    l.addresses "w1" = (some "192.0.2.1", some "192.0.2.1") := by
  have hrounds : ((soloPlane.scriptedRound goesOnline).bind fun q₁ =>
      (q₁.2.scriptedRound [reachedAt "192.0.2.1"]).map fun q₂ =>
        (q₂.2.addresses "w1", (q₁.2.registry.get? "w1").map (fun a => (a.ip, a.helo)),
          (q₂.2.registry.get? "w1").map fun a => (a.ip, a.helo))) =
      some ((some "192.0.2.1", some "192.0.2.1"), some ("192.0.2.1", "mail.example.org"),
        some ("192.0.2.1", "mail.example.org")) := by decide +kernel
  obtain ⟨⟨as₁, l₁⟩, h₁, hrounds⟩ := Option.bind_eq_some_iff.mp hrounds
  obtain ⟨⟨as₂, l₂⟩, h₂, hview⟩ := Option.map_eq_some_iff.mp hrounds
  simp only [Prod.mk.injEq] at hview
  obtain ⟨haddresses, hbefore, hafter⟩ := hview
  -- two rounds: the agent goes online, and is checked again
  have hround₁ := round_of_scriptedRound h₁
  have hround₂ := round_of_scriptedRound h₂
  have hrun : Run Round soloPlane [as₁, as₂] l₂ := .cons hround₁ (.cons hround₂ (.nil _))
  have hsteady₁ : soloPlane.Steady l₁ := steady_of_order rfl (.inl rfl)
  have hsteady₂ : l₁.Steady l₂ :=
    steady_of_order hround₁.order (.inr (hbefore.trans hafter.symm))
  have hnew : Agent.Registry.new [soloAgent] = .ok soloRegistry := rfl
  have hview := (fleet_view_iff hnew rfl rfl hrun).2.2.mpr
    (.cons ⟨hsteady₁, hround₁⟩ (.cons ⟨hsteady₂, hround₂⟩ (.nil _)))
  obtain ⟨l, -, hagrees, -⟩ := Run.snoc_iff.mp (show Run _ _ ([as₁] ++ [as₂]) _ from hview)
  exact ⟨_, l₂, hrun, hagrees, haddresses⟩

end ControlPlane

end Rcptto.Native
