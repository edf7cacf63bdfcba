import Rcptto.Spec.FleetView

/-!
# No probe before first contact

`NewRegistry` promises that the control plane never routes a probe to an agent it has not
reached. An agent's record starts offline, and only the callback of a successful check, one in
which the agent reports the id it is configured with, puts it online. The callbacks run at any
later time, in any order and between any other calls.

## Key results

- `ControlPlane.Introduced.step`: an agent that is online, or about to be, has been reached
- `ControlPlane.report_of_binding`: every `Binding` that returns an agent comes after a successful
  check of that agent
-/

namespace Rcptto.Native

namespace ControlPlane

variable {F : Type} [Add F] [Sub F] [Mul F] [OfScientific F] [LinearOrder F]
  {u u' : ControlPlane F} {hist : List (PlaneAction F)} {b : PlaneAction F} {id : String}

/-- The agent has been reached at least once. -/
def Reached (id : String) (hist : List (PlaneAction F)) : Prop :=
  ∃ a ∈ hist, (a.report id).isSome

omit [Add F] [Sub F] [Mul F] [OfScientific F] [LinearOrder F] in
theorem Reached.snoc (h : Reached id hist) : Reached id (hist ++ [b]) := by
  obtain ⟨a, ha, hreport⟩ := h
  exact ⟨a, List.mem_append_left _ ha, hreport⟩

/-- The agent has a record, and if that is online, or a callback is about to put it online, the
    agent has been reached. -/
structure Introduced (id : String) (hist : List (PlaneAction F)) (u : ControlPlane F) : Prop where
  record : ∃ r, u.loop.manager.get? id = some r ∧ (r.online = true → Reached id hist)
  callbacks : ∀ ops ∈ u.callbacks, .setOnline id true ∈ ops → Reached id hist

/-- A call that does not put the agent online. -/
theorem Introduced.manager {e : Event F} {m : Manager F} (h : Introduced id hist u)
    (hstep : u.loop.manager.Step e m) (hop : e.op = .setOnline id true → Reached id hist) :
    ∃ r, m.get? id = some r ∧ (r.online = true → Reached id hist) := by
  obtain ⟨r, hr, honline⟩ := h.record
  have hkey : r.id = id := u.loop.manager.pool.key_eq id r hr
  refine ⟨e.effect r, hstep.get? hr, fun hon => ?_⟩
  -- only `SetOnline` and `AddIdentity` concern an identity, and only the first one makes it
  -- reachable
  cases hconcerns : e.op.concerns r.id with
  | false =>
    rw [(Event.effect_of_concerns hconcerns).1] at hon
    exact honline hon
  | true =>
    cases hc : e.op with
    | setOnline i online =>
      simp only [hc, Op.concerns, beq_iff_eq] at hconcerns
      simp only [Event.effect, hc, hconcerns, if_true, Record.setOnline] at hon
      exact hop (by rw [hc, hconcerns, hkey, hon])
    | addIdentity spec =>
      simp only [hc, Op.concerns, beq_iff_eq] at hconcerns
      simp only [Event.effect, hc, hconcerns, if_true, Record.setSpec] at hon
      exact honline hon
    | _ => simp [hc, Op.concerns] at hconcerns

omit [Add F] [Sub F] [Mul F] [OfScientific F] [LinearOrder F] in
/-- A check whose callback puts the agent online is a successful one. -/
theorem report_of_onChange {r : Agent.Registry} {i : String}
    {answer : Except String Agent.HealthResponse} {now : Int} {info : Agent.AgentInfo}
    (h : (r.check i answer now).2 = some info)
    (hop : (.setOnline id true : Op F) ∈ Agent.onChange info) :
    ((.check i answer now : PlaneAction F).report id).isSome := by
  have hid := Agent.Registry.id_of_check h
  obtain ⟨rfl, honline⟩ : id = info.id ∧ info.online = true := by
    rcases List.mem_cons.mp hop with heq | hmem
    · simp only [Op.setOnline.injEq] at heq
      exact ⟨heq.1, heq.2.symm⟩
    · split at hmem <;> simp at hmem
  -- a callback reports what the check has found
  cases ha : r.get? i with
  | none => simp [Agent.Registry.check, ha] at h
  | some a =>
    rw [Agent.Registry.check_snd ha] at h
    split at h
    · cases h
      have hcfg : a.cfg.id = i := r.key_eq i a ha
      cases answer with
      | error err => cases honline
      | ok health =>
        by_cases hhealth : health.id = i
        · simp [PlaneAction.report, hid, hhealth]
        · simp [Agent.AgentState.info, Agent.AgentState.checked, hcfg, hhealth] at honline
    · cases h

/-- One step: an identity is reachable, or about to be, only after a report. -/
theorem Introduced.step (h : Introduced id hist u) (hstep : u.Step b u')
    (hproper : b.proper = true) : Introduced id (hist ++ [b]) u' := by
  obtain ⟨r, hr, honline⟩ := h.record
  -- a step without callbacks, a check, or a callback
  rcases hstep.cases with hb | ⟨i, answer, now, rfl, rfl⟩ |
      ⟨k, e, rest, -, hk, hcall, -, hcallbacks⟩
  · obtain ⟨-, hcallbacks, hmanager⟩ := hstep.quiet hb
    refine ⟨?_, fun ops hops hop => (h.callbacks ops (hcallbacks ▸ hops) hop).snoc⟩
    rcases hmanager with hsame | ⟨e, hcall, hindifferent⟩
    · exact ⟨r, by rw [hsame]; exact hr, fun hon => (honline hon).snoc⟩
    · have hne : e.op = .setOnline id true → Reached id hist := by
        intro hop
        have := hindifferent hproper
        rw [hop] at this
        cases this
      obtain ⟨r', hr', honline'⟩ := h.manager hcall hne
      exact ⟨r', hr', fun hon => (honline' hon).snoc⟩
  · refine ⟨⟨r, hr, fun hon => (honline hon).snoc⟩, fun ops hops hop => ?_⟩
    rcases List.mem_append.mp hops with hold | hnew
    · exact (h.callbacks ops hold hop).snoc
    · -- the callback of this very check
      obtain ⟨info, hinfo, rfl⟩ := List.mem_map.mp hnew
      exact ⟨_, List.mem_append_right _ List.mem_cons_self,
        report_of_onChange (Option.mem_toList.mp hinfo) hop⟩
  · have hmem := List.mem_of_getElem? hk
    obtain ⟨r', hr', honline'⟩ := h.manager hcall fun hop =>
      h.callbacks _ hmem (hop ▸ List.mem_cons_self)
    refine ⟨⟨r', hr', fun hon => (honline' hon).snoc⟩, fun ops hops hop => ?_⟩
    rw [hcallbacks] at hops
    rcases List.mem_or_eq_of_mem_set hops with hold | rfl
    · exact (h.callbacks ops hold hop).snoc
    · exact (h.callbacks _ hmem (List.mem_cons_of_mem _ hop)).snoc

/-- The call of a `Binding`. -/
def bindingOf : PlaneAction F → Option (Event F)
  | .loop (.binding e) => some e
  | _ => none

/-- Every `Binding` that returns an agent comes after a successful check of that agent, whatever
    the operator, the probes and the callbacks under way do. -/
theorem report_of_binding {helo mailFrom : String} {start : Int} {states : List (EgressState F)}
    {agents : List (String × Int)} {cfgs : List Agent.AgentConfig} {registry : Agent.Registry}
    (hnew : Agent.Registry.new cfgs = .ok registry)
    (hagents : agents.map (·.1) = cfgs.map (·.id)) {before after : List (PlaneAction F)}
    {e : Event F}
    (hrun : (startUp helo mailFrom start states agents registry).Runs
      (before ++ .loop (.binding e) :: after) u)
    (hproper : ∀ a ∈ before, a.proper = true) (hremote : registry.isRemote id = true)
    (hret : e.returns id = true) : ∃ a ∈ before, (a.report id).isSome := by
  obtain ⟨a, ha⟩ := Option.isSome_iff_exists.mp hremote
  have hsynced : Synced (startUp helo mailFrom start states agents registry) :=
    synced_startUp hnew hagents
  obtain ⟨r, hr, hoffline⟩ := hsynced.online id a ha
  obtain ⟨v, w, hbefore, hstep, -⟩ := hrun.split_cons
  have hinit : Introduced id ([] : List (PlaneAction F))
      (startUp helo mailFrom start states agents registry) := by
    refine ⟨⟨r, hr, fun hon => ?_⟩, fun ops hops => by cases hops⟩
    rw [hoffline] at hon
    rw [(Agent.Registry.new_spec hnew).2.2 id a ha] at hon
    cases hon
  have hinv : (∀ a ∈ before, a.proper = true) → Introduced id before v := by
    refine hbefore.history (I := fun hist v => (∀ a ∈ hist, a.proper = true) →
      Introduced id hist v) (fun _ => hinit) fun hist s b t _ ih hs hall => ?_
    exact (ih fun a ha => hall a (List.mem_append_left _ ha)).step hs (hall b (by simp))
  -- an identity that is returned was online
  obtain ⟨-, ⟨t, hop, hcall, -⟩, -⟩ := hstep
  obtain ⟨r', hr', hel⟩ := hcall.eligible_of_returns hop hret
  obtain ⟨r'', hr'', honline⟩ := (hinv hproper).record
  obtain rfl : r' = r'' := Option.some.inj (hr'.symm.trans hr'')
  exact honline (by simpa using hel.online)

/-- The agent is reached, the local identity gets a probe, and the next one goes to the agent. -/
theorem report_of_binding_solo : ∃ before e l, soloPlane.Runs (before ++ [.loop (.binding e)]) l ∧
    e.returns "w1" = true ∧ ∃ a ∈ before, (a.report "w1").isSome := by
  have hnext : ((soloPlane.perform (goesOnline ++ [.binding 1 gmailTask])).bind fun p =>
      (p.2.exec (.binding 2 gmailTask)).bind fun q =>
        (bindingOf q.1).map fun e => (e.returns "w1", p.1.all (·.proper))) = some (true, true) := by
    decide +kernel
  obtain ⟨⟨before, v⟩, hbefore, hnext⟩ := Option.bind_eq_some_iff.mp hnext
  obtain ⟨⟨b, l⟩, hb, hnext⟩ := Option.bind_eq_some_iff.mp hnext
  obtain ⟨e, he, hvalues⟩ := Option.map_eq_some_iff.mp hnext
  simp only [Prod.mk.injEq, List.all_eq_true] at hvalues
  obtain rfl : b = .loop (.binding e) := by
    unfold bindingOf at he
    split at he
    · next heq =>
      cases he
      exact heq
    · cases he
  have hrun : soloPlane.Runs (before ++ [.loop (.binding e)]) l :=
    Run.snoc_iff.mpr ⟨v, runs_of_perform hbefore, step_of_exec hb⟩
  have hnew : Agent.Registry.new [soloAgent] = .ok soloRegistry := rfl
  exact ⟨before, e, l, hrun, hvalues.1,
    report_of_binding hnew (by decide) hrun hvalues.2 (by decide) hvalues.1⟩

end ControlPlane

end Rcptto.Native
